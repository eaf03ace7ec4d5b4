import DocumentClient.Proofs.Session.OptionFields

/-!
# Results of paths belong to their specs

Specs are sent in their order, and what a server says about them is read in the same order: the
result has one entry for each spec, made from what was said about this spec. Text that is no JSON
anywhere, or an answer with another number of entries, leaves no result at all. Main statement:
`Session.results_follow_specs`.
-/

namespace DocumentClient

section
variable {α β ε : Type} {f : α → Except ε β} {xs : List α}

theorem mapM_eq_ok {g : α → β} (each : ∀ x ∈ xs, f x = .ok (g x)) :
    xs.mapM f = .ok (xs.map g) := by
  induction xs with
  | nil => rfl
  | cons x rest ih =>
    rw [List.forall_mem_cons] at each
    rw [List.mapM_cons, each.1, ih each.2]
    rfl

/-- One element that fails is enough. -/
theorem mapM_eq_error {P : ε → Prop} (faults : ∀ x ∈ xs, ∀ e, f x = .error e → P e)
    (failing : ∃ x ∈ xs, ∃ e, f x = .error e) : ∃ e, xs.mapM f = .error e ∧ P e := by
  induction xs with
  | nil =>
    obtain ⟨x, mem, -⟩ := failing
    cases mem
  | cons x rest ih =>
    rw [List.forall_mem_cons] at faults
    rw [List.mapM_cons]
    cases hx : f x with
    | error e => exact ⟨e, rfl, faults.1 e hx⟩
    | ok y =>
      have later : ∃ x ∈ rest, ∃ e, f x = .error e := by
        obtain ⟨z, mem, e, he⟩ := failing
        rcases List.mem_cons.mp mem with rfl | mem
        · rw [hx] at he
          cases he
        · exact ⟨z, mem, e, he⟩
      obtain ⟨e, failed, fault⟩ := ih faults.2 later
      exact ⟨e, by rw [failed]; rfl, fault⟩

end

/-- JSON, where there is text at all. -/
def Readable (text? : Option Bytes) : Prop :=
  ∀ text, text? = some text → ∃ v, Json.parse text = .ok v

/-- The value of a text that is JSON. -/
def decoded (text? : Option Bytes) : Option Json.Value :=
  text?.bind fun text => (Json.parse text).toOption

/-- The text about a looked up path; none is sent as empty. -/
def Wire.LookupEntry.text? (entry : Wire.LookupEntry) : Option Bytes :=
  if entry.content = [] then none else some entry.content

namespace MutateResult

theorem readEntry_some (text : Bytes) :
    readEntry ⟨some text⟩ =
      ((Json.parse text).map some).mapError fun fault => .content (.json fault) := by
  rw [readEntry, Serializer.plain]
  dsimp only
  cases Json.parse text <;> rfl

theorem readEntry_of_readable {text? : Option Bytes} (readable : Readable text?) :
    readEntry ⟨text?⟩ = .ok (decoded text?) := by
  cases text? with
  | none => rfl
  | some text =>
    obtain ⟨v, parsed⟩ := readable text rfl
    rw [readEntry_some, decoded, Option.bind_some, parsed]
    rfl

theorem readEntry_of_not_readable {text? : Option Bytes} (unreadable : ¬ Readable text?) :
    ∃ e, readEntry ⟨text?⟩ = .error e := by
  cases text? with
  | none =>
    refine absurd ?_ unreadable
    rintro text ⟨⟩
  | some text =>
    rw [readEntry_some]
    cases parsed : Json.parse text with
    | ok v =>
      refine absurd ?_ unreadable
      rintro text ⟨⟩
      exact ⟨v, parsed⟩
    | error fault => exact ⟨_, rfl⟩

/-- Text is refused only for what it says. -/
theorem kind_of_readEntry {text? : Option Bytes} {e : Error}
    (h : readEntry ⟨text?⟩ = .error e) : e.kind = .valueFormat := by
  cases text? with
  | none => cases h
  | some text =>
    rw [readEntry_some] at h
    cases parsed : Json.parse text with
    | ok v =>
      rw [parsed] at h
      cases h
    | error fault =>
      rw [parsed] at h
      cases h
      rfl

theorem readEntries_eq (entries : List Wire.MutateEntry) :
    readEntries entries = entries.mapM readEntry := by
  induction entries with
  | nil => rfl
  | cons entry rest ih =>
    rw [readEntries, List.mapM_cons, ih]
    cases readEntry entry with
    | error e => rfl
    | ok v => cases rest.mapM readEntry <;> rfl

end MutateResult

namespace LookupResult

/-- A path is looked up like any text is read, and keeps its status. -/
theorem readField_eq (spec : LookupSpec) (entry : Wire.LookupEntry) :
    readField spec entry =
      (MutateResult.readEntry ⟨entry.text?⟩).map fun v => ⟨spec.path, entry.status, v⟩ := by
  rw [readField, Wire.LookupEntry.text?]
  by_cases empty : entry.content = []
  · rw [if_pos empty, if_pos empty]
    rfl
  · rw [if_neg empty, if_neg empty, MutateResult.readEntry]
    dsimp only
    cases orContentFault (Serializer.plain.read entry.content) <;> rfl

/-- With an entry for each spec nothing shifts. -/
theorem readFields_eq (specs : List LookupSpec) (said : LookupSpec → Wire.LookupEntry) :
    readFields specs (specs.map said) = specs.mapM fun spec => readField spec (said spec) := by
  induction specs with
  | nil => rfl
  | cons spec rest ih =>
    rw [List.map_cons, readFields, List.mapM_cons, ih]
    cases readField spec (said spec) with
    | error e => rfl
    | ok f => cases rest.mapM fun spec => readField spec (said spec) <;> rfl

end LookupResult

/-- The answer to a call that returns a result. -/
def Answer.ofResult {α : Type} (answer : α → Answer) (result : Except Error α) : Answer :=
  .ofOutcome answer (.of result)

@[simp] theorem Answer.ofResult_ok {α : Type} (answer : α → Answer) (a : α) :
    ofResult answer (.ok a) = answer a := rfl

@[simp] theorem Answer.ofResult_error {α : Type} (answer : α → Answer) (e : Error) :
    ofResult answer (.error e) = .failed e := rfl

/-- An answer made from what a server says about each of some things: an entry for each of them, or
no result at all. -/
structure AnswersAll {α β : Type} (xs : List α) (text? : α → Option Bytes)
    (entry : α → Option Json.Value → β) (result : List β → Answer) (answer : Answer) : Prop where
  whole : (∀ x ∈ xs, Readable (text? x)) →
    answer = result (xs.map fun x => entry x (decoded (text? x)))
  nothing : (∃ x ∈ xs, ¬ Readable (text? x)) → ∃ e, answer = .failed e ∧ e.kind = .valueFormat

theorem answersAll {α β γ : Type} (xs : List α) (text? : α → Option Bytes)
    (entry : α → Option Json.Value → β) (make : List β → γ) (answer : γ → Answer) :
    AnswersAll xs text? entry (fun entries => answer (make entries))
      (.ofResult answer
        ((xs.mapM fun x => (MutateResult.readEntry ⟨text? x⟩).map (entry x)).map make)) := by
  constructor
  · intro readable
    have read : ∀ x ∈ xs, (MutateResult.readEntry ⟨text? x⟩).map (entry x) =
        .ok (entry x (decoded (text? x))) := by
      intro x mem
      rw [MutateResult.readEntry_of_readable (readable x mem)]
      rfl
    rw [mapM_eq_ok read]
    rfl
  · rintro ⟨x, mem, unreadable⟩
    have faults : ∀ y ∈ xs, ∀ e, (MutateResult.readEntry ⟨text? y⟩).map (entry y) = .error e →
        e.kind = .valueFormat := by
      intro y _ e failed
      cases read : MutateResult.readEntry ⟨text? y⟩ with
      | ok v =>
        rw [read] at failed
        cases failed
      | error why =>
        rw [read] at failed
        cases failed
        exact MutateResult.kind_of_readEntry read
    obtain ⟨why, refused⟩ := MutateResult.readEntry_of_not_readable unreadable
    obtain ⟨e, failed, kind⟩ := mapM_eq_error faults ⟨x, mem, why, by rw [refused]; rfl⟩
    rw [failed]
    exact ⟨e, rfl, kind⟩

namespace LookupResult

theorem ofWire_eq {specs : List LookupSpec} {w : Wire.LookupInResponse}
    (counted : w.specs.length = specs.length) :
    ofWire specs w = (readFields specs w.specs).map fun fields => ⟨w.cas, fields⟩ := by
  rw [ofWire, if_neg (not_not_intro counted)]
  cases readFields specs w.specs <;> rfl

theorem ofWire_of_miscounted {specs : List LookupSpec} {w : Wire.LookupInResponse}
    (miscounted : w.specs.length ≠ specs.length) :
    ofWire specs w = .error (.entryCount w.specs.length specs.length) := by
  rw [ofWire, if_pos miscounted]

theorem answersAll_ofWire {specs : List LookupSpec} {w : Wire.LookupInResponse}
    {f : Wire.LookupSpec → Wire.LookupEntry}
    (said : w.specs = (specs.map LookupSpec.toWire).map f) :
    AnswersAll specs (fun spec => (f spec.toWire).text?)
      (fun spec v => ⟨spec.path, (f spec.toWire).status, v⟩)
      (fun fields => .lookedUp ⟨w.cas, fields⟩) (.ofResult .lookedUp (ofWire specs w)) := by
  have counted : w.specs.length = specs.length := by simp [said]
  rw [List.map_map] at said
  rw [ofWire_eq counted, said, readFields_eq]
  simp only [readField_eq]
  exact answersAll specs _ _ _ _

end LookupResult

namespace MutateResult

theorem readToken_of_small {w : Option Wire.MutationToken}
    (small : ∀ t, w = some t → t.partition.toNat ≤ 65535) :
    readToken w = .ok (w.bind MutationToken.ofWire?) := by
  cases w with
  | none => rfl
  | some t =>
    have fits : t.partition.toNat < UInt16.size := Nat.lt_succ_of_le (small t rfl)
    rw [readToken, Option.bind_some, MutationToken.ofWire?, if_pos fits]

theorem ofWire_eq {specs : List MutateSpec} {w : Wire.MutateInResponse}
    (counted : w.specs.length = specs.length)
    (small : ∀ t, w.token = some t → t.partition.toNat ≤ 65535) :
    ofWire specs w = (readEntries w.specs).map fun contents =>
      ⟨w.cas, w.token.bind MutationToken.ofWire?, contents⟩ := by
  rw [ofWire, if_neg (not_not_intro counted), readToken_of_small small]
  cases readEntries w.specs <;> rfl

theorem ofWire_of_miscounted {specs : List MutateSpec} {w : Wire.MutateInResponse}
    (miscounted : w.specs.length ≠ specs.length) :
    ofWire specs w = .error (.entryCount w.specs.length specs.length) := by
  rw [ofWire, if_pos miscounted]

theorem answersAll_ofWire {specs : List MutateSpec} {ws : List Wire.MutateSpec}
    (sent : specs.map MutateSpec.toWire = ws.map .ok) {w : Wire.MutateInResponse}
    {f : Wire.MutateSpec → Wire.MutateEntry} (said : w.specs = ws.map f)
    (small : ∀ t, w.token = some t → t.partition.toNat ≤ 65535) :
    AnswersAll ws (fun spec => (f spec).content) (fun _ v => v)
      (fun contents => .changed ⟨w.cas, w.token.bind MutationToken.ofWire?, contents⟩)
      (.ofResult .changed (ofWire specs w)) := by
  have counted : w.specs.length = specs.length := by
    have lengths := congrArg List.length sent
    rw [List.length_map, List.length_map] at lengths
    rw [said, List.length_map, lengths]
  rw [ofWire_eq counted small, said, readEntries_eq, List.mapM_map]
  have read : readEntry ∘ f = fun spec => (readEntry ⟨(f spec).content⟩).map fun v => v := by
    funext spec
    change readEntry ⟨(f spec).content⟩ = _
    cases readEntry ⟨(f spec).content⟩ <;> rfl
  rw [read]
  exact answersAll ws _ _ _ _

end MutateResult

/-- All specs are sent, in their order. -/
theorem MutateSpec.map_toWire_of_allToWire {specs : List MutateSpec} {ws : List Wire.MutateSpec}
    (h : allToWire specs = .ok ws) : specs.map toWire = ws.map .ok := by
  induction specs generalizing ws with
  | nil =>
    cases h
    rfl
  | cons spec rest ih =>
    rw [allToWire] at h
    cases hw : spec.toWire with
    | error why =>
      rw [hw] at h
      cases h
    | ok w =>
      cases hr : allToWire rest with
      | error why =>
        rw [hw, hr] at h
        cases h
      | ok later =>
        rw [hw, hr] at h
        cases h
        rw [List.map_cons, List.map_cons, hw, ih hr]

namespace Collection
variable {key : String} {options : CallOptions} {fields : RequestFields}

theorem lookupIn_eq (c : Collection) (configuration : Configuration) (valid : ValidKey key)
    (resolved : options.resolve .lookupIn = .ok fields) {specs : List LookupSpec}
    (given : specs ≠ []) :
    ∃ request : Wire.LookupInRequest, request.specs = specs.map LookupSpec.toWire ∧
      c.lookupIn configuration key specs options =
        .ok ⟨.lookupIn, key, limit configuration fields, .lookupIn, request,
          LookupResult.ofWire specs⟩ := by
  have started : c.start .lookupIn key options = .ok (c.keyspace.target key, fields) :=
    start_eq_ok_iff.mpr ⟨valid, rfl, resolved⟩
  rw [lookupIn, started, LookupSpec.listToWire, if_neg given]
  exact ⟨_, rfl, rfl⟩

theorem mutateIn_eq (c : Collection) (configuration : Configuration) (valid : ValidKey key)
    (resolved : options.resolve .mutateIn = .ok fields) {specs : List MutateSpec}
    (given : specs ≠ [])
    (contents : ∀ spec ∈ specs, ∃ content, spec.content = .ok content) :
    ∃ request : Wire.MutateInRequest, specs.map MutateSpec.toWire = request.specs.map .ok ∧
      c.mutateIn configuration key specs options =
        .ok ⟨.mutateIn, key, limit configuration fields, .mutateIn, request,
          MutateResult.ofWire specs⟩ := by
  have started : c.start .mutateIn key options = .ok (c.keyspace.target key, fields) :=
    start_eq_ok_iff.mpr ⟨valid, rfl, resolved⟩
  obtain ⟨ws, sent⟩ := MutateSpec.allToWire_isOk_iff.mpr contents
  obtain ⟨spec, durable, -⟩ := options.durability_of_resolve resolved
  have durable : durability fields = .ok spec := orRefuse_eq_ok_iff.mpr durable
  rw [mutateIn, started, MutateSpec.listToWire, if_neg given, sent]
  dsimp only [bind, Except.bind, orRefuse]
  rw [durable]
  exact ⟨_, MutateSpec.map_toWire_of_allToWire sent, rfl⟩

end Collection

theorem Peer.answer_receive_of_queued (peer : Peer) (call : Call)
    {reply : Except Status call.method.Reply}
    (queued : (peer.replies call.method).head? = some reply) : (peer.receive call).1 = reply := by
  obtain ⟨rest, queue⟩ := List.head?_eq_some_iff.mp queued
  rw [receive, queue]

namespace Session

/-- A call with this limit can be made, and the peer has a reply for it. -/
structure Serves (s : Session) (m : Method) (limit : Duration) (reply : m.Reply) : Prop where
  short : limit.hours ≤ Deadline.maxAmount
  inTime : s.peer.inTime limit = true
  queued : (s.peer.replies m).head? = some (.ok reply)

theorem exchange_of_serves {s : Session} {α : Type} {m : Method} {limit : Duration}
    {reply : m.Reply} (serves : s.Serves m limit reply) (operation : Operation)
    (resource : String) (request : m.Request) (read : m.Reply → Except Error α)
    (answer : α → Answer) :
    ∃ deadline, Deadline.header? limit = some deadline ∧
      s.exchange answer (.ok ⟨operation, resource, limit, m, request, read⟩) =
        (.ofResult answer (read reply),
          { s with peer := (s.peer.receive (s.client.call m request deadline)).2 }) := by
  obtain ⟨deadline, stated⟩ :=
    Option.isSome_iff_exists.mp ((Deadline.header?_isSome_iff limit).mpr serves.short)
  have answered :=
    s.peer.answer_receive_of_queued (s.client.call m request deadline) serves.queued
  refine ⟨deadline, stated, ?_⟩
  rw [exchange, Exchange.runPrepared, Exchange.run_of_inTime _ _ _ stated serves.inTime, answered]
  rfl

/-- A call that looks up paths, with what the server says about them. -/
structure LooksUp (s : Session) (specs : List LookupSpec) (reply : Wire.LookupInResponse)
    (done : Answer × Session) : Prop where
  sent : ∃ request limit deadline, request.specs = specs.map LookupSpec.toWire ∧
    Deadline.header? limit = some deadline ∧
    done.2.peer.received = s.peer.received ++ [s.client.call .lookupIn request deadline]
  answered : ∀ f : Wire.LookupSpec → Wire.LookupEntry,
    reply.specs = (specs.map LookupSpec.toWire).map f →
      AnswersAll specs (fun spec => (f spec.toWire).text?)
        (fun spec v => ⟨spec.path, (f spec.toWire).status, v⟩)
        (fun fields => .lookedUp ⟨reply.cas, fields⟩) done.1
  miscounted : reply.specs.length ≠ specs.length →
    ∃ e, done.1 = .failed e ∧ e.kind = .internal

/-- A call that changes paths, with what the server gives back for them. -/
structure ChangesPaths (s : Session) (specs : List MutateSpec) (reply : Wire.MutateInResponse)
    (done : Answer × Session) : Prop where
  sent : ∃ request limit deadline, specs.map MutateSpec.toWire = request.specs.map .ok ∧
    Deadline.header? limit = some deadline ∧
    done.2.peer.received = s.peer.received ++ [s.client.call .mutateIn request deadline]
  answered : ∀ (ws : List Wire.MutateSpec) (f : Wire.MutateSpec → Wire.MutateEntry),
    specs.map MutateSpec.toWire = ws.map .ok → reply.specs = ws.map f →
    (∀ t, reply.token = some t → t.partition.toNat ≤ 65535) →
      AnswersAll ws (fun w => (f w).content) (fun _ v => v)
        (fun contents =>
          .changed ⟨reply.cas, reply.token.bind MutationToken.ofWire?, contents⟩) done.1
  miscounted : reply.specs.length ≠ specs.length →
    ∃ e, done.1 = .failed e ∧ e.kind = .internal

section
variable {s : Session} {c : Collection} {key : String} {options : CallOptions}
  {fields : RequestFields}

theorem lookupIn_looksUp (valid : ValidKey key)
    (resolved : options.resolve .lookupIn = .ok fields) {specs : List LookupSpec}
    (given : specs ≠ []) {reply : Wire.LookupInResponse}
    (serves : s.Serves .lookupIn (Collection.limit s.configuration fields) reply) :
    LooksUp s specs reply (s.perform (.lookupIn c key specs options)) := by
  obtain ⟨request, sent, prepared⟩ :=
    c.lookupIn_eq s.configuration valid resolved given
  obtain ⟨deadline, stated, ran⟩ := exchange_of_serves serves _ _ request _ _
  rw [perform, prepared, ran]
  constructor
  · exact ⟨request, _, deadline, sent, stated, s.peer.received_receive _⟩
  · exact fun f said => LookupResult.answersAll_ofWire said
  · intro miscounted
    dsimp only
    rw [LookupResult.ofWire_of_miscounted miscounted]
    exact ⟨_, rfl, rfl⟩

theorem mutateIn_changesPaths (valid : ValidKey key)
    (resolved : options.resolve .mutateIn = .ok fields) {specs : List MutateSpec}
    (given : specs ≠ []) (contents : ∀ spec ∈ specs, ∃ content, spec.content = .ok content)
    {reply : Wire.MutateInResponse}
    (serves : s.Serves .mutateIn (Collection.limit s.configuration fields) reply) :
    ChangesPaths s specs reply (s.perform (.mutateIn c key specs options)) := by
  obtain ⟨request, sent, prepared⟩ :=
    c.mutateIn_eq s.configuration valid resolved given contents
  obtain ⟨deadline, stated, ran⟩ := exchange_of_serves serves _ _ request _ _
  rw [perform, prepared, ran]
  constructor
  · exact ⟨request, _, deadline, sent, stated, s.peer.received_receive _⟩
  · exact fun ws f sent said small => MutateResult.answersAll_ofWire sent said small
  · intro miscounted
    dsimp only
    rw [MutateResult.ofWire_of_miscounted miscounted]
    exact ⟨_, rfl, rfl⟩

end

/-- Whatever a server says about paths that are looked up or changed, the result has an entry for
each spec, in the order of the specs and made from what was said about this spec; or there is no
result. -/
theorem results_follow_specs (s : Session) (c : Collection) {key : String} (valid : ValidKey key)
    (options : CallOptions) (fields : RequestFields) :
    (∀ specs reply, options.resolve .lookupIn = .ok fields → specs ≠ [] →
      s.Serves .lookupIn (Collection.limit s.configuration fields) reply →
      LooksUp s specs reply (s.perform (.lookupIn c key specs options))) ∧
    ∀ specs reply, options.resolve .mutateIn = .ok fields → specs ≠ [] →
      (∀ spec ∈ specs, ∃ content, spec.content = .ok content) →
      s.Serves .mutateIn (Collection.limit s.configuration fields) reply →
      ChangesPaths s specs reply (s.perform (.mutateIn c key specs options)) := by
  constructor
  · intro specs reply resolved given serves
    exact lookupIn_looksUp valid resolved given serves
  · intro specs reply resolved given contents serves
    exact mutateIn_changesPaths valid resolved given contents serves

theorem results_follow_specs_of_mixed :
    let c : Collection := { keyspace := ⟨"travel", "_default", "hotels"⟩ }
    let specs : List LookupSpec := [⟨.get, "a", false⟩, ⟨.probe, "b", true⟩, ⟨.count, "c", false⟩]
    let f : Wire.LookupSpec → Wire.LookupEntry := fun w =>
      if w.path = "b" then { status := some { code := 5, message := "gone" } }
      else { content := [49] }
    let reply : Wire.LookupInResponse := { cas := 7, specs := (specs.map LookupSpec.toWire).map f }
    let s : Session :=
      { client := { configuration := {} }, peer := Peer.setReplies {} .lookupIn [.ok reply] }
    let changes : List MutateSpec := [.increment "n" 1, .remove "x"]
    let back : Wire.MutateInResponse := { cas := 8, specs := [⟨some [91]⟩, {}] }
    let t : Session :=
      { client := { configuration := {} }, peer := Peer.setReplies {} .mutateIn [.ok back] }
    (s.perform (.lookupIn c "k" specs {})).1 =
      .lookedUp ⟨7, [⟨"a", none, some (.number (.whole 1))⟩,
        ⟨"b", some { code := 5, message := "gone" }, none⟩,
        ⟨"c", none, some (.number (.whole 1))⟩]⟩ ∧
    ∃ e, (t.perform (.mutateIn c "k" changes {})).1 = .failed e ∧ e.kind = .valueFormat := by
  intro c specs f reply s changes back t
  have valid : ValidKey "k" := by decide
  constructor
  · have done := (results_follow_specs s c valid {} _).1 specs reply rfl (by decide)
      ⟨by decide, s.peer.inTime_of_undelayed rfl _, rfl⟩
    refine (done.answered f rfl).whole ?_
    rw [List.forall_mem_cons, List.forall_mem_cons, List.forall_mem_singleton]
    refine ⟨?_, ?_, ?_⟩
    all_goals
      rintro text ⟨⟩
    exacts [⟨_, rfl⟩, ⟨_, rfl⟩]
  · have contents : ∀ spec ∈ changes, ∃ content, spec.content = .ok content := by
      rw [List.forall_mem_cons, List.forall_mem_singleton]
      exact ⟨⟨_, rfl⟩, ⟨_, rfl⟩⟩
    have done := (results_follow_specs t c valid {} _).2 changes back rfl (by decide) contents
      ⟨by decide, t.peer.inTime_of_undelayed rfl _, rfl⟩
    refine (done.answered [_, _] (fun w => if w.operation = 8 then ⟨some [91]⟩ else {}) rfl rfl
      (by rintro t ⟨⟩)).nothing ⟨_, List.mem_cons_self, ?_⟩
    intro readable
    obtain ⟨v, parsed⟩ := readable [91] rfl
    cases parsed

end Session
end DocumentClient
