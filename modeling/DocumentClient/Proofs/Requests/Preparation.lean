import DocumentClient.Proofs.Options.Fields
import DocumentClient.Proofs.Requests.Parts
import DocumentClient.Session

/-!
# Prepared calls

Each operation is prepared by a chain of checks. One lemma for each operation says which
arguments pass and that what then goes out is a well-formed call of the operation's own method,
limited by its own timeout or else by the one of its service.
Whether a durability can be sent is no check of its own: resolved options never ask for two.
-/

namespace DocumentClient

namespace Exchange
variable {α : Type}

/-- An exchange in time hands over the peer as its one call leaves it. -/
theorem run_of_inTime (x : Exchange α) (client : Client) (peer : Peer) {deadline : String}
    (stated : Deadline.header? x.limit = some deadline) (inTime : peer.inTime x.limit = true) :
    x.run client peer =
      (.of (((peer.receive (client.call x.method x.request deadline)).1.mapError
          Error.ofStatus).bind x.read),
        (peer.receive (client.call x.method x.request deadline)).2) := by
  rw [run, stated]
  simp only [inTime, if_true]
  rcases peer.receive (client.call x.method x.request deadline) with ⟨reply | status, after⟩ <;>
    rfl

/-- With a limit that no header can state nothing is sent and nothing is returned. -/
theorem run_of_unstated (x : Exchange α) (client : Client) (peer : Peer)
    (unstated : Deadline.header? x.limit = none) : x.run client peer = (.crashed, peer) := by
  rw [run, unstated]

/-- The peer is left alone or receives the one call, with a header for its limit. -/
theorem peer_run (x : Exchange α) (client : Client) (peer : Peer) :
    (x.run client peer).2 = peer ∨ ∃ deadline, Deadline.header? x.limit = some deadline ∧
      (x.run client peer).2 = (peer.receive (client.call x.method x.request deadline)).2 := by
  cases stated : Deadline.header? x.limit with
  | none =>
    rw [x.run_of_unstated client peer stated]
    exact .inl rfl
  | some deadline =>
    by_cases inTime : peer.inTime x.limit
    · rw [x.run_of_inTime client peer stated inTime]
      exact .inr ⟨deadline, rfl, rfl⟩
    · rw [run, stated]
      simp only [inTime, if_false, Bool.false_eq_true]
      exact .inl trivial

end Exchange

/-- The options of a call resolve. -/
def CallOptions.Resolves (options : CallOptions) (operation : Operation) : Prop :=
  ∃ fields, options.resolve operation = .ok fields

/-- A transcoder takes content. -/
def Transcoder.Takes (transcoder : Transcoder) (doc : Document) : Prop :=
  ∃ content, transcoder.encode doc = .ok content

/-- The time for an operation: its own timeout, or else the one of its service. -/
def CallOptions.Limits (options : CallOptions) (operation : Operation) (service limit : Duration) :
    Prop :=
  ∃ fields, options.resolve operation = .ok fields ∧ limit = fields.timeout?.getD service

/-- What `prepared` lets through is `accepted`, and it goes out as a well-formed call of a
method with an allowed limit. -/
structure Prepares {α : Type} (m : Method) (allowed : Duration → Prop) (accepted : Prop)
    (prepared : Except Error (Exchange α)) : Prop where
  accepts : (∃ x, prepared = .ok x) ↔ accepted
  sound : ∀ x, prepared = .ok x → x.method = m ∧ x.method.WellFormed x.request
  limited : ∀ x, prepared = .ok x → allowed x.limit

namespace Prepares
variable {α β : Type} {m : Method} {allowed : Duration → Prop} {accepted : Prop}

theorem ready {x : Exchange α} (method : x.method = m)
    (wellFormed : x.method.WellFormed x.request) (limited : allowed x.limit) :
    Prepares m allowed True (pure x) := by
  constructor
  · exact ⟨fun _ => trivial, fun _ => ⟨x, rfl⟩⟩
  · rintro y hy
    cases hy
    exact ⟨method, wellFormed⟩
  · rintro y hy
    cases hy
    exact limited

/-- One check before the others. -/
theorem check {passed : Prop} {x : Except Error β} {rest : β → Except Error (Exchange α)}
    (passes : (∃ b, x = .ok b) ↔ passed)
    (h : ∀ b, x = .ok b → Prepares m allowed accepted (rest b)) :
    Prepares m allowed (passed ∧ accepted) (x >>= rest) := by
  constructor
  · rw [← passes]
    constructor
    · rintro ⟨y, hy⟩
      obtain ⟨b, hb, hr⟩ := bind_eq_ok_iff.mp hy
      exact ⟨⟨b, hb⟩, (h b hb).accepts.mp ⟨y, hr⟩⟩
    · rintro ⟨⟨b, hb⟩, passed⟩
      obtain ⟨y, hr⟩ := (h b hb).accepts.mpr passed
      exact ⟨y, bind_eq_ok_iff.mpr ⟨b, hb, hr⟩⟩
  · intro y hy
    obtain ⟨b, hb, hr⟩ := bind_eq_ok_iff.mp hy
    exact (h b hb).sound y hr
  · intro y hy
    obtain ⟨b, hb, hr⟩ := bind_eq_ok_iff.mp hy
    exact (h b hb).limited y hr

theorem lastCheck {passed : Prop} {x : Except Error β} {rest : β → Except Error (Exchange α)}
    (passes : (∃ b, x = .ok b) ↔ passed)
    (h : ∀ b, x = .ok b → Prepares m allowed True (rest b)) :
    Prepares m allowed passed (x >>= rest) := by
  have checked := check passes h
  rwa [and_true] at checked

/-- A check that cannot fail here. -/
theorem sure {x : Except Error β} {b : β} {rest : β → Except Error (Exchange α)} (hx : x = .ok b)
    (h : Prepares m allowed accepted (rest b)) : Prepares m allowed accepted (x >>= rest) := by
  subst hx
  exact h

end Prepares

theorem orRefuse_eq_ok_iff {α ρ : Type} {refusal : ρ → Refusal} {x : Except ρ α} {a : α} :
    orRefuse refusal x = .ok a ↔ x = .ok a := by
  cases x <;> simp [orRefuse]

theorem encodeContent_isOk_iff {transcoder : Transcoder} {doc : Document} :
    (∃ content, encodeContent transcoder doc = .ok content) ↔ transcoder.Takes doc := by
  rw [encodeContent, Transcoder.Takes]
  cases transcoder.encode doc <;> simp [orContentFault]

theorem orRefuse_isOk_iff {α ρ : Type} {refusal : ρ → Refusal} {x : Except ρ α} :
    (∃ a, orRefuse refusal x = .ok a) ↔ ∃ a, x = .ok a := by
  simp only [orRefuse_eq_ok_iff]

/-- A key and options with which an operation on a document goes ahead. -/
def Operation.Starts (operation : Operation) (key : String) (options : CallOptions) : Prop :=
  ValidKey key ∧ options.Resolves operation

namespace Collection
variable {c : Collection} {configuration : Configuration} {key : String} {options : CallOptions}

theorem start_eq_ok_iff {operation : Operation} {started : Wire.Target × RequestFields} :
    c.start operation key options = .ok started ↔
      ValidKey key ∧ started.1 = c.keyspace.target key ∧
        options.resolve operation = .ok started.2 := by
  rcases started with ⟨target, fields⟩
  simp only [start, bind_eq_ok_iff, orRefuse_eq_ok_iff, ← checkKey_eq_ok_iff]
  constructor
  · rintro ⟨⟨⟩, valid, found, hf, h⟩
    cases h
    exact ⟨valid, rfl, hf⟩
  · rintro ⟨valid, rfl, hf⟩
    exact ⟨(), valid, fields, hf, rfl⟩

theorem start_isOk_iff {operation : Operation} :
    (∃ started, c.start operation key options = .ok started) ↔ operation.Starts key options := by
  constructor
  · rintro ⟨started, hs⟩
    obtain ⟨valid, -, hf⟩ := start_eq_ok_iff.mp hs
    exact ⟨valid, started.2, hf⟩
  · rintro ⟨valid, fields, hf⟩
    exact ⟨(c.keyspace.target key, fields), start_eq_ok_iff.mpr ⟨valid, rfl, hf⟩⟩

theorem get_prepares :
    Prepares .get (options.Limits .get configuration.kvTimeout)
      (Operation.get.Starts key options) (c.get configuration key options) := by
  apply Prepares.lastCheck start_isOk_iff
  rintro ⟨target, fields⟩ hs
  obtain ⟨valid, rfl, resolved⟩ := start_eq_ok_iff.mp hs
  exact .ready rfl ⟨valid, options.project_nonempty resolved⟩ ⟨fields, resolved, rfl⟩

theorem probe_prepares :
    Prepares .probe (options.Limits .probe configuration.kvTimeout)
      (Operation.probe.Starts key options) (c.probe configuration key options) := by
  apply Prepares.lastCheck start_isOk_iff
  rintro ⟨target, fields⟩ hs
  obtain ⟨valid, rfl, resolved⟩ := start_eq_ok_iff.mp hs
  exact .ready rfl valid ⟨fields, resolved, rfl⟩

/-- A durability of resolved options can be sent. -/
theorem prepares_of_durability {α : Type} {m : Method} {allowed : Duration → Prop}
    {operation : Operation} {fields : RequestFields}
    (resolved : options.resolve operation = .ok fields)
    {rest : Option Wire.DurabilitySpec → Except Error (Exchange α)}
    (h : ∀ spec, (∀ d ∈ spec, d.WellFormed) → Prepares m allowed True (rest spec)) :
    Prepares m allowed True (durability fields >>= rest) := by
  obtain ⟨spec, hs, sound⟩ := options.durability_of_resolve resolved
  exact .sure (orRefuse_eq_ok_iff.mpr hs) (h spec sound)

/-- What is left of a call that stores content once its options are resolved. -/
theorem prepares_of_content {α : Type} {m : Method} {allowed : Duration → Prop}
    {operation : Operation} {fields : RequestFields}
    (resolved : options.resolve operation = .ok fields)
    {transcoder : Transcoder} {doc : Document}
    {rest : Wire.Content → Option Wire.DurabilitySpec → Except Error (Exchange α)}
    (h : ∀ content spec, (∀ d ∈ spec, d.WellFormed) →
      Prepares m allowed True (rest content spec)) :
    Prepares m allowed (transcoder.Takes doc) (do
      let content ← encodeContent transcoder doc
      let spec ← durability fields
      rest content spec) := by
  apply Prepares.lastCheck encodeContent_isOk_iff
  intro content _
  exact prepares_of_durability resolved (h content)

theorem insert_prepares {doc : Document} :
    Prepares .insert (options.Limits .insert configuration.kvTimeout)
      (Operation.insert.Starts key options ∧
        (c.transcoderFor configuration options).Takes doc)
      (c.insert configuration key doc options) := by
  apply Prepares.check start_isOk_iff
  rintro ⟨target, fields⟩ hs
  obtain ⟨valid, rfl, resolved⟩ := start_eq_ok_iff.mp hs
  apply prepares_of_content resolved
  intro content spec sound
  exact .ready rfl ⟨valid, sound⟩ ⟨fields, resolved, rfl⟩

theorem upsert_prepares {doc : Document} :
    Prepares .upsert (options.Limits .upsert configuration.kvTimeout)
      (Operation.upsert.Starts key options ∧
        (c.transcoderFor configuration options).Takes doc)
      (c.upsert configuration key doc options) := by
  apply Prepares.check start_isOk_iff
  rintro ⟨target, fields⟩ hs
  obtain ⟨valid, rfl, resolved⟩ := start_eq_ok_iff.mp hs
  apply prepares_of_content resolved
  intro content spec sound
  exact .ready rfl ⟨valid, sound⟩ ⟨fields, resolved, rfl⟩

theorem replace_prepares {doc : Document} :
    Prepares .replace (options.Limits .replace configuration.kvTimeout)
      (Operation.replace.Starts key options ∧
        (c.transcoderFor configuration options).Takes doc)
      (c.replace configuration key doc options) := by
  apply Prepares.check start_isOk_iff
  rintro ⟨target, fields⟩ hs
  obtain ⟨valid, rfl, resolved⟩ := start_eq_ok_iff.mp hs
  apply prepares_of_content resolved
  intro content spec sound
  exact .ready rfl ⟨valid, options.cas_ne_zero resolved, sound⟩ ⟨fields, resolved, rfl⟩

theorem remove_prepares :
    Prepares .remove (options.Limits .remove configuration.kvTimeout)
      (Operation.remove.Starts key options) (c.remove configuration key options) := by
  apply Prepares.lastCheck start_isOk_iff
  rintro ⟨target, fields⟩ hs
  obtain ⟨valid, rfl, resolved⟩ := start_eq_ok_iff.mp hs
  apply prepares_of_durability resolved
  intro spec sound
  exact .ready rfl ⟨valid, options.cas_ne_zero resolved, sound⟩ ⟨fields, resolved, rfl⟩

theorem lookupIn_prepares {specs : List LookupSpec} :
    Prepares .lookupIn (options.Limits .lookupIn configuration.kvTimeout)
      (Operation.lookupIn.Starts key options ∧ specs ≠ [])
      (c.lookupIn configuration key specs options) := by
  apply Prepares.check start_isOk_iff
  rintro ⟨target, fields⟩ hs
  obtain ⟨valid, rfl, resolved⟩ := start_eq_ok_iff.mp hs
  apply Prepares.lastCheck (orRefuse_isOk_iff.trans LookupSpec.listToWire_isOk_iff)
  intro ws hw
  exact .ready rfl ⟨valid, LookupSpec.ne_nil_of_listToWire (orRefuse_eq_ok_iff.mp hw)⟩
    ⟨fields, resolved, rfl⟩

theorem mutateIn_prepares {specs : List MutateSpec} :
    Prepares .mutateIn (options.Limits .mutateIn configuration.kvTimeout)
      (Operation.mutateIn.Starts key options ∧
        specs ≠ [] ∧ ∀ spec ∈ specs, ∃ content, spec.content = .ok content)
      (c.mutateIn configuration key specs options) := by
  apply Prepares.check start_isOk_iff
  rintro ⟨target, fields⟩ hs
  obtain ⟨valid, rfl, resolved⟩ := start_eq_ok_iff.mp hs
  apply Prepares.lastCheck (orRefuse_isOk_iff.trans MutateSpec.listToWire_isOk_iff)
  intro ws hw
  obtain ⟨some, specsSound⟩ := MutateSpec.wellFormed_of_listToWire (orRefuse_eq_ok_iff.mp hw)
  apply prepares_of_durability resolved
  intro spec sound
  exact .ready rfl ⟨valid, some, specsSound, options.cas_ne_zero resolved, sound⟩
    ⟨fields, resolved, rfl⟩

end Collection

namespace BucketManager
variable {configuration : Configuration} {options : CallOptions}

theorem limit_isOk_iff :
    (∃ d, limit configuration options = .ok d) ↔ options.Resolves .management := by
  rw [limit, CallOptions.Resolves]
  cases options.resolve .management <;> simp [orRefuse, Except.map]

theorem limits_of_limit {d : Duration} (h : limit configuration options = .ok d) :
    options.Limits .management configuration.managementTimeout d := by
  rw [limit] at h
  cases resolved : options.resolve .management with
  | error why =>
    rw [resolved] at h
    cases h
  | ok fields =>
    rw [resolved] at h
    cases h
    exact ⟨fields, resolved, rfl⟩

theorem validate_isOk_iff {s : BucketSettings} :
    (∃ u, orRefuse .bucket s.validate = .ok u) ↔ s.validate = .ok () :=
  orRefuse_isOk_iff.trans ⟨fun ⟨_, h⟩ => h, fun h => ⟨(), h⟩⟩

theorem create_prepares {s : BucketSettings} :
    Prepares .createBucket (options.Limits .management configuration.managementTimeout)
      (s.validate = .ok () ∧ options.Resolves .management)
      (create configuration s options) := by
  apply Prepares.check validate_isOk_iff
  intro _ hv
  apply Prepares.lastCheck limit_isOk_iff
  intro d hd
  exact .ready rfl ⟨_, rfl, BucketSettings.wellFormed_toWire (orRefuse_eq_ok_iff.mp hv)⟩
    (limits_of_limit hd)

theorem update_prepares {s : BucketSettings} :
    Prepares .updateBucket (options.Limits .management configuration.managementTimeout)
      (s.validate = .ok () ∧ options.Resolves .management)
      (update configuration s options) := by
  apply Prepares.check validate_isOk_iff
  intro _ hv
  apply Prepares.lastCheck limit_isOk_iff
  intro d hd
  exact .ready rfl ⟨_, rfl, BucketSettings.wellFormed_toWire (orRefuse_eq_ok_iff.mp hv)⟩
    (limits_of_limit hd)

theorem checkName_isOk_iff {name : String} :
    (∃ u, orRefuse .bucket (checkBucketName name) = .ok u) ↔ ValidBucketName name := by
  rw [orRefuse_isOk_iff, ← checkBucketName_eq_ok_iff]
  exact ⟨fun ⟨_, h⟩ => h, fun h => ⟨(), h⟩⟩

theorem drop_prepares {name : String} :
    Prepares .deleteBucket (options.Limits .management configuration.managementTimeout)
      (ValidBucketName name ∧ options.Resolves .management)
      (drop configuration name options) := by
  apply Prepares.check checkName_isOk_iff
  intro _ hn
  apply Prepares.lastCheck limit_isOk_iff
  intro d hd
  exact .ready rfl ((checkBucketName_eq_ok_iff name).mp (orRefuse_eq_ok_iff.mp hn))
    (limits_of_limit hd)

theorem getAll_prepares :
    Prepares .listBuckets (options.Limits .management configuration.managementTimeout)
      (options.Resolves .management) (getAll configuration options) := by
  apply Prepares.lastCheck limit_isOk_iff
  intro d hd
  exact .ready rfl trivial (limits_of_limit hd)

theorem get_prepares {name : String} :
    Prepares .listBuckets (options.Limits .management configuration.managementTimeout)
      (ValidBucketName name ∧ options.Resolves .management)
      (get configuration name options) := by
  apply Prepares.check checkName_isOk_iff
  intro _ _
  apply Prepares.lastCheck limit_isOk_iff
  intro d hd
  exact .ready rfl trivial (limits_of_limit hd)

end BucketManager
end DocumentClient
