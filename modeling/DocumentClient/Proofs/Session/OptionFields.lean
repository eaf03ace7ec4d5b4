import DocumentClient.Proofs.Options.Effective
import DocumentClient.Proofs.Options.Soundness
import DocumentClient.Proofs.Session.Atomicity

/-!
# Options on the wire

The optional fields of a request about a document and the options that they come from. Main
statement: a call that is sent holds in each of these fields the conversion of the value that
counts, whether it was set as a typed option or as a keyword, and leaves the field out if there
is nothing to send; and every typed option of an operation but the timeout has such a field.
-/

namespace DocumentClient

/-- The two fields of a durability. -/
def Wire.DurabilitySpec.optionFields (spec : Option Wire.DurabilitySpec) :
    List (WireField × Option FieldValue) :=
  [(.durabilityLevel, (spec.bind level?).map .enum),
    (.legacyDurability, (spec.bind legacy?).map .legacy)]

/-- The optional fields of a message about a document, each with what it holds. -/
def Method.optionFields : (m : Method) → m.Request → List (WireField × Option FieldValue)
  | .get, r => [(.project, if r.project = [] then none else some (.texts r.project))]
  | .probe, _ => []
  | .insert, r =>
    (.expirySecs, r.expirySecs.map .u32) :: Wire.DurabilitySpec.optionFields r.durability
  | .upsert, r =>
    (.expirySecs, r.expirySecs.map .u32) :: (.preserveExpiry, r.preserveExpiry.map .bool) ::
      Wire.DurabilitySpec.optionFields r.durability
  | .replace, r =>
    (.expirySecs, r.expirySecs.map .u32) :: (.preserveExpiry, r.preserveExpiry.map .bool) ::
      (.cas, r.cas.map .u64) :: Wire.DurabilitySpec.optionFields r.durability
  | .remove, r => (.cas, r.cas.map .u64) :: Wire.DurabilitySpec.optionFields r.durability
  | .lookupIn, r => [(.accessDeleted, (r.flags.bind (·.accessDeleted)).map .bool)]
  | .mutateIn, r =>
    (.storeSemantic, r.storeSemantic.map .enum) :: (.cas, r.cas.map .u64) ::
      (.accessDeleted, r.accessDeleted.map .bool) :: (.expirySecs, r.expirySecs.map .u32) ::
      (.preserveExpiry, r.preserveExpiry.map .bool) ::
      Wire.DurabilitySpec.optionFields r.durability
  | .query, _ | .createBucket, _ | .updateBucket, _ | .deleteBucket, _ | .listBuckets, _ => []

def Call.optionFields (call : Call) : List (WireField × Option FieldValue) :=
  call.method.optionFields call.request

/-- The typed options that a caller of an operation finds. -/
def Operation.typed : Operation → List OptionKind
  | .get => [.timeout, .project]
  | .probe | .management => [.timeout]
  | .insert => [.timeout, .expiry, .durability]
  | .upsert => [.timeout, .expiry, .preserveExpiry, .durability]
  | .replace => [.timeout, .expiry, .preserveExpiry, .cas, .durability]
  | .remove => [.timeout, .cas, .durability]
  | .lookupIn => [.timeout, .accessDeleted]
  | .mutateIn =>
    [.timeout, .expiry, .preserveExpiry, .cas, .durability, .accessDeleted, .storeSemantics]

/-- The fields of the messages of an operation on documents, in the same order. -/
def Operation.carried : Operation → List WireField
  | .get => [.project]
  | .probe | .management => []
  | .insert => [.expirySecs, .durabilityLevel, .legacyDurability]
  | .upsert => [.expirySecs, .preserveExpiry, .durabilityLevel, .legacyDurability]
  | .replace => [.expirySecs, .preserveExpiry, .cas, .durabilityLevel, .legacyDurability]
  | .remove => [.cas, .durabilityLevel, .legacyDurability]
  | .lookupIn => [.accessDeleted]
  | .mutateIn =>
    [.storeSemantic, .cas, .accessDeleted, .expirySecs, .preserveExpiry, .durabilityLevel,
      .legacyDurability]

theorem Operation.carried_taken (operation : Operation) :
    ∀ field ∈ operation.carried, field.option ∈ operation.options := by
  cases operation <;> decide

theorem Operation.typed_carried (operation : Operation) :
    ∀ kind ∈ operation.typed, kind ≠ .timeout →
      ∃ field ∈ operation.carried, field.option = kind := by
  cases operation <;> decide

namespace RequestFields

/-- A durability that can be sent holds the two fields that it comes from. -/
theorem optionFields_of_durability {fields : RequestFields} {spec : Option Wire.DurabilitySpec}
    (h : fields.durability = .ok spec) :
    Wire.DurabilitySpec.optionFields spec =
      [(.durabilityLevel, fields.read .durabilityLevel),
        (.legacyDurability, fields.read .legacyDurability)] := by
  rw [durability] at h
  cases hl : fields.enum? .durabilityLevel <;> cases hg : fields.legacyDurability? <;>
    rw [hl, hg] at h <;> cases h <;>
    simp [Wire.DurabilitySpec.optionFields, Wire.DurabilitySpec.level?,
      Wire.DurabilitySpec.legacy?, read, hl, hg]

end RequestFields

section
variable {options : CallOptions} {operation : Operation} {fields : RequestFields}

theorem CallOptions.read_of_resolve (h : options.resolve operation = .ok fields)
    (field : WireField) : fields.read field = fields.get? field :=
  DocumentClient.read_of_resolve (options.nodup_names_toBag operation) h field

/-- A projection that is sent is one that was resolved: an empty one resolves to nothing. -/
theorem CallOptions.project_of_resolve (h : options.resolve operation = .ok fields) :
    (if (fields.texts? .project).getD [] = [] then none
      else some (FieldValue.texts ((fields.texts? .project).getD []))) =
      fields.get? .project := by
  have same := options.read_of_resolve h .project
  change (fields.texts? .project).map FieldValue.texts = _ at same
  cases hp : fields.texts? .project with
  | none =>
    rw [hp] at same
    exact same
  | some paths =>
    have given := project_ne_nil_of_resolve (options.nodup_names_toBag operation) h hp
    rw [hp] at same
    rw [Option.getD_some, if_neg given]
    exact same

end

/-- A message that goes out holds the resolved options of its operation. -/
def Conveys {α : Type} (operation : Operation) (options : CallOptions) (x : Exchange α) : Prop :=
  ∃ fields, options.resolve operation = .ok fields ∧
    x.method.optionFields x.request = operation.carried.map fun f => (f, fields.get? f)

theorem Conveys.of_read {α : Type} {operation : Operation} {options : CallOptions}
    {x : Exchange α} {fields : RequestFields} (resolved : options.resolve operation = .ok fields)
    (h : x.method.optionFields x.request = operation.carried.map fun f => (f, fields.read f)) :
    Conveys operation options x := by
  refine ⟨fields, resolved, ?_⟩
  rw [h]
  apply List.map_congr_left
  intro field _
  rw [options.read_of_resolve resolved]

namespace Collection
variable {c : Collection} {configuration : Configuration} {key : String} {options : CallOptions}

theorem durability_fields {fields : RequestFields} {spec : Option Wire.DurabilitySpec}
    (h : durability fields = .ok spec) :
    Wire.DurabilitySpec.optionFields spec =
      [(.durabilityLevel, fields.read .durabilityLevel),
        (.legacyDurability, fields.read .legacyDurability)] :=
  RequestFields.optionFields_of_durability (orRefuse_eq_ok_iff.mp h)

theorem get_conveys {x : Exchange GetResult} (h : c.get configuration key options = .ok x) :
    Conveys .get options x := by
  obtain ⟨⟨target, fields⟩, hs, h⟩ := bind_eq_ok_iff.mp h
  obtain ⟨-, -, resolved⟩ := start_eq_ok_iff.mp hs
  cases h
  refine ⟨fields, resolved, ?_⟩
  rw [Method.optionFields, options.project_of_resolve resolved]
  rfl

theorem probe_conveys {x : Exchange ProbeResult} (h : c.probe configuration key options = .ok x) :
    Conveys .probe options x := by
  obtain ⟨⟨target, fields⟩, hs, h⟩ := bind_eq_ok_iff.mp h
  obtain ⟨-, -, resolved⟩ := start_eq_ok_iff.mp hs
  cases h
  exact ⟨fields, resolved, rfl⟩

theorem insert_conveys {doc : Document} {x : Exchange MutationResult}
    (h : c.insert configuration key doc options = .ok x) : Conveys .insert options x := by
  obtain ⟨⟨target, fields⟩, hs, h⟩ := bind_eq_ok_iff.mp h
  obtain ⟨-, -, resolved⟩ := start_eq_ok_iff.mp hs
  obtain ⟨content, -, h⟩ := bind_eq_ok_iff.mp h
  obtain ⟨spec, hd, h⟩ := bind_eq_ok_iff.mp h
  cases h
  apply Conveys.of_read resolved
  rw [Method.optionFields, durability_fields hd]
  rfl

theorem upsert_conveys {doc : Document} {x : Exchange MutationResult}
    (h : c.upsert configuration key doc options = .ok x) : Conveys .upsert options x := by
  obtain ⟨⟨target, fields⟩, hs, h⟩ := bind_eq_ok_iff.mp h
  obtain ⟨-, -, resolved⟩ := start_eq_ok_iff.mp hs
  obtain ⟨content, -, h⟩ := bind_eq_ok_iff.mp h
  obtain ⟨spec, hd, h⟩ := bind_eq_ok_iff.mp h
  cases h
  apply Conveys.of_read resolved
  rw [Method.optionFields, durability_fields hd]
  rfl

theorem replace_conveys {doc : Document} {x : Exchange MutationResult}
    (h : c.replace configuration key doc options = .ok x) : Conveys .replace options x := by
  obtain ⟨⟨target, fields⟩, hs, h⟩ := bind_eq_ok_iff.mp h
  obtain ⟨-, -, resolved⟩ := start_eq_ok_iff.mp hs
  obtain ⟨content, -, h⟩ := bind_eq_ok_iff.mp h
  obtain ⟨spec, hd, h⟩ := bind_eq_ok_iff.mp h
  cases h
  apply Conveys.of_read resolved
  rw [Method.optionFields, durability_fields hd]
  rfl

theorem remove_conveys {x : Exchange MutationResult}
    (h : c.remove configuration key options = .ok x) : Conveys .remove options x := by
  obtain ⟨⟨target, fields⟩, hs, h⟩ := bind_eq_ok_iff.mp h
  obtain ⟨-, -, resolved⟩ := start_eq_ok_iff.mp hs
  obtain ⟨spec, hd, h⟩ := bind_eq_ok_iff.mp h
  cases h
  apply Conveys.of_read resolved
  rw [Method.optionFields, durability_fields hd]
  rfl

theorem lookupIn_conveys {specs : List LookupSpec} {x : Exchange LookupResult}
    (h : c.lookupIn configuration key specs options = .ok x) : Conveys .lookupIn options x := by
  obtain ⟨⟨target, fields⟩, hs, h⟩ := bind_eq_ok_iff.mp h
  obtain ⟨-, -, resolved⟩ := start_eq_ok_iff.mp hs
  obtain ⟨wire, -, h⟩ := bind_eq_ok_iff.mp h
  cases h
  apply Conveys.of_read resolved
  cases hb : fields.bool? .accessDeleted <;>
    simp [Method.optionFields, Operation.carried, RequestFields.read, hb]

theorem mutateIn_conveys {specs : List MutateSpec} {x : Exchange MutateResult}
    (h : c.mutateIn configuration key specs options = .ok x) : Conveys .mutateIn options x := by
  obtain ⟨⟨target, fields⟩, hs, h⟩ := bind_eq_ok_iff.mp h
  obtain ⟨-, -, resolved⟩ := start_eq_ok_iff.mp hs
  obtain ⟨wire, -, h⟩ := bind_eq_ok_iff.mp h
  obtain ⟨spec, hd, h⟩ := bind_eq_ok_iff.mp h
  cases h
  apply Conveys.of_read resolved
  rw [Method.optionFields, durability_fields hd]
  rfl

end Collection

namespace Session
variable {s : Session} {call : Call}

theorem peer_exchange {α : Type} (s : Session) (answer : α → Answer)
    (prepared : Except Error (Exchange α)) :
    (s.exchange answer prepared).2.peer =
      (Exchange.runPrepared prepared s.client s.peer).2 := by
  rw [exchange]

/-- A call that is sent is one that was prepared. -/
theorem prepared_of_sent {α : Type} {answer : α → Answer} {prepared : Except Error (Exchange α)}
    (sent : (s.exchange answer prepared).2.peer.received = s.peer.received ++ [call]) :
    ∃ x deadline, prepared = .ok x ∧ call = s.client.call x.method x.request deadline := by
  have silent : s.peer.received ≠ s.peer.received ++ [call] := by simp
  rw [peer_exchange] at sent
  cases prepared with
  | error e => exact absurd sent silent
  | ok x =>
    rw [Exchange.runPrepared] at sent
    rcases x.peer_run s.client s.peer with same | ⟨deadline, -, received⟩
    · rw [same] at sent
      exact absurd sent silent
    · rw [received, Peer.received_receive] at sent
      exact ⟨x, deadline, rfl, (List.singleton_inj.mp (List.append_cancel_left sent)).symm⟩

theorem optionFields_of_sent {α : Type} {answer : α → Answer}
    {prepared : Except Error (Exchange α)} {operation : Operation} {options : CallOptions}
    (conveys : ∀ x, prepared = .ok x → Conveys operation options x)
    (sent : (s.exchange answer prepared).2.peer.received = s.peer.received ++ [call]) :
    ∃ fields, options.resolve operation = .ok fields ∧
      call.optionFields = operation.carried.map fun f => (f, fields.get? f) := by
  obtain ⟨x, deadline, hx, rfl⟩ := prepared_of_sent sent
  exact conveys x hx

theorem optionFields_of_perform {a : Action} {operation : Operation} {options : CallOptions}
    (own : a.options? = some (operation, options))
    (sent : (s.perform a).2.peer.received = s.peer.received ++ [call]) :
    ∃ fields, options.resolve operation = .ok fields ∧
      call.optionFields = operation.carried.map fun f => (f, fields.get? f) := by
  cases a with
  | get =>
    cases own
    exact optionFields_of_sent (fun _ => Collection.get_conveys) sent
  | probe =>
    cases own
    exact optionFields_of_sent (fun _ => Collection.probe_conveys) sent
  | insert =>
    cases own
    exact optionFields_of_sent (fun _ => Collection.insert_conveys) sent
  | upsert =>
    cases own
    exact optionFields_of_sent (fun _ => Collection.upsert_conveys) sent
  | replace =>
    cases own
    exact optionFields_of_sent (fun _ => Collection.replace_conveys) sent
  | remove =>
    cases own
    exact optionFields_of_sent (fun _ => Collection.remove_conveys) sent
  | lookupIn =>
    cases own
    exact optionFields_of_sent (fun _ => Collection.lookupIn_conveys) sent
  | mutateIn =>
    cases own
    exact optionFields_of_sent (fun _ => Collection.mutateIn_conveys) sent
  | _ => cases own

/-- A call on a document that is sent holds in each optional field what the value of its option
that counts converts to, and nothing else; and each typed option but the timeout has a field. -/
theorem options_on_wire (s : Session) (a : Action) {operation : Operation} {options : CallOptions}
    (own : a.options? = some (operation, options)) {call : Call}
    (sent : (s.perform a).2.peer.received = s.peer.received ++ [call]) :
    (∀ entry ∈ call.optionFields,
        entry.1.Holds (options.effective? entry.1.option) entry.2) ∧
      ∀ kind ∈ operation.typed, kind ≠ .timeout →
        ∃ entry ∈ call.optionFields, entry.1.option = kind := by
  obtain ⟨fields, resolved, held⟩ := optionFields_of_perform own sent
  rw [held]
  constructor
  · rw [List.forall_mem_map]
    intro field carried
    exact options.holds_of_resolve resolved (operation.carried_taken field carried)
  · intro kind typed other
    obtain ⟨field, carried, same⟩ := operation.typed_carried kind typed other
    exact ⟨_, List.mem_map_of_mem carried, same⟩

/-- Two typed options have keywords beside them and a third one has none. -/
theorem options_on_wire_of_keywords :
    let options : CallOptions :=
      { preserveExpiry := some true, cas := some 5, durability := some (.level .majority)
        overrides := .ofEntries
          [("durability", .durability (.legacy .two .none)), ("cas", .uint 7)] }
    let s : Session := { client := { configuration := {} } }
    let c : Collection := { keyspace := ⟨"travel", "_default", "hotels"⟩ }
    let a : Action := .replace c "k" (.json .null) options
    ∃ call, (s.perform a).2.peer.received = s.peer.received ++ [call] ∧
      call.optionFields =
        [(.expirySecs, none), (.preserveExpiry, some (.bool true)), (.cas, some (.u64 7)),
          (.durabilityLevel, none), (.legacyDurability, some (.legacy ⟨2, 0⟩))] ∧
      (∀ entry ∈ call.optionFields,
        entry.1.Holds (options.effective? entry.1.option) entry.2) ∧
      ∀ kind ∈ Operation.replace.typed, kind ≠ .timeout →
        ∃ entry ∈ call.optionFields, entry.1.option = kind := by
  intro options s c a
  have starts : Operation.replace.Starts "k" options := ⟨by decide, _, rfl⟩
  have taken : (c.transcoderFor s.configuration options).Takes (.json .null) := ⟨_, rfl⟩
  have short (limit : Duration) (limits : options.Limits .replace s.configuration.kvTimeout limit) :
      limit.hours ≤ Deadline.maxAmount := by
    obtain ⟨fields, resolved, rfl⟩ := limits
    cases resolved
    decide
  obtain ⟨call, -, sent⟩ := (sendsOne_of_accepted (s := s) Collection.replace_prepares .mutated rfl
    ⟨starts, taken⟩ short).sent
  obtain ⟨fields, resolved, held⟩ := optionFields_of_perform (a := a) rfl sent
  cases resolved
  exact ⟨call, sent, held, options_on_wire s a rfl sent⟩

end Session
end DocumentClient
