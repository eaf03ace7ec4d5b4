import DocumentClient.Proofs.Options.Fields

/-!
# What messages can rely on

A message reads each resolved field by an accessor for one kind of value, and an accessor of
another kind would find nothing and say nothing. Whatever the options, a field is there only for
an option that the operation takes, it has the kind of value that messages read from it, and a
level is never there beside an observation, so that telling the durability of a message cannot
fail. Bags are taken to have distinct names, as all bags have that are made by setting options.
Main statement: `sound_of_resolve`.
-/

namespace DocumentClient

namespace RequestFields

/-- A field as requests read it, by the kind of its value. -/
def read (fields : RequestFields) : WireField → Option FieldValue
  | .timeoutMicros => (fields.u64? .timeoutMicros).map .u64
  | .expirySecs => (fields.u32? .expirySecs).map .u32
  | .preserveExpiry => (fields.bool? .preserveExpiry).map .bool
  | .cas => (fields.u64? .cas).map .u64
  | .durabilityLevel => (fields.enum? .durabilityLevel).map .enum
  | .legacyDurability => fields.legacyDurability?.map .legacy
  | .project => (fields.texts? .project).map .texts
  | .accessDeleted => (fields.bool? .accessDeleted).map .bool
  | .storeSemantic => (fields.enum? .storeSemantic).map .enum

theorem read_eq {fields : RequestFields} {field : WireField}
    (admitted : ∀ v, fields.get? field = some v → field.Admits v) :
    fields.read field = fields.get? field := by
  cases hv : fields.get? field with
  | none => cases field <;> simp [read, u64?, u32?, bool?, enum?, texts?, legacyDurability?, hv]
  | some v =>
    have kind := admitted v hv
    cases field <;> cases v <;>
      first
      | exact kind.elim
      | simp [read, u64?, u32?, bool?, enum?, texts?, legacyDurability?, hv]

end RequestFields

theorem Conversion.project_ne_nil {value : OptionValue} {paths : List String}
    (h : project value = .ok (some (.texts paths))) : paths ≠ [] := by
  cases value with
  | texts xs =>
    rw [project] at h
    split at h
    · cases h
    · next some =>
      split at h <;> cases h
      exact some
  | text path =>
    rw [project] at h
    split at h <;> cases h
    exact List.cons_ne_nil _ _
  | _ => cases h

section
variable {operation : Operation} {options overrides : Bag} {fields : RequestFields}

theorem read_of_resolve (distinct : options.names.Nodup)
    (h : resolve operation options overrides = .ok fields) (field : WireField) :
    fields.read field = fields.get? field :=
  RequestFields.read_eq fun _ => admits_of_resolve distinct h

/-- A projection that is there has a path: an empty one resolves to nothing. -/
theorem project_ne_nil_of_resolve (distinct : options.names.Nodup)
    (h : resolve operation options overrides = .ok fields) {paths : List String}
    (hp : fields.texts? .project = some paths) : paths ≠ [] := by
  have found := read_of_resolve distinct h .project
  rw [RequestFields.read, hp] at found
  obtain ⟨-, value, -, hw⟩ := written_of_resolve distinct h found.symm
  exact Conversion.project_ne_nil (WireField.written_eq_some_iff.mp hw)

/-- What the message of an operation can rely on. -/
structure RequestFields.Sound (operation : Operation) (fields : RequestFields) : Prop where
  /-- A field that is there is a destination of an option that the operation takes. -/
  allowed : ∀ field value, fields.get? field = some value →
    ∃ kind ∈ operation.options, ∃ convert, (field, convert) ∈ kind.destinations
  /-- It has the kind of value of its field, within the bounds of its option. -/
  admitted : ∀ field value, fields.get? field = some value → field.Admits value
  /-- The accessor by which messages read a field finds it exactly if it is there. -/
  found : ∀ field, fields.read field = fields.get? field
  projects : ∀ paths, fields.texts? .project = some paths → paths ≠ []
  exclusive : fields.get? .durabilityLevel = none ∨ fields.get? .legacyDurability = none
  durable : ∃ spec, fields.durability = .ok spec ∧ ∀ d ∈ spec, d.WellFormed

theorem sound_of_resolve (distinct : options.names.Nodup)
    (h : resolve operation options overrides = .ok fields) : fields.Sound operation where
  allowed := by
    intro field value hv
    obtain ⟨taken, -⟩ := written_of_resolve distinct h hv
    exact ⟨field.option, taken, field.conversion, field.mem_destinations⟩
  admitted := fun _ _ => admits_of_resolve distinct h
  found := read_of_resolve distinct h
  projects := fun _ => project_ne_nil_of_resolve distinct h
  exclusive := by
    cases hl : fields.get? .durabilityLevel with
    | none => exact .inl rfl
    | some level => exact .inr (legacy_eq_none_of_level distinct h hl)
  durable := durability_of_resolve distinct h

end

/-- An observation is overridden by a level; a version of 0 and a projection are not written, the
one because it stands for none, the other because the operation does not take it. -/
theorem sound_of_resolve_of_mutateIn :
    let options := Bag.ofEntries
      [("durability", .durability (.legacy .two .active)), ("cas", .uint 0),
        ("access_deleted", .bool true), ("project", .texts ["a"]),
        ("timeout", .duration (.ofMillis 20)), ("store_semantics", .text "Upsert")]
    let overrides := Bag.ofEntries [("durability", .text "majority"), ("expiry", .int 7)]
    options.names.Nodup ∧
      ∃ fields, resolve .mutateIn options overrides = .ok fields ∧ fields.Sound .mutateIn ∧
        fields.toList =
          [(.timeoutMicros, .u64 20000), (.expirySecs, .u32 7), (.durabilityLevel, .enum 0),
            (.accessDeleted, .bool true), (.storeSemantic, .enum 1)] := by
  intro options overrides
  have distinct : options.names.Nodup := by decide
  have written : (resolve .mutateIn options overrides).toOption.map RequestFields.toList =
      some [(.timeoutMicros, .u64 20000), (.expirySecs, .u32 7), (.durabilityLevel, .enum 0),
        (.accessDeleted, .bool true), (.storeSemantic, .enum 1)] := by
    decide
  obtain ⟨fields, h, listed⟩ := exists_ok_of_toOption written
  exact ⟨distinct, fields, h, sound_of_resolve distinct h, listed⟩

end DocumentClient
