import DocumentClient.Proofs.Options.Resolution
import DocumentClient.Proofs.Requests.Rules

/-!
# Resolved fields

What the fields of a request hold after resolution, whatever options a caller sets and however
they are given. Each field has the kind of value that requests read from it and obeys the rule
of its option. A level and an observation come from the same option, which is why resolved
options never ask for both.
-/

namespace DocumentClient

namespace WireField

/-- The values that a field may have. -/
def Admits : WireField → FieldValue → Prop
  | .timeoutMicros, .u64 _ => True
  | .expirySecs, .u32 _ => True
  | .preserveExpiry, .bool _ | .accessDeleted, .bool _ => True
  | .cas, .u64 n => n ≠ 0
  | .durabilityLevel, .enum n => n = 0 ∨ n = 1 ∨ n = 2
  | .legacyDurability, .legacy s =>
    ¬ (s.replicated = 0 ∧ s.persisted = 0) ∧ s.replicated ≤ 3 ∧ s.persisted ≤ 4
  | .project, .texts paths => "" ∉ paths
  | .storeSemantic, .enum n => n = 0 ∨ n = 1 ∨ n = 2
  | _, _ => False

end WireField

theorem DurabilityLevel.toWire_le {level : DurabilityLevel} {n : Int32}
    (h : level.toWire = some n) : n = 0 ∨ n = 1 ∨ n = 2 := by
  cases level <;> cases h <;> decide

theorem ReplicateTo.count_le (r : ReplicateTo) : r.count ≤ 3 := by
  cases r <;> decide

theorem PersistTo.count_le (p : PersistTo) : p.count ≤ 4 := by
  cases p <;> decide

namespace Conversion

theorem timeout_admits {value : OptionValue} {v : FieldValue} (h : timeout value = .ok (some v)) :
    WireField.timeoutMicros.Admits v := by
  cases value with
  | duration d =>
    rw [timeout] at h
    split at h
    · cases h
    · split at h <;> cases h
      trivial
  | _ => cases h

theorem expirySeconds_admits {seconds : Nat} {v : FieldValue}
    (h : expirySeconds seconds = .ok (some v)) : WireField.expirySecs.Admits v := by
  rw [expirySeconds] at h
  split at h <;> cases h
  trivial

theorem expiry_admits {value : OptionValue} {v : FieldValue} (h : expiry value = .ok (some v)) :
    WireField.expirySecs.Admits v := by
  cases value with
  | duration d => exact expirySeconds_admits h
  | int n =>
    rw [expiry] at h
    split at h
    · exact expirySeconds_admits h
    · cases h
  | uint n => exact expirySeconds_admits h
  | _ => cases h

theorem bool_eq {value : OptionValue} {v : FieldValue} (h : bool value = .ok (some v)) :
    ∃ b, v = .bool b := by
  cases value with
  | bool b =>
    cases h
    exact ⟨b, rfl⟩
  | _ => cases h

theorem cas_admits {value : OptionValue} {v : FieldValue} (h : cas value = .ok (some v)) :
    WireField.cas.Admits v := by
  cases value with
  | uint n =>
    by_cases zero : n = 0
    · simp [cas, zero] at h
    · simp only [cas, zero, if_false, Except.ok.injEq, Option.some.injEq] at h
      subst h
      exact zero
  | int n =>
    by_cases negative : 0 ≤ n
    · by_cases zero : n = 0
      · simp [cas, zero] at h
      · simp only [cas, negative, zero, if_true, if_false, Except.ok.injEq, Option.some.injEq] at h
        subst h
        intro h0
        exact zero (by rw [← n.toInt64_toUInt64, h0]; rfl)
    · simp [cas, negative] at h
  | _ => cases h

theorem durabilityLevel_admits {value : OptionValue} {v : FieldValue}
    (h : durabilityLevel value = .ok (some v)) : WireField.durabilityLevel.Admits v := by
  have level {l : DurabilityLevel}
      (h : (.ok (l.toWire.map .enum) : Except OptionRefusal _) = .ok (some v)) :
      WireField.durabilityLevel.Admits v := by
    obtain ⟨n, hn, rfl⟩ := Option.map_eq_some_iff.mp (Except.ok.inj h)
    exact DurabilityLevel.toWire_le hn
  cases value with
  | durability d =>
    cases d with
    | level l => exact level h
    | legacy r p => cases h
  | text label =>
    rw [durabilityLevel] at h
    split at h
    · exact level h
    · cases h
  | _ => cases h

theorem legacyDurability_admits {value : OptionValue} {v : FieldValue}
    (h : legacyDurability value = .ok (some v)) : WireField.legacyDurability.Admits v := by
  cases value with
  | durability d =>
    cases d with
    | level l => cases h
    | legacy r p =>
      rw [legacyDurability] at h
      split at h
      · cases h
      · next asks =>
        cases h
        exact ⟨asks, r.count_le, p.count_le⟩
  | _ => cases h

theorem project_admits {value : OptionValue} {v : FieldValue} (h : project value = .ok (some v)) :
    WireField.project.Admits v := by
  cases value with
  | texts paths =>
    rw [project] at h
    split at h
    · cases h
    · split at h
      · cases h
      · next named =>
        cases h
        exact named
  | text path =>
    rw [project] at h
    split at h
    · cases h
    · next named =>
      cases h
      intro h0
      exact named (List.mem_singleton.mp h0).symm
  | _ => cases h

theorem semantics_admits {value : OptionValue} {v : FieldValue}
    (h : semantics value = .ok (some v)) : WireField.storeSemantic.Admits v := by
  have number (s : StoreSemantics) : s.toWire = 0 ∨ s.toWire = 1 ∨ s.toWire = 2 := by
    cases s <;> decide
  cases value with
  | semantics s =>
    cases h
    exact number s
  | text label =>
    rw [semantics] at h
    split at h <;> cases h
    exact number _
  | _ => cases h

/-- A value that asks for a level does not ask for an observation. -/
theorem legacyDurability_of_level {value : OptionValue} {v : FieldValue}
    (h : durabilityLevel value = .ok (some v)) : legacyDurability value = .ok none := by
  cases value with
  | durability d =>
    cases d with
    | level l => rfl
    | legacy r p => cases h
  | _ => rfl

end Conversion

theorem WireField.written_eq_some_iff {field : WireField} {value : OptionValue} {v : FieldValue} :
    field.written value = some v ↔ field.conversion value = .ok (some v) := by
  rw [written]
  cases field.conversion value with
  | error why => simp
  | ok w => simp

theorem WireField.admits_of_written {field : WireField} {value : OptionValue} {v : FieldValue}
    (h : field.written value = some v) : field.Admits v := by
  rw [written_eq_some_iff] at h
  cases field with
  | timeoutMicros => exact Conversion.timeout_admits h
  | expirySecs => exact Conversion.expiry_admits h
  | preserveExpiry | accessDeleted =>
    obtain ⟨b, rfl⟩ := Conversion.bool_eq h
    trivial
  | cas => exact Conversion.cas_admits h
  | durabilityLevel => exact Conversion.durabilityLevel_admits h
  | legacyDurability => exact Conversion.legacyDurability_admits h
  | project => exact Conversion.project_admits h
  | storeSemantic => exact Conversion.semantics_admits h

section
variable {operation : Operation} {options overrides : Bag} {fields : RequestFields}

/-- A field that is there was written by the value of its option that counts. -/
theorem written_of_resolve (distinct : options.names.Nodup)
    (h : resolve operation options overrides = .ok fields) {field : WireField} {v : FieldValue}
    (hv : fields.get? field = some v) :
    field.option ∈ operation.options ∧
      ∃ value, effective options overrides field.option = some value ∧
        field.written value = some v := by
  rw [get?_resolve h distinct] at hv
  split at hv
  · next taken => exact ⟨taken, Option.bind_eq_some_iff.mp hv⟩
  · cases hv

/-- Every resolved field holds a value that it may have. -/
theorem admits_of_resolve (distinct : options.names.Nodup)
    (h : resolve operation options overrides = .ok fields) {field : WireField} {v : FieldValue}
    (hv : fields.get? field = some v) : field.Admits v := by
  obtain ⟨-, value, -, hw⟩ := written_of_resolve distinct h hv
  exact WireField.admits_of_written hw

/-- A level and an observation are never written together: one value would have to ask for
both. -/
theorem legacy_eq_none_of_level (distinct : options.names.Nodup)
    (h : resolve operation options overrides = .ok fields) {v : FieldValue}
    (hv : fields.get? .durabilityLevel = some v) : fields.get? .legacyDurability = none := by
  obtain ⟨-, value, he, hw⟩ := written_of_resolve distinct h hv
  have skipped : WireField.legacyDurability.written value = none := by
    have := Conversion.legacyDurability_of_level (WireField.written_eq_some_iff.mp hw)
    simp [WireField.written, WireField.conversion, this]
  rw [get?_resolve h distinct]
  change effective _ _ WireField.legacyDurability.option = some value at he
  rw [he, Option.bind_some, skipped, ite_self]

/-- What resolved options ask for is one sound durability or none. -/
theorem durability_of_resolve (distinct : options.names.Nodup)
    (h : resolve operation options overrides = .ok fields) :
    ∃ spec, fields.durability = .ok spec ∧ ∀ d ∈ spec, d.WellFormed := by
  cases hl : fields.get? .durabilityLevel with
  | some v =>
    have hg := legacy_eq_none_of_level distinct h hl
    have sound := admits_of_resolve distinct h hl
    cases v with
    | enum n =>
      refine ⟨some (.level n), ?_, ?_⟩
      · simp [RequestFields.durability, RequestFields.enum?, RequestFields.legacyDurability?, hl,
          hg]
      · simpa [Wire.DurabilitySpec.WellFormed, WireField.Admits] using sound
    | _ => exact sound.elim
  | none =>
    cases hg : fields.get? .legacyDurability with
    | some v =>
      have sound := admits_of_resolve distinct h hg
      cases v with
      | legacy s =>
        refine ⟨some (.legacy s), ?_, ?_⟩
        · simp [RequestFields.durability, RequestFields.enum?, RequestFields.legacyDurability?, hl,
            hg]
        · simpa [Wire.DurabilitySpec.WellFormed, WireField.Admits] using sound
      | _ => exact sound.elim
    | none =>
      refine ⟨none, ?_, by simp⟩
      simp [RequestFields.durability, RequestFields.enum?, RequestFields.legacyDurability?, hl, hg]

end

namespace CallOptions
variable {options : CallOptions} {operation : Operation} {fields : RequestFields}

theorem nodup_names_toBag (options : CallOptions) (operation : Operation) :
    (options.toBag operation).names.Nodup := Bag.nodup_names_ofEntries _

theorem admits_of_resolve (h : options.resolve operation = .ok fields) {field : WireField}
    {v : FieldValue} (hv : fields.get? field = some v) : field.Admits v :=
  DocumentClient.admits_of_resolve (options.nodup_names_toBag operation) h hv

theorem durability_of_resolve (h : options.resolve operation = .ok fields) :
    ∃ spec, fields.durability = .ok spec ∧ ∀ d ∈ spec, d.WellFormed :=
  DocumentClient.durability_of_resolve (options.nodup_names_toBag operation) h

theorem cas_ne_zero (h : options.resolve operation = .ok fields) : fields.u64? .cas ≠ some 0 := by
  intro h0
  rw [RequestFields.u64?] at h0
  split at h0
  · next n hn =>
    cases h0
    exact options.admits_of_resolve h hn rfl
  · cases h0

theorem project_nonempty (h : options.resolve operation = .ok fields) :
    "" ∉ (fields.texts? .project).getD [] := by
  rw [RequestFields.texts?]
  split
  · next paths hp => exact options.admits_of_resolve h hp
  · simp

end CallOptions
end DocumentClient
