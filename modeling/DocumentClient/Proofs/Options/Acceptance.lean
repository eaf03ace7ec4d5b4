import DocumentClient.Proofs.Options.Effective

/-!
# Which options are accepted

The options of a call are resolved exactly when each value that counts is one that its option
takes. Values that do not count, and names that the operation does not take, make no difference,
and neither does the order of the options. Main statements: `resolve_ok_iff`, and `resolve_congr`:
resolution depends on the values that count only.
-/

namespace DocumentClient

/-- A value that the option can write to each of its fields. -/
def OptionKind.Accepts (kind : OptionKind) (value : OptionValue) : Prop :=
  ∀ d ∈ kind.destinations, ∃ content, d.2 value = .ok content

namespace Resolution

theorem write_ok {value : OptionValue} {destinations : List (WireField × Conversion)}
    (accepted : ∀ d ∈ destinations, ∃ content, d.2 value = .ok content) (fields : RequestFields) :
    ∃ next, write value destinations fields = .ok next := by
  induction destinations generalizing fields with
  | nil => exact ⟨fields, rfl⟩
  | cons d rest ih =>
    rw [List.forall_mem_cons] at accepted
    obtain ⟨content, converted⟩ := accepted.1
    rw [write, converted]
    cases content with
    | none => exact ih accepted.2 fields
    | some v => exact ih accepted.2 (fields.set d.1 v)

theorem writeAll_ok {operation : Operation} {entries : List (String × OptionValue)}
    (accepted : ∀ kind ∈ operation.options, ∀ value, (kind.name, value) ∈ entries →
      kind.Accepts value) (fields : RequestFields) :
    ∃ next, writeAll operation entries fields = .ok next := by
  induction entries generalizing fields with
  | nil => exact ⟨fields, rfl⟩
  | cons e rest ih =>
    rcases e with ⟨name, value⟩
    have later := fun kind taken v found =>
      accepted kind taken v (List.mem_cons_of_mem (name, value) found)
    rw [writeAll]
    cases ht : taken? operation name with
    | none => exact ih later fields
    | some kind =>
      obtain ⟨rfl, taken⟩ := taken?_eq_some_iff.mp ht
      obtain ⟨next, written⟩ := write_ok (accepted kind taken value List.mem_cons_self) fields
      simp only [written]
      exact ih later next

end Resolution

section
variable {operation : Operation} {options overrides options' overrides' : Bag}

theorem resolve_ok_iff (distinct : options.names.Nodup) :
    (∃ fields, resolve operation options overrides = .ok fields) ↔
      ∀ kind ∈ operation.options, ∀ value, effective options overrides kind = some value →
        kind.Accepts value := by
  constructor
  · rintro ⟨fields, resolved⟩ kind taken value counts
    exact Resolution.convert_of_writeAll resolved taken (Bag.mem_of_findValue? counts)
  · intro accepted
    have names := Bag.nodup_names_insertAll distinct overrides.entries
    apply Resolution.writeAll_ok
    intro kind taken value found
    exact accepted kind taken value (Bag.findValue?_of_mem names found)

/-- Fields are known by what is written to each of them. -/
theorem RequestFields.ext_get? {a b : RequestFields} (h : ∀ field, a.get? field = b.get? field) :
    a = b := by
  cases a
  cases b
  exact congrArg RequestFields.mk (funext h)

theorem resolve_ok_congr (distinct : options.names.Nodup) (distinct' : options'.names.Nodup)
    (same : ∀ kind ∈ operation.options,
      effective options overrides kind = effective options' overrides' kind)
    {fields : RequestFields} (h : resolve operation options overrides = .ok fields) :
    resolve operation options' overrides' = .ok fields := by
  have accepted := (resolve_ok_iff distinct).mp ⟨fields, h⟩
  obtain ⟨fields', h'⟩ : ∃ fields', resolve operation options' overrides' = .ok fields' := by
    apply (resolve_ok_iff distinct').mpr
    intro kind taken value counts
    exact accepted kind taken value ((same kind taken).trans counts)
  have equal : fields' = fields := by
    apply RequestFields.ext_get?
    intro field
    rw [get?_resolve h distinct, get?_resolve h' distinct']
    by_cases taken : field.option ∈ operation.options
    · rw [if_pos taken, if_pos taken, same _ taken]
    · rw [if_neg taken, if_neg taken]
  rw [h', equal]

/-- Where the same values count, the same fields are resolved, or the options are refused both
times. -/
theorem resolve_congr (distinct : options.names.Nodup) (distinct' : options'.names.Nodup)
    (same : ∀ kind ∈ operation.options,
      effective options overrides kind = effective options' overrides' kind) :
    (resolve operation options overrides).toOption =
      (resolve operation options' overrides').toOption := by
  cases h : resolve operation options overrides with
  | ok fields => rw [resolve_ok_congr distinct distinct' same h]
  | error fault =>
    cases h' : resolve operation options' overrides' with
    | error fault' => rfl
    | ok fields =>
      have back := resolve_ok_congr distinct' distinct (fun k taken => (same k taken).symm) h'
      rw [h] at back
      cases back

end

end DocumentClient
