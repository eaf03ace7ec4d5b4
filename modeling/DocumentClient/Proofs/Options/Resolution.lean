import DocumentClient.Options.Typed

/-!
# What resolution writes

Every request field is written by one option and in one way. The options that count in a call
have distinct names, so that no field is written twice; a resolved field is the conversion of
the value that counts. From this follows what the fields of a request can hold: no version of 0,
only levels that exist, no observation of nothing, no empty path, and never a level together
with an observation.
-/

namespace DocumentClient

namespace Bag

theorem names_insert_of_mem {bag : Bag} {name : String} (known : name ∈ bag.names)
    (value : OptionValue) : (bag.insert name value).names = bag.names := by
  rcases bag with ⟨entries⟩
  change (insertEntry name value entries).map (·.1) = entries.map (·.1)
  change name ∈ entries.map (·.1) at known
  induction entries with
  | nil => cases known
  | cons e rest ih =>
    rcases e with ⟨n, v⟩
    by_cases h : n = name
    · simp only [insertEntry, h, if_true, List.map_cons]
    · have later : name ∈ rest.map (·.1) := (List.mem_cons.mp known).resolve_left (Ne.symm h)
      simp only [insertEntry, h, if_false, List.map_cons, ih later]

/-- A new option comes to the end. -/
theorem insertEntry_of_not_mem {name : String} {entries : List (String × OptionValue)}
    (new : name ∉ entries.map (·.1)) (value : OptionValue) :
    insertEntry name value entries = entries ++ [(name, value)] := by
  induction entries with
  | nil => rfl
  | cons e rest ih =>
    rcases e with ⟨n, v⟩
    rw [List.map_cons, List.mem_cons, not_or] at new
    rw [insertEntry, if_neg (Ne.symm new.1), ih new.2, List.cons_append]

theorem names_insert_of_not_mem {bag : Bag} {name : String} (new : name ∉ bag.names)
    (value : OptionValue) : (bag.insert name value).names = bag.names ++ [name] := by
  change (insertEntry name value bag.entries).map (·.1) = bag.entries.map (·.1) ++ [name]
  rw [insertEntry_of_not_mem new, List.map_append]
  rfl

theorem nodup_names_insert {bag : Bag} (h : bag.names.Nodup) (name : String)
    (value : OptionValue) : (bag.insert name value).names.Nodup := by
  by_cases known : name ∈ bag.names
  · rwa [names_insert_of_mem known]
  · rw [names_insert_of_not_mem known]
    refine List.nodup_append.mpr ⟨h, by simp, ?_⟩
    intro n hn m hm heq
    rw [List.mem_singleton] at hm
    exact known (hm ▸ heq ▸ hn)

theorem nodup_names_insertAll {bag : Bag} (h : bag.names.Nodup)
    (entries : List (String × OptionValue)) : (bag.insertAll entries).names.Nodup := by
  induction entries generalizing bag with
  | nil => exact h
  | cons e rest ih => exact ih (nodup_names_insert h e.1 e.2)

theorem nodup_names_ofEntries (entries : List (String × OptionValue)) :
    (ofEntries entries).names.Nodup := nodup_names_insertAll (by exact List.nodup_nil) entries

theorem findValue?_eq_none {name : String} {entries : List (String × OptionValue)}
    (h : name ∉ entries.map (·.1)) : findValue? name entries = none := by
  induction entries with
  | nil => rfl
  | cons e rest ih =>
    rw [List.map_cons, List.mem_cons, not_or] at h
    rw [findValue?, if_neg (Ne.symm h.1)]
    exact ih h.2

end Bag

theorem OptionKind.name_injective {a b : OptionKind} (h : a.name = b.name) : a = b := by
  have named := ofName?_name a
  rw [h, ofName?_name, Option.some.injEq] at named
  exact named.symm

namespace WireField

/-- The option that writes a field. -/
def option : WireField → OptionKind
  | .timeoutMicros => .timeout
  | .expirySecs => .expiry
  | .preserveExpiry => .preserveExpiry
  | .cas => .cas
  | .durabilityLevel | .legacyDurability => .durability
  | .project => .project
  | .accessDeleted => .accessDeleted
  | .storeSemantic => .storeSemantics

/-- How the option writes it. -/
def conversion : WireField → Conversion
  | .timeoutMicros => Conversion.timeout
  | .expirySecs => Conversion.expiry
  | .preserveExpiry | .accessDeleted => Conversion.bool
  | .cas => Conversion.cas
  | .durabilityLevel => Conversion.durabilityLevel
  | .legacyDurability => Conversion.legacyDurability
  | .project => Conversion.project
  | .storeSemantic => Conversion.semantics

/-- What a value of the option writes to the field. -/
def written (field : WireField) (value : OptionValue) : Option FieldValue :=
  match field.conversion value with
  | .ok v => v
  | .error _ => none

theorem conversion_of_mem {kind : OptionKind} {field : WireField} {convert : Conversion}
    (h : (field, convert) ∈ kind.destinations) :
    field.option = kind ∧ convert = field.conversion := by
  cases kind <;> simp [OptionKind.destinations] at h
  case durability => rcases h with ⟨rfl, rfl⟩ | ⟨rfl, rfl⟩ <;> exact ⟨rfl, rfl⟩
  all_goals
    rcases h with ⟨rfl, rfl⟩
    exact ⟨rfl, rfl⟩

theorem mem_destinations (field : WireField) :
    (field, field.conversion) ∈ field.option.destinations := by
  cases field <;> simp [option, conversion, OptionKind.destinations]

end WireField

/-- The fields with one of them written, if there is something to write. -/
def RequestFields.put (fields : RequestFields) (field : WireField) :
    Option FieldValue → RequestFields
  | none => fields
  | some value => fields.set field value

theorem RequestFields.get?_put_same (fields : RequestFields) (field : WireField)
    (value : Option FieldValue) :
    (fields.put field value).get? field = value.or (fields.get? field) := by
  cases value with
  | none => rfl
  | some v => simp [put, set]

theorem RequestFields.get?_put_other (fields : RequestFields) {field other : WireField}
    (h : other ≠ field) (value : Option FieldValue) :
    (fields.put field value).get? other = fields.get? other := by
  cases value with
  | none => rfl
  | some v => simp [put, set, h]

namespace Resolution
open WireField

theorem write_cons {value : OptionValue} {field : WireField} {convert : Conversion}
    {rest : List (WireField × Conversion)} {fields next : RequestFields}
    (h : write value ((field, convert) :: rest) fields = .ok next) :
    ∃ v, convert value = .ok v ∧ write value rest (fields.put field v) = .ok next := by
  rw [write] at h
  cases hc : convert value with
  | error why => simp [hc] at h
  | ok v =>
    cases v with
    | none => exact ⟨none, rfl, by simpa [hc, RequestFields.put] using h⟩
    | some v => exact ⟨some v, rfl, by simpa [hc, RequestFields.put] using h⟩

theorem get?_write_of_not_mem {value : OptionValue} {destinations : List (WireField × Conversion)}
    {fields next : RequestFields} (h : write value destinations fields = .ok next)
    {field : WireField} (other : ∀ d ∈ destinations, field ≠ d.1) :
    next.get? field = fields.get? field := by
  induction destinations generalizing fields with
  | nil =>
    cases h
    rfl
  | cons d rest ih =>
    rw [List.forall_mem_cons] at other
    obtain ⟨v, -, hw⟩ := write_cons h
    rw [ih hw other.2, RequestFields.get?_put_other _ other.1]

theorem get?_write_of_mem {value : OptionValue} {destinations : List (WireField × Conversion)}
    {fields next : RequestFields} (h : write value destinations fields = .ok next)
    (sound : ∀ d ∈ destinations, d.2 = d.1.conversion) {field : WireField}
    (own : ∃ d ∈ destinations, field = d.1) :
    next.get? field = (field.written value).or (fields.get? field) := by
  induction destinations generalizing fields with
  | nil =>
    rcases own with ⟨d, hd, -⟩
    cases hd
  | cons d rest ih =>
    rw [List.forall_mem_cons] at sound
    obtain ⟨v, hv, hw⟩ := write_cons h
    by_cases first : field = d.1
    · have same : field.written value = v := by rw [first, written, ← sound.1, hv]
      by_cases again : ∃ d ∈ rest, field = d.1
      · rw [ih hw sound.2 again, first, RequestFields.get?_put_same, ← first, same]
        cases v <;> rfl
      · have other : ∀ d ∈ rest, field ≠ d.1 := fun d hd heq => again ⟨d, hd, heq⟩
        rw [get?_write_of_not_mem hw other, first, RequestFields.get?_put_same, ← first, same]
    · rcases own with ⟨e, he, heq⟩
      have later : e ∈ rest :=
        (List.mem_cons.mp he).resolve_left fun h => first (heq.trans (congrArg Prod.fst h))
      rw [ih hw sound.2 ⟨e, later, heq⟩, RequestFields.get?_put_other _ first]

/-- An option writes its own fields. -/
theorem get?_write_own {value : OptionValue} {kind : OptionKind} {fields next : RequestFields}
    (h : write value kind.destinations fields = .ok next) {field : WireField}
    (own : field.option = kind) :
    next.get? field = (field.written value).or (fields.get? field) := by
  subst own
  exact get?_write_of_mem h (fun d hd => (conversion_of_mem hd).2)
    ⟨_, field.mem_destinations, rfl⟩

/-- It writes no others. -/
theorem get?_write_other {value : OptionValue} {kind : OptionKind} {fields next : RequestFields}
    (h : write value kind.destinations fields = .ok next) {field : WireField}
    (other : field.option ≠ kind) : next.get? field = fields.get? field := by
  apply get?_write_of_not_mem h
  rintro d hd rfl
  exact other (conversion_of_mem hd).1

/-- The value that the entries write to a field, if the operation takes its option. -/
def outcome (operation : Operation) (entries : List (String × OptionValue)) (field : WireField) :
    Option FieldValue :=
  if field.option ∈ operation.options then
    (Bag.findValue? field.option.name entries).bind field.written
  else none

theorem taken?_eq_some_iff {operation : Operation} {name : String} {kind : OptionKind} :
    taken? operation name = some kind ↔ kind.name = name ∧ kind ∈ operation.options := by
  rw [taken?, Option.filter_eq_some_iff, decide_eq_true_iff]
  constructor
  · rintro ⟨hn, hk⟩
    exact ⟨OptionKind.name_of_ofName? hn, hk⟩
  · rintro ⟨rfl, hk⟩
    exact ⟨OptionKind.ofName?_name kind, hk⟩

/-- With distinct names every entry has its own fields to itself. -/
theorem get?_writeAll {operation : Operation} {entries : List (String × OptionValue)}
    {fields next : RequestFields} (h : writeAll operation entries fields = .ok next)
    (distinct : (entries.map (·.1)).Nodup) (field : WireField) :
    next.get? field = (outcome operation entries field).or (fields.get? field) := by
  induction entries generalizing fields with
  | nil =>
    cases h
    simp [outcome, Bag.findValue?]
  | cons e rest ih =>
    rcases e with ⟨name, value⟩
    rw [List.map_cons, List.nodup_cons] at distinct
    rw [writeAll] at h
    cases ht : taken? operation name with
    | none =>
      rw [ht] at h
      rw [ih h distinct.2]
      have skipped : outcome operation ((name, value) :: rest) field =
          outcome operation rest field := by
        by_cases hk : field.option ∈ operation.options
        · have hn : name ≠ field.option.name := by
            rintro rfl
            exact absurd (taken?_eq_some_iff.mpr ⟨rfl, hk⟩) (by simp [ht])
          simp [outcome, hk, Bag.findValue?, hn]
        · simp [outcome, hk]
      rw [skipped]
    | some kind =>
      obtain ⟨rfl, hk⟩ := taken?_eq_some_iff.mp ht
      cases hw : write value kind.destinations fields with
      | error why => simp [ht, hw] at h
      | ok after =>
        simp only [ht, hw] at h
        rw [ih h distinct.2]
        by_cases own : field.option = kind
        · subst own
          have later : outcome operation rest field = none := by
            rw [outcome, if_pos hk, Bag.findValue?_eq_none distinct.1, Option.bind_none]
          rw [get?_write_own hw rfl, later, outcome, if_pos hk, Bag.findValue?, if_pos rfl]
          rfl
        · have hn : kind.name ≠ field.option.name :=
            fun hn => own (OptionKind.name_injective hn).symm
          rw [get?_write_other hw own, outcome, outcome, Bag.findValue?, if_neg hn]

end Resolution

/-- A view of what is resolved is a view of fields. -/
theorem exists_ok_of_toOption {ε α β : Type} {x : Except ε α} {f : α → β} {b : β}
    (h : x.toOption.map f = some b) : ∃ a, x = .ok a ∧ f a = b := by
  cases x with
  | error e => cases h
  | ok a => exact ⟨a, rfl, Option.some.inj h⟩

/-- The value of an option that counts: that of the overrides before that of the options. -/
def effective (options overrides : Bag) (kind : OptionKind) : Option OptionValue :=
  (options.overwrite overrides).get? kind.name

/-- A resolved field is the conversion of the value that counts. -/
theorem get?_resolve {operation : Operation} {options overrides : Bag} {fields : RequestFields}
    (h : resolve operation options overrides = .ok fields) (distinct : options.names.Nodup)
    (field : WireField) :
    fields.get? field =
      if field.option ∈ operation.options then
        (effective options overrides field.option).bind field.written
      else none := by
  have names := Bag.nodup_names_insertAll distinct overrides.entries
  rw [Resolution.get?_writeAll h names field, RequestFields.empty, Option.or_none]
  rfl

end DocumentClient
