import DocumentClient.Proofs.Options.Fields

/-!
# The value that counts

An option of a call has the value of the keyword under its name, else that of the typed option.
Main statement: once the options of a call are resolved, every field of an option that the
operation takes holds the conversion of that value, and is absent if there is no such value.
-/

namespace DocumentClient

namespace Bag

theorem findValue?_append (name : String) (xs ys : List (String × OptionValue)) :
    findValue? name (xs ++ ys) = (findValue? name xs).or (findValue? name ys) := by
  induction xs with
  | nil => rfl
  | cons e rest ih =>
    rcases e with ⟨n, v⟩
    rw [List.cons_append, findValue?, findValue?, ih]
    split <;> rfl

/-- Of values set one after another the last one stays. -/
theorem get?_insertAll (bag : Bag) (entries : List (String × OptionValue)) (name : String) :
    (bag.insertAll entries).get? name = (findValue? name entries.reverse).or (bag.get? name) := by
  induction entries generalizing bag with
  | nil => rfl
  | cons e rest ih =>
    rcases e with ⟨n, v⟩
    have first : (bag.insert n v).get? name = (findValue? name [(n, v)]).or (bag.get? name) := by
      rw [get?_insert, findValue?]
      by_cases same : name = n
      · rw [if_pos same, if_pos same.symm]
        rfl
      · rw [if_neg same, if_neg (Ne.symm same)]
        rfl
    change ((bag.insert n v).insertAll rest).get? name = _
    rw [ih, first, List.reverse_cons, findValue?_append, Option.or_assoc]

theorem mem_of_findValue? {name : String} {value : OptionValue}
    {entries : List (String × OptionValue)} (h : findValue? name entries = some value) :
    (name, value) ∈ entries := by
  induction entries with
  | nil => cases h
  | cons e rest ih =>
    rcases e with ⟨n, v⟩
    rw [findValue?] at h
    split at h
    · next same =>
      cases h
      exact same ▸ List.mem_cons_self
    · exact List.mem_cons_of_mem _ (ih h)

theorem findValue?_of_mem {name : String} {value : OptionValue}
    {entries : List (String × OptionValue)} (distinct : (entries.map (·.1)).Nodup)
    (h : (name, value) ∈ entries) : findValue? name entries = some value := by
  induction entries with
  | nil => cases h
  | cons e rest ih =>
    rcases e with ⟨n, v⟩
    rw [List.map_cons, List.nodup_cons] at distinct
    rcases List.mem_cons.mp h with first | later
    · cases first
      rw [findValue?, if_pos rfl]
    · have other : n ≠ name := by
        rintro rfl
        exact distinct.1 (List.mem_map.mpr ⟨_, later, rfl⟩)
      rw [findValue?, if_neg other, ih distinct.2 later]

/-- The value that was set last under a name. -/
def latest? (bag : Bag) (name : String) : Option OptionValue :=
  findValue? name bag.entries.reverse

/-- Setting options one after another leaves no name twice, and then the last value is the only
one. -/
theorem latest?_eq_get? {bag : Bag} (distinct : bag.names.Nodup) (name : String) :
    bag.latest? name = bag.get? name := by
  cases hv : bag.get? name with
  | none =>
    cases hl : bag.latest? name with
    | none => rfl
    | some v =>
      have found := List.mem_reverse.mp (mem_of_findValue? hl)
      rw [get?, findValue?_of_mem distinct found] at hv
      cases hv
  | some v =>
    apply findValue?_of_mem
    · rw [List.map_reverse]
      exact List.pairwise_reverse.mpr (distinct.imp Ne.symm)
    · exact List.mem_reverse.mpr (mem_of_findValue? hv)

theorem get?_overwrite (bag later : Bag) (name : String) :
    (bag.overwrite later).get? name = (later.latest? name).or (bag.get? name) :=
  bag.get?_insertAll later.entries name

end Bag

/-- The declared option beside an option by name. -/
def OptionKind.field : OptionKind → TypedField
  | .timeout => .timeout
  | .expiry => .expiry
  | .preserveExpiry => .preserveExpiry
  | .cas => .cas
  | .durability => .durability
  | .project => .project
  | .accessDeleted => .accessDeleted
  | .storeSemantics => .storeSemantics

theorem OptionKind.name_field (kind : OptionKind) : kind.field.name = kind.name := by
  cases kind <;> rfl

theorem TypedField.name_injective : Function.Injective TypedField.name := by
  intro a b same
  cases a <;> cases b <;> first | rfl | (absurd same; decide)

/-- The names that an operation takes are those of its declared options. -/
theorem Operation.field_mem_declared {operation : Operation} {kind : OptionKind}
    (taken : kind ∈ operation.options) : kind.field ∈ operation.declared := by
  cases operation <;> cases kind <;> first | decide | (absurd taken; decide)

namespace CallOptions

/-- The value of a typed option, field by field. -/
def typed? (options : CallOptions) : OptionKind → Option OptionValue
  | .timeout => options.timeout.map .duration
  | .expiry => options.expiry.map .duration
  | .preserveExpiry => options.preserveExpiry.map .bool
  | .cas => options.cas.map .uint
  | .durability => options.durability.map .durability
  | .project => options.project.map .texts
  | .accessDeleted => options.accessDeleted.map .bool
  | .storeSemantics => options.storeSemantics.map .semantics

/-- The value of an option that counts: that of the keyword, else the typed one. -/
def effective? (options : CallOptions) (kind : OptionKind) : Option OptionValue :=
  (options.overrides.latest? kind.name).or (options.typed? kind)

theorem value?_field (options : CallOptions) (kind : OptionKind) :
    options.value? kind.field = options.typed? kind := by
  cases kind <;> rfl

theorem findValue?_declared (options : CallOptions) (fields : List TypedField)
    (field : TypedField) :
    Bag.findValue? field.name
        (fields.filterMap fun f => (options.value? f).map fun v => (f.name, v)) =
      if field ∈ fields then options.value? field else none := by
  induction fields with
  | nil => rfl
  | cons f rest ih =>
    rw [List.filterMap_cons]
    cases hv : options.value? f with
    | none =>
      rw [Option.map_none, ih]
      by_cases same : field = f
      · subst same
        simp [hv]
      · simp [same]
    | some v =>
      rw [Option.map_some, Bag.findValue?]
      by_cases same : field = f
      · subst same
        simp [hv]
      · have other : f.name ≠ field.name := fun h => same (TypedField.name_injective h).symm
        rw [if_neg other, ih]
        simp [same]

theorem get?_toBag (options : CallOptions) {operation : Operation} {kind : OptionKind}
    (taken : kind ∈ operation.options) :
    (options.toBag operation).get? kind.name = options.typed? kind := by
  have declared := operation.field_mem_declared taken
  rw [toBag, Bag.ofEntries, Bag.get?_insertAll, ← List.filterMap_reverse, ← kind.name_field,
    findValue?_declared, if_pos (List.mem_reverse.mpr declared), value?_field]
  exact Option.or_none

theorem effective_eq (options : CallOptions) {operation : Operation} {kind : OptionKind}
    (taken : kind ∈ operation.options) :
    effective (options.toBag operation) options.overrides kind = options.effective? kind := by
  rw [effective, Bag.get?_overwrite, options.get?_toBag taken, effective?]

end CallOptions

namespace Resolution

theorem convert_of_write {value : OptionValue} {destinations : List (WireField × Conversion)}
    {fields next : RequestFields} (h : write value destinations fields = .ok next) :
    ∀ d ∈ destinations, ∃ v, d.2 value = .ok v := by
  induction destinations generalizing fields with
  | nil => exact List.forall_mem_nil _
  | cons d rest ih =>
    rw [List.forall_mem_cons]
    obtain ⟨v, hv, hw⟩ := write_cons h
    exact ⟨⟨v, hv⟩, ih hw⟩

/-- Every value of an option that the operation takes has been converted. -/
theorem convert_of_writeAll {operation : Operation} {entries : List (String × OptionValue)}
    {fields next : RequestFields} (h : writeAll operation entries fields = .ok next)
    {kind : OptionKind} (taken : kind ∈ operation.options) {value : OptionValue}
    (found : (kind.name, value) ∈ entries) : ∀ d ∈ kind.destinations, ∃ v, d.2 value = .ok v := by
  induction entries generalizing fields with
  | nil => cases found
  | cons e rest ih =>
    rcases e with ⟨name, value'⟩
    rw [writeAll] at h
    cases ht : taken? operation name with
    | none =>
      rw [ht] at h
      rcases List.mem_cons.mp found with first | later
      · cases first
        rw [taken?_eq_some_iff.mpr ⟨rfl, taken⟩] at ht
        cases ht
      · exact ih h later
    | some k =>
      cases hw : write value' k.destinations fields with
      | error why => simp [ht, hw] at h
      | ok after =>
        simp only [ht, hw] at h
        rcases List.mem_cons.mp found with first | later
        · cases first
          rw [taken?_eq_some_iff.mpr ⟨rfl, taken⟩] at ht
          cases ht
          exact convert_of_write hw
        · exact ih h later

end Resolution

/-- A field holds what a value converts to, and nothing without a value. -/
def WireField.Holds (field : WireField) (value : Option OptionValue)
    (content : Option FieldValue) : Prop :=
  match value with
  | none => content = none
  | some v => field.conversion v = .ok content

/-- A resolved field holds the value of its option that counts. -/
theorem holds_of_resolve {operation : Operation} {options overrides : Bag}
    {fields : RequestFields} (distinct : options.names.Nodup)
    (h : resolve operation options overrides = .ok fields) {field : WireField}
    (taken : field.option ∈ operation.options) :
    field.Holds (effective options overrides field.option) (fields.get? field) := by
  have written := get?_resolve h distinct field
  rw [if_pos taken] at written
  cases he : effective options overrides field.option with
  | none =>
    rw [he] at written
    exact written
  | some value =>
    have converted : ∃ v, field.conversion value = .ok v :=
      Resolution.convert_of_writeAll h taken (Bag.mem_of_findValue? he) _ field.mem_destinations
    obtain ⟨v, hv⟩ := converted
    rw [he, Option.bind_some, WireField.written, hv] at written
    rw [WireField.Holds, written]
    exact hv

theorem CallOptions.holds_of_resolve {options : CallOptions} {operation : Operation}
    {fields : RequestFields} (h : options.resolve operation = .ok fields) {field : WireField}
    (taken : field.option ∈ operation.options) :
    field.Holds (options.effective? field.option) (fields.get? field) := by
  rw [← options.effective_eq taken]
  exact DocumentClient.holds_of_resolve (options.nodup_names_toBag operation) h taken

end DocumentClient
