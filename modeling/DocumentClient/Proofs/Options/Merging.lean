import DocumentClient.Proofs.Options.Layers

/-!
# Merging layers of options

A later layer sets its typed options and then its keywords, one after another, on the layers below
it: a keyword that is there is replaced in place, a new one comes to the end. How several layers
are grouped therefore makes no difference, not even to the order of the keywords, and the empty
layer changes nothing. Both need that no name is twice in a bag, which all ways to build options
keep. Main statement: `CallOptions.layersMerge`.
-/

namespace DocumentClient

namespace Bag

theorem mem_names_insert {bag : Bag} {name n : String} {value : OptionValue} :
    n ∈ (bag.insert name value).names ↔ n = name ∨ n ∈ bag.names := by
  by_cases known : name ∈ bag.names
  · rw [names_insert_of_mem known]
    constructor
    · exact .inr
    · rintro (rfl | h)
      · exact known
      · exact h
  · rw [names_insert_of_not_mem known, List.mem_append, List.mem_singleton, or_comm]

/-- The later value replaces the earlier one. -/
theorem insert_insert_same (bag : Bag) (name : String) (v w : OptionValue) :
    (bag.insert name v).insert name w = bag.insert name w := by
  rcases bag with ⟨entries⟩
  apply congrArg Bag.mk
  dsimp only [insert]
  induction entries with
  | nil => simp [insertEntry]
  | cons e rest ih =>
    rcases e with ⟨n, u⟩
    by_cases same : n = name
    · simp [insertEntry, same]
    · simp only [insertEntry, if_neg same, ih]

/-- An option that is there already keeps its place, so that it does not matter whether another
one is set before or after it. -/
theorem insert_insert_of_mem {bag : Bag} {name : String} (known : name ∈ bag.names) {n : String}
    (other : n ≠ name) (v w : OptionValue) :
    (bag.insert n w).insert name v = (bag.insert name v).insert n w := by
  rcases bag with ⟨entries⟩
  apply congrArg Bag.mk
  change name ∈ entries.map (·.1) at known
  dsimp only [insert]
  induction entries with
  | nil => cases known
  | cons e rest ih =>
    rcases e with ⟨k, u⟩
    by_cases first : k = name
    · subst first
      simp [insertEntry, Ne.symm other]
    · have later : name ∈ rest.map (·.1) := (List.mem_cons.mp known).resolve_left (Ne.symm first)
      by_cases second : k = n
      · subst second
        simp [insertEntry, first]
      · simp only [insertEntry, if_neg first, if_neg second, ih later]

theorem insertAll_insert_of_mem {bag : Bag} {name : String} (known : name ∈ bag.names)
    {entries : List (String × OptionValue)} (absent : name ∉ entries.map (·.1))
    (value : OptionValue) :
    (bag.insertAll entries).insert name value = (bag.insert name value).insertAll entries := by
  induction entries generalizing bag with
  | nil => rfl
  | cons e rest ih =>
    rcases e with ⟨n, v⟩
    rw [List.map_cons, List.mem_cons, not_or] at absent
    change ((bag.insert n v).insertAll rest).insert name value =
      ((bag.insert name value).insert n v).insertAll rest
    rw [ih (mem_names_insert.mpr (.inr known)) absent.2,
      insert_insert_of_mem known (Ne.symm absent.1)]

/-- Setting an option in the later bag and in the result comes to the same. -/
theorem overwrite_insert (bag : Bag) {later : Bag} (distinct : later.names.Nodup) (name : String)
    (value : OptionValue) :
    bag.overwrite (later.insert name value) = (bag.overwrite later).insert name value := by
  rcases later with ⟨entries⟩
  change bag.insertAll (insertEntry name value entries) =
    (bag.insertAll entries).insert name value
  change (entries.map (·.1)).Nodup at distinct
  induction entries generalizing bag with
  | nil => rfl
  | cons e rest ih =>
    rcases e with ⟨n, v⟩
    rw [List.map_cons, List.nodup_cons] at distinct
    by_cases same : n = name
    · subst same
      rw [insertEntry, if_pos rfl]
      change (bag.insert n value).insertAll rest =
        ((bag.insert n v).insertAll rest).insert n value
      rw [insertAll_insert_of_mem (mem_names_insert.mpr (.inl rfl)) distinct.1,
        insert_insert_same]
    · rw [insertEntry, if_neg same]
      exact ih (bag.insert n v) distinct.2

theorem overwrite_assoc (a : Bag) {b : Bag} (distinct : b.names.Nodup) (c : Bag) :
    (a.overwrite b).overwrite c = a.overwrite (b.overwrite c) := by
  rcases c with ⟨entries⟩
  change (a.overwrite b).insertAll entries = a.overwrite (b.insertAll entries)
  induction entries generalizing b with
  | nil => rfl
  | cons e rest ih =>
    rcases e with ⟨name, value⟩
    change ((a.overwrite b).insert name value).insertAll rest =
      a.overwrite ((b.insert name value).insertAll rest)
    rw [← overwrite_insert a distinct, ih (nodup_names_insert distinct name value)]

theorem insertAll_eq_append {bag : Bag} {entries : List (String × OptionValue)}
    (distinct : (bag.names ++ entries.map (·.1)).Nodup) :
    bag.insertAll entries = ⟨bag.entries ++ entries⟩ := by
  induction entries generalizing bag with
  | nil =>
    rw [List.append_nil]
    rfl
  | cons e rest ih =>
    rcases e with ⟨n, v⟩
    have new : n ∉ bag.names := fun known =>
      (List.nodup_append.mp distinct).2.2 n known n List.mem_cons_self rfl
    have appended : (bag.insert n v).entries = bag.entries ++ [(n, v)] :=
      insertEntry_of_not_mem new v
    change (bag.insert n v).insertAll rest = _
    rw [ih, appended, List.append_assoc, List.singleton_append]
    rw [names_insert_of_not_mem new, List.append_assoc, List.singleton_append]
    exact distinct

/-- Setting the options of a bag one after another gives the bag. -/
theorem empty_overwrite {bag : Bag} (distinct : bag.names.Nodup) :
    ({} : Bag).overwrite bag = bag :=
  insertAll_eq_append distinct

/-- With a name twice, the bag would not come back. -/
example :
    ({} : Bag).overwrite ⟨[("a", .bool true), ("a", .bool false)]⟩ = ⟨[("a", .bool false)]⟩ := by
  decide

end Bag

namespace CallOptions

/-- Options as callers build them: from none, by typed options, by keywords and by merging. -/
inductive Built : CallOptions → Prop
  | new : Built {}
  | assign {options : CallOptions} (built : Built options) (option : TypedOption) :
    Built (options.assign option)
  | set {options : CallOptions} (built : Built options) (name : String) (value : OptionValue) :
    Built (options.set name value)
  | merge {options later : CallOptions} (built : Built options) (builtLater : Built later) :
    Built (options.merge later)

theorem Built.distinct {options : CallOptions} (built : options.Built) :
    options.overrides.names.Nodup := by
  induction built with
  | new => exact List.nodup_nil
  | assign built option ih => cases option <;> exact ih
  | set built name value ih => exact Bag.nodup_names_insert ih name value
  | merge built builtLater ih ihLater => exact Bag.nodup_names_overwrite ih _

theorem merge_assoc (a : CallOptions) {b : CallOptions} (distinct : b.overrides.names.Nodup)
    (c : CallOptions) : (a.merge b).merge c = a.merge (b.merge c) := by
  simp only [merge, Option.or_assoc, Bag.overwrite_assoc _ distinct]

theorem empty_merge {options : CallOptions} (distinct : options.overrides.names.Nodup) :
    merge {} options = options := by
  simp only [merge, Option.or_none, Bag.empty_overwrite distinct]

theorem merge_empty (options : CallOptions) : options.merge {} = options := by
  simp only [merge, Option.none_or]
  rfl

/-- The laws of merging. Equal options have the same typed ones, the same transcoder and the same
keywords in the same order. -/
structure LayersMerge : Prop where
  assoc : ∀ a b c : CallOptions, b.overrides.names.Nodup →
    (a.merge b).merge c = a.merge (b.merge c)
  empty_left : ∀ a : CallOptions, a.overrides.names.Nodup → merge {} a = a
  empty_right : ∀ a : CallOptions, a.merge {} = a
  /-- So the laws hold for all options that callers build. -/
  distinct : ∀ a : CallOptions, a.Built → a.overrides.names.Nodup

theorem layersMerge : LayersMerge where
  assoc a _ c distinct := merge_assoc a distinct c
  empty_left _ := empty_merge
  empty_right := merge_empty
  distinct _ := Built.distinct

/-- A keyword of a later layer takes the place of the earlier one, new ones follow. -/
example :
    let low : CallOptions := { overrides := .ofEntries [("expiry", .int 1), ("cas", .uint 2)] }
    let high : CallOptions := { overrides := .ofEntries [("colour", .int 3), ("expiry", .int 4)] }
    (low.merge high).overrides.entries =
      [("expiry", .int 4), ("cas", .uint 2), ("colour", .int 3)] := by
  decide

end CallOptions
end DocumentClient
