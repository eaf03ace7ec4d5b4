import DocumentClient.Error
import DocumentClient.Proofs.Options.Acceptance

/-!
# What resolution comes to

The loop over the merged options against a description without a loop: the value of a name that
counts is that of the overrides, else that of the options; resolution succeeds when the values
that count are accepted, and then writes what they convert to and nothing else. A refusal names
an option whose value counts and is not accepted. The order of the options decides only which of
several such options is named.

Bags are taken to have distinct names, as all bags have that are made by setting options
(`Bag.nodup_names_ofEntries`). A call without options has the empty bag. Main statement:
`resolve_matches`.
-/

namespace DocumentClient

/-- The names of the options that an operation takes. -/
def Operation.optionNames (operation : Operation) : List String :=
  operation.options.map OptionKind.name

namespace Bag

/-- The value of a name that counts: that of the overrides, else that of the options. -/
def counting? (options overrides : Bag) (name : String) : Option OptionValue :=
  (overrides.get? name).or (options.get? name)

/-- The entries of a bag under some names, in their order. -/
def only (known : List String) (bag : Bag) : Bag := ⟨bag.entries.filter fun e => e.1 ∈ known⟩

variable {known : List String} {name : String}

theorem only_insert_of_mem (h : name ∈ known) (bag : Bag) (value : OptionValue) :
    (bag.insert name value).only known = (bag.only known).insert name value := by
  rcases bag with ⟨entries⟩
  apply congrArg Bag.mk
  dsimp only [insert, only]
  induction entries with
  | nil => simp [insertEntry, h]
  | cons e rest ih =>
    rcases e with ⟨n, v⟩
    by_cases same : n = name
    · subst same
      simp [insertEntry, h]
    · by_cases kept : n ∈ known
      · simpa [insertEntry, same, kept] using ih
      · simpa [insertEntry, same, kept] using ih

theorem only_insert_of_not_mem (h : name ∉ known) (bag : Bag) (value : OptionValue) :
    (bag.insert name value).only known = bag.only known := by
  rcases bag with ⟨entries⟩
  apply congrArg Bag.mk
  dsimp only [insert]
  induction entries with
  | nil => simp [insertEntry, h]
  | cons e rest ih =>
    rcases e with ⟨n, v⟩
    by_cases same : n = name
    · subst same
      simp [insertEntry, h]
    · simp only [insertEntry, if_neg same, List.filter_cons, ih]

theorem only_overwrite (bag later : Bag) :
    (bag.overwrite later).only known = (bag.only known).overwrite (later.only known) := by
  rcases later with ⟨entries⟩
  change (bag.insertAll entries).only known =
    (bag.only known).insertAll (entries.filter fun e => e.1 ∈ known)
  induction entries generalizing bag with
  | nil => rfl
  | cons e rest ih =>
    rcases e with ⟨n, v⟩
    change ((bag.insert n v).insertAll rest).only known = _
    rw [ih, List.filter_cons]
    by_cases kept : n ∈ known
    · rw [only_insert_of_mem kept, if_pos (by simpa using kept)]
      rfl
    · rw [only_insert_of_not_mem kept, if_neg (by simpa using kept)]

theorem nodup_names_of_perm {a b : Bag} (distinct : b.names.Nodup)
    (same : a.entries.Perm b.entries) : a.names.Nodup :=
  (same.map _).nodup_iff.mpr distinct

/-- A permutation of a bag has the same values. -/
theorem get?_of_perm {a b : Bag} (distinct : b.names.Nodup) (same : a.entries.Perm b.entries)
    (name : String) : a.get? name = b.get? name := by
  apply Option.ext
  intro value
  constructor
  · exact fun found => findValue?_of_mem distinct (same.mem_iff.mp (mem_of_findValue? found))
  · exact fun found => findValue?_of_mem (nodup_names_of_perm distinct same)
      (same.mem_iff.mpr (mem_of_findValue? found))

end Bag

theorem effective_eq_counting {overrides : Bag} (distinct : overrides.names.Nodup)
    (options : Bag) (kind : OptionKind) :
    effective options overrides kind = options.counting? overrides kind.name := by
  rw [effective, Bag.get?_overwrite, Bag.latest?_eq_get? distinct, Bag.counting?]

namespace Resolution
variable {operation : Operation}

theorem exists_refusing_of_write {value : OptionValue}
    {destinations : List (WireField × Conversion)} {fields : RequestFields} {why : OptionRefusal}
    (h : write value destinations fields = .error why) :
    ∃ d ∈ destinations, d.2 value = .error why := by
  induction destinations generalizing fields with
  | nil => cases h
  | cons d rest ih =>
    rw [write] at h
    cases converted : d.2 value with
    | error why' =>
      rw [converted] at h
      cases h
      exact ⟨d, List.mem_cons_self, converted⟩
    | ok content =>
      rw [converted] at h
      have later : ∃ d ∈ rest, d.2 value = .error why := by
        cases content with
        | none => exact ih h
        | some v => exact ih h
      obtain ⟨d', member, refused⟩ := later
      exact ⟨d', List.mem_cons_of_mem d member, refused⟩

/-- A fault of the loop is one of an entry that the operation takes. -/
theorem exists_refused_of_writeAll {entries : List (String × OptionValue)}
    {fields : RequestFields} {fault : OptionFault}
    (h : writeAll operation entries fields = .error fault) :
    ∃ kind ∈ operation.options, ∃ value why, (kind.name, value) ∈ entries ∧
      (∃ d ∈ kind.destinations, d.2 value = .error why) ∧ fault = ⟨operation, kind.name, why⟩ := by
  induction entries generalizing fields with
  | nil => cases h
  | cons e rest ih =>
    rcases e with ⟨name, value⟩
    have later {next : RequestFields} (h : writeAll operation rest next = .error fault) :
        ∃ kind ∈ operation.options, ∃ v why, (kind.name, v) ∈ (name, value) :: rest ∧
          (∃ d ∈ kind.destinations, d.2 v = .error why) ∧
            fault = ⟨operation, kind.name, why⟩ := by
      obtain ⟨kind, taken, v, why, member, refused⟩ := ih h
      exact ⟨kind, taken, v, why, List.mem_cons_of_mem _ member, refused⟩
    rw [writeAll] at h
    cases ht : taken? operation name with
    | none =>
      rw [ht] at h
      exact later h
    | some kind =>
      obtain ⟨rfl, taken⟩ := taken?_eq_some_iff.mp ht
      cases hw : write value kind.destinations fields with
      | ok next =>
        simp only [ht, hw] at h
        exact later h
      | error why =>
        simp only [ht, hw, Except.error.injEq] at h
        exact ⟨kind, taken, value, why, List.mem_cons_self, exists_refusing_of_write hw, h.symm⟩

theorem taken?_eq_none {name : String} (unknown : name ∉ operation.optionNames) :
    taken? operation name = none := by
  cases ht : taken? operation name with
  | none => rfl
  | some kind =>
    obtain ⟨rfl, taken⟩ := taken?_eq_some_iff.mp ht
    exact absurd (List.mem_map_of_mem taken) unknown

/-- The loop skips the entries that the operation does not take. -/
theorem writeAll_only (bag : Bag) (fields : RequestFields) :
    writeAll operation (bag.only operation.optionNames).entries fields =
      writeAll operation bag.entries fields := by
  rcases bag with ⟨entries⟩
  dsimp only [Bag.only]
  induction entries generalizing fields with
  | nil => rfl
  | cons e rest ih =>
    rcases e with ⟨name, value⟩
    by_cases known : name ∈ operation.optionNames
    · rw [List.filter_cons_of_pos (by simpa using known), writeAll, writeAll]
      simp only [ih]
    · rw [List.filter_cons_of_neg (by simpa using known), ih, writeAll, taken?_eq_none known]

end Resolution

section
variable {operation : Operation} {options overrides : Bag}

theorem resolve_only (operation : Operation) (options overrides : Bag) :
    resolve operation (options.only operation.optionNames)
      (overrides.only operation.optionNames) = resolve operation options overrides := by
  rw [resolve, ← Bag.only_overwrite, Resolution.writeAll_only, resolve]

/-- What the values that count write to a field. -/
theorem get?_resolve_eq_some_iff (first : options.names.Nodup) (second : overrides.names.Nodup)
    {fields : RequestFields} (h : resolve operation options overrides = .ok fields)
    (field : WireField) (content : FieldValue) :
    fields.get? field = some content ↔
      ∃ kind ∈ operation.options, ∃ value convert,
        options.counting? overrides kind.name = some value ∧
          (field, convert) ∈ kind.destinations ∧ convert value = .ok (some content) := by
  rw [get?_resolve h first field, effective_eq_counting second]
  constructor
  · intro written
    by_cases taken : field.option ∈ operation.options
    · rw [if_pos taken, Option.bind_eq_some_iff] at written
      obtain ⟨value, counts, converted⟩ := written
      exact ⟨field.option, taken, value, field.conversion, counts, field.mem_destinations,
        WireField.written_eq_some_iff.mp converted⟩
    · rw [if_neg taken] at written
      cases written
  · rintro ⟨kind, taken, value, convert, counts, own, converted⟩
    obtain ⟨rfl, rfl⟩ := WireField.conversion_of_mem own
    rw [if_pos taken, counts, Option.bind_some]
    exact WireField.written_eq_some_iff.mpr converted

/-- How the result of resolution depends on the options, apart from the way it is computed. -/
structure MatchesReference (operation : Operation) (options overrides : Bag) : Prop where
  /-- All conversions of all values that count accept them. -/
  succeeds_iff : (∃ fields, resolve operation options overrides = .ok fields) ↔
    ∀ kind ∈ operation.options, ∀ value, options.counting? overrides kind.name = some value →
      kind.Accepts value
  fields_iff : ∀ fields, resolve operation options overrides = .ok fields →
    ∀ field content, fields.get? field = some content ↔
      ∃ kind ∈ operation.options, ∃ value convert,
        options.counting? overrides kind.name = some value ∧
          (field, convert) ∈ kind.destinations ∧ convert value = .ok (some content)
  refused : ∀ e, orRefuse .option (resolve operation options overrides) = .error e →
    e.kind = .invalidArgument ∧
      ∃ kind ∈ operation.options, ∃ value why,
        options.counting? overrides kind.name = some value ∧
          (∃ d ∈ kind.destinations, d.2 value = .error why) ∧
            e.detail = operation.name ++ ": option '" ++ kind.name ++ "': " ++ why.message
  /-- Entries that the operation does not take: which ones there are, where and with what values
  makes no difference, not even for the refusal. -/
  ignores : ∀ options' overrides',
    options'.only operation.optionNames = options.only operation.optionNames →
      overrides'.only operation.optionNames = overrides.only operation.optionNames →
        resolve operation options' overrides' = resolve operation options overrides
  /-- Options that are overridden: neither do their values. -/
  overridden : ∀ options', options'.names.Nodup →
    (∀ name, overrides.get? name = none → options'.get? name = options.get? name) →
      (resolve operation options' overrides).toOption =
        (resolve operation options overrides).toOption
  permuted : ∀ options' overrides', options'.entries.Perm options.entries →
    overrides'.entries.Perm overrides.entries →
      (resolve operation options' overrides').toOption =
        (resolve operation options overrides).toOption

theorem resolve_matches (first : options.names.Nodup) (second : overrides.names.Nodup) :
    MatchesReference operation options overrides where
  succeeds_iff := by
    simp only [resolve_ok_iff first, effective_eq_counting second]
  fields_iff := fun _ h => get?_resolve_eq_some_iff first second h
  refused := by
    intro e h
    cases hr : resolve operation options overrides with
    | ok fields =>
      rw [hr] at h
      cases h
    | error fault =>
      rw [hr] at h
      cases h
      obtain ⟨kind, taken, value, why, member, refused, rfl⟩ :=
        Resolution.exists_refused_of_writeAll hr
      have counts : effective options overrides kind = some value :=
        Bag.findValue?_of_mem (Bag.nodup_names_insertAll first overrides.entries) member
      rw [effective_eq_counting second] at counts
      exact ⟨rfl, kind, taken, value, why, counts, refused, rfl⟩
  ignores := by
    intro options' overrides' same same'
    rw [← resolve_only, same, same', resolve_only]
  overridden := by
    intro options' first' same
    apply resolve_congr first' first
    intro kind taken
    rw [effective_eq_counting second, effective_eq_counting second, Bag.counting?, Bag.counting?]
    cases set : overrides.get? kind.name with
    | none => rw [same kind.name set]
    | some value => rfl
  permuted := by
    intro options' overrides' same same'
    apply resolve_congr (Bag.nodup_names_of_perm first same) first
    intro kind taken
    rw [effective_eq_counting second,
      effective_eq_counting (Bag.nodup_names_of_perm second same'), Bag.counting?, Bag.counting?,
      Bag.get?_of_perm first same, Bag.get?_of_perm second same']

end

/-- A negative expiry is refused, but not where it is overridden; a name that is not known to
anything and an option of other operations pass. -/
theorem resolve_matches_of_replace :
    let options := Bag.ofEntries
      [("colour", .bool true), ("expiry", .int (-5)), ("project", .bool false), ("cas", .uint 0),
        ("timeout", .duration (.ofSeconds 1))]
    let overrides := Bag.ofEntries [("durability", .text "majority"), ("expiry", .int 7)]
    MatchesReference .replace options overrides ∧ MatchesReference .replace options {} ∧
      (resolve .replace options overrides).toOption.map RequestFields.toList =
        some [(.timeoutMicros, .u64 1000000), (.expirySecs, .u32 7),
          (.durabilityLevel, .enum 0)] ∧
      ∃ e, orRefuse .option (resolve .replace options {}) = .error e ∧
        e.detail = "replace: option 'expiry': expected a duration, got Int(-5)" := by
  intro options overrides
  have first : options.names.Nodup := by decide
  refine ⟨resolve_matches first (by decide), resolve_matches first (by decide), ?_, ?_⟩
  · decide
  · refine ⟨.refused (.option ⟨.replace, "expiry", .notDuration (.int (-5))⟩), rfl, ?_⟩
    decide +kernel

end DocumentClient
