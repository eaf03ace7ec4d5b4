import DocumentClient.Proofs.Session.PathResults

/-!
# Whether a path is there and what is there

Two questions can be asked about every entry of an answer. A failure that the server reports
answers both of them alike. Without a failure the value decides, and the two questions look at it
apart: the value `false` is content, and at the same time says of the path that it is not there;
an entry without a value has no content, and yet its path is there. An answer does not remember
the operation of a spec, so all this holds whatever was asked of the path. Main statement:
`LookupResult.presence_matches_content`.
-/

namespace DocumentClient

/-- The server reports no failure of the path. -/
def Wire.LookupEntry.Succeeds (entry : Wire.LookupEntry) : Prop :=
  ∀ status ∈ entry.status, status.code = 0

namespace Wire.LookupEntry
variable {entry : LookupEntry}

theorem decoded_eq_some_iff {v : Json.Value} :
    decoded entry.text? = some v ↔ Json.parse entry.content = .ok v := by
  rw [text?]
  by_cases empty : entry.content = []
  · rw [if_pos empty, empty]
    constructor
    · rintro ⟨⟩
    · intro parsed
      cases parsed
  · rw [if_neg empty, decoded, Option.bind_some]
    cases Json.parse entry.content <;> simp [Except.toOption]

theorem decoded_eq_none_iff (readable : Readable entry.text?) :
    decoded entry.text? = none ↔ entry.content = [] := by
  rw [text?] at readable ⊢
  by_cases empty : entry.content = []
  · rw [if_pos empty]
    simp [decoded, empty]
  · rw [if_neg empty] at readable ⊢
    obtain ⟨v, parsed⟩ := readable _ rfl
    simp [decoded, parsed, empty, Except.toOption]

end Wire.LookupEntry

theorem LookupField.failure?_eq_none_iff (f : LookupField) :
    f.failure? = none ↔ ∀ status ∈ f.status, status.code = 0 := by
  rw [failure?]
  cases f.status with
  | none => simp
  | some status => simp [Option.filter]

namespace LookupResult
variable {specs : List LookupSpec} {spec : LookupSpec} {w : Wire.LookupInResponse}
  {entry : Wire.LookupEntry} {r : LookupResult} {i : Nat} {f : LookupField} {e : Error}

theorem readField_eq_ok_iff :
    readField spec entry = .ok f ↔
      Readable entry.text? ∧ f = ⟨spec.path, entry.status, decoded entry.text?⟩ := by
  rw [readField_eq]
  by_cases readable : Readable entry.text?
  · rw [MutateResult.readEntry_of_readable readable]
    simp only [Except.map, Except.ok.injEq, readable, true_and, eq_comm]
  · obtain ⟨e, refused⟩ := MutateResult.readEntry_of_not_readable readable
    rw [refused]
    simp [Except.map, readable]

/-- With an entry for each spec every field is read from the entry of its spec. -/
theorem getElem?_of_readFields {entries : List Wire.LookupEntry} {fields : List LookupField}
    (read : readFields specs entries = .ok fields) (counted : entries.length = specs.length)
    (asked : specs[i]? = some spec) :
    ∃ entry f, entries[i]? = some entry ∧ fields[i]? = some f ∧ readField spec entry = .ok f := by
  induction specs generalizing entries fields i with
  | nil => simp at asked
  | cons first specs ih =>
    cases entries with
    | nil => simp at counted
    | cons entry entries =>
      rw [readFields] at read
      cases readFirst : readField first entry with
      | error e => simp [readFirst] at read
      | ok f =>
        cases readOthers : readFields specs entries with
        | error e => simp [readFirst, readOthers] at read
        | ok fs =>
          rw [readFirst, readOthers] at read
          cases read
          cases i with
          | zero =>
            obtain rfl : first = spec := by simpa using asked
            exact ⟨entry, f, rfl, rfl, readFirst⟩
          | succ i =>
            rw [List.getElem?_cons_succ] at asked
            have later := ih readOthers (Nat.succ.inj counted) asked
            simpa only [List.getElem?_cons_succ] using later

theorem field_of_ofWire (read : ofWire specs w = .ok r) (asked : specs[i]? = some spec) :
    ∃ entry, w.specs[i]? = some entry ∧ Readable entry.text? ∧
      r.field i = .ok ⟨spec.path, entry.status, decoded entry.text?⟩ := by
  have counted : w.specs.length = specs.length := by
    apply Classical.byContradiction
    intro miscounted
    rw [ofWire_of_miscounted miscounted] at read
    cases read
  rw [ofWire_eq counted] at read
  cases readAll : readFields specs w.specs with
  | error e =>
    rw [readAll] at read
    cases read
  | ok fields =>
    rw [readAll] at read
    cases read
    obtain ⟨entry, f, said, found, readEntry⟩ := getElem?_of_readFields readAll counted asked
    obtain ⟨readable, rfl⟩ := readField_eq_ok_iff.mp readEntry
    refine ⟨entry, said, readable, ?_⟩
    rw [field, found]

theorem content_of_failure (found : r.field i = .ok f) (failed : f.failure? = some e)
    (shape : Json.Shape) : r.content shape i = .error e := by
  simp only [content, found, failed]

theorem present_of_failure (found : r.field i = .ok f) (failed : f.failure? = some e) :
    r.present i = if e.kind = .pathNotFound then .ok false else .error e := by
  simp only [present, found, failed]

theorem content_of_value {v : Json.Value} (found : r.field i = .ok f)
    (fine : f.failure? = none) (valued : f.value = some v) : r.content .any i = .ok v := by
  simp only [content, found, fine, valued]
  rfl

theorem content_of_no_value (found : r.field i = .ok f) (fine : f.failure? = none)
    (empty : f.value = none) (shape : Json.Shape) :
    r.content shape i = .error (.pathMissing f.path) := by
  simp only [content, found, fine, empty]

theorem present_of_success (found : r.field i = .ok f) (fine : f.failure? = none) :
    r.present i = .ok (f.value != some (.bool false)) := by
  simp only [present, found, fine]

/-- The two questions are answered alike: the path is there exactly if it has content, it is not
there exactly if its content is missing, and any other failure is the same. -/
structure Agrees (r : LookupResult) (i : Nat) : Prop where
  there : r.present i = .ok true ↔ ∃ v, r.content .any i = .ok v
  missing : r.present i = .ok false ↔ ∃ e, r.content .any i = .error e ∧ e.kind = .pathNotFound
  failed : ∀ e : Error, e.kind ≠ .pathNotFound →
    (r.present i = .error e ↔ r.content .any i = .error e)

theorem agrees_of_failure (found : r.field i = .ok f) (failed : f.failure? = some e) :
    r.Agrees i := by
  have content := content_of_failure found failed .any
  have present := present_of_failure found failed
  by_cases missing : e.kind = .pathNotFound
  · rw [if_pos missing] at present
    constructor
    · simp [present, content]
    · simp [present, content, missing]
    · intro e' other
      rw [present, content]
      simp only [reduceCtorEq, Except.error.injEq, false_iff]
      rintro rfl
      exact other missing
  · rw [if_neg missing] at present
    constructor
    · simp [present, content]
    · simp [present, content, missing]
    · intro e' _
      rw [present, content]
      simp only [Except.error.injEq]

theorem agrees_iff_of_success (found : r.field i = .ok f) (fine : f.failure? = none) :
    r.Agrees i ↔ f.value ≠ none ∧ f.value ≠ some (.bool false) := by
  have present := present_of_success found fine
  cases value : f.value with
  | none =>
    have content := content_of_no_value found fine value .any
    rw [value] at present
    constructor
    · intro agrees
      obtain ⟨v, told⟩ := agrees.there.mp present
      rw [content] at told
      cases told
    · rintro ⟨some, -⟩
      exact absurd rfl some
  | some v =>
    have content := content_of_value found fine value
    rw [value] at present
    by_cases untrue : v = .bool false
    · subst untrue
      constructor
      · intro agrees
        have there := agrees.there.mpr ⟨_, content⟩
        rw [present] at there
        cases there
      · rintro ⟨-, other⟩
        exact absurd rfl other
    · have there : r.present i = .ok true := by simp [present, untrue]
      constructor
      · intro _
        exact ⟨nofun, by simpa using untrue⟩
      · intro _
        constructor <;> simp [there, content]

/-- What the answers to the two questions about a spec are, by the entry for it. -/
structure Shows (r : LookupResult) (i : Nat) (path : String) (entry : Wire.LookupEntry) :
    Prop where
  alike_iff : r.Agrees i ↔
    ¬ (entry.Succeeds ∧ (entry.content = [] ∨ Json.parse entry.content = .ok (.bool false)))
  empty : entry.Succeeds → entry.content = [] →
    r.present i = .ok true ∧ ∀ shape, r.content shape i = .error (.pathMissing path)
  untrue : entry.Succeeds → Json.parse entry.content = .ok (.bool false) →
    r.present i = .ok false ∧ r.content .any i = .ok (.bool false)

/-- The two questions about a path are answered alike unless the server reports success and sends
no value or the value `false`: without a value the path is there but has no content, with `false`
it has content but is not there. -/
theorem presence_matches_content (read : ofWire specs w = .ok r) (asked : specs[i]? = some spec) :
    ∃ entry, w.specs[i]? = some entry ∧ r.Shows i spec.path entry := by
  obtain ⟨entry, said, readable, found⟩ := field_of_ofWire read asked
  refine ⟨entry, said, ?_⟩
  have failed_iff :=
    LookupField.failure?_eq_none_iff ⟨spec.path, entry.status, decoded entry.text?⟩
  constructor
  · by_cases fine : entry.Succeeds
    · rw [agrees_iff_of_success found (failed_iff.mpr fine), ne_eq, ne_eq,
        Wire.LookupEntry.decoded_eq_none_iff readable, Wire.LookupEntry.decoded_eq_some_iff]
      simp [fine]
    · obtain ⟨e, failed⟩ := Option.ne_none_iff_exists'.mp fun none => fine (failed_iff.mp none)
      simp [agrees_of_failure found failed, fine]
  · intro fine empty
    have unsaid := (Wire.LookupEntry.decoded_eq_none_iff readable).mpr empty
    have present := present_of_success found (failed_iff.mpr fine)
    rw [unsaid] at present
    exact ⟨present, content_of_no_value found (failed_iff.mpr fine) unsaid⟩
  · intro fine parsed
    have valued := Wire.LookupEntry.decoded_eq_some_iff.mpr parsed
    have present := present_of_success found (failed_iff.mpr fine)
    rw [valued] at present
    exact ⟨present, content_of_value found (failed_iff.mpr fine) valued⟩

/-- A number is there and has content, a missing path is not there and has none, and of the value
`false` the two questions tell different things. -/
theorem presence_matches_content_of_get :
    let specs : List LookupSpec :=
      [⟨.get, "count", false⟩, ⟨.get, "gone", false⟩, ⟨.get, "flag", false⟩]
    let w : Wire.LookupInResponse :=
      { specs := [{ content := [49] }, { status := some { code := 5 } },
          { content := Bytes.ofString "false" }] }
    ∃ r, ofWire specs w = .ok r ∧ r.Agrees 0 ∧ r.Agrees 1 ∧ ¬ r.Agrees 2 := by
  intro specs w
  obtain ⟨r, read⟩ : ∃ r, ofWire specs w = .ok r := ⟨_, rfl⟩
  refine ⟨r, read, ?_, ?_, ?_⟩
  · obtain ⟨entry, said, shows⟩ := presence_matches_content read (i := 0) rfl
    cases said
    rw [shows.alike_iff]
    rintro ⟨-, empty | untrue⟩
    · cases empty
    · cases untrue
  · obtain ⟨entry, said, shows⟩ := presence_matches_content read (i := 1) rfl
    cases said
    rw [shows.alike_iff]
    rintro ⟨fine, -⟩
    exact absurd (fine _ rfl) (by decide)
  · obtain ⟨entry, said, shows⟩ := presence_matches_content read (i := 2) rfl
    cases said
    rw [shows.alike_iff, not_not]
    exact ⟨nofun, .inr rfl⟩

/-- A value that is looked up is `false`, and its path is said to be missing; an entry comes without
a value, and its path is said to be there. -/
theorem presence_against_content :
    ∃ r, ofWire [⟨.get, "flag", false⟩, ⟨.get, "gone", false⟩]
        { specs := [{ content := Bytes.ofString "false" }, {}] } = .ok r ∧
      r.content .any 0 = .ok (.bool false) ∧ r.present 0 = .ok false ∧
      r.content .any 1 = .error (.pathMissing "gone") ∧ r.present 1 = .ok true :=
  ⟨_, rfl, rfl, rfl, rfl, rfl⟩

end LookupResult
end DocumentClient
