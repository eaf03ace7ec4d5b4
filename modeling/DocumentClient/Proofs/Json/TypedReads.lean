import DocumentClient.Proofs.Json.RoundTrip

/-!
# Typed reads do not depend on the representation

A value can be read as a shape from memory or from its compact text. Both take the values that fit
the shape, as they are, and both stop at the first part that does not fit, for the same reason; the
reading of the text adds the place.

A list or an object is followed for any reader of what is inside, given only that this one comes to
what memory gives for each item. Main statements: `reader_follows`, by induction on the shape, and
with it `Document.typed_reads_agree`.
-/

namespace DocumentClient.Json

section Lists
variable {α ε : Type} {f : α → Except ε α} {P : α → Prop} {as bs : List α}

theorem mapM_cons_eq (f : α → Except ε α) (a : α) (as : List α) :
    (a :: as).mapM f = (f a).bind fun b => (as.mapM f).map (b :: ·) := by
  rw [List.mapM_cons]
  cases f a with
  | error e => rfl
  | ok b => cases as.mapM f <;> rfl

theorem mapM_eq_self (each : ∀ a ∈ as, f a = .ok a) : as.mapM f = .ok as := by
  induction as with
  | nil => rfl
  | cons a as ih =>
    rw [List.forall_mem_cons] at each
    rw [mapM_cons_eq, each.1, ih each.2]
    rfl

theorem of_mapM_eq_ok (sound : ∀ {a b}, f a = .ok b → P a ∧ b = a) (h : as.mapM f = .ok bs) :
    (∀ a ∈ as, P a) ∧ bs = as := by
  induction as generalizing bs with
  | nil =>
    cases h
    exact ⟨nofun, rfl⟩
  | cons a as ih =>
    rw [mapM_cons_eq] at h
    cases first : f a with
    | error e =>
      rw [first] at h
      cases h
    | ok b =>
      cases others : as.mapM f with
      | error e =>
        rw [first, others] at h
        cases h
      | ok bs =>
        rw [first, others] at h
        cases h
        obtain ⟨here, rfl⟩ := sound first
        obtain ⟨there, rfl⟩ := ih others
        exact ⟨List.forall_mem_cons.mpr ⟨here, there⟩, rfl⟩

end Lists

namespace Shape
variable {shape : Shape} {v w : Value} {read : Value → Except Reason Value}

/-- The values that a shape describes. -/
inductive Fits : Shape → Value → Prop where
  | any (v : Value) : Fits .any v
  | bool (b : Bool) : Fits .bool (.bool b)
  | integer {kind : IntegerKind} {n : Int} (least : kind.least ≤ n) (bound : n < kind.bound) :
    Fits (.integer kind) (.number (.whole n))
  | text (s : String) : Fits .text (.text s)
  | null (shape : Shape) : Fits (.optional shape) .null
  | present {shape : Shape} {v : Value} (fits : Fits shape v) : Fits (.optional shape) v
  | list {shape : Shape} {items : List Value} (each : ∀ v ∈ items, Fits shape v) :
    Fits (.list shape) (.array items)
  | map {shape : Shape} {members : List (String × Value)} (each : ∀ m ∈ members, Fits shape m.2) :
    Fits (.map shape) (.object members)

theorem eachItem_eq (items : List Value) : eachItem read items = items.mapM read := by
  induction items with
  | nil => rfl
  | cons v rest ih =>
    rw [eachItem, mapM_cons_eq, ← ih]
    cases read v with
    | error e => rfl
    | ok v => cases eachItem read rest <;> rfl

def readMember (read : Value → Except Reason Value) (m : String × Value) :
    Except Reason (String × Value) :=
  (read m.2).map (m.1, ·)

theorem eachMember_eq (members : List (String × Value)) :
    eachMember read members = members.mapM (readMember read) := by
  induction members with
  | nil => rfl
  | cons m rest ih =>
    rw [eachMember, mapM_cons_eq, ← ih, readMember]
    cases read m.2 with
    | error e => rfl
    | ok v => cases eachMember read rest <;> rfl

theorem mapM_readMember_cons (m : String × Value) (members : List (String × Value)) :
    (m :: members).mapM (readMember read) =
      (read m.2).bind fun v => (members.mapM (readMember read)).map ((m.1, v) :: ·) := by
  rw [mapM_cons_eq, readMember]
  cases read m.2 <;> rfl

theorem readMember_eq_ok {P : Value → Prop} (sound : ∀ {v w}, read v = .ok w → P v ∧ w = v)
    {m taken : String × Value} (h : readMember read m = .ok taken) : P m.2 ∧ taken = m := by
  rw [readMember] at h
  cases value : read m.2 with
  | error e =>
    rw [value] at h
    cases h
  | ok w =>
    rw [value] at h
    cases h
    obtain ⟨fits, rfl⟩ := sound value
    exact ⟨fits, rfl⟩

/-- What fits is taken as it is. -/
theorem ofValue_of_fits (fits : shape.Fits v) : shape.ofValue v = .ok v := by
  induction fits with
  | any | bool | text | null => rfl
  | integer least bound => exact if_pos ⟨least, bound⟩
  | @present shape v fits ih =>
    cases v with
    | null => rfl
    | _ => exact ih
  | list each ih =>
    rw [ofValue, eachItem_eq, mapM_eq_self ih]
    rfl
  | @map shape members each ih =>
    have kept : ∀ m ∈ members, readMember shape.ofValue m = .ok m := by
      intro m hm
      rw [readMember, ih m hm]
      rfl
    rw [ofValue, eachMember_eq, mapM_eq_self kept]
    rfl

/-- What is taken fits. -/
theorem ofValue_eq_ok (h : shape.ofValue v = .ok w) : shape.Fits v ∧ w = v := by
  induction shape generalizing v w with
  | any =>
    cases h
    exact ⟨.any v, rfl⟩
  | bool =>
    cases v with
    | bool b =>
      cases h
      exact ⟨.bool b, rfl⟩
    | _ => cases h
  | integer kind =>
    cases v with
    | number n =>
      cases n with
      | whole n =>
        rw [ofValue, integerOf] at h
        split at h
        · next inside =>
          cases h
          exact ⟨.integer inside.1 inside.2, rfl⟩
        · cases h
      | real x => cases h
    | _ => cases h
  | text =>
    cases v with
    | text s =>
      cases h
      exact ⟨.text s, rfl⟩
    | _ => cases h
  | optional shape ih =>
    have present (h : shape.ofValue v = .ok w) : (Shape.optional shape).Fits v ∧ w = v :=
      ⟨.present (ih h).1, (ih h).2⟩
    cases v with
    | null =>
      cases h
      exact ⟨.null shape, rfl⟩
    | _ => exact present h
  | list shape ih =>
    cases v with
    | array items =>
      rw [ofValue, eachItem_eq] at h
      cases inside : items.mapM shape.ofValue with
      | error e =>
        rw [inside] at h
        cases h
      | ok taken =>
        rw [inside] at h
        cases h
        obtain ⟨each, rfl⟩ := of_mapM_eq_ok ih inside
        exact ⟨.list each, rfl⟩
    | _ => cases h
  | map shape ih =>
    cases v with
    | object members =>
      rw [ofValue, eachMember_eq] at h
      cases inside : members.mapM (readMember shape.ofValue) with
      | error e =>
        rw [inside] at h
        cases h
      | ok taken =>
        rw [inside] at h
        cases h
        obtain ⟨each, rfl⟩ := of_mapM_eq_ok (readMember_eq_ok ih) inside
        exact ⟨.map each, rfl⟩
    | _ => cases h

end Shape

namespace Reading
variable {rest : Bytes} {v : Value}

/-- A reading comes to what memory gives: the same with `rest` left over, or the same reason. -/
inductive ComesTo {α : Type} (rest : Bytes) : Except Reason α → Reading α → Prop where
  | taken (a : α) : ComesTo rest (.ok a) (.ok (a, rest))
  | refused (reason : Reason) (left : Nat) : ComesTo rest (.error reason) (.error ⟨reason, left⟩)

section
variable {α β : Type} {outcome : Except Reason α} {reading : Reading α} {mid : Bytes}

theorem ComesTo.map (f : α → β) (h : ComesTo rest outcome reading) :
    ComesTo rest (outcome.map f) (reading.map fun (a, r) => (f a, r)) := by
  cases h with
  | taken a => exact .taken (f a)
  | refused reason left => exact .refused reason left

theorem ComesTo.bind {f : α → Except Reason β} {k : α × Bytes → Reading β}
    (h : ComesTo mid outcome reading) (after : ∀ a, ComesTo rest (f a) (k (a, mid))) :
    ComesTo rest (outcome.bind f) (reading.bind k) := by
  cases h with
  | taken a => exact after a
  | refused reason left => exact .refused reason left

end

/-- A reader comes to what `read` gives for a value, wherever it meets the text of it. -/
def Follows (reader : Reader Value) (read : Value → Except Reason Value) (v : Value) : Prop :=
  ∀ rest, NumberEnd rest → ComesTo rest (read v) (reader.run (v.print ++ rest))

section Inside
variable {inner : Reader Value} {read : Value → Except Reason Value}

theorem moreItems_follows {vs : List Value} (exact : ∀ v ∈ vs, v.Exact)
    (each : ∀ v ∈ vs, Follows inner read v) :
    ComesTo rest (vs.mapM read) (moreItems inner (more Value.print vs (93 :: rest))) := by
  induction vs with
  | nil =>
    rw [show more Value.print [] (93 :: rest) = 93 :: rest from rfl, moreItems_bracket]
    exact .taken []
  | cons v vs ih =>
    rw [List.forall_mem_cons] at exact each
    have ends : NumberEnd (more Value.print vs (93 :: rest)) :=
      numberEnd_more Value.print vs numberEnd_bracket
    have others := ih exact.2 each.2
    rw [more_cons, moreItems_comma exact.1, items_print exact.1, mapM_cons_eq]
    exact (each.1 _ ends).bind fun w => others.map (w :: ·)

theorem items_follows {vs : List Value} (exact : ∀ v ∈ vs, v.Exact)
    (each : ∀ v ∈ vs, Follows inner read v) :
    ComesTo rest (vs.mapM read) (items inner (printItems vs ++ 93 :: rest)) := by
  cases vs with
  | nil => exact .taken []
  | cons v vs =>
    have followed : ComesTo rest ((v :: vs).mapM read)
        (moreItems inner (more Value.print (v :: vs) (93 :: rest))) := moreItems_follows exact each
    rw [more_cons, moreItems_comma (exact v List.mem_cons_self)] at followed
    rwa [printItems_cons]

theorem moreMembers_follows {ms : List (String × Value)}
    (each : ∀ m ∈ ms, Follows inner read m.2) :
    ComesTo rest (ms.mapM (Shape.readMember read))
      (moreMembers inner (more printMember ms (125 :: rest))) := by
  induction ms with
  | nil =>
    rw [show more printMember [] (125 :: rest) = 125 :: rest from rfl, moreMembers_brace]
    exact .taken []
  | cons m ms ih =>
    rw [List.forall_mem_cons] at each
    have ends : NumberEnd (more printMember ms (125 :: rest)) :=
      numberEnd_more printMember ms numberEnd_brace
    have others := ih each.2
    rw [more_cons, moreMembers_comma, members_print, Shape.mapM_readMember_cons]
    exact (each.1 _ ends).bind fun w => others.map ((m.1, w) :: ·)

theorem members_follows {ms : List (String × Value)}
    (each : ∀ m ∈ ms, Follows inner read m.2) :
    ComesTo rest (ms.mapM (Shape.readMember read))
      (members inner (printMembers ms ++ 125 :: rest)) := by
  cases ms with
  | nil => exact .taken []
  | cons m ms =>
    have followed : ComesTo rest ((m :: ms).mapM (Shape.readMember read))
        (moreMembers inner (more printMember (m :: ms) (125 :: rest))) := moreMembers_follows each
    rw [more_cons, moreMembers_comma] at followed
    rwa [printMembers_cons]

end Inside

/-- Only the text of null begins like it. -/
theorem eq_null_of_begins (exact : v.Exact) {s : Bytes} (begins : v.print = 110 :: s) :
    v = .null := by
  have taken := head_print exact numberEnd_nil
  rw [List.append_nil, begins] at taken
  change scalarAfter .null (word [117, 108, 108] s) = _ at taken
  cases named : word [117, 108, 108] s with
  | error e =>
    rw [named] at taken
    cases v <;> cases taken
  | ok r =>
    rw [named] at taken
    cases v with
    | null => rfl
    | _ => cases taken

end Reading

namespace Shape
open Reading
variable {v : Value}

theorem readScalar_comesTo {expected : Expected} {read : Value → Except Reason Value}
    (list : ∀ items, read (.array items) = .error (.wrongType .sequence expected))
    (object : ∀ members, read (.object members) = .error (.wrongType .map expected))
    (exact : v.Exact) {rest : Bytes} (ends : NumberEnd rest) :
    ComesTo rest (read v) (readScalar expected read (v.print ++ rest)) := by
  rw [readScalar, head_print exact ends]
  cases v with
  | array items =>
    rw [list]
    exact .refused _ _
  | object members =>
    rw [object]
    exact .refused _ _
  | _ =>
    dsimp only
    cases read _ with
    | ok w => exact .taken w
    | error reason => exact .refused reason _

theorem readOptional_null (reader : Reader Value) (rest : Bytes) :
    readOptional reader (Value.null.print ++ rest) = .ok (.null, rest) := rfl

theorem readOptional_present {reader : Reader Value} (exact : v.Exact) (present : v ≠ .null)
    (rest : Bytes) : readOptional reader (v.print ++ rest) = reader.run (v.print ++ rest) := by
  obtain ⟨b, s, printed, blank, -⟩ := print_begins exact
  have other : b ≠ 110 := by
    rintro rfl
    exact present (eq_null_of_begins exact printed)
  rw [printed, List.cons_append, readOptional, skipBlanks_cons _ blank]
  split
  · next begins =>
    cases begins
    exact absurd rfl other
  · rfl

theorem readList_array (item : Reader Value) (items : List Value) (rest : Bytes) :
    readList (some item) ((Value.array items).print ++ rest) =
      (Reading.items item (printItems items ++ 93 :: rest)).map fun (vs, r) => (.array vs, r) := by
  have printed : (Value.array items).print ++ rest = 91 :: (printItems items ++ 93 :: rest) := by
    simp [Value.print]
  have bracket : head (91 :: (printItems items ++ 93 :: rest)) =
    .ok (.list, 91 :: (printItems items ++ 93 :: rest)) := rfl
  rw [printed]
  simp only [readList, bracket, nestedList, List.drop_one, List.tail_cons]
  cases Reading.items item (printItems items ++ 93 :: rest) <;> rfl

theorem readMap_object (value : Reader Value) (members : List (String × Value)) (rest : Bytes) :
    readMap (some value) ((Value.object members).print ++ rest) =
      (Reading.members value (printMembers members ++ 125 :: rest)).map fun (ms, r) =>
        (.object (Keyed.ofList ms), r) := by
  have printed : (Value.object members).print ++ rest =
      123 :: (printMembers members ++ 125 :: rest) := by
    simp [Value.print]
  have brace : head (123 :: (printMembers members ++ 125 :: rest)) =
    .ok (.object, 123 :: (printMembers members ++ 125 :: rest)) := rfl
  rw [printed]
  simp only [readMap, brace, nestedObject, List.drop_one, List.tail_cons]
  cases Reading.members value (printMembers members ++ 125 :: rest) <;> rfl

theorem readList_other {item : Option (Reader Value)} (exact : v.Exact)
    (other : ∀ items, v ≠ .array items) {rest : Bytes} (ends : NumberEnd rest) :
    ∃ left, readList item (v.print ++ rest) = .error ⟨.wrongType v.found .sequence, left⟩ := by
  rw [readList, head_print exact ends]
  cases v with
  | array items => exact absurd rfl (other items)
  | _ => exact ⟨_, rfl⟩

theorem readMap_other {value : Option (Reader Value)} (exact : v.Exact)
    (other : ∀ members, v ≠ .object members) {rest : Bytes} (ends : NumberEnd rest) :
    ∃ left, readMap value (v.print ++ rest) = .error ⟨.wrongType v.found .map, left⟩ := by
  rw [readMap, head_print exact ends]
  cases v with
  | object members => exact absurd rfl (other members)
  | _ => exact ⟨_, rfl⟩

/-- The members that are taken are in order, being the members of the value. -/
theorem map_ofList_members {shape : Shape} {members : List (String × Value)}
    (ordered : Keyed.Ordered members) :
    ((members.mapM (readMember shape.ofValue)).map fun ms => Value.object (Keyed.ofList ms)) =
      (members.mapM (readMember shape.ofValue)).map .object := by
  cases inside : members.mapM (readMember shape.ofValue) with
  | error reason => rfl
  | ok taken =>
    obtain ⟨-, rfl⟩ := of_mapM_eq_ok (readMember_eq_ok ofValue_eq_ok) inside
    exact congrArg (fun ms => Except.ok (Value.object ms)) (Keyed.ofList_of_ordered ordered)

theorem run_optional (shape : Shape) (d : Nat) (s : Bytes) :
    ((Shape.optional shape).reader d).run s = readOptional (shape.reader d) s := by
  rw [reader]

theorem run_list (shape : Shape) (d : Nat) (s : Bytes) :
    ((Shape.list shape).reader (d + 1)).run s = readList (some (shape.reader d)) s := by
  rw [reader]

theorem run_map (shape : Shape) (d : Nat) (s : Bytes) :
    ((Shape.map shape).reader (d + 1)).run s = readMap (some (shape.reader d)) s := by
  rw [reader]

theorem exists_run_list (shape : Shape) (d : Nat) :
    ∃ item, ((Shape.list shape).reader d).run = readList item := by
  cases d with
  | zero => exact ⟨none, by rw [reader]⟩
  | succ d => exact ⟨some (shape.reader d), by rw [reader]⟩

theorem exists_run_map (shape : Shape) (d : Nat) :
    ∃ value, ((Shape.map shape).reader d).run = readMap value := by
  cases d with
  | zero => exact ⟨none, by rw [reader]⟩
  | succ d => exact ⟨some (shape.reader d), by rw [reader]⟩

/-- Whatever is no array is refused at its beginning, however deep the reader goes. -/
theorem list_other {shape : Shape} {d : Nat} (exact : v.Exact) (other : ∀ items, v ≠ .array items) :
    Follows ((Shape.list shape).reader d) (Shape.list shape).ofValue v := by
  intro rest ends
  have refused : (Shape.list shape).ofValue v = .error (.wrongType v.found .sequence) := by
    cases v with
    | array items => exact absurd rfl (other items)
    | _ => rfl
  obtain ⟨item, run⟩ := exists_run_list shape d
  obtain ⟨left, stopped⟩ := readList_other exact other ends
  rw [refused, run, stopped]
  exact .refused _ left

/-- Whatever is no object is refused at its beginning. -/
theorem map_other {shape : Shape} {d : Nat} (exact : v.Exact)
    (other : ∀ members, v ≠ .object members) :
    Follows ((Shape.map shape).reader d) (Shape.map shape).ofValue v := by
  intro rest ends
  have refused : (Shape.map shape).ofValue v = .error (.wrongType v.found .map) := by
    cases v with
    | object members => exact absurd rfl (other members)
    | _ => rfl
  obtain ⟨value, run⟩ := exists_run_map shape d
  obtain ⟨left, stopped⟩ := readMap_other exact other ends
  rw [refused, run, stopped]
  exact .refused _ left

/-- A reader of a shape that goes deep enough follows the text of a value as the shape is read from
memory. -/
theorem reader_follows (shape : Shape) (exact : v.Exact) {d : Nat} (shallow : v.depth ≤ d) :
    Follows (shape.reader d) shape.ofValue v := by
  induction shape generalizing v d with
  | any =>
    intro rest ends
    rw [reader, value_reads exact shallow rest ends]
    exact .taken v
  | bool =>
    intro rest ends
    exact readScalar_comesTo (fun _ => rfl) (fun _ => rfl) exact ends
  | integer kind =>
    intro rest ends
    exact readScalar_comesTo (fun _ => rfl) (fun _ => rfl) exact ends
  | text =>
    intro rest ends
    exact readScalar_comesTo (fun _ => rfl) (fun _ => rfl) exact ends
  | optional shape ih =>
    intro rest ends
    rw [run_optional]
    by_cases null : v = .null
    · subst null
      rw [readOptional_null]
      exact .taken Value.null
    · have present : (Shape.optional shape).ofValue v = shape.ofValue v := by
        cases v with
        | null => exact absurd rfl null
        | _ => rfl
      rw [readOptional_present exact null, present]
      exact ih exact shallow rest ends
  | list shape ih =>
    by_cases array : ∃ items, v = .array items
    · obtain ⟨items, rfl⟩ := array
      cases exact with | array each =>
      cases d with
      | zero => exact absurd shallow (Nat.not_succ_le_zero _)
      | succ d =>
        intro rest ends
        have inside := Value.depthItems_le_iff.mp (Nat.le_of_succ_le_succ shallow)
        have followed : ComesTo rest _ (Reading.items (shape.reader d) _) :=
          items_follows each fun w hw => ih (each w hw) (inside w hw)
        rw [run_list, readList_array, ofValue, eachItem_eq]
        exact followed.map Value.array
    · exact list_other exact fun items same => array ⟨items, same⟩
  | map shape ih =>
    by_cases object : ∃ members, v = .object members
    · obtain ⟨members, rfl⟩ := object
      cases exact with | object ordered each =>
      cases d with
      | zero => exact absurd shallow (Nat.not_succ_le_zero _)
      | succ d =>
        intro rest ends
        have inside := Value.depthMembers_le_iff.mp (Nat.le_of_succ_le_succ shallow)
        have followed : ComesTo rest _ (Reading.members (shape.reader d) _) :=
          members_follows fun m hm => ih (each m hm) (inside m hm)
        rw [run_map, readMap_object, ofValue, eachMember_eq, ← map_ofList_members ordered]
        exact followed.map fun ms => Value.object (Keyed.ofList ms)
    · exact map_other exact fun members same => object ⟨members, same⟩

/-- A value and its whole text are read as a shape alike. -/
theorem ofText_print (shape : Shape) (exact : v.Exact) (shallow : v.depth ≤ Reader.maxDepth) :
    (shape.Fits v ∧ shape.ofValue v = .ok v ∧ shape.ofText v.print = .ok v) ∨
      (¬ shape.Fits v ∧ ∃ reason place, shape.ofValue v = .error reason ∧
        shape.ofText v.print = .error ⟨reason, some place⟩) := by
  have followed := reader_follows shape exact shallow [] numberEnd_nil
  rw [List.append_nil] at followed
  rw [ofText, Reader.readAll]
  cases read : shape.ofValue v with
  | ok w =>
    obtain ⟨fits, rfl⟩ := ofValue_eq_ok read
    rw [read] at followed
    cases run : (shape.reader Reader.maxDepth).run w.print with
    | error stop =>
      rw [run] at followed
      cases followed
    | ok x =>
      rw [run] at followed
      cases followed
      exact .inl ⟨fits, rfl, rfl⟩
  | error reason =>
    rw [read] at followed
    have misfit : ¬ shape.Fits v := by
      intro fits
      rw [ofValue_of_fits fits] at read
      cases read
    cases run : (shape.reader Reader.maxDepth).run v.print with
    | error stop =>
      rw [run] at followed
      cases followed
      exact .inr ⟨misfit, reason, _, rfl, rfl⟩
    | ok x =>
      rw [run] at followed
      cases followed

end Shape
end DocumentClient.Json

namespace DocumentClient.Document

/-- A stored value and octets with its text are read as any shape alike: as the value itself if it
fits, and otherwise not at all, for one reason, to which the text adds the place. -/
theorem typed_reads_agree (shape : Json.Shape) {v : Json.Value} (exact : v.Exact)
    (shallow : v.depth ≤ 127) :
    (shape.Fits v ∧ read shape (.json v) = .ok v ∧ read shape (.binary v.print) = .ok v) ∨
      (¬ shape.Fits v ∧ ∃ here there : ContentFault,
        read shape (.json v) = .error here ∧ here.kind = .valueFormat ∧
        read shape (.binary v.print) = .error there ∧ there.kind = .valueFormat ∧
        ∃ line column, there.message = here.message ++ " at line " ++ Decimal.text line ++
          " column " ++ Decimal.text column) := by
  rcases shape.ofText_print exact shallow with ⟨fits, value, text⟩ |
    ⟨misfit, reason, place, value, text⟩
  · refine .inl ⟨fits, ?_, ?_⟩
    · rw [read, readValue, value]
    · rw [read, readText, text]
  · refine .inr ⟨misfit, .json ⟨reason, none⟩, .json ⟨reason, some place⟩, ?_, rfl, ?_, rfl,
      place.line, place.column, rfl⟩
    · rw [read, readValue, value]
    · rw [read, readText, text]

theorem typed_reads_agree_of_map :
    let members := [("a", .number (.whole 1)), ("b", .number (.whole 0x8000000000000000))]
    let v : Json.Value := .object members
    v.Exact ∧ v.depth ≤ 127 ∧ read (.map (.integer .u64)) (.binary v.print) = .ok v ∧
      ∃ fault, read (.map (.integer .i64)) (.binary v.print) = .error fault ∧
        fault.kind = .valueFormat := by
  intro members v
  have exact : v.Exact := by
    refine .object (by unfold Keyed.Ordered; decide) ?_
    rw [List.forall_mem_cons, List.forall_mem_singleton]
    exact ⟨.whole (by decide) (by decide), .whole (by decide) (by decide)⟩
  have unsigned : Json.Shape.Fits (.map (.integer .u64)) v := by
    refine .map ?_
    rw [List.forall_mem_cons, List.forall_mem_singleton]
    exact ⟨.integer (by decide) (by decide), .integer (by decide) (by decide)⟩
  have signed : ¬ Json.Shape.Fits (.map (.integer .i64)) v := by
    intro fits
    cases Json.Shape.ofValue_of_fits fits
  refine ⟨exact, by decide, ?_, ?_⟩
  · obtain ⟨-, -, text⟩ | ⟨misfit, -⟩ :=
      typed_reads_agree (.map (.integer .u64)) exact (by decide)
    · exact text
    · exact absurd unsigned misfit
  · obtain ⟨fits, -⟩ | ⟨-, -, there, -, -, refused, kind, -⟩ :=
      typed_reads_agree (.map (.integer .i64)) exact (by decide)
    · exact absurd fits signed
    · exact ⟨there, refused, kind⟩

end DocumentClient.Document
