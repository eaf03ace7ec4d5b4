import DocumentClient.Proofs.Json.Scalars
import DocumentClient.Proofs.Keyed
import DocumentClient.Transcoder

/-!
# Printed values are read back

Compact text and its reader. A reader of depth `d` reads every printed value that is nested at most
`d` deep back as itself, and stops in front of the bracket that goes deeper: it never gives another
value. Binary64 numbers are left out, since their decimals are rounded.

The readers of lists and objects are followed for any reader of what is inside, given only how
that one takes each printed item. Main statements: `value_reads` and `value_refuses`, by induction
on the value, and with them `Transcoder.json_roundTrip` for stored documents.
-/

namespace DocumentClient.Json

/-- What text holds without loss: whole numbers that 64 bits hold in their sign, any text, and
members in the order of their keys. -/
inductive Value.Exact : Value → Prop where
  | null : Exact .null
  | bool (b : Bool) : Exact (.bool b)
  | whole {n : Int} (least : -0x8000000000000000 ≤ n) (bound : n < 0x10000000000000000) :
    Exact (.number (.whole n))
  | text (s : String) : Exact (.text s)
  | array {items : List Value} (each : ∀ v ∈ items, Exact v) : Exact (.array items)
  | object {members : List (String × Value)} (ordered : Keyed.Ordered members)
    (each : ∀ m ∈ members, Exact m.2) : Exact (.object members)

namespace Value

theorem depthItems_le_iff {items : List Value} {d : Nat} :
    depthItems items ≤ d ↔ ∀ v ∈ items, v.depth ≤ d := by
  induction items with
  | nil => simp [depthItems]
  | cons v rest ih => rw [depthItems, Nat.max_le, ih, List.forall_mem_cons]

theorem depthMembers_le_iff {members : List (String × Value)} {d : Nat} :
    depthMembers members ≤ d ↔ ∀ m ∈ members, m.2.depth ≤ d := by
  induction members with
  | nil => simp [depthMembers]
  | cons m rest ih => rw [depthMembers, Nat.max_le, ih, List.forall_mem_cons]

theorem exists_of_lt_depthItems {items : List Value} {d : Nat} (h : d < depthItems items) :
    ∃ v ∈ items, d < v.depth := by
  have deeper : ¬ depthItems items ≤ d := Nat.not_le.mpr h
  rw [depthItems_le_iff] at deeper
  simpa using deeper

theorem exists_of_lt_depthMembers {members : List (String × Value)} {d : Nat}
    (h : d < depthMembers members) : ∃ m ∈ members, d < m.2.depth := by
  have deeper : ¬ depthMembers members ≤ d := Nat.not_le.mpr h
  rw [depthMembers_le_iff] at deeper
  simpa only [Classical.not_forall, Nat.not_le, exists_prop] using deeper

end Value

/-- What stands after the first of several items: each other one after a comma, and the rest. -/
def more {α : Type} (print : α → Bytes) (items : List α) (rest : Bytes) : Bytes :=
  (items.flatMap fun a => 44 :: print a) ++ rest

theorem more_cons {α : Type} (print : α → Bytes) (a : α) (items : List α) (rest : Bytes) :
    more print (a :: items) rest = 44 :: (print a ++ more print items rest) := by
  simp [more]

theorem printItems_cons (v : Value) (items : List Value) (rest : Bytes) :
    printItems (v :: items) ++ rest = v.print ++ more Value.print items rest := by
  induction items generalizing v with
  | nil => simp [printItems, more]
  | cons w items ih => simp [printItems, ih w, more_cons]

/-- A key, its colon and the value. -/
def printMember (m : String × Value) : Bytes := printText m.1 ++ 58 :: m.2.print

theorem printMembers_cons (m : String × Value) (members : List (String × Value)) (rest : Bytes) :
    printMembers (m :: members) ++ rest = printMember m ++ more printMember members rest := by
  induction members generalizing m with
  | nil => simp [printMembers, printMember, more]
  | cons n members ih => simp [printMembers, printMember, ih n, more_cons]

namespace Reading
variable {rest : Bytes}

theorem numberEnd_cons {b : UInt8} (digit : isDigit b = false)
    (other : b ≠ 46 ∧ b ≠ 69 ∧ b ≠ 101) : NumberEnd (b :: rest) := by
  intro c h
  cases h
  exact ⟨digit, other⟩

theorem numberEnd_bracket : NumberEnd (93 :: rest) := numberEnd_cons rfl (by decide)

theorem numberEnd_brace : NumberEnd (125 :: rest) := numberEnd_cons rfl (by decide)

theorem numberEnd_more {α : Type} (print : α → Bytes) (items : List α)
    (ends : NumberEnd rest) : NumberEnd (more print items rest) := by
  cases items with
  | nil => exact ends
  | cons a items => exact numberEnd_cons rfl (by decide)

theorem head_minus (s : Bytes) : head (45 :: s) = numberHead (readNumber true s) := rfl

theorem digit_ne {d : Nat} (small : d < 10) {b : UInt8} (h : isDigit b = false) :
    UInt8.ofNat (48 + d) ≠ b := by
  intro same
  rw [← same, isDigit_ofNat small] at h
  cases h

theorem isBlank_digit : ∀ {d : Nat}, d < 10 → isBlank (UInt8.ofNat (48 + d)) = false := by
  decide

theorem skipBlanks_cons {b : UInt8} (s : Bytes) (h : isBlank b = false) :
    skipBlanks (b :: s) = b :: s := by
  rw [skipBlanks, if_neg (by rw [h]; exact nofun)]

theorem head_digit {d : Nat} (small : d < 10) (s : Bytes) :
    head (UInt8.ofNat (48 + d) :: s) =
      numberHead (readNumber false (UInt8.ofNat (48 + d) :: s)) := by
  rw [head, skipBlanks_cons s (isBlank_digit small)]
  simp only
  rw [if_neg (digit_ne small rfl), if_neg (digit_ne small rfl), if_neg (digit_ne small rfl),
    if_neg (digit_ne small rfl), if_pos (isDigit_ofNat small)]

theorem head_whole {n : Int} (least : -0x8000000000000000 ≤ n) (bound : n < 0x10000000000000000)
    (ends : NumberEnd rest) :
    head (Decimal.intBytes n ++ rest) = .ok (.scalar (.number (.whole n)), rest) := by
  rw [Decimal.intBytes]
  by_cases minus : n < 0
  · rw [if_pos minus, List.cons_append, head_minus,
      readNumber_bytes (by rw [show UInt64.size = 0x10000000000000000 from rfl]; omega)
        (fun _ => by omega) ends]
    simp only [numberHead, ↓reduceIte]
    rw [show -(n.natAbs : Int) = n by omega]
  · rw [if_neg minus]
    have fits : n.natAbs < UInt64.size := by
      rw [show UInt64.size = 0x10000000000000000 from rfl]
      omega
    have taken : readNumber false (Decimal.bytes n.natAbs ++ rest) = .ok (.whole n.natAbs, rest) :=
      readNumber_bytes fits nofun ends
    obtain ⟨d, ds, hd⟩ := List.exists_cons_of_ne_nil (Decimal.digits_ne_nil n.natAbs)
    have small : d < 10 := Decimal.digits_lt_ten (hd ▸ List.mem_cons_self)
    rw [Decimal.bytes, hd, List.map_cons, List.cons_append] at taken ⊢
    rw [head_digit small, taken]
    simp only [numberHead]
    rw [show (n.natAbs : Int) = n by omega]

theorem head_text (s : String) :
    head (printText s ++ rest) = .ok (.scalar (.text s), rest) := by
  change textHead (readText (escape (Bytes.ofString s) ++ [34] ++ rest)) = _
  rw [List.append_assoc, List.singleton_append, readText_printText]
  rfl

/-- A printed scalar is taken whole; of a list or object only its bracket is looked at. -/
theorem head_print {v : Value} (exact : v.Exact) (ends : NumberEnd rest) :
    head (v.print ++ rest) =
      match v with
      | .array _ => .ok (.list, v.print ++ rest)
      | .object _ => .ok (.object, v.print ++ rest)
      | _ => .ok (.scalar v, rest) := by
  cases exact with
  | null => rfl
  | bool b => cases b <;> rfl
  | whole least bound => exact head_whole least bound ends
  | text s => exact head_text s
  | array => rfl
  | object => rfl

/-- A printed value begins with neither a blank nor a closing bracket. -/
theorem print_begins {v : Value} (exact : v.Exact) :
    ∃ b s, v.print = b :: s ∧ isBlank b = false ∧ b ≠ 93 := by
  cases exact with
  | null => exact ⟨110, _, rfl, by decide⟩
  | bool b =>
    cases b with
    | true => exact ⟨116, _, rfl, by decide⟩
    | false => exact ⟨102, _, rfl, by decide⟩
  | @whole n least bound =>
    have printed : (Value.number (.whole n)).print = Decimal.intBytes n := rfl
    rw [printed, Decimal.intBytes]
    split
    · exact ⟨45, _, rfl, by decide⟩
    · obtain ⟨d, ds, hd⟩ := List.exists_cons_of_ne_nil (Decimal.digits_ne_nil n.natAbs)
      have small : d < 10 := Decimal.digits_lt_ten (hd ▸ List.mem_cons_self)
      refine ⟨UInt8.ofNat (48 + d), digitBytes ds, ?_, isBlank_digit small, digit_ne small rfl⟩
      rw [Decimal.bytes, hd, List.map_cons, digitBytes]
  | text s => exact ⟨34, _, rfl, by decide⟩
  | array => exact ⟨91, _, rfl, by decide⟩
  | object => exact ⟨123, _, rfl, by decide⟩

/-- A reader takes a printed value back, whatever ends it. -/
def Reads (reader : Reader Value) (v : Value) : Prop :=
  ∀ rest, NumberEnd rest → reader.run (v.print ++ rest) = .ok (v, rest)

/-- A reader stops in a printed value for this reason. -/
def Refuses (reason : Reason) (reader : Reader Value) (v : Value) : Prop :=
  ∀ rest, NumberEnd rest → ∃ left, reader.run (v.print ++ rest) = .error ⟨reason, left⟩

section Lists
variable {item : Reader Value} {reason : Reason}

/-- The list reader at a printed item: the item, and then the others. -/
theorem items_print {v : Value} (exact : v.Exact) (s : Bytes) :
    items item (v.print ++ s) =
      (item.run (v.print ++ s)).bind fun (a, r) =>
        (moreItems item r).map fun (as, r) => (a :: as, r) := by
  obtain ⟨b, t, printed, blank, other⟩ := print_begins exact
  rw [printed, List.cons_append, items, skipBlanks_cons _ blank]
  simp only
  rw [if_neg other]
  cases item.run (b :: (t ++ s)) with
  | error e => rfl
  | ok x =>
    obtain ⟨a, r⟩ := x
    simp only [Except.bind]
    cases moreItems item r <;> rfl

theorem moreItems_bracket : moreItems item (93 :: rest) = .ok ([], rest) := by
  rw [moreItems]
  rfl

/-- After a comma a printed item is taken like the first one. -/
theorem moreItems_comma {v : Value} (exact : v.Exact) (s : Bytes) :
    moreItems item (44 :: (v.print ++ s)) = items item (v.print ++ s) := by
  obtain ⟨b, t, printed, blank, other⟩ := print_begins exact
  have comma : skipBlanks (44 :: (b :: (t ++ s))) = 44 :: (b :: (t ++ s)) := rfl
  have begins := skipBlanks_cons (t ++ s) blank
  rw [items_print exact, printed, List.cons_append, moreItems]
  split
  · next h => rw [comma] at h; cases h
  · next h =>
    rw [comma] at h
    cases h
    rw [if_neg (by decide), if_pos rfl]
    split
    · next h => rw [begins] at h; cases h
    · next h =>
      rw [begins] at h
      cases h
      rw [if_neg other]
      split
      · next h => rw [h]; rfl
      · next a r h =>
        rw [h]
        simp only [Except.bind]
        cases moreItems item r <;> rfl

theorem items_of_reads {v : Value} (exact : v.Exact) (reads : Reads item v) {s : Bytes}
    (ends : NumberEnd s) :
    items item (v.print ++ s) = (moreItems item s).map fun (as, r) => (v :: as, r) := by
  rw [items_print exact, reads s ends]
  rfl

theorem items_of_refuses {v : Value} (exact : v.Exact) (refuses : Refuses reason item v)
    {s : Bytes} (ends : NumberEnd s) :
    ∃ left, items item (v.print ++ s) = .error ⟨reason, left⟩ := by
  obtain ⟨left, h⟩ := refuses s ends
  rw [items_print exact, h]
  exact ⟨left, rfl⟩

theorem moreItems_reads {vs : List Value} (exact : ∀ v ∈ vs, v.Exact)
    (each : ∀ v ∈ vs, Reads item v) :
    moreItems item (more Value.print vs (93 :: rest)) = .ok (vs, rest) := by
  induction vs with
  | nil => exact moreItems_bracket
  | cons v vs ih =>
    rw [List.forall_mem_cons] at exact each
    rw [more_cons, moreItems_comma exact.1,
      items_of_reads exact.1 each.1 (numberEnd_more _ vs numberEnd_bracket), ih exact.2 each.2]
    rfl

/-- The list reader stops in the first item that is refused. -/
theorem moreItems_refuses {vs : List Value} (exact : ∀ v ∈ vs, v.Exact)
    (each : ∀ v ∈ vs, Reads item v ∨ Refuses reason item v)
    (some : ∃ v ∈ vs, Refuses reason item v) :
    ∃ left, moreItems item (more Value.print vs (93 :: rest)) = .error ⟨reason, left⟩ := by
  induction vs with
  | nil => exact absurd some nofun
  | cons v vs ih =>
    rw [List.forall_mem_cons] at exact each
    have ends : NumberEnd (more Value.print vs (93 :: rest)) :=
      numberEnd_more Value.print vs numberEnd_bracket
    rw [more_cons, moreItems_comma exact.1]
    obtain ⟨w, hw, refuses⟩ := some
    rcases each.1 with reads | refused
    · rcases List.mem_cons.mp hw with rfl | hw
      · exact items_of_refuses exact.1 refuses ends
      · obtain ⟨left, h⟩ := ih exact.2 each.2 ⟨w, hw, refuses⟩
        rw [items_of_reads exact.1 reads ends, h]
        exact ⟨left, rfl⟩
    · exact items_of_refuses exact.1 refused ends

theorem items_reads {vs : List Value} (exact : ∀ v ∈ vs, v.Exact)
    (each : ∀ v ∈ vs, Reads item v) :
    items item (printItems vs ++ 93 :: rest) = .ok (vs, rest) := by
  cases vs with
  | nil => rfl
  | cons v vs =>
    have taken : moreItems item (more Value.print (v :: vs) (93 :: rest)) = .ok (v :: vs, rest) :=
      moreItems_reads exact each
    rw [more_cons, moreItems_comma (exact v List.mem_cons_self)] at taken
    rw [printItems_cons, taken]

theorem items_refuses {vs : List Value} (exact : ∀ v ∈ vs, v.Exact)
    (each : ∀ v ∈ vs, Reads item v ∨ Refuses reason item v)
    (some : ∃ v ∈ vs, Refuses reason item v) :
    ∃ left, items item (printItems vs ++ 93 :: rest) = .error ⟨reason, left⟩ := by
  cases vs with
  | nil => exact absurd some nofun
  | cons v vs =>
    have stopped : ∃ left, moreItems item (more Value.print (v :: vs) (93 :: rest)) =
        .error ⟨reason, left⟩ := moreItems_refuses exact each some
    rw [more_cons, moreItems_comma (exact v List.mem_cons_self)] at stopped
    rwa [printItems_cons]

end Lists

section Objects
variable {value : Reader Value} {reason : Reason}

/-- The object reader at a printed member, whose quote is taken. -/
theorem member_print (value : Reader Value) (m : String × Value) (s : Bytes) :
    ∃ t, printMember m ++ s = 34 :: t ∧
      member value t = (value.run (m.2.print ++ s)).map fun (a, r) => ((m.1, a), r) := by
  refine ⟨escape (Bytes.ofString m.1) ++ 34 :: 58 :: (m.2.print ++ s), ?_, ?_⟩
  · simp [printMember, printText]
  · rw [member, readText_printText]
    simp only [skipBlanks_cons (b := 58) _ rfl, ↓reduceIte]
    cases value.run (m.2.print ++ s) <;> rfl

theorem members_print (m : String × Value) (s : Bytes) :
    members value (printMember m ++ s) =
      (value.run (m.2.print ++ s)).bind fun (a, r) =>
        (moreMembers value r).map fun (rest, r) => ((m.1, a) :: rest, r) := by
  obtain ⟨t, printed, taken⟩ := member_print value m s
  rw [printed, members, skipBlanks_cons t rfl]
  simp only
  rw [if_neg (by decide), if_pos True.intro, taken]
  cases value.run (m.2.print ++ s) with
  | error e => rfl
  | ok x =>
    obtain ⟨a, r⟩ := x
    simp only [Except.bind, Except.map]
    cases moreMembers value r <;> rfl

theorem moreMembers_brace : moreMembers value (125 :: rest) = .ok ([], rest) := by
  rw [moreMembers]
  rfl

theorem moreMembers_comma (m : String × Value) (s : Bytes) :
    moreMembers value (44 :: (printMember m ++ s)) = members value (printMember m ++ s) := by
  obtain ⟨t, printed, taken⟩ := member_print value m s
  have comma : skipBlanks (44 :: 34 :: t) = 44 :: 34 :: t := rfl
  have begins := skipBlanks_cons (b := 34) t rfl
  rw [members_print, printed, moreMembers]
  split
  · next h => rw [comma] at h; cases h
  · next h =>
    rw [comma] at h
    cases h
    rw [if_neg (by decide), if_pos rfl]
    split
    · next h => rw [begins] at h; cases h
    · next h =>
      rw [begins] at h
      cases h
      rw [if_pos rfl]
      rw [taken]
      cases value.run (m.2.print ++ s) with
      | error e => rfl
      | ok x =>
        obtain ⟨a, r⟩ := x
        simp only [Except.bind, Except.map]
        cases moreMembers value r <;> rfl

theorem members_of_reads {m : String × Value} (reads : Reads value m.2) {s : Bytes}
    (ends : NumberEnd s) :
    members value (printMember m ++ s) =
      (moreMembers value s).map fun (rest, r) => (m :: rest, r) := by
  rw [members_print, reads s ends]
  rfl

theorem members_of_refuses {m : String × Value} (refuses : Refuses reason value m.2) {s : Bytes}
    (ends : NumberEnd s) :
    ∃ left, members value (printMember m ++ s) = .error ⟨reason, left⟩ := by
  obtain ⟨left, h⟩ := refuses s ends
  rw [members_print, h]
  exact ⟨left, rfl⟩

theorem moreMembers_reads {ms : List (String × Value)} (each : ∀ m ∈ ms, Reads value m.2) :
    moreMembers value (more printMember ms (125 :: rest)) = .ok (ms, rest) := by
  induction ms with
  | nil => exact moreMembers_brace
  | cons m ms ih =>
    rw [List.forall_mem_cons] at each
    rw [more_cons, moreMembers_comma,
      members_of_reads each.1 (numberEnd_more _ ms numberEnd_brace), ih each.2]
    rfl

theorem moreMembers_refuses {ms : List (String × Value)}
    (each : ∀ m ∈ ms, Reads value m.2 ∨ Refuses reason value m.2)
    (some : ∃ m ∈ ms, Refuses reason value m.2) :
    ∃ left, moreMembers value (more printMember ms (125 :: rest)) = .error ⟨reason, left⟩ := by
  induction ms with
  | nil => exact absurd some nofun
  | cons m ms ih =>
    rw [List.forall_mem_cons] at each
    have ends : NumberEnd (more printMember ms (125 :: rest)) :=
      numberEnd_more printMember ms numberEnd_brace
    rw [more_cons, moreMembers_comma]
    obtain ⟨n, hn, refuses⟩ := some
    rcases each.1 with reads | refused
    · rcases List.mem_cons.mp hn with rfl | hn
      · exact members_of_refuses refuses ends
      · obtain ⟨left, h⟩ := ih each.2 ⟨n, hn, refuses⟩
        rw [members_of_reads reads ends, h]
        exact ⟨left, rfl⟩
    · exact members_of_refuses refused ends

theorem members_reads {ms : List (String × Value)} (each : ∀ m ∈ ms, Reads value m.2) :
    members value (printMembers ms ++ 125 :: rest) = .ok (ms, rest) := by
  cases ms with
  | nil => rfl
  | cons m ms =>
    have taken : moreMembers value (more printMember (m :: ms) (125 :: rest)) =
        .ok (m :: ms, rest) := moreMembers_reads each
    rw [more_cons, moreMembers_comma] at taken
    rw [printMembers_cons, taken]

theorem members_refuses {ms : List (String × Value)}
    (each : ∀ m ∈ ms, Reads value m.2 ∨ Refuses reason value m.2)
    (some : ∃ m ∈ ms, Refuses reason value m.2) :
    ∃ left, members value (printMembers ms ++ 125 :: rest) = .error ⟨reason, left⟩ := by
  cases ms with
  | nil => exact absurd some nofun
  | cons m ms =>
    have stopped : ∃ left, moreMembers value (more printMember (m :: ms) (125 :: rest)) =
        .error ⟨reason, left⟩ := moreMembers_refuses each some
    rw [more_cons, moreMembers_comma] at stopped
    rwa [printMembers_cons]

end Objects

theorem run_of_scalar {d : Nat} {v : Value} {s r : Bytes} (h : head s = .ok (.scalar v, r)) :
    (Reader.value d).run s = .ok (v, r) := by
  cases d <;> simp only [Reader.value, value, h]

theorem run_array (d : Nat) (vs : List Value) :
    (Reader.value (d + 1)).run ((Value.array vs).print ++ rest) =
      (items (Reader.value d) (printItems vs ++ 93 :: rest)).map fun (vs, r) =>
        (.array vs, r) := by
  have printed : (Value.array vs).print ++ rest = 91 :: (printItems vs ++ 93 :: rest) := by
    simp [Value.print]
  have bracket : head (91 :: (printItems vs ++ 93 :: rest)) =
    .ok (.list, 91 :: (printItems vs ++ 93 :: rest)) := rfl
  rw [printed]
  simp only [Reader.value, value, bracket, nestedList, List.drop_one, List.tail_cons]
  cases items (Reader.value d) (printItems vs ++ 93 :: rest) <;> rfl

theorem run_object (d : Nat) (ms : List (String × Value)) :
    (Reader.value (d + 1)).run ((Value.object ms).print ++ rest) =
      (members (Reader.value d) (printMembers ms ++ 125 :: rest)).map fun (ms, r) =>
        (.object (Keyed.ofList ms), r) := by
  have printed : (Value.object ms).print ++ rest = 123 :: (printMembers ms ++ 125 :: rest) := by
    simp [Value.print]
  have brace : head (123 :: (printMembers ms ++ 125 :: rest)) =
    .ok (.object, 123 :: (printMembers ms ++ 125 :: rest)) := rfl
  rw [printed]
  simp only [Reader.value, value, brace, nestedObject, List.drop_one, List.tail_cons]
  cases members (Reader.value d) (printMembers ms ++ 125 :: rest) <;> rfl

/-- A value that is not nested more deeply than the reader goes is read back. -/
theorem value_reads {v : Value} (exact : v.Exact) {d : Nat} (shallow : v.depth ≤ d) :
    Reads (Reader.value d) v := by
  induction exact generalizing d with
  | null => exact fun _ ends => run_of_scalar (head_print .null ends)
  | bool b => exact fun _ ends => run_of_scalar (head_print (.bool b) ends)
  | whole least bound => exact fun _ ends => run_of_scalar (head_print (.whole least bound) ends)
  | text s => exact fun _ ends => run_of_scalar (head_print (.text s) ends)
  | @array vs each ih =>
    intro rest _
    cases d with
    | zero => exact absurd shallow (Nat.not_succ_le_zero _)
    | succ d =>
      have inside := Value.depthItems_le_iff.mp (Nat.le_of_succ_le_succ shallow)
      rw [run_array, items_reads each fun v hv => ih v hv (inside v hv)]
      rfl
  | @object ms ordered each ih =>
    intro rest _
    cases d with
    | zero => exact absurd shallow (Nat.not_succ_le_zero _)
    | succ d =>
      have inside := Value.depthMembers_le_iff.mp (Nat.le_of_succ_le_succ shallow)
      rw [run_object, members_reads fun m hm => ih m hm (inside m hm)]
      simp only [Except.map, Keyed.ofList_of_ordered ordered]

/-- One that is nested more deeply is refused, at the bracket that goes too deep. -/
theorem value_refuses {v : Value} (exact : v.Exact) {d : Nat} (deep : d < v.depth) :
    Refuses .recursionLimit (Reader.value d) v := by
  induction exact generalizing d with
  | null | bool | whole | text => exact absurd deep (Nat.not_lt_zero _)
  | @array vs each ih =>
    intro rest _
    cases d with
    | zero => exact ⟨_, rfl⟩
    | succ d =>
      have inside : ∀ v ∈ vs, Reads (Reader.value d) v ∨
          Refuses .recursionLimit (Reader.value d) v := fun v hv =>
        (Nat.lt_or_ge d v.depth).elim (fun h => .inr (ih v hv h))
          fun h => .inl (value_reads (each v hv) h)
      obtain ⟨v, hv, deeper⟩ := Value.exists_of_lt_depthItems (Nat.lt_of_succ_lt_succ deep)
      obtain ⟨left, h⟩ : ∃ left, items (Reader.value d) (printItems vs ++ 93 :: rest) =
          .error ⟨.recursionLimit, left⟩ := items_refuses each inside ⟨v, hv, ih v hv deeper⟩
      rw [run_array, h]
      exact ⟨left, rfl⟩
  | @object ms ordered each ih =>
    intro rest _
    cases d with
    | zero => exact ⟨_, rfl⟩
    | succ d =>
      have inside : ∀ m ∈ ms, Reads (Reader.value d) m.2 ∨
          Refuses .recursionLimit (Reader.value d) m.2 := fun m hm =>
        (Nat.lt_or_ge d m.2.depth).elim (fun h => .inr (ih m hm h))
          fun h => .inl (value_reads (each m hm) h)
      obtain ⟨m, hm, deeper⟩ := Value.exists_of_lt_depthMembers (Nat.lt_of_succ_lt_succ deep)
      obtain ⟨left, h⟩ : ∃ left, members (Reader.value d) (printMembers ms ++ 125 :: rest) =
          .error ⟨.recursionLimit, left⟩ := members_refuses inside ⟨m, hm, ih m hm deeper⟩
      rw [run_object, h]
      exact ⟨left, rfl⟩

end Reading

theorem parse_print {v : Value} (exact : v.Exact) (shallow : v.depth ≤ Reader.maxDepth) :
    parse v.print = .ok v := by
  have run := Reading.value_reads exact shallow [] Reading.numberEnd_nil
  rw [List.append_nil] at run
  simp only [parse, Reader.readAll, run, Reading.skipBlanks]

theorem parse_print_of_deep {v : Value} (exact : v.Exact) (deep : Reader.maxDepth < v.depth) :
    ∃ place, parse v.print = .error ⟨.recursionLimit, some place⟩ := by
  obtain ⟨left, run⟩ := Reading.value_refuses exact deep [] Reading.numberEnd_nil
  rw [List.append_nil] at run
  simp only [parse, Reader.readAll, run]
  exact ⟨_, rfl⟩

end Json

theorem Serializer.plain_read (octets : Bytes) :
    Serializer.plain.read octets = (Json.parse octets).mapError ContentFault.json := by
  simp only [plain]
  cases Json.parse octets <;> rfl

namespace Transcoder

theorem json_decode (serializer : Serializer) (octets : Bytes) :
    (Transcoder.json serializer).decode octets .json =
      (serializer.read octets).map Document.json := by
  unfold json
  dsimp only
  cases serializer.read octets <;> rfl

/-- Every exact value is stored as JSON and comes back as it was, or is refused for its depth
when it is nested more than 127 deep. -/
theorem json_roundTrip {v : Json.Value} (exact : v.Exact) :
    ∃ octets, (Transcoder.json .plain).encode (.json v) = .ok (octets, .json) ∧
      (v.depth ≤ 127 → (Transcoder.json .plain).decode octets .json = .ok (.json v)) ∧
      (127 < v.depth → ∃ fault, (Transcoder.json .plain).decode octets .json = .error fault ∧
        fault.kind = .valueFormat ∧
        ∃ line column, fault.message = "recursion limit exceeded at line " ++
          Decimal.text line ++ " column " ++ Decimal.text column) := by
  refine ⟨v.print, rfl, ?_, ?_⟩
  · intro shallow
    rw [json_decode, Serializer.plain_read, Json.parse_print exact shallow]
    rfl
  · intro deep
    obtain ⟨place, h⟩ := Json.parse_print_of_deep exact deep
    refine ⟨.json ⟨.recursionLimit, some place⟩, ?_, rfl, _, _, rfl⟩
    rw [json_decode, Serializer.plain_read, h]
    rfl

theorem json_roundTrip_of_nested :
    let v : Json.Value := .object
      [("a\n", .array [.number (.whole (-0x8000000000000000)), .text "\"", .null]),
        ("é", .number (.whole 0xFFFFFFFFFFFFFFFF))]
    v.Exact ∧ v.depth = 2 ∧
      ∃ octets, (Transcoder.json .plain).encode (.json v) = .ok (octets, .json) ∧
        (Transcoder.json .plain).decode octets .json = .ok (.json v) := by
  have exact : Json.Value.Exact (.object
      [("a\n", .array [.number (.whole (-0x8000000000000000)), .text "\"", .null]),
        ("é", .number (.whole 0xFFFFFFFFFFFFFFFF))]) := by
    refine .object (by unfold Keyed.Ordered; decide) ?_
    simp only [List.forall_mem_cons]
    refine ⟨.array ?_, .whole (by decide) (by decide), nofun⟩
    simp only [List.forall_mem_cons]
    exact ⟨.whole (by decide) (by decide), .text _, .null, nofun⟩
  obtain ⟨octets, stored, shallow, -⟩ := json_roundTrip exact
  exact ⟨exact, rfl, octets, stored, shallow (by decide)⟩

end Transcoder
end DocumentClient
