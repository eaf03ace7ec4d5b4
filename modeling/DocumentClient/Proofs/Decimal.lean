import DocumentClient.Decimal
import DocumentClient.Proofs.Bytes

/-!
# Numerals

Numbers are written as everywhere else: the text of a number is its decimal representation, and its
octets are those of this text (`intBytes_eq`). The reader takes a numeral, which is a text of digits
for a number below its bound, and one plus sign before it (`read?_eq_some_iff`). What is written is
a numeral without a sign, and is read back (`read?_digits`).
-/

namespace DocumentClient.Decimal
variable {bound : Nat} {cs : List Char}

theorem digitChar_eq : ∀ {d : Nat}, d < 10 → digitChar d = d.digitChar := by
  decide

theorem utf8EncodeChar_digitChar :
    ∀ {d : Nat}, d < 10 → String.utf8EncodeChar (digitChar d) = [UInt8.ofNat (48 + d)] := by
  decide

theorem map_digitChar_digits (n : Nat) : (digits n).map digitChar = Nat.toDigits 10 n := by
  fun_induction digits n with
  | case1 n small => rw [List.map_singleton, digitChar_eq small, Nat.toDigits_of_lt_base small]
  | case2 n large ih =>
    have last : n % 10 < 10 := Nat.mod_lt n (by decide)
    rw [Nat.toDigits_of_base_le (by decide) (Nat.not_lt.mp large), List.map_append, ih,
      List.map_singleton, digitChar_eq last]

theorem ofString_repr (n : Nat) : Bytes.ofString n.repr = bytes n := by
  have each : ∀ d ∈ digits n, String.utf8EncodeChar (digitChar d) = [UInt8.ofNat (48 + d)] :=
    fun d hd => utf8EncodeChar_digitChar (digits_lt_ten hd)
  rw [Bytes.ofString_eq, Nat.toList_repr, ← map_digitChar_digits, List.flatMap_map, bytes,
    List.map_eq_flatMap, List.flatMap_def, List.flatMap_def, List.map_congr_left each]

/-- The octets of a whole number are those of its numeral. -/
theorem intBytes_eq (n : Int) : intBytes n = Bytes.ofString (toString n) := by
  rw [intBytes]
  cases n with
  | ofNat n =>
    rw [Int.ofNat_eq_natCast, if_neg (Int.not_lt.mpr (Int.natCast_nonneg n)), Int.natAbs_natCast,
      ← ofString_repr]
    rfl
  | negSucc n =>
    have minus (s : String) : Bytes.ofString ("-" ++ s) = 45 :: Bytes.ofString s := by
      rw [Bytes.ofString_eq, Bytes.ofString_eq, String.toList_append, List.flatMap_append]
      rfl
    rw [if_pos (Int.negSucc_lt_zero n), Int.natAbs_negSucc, ← ofString_repr, ← minus]
    rfl

/-- The digit of a character that is one. -/
def digitOf (c : Char) : Nat := c.toNat - 48

/-- At least one digit, for a number below a bound. -/
structure IsNumeral (bound : Nat) (cs : List Char) : Prop where
  nonempty : cs ≠ []
  digits : ∀ c ∈ cs, c.isDigit
  range : value (cs.map digitOf) < bound

theorem digitValue?_eq_some_iff {c : Char} {d : Nat} :
    digitValue? c = some d ↔ c.isDigit ∧ d = digitOf c := by
  have digit : c.isDigit ↔ '0' ≤ c ∧ c ≤ '9' := by
    rw [Char.isDigit, Bool.and_eq_true, decide_eq_true_eq, decide_eq_true_eq]
    rfl
  rw [digitValue?, digit, digitOf, Option.ite_none_right_eq_some, Option.some_inj, eq_comm (b := d)]

theorem mapM_digitValue?_eq_some_iff {ds : List Nat} :
    cs.mapM digitValue? = some ds ↔ (∀ c ∈ cs, c.isDigit) ∧ ds = cs.map digitOf := by
  induction cs generalizing ds with
  | nil =>
    rw [List.mapM_nil]
    exact ⟨fun read => ⟨nofun, (Option.some.inj read).symm⟩, fun h => congrArg some h.2.symm⟩
  | cons c cs ih =>
    rw [List.mapM_cons, List.forall_mem_cons]
    constructor
    · intro read
      obtain ⟨d, first, read⟩ := Option.bind_eq_some_iff.mp read
      obtain ⟨rest, others, made⟩ := Option.bind_eq_some_iff.mp read
      cases made
      obtain ⟨digit, rfl⟩ := digitValue?_eq_some_iff.mp first
      obtain ⟨digits, rfl⟩ := ih.mp others
      exact ⟨⟨digit, digits⟩, rfl⟩
    · rintro ⟨⟨digit, digits⟩, rfl⟩
      rw [digitValue?_eq_some_iff.mpr ⟨digit, rfl⟩, ih.mpr ⟨digits, rfl⟩]
      rfl

theorem ofDigits?_eq_some_iff {n : Nat} :
    ofDigits? cs = some n ↔ cs ≠ [] ∧ (∀ c ∈ cs, c.isDigit) ∧ n = value (cs.map digitOf) := by
  rw [ofDigits?]
  by_cases empty : cs = []
  · simp [empty]
  · rw [if_neg empty, Option.map_eq_some_iff]
    constructor
    · rintro ⟨ds, read, rfl⟩
      obtain ⟨digits, rfl⟩ := mapM_digitValue?_eq_some_iff.mp read
      exact ⟨empty, digits, rfl⟩
    · rintro ⟨-, digits, rfl⟩
      exact ⟨_, mapM_digitValue?_eq_some_iff.mpr ⟨digits, rfl⟩, rfl⟩

theorem ofDigits?_filter_eq_some_iff {n : Nat} :
    (ofDigits? cs).filter (· < bound) = some n ↔
      IsNumeral bound cs ∧ n = value (cs.map digitOf) := by
  rw [Option.filter_eq_some_iff, ofDigits?_eq_some_iff, decide_eq_true_eq]
  constructor
  · rintro ⟨⟨nonempty, digits, rfl⟩, range⟩
    exact ⟨⟨nonempty, digits, range⟩, rfl⟩
  · rintro ⟨⟨nonempty, digits, range⟩, rfl⟩
    exact ⟨⟨nonempty, digits, rfl⟩, range⟩

theorem IsNumeral.head?_ne (h : IsNumeral bound cs) : cs.head? ≠ some '+' := by
  intro begins
  have digit := h.digits '+' (List.mem_of_head? begins)
  exact absurd digit (by decide)

/-- The reader takes numerals for their numbers, and one plus sign before them. -/
theorem read?_eq_some_iff {n : Nat} : read? bound cs = some n ↔
    ∃ digits, (cs = digits ∨ cs = '+' :: digits) ∧ IsNumeral bound digits ∧
      n = value (digits.map digitOf) := by
  unfold read?
  rw [ofDigits?_filter_eq_some_iff]
  split
  · next digits =>
    constructor
    · intro read
      exact ⟨digits, .inr rfl, read⟩
    · rintro ⟨_, rfl | rest, numeral, number⟩
      · exact absurd rfl numeral.head?_ne
      · cases rest
        exact ⟨numeral, number⟩
  · next unsigned =>
    constructor
    · intro read
      exact ⟨cs, .inl rfl, read⟩
    · rintro ⟨digits, rfl | rfl, read⟩
      · exact read
      · exact absurd rfl (unsigned digits)

theorem read?_isSome_iff : (read? bound cs).isSome ↔
    IsNumeral bound cs ∨ ∃ digits, cs = '+' :: digits ∧ IsNumeral bound digits := by
  rw [Option.isSome_iff_exists]
  constructor
  · rintro ⟨n, read⟩
    obtain ⟨digits, rfl | signed, numeral, -⟩ := read?_eq_some_iff.mp read
    · exact .inl numeral
    · exact .inr ⟨digits, signed, numeral⟩
  · rintro (numeral | ⟨digits, signed, numeral⟩)
    · exact ⟨_, read?_eq_some_iff.mpr ⟨cs, .inl rfl, numeral, rfl⟩⟩
    · exact ⟨_, read?_eq_some_iff.mpr ⟨digits, .inr signed, numeral, rfl⟩⟩

theorem isDigit_digitChar : ∀ {d : Nat}, d < 10 → (digitChar d).isDigit = true := by
  decide

theorem digitOf_digitChar : ∀ {d : Nat}, d < 10 → digitOf (digitChar d) = d := by
  decide

theorem value_digitOf_digits (n : Nat) :
    value (((digits n).map digitChar).map digitOf) = n := by
  have back : ((digits n).map digitChar).map digitOf = digits n := by
    rw [List.map_map]
    refine (List.map_congr_left fun d hd => ?_).trans (List.map_id _)
    exact digitOf_digitChar (digits_lt_ten hd)
  rw [back, value_digits]

theorem isNumeral_digits {n : Nat} (below : n < bound) :
    IsNumeral bound ((digits n).map digitChar) := by
  constructor
  · simpa using digits_ne_nil n
  · rw [List.forall_mem_map]
    intro d hd
    exact isDigit_digitChar (digits_lt_ten hd)
  · rwa [value_digitOf_digits]

theorem isNumeral_text {n : Nat} (below : n < bound) : IsNumeral bound (text n).toList := by
  rw [text, String.toList_ofList]
  exact isNumeral_digits below

/-- What is written for a number is read as that number. -/
theorem read?_digits {n : Nat} (below : n < bound) :
    read? bound ((digits n).map digitChar) = some n :=
  read?_eq_some_iff.mpr ⟨_, .inl rfl, isNumeral_digits below, (value_digitOf_digits n).symm⟩

end DocumentClient.Decimal
