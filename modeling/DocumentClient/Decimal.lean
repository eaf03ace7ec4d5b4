import DocumentClient.Bytes

/-!
# Decimal numerals

Whole numbers as decimal digits, most significant first, without leading zeros. The reader
takes what an unsigned machine integer is written as: an optional plus sign and at least one
digit. Main statement: the value of the digits of `n` is `n`.
-/

namespace DocumentClient.Decimal

/-- The decimal digits of a number, most significant first. -/
def digits (n : Nat) : List Nat :=
  if n < 10 then [n] else digits (n / 10) ++ [n % 10]

/-- The number that a list of decimal digits stands for. -/
def value (ds : List Nat) : Nat := ds.foldl (fun acc d => 10 * acc + d) 0

theorem value_append_singleton (ds : List Nat) (d : Nat) :
    value (ds ++ [d]) = 10 * value ds + d := by
  simp [value]

theorem value_digits (n : Nat) : value (digits n) = n := by
  fun_induction digits n with
  | case1 n h => simp [value]
  | case2 n h ih =>
    rw [value_append_singleton, ih]
    omega

theorem digits_lt_ten {n d : Nat} (h : d ∈ digits n) : d < 10 := by
  fun_induction digits n with
  | case1 n hn => simp_all
  | case2 n hn ih =>
    rcases List.mem_append.1 h with h | h
    · exact ih h
    · simp only [List.mem_singleton] at h
      omega

theorem digits_ne_nil (n : Nat) : digits n ≠ [] := by
  rw [digits]
  split <;> simp

/-- The character of one digit. -/
def digitChar (d : Nat) : Char := Char.ofNat (48 + d)

/-- The digit that a character stands for. -/
def digitValue? (c : Char) : Option Nat :=
  if '0' ≤ c ∧ c ≤ '9' then some (c.toNat - 48) else none

/-- A number in decimal. -/
def text (n : Nat) : String := String.ofList ((digits n).map digitChar)

/-- An integer in decimal, with a minus sign before a negative one. -/
def intText (i : Int) : String := if i < 0 then "-" ++ text i.natAbs else text i.natAbs

/-- The octets of a number in decimal. -/
def bytes (n : Nat) : Bytes := (digits n).map fun d => UInt8.ofNat (48 + d)

/-- The octets of an integer in decimal. -/
def intBytes (i : Int) : Bytes := if i < 0 then 45 :: bytes i.natAbs else bytes i.natAbs

/-- The number that a nonempty list of digit characters stands for. -/
def ofDigits? (cs : List Char) : Option Nat :=
  if cs = [] then none else (cs.mapM digitValue?).map value

/-- Reads an unsigned number below `bound`: an optional plus sign, then digits. -/
def read? (bound : Nat) (cs : List Char) : Option Nat :=
  (ofDigits? (match cs with
    | '+' :: rest => rest
    | _ => cs)).filter (· < bound)

end DocumentClient.Decimal
