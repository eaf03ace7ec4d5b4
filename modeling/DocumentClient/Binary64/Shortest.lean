import DocumentClient.Binary64

/-!
# The shortest decimal of a binary64 number

Among the decimals that round to a given number of the format, one with the fewest digits, and
of those the one nearest to the number. For one digit, two digits and so on, the two
neighbours of the number on the grid of that many digits are tested; seventeen digits always
suffice.
-/

namespace DocumentClient.Binary64

/-- The exponent of the leading decimal digit of a positive fraction that is no negative
power of ten. -/
def leadingExponent (num den : Nat) : Int :=
  if den ≤ num then ((Decimal.digits (num / den)).length : Int) - 1
  else -((Decimal.digits (den / num)).length : Int)

/-- Whether the decimal `c * 10 ^ k` rounds to `m * 2 ^ e`. The distance to the next smaller
number is halved at a power of two; the midpoints round to an even mantissa. -/
def readsBack (m : Nat) (e : Int) (c : Nat) (k : Int) : Bool :=
  let below := if m = leastNormal ∧ -1074 < e then 4 * m - 1 else 4 * m - 2
  let unit (quarters : Nat) := (quarters * Nat.pow 10 (-k).toNat) <<< (e - 2).toNat
  let decimal := (c * Nat.pow 10 k.toNat) <<< (-(e - 2)).toNat
  if m % 2 = 0 then unit below ≤ decimal && decimal ≤ unit (4 * m + 2)
  else unit below < decimal && decimal < unit (4 * m + 2)

/-- The digits `c` of the best decimal `c * 10 ^ k` on the grid of step `10 ^ k`, if one of the
number's neighbours there rounds to it. -/
def onGrid (x : Binary64) (k : Int) : Option Nat :=
  let (num, den) := x.magnitude
  let n := num * Nat.pow 10 (-k).toNat
  let d := den * Nat.pow 10 k.toNat
  let c := n / d
  let nearest := roundQuotient n d
  let other := if nearest = c then c + 1 else c
  if readsBack x.mantissa x.exponent nearest k then some nearest
  else if readsBack x.mantissa x.exponent other k then some other
  else none

/-- Tries grids of increasing precision, `left` of them, from the step `10 ^ k` on. -/
def firstGrid (x : Binary64) : (left : Nat) → (k : Int) → Nat × Int
  | 0, k => 
    (roundQuotient (x.magnitude.1 * Nat.pow 10 (-k).toNat) (x.magnitude.2 * Nat.pow 10 k.toNat), k)
  | left + 1, k =>
    match onGrid x k with
    | some c => (c, k)
    | none => firstGrid x left (k - 1)

/-- The digits of the shortest decimal of a number other than zero, without trailing zeros,
and the exponent of the first one. -/
def shortest (x : Binary64) : List Nat × Int :=
  let (c, k) := firstGrid x 16 (leadingExponent x.magnitude.1 x.magnitude.2)
  let digits := Decimal.digits c
  ((digits.reverse.dropWhile (· == 0)).reverse, k + digits.length - 1)

end DocumentClient.Binary64
