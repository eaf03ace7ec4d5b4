import DocumentClient.Duration

/-!
# Finite binary64 numbers

A finite number of the IEEE 754 format binary64 as a sign and `mantissa * 2 ^ exponent`. The
operations are exact on natural numbers up to one rounding, to the nearest number of the
format and on a tie to the even mantissa; a magnitude beyond the format is `none`. Infinities
and NaN are not represented: no text of a number denotes them.
-/

namespace DocumentClient

/-- A number other than zero has a mantissa from 2^52 to 2^53 - 1 and an exponent from -1074
to 971, or a smaller mantissa and the exponent -1074; zero has mantissa and exponent 0. -/
structure Binary64 where
  negative : Bool
  mantissa : Nat
  exponent : Int
deriving DecidableEq

namespace Binary64

/-- The least mantissa of 53 bits. -/
def leastNormal : Nat := 0x10000000000000

/-- The quotient rounded to the nearest whole number, a tie to the even one. -/
def roundQuotient (num den : Nat) : Nat :=
  let q := num / den
  let twice := 2 * (num % den)
  if twice < den ∨ (twice = den ∧ q % 2 = 0) then q else q + 1

/-- The fraction `num / den` divided by `2 ^ e`. -/
def scaled (num den : Nat) (e : Int) : Nat × Nat :=
  (num <<< (-e).toNat, den <<< e.toNat)

/-- The exponent at which a positive quotient has a mantissa of 53 bits, or the least exponent
of the format if that one is larger. -/
def exponentOf (num den : Nat) : Int :=
  let guess : Int := (num.log2 : Int) - (den.log2 : Int) - 52
  let (n, d) := scaled num den guess
  max (if n / d < leastNormal then guess - 1 else guess) (-1074)

/-- The number of the format nearest to `num / den`, `none` beyond the largest one. -/
def roundRatio (num den : Nat) : Option Binary64 :=
  if num = 0 then some ⟨false, 0, 0⟩
  else
    let e := exponentOf num den
    let (n, d) := scaled num den e
    let m := roundQuotient n d
    let (m, e) := if m = 2 * leastNormal then (leastNormal, e + 1) else (m, e)
    if m = 0 then some ⟨false, 0, 0⟩
    else if e > 971 then none
    else some ⟨false, m, e⟩

def isZero (x : Binary64) : Bool := x.mantissa == 0

def withSign (x : Binary64) (negative : Bool) : Binary64 := ⟨negative, x.mantissa, x.exponent⟩

/-- The magnitude of a number as a fraction. -/
def magnitude (x : Binary64) : Nat × Nat :=
  (x.mantissa <<< x.exponent.toNat, 1 <<< (-x.exponent).toNat)

/-- The product of two magnitudes, rounded. -/
def times (x y : Binary64) : Option Binary64 :=
  roundRatio (x.magnitude.1 * y.magnitude.1) (x.magnitude.2 * y.magnitude.2)

/-- The quotient of two magnitudes, rounded. -/
def dividedBy (x y : Binary64) : Option Binary64 :=
  roundRatio (x.magnitude.1 * y.magnitude.2) (x.magnitude.2 * y.magnitude.1)

/-- The number of the format nearest to an integer. -/
def ofInt (i : Int) : Option Binary64 :=
  (roundRatio i.natAbs 1).map (·.withSign (decide (i < 0)))

/-- The number of the format nearest to a power of ten. -/
def tenTo (k : Nat) : Option Binary64 := roundRatio (Nat.pow 10 k) 1

/-- A magnitude times a power of ten. The power of ten is rounded before it is applied, and
powers beyond 10^308 are applied in steps, so the result may differ from the nearest number
in its last bit. -/
def timesTenTo (x : Binary64) (e : Int) : Option Binary64 :=
  if x.isZero then some x
  else if h : e.natAbs ≤ 308 then do
    let power ← tenTo e.natAbs
    if e < 0 then x.dividedBy power else x.times power
  else if e < 0 then do
    let power ← tenTo 308
    let smaller ← x.dividedBy power
    smaller.timesTenTo (e + 308)
  else none
termination_by e.natAbs
decreasing_by omega

/-- This many seconds as a duration, rounded to the nearest nanosecond, if the number is not
negative and its whole part is below 2^64. -/
def seconds? (x : Binary64) : Option Duration :=
  let (num, den) := x.magnitude
  if (x.negative ∧ ¬ x.isZero) ∨ UInt64.size * den ≤ num then none
  else some ⟨roundQuotient (num * 1000000000) den⟩

end Binary64
end DocumentClient
