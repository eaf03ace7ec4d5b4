import DocumentClient.Decimal

/-!
# Durations

A length of time in whole nanoseconds. Conversions to coarser units drop the remainder. The
text of a duration uses the coarsest of seconds, milliseconds, microseconds and nanoseconds
that does not make its whole part zero, and as many decimals as are needed.
-/

namespace DocumentClient

structure Duration where
  nanoseconds : Nat
deriving DecidableEq

namespace Duration

def ofSeconds (n : Nat) : Duration := ⟨n * 1000000000⟩
def ofMillis (n : Nat) : Duration := ⟨n * 1000000⟩
def ofMicros (n : Nat) : Duration := ⟨n * 1000⟩

/-- Whole seconds and the nanoseconds that remain. -/
def ofParts (seconds nanos : Nat) : Duration := ⟨seconds * 1000000000 + nanos⟩

def zero : Duration := ⟨0⟩

def isZero (d : Duration) : Bool := d.nanoseconds == 0

def seconds (d : Duration) : Nat := d.nanoseconds / 1000000000
def millis (d : Duration) : Nat := d.nanoseconds / 1000000
def micros (d : Duration) : Nat := d.nanoseconds / 1000

/-- The nanoseconds beyond the whole seconds. -/
def subsecond (d : Duration) : Nat := d.nanoseconds % 1000000000

/-- The longest time that a timer runs: thirty years. -/
def longestTimer : Duration := ofSeconds (30 * 365 * 24 * 60 * 60)

/-- The clock ticks, of one millisecond each, after which a timer of this length has fired. A
timer that is set to more than it can run fires when its longest time is over. -/
def ticks (d : Duration) : Nat := (min d.nanoseconds longestTimer.nanoseconds + 999999) / 1000000

/-- `whole` and `fraction / 10 ^ places`, without trailing zeros. -/
def decimalText (whole fraction places : Nat) : String :=
  let digits := Decimal.digits fraction
  let padded := List.replicate (places - digits.length) 0 ++ digits
  let shown := (padded.reverse.dropWhile (· == 0)).reverse
  if shown.isEmpty then Decimal.text whole
  else Decimal.text whole ++ "." ++ String.ofList (shown.map Decimal.digitChar)

/-- The text of a duration, such as `75s`, `2.5s`, `20ms`, `1.5µs` or `999ns`. -/
def text (d : Duration) : String :=
  if d.seconds ≠ 0 then decimalText d.seconds d.subsecond 9 ++ "s"
  else if d.nanoseconds ≥ 1000000 then
    decimalText d.millis (d.nanoseconds % 1000000) 6 ++ "ms"
  else if d.nanoseconds ≥ 1000 then
    decimalText d.micros (d.nanoseconds % 1000) 3 ++ "µs"
  else Decimal.text d.nanoseconds ++ "ns"

end Duration
end DocumentClient
