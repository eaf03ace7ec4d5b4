import DocumentClient.Binary64.Shortest
import DocumentClient.Json.Value

/-!
# The compact text of a JSON value

No blanks; members in the order in which the object holds them. A text escapes the quote, the
backslash and the control characters below U+0020 and nothing else. A binary64 number has its
shortest decimal, which always shows a point or an exponent, so that it is read back as one.
-/

namespace DocumentClient.Json

/-- Binary64 numbers whose leading digit stands at a power of ten from this one on are written
positionally. -/
def leastPositional : Int := -5

/-- From this power of ten on they are written with an exponent again. -/
def positionalBound : Int := 16

def digitBytes (ds : List Nat) : Bytes := ds.map fun d => UInt8.ofNat (48 + d)

/-- The decimal with these digits whose first digit stands at the power `e` of ten. -/
def decimalBytes (ds : List Nat) (e : Int) : Bytes :=
  if e < leastPositional ∨ positionalBound ≤ e then
    let fraction := if ds.length ≤ 1 then [] else 46 :: digitBytes (ds.drop 1)
    let sign : UInt8 := if e < 0 then 45 else 43
    digitBytes (ds.take 1) ++ fraction ++ 101 :: sign :: Decimal.bytes e.natAbs
  else if e < 0 then
    [48, 46] ++ List.replicate (e.natAbs - 1) 48 ++ digitBytes ds
  else
    let places := e.toNat + 1
    let whole := ds.take places ++ List.replicate (places - ds.length) 0
    let fraction := if ds.length ≤ places then [0] else ds.drop places
    digitBytes whole ++ 46 :: digitBytes fraction

def realBytes (x : Binary64) : Bytes :=
  let magnitude := if x.isZero then [48, 46, 48] else
    let (ds, e) := x.shortest
    decimalBytes ds e
  if x.negative then 45 :: magnitude else magnitude

def Number.print : Number → Bytes
  | .whole n => Decimal.intBytes n
  | .real x => realBytes x

/-- The text of a binary64 number in a message. -/
def realText (x : Binary64) : String :=
  String.ofList ((realBytes x).map fun b => Char.ofNat b.toNat)

def hexDigitByte (n : Nat) : UInt8 := UInt8.ofNat (if n < 10 then 48 + n else 87 + n)

/-- One octet of a text. -/
def escapeByte (b : UInt8) : Bytes :=
  if b = 34 then [92, 34]
  else if b = 92 then [92, 92]
  else if b = 8 then [92, 98]
  else if b = 9 then [92, 116]
  else if b = 10 then [92, 110]
  else if b = 12 then [92, 102]
  else if b = 13 then [92, 114]
  else if b < 32 then
    [92, 117, 48, 48, hexDigitByte (b.toNat / 16), hexDigitByte (b.toNat % 16)]
  else [b]

def escape (s : Bytes) : Bytes := s.flatMap escapeByte

def printText (s : String) : Bytes := 34 :: (escape (Bytes.ofString s) ++ [34])

mutual

def Value.print : Value → Bytes
  | .null => [110, 117, 108, 108]
  | .bool true => [116, 114, 117, 101]
  | .bool false => [102, 97, 108, 115, 101]
  | .number n => n.print
  | .text s => printText s
  | .array items => 91 :: (printItems items ++ [93])
  | .object members => 123 :: (printMembers members ++ [125])

/-- Items with a comma between them. -/
def printItems : List Value → Bytes
  | [] => []
  | [v] => v.print
  | v :: w :: rest => v.print ++ 44 :: printItems (w :: rest)

/-- Members with a comma between them, each with a colon after its key. -/
def printMembers : List (String × Value) → Bytes
  | [] => []
  | [(k, v)] => printText k ++ 58 :: v.print
  | (k, v) :: m :: rest => printText k ++ 58 :: (v.print ++ 44 :: printMembers (m :: rest))

end

/-- The compact text of a value as a string. -/
def Value.compact (v : Value) : String := (Bytes.toString? v.print).getD ""

end DocumentClient.Json
