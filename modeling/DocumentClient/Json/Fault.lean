import DocumentClient.Json.Printer
import DocumentClient.Text.Quoted

/-!
# Why a JSON text or value is refused

A fault found in a text carries the place where reading stopped; a fault found in a value that
is already in memory has no place.
-/

namespace DocumentClient.Json

/-- The ranges of whole numbers that a reader can ask for. -/
inductive IntegerKind where
  | u8 | u32 | i64 | u64
deriving DecidableEq

namespace IntegerKind

def name : IntegerKind → String
  | .u8 => "u8"
  | .u32 => "u32"
  | .i64 => "i64"
  | .u64 => "u64"

def least : IntegerKind → Int
  | .u8 | .u32 | .u64 => 0
  | .i64 => -0x8000000000000000

def bound : IntegerKind → Int
  | .u8 => UInt8.size
  | .u32 => UInt32.size
  | .i64 => 0x8000000000000000
  | .u64 => UInt64.size

end IntegerKind

/-- What a typed reader asks for. -/
inductive Expected where
  | boolean
  | integer (kind : IntegerKind)
  | text
  | sequence
  | map
deriving DecidableEq

def Expected.name : Expected → String
  | .boolean => "a boolean"
  | .integer kind => kind.name
  | .text => "a string"
  | .sequence => "a sequence"
  | .map => "a map"

/-- What it finds instead: a scalar, or the beginning of a list or object. -/
inductive Found where
  | null
  | bool (b : Bool)
  | number (n : Number)
  | text (s : String)
  | sequence
  | map
deriving DecidableEq

def Found.name : Found → String
  | .null => "null"
  | .bool true => "boolean `true`"
  | .bool false => "boolean `false`"
  | .number (.whole n) => "integer `" ++ Decimal.intText n ++ "`"
  | .number (.real x) => "floating point `" ++ realText x ++ "`"
  | .text s => "string " ++ Text.quoted s
  | .sequence => "sequence"
  | .map => "map"

def Value.found : Value → Found
  | .null => .null
  | .bool b => .bool b
  | .number n => .number n
  | .text s => .text s
  | .array _ => .sequence
  | .object _ => .map

inductive Reason where
  | endInList
  | endInObject
  | endInText
  | endInValue
  | expectedColon
  | expectedListCommaOrEnd
  | expectedObjectCommaOrEnd
  | expectedWord
  | expectedValue
  | invalidEscape
  | invalidNumber
  | numberOutOfRange
  | invalidUnicode
  | controlCharacter
  | keyNotText
  | loneSurrogate
  | trailingComma
  | trailingCharacters
  | endOfHexEscape
  | recursionLimit
  | wrongType (found : Found) (expected : Expected)
  | wrongValue (found : Int) (expected : IntegerKind)
deriving DecidableEq

def Reason.message : Reason → String
  | .endInList => "EOF while parsing a list"
  | .endInObject => "EOF while parsing an object"
  | .endInText => "EOF while parsing a string"
  | .endInValue => "EOF while parsing a value"
  | .expectedColon => "expected `:`"
  | .expectedListCommaOrEnd => "expected `,` or `]`"
  | .expectedObjectCommaOrEnd => "expected `,` or `\x7d`"
  | .expectedWord => "expected ident"
  | .expectedValue => "expected value"
  | .invalidEscape => "invalid escape"
  | .invalidNumber => "invalid number"
  | .numberOutOfRange => "number out of range"
  | .invalidUnicode => "invalid unicode code point"
  | .controlCharacter =>
    "control character (\\u0000-\\u001F) found while parsing a string"
  | .keyNotText => "key must be a string"
  | .loneSurrogate => "lone leading surrogate in hex escape"
  | .trailingComma => "trailing comma"
  | .trailingCharacters => "trailing characters"
  | .endOfHexEscape => "unexpected end of hex escape"
  | .recursionLimit => "recursion limit exceeded"
  | .wrongType found expected =>
    "invalid type: " ++ found.name ++ ", expected " ++ expected.name
  | .wrongValue found expected =>
    "invalid value: integer `" ++ Decimal.intText found ++ "`, expected " ++ expected.name

/-- A line, counted from 1, and the number of octets read in it. -/
structure Place where
  line : Nat
  column : Nat
deriving DecidableEq

structure Fault where
  reason : Reason
  place : Option Place := none
deriving DecidableEq

def Fault.message (f : Fault) : String :=
  match f.place with
  | none => f.reason.message
  | some p => f.reason.message ++ " at line " ++ Decimal.text p.line ++ " column "
      ++ Decimal.text p.column

end DocumentClient.Json
