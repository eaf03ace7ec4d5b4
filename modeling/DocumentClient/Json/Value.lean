import DocumentClient.Binary64
import DocumentClient.Keyed

/-!
# JSON values

A number is a whole one, as far as 64 bits reach in either sign, or a binary64 one. The
members of an object are ordered by key.
-/

namespace DocumentClient.Json

inductive Number where
  | whole (n : Int)
  | real (x : Binary64)
deriving DecidableEq

inductive Value where
  | null
  | bool (b : Bool)
  | number (n : Number)
  | text (s : String)
  | array (items : List Value)
  | object (members : List (String × Value))

namespace Value

mutual

def decEq : (a b : Value) → Decidable (a = b)
  | .null, b => match b with
    | .null => isTrue rfl
    | .bool _ | .number _ | .text _ | .array _ | .object _ => isFalse nofun
  | .bool x, b => match b with
    | .bool y => decidable_of_iff (x = y) (by simp)
    | .null | .number _ | .text _ | .array _ | .object _ => isFalse nofun
  | .number x, b => match b with
    | .number y => decidable_of_iff (x = y) (by simp)
    | .null | .bool _ | .text _ | .array _ | .object _ => isFalse nofun
  | .text x, b => match b with
    | .text y => decidable_of_iff (x = y) (by simp)
    | .null | .bool _ | .number _ | .array _ | .object _ => isFalse nofun
  | .array xs, b => match b with
    | .array ys => let _ := decEqItems xs ys; decidable_of_iff (xs = ys) (by simp)
    | .null | .bool _ | .number _ | .text _ | .object _ => isFalse nofun
  | .object xs, b => match b with
    | .object ys => let _ := decEqMembers xs ys; decidable_of_iff (xs = ys) (by simp)
    | .null | .bool _ | .number _ | .text _ | .array _ => isFalse nofun

def decEqItems : (xs ys : List Value) → Decidable (xs = ys)
  | [], [] => isTrue rfl
  | [], _ :: _ => isFalse nofun
  | _ :: _, [] => isFalse nofun
  | x :: xs, y :: ys =>
    let _ := decEq x y
    let _ := decEqItems xs ys
    decidable_of_iff (x = y ∧ xs = ys) (by simp)

def decEqMembers : (xs ys : List (String × Value)) → Decidable (xs = ys)
  | [], [] => isTrue rfl
  | [], _ :: _ => isFalse nofun
  | _ :: _, [] => isFalse nofun
  | (k, x) :: xs, (l, y) :: ys =>
    let _ := decEq x y
    let _ := decEqMembers xs ys
    decidable_of_iff (k = l ∧ x = y ∧ xs = ys) (by simp [and_assoc])

end

instance : DecidableEq Value := decEq

mutual

/-- How deeply arrays and objects are nested; a scalar has depth 0. -/
def depth : Value → Nat
  | .null | .bool _ | .number _ | .text _ => 0
  | .array items => depthItems items + 1
  | .object members => depthMembers members + 1

def depthItems : List Value → Nat
  | [] => 0
  | v :: rest => max (depth v) (depthItems rest)

def depthMembers : List (String × Value) → Nat
  | [] => 0
  | (_, v) :: rest => max (depth v) (depthMembers rest)

end

def bool? : Value → Option Bool
  | .bool b => some b
  | _ => none

def text? : Value → Option String
  | .text s => some s
  | _ => none

/-- The whole number that a value is. -/
def whole? : Value → Option Int
  | .number (.whole n) => some n
  | _ => none

/-- The number that a value is, as the nearest binary64 number. -/
def real? : Value → Option Binary64
  | .number (.whole n) => Binary64.ofInt n
  | .number (.real x) => some x
  | _ => none

end Value
end DocumentClient.Json
