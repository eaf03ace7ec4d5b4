import DocumentClient.Duration

/-!
# Deadlines in headers

A deadline travels as a number of at most eight digits and the letter of a unit, the finest
one in which the time, cut to whole units, has that few digits. The reader takes any 64 bit
number. It works on octets: a header whose last character has several of them, and a number of
hours or minutes whose seconds exceed 64 bits, are faults of their own.
-/

namespace DocumentClient

inductive TimeUnit where
  | nanosecond
  | microsecond
  | millisecond
  | second
  | minute
  | hour
deriving DecidableEq

namespace TimeUnit

/-- From the finest unit to the coarsest. -/
def all : List TimeUnit := [.nanosecond, .microsecond, .millisecond, .second, .minute, .hour]

def nanoseconds : TimeUnit → Nat
  | .nanosecond => 1
  | .microsecond => 1000
  | .millisecond => 1000000
  | .second => 1000000000
  | .minute => 60000000000
  | .hour => 3600000000000

def letter : TimeUnit → Char
  | .nanosecond => 'n'
  | .microsecond => 'u'
  | .millisecond => 'm'
  | .second => 'S'
  | .minute => 'M'
  | .hour => 'H'

def ofLetter? (c : Char) : Option TimeUnit := all.find? fun unit => unit.letter = c

/-- Whether a 64 bit number of these units has 64 bits in seconds or in the unit itself. -/
def fits (unit : TimeUnit) (amount : Nat) : Bool :=
  match unit with
  | .hour => amount * 3600 < UInt64.size
  | .minute => amount * 60 < UInt64.size
  | _ => true

end TimeUnit

namespace Deadline

/-- The largest number in a header. -/
def maxAmount : Nat := 99999999

/-- The finest unit in which a time is short enough for a header. -/
def unit? (d : Duration) : Option TimeUnit :=
  TimeUnit.all.find? fun unit => d.nanoseconds / unit.nanoseconds ≤ maxAmount

/-- The header of a deadline; there is none for a time of more than 99999999 hours. -/
def header? (d : Duration) : Option String :=
  (unit? d).map fun unit =>
    Decimal.text (d.nanoseconds / unit.nanoseconds) ++ unit.letter.toString

/-- Why a header cannot even be taken apart. -/
inductive HeaderFault where
  | splitCharacter
  | overflow
deriving DecidableEq

/-- The time that a header states, if it states one. -/
def read (header : String) : Except HeaderFault (Option Duration) :=
  if header.utf8ByteSize < 2 then .ok none
  else
    match header.toList.reverse with
    | [] => .ok none
    | last :: amount =>
      if 1 < last.utf8Size then .error .splitCharacter
      else
        match Decimal.read? UInt64.size amount.reverse, TimeUnit.ofLetter? last with
        | some n, some unit =>
          if unit.fits n then .ok (some ⟨n * unit.nanoseconds⟩) else .error .overflow
        | _, _ => .ok none

end Deadline
end DocumentClient
