import DocumentClient.Json.Fault

/-!
# Reading names, texts and numbers

A reading takes something from the front of a text and returns the rest, or stops with a reason
and the number of octets that it left. A reading never returns more than it was given, and one
of a text or number returns less.

The significand of a number is kept as far as it fits 64 bits; later digits only count towards
the exponent.
-/

namespace DocumentClient.Json

/-- Where and why reading stopped, by the number of octets that were left. -/
structure Stop where
  reason : Reason
  left : Nat

abbrev Reading (α : Type) := Except Stop (α × Bytes)

namespace Reading

/-- Stops in front of `rest`. -/
def here (reason : Reason) (rest : Bytes) : Stop := ⟨reason, rest.length⟩

/-- Stops at the first octet of `rest`, which counts as read. -/
def next (reason : Reason) (rest : Bytes) : Stop := ⟨reason, rest.length - 1⟩

def isBlank (b : UInt8) : Bool := b == 32 || b == 10 || b == 9 || b == 13

def skipBlanks : Bytes → Bytes
  | [] => []
  | b :: s => if isBlank b then skipBlanks s else b :: s

theorem skipBlanks_length_le (s : Bytes) : (skipBlanks s).length ≤ s.length := by
  fun_induction skipBlanks s <;> simp_all
  omega

/-- The rest of a literal name, given the part of it that is still to come. -/
def word : (expected : Bytes) → Bytes → Except Stop Bytes
  | [], s => .ok s
  | _ :: _, [] => .error (here .endInValue [])
  | e :: es, b :: s => if b = e then word es s else .error (here .expectedWord s)

theorem word_length_le {expected s r : Bytes} (h : word expected s = .ok r) :
    r.length ≤ s.length := by
  fun_induction word expected s with
  | case1 s => simp_all
  | case2 => cases h
  | case3 es b s ih =>
    have := ih h
    simp only [List.length_cons]
    omega
  | case4 => cases h

/-- Four hexadecimal digits. -/
def hexQuad : Bytes → Reading Nat
  | a :: b :: c :: d :: s =>
    match Bytes.hexValue? a, Bytes.hexValue? b, Bytes.hexValue? c, Bytes.hexValue? d with
    | some a, some b, some c, some d => .ok (((a * 16 + b) * 16 + c) * 16 + d, s)
    | _, _, _, _ => .error (here .invalidEscape s)
  | _ => .error (here .endInText [])

/-- The character after `\u`; one outside the basic plane takes two escapes. -/
def unicodeEscape (s : Bytes) : Reading Bytes :=
  match hexQuad s with
  | .error e => .error e
  | .ok (high, s) =>
    if 0xDC00 ≤ high ∧ high ≤ 0xDFFF then .error (here .loneSurrogate s)
    else if high < 0xD800 ∨ 0xDBFF < high then
      .ok (String.utf8EncodeChar (Char.ofNat high), s)
    else
      match s with
      | [] => .error (here .endInText [])
      | b :: s =>
        if b ≠ 92 then .error (here .endOfHexEscape s)
        else
          match s with
          | [] => .error (here .endInText [])
          | b :: s =>
            if b ≠ 117 then .error (here .endOfHexEscape s)
            else
              match hexQuad s with
              | .error e => .error e
              | .ok (low, s) =>
                if low < 0xDC00 ∨ 0xDFFF < low then .error (here .loneSurrogate s)
                else
                  let code := (high - 0xD800) * 1024 + (low - 0xDC00) + 0x10000
                  .ok (String.utf8EncodeChar (Char.ofNat code), s)

/-- The octets that an escape stands for, after its backslash. -/
def readEscape : Bytes → Reading Bytes
  | [] => .error (here .endInText [])
  | b :: s =>
    if b = 34 ∨ b = 92 ∨ b = 47 then .ok ([b], s)
    else if b = 98 then .ok ([8], s)
    else if b = 102 then .ok ([12], s)
    else if b = 110 then .ok ([10], s)
    else if b = 114 then .ok ([13], s)
    else if b = 116 then .ok ([9], s)
    else if b = 117 then unicodeEscape s
    else .error (here .invalidEscape s)

theorem hexQuad_length_lt {s r : Bytes} {n : Nat} (h : hexQuad s = .ok (n, r)) :
    r.length < s.length := by
  unfold hexQuad at h
  split at h
  · split at h
    · cases h
      simp
      omega
    · cases h
  · cases h

theorem unicodeEscape_length_lt {s r bs : Bytes} (h : unicodeEscape s = .ok (bs, r)) :
    r.length < s.length := by
  rw [unicodeEscape] at h
  split at h
  · cases h
  · next high t ht =>
    have first := hexQuad_length_lt ht
    split at h
    · cases h
    split at h
    · injection h with h
      injection h with _ h
      subst h
      exact first
    split at h
    · cases h
    split at h
    · cases h
    split at h
    · cases h
    split at h
    · cases h
    split at h
    · cases h
    · next u hu =>
      have second := hexQuad_length_lt hu
      split at h
      · cases h
      · injection h with h
        injection h with _ h
        subst h
        simp only [List.length_cons] at first
        omega

theorem readEscape_length_lt {s r bs : Bytes} (h : readEscape s = .ok (bs, r)) :
    r.length < s.length := by
  unfold readEscape at h
  split at h
  · cases h
  · next b t =>
    rcases Decidable.em (b = 117) with hb | hb
    · subst hb
      have := unicodeEscape_length_lt (show unicodeEscape t = .ok (bs, r) from h)
      simp only [List.length_cons]
      omega
    · simp only [hb, ↓reduceIte] at h
      repeat' split at h
      all_goals cases h
      all_goals simp

/-- The octets of a text up to its closing quote, with escapes resolved. -/
def unescape (s : Bytes) : Reading Bytes :=
  match s with
  | [] => .error (here .endInText [])
  | b :: s =>
    if b = 34 then .ok ([], s)
    else if b = 92 then
      match _h : readEscape s with
      | .error e => .error e
      | .ok (bs, s') =>
        match unescape s' with
        | .error e => .error e
        | .ok (tail, r) => .ok (bs ++ tail, r)
    else if b < 32 then .error (here .controlCharacter s)
    else
      match unescape s with
      | .error e => .error e
      | .ok (tail, r) => .ok (b :: tail, r)
termination_by s.length
decreasing_by
  all_goals simp_wf
  have := readEscape_length_lt (by assumption)
  omega

theorem unescape_length_lt {s r bs : Bytes} (h : unescape s = .ok (bs, r)) :
    r.length < s.length := by
  fun_induction unescape s generalizing bs r with
  | case1 | case3 | case4 | case6 | case7 => cases h
  | case2 s =>
    cases h
    simp
  | case5 s _ t he _ _ ht _ ih =>
    cases h
    have := readEscape_length_lt he
    have := ih ht
    simp only [List.length_cons]
    omega
  | case8 b s _ _ _ _ _ ht ih =>
    cases h
    have := ih ht
    simp only [List.length_cons]
    omega

/-- A text, after its opening quote. Octets that are no UTF-8 are placed by counting back from the
closing quote: as far as the text with its escapes resolved goes on from the first of them. Where
no escape follows, that is the octet itself. -/
def readText (s : Bytes) : Reading String :=
  match unescape s with
  | .error e => .error e
  | .ok (bs, r) =>
    match Bytes.toString? bs with
    | some t => .ok (t, r)
    | none =>
      let left := (Bytes.dropText bs).length + 1 + r.length
      .error (next .invalidUnicode (s.drop (s.length - left)))

theorem readText_length_lt {s r : Bytes} {t : String} (h : readText s = .ok (t, r)) :
    r.length < s.length := by
  rw [readText] at h
  split at h
  · cases h
  · next hu =>
    split at h
    · cases h; exact unescape_length_lt hu
    · cases h

def isDigit (b : UInt8) : Bool := 48 ≤ b && b ≤ 57

def digitOf (b : UInt8) : Nat := b.toNat - 48

/-- The digits at the front of a text, and what follows them. -/
def takeDigits : Bytes → List Nat × Bytes
  | [] => ([], [])
  | b :: s =>
    if isDigit b then
      let (ds, r) := takeDigits s
      (digitOf b :: ds, r)
    else ([], b :: s)

theorem takeDigits_length_le (s : Bytes) : (takeDigits s).2.length ≤ s.length := by
  fun_induction takeDigits s <;> simp_all
  omega

/-- Appends digits to a significand while it stays below 2^64; the second part counts the
digits that did not fit. -/
def absorb (significand : Nat) : List Nat → Nat × Nat
  | [] => (significand, 0)
  | d :: ds =>
    if significand * 10 + d < UInt64.size then absorb (significand * 10 + d) ds
    else (significand, ds.length + 1)

/-- The binary64 number `significand * 10 ^ e`. -/
def realOfParts (negative : Bool) (significand : Nat) (e : Int) (rest : Bytes) :
    Reading Number :=
  match (Binary64.roundRatio significand 1).bind (·.timesTenTo e) with
  | some x => .ok (.real (x.withSign negative), rest)
  | none => .error (here .numberOutOfRange rest)

/-- The digits of an exponent; `none` once they exceed what 32 bits hold. -/
def exponentDigits (e : Nat) : Bytes → Option Nat × Bytes
  | [] => (some e, [])
  | b :: s =>
    if isDigit b then
      if 0x80000000 ≤ e * 10 + digitOf b then (none, s) else exponentDigits (e * 10 + digitOf b) s
    else (some e, b :: s)

theorem exponentDigits_length_le (e : Nat) (s : Bytes) :
    (exponentDigits e s).2.length ≤ s.length := by
  fun_induction exponentDigits e s <;> simp_all
  omega

/-- The sign of an exponent, true for a minus. -/
def exponentSign : Bytes → Bool × Bytes
  | 43 :: s => (false, s)
  | 45 :: s => (true, s)
  | s => (false, s)

theorem exponentSign_length_le (s : Bytes) : (exponentSign s).2.length ≤ s.length := by
  unfold exponentSign
  split <;> simp

/-- The exponent of a number, after its `e`, and with it the number. -/
def readExponent (negative : Bool) (significand : Nat) (e : Int) (s : Bytes) :
    Reading Number :=
  match (exponentSign s).2 with
  | [] => .error (here .endInValue [])
  | b :: r =>
    if isDigit b then
      match exponentDigits (digitOf b) r with
      | (some n, r) =>
        realOfParts negative significand (if (exponentSign s).1 then e - n else e + n) r
      | (none, r) =>
        if significand ≠ 0 ∧ (exponentSign s).1 = false then
          .error (here .numberOutOfRange r)
        else .ok (.real ⟨negative, 0, 0⟩, (takeDigits r).2)
    else .error (here .invalidNumber r)

/-- The decimals of a number, after its point, and with them the number. -/
def readFraction (negative : Bool) (significand : Nat) (e : Int) (s : Bytes) :
    Reading Number :=
  match takeDigits s with
  | ([], []) => .error (next .endInValue [])
  | ([], r) => .error (next .invalidNumber r)
  | (ds, r) =>
    let (significand, dropped) := absorb significand ds
    let e := e - (ds.length - dropped : Nat)
    match r with
    | 101 :: r | 69 :: r => readExponent negative significand e r
    | r => realOfParts negative significand e r

/-- What follows the digits before the point. A whole number stays one if it fits 64 bits in
its sign; minus zero is a binary64 number. -/
def readTail (negative : Bool) (significand dropped : Nat) (s : Bytes) : Reading Number :=
  match s with
  | 46 :: r => readFraction negative significand dropped r
  | 101 :: r | 69 :: r => readExponent negative significand dropped r
  | r =>
    if dropped ≠ 0 ∨ (negative ∧ (significand = 0 ∨ 0x8000000000000000 < significand)) then
      realOfParts negative significand dropped r
    else .ok (.whole (if negative then -significand else significand), r)

/-- A number, after its minus sign if it has one. -/
def readNumber (negative : Bool) (s : Bytes) : Reading Number :=
  match s with
  | [] => .error (here .endInValue [])
  | b :: r =>
    if b = 48 then
      match r with
      | c :: _ => if isDigit c then .error (next .invalidNumber r) else readTail negative 0 0 r
      | [] => readTail negative 0 0 []
    else if isDigit b then
      let (ds, r) := takeDigits r
      let (significand, dropped) := absorb 0 (digitOf b :: ds)
      readTail negative significand dropped r
    else .error (here .invalidNumber r)

theorem realOfParts_length_le {negative : Bool} {n : Nat} {e : Int} {s r : Bytes} {x : Number}
    (h : realOfParts negative n e s = .ok (x, r)) : r.length ≤ s.length := by
  rw [realOfParts] at h
  split at h <;> cases h
  exact Nat.le_refl _

theorem readExponent_length_le {negative : Bool} {n : Nat} {e : Int} {s r : Bytes} {x : Number}
    (h : readExponent negative n e s = .ok (x, r)) : r.length ≤ s.length := by
  have sign := exponentSign_length_le s
  rw [readExponent] at h
  split at h
  · cases h
  · next b t ht =>
    rw [ht] at sign
    simp only [List.length_cons] at sign
    split at h
    · have digits := exponentDigits_length_le (digitOf b) t
      split at h
      · next hd =>
        rw [hd] at digits
        have := realOfParts_length_le h
        simp only at digits
        omega
      · next u hd =>
        rw [hd] at digits
        split at h
        · cases h
        · cases h
          have := takeDigits_length_le u
          simp only at digits
          omega
    · cases h

theorem readFraction_length_le {negative : Bool} {n : Nat} {e : Int} {s r : Bytes} {x : Number}
    (h : readFraction negative n e s = .ok (x, r)) : r.length ≤ s.length := by
  have digits := takeDigits_length_le s
  rw [readFraction] at h
  split at h
  · cases h
  · cases h
  · next hd =>
    rw [hd] at digits
    simp only at h digits
    split at h
    · have := readExponent_length_le h
      simp only [List.length_cons] at digits
      omega
    · have := readExponent_length_le h
      simp only [List.length_cons] at digits
      omega
    · have := realOfParts_length_le h
      omega

theorem readTail_length_le {negative : Bool} {n dropped : Nat} {s r : Bytes} {x : Number}
    (h : readTail negative n dropped s = .ok (x, r)) : r.length ≤ s.length := by
  unfold readTail at h
  split at h
  · have := readFraction_length_le h
    simp
    omega
  · have := readExponent_length_le h
    simp
    omega
  · have := readExponent_length_le h
    simp
    omega
  · split at h
    · exact realOfParts_length_le h
    · cases h
      exact Nat.le_refl _

theorem readNumber_length_lt {negative : Bool} {s r : Bytes} {x : Number}
    (h : readNumber negative s = .ok (x, r)) : r.length < s.length := by
  unfold readNumber at h
  split at h
  · cases h
  · next b t =>
    split at h
    · split at h
      · split at h
        · cases h
        · have := readTail_length_le h
          simp at this ⊢
          omega
      · have := readTail_length_le h
        simp at this ⊢
        omega
    · split at h
      · have digits := takeDigits_length_le t
        have := readTail_length_le h
        simp
        omega
      · cases h

end Reading
end DocumentClient.Json
