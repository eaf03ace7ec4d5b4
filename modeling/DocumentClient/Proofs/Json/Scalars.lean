import DocumentClient.Json.Reader

/-!
# Scalars are read back

What the reader takes from the printed text of a scalar when something follows it. A text is
followed through its escapes octet by octet, so that nothing is asked of it; what follows a whole
number must not go on with it. Main statements: `readText_printText` for every text and
`readNumber_bytes` for every whole number that 64 bits hold in its sign.
-/

namespace DocumentClient

namespace Decimal

theorem digits_of_zero_cons {n : Nat} {ds : List Nat} (h : digits n = 0 :: ds) :
    n = 0 ∧ ds = [] := by
  fun_induction digits n generalizing ds with
  | case1 n small =>
    injection h with first rest
    exact ⟨first, rest.symm⟩
  | case2 n large ih =>
    obtain ⟨d, front, hd⟩ := List.exists_cons_of_ne_nil (digits_ne_nil (n / 10))
    rw [hd, List.cons_append] at h
    injection h with first rest
    have := (ih (first ▸ hd)).1
    omega

theorem le_foldl (ds : List Nat) (n : Nat) : n ≤ ds.foldl (fun acc d => 10 * acc + d) n := by
  induction ds generalizing n with
  | nil => exact Nat.le_refl n
  | cons d ds ih =>
    have := ih (10 * n + d)
    rw [List.foldl_cons]
    omega

end Decimal

namespace Json.Reading
variable {rest : Bytes}

theorem isDigit_ofNat : ∀ {d : Nat}, d < 10 → isDigit (UInt8.ofNat (48 + d)) = true := by
  decide

theorem digitOf_ofNat : ∀ {d : Nat}, d < 10 → digitOf (UInt8.ofNat (48 + d)) = d := by
  decide

/-- A number does not go on into this: no digit, point or exponent is in front. -/
def NumberEnd (rest : Bytes) : Prop :=
  ∀ b, rest.head? = some b → isDigit b = false ∧ b ≠ 46 ∧ b ≠ 69 ∧ b ≠ 101

theorem numberEnd_nil : NumberEnd [] := nofun

theorem takeDigits_of_numberEnd (ends : NumberEnd rest) : takeDigits rest = ([], rest) := by
  cases rest with
  | nil => rfl
  | cons b r => simp [takeDigits, (ends b rfl).1]

theorem takeDigits_digitBytes {ds : List Nat} (small : ∀ d ∈ ds, d < 10)
    (ends : NumberEnd rest) : takeDigits (digitBytes ds ++ rest) = (ds, rest) := by
  induction ds with
  | nil => exact takeDigits_of_numberEnd ends
  | cons d ds ih =>
    have hd := small d List.mem_cons_self
    have tail := ih fun e he => small e (List.mem_cons_of_mem _ he)
    rw [digitBytes] at tail ⊢
    rw [List.map_cons, List.cons_append, takeDigits, if_pos (isDigit_ofNat hd), tail,
      digitOf_ofNat hd]

theorem absorb_of_lt (ds : List Nat) (n : Nat)
    (fits : ds.foldl (fun acc d => 10 * acc + d) n < UInt64.size) :
    absorb n ds = (ds.foldl (fun acc d => 10 * acc + d) n, 0) := by
  induction ds generalizing n with
  | nil => rfl
  | cons d ds ih =>
    rw [List.foldl_cons] at fits ⊢
    have step := Decimal.le_foldl ds (10 * n + d)
    rw [absorb, Nat.mul_comm n 10, if_pos (by omega)]
    exact ih _ fits

theorem absorb_digits {n : Nat} (fits : n < UInt64.size) :
    absorb 0 (Decimal.digits n) = (n, 0) := by
  have hv : (Decimal.digits n).foldl (fun acc d => 10 * acc + d) 0 = n := Decimal.value_digits n
  rw [absorb_of_lt _ _ (by rw [hv]; exact fits), hv]

theorem readTail_of_numberEnd {negative : Bool} {n : Nat}
    (signed : negative = true → 0 < n ∧ n ≤ 0x8000000000000000) (ends : NumberEnd rest) :
    readTail negative n 0 rest = .ok (.whole (if negative then -n else n), rest) := by
  have whole : ¬ ((0 : Nat) ≠ 0 ∨ (negative = true ∧ (n = 0 ∨ 0x8000000000000000 < n))) := by
    rintro (h | ⟨minus, h⟩)
    · exact h rfl
    · have := signed minus
      omega
  unfold readTail
  split
  · exact absurd rfl (ends _ rfl).2.1
  · exact absurd rfl (ends _ rfl).2.2.2
  · exact absurd rfl (ends _ rfl).2.2.1
  · rw [if_neg whole]

theorem readNumber_bytes {negative : Bool} {n : Nat} (fits : n < UInt64.size)
    (signed : negative = true → 0 < n ∧ n ≤ 0x8000000000000000) (ends : NumberEnd rest) :
    readNumber negative (Decimal.bytes n ++ rest) =
      .ok (.whole (if negative then -n else n), rest) := by
  obtain ⟨d, ds, hd⟩ := List.exists_cons_of_ne_nil (Decimal.digits_ne_nil n)
  have small : ∀ e ∈ d :: ds, e < 10 := fun e he => Decimal.digits_lt_ten (hd ▸ he)
  have first := small d List.mem_cons_self
  have tail := takeDigits_digitBytes (fun e he => small e (List.mem_cons_of_mem _ he)) ends
  rw [Decimal.bytes, hd, List.map_cons, List.cons_append]
  change readNumber negative (UInt8.ofNat (48 + d) :: (digitBytes ds ++ rest)) = _
  rw [readNumber.eq_def]
  simp only
  by_cases zero : d = 0
  · subst zero
    obtain ⟨rfl, rfl⟩ := Decimal.digits_of_zero_cons hd
    rw [if_pos (by decide)]
    cases rest with
    | nil => exact readTail_of_numberEnd signed ends
    | cons c r =>
      change (if isDigit c then _ else _) = _
      rw [(ends c rfl).1]
      exact readTail_of_numberEnd signed ends
  · have other : UInt8.ofNat (48 + d) ≠ 48 := by
      intro same
      have := digitOf_ofNat first
      rw [same] at this
      exact zero this.symm
    rw [if_neg other, if_pos (isDigit_ofNat first), tail, digitOf_ofNat first, ← hd,
      absorb_digits fits]
    exact readTail_of_numberEnd signed ends

theorem hexValue?_hexDigitByte :
    ∀ {n : Nat}, n < 16 → Bytes.hexValue? (hexDigitByte n) = some n := by
  decide

theorem utf8EncodeChar_control :
    ∀ {n : Nat}, n < 32 → String.utf8EncodeChar (Char.ofNat n) = [UInt8.ofNat n] := by
  decide

theorem unicodeEscape_control {b : UInt8} (control : b < 32) (s : Bytes) :
    unicodeEscape (48 :: 48 :: hexDigitByte (b.toNat / 16) :: hexDigitByte (b.toNat % 16) :: s) =
      .ok ([b], s) := by
  have small : b.toNat < 32 := control
  have quad : hexQuad (48 :: 48 :: hexDigitByte (b.toNat / 16) ::
      hexDigitByte (b.toNat % 16) :: s) = .ok (b.toNat, s) := by
    have zero : Bytes.hexValue? 48 = some 0 := by decide
    simp only [hexQuad, zero, hexValue?_hexDigitByte (show b.toNat / 16 < 16 by omega),
      hexValue?_hexDigitByte (show b.toNat % 16 < 16 by omega)]
    rw [show ((0 * 16 + 0) * 16 + b.toNat / 16) * 16 + b.toNat % 16 = b.toNat by omega]
  simp only [unicodeEscape, quad]
  rw [if_neg (by omega), if_pos (by omega), utf8EncodeChar_control small, UInt8.ofNat_toNat]

/-- What an octet is written as is read as that octet. -/
theorem unescape_escapeByte (b : UInt8) (s : Bytes) :
    unescape (escapeByte b ++ s) = (unescape s).map fun p => (b :: p.1, p.2) := by
  have escaped (e : Bytes) (h : readEscape (e ++ s) = .ok ([b], s)) :
      unescape (92 :: (e ++ s)) = (unescape s).map fun p => (b :: p.1, p.2) := by
    rw [unescape]
    simp only [show ¬ (92 : UInt8) = 34 by decide, ↓reduceIte]
    split
    · next e he =>
      rw [h] at he
      cases he
    · next bs s' he =>
      rw [h] at he
      cases he
      cases unescape s <;> rfl
  unfold escapeByte
  split
  · next h => exact escaped [34] (by rw [h]; rfl)
  split
  · next h => exact escaped [92] (by rw [h]; rfl)
  split
  · next h => exact escaped [98] (by rw [h]; rfl)
  split
  · next h => exact escaped [116] (by rw [h]; rfl)
  split
  · next h => exact escaped [110] (by rw [h]; rfl)
  split
  · next h => exact escaped [102] (by rw [h]; rfl)
  split
  · next h => exact escaped [114] (by rw [h]; rfl)
  split
  · next control =>
    exact escaped [117, 48, 48, hexDigitByte (b.toNat / 16), hexDigitByte (b.toNat % 16)]
      (unicodeEscape_control control s)
  · next quote backslash _ _ _ _ _ control =>
    rw [List.singleton_append, unescape, if_neg quote, if_neg backslash, if_neg control]
    cases unescape s <;> rfl

theorem unescape_escape (bs : Bytes) :
    unescape (escape bs ++ 34 :: rest) = .ok (bs, rest) := by
  induction bs with
  | nil =>
    change unescape (34 :: rest) = _
    rw [unescape, if_pos rfl]
  | cons b bs ih =>
    rw [escape, List.flatMap_cons, List.append_assoc, unescape_escapeByte]
    change (unescape (escape bs ++ 34 :: rest)).map _ = _
    rw [ih]
    rfl

/-- A text after its opening quote. -/
theorem readText_printText (s : String) :
    readText (escape (Bytes.ofString s) ++ 34 :: rest) = .ok (s, rest) := by
  simp only [readText, unescape_escape, Bytes.toString?_ofString]

end Json.Reading
end DocumentClient
