import DocumentClient.Bytes

/-!
# The order of texts is that of their octets

A code point with a greater number has a greater UTF-8 encoding, and none of the two encodings
begins with the other one. So texts compare as their octets do, octet by octet
(`ofString_lt_iff`): what is ordered by code points is ordered by octets.
-/

namespace DocumentClient.Bytes

theorem ofString_eq (s : String) : ofString s = s.toList.flatMap String.utf8EncodeChar := by
  rw [ofString, String.toUTF8_eq_toByteArray, ← String.utf8Encode_toList, List.utf8Encode,
    List.toList_data_toByteArray]

theorem cons_lt_cons_iff {m n : Nat} (hm : m < 256) (hn : n < 256) (s t : Bytes) :
    UInt8.ofNat m :: s < UInt8.ofNat n :: t ↔ m < n ∨ m = n ∧ s < t := by
  rw [List.cons_lt_cons_iff, ← UInt8.toNat_inj, UInt8.lt_iff_toNat_lt,
    UInt8.toNat_ofNat_of_lt' hm, UInt8.toNat_ofNat_of_lt' hn]

/-- The encodings of two code points differ in the same sense, before either of them ends. -/
theorem encode_lt {c d : Char} (below : c < d) (s t : Bytes) :
    String.utf8EncodeChar c ++ s < String.utf8EncodeChar d ++ t := by
  have order : c.val.toNat < d.val.toNat := below
  have top : d.val.toNat < 0x110000 := by
    rcases d.valid with low | high
    · exact Nat.lt_trans low (by decide)
    · exact high.2
  unfold String.utf8EncodeChar
  dsimp only
  generalize c.val.toNat = m at *
  generalize d.val.toNat = n at *
  -- six bits to an octet: the divisions are brought to nested ones, which are linear
  have shifts (k : Nat) (bound : k < 0x110000) :
      k / 64 / 64 = k / 4096 ∧ k / 4096 / 64 = k / 262144 ∧ k / 262144 / 8 = 0 :=
    ⟨Nat.div_div_eq_div_mul k 64 64, Nat.div_div_eq_div_mul k 4096 64, by omega⟩
  have lower := shifts m (by omega)
  have upper := shifts n top
  -- one case for each pair of lengths; a longer encoding has the greater first octet
  repeat' split
  all_goals
    simp (disch := omega) only [List.cons_append, List.nil_append, cons_lt_cons_iff]
    omega

theorem flatMap_encode_lt {cs ds : List Char} (below : cs < ds) :
    cs.flatMap String.utf8EncodeChar < ds.flatMap String.utf8EncodeChar := by
  induction cs generalizing ds with
  | nil =>
    cases ds with
    | nil => exact absurd below (List.lt_irrefl _)
    | cons d ds =>
      rw [List.flatMap_nil, List.flatMap_cons]
      cases encoded : String.utf8EncodeChar d with
      | nil => exact absurd encoded String.utf8EncodeChar_ne_nil
      | cons b s => exact List.nil_lt_cons _ _
  | cons c cs ih =>
    cases ds with
    | nil => exact absurd below (List.not_lt_nil _)
    | cons d ds =>
      rw [List.flatMap_cons, List.flatMap_cons]
      rcases List.cons_lt_cons_iff.mp below with first | ⟨rfl, rest⟩
      · exact encode_lt first _ _
      · exact List.append_left_lt (ih rest)

theorem ofString_lt_iff {s t : String} : ofString s < ofString t ↔ s < t := by
  rw [ofString_eq, ofString_eq, String.lt_iff]
  refine ⟨fun below => ?_, flatMap_encode_lt⟩
  apply Decidable.byContradiction
  intro other
  rcases List.le_iff_lt_or_eq.mp (List.not_lt.mp other) with above | same
  · exact List.lt_asymm below (flatMap_encode_lt above)
  · rw [same] at below
    exact List.lt_irrefl _ below

end DocumentClient.Bytes
