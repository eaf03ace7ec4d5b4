import DocumentClient.Proofs.Connection.Deadline

/-!
# Every text as the header of a deadline

What the reader does with a text is decided by its last character and by what stands before it. A
numeral of 64 bits with the letter of a unit is read as that many of them, unless its hours or
minutes exceed 64 bits as seconds. Any other text states nothing. But the text is cut before its
last octet, so it cannot end in a character of several. Main statement: `Deadline.read_eq_iff`.
-/

namespace DocumentClient

namespace TimeUnit
variable {unit : TimeUnit} {n : Nat}

theorem ofLetter?_eq_some_iff {c : Char} : ofLetter? c = some unit ↔ c = unit.letter := by
  constructor
  · intro found
    rw [ofLetter?] at found
    have same := List.find?_some found
    exact (of_decide_eq_true same).symm
  · rintro rfl
    exact ofLetter?_letter unit

theorem fits_iff : unit.fits n ↔
    (unit = .hour → n * 3600 < UInt64.size) ∧ (unit = .minute → n * 60 < UInt64.size) := by
  cases unit <;> simp [fits]

theorem not_fits_iff : ¬ unit.fits n ↔
    unit = .hour ∧ UInt64.size ≤ n * 3600 ∨ unit = .minute ∧ UInt64.size ≤ n * 60 := by
  cases unit <;> simp [fits]

end TimeUnit

namespace Deadline
variable {header : String} {amount : List Char} {last : Char} {n : Nat} {unit : TimeUnit}

/-- A numeral of 64 bits, which may have a plus sign, and the letter of a unit. -/
def States (header : String) (n : Nat) (unit : TimeUnit) : Prop :=
  ∃ digits, (header.toList = digits ++ [unit.letter] ∨
      header.toList = '+' :: digits ++ [unit.letter]) ∧
    Decimal.IsNumeral UInt64.size digits ∧ n = Decimal.value (digits.map Decimal.digitOf)

/-- What a text comes to as a header. -/
inductive Reading (header : String) : Except HeaderFault (Option Duration) → Prop where
  | time {n : Nat} {unit : TimeUnit} (states : States header n unit)
    (hours : unit = .hour → n * 3600 < UInt64.size)
    (minutes : unit = .minute → n * 60 < UInt64.size) :
    Reading header (.ok (some ⟨n * unit.nanoseconds⟩))
  | hours {n : Nat} (states : States header n .hour) (exceeds : UInt64.size ≤ n * 3600) :
    Reading header (.error .overflow)
  | minutes {n : Nat} (states : States header n .minute) (exceeds : UInt64.size ≤ n * 60) :
    Reading header (.error .overflow)
  /-- The last octet is not a character of its own. -/
  | split {before : List Char} {last : Char} (chars : header.toList = before ++ [last])
    (wide : 1 < last.utf8Size) : Reading header (.error .splitCharacter)
  | nothing (narrow : ∀ before last, header.toList = before ++ [last] → last.utf8Size = 1)
    (unstated : ∀ n unit, ¬ States header n unit) : Reading header (.ok none)

theorem states_iff (chars : header.toList = amount ++ [last]) :
    States header n unit ↔
      Decimal.read? UInt64.size amount = some n ∧ TimeUnit.ofLetter? last = some unit := by
  rw [States, Decimal.read?_eq_some_iff, TimeUnit.ofLetter?_eq_some_iff, chars]
  constructor
  · rintro ⟨digits, written, numeral, number⟩
    rcases written with written | written
    · obtain ⟨rfl, unit⟩ := List.append_inj' written rfl
      exact ⟨⟨amount, .inl rfl, numeral, number⟩, List.singleton_inj.mp unit⟩
    · obtain ⟨signed, unit⟩ := List.append_inj' written rfl
      exact ⟨⟨digits, .inr signed, numeral, number⟩, List.singleton_inj.mp unit⟩
  · rintro ⟨⟨digits, written, numeral, number⟩, rfl⟩
    refine ⟨digits, ?_, numeral, number⟩
    rcases written with rfl | rfl
    · exact .inl rfl
    · exact .inr rfl

theorem utf8ByteSize_of_last (chars : header.toList = amount ++ [last]) :
    header.utf8ByteSize = (String.ofList amount).utf8ByteSize + last.utf8Size := by
  have written : header = .ofList amount ++ .singleton last := by
    rw [← String.toList_inj, String.toList_append, String.toList_ofList, String.toList_singleton,
      chars]
  rw [written, String.utf8ByteSize_append, String.utf8ByteSize_singleton]

theorem reverse_of_last (chars : header.toList = amount ++ [last]) :
    header.toList.reverse = last :: amount.reverse := by
  rw [chars, List.reverse_append, List.reverse_singleton, List.singleton_append]

theorem read_of_wide (chars : header.toList = amount ++ [last]) (wide : 1 < last.utf8Size) :
    read header = .error .splitCharacter := by
  have size := utf8ByteSize_of_last chars
  have long : ¬ header.utf8ByteSize < 2 := by omega
  rw [read, if_neg long, reverse_of_last chars]
  exact if_pos wide

/-- A text of one octet is no exception: there is no numeral before the unit. -/
theorem read_of_narrow (chars : header.toList = amount ++ [last]) (narrow : ¬ 1 < last.utf8Size) :
    read header =
      (Decimal.read? UInt64.size amount).elim (.ok none) fun n =>
        (TimeUnit.ofLetter? last).elim (.ok none) fun unit =>
          if unit.fits n then .ok (some ⟨n * unit.nanoseconds⟩) else .error .overflow := by
  have size := utf8ByteSize_of_last chars
  have positive := last.utf8Size_pos
  by_cases short : header.utf8ByteSize < 2
  · have empty : (String.ofList amount).utf8ByteSize = 0 := by omega
    rw [String.utf8ByteSize_eq_zero_iff, ← String.toList_inj, String.toList_ofList] at empty
    obtain rfl : amount = [] := empty
    rw [read, if_pos short]
    rfl
  · rw [read, if_neg short, reverse_of_last chars]
    simp only [if_neg narrow, List.reverse_reverse]
    cases Decimal.read? UInt64.size amount <;> cases TimeUnit.ofLetter? last <;> rfl

theorem read_of_states (states : States header n unit) :
    read header =
      if unit.fits n then .ok (some ⟨n * unit.nanoseconds⟩) else .error .overflow := by
  obtain ⟨amount, chars⟩ : ∃ amount, header.toList = amount ++ [unit.letter] := by
    obtain ⟨digits, chars | chars, -⟩ := states
    · exact ⟨digits, chars⟩
    · exact ⟨_, chars⟩
  obtain ⟨number, letter⟩ := (states_iff chars).mp states
  have narrow : ¬ 1 < unit.letter.utf8Size := by
    rw [unit.utf8Size_letter]
    decide
  rw [read_of_narrow chars narrow, number, letter, Option.elim_some, Option.elim_some]

theorem read_of_unstated (chars : header.toList = amount ++ [last])
    (narrow : ¬ 1 < last.utf8Size) (unstated : ∀ n unit, ¬ States header n unit) :
    read header = .ok none := by
  rw [read_of_narrow chars narrow]
  cases number : Decimal.read? UInt64.size amount with
  | none => rfl
  | some n =>
    cases letter : TimeUnit.ofLetter? last with
    | none => rfl
    | some unit => exact absurd ((states_iff chars).mpr ⟨number, letter⟩) (unstated n unit)

theorem reading_of_states (states : States header n unit) : Reading header (read header) := by
  rw [read_of_states states]
  split
  · next fits =>
    obtain ⟨hours, minutes⟩ := TimeUnit.fits_iff.mp fits
    exact .time states hours minutes
  · next large =>
    rcases TimeUnit.not_fits_iff.mp large with ⟨rfl, exceeds⟩ | ⟨rfl, exceeds⟩
    · exact .hours states exceeds
    · exact .minutes states exceeds

theorem reading_of_unstated (chars : header.toList = amount ++ [last])
    (narrow : ¬ 1 < last.utf8Size) (unstated : ∀ n unit, ¬ States header n unit) :
    Reading header (read header) := by
  rw [read_of_unstated chars narrow unstated]
  refine .nothing ?_ unstated
  intro before given same
  rw [chars] at same
  obtain ⟨-, lasts⟩ := List.append_inj' same rfl
  obtain rfl := List.singleton_inj.mp lasts
  have positive := last.utf8Size_pos
  omega

theorem reading_empty : Reading "" (read "") := by
  refine .nothing ?_ ?_
  · intro before last chars
    exact absurd chars.symm (List.concat_ne_nil last before)
  · rintro n unit ⟨digits, chars, -⟩
    simp at chars

/-- The cases follow the reader: the last character, then the numeral and the unit. -/
theorem reading_read (header : String) : Reading header (read header) := by
  rcases List.eq_nil_or_concat header.toList with empty | ⟨amount, last, chars⟩
  · obtain rfl : header = "" := String.toList_inj.mp empty
    exact reading_empty
  rw [List.concat_eq_append] at chars
  by_cases wide : 1 < last.utf8Size
  · rw [read_of_wide chars wide]
    exact .split chars wide
  by_cases stated : ∃ n unit, States header n unit
  · obtain ⟨n, unit, states⟩ := stated
    exact reading_of_states states
  · refine reading_of_unstated chars wide ?_
    intro n unit states
    exact stated ⟨n, unit, states⟩

/-- Every text comes to what is said of it here, and to nothing else. -/
theorem read_eq_iff (header : String) (r : Except HeaderFault (Option Duration)) :
    read header = r ↔ Reading header r := by
  constructor
  · rintro rfl
    exact reading_read header
  · intro reading
    cases reading with
    | time states hours minutes =>
      rw [read_of_states states, if_pos (TimeUnit.fits_iff.mpr ⟨hours, minutes⟩)]
    | hours states exceeds =>
      rw [read_of_states states, if_neg (TimeUnit.not_fits_iff.mpr (.inl ⟨rfl, exceeds⟩))]
    | minutes states exceeds =>
      rw [read_of_states states, if_neg (TimeUnit.not_fits_iff.mpr (.inr ⟨rfl, exceeds⟩))]
    | split chars wide => exact read_of_wide chars wide
    | nothing narrow unstated =>
      -- nothing else is left that the text may be read as
      have all := reading_read header
      generalize read header = r at all ⊢
      cases all with
      | time states | hours states | minutes states => exact absurd states (unstated _ _)
      | split chars wide => exact absurd (narrow _ _ chars) (Nat.ne_of_gt wide)
      | nothing => rfl

/-- Both faults, the second one for the least number of hours that exceeds 64 bits in seconds. -/
theorem read_faults :
    read "1é" = .error .splitCharacter ∧ read "5124095576030432H" = .error .overflow := by
  decide +kernel

end Deadline
end DocumentClient
