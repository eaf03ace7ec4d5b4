import DocumentClient.Proofs.Decimal
import DocumentClient.Proofs.Options.Times

/-!
# What a header says of a deadline

The number in a header is the time cut to whole units, so it is never more than the time itself.
The unit is the finest one that leaves at most eight digits: nothing is lost where that is the
nanosecond, and otherwise the next finer unit would have needed more digits, so that what is cut off
is less than one part in a hundred thousand. Main statement: `Deadline.read_header`.
-/

namespace DocumentClient

namespace TimeUnit

theorem ofLetter?_letter (unit : TimeUnit) : ofLetter? unit.letter = some unit := by
  cases unit <;> decide

theorem utf8Size_letter (unit : TimeUnit) : unit.letter.utf8Size = 1 := by
  cases unit <;> decide

theorem nanoseconds_pos (unit : TimeUnit) : 0 < unit.nanoseconds := by
  cases unit <;> decide

/-- Units grow by a factor of a thousand at most. -/
theorem exists_finer {unit : TimeUnit} (coarse : unit ≠ .nanosecond) :
    ∃ finer : TimeUnit, finer.nanoseconds < unit.nanoseconds ∧
      unit.nanoseconds ≤ finer.nanoseconds * 1000 := by
  cases unit with
  | nanosecond => exact absurd rfl coarse
  | microsecond => exact ⟨.nanosecond, by decide, by decide⟩
  | millisecond => exact ⟨.microsecond, by decide, by decide⟩
  | second => exact ⟨.millisecond, by decide, by decide⟩
  | minute => exact ⟨.second, by decide, by decide⟩
  | hour => exact ⟨.minute, by decide, by decide⟩

/-- A number of eight digits is in range in every unit. -/
theorem fits_of_le (unit : TimeUnit) {amount : Nat} (h : amount ≤ Deadline.maxAmount) :
    unit.fits amount = true := by
  rw [Deadline.maxAmount] at h
  cases unit with
  | hour | minute =>
    simp only [fits, UInt64.size, decide_eq_true_eq]
    omega
  | _ => rfl

end TimeUnit

/-- A time announced for a limit: never a longer one, the same one if that takes eight digits, and
otherwise off by less than one part in a hundred thousand. -/
structure Duration.Announced (limit announced : Duration) : Prop where
  le : announced.nanoseconds ≤ limit.nanoseconds
  exact_of_le : limit.nanoseconds ≤ Deadline.maxAmount → announced = limit
  close : announced ≠ limit →
    (limit.nanoseconds - announced.nanoseconds) * 100000 < limit.nanoseconds
  /-- A time that is left is not announced as none. -/
  positive : 0 < limit.nanoseconds → 0 < announced.nanoseconds

namespace Deadline

/-- In every finer unit a time has too many digits. -/
theorem lt_of_finer {d : Duration} {unit finer : TimeUnit} (h : unit? d = some unit)
    (smaller : finer.nanoseconds < unit.nanoseconds) :
    maxAmount < d.nanoseconds / finer.nanoseconds := by
  rw [unit?, List.find?_eq_some_iff_append] at h
  obtain ⟨-, before, after, units, tooLong⟩ := h
  have increasing : TimeUnit.all.Pairwise fun a b => a.nanoseconds < b.nanoseconds := by decide
  rw [units, List.pairwise_append, List.pairwise_cons] at increasing
  have mem : finer ∈ before ++ unit :: after := by
    rw [← units]
    cases finer <;> decide
  rcases List.mem_append.mp mem with first | rest
  · simpa using tooLong finer first
  · rcases List.mem_cons.mp rest with same | last
    · rw [same] at smaller
      exact absurd smaller (Nat.lt_irrefl _)
    · exact absurd (increasing.2.1.1 finer last) (Nat.lt_asymm smaller)

theorem le_of_unit? {d : Duration} {unit : TimeUnit} (h : unit? d = some unit) :
    d.nanoseconds / unit.nanoseconds ≤ maxAmount := by
  rw [unit?] at h
  exact of_decide_eq_true (List.find?_some (p := fun unit : TimeUnit =>
    decide (d.nanoseconds / unit.nanoseconds ≤ maxAmount)) h)

/-- Of any unit but the finest a time has many: the next finer one is at least a thousandth of it,
and of those there are more than 99999999. -/
theorem le_of_coarse {d : Duration} {unit : TimeUnit} (h : unit? d = some unit)
    (coarse : unit ≠ .nanosecond) :
    maxAmount < d.nanoseconds ∧ unit.nanoseconds * 100000 ≤ d.nanoseconds := by
  obtain ⟨finer, smaller, near⟩ := TimeUnit.exists_finer coarse
  have positive := finer.nanoseconds_pos
  have many : (maxAmount + 1) * finer.nanoseconds ≤ d.nanoseconds :=
    (Nat.le_div_iff_mul_le positive).mp (lt_of_finer h smaller)
  rw [maxAmount] at *
  omega

/-- A time cut to whole units of the finest kind that is short enough. -/
theorem announced_of_unit? {d : Duration} {unit : TimeUnit} (h : unit? d = some unit) :
    d.Announced ⟨d.nanoseconds / unit.nanoseconds * unit.nanoseconds⟩ := by
  have whole := Nat.div_mul_le_self d.nanoseconds unit.nanoseconds
  by_cases finest : unit = .nanosecond
  · subst finest
    have same : (⟨d.nanoseconds / 1 * 1⟩ : Duration) = d := by rw [Nat.div_one, Nat.mul_one]
    simp only [TimeUnit.nanoseconds, same]
    exact ⟨Nat.le_refl _, fun _ => rfl, fun other => absurd rfl other, id⟩
  · obtain ⟨long, many⟩ := le_of_coarse h finest
    have cut : d.nanoseconds - d.nanoseconds / unit.nanoseconds * unit.nanoseconds <
        unit.nanoseconds := by
      have := Nat.div_add_mod d.nanoseconds unit.nanoseconds
      have := Nat.mod_lt d.nanoseconds unit.nanoseconds_pos
      rw [Nat.mul_comm]
      omega
    have close : (d.nanoseconds - d.nanoseconds / unit.nanoseconds * unit.nanoseconds) * 100000 <
        d.nanoseconds := by omega
    refine ⟨whole, fun short => absurd short (Nat.not_le.mpr long), fun _ => close, ?_⟩
    intro left
    change 0 < d.nanoseconds / unit.nanoseconds * unit.nanoseconds
    omega

/-- What is written for a number of units is read as that many of them. -/
theorem read_text (unit : TimeUnit) {amount : Nat} (short : amount ≤ maxAmount) :
    read (Decimal.text amount ++ unit.letter.toString) =
      .ok (some ⟨amount * unit.nanoseconds⟩) := by
  have chars : (Decimal.text amount ++ unit.letter.toString).toList.reverse =
      unit.letter :: ((Decimal.digits amount).map Decimal.digitChar).reverse := by
    simp [Decimal.text]
  have size : ¬ (Decimal.text amount ++ unit.letter.toString).utf8ByteSize < 2 := by
    have number : 0 < (Decimal.text amount).utf8ByteSize := by
      simp [Decimal.text, Nat.pos_iff_ne_zero, Decimal.digits_ne_nil]
    rw [String.utf8ByteSize_append]
    have letter : unit.letter.toString.utf8ByteSize = 1 := by cases unit <;> decide
    omega
  have inRange : amount < UInt64.size := by
    rw [maxAmount] at short
    rw [UInt64.size]
    omega
  rw [read, if_neg size, chars]
  simp only [unit.utf8Size_letter, Nat.lt_irrefl, if_false, List.reverse_reverse,
    Decimal.read?_digits inRange, unit.ofLetter?_letter, unit.fits_of_le short, if_true]

/-- The header of a time of at most 99999999 hours is read as the time that it announces. -/
theorem read_header {d : Duration} (short : d.hours ≤ maxAmount) :
    ∃ header announced, header? d = some header ∧ read header = .ok (some announced) ∧
      d.Announced announced := by
  obtain ⟨header, stated⟩ := Option.isSome_iff_exists.mp ((header?_isSome_iff d).mpr short)
  rw [header?, Option.map_eq_some_iff] at stated
  obtain ⟨unit, found, rfl⟩ := stated
  refine ⟨_, _, ?_, read_text unit (le_of_unit? found), announced_of_unit? found⟩
  rw [header?, found, Option.map_some]

example : header? ⟨99999999⟩ = some "99999999n" ∧ header? ⟨100000999⟩ = some "100000u" := by
  decide +kernel

end Deadline
end DocumentClient
