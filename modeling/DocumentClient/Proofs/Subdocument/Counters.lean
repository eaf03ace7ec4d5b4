import DocumentClient.Proofs.Decimal
import DocumentClient.Proofs.Subdocument.Values
import Mathlib.Algebra.Ring.Nat

/-!
# Counter deltas keep sign and magnitude

A delta is given as an unsigned number and a direction, or as any JSON value, and is sent as one
signed numeral. What cannot be sent as such without a change is refused: zero, a magnitude that 63
bits do not hold, and a value that is no whole number. Main statement: `MutateSpec.deltas_kept`.
-/

namespace DocumentClient

namespace MutateSpec
variable {spec : MutateSpec} {path : String} {v : Json.Value} {n : Int}

/-- The whole numbers of 63 bits and a sign, without zero. -/
def InDeltaRange (n : Int) : Prop := n ≠ 0 ∧ -2 ^ 63 ≤ n ∧ n ≤ 2 ^ 63 - 1

instance (n : Int) : Decidable (InDeltaRange n) := inferInstanceAs (Decidable (_ ∧ _))

/-- What is sent is this change of the path, as a numeral. -/
def Sends (spec : MutateSpec) (n : Int) : Prop :=
  spec.toWire = .ok
    { operation := MutateOp.counter.toWire
      path := spec.path
      content := Bytes.ofString (toString n) }

/-- Nothing is sent, for a fault of the arguments. -/
def Refused (spec : MutateSpec) : Prop :=
  ∃ e, orRefuse .spec spec.toWire = .error e ∧ e.kind = .invalidArgument

/-- A counter of one value with no flags. -/
structure CounterOf (spec : MutateSpec) (v : Json.Value) : Prop where
  counts : spec.op = .counter
  given : spec.values = [v]
  createPath : spec.createPath = false
  xattr : spec.xattr = false

theorem CounterOf.sends (counter : spec.CounterOf (.number (.whole n))) (delta : InDeltaRange n) :
    spec.Sends n := by
  obtain ⟨nonzero, least, most⟩ := delta
  have signed : isDelta (.number (.whole n)) = true :=
    isDelta_iff.mpr ⟨n, rfl, nonzero, least, by omega⟩
  have carries : spec.op ≠ .remove := by
    rw [counter.counts]
    decide
  have content : spec.content = .ok (Bytes.ofString (toString n)) := by
    obtain ⟨-, texts⟩ | ⟨lacks, -⟩ := content_of_carries carries
    · rw [texts, counter.given, ← Decimal.intBytes_eq]
      rfl
    · exact absurd signed ((unsendable_of_counter counter.counts counter.given).mp lacks)
  rw [Sends, toWire, content, counter.counts, counter.createPath, counter.xattr]
  rfl

theorem CounterOf.refused (counter : spec.CounterOf v)
    (none : ∀ n, v = .number (.whole n) → ¬ InDeltaRange n) : spec.Refused := by
  refine refused_iff.mpr (.inr ⟨counter.counts, ?_⟩)
  rintro ⟨n, given, nonzero, least, bound⟩
  rw [counter.given, List.singleton_inj] at given
  exact none n given ⟨nonzero, least, by omega⟩

theorem increment_counterOf (path : String) (delta : UInt64) :
    (increment path delta).CounterOf (.number (.whole delta.toNat)) :=
  ⟨rfl, rfl, rfl, rfl⟩

theorem decrement_counterOf (path : String) {delta : UInt64} (signed : delta.toNat ≤ 2 ^ 63 - 1) :
    (decrement path delta).CounterOf (.number (.whole (-delta.toNat))) := by
  have below : delta.toNat < 0x8000000000000000 := by omega
  exact ⟨rfl, by rw [decrement, if_pos below], rfl, rfl⟩

/-- A magnitude that has no negative counterpart is given up, not wrapped. -/
theorem decrement_counterOf_null (path : String) {delta : UInt64}
    (unsigned : ¬ delta.toNat ≤ 2 ^ 63 - 1) : (decrement path delta).CounterOf .null := by
  have above : ¬ delta.toNat < 0x8000000000000000 := by omega
  exact ⟨rfl, by rw [decrement, if_neg above], rfl, rfl⟩

theorem ofLabel_counterOf (path : String) (v : Json.Value) :
    ∃ spec, ofLabel "counter" path (some v) = .ok spec ∧ spec.path = path ∧ spec.CounterOf v := by
  obtain ⟨spec, made, op, place, values, createPath, xattr⟩ := ofLabel_spec .counter path v
  exact ⟨spec, made, place, op, values, createPath, xattr⟩

theorem increment_kept (path : String) (delta : UInt64) :
    (1 ≤ delta.toNat ∧ delta.toNat ≤ 2 ^ 63 - 1 → (increment path delta).Sends delta.toNat) ∧
      (¬ (1 ≤ delta.toNat ∧ delta.toNat ≤ 2 ^ 63 - 1) → (increment path delta).Refused) := by
  have counter := increment_counterOf path delta
  constructor
  · rintro ⟨positive, signed⟩
    exact counter.sends ⟨by omega, by omega, by omega⟩
  · intro outside
    refine counter.refused fun n same delta => ?_
    cases same
    obtain ⟨nonzero, least, most⟩ := delta
    exact outside ⟨by omega, by omega⟩

theorem decrement_kept (path : String) (delta : UInt64) :
    (1 ≤ delta.toNat ∧ delta.toNat ≤ 2 ^ 63 - 1 → (decrement path delta).Sends (-delta.toNat)) ∧
      (¬ (1 ≤ delta.toNat ∧ delta.toNat ≤ 2 ^ 63 - 1) → (decrement path delta).Refused) := by
  by_cases signed : delta.toNat ≤ 2 ^ 63 - 1
  · have counter := decrement_counterOf path signed
    constructor
    · rintro ⟨positive, -⟩
      exact counter.sends ⟨by omega, by omega, by omega⟩
    · intro outside
      refine counter.refused fun n same delta => ?_
      cases same
      exact outside ⟨by have := delta.1; omega, signed⟩
  · constructor
    · intro inside
      exact absurd inside.2 signed
    · intro _
      exact (decrement_counterOf_null path signed).refused nofun

/-- A delta is sent as it is, with the sign of its direction, exactly if 63 bits hold it and it is
not zero. A counter made by name takes the whole numbers of a sign and 63 bits without zero, and no
other value. -/
theorem deltas_kept (path : String) :
    (∀ delta : UInt64,
      (1 ≤ delta.toNat ∧ delta.toNat ≤ 2 ^ 63 - 1 →
        (increment path delta).Sends delta.toNat ∧ (decrement path delta).Sends (-delta.toNat)) ∧
      (¬ (1 ≤ delta.toNat ∧ delta.toNat ≤ 2 ^ 63 - 1) →
        (increment path delta).Refused ∧ (decrement path delta).Refused)) ∧
    ∀ v, ∃ spec, ofLabel "counter" path (some v) = .ok spec ∧ spec.path = path ∧
      (∀ n, v = .number (.whole n) → InDeltaRange n → spec.Sends n) ∧
      ((∀ n, v = .number (.whole n) → ¬ InDeltaRange n) → spec.Refused) := by
  constructor
  · intro delta
    have up := increment_kept path delta
    have down := decrement_kept path delta
    exact ⟨fun inside => ⟨up.1 inside, down.1 inside⟩,
      fun outside => ⟨up.2 outside, down.2 outside⟩⟩
  · intro v
    obtain ⟨spec, made, place, counter⟩ := ofLabel_counterOf path v
    refine ⟨spec, made, place, ?_, counter.refused⟩
    rintro n rfl delta
    exact counter.sends delta

theorem deltas_kept_at_bounds :
    (increment "n" 0x7FFFFFFFFFFFFFFF).Sends 9223372036854775807 ∧
      (decrement "n" 0x7FFFFFFFFFFFFFFF).Sends (-9223372036854775807) ∧
      (decrement "n" 0x8000000000000000).Refused ∧
      ∃ spec, ofLabel "counter" "n" (some (.number (.whole (-9223372036854775808)))) = .ok spec ∧
        spec.Sends (-9223372036854775808) := by
  obtain ⟨byDirection, byName⟩ := deltas_kept "n"
  obtain ⟨up, down⟩ := (byDirection 0x7FFFFFFFFFFFFFFF).1 (by decide)
  obtain ⟨spec, made, -, sends, -⟩ := byName (.number (.whole (-9223372036854775808)))
  refine ⟨up, down, ((byDirection 0x8000000000000000).2 (by decide)).2, spec, made, ?_⟩
  exact sends _ rfl (by decide)

end MutateSpec
end DocumentClient
