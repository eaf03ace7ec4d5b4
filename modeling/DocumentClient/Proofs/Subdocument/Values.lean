import DocumentClient.Error
import DocumentClient.Proofs.Json.RoundTrip
import DocumentClient.Proofs.Requests.Parts

/-!
# The values of a mutation arrive as they are

A mutation of a path sends the texts of its values with commas between them. In brackets that is
the text of one array, so it is read back as the list of the values, whatever commas and brackets
they hold themselves. Specs come from a constructor for their operation or from its name; the two
ways agree. Main statement: `MutateSpec.values_sent`.
-/

namespace DocumentClient

/-- The operations on arrays. They take any number of values. -/
def MutateOp.onArrays : List MutateOp := [.arrayAppend, .arrayPrepend, .arrayInsert]

theorem MutateOp.takesSeveral_iff {op : MutateOp} : op.takesSeveral = true ↔ op ∈ onArrays := by
  cases op <;> decide

theorem MutateOp.carriesValue_iff {op : MutateOp} : op.carriesValue = true ↔ op ≠ .remove := by
  cases op <;> decide

theorem MutateOp.ofLabel_name (op : MutateOp) : ofLabel op.name = .ok op := by
  cases op <;> rfl

/-- Several values in brackets are read back as an array of these. -/
theorem Json.parse_bracketed {values : List Json.Value}
    (each : ∀ v ∈ values, v.Exact ∧ v.depth ≤ 126) :
    parse (Bytes.ofString "[" ++ printItems values ++ Bytes.ofString "]") =
      .ok (.array values) := by
  have exact : (Value.array values).Exact := .array fun v mem => (each v mem).1
  have shallow : (Value.array values).depth ≤ Reader.maxDepth := by
    have inner := Value.depthItems_le_iff.mpr fun v mem => (each v mem).2
    rw [Value.depth, Reader.maxDepth]
    omega
  have brackets : Bytes.ofString "[" ++ printItems values ++ Bytes.ofString "]" =
      (Value.array values).print := by
    rw [Value.print]
    rfl
  rw [brackets, parse_print exact shallow]

namespace MutateSpec
variable {spec : MutateSpec}

/-- What the content of a request tells of a spec. -/
structure Tells (spec : MutateSpec) (content : Bytes) : Prop where
  removal : spec.op = .remove → content = []
  /-- In brackets the content is an array of the values, in their order. -/
  onArrays : spec.op ∈ MutateOp.onArrays →
    Json.parse (Bytes.ofString "[" ++ content ++ Bytes.ofString "]") = .ok (.array spec.values)
  single : spec.op ≠ .remove → spec.op ∉ MutateOp.onArrays →
    ∃ v, spec.values = [v] ∧ Json.parse content = .ok v

/-- Operations on one value are given exactly one. -/
theorem values_of_single (carries : spec.op ≠ .remove) (one : spec.op ∉ MutateOp.onArrays) :
    ∃ v, spec.values = [v] := by
  have counted := spec.counted
  rw [MutateOp.takes, MutateOp.carriesValue_iff.mpr carries, Bool.or_eq_true,
    MutateOp.takesSeveral_iff] at counted
  have length : spec.values.length = 1 := by simpa using counted.resolve_left one
  exact List.length_eq_one_iff.mp length

/-- A spec that lacks a value, or the delta of a counter: a signed number other than zero. -/
def Unsendable (spec : MutateSpec) : Prop :=
  (spec.op ≠ .remove ∧ spec.values = []) ∨
    (spec.op = .counter ∧ ¬ ∃ n : Int, spec.values = [.number (.whole n)] ∧ n ≠ 0 ∧
      -2 ^ 63 ≤ n ∧ n < 2 ^ 63)

theorem content_of_remove (removes : spec.op = .remove) : spec.content = .ok [] := by
  rw [content, removes]
  rfl

/-- A counter is given one value, which has to be a delta. -/
theorem unsendable_of_counter {v : Json.Value} {rest : List Json.Value}
    (counts : spec.op = .counter) (given : spec.values = v :: rest) :
    spec.Unsendable ↔ ¬ isDelta v = true := by
  obtain ⟨w, one⟩ := values_of_counter counts
  rw [given] at one
  obtain ⟨rfl, rfl⟩ := List.cons.inj one
  rw [isDelta_iff, Unsendable, given]
  simp [counts]

theorem unsendable_of_other {v : Json.Value} {rest : List Json.Value} (other : spec.op ≠ .counter)
    (given : spec.values = v :: rest) : ¬ spec.Unsendable := by
  rintro (⟨-, none⟩ | ⟨counts, -⟩)
  · rw [given] at none
    cases none
  · exact other counts

/-- What a spec with values comes to: their texts, or a refusal. -/
theorem content_of_carries (carries : spec.op ≠ .remove) :
    (¬ spec.Unsendable ∧ spec.content = .ok (Json.printItems spec.values)) ∨
      (spec.Unsendable ∧ ∃ why, spec.content = .error why) := by
  rw [content, if_pos (MutateOp.carriesValue_iff.mpr carries)]
  cases given : spec.values with
  | nil => exact .inr ⟨.inl ⟨carries, given⟩, _, rfl⟩
  | cons v rest =>
    dsimp only
    by_cases counts : spec.op = .counter
    · by_cases delta : isDelta v = true
      · rw [if_neg fun both => both.2 delta]
        exact .inl ⟨fun lacks => (unsendable_of_counter counts given).mp lacks delta, rfl⟩
      · rw [if_pos ⟨counts, delta⟩]
        exact .inr ⟨(unsendable_of_counter counts given).mpr delta, _, rfl⟩
    · rw [if_neg fun both => counts both.1]
      exact .inl ⟨unsendable_of_other counts given, rfl⟩

theorem tells_of_content {content : Bytes}
    (each : ∀ v ∈ spec.values, v.Exact ∧ v.depth ≤ 126) (made : spec.content = .ok content) :
    spec.Tells content := by
  by_cases removes : spec.op = .remove
  · rw [content_of_remove removes] at made
    cases made
    refine ⟨fun _ => rfl, fun array => ?_, fun carries => absurd removes carries⟩
    rw [removes] at array
    exact absurd array (by decide)
  · obtain ⟨-, texts⟩ | ⟨-, why, refused⟩ := content_of_carries removes
    · obtain rfl := Except.ok.inj (made.symm.trans texts)
      refine ⟨fun removal => absurd removal removes, fun _ => Json.parse_bracketed each, ?_⟩
      intro carries one
      obtain ⟨v, given⟩ := values_of_single carries one
      rw [given, List.forall_mem_singleton] at each
      refine ⟨v, given, ?_⟩
      rw [given]
      exact Json.parse_print each.1 (Nat.le_succ_of_le each.2)
    · rw [refused] at made
      cases made

theorem toWire_eq_ok {w : Wire.MutateSpec} (made : spec.toWire = .ok w) :
    spec.content = .ok w.content := by
  rw [toWire] at made
  split at made
  · cases made
  · next content given =>
    cases made
    exact given

theorem toWire_ok (sendable : ¬ spec.Unsendable) : ∃ w, spec.toWire = .ok w := by
  have made : ∃ content, spec.content = .ok content := by
    by_cases removes : spec.op = .remove
    · exact ⟨_, content_of_remove removes⟩
    · obtain ⟨-, texts⟩ | ⟨lacks, -⟩ := content_of_carries removes
      · exact ⟨_, texts⟩
      · exact absurd lacks sendable
  obtain ⟨content, made⟩ := made
  rw [toWire, made]
  exact ⟨_, rfl⟩

theorem toWire_refused (lacks : spec.Unsendable) : ∃ why, spec.toWire = .error why := by
  have carries : spec.op ≠ .remove := by
    rcases lacks with ⟨carries, -⟩ | ⟨counts, -⟩
    · exact carries
    · rw [counts]
      decide
  obtain ⟨sendable, -⟩ | ⟨-, why, refused⟩ := content_of_carries carries
  · exact absurd lacks sendable
  · rw [toWire, refused]
    exact ⟨why, rfl⟩

/-- The conversion is refused, as a fault of the arguments, exactly if something is missing. -/
theorem refused_iff : (∃ e, orRefuse .spec spec.toWire = .error e ∧ e.kind = .invalidArgument) ↔
    spec.Unsendable := by
  constructor
  · rintro ⟨e, refused, -⟩
    by_contra sendable
    obtain ⟨w, made⟩ := toWire_ok sendable
    rw [made] at refused
    cases refused
  · intro lacks
    obtain ⟨why, refused⟩ := toWire_refused lacks
    rw [refused]
    exact ⟨_, rfl, rfl⟩

/-- What a value stands for where several are taken: an array for its items. -/
def spread : Json.Value → List Json.Value
  | .array items => items
  | v => [v]

/-- The spec that the constructor of an operation makes of a value. A counter has two of them. -/
inductive Dedicated (path : String) : MutateOp → Json.Value → MutateSpec → Prop where
  | insert (v : Json.Value) : Dedicated path .insert v (.insert path v)
  | upsert (v : Json.Value) : Dedicated path .upsert v (.upsert path v)
  | replace (v : Json.Value) : Dedicated path .replace v (.replace path v)
  | remove (v : Json.Value) : Dedicated path .remove v (.remove path)
  | arrayAppend (v : Json.Value) : Dedicated path .arrayAppend v (.arrayAppend path (spread v))
  | arrayPrepend (v : Json.Value) : Dedicated path .arrayPrepend v (.arrayPrepend path (spread v))
  | arrayInsert (v : Json.Value) : Dedicated path .arrayInsert v (.arrayInsert path (spread v))
  | arrayAddUnique (v : Json.Value) : Dedicated path .arrayAddUnique v (.arrayAddUnique path v)
  | increment (delta : UInt64) :
    Dedicated path .counter (.number (.whole delta.toNat)) (.increment path delta)
  | decrement {delta : UInt64} (signed : delta.toNat < 0x8000000000000000) :
    Dedicated path .counter (.number (.whole (-(delta.toNat : Int)))) (.decrement path delta)
  | decrementTooFar {delta : UInt64} (unsigned : 0x8000000000000000 ≤ delta.toNat) :
    Dedicated path .counter .null (.decrement path delta)

/-- The values that an operation is given for a value. -/
def valuesFor (op : MutateOp) (v : Json.Value) : List Json.Value :=
  if op = .remove then [] else if op ∈ MutateOp.onArrays then spread v else [v]

/-- The spec for the name of an operation and a value. -/
theorem ofLabel_spec (op : MutateOp) (path : String) (v : Json.Value) :
    ∃ spec, ofLabel op.name path (some v) = .ok spec ∧ spec.op = op ∧ spec.path = path ∧
      spec.values = valuesFor op v ∧ spec.createPath = false ∧ spec.xattr = false := by
  rw [ofLabel, MutateOp.ofLabel_name]
  cases op <;> cases v <;> exact ⟨_, rfl, rfl, rfl, rfl, rfl, rfl⟩

theorem ofLabel_of_dedicated {path : String} {op : MutateOp} {v : Json.Value}
    (made : Dedicated path op v spec) : ofLabel op.name path (some v) = .ok spec := by
  rw [ofLabel, MutateOp.ofLabel_name]
  cases made with
  | decrement signed => simp [decrement, signed, MutateOp.carriesValue]
  | decrementTooFar unsigned =>
    simp [decrement, Nat.not_lt.mpr unsigned, MutateOp.carriesValue]
  | increment delta => rfl
  | _ => cases v <;> rfl

/-- Any spec with values that are read back, whatever its flags, sends these values. A spec made by
name is the one that the constructor of the operation makes, arrays being spread for operations on
arrays and for no others. And the conversion is refused only for want of a value or of a delta. -/
theorem values_sent :
    (∀ (spec : MutateSpec) (w : Wire.MutateSpec),
      (∀ v ∈ spec.values, v.Exact ∧ v.depth ≤ 126) → spec.toWire = .ok w → spec.Tells w.content) ∧
    (∀ path op v spec, Dedicated path op v spec → ofLabel op.name path (some v) = .ok spec) ∧
    (∀ (op : MutateOp) path v, ∃ spec, ofLabel op.name path (some v) = .ok spec ∧ spec.op = op ∧
      spec.path = path ∧ spec.values = valuesFor op v ∧ spec.createPath = false ∧
        spec.xattr = false) ∧
    ∀ spec : MutateSpec,
      ((∃ e, orRefuse .spec spec.toWire = .error e ∧ e.kind = .invalidArgument) ↔
        spec.Unsendable) ∧
      (¬ spec.Unsendable → ∃ w, spec.toWire = .ok w) :=
  ⟨fun _ _ each made => tells_of_content each (toWire_eq_ok made),
    fun _ _ _ _ made => ofLabel_of_dedicated made, fun op path v => ofLabel_spec op path v,
    fun _ => ⟨refused_iff, toWire_ok⟩⟩

theorem values_sent_of_nested :
    let items : List Json.Value := [.text "a, b]", .array [.number (.whole 1), .null]]
    let spec : MutateSpec := { arrayAppend "tags" items with createPath := true, xattr := true }
    ∃ w, spec.toWire = .ok w ∧
      Json.parse (Bytes.ofString "[" ++ w.content ++ Bytes.ofString "]") = .ok (.array items) ∧
      ofLabel "array_append" "tags" (some (.array items)) = .ok (arrayAppend "tags" items) := by
  intro items spec
  have each : ∀ v ∈ items, v.Exact ∧ v.depth ≤ 126 := by
    refine List.forall_mem_cons.mpr ⟨⟨.text "a, b]", by decide⟩, ?_⟩
    refine List.forall_mem_singleton.mpr ⟨.array ?_, by decide⟩
    exact List.forall_mem_cons.mpr
      ⟨.whole (by decide) (by decide), List.forall_mem_singleton.mpr .null⟩
  obtain ⟨sends, byName, -, -⟩ := values_sent
  have made : ∃ w, spec.toWire = .ok w := ⟨_, rfl⟩
  obtain ⟨w, made⟩ := made
  have tells : spec.Tells w.content := sends spec w each made
  exact ⟨w, made, tells.onArrays (.head _), byName _ _ _ _ (.arrayAppend (.array items))⟩

end MutateSpec
end DocumentClient
