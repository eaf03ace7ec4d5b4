import DocumentClient.Proofs.Options.Acceptance

/-!
# Layers of options

Of two merged layers of options the later one wins where both set an option in the same way, and
where it sets the option as a keyword. A keyword of the earlier layer however stays on top of a
typed option of the later one: merged layers come to the typed options of both, with the keywords
of both on top. Main statement: `CallOptions.resolve_merge`.
-/

namespace DocumentClient

namespace Bag
variable {bag : Bag}

theorem nodup_names_overwrite (distinct : bag.names.Nodup) (later : Bag) :
    (bag.overwrite later).names.Nodup := nodup_names_insertAll distinct later.entries

theorem latest?_overwrite (distinct : bag.names.Nodup) (later : Bag) (name : String) :
    (bag.overwrite later).latest? name = (later.latest? name).or (bag.latest? name) := by
  rw [latest?_eq_get? (nodup_names_overwrite distinct later), get?_overwrite,
    latest?_eq_get? distinct]

end Bag

namespace CallOptions

/-- The options of a layer by name: the typed ones, with the keywords on top of them. -/
def layer (options : CallOptions) (operation : Operation) : Bag :=
  (options.toBag operation).overwrite options.overrides

theorem nodup_names_layer (options : CallOptions) (operation : Operation) :
    (options.layer operation).names.Nodup :=
  Bag.nodup_names_overwrite (options.nodup_names_toBag operation) options.overrides

/-- A layer has the values that count in it. -/
theorem get?_layer (options : CallOptions) {operation : Operation} {kind : OptionKind}
    (taken : kind ∈ operation.options) :
    (options.layer operation).get? kind.name = options.effective? kind :=
  options.effective_eq taken

theorem effective_layer (a b : CallOptions) {operation : Operation} {kind : OptionKind}
    (taken : kind ∈ operation.options) :
    effective (a.layer operation) (b.layer operation) kind =
      (b.effective? kind).or (a.effective? kind) := by
  rw [effective, Bag.get?_overwrite, Bag.latest?_eq_get? (b.nodup_names_layer operation),
    b.get?_layer taken, a.get?_layer taken]

theorem typed?_merge (a b : CallOptions) (kind : OptionKind) :
    (a.merge b).typed? kind = (b.typed? kind).or (a.typed? kind) := by
  cases kind <;> exact Option.map_or

variable {a : CallOptions}

/-- Keywords of either layer count before typed options of either. -/
theorem effective?_merge (distinct : a.overrides.names.Nodup) (b : CallOptions)
    (kind : OptionKind) :
    (a.merge b).effective? kind =
      ((b.overrides.latest? kind.name).or (a.overrides.latest? kind.name)).or
        ((b.typed? kind).or (a.typed? kind)) := by
  rw [effective?, typed?_merge]
  exact congrArg (Option.or · _) (Bag.latest?_overwrite distinct b.overrides kind.name)

/-- A keyword hides the option that the later layer sets, but not as a keyword. -/
def Hides (a b : CallOptions) (kind : OptionKind) : Prop :=
  a.overrides.latest? kind.name ≠ none ∧ b.overrides.latest? kind.name = none ∧
    b.typed? kind ≠ none

instance (a b : CallOptions) (kind : OptionKind) : Decidable (Hides a b kind) :=
  inferInstanceAs (Decidable (_ ∧ _ ∧ _))

/-- Where no keyword hides it, an option has its value of the later layer, if there is one. -/
theorem effective?_merge_of_not_hides (distinct : a.overrides.names.Nodup) {b : CallOptions}
    {kind : OptionKind} (shown : ¬ a.Hides b kind) :
    (a.merge b).effective? kind = (b.effective? kind).or (a.effective? kind) := by
  rw [effective?_merge distinct, effective?, effective?]
  cases hb : b.overrides.latest? kind.name with
  | some v => rfl
  | none =>
    cases ha : a.overrides.latest? kind.name with
    | none => rfl
    | some v =>
      cases ht : b.typed? kind with
      | none => rfl
      | some typed => exact absurd ⟨by simp [ha], hb, by simp [ht]⟩ shown

/-- Two merged layers are resolved as the typed options of both with the keywords of both on top
of them; and, unless a keyword of the first one hides an option of the second one, as the second
one on top of the first. -/
theorem resolve_merge (distinct : a.overrides.names.Nodup) (b : CallOptions)
    (operation : Operation) :
    ((a.merge b).resolve operation).toOption =
      (DocumentClient.resolve operation ((a.toBag operation).overwrite (b.toBag operation))
        (a.overrides.overwrite b.overrides)).toOption ∧
    ((∀ kind ∈ operation.options, ¬ a.Hides b kind) →
      ((a.merge b).resolve operation).toOption =
        (DocumentClient.resolve operation (a.layer operation) (b.layer operation)).toOption) := by
  have merged := (a.merge b).nodup_names_toBag operation
  have typed := a.nodup_names_toBag operation
  constructor
  · apply resolve_congr merged (Bag.nodup_names_overwrite typed (b.toBag operation))
    intro kind taken
    rw [effective_eq _ taken, effective?_merge distinct, effective, Bag.get?_overwrite,
      Bag.get?_overwrite, Bag.latest?_overwrite distinct,
      Bag.latest?_eq_get? (b.nodup_names_toBag operation), b.get?_toBag taken, a.get?_toBag taken]
  · intro shown
    apply resolve_congr merged (a.nodup_names_layer operation)
    intro kind taken
    rw [effective_eq _ taken, effective?_merge_of_not_hides distinct (shown kind taken),
      effective_layer a b taken]

theorem resolve_merge_of_replace :
    let a : CallOptions :=
      { timeout := some (.ofSeconds 1), cas := some 10
        overrides := .ofEntries [("expiry", .duration (.ofSeconds 5))] }
    let b : CallOptions :=
      { cas := some 20, overrides := .ofEntries [("expiry", .int 7), ("durability", .text "none")] }
    ((a.merge b).resolve .replace).toOption =
      (DocumentClient.resolve .replace (a.layer .replace) (b.layer .replace)).toOption ∧
    ((a.merge b).resolve .replace).toOption.map
      (fun fields => (fields.u64? .timeoutMicros, fields.u64? .cas, fields.u32? .expirySecs)) =
        some (some 1000000, some 20, some 7) := by
  intro a b
  have shown : ∀ kind ∈ Operation.replace.options, ¬ a.Hides b kind := by decide
  have distinct : a.overrides.names.Nodup := by decide
  constructor
  · exact (resolve_merge distinct b .replace).2 shown
  · decide

/-- A keyword of the first layer hides a typed option of the second one. -/
theorem resolve_merge_hides_timeout :
    let a : CallOptions := { overrides := .ofEntries [("timeout", .duration (.ofSeconds 1))] }
    let b : CallOptions := { timeout := some (.ofSeconds 2) }
    ((a.merge b).resolve .get).toOption.map (·.u64? .timeoutMicros) = some (some 1000000) ∧
    (DocumentClient.resolve .get (a.layer .get) (b.layer .get)).toOption.map
      (·.u64? .timeoutMicros) = some (some 2000000) := by
  decide

end CallOptions
end DocumentClient
