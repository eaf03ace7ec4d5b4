import DocumentClient.Proofs.Query.Freshness

/-!
# What a query asks of the indexes, after any edits

A query is edited by changes and by options set by name; an edit that is refused leaves it as it
was. Mutations to wait for go with the one consistency that no name or label leads to, and the
request for the query holds the mutations that were handed in last, or else the consistency that
was chosen after them. Main statement: `mode_of_edits`, for any edits of a query in any order.
-/

namespace DocumentClient

/-- A change made directly, or an option set by its name. -/
inductive QueryEdit where
  | change (c : QueryChange)
  | option (name : String) (v : Json.Value)

namespace QueryEdit

/-- The query after an edit. A name that is not that of an option edits nothing. -/
def perform (q : Query) : QueryEdit → Except QueryRefusal Query
  | .change c => q.change c
  | .option name v => (q.setOption name v).map (·.getD q)

/-- The change that an edit asks for, if it asks for one. -/
def change? : QueryEdit → Option QueryChange
  | .change c => some c
  | .option name v => (QueryChange.ofOption? name v).bind (·.toOption)

/-- Performs edits one after another, past those that are refused. Beside the last query stand the
changes that were made. -/
def performAll : List QueryEdit → Query → Query × List QueryChange
  | [], q => (q, [])
  | edit :: rest, q =>
    match edit.perform q with
    | .error _ => performAll rest q
    | .ok next => ((performAll rest next).1, edit.change?.toList ++ (performAll rest next).2)

end QueryEdit

namespace Query

theorem setOption_eq_some_iff {q next : Query} {name : String} {v : Json.Value} :
    q.setOption name v = .ok (some next) ↔
      ∃ c, QueryChange.ofOption? name v = some (.ok c) ∧ q.change c = .ok next := by
  rw [setOption]
  cases QueryChange.ofOption? name v with
  | none => simp
  | some read =>
    cases read with
    | error why => simp
    | ok c => cases hc : q.change c <;> simp [Except.map, hc]

theorem changeAll_singleton (q : Query) (c : QueryChange) : q.changeAll [c] = q.change c := by
  rw [changeAll_cons]
  cases q.change c <;> rfl

theorem changeAll_of_perform {q next : Query} {edit : QueryEdit}
    (h : edit.perform q = .ok next) : q.changeAll edit.change?.toList = .ok next := by
  cases edit with
  | change c => exact (q.changeAll_singleton c).trans h
  | option name v =>
    rw [QueryEdit.perform, setOption] at h
    rw [QueryEdit.change?]
    cases hr : QueryChange.ofOption? name v with
    | none =>
      rw [hr] at h
      exact h
    | some read =>
      rw [hr] at h
      cases read with
      | error why => cases h
      | ok c =>
        refine (q.changeAll_singleton c).trans ?_
        cases hc : q.change c with
        | error why =>
          simp only [hc] at h
          cases h
        | ok after =>
          simp only [hc] at h
          exact h

/-- Edits come to the changes that were made. -/
theorem changeAll_performAll (edits : List QueryEdit) (q : Query) :
    q.changeAll (QueryEdit.performAll edits q).2 = .ok (QueryEdit.performAll edits q).1 := by
  induction edits generalizing q with
  | nil => rfl
  | cons edit rest ih =>
    rw [QueryEdit.performAll]
    cases he : edit.perform q with
    | error why => exact ih q
    | ok next =>
      rw [changeAll_append, changeAll_of_perform he]
      exact ih next

/-- How a query begins: bare, or from an options object, whose changes are its first ones. -/
inductive Begins (statement : String) : Query → List QueryChange → Prop where
  | bare : Begins statement { statement } []
  | options {o : QueryOptions} {q : Query} (made : ofOptions statement o = .ok q) :
    Begins statement q o.changes

theorem Begins.changeAll {statement : String} {q : Query} {made : List QueryChange}
    (begun : Begins statement q made) : changeAll { statement } made = .ok q := by
  cases begun with
  | bare => rfl
  | options made =>
    rw [ofOptions] at made
    split at made
    · cases made
    · exact made

/-- A consistency takes the place of what was asked before, but for the one that goes with
mutations. -/
theorem freshness_of_consistency {q next : Query} {k : ScanConsistency}
    (h : q.change (.consistency k) = .ok next) :
    k ≠ .atPlus ∧ next.freshness.consistency? = some k ∧ next.freshness.state? = none := by
  cases k with
  | atPlus => cases h
  | notBounded | requestPlus =>
    cases h
    exact ⟨by decide, rfl, rfl⟩

/-- Mutations are handed in where no other consistency was chosen. -/
theorem freshness_of_consistentWith {q next : Query} {state : MutationState}
    (h : q.change (.consistentWith state) = .ok next) :
    state.tokens ≠ [] ∧
      (q.freshness.consistency? = none ∨ q.freshness.consistency? = some .atPlus) ∧
      next.freshness = .atLeast state := by
  rw [change] at h
  split at h
  · next freshness asked =>
    cases h
    cases hf : q.freshness with
    | notBounded | requestPlus =>
      rw [hf] at asked
      cases asked
    | unset | atLeast =>
      rw [hf, Freshness.consistentWith] at asked
      split at asked
      · cases asked
      · next filled =>
        cases asked
        refine ⟨?_, by simp [Freshness.consistency?], rfl⟩
        simpa [MutationState.isEmpty] using filled
  · cases h

/-- A consistency that is chosen is not the one that goes with mutations. -/
theorem consistency?_ne_atPlus {q next : Query} {k : ScanConsistency}
    (h : q.change (.consistency k) = .ok next) : next.freshness.consistency? ≠ some .atPlus := by
  obtain ⟨other, asked, -⟩ := freshness_of_consistency h
  rw [asked]
  exact fun same => other (Option.some.inj same)

/-- The mutations that were handed in last, with no consistency chosen after them. -/
def Awaits (made : List QueryChange) (state : MutationState) : Prop :=
  ∃ before after, made = before ++ .consistentWith state :: after ∧ ∀ c ∈ after, c.Plain

theorem changeAll_split {q next : Query} {before after : List QueryChange} {c : QueryChange}
    (h : q.changeAll (before ++ c :: after) = .ok next) :
    ∃ mid set, q.changeAll before = .ok mid ∧ mid.change c = .ok set ∧
      set.changeAll after = .ok next := by
  rw [changeAll_append] at h
  cases hb : q.changeAll before with
  | error why =>
    rw [hb] at h
    cases h
  | ok mid =>
    rw [hb] at h
    change mid.changeAll (c :: after) = .ok next at h
    rw [changeAll_cons] at h
    cases hc : mid.change c with
    | error why =>
      rw [hc] at h
      cases h
    | ok set =>
      rw [hc] at h
      exact ⟨mid, set, rfl, hc, h⟩

theorem freshness_of_plain {q next : Query} {made : List QueryChange}
    (plain : ∀ c ∈ made, c.Plain) (h : q.changeAll made = .ok next) :
    next.freshness = q.freshness :=
  (indifferent_changeAll plain).freshness_eq h

end Query

/-- Changes leave the freshness alone, or one of them is the last that does not. -/
theorem QueryChange.plain_or_last (made : List QueryChange) :
    (∀ c ∈ made, c.Plain) ∨
      ∃ before c after, made = before ++ c :: after ∧ ¬ c.Plain ∧ ∀ d ∈ after, d.Plain := by
  induction made with
  | nil => exact .inl (List.forall_mem_nil _)
  | cons first rest ih =>
    rcases ih with plain | ⟨before, c, after, rfl, decisive, plain⟩
    · by_cases hf : first.Plain
      · exact .inl (List.forall_mem_cons.mpr ⟨hf, plain⟩)
      · exact .inr ⟨[], first, rest, rfl, hf, plain⟩
    · exact .inr ⟨first :: before, c, after, rfl, decisive, plain⟩

namespace Query

/-- A query waits for the mutations that were handed in last and not replaced. -/
theorem state?_eq_some_iff {statement : String} {q : Query} {made : List QueryChange}
    (h : changeAll { statement } made = .ok q) (state : MutationState) :
    q.freshness.state? = some state ↔ Awaits made state := by
  constructor
  · intro waits
    rcases QueryChange.plain_or_last made with plain | ⟨before, c, after, rfl, decisive, plain⟩
    · rw [freshness_of_plain plain h] at waits
      cases waits
    · obtain ⟨mid, set, -, hc, ha⟩ := changeAll_split h
      rw [freshness_of_plain plain ha] at waits
      cases c with
      | consistency k =>
        rw [(freshness_of_consistency hc).2.2] at waits
        cases waits
      | consistentWith other =>
        rw [(freshness_of_consistentWith hc).2.2] at waits
        cases waits
        exact ⟨before, after, rfl, plain⟩
      | _ => exact absurd True.intro decisive
  · rintro ⟨before, after, rfl, plain⟩
    obtain ⟨mid, set, -, hc, ha⟩ := changeAll_split h
    rw [freshness_of_plain plain ha, (freshness_of_consistentWith hc).2.2]
    rfl

/-- Mutations that a query waits for are some. -/
theorem tokens_ne_nil {statement : String} {q : Query} {made : List QueryChange}
    (h : changeAll { statement } made = .ok q) {state : MutationState}
    (waits : q.freshness.state? = some state) : state.tokens ≠ [] := by
  obtain ⟨before, after, rfl, -⟩ := (state?_eq_some_iff h state).mp waits
  obtain ⟨mid, set, -, hc, -⟩ := changeAll_split h
  exact (freshness_of_consistentWith hc).1

/-- The options of these two names choose the consistency that their text is the label of. -/
theorem consistency_of_ofOption? {name : String} {v : Json.Value} {c : QueryChange}
    (named : name = "scan_consistency" ∨ name = "consistency")
    (h : QueryChange.ofOption? name v = some (.ok c)) :
    ∃ label k, v = .text label ∧ ScanConsistency.ofLabel label = .ok k ∧ c = .consistency k := by
  have read : QueryChange.ofOption? name v =
      some (((QueryChange.ofText name v).bind ScanConsistency.ofLabel).map .consistency) := by
    rcases named with rfl | rfl <;> simp [QueryChange.ofOption?]
  rw [read] at h
  cases v with
  | text label =>
    simp only [QueryChange.ofText, Json.Value.text?, Except.bind] at h
    cases hk : ScanConsistency.ofLabel label with
    | error why =>
      rw [hk] at h
      cases h
    | ok k =>
      rw [hk] at h
      cases h
      exact ⟨label, k, rfl, hk, rfl⟩
  | _ => cases h

/-- No option leads to the consistency that goes with mutations: those for the consistency choose
another one, and all others leave what is asked alone. -/
theorem freshness_of_setOption {q next : Query} {name : String} {v : Json.Value}
    (h : q.setOption name v = .ok (some next)) :
    if name = "scan_consistency" ∨ name = "consistency" then
      next.freshness.consistency? ≠ some .atPlus
    else next.freshness = q.freshness := by
  obtain ⟨c, read, made⟩ := setOption_eq_some_iff.mp h
  split
  · next named =>
    obtain ⟨label, k, -, -, rfl⟩ := consistency_of_ofOption? named read
    exact consistency?_ne_atPlus made
  · next other =>
    exact (indifferent_change (plain_of_ofOption? (not_or.mp other) read)).freshness_eq made

/-- However it is spelt, the label of that consistency is refused. -/
theorem setOption_of_atPlus (q : Query) {name label : String}
    (named : name = "scan_consistency" ∨ name = "consistency")
    (spelt : Text.lowerLabel label = "at_plus") :
    q.setOption name (.text label) = .error .atPlusByName := by
  have parsed : ScanConsistency.ofLabel label = .ok .atPlus := by
    simp [ScanConsistency.ofLabel, spelt]
  have read : QueryChange.ofOption? name (.text label) = some (.ok (.consistency .atPlus)) := by
    rcases named with rfl | rfl <;>
      simp [QueryChange.ofOption?, QueryChange.ofText, Json.Value.text?, Except.bind, Except.map,
        parsed]
  rw [setOption, read]
  rfl

end Query

/-- The consistency and the mutations to wait for as two settings. Nothing but the changes keeps
them in step. -/
structure ModeSettings where
  consistency : Option ScanConsistency := none
  state : Option MutationState := none

/-- A change of one of the settings, as far as the other one allows it. -/
def ModeSettings.change (s : ModeSettings) : QueryChange → Except QueryRefusal ModeSettings
  | .consistency k =>
    if k = .atPlus then .error .atPlusByName
    else .ok { s with consistency := some k, state := none }
  | .consistentWith state =>
    match s.consistency with
    | none | some .atPlus =>
      if state.isEmpty then .error .emptyState
      else .ok { s with consistency := some .atPlus, state := some state }
    | some other => .error (.combined other)
  | _ => .ok s

namespace Query

def settings (q : Query) : ModeSettings := ⟨q.freshness.consistency?, q.freshness.state?⟩

/-- A change of the freshness is one of the two settings, and is refused for the same reason. -/
theorem settings_of_decisive (q : Query) {c : QueryChange} (decisive : ¬ c.Plain) :
    (q.change c).map settings = q.settings.change c := by
  cases c with
  | consistency k => cases k <;> rfl
  | consistentWith state =>
    rw [change, settings]
    cases q.freshness with
    | notBounded | requestPlus => rfl
    | unset | atLeast =>
      cases he : state.isEmpty <;>
        simp [Freshness.consistentWith, ModeSettings.change, Freshness.consistency?, he, settings,
          Freshness.state?, Except.map]
  | _ => exact absurd True.intro decisive

theorem settings_of_change {q next : Query} {c : QueryChange} (h : q.change c = .ok next) :
    q.settings.change c = .ok next.settings := by
  by_cases plain : c.Plain
  · have kept : next.freshness = q.freshness := (indifferent_change plain).freshness_eq h
    rw [settings, settings, kept]
    cases c with
    | consistency | consistentWith => exact plain.elim
    | _ => rfl
  · rw [← settings_of_decisive q plain, h]
    rfl

/-- Changed one by one, the two settings come to those of the query. -/
theorem settings_of_changeAll {q next : Query} {made : List QueryChange}
    (h : q.changeAll made = .ok next) :
    made.foldlM ModeSettings.change q.settings = .ok next.settings := by
  induction made generalizing q with
  | nil =>
    cases h
    rfl
  | cons c rest ih =>
    rw [changeAll_cons] at h
    cases hc : q.change c with
    | error why =>
      rw [hc] at h
      cases h
    | ok mid =>
      rw [hc] at h
      rw [List.foldlM_cons, settings_of_change hc]
      exact ih h

/-- What a request says of the consistency and the mutations of a query with these changes. -/
structure SendsMode (q : Query) (made : List QueryChange) (request : Wire.QueryRequest) :
    Prop where
  exclusive : ¬ (request.scanConsistency.isSome ∧ request.consistentWith ≠ [])
  chosen : ∀ n, request.scanConsistency = some n ↔
    (n = 0 ∧ q.settings.consistency = some .notBounded) ∨
      (n = 1 ∧ q.settings.consistency = some .requestPlus)
  awaited : ∀ state, Awaits made state → request.consistentWith = state.toWire
  unawaited : (∀ state, ¬ Awaits made state) → request.consistentWith = []

theorem toWire_freshness {q : Query} {request : Wire.QueryRequest} (h : q.toWire = .ok request) :
    request.scanConsistency = q.freshness.toWire ∧
      request.consistentWith = q.freshness.tokens := by
  rw [toWire] at h
  split at h
  · cases h
  · cases h
    exact ⟨rfl, rfl⟩

theorem sendsMode {statement : String} {q : Query} {made : List QueryChange}
    (h : changeAll { statement } made = .ok q) {request : Wire.QueryRequest}
    (sent : q.toWire = .ok request) : SendsMode q made request := by
  obtain ⟨number, tokens⟩ := toWire_freshness sent
  constructor
  · rw [number, tokens]
    cases q.freshness <;> simp [Freshness.toWire, Freshness.tokens]
  · intro n
    rw [number, settings]
    cases q.freshness <;> simp [Freshness.toWire, Freshness.consistency?, eq_comm]
  · intro state awaits
    have waits := (state?_eq_some_iff h state).mpr awaits
    rw [tokens]
    cases hf : q.freshness with
    | atLeast other =>
      rw [hf] at waits
      cases waits
      rfl
    | _ =>
      rw [hf] at waits
      cases waits
  · intro none
    rw [tokens]
    cases hf : q.freshness with
    | atLeast state => exact absurd ((state?_eq_some_iff h state).mp (by rw [hf]; rfl)) (none state)
    | _ => rfl

/-- What holds of a query that came about by these changes. -/
structure ModeKept (q : Query) (made : List QueryChange) : Prop where
  settings : made.foldlM ModeSettings.change {} = .ok q.settings
  coupled : q.settings.consistency = some .atPlus ↔ ∃ state, q.settings.state = some state
  filled : ∀ state, q.settings.state = some state → state.tokens ≠ []
  /-- No option leads to the consistency of the mutations. -/
  unnamed : ∀ name v next, q.setOption name v = .ok (some next) →
    if name = "scan_consistency" ∨ name = "consistency" then
      next.settings.consistency ≠ some .atPlus
    else next.settings = q.settings
  /-- Nor does a consistency, whatever label it was read from. -/
  unchosen : ∀ k next, q.change (.consistency k) = .ok next →
    next.settings.consistency ≠ some .atPlus
  refused : ∀ name label, name = "scan_consistency" ∨ name = "consistency" →
    Text.lowerLabel label = "at_plus" → q.setOption name (.text label) = .error .atPlusByName
  shortWait : ∀ d, q.scanWait = some d → d.micros < UInt64.size
  sent : ∃ request, q.toWire = .ok request ∧ SendsMode q made request

/-- Whatever edits a query is put through, and whichever of them are refused. -/
theorem mode_of_edits {statement : String} {first : Query} {begun : List QueryChange}
    (start : Begins statement first begun) (edits : List QueryEdit) :
    ModeKept (QueryEdit.performAll edits first).1
      (begun ++ (QueryEdit.performAll edits first).2) := by
  have whole : changeAll { statement } (begun ++ (QueryEdit.performAll edits first).2) =
      .ok (QueryEdit.performAll edits first).1 := by
    rw [changeAll_append, start.changeAll]
    exact changeAll_performAll edits first
  have short : (QueryEdit.performAll edits first).1.ShortWait :=
    Built.shortWait ⟨statement, leads_of_changeAll whole⟩
  constructor
  · exact settings_of_changeAll whole
  · rw [settings]
    cases (QueryEdit.performAll edits first).1.freshness <;>
      simp [Freshness.consistency?, Freshness.state?]
  · exact fun _ => tokens_ne_nil whole
  · intro name v next set
    have freshness := freshness_of_setOption set
    split at freshness
    · next named => rwa [if_pos named]
    · next other => rw [if_neg other, settings, settings, freshness]
  · exact fun _ _ => consistency?_ne_atPlus
  · exact fun _ _ => setOption_of_atPlus _
  · intro d hd
    exact of_decide_eq_true (short d hd)
  · obtain ⟨request, sent⟩ := short.toWire_ok
    exact ⟨request, sent, sendsMode whole sent⟩

theorem changes_consistentWith (state : MutationState) :
    QueryOptions.changes { consistentWith := some state } = [.consistentWith state] := by
  unfold QueryOptions.changes
  simp only [Option.map_none, Option.map_some, Option.toList_none, Option.toList_some,
    List.nil_append, List.append_nil]

/-- Options that only hand in mutations. -/
theorem ofOptions_consistentWith {statement : String}
    (text : Text.trimChars statement.toList ≠ []) {state : MutationState}
    (filled : state.isEmpty = false) :
    ofOptions statement { consistentWith := some state } =
      .ok { statement, freshness := .atLeast state } := by
  rw [ofOptions, if_neg text, changes_consistentWith, changeAll_singleton]
  simp [change, Freshness.consistentWith, filled]

theorem mode_of_edits_of_replaced :
    let state : MutationState := .ofList [⟨"b", 3, 99, 12⟩]
    let edits : List QueryEdit :=
      [.option "consistency" (.text "At_Plus"), .option "consistency" (.text "REQUEST_PLUS"),
        .change (.consistentWith state), .option "city" (.text "Paris")]
    ∃ first, Begins "SELECT 1" first [.consistentWith state] ∧
      (QueryEdit.performAll edits first).2 = [.consistency .requestPlus] ∧
      ModeKept (QueryEdit.performAll edits first).1
        ([.consistentWith state] ++ (QueryEdit.performAll edits first).2) := by
  intro state edits
  have text : Text.trimChars "SELECT 1".toList ≠ [] := by decide
  have filled : state.isEmpty = false := by decide
  have start := Begins.options (ofOptions_consistentWith text filled)
  rw [changes_consistentWith] at start
  exact ⟨_, start, rfl, mode_of_edits start edits⟩

end Query
end DocumentClient
