import DocumentClient.Proofs.Query.Built

/-!
# Asking a query to wait for mutations

All settings but the consistency and the mutations to wait for leave the freshness of a query alone
and do not look at it. So it makes no difference when the mutations are handed in, and whether they
come with an options object or later: the query is the one built without them, and waits for them;
no mutations to wait for are refused. Main statement: `Asks.requires`.
-/

namespace DocumentClient

/-- A change that neither sets nor replaces what is asked of the indexes. -/
def QueryChange.Plain : QueryChange → Prop
  | .consistency _ | .consistentWith _ => False
  | _ => True

namespace Query

def withFreshness (freshness : Freshness) (q : Query) : Query := { q with freshness }

/-- A step that treats queries of any freshness alike. -/
def Indifferent (step : Query → Except QueryRefusal Query) : Prop :=
  ∀ q freshness, step (q.withFreshness freshness) = (step q).map (withFreshness freshness)

theorem Indifferent.freshness_eq {step : Query → Except QueryRefusal Query}
    (h : Indifferent step) {q next : Query} (made : step q = .ok next) :
    next.freshness = q.freshness := by
  have again : step q = .ok (next.withFreshness q.freshness) := by
    change step (q.withFreshness q.freshness) = _
    rw [h, made]
    rfl
  have kept := congrArg Query.freshness (Except.ok.inj (made.symm.trans again))
  exact kept

theorem Indifferent.bind {first second : Query → Except QueryRefusal Query}
    (hf : Indifferent first) (hs : Indifferent second) :
    Indifferent fun q => (first q).bind second := by
  intro q freshness
  simp only [hf q freshness]
  cases first q with
  | error why => rfl
  | ok after => exact hs after freshness

theorem indifferent_ok {f : Query → Query}
    (h : ∀ q freshness, f (q.withFreshness freshness) = (f q).withFreshness freshness) :
    Indifferent fun q => .ok (f q) := by
  intro q freshness
  change Except.ok (f (q.withFreshness freshness)) = _
  rw [h]
  rfl

theorem indifferent_change {c : QueryChange} (plain : c.Plain) : Indifferent (·.change c) := by
  intro q freshness
  cases c with
  | consistency | consistentWith => exact plain.elim
  | timeout | scanWait | clientContextId =>
    simp only [change]
    split <;> rfl
  | _ => rfl

theorem indifferent_setNamed (entries : List (String × Json.Value)) :
    Indifferent fun q => .ok (q.setNamed entries) :=
  indifferent_ok fun _ _ => rfl

theorem changeAll_cons (q : Query) (c : QueryChange) (cs : List QueryChange) :
    q.changeAll (c :: cs) = (q.change c).bind (·.changeAll cs) := by
  rw [changeAll]
  cases q.change c <;> rfl

theorem changeAll_append (q : Query) (before after : List QueryChange) :
    q.changeAll (before ++ after) = (q.changeAll before).bind (·.changeAll after) := by
  induction before generalizing q with
  | nil => rfl
  | cons c before ih =>
    rw [List.cons_append, changeAll_cons, changeAll_cons]
    cases q.change c with
    | error why => rfl
    | ok next => exact ih next

theorem indifferent_changeAll {cs : List QueryChange} (plain : ∀ c ∈ cs, c.Plain) :
    Indifferent (·.changeAll cs) := by
  induction cs with
  | nil => exact fun _ _ => rfl
  | cons c cs ih =>
    rw [List.forall_mem_cons] at plain
    have steps : (·.changeAll (c :: cs)) = fun q : Query => (q.change c).bind (·.changeAll cs) :=
      funext fun q => changeAll_cons q c cs
    rw [steps]
    exact (indifferent_change plain.1).bind (ih plain.2)

theorem of_ite_eq {α : Type} {p goal : Prop} [Decidable p] {a b x : α}
    (h : (if p then a else b) = x) (pos : p → a = x → goal) (neg : b = x → goal) : goal := by
  by_cases hp : p
  · rw [if_pos hp] at h
    exact pos hp h
  · rw [if_neg hp] at h
    exact neg h

/-- Only the two names of the consistency make a change of the freshness. -/
theorem plain_of_ofOption? {name : String} {v : Json.Value} {c : QueryChange}
    (other : name ≠ "scan_consistency" ∧ name ≠ "consistency")
    (h : QueryChange.ofOption? name v = some (.ok c)) : c.Plain := by
  have made {α : Type} {read : Except QueryRefusal α} {make : α → QueryChange}
      (plain : ∀ a, (make a).Plain) (h : some (read.map make) = some (.ok c)) : c.Plain := by
    cases read with
    | error => cases h
    | ok a =>
      cases h
      exact plain a
  rw [QueryChange.ofOption?] at h
  repeat refine of_ite_eq h (fun _ => made fun _ => True.intro) fun h => ?_
  refine of_ite_eq h (fun named => absurd named (not_or.mpr other)) fun h => ?_
  repeat refine of_ite_eq h (fun _ => made fun _ => True.intro) fun h => ?_
  refine of_ite_eq h nofun fun h => ?_
  repeat refine of_ite_eq h (fun _ => made fun _ => True.intro) fun h => ?_
  cases h

/-- One keyword: the option of its name, or a named parameter. -/
def setKeyword (name : String) (v : Json.Value) (q : Query) : Except QueryRefusal Query :=
  match QueryChange.ofOption? name v with
  | none => .ok (q.setNamed [(name, v)])
  | some (.error why) => .error why
  | some (.ok c) => q.change c

theorem setKeywords_cons (q : Query) (name : String) (v : Json.Value)
    (rest : List (String × Json.Value)) :
    q.setKeywords ((name, v) :: rest) = (q.setKeyword name v).bind (·.setKeywords rest) := by
  rw [setKeywords, setOption, setKeyword]
  cases QueryChange.ofOption? name v with
  | none => rfl
  | some read =>
    cases read with
    | error why => rfl
    | ok c =>
      simp only
      cases q.change c <;> rfl

theorem indifferent_setKeyword {name : String} (v : Json.Value)
    (other : name ≠ "scan_consistency" ∧ name ≠ "consistency") :
    Indifferent (setKeyword name v) := by
  unfold setKeyword
  cases found : QueryChange.ofOption? name v with
  | none => exact indifferent_setNamed _
  | some read =>
    cases read with
    | error why => exact fun _ _ => rfl
    | ok c => exact indifferent_change (plain_of_ofOption? other found)

theorem indifferent_setKeywords {keywords : List (String × Json.Value)}
    (other : ∀ k ∈ keywords, k.1 ≠ "scan_consistency" ∧ k.1 ≠ "consistency") :
    Indifferent (·.setKeywords keywords) := by
  induction keywords with
  | nil => exact fun _ _ => rfl
  | cons keyword rest ih =>
    obtain ⟨name, v⟩ := keyword
    rw [List.forall_mem_cons] at other
    have steps := funext fun q => setKeywords_cons q name v rest
    rw [steps]
    exact (indifferent_setKeyword v other.1).bind (ih other.2)

/-- An attempt to build a query that waits for the mutations of a state, beside the same one
without them: it is that query, waiting for them, or it fails because there are none. -/
structure Requires (state : MutationState) (plain attempt : Except QueryRefusal Query) : Prop where
  waits : state.tokens ≠ [] → attempt = plain.map (withFreshness (.atLeast state))
  refused : state.tokens = [] → ∃ why, attempt = .error why

variable {state : MutationState}

theorem Requires.bind {plain attempt : Except QueryRefusal Query}
    {step : Query → Except QueryRefusal Query} (h : Requires state plain attempt)
    (indifferent : Indifferent step) : Requires state (plain.bind step) (attempt.bind step) := by
  constructor
  · intro some
    rw [h.waits some]
    cases plain with
    | error why => rfl
    | ok q => exact indifferent q _
  · intro none
    obtain ⟨why, hw⟩ := h.refused none
    rw [hw]
    exact ⟨why, rfl⟩

theorem requires_error (state : MutationState) (why : QueryRefusal) :
    Requires state (.error why) (.error why) :=
  ⟨fun _ => rfl, fun _ => ⟨why, rfl⟩⟩

theorem requires_consistentWith {q : Query}
    (unbounded : q.freshness.consistency? = none ∨ q.freshness.consistency? = some .atPlus) :
    Requires state (.ok q) (q.change (.consistentWith state)) := by
  have set : q.freshness.consistentWith state =
      if state.isEmpty then .error .emptyState else .ok (.atLeast state) := by
    cases hf : q.freshness with
    | unset | atLeast => rfl
    | notBounded | requestPlus =>
      rw [hf] at unbounded
      rcases unbounded with h | h <;> cases h
  constructor
  · intro some
    have filled : state.isEmpty = false := by
      rw [MutationState.isEmpty, List.isEmpty_eq_false_iff]
      exact some
    simp only [change, set, filled]
    rfl
  · intro none
    have empty : state.isEmpty = true := by rw [MutationState.isEmpty, none]; rfl
    simp only [change, set, empty]
    exact ⟨_, rfl⟩

end Query

namespace QueryOptions

/-- The same options with these mutations to wait for. -/
def requiring (o : QueryOptions) (required : Option MutationState) : QueryOptions :=
  { o with consistentWith := required }

theorem forall_mem_setting {α : Type} {x : Option α} {make : α → QueryChange}
    {P : QueryChange → Prop} (h : ∀ a, P (make a)) : ∀ c ∈ (x.map make).toList, P c := by
  intro c hc
  rw [Option.mem_toList, Option.map_eq_some_iff] at hc
  obtain ⟨a, -, rfl⟩ := hc
  exact h a

/-- Only the consistency, and right after it the mutations, make changes that do not leave the
freshness alone. -/
theorem changes_eq (o : QueryOptions) :
    ∃ before after, (∀ consistency required,
        changes { o with scanConsistency := consistency, consistentWith := required } =
          before ++ ((consistency.map QueryChange.consistency).toList ++
            ((required.map QueryChange.consistentWith).toList ++ after))) ∧
      (∀ c ∈ before, c.Plain) ∧ ∀ c ∈ after, c.Plain := by
  refine ⟨(o.timeout.map QueryChange.timeout).toList, ?_⟩
  apply Exists.intro
  constructor
  · -- the changes after the mutations are read off the goal
    intro consistency required
    unfold changes
    simp only [List.append_assoc]
    rfl
  constructor
  · exact forall_mem_setting fun _ => True.intro
  · repeat refine List.forall_mem_append.mpr ⟨forall_mem_setting fun _ => True.intro, ?_⟩
    exact forall_mem_setting fun _ => True.intro

/-- The mutations are looked at between changes that leave the freshness alone. -/
theorem changes_requiring {o : QueryOptions} (unbounded : o.scanConsistency = none) :
    ∃ before after, (∀ required, (o.requiring required).changes =
        before ++ ((required.map QueryChange.consistentWith).toList ++ after)) ∧
      (∀ c ∈ before, c.Plain) ∧ ∀ c ∈ after, c.Plain := by
  obtain ⟨before, after, split, hb, ha⟩ := o.changes_eq
  refine ⟨before, after, ?_, hb, ha⟩
  intro required
  refine (split o.scanConsistency required).trans ?_
  rw [unbounded, Option.map_none, Option.toList_none, List.nil_append]

end QueryOptions

namespace Query

theorem requires_changeAll {q : Query} (unset : q.freshness = .unset)
    {before after : List QueryChange} (hb : ∀ c ∈ before, c.Plain) (ha : ∀ c ∈ after, c.Plain)
    (state : MutationState) :
    Requires state (q.changeAll (before ++ after))
      (q.changeAll (before ++ .consistentWith state :: after)) := by
  rw [changeAll_append, changeAll_append]
  cases made : q.changeAll before with
  | error why => exact requires_error state why
  | ok mid =>
    have kept : mid.freshness = .unset := by
      rw [(indifferent_changeAll hb).freshness_eq made, unset]
    have asked : Requires state (.ok mid) (mid.change (.consistentWith state)) :=
      requires_consistentWith (.inl (by rw [kept]; rfl))
    have done := asked.bind (indifferent_changeAll ha)
    rw [← changeAll_cons] at done
    exact done

theorem requires_ofOptions {o : QueryOptions} (unbounded : o.scanConsistency = none)
    (statement : String) (state : MutationState) :
    Requires state (ofOptions statement (o.requiring none))
      (ofOptions statement (o.requiring (some state))) := by
  obtain ⟨before, after, split, hb, ha⟩ := QueryOptions.changes_requiring unbounded
  rw [ofOptions, ofOptions, split, split]
  by_cases blank : Text.trimChars statement.toList = []
  · rw [if_pos blank, if_pos blank]
    exact requires_error state _
  · rw [if_neg blank, if_neg blank]
    exact requires_changeAll rfl hb ha state

end Query

/-- The name and the value of a keyword. -/
def QueryArgument.keyword? : QueryArgument → Option (String × Json.Value)
  | .keyword name v => some (name, v)
  | _ => none

namespace SortedArguments
variable {sorted next : SortedArguments} {args : List QueryArgument}

/-- An options object that was taken stays. -/
theorem options_of_add_of_some {o : QueryOptions} (taken : sorted.options = some o)
    (h : sorted.add args = .ok next) : next.options = some o := by
  fun_induction add sorted args with
  | case1 sorted =>
    cases h
    exact taken
  | case2 sorted => cases h
  | case3 sorted o' rest free => exact absurd (by rw [taken]; rfl) free
  | case4 sorted v rest ih => exact ih taken h
  | case5 sorted name v rest ih => exact ih taken h

/-- The only options object is the one that is taken. -/
theorem options_of_add {o : QueryOptions} (mem : .options o ∈ args)
    (h : sorted.add args = .ok next) : next.options = some o := by
  fun_induction add sorted args with
  | case1 sorted => cases mem
  | case2 sorted => cases h
  | case3 sorted o' rest free ih =>
    rcases List.mem_cons.mp mem with same | mem
    · cases same
      exact options_of_add_of_some rfl h
    · exact ih mem h
  | case4 sorted v rest ih =>
    rcases List.mem_cons.mp mem with same | mem
    · cases same
    · exact ih mem h
  | case5 sorted name v rest ih =>
    rcases List.mem_cons.mp mem with same | mem
    · cases same
    · exact ih mem h

/-- The keywords keep their order, whatever stands between them. -/
theorem keywords_of_add (h : sorted.add args = .ok next) :
    next.keywords = sorted.keywords ++ args.filterMap QueryArgument.keyword? := by
  fun_induction add sorted args with
  | case1 sorted =>
    cases h
    exact (List.append_nil _).symm
  | case2 sorted => cases h
  | case3 sorted o rest free ih => exact ih h
  | case4 sorted v rest ih => exact ih h
  | case5 sorted name v rest ih =>
    rw [ih h, List.append_assoc]
    rfl

def requiring (required : Option MutationState) (sorted : SortedArguments) : SortedArguments :=
  { sorted with options := sorted.options.map (·.requiring required) }

end SortedArguments

/-- The argument with these mutations to wait for, if it is an options object. -/
def QueryArgument.requiring (required : Option MutationState) : QueryArgument → QueryArgument
  | .options o => .options (o.requiring required)
  | a => a

theorem SortedArguments.add_requiring (required : Option MutationState)
    (sorted : SortedArguments) (args : List QueryArgument) :
    (sorted.requiring required).add (args.map (·.requiring required)) =
      (sorted.add args).map (·.requiring required) := by
  fun_induction add sorted args with
  | case1 sorted => rfl
  | case2 sorted o rest taken =>
    have : (sorted.requiring required).options.isSome := by
      rw [requiring, Option.isSome_map]
      exact taken
    rw [List.map_cons, QueryArgument.requiring, add, if_pos this]
    rfl
  | case3 sorted o rest free ih =>
    have : ¬ (sorted.requiring required).options.isSome := by
      rw [requiring, Option.isSome_map]
      exact free
    rw [List.map_cons, QueryArgument.requiring, add, if_neg this]
    exact ih
  | case4 sorted v rest ih => exact ih
  | case5 sorted name v rest ih => exact ih

/-- The options of a call: its object, in its place, with explicit positional parameters. -/
def SortedArguments.merged (sorted : SortedArguments) (place : Option (String × String)) :
    QueryOptions :=
  let o := (sorted.options.getD {}).within place
  if sorted.positional = [] then o else { o with positional := some sorted.positional }

theorem QueryOptions.within_requiring (o : QueryOptions) (required : Option MutationState)
    (place : Option (String × String)) :
    (o.requiring required).within place = (o.within place).requiring required := by
  have context : (o.requiring required).queryContext = o.queryContext := rfl
  unfold within
  rw [context]
  cases o.queryContext <;> cases place <;> rfl

theorem QueryOptions.scanConsistency_within (o : QueryOptions)
    (place : Option (String × String)) : (o.within place).scanConsistency = o.scanConsistency := by
  unfold within
  cases o.queryContext <;> cases place <;> rfl

namespace SortedArguments
variable {sorted : SortedArguments} {o : QueryOptions}

theorem merged_requiring (taken : sorted.options = some o) (required : Option MutationState)
    (place : Option (String × String)) :
    (sorted.requiring required).merged place = (sorted.merged place).requiring required := by
  rw [merged, merged, requiring]
  simp only [taken, Option.map_some, Option.getD_some, QueryOptions.within_requiring]
  split <;> rfl

theorem scanConsistency_merged (taken : sorted.options = some o)
    (place : Option (String × String)) :
    (sorted.merged place).scanConsistency = o.scanConsistency := by
  rw [merged]
  simp only [taken, Option.getD_some]
  split <;> exact o.scanConsistency_within place

end SortedArguments

namespace Query

theorem ofArguments_eq (place : Option (String × String)) (statement : String)
    (args : List QueryArgument) :
    ofArguments place statement args =
      (SortedArguments.add {} args).bind fun sorted =>
        (ofOptions statement (sorted.merged place)).bind (·.setKeywords sorted.keywords) := by
  rw [ofArguments]
  cases SortedArguments.add {} args with
  | error why => rfl
  | ok sorted =>
    simp only [Except.bind, SortedArguments.merged]
    cases ofOptions statement _ <;> rfl

end Query

/-- An argument that chooses no scan consistency. -/
def QueryArgument.Unbounded : QueryArgument → Prop
  | .options o => o.scanConsistency = none
  | .positional _ => True
  | .keyword name _ => name ≠ "scan_consistency" ∧ name ≠ "consistency"

theorem keyword_ne_of_unbounded {args : List QueryArgument} (unbounded : ∀ a ∈ args, a.Unbounded) :
    ∀ k ∈ args.filterMap QueryArgument.keyword?,
      k.1 ≠ "scan_consistency" ∧ k.1 ≠ "consistency" := by
  intro k hk
  obtain ⟨a, ha, is⟩ := List.mem_filterMap.mp hk
  cases a with
  | keyword name v =>
    cases is
    exact unbounded _ ha
  | options | positional => cases is

namespace QueryInput

def Unbounded : QueryInput → Prop
  | .options o => o.scanConsistency = none
  | .arguments args => ∀ a ∈ args, a.Unbounded

/-- There is an options object, which can hold mutations to wait for. -/
def HasOptions : QueryInput → Prop
  | .options _ => True
  | .arguments args => ∃ o, .options o ∈ args

/-- The input with these mutations to wait for in its options object. -/
def requiring (required : Option MutationState) : QueryInput → QueryInput
  | .options o => .options (o.requiring required)
  | .arguments args => .arguments (args.map (·.requiring required))

end QueryInput

namespace Query

theorem requires_ofArguments {args : List QueryArgument} (unbounded : ∀ a ∈ args, a.Unbounded)
    {o : QueryOptions} (mem : .options o ∈ args) (place : Option (String × String))
    (statement : String) (state : MutationState) :
    Requires state (ofArguments place statement (args.map (·.requiring none)))
      (ofArguments place statement (args.map (·.requiring (some state)))) := by
  have sort (required : Option MutationState) :
      SortedArguments.add {} (args.map (·.requiring required)) =
        (SortedArguments.add {} args).map (·.requiring required) :=
    SortedArguments.add_requiring required {} args
  rw [ofArguments_eq, ofArguments_eq, sort, sort]
  cases made : SortedArguments.add {} args with
  | error why => exact requires_error state why
  | ok sorted =>
    have taken := SortedArguments.options_of_add mem made
    have other : ∀ k ∈ sorted.keywords, k.1 ≠ "scan_consistency" ∧ k.1 ≠ "consistency" := by
      rw [SortedArguments.keywords_of_add made]
      exact keyword_ne_of_unbounded unbounded
    have free : (sorted.merged place).scanConsistency = none := by
      rw [SortedArguments.scanConsistency_merged taken]
      exact unbounded _ mem
    simp only [Except.map, Except.bind, SortedArguments.merged_requiring taken]
    exact (requires_ofOptions free statement state).bind (indifferent_setKeywords other)

theorem requires_prepare {input : QueryInput} (unbounded : input.Unbounded)
    (given : input.HasOptions) (scope : Option Scope) (statement : String)
    (state : MutationState) :
    Requires state (prepare scope statement (input.requiring none))
      (prepare scope statement (input.requiring (some state))) := by
  cases input with
  | options o =>
    simp only [prepare, QueryInput.requiring, QueryOptions.within_requiring]
    refine requires_ofOptions ?_ statement state
    rw [QueryOptions.scanConsistency_within]
    exact unbounded
  | arguments args =>
    obtain ⟨o, mem⟩ := given
    exact requires_ofArguments unbounded mem _ statement state

/-- An attempt to build a query that is consistent with a state and of no scan consistency, beside
the same one without the state. The state is handed in with an options object or to a query that
is already built, and other settings may follow. -/
inductive Asks (state : MutationState) :
    (plain attempt : Except QueryRefusal Query) → Prop where
  | prepare (scope : Option Scope) (statement : String) (input : QueryInput)
    (unbounded : input.Unbounded) (given : input.HasOptions) :
    Asks state (prepare scope statement (input.requiring none))
      (prepare scope statement (input.requiring (some state)))
  | set {q : Query} (built : q.Built)
    (unbounded : q.freshness.consistency? = none ∨ q.freshness.consistency? = some .atPlus) :
    Asks state (.ok q) (q.change (.consistentWith state))
  | change {plain attempt : Except QueryRefusal Query} (asks : Asks state plain attempt)
    {c : QueryChange} (other : c.Plain) :
    Asks state (plain.bind (·.change c)) (attempt.bind (·.change c))

variable {state : MutationState} {plain attempt : Except QueryRefusal Query}

theorem Asks.requires (asks : Asks state plain attempt) : Requires state plain attempt := by
  induction asks with
  | prepare scope statement input unbounded given =>
    exact requires_prepare unbounded given scope statement state
  | set built unbounded => exact requires_consistentWith unbounded
  | change asks other ih => exact ih.bind (indifferent_change other)

theorem Asks.built (asks : Asks state plain attempt) {q : Query} (made : plain = .ok q) :
    q.Built := by
  induction asks generalizing q with
  | prepare => exact built_of_prepare made
  | set built =>
    cases made
    exact built
  | @change plain attempt asks c other ih =>
    cases plain with
    | error why => cases made
    | ok mid => exact (ih rfl).change made

end Query
end DocumentClient
