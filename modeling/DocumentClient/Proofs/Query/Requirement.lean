import DocumentClient.Proofs.Query.Consistency

/-!
# Mutations to wait for, among mixed arguments

The options object of a call is applied first, the keywords after it. So mutations that come with
the object are refused beside a consistency of the object, but a keyword for the consistency comes
later and takes their place; no other argument touches them. Main statement:
`consistentWith_of_ofArguments`.
-/

namespace DocumentClient

namespace QueryChange

/-- The change that a keyword asks for: of the option that it names, or a named parameter. -/
def ofKeyword (keyword : String × Json.Value) : Except QueryRefusal QueryChange :=
  (ofOption? keyword.1 keyword.2).getD (.ok (.named [keyword]))

/-- Keywords other than those for the consistency leave the freshness alone. -/
theorem plain_of_ofKeyword {keyword : String × Json.Value} {c : QueryChange}
    (other : keyword.1 ≠ "scan_consistency" ∧ keyword.1 ≠ "consistency")
    (h : ofKeyword keyword = .ok c) : c.Plain := by
  rw [ofKeyword] at h
  cases read : ofOption? keyword.1 keyword.2 with
  | none =>
    rw [read] at h
    cases h
    exact True.intro
  | some made =>
    rw [read] at h
    cases h
    exact Query.plain_of_ofOption? other read

theorem consistency_of_ofKeyword {name : String} {v : Json.Value} {c : QueryChange}
    (named : name = "scan_consistency" ∨ name = "consistency")
    (h : ofKeyword (name, v) = .ok c) :
    ∃ label k, v = .text label ∧ ScanConsistency.ofLabel label = .ok k ∧ c = .consistency k := by
  cases read : ofOption? name v with
  | none => rcases named with rfl | rfl <;> simp [ofOption?] at read
  | some made =>
    rw [ofKeyword, read] at h
    cases h
    exact Query.consistency_of_ofOption? named read

end QueryChange

namespace Query

theorem setKeyword_eq (q : Query) (name : String) (v : Json.Value) :
    q.setKeyword name v = (QueryChange.ofKeyword (name, v)).bind q.change := by
  rw [setKeyword, QueryChange.ofKeyword]
  cases QueryChange.ofOption? name v with
  | none => rfl
  | some made => cases made <;> rfl

/-- Keywords come to one change each. -/
theorem changeAll_of_setKeywords {q next : Query} {keywords : List (String × Json.Value)}
    (h : q.setKeywords keywords = .ok next) :
    ∃ made, keywords.map QueryChange.ofKeyword = made.map .ok ∧ q.changeAll made = .ok next := by
  induction keywords generalizing q with
  | nil => exact ⟨[], rfl, h⟩
  | cons keyword rest ih =>
    obtain ⟨name, v⟩ := keyword
    rw [setKeywords_cons, setKeyword_eq] at h
    cases hk : QueryChange.ofKeyword (name, v) with
    | error why =>
      rw [hk] at h
      cases h
    | ok c =>
      rw [hk] at h
      cases hc : q.change c with
      | error why =>
        simp only [Except.bind, hc] at h
        cases h
      | ok mid =>
        simp only [Except.bind, hc] at h
        obtain ⟨made, read, done⟩ := ih h
        refine ⟨c :: made, ?_, ?_⟩
        · rw [List.map_cons, List.map_cons, hk, read]
        · rw [changeAll_cons, hc]
          exact done

/-- A keyword for the consistency holds the label of one that may be chosen, and the last of them
takes the place of whatever was asked. -/
theorem freshness_of_keyword {q next : Query} {before after : List (String × Json.Value)}
    {name : String} {v : Json.Value} (named : name = "scan_consistency" ∨ name = "consistency")
    (h : q.setKeywords (before ++ (name, v) :: after) = .ok next) :
    ∃ label k, v = .text label ∧ ScanConsistency.ofLabel label = .ok k ∧ k ≠ .atPlus ∧
      ((∀ other ∈ after, other.1 ≠ "scan_consistency" ∧ other.1 ≠ "consistency") →
        next.freshness.consistency? = some k) := by
  obtain ⟨made, read, done⟩ := changeAll_of_setKeywords h
  rw [List.map_append, List.map_cons] at read
  obtain ⟨first, tail, rfl, -, read⟩ := List.map_eq_append_iff.mp read.symm
  obtain ⟨c, last, rfl, rc, rl⟩ := List.map_eq_cons_iff.mp read
  obtain ⟨label, k, rfl, parsed, rfl⟩ := QueryChange.consistency_of_ofKeyword named rc.symm
  obtain ⟨mid, set, -, chosen, rest⟩ := changeAll_split done
  obtain ⟨allowed, asked, -⟩ := freshness_of_consistency chosen
  refine ⟨label, k, rfl, parsed, allowed, ?_⟩
  intro others
  have plain : ∀ d ∈ last, d.Plain := by
    intro d hd
    have mem : Except.ok d ∈ after.map QueryChange.ofKeyword := rl ▸ List.mem_map_of_mem hd
    obtain ⟨keyword, hk, made⟩ := List.mem_map.mp mem
    exact QueryChange.plain_of_ofKeyword (others keyword hk) made
  rw [freshness_of_plain plain rest]
  exact asked

/-- A query made from options that hand in mutations waits for them, and these options do not
choose a consistency as well. -/
theorem freshness_of_ofOptions {statement : String} {o : QueryOptions} {state : MutationState}
    {q : Query} (asked : o.consistentWith = some state) (h : ofOptions statement o = .ok q) :
    o.scanConsistency = none ∧ q.freshness = .atLeast state := by
  rw [ofOptions] at h
  split at h
  · cases h
  obtain ⟨before, after, split, -, plain⟩ := o.changes_eq
  have made : o.changes = _ := split o.scanConsistency o.consistentWith
  rw [made, asked, ← List.append_assoc] at h
  obtain ⟨mid, set, early, handed, late⟩ := changeAll_split h
  obtain ⟨-, free, waits⟩ := freshness_of_consistentWith handed
  constructor
  · cases bound : o.scanConsistency with
    | none => rfl
    | some k =>
      rw [bound, Option.map_some, Option.toList_some] at early
      obtain ⟨first, after, -, choice, done⟩ := changeAll_split early
      cases done
      -- mutations are refused after a choice, whichever consistency was chosen
      obtain ⟨other, chosen, -⟩ := freshness_of_consistency choice
      rw [chosen] at free
      rcases free with none | atPlus
      · cases none
      · exact absurd (Option.some.inj atPlus) other
  · rw [freshness_of_plain plain late]
    exact waits

end Query

theorem QueryOptions.consistentWith_within (o : QueryOptions)
    (place : Option (String × String)) : (o.within place).consistentWith = o.consistentWith := by
  unfold within
  cases o.queryContext <;> cases place <;> rfl

theorem SortedArguments.consistentWith_merged {sorted : SortedArguments} {o : QueryOptions}
    (taken : sorted.options = some o) (place : Option (String × String)) :
    (sorted.merged place).consistentWith = o.consistentWith := by
  rw [merged]
  simp only [taken, Option.getD_some]
  split <;> exact o.consistentWith_within place

namespace Query

/-- With mixed arguments a query waits for the mutations of the options object before the keywords
are applied. -/
theorem waits_of_ofArguments {args : List QueryArgument} {o : QueryOptions}
    {state : MutationState} (mem : .options o ∈ args) (asked : o.consistentWith = some state)
    {place : Option (String × String)} {statement : String} {q : Query}
    (made : ofArguments place statement args = .ok q) :
    o.scanConsistency = none ∧ ∃ mid : Query, mid.freshness = .atLeast state ∧
      mid.setKeywords (args.filterMap QueryArgument.keyword?) = .ok q := by
  rw [ofArguments_eq] at made
  cases hs : SortedArguments.add {} args with
  | error why =>
    rw [hs] at made
    cases made
  | ok sorted =>
    rw [hs] at made
    have taken := SortedArguments.options_of_add mem hs
    have keywords := SortedArguments.keywords_of_add hs
    cases ho : ofOptions statement (sorted.merged place) with
    | error why =>
      simp only [Except.bind, ho] at made
      cases made
    | ok mid =>
      simp only [Except.bind, ho, keywords] at made
      have waits := (SortedArguments.consistentWith_merged taken place).trans asked
      obtain ⟨free, fresh⟩ := freshness_of_ofOptions waits ho
      rw [SortedArguments.scanConsistency_merged taken] at free
      exact ⟨free, mid, fresh, made⟩

/-- What became of the mutations that the options object of some arguments hands in, in the request
for the query. -/
structure Settles (args : List QueryArgument) (state : MutationState)
    (request : Wire.QueryRequest) : Prop where
  /-- They are sent where no other argument is about the consistency. -/
  kept : (∀ a ∈ args, a.Unbounded) →
    request.scanConsistency = none ∧ request.consistentWith = state.toWire
  /-- Keywords for the consistency hold labels of those that may be chosen, and the last one is
  sent in the place of the mutations. -/
  replaced : ∀ before after name v, args = before ++ .keyword name v :: after →
    name = "scan_consistency" ∨ name = "consistency" →
    ∃ label k, v = .text label ∧ ScanConsistency.ofLabel label = .ok k ∧ k ≠ .atPlus ∧
      ((∀ a ∈ after, a.Unbounded) → request.consistentWith = [] ∧
        request.scanConsistency = some (if k = .notBounded then 0 else 1))

/-- A consistency that was chosen is sent as its number, without mutations. -/
theorem toWire_of_consistency? {freshness : Freshness} {k : ScanConsistency}
    (asked : freshness.consistency? = some k) (other : k ≠ .atPlus) :
    freshness.tokens = [] ∧ freshness.toWire = some (if k = .notBounded then 0 else 1) := by
  cases freshness with
  | unset => cases asked
  | notBounded | requestPlus =>
    cases asked
    exact ⟨rfl, rfl⟩
  | atLeast state =>
    cases asked
    exact absurd rfl other

theorem settles {args : List QueryArgument} {state : MutationState} {mid q : Query}
    (waits : mid.freshness = .atLeast state)
    (keywords : mid.setKeywords (args.filterMap QueryArgument.keyword?) = .ok q)
    {request : Wire.QueryRequest} (sent : q.toWire = .ok request) :
    Settles args state request := by
  obtain ⟨number, tokens⟩ := toWire_freshness sent
  constructor
  · intro unbounded
    have others := keyword_ne_of_unbounded unbounded
    rw [number, tokens, (indifferent_setKeywords others).freshness_eq keywords, waits]
    exact ⟨rfl, rfl⟩
  · rintro before after name v rfl named
    rw [List.filterMap_append, List.filterMap_cons] at keywords
    obtain ⟨label, k, text, parsed, allowed, last⟩ := freshness_of_keyword named keywords
    refine ⟨label, k, text, parsed, allowed, ?_⟩
    intro unbounded
    rw [number, tokens]
    exact toWire_of_consistency? (last (keyword_ne_of_unbounded unbounded)) allowed

/-- Mutations that an options object hands in are refused beside a consistency of the object, and
otherwise sent with every query that is made, but for keywords that replace them. -/
theorem consistentWith_of_ofArguments {args : List QueryArgument} {o : QueryOptions}
    {state : MutationState} (mem : .options o ∈ args) (asked : o.consistentWith = some state)
    (place : Option (String × String)) (statement : String) :
    (o.scanConsistency ≠ none → ∃ e,
      orRefuse .query (ofArguments place statement args) = .error e ∧
        e.kind = .invalidArgument) ∧
    ∀ q, ofArguments place statement args = .ok q →
      ∃ request, q.toWire = .ok request ∧ Settles args state request := by
  constructor
  · intro both
    cases made : ofArguments place statement args with
    | error why => exact ⟨_, rfl, rfl⟩
    | ok q => exact absurd (waits_of_ofArguments mem asked made).1 both
  · intro q made
    obtain ⟨-, mid, waits, keywords⟩ := waits_of_ofArguments mem asked made
    have built : q.Built := ⟨statement, (leads_of_ofArguments made).2⟩
    obtain ⟨request, sent⟩ := built.shortWait.toWire_ok
    exact ⟨request, sent, settles waits keywords sent⟩

theorem ofArguments_of_consistentWith {statement : String}
    (text : Text.trimChars statement.toList ≠ []) {state : MutationState}
    (filled : state.isEmpty = false) (keywords : List (String × Json.Value)) :
    ofArguments none statement
        (.options { consistentWith := some state } :: keywords.map fun k => .keyword k.1 k.2) =
      setKeywords { statement, freshness := .atLeast state } keywords := by
  have sort (sorted : SortedArguments) :
      sorted.add (keywords.map fun k => .keyword k.1 k.2) =
        .ok { sorted with keywords := sorted.keywords ++ keywords } := by
    induction keywords generalizing sorted with
    | nil => simp [SortedArguments.add]
    | cons k rest ih => simp [SortedArguments.add, ih]
  rw [ofArguments_eq, SortedArguments.add, if_neg (by decide), sort]
  change (ofOptions statement { consistentWith := some state }).bind _ = _
  rw [ofOptions_consistentWith text filled]
  rfl

theorem consistentWith_of_ofArguments_of_replaced :
    let state : MutationState := .ofList [⟨"b", 3, 99, 12⟩]
    let keywords : List (String × Json.Value) :=
      [("consistency", .text "Request_Plus"), ("scan_consistency", .text "NOT_BOUNDED"),
        ("city", .text "Paris")]
    let args := .options { consistentWith := some state } ::
      keywords.map fun k => QueryArgument.keyword k.1 k.2
    ∃ q, ofArguments none "SELECT 1" args = .ok q ∧
      ∃ request, q.toWire = .ok request ∧ Settles args state request := by
  intro state keywords args
  have text : Text.trimChars "SELECT 1".toList ≠ [] := by decide
  have filled : state.isEmpty = false := by decide
  have made := ofArguments_of_consistentWith text filled keywords
  have mem : .options { consistentWith := some state } ∈ args := List.mem_cons_self
  exact ⟨_, made, (consistentWith_of_ofArguments mem rfl none "SELECT 1").2 _ made⟩

/-- Mutations that an options object hands in are lost to a keyword. -/
theorem consistentWith_lost_to_keyword :
    let state : MutationState := .ofList [⟨"b", 3, 99, 12⟩]
    ∃ q request,
      ofArguments none "SELECT 1" [.options { consistentWith := some state },
        .keyword "scan_consistency" (.text "not_bounded")] = .ok q ∧
      q.toWire = .ok request ∧ request.scanConsistency = some 0 ∧
      request.consistentWith = [] ∧ state.toWire = [⟨"b", 3, 99, 12⟩] := by
  intro state
  have text : Text.trimChars "SELECT 1".toList ≠ [] := by decide
  have filled : state.isEmpty = false := by decide
  have made := ofArguments_of_consistentWith text filled [("scan_consistency", .text "not_bounded")]
  exact ⟨_, _, made, rfl, rfl, rfl, rfl⟩

end Query
end DocumentClient
