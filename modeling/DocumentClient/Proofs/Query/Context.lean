import DocumentClient.Proofs.Query.Parameters

/-!
# The context of a scope

A query prepared in a scope, with no context of its own, is sent with the context of the scope: the
names of the bucket and of the scope, each between backquotes. A backquote in a name stays as it is,
so the text of a name may read as the end of one and the start of the next. Main statements:
`Scope.contexts_eq_iff`, which names all the scopes whose queries are sent with the same context,
and `Scope.names_of_queryContext`: without backquotes only those of the same names.
-/

namespace DocumentClient

namespace QueryChange
variable {c : QueryChange}

/-- The context that a change sets. -/
def context? : QueryChange → Option String
  | .queryContext context => some context
  | _ => none

theorem queryContext_mem_written_iff {p : QueryProperty} :
    QueryProperty.queryContext ∈ p.written ↔ p = .queryContext := by
  cases p <;> decide

/-- A keyword with another name leaves the context alone. -/
theorem queryContext_of_ofKeyword {keyword : String × Json.Value}
    (made : ofKeyword keyword = .ok c) (own : .queryContext ∈ c.properties) :
    keyword.1 = "query_context" := by
  rcases named_of_ofKeyword made own with parameter | ⟨p, named, wrote⟩
  · cases parameter
  · rw [queryContext_mem_written_iff] at wrote
    subst wrote
    exact List.mem_singleton.mp named

end QueryChange

theorem QueryOptions.context?_changes (o : QueryOptions) :
    o.changes.filterMap QueryChange.context? = o.queryContext.toList := by
  unfold changes
  simp only [List.filterMap_append, filterMap_setting, QueryChange.context?, List.filterMap_none,
    List.nil_append, List.append_nil, List.filterMap_some]

theorem SortedArguments.queryContext_merged (sorted : SortedArguments)
    (place : Option (String × String)) :
    (sorted.merged place).queryContext =
      (sorted.options.getD {}).queryContext.or (place.map fun p => scopeContext p.1 p.2) := by
  rw [merged, QueryOptions.within_eq]
  split <;> rfl

namespace Query
variable {q next : Query} {statement : String}

theorem queryContext_of_change {c : QueryChange} (changed : q.change c = .ok next) :
    next.queryContext = (c.context?.map some).getD q.queryContext := by
  cases c with
  | queryContext context =>
    cases changed
    rfl
  | _ =>
    apply get_of_change (p := .queryContext) changed
    simp [QueryChange.properties]

theorem queryContext_of_ofOptions {o : QueryOptions} (made : ofOptions statement o = .ok q) :
    q.queryContext = o.queryContext := by
  rw [ofOptions] at made
  split at made
  · cases made
  · rw [view_of_changeAll queryContext QueryChange.context? some queryContext_of_change made,
      o.context?_changes]
    cases o.queryContext <;> rfl

theorem queryContext_of_setKeywords {keywords : List (String × Json.Value)}
    (unnamed : ∀ keyword ∈ keywords, keyword.1 ≠ "query_context")
    (set : q.setKeywords keywords = .ok next) : next.queryContext = q.queryContext := by
  obtain ⟨changes, read, changed⟩ := changeAll_of_setKeywords set
  refine get_of_changeAll (p := .queryContext) changed fun c mem own => ?_
  have made : .ok c ∈ keywords.map QueryChange.ofKeyword := by
    rw [read]
    exact List.mem_map_of_mem mem
  obtain ⟨keyword, given, made⟩ := List.mem_map.mp made
  exact unnamed keyword given (QueryChange.queryContext_of_ofKeyword made own)

theorem queryContext_of_toWire {request : Wire.QueryRequest} (made : q.toWire = .ok request) :
    request.queryContext = q.queryContext := by
  rw [toWire] at made
  split at made <;> cases made
  rfl

end Query

namespace Scope
variable {s t : Scope} {p q : Query} {statement : String}

/-- The queries prepared in a scope for which no other context is asked. -/
inductive Prepares (s : Scope) (q : Query) : Prop where
  | options {statement : String} {o : QueryOptions} (default : o.queryContext = none)
    (made : s.query statement o = .ok q)
  | arguments {statement : String} {args : List QueryArgument}
    (default : ∀ o, .options o ∈ args → o.queryContext = none)
    (unnamed : ∀ v, .keyword "query_context" v ∉ args)
    (made : s.queryWith statement args = .ok q)

theorem queryContext_of_query {o : QueryOptions} (default : o.queryContext = none)
    (made : s.query statement o = .ok q) : q.queryContext = some s.queryContext := by
  rw [Query.scope_query_eq, QueryOptions.within_eq] at made
  rw [Query.queryContext_of_ofOptions made, default]
  rfl

theorem queryContext_of_queryWith {args : List QueryArgument}
    (default : ∀ o, .options o ∈ args → o.queryContext = none)
    (unnamed : ∀ v, .keyword "query_context" v ∉ args)
    (made : s.queryWith statement args = .ok q) : q.queryContext = some s.queryContext := by
  rw [queryWith, Query.create_eq] at made
  obtain ⟨sorted, options, -, base, based, keywords⟩ := Query.ofArguments_split made
  have free : (sorted.options.getD {}).queryContext = none := by
    cases taken : sorted.options with
    | none => rfl
    | some o =>
      apply default
      apply QueryArgument.options_mem
      rw [options, taken]
      exact List.mem_singleton_self o
  have kept : q.queryContext = base.queryContext := by
    refine Query.queryContext_of_setKeywords (fun keyword mem same => ?_) keywords
    have given := QueryArgument.keyword_mem mem
    rw [same] at given
    exact unnamed _ given
  rw [kept, Query.queryContext_of_ofOptions based, sorted.queryContext_merged, free]
  rfl

/-- Both ways to prepare a query give it the context of the scope. -/
theorem Prepares.queryContext (prepared : s.Prepares q) :
    q.queryContext = some s.queryContext := by
  cases prepared with
  | options default made => exact queryContext_of_query default made
  | arguments default unnamed made => exact queryContext_of_queryWith default unnamed made

theorem Prepares.built (prepared : s.Prepares q) : q.Built := by
  cases prepared with
  | options default made =>
    rw [Query.scope_query_eq] at made
    exact ⟨_, (Query.leads_of_ofOptions made).2⟩
  | arguments default unnamed made =>
    rw [queryWith, Query.create_eq] at made
    exact ⟨_, (Query.leads_of_ofArguments made).2⟩

/-- Its request can be made and carries the context. -/
theorem Prepares.request (prepared : s.Prepares q) :
    ∃ request, q.toWire = .ok request ∧ request.queryContext = some s.queryContext := by
  obtain ⟨request, made⟩ := prepared.built.shortWait.toWire_ok
  exact ⟨request, made, (Query.queryContext_of_toWire made).trans prepared.queryContext⟩

/-- A statement alone is taken in every scope, whatever its names are. -/
theorem query_statement (s : Scope) (text : Text.trimChars statement.toList ≠ []) :
    s.query statement {} = .ok { statement, queryContext := some s.queryContext } := by
  rw [Query.scope_query_eq, QueryOptions.within_eq, Query.ofOptions, if_neg text]
  change Query.changeAll _ (QueryOptions.changes { queryContext := some s.queryContext }) = _
  rw [QueryOptions.changes_of_context]
  rfl

theorem queryWith_statement (s : Scope) (text : Text.trimChars statement.toList ≠ []) :
    s.queryWith statement [] = .ok { statement, queryContext := some s.queryContext } := by
  have alone := Query.ofArguments_keywords (some (s.bucket, s.name)) statement []
  rw [List.map_nil, ← Query.scope_query_eq, query_statement s text] at alone
  rw [queryWith, Query.create_eq]
  exact alone

theorem prepares_statement (s : Scope) (text : Text.trimChars statement.toList ≠ []) :
    s.Prepares { statement, queryContext := some s.queryContext } := by
  refine .arguments ?_ ?_ (queryWith_statement s text)
  · intro o given
    cases given
  · intro v given
    cases given

end Scope

/-- Where a text is cut in two ways, one cut comes first. -/
theorem Text.append_eq_append {a b c d : String} (same : a ++ b = c ++ d) :
    (∃ x, c = a ++ x ∧ b = x ++ d) ∨ ∃ x, a = c ++ x ∧ d = x ++ b := by
  have text (cs : List Char) : ∃ x : String, x.toList = cs := ⟨.ofList cs, String.toList_ofList⟩
  have chars := congrArg String.toList same
  rw [String.toList_append, String.toList_append, List.append_eq_append_iff] at chars
  rcases chars with ⟨cs, first, rest⟩ | ⟨cs, first, rest⟩
  · obtain ⟨x, rfl⟩ := text cs
    rw [← String.toList_append, String.toList_inj] at first rest
    exact .inl ⟨x, first, rest⟩
  · obtain ⟨x, rfl⟩ := text cs
    rw [← String.toList_append, String.toList_inj] at first rest
    exact .inr ⟨x, first, rest⟩

namespace Scope
variable {s t : Scope} {p q : Query}

/-- Names of `s` whose context, cut at a later place, gives the names of `t`. -/
inductive RunsInto (s t : Scope) : Prop where
  /-- The two places where the names may be cut have a backquote in common. -/
  | overlap (bucket : t.bucket = s.bucket ++ "`.") (name : s.name = ".`" ++ t.name)
  | apart (middle : String) (bucket : t.bucket = s.bucket ++ "`.`" ++ middle)
    (name : s.name = middle ++ "`.`" ++ t.name)

theorem queryContext_eq_iff_names :
    s.queryContext = t.queryContext ↔
      s.bucket ++ ("`.`" ++ s.name) = t.bucket ++ ("`.`" ++ t.name) := by
  have shape (u : Scope) :
      u.queryContext = "default:`" ++ (u.bucket ++ ("`.`" ++ u.name)) ++ "`" := by
    simp only [queryContext, scopeContext, String.append_assoc]
  rw [shape s, shape t, String.append_left_inj, String.append_right_inj]

theorem RunsInto.queryContext (runs : s.RunsInto t) : s.queryContext = t.queryContext := by
  rw [queryContext_eq_iff_names]
  cases runs with
  | overlap bucket name =>
    rw [bucket, name, String.append_assoc]
    rfl
  | apart middle bucket name =>
    rw [bucket, name]
    simp only [String.append_assoc]

/-- The later cut is right after the first one, one character into what stands between the names,
which cannot be, two characters into it, or behind it. -/
theorem runsInto_of_longer {x : String} (bucket : t.bucket = s.bucket ++ x)
    (rest : "`.`" ++ s.name = x ++ ("`.`" ++ t.name)) :
    (s.bucket = t.bucket ∧ s.name = t.name) ∨ s.RunsInto t := by
  have chars : ['\x60', '.', '\x60'] ++ s.name.toList =
      x.toList ++ (['\x60', '.', '\x60'] ++ t.name.toList) := by
    have := congrArg String.toList rest
    rwa [String.toList_append, String.toList_append, String.toList_append] at this
  obtain ⟨cs, rfl⟩ : ∃ cs, x = String.ofList cs := ⟨x.toList, String.ofList_toList.symm⟩
  rw [String.toList_ofList] at chars
  match cs with
  | [] =>
    rw [String.ofList_nil, String.append_empty] at bucket
    exact .inl ⟨bucket.symm, String.toList_inj.mp (List.append_cancel_left chars)⟩
  | [c] =>
    injection chars with _ chars
    injection chars with points
    exact absurd points (by decide)
  | [c, d] =>
    injection chars with first chars
    injection chars with second chars
    subst first second
    injection chars with _ name
    refine .inr (.overlap bucket ?_)
    rw [← String.toList_inj, String.toList_append]
    exact name
  | c :: d :: e :: middle =>
    injection chars with first chars
    injection chars with second chars
    injection chars with third name
    subst first second third
    refine .inr (.apart (.ofList middle) ?_ ?_)
    · have cut : String.ofList (['\x60', '.', '\x60'] ++ middle) = "`.`" ++ .ofList middle :=
        String.ofList_append
      rw [bucket, String.append_assoc, ← cut]
      rfl
    · rw [← String.toList_inj, String.append_assoc, String.toList_append, String.toList_append,
        String.toList_ofList]
      exact name

theorem queryContext_eq_iff :
    s.queryContext = t.queryContext ↔
      (s.bucket = t.bucket ∧ s.name = t.name) ∨ s.RunsInto t ∨ t.RunsInto s := by
  constructor
  · intro same
    rw [queryContext_eq_iff_names] at same
    rcases Text.append_eq_append same with ⟨x, bucket, rest⟩ | ⟨x, bucket, rest⟩
    · rcases runsInto_of_longer bucket rest with names | runs
      · exact .inl names
      · exact .inr (.inl runs)
    · rcases runsInto_of_longer bucket rest with names | runs
      · exact .inl ⟨names.1.symm, names.2.symm⟩
      · exact .inr (.inr runs)
  · rintro (⟨bucket, name⟩ | runs | runs)
    · rw [queryContext, queryContext, bucket, name]
    · exact runs.queryContext
    · exact runs.queryContext.symm

theorem RunsInto.backquote_mem (runs : s.RunsInto t) : '\x60' ∈ t.bucket.toList := by
  cases runs with
  | overlap bucket name =>
    rw [bucket, String.toList_append]
    exact List.mem_append_right _ (by decide)
  | apart middle bucket name =>
    rw [bucket, String.toList_append, String.toList_append]
    exact List.mem_append_left _ (List.mem_append_right _ (by decide))

/-- The context tells scopes apart whose buckets have no backquote in their names. -/
theorem names_of_queryContext (first : '\x60' ∉ s.bucket.toList)
    (second : '\x60' ∉ t.bucket.toList) (same : s.queryContext = t.queryContext) :
    s.bucket = t.bucket ∧ s.name = t.name := by
  rcases queryContext_eq_iff.mp same with names | runs | runs
  · exact names
  · exact absurd runs.backquote_mem second
  · exact absurd runs.backquote_mem first

/-- For any two scopes and queries prepared in them: their requests can be made, each carries the
context of its scope, and these contexts are the same exactly where the names are, or where those
of one scope run into those of the other. -/
theorem contexts_eq_iff (first : s.Prepares p) (second : t.Prepares q) :
    ∃ a b, p.toWire = .ok a ∧ q.toWire = .ok b ∧
      a.queryContext = some s.queryContext ∧ b.queryContext = some t.queryContext ∧
      (a.queryContext = b.queryContext ↔
        (s.bucket = t.bucket ∧ s.name = t.name) ∨ s.RunsInto t ∨ t.RunsInto s) := by
  obtain ⟨a, madeA, contextA⟩ := first.request
  obtain ⟨b, madeB, contextB⟩ := second.request
  refine ⟨a, b, madeA, madeB, contextA, contextB, ?_⟩
  rw [contextA, contextB, Option.some_inj, queryContext_eq_iff]

theorem contexts_eq_iff_of_overlap :
    let s : Scope := ⟨"a", ".`c", none⟩
    let t : Scope := ⟨"a`.", "c", none⟩
    ∃ p q a b, s.Prepares p ∧ t.Prepares q ∧ p.toWire = .ok a ∧ q.toWire = .ok b ∧
      a.queryContext = b.queryContext := by
  intro s t
  have text : Text.trimChars "SELECT 1".toList ≠ [] := by decide
  have first := Prepares.options rfl (query_statement s text)
  have second := prepares_statement t text
  obtain ⟨a, b, madeA, madeB, -, -, same⟩ := contexts_eq_iff first second
  exact ⟨_, _, a, b, first, second, madeA, madeB, same.mpr (.inr (.inl (.overlap rfl rfl)))⟩

/-- The same context for the scope "c" of the bucket "a`.`b" and the scope "b`.`c" of the bucket
"a", by either way to prepare a query. -/
theorem context_of_two_scopes :
    let s : Scope := ⟨"a`.`b", "c", none⟩
    let t : Scope := ⟨"a", "b`.`c", none⟩
    ∃ p q a b, s.Prepares p ∧ t.Prepares q ∧ p.toWire = .ok a ∧ q.toWire = .ok b ∧
      a.queryContext = b.queryContext ∧ s.bucket ≠ t.bucket ∧ s.name ≠ t.name := by
  intro s t
  have text : Text.trimChars "SELECT 1".toList ≠ [] := by decide
  have first := Prepares.options rfl (query_statement s text)
  have second := prepares_statement t text
  obtain ⟨a, madeA, contextA⟩ := first.request
  obtain ⟨b, madeB, contextB⟩ := second.request
  refine ⟨_, _, a, b, first, second, madeA, madeB, ?_, by decide, by decide⟩
  rw [contextA, contextB]
  rfl

end Scope
end DocumentClient
