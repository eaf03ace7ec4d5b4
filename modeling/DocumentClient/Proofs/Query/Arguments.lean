import DocumentClient.Proofs.Query.Freshness
import DocumentClient.Query.Entry

/-!
# Arguments of a query in any order

Arguments are sorted by their kind before anything else is done with them. So it does not matter
how the kinds are mixed, only in which order those of one kind come. An options object alone is the
same as a list of arguments with nothing else in it. Main statement: `Query.arguments_mix`.
-/

namespace DocumentClient

namespace QueryArgument

def options? : QueryArgument → Option QueryOptions
  | .options o => some o
  | _ => none

def positional? : QueryArgument → Option Json.Value
  | .positional v => some v
  | _ => none

/-- The arguments of each kind are the same ones in the same order. -/
structure SameKinds (args others : List QueryArgument) : Prop where
  options : args.filterMap options? = others.filterMap options?
  positional : args.filterMap positional? = others.filterMap positional?
  keywords : args.filterMap keyword? = others.filterMap keyword?

end QueryArgument

namespace SortedArguments

/-- The arguments of each kind, after those that are sorted already. At most one options object is
taken. -/
theorem add_eq (sorted : SortedArguments) (args : List QueryArgument) :
    sorted.add args =
      if (sorted.options.toList ++ args.filterMap QueryArgument.options?).length ≤ 1 then
        .ok
          { options := (sorted.options.toList ++ args.filterMap QueryArgument.options?).head?
            positional := sorted.positional ++ args.filterMap QueryArgument.positional?
            keywords := sorted.keywords ++ args.filterMap QueryArgument.keyword? }
      else .error .twoOptions := by
  fun_induction add sorted args with
  | case1 sorted =>
    obtain ⟨options, positional, keywords⟩ := sorted
    cases options <;> simp
  | case2 sorted o rest taken =>
    obtain ⟨first, taken⟩ := Option.isSome_iff_exists.mp taken
    simp [taken, QueryArgument.options?]
  | case3 sorted o rest free ih =>
    rw [ih, Option.not_isSome_iff_eq_none.mp free]
    rfl
  | case4 sorted v rest ih =>
    rw [ih, List.append_assoc]
    rfl
  | case5 sorted name v rest ih =>
    rw [ih, List.append_assoc]
    rfl

theorem add_of_sameKinds {args others : List QueryArgument}
    (same : QueryArgument.SameKinds args others) (sorted : SortedArguments) :
    sorted.add args = sorted.add others := by
  rw [add_eq, add_eq, same.options, same.positional, same.keywords]

end SortedArguments

theorem QueryOptions.within_none (o : QueryOptions) : o.within none = o := by
  unfold within
  cases o.queryContext <;> rfl

theorem QueryOptions.within_some (o : QueryOptions) (bucket scope : String) :
    o.within (some (bucket, scope)) =
      if o.queryContext.isNone then { o with queryContext := some (scopeContext bucket scope) }
      else o := by
  unfold within
  cases o.queryContext <;> rfl

namespace Query

theorem ofArguments_of_sameKinds {args others : List QueryArgument}
    (same : QueryArgument.SameKinds args others) (place : Option (String × String))
    (statement : String) :
    ofArguments place statement args = ofArguments place statement others := by
  rw [ofArguments_eq, ofArguments_eq, SortedArguments.add_of_sameKinds same]

/-- An options object alone. -/
theorem ofArguments_options (place : Option (String × String)) (statement : String)
    (o : QueryOptions) :
    ofArguments place statement [.options o] = ofOptions statement (o.within place) := by
  have sorted : SortedArguments.add {} [.options o] = .ok { options := some o } := rfl
  rw [ofArguments_eq, sorted]
  change (ofOptions statement (o.within place)).bind (·.setKeywords []) = _
  cases ofOptions statement (o.within place) <;> rfl

theorem create_eq (bucket scope : Option String) (statement : String)
    (args : List QueryArgument) :
    create bucket scope statement args =
      ofArguments (bucket.bind fun b => scope.map fun s => (b, s)) statement args := by
  cases bucket <;> cases scope <;> rfl

theorem atCluster_eq (statement : String) (o : QueryOptions) :
    atCluster statement o = ofOptions statement (o.within none) := by
  rw [atCluster, QueryOptions.within_none]

theorem scope_query_eq (s : Scope) (statement : String) (o : QueryOptions) :
    s.query statement o = ofOptions statement (o.within (some (s.bucket, s.name))) := by
  rw [Scope.query, QueryOptions.within_some]
  rfl

/-- Arguments of different kinds may be mixed in any way, for any place and statement. And at the
cluster as in a scope, an options object alone gives the same query, or the same refusal, as a list
of arguments that holds nothing else. -/
theorem arguments_mix :
    (∀ args others, QueryArgument.SameKinds args others →
      ∀ bucket scope statement,
        create bucket scope statement args = create bucket scope statement others) ∧
    (∀ statement o, atCluster statement o = atClusterWith statement [.options o]) ∧
    ∀ (s : Scope) statement o, s.query statement o = s.queryWith statement [.options o] := by
  refine ⟨?_, ?_, ?_⟩
  · intro args others same bucket scope statement
    rw [create_eq, create_eq, ofArguments_of_sameKinds same]
  · intro statement o
    rw [atCluster_eq, atClusterWith, create_eq, ofArguments_options]
    rfl
  · intro s statement o
    rw [scope_query_eq, Scope.queryWith, create_eq, ofArguments_options]
    rfl

theorem arguments_mix_of_three_kinds :
    let o : QueryOptions := { adhoc := some true, positional := some [.bool true] }
    let args : List QueryArgument :=
      [.options o, .keyword "adhoc" (.bool false), .positional .null, .keyword "limit" .null]
    let others : List QueryArgument :=
      [.positional .null, .keyword "adhoc" (.bool false), .keyword "limit" .null, .options o]
    let q : Query :=
      { statement := "SELECT 1", adhoc := some false, positional := [.null]
        named := [("limit", .null)] }
    QueryArgument.SameKinds args others ∧
      create (some "travel") none "SELECT 1" args = .ok q ∧
      create (some "travel") none "SELECT 1" others = .ok q := by
  intro o args others q
  have same : QueryArgument.SameKinds args others := ⟨rfl, rfl, rfl⟩
  have text : Text.trimChars "SELECT 1".toList ≠ [] := by decide
  have made : create (some "travel") none "SELECT 1" args = .ok q := by
    let sorted : SortedArguments := ⟨some o, [.null], [("adhoc", .bool false), ("limit", .null)]⟩
    have taken : SortedArguments.add {} args = .ok sorted := rfl
    have merged : sorted.merged none = { adhoc := some true, positional := some [.null] } := rfl
    have based : ofOptions "SELECT 1" (sorted.merged none) =
        .ok { statement := "SELECT 1", adhoc := some true, positional := [.null] } := by
      rw [merged, ofOptions, if_neg text]
      rfl
    rw [create_eq, ofArguments_eq, taken]
    simp only [Except.bind, Option.bind_some, Option.map_none, based]
    rfl
  exact ⟨same, made, (arguments_mix.1 args others same _ _ _).symm.trans made⟩

end Query
end DocumentClient
