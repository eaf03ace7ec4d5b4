import DocumentClient.Handle

/-!
# Where queries are asked for

A query is asked for at the cluster or in a scope, with an options object alone or with any
arguments. Where the names of a bucket and a scope are given apart, only both together are a place.
-/

namespace DocumentClient

namespace Query

/-- The query for mixed arguments, with a bucket and a scope as far as they are given. -/
def create (bucket scope : Option String) (statement : String) (args : List QueryArgument) :
    Except QueryRefusal Query :=
  match bucket, scope with
  | some bucket, some scope => ofArguments (some (bucket, scope)) statement args
  | _, _ => ofArguments none statement args

/-- A query of the whole cluster. -/
def atCluster (statement : String) (o : QueryOptions) : Except QueryRefusal Query :=
  ofOptions statement o

def atClusterWith (statement : String) (args : List QueryArgument) : Except QueryRefusal Query :=
  create none none statement args

end Query

namespace Scope

/-- A query in a scope: names are resolved there unless the options say otherwise. -/
def query (s : Scope) (statement : String) (o : QueryOptions) : Except QueryRefusal Query :=
  let o := if o.queryContext.isNone then { o with queryContext := some s.queryContext } else o
  Query.ofOptions statement o

def queryWith (s : Scope) (statement : String) (args : List QueryArgument) :
    Except QueryRefusal Query :=
  Query.create (some s.bucket) (some s.name) statement args

end Scope
end DocumentClient
