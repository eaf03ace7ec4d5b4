import DocumentClient.Keyspace
import DocumentClient.Query.Arguments

/-!
# Handles

Buckets, scopes and collections by name. Opening one asks nobody. The transcoder set on a
bucket goes on to what is opened through it; a collection may have its own.
-/

namespace DocumentClient

structure Collection where
  keyspace : Keyspace
  transcoder : Option Transcoder := none

/-- A bucket, with the transcoder for what is opened through it. -/
structure Bucket where
  name : String
  transcoder : Option Transcoder := none

/-- A scope of a bucket. -/
structure Scope where
  bucket : String
  name : String
  transcoder : Option Transcoder := none

namespace Bucket

def scope (b : Bucket) (name : String) : Scope := ⟨b.name, name, b.transcoder⟩

def withTranscoder (b : Bucket) (t : Transcoder) : Bucket := { b with transcoder := some t }

/-- The bucket as it may be shown. -/
def display (b : Bucket) : String :=
  "Bucket \x7b name: " ++ Text.quoted b.name ++ ", .. \x7d"

end Bucket

namespace Scope

def collection (s : Scope) (name : String) : Collection := ⟨⟨s.bucket, s.name, name⟩, s.transcoder⟩

/-- The context of queries in the scope. -/
def queryContext (s : Scope) : String := scopeContext s.bucket s.name

/-- The scope as it may be shown. -/
def display (s : Scope) : String :=
  "Scope \x7b bucket: " ++ Text.quoted s.bucket ++ ", name: " ++ Text.quoted s.name
    ++ ", .. \x7d"

end Scope

/-- A collection in the default scope of a bucket. -/
def Bucket.collection (b : Bucket) (name : String) : Collection :=
  (b.scope defaultScope).collection name

namespace Collection

def withTranscoder (c : Collection) (t : Transcoder) : Collection :=
  { c with transcoder := some t }

/-- The collection as it may be shown. -/
def display (c : Collection) : String :=
  "Collection \x7b namespace: Namespace \x7b bucket: " ++ Text.quoted c.keyspace.bucket
    ++ ", scope: " ++ Text.quoted c.keyspace.scope
    ++ ", collection: " ++ Text.quoted c.keyspace.collection ++ " \x7d, transcoder: "
    ++ (match c.transcoder with
      | none => "None"
      | some t => "Some(" ++ t.name ++ ")")
    ++ ", .. \x7d"

end Collection

end DocumentClient
