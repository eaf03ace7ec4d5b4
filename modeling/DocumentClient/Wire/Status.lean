import DocumentClient.Wire.Layout

/-!
# Outcomes on the wire

What the server attaches to the failure of a whole call, and the outcome of one path of a
lookup.
-/

namespace DocumentClient.Wire

/-- The reason of a failure and the kind and name of what it is about. -/
structure ErrorDetails where
  reason : String := ""
  resourceType : String := ""
  resourceName : String := ""
deriving DecidableEq

def ErrorDetails.layout : Layout ErrorDetails where
  name := some "ErrorDetails"
  empty := {}
  fields :=
    [.single "reason" 1 .text (·.reason) (fun t m => { m with reason := t }),
      .single "resource_type" 2 .text (·.resourceType) (fun t m => { m with resourceType := t }),
      .single "resource_name" 3 .text (·.resourceName) (fun t m => { m with resourceName := t })]

/-- The outcome of one path; code 0 is success. -/
structure SpecStatus where
  code : Int32 := 0
  message : String := ""
deriving DecidableEq

def SpecStatus.layout : Layout SpecStatus where
  name := some "SpecStatus"
  empty := {}
  fields :=
    [.single "code" 1 .int32 (·.code) (fun n m => { m with code := n }),
      .single "message" 2 .text (·.message) (fun t m => { m with message := t })]

end DocumentClient.Wire
