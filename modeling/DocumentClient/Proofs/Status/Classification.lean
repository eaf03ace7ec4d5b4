import DocumentClient.Error

/-!
# What a status is taken for

The code of a status decides what kind of failure it reports, but for four codes that the details
qualify: what was not found or exists already is told apart by the kind of resource, an aborted
call and a precondition that failed by the reason. The name of the resource only stands in the
text. Details that cannot be read say nothing, not even what stands before the fault. Main
statement: `Error.status_classified`.
-/

namespace DocumentClient

/-- The part of the details that qualifies a code. -/
def StatusCode.qualifier : StatusCode → Wire.ErrorDetails → Option String
  | .notFound, details | .alreadyExists, details => some details.resourceType
  | .aborted, details | .failedPrecondition, details => some details.reason
  | _, _ => none

namespace Status
variable {s t : Status} {d d' : Wire.ErrorDetails}

theorem reading_of_ok (read : Wire.ErrorDetails.layout.decode s.details = .ok d) :
    s.reading = d := by
  rw [reading, read]

theorem reading_of_error {e : Wire.DecodeError}
    (failed : Wire.ErrorDetails.layout.decode s.details = .error e) : s.reading = {} := by
  rw [reading, failed]

theorem reading_of_no_details (missing : s.details = []) : s.reading = {} := by
  apply reading_of_ok
  rw [missing, Wire.Layout.decode, Wire.Layout.readFields_of_le (s := []) (Nat.le_refl 0)]
  rfl

theorem kindOf_congr {code : StatusCode} (same : code.qualifier d = code.qualifier d') :
    kindOf code d = kindOf code d' := by
  cases code with
  | notFound | alreadyExists =>
    have resource : d.resourceType = d'.resourceType := Option.some.inj same
    simp only [kindOf, resource]
  | aborted | failedPrecondition =>
    have reason : d.reason = d'.reason := Option.some.inj same
    simp only [kindOf, reason]
  | _ => rfl

/-- A call is worth a retry if the peer was not there, too slow or too busy, or the document was
locked. -/
theorem kindOf_retryable_iff (code : StatusCode) (d : Wire.ErrorDetails) :
    (kindOf code d).retryable = true ↔
      code ∈ [.unavailable, .deadlineExceeded, .resourceExhausted] ∨
        code = .failedPrecondition ∧ d.reason = "LOCKED" := by
  cases code with
  | failedPrecondition =>
    rw [kindOf]
    by_cases mismatch : d.reason = "CAS_MISMATCH"
    · simp [mismatch, ErrorKind.retryable]
    · by_cases locked : d.reason = "LOCKED"
      · simp [locked, ErrorKind.retryable]
      · by_cases path : d.reason = "PATH_MISMATCH" <;>
          simp [mismatch, locked, path, ErrorKind.retryable]
  | notFound | alreadyExists =>
    rw [kindOf]
    split
    · simp [ErrorKind.retryable]
    · split <;> simp [ErrorKind.retryable]
  | aborted =>
    rw [kindOf]
    split <;> simp [ErrorKind.retryable]
  | _ => simp [kindOf, ErrorKind.retryable]

theorem reason_of_reading {reason : String} (nonempty : reason ≠ "") :
    s.reading.reason = reason ↔
      ∃ d, Wire.ErrorDetails.layout.decode s.details = .ok d ∧ d.reason = reason := by
  cases read : Wire.ErrorDetails.layout.decode s.details with
  | ok d => simp [reading_of_ok read]
  | error e => simp [reading_of_error read, Ne.symm nonempty]

end Status

namespace Error

/-- How the failure that a status reports is told apart. -/
structure Classified (s : Status) : Prop where
  unread : ∀ e, Wire.ErrorDetails.layout.decode s.details = .error e →
    ofStatus s = ofStatus { s with details := [] }
  kind_congr : ∀ (t : Status) (d d' : Wire.ErrorDetails), t.code = s.code →
    Wire.ErrorDetails.layout.decode s.details = .ok d →
    Wire.ErrorDetails.layout.decode t.details = .ok d' →
    s.code.qualifier d = s.code.qualifier d' → (ofStatus t).kind = (ofStatus s).kind
  /-- The name of the resource is only added to the text. -/
  named : ∀ (t : Status) (d : Wire.ErrorDetails) (name : String), t.code = s.code →
    t.message = s.message → Wire.ErrorDetails.layout.decode s.details = .ok d →
    Wire.ErrorDetails.layout.decode t.details = .ok { d with resourceName := name } →
    ofStatus t = .reported (ofStatus s).kind
      (if name = "" then s.message else s.message ++ " (" ++ name ++ ")")
  retryable_iff : (ofStatus s).retryable = true ↔
    s.code ∈ [.unavailable, .deadlineExceeded, .resourceExhausted] ∨
      s.code = .failedPrecondition ∧
        ∃ d, Wire.ErrorDetails.layout.decode s.details = .ok d ∧ d.reason = "LOCKED"

theorem kind_ofStatus (s : Status) : (ofStatus s).kind = Status.kindOf s.code s.reading := rfl

/-- Every status is told apart by its code and by that part of its details which qualifies the
code, if the details can be read. -/
theorem status_classified (s : Status) : Classified s := by
  constructor
  · intro e failed
    have empty : Status.reading { s with details := [] } = {} :=
      Status.reading_of_no_details rfl
    simp only [ofStatus, Status.kind, Status.text, Status.reading_of_error failed, empty]
  · intro t d d' code read readOther same
    rw [kind_ofStatus, kind_ofStatus, Status.reading_of_ok read,
      Status.reading_of_ok readOther, code]
    exact (Status.kindOf_congr same).symm
  · intro t d name code message read readOther
    have unqualified : s.code.qualifier { d with resourceName := name } = s.code.qualifier d := by
      cases s.code <;> rfl
    rw [ofStatus, kind_ofStatus, Status.kind, Status.text, Status.reading_of_ok read,
      Status.reading_of_ok readOther, code, message, Status.kindOf_congr unqualified]
  · rw [retryable, kind_ofStatus, Status.kindOf_retryable_iff,
      Status.reason_of_reading (by decide)]

end Error
end DocumentClient
