import DocumentClient.Query.Metadata
import Mathlib.Data.List.GetD

/-!
# What metadata says

The signature and the profile of a query travel as text. An empty text says nothing; any other says
what the serializer reads from it, or is refused with the fault of the serializer. The rest of the
metadata can always be read. Main statements: `QueryMetadata.ofWire_eq_ok_iff` and
`QueryMetadata.ofWire_eq_error_iff`.
-/

namespace DocumentClient

namespace Serializer
variable {serializer : Serializer} {octets : Bytes}

/-- What an optional text says. -/
inductive PartSays (serializer : Serializer) : Bytes → Option Json.Value → Prop where
  | nothing : PartSays serializer [] none
  | value {octets : Bytes} {v : Json.Value} (given : octets ≠ [])
    (read : serializer.read octets = .ok v) : PartSays serializer octets (some v)

/-- An optional text that is there and is refused. -/
structure PartRefused (serializer : Serializer) (octets : Bytes) (fault : ContentFault) : Prop where
  given : octets ≠ []
  refused : serializer.read octets = .error fault

theorem readPart_eq_ok_iff {said : Option Json.Value} :
    QueryMetadata.readPart serializer octets = .ok said ↔ serializer.PartSays octets said := by
  rw [QueryMetadata.readPart]
  constructor
  · intro h
    split at h
    · next empty =>
      cases h
      exact empty ▸ .nothing
    · next given =>
      cases read : serializer.read octets with
      | ok v =>
        rw [read] at h
        cases h
        exact .value given read
      | error fault =>
        rw [read] at h
        cases h
  · intro h
    cases h with
    | nothing => rfl
    | value given read => rw [if_neg given, read]

theorem readPart_eq_error_iff {fault : ContentFault} :
    QueryMetadata.readPart serializer octets = .error fault ↔
      serializer.PartRefused octets fault := by
  rw [QueryMetadata.readPart]
  constructor
  · intro h
    split at h
    · cases h
    · next given =>
      cases read : serializer.read octets with
      | ok v =>
        rw [read] at h
        cases h
      | error other =>
        rw [read] at h
        cases h
        exact ⟨given, read⟩
  · rintro ⟨given, refused⟩
    rw [if_neg given, refused]

end Serializer

/-- The number of a state. -/
def QueryStatus.number : QueryStatus → Int32
  | .running => 0
  | .success => 1
  | .errors => 2
  | .completed => 3
  | .stopped => 4
  | .timeout => 5
  | .closed => 6
  | .fatal => 7
  | .aborted => 8
  | .unknown => 9

/-- A number says its state, and one that no state has says that the state is unknown. -/
inductive QueryStatus.Says : Int32 → QueryStatus → Prop where
  | known (s : QueryStatus) : Says s.number s
  | foreign {n : Int32} (other : ∀ s : QueryStatus, s.number ≠ n) : Says n .unknown

/-- What metadata says. -/
structure QueryMetadata.Says (serializer : Serializer) (w : Wire.QueryMetadata)
    (m : QueryMetadata) : Prop where
  requestId : m.requestId = w.requestId
  clientContextId : m.clientContextId = w.clientContextId
  status : QueryStatus.Says w.status m.status
  signature : serializer.PartSays w.signature m.signature
  metrics : m.metrics = w.metrics.map fun x =>
    { elapsed := ⟨x.elapsedMicros.toNat * 1000⟩
      execution := ⟨x.executionMicros.toNat * 1000⟩
      resultCount := x.resultCount
      resultSize := x.resultSize
      mutationCount := x.mutationCount
      sortCount := x.sortCount
      errorCount := x.errorCount
      warningCount := x.warningCount }
  warnings : m.warnings = w.warnings.map fun x => (x.code, x.message)
  profile : serializer.PartSays (w.profile.getD []) m.profile

/-- Why metadata cannot be read: its signature is refused, or else its profile is. -/
inductive QueryMetadata.Refused (serializer : Serializer) (w : Wire.QueryMetadata) :
    ContentFault → Prop where
  | signature {fault : ContentFault} (refused : serializer.PartRefused w.signature fault) :
    Refused serializer w fault
  | profile {said : Option Json.Value} {fault : ContentFault}
    (readable : serializer.PartSays w.signature said)
    (refused : serializer.PartRefused (w.profile.getD []) fault) : Refused serializer w fault

namespace QueryStatus

theorem ofWire_number (s : QueryStatus) : ofWire s.number = s := by cases s <;> decide

theorem ofWire_of_foreign {n : Int32} (other : ∀ s : QueryStatus, s.number ≠ n) :
    ofWire n = .unknown := by
  rw [ofWire]
  split
  · rfl
  · next natural =>
    refine List.getD_eq_default _ _ (Nat.le_of_not_lt fun small => ?_)
    have table : ∀ k < all.length, (all.getD k .unknown).number = Int32.ofNat k := by decide
    have whole : Int32.ofNat n.toInt.toNat = n := by
      have positive : 0 ≤ n.toInt := by simpa [Int32.le_iff_toInt_le] using Int32.not_lt.mp natural
      rw [← Int32.ofInt_eq_ofNat, Int.toNat_of_nonneg positive, Int32.ofInt_toInt]
    exact other _ ((table _ small).trans whole)

theorem says_iff {n : Int32} {s : QueryStatus} : Says n s ↔ ofWire n = s := by
  constructor
  · rintro (⟨⟩ | ⟨other⟩)
    · exact ofWire_number s
    · exact ofWire_of_foreign other
  · rintro rfl
    by_cases known : ∃ s : QueryStatus, s.number = n
    · obtain ⟨s, rfl⟩ := known
      rw [ofWire_number]
      exact .known s
    · have other : ∀ s : QueryStatus, s.number ≠ n := fun s same => known ⟨s, same⟩
      rw [ofWire_of_foreign other]
      exact .foreign other

end QueryStatus

namespace QueryMetadata
variable {serializer : Serializer} {w : Wire.QueryMetadata}

theorem ofWire_eq_ok_iff {m : QueryMetadata} :
    ofWire serializer w = .ok m ↔ Says serializer w m := by
  rw [ofWire]
  constructor
  · intro h
    cases signature : readPart serializer w.signature with
    | error fault => simp [signature] at h
    | ok said =>
      cases profile : readPart serializer (w.profile.getD []) with
      | error fault => simp [signature, profile] at h
      | ok more =>
        simp only [signature, profile] at h
        cases h
        exact ⟨rfl, rfl, QueryStatus.says_iff.mpr rfl, serializer.readPart_eq_ok_iff.mp signature,
          rfl, rfl, serializer.readPart_eq_ok_iff.mp profile⟩
  · intro h
    rw [serializer.readPart_eq_ok_iff.mpr h.signature, serializer.readPart_eq_ok_iff.mpr h.profile]
    have metrics : w.metrics.map metricsOfWire = m.metrics := h.metrics.symm
    simp only [metrics, QueryStatus.says_iff.mp h.status, ← h.requestId, ← h.clientContextId,
      ← h.warnings]

theorem ofWire_eq_error_iff {fault : ContentFault} :
    ofWire serializer w = .error fault ↔ Refused serializer w fault := by
  rw [ofWire]
  constructor
  · intro h
    cases signature : readPart serializer w.signature with
    | error other =>
      simp only [signature] at h
      cases h
      exact .signature (serializer.readPart_eq_error_iff.mp signature)
    | ok said =>
      cases profile : readPart serializer (w.profile.getD []) with
      | error other =>
        simp only [signature, profile] at h
        cases h
        exact .profile (serializer.readPart_eq_ok_iff.mp signature)
          (serializer.readPart_eq_error_iff.mp profile)
      | ok more => simp [signature, profile] at h
  · intro h
    cases h with
    | signature refused => rw [serializer.readPart_eq_error_iff.mpr refused]
    | profile readable refused =>
      rw [serializer.readPart_eq_ok_iff.mpr readable, serializer.readPart_eq_error_iff.mpr refused]

end QueryMetadata
end DocumentClient
