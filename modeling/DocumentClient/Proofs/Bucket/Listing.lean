import DocumentClient.Proofs.Bucket.Codec

/-!
# One bucket in a listing

One bucket is found in the listing of all of them, and a listing is read as a whole. So the first
bucket that cannot be read decides the answer, whatever its name is; if there is none, the answer
is about the first bucket of the name and nothing else in the listing matters. Main statement:
`Session.bucket_found`.
-/

namespace DocumentClient
namespace BucketSettings

/-- A listing fails with its first bucket that cannot be read. -/
theorem listOfWire_eq_error {before after : List Wire.BucketSettings} {w : Wire.BucketSettings}
    {why : BucketRefusal} (known : ∀ v ∈ before, v.Known) (refused : ofWire w = .error why) :
    listOfWire (before ++ w :: after) = .error why := by
  induction before with
  | nil => simp only [List.nil_append, listOfWire, refused]
  | cons v before ih =>
    rw [List.forall_mem_cons] at known
    obtain ⟨s, read⟩ := (ofWire_isOk_iff v).mpr known.1
    simp only [List.cons_append, listOfWire, read, ih known.2]

/-- Buckets that can be read do not change why a listing cannot. -/
theorem listOfWire_filter_eq_error {keep : Wire.BucketSettings → Bool}
    {ws : List Wire.BucketSettings} {why : BucketRefusal}
    (known : ∀ w ∈ ws, keep w = false → w.Known) :
    listOfWire (ws.filter keep) = .error why ↔ listOfWire ws = .error why := by
  induction ws with
  | nil => rfl
  | cons w rest ih =>
    rw [List.forall_mem_cons] at known
    have later := ih known.2
    by_cases kept : keep w = true
    · rw [List.filter_cons_of_pos kept, listOfWire, listOfWire]
      cases ofWire w with
      | error why' => rfl
      | ok s =>
        cases filtered : listOfWire (rest.filter keep) <;> cases read : listOfWire rest <;>
          simp_all
    · obtain ⟨s, read⟩ := (ofWire_isOk_iff w).mpr (known.1 (by simpa using kept))
      rw [List.filter_cons_of_neg kept, later, listOfWire, read]
      cases listOfWire rest <;> simp

theorem name_of_ofWire {w : Wire.BucketSettings} {s : BucketSettings} (read : ofWire w = .ok s) :
    s.name = w.name := by
  rw [← ((ofWire_eq_ok_iff w s).mp read).1, toWire]

end BucketSettings

namespace BucketManager
variable {name : String} {ws : List Wire.BucketSettings} {why : BucketRefusal}

/-- The first bucket of a name as it is listed, if it can be read. -/
def named (name : String) (ws : List Wire.BucketSettings) : Except Error BucketSettings :=
  match ws.find? fun w => w.name = name with
  | none => .error (.bucketMissing name)
  | some w => orRefuse .bucket (BucketSettings.ofWire w)

/-- What is found of a name in a listing. -/
def found (name : String) (ws : List Wire.BucketSettings) : Except Error BucketSettings :=
  (readListing ⟨ws⟩).bind (findByName name)

theorem named_eq_missing_iff :
    named name ws = .error (.bucketMissing name) ↔ ∀ w ∈ ws, w.name ≠ name := by
  rw [named]
  cases first : ws.find? fun w => w.name = name with
  | none => simpa using first
  | some w =>
    have listed := List.mem_of_find?_eq_some first
    have same : w.name = name := by simpa using List.find?_some first
    constructor
    · intro missing
      dsimp only at missing
      cases read : BucketSettings.ofWire w <;> simp [read, orRefuse] at missing
    · intro others
      exact absurd same (others w listed)

theorem named_filter : named name (ws.filter fun w => w.name = name) = named name ws := by
  simp [named, List.find?_filter]

theorem findByName_of_listOfWire {settings : List BucketSettings}
    (read : BucketSettings.listOfWire ws = .ok settings) :
    findByName name settings = named name ws := by
  rw [BucketSettings.listOfWire_eq_ok_iff] at read
  rw [findByName, named]
  induction ws generalizing settings with
  | nil =>
    obtain rfl : settings = [] := by simpa using read
    rfl
  | cons w rest ih =>
    cases settings with
    | nil => cases read
    | cons s settings =>
      rw [List.map_cons, List.map_cons, List.cons.injEq] at read
      have same := BucketSettings.name_of_ofWire read.1
      by_cases hit : w.name = name
      · rw [List.find?_cons_of_pos (by simpa [same] using hit),
          List.find?_cons_of_pos (by simpa using hit)]
        dsimp only
        rw [read.1]
        rfl
      · rw [List.find?_cons_of_neg (by simpa [same] using hit),
          List.find?_cons_of_neg (by simpa using hit)]
        exact ih read.2

theorem found_of_unreadable (failed : BucketSettings.listOfWire ws = .error why) :
    found name ws = .error (.refused (.bucket why)) := by
  rw [found, readListing, failed]
  rfl

theorem found_of_readable (known : ∀ w ∈ ws, w.Known) : found name ws = named name ws := by
  obtain ⟨settings, read⟩ := (BucketSettings.listOfWire_isOk_iff ws).mpr known
  rw [found, readListing, read]
  exact findByName_of_listOfWire read

/-- Buckets of other names that can be read do not matter. -/
theorem found_filter (known : ∀ w ∈ ws, w.name ≠ name → w.Known) :
    found name (ws.filter fun w => w.name = name) = found name ws := by
  have others : ∀ w ∈ ws, decide (w.name = name) = false → w.Known := by
    intro w mem other
    exact known w mem (by simpa using other)
  by_cases readable : ∀ w ∈ ws, w.Known
  · have kept : ∀ w ∈ ws.filter (fun w => w.name = name), w.Known := fun w mem =>
      readable w (List.mem_filter.mp mem).1
    rw [found_of_readable kept, found_of_readable readable, named_filter]
  · rw [← BucketSettings.listOfWire_isOk_iff] at readable
    cases failed : BucketSettings.listOfWire ws with
    | ok settings => exact absurd ⟨settings, failed⟩ readable
    | error why =>
      rw [found_of_unreadable failed,
        found_of_unreadable ((BucketSettings.listOfWire_filter_eq_error others).mpr failed)]

/-- What is found of a name, by the listing that it is looked for in. -/
structure FoundIn (name : String) (ws : List Wire.BucketSettings)
    (answer : Except Error BucketSettings) : Prop where
  readable : (∀ w ∈ ws, w.Known) → answer = named name ws
  missing_iff : (∀ w ∈ ws, w.Known) →
    (answer = .error (.bucketMissing name) ↔ ∀ w ∈ ws, w.name ≠ name)
  unreadable : ∀ before w after why, ws = before ++ w :: after → (∀ v ∈ before, v.Known) →
    BucketSettings.ofWire w = .error why → answer = .error (.refused (.bucket why))
  /-- The first bucket that cannot be read, if there is one, must be refused as that of the name
  is. -/
  named_iff : answer = named name ws ↔
    ∀ before w after why, ws = before ++ w :: after → (∀ v ∈ before, v.Known) →
      BucketSettings.ofWire w = .error why → named name ws = .error (.refused (.bucket why))

/-- A listing can be read or has a first bucket that cannot. -/
theorem known_or_unreadable (ws : List Wire.BucketSettings) :
    (∀ w ∈ ws, w.Known) ∨ ∃ before w after why, ws = before ++ w :: after ∧
      (∀ v ∈ before, v.Known) ∧ BucketSettings.ofWire w = .error why := by
  induction ws with
  | nil => exact .inl (List.forall_mem_nil _)
  | cons w rest ih =>
    cases read : BucketSettings.ofWire w with
    | error why => exact .inr ⟨[], w, rest, why, rfl, List.forall_mem_nil _, read⟩
    | ok s =>
      have known := (BucketSettings.ofWire_isOk_iff w).mp ⟨s, read⟩
      rcases ih with all | ⟨before, v, after, why, rfl, early, refused⟩
      · exact .inl (List.forall_mem_cons.mpr ⟨known, all⟩)
      · exact .inr ⟨w :: before, v, after, why, rfl, List.forall_mem_cons.mpr ⟨known, early⟩,
          refused⟩

theorem foundIn_found (name : String) (ws : List Wire.BucketSettings) :
    FoundIn name ws (found name ws) := by
  have unreadable : ∀ before w after why, ws = before ++ w :: after → (∀ v ∈ before, v.Known) →
      BucketSettings.ofWire w = .error why → found name ws = .error (.refused (.bucket why)) := by
    rintro before w after why rfl known refused
    exact found_of_unreadable (BucketSettings.listOfWire_eq_error known refused)
  refine ⟨found_of_readable, ?_, unreadable, ?_, ?_⟩
  · intro known
    rw [found_of_readable known, named_eq_missing_iff]
  · intro same before w after why split known refused
    rw [← same, unreadable before w after why split known refused]
  · intro alike
    rcases known_or_unreadable ws with known | ⟨before, w, after, why, split, known, refused⟩
    · exact found_of_readable known
    · rw [unreadable before w after why split known refused,
        alike before w after why split known refused]

end BucketManager

namespace Session

theorem perform_getBucket {s : Session} {name : String} {options : CallOptions}
    {fields : RequestFields} {reply : Wire.ListBucketsResponse}
    (valid : checkBucketName name = .ok ()) (resolved : options.resolve .management = .ok fields)
    (serves : s.Serves .listBuckets
      (fields.timeout?.getD s.configuration.managementTimeout) reply) :
    (s.perform (.getBucket name options)).1 =
      .ofResult .bucket (BucketManager.found name reply.buckets) := by
  have prepared : BucketManager.get s.configuration name options =
      .ok ⟨.management, "buckets", fields.timeout?.getD s.configuration.managementTimeout,
        .listBuckets, {},
        fun reply => (BucketManager.readListing reply).bind (BucketManager.findByName name)⟩ := by
    rw [BucketManager.get, valid, BucketManager.limit_of_resolve s.configuration resolved]
    rfl
  obtain ⟨deadline, -, ran⟩ := exchange_of_serves serves _ _ _ _ _
  rw [perform, prepared, ran]
  rfl

/-- The bucket of a valid name is found in the listing that is served: if all of it can be read, the
answer is about the first bucket of the name; if not, it is the refusal of the first bucket that
cannot be read. Buckets of other names never matter as long as they can be read. -/
theorem bucket_found {name : String} (valid : checkBucketName name = .ok ())
    {options : CallOptions} {fields : RequestFields}
    (resolved : options.resolve .management = .ok fields) :
    (∀ (s : Session) (reply : Wire.ListBucketsResponse),
      s.Serves .listBuckets (fields.timeout?.getD s.configuration.managementTimeout) reply →
      ∃ answer, (s.perform (.getBucket name options)).1 = .ofResult .bucket answer ∧
        BucketManager.FoundIn name reply.buckets answer) ∧
    ∀ (s t : Session) (reply other : Wire.ListBucketsResponse),
      s.Serves .listBuckets (fields.timeout?.getD s.configuration.managementTimeout) reply →
      t.Serves .listBuckets (fields.timeout?.getD t.configuration.managementTimeout) other →
      (∀ w ∈ reply.buckets ++ other.buckets, w.name ≠ name → w.Known) →
      reply.buckets.filter (fun w => w.name = name) =
        other.buckets.filter (fun w => w.name = name) →
      (s.perform (.getBucket name options)).1 = (t.perform (.getBucket name options)).1 := by
  constructor
  · intro s reply serves
    exact ⟨_, perform_getBucket valid resolved serves, BucketManager.foundIn_found _ _⟩
  · intro s t reply other servesFirst servesSecond known same
    rw [List.forall_mem_append] at known
    rw [perform_getBucket valid resolved servesFirst, perform_getBucket valid resolved servesSecond,
      ← BucketManager.found_filter known.1, ← BucketManager.found_filter known.2, same]

/-- The second of two buckets is found, a bucket that is not listed is missing, and a bucket of a
mode that nobody knows hides the one behind it. -/
theorem bucket_found_of_listing :
    let travel : Wire.BucketSettings := { name := "travel", ramQuotaMb := 100 }
    let other : Wire.BucketSettings := { name := "x", eviction := some 3, durability := some 0 }
    let newer : Wire.BucketSettings := { name := "y", compression := some 42 }
    let listing (ws : List Wire.BucketSettings) : Session :=
      { client := { configuration := {} }
        peer := Peer.setReplies {} .listBuckets [.ok ⟨ws⟩] }
    ((listing [other, travel]).perform (.getBucket "travel" {})).1 = .bucket { name := "travel" } ∧
    ((listing [other]).perform (.getBucket "travel" {})).1 = .failed (.bucketMissing "travel") ∧
    ((listing [newer, travel]).perform (.getBucket "travel" {})).1 =
      .failed (.refused (.bucket (.unknownNumber "CompressionMode" 42))) := by
  intro travel other newer listing
  have valid : checkBucketName "travel" = .ok () := by decide
  have resolved : CallOptions.resolve {} .management = .ok .empty := rfl
  have short : (Configuration.managementTimeout {}).hours ≤ Deadline.maxAmount := by decide
  have told (ws : List Wire.BucketSettings) := (bucket_found valid resolved).1 (listing ws) ⟨ws⟩
    ⟨short, (listing ws).peer.inTime_of_undelayed rfl _, rfl⟩
  have travelKnown : travel.Known := (BucketSettings.ofWire_isOk_iff _).mp ⟨_, rfl⟩
  have otherKnown : other.Known := (BucketSettings.ofWire_isOk_iff _).mp ⟨_, rfl⟩
  refine ⟨?_, ?_, ?_⟩
  · obtain ⟨answer, same, inListing⟩ := told [other, travel]
    rw [same, inListing.readable (by simp [travelKnown, otherKnown])]
    rfl
  · obtain ⟨answer, same, inListing⟩ := told [other]
    rw [same, (inListing.missing_iff (by simp [otherKnown])).mpr (by decide)]
    rfl
  · obtain ⟨answer, same, inListing⟩ := told [newer, travel]
    rw [same, inListing.unreadable [] newer [travel] _ rfl (List.forall_mem_nil _) rfl]
    rfl

/-- A listed bucket is found until another one with a mode that nobody knows stands behind it, and
of a bucket that is not listed it is then not said that it is missing. -/
theorem bucket_hidden_by_other :
    let travel : Wire.BucketSettings := { name := "travel", ramQuotaMb := 100 }
    let newer : Wire.BucketSettings := { name := "y", compression := some 42 }
    let listing (ws : List Wire.BucketSettings) : Session :=
      { client := { configuration := {} }
        peer := Peer.setReplies {} .listBuckets [.ok ⟨ws⟩] }
    let hidden : Answer := .failed (.refused (.bucket (.unknownNumber "CompressionMode" 42)))
    ((listing [travel]).perform (.getBucket "travel" {})).1 = .bucket { name := "travel" } ∧
    ((listing [travel, newer]).perform (.getBucket "travel" {})).1 = hidden ∧
    ((listing [newer]).perform (.getBucket "travel" {})).1 = hidden := by
  intro travel newer listing hidden
  have short : (Configuration.managementTimeout {}).hours ≤ Deadline.maxAmount := by decide
  have told (ws : List Wire.BucketSettings) :
      ((listing ws).perform (.getBucket "travel" {})).1 =
        .ofResult .bucket (BucketManager.found "travel" ws) :=
    perform_getBucket (by decide) rfl ⟨short, (listing ws).peer.inTime_of_undelayed rfl _, rfl⟩
  rw [told, told, told]
  exact ⟨rfl, rfl, rfl⟩

end Session
end DocumentClient
