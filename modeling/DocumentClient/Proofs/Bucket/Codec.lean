import DocumentClient.Proofs.Session.PathResults

/-!
# Bucket settings on the wire

Settings are read from a message exactly if the message is theirs and nothing about them is lost
in it: a maximal expiry must be of whole seconds, and a durability level must ask for something.
So reading gives accepted settings back up to these two, and writing gives a read message back.
Messages that cannot be read are those with a number that stands for nothing. A listing is read
bucket by bucket, all or none. Main statement: `Session.settings_survive_wire`.
-/

namespace DocumentClient

/-- Every enumerated setting of the message has a number that stands for something. -/
structure Wire.BucketSettings.Known (w : Wire.BucketSettings) : Prop where
  bucketType : w.bucketType ∈ ([0, 1, 2] : List Int32)
  eviction : ∀ n ∈ w.eviction, n ∈ ([0, 1, 2, 3] : List Int32)
  compression : ∀ n ∈ w.compression, n ∈ ([0, 1, 2] : List Int32)
  durability : ∀ n ∈ w.durability, n ∈ ([0, 1, 2] : List Int32)
  backend : ∀ n ∈ w.backend, n ∈ ([0, 1] : List Int32)
  conflict : ∀ n ∈ w.conflict, n ∈ ([0, 1, 2] : List Int32)

/-- Every value is listed and has a number of its own. -/
structure Numbering.Lawful {α : Type} (numbering : Numbering α) : Prop where
  complete : ∀ a, a ∈ numbering.all
  injective : ∀ a b, numbering.toWire a = numbering.toWire b → a = b

theorem BucketType.lawful : BucketType.numbering.Lawful :=
  ⟨by rintro (_ | _ | _) <;> decide, by rintro (_ | _ | _) (_ | _ | _) <;> decide⟩

theorem EvictionPolicy.lawful : EvictionPolicy.numbering.Lawful :=
  ⟨by rintro (_ | _ | _ | _) <;> decide, by rintro (_ | _ | _ | _) (_ | _ | _ | _) <;> decide⟩

theorem CompressionMode.lawful : CompressionMode.numbering.Lawful :=
  ⟨by rintro (_ | _ | _) <;> decide, by rintro (_ | _ | _) (_ | _ | _) <;> decide⟩

theorem StorageBackend.lawful : StorageBackend.numbering.Lawful :=
  ⟨by rintro (_ | _) <;> decide, by rintro (_ | _) (_ | _) <;> decide⟩

theorem ConflictResolution.lawful : ConflictResolution.numbering.Lawful :=
  ⟨by rintro (_ | _ | _) <;> decide, by rintro (_ | _ | _) (_ | _ | _) <;> decide⟩

section
variable {α : Type} {numbering : Numbering α}

/-- A number is read as the value that it is written for. -/
theorem Numbering.Lawful.ofWire_eq_ok_iff (lawful : numbering.Lawful) (n : Int32) (a : α) :
    numbering.ofWire n = .ok a ↔ numbering.toWire a = n := by
  rw [Numbering.ofWire, Numbering.ofWire?]
  cases found : numbering.all.find? fun b => numbering.toWire b = n with
  | none =>
    have unwritten := List.find?_eq_none.mp found a (lawful.complete a)
    simpa using unwritten
  | some b =>
    have written : numbering.toWire b = n := by simpa using List.find?_some found
    rw [Except.ok.injEq]
    constructor
    · rintro rfl
      exact written
    · rintro rfl
      exact lawful.injective b a written

/-- The numbers that can be read are those of the values. -/
theorem Numbering.Lawful.ofWire_isOk_iff (lawful : numbering.Lawful) (numbers : List Int32)
    (listed : (numbering.all.map numbering.toWire).Perm numbers) (n : Int32) :
    (∃ a, numbering.ofWire n = .ok a) ↔ n ∈ numbers := by
  simp only [lawful.ofWire_eq_ok_iff, ← listed.mem_iff, List.mem_map, lawful.complete, true_and]

end

namespace BucketSettings

section
variable {α : Type} {x : Option Int32} {y : Option α}

theorem readOptional_eq_ok_iff {numbering : Numbering α} (lawful : numbering.Lawful) :
    readOptional numbering.ofWire x = .ok y ↔ y.map numbering.toWire = x := by
  cases x with
  | none => cases y <;> simp [readOptional]
  | some n =>
    rw [readOptional]
    cases hn : numbering.ofWire n with
    | error why =>
      cases y with
      | none => simp
      | some a =>
        have unread := lawful.ofWire_eq_ok_iff n a
        rw [hn] at unread
        simpa using unread
    | ok b =>
      obtain rfl := (lawful.ofWire_eq_ok_iff n b).mp hn
      cases y with
      | none => simp
      | some a =>
        simp only [Except.ok.injEq, Option.some.injEq, Option.map_some]
        exact ⟨fun same => same ▸ rfl, fun same => (lawful.injective a b same).symm⟩

end

theorem readOptional_isOk_iff {α : Type} {read : Int32 → Except BucketRefusal α}
    {numbers : List Int32} (known : ∀ n, (∃ a, read n = .ok a) ↔ n ∈ numbers)
    (x : Option Int32) : (∃ y, readOptional read x = .ok y) ↔ ∀ n ∈ x, n ∈ numbers := by
  cases x with
  | none => simp [readOptional]
  | some n =>
    rw [readOptional]
    simp only [Option.mem_some_iff, forall_eq', ← known]
    cases hn : read n <;> simp

theorem readDurability_eq_ok_iff (n : Int32) (level : DurabilityLevel) :
    readDurability n = .ok level ↔ level.toWire = some n := by
  rw [readDurability, DurabilityLevel.ofWire]
  by_cases zero : n = 0
  · subst zero
    cases level <;> simp [DurabilityLevel.toWire]
  · by_cases one : n = 1
    · subst one
      cases level <;> simp [DurabilityLevel.toWire]
    · by_cases two : n = 2
      · subst two
        cases level <;> simp [DurabilityLevel.toWire]
      · cases level <;>
          simp [DurabilityLevel.toWire, zero, one, two, Ne.symm zero, Ne.symm one, Ne.symm two]

theorem readDurability_isOk_iff (n : Int32) :
    (∃ level, readDurability n = .ok level) ↔ n ∈ ([0, 1, 2] : List Int32) := by
  simp only [readDurability_eq_ok_iff]
  constructor
  · rintro ⟨_ | _ | _ | _, ⟨⟩⟩ <;> decide
  · intro known
    simp only [List.mem_cons, List.not_mem_nil, or_false] at known
    rcases known with rfl | rfl | rfl
    exacts [⟨.majority, rfl⟩, ⟨.majorityAndPersistToActive, rfl⟩, ⟨.persistToMajority, rfl⟩]

/-- A level that is read asks for something. -/
theorem readOptional_durability_eq_ok_iff {x : Option Int32} {y : Option DurabilityLevel} :
    readOptional readDurability x = .ok y ↔
      y.bind DurabilityLevel.toWire = x ∧ y ≠ some .none := by
  cases x with
  | none =>
    cases y with
    | none => simp [readOptional]
    | some level => cases level <;> simp [readOptional, DurabilityLevel.toWire]
  | some n =>
    have read := readDurability_eq_ok_iff n
    rw [readOptional]
    cases y with
    | none => cases hn : readDurability n <;> simp
    | some level =>
      have asks : level.toWire = some n → level ≠ .none := by
        rintro h rfl
        cases h
      rw [Option.bind_some, ← read, ne_eq, Option.some.injEq]
      constructor
      · intro done
        have readLevel : readDurability n = .ok level := by
          cases hn : readDurability n with
          | error why => simp [hn] at done
          | ok other => simpa [hn] using done
        exact ⟨readLevel, asks ((read level).mp readLevel)⟩
      · rintro ⟨readLevel, -⟩
        rw [readLevel]

/-- Nothing about the settings is lost on the wire. -/
structure Exact (s : BucketSettings) : Prop where
  maxExpiry : ∀ d ∈ s.maxExpiry, ∃ n : UInt32, d = .ofSeconds n.toNat
  durability : s.durability ≠ some .none

theorem maxExpirySecs_read (x : Option UInt32) :
    ((x.map fun n => Duration.ofSeconds n.toNat).map fun d => UInt32.ofNat d.seconds) = x := by
  cases x with
  | none => rfl
  | some n => simp [Duration.ofSeconds, Duration.seconds]

theorem maxExpiry_sent {x : Option Duration}
    (whole : ∀ d ∈ x, ∃ n : UInt32, d = .ofSeconds n.toNat) :
    ((x.map fun d => UInt32.ofNat d.seconds).map fun n => Duration.ofSeconds n.toNat) = x := by
  cases x with
  | none => rfl
  | some d =>
    obtain ⟨n, rfl⟩ := whole d rfl
    simp [Duration.ofSeconds, Duration.seconds]

/-- Settings are read from the message that is written for them, if that says all of them. -/
theorem ofWire_eq_ok_iff (w : Wire.BucketSettings) (s : BucketSettings) :
    ofWire w = .ok s ↔ s.toWire = w ∧ s.Exact := by
  simp only [ofWire, bind_eq_ok_iff, pure, Except.pure, Except.ok.injEq,
    BucketType.lawful.ofWire_eq_ok_iff, readOptional_eq_ok_iff EvictionPolicy.lawful,
    readOptional_eq_ok_iff CompressionMode.lawful, readOptional_eq_ok_iff StorageBackend.lawful,
    readOptional_eq_ok_iff ConflictResolution.lawful, readOptional_durability_eq_ok_iff]
  constructor
  · rintro ⟨bucketType, ht, eviction, he, compression, hc, durability, ⟨hd, asks⟩, backend, hb,
      conflict, hf, rfl⟩
    refine ⟨?_, ?_, asks⟩
    · rw [toWire]
      simp only [ht, he, hc, hd, hb, hf, maxExpirySecs_read]
    · rintro d hd
      obtain ⟨n, -, rfl⟩ := Option.map_eq_some_iff.mp hd
      exact ⟨n, rfl⟩
  · rintro ⟨rfl, exact⟩
    refine ⟨_, rfl, _, rfl, _, rfl, _, ⟨rfl, exact.durability⟩, _, rfl, _, rfl, ?_⟩
    have kept : (s.toWire.maxExpirySecs.map fun n => Duration.ofSeconds n.toNat) = s.maxExpiry :=
      maxExpiry_sent exact.maxExpiry
    rw [kept]
    rfl

theorem ofWire_isOk_iff (w : Wire.BucketSettings) : (∃ s, ofWire w = .ok s) ↔ w.Known := by
  have bucketType := BucketType.lawful.ofWire_isOk_iff [0, 1, 2] (by decide)
  have eviction := readOptional_isOk_iff
    (EvictionPolicy.lawful.ofWire_isOk_iff [0, 1, 2, 3] (by decide))
  have compression := readOptional_isOk_iff
    (CompressionMode.lawful.ofWire_isOk_iff [0, 1, 2] (by decide))
  have durability := readOptional_isOk_iff readDurability_isOk_iff
  have backend := readOptional_isOk_iff
    (StorageBackend.lawful.ofWire_isOk_iff [0, 1] (by decide))
  have conflict := readOptional_isOk_iff
    (ConflictResolution.lawful.ofWire_isOk_iff [0, 1, 2] (by decide))
  simp only [ofWire, bind_eq_ok_iff, pure, Except.pure, Except.ok.injEq]
  constructor
  · rintro ⟨s, a, ha, b, hb, c, hc, d, hd, e, he, f, hf, -⟩
    exact ⟨(bucketType _).mp ⟨a, ha⟩, (eviction _).mp ⟨b, hb⟩, (compression _).mp ⟨c, hc⟩,
      (durability _).mp ⟨d, hd⟩, (backend _).mp ⟨e, he⟩, (conflict _).mp ⟨f, hf⟩⟩
  · intro known
    obtain ⟨a, ha⟩ := (bucketType _).mpr known.bucketType
    obtain ⟨b, hb⟩ := (eviction _).mpr known.eviction
    obtain ⟨c, hc⟩ := (compression _).mpr known.compression
    obtain ⟨d, hd⟩ := (durability _).mpr known.durability
    obtain ⟨e, he⟩ := (backend _).mpr known.backend
    obtain ⟨f, hf⟩ := (conflict _).mpr known.conflict
    exact ⟨_, a, ha, b, hb, c, hc, d, hd, e, he, f, hf, rfl⟩

/-- What the wire keeps of settings. -/
def sent (s : BucketSettings) : BucketSettings :=
  { s with
    maxExpiry := s.maxExpiry.map fun d => .ofSeconds d.seconds
    durability := if s.durability = some .none then none else s.durability }

theorem toWire_sent (s : BucketSettings) : s.sent.toWire = s.toWire := by
  have maxExpiry : ((s.maxExpiry.map fun d => Duration.ofSeconds d.seconds).map
      fun d => UInt32.ofNat d.seconds) = s.maxExpiry.map fun d => UInt32.ofNat d.seconds := by
    cases s.maxExpiry <;> simp [Duration.ofSeconds, Duration.seconds]
  have durability : (if s.durability = some .none then none else s.durability).bind
      DurabilityLevel.toWire = s.durability.bind DurabilityLevel.toWire := by
    split
    · next silent =>
      rw [silent]
      rfl
    · rfl
  simp only [toWire, sent, maxExpiry, durability]

theorem exact_sent {s : BucketSettings} (accepted : s.validate = .ok ()) : s.sent.Exact := by
  constructor
  · intro d hd
    obtain ⟨d', hd', rfl⟩ := Option.map_eq_some_iff.mp hd
    have uncut := maxExpirySecs_of_validate accepted
    rw [toWire, hd'] at uncut
    exact ⟨UInt32.ofNat d'.seconds, congrArg Duration.ofSeconds (Option.some.inj uncut).symm⟩
  · rw [sent]
    split
    · simp
    · next asks => exact asks

/-- A listing is read in its order and as a whole. -/
theorem listOfWire_eq_ok_iff (ws : List Wire.BucketSettings) (ss : List BucketSettings) :
    listOfWire ws = .ok ss ↔ ws.map ofWire = ss.map .ok := by
  induction ws generalizing ss with
  | nil => cases ss <;> simp [listOfWire]
  | cons w rest ih =>
    rw [listOfWire, List.map_cons]
    cases ofWire w with
    | error why => cases ss <;> simp
    | ok s =>
      cases ss with
      | nil => cases listOfWire rest <;> simp
      | cons s' ss =>
        rw [List.map_cons, List.cons.injEq, ← ih]
        cases listOfWire rest <;> simp

theorem listOfWire_isOk_iff (ws : List Wire.BucketSettings) :
    (∃ ss, listOfWire ws = .ok ss) ↔ ∀ w ∈ ws, w.Known := by
  induction ws with
  | nil => simp [listOfWire]
  | cons w rest ih =>
    rw [List.forall_mem_cons, ← ih, ← ofWire_isOk_iff, listOfWire]
    cases ofWire w with
    | error why => simp
    | ok s => cases listOfWire rest <;> simp

end BucketSettings

theorem BucketManager.limit_of_resolve (configuration : Configuration) {options : CallOptions}
    {fields : RequestFields} (resolved : options.resolve .management = .ok fields) :
    limit configuration options =
      .ok (fields.timeout?.getD configuration.managementTimeout) := by
  rw [limit, resolved]
  rfl

namespace Session

/-- The answer to a listing that is served. -/
theorem perform_getAllBuckets {s : Session} {options : CallOptions} {fields : RequestFields}
    {reply : Wire.ListBucketsResponse} (resolved : options.resolve .management = .ok fields)
    (serves : s.Serves .listBuckets
      (fields.timeout?.getD s.configuration.managementTimeout) reply) :
    (s.perform (.getAllBuckets options)).1 =
      .ofResult .buckets (BucketManager.readListing reply) := by
  have prepared : BucketManager.getAll s.configuration options =
      .ok ⟨.management, "buckets", fields.timeout?.getD s.configuration.managementTimeout,
        .listBuckets, {}, BucketManager.readListing⟩ := by
    rw [BucketManager.getAll, BucketManager.limit_of_resolve s.configuration resolved]
    rfl
  obtain ⟨deadline, -, ran⟩ := exchange_of_serves serves _ _ _ _ _
  rw [perform, prepared, ran]

/-- Accepted settings are read back from their message but for parts of a second and a level that
asks for nothing, and a message that can be read is written back as it was. All of a listing is
read, in its order, or nothing. -/
theorem settings_survive_wire :
    (∀ settings : BucketSettings, settings.validate = .ok () →
      BucketSettings.ofWire settings.toWire = .ok settings.sent ∧
      settings.toWire.maxExpirySecs.map UInt32.toNat = settings.maxExpiry.map Duration.seconds) ∧
    (∀ w : Wire.BucketSettings,
      ((∃ settings, BucketSettings.ofWire w = .ok settings) ↔ w.Known) ∧
      ∀ settings, BucketSettings.ofWire w = .ok settings → settings.toWire = w) ∧
    ∀ (s : Session) (options : CallOptions) (fields : RequestFields)
      (reply : Wire.ListBucketsResponse), options.resolve .management = .ok fields →
      s.Serves .listBuckets (fields.timeout?.getD s.configuration.managementTimeout) reply →
      (∀ all, (s.perform (.getAllBuckets options)).1 = .buckets all ↔
        reply.buckets.map BucketSettings.ofWire = all.map .ok) ∧
      ((∃ e, (s.perform (.getAllBuckets options)).1 = .failed e) ↔
        ∃ w ∈ reply.buckets, ¬ w.Known) := by
  refine ⟨fun settings accepted => ⟨?_, ?_⟩, fun w => ⟨?_, ?_⟩, ?_⟩
  · rw [BucketSettings.ofWire_eq_ok_iff]
    exact ⟨settings.toWire_sent, BucketSettings.exact_sent accepted⟩
  · exact BucketSettings.maxExpirySecs_of_validate accepted
  · exact BucketSettings.ofWire_isOk_iff w
  · intro settings read
    exact ((BucketSettings.ofWire_eq_ok_iff w settings).mp read).1
  · intro s options fields reply resolved serves
    rw [perform_getAllBuckets resolved serves, BucketManager.readListing]
    constructor
    · intro all
      rw [← BucketSettings.listOfWire_eq_ok_iff]
      cases BucketSettings.listOfWire reply.buckets <;> simp [orRefuse]
    · have partly : (∃ w ∈ reply.buckets, ¬ w.Known) ↔ ¬ ∀ w ∈ reply.buckets, w.Known := by
        simp only [not_forall, exists_prop]
      rw [partly, ← BucketSettings.listOfWire_isOk_iff]
      cases BucketSettings.listOfWire reply.buckets <;> simp [orRefuse]

theorem settings_survive_wire_of_listing :
    let settings : BucketSettings :=
      { name := "travel", eviction := some .valueOnly, maxExpiry := some (.ofMillis 1500)
        durability := some .none }
    let other : Wire.BucketSettings := { name := "x", eviction := some 3, durability := some 0 }
    let listing (w : Wire.BucketSettings) : Session :=
      { client := { configuration := {} }
        peer := Peer.setReplies {} .listBuckets [.ok ⟨[settings.toWire, w]⟩] }
    settings.validate = .ok () ∧
    ((listing other).perform (.getAllBuckets {})).1 =
      .buckets [{ settings with maxExpiry := some (.ofSeconds 1), durability := none },
        { name := "x", ramQuotaMb := 0, eviction := some .noEviction
          durability := some .majority }] ∧
    ∃ e, ((listing { other with eviction := some 4 }).perform (.getAllBuckets {})).1 =
      .failed e := by
  intro settings other listing
  have accepted : settings.validate = .ok () := by decide
  have short : (Configuration.managementTimeout {}).hours ≤ Deadline.maxAmount := by decide
  have served (w : Wire.BucketSettings) := settings_survive_wire.2.2 (listing w) {} _ _ rfl
    ⟨short, (listing w).peer.inTime_of_undelayed rfl _, rfl⟩
  refine ⟨accepted, ?_, ?_⟩
  · rw [(served other).1, List.map_cons, (settings_survive_wire.1 settings accepted).1]
    rfl
  · rw [(served _).2]
    refine ⟨_, List.mem_cons_of_mem _ List.mem_cons_self, fun known => ?_⟩
    exact absurd (known.eviction 4 rfl) (by decide)

end Session
end DocumentClient
