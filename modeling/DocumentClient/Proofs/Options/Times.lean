import DocumentClient.Connection.Deadline
import DocumentClient.Proofs.Options.Effective
import DocumentClient.Proofs.Requests.Parts

/-!
# Times in requests

Times are cut to whole units when they are resolved: a timeout to microseconds, an expiry to
seconds. The checks before that are made on the uncut time, so that a positive time of less than
one unit passes and is sent as 0, which is no time at all for a call and no expiry for a document
or a bucket. Timeouts are checked against what 64 bits hold, which is more than the header of a
deadline can state. Main statements: `limit_of_timeout`, which says exactly when an accepted
timeout can be used, and `expiry_sent`, which says so of lifetimes.
-/

namespace DocumentClient

namespace Duration

def hours (d : Duration) : Nat := d.nanoseconds / TimeUnit.hour.nanoseconds

/-- The seconds of a duration, a part of a second counting as one. -/
def secondsUp (d : Duration) : Nat := (d.nanoseconds + 999999999) / 1000000000

theorem micros_ofMicros (n : Nat) : (ofMicros n).micros = n := Nat.mul_div_cancel n (by decide)

theorem seconds_ofSeconds (n : Nat) : (ofSeconds n).seconds = n := Nat.mul_div_cancel n (by decide)

/-- An hour has whole microseconds, so that none is lost when a time is cut to them. -/
theorem hours_ofMicros_micros (d : Duration) : (ofMicros d.micros).hours = d.hours := by
  simp only [hours, ofMicros, micros, TimeUnit.nanoseconds]
  omega

end Duration

theorem Operation.timeout_mem_options (operation : Operation) :
    OptionKind.timeout ∈ operation.options := by
  cases operation <;> decide

/-- Hours are the coarsest unit of a header. -/
theorem Deadline.header?_isSome_iff (d : Duration) :
    (Deadline.header? d).isSome ↔ d.hours ≤ Deadline.maxAmount := by
  rw [header?, Option.isSome_map, unit?, List.find?_isSome]
  constructor
  · rintro ⟨unit, -, fits⟩
    have coarsest : d.hours ≤ d.nanoseconds / unit.nanoseconds :=
      Nat.div_le_div_left (by cases unit <;> decide) (by cases unit <;> decide)
    exact Nat.le_trans coarsest (of_decide_eq_true fits)
  · intro fits
    exact ⟨.hour, by decide, decide_eq_true fits⟩

theorem Conversion.timeout_eq_ok_iff {value : OptionValue} {v : Option FieldValue} :
    timeout value = .ok v ↔
      ∃ d : Duration, value = .duration d ∧ 0 < d.nanoseconds ∧ d.micros < UInt64.size ∧
        v = some (.u64 (UInt64.ofNat d.micros)) := by
  constructor
  · intro h
    cases value with
    | duration d =>
      rw [timeout] at h
      split at h
      · cases h
      · next positive =>
        split at h
        · next short =>
          cases h
          exact ⟨d, rfl, Nat.pos_of_ne_zero (by simpa [Duration.isZero] using positive), short, rfl⟩
        · cases h
    | _ => cases h
  · rintro ⟨d, rfl, positive, short, rfl⟩
    have given : d.isZero = false := by simpa [Duration.isZero] using Nat.ne_of_gt positive
    simp [timeout, given, short]

/-- A limit that is what is left of an accepted timeout. -/
structure Duration.Limits (limit timeout : Duration) : Prop where
  positive : 0 < timeout.nanoseconds
  whole : limit = .ofMicros timeout.micros
  /-- Without a whole microsecond nothing is left of the timeout. -/
  positive_iff : 1 ≤ limit.micros ↔ 1 ≤ timeout.micros
  hours : limit.hours = timeout.hours
  /-- A timeout of more hours than a header has digits for has none. -/
  stated_iff : (Deadline.header? limit).isSome ↔ timeout.hours ≤ Deadline.maxAmount

section
variable {operation : Operation} {options overrides : Bag} {fields : RequestFields}

/-- A timeout that is set limits the call. The limit is positive exactly if the timeout is one
microsecond or more, and a header can state it exactly if the timeout has at most 99999999 whole
hours. -/
theorem limit_of_timeout (distinct : options.names.Nodup)
    (h : resolve operation options overrides = .ok fields) {value : OptionValue}
    (counts : effective options overrides .timeout = some value) :
    ∃ timeout limit, value = .duration timeout ∧ fields.timeout? = some limit ∧
      limit.Limits timeout := by
  have held : WireField.timeoutMicros.Holds (effective options overrides .timeout)
      (fields.get? .timeoutMicros) :=
    holds_of_resolve distinct h operation.timeout_mem_options
  rw [counts] at held
  obtain ⟨timeout, rfl, positive, short, written⟩ := Conversion.timeout_eq_ok_iff.mp held
  have uncut : (UInt64.ofNat timeout.micros).toNat = timeout.micros := Nat.mod_eq_of_lt short
  refine ⟨timeout, .ofMicros timeout.micros, rfl, ?_, ?_⟩
  · rw [RequestFields.timeout?, RequestFields.u64?, written, Option.map_some, uncut]
  · exact
      { positive
        whole := rfl
        positive_iff := by rw [Duration.micros_ofMicros]
        hours := timeout.hours_ofMicros_micros
        stated_iff := by rw [Deadline.header?_isSome_iff, Duration.hours_ofMicros_micros] }

end

/-- The longest timeout that a header can state. -/
theorem limit_of_timeout_of_probe :
    let options := Bag.ofEntries [("timeout", .duration (.ofSeconds 1))]
    let overrides := Bag.ofEntries [("timeout", .duration (.ofParts 359999999999 999999999))]
    ∃ fields, resolve .probe options overrides = .ok fields ∧
      fields.timeout? = some (.ofParts 359999999999 999999000) ∧
        (Duration.ofParts 359999999999 999999000).Limits (.ofParts 359999999999 999999999) := by
  intro options overrides
  have distinct : options.names.Nodup := by decide
  have counts : effective options overrides .timeout =
      some (.duration (.ofParts 359999999999 999999999)) := by
    decide
  have read : (resolve .probe options overrides).toOption.map (·.timeout?) =
      some (some (.ofParts 359999999999 999999000)) := by
    decide +kernel
  obtain ⟨fields, h, read⟩ := exists_ok_of_toOption read
  obtain ⟨timeout, limit, given, found, limits⟩ := limit_of_timeout distinct h counts
  cases given
  cases read.symm.trans found
  exact ⟨fields, h, read, limits⟩

/-- Less than a microsecond passes as a positive timeout and leaves no time for the call; one hour
more than a header can state passes as well, and there is no header for it. -/
theorem limit_of_timeout_unusable :
    let limit (timeout : Duration) :=
      (resolve .get (.ofEntries [("timeout", .duration timeout)]) {}).toOption.bind (·.timeout?)
    limit ⟨500⟩ = some .zero ∧
    limit (.ofSeconds 360000000000) = some (.ofSeconds 360000000000) ∧
    (Duration.ofSeconds 360000000000).hours = 100000000 ∧
    Deadline.header? (.ofSeconds 360000000000) = none := by
  decide +kernel

/-- The lifetime that an expiry asks for: a duration, or a number of seconds. -/
def OptionValue.lifetime? : OptionValue → Option Duration
  | .duration d => some d
  | .int n => if 0 ≤ n then some (.ofSeconds n.toInt.toNat) else none
  | .uint n => some (.ofSeconds n.toNat)
  | _ => none

/-- The seconds that are sent for a lifetime; 0 stands for no end. -/
structure Duration.SentAs (lifetime : Duration) (seconds : UInt32) : Prop where
  whole : seconds.toNat = lifetime.seconds
  /-- Without a whole second nothing is left of the lifetime. -/
  ends_iff : 1 ≤ seconds.toNat ↔ (ofSeconds 1).nanoseconds ≤ lifetime.nanoseconds
  le_up : seconds.toNat ≤ lifetime.secondsUp

theorem Duration.sentAs_of_whole {lifetime : Duration} {seconds : UInt32}
    (whole : seconds.toNat = lifetime.seconds) : lifetime.SentAs seconds := by
  refine ⟨whole, ?_, ?_⟩
  · rw [whole]
    simp only [Duration.seconds, ofSeconds]
    omega
  · rw [whole]
    simp only [Duration.seconds, secondsUp]
    omega

namespace Conversion

theorem expirySeconds_eq_ok {lifetime : Duration} {v : Option FieldValue}
    (h : expirySeconds lifetime.seconds = .ok v) :
    ∃ seconds, v = some (.u32 seconds) ∧ lifetime.SentAs seconds := by
  rw [expirySeconds] at h
  split at h
  · next short =>
    cases h
    exact ⟨_, rfl, Duration.sentAs_of_whole (Nat.mod_eq_of_lt short)⟩
  · cases h

theorem expiry_eq_ok {value : OptionValue} {v : Option FieldValue} (h : expiry value = .ok v) :
    ∃ lifetime seconds, value.lifetime? = some lifetime ∧ v = some (.u32 seconds) ∧
      lifetime.SentAs seconds := by
  have sent : ∃ lifetime, value.lifetime? = some lifetime ∧
      expirySeconds lifetime.seconds = .ok v := by
    cases value with
    | duration d => exact ⟨d, rfl, h⟩
    | int n =>
      rw [expiry] at h
      split at h
      · next positive =>
        refine ⟨.ofSeconds n.toInt.toNat, if_pos positive, ?_⟩
        rwa [Duration.seconds_ofSeconds]
      · cases h
    | uint n =>
      refine ⟨.ofSeconds n.toNat, rfl, ?_⟩
      rwa [Duration.seconds_ofSeconds]
    | _ => cases h
  obtain ⟨lifetime, asked, h⟩ := sent
  obtain ⟨seconds, written, sent⟩ := expirySeconds_eq_ok h
  exact ⟨lifetime, seconds, asked, written, sent⟩

end Conversion

/-- Of the lifetime of a document and of an accepted bucket the whole seconds are sent: at least
one from one second on, and never more than the lifetime rounded up. -/
theorem expiry_sent (operation : Operation) (options overrides : Bag)
    (settings : BucketSettings) :
    (options.names.Nodup → OptionKind.expiry ∈ operation.options →
      ∀ fields value, resolve operation options overrides = .ok fields →
        effective options overrides .expiry = some value →
          ∃ lifetime seconds, value.lifetime? = some lifetime ∧
            fields.u32? .expirySecs = some seconds ∧ lifetime.SentAs seconds) ∧
    (settings.validate = .ok () →
      ∀ lifetime, settings.maxExpiry = some lifetime →
        ∃ seconds, settings.toWire.maxExpirySecs = some seconds ∧ lifetime.SentAs seconds) := by
  constructor
  · intro distinct taken fields value h counts
    have held : WireField.expirySecs.Holds (effective options overrides .expiry)
        (fields.get? .expirySecs) :=
      holds_of_resolve distinct h taken
    rw [counts] at held
    obtain ⟨lifetime, seconds, asked, written, sent⟩ := Conversion.expiry_eq_ok held
    refine ⟨lifetime, seconds, asked, ?_, sent⟩
    rw [RequestFields.u32?, written]
  · intro accepted lifetime set
    have uncut := BucketSettings.maxExpirySecs_of_validate accepted
    rw [set, Option.map_some, Option.map_eq_some_iff] at uncut
    obtain ⟨seconds, sent, whole⟩ := uncut
    exact ⟨seconds, sent, Duration.sentAs_of_whole whole⟩

/-- An expiry in seconds overrides one of less than a second; a bucket's is cut to whole ones. -/
theorem expiry_sent_of_seconds :
    let options := Bag.ofEntries [("expiry", .duration (.ofMillis 500)), ("cas", .uint 5)]
    let overrides := Bag.ofEntries [("expiry", .int 90)]
    let settings : BucketSettings := { name := "travel", maxExpiry := some (.ofMillis 1500) }
    (∃ fields, resolve .replace options overrides = .ok fields ∧
      fields.u32? .expirySecs = some 90 ∧ (Duration.ofSeconds 90).SentAs 90) ∧
    settings.toWire.maxExpirySecs = some 1 ∧ (Duration.ofMillis 1500).SentAs 1 := by
  intro options overrides settings
  have distinct : options.names.Nodup := by decide
  have counts : effective options overrides .expiry = some (.int 90) := by decide
  have accepted : settings.validate = .ok () := by decide
  have read : (resolve .replace options overrides).toOption.map (·.u32? .expirySecs) =
      some (some 90) := by
    decide
  obtain ⟨fields, h, read⟩ := exists_ok_of_toOption read
  obtain ⟨document, bucket⟩ := expiry_sent .replace options overrides settings
  constructor
  · obtain ⟨lifetime, seconds, asked, found, sent⟩ :=
      document distinct (by decide) fields _ h counts
    cases asked
    cases read.symm.trans found
    exact ⟨fields, h, read, sent⟩
  · obtain ⟨seconds, found, sent⟩ := bucket accepted _ rfl
    cases found
    exact ⟨rfl, sent⟩

/-- Half a second passes as a lifetime and is sent as none, for a document and for a bucket. -/
theorem expiry_sent_as_none :
    let settings : BucketSettings := { name := "travel", maxExpiry := some (.ofMillis 500) }
    (resolve .upsert (.ofEntries [("expiry", .duration (.ofMillis 500))]) {}).toOption.map
      (·.u32? .expirySecs) = some (some 0) ∧
    settings.validate = .ok () ∧ settings.toWire.maxExpirySecs = some 0 := by
  decide

end DocumentClient
