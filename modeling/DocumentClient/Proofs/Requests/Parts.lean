import DocumentClient.Proofs.Requests.Rules

/-!
# Checked parts of a request

One lemma for each check: what it lets through is what the rule for the message says. Text of a
JSON value is never empty, so that only a removal sends no content.
-/

namespace DocumentClient

theorem utf8ByteSize_pos_iff (s : String) : 1 ≤ s.utf8ByteSize ↔ s ≠ "" := by
  rw [Nat.one_le_iff_ne_zero, ne_eq, String.utf8ByteSize_eq_zero_iff]

theorem checkKey_eq_ok_iff (key : String) : checkKey key = .ok () ↔ ValidKey key := by
  rw [checkKey, ValidKey, utf8ByteSize_pos_iff]
  by_cases empty : key = ""
  · simp [empty]
  · by_cases long : maxKeyLength < key.utf8ByteSize
    · have : ¬ key.utf8ByteSize ≤ 250 := Nat.not_le.mpr long
      simp [empty, long, this]
    · have : key.utf8ByteSize ≤ 250 := Nat.not_lt.mp long
      simp [empty, long, this]

theorem isBucketNameChar_iff (c : Char) :
    isBucketNameChar c = true ↔ c.isAlphanum ∨ c = '.' ∨ c = '_' ∨ c = '-' ∨ c = '%' := by
  simp [isBucketNameChar, or_assoc]

theorem checkBucketName_eq_ok_iff (name : String) :
    checkBucketName name = .ok () ↔ ValidBucketName name := by
  rw [checkBucketName, ValidBucketName, utf8ByteSize_pos_iff]
  by_cases empty : name = ""
  · simp [empty]
  · by_cases long : maxBucketNameLength < name.utf8ByteSize
    · have : ¬ name.utf8ByteSize ≤ 100 := Nat.not_le.mpr long
      simp [empty, long, this]
    · have short : name.utf8ByteSize ≤ 100 := Nat.not_lt.mp long
      rw [if_neg empty, if_neg long]
      cases hc : name.toList.find? fun c => !isBucketNameChar c with
      | some c =>
        have bad : ¬ (c.isAlphanum ∨ c = '.' ∨ c = '_' ∨ c = '-' ∨ c = '%') := by
          rw [← isBucketNameChar_iff]
          simpa using List.find?_some hc
        simp only [reduceCtorEq, false_iff]
        intro valid
        exact bad (valid.2.2 c (List.mem_of_find?_eq_some hc))
      | none =>
        simp only [true_iff]
        refine ⟨empty, short, ?_⟩
        intro c hm
        rw [← isBucketNameChar_iff]
        simpa using List.find?_eq_none.mp hc c hm

theorem bind_eq_ok_iff {ε α β : Type} {x : Except ε α} {f : α → Except ε β} {b : β} :
    x >>= f = .ok b ↔ ∃ a, x = .ok a ∧ f a = .ok b := by
  cases x with
  | error e => simp [bind, Except.bind]
  | ok a => simp [bind, Except.bind]

namespace BucketSettings
variable {s : BucketSettings}

theorem ramQuota_of_check (h : s.checkRamQuota = .ok ()) : 100 ≤ s.toWire.ramQuotaMb := by
  rw [checkRamQuota] at h
  split at h
  · cases h
  · next low => exact UInt64.not_lt.mp low

theorem replicas_of_check (h : s.checkReplicas = .ok ()) {n : UInt32}
    (hn : s.toWire.replicas = some n) : n ≤ 3 ∧ (s.toWire.bucketType = 1 → n = 0) := by
  change s.replicas = some n at hn
  rw [checkReplicas, hn] at h
  simp only at h
  split at h
  · cases h
  · next few =>
    split at h
    · cases h
    · next suited =>
      refine ⟨UInt32.not_lt.mp few, fun memcached => ?_⟩
      have kind : s.bucketType = .memcached := by
        revert memcached
        cases ht : s.bucketType <;> simp [toWire, ht, BucketType.numbering]
      have none : ¬ 0 < n := fun some => suited ⟨some, kind⟩
      exact UInt32.le_zero_iff.mp (UInt32.not_lt.mp none)

theorem eviction_of_check (h : s.checkEviction = .ok ()) {n : Int32}
    (hn : s.toWire.eviction = some n) :
    (s.toWire.bucketType = 0 ∧ (n = 0 ∨ n = 2)) ∨ (s.toWire.bucketType = 2 ∧ (n = 1 ∨ n = 3)) := by
  obtain ⟨policy, hp, rfl⟩ := Option.map_eq_some_iff.mp hn
  rw [checkEviction, hp] at h
  simp only at h
  split at h
  · next suits =>
    revert suits
    cases ht : s.bucketType <;> cases policy <;>
      simp [toWire, ht, BucketType.numbering, EvictionPolicy.numbering, EvictionPolicy.suits]
  · cases h

theorem maxExpiry_of_check (h : s.checkMaxExpiry = .ok ()) :
    s.toWire.maxExpirySecs.map UInt32.toNat = s.maxExpiry.map Duration.seconds := by
  rw [checkMaxExpiry] at h
  cases hd : s.maxExpiry with
  | none => simp [toWire, hd]
  | some d =>
    simp only [hd] at h
    split at h
    · next short => simpa [toWire, hd] using Nat.mod_eq_of_lt short
    · cases h

theorem backend_of_check (h : s.checkBackend = .ok ()) (hb : s.toWire.backend = some 1) :
    s.toWire.bucketType = 0 := by
  obtain ⟨backend, hs, hw⟩ := Option.map_eq_some_iff.mp hb
  have magma : backend = .magma := by
    cases backend with
    | couchstore => cases hw
    | magma => rfl
  rw [checkBackend] at h
  split at h
  · cases h
  · next suited =>
    have kind : s.bucketType = .couchbase := by
      apply Decidable.of_not_not
      intro other
      exact suited ⟨magma ▸ hs, other⟩
    simp [toWire, kind, BucketType.numbering]

/-- The seconds of an accepted maximal expiry are sent uncut. -/
theorem maxExpirySecs_of_validate (accepted : s.validate = .ok ()) :
    s.toWire.maxExpirySecs.map UInt32.toNat = s.maxExpiry.map Duration.seconds := by
  simp only [validate, bind_eq_ok_iff] at accepted
  obtain ⟨⟨⟩, -, ⟨⟩, -, ⟨⟩, -, ⟨⟩, -, ⟨⟩, maxExpiry, -⟩ := accepted
  exact maxExpiry_of_check maxExpiry

theorem wellFormed_toWire (h : s.validate = .ok ()) : s.toWire.WellFormed := by
  have checks := h
  simp only [validate, bind_eq_ok_iff] at checks
  obtain ⟨⟨⟩, name, ⟨⟩, quota, ⟨⟩, replicas, ⟨⟩, eviction, ⟨⟩, maxExpiry, backend⟩ := checks
  exact
    { name := (checkBucketName_eq_ok_iff s.name).mp name
      ramQuota := ramQuota_of_check quota
      replicas := fun n hn => replicas_of_check replicas hn
      eviction := fun n hn => eviction_of_check eviction hn
      backend := backend_of_check backend
      checked := ⟨s, h, rfl, maxExpiry_of_check maxExpiry⟩ }

end BucketSettings

theorem Decimal.intBytes_ne_nil (n : Int) : intBytes n ≠ [] := by
  rw [intBytes]
  split <;> simp [bytes, digits_ne_nil]

namespace Json

theorem decimalBytes_ne_nil (ds : List Nat) (e : Int) : decimalBytes ds e ≠ [] := by
  rw [decimalBytes]
  split
  · simp
  · split <;> simp

theorem realBytes_ne_nil (x : Binary64) : realBytes x ≠ [] := by
  rw [realBytes]
  split
  · simp
  · split
    · simp
    · exact decimalBytes_ne_nil _ _

theorem Value.print_ne_nil (v : Value) : v.print ≠ [] := by
  cases v with
  | null => simp [print]
  | bool b => cases b <;> simp [print]
  | number n =>
    rw [print]
    cases n with
    | whole n => exact Decimal.intBytes_ne_nil n
    | real x => exact realBytes_ne_nil x
  | text s => simp [print, printText]
  | array items => simp [print]
  | object members => simp [print]

theorem printItems_ne_nil (v : Value) (rest : List Value) : printItems (v :: rest) ≠ [] := by
  cases rest with
  | nil =>
    rw [printItems]
    exact v.print_ne_nil
  | cons w rest => simp [printItems]

end Json

theorem MutateOp.toWire_eq_three_iff (op : MutateOp) : op.toWire = 3 ↔ op = .remove := by
  cases op <;> decide

theorem MutateOp.toWire_eq_eight_iff (op : MutateOp) : op.toWire = 8 ↔ op = .counter := by
  cases op <;> decide

namespace MutateSpec

theorem isDelta_iff {v : Json.Value} :
    isDelta v = true ↔ ∃ n : Int, v = .number (.whole n) ∧ n ≠ 0 ∧ -2 ^ 63 ≤ n ∧ n < 2 ^ 63 := by
  constructor
  · intro h
    rw [isDelta] at h
    cases v with
    | number k =>
      cases k with
      | whole n =>
        simp only [Json.Value.whole?, decide_eq_true_iff] at h
        exact ⟨n, rfl, h.2.2, h.1, h.2.1⟩
      | real x => cases h
    | _ => cases h
  · rintro ⟨n, rfl, nonzero, low, high⟩
    simp only [isDelta, Json.Value.whole?, decide_eq_true_iff]
    exact ⟨low, high, nonzero⟩

theorem values_of_counter {spec : MutateSpec} (h : spec.op = .counter) :
    ∃ v, spec.values = [v] := by
  have counted := spec.counted
  simp only [h, MutateOp.takes, MutateOp.takesSeveral, MutateOp.carriesValue] at counted
  exact List.length_eq_one_iff.mp (by simpa using counted)

/-- What a spec sends is empty for a removal only, and for a counter a delta. -/
theorem content_eq_ok {spec : MutateSpec} {content : Bytes} (h : spec.content = .ok content) :
    (content = [] ↔ spec.op = .remove) ∧ (spec.op = .counter →
      ∃ n : Int, content = Decimal.intBytes n ∧ n ≠ 0 ∧ -2 ^ 63 ≤ n ∧ n < 2 ^ 63) := by
  rw [MutateSpec.content] at h
  by_cases removes : spec.op = .remove
  · simp only [removes, MutateOp.carriesValue, bne_self_eq_false, Bool.false_eq_true, if_false,
      Except.ok.injEq] at h
    refine ⟨by simp [← h, removes], fun counts => ?_⟩
    exact absurd (removes.symm.trans counts) (by decide)
  · have carries : spec.op.carriesValue = true := by simpa [MutateOp.carriesValue] using removes
    rw [if_pos carries] at h
    cases hv : spec.values with
    | nil => simp [hv] at h
    | cons v rest =>
      simp only [hv] at h
      split at h
      · cases h
      · next sound =>
        cases h
        refine ⟨by simp [Json.printItems_ne_nil, removes], fun counts => ?_⟩
        have delta : isDelta v = true := by simpa [counts] using sound
        obtain ⟨n, rfl, bounds⟩ := isDelta_iff.mp delta
        obtain ⟨v', hone⟩ := values_of_counter counts
        obtain ⟨rfl, rfl⟩ := List.cons.inj (hv.symm.trans hone)
        exact ⟨n, by simp [Json.printItems, Json.Value.print, Json.Number.print], bounds⟩

theorem wellFormed_of_toWire {spec : MutateSpec} {w : Wire.MutateSpec}
    (h : spec.toWire = .ok w) : w.WellFormed := by
  rw [toWire] at h
  cases hc : spec.content with
  | error why => simp [hc] at h
  | ok content =>
    simp only [hc, Except.ok.injEq] at h
    subst h
    obtain ⟨empty, counter⟩ := content_eq_ok hc
    constructor
    · rw [empty]
      exact spec.op.toWire_eq_three_iff.symm
    · intro eight
      exact counter (spec.op.toWire_eq_eight_iff.mp eight)

theorem allToWire_eq_ok {specs : List MutateSpec} {ws : List Wire.MutateSpec}
    (h : allToWire specs = .ok ws) : ws.length = specs.length ∧ ∀ w ∈ ws, w.WellFormed := by
  induction specs generalizing ws with
  | nil =>
    cases h
    exact ⟨rfl, nofun⟩
  | cons spec rest ih =>
    rw [allToWire] at h
    cases hw : spec.toWire with
    | error why => simp [hw] at h
    | ok w =>
      cases hr : allToWire rest with
      | error why => simp [hw, hr] at h
      | ok later =>
        simp only [hw, hr, Except.ok.injEq] at h
        subst h
        obtain ⟨length, sound⟩ := ih hr
        refine ⟨congrArg (· + 1) length, ?_⟩
        rw [List.forall_mem_cons]
        exact ⟨wellFormed_of_toWire hw, sound⟩

/-- Every spec has content that can be sent. -/
theorem allToWire_isOk_iff {specs : List MutateSpec} :
    (∃ ws, allToWire specs = .ok ws) ↔ ∀ spec ∈ specs, ∃ content, spec.content = .ok content := by
  have single (spec : MutateSpec) :
      (∃ w, spec.toWire = .ok w) ↔ ∃ content, spec.content = .ok content := by
    rw [toWire]
    cases spec.content <;> simp
  induction specs with
  | nil => simp [allToWire]
  | cons spec rest ih =>
    rw [List.forall_mem_cons, ← single, allToWire]
    refine Iff.trans ?_ (and_congr_right fun _ => ih)
    cases spec.toWire with
    | error why => simp
    | ok w => cases allToWire rest <;> simp

/-- A list of specs is accepted if there is one and each has content that can be sent. -/
theorem listToWire_isOk_iff {specs : List MutateSpec} :
    (∃ ws, listToWire specs = .ok ws) ↔
      specs ≠ [] ∧ ∀ spec ∈ specs, ∃ content, spec.content = .ok content := by
  rw [listToWire]
  by_cases empty : specs = []
  · simp [empty]
  · rw [if_neg empty, allToWire_isOk_iff]
    simp [empty]

theorem wellFormed_of_listToWire {specs : List MutateSpec} {ws : List Wire.MutateSpec}
    (h : listToWire specs = .ok ws) : ws ≠ [] ∧ ∀ w ∈ ws, w.WellFormed := by
  rw [listToWire] at h
  by_cases empty : specs = []
  · simp [empty] at h
  · rw [if_neg empty] at h
    obtain ⟨length, sound⟩ := allToWire_eq_ok h
    refine ⟨?_, sound⟩
    rintro rfl
    exact empty (List.length_eq_zero_iff.mp length.symm)

end MutateSpec

theorem LookupSpec.listToWire_isOk_iff {specs : List LookupSpec} :
    (∃ ws, listToWire specs = .ok ws) ↔ specs ≠ [] := by
  rw [listToWire]
  by_cases empty : specs = [] <;> simp [empty]

theorem LookupSpec.ne_nil_of_listToWire {specs : List LookupSpec} {ws : List Wire.LookupSpec}
    (h : listToWire specs = .ok ws) : ws ≠ [] := by
  rw [listToWire] at h
  split at h
  · cases h
  · next some =>
    cases h
    simpa using some

end DocumentClient
