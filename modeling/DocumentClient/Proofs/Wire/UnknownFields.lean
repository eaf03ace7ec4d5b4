import DocumentClient.Proofs.Wire.Transfer

/-!
# Fields that a layout does not know

A newer writer sends fields that a layout does not list yet. A field as it arrives has a number and
a payload in one of four forms, groups left aside; its numbers of variable length may be spelled
with more groups than they need. A reader takes up the fields that it knows in the order in which
they arrive, and the others change nothing, wherever they stand. Main statement:
`Layout.decode_of_gathers`, with `Gathers.of_known` for the fields in between.
-/

namespace DocumentClient.Wire

namespace Varint
variable {s rest : Bytes} {n left : Nat}

/-- A number in groups of seven bits, the lowest first; the highest ones may be empty. -/
inductive Groups : Bytes → Nat → Prop where
  | last {b : UInt8} (final : b < 128) : Groups [b] b.toNat
  | more {b : UInt8} {s : Bytes} {n : Nat} (follows : 128 ≤ b) (others : Groups s n) :
    Groups (b :: s) (b.toNat - 128 + 128 * n)

/-- A number of 64 bits in at most ten groups. -/
structure Spells (s : Bytes) (n : Nat) : Prop where
  groups : Groups s n
  short : s.length ≤ 10
  small : n < UInt64.size

theorem decodeUpTo_of_groups (groups : Groups s n) (short : s.length ≤ left + 1)
    (small : n < capacity left) : decodeUpTo (left + 1) (s ++ rest) = some (n, rest) := by
  induction groups generalizing left with
  | @last b final =>
    have fits : ¬ (left = 0 ∧ 2 ≤ b) := by
      rintro ⟨rfl, large⟩
      have bit : b.toNat < 2 := small
      exact absurd (UInt8.le_iff_toNat_le.mp large) (Nat.not_le.mpr bit)
    simp only [List.cons_append, List.nil_append, decodeUpTo, if_pos final, if_neg fits]
  | @more b s n follows others ih =>
    cases left with
    | zero =>
      cases others <;> simp at short
    | succ left =>
      have later : decodeUpTo (left + 1) (s ++ rest) = some (n, rest) := by
        apply ih
        · simpa using short
        · rw [capacity] at small
          omega
      rw [List.cons_append, decodeUpTo, if_neg (UInt8.not_lt.mpr follows), later]

theorem decode_of_spells (spelled : Spells s n) : decode (s ++ rest) = some (n, rest) :=
  decodeUpTo_of_groups spelled.groups spelled.short (capacity_nine ▸ spelled.small)

theorem groups_encode (n : Nat) : Groups (encode n) n := by
  fun_induction encode n with
  | case1 n small =>
    have value : (UInt8.ofNat n).toNat = n := by
      rw [UInt8.toNat_ofNat']
      omega
    have final : UInt8.ofNat n < 128 := by
      rw [UInt8.lt_iff_toNat_lt, value]
      exact small
    simpa only [value] using Groups.last final
  | case2 n large ih =>
    have value : (UInt8.ofNat (n % 128 + 128)).toNat = n % 128 + 128 := by
      rw [UInt8.toNat_ofNat']
      omega
    have follows : 128 ≤ UInt8.ofNat (n % 128 + 128) := by
      rw [UInt8.le_iff_toNat_le, value]
      exact Nat.le_add_left _ _
    have whole : (UInt8.ofNat (n % 128 + 128)).toNat - 128 + 128 * (n / 128) = n := by
      rw [value]
      omega
    simpa only [whole] using Groups.more follows ih

theorem encode_length_le (small : n < capacity left) : (encode n).length ≤ left + 1 := by
  induction left generalizing n with
  | zero =>
    have bit : n < 2 := small
    rw [encode, if_pos (by omega)]
    exact Nat.le_refl _
  | succ left ih =>
    rw [encode]
    split
    · exact Nat.le_add_left _ _
    · rw [capacity] at small
      have := ih (n := n / 128) (by omega)
      simpa using this

theorem spells_encode (small : n < UInt64.size) : Spells (encode n) n :=
  ⟨groups_encode n, encode_length_le (capacity_nine ▸ small), small⟩

end Varint

inductive AnyPayload where
  | varint (n : Nat)
  | fixed64 (octets : Bytes)
  | delimited (octets : Bytes)
  | fixed32 (octets : Bytes)
deriving DecidableEq

/-- A payload that is written, as it arrives. -/
def Payload.any : Payload → AnyPayload
  | .varint n => .varint n
  | .delimited octets => .delimited octets

structure AnyField where
  tag : Nat
  payload : AnyPayload
deriving DecidableEq

namespace AnyPayload

def wireType : AnyPayload → WireType
  | .varint _ => .varint
  | .fixed64 _ => .fixed64
  | .delimited _ => .delimited
  | .fixed32 _ => .fixed32

/-- The octets of a payload. -/
def Spells : AnyPayload → Bytes → Prop
  | .varint n, s => Varint.Spells s n
  | .fixed64 octets, s => s = octets ∧ octets.length = 8
  | .delimited octets, s => ∃ count, Varint.Spells count octets.length ∧ s = count ++ octets
  | .fixed32 octets, s => s = octets ∧ octets.length = 4

end AnyPayload

namespace AnyField

/-- The octets of a field: its key, in which the number has 29 bits, and its payload. -/
def Spells (x : AnyField) (s : Bytes) : Prop :=
  (0 < x.tag ∧ x.tag < 0x20000000) ∧ ∃ key body,
    Varint.Spells key (x.tag * 8 + x.payload.wireType.toNat) ∧ x.payload.Spells body ∧
      s = key ++ body

/-- The octets of fields one after another. -/
inductive SpellAll : List AnyField → Bytes → Prop where
  | nil : SpellAll [] []
  | cons {x : AnyField} {xs : List AnyField} {s t : Bytes} (first : x.Spells s)
    (others : SpellAll xs t) : SpellAll (x :: xs) (s ++ t)

namespace SpellAll

theorem exists_of_mem {x : AnyField} {xs : List AnyField} {s : Bytes} (spelled : SpellAll xs s)
    (mem : x ∈ xs) : ∃ t, x.Spells t := by
  induction spelled with
  | nil => cases mem
  | cons first _ ih =>
    rcases List.mem_cons.mp mem with rfl | mem
    · exact ⟨_, first⟩
    · exact ih mem

theorem append {xs ys : List AnyField} {s t : Bytes} (first : SpellAll xs s)
    (second : SpellAll ys t) : SpellAll (xs ++ ys) (s ++ t) := by
  induction first with
  | nil => exact second
  | cons x _ ih =>
    rw [List.cons_append, List.append_assoc]
    exact .cons x ih

theorem flatMap {α : Type} {l : List α} {fields : α → List AnyField} {octets : α → Bytes}
    (each : ∀ a ∈ l, SpellAll (fields a) (octets a)) :
    SpellAll (l.flatMap fields) (l.flatMap octets) := by
  induction l with
  | nil => exact .nil
  | cons a l ih =>
    rw [List.forall_mem_cons] at each
    exact each.1.append (ih each.2)

end SpellAll
end AnyField

namespace RawField
variable {budget n : Nat} {s rest octets : Bytes} {x : AnyField}

theorem readVarint_of_spells (spelled : Varint.Spells s n) :
    readVarint (s ++ rest) = .ok (n, rest) := by
  rw [readVarint, Varint.decode_of_spells spelled]

theorem readExactly_append (counted : octets.length = n) :
    readExactly n (octets ++ rest) = .ok (octets, rest) := by
  subst counted
  simp [readExactly]

theorem readDelimited_of_spells (spelled : (AnyPayload.delimited octets).Spells s) :
    readDelimited (s ++ rest) = .ok (octets, rest) := by
  obtain ⟨count, counted, rfl⟩ := spelled
  rw [readDelimited, List.append_assoc, readVarint_of_spells counted]
  exact readExactly_append rfl

theorem readKey_of_spells {key : Bytes} (positive : 0 < x.tag) (small : x.tag < 0x20000000)
    (spelled : Varint.Spells key (x.tag * 8 + x.payload.wireType.toNat)) :
    readKey (key ++ rest) = .ok ((x.tag, x.payload.wireType), rest) := by
  have written : readKey (Varint.encode (x.tag * 8 + x.payload.wireType.toNat) ++ rest) =
      .ok ((x.tag, x.payload.wireType), rest) := readKey_encode positive small _
  rw [readKey, readVarint_encode spelled.small] at written
  rw [readKey, readVarint_of_spells spelled]
  exact written

/-- Every payload is passed over as a whole. -/
theorem skip_of_spells (deep : 0 < budget) (spelled : x.payload.Spells s) :
    skip budget x.tag x.payload.wireType (s ++ rest) = .ok rest := by
  unfold skip
  rw [if_neg (Nat.ne_of_gt deep)]
  obtain ⟨tag, payload⟩ := x
  cases payload with
  | varint n =>
    simp only [AnyPayload.wireType, readVarint_of_spells spelled]
    rfl
  | fixed64 octets =>
    obtain ⟨rfl, counted⟩ := spelled
    simp only [AnyPayload.wireType, readExactly_append counted]
    rfl
  | delimited octets =>
    simp only [AnyPayload.wireType, readDelimited_of_spells spelled]
    rfl
  | fixed32 octets =>
    obtain ⟨rfl, counted⟩ := spelled
    simp only [AnyPayload.wireType, readExactly_append counted]
    rfl

end RawField

namespace Layout
variable {M : Type} {layout : Layout M} {budget : Nat} {acc mid after : M} {x : AnyField}

/-- Whether the layout has a field of this number. -/
def knows (layout : Layout M) (x : AnyField) : Bool :=
  layout.fields.any fun f => f.tag = x.tag

theorem readField_of_unknown (deep : 0 < budget) (unknown : layout.knows x = false) {s : Bytes}
    (spelled : x.payload.Spells s) (rest : Bytes) :
    layout.readField budget x.tag x.payload.wireType (s ++ rest) acc = .ok (acc, rest) := by
  have missing : layout.fields.find? (·.tag = x.tag) = none := by
    simpa [knows] using unknown
  rw [readField, missing]
  simp only [RawField.skip_of_spells deep spelled]

/-- One turn of the main loop at a field as it arrives. -/
theorem readFields_of_spells {s rest : Bytes} (spelled : x.Spells s)
    (field : ∀ body, x.payload.Spells body →
      layout.readField budget x.tag x.payload.wireType (body ++ rest) acc = .ok (mid, rest)) :
    layout.readFields budget 0 (s ++ rest) acc = layout.readFields budget 0 rest mid := by
  obtain ⟨⟨positive, small⟩, key, body, keyed, held, rfl⟩ := spelled
  rw [List.append_assoc]
  exact readFields_of_read (Nat.zero_le _) (RawField.readKey_of_spells positive small keyed)
    (field body held)

/-- Fields lead a reader from one message to another: one that the layout knows as it is read, any
other not at all. -/
inductive Gathers (layout : Layout M) (budget : Nat) : List AnyField → M → M → Prop where
  | nil (acc : M) : Gathers layout budget [] acc acc
  | known {f : Field M} {x : AnyField} {xs : List AnyField} {acc mid after : M}
    (mem : f ∈ layout.fields) (number : x.tag = f.tag)
    (taken : ∀ s rest, x.payload.Spells s →
      f.read budget x.payload.wireType (s ++ rest) acc = .ok (mid, rest))
    (others : Gathers layout budget xs mid after) : Gathers layout budget (x :: xs) acc after
  | unknown {x : AnyField} {xs : List AnyField} {acc after : M}
    (foreign : layout.knows x = false) (others : Gathers layout budget xs acc after) :
    Gathers layout budget (x :: xs) acc after

namespace Gathers
variable {xs ys : List AnyField}

theorem append (first : Gathers layout budget xs acc mid)
    (second : Gathers layout budget ys mid after) :
    Gathers layout budget (xs ++ ys) acc after := by
  induction first with
  | nil => exact second
  | known mem number taken _ ih => exact .known mem number taken (ih second)
  | unknown foreign _ ih => exact .unknown foreign (ih second)

/-- The fields that a layout does not know may stand anywhere between the others. -/
theorem of_known (gathers : Gathers layout budget (xs.filter layout.knows) acc after) :
    Gathers layout budget xs acc after := by
  induction xs generalizing acc with
  | nil => exact gathers
  | cons x xs ih =>
    by_cases known : layout.knows x = true
    · rw [List.filter_cons_of_pos known] at gathers
      cases gathers with
      | known mem number taken others => exact .known mem number taken (ih others)
      | unknown foreign others => exact .unknown foreign (ih others)
    · rw [List.filter_cons_of_neg known] at gathers
      exact .unknown (by simpa using known) (ih gathers)

end Gathers

theorem readFields_of_gathers (tagged : layout.WellTagged) (deep : 0 < budget)
    {xs : List AnyField} {s : Bytes} (spelled : AnyField.SpellAll xs s)
    (gathers : Gathers layout budget xs acc after) :
    layout.readFields budget 0 s acc = .ok (after, []) := by
  induction gathers generalizing s with
  | nil acc =>
    cases spelled
    exact readFields_of_le (Nat.le_refl _)
  | known mem number taken _ ih =>
    cases spelled with
    | cons first later =>
      rw [readFields_of_spells first fun body held =>
        number ▸ readField_of_mem tagged mem (taken body _ held)]
      exact ih later
  | unknown foreign _ ih =>
    cases spelled with
    | cons first later =>
      rw [readFields_of_spells first fun body held => readField_of_unknown deep foreign held _]
      exact ih later

/-- Fields are read in the order in which they arrive, however they are spelled. -/
theorem decode_of_gathers (tagged : layout.WellTagged) {xs : List AnyField} {s : Bytes}
    (spelled : AnyField.SpellAll xs s)
    (gathers : Gathers layout maxNesting xs layout.empty after) :
    layout.decode s = .ok after := by
  rw [decode, readFields_of_gathers tagged (by decide) spelled gathers]

/-- The fields that a message is written as. -/
def sent (layout : Layout M) (m : M) : List AnyField :=
  layout.fields.flatMap fun f => (f.write m).flatMap fun p => [⟨f.tag, p.any⟩]

end Layout

theorem Payload.spells_encode {p : Payload} {s : Bytes} (spellable : p.any.Spells s) :
    p.any.Spells p.encode := by
  cases p with
  | varint n => exact Varint.spells_encode (Varint.Spells.small spellable)
  | delimited octets =>
    obtain ⟨count, counted, -⟩ := spellable
    exact ⟨Varint.encode octets.length, Varint.spells_encode counted.small, rfl⟩

/-- A field whose payload can be spelled at all is spelled by its encoding. -/
theorem RawField.spells_encode {tag : Nat} {p : Payload} {s : Bytes}
    (range : 0 < tag ∧ tag < 0x20000000) (spellable : p.any.Spells s) :
    AnyField.Spells ⟨tag, p.any⟩ (RawField.encode ⟨tag, p⟩) := by
  have form : p.any.wireType = p.wireType := by cases p <;> rfl
  have low : p.any.wireType.toNat < 8 := by cases p.any.wireType <;> decide
  have small : tag * 8 + p.any.wireType.toNat < UInt64.size := by
    rw [show UInt64.size = 0x10000000000000000 from rfl]
    omega
  refine ⟨range, _, _, Varint.spells_encode small, Payload.spells_encode spellable, ?_⟩
  rw [RawField.encode, form]

namespace Layout
variable {M : Type} {layout : Layout M} {budget : Nat} {acc m : M}

theorem spellAll_encode (spellable : ∀ x ∈ layout.sent m, ∃ s, x.Spells s) :
    AnyField.SpellAll (layout.sent m) (layout.encode m) := by
  refine .flatMap fun f memField => .flatMap fun p memPayload => ?_
  have mem : ⟨f.tag, p.any⟩ ∈ layout.sent m :=
    List.mem_flatMap.mpr ⟨f, memField, List.mem_flatMap.mpr ⟨p, memPayload, by simp⟩⟩
  obtain ⟨s, range, key, body, -, held, -⟩ := spellable _ mem
  simpa using AnyField.SpellAll.cons (RawField.spells_encode range held) .nil

/-- A text is read however its length is spelled. -/
theorem gathers_text {name : String} {tag : Nat} {get : M → String} {set : String → M → M}
    (mem : Field.single name tag .text get set ∈ layout.fields) (t : String) (acc : M) :
    Gathers layout budget [⟨tag, .delimited (Bytes.ofString t)⟩] acc (set t acc) := by
  refine .known mem rfl (fun s rest spelled => Field.store_ok ?_) (.nil _)
  change Scalar.text.readAs .delimited (s ++ rest) = .ok (t, rest)
  have read : Scalar.text.read (s ++ rest) = .ok (t, rest) := by
    change Scalar.readText (s ++ rest) = .ok (t, rest)
    rw [Scalar.readText, RawField.readDelimited_of_spells spelled]
    simp only [Bytes.toString?_ofString]
  have announced : WireType.delimited = Scalar.text.wireType := rfl
  rw [Scalar.readAs, if_pos announced, read]

end Layout
end DocumentClient.Wire
