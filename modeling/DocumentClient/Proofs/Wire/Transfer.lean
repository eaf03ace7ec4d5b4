import DocumentClient.Proofs.Keyed
import DocumentClient.Proofs.Wire.Scalars

/-!
# Fields are carried over

A message is read field by field in the order in which it was written, so a reader that starts with
the empty message gathers the values of one field after another. For each way to declare a field
there is one lemma that says what the reader has gathered after it; a layout is followed by
naming, for each of its fields, the lemma of its declaration. Main statement:
`Layout.Restores.of_transfers`.
-/

namespace DocumentClient.Wire
variable {M : Type} {budget : Nat} {m acc after : M}

namespace Field

/-- A reader takes these payloads one after another, from one message to another. -/
def Takes (f : Field M) (budget : Nat) : List Payload → M → M → Prop
  | [], acc, after => after = acc
  | p :: ps, acc, after => ∃ mid,
    (∀ rest, f.read budget p.wireType (p.encode ++ rest) acc = .ok (mid, rest)) ∧
      f.Takes budget ps mid after

/-- What a field of `m` is written as leads the reader from one message to another. -/
def Transfers (budget : Nat) (m : M) (f : Field M) (acc after : M) : Prop :=
  (∀ p ∈ f.write m, p.Fits) → f.Takes budget (f.write m) acc after

theorem store_ok {α : Type} {set : α → M → M} {x : Except DecodeError (α × Bytes)} {a : α}
    {rest : Bytes} (h : x = .ok (a, rest)) : store set acc x = .ok (set a acc, rest) := by
  rw [h]
  rfl

end Field

/-- What fields of `m` are written as leads the reader from one message to another. -/
inductive Transfers (budget : Nat) (m : M) : List (Field M) → M → M → Prop where
  | nil (acc : M) : Transfers budget m [] acc acc
  | cons {f : Field M} {fields : List (Field M)} {acc mid after : M}
    (first : Field.Transfers budget m f acc mid) (others : Transfers budget m fields mid after) :
    Transfers budget m (f :: fields) acc after

namespace Transfers
variable {fields others : List (Field M)} {mid : M}

theorem append (first : Transfers budget m fields acc mid)
    (second : Transfers budget m others mid after) :
    Transfers budget m (fields ++ others) acc after := by
  induction first with
  | nil => exact second
  | cons f _ ih => exact .cons f (ih second)

theorem of_eq {after' : M} (h : Transfers budget m fields acc after) (same : after = after') :
    Transfers budget m fields acc after' := same ▸ h

end Transfers

namespace Layout

/-- The numbers of the fields differ and are ones that a key can hold. -/
def WellTagged (layout : Layout M) : Prop :=
  (layout.fields.map (·.tag)).Nodup ∧
    ∀ tag ∈ layout.fields.map (·.tag), 0 < tag ∧ tag < 0x20000000

instance (layout : Layout M) : Decidable layout.WellTagged :=
  inferInstanceAs (Decidable (_ ∧ _))

theorem find?_of_mem {fields : List (Field M)} (distinct : (fields.map (·.tag)).Nodup)
    {f : Field M} (mem : f ∈ fields) : fields.find? (·.tag = f.tag) = some f := by
  induction fields with
  | nil => cases mem
  | cons g fields ih =>
    rw [List.map_cons, List.nodup_cons] at distinct
    rcases List.mem_cons.mp mem with rfl | mem
    · rw [List.find?_cons_of_pos (by simp)]
    · have other : ¬ g.tag = f.tag := fun same =>
        distinct.1 (same ▸ List.mem_map_of_mem mem)
      rw [List.find?_cons_of_neg (by simpa using other), ih distinct.2 mem]

/-- One turn of the main loop: a key and what follows it, read whole. -/
theorem readFields_of_read {layout : Layout M} {stop tag : Nat} {w : WireType}
    {s r rest : Bytes} {mid : M} (long : stop ≤ rest.length)
    (key : RawField.readKey s = .ok ((tag, w), r))
    (field : layout.readField budget tag w r acc = .ok (mid, rest)) :
    layout.readFields budget stop s acc = layout.readFields budget stop rest mid := by
  have more : ¬ s.length ≤ stop := by
    have := RawField.readKey_length_lt key
    have := readField_length_le field
    omega
  rw [readFields, if_neg more]
  split
  · next h =>
    rw [key] at h
    cases h
  · next h =>
    rw [key] at h
    cases h
    split
    · next h =>
      rw [field] at h
      cases h
    · next h =>
      rw [field] at h
      cases h
      rfl

theorem readField_of_mem {layout : Layout M} (tagged : layout.WellTagged) {f : Field M}
    (mem : f ∈ layout.fields) {w : WireType} {s rest : Bytes} {mid : M}
    (taken : f.read budget w s acc = .ok (mid, rest)) :
    layout.readField budget f.tag w s acc = .ok (mid, rest) := by
  rw [readField, find?_of_mem tagged.1 mem]
  simp only [taken]

/-- The main loop at a field that the layout knows. -/
theorem readFields_encode {layout : Layout M} (tagged : layout.WellTagged) {f : Field M}
    (mem : f ∈ layout.fields) {stop : Nat} {rest : Bytes} (long : stop ≤ rest.length)
    {p : Payload} {mid : M}
    (taken : f.read budget p.wireType (p.encode ++ rest) acc = .ok (mid, rest)) :
    layout.readFields budget stop (RawField.encode ⟨f.tag, p⟩ ++ rest) acc =
      layout.readFields budget stop rest mid := by
  obtain ⟨positive, small⟩ := tagged.2 f.tag (List.mem_map_of_mem mem)
  have key : RawField.readKey (RawField.encode ⟨f.tag, p⟩ ++ rest) =
      .ok ((f.tag, p.wireType), p.encode ++ rest) := by
    rw [RawField.encode, List.append_assoc, RawField.readKey_encode positive small]
  exact readFields_of_read long key (readField_of_mem tagged mem taken)

/-- One field after another, as they are written. -/
def encodeFields (fields : List (Field M)) (m : M) : Bytes :=
  fields.flatMap fun f => (f.write m).flatMap fun p => RawField.encode ⟨f.tag, p⟩

theorem readFields_of_takes {layout : Layout M} (tagged : layout.WellTagged) {f : Field M}
    (mem : f ∈ layout.fields) {stop : Nat} {rest : Bytes} (long : stop ≤ rest.length)
    {ps : List Payload} (taken : f.Takes budget ps acc after) :
    layout.readFields budget stop
        ((ps.flatMap fun p => RawField.encode ⟨f.tag, p⟩) ++ rest) acc =
      layout.readFields budget stop rest after := by
  induction ps generalizing acc with
  | nil =>
    rw [show after = acc from taken]
    rfl
  | cons p ps ih =>
    obtain ⟨mid, first, others⟩ := taken
    rw [List.flatMap_cons, List.append_assoc, readFields_encode tagged mem ?_ (first _)]
    · exact ih others
    · rw [List.length_append]
      omega

theorem readFields_of_transfers {layout : Layout M} (tagged : layout.WellTagged)
    {fields : List (Field M)} (known : ∀ f ∈ fields, f ∈ layout.fields) {stop : Nat}
    {rest : Bytes} (long : stop ≤ rest.length)
    (fits : ∀ f ∈ fields, ∀ p ∈ f.write m, p.Fits)
    (transfers : Transfers budget m fields acc after) :
    layout.readFields budget stop (encodeFields fields m ++ rest) acc =
      layout.readFields budget stop rest after := by
  induction transfers with
  | nil => rfl
  | cons first others ih =>
    rw [List.forall_mem_cons] at known fits
    rw [encodeFields, List.flatMap_cons, List.append_assoc,
      readFields_of_takes tagged known.1 ?_ (first fits.1)]
    · exact ih known.2 fits.2
    · rw [List.length_append]
      omega

theorem length_le_flatMap {α β : Type} {f : α → List β} {l : List α} {a : α} (mem : a ∈ l) :
    (f a).length ≤ (l.flatMap f).length := by
  obtain ⟨front, back, rfl⟩ := List.append_of_mem mem
  simp only [List.flatMap_append, List.flatMap_cons, List.length_append]
  omega

/-- No counted run of octets is longer than the message that it stands in. -/
theorem fits_of_encode {layout : Layout M} (short : (layout.encode m).length < UInt64.size) :
    ∀ f ∈ layout.fields, ∀ p ∈ f.write m, p.Fits := by
  intro f hf p hp
  cases p with
  | varint n => exact True.intro
  | delimited octets =>
    have field := length_le_flatMap (f := fun f : Field M =>
      (f.write m).flatMap fun p => RawField.encode ⟨f.tag, p⟩) hf
    have payload := length_le_flatMap (f := fun p => RawField.encode ⟨f.tag, p⟩) hp
    have counted : octets.length ≤ (RawField.encode ⟨f.tag, .delimited octets⟩).length := by
      simp only [RawField.encode, Payload.encode, List.length_append]
      omega
    have : octets.length ≤ (layout.encode m).length :=
      Nat.le_trans counted (Nat.le_trans payload field)
    exact Nat.lt_of_le_of_lt this short

/-- What is written is read back, but for what `restore` changes, by a reader that may go `depth`
messages deeper, whatever follows it. -/
def Restores (layout : Layout M) (depth : Nat) (restore : M → M) : Prop :=
  ∀ budget m rest, depth ≤ budget → (layout.encode m).length < UInt64.size →
    layout.readFields budget rest.length (layout.encode m ++ rest) layout.empty =
      .ok (restore m, rest)

theorem Restores.of_transfers {layout : Layout M} {depth : Nat} {restore : M → M}
    (tagged : layout.WellTagged)
    (transfers : ∀ budget, depth ≤ budget → ∀ m,
      Transfers budget m layout.fields layout.empty (restore m)) :
    layout.Restores depth restore := by
  intro budget m rest deep short
  have read := readFields_of_transfers tagged (fun _ mem => mem) (Nat.le_refl rest.length)
    (fits_of_encode short) (transfers budget deep m)
  rw [show layout.encode m = encodeFields layout.fields m from rfl, read,
    readFields_of_le (Nat.le_refl _)]

theorem Restores.mono {layout : Layout M} {depth depth' : Nat} {restore : M → M}
    (h : layout.Restores depth restore) (le : depth ≤ depth') : layout.Restores depth' restore :=
  fun budget m rest deep short => h budget m rest (Nat.le_trans le deep) short

/-- A counted message on top of the empty one. -/
theorem readNested_encode {layout : Layout M} {depth : Nat} (nested : layout.Restores depth id)
    (deep : depth < budget) {rest : Bytes}
    (fits : (Payload.delimited (layout.encode m)).Fits) :
    layout.readNested budget ((Payload.delimited (layout.encode m)).encode ++ rest) layout.empty =
      .ok (m, rest) := by
  have length : (layout.encode m ++ rest).length - (layout.encode m).length = rest.length := by
    rw [List.length_append]
    omega
  have enough : (layout.encode m).length ≤ (layout.encode m ++ rest).length := by
    rw [List.length_append]
    omega
  rw [readNested, if_neg (Nat.ne_of_gt (Nat.zero_lt_of_lt deep)), Payload.encode,
    List.append_assoc, RawField.readVarint_encode fits]
  simp only
  rw [if_pos enough, length, nested _ m rest (Nat.le_sub_one_of_lt deep) fits]
  simp only [id, ↓reduceIte]

theorem readMessage_encode {layout : Layout M} {depth : Nat} (nested : layout.Restores depth id)
    (deep : depth < budget) {rest : Bytes}
    (fits : (Payload.delimited (layout.encode m)).Fits) :
    layout.readMessage budget .delimited
      ((Payload.delimited (layout.encode m)).encode ++ rest) layout.empty = .ok (m, rest) := by
  rw [readMessage, if_pos rfl]
  exact readNested_encode nested deep fits

end Layout

/-- A part of a message that can be put in the place of what is there: it is found again, the last
one counts, and what is there already changes nothing. These laws are one equation, so that they
hold by computation for the fields of a record. -/
def Lens {α : Type} (get : M → α) (set : α → M → M) : Prop :=
  (fun a b m => (get (set a m), set a (set b m), set (get m) m)) = fun a _ m => (a, set a m, m)

namespace Lens
variable {α : Type} {get : M → α} {set : α → M → M}

theorem laws (lens : Lens get set) (a b : α) (m : M) :
    (get (set a m), set a (set b m), set (get m) m) = (a, set a m, m) :=
  congrFun (congrFun (congrFun lens a) b) m

theorem get_set (lens : Lens get set) (a : α) (m : M) : get (set a m) = a :=
  congrArg (·.1) (lens.laws a a m)

theorem set_set (lens : Lens get set) (a b : α) (m : M) : set a (set b m) = set a m :=
  congrArg (·.2.1) (lens.laws a b m)

theorem set_get (lens : Lens get set) (m : M) : set (get m) m = m :=
  congrArg (·.2.2) (lens.laws (get m) (get m) m)

/-- A part of a part. -/
theorem inner {β : Type} (lens : Lens get set) {read : α → β} {write : β → α → α}
    (part : Lens read write) : Lens (fun m => read (get m)) fun b m => set (write b (get m)) m := by
  funext a b m
  refine Prod.ext ?_ (Prod.ext ?_ ?_)
  · show read (get (set (write a (get m)) m)) = a
    rw [lens.get_set, part.get_set]
  · show set (write a (get (set (write b (get m)) m))) (set (write b (get m)) m) =
      set (write a (get m)) m
    rw [lens.get_set, lens.set_set, part.set_set]
  · show set (write (read (get m)) (get m)) m = m
    rw [part.set_get, lens.set_get]

end Lens

namespace Field.Transfers
variable {α N : Type} {name : String} {tag depth : Nat} {scalar : Scalar α} {layout : Layout N}

/-- A field that is not written leaves the message as it is. -/
theorem absent {f : Field M} (unwritten : f.write m = []) :
    Field.Transfers budget m f acc acc := by
  intro _
  rw [unwritten]
  rfl

/-- A field that is written once. -/
theorem once {f : Field M} {p : Payload} (written : f.write m = [p])
    (taken : p.Fits → ∀ rest,
      f.read budget p.wireType (p.encode ++ rest) acc = .ok (after, rest)) :
    Field.Transfers budget m f acc after := by
  intro fits
  rw [written] at fits ⊢
  exact ⟨after, taken (fits p (List.mem_singleton_self p)), rfl⟩

theorem single [DecidableEq α] [scalar.Faithful] {get : M → α} {set : α → M → M}
    (lens : Lens get set) (fresh : get acc = scalar.default) :
    Field.Transfers budget m (Field.single name tag scalar get set) acc (set (get m) acc) := by
  by_cases default : get m = scalar.default
  · have kept : set (get m) acc = acc := by rw [default, ← fresh, lens.set_get]
    rw [kept]
    exact absent (if_pos default)
  · exact once (if_neg default) fun fits rest => store_ok (Scalar.readAs_write (get m) rest fits)

theorem optional_of_some [scalar.Faithful] {get : M → Option α} {set : Option α → M → M} {a : α}
    (present : get m = some a) :
    Field.Transfers budget m (Field.optional name tag scalar get set) acc (set (some a) acc) := by
  refine once (p := scalar.write a) ?_ fun fits rest => store_ok (Scalar.readAs_write a rest fits)
  rw [Field.optional]
  simp only [present]
  rfl

theorem optional_of_none {get : M → Option α} {set : Option α → M → M}
    (missing : get m = none) :
    Field.Transfers budget m (Field.optional name tag scalar get set) acc acc := by
  refine absent ?_
  rw [Field.optional]
  simp only [missing]
  rfl

theorem optional [scalar.Faithful] {get : M → Option α} {set : Option α → M → M}
    (lens : Lens get set) (fresh : get acc = none) :
    Field.Transfers budget m (Field.optional name tag scalar get set) acc (set (get m) acc) := by
  cases present : get m with
  | none =>
    rw [← fresh, lens.set_get]
    exact optional_of_none present
  | some a => exact optional_of_some present

theorem message_of_some (nested : layout.Restores depth id) (deep : depth < budget)
    {get : M → Option N} {set : Option N → M → M} {n : N} (present : get m = some n)
    (fresh : get acc = none) :
    Field.Transfers budget m (Field.message name tag layout get set) acc (set (some n) acc) := by
  refine once (p := .delimited (layout.encode n)) ?_ fun fits rest => ?_
  · rw [Field.message]
    simp only [present]
    rfl
  · refine store_ok ?_
    rw [fresh, Option.getD_none]
    exact Layout.readMessage_encode nested deep fits

theorem message_of_none {get : M → Option N} {set : Option N → M → M}
    (missing : get m = none) :
    Field.Transfers budget m (Field.message name tag layout get set) acc acc := by
  refine absent ?_
  rw [Field.message]
  simp only [missing]
  rfl

theorem message (nested : layout.Restores depth id) (deep : depth < budget)
    {get : M → Option N} {set : Option N → M → M} (lens : Lens get set)
    (fresh : get acc = none) :
    Field.Transfers budget m (Field.message name tag layout get set) acc (set (get m) acc) := by
  cases present : get m with
  | none =>
    rw [← fresh, lens.set_get]
    exact message_of_none present
  | some n => exact message_of_some nested deep present fresh

/-- Values that are put at the end of those that are there already, one after another. -/
theorem takes_all {β : Type} {f : Field M} {get : M → List β} {set : List β → M → M}
    (lens : Lens get set) {write : β → Payload}
    (taken : ∀ b acc, (write b).Fits → ∀ rest,
      f.read budget (write b).wireType ((write b).encode ++ rest) acc =
        .ok (set (get acc ++ [b]) acc, rest))
    {bs : List β} (fits : ∀ p ∈ bs.map write, p.Fits) :
    f.Takes budget (bs.map write) acc (set (get acc ++ bs) acc) := by
  induction bs generalizing acc with
  | nil =>
    change set (get acc ++ []) acc = acc
    rw [List.append_nil, lens.set_get]
  | cons b bs ih =>
    rw [List.map_cons, List.forall_mem_cons] at fits
    refine ⟨_, taken b acc fits.1, ?_⟩
    have others := @ih (set (get acc ++ [b]) acc) fits.2
    rw [lens.get_set, lens.set_set, List.append_assoc] at others
    exact others

theorem repeated [scalar.Faithful] {get : M → List α} {set : List α → M → M}
    (lens : Lens get set) (fresh : get acc = []) :
    Field.Transfers budget m (Field.repeated name tag scalar get set) acc (set (get m) acc) := by
  intro fits
  have taken : (Field.repeated name tag scalar get set).Takes budget ((get m).map scalar.write)
      acc (set (get acc ++ get m) acc) :=
    takes_all lens (fun a _ fits rest => store_ok (Scalar.readAs_write a rest fits)) fits
  rw [fresh, List.nil_append] at taken
  exact taken

theorem messages (nested : layout.Restores depth id) (deep : depth < budget)
    {get : M → List N} {set : List N → M → M} (lens : Lens get set) (fresh : get acc = []) :
    Field.Transfers budget m (Field.messages name tag layout get set) acc (set (get m) acc) := by
  intro fits
  have taken : (Field.messages name tag layout get set).Takes budget
      ((get m).map fun n => .delimited (layout.encode n)) acc (set (get acc ++ get m) acc) :=
    takes_all lens (fun _ _ fits _ => store_ok (Layout.readMessage_encode nested deep fits)) fits
  rw [fresh, List.nil_append] at taken
  exact taken

end Field.Transfers

theorem Field.mapEntry_restores : Field.mapEntry.Restores 0 id :=
  .of_transfers (by decide) fun _ _ _ => .cons (.single rfl rfl) (.cons (.single rfl rfl) (.nil _))

namespace Field.Transfers
variable {name : String} {tag : Nat}

/-- Entries that are put in their places, one after another. -/
theorem takes_entries {get : M → List (String × Bytes)} {set : List (String × Bytes) → M → M}
    (lens : Lens get set) (deep : 0 < budget) {entries : List (String × Bytes)}
    (fits : ∀ p ∈ entries.map fun e => Payload.delimited (mapEntry.encode e), p.Fits) :
    (Field.textMap name tag get set).Takes budget
      (entries.map fun e => .delimited (mapEntry.encode e)) acc
      (set (entries.foldl (fun es (k, v) => Keyed.insert k v es) (get acc)) acc) := by
  induction entries generalizing acc with
  | nil => exact (lens.set_get acc).symm ▸ rfl
  | cons e entries ih =>
    rw [List.map_cons, List.forall_mem_cons] at fits
    refine ⟨set (Keyed.insert e.1 e.2 (get acc)) acc, fun rest => store_ok ?_, ?_⟩
    · exact Layout.readNested_encode mapEntry_restores deep fits.1
    · have others := @ih (set (Keyed.insert e.1 e.2 (get acc)) acc) fits.2
      rw [lens.get_set, lens.set_set] at others
      exact others

theorem textMap {get : M → List (String × Bytes)} {set : List (String × Bytes) → M → M}
    (deep : 0 < budget) (lens : Lens get set) (fresh : get acc = []) :
    Field.Transfers budget m (Field.textMap name tag get set) acc
      (set (Keyed.ofList (get m)) acc) := by
  intro fits
  have taken : (Field.textMap name tag get set).Takes budget
      ((get m).map fun e => .delimited (mapEntry.encode e)) acc
      (set ((get m).foldl (fun es (k, v) => Keyed.insert k v es) (get acc)) acc) :=
    takes_entries lens deep fits
  rw [fresh] at taken
  exact taken

end Field.Transfers
end DocumentClient.Wire
