import DocumentClient.Keyed
import Mathlib.Data.List.Induction

/-!
# The ordered form of a list of entries

Inserting keeps the keys in order, and an entry under a new key is put beside the others. The
order of the keys therefore fixes the list: entries under distinct keys have one ordered form,
whatever order they come in. Where keys are repeated, it has the last entry of each
(`mem_ofList_iff`).
-/

namespace DocumentClient.Keyed
variable {α : Type}

theorem lt_of_not_lt_of_ne {a b : String} (h : ¬ a < b) (other : a ≠ b) : b < a :=
  Decidable.byContradiction fun above =>
    other (String.le_antisymm (String.not_lt.mp above) (String.not_lt.mp h))

instance (entries : List (String × α)) : Decidable (Ordered entries) :=
  inferInstanceAs (Decidable (entries.Pairwise fun a b => a.1 < b.1))

theorem ordered_cons {e : String × α} {entries : List (String × α)} :
    Ordered (e :: entries) ↔ (∀ f ∈ entries, e.1 < f.1) ∧ Ordered entries :=
  List.pairwise_cons

theorem Ordered.nodup {entries : List (String × α)} (ordered : Ordered entries) :
    (entries.map (·.1)).Nodup := by
  rw [List.Nodup, List.pairwise_map]
  refine ordered.imp ?_
  intro a b below same
  rw [same] at below
  exact String.lt_irrefl _ below

theorem mem_insert {key : String} {value : α} {entries : List (String × α)} {e : String × α}
    (h : e ∈ insert key value entries) : e = (key, value) ∨ e ∈ entries := by
  induction entries with
  | nil => exact .inl (List.mem_singleton.mp h)
  | cons f rest ih =>
    obtain ⟨k, v⟩ := f
    rw [insert] at h
    split at h
    · exact List.mem_cons.mp h
    split at h
    · rcases List.mem_cons.mp h with h | h
      · exact .inl h
      · exact .inr (List.mem_cons_of_mem _ h)
    · rcases List.mem_cons.mp h with rfl | h
      · exact .inr List.mem_cons_self
      · exact (ih h).imp id (List.mem_cons_of_mem _)

theorem mem_of_find? {key : String} {value : α} {entries : List (String × α)}
    (h : find? key entries = some value) : (key, value) ∈ entries := by
  induction entries with
  | nil => cases h
  | cons first rest ih =>
    rcases first with ⟨k, v⟩
    rw [find?] at h
    split at h
    · next same =>
      cases h
      exact same ▸ List.mem_cons_self
    · exact List.mem_cons_of_mem _ (ih h)

theorem ordered_insert {entries : List (String × α)} (ordered : Ordered entries) (key : String)
    (value : α) : Ordered (insert key value entries) := by
  induction entries with
  | nil => exact List.pairwise_singleton _ _
  | cons f rest ih =>
    obtain ⟨k, v⟩ := f
    obtain ⟨first, tail⟩ := ordered_cons.mp ordered
    rw [insert]
    split
    · next below =>
      refine ordered_cons.mpr ⟨?_, ordered⟩
      intro e he
      rcases List.mem_cons.mp he with rfl | he
      · exact below
      · exact String.lt_trans below (first e he)
    split
    · next same =>
      subst same
      exact ordered_cons.mpr ⟨first, tail⟩
    · next notBelow other =>
      refine ordered_cons.mpr ⟨?_, ih tail⟩
      intro e he
      rcases mem_insert he with rfl | he
      · exact lt_of_not_lt_of_ne notBelow other
      · exact first e he

theorem insert_perm {key : String} (value : α) {entries : List (String × α)}
    (new : ∀ e ∈ entries, e.1 ≠ key) :
    (insert key value entries).Perm ((key, value) :: entries) := by
  induction entries with
  | nil => exact .refl _
  | cons f rest ih =>
    obtain ⟨k, v⟩ := f
    rw [insert]
    split
    · exact .refl _
    · rw [if_neg fun same => new (k, v) List.mem_cons_self same.symm]
      have tail := ih fun e he => new e (List.mem_cons_of_mem _ he)
      exact (tail.cons _).trans (.swap _ _ _)

/-- The ordered form as it is built up on entries that are there already. -/
theorem foldl_insert (entries acc : List (String × α)) (ordered : Ordered acc)
    (distinct : ((acc ++ entries).map (·.1)).Nodup) :
    Ordered (entries.foldl (fun acc (k, v) => insert k v acc) acc) ∧
      (entries.foldl (fun acc (k, v) => insert k v acc) acc).Perm (acc ++ entries) := by
  induction entries generalizing acc with
  | nil =>
    rw [List.append_nil]
    exact ⟨ordered, .refl _⟩
  | cons f rest ih =>
    obtain ⟨k, v⟩ := f
    have new : ∀ e ∈ acc, e.1 ≠ k := by
      intro e he same
      rw [List.map_append, List.nodup_append] at distinct
      exact distinct.2.2 _ (List.mem_map_of_mem he) _ List.mem_cons_self same
    have moved : (insert k v acc ++ rest).Perm (acc ++ (k, v) :: rest) :=
      ((insert_perm v new).append_right rest).trans List.perm_middle.symm
    have tail := ih (insert k v acc) (ordered_insert ordered k v)
      ((moved.map _).nodup_iff.mpr distinct)
    exact ⟨tail.1, tail.2.trans moved⟩

/-- Entries in any order have the ordered form that one of their orders already is. -/
theorem ofList_of_perm {entries ordered : List (String × α)} (h : Ordered ordered)
    (perm : entries.Perm ordered) : ofList entries = ordered := by
  have distinct := (perm.map (·.1)).nodup_iff.mpr h.nodup
  obtain ⟨built, same⟩ := foldl_insert entries [] List.Pairwise.nil distinct
  refine (same.trans perm).eq_of_pairwise ?_ built h
  intro a b _ _ below above
  exact absurd above (String.lt_asymm below)

theorem ofList_of_ordered {entries : List (String × α)} (h : Ordered entries) :
    ofList entries = entries :=
  ofList_of_perm h (.refl _)

theorem mem_iff_find? {entries : List (String × α)} (ordered : Ordered entries)
    {e : String × α} : e ∈ entries ↔ find? e.1 entries = some e.2 := by
  refine ⟨fun mem => ?_, mem_of_find?⟩
  induction entries with
  | nil => cases mem
  | cons f rest ih =>
    obtain ⟨first, tail⟩ := ordered_cons.mp ordered
    rcases List.mem_cons.mp mem with rfl | mem
    · exact if_pos rfl
    · have other : f.1 ≠ e.1 := fun same => String.lt_irrefl _ (same ▸ first e mem)
      exact (if_neg other).trans (ih tail mem)

/-- Inserting writes over the entry under the same key, and no other one. -/
theorem mem_insert_iff {entries : List (String × α)} (ordered : Ordered entries) {key : String}
    {value : α} {e : String × α} :
    e ∈ insert key value entries ↔ e = (key, value) ∨ e ∈ entries ∧ e.1 ≠ key := by
  obtain ⟨k, v⟩ := e
  rw [mem_iff_find? (ordered_insert ordered key value), mem_iff_find? ordered, find?_insert]
  by_cases same : key = k
  · subst same
    simp [eq_comm]
  · simp [same, Ne.symm same]

/-- The last entry under its key. -/
def LastIn (e : String × α) (entries : List (String × α)) : Prop :=
  ∃ before after, entries = before ++ e :: after ∧ ∀ f ∈ after, f.1 ≠ e.1

theorem lastIn_concat_iff {e f : String × α} {entries : List (String × α)} :
    LastIn e (entries ++ [f]) ↔ e = f ∨ LastIn e entries ∧ e.1 ≠ f.1 := by
  constructor
  · rintro ⟨before, after, split, others⟩
    rcases List.eq_nil_or_concat after with rfl | ⟨between, last, rfl⟩
    · obtain ⟨rfl, same⟩ := List.append_inj' split rfl
      exact .inl (List.singleton_inj.mp same).symm
    · rw [List.concat_eq_append, ← List.cons_append, ← List.append_assoc] at split
      obtain ⟨rfl, same⟩ := List.append_inj' split rfl
      cases same
      exact .inr ⟨⟨before, between, rfl, fun g hg => others g (by simp [hg])⟩,
        (others f (by simp)).symm⟩
  · rintro (rfl | ⟨⟨before, after, rfl, others⟩, other⟩)
    · exact ⟨entries, [], rfl, nofun⟩
    · refine ⟨before, after ++ [f], by simp, ?_⟩
      rw [List.forall_mem_append]
      exact ⟨others, List.forall_mem_singleton.mpr other.symm⟩

theorem ofList_concat (entries : List (String × α)) (e : String × α) :
    ofList (entries ++ [e]) = insert e.1 e.2 (ofList entries) := by
  rw [ofList, List.foldl_append]
  rfl

theorem ordered_ofList (entries : List (String × α)) : Ordered (ofList entries) := by
  induction entries using List.reverseRecOn with
  | nil => exact List.Pairwise.nil
  | append_singleton entries e ih =>
    rw [ofList_concat]
    exact ordered_insert ih e.1 e.2

theorem mem_ofList_iff {entries : List (String × α)} {e : String × α} :
    e ∈ ofList entries ↔ LastIn e entries := by
  induction entries using List.reverseRecOn with
  | nil => exact ⟨nofun, fun ⟨before, _, split, _⟩ => by cases before <;> cases split⟩
  | append_singleton entries f ih =>
    rw [ofList_concat, mem_insert_iff (ordered_ofList entries), ih, lastIn_concat_iff]

end DocumentClient.Keyed
