import DocumentClient.MutationState
import DocumentClient.Proofs.Keyed

/-!
# What a mutation state holds

Tokens stand in the order of their places, each place once. Adding a token keeps that order, so
that every stored token is one that was added, and at the place of each added token the state holds
one that is at least as late. Main statements: `Holds.addTo` for one token and `holds_ofList` for
all.
-/

namespace DocumentClient.MutationState
variable {a b c t u : MutationToken} {stored added : List MutationToken}

theorem SamePlace.refl (t : MutationToken) : SamePlace t t := ⟨rfl, rfl⟩

theorem SamePlace.symm (h : SamePlace a b) : SamePlace b a := ⟨h.1.symm, h.2.symm⟩

theorem SamePlace.trans (hab : SamePlace a b) (hbc : SamePlace b c) : SamePlace a c :=
  ⟨hab.1.trans hbc.1, hab.2.trans hbc.2⟩

theorem SamePlace.precedes_congr (ha : SamePlace a t) (hb : SamePlace b u) :
    Precedes a b ↔ Precedes t u := by
  rw [Precedes, Precedes, ha.1, ha.2, hb.1, hb.2]

theorem Precedes.not_samePlace (h : Precedes a b) : ¬ SamePlace a b := by
  rintro ⟨bucket, partition⟩
  rcases h with h | ⟨-, h⟩
  · rw [bucket] at h
    exact String.lt_irrefl _ h
  · rw [partition] at h
    exact UInt16.lt_irrefl _ h

theorem Precedes.trans (hab : Precedes a b) (hbc : Precedes b c) : Precedes a c := by
  rcases hab with hab | ⟨sameab, hab⟩
  · rcases hbc with hbc | ⟨samebc, -⟩
    · exact .inl (String.lt_trans hab hbc)
    · exact .inl (samebc ▸ hab)
  · rcases hbc with hbc | ⟨samebc, hbc⟩
    · exact .inl (sameab ▸ hbc)
    · exact .inr ⟨sameab.trans samebc, UInt16.lt_trans hab hbc⟩

/-- Of two places that differ one stands before the other. -/
theorem precedes_of_not (notBefore : ¬ Precedes a b) (other : ¬ SamePlace a b) :
    Precedes b a := by
  by_cases bucket : a.bucket = b.bucket
  · have partition : ¬ a.partition < b.partition := fun h => notBefore (.inr ⟨bucket, h⟩)
    have differ : b.partition ≠ a.partition := fun h => other ⟨bucket, h.symm⟩
    exact .inr ⟨bucket.symm, UInt16.lt_of_le_of_ne (UInt16.not_lt.mp partition) differ⟩
  · exact .inl (Keyed.lt_of_not_lt_of_ne (fun h => notBefore (.inl h)) bucket)

/-- A place occurs once among tokens in order. -/
theorem eq_of_samePlace (ordered : stored.Pairwise Precedes) (ha : a ∈ stored) (hb : b ∈ stored)
    (same : SamePlace a b) : a = b := by
  induction stored with
  | nil => cases ha
  | cons v rest ih =>
    obtain ⟨first, ordered⟩ := List.pairwise_cons.mp ordered
    rw [List.mem_cons] at ha hb
    rcases ha with rfl | ha
    · rcases hb with rfl | hb
      · rfl
      · exact absurd same (first b hb).not_samePlace
    · rcases hb with rfl | hb
      · exact absurd same.symm (first a ha).not_samePlace
      · exact ih ordered ha hb

/-- Of the tokens in order only one is at a given place. -/
theorem filter_samePlace (ordered : stored.Pairwise Precedes) (hu : u ∈ stored)
    (same : SamePlace u t) : stored.filter (fun v => SamePlace v t) = [u] := by
  induction stored with
  | nil => cases hu
  | cons v rest ih =>
    obtain ⟨first, tail⟩ := List.pairwise_cons.mp ordered
    by_cases here : SamePlace v t
    · obtain rfl := eq_of_samePlace ordered hu List.mem_cons_self (same.trans here.symm)
      have none : rest.filter (fun w => SamePlace w t) = [] := by
        rw [List.filter_eq_nil_iff]
        intro w hw there
        exact (first w hw).not_samePlace (same.trans (of_decide_eq_true there).symm)
      rw [List.filter_cons, if_pos (decide_eq_true here), none]
    · have later : u ∈ rest := by
        rcases List.mem_cons.mp hu with rfl | hu
        · exact absurd same here
        · exact hu
      rw [List.filter_cons, if_neg (by simpa using here), ih tail later]

theorem mem_addTo (h : u ∈ addTo t stored) : u = t ∨ u ∈ stored := by
  induction stored with
  | nil => exact .inl (List.mem_singleton.mp h)
  | cons v rest ih =>
    rw [addTo] at h
    split at h
    · rcases List.mem_cons.mp h with rfl | h
      · split
        · exact .inl rfl
        · exact .inr List.mem_cons_self
      · exact .inr (List.mem_cons_of_mem _ h)
    split at h
    · exact List.mem_cons.mp h
    · rcases List.mem_cons.mp h with rfl | h
      · exact .inr List.mem_cons_self
      · exact (ih h).imp id (List.mem_cons_of_mem _)

/-- Whatever stands before a token and all stored ones stands before all that are stored then. -/
theorem precedes_addTo (new : Precedes a t) (all : ∀ u ∈ stored, Precedes a u) :
    ∀ u ∈ addTo t stored, Precedes a u := by
  intro u hu
  rcases mem_addTo hu with rfl | hu
  · exact new
  · exact all u hu

theorem ordered_addTo (ordered : stored.Pairwise Precedes) (t : MutationToken) :
    (addTo t stored).Pairwise Precedes := by
  induction stored with
  | nil => exact List.pairwise_singleton _ _
  | cons v rest ih =>
    obtain ⟨first, tail⟩ := List.pairwise_cons.mp ordered
    rw [addTo]
    split
    · next same =>
      refine List.pairwise_cons.mpr ⟨?_, tail⟩
      intro u hu
      split
      · exact (same.precedes_congr (.refl u)).mpr (first u hu)
      · exact first u hu
    split
    · next before =>
      refine List.pairwise_cons.mpr ⟨?_, ordered⟩
      intro u hu
      rcases List.mem_cons.mp hu with rfl | hu
      · exact before
      · exact before.trans (first u hu)
    · next other notBefore =>
      exact List.pairwise_cons.mpr
        ⟨precedes_addTo (precedes_of_not notBefore other) first, ih tail⟩

/-- The added token, or a later one at its place, is stored. -/
theorem addTo_takes (t : MutationToken) (stored : List MutationToken) :
    ∃ u ∈ addTo t stored, SamePlace u t ∧ t.seqno ≤ u.seqno := by
  induction stored with
  | nil => exact ⟨t, List.mem_singleton_self t, .refl t, UInt64.le_refl _⟩
  | cons v rest ih =>
    rw [addTo]
    split
    · next same =>
      refine ⟨_, List.mem_cons_self, ?_⟩
      split
      · exact ⟨.refl t, UInt64.le_refl _⟩
      · next late => exact ⟨same.symm, UInt64.not_lt.mp late⟩
    split
    · exact ⟨t, List.mem_cons_self, .refl t, UInt64.le_refl _⟩
    · obtain ⟨u, hu, held⟩ := ih
      exact ⟨u, List.mem_cons_of_mem _ hu, held⟩

/-- A stored token stays, or a later one takes its place. -/
theorem addTo_keeps (t : MutationToken) (hu : u ∈ stored) :
    ∃ w ∈ addTo t stored, SamePlace w u ∧ u.seqno ≤ w.seqno := by
  induction stored with
  | nil => cases hu
  | cons v rest ih =>
    rw [addTo]
    rcases List.mem_cons.mp hu with rfl | hu
    · split
      · next same =>
        refine ⟨_, List.mem_cons_self, ?_⟩
        split
        · next late => exact ⟨same, UInt64.le_of_lt late⟩
        · exact ⟨.refl u, UInt64.le_refl _⟩
      split
      · exact ⟨u, List.mem_cons_of_mem _ List.mem_cons_self, .refl u, UInt64.le_refl _⟩
      · exact ⟨u, List.mem_cons_self, .refl u, UInt64.le_refl _⟩
    · split
      · exact ⟨u, List.mem_cons_of_mem _ hu, .refl u, UInt64.le_refl _⟩
      split
      · exact ⟨u, List.mem_cons_of_mem _ (List.mem_cons_of_mem _ hu), .refl u, UInt64.le_refl _⟩
      · obtain ⟨w, hw, held⟩ := ih hu
        exact ⟨w, List.mem_cons_of_mem _ hw, held⟩

/-- The stored tokens are the latest of the added ones, one for each place, in order. -/
structure Holds (stored added : List MutationToken) : Prop where
  ordered : stored.Pairwise Precedes
  genuine : ∀ u ∈ stored, u ∈ added
  latest : ∀ t ∈ added, ∃ u ∈ stored, SamePlace u t ∧ t.seqno ≤ u.seqno

theorem Holds.addTo (h : Holds stored added) (t : MutationToken) :
    Holds (addTo t stored) (added ++ [t]) := by
  constructor
  · exact ordered_addTo h.ordered t
  · intro u hu
    rw [List.mem_append, List.mem_singleton]
    exact (mem_addTo hu).symm.imp (h.genuine u) id
  · intro v hv
    rcases List.mem_append.mp hv with hv | hv
    · obtain ⟨u, hu, same, late⟩ := h.latest v hv
      obtain ⟨w, hw, same', late'⟩ := addTo_keeps t hu
      exact ⟨w, hw, same'.trans same, UInt64.le_trans late late'⟩
    · rw [List.mem_singleton.mp hv]
      exact addTo_takes t stored

theorem Holds.addAll {state : MutationState} (h : Holds state.tokens added)
    (ts : List MutationToken) : Holds (state.addAll ts).tokens (added ++ ts) := by
  induction ts generalizing state added with
  | nil =>
    rw [List.append_nil]
    exact h
  | cons t ts ih =>
    have next : Holds (state.add t).tokens (added ++ [t]) := h.addTo t
    rw [List.append_cons]
    exact ih next

theorem holds_empty : Holds ({} : MutationState).tokens [] where
  ordered := .nil
  genuine _ h := nomatch h
  latest _ h := nomatch h

theorem holds_ofList (ts : List MutationToken) : Holds (ofList ts).tokens ts :=
  holds_empty.addAll ts

/-- A state is empty only when nothing was added. -/
theorem Holds.isEmpty_iff (h : Holds stored added) : stored = [] ↔ added = [] := by
  constructor
  · intro none
    rw [List.eq_nil_iff_forall_not_mem]
    intro t ht
    obtain ⟨u, hu, -⟩ := h.latest t ht
    rw [none] at hu
    cases hu
  · intro none
    rw [List.eq_nil_iff_forall_not_mem]
    intro u hu
    have := h.genuine u hu
    rw [none] at this
    cases this

end DocumentClient.MutationState
