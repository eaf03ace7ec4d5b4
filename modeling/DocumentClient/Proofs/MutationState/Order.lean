import DocumentClient.Proofs.MutationState
import Mathlib.Data.List.Induction

/-!
# Collecting tokens in any order

At each place a state holds the first of the latest tokens that were added there. So what two lists
come to is the state of the first one with the tokens of the other one's state added, and tokens in
another order come to the same sequence numbers. Which uuid stands beside one depends on the order
only where two tokens of a place share it. Main statement: `collected_in_any_order`.
-/

namespace DocumentClient.MutationState
variable {t u : MutationToken} {stored added xs ys ts : List MutationToken}

/-- The tokens at its place are older before it, and not newer after it. -/
def FirstLatest (t : MutationToken) (added : List MutationToken) : Prop :=
  ∃ before after, added = before ++ t :: after ∧
    (∀ u ∈ before, SamePlace u t → u.seqno < t.seqno) ∧
    ∀ u ∈ after, SamePlace u t → u.seqno ≤ t.seqno

theorem FirstLatest.mem (h : FirstLatest t added) : t ∈ added := by
  obtain ⟨before, after, rfl, -, -⟩ := h
  exact List.mem_append_right _ List.mem_cons_self

theorem FirstLatest.le (h : FirstLatest t added) (hu : u ∈ added) (same : SamePlace u t) :
    u.seqno ≤ t.seqno := by
  obtain ⟨before, after, rfl, older, notNewer⟩ := h
  rcases List.mem_append.mp hu with hu | hu
  · exact UInt64.le_of_lt (older u hu same)
  rcases List.mem_cons.mp hu with rfl | hu
  · exact UInt64.le_refl _
  · exact notNewer u hu same

theorem firstLatest_append_iff : FirstLatest t (xs ++ ys) ↔
    (FirstLatest t xs ∧ ∀ u ∈ ys, SamePlace u t → u.seqno ≤ t.seqno) ∨
      (FirstLatest t ys ∧ ∀ u ∈ xs, SamePlace u t → u.seqno < t.seqno) := by
  constructor
  · rintro ⟨before, after, cut, older, notNewer⟩
    rcases List.append_eq_append_iff.mp cut with ⟨between, rfl, rfl⟩ | ⟨between, rfl, rest⟩
    · rw [List.forall_mem_append] at older
      exact .inr ⟨⟨between, after, rfl, older.2, notNewer⟩, older.1⟩
    · cases between with
      | nil =>
        rw [List.append_nil]
        exact .inr ⟨⟨[], after, rest.symm, nofun, notNewer⟩, older⟩
      | cons first between =>
        obtain ⟨rfl, rfl⟩ := List.cons.inj rest
        obtain ⟨soon, later⟩ := List.forall_mem_append.mp notNewer
        exact .inl ⟨⟨before, between, rfl, older, soon⟩, later⟩
  · rintro (⟨⟨before, after, rfl, older, notNewer⟩, later⟩ |
      ⟨⟨before, after, rfl, older, notNewer⟩, earlier⟩)
    · refine ⟨before, after ++ ys, by simp, older, ?_⟩
      exact List.forall_mem_append.mpr ⟨notNewer, later⟩
    · refine ⟨xs ++ before, after, by simp, ?_, notNewer⟩
      exact List.forall_mem_append.mpr ⟨earlier, older⟩

theorem firstLatest_singleton_iff : FirstLatest t [u] ↔ t = u := by
  constructor
  · intro h
    exact List.mem_singleton.mp h.mem
  · rintro rfl
    exact ⟨[], [], rfl, nofun, nofun⟩

/-- Where every place occurs once, each token is the latest of its place. -/
theorem firstLatest_of_ordered (ordered : stored.Pairwise Precedes) :
    FirstLatest t stored ↔ t ∈ stored := by
  refine ⟨FirstLatest.mem, fun ht => ?_⟩
  obtain ⟨before, after, rfl⟩ := List.append_of_mem ht
  obtain ⟨-, fromHere, across⟩ := List.pairwise_append.mp ordered
  have behind := (List.pairwise_cons.mp fromHere).1
  refine ⟨before, after, rfl, fun u hu same => ?_, fun u hu same => ?_⟩
  · exact absurd same (across u hu t List.mem_cons_self).not_samePlace
  · exact absurd same.symm (behind u hu).not_samePlace

/-- A token is stored if it is newer than the one at its place, and a stored one stays unless the
added one is newer. -/
theorem mem_addTo_iff (ordered : stored.Pairwise Precedes) : u ∈ addTo t stored ↔
    (u ∈ stored ∧ (SamePlace t u → t.seqno ≤ u.seqno)) ∨
      (u = t ∧ ∀ v ∈ stored, SamePlace v t → v.seqno < t.seqno) := by
  induction stored with
  | nil => simp [addTo]
  | cons v rest ih =>
    obtain ⟨first, tail⟩ := List.pairwise_cons.mp ordered
    rw [addTo]
    split
    · next same =>
      -- No other stored token is at this place, so only `v` is compared with `t`.
      have apart : ∀ w ∈ rest, ¬ SamePlace w t := fun w hw there =>
        (first w hw).not_samePlace (there.trans same).symm
      split
      · next newer =>
        have replaced : ¬ t.seqno ≤ v.seqno := UInt64.not_le.mpr newer
        grind [SamePlace.symm]
      · next notNewer =>
        have kept : t.seqno ≤ v.seqno := UInt64.not_lt.mp notNewer
        grind [SamePlace.symm]
    split
    · next before =>
      have new : ∀ w ∈ v :: rest, ¬ SamePlace w t := by
        intro w hw there
        rcases List.mem_cons.mp hw with rfl | hw
        · exact before.not_samePlace there.symm
        · exact (before.trans (first w hw)).not_samePlace there.symm
      grind [SamePlace.symm]
    · next other notBefore =>
      rw [List.mem_cons, ih tail]
      grind [SamePlace.symm]

/-- What the stored tokens of a place stay below, all added ones stay below. -/
theorem Holds.forall_seqno_iff (h : Holds stored added) {P : UInt64 → Prop}
    (down : ∀ m n, m ≤ n → P n → P m) :
    (∀ u ∈ stored, SamePlace u t → P u.seqno) ↔ ∀ u ∈ added, SamePlace u t → P u.seqno := by
  constructor
  · intro below u hu same
    obtain ⟨w, hw, there, late⟩ := h.latest u hu
    exact down _ _ late (below w hw (there.trans same))
  · intro below u hu same
    exact below u (h.genuine u hu) same

theorem Holds.forall_lt_iff (h : Holds stored added) (n : UInt64) :
    (∀ u ∈ stored, SamePlace u t → u.seqno < n) ↔ ∀ u ∈ added, SamePlace u t → u.seqno < n :=
  h.forall_seqno_iff (P := (· < n)) fun _ _ => UInt64.lt_of_le_of_lt

theorem Holds.forall_le_iff (h : Holds stored added) (n : UInt64) :
    (∀ u ∈ stored, SamePlace u t → u.seqno ≤ n) ↔ ∀ u ∈ added, SamePlace u t → u.seqno ≤ n :=
  h.forall_seqno_iff (P := (· ≤ n)) fun _ _ => UInt64.le_trans

theorem ofList_concat (ts : List MutationToken) (t : MutationToken) :
    ofList (ts ++ [t]) = (ofList ts).add t := by
  rw [ofList, addAll, List.foldl_append]
  rfl

theorem mem_ofList_iff : t ∈ (ofList ts).tokens ↔ FirstLatest t ts := by
  induction ts using List.reverseRecOn with
  | nil => exact ⟨nofun, fun h => nomatch h.mem⟩
  | append_singleton ts u ih =>
    have held := holds_ofList ts
    rw [ofList_concat, firstLatest_append_iff, firstLatest_singleton_iff]
    refine (mem_addTo_iff held.ordered).trans ?_
    rw [ih]
    refine or_congr (and_congr_right' ?_) (and_congr_right fun here => ?_)
    · rw [List.forall_mem_singleton]
    · subst here
      exact held.forall_lt_iff _

/-- The order of the places leaves no choice, so the tokens at hand determine the state. -/
theorem ofList_congr (same : ∀ t, FirstLatest t xs ↔ FirstLatest t ys) : ofList xs = ofList ys := by
  have distinct : ∀ {ts}, (ofList ts).tokens.Nodup := by
    intro ts
    refine (holds_ofList ts).ordered.imp ?_
    rintro a b before rfl
    exact before.not_samePlace (.refl _)
  have perm : (ofList xs).tokens.Perm (ofList ys).tokens := by
    refine (List.perm_ext_iff_of_nodup distinct distinct).mpr fun t => ?_
    rw [mem_ofList_iff, mem_ofList_iff]
    exact same t
  have tokens : (ofList xs).tokens = (ofList ys).tokens := by
    refine perm.eq_of_pairwise ?_ (holds_ofList xs).ordered (holds_ofList ys).ordered
    intro a b _ _ before behind
    exact absurd (.refl _) (before.trans behind).not_samePlace
  exact congrArg mk tokens

theorem addAll_ofList (xs ys : List MutationToken) : (ofList xs).addAll ys = ofList (xs ++ ys) := by
  rw [ofList, ofList, addAll, addAll, addAll, List.foldl_append]

theorem ofList_append (xs ys : List MutationToken) :
    ofList (xs ++ ys) = (ofList xs).addAll (ofList ys).tokens := by
  have held := holds_ofList ys
  rw [addAll_ofList]
  refine ofList_congr fun t => ?_
  have latest : FirstLatest t (ofList ys).tokens ↔ FirstLatest t ys := by
    rw [firstLatest_of_ordered held.ordered, mem_ofList_iff]
  rw [firstLatest_append_iff, firstLatest_append_iff, latest, held.forall_le_iff]

theorem ofList_concat_of_mem (old : t ∈ ts) : ofList (ts ++ [t]) = ofList ts := by
  refine ofList_congr fun w => ?_
  rw [firstLatest_append_iff, firstLatest_singleton_iff, List.forall_mem_singleton]
  constructor
  · rintro (⟨latest, -⟩ | ⟨rfl, older⟩)
    · exact latest
    · exact absurd (older w old (.refl w)) (UInt64.lt_irrefl _)
  · intro latest
    exact .inl ⟨latest, latest.le old⟩

theorem mem_of_find? {state : MutationState} {bucket : String} {partition : UInt16}
    (found : state.find? bucket partition = some t) :
    t ∈ state.tokens ∧ t.bucket = bucket ∧ t.partition = partition := by
  rw [find?] at found
  have here := List.find?_some found
  rw [decide_eq_true_eq] at here
  exact ⟨List.mem_of_find?_eq_some found, here⟩

theorem find?_eq_some_iff {bucket : String} {partition : UInt16} :
    (ofList ts).find? bucket partition = some t ↔
      t ∈ (ofList ts).tokens ∧ t.bucket = bucket ∧ t.partition = partition := by
  refine ⟨mem_of_find?, ?_⟩
  rintro ⟨ht, here⟩
  cases found : (ofList ts).find? bucket partition with
  | none => exact absurd (decide_eq_true here) (List.find?_eq_none.mp found t ht)
  | some u =>
    obtain ⟨hu, there⟩ := mem_of_find? found
    have same : SamePlace u t := ⟨there.1.trans here.1.symm, there.2.trans here.2.symm⟩
    rw [eq_of_samePlace (holds_ofList ts).ordered hu ht same]

/-- An entry stays where it is, and its sequence number never goes down. -/
theorem find?_add (t : MutationToken) {bucket : String} {partition : UInt16}
    (known : (ofList ts).find? bucket partition = some u) :
    ∃ w, ((ofList ts).add t).find? bucket partition = some w ∧ u.seqno ≤ w.seqno := by
  obtain ⟨hu, rfl, rfl⟩ := find?_eq_some_iff.mp known
  obtain ⟨w, hw, same, late⟩ := addTo_keeps t hu
  rw [← ofList_concat]
  refine ⟨w, find?_eq_some_iff.mpr ⟨?_, same⟩, late⟩
  rw [ofList_concat]
  exact hw

/-- Tokens of one place with one sequence number have one uuid. -/
def Unambiguous (ts : List MutationToken) : Prop :=
  ∀ t ∈ ts, ∀ u ∈ ts, SamePlace t u → t.seqno = u.seqno → t.uuid = u.uuid

instance (ts : List MutationToken) : Decidable (Unambiguous ts) :=
  inferInstanceAs (Decidable (∀ t ∈ ts, ∀ u ∈ ts, _))

theorem Unambiguous.firstLatest_iff (unambiguous : Unambiguous ts) :
    FirstLatest t ts ↔ t ∈ ts ∧ ∀ u ∈ ts, SamePlace u t → u.seqno ≤ t.seqno := by
  refine ⟨fun latest => ⟨latest.mem, fun u hu => latest.le hu⟩, ?_⟩
  rintro ⟨ht, latest⟩
  obtain ⟨before, after, rfl, new⟩ := List.eq_append_cons_of_mem ht
  obtain ⟨notLater, here⟩ := List.forall_mem_append.mp latest
  refine ⟨before, after, rfl, fun u hu same => ?_, (List.forall_mem_cons.mp here).2⟩
  refine UInt64.lt_of_le_of_ne (notLater u hu same) fun tied => ?_
  have uuid := unambiguous u (List.mem_append_left _ hu) t ht same tied
  have again : u = t := by
    cases u
    cases t
    obtain ⟨rfl, rfl⟩ := same
    cases tied
    cases uuid
    rfl
  exact new (again ▸ hu)

theorem ofList_of_perm (perm : xs.Perm ys) (unambiguous : Unambiguous xs) :
    ofList xs = ofList ys := by
  have unambiguous' : Unambiguous ys := fun t ht u hu =>
    unambiguous t (perm.mem_iff.mpr ht) u (perm.mem_iff.mpr hu)
  refine ofList_congr fun t => ?_
  rw [unambiguous.firstLatest_iff, unambiguous'.firstLatest_iff, perm.mem_iff]
  refine and_congr_right fun _ => forall_congr' fun u => ?_
  rw [perm.mem_iff]

/-- A token without its uuid. -/
def nameless (t : MutationToken) : MutationToken := { t with uuid := 0 }

/-- Uuids play no part in what is stored. -/
theorem map_nameless_addTo (t : MutationToken) (stored : List MutationToken) :
    (addTo t stored).map nameless = addTo (nameless t) (stored.map nameless) := by
  induction stored with
  | nil => rfl
  | cons u rest ih =>
    have same : SamePlace (nameless t) (nameless u) ↔ SamePlace t u := Iff.rfl
    have before : Precedes (nameless t) (nameless u) ↔ Precedes t u := Iff.rfl
    rw [List.map_cons, addTo, addTo, ← ih]
    simp only [same, before]
    split
    · rw [List.map_cons, apply_ite nameless]
      rfl
    split <;> rfl

theorem map_nameless_ofList (ts : List MutationToken) :
    (ofList ts).tokens.map nameless = (ofList (ts.map nameless)).tokens := by
  induction ts using List.reverseRecOn with
  | nil => rfl
  | append_singleton ts t ih =>
    rw [List.map_append, List.map_singleton, ofList_concat, ofList_concat]
    change (addTo t (ofList ts).tokens).map nameless = addTo _ (ofList (ts.map nameless)).tokens
    rw [map_nameless_addTo, ih]

theorem map_nameless_of_perm (perm : xs.Perm ys) :
    (ofList xs).tokens.map nameless = (ofList ys).tokens.map nameless := by
  have unambiguous : Unambiguous (xs.map nameless) := by
    intro t ht u hu _ _
    obtain ⟨_, -, rfl⟩ := List.mem_map.mp ht
    obtain ⟨_, -, rfl⟩ := List.mem_map.mp hu
    rfl
  rw [map_nameless_ofList, map_nameless_ofList, ofList_of_perm (perm.map nameless) unambiguous]

/-- The sequence number of a partition, if one is known. -/
def seqno? (state : MutationState) (bucket : String) (partition : UInt16) : Option UInt64 :=
  (state.find? bucket partition).map (·.seqno)

theorem seqno?_eq (state : MutationState) (bucket : String) (partition : UInt16) :
    state.seqno? bucket partition =
      ((state.tokens.map nameless).find? fun t =>
        t.bucket = bucket ∧ t.partition = partition).map (·.seqno) := by
  rw [List.find?_map, Option.map_map]
  rfl

theorem seqno?_of_perm (perm : xs.Perm ys) (bucket : String) (partition : UInt16) :
    (ofList xs).seqno? bucket partition = (ofList ys).seqno? bucket partition := by
  rw [seqno?_eq, seqno?_eq, map_nameless_of_perm perm]

/-- What two lists come to together, what a further token leaves as it was, and what another order
can change. -/
theorem collected_in_any_order :
    (∀ xs ys, ofList (xs ++ ys) = (ofList xs).addAll (ofList ys).tokens) ∧
    (∀ ts t,
      (∀ bucket partition u, (ofList ts).find? bucket partition = some u →
        ∃ w, ((ofList ts).add t).find? bucket partition = some w ∧ u.seqno ≤ w.seqno) ∧
      ((ofList ts).add t).add t = (ofList ts).add t) ∧
    ∀ xs ys, xs.Perm ys →
      (∀ bucket partition,
        (ofList xs).seqno? bucket partition = (ofList ys).seqno? bucket partition) ∧
      (Unambiguous xs → ofList xs = ofList ys) := by
  refine ⟨ofList_append, fun ts t => ⟨fun _ _ _ known => find?_add t known, ?_⟩, ?_⟩
  · rw [← ofList_concat, ← ofList_concat]
    exact ofList_concat_of_mem (List.mem_append_right _ (List.mem_singleton_self t))
  · intro xs ys perm
    exact ⟨seqno?_of_perm perm, ofList_of_perm perm⟩

theorem collected_in_any_order_of_late :
    let old : MutationToken := ⟨"b", 7, 100, 3⟩
    let late : MutationToken := ⟨"b", 7, 100, 5⟩
    let elsewhere : MutationToken := ⟨"a", 7, 100, 5⟩
    ofList [old, late, elsewhere] = ofList [late, old, elsewhere] ∧
      (ofList [old, late, elsewhere]).seqno? "b" 7 = (ofList [late, old, elsewhere]).seqno? "b" 7 ∧
      ∃ w, ((ofList [old, late]).add old).find? "b" 7 = some w ∧ 5 ≤ w.seqno := by
  intro old late elsewhere
  obtain ⟨-, grows, anyOrder⟩ := collected_in_any_order
  obtain ⟨numbers, same⟩ := anyOrder [old, late, elsewhere] [late, old, elsewhere] (.swap _ _ _)
  exact ⟨same (by decide), numbers "b" 7, (grows [old, late] old).1 "b" 7 late (by decide)⟩

/-- Of tokens with one sequence number and two uuids the first one stays. -/
example :
    let one : MutationToken := ⟨"b", 7, 100, 5⟩
    let other : MutationToken := ⟨"b", 7, 200, 5⟩
    ofList [one, other] ≠ ofList [other, one] := by
  decide

end DocumentClient.MutationState
