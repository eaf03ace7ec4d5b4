/-!
# Lists ordered by key

An association list whose keys increase strictly, in the order of their code points (for
valid text also the order of its UTF-8 octets). Inserting keeps the order and replaces an
entry under the same key, so a later entry wins.
-/

namespace DocumentClient.Keyed
variable {α : Type}

/-- Puts an entry in its place, in place of an earlier one under the same key. -/
def insert (key : String) (value : α) : List (String × α) → List (String × α)
  | [] => [(key, value)]
  | (k, v) :: rest =>
    if key < k then (key, value) :: (k, v) :: rest
    else if key = k then (key, value) :: rest
    else (k, v) :: insert key value rest

/-- The ordered form of a list of entries, the last of each key counting. -/
def ofList (entries : List (String × α)) : List (String × α) :=
  entries.foldl (fun acc (k, v) => insert k v acc) []

/-- The value under a key. -/
def find? (key : String) : List (String × α) → Option α
  | [] => none
  | (k, v) :: rest => if k = key then some v else find? key rest

/-- The keys increase strictly. -/
def Ordered (entries : List (String × α)) : Prop :=
  entries.Pairwise fun a b => a.1 < b.1

theorem find?_insert (key : String) (value : α) (entries : List (String × α)) (k : String) :
    find? k (insert key value entries) = if key = k then some value else find? k entries := by
  induction entries with
  | nil => simp [insert, find?]
  | cons e rest ih =>
    obtain ⟨k', v'⟩ := e
    simp only [insert]
    split
    · simp [find?]
    · split
      · next h => subst h; by_cases hk : key = k <;> simp [find?, hk]
      · next h =>
        simp only [find?, ih]
        by_cases hk : k' = k
        · subst hk
          simp [h]
        · simp [hk]

end DocumentClient.Keyed
