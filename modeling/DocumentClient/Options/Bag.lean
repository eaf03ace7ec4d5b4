import DocumentClient.Options.Value

/-!
# Bags of options

Options by name in the order in which they were first set. Setting a name again replaces its
value in place. Names that no operation knows are kept; they are dropped on resolution.
-/

namespace DocumentClient

structure Bag where
  entries : List (String × OptionValue) := []
deriving DecidableEq

namespace Bag

def insertEntry (name : String) (value : OptionValue) :
    List (String × OptionValue) → List (String × OptionValue)
  | [] => [(name, value)]
  | (n, v) :: rest =>
    if n = name then (n, value) :: rest else (n, v) :: insertEntry name value rest

/-- Sets an option, in place of an earlier value under the same name. -/
def insert (bag : Bag) (name : String) (value : OptionValue) : Bag :=
  ⟨insertEntry name value bag.entries⟩

/-- The bag that results from setting the entries one after another. -/
def insertAll (bag : Bag) (entries : List (String × OptionValue)) : Bag :=
  entries.foldl (fun bag (name, value) => bag.insert name value) bag

def ofEntries (entries : List (String × OptionValue)) : Bag := insertAll {} entries

def findValue? (name : String) : List (String × OptionValue) → Option OptionValue
  | [] => none
  | (n, v) :: rest => if n = name then some v else findValue? name rest

def get? (bag : Bag) (name : String) : Option OptionValue := findValue? name bag.entries

/-- This bag with the entries of another one set on top of it. -/
def overwrite (bag later : Bag) : Bag := bag.insertAll later.entries

def size (bag : Bag) : Nat := bag.entries.length

def isEmpty (bag : Bag) : Bool := bag.entries.isEmpty

/-- The names in order. -/
def names (bag : Bag) : List String := bag.entries.map (·.1)

theorem get?_insert (bag : Bag) (name : String) (value : OptionValue) (n : String) :
    (bag.insert name value).get? n = if n = name then some value else bag.get? n := by
  obtain ⟨entries⟩ := bag
  simp only [get?, insert]
  induction entries with
  | nil => simp [insertEntry, findValue?, eq_comm]
  | cons e rest ih =>
    obtain ⟨k, v⟩ := e
    simp only [insertEntry]
    split
    · next h =>
      subst h
      by_cases hn : n = k <;> simp [findValue?, hn, eq_comm]
    · next h =>
      simp only [findValue?, ih]
      by_cases hn : k = n
      · subst hn
        simp [h]
      · simp [hn]

end Bag
end DocumentClient
