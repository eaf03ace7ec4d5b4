import DocumentClient.Proofs.Connection.Endpoint
import Mathlib.Data.List.TakeWhile

/-!
# Spellings of one address

Blanks at the ends of a connection string are cut off before anything else is looked at, and of
the seed hosts only the first one is read. An endpoint is a web address without blanks at its ends,
so as a connection string it stands for itself. Main statement: `ofConnectionString_of_spelling`.
-/

namespace DocumentClient

namespace Text
variable {cs before mid after : List Char}

/-- Neither end is blank. -/
structure Trimmed (cs : List Char) : Prop where
  first : ∀ c ∈ cs.head?, isBlank c = false
  last : ∀ c ∈ cs.getLast?, isBlank c = false

theorem dropWhile_of_head? (first : ∀ c ∈ cs.head?, isBlank c = false) :
    cs.dropWhile isBlank = cs := by
  cases cs with
  | nil => rfl
  | cons c cs => rw [List.dropWhile_cons_of_neg (Bool.eq_false_iff.mp (first c rfl))]

/-- Blanks around a trimmed text are what trimming takes away. -/
theorem trimChars_eq (blankBefore : ∀ c ∈ before, isBlank c) (blankAfter : ∀ c ∈ after, isBlank c)
    (trimmed : Trimmed mid) : trimChars (before ++ mid ++ after) = mid := by
  have blankReverse : ∀ c ∈ after.reverse, isBlank c := fun c hc =>
    blankAfter c (List.mem_reverse.mp hc)
  have back : mid.reverse.dropWhile isBlank = mid.reverse :=
    dropWhile_of_head? (by simpa using trimmed.last)
  rw [trimChars, List.append_assoc, List.dropWhile_append_of_pos blankBefore]
  cases mid with
  | nil =>
    rw [List.nil_append, List.dropWhile_eq_nil_iff.mpr blankAfter]
    rfl
  | cons c mid =>
    have front : (c :: mid ++ after).dropWhile isBlank = c :: mid ++ after :=
      dropWhile_of_head? trimmed.first
    rw [front, List.reverse_append, List.dropWhile_append_of_pos blankReverse, back,
      List.reverse_reverse]

theorem exists_blank_end (cs : List Char) :
    ∃ kept after, cs = kept ++ after ∧ (∀ c ∈ after, isBlank c) ∧
      ∀ c ∈ kept.getLast?, isBlank c = false := by
  refine ⟨(cs.reverse.dropWhile isBlank).reverse, (cs.reverse.takeWhile isBlank).reverse, ?_, ?_,
    ?_⟩
  · rw [← List.reverse_append, List.takeWhile_append_dropWhile, List.reverse_reverse]
  · intro c hc
    exact List.mem_takeWhile_imp (List.mem_reverse.mp hc)
  · intro c hc
    rw [List.getLast?_reverse] at hc
    have stops := List.head?_dropWhile_not isBlank cs.reverse
    rw [hc] at stops
    simpa using stops

/-- Every text is a trimmed one between blanks. -/
theorem exists_trimmed (cs : List Char) :
    ∃ before mid after, cs = before ++ mid ++ after ∧ (∀ c ∈ before, isBlank c) ∧
      (∀ c ∈ after, isBlank c) ∧ Trimmed mid := by
  obtain ⟨mid, after, split, blankAfter, last⟩ := exists_blank_end (cs.dropWhile isBlank)
  refine ⟨cs.takeWhile isBlank, mid, after, ?_, fun c => List.mem_takeWhile_imp, blankAfter, ?_,
    last⟩
  · rw [List.append_assoc, ← split, List.takeWhile_append_dropWhile]
  · intro c hc
    have stops := List.head?_dropWhile_not isBlank cs
    rw [split, List.head?_append, hc] at stops
    simpa using stops

theorem trimmed_trimChars (cs : List Char) : Trimmed (trimChars cs) := by
  obtain ⟨before, mid, after, rfl, blankBefore, blankAfter, trimmed⟩ := exists_trimmed cs
  rwa [trimChars_eq blankBefore blankAfter trimmed]

theorem trimChars_of_trimmed (trimmed : Trimmed cs) : trimChars cs = cs := by
  have same : trimChars ([] ++ cs ++ []) = cs :=
    trimChars_eq (List.forall_mem_nil _) (List.forall_mem_nil _) trimmed
  rwa [List.nil_append, List.append_nil] at same

/-- More blanks at the ends make no difference. -/
theorem trimChars_append (blankBefore : ∀ c ∈ before, isBlank c)
    (blankAfter : ∀ c ∈ after, isBlank c) : trimChars (before ++ cs ++ after) = trimChars cs := by
  obtain ⟨start, mid, stop, rfl, blankStart, blankStop, trimmed⟩ := exists_trimmed cs
  have all : before ++ (start ++ mid ++ stop) ++ after =
      (before ++ start) ++ mid ++ (stop ++ after) := by
    simp only [List.append_assoc]
  rw [all, trimChars_eq blankStart blankStop trimmed]
  refine trimChars_eq ?_ ?_ trimmed
  · exact List.forall_mem_append.mpr ⟨blankBefore, blankStart⟩
  · exact List.forall_mem_append.mpr ⟨blankStop, blankAfter⟩

end Text

namespace Endpoint
open Text
variable {cs seed host port : List Char} {conn other r : String}

/-- A text that begins as a web address does. -/
def IsWeb (cs : List Char) : Prop :=
  (after? "http://".toList cs).isSome ∨ (after? "https://".toList cs).isSome

theorem isWeb_append (cs : List Char) : IsWeb ("http://".toList ++ cs) :=
  .inl (Option.isSome_iff_exists.mpr ⟨cs, after?_eq_some_iff.mpr rfl⟩)

theorem ofConnectionString_of_isWeb (trimmed : Trimmed cs) (web : IsWeb cs) :
    ofConnectionString (String.ofList cs) = .ok (String.ofList cs) := by
  have whole : trimChars (String.ofList cs).toList = cs := by
    rw [String.toList_ofList, trimChars_of_trimmed trimmed]
  rw [ofConnectionString, whole]
  exact if_pos web

/-- Only the trimmed connection string counts. -/
theorem ofConnectionString_congr (same : trimChars conn.toList = trimChars other.toList) :
    ofConnectionString conn = ofConnectionString other := by
  rw [ofConnectionString, ofConnectionString, same]

theorem isBlank_of_isDigit {c : Char} (digit : c.isDigit) : isBlank c = false := by
  have range : 48 ≤ c.toNat ∧ c.toNat ≤ 57 := by
    rw [Char.isDigit, Bool.and_eq_true, decide_eq_true_eq, decide_eq_true_eq] at digit
    exact ⟨UInt32.le_iff_toNat_le.mp digit.1, UInt32.le_iff_toNat_le.mp digit.2⟩
  simp only [isBlank, Bool.or_eq_false_iff, Bool.and_eq_false_iff, decide_eq_false_iff_not,
    beq_eq_false_iff_ne]
  omega

theorem IsPort.last (h : IsPort port) : ∃ c, port.getLast? = some c ∧ c.isDigit := by
  have last := List.getLast?_eq_some_getLast h.nonempty
  exact ⟨_, last, h.digits _ (List.mem_of_getLast? last)⟩

/-- A port ends in a digit, whether it has a sign or not. -/
theorem IsTaken.last (h : IsTaken port) : ∃ c, port.getLast? = some c ∧ c.isDigit := by
  rcases h with numeral | ⟨digits, rfl, numeral⟩
  · exact numeral.last
  · obtain ⟨c, last, digit⟩ := numeral.last
    exact ⟨c, by rw [List.getLast?_cons, last]; rfl, digit⟩

/-- What is dialled is a connection string for itself. -/
theorem ofConnectionString_dialled (taken : IsTaken port) :
    ofConnectionString (dialled host port) = .ok (dialled host port) := by
  have chars : (dialled host port).toList = "http://".toList ++ (host ++ ':' :: port) := by
    rw [toList_dialled, List.append_assoc]
  have trimmed : Trimmed (dialled host port).toList := by
    rw [chars]
    constructor
    · rintro _ ⟨rfl⟩
      decide
    · obtain ⟨c, last, digit⟩ := taken.last
      intro d hd
      rw [List.getLast?_append, List.getLast?_append, List.getLast?_cons, last] at hd
      cases hd
      exact isBlank_of_isDigit digit
  have web : IsWeb (dialled host port).toList := chars ▸ isWeb_append _
  have same := ofConnectionString_of_isWeb trimmed web
  rwa [String.ofList_toList] at same

theorem ofConnectionString_of_ok (accepted : ofConnectionString conn = .ok r) :
    ofConnectionString r = .ok r := by
  rw [ofConnectionString] at accepted
  split at accepted
  · next web =>
    cases accepted
    exact ofConnectionString_of_isWeb (trimmed_trimChars _) web
  · split at accepted
    · cases accepted
    · obtain ⟨host, port?, -, -, taken, rfl⟩ := ofAuthority_eq_ok_iff.mp accepted
      cases port? with
      | none => exact ofConnectionString_dialled (.inl isPort_default)
      | some port => exact ofConnectionString_dialled (taken port rfl)

/-- What ends the first seed host. -/
def separators : List Char := ['/', '?', ',']

/-- A text for a seed host: without blanks and without what would end it. -/
def IsSeed (cs : List Char) : Prop := ∀ c ∈ cs, isBlank c = false ∧ c ∉ separators

theorem authority_eq (cs : List Char) :
    authority cs = cs.takeWhile fun c => decide (c ∉ separators) := by
  rw [authority, List.takeWhile_takeWhile]
  congr 1
  funext c
  simp [separators, and_left_comm, and_comm]

theorem IsSeed.authority_eq (h : IsSeed seed) : authority seed = seed := by
  rw [Endpoint.authority_eq, List.takeWhile_eq_self_iff]
  exact fun c hc => decide_eq_true (h c hc).2

theorem IsSeed.authority_append {c : Char} (h : IsSeed seed) (ends : c ∈ separators)
    (rest : List Char) : authority (seed ++ c :: rest) = seed := by
  have inside : ∀ d ∈ seed, decide (d ∉ separators) = true := fun d hd => decide_eq_true (h d hd).2
  rw [Endpoint.authority_eq, List.takeWhile_append_of_pos inside,
    List.takeWhile_cons_of_neg (by simpa using ends), List.append_nil]

theorem last_not_blank (start : List Char) {c : Char} (first : isBlank c = false)
    (last : ∀ d ∈ cs.getLast?, isBlank d = false) :
    ∀ d ∈ (start ++ c :: cs).getLast?, isBlank d = false := by
  intro d hd
  rw [List.getLast?_append, List.getLast?_cons, Option.some_or] at hd
  cases found : cs.getLast? with
  | none =>
    rw [found] at hd
    cases hd
    exact first
  | some e =>
    rw [found] at hd
    cases hd
    exact last e found

/-- Where nothing follows the first seed host. -/
theorem ofConnectionString_alone {seed : String} (h : IsSeed seed.toList) :
    ofConnectionString ("stellar://" ++ seed) =
      ofAuthority ("stellar://".toList ++ seed.toList) seed.toList := by
  have trimmed : Trimmed ("stellar://".toList ++ seed.toList) := by
    constructor
    · rintro _ ⟨rfl⟩
      decide
    · exact last_not_blank "stellar:/".toList (by decide : isBlank '/' = false)
        fun d hd => (h d (List.mem_of_getLast? hd)).1
  have chars : trimChars ("stellar://" ++ seed).toList = "stellar://".toList ++ seed.toList :=
    (congrArg trimChars (String.toList_append ..)).trans (trimChars_of_trimmed trimmed)
  rw [ofConnectionString_eq chars, h.authority_eq]

/-- Whatever follows the first seed host, it is the one that is read. -/
theorem exists_ofConnectionString {seed : String} {c : Char} (h : IsSeed seed.toList)
    (ends : c ∈ separators) (suffix : String) :
    ∃ cs, ofConnectionString ("stellar://" ++ seed ++ c.toString ++ suffix) =
      ofAuthority cs seed.toList := by
  obtain ⟨kept, after, split, blank, last⟩ := exists_blank_end suffix.toList
  have solid : isBlank c = false := by
    simp only [separators, List.mem_cons, List.not_mem_nil, or_false] at ends
    rcases ends with rfl | rfl | rfl <;> decide
  have trimmed : Trimmed ("stellar://".toList ++ seed.toList ++ c :: kept) := by
    constructor
    · rintro _ ⟨rfl⟩
      decide
    · exact last_not_blank _ solid last
  have all : ("stellar://" ++ seed ++ c.toString ++ suffix).toList =
      [] ++ ("stellar://".toList ++ seed.toList ++ c :: kept) ++ after := by
    simp [split]
  have chars : trimChars ("stellar://" ++ seed ++ c.toString ++ suffix).toList =
      "stellar://".toList ++ (seed.toList ++ c :: kept) := by
    rw [all, trimChars_eq (List.forall_mem_nil _) blank trimmed, List.append_assoc]
  rw [ofConnectionString_eq chars, h.authority_append ends]
  exact ⟨_, rfl⟩

/-- Blanks at the ends change nothing at all; an endpoint is a connection string for itself; and
what follows the first seed host changes neither whether it is accepted nor what is dialled. -/
theorem ofConnectionString_of_spelling :
    (∀ before conn after : String, (∀ c ∈ before.toList, isBlank c) →
      (∀ c ∈ after.toList, isBlank c) →
        ofConnectionString (before ++ conn ++ after) = ofConnectionString conn) ∧
    (∀ conn r, ofConnectionString conn = .ok r → ofConnectionString r = .ok r) ∧
    ∀ (seed : String) (c : Char) (suffix r : String), IsSeed seed.toList → c ∈ separators →
      (ofConnectionString ("stellar://" ++ seed ++ c.toString ++ suffix) = .ok r ↔
        ofConnectionString ("stellar://" ++ seed) = .ok r) := by
  refine ⟨?_, fun conn r => ofConnectionString_of_ok, ?_⟩
  · intro before conn after blankBefore blankAfter
    apply ofConnectionString_congr
    rw [String.toList_append, String.toList_append, trimChars_append blankBefore blankAfter]
  · intro seed c suffix r plain ends
    obtain ⟨cs, read⟩ := exists_ofConnectionString plain ends suffix
    rw [read, ofConnectionString_alone plain, ofAuthority_eq_ok_iff, ofAuthority_eq_ok_iff]

theorem ofConnectionString_of_spelling_of_literal :
    let conn := "stellar://[::1]:7000/b?c=http://d:e"
    (∀ c ∈ "\u3000\n".toList, isBlank c) ∧ (∀ c ∈ "\t".toList, isBlank c) ∧
      IsSeed "[::1]:7000".toList ∧ '/' ∈ separators ∧
      ofConnectionString ("\u3000\n" ++ conn ++ "\t") = .ok "http://[::1]:7000" ∧
      ofConnectionString "http://[::1]:7000" = .ok "http://[::1]:7000" ∧
      ofConnectionString "stellar://[::1]:7000" = .ok "http://[::1]:7000" := by
  intro conn
  obtain ⟨blanks, itself, first⟩ := ofConnectionString_of_spelling
  have blankBefore : ∀ c ∈ "\u3000\n".toList, isBlank c :=
    List.all_eq_true.mp (by decide : "\u3000\n".toList.all isBlank)
  have blankAfter : ∀ c ∈ "\t".toList, isBlank c :=
    List.all_eq_true.mp (by decide : "\t".toList.all isBlank)
  have plain : IsSeed "[::1]:7000".toList := fun c hc =>
    of_decide_eq_true (List.all_eq_true.mp (by decide : "[::1]:7000".toList.all fun c =>
      decide (isBlank c = false ∧ c ∉ separators)) c hc)
  have ends : '/' ∈ separators := by decide
  have alone : ofConnectionString "stellar://[::1]:7000" = .ok "http://[::1]:7000" := by decide
  have accepted : ofConnectionString conn = .ok "http://[::1]:7000" :=
    (first "[::1]:7000" '/' "b?c=http://d:e" _ plain ends).mpr alone
  have padded := (blanks _ conn _ blankBefore blankAfter).trans accepted
  exact ⟨blankBefore, blankAfter, plain, ends, padded, itself _ _ accepted, alone⟩

end Endpoint
end DocumentClient
