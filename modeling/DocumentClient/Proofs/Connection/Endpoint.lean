import DocumentClient.Connection.Endpoint
import DocumentClient.Proofs.Decimal
import Mathlib.Data.List.TakeWhile

/-!
# Dialled addresses have a host and a port

A seed host is split at its last colon, unless it is a literal address in brackets as a whole. What
stands after the colon is the port, a numeral for an unsigned number of 16 bits; where none is
written the default one is dialled. The reader of numbers also takes a plus sign before the numeral,
and then the sign is dialled too. Main statements: `ofAuthority_eq_ok_iff`, which says what is
accepted, and `port_of_accepted`.
-/

namespace DocumentClient.Endpoint
variable {cs host port rest : List Char} {conn r : String}

theorem after?_eq_some_iff {start : List Char} :
    after? start cs = some rest ↔ cs = start ++ rest := by
  induction start generalizing cs with
  | nil => simp [after?]
  | cons s start ih =>
    cases cs with
    | nil => simp [after?]
    | cons c cs =>
      by_cases same : s = c
      · subst same
        rw [after?, if_pos rfl, ih, List.cons_append, List.cons_inj_right]
      · rw [after?, if_neg same]
        exact ⟨nofun, fun split => absurd (List.cons.inj split).1.symm same⟩

theorem splitLastColon?_of_not_mem (plain : ':' ∉ cs) : splitLastColon? cs = none := by
  have all : cs.reverse.takeWhile (· ≠ ':') = cs.reverse := by
    rw [List.takeWhile_eq_self_iff]
    intro c hc
    have other : c ≠ ':' := fun same => plain (same ▸ List.mem_reverse.mp hc)
    exact decide_eq_true other
  rw [splitLastColon?, all, List.reverse_reverse]
  exact if_neg (Nat.lt_irrefl _)

theorem splitLastColon?_append (last : ':' ∉ port) :
    splitLastColon? (host ++ ':' :: port) = some (host, port) := by
  have all : ∀ c ∈ port.reverse, decide (c ≠ ':') = true := by
    intro c hc
    have other : c ≠ ':' := fun same => last (same ▸ List.mem_reverse.mp hc)
    exact decide_eq_true other
  have taken : (host ++ ':' :: port).reverse.takeWhile (· ≠ ':') = port.reverse := by
    rw [List.reverse_append, List.reverse_cons, List.append_assoc, List.takeWhile_append_of_pos all]
    simp
  have length : (host ++ ':' :: port).length = host.length + 1 + port.length := by
    simp only [List.length_append, List.length_cons]
    omega
  rw [splitLastColon?, taken, List.reverse_reverse, length]
  rw [if_pos (by omega),
    show host.length + 1 + port.length - port.length - 1 = host.length by omega, List.take_left]

theorem exists_last_colon (some : ':' ∈ cs) :
    ∃ host port, cs = host ++ ':' :: port ∧ ':' ∉ port := by
  obtain ⟨port, host, split, last⟩ := List.eq_append_cons_of_mem (List.mem_reverse.mpr some)
  refine ⟨host.reverse, port.reverse, ?_, fun hc => last (List.mem_reverse.mp hc)⟩
  rw [← List.reverse_reverse cs, split]
  simp

/-- A literal address in brackets, as a whole. -/
def Bracketed (cs : List Char) : Prop := cs.head? = some '[' ∧ cs.getLast? = some ']'

instance : Decidable (Bracketed cs) := inferInstanceAs (Decidable (_ ∧ _))

/-- The host of a seed host, and its port where one is written. The colons of a literal address are
its own. -/
inductive Names : List Char → List Char → Option (List Char) → Prop where
  | plain {cs : List Char} (whole : ':' ∉ cs) : Names cs cs none
  | literal {cs : List Char} (brackets : Bracketed cs) : Names cs cs none
  | withPort {host port : List Char} (outside : ¬ Bracketed (host ++ ':' :: port))
    (last : ':' ∉ port) : Names (host ++ ':' :: port) host (some port)

/-- A numeral for a port. -/
def IsPort (port : List Char) : Prop := Decimal.IsNumeral 65536 port

/-- What the reader of numbers takes for a port: a numeral, or one after a plus sign. -/
def IsTaken (port : List Char) : Prop :=
  IsPort port ∨ ∃ digits, port = '+' :: digits ∧ IsPort digits

theorem read?_isSome_iff_isTaken : (Decimal.read? UInt16.size port).isSome ↔ IsTaken port :=
  Decimal.read?_isSome_iff

theorem IsPort.not_colon (h : IsPort port) : ':' ∉ port := fun hc =>
  absurd (h.digits ':' hc) (by decide)

theorem IsTaken.not_bracket (h : IsTaken port) : ']' ∉ port := by
  have digit {digits : List Char} (numeral : IsPort digits) : ']' ∉ digits := fun hc =>
    absurd (numeral.digits ']' hc) (by decide)
  rcases h with numeral | ⟨digits, rfl, numeral⟩
  · exact digit numeral
  · rw [List.mem_cons]
    rintro (h | h)
    · cases h
    · exact digit numeral h

/-- What a host and a port are dialled as. -/
def dialled (host port : List Char) : String :=
  "http://" ++ String.ofList host ++ ":" ++ String.ofList port

/-- The port that is dialled where none is written. -/
def defaultDigits : List Char := (Decimal.text defaultPort).toList

theorem withPort_eq (cs : List Char) : withPort cs = dialled cs defaultDigits := by
  rw [withPort, dialled, defaultDigits, String.ofList_toList]

theorem isPort_default : IsPort defaultDigits := Decimal.isNumeral_text (by decide)

theorem toList_dialled (host port : List Char) :
    (dialled host port).toList = "http://".toList ++ host ++ ':' :: port := by
  simp [dialled]

theorem dialled_eq (host port : List Char) :
    "http://" ++ String.ofList (host ++ ':' :: port) = dialled host port := by
  rw [← String.toList_inj, toList_dialled]
  simp

theorem ofAuthority_plain (conn : List Char) (nonempty : cs ≠ []) (whole : ':' ∉ cs) :
    ofAuthority conn cs = .ok (dialled cs defaultDigits) := by
  rw [ofAuthority, if_neg nonempty, splitLastColon?_of_not_mem whole, withPort_eq]

section Colon
variable (conn : List Char) (last : ':' ∉ port)
include last

theorem ofAuthority_no_host :
    ofAuthority conn (':' :: port) = .error (.noHost (String.ofList conn)) := by
  have split : splitLastColon? ([] ++ ':' :: port) = some ([], port) := splitLastColon?_append last
  rw [List.nil_append] at split
  rw [ofAuthority, if_neg (List.cons_ne_nil _ _), split]
  exact if_pos rfl

theorem ofAuthority_taken (hosted : host ≠ []) (taken : IsTaken port) :
    ofAuthority conn (host ++ ':' :: port) = .ok (dialled host port) := by
  have nonempty : host ++ ':' :: port ≠ [] := by simp
  rw [ofAuthority, if_neg nonempty, splitLastColon?_append last]
  dsimp only
  rw [if_neg hosted, if_pos (read?_isSome_iff_isTaken.mpr taken), dialled_eq]

theorem ofAuthority_not_taken (hosted : host ≠ []) (refused : ¬ IsTaken port) :
    ofAuthority conn (host ++ ':' :: port) =
      if Bracketed (host ++ ':' :: port) then
        .ok (dialled (host ++ ':' :: port) defaultDigits)
      else .error (.invalidPort (String.ofList port)) := by
  have nonempty : host ++ ':' :: port ≠ [] := by simp
  rw [ofAuthority, if_neg nonempty, splitLastColon?_append last]
  dsimp only
  rw [if_neg hosted, if_neg (mt read?_isSome_iff_isTaken.mp refused), withPort_eq]
  rfl

end Colon

/-- What ends in a bracket is no port. -/
theorem Bracketed.not_taken (brackets : Bracketed (host ++ ':' :: port)) : ¬ IsTaken port := by
  intro taken
  have final : (':' :: port).getLast? = some ']' := by
    have ends := brackets.2
    rwa [List.getLast?_append, List.getLast?_cons, Option.some_or, ← List.getLast?_cons] at ends
  rcases List.mem_cons.mp (List.mem_of_getLast? final) with colon | inside
  · exact absurd colon (by decide)
  · exact taken.not_bracket inside

/-- A seed host is accepted exactly if it has a host, and a port that can be read where one is
written. -/
theorem ofAuthority_eq_ok_iff {conn : List Char} : ofAuthority conn cs = .ok r ↔
    ∃ host port?, Names cs host port? ∧ host ≠ [] ∧ (∀ port ∈ port?, IsTaken port) ∧
      r = dialled host (port?.getD defaultDigits) := by
  constructor
  · intro accepted
    by_cases colon : ':' ∈ cs
    · obtain ⟨host, port, rfl, last⟩ := exists_last_colon colon
      have hosted : host ≠ [] := by
        rintro rfl
        rw [List.nil_append, ofAuthority_no_host conn last] at accepted
        cases accepted
      by_cases taken : IsTaken port
      · rw [ofAuthority_taken conn last hosted taken] at accepted
        have outside : ¬ Bracketed (host ++ ':' :: port) := fun h => h.not_taken taken
        refine ⟨host, some port, .withPort outside last, hosted, ?_, (Except.ok.inj accepted).symm⟩
        rintro _ ⟨rfl⟩
        exact taken
      · rw [ofAuthority_not_taken conn last hosted taken] at accepted
        split at accepted
        · next brackets =>
          exact ⟨_, none, .literal brackets, by simp, nofun, (Except.ok.inj accepted).symm⟩
        · cases accepted
    · have nonempty : cs ≠ [] := by
        rintro rfl
        cases accepted
      rw [ofAuthority_plain conn nonempty colon] at accepted
      exact ⟨cs, none, .plain colon, nonempty, nofun, (Except.ok.inj accepted).symm⟩
  · rintro ⟨host, port?, names, hosted, taken, rfl⟩
    cases names with
    | plain whole => exact ofAuthority_plain conn hosted whole
    | literal brackets =>
      by_cases colon : ':' ∈ cs
      · obtain ⟨host, port, rfl, last⟩ := exists_last_colon colon
        have inside : host ≠ [] := by
          rintro rfl
          exact absurd brackets.1 (by simp)
        rw [ofAuthority_not_taken conn last inside brackets.not_taken, if_pos brackets]
        rfl
      · exact ofAuthority_plain conn hosted colon
    | withPort outside last => exact ofAuthority_taken conn last hosted (taken _ rfl)

/-- What names seed hosts is no web address. -/
theorem ofConnectionString_eq (seed : Text.trimChars conn.toList = "stellar://".toList ++ rest) :
    ofConnectionString conn = ofAuthority ("stellar://".toList ++ rest) (authority rest) := by
  have web (start : String) (other : start.toList.head? = some 'h') :
      ¬ (after? start.toList ("stellar://".toList ++ rest)).isSome := by
    rw [Option.isSome_iff_exists]
    rintro ⟨tail, found⟩
    have same := congrArg List.head? (after?_eq_some_iff.mp found)
    rw [List.head?_append, List.head?_append, other] at same
    cases same
  rw [ofConnectionString, seed, if_neg (not_or.mpr ⟨web _ rfl, web _ rfl⟩),
    after?_eq_some_iff.mpr rfl]

theorem IsTaken.isPort_iff (h : IsTaken port) : IsPort port ↔ port.head? ≠ some '+' := by
  constructor
  · exact Decimal.IsNumeral.head?_ne
  · intro unsigned
    rcases h with numeral | ⟨digits, rfl, -⟩
    · exact numeral
    · exact absurd rfl unsigned

/-- What is dialled for a seed host has a host and a port, which is the one written with the host or
the default one. It is a numeral for an unsigned number of 16 bits, except where a plus sign is
written before that numeral. -/
theorem port_of_accepted (seed : Text.trimChars conn.toList = "stellar://".toList ++ rest)
    (accepted : ofConnectionString conn = .ok r) :
    ∃ host port, r = dialled host port ∧ host ≠ [] ∧
      (Names (authority rest) host (some port) ∨
        Names (authority rest) host none ∧ port = defaultDigits) ∧
      IsTaken port ∧ (IsPort port ↔ port.head? ≠ some '+') := by
  rw [ofConnectionString_eq seed] at accepted
  obtain ⟨host, port?, names, hosted, taken, rfl⟩ := ofAuthority_eq_ok_iff.mp accepted
  have readable : IsTaken (port?.getD defaultDigits) := by
    cases port? with
    | none => exact .inl isPort_default
    | some port => exact taken port rfl
  refine ⟨host, port?.getD defaultDigits, rfl, hosted, ?_, readable, readable.isPort_iff⟩
  cases port? with
  | none => exact .inr ⟨names, rfl⟩
  | some port => exact .inl names

theorem port_of_accepted_of_literal :
    Text.trimChars " stellar://[::1]:7000,b?q".toList =
        "stellar://".toList ++ "[::1]:7000,b?q".toList ∧
      ofConnectionString " stellar://[::1]:7000,b?q" = .ok "http://[::1]:7000" ∧
      ∃ host port, "http://[::1]:7000" = dialled host port ∧ host ≠ [] ∧
        (Names (authority "[::1]:7000,b?q".toList) host (some port) ∨
          Names (authority "[::1]:7000,b?q".toList) host none ∧ port = defaultDigits) ∧
        IsTaken port ∧ (IsPort port ↔ port.head? ≠ some '+') := by
  have seed : Text.trimChars " stellar://[::1]:7000,b?q".toList =
      "stellar://".toList ++ "[::1]:7000,b?q".toList := by decide
  have accepted : ofConnectionString " stellar://[::1]:7000,b?q" = .ok "http://[::1]:7000" := by
    decide
  exact ⟨seed, accepted, port_of_accepted seed accepted⟩

/-- A sign before the port is dialled with it. -/
theorem port_with_sign :
    Text.trimChars "stellar://h:+5".toList = "stellar://".toList ++ "h:+5".toList ∧
      ofConnectionString "stellar://h:+5" = .ok "http://h:+5" ∧
      ¬ ∃ host port, "http://h:+5" = dialled host port ∧ IsPort port := by
  refine ⟨by decide, by decide, ?_⟩
  rintro ⟨host, port, split, numeral⟩
  have cut : splitLastColon? (dialled host port).toList =
      some ("http://".toList ++ host, port) := by
    rw [toList_dialled]
    exact splitLastColon?_append numeral.not_colon
  rw [← split, show splitLastColon? "http://h:+5".toList = some ("http://h".toList, "+5".toList) by
    decide, Option.some_inj] at cut
  have signed : "+5".toList = port := (Prod.mk.inj cut).2
  exact numeral.head?_ne (signed ▸ rfl)

end DocumentClient.Endpoint
