import DocumentClient.Json.Scalar

/-!
# Reading JSON text

A reader takes a value from the front of a text. It takes at least one octet, which is why a
list of values ends. Arrays and objects may be nested 127 deep: a reader for what is inside of
one is given only to a reader that may still go deeper.
-/

namespace DocumentClient.Json

structure Reader (α : Type) where
  run : Bytes → Reading α
  shrinks : ∀ {s r : Bytes} {a : α}, run s = .ok (a, r) → r.length < s.length

namespace Reading

/-- What a value begins with: all of a scalar, or the bracket of a list or an object, which
is not taken yet. -/
inductive Head where
  | scalar (v : Value)
  | list
  | object

def scalarAfter (v : Value) : Except Stop Bytes → Reading Head
  | .ok r => .ok (.scalar v, r)
  | .error e => .error e

def numberHead : Reading Number → Reading Head
  | .ok (n, r) => .ok (.scalar (.number n), r)
  | .error e => .error e

def textHead : Reading String → Reading Head
  | .ok (t, r) => .ok (.scalar (.text t), r)
  | .error e => .error e

/-- Reads on to the next value and takes it if it is a scalar. -/
def head (s : Bytes) : Reading Head :=
  match skipBlanks s with
  | [] => .error (next .endInValue [])
  | b :: r =>
    if b = 110 then scalarAfter .null (word [117, 108, 108] r)
    else if b = 116 then scalarAfter (.bool true) (word [114, 117, 101] r)
    else if b = 102 then scalarAfter (.bool false) (word [97, 108, 115, 101] r)
    else if b = 45 then numberHead (readNumber true r)
    else if isDigit b then numberHead (readNumber false (b :: r))
    else if b = 34 then textHead (readText r)
    else if b = 91 then .ok (.list, b :: r)
    else if b = 123 then .ok (.object, b :: r)
    else .error (next .expectedValue (b :: r))

theorem scalarAfter_length_le {v : Value} {w : Except Stop Bytes} {s r : Bytes} {a : Head}
    (hw : ∀ t, w = .ok t → t.length ≤ s.length) (h : scalarAfter v w = .ok (a, r)) :
    r.length ≤ s.length := by
  unfold scalarAfter at h
  split at h
  · cases h; exact hw _ rfl
  · cases h

theorem numberHead_length_lt {n : Reading Number} {s r : Bytes} {a : Head}
    (hn : ∀ x t, n = .ok (x, t) → t.length < s.length) (h : numberHead n = .ok (a, r)) :
    r.length < s.length := by
  unfold numberHead at h
  split at h
  · cases h; exact hn _ _ rfl
  · cases h

theorem textHead_length_lt {t : Reading String} {s r : Bytes} {a : Head}
    (ht : ∀ x u, t = .ok (x, u) → u.length < s.length) (h : textHead t = .ok (a, r)) :
    r.length < s.length := by
  unfold textHead at h
  split at h
  · cases h; exact ht _ _ rfl
  · cases h

/-- A scalar takes at least one octet; before a bracket only blanks are taken. -/
theorem head_length {s r : Bytes} {a : Head} (h : head s = .ok (a, r)) :
    r.length ≤ s.length ∧ ((∃ v, a = .scalar v) → r.length < s.length) := by
  have blanks := skipBlanks_length_le s
  suffices r.length < s.length ∨ (r = skipBlanks s ∧ (a = .list ∨ a = .object)) by
    rcases this with h | ⟨rfl, rfl | rfl⟩
    · exact ⟨by omega, fun _ => h⟩
    · exact ⟨blanks, fun ⟨_, hv⟩ => nomatch hv⟩
    · exact ⟨blanks, fun ⟨_, hv⟩ => nomatch hv⟩
  rw [head] at h
  split at h
  · cases h
  · next b t hb =>
    rw [hb] at blanks
    simp only [List.length_cons] at blanks
    repeat' split at h
    · have := scalarAfter_length_le (fun _ => word_length_le) h
      exact .inl (by omega)
    · have := scalarAfter_length_le (fun _ => word_length_le) h
      exact .inl (by omega)
    · have := scalarAfter_length_le (fun _ => word_length_le) h
      exact .inl (by omega)
    · have := numberHead_length_lt (fun _ _ => readNumber_length_lt) h
      exact .inl (by omega)
    · have := numberHead_length_lt (fun _ _ => readNumber_length_lt) h
      simp only [List.length_cons] at this
      exact .inl (by omega)
    · have := textHead_length_lt (fun _ _ => readText_length_lt) h
      exact .inl (by omega)
    · cases h
      exact .inr ⟨hb.symm, .inl rfl⟩
    · cases h
      exact .inr ⟨hb.symm, .inr rfl⟩
    · cases h

/-- The items after the first one, up to the closing bracket. -/
def moreItems {α : Type} (item : Reader α) (s : Bytes) : Reading (List α) :=
  match _hs : skipBlanks s with
  | [] => .error (next .endInList [])
  | b :: t =>
    if b = 93 then .ok ([], t)
    else if b = 44 then
      match _ht : skipBlanks t with
      | [] => .error (next .endInValue [])
      | c :: u =>
        if c = 93 then .error (next .trailingComma (c :: u))
        else
          match _hu : item.run (c :: u) with
          | .error e => .error e
          | .ok (a, r) =>
            match moreItems item r with
            | .error e => .error e
            | .ok (rest, r) => .ok (a :: rest, r)
    else .error (next .expectedListCommaOrEnd (b :: t))
termination_by s.length
decreasing_by
  have := item.shrinks _hu
  have blanks := skipBlanks_length_le s
  have blanks' := skipBlanks_length_le t
  rw [_hs] at blanks
  rw [_ht] at blanks'
  simp only [List.length_cons] at *
  omega

/-- The items of a list, after its opening bracket. -/
def items {α : Type} (item : Reader α) (s : Bytes) : Reading (List α) :=
  match skipBlanks s with
  | [] => .error (next .endInList [])
  | b :: t =>
    if b = 93 then .ok ([], t)
    else
      match item.run (b :: t) with
      | .error e => .error e
      | .ok (a, r) =>
        match moreItems item r with
        | .error e => .error e
        | .ok (rest, r) => .ok (a :: rest, r)

theorem moreItems_length_lt {α : Type} {item : Reader α} {s r : Bytes} {as : List α}
    (h : moreItems item s = .ok (as, r)) : r.length < s.length := by
  fun_induction moreItems item s generalizing as r with
  | case1 | case3 | case4 | case5 | case6 | case8 => cases h
  | case2 s t hs =>
    cases h
    have blanks := skipBlanks_length_le s
    rw [hs] at blanks
    simp only [List.length_cons] at blanks
    omega
  | case7 s t c u ht _ a r' hu rest r'' hm hs _ ih =>
    cases h
    have := ih hm
    have := item.shrinks hu
    have blanks := skipBlanks_length_le s
    have blanks' := skipBlanks_length_le t
    rw [hs] at blanks
    rw [ht] at blanks'
    simp only [List.length_cons] at *
    omega

theorem items_length_lt {α : Type} {item : Reader α} {s r : Bytes} {as : List α}
    (h : items item s = .ok (as, r)) : r.length < s.length := by
  have blanks := skipBlanks_length_le s
  rw [items] at h
  split at h
  · cases h
  · next b t ht =>
    rw [ht] at blanks
    simp only [List.length_cons] at blanks
    split at h
    · cases h; omega
    · split at h
      · cases h
      · next a u hu =>
        have := item.shrinks hu
        simp only [List.length_cons] at this
        split at h
        · cases h
        · next hm =>
          have := moreItems_length_lt hm
          cases h
          omega

/-- A key after its opening quote, the colon, and the value. -/
def member {α : Type} (value : Reader α) (s : Bytes) : Reading (String × α) :=
  match readText s with
  | .error e => .error e
  | .ok (key, t) =>
    match skipBlanks t with
    | [] => .error (next .endInObject [])
    | b :: u =>
      if b = 58 then
        match value.run u with
        | .error e => .error e
        | .ok (a, r) => .ok ((key, a), r)
      else .error (next .expectedColon (b :: u))

theorem member_length_lt {α : Type} {value : Reader α} {s r : Bytes} {m : String × α}
    (h : member value s = .ok (m, r)) : r.length < s.length := by
  rw [member] at h
  split at h
  · cases h
  · next key t ht =>
    have := readText_length_lt ht
    have blanks := skipBlanks_length_le t
    split at h
    · cases h
    · next b u hu =>
      rw [hu] at blanks
      simp only [List.length_cons] at blanks
      split at h
      · split at h
        · cases h
        · next hv =>
          have := value.shrinks hv
          cases h
          omega
      · cases h

/-- The members after the first one, up to the closing brace. -/
def moreMembers {α : Type} (value : Reader α) (s : Bytes) : Reading (List (String × α)) :=
  match _hs : skipBlanks s with
  | [] => .error (next .endInObject [])
  | b :: t =>
    if b = 125 then .ok ([], t)
    else if b = 44 then
      match _ht : skipBlanks t with
      | [] => .error (next .endInValue [])
      | c :: u =>
        if c = 34 then
          match _hu : member value u with
          | .error e => .error e
          | .ok (m, r) =>
            match moreMembers value r with
            | .error e => .error e
            | .ok (rest, r) => .ok (m :: rest, r)
        else if c = 125 then .error (next .trailingComma (c :: u))
        else .error (next .keyNotText (c :: u))
    else .error (next .expectedObjectCommaOrEnd (b :: t))
termination_by s.length
decreasing_by
  have := member_length_lt _hu
  have blanks := skipBlanks_length_le s
  have blanks' := skipBlanks_length_le t
  rw [_hs] at blanks
  rw [_ht] at blanks'
  simp only [List.length_cons] at *
  omega

/-- The members of an object in the order of the text, after its opening brace. -/
def members {α : Type} (value : Reader α) (s : Bytes) : Reading (List (String × α)) :=
  match skipBlanks s with
  | [] => .error (next .endInObject [])
  | b :: t =>
    if b = 125 then .ok ([], t)
    else if b = 34 then
      match member value t with
      | .error e => .error e
      | .ok (m, r) =>
        match moreMembers value r with
        | .error e => .error e
        | .ok (rest, r) => .ok (m :: rest, r)
    else .error (next .keyNotText (b :: t))

theorem moreMembers_length_lt {α : Type} {value : Reader α} {s r : Bytes}
    {ms : List (String × α)} (h : moreMembers value s = .ok (ms, r)) :
    r.length < s.length := by
  fun_induction moreMembers value s generalizing ms r with
  | case1 | case3 | case4 | case5 | case7 | case8 | case9 => cases h
  | case2 s t hs =>
    cases h
    have blanks := skipBlanks_length_le s
    rw [hs] at blanks
    simp only [List.length_cons] at blanks
    omega
  | case6 s t u m r' hu rest r'' hm hs _ ht ih =>
    cases h
    have := ih hm
    have := member_length_lt hu
    have blanks := skipBlanks_length_le s
    have blanks' := skipBlanks_length_le t
    rw [hs] at blanks
    rw [ht] at blanks'
    simp only [List.length_cons] at *
    omega

theorem members_length_lt {α : Type} {value : Reader α} {s r : Bytes}
    {ms : List (String × α)} (h : members value s = .ok (ms, r)) : r.length < s.length := by
  have blanks := skipBlanks_length_le s
  rw [members] at h
  split at h
  · cases h
  · next b t ht =>
    rw [ht] at blanks
    simp only [List.length_cons] at blanks
    split at h
    · cases h; omega
    · split at h
      · split at h
        · cases h
        · next hu =>
          have := member_length_lt hu
          split at h
          · cases h
          · next hm =>
            have := moreMembers_length_lt hm
            cases h
            omega
      · cases h

/-- The list at an opening bracket. Without a reader for the items it is nested too deeply. -/
def nestedList {α : Type} (item : Option (Reader α)) (s : Bytes) : Reading (List α) :=
  match item with
  | none => .error (next .recursionLimit s)
  | some item => items item (s.drop 1)

/-- The object at an opening brace. -/
def nestedObject {α : Type} (value : Option (Reader α)) (s : Bytes) :
    Reading (List (String × α)) :=
  match value with
  | none => .error (next .recursionLimit s)
  | some value => members value (s.drop 1)

theorem nestedList_length_lt {α : Type} {item : Option (Reader α)} {s r : Bytes} {as : List α}
    (h : nestedList item s = .ok (as, r)) : r.length < s.length := by
  unfold nestedList at h
  split at h
  · cases h
  · have := items_length_lt h
    simp only [List.length_drop] at this
    omega

theorem nestedObject_length_lt {α : Type} {value : Option (Reader α)} {s r : Bytes}
    {ms : List (String × α)} (h : nestedObject value s = .ok (ms, r)) :
    r.length < s.length := by
  unfold nestedObject at h
  split at h
  · cases h
  · have := members_length_lt h
    simp only [List.length_drop] at this
    omega

/-- One value, given a reader for what is nested in it. Of members under one key the last
counts. -/
def value (nested : Option (Reader Value)) (s : Bytes) : Reading Value :=
  match head s with
  | .error e => .error e
  | .ok (.scalar v, r) => .ok (v, r)
  | .ok (.list, r) =>
    match nestedList nested r with
    | .error e => .error e
    | .ok (vs, r) => .ok (.array vs, r)
  | .ok (.object, r) =>
    match nestedObject nested r with
    | .error e => .error e
    | .ok (ms, r) => .ok (.object (Keyed.ofList ms), r)

theorem value_length_lt {nested : Option (Reader Value)} {s r : Bytes} {v : Value}
    (h : value nested s = .ok (v, r)) : r.length < s.length := by
  rw [value] at h
  split at h
  · cases h
  · next hh =>
    cases h
    exact (head_length hh).2 ⟨_, rfl⟩
  · next hh =>
    have := (head_length hh).1
    split at h
    · cases h
    · next hl =>
      have := nestedList_length_lt hl
      cases h
      omega
  · next hh =>
    have := (head_length hh).1
    split at h
    · cases h
    · next hl =>
      have := nestedObject_length_lt hl
      cases h
      omega

end Reading

namespace Reader

/-- A reader of values in which arrays and objects are nested at most this deep. -/
def value : (depth : Nat) → Reader Value
  | 0 => ⟨Reading.value none, Reading.value_length_lt⟩
  | depth + 1 => ⟨Reading.value (some (value depth)), Reading.value_length_lt⟩

/-- The depth to which texts are read. -/
def maxDepth : Nat := 127

end Reader

/-- The place of a stop in the text that was read. -/
def Stop.toFault (stop : Stop) (text : Bytes) : Fault :=
  let done := text.take (text.length - stop.left)
  ⟨stop.reason, some ⟨done.count 10 + 1, (done.reverse.takeWhile (· != 10)).length⟩⟩

/-- Reads a whole text: one value and blanks after it. -/
def Reader.readAll {α : Type} (reader : Reader α) (text : Bytes) : Except Fault α :=
  match reader.run text with
  | .error stop => .error (stop.toFault text)
  | .ok (a, r) =>
    match Reading.skipBlanks r with
    | [] => .ok a
    | b :: s => .error ((Reading.next .trailingCharacters (b :: s)).toFault text)

/-- The value that a text denotes. -/
def parse (text : Bytes) : Except Fault Value := (Reader.value Reader.maxDepth).readAll text

end DocumentClient.Json
