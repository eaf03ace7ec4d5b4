import DocumentClient.Error
import DocumentClient.Proofs.Wire.UnknownFields

/-!
# Details of newer servers

The details of a failure are three texts. A server may add fields that are not known here, before,
between and after them, and send a text again: the fields that are not known change nothing, and of
each text the last one counts. So a failure is the same whether its details come plain or with
more around them. Main statement: `Status.details_extended`.
-/

namespace DocumentClient
namespace Wire.ErrorDetails

inductive Part where
  | reason
  | resourceType
  | resourceName
deriving DecidableEq

namespace Part

def tag : Part → Nat
  | reason => 1
  | resourceType => 2
  | resourceName => 3

def get : Part → ErrorDetails → String
  | reason => (·.reason)
  | resourceType => (·.resourceType)
  | resourceName => (·.resourceName)

def set : Part → String → ErrorDetails → ErrorDetails
  | reason => fun t d => { d with reason := t }
  | resourceType => fun t d => { d with resourceType := t }
  | resourceName => fun t d => { d with resourceName := t }

/-- The field that holds a text. -/
def holding (p : Part) (t : String) : AnyField := ⟨p.tag, .delimited (Bytes.ofString t)⟩

theorem get_set_same (p : Part) (t : String) (d : ErrorDetails) : p.get (p.set t d) = t := by
  cases p <;> rfl

theorem get_set_other {p q : Part} (other : q ≠ p) (t : String) (d : ErrorDetails) :
    q.get (p.set t d) = q.get d := by
  revert other
  cases p <;> cases q <;> simp [get, set]

theorem set_get (p : Part) (d : ErrorDetails) : p.set (p.get d) d = d := by
  cases p <;> rfl

theorem tag_injective {p q : Part} (same : p.tag = q.tag) : p = q := by
  revert same
  cases p <;> cases q <;> simp [tag]

theorem knows_of_tag {x : AnyField} {p : Part} (number : x.tag = p.tag) :
    layout.knows x = true := by
  simp only [Layout.knows, layout, number]
  cases p <;> rfl

theorem exists_tag_of_knows {x : AnyField} (known : layout.knows x = true) :
    ∃ p : Part, x.tag = p.tag := by
  obtain ⟨f, mem, number⟩ := List.any_eq_true.mp known
  have number : f.tag = x.tag := by simpa using number
  simp only [layout, List.mem_cons, List.not_mem_nil, or_false] at mem
  rcases mem with rfl | rfl | rfl
  exacts [⟨reason, number.symm⟩, ⟨resourceType, number.symm⟩, ⟨resourceName, number.symm⟩]

theorem gathers_holding (p : Part) (t : String) (d : ErrorDetails) :
    Layout.Gathers layout Layout.maxNesting [p.holding t] d (p.set t d) := by
  cases p
  · exact Layout.gathers_text (List.mem_cons_self) t d
  · exact Layout.gathers_text (List.mem_cons_of_mem _ List.mem_cons_self) t d
  · exact Layout.gathers_text
      (List.mem_cons_of_mem _ (List.mem_cons_of_mem _ List.mem_cons_self)) t d

theorem holding_injective {p : Part} {t u : String} (same : p.holding t = p.holding u) :
    t = u := by
  have octets : Bytes.ofString t = Bytes.ofString u := by
    simpa [holding] using same
  have read := Bytes.toString?_ofString t
  rw [octets, Bytes.toString?_ofString] at read
  exact (Option.some.inj read).symm

/-- What fields say of a part: its last text, and nothing new if there is none. -/
structure Says (p : Part) (xs : List AnyField) (old t : String) : Prop where
  last : ∀ before u after, xs = before ++ p.holding u :: after →
    (∀ x ∈ after, x.tag ≠ p.tag) → t = u
  silent : (∀ x ∈ xs, x.tag ≠ p.tag) → t = old

theorem Says.cons_other {p : Part} {xs : List AnyField} {old t : String}
    (told : p.Says xs old t) {x : AnyField} (other : x.tag ≠ p.tag) :
    p.Says (x :: xs) old t := by
  constructor
  · intro before u after split others
    cases before with
    | nil =>
      cases split
      exact absurd rfl other
    | cons y before =>
      cases split
      exact told.last before u after rfl others
  · intro silent
    exact told.silent (List.forall_mem_cons.mp silent).2

theorem Says.cons_holding {p : Part} {xs : List AnyField} {new t : String}
    (told : p.Says xs new t) (old : String) : p.Says (p.holding new :: xs) old t := by
  constructor
  · intro before u after split others
    cases before with
    | nil =>
      obtain ⟨same, rfl⟩ := List.cons.inj split
      rw [told.silent others, holding_injective same]
    | cons y before =>
      cases split
      exact told.last before u after rfl others
  · intro silent
    exact absurd rfl (silent _ List.mem_cons_self)

/-- The field for a text that is written, if it is not empty. -/
def written (p : Part) (d : ErrorDetails) : List AnyField :=
  if p.get d = "" then [] else [p.holding (p.get d)]

theorem gathers_written (p : Part) (d : ErrorDetails) {acc : ErrorDetails}
    (fresh : p.get acc = "") :
    Layout.Gathers layout Layout.maxNesting (p.written d) acc (p.set (p.get d) acc) := by
  rw [written]
  split
  · next empty =>
    rw [empty, ← fresh, set_get]
    exact .nil acc
  · exact p.gathers_holding (p.get d) acc

end Part

theorem sent_eq (d : ErrorDetails) :
    layout.sent d = Part.reason.written d ++
      (Part.resourceType.written d ++ (Part.resourceName.written d ++ [])) := by
  have write (p : Part) : (if p.get d = "" then [] else
      [Payload.delimited (Bytes.ofString (p.get d))]).flatMap (fun q => [⟨p.tag, q.any⟩]) =
        p.written d := by
    rw [Part.written]
    split <;> rfl
  rw [← write, ← write, ← write]
  rfl

theorem gathers_sent (d : ErrorDetails) :
    Layout.Gathers layout Layout.maxNesting (layout.sent d) layout.empty d := by
  rw [sent_eq]
  exact (Part.reason.gathers_written d rfl).append <|
    (Part.resourceType.gathers_written d rfl).append <|
    (Part.resourceName.gathers_written d rfl).append <| .nil _

/-- Texts in any number and order: of each part the last one is kept. -/
theorem exists_gathers {xs : List AnyField}
    (texts : ∀ x ∈ xs, layout.knows x = true → ∃ t, x.payload = .delimited (Bytes.ofString t))
    (acc : ErrorDetails) :
    ∃ after, Layout.Gathers layout Layout.maxNesting xs acc after ∧
      ∀ p : Part, p.Says xs (p.get acc) (p.get after) := by
  induction xs generalizing acc with
  | nil =>
    refine ⟨acc, .nil acc, fun p => ⟨?_, fun _ => rfl⟩⟩
    intro before u after split
    simp at split
  | cons x xs ih =>
    rw [List.forall_mem_cons] at texts
    by_cases known : layout.knows x = true
    · obtain ⟨p, number⟩ := Part.exists_tag_of_knows known
      obtain ⟨t, text⟩ := texts.1 known
      obtain rfl : x = p.holding t := by
        obtain ⟨tag, payload⟩ := x
        rw [Part.holding, ← number, ← text]
      obtain ⟨after, gathers, told⟩ := ih texts.2 (p.set t acc)
      refine ⟨after, (p.gathers_holding t acc).append gathers, fun q => ?_⟩
      by_cases same : q = p
      · subst same
        have later := told q
        rw [Part.get_set_same] at later
        exact later.cons_holding _
      · have later := told q
        rw [Part.get_set_other same] at later
        exact later.cons_other fun number => same (Part.tag_injective number.symm)
    · obtain ⟨after, gathers, told⟩ := ih texts.2 acc
      refine ⟨after, .unknown (by simpa using known) gathers, fun q => ?_⟩
      exact (told q).cons_other fun number => known (Part.knows_of_tag number)

theorem wellTagged : layout.WellTagged := by decide

end Wire.ErrorDetails

namespace Status
open Wire

/-- Fields that are not known may stand anywhere among those of the details; these are read all the
same, and so is the failure. Of a text that is sent again the last one counts. -/
theorem details_extended {xs : List AnyField} {s : Bytes} (spelled : AnyField.SpellAll xs s) :
    (∀ d : ErrorDetails, xs.filter ErrorDetails.layout.knows = ErrorDetails.layout.sent d →
      ErrorDetails.layout.decode s = .ok d ∧ ∀ code message,
        Error.ofStatus ⟨code, message, s⟩ =
          Error.ofStatus ⟨code, message, ErrorDetails.layout.encode d⟩) ∧
    ((∀ x ∈ xs, ErrorDetails.layout.knows x = true →
        ∃ t, x.payload = .delimited (Bytes.ofString t)) →
      ∃ d, ErrorDetails.layout.decode s = .ok d ∧
        ∀ p : ErrorDetails.Part, p.Says xs "" (p.get d)) := by
  constructor
  · intro d known
    have gathers := ErrorDetails.gathers_sent d
    have extended : ErrorDetails.layout.decode s = .ok d :=
      Layout.decode_of_gathers ErrorDetails.wellTagged spelled (.of_known (known ▸ gathers))
    have spellable : ∀ x ∈ ErrorDetails.layout.sent d, ∃ t, x.Spells t := by
      intro x mem
      rw [← known] at mem
      exact spelled.exists_of_mem (List.mem_filter.mp mem).1
    have plain : ErrorDetails.layout.decode (ErrorDetails.layout.encode d) = .ok d :=
      Layout.decode_of_gathers ErrorDetails.wellTagged (Layout.spellAll_encode spellable) gathers
    refine ⟨extended, fun code message => ?_⟩
    simp only [Error.ofStatus, kind, text, reading, extended, plain]
  · intro texts
    obtain ⟨d, gathers, told⟩ := ErrorDetails.exists_gathers texts {}
    refine ⟨d, Layout.decode_of_gathers ErrorDetails.wellTagged spelled gathers, fun p => ?_⟩
    have said := told p
    cases p <;> exact said

/-- A number spelled with an empty group and four octets stand around the reason of a failure, which
is read all the same; of two reasons the second one counts. -/
theorem details_extended_of_newer :
    let reason (t : String) := RawField.encode ⟨1, .delimited (Bytes.ofString t)⟩
    let d : ErrorDetails := { reason := "LOCKED" }
    let s : Bytes := [32, 129, 0] ++ (reason "LOCKED" ++ ([45, 1, 2, 3, 4] ++ []))
    let twice : Bytes := reason "ABSENT" ++ (reason "LOCKED" ++ [])
    ErrorDetails.layout.decode s = .ok d ∧
      Error.ofStatus ⟨.failedPrecondition, "no", s⟩ =
        Error.ofStatus ⟨.failedPrecondition, "no", ErrorDetails.layout.encode d⟩ ∧
      ∃ last, ErrorDetails.layout.decode twice = .ok last ∧ last.reason = "LOCKED" := by
  intro reason d s twice
  have number : AnyField.Spells ⟨4, .varint 1⟩ [32, 129, 0] :=
    ⟨by decide, [32], [129, 0], ⟨.last (by decide), by decide, by decide⟩,
      ⟨.more (by decide) (.last (by decide)), by decide, by decide⟩, rfl⟩
  have octets : AnyField.Spells ⟨5, .fixed32 [1, 2, 3, 4]⟩ [45, 1, 2, 3, 4] :=
    ⟨by decide, [45], [1, 2, 3, 4], ⟨.last (by decide), by decide, by decide⟩, ⟨rfl, rfl⟩, rfl⟩
  have spelled (t : String) (short : (Bytes.ofString t).length < UInt64.size) :
      (ErrorDetails.Part.reason.holding t).Spells (reason t) :=
    RawField.spells_encode (p := .delimited _) (by decide) ⟨_, Varint.spells_encode short, rfl⟩
  obtain ⟨extended, same⟩ := (details_extended
    (.cons number (.cons (spelled "LOCKED" (by decide)) (.cons octets .nil)))).1 d rfl
  obtain ⟨last, repeated, told⟩ := (details_extended
    (.cons (spelled "ABSENT" (by decide)) (.cons (spelled "LOCKED" (by decide)) .nil))).2 (by
      rw [List.forall_mem_cons, List.forall_mem_singleton]
      exact ⟨fun _ => ⟨_, rfl⟩, fun _ => ⟨_, rfl⟩⟩)
  refine ⟨extended, same _ _, last, repeated, ?_⟩
  exact (told .reason).last [_] "LOCKED" [] rfl (List.forall_mem_nil _)

end Status
end DocumentClient
