import DocumentClient.Connection.Credentials
import DocumentClient.Proofs.Base64

/-!
# Credentials and their header

The header of credentials can always be made: base64 writes nothing but header characters. What
stands in it are the octets of the user name and the password with a colon between them, so both can
be had back from it where the user name has no colon. Main statement: `header_recoverable`.
-/

namespace DocumentClient

theorem Bytes.ofString_inj {s t : String} (same : ofString s = ofString t) : s = t := by
  have read := congrArg toString? same
  rw [toString?_ofString, toString?_ofString] at read
  exact Option.some.inj read

namespace Credentials

/-- What the header holds of the credentials. -/
def octets (c : Credentials) : Bytes := Bytes.ofString (c.username ++ ":" ++ c.password)

theorem isHeaderChar_digit {n : Nat} (small : n < 64) : isHeaderChar (Base64.digit n) := by
  have all : Base64.alphabet.all isHeaderChar = true := by decide
  have mem : Base64.digit n ∈ Base64.alphabet := by
    rw [Base64.digit, List.getD_eq_getElem?_getD, List.getElem?_eq_getElem small]
    exact List.getElem_mem small
  exact List.all_eq_true.mp all _ mem

/-- Standard base64 is header text. -/
theorem isHeaderChar_of_standard {octets : Bytes} {text : List Char}
    (standard : Base64.Standard octets text) : ∀ c ∈ text, isHeaderChar c := by
  obtain ⟨digits, zeros, fill, rfl, small, -⟩ := standard
  rw [List.forall_mem_append, List.forall_mem_map]
  refine ⟨fun d hd => isHeaderChar_digit (small d hd), fun c hc => ?_⟩
  rw [List.eq_of_mem_replicate hc]
  decide

theorem header?_eq (c : Credentials) :
    c.header? = some ("Basic " ++ String.ofList (Base64.encode c.octets)) := by
  have chars : c.headerText.toList = "Basic ".toList ++ Base64.encode c.octets := by
    rw [headerText, octets]
    simp
  have plain : c.headerText.toList.all isHeaderChar = true := by
    have start : "Basic ".toList.all isHeaderChar = true := by decide
    have rest := isHeaderChar_of_standard (Base64.standard_encode c.octets)
    rw [chars, List.all_append, start, Bool.true_and, List.all_eq_true]
    exact rest
  exact if_pos plain

theorem takeWhile_username {username : List Char} (plain : ':' ∉ username) (password : List Char) :
    (username ++ ':' :: password).takeWhile (· ≠ ':') = username := by
  have inside : ∀ c ∈ username, decide (c ≠ ':') = true := by
    intro c hc
    have other : c ≠ ':' := fun same => plain (same ▸ hc)
    exact decide_eq_true other
  rw [List.takeWhile_append_of_pos inside, List.takeWhile_cons_of_neg (by decide), List.append_nil]

/-- A user name without a colon ends where the first one stands. -/
theorem eq_of_octets {c d : Credentials} (hc : ':' ∉ c.username.toList)
    (hd : ':' ∉ d.username.toList) (same : c.octets = d.octets) : c = d := by
  have joined (e : Credentials) : (e.username ++ ":" ++ e.password).toList =
      e.username.toList ++ ':' :: e.password.toList := by
    simp
  have texts := congrArg String.toList (Bytes.ofString_inj same)
  rw [joined, joined] at texts
  have username : c.username.toList = d.username.toList := by
    have cut := congrArg (List.takeWhile (· ≠ ':')) texts
    rwa [takeWhile_username hc, takeWhile_username hd] at cut
  rw [username, List.append_cancel_left_eq, List.cons_inj_right] at texts
  rw [mk.injEq]
  exact ⟨String.toList_inj.mp username, String.toList_inj.mp texts⟩

/-- The header of any credentials: it can be made; what it says is the one standard base64 text of
the octets of both names, and is read as these octets; and no other credentials without a colon in
the user name have the same header. -/
theorem header_recoverable (c : Credentials) :
    ∃ text, c.header? = some ("Basic " ++ String.ofList text) ∧
      (∀ other, Base64.Standard c.octets other ↔ other = text) ∧
      Base64.decode text = some c.octets ∧
      (':' ∉ c.username.toList → ∀ d : Credentials, ':' ∉ d.username.toList →
        d.header? = c.header? → d = c) := by
  refine ⟨_, c.header?_eq, fun other => Base64.standard_iff, Base64.decode_encode _, ?_⟩
  intro hc d hd same
  rw [header?_eq, header?_eq, Option.some_inj, String.append_right_inj, String.ofList_inj] at same
  have read := congrArg Base64.decode same
  rw [Base64.decode_encode, Base64.decode_encode, Option.some_inj] at read
  exact eq_of_octets hd hc read

theorem header_recoverable_of_control :
    let c : Credentials := ⟨"user\n", "p:ü"⟩
    ':' ∉ c.username.toList ∧ c.header? = some "Basic dXNlcgo6cDrDvA==" ∧
      Base64.decode "dXNlcgo6cDrDvA==".toList = some c.octets ∧
      ∀ d : Credentials, ':' ∉ d.username.toList → d.header? = some "Basic dXNlcgo6cDrDvA==" →
        d = c := by
  intro c
  have plain : ':' ∉ c.username.toList := by decide
  have header : c.header? = some "Basic dXNlcgo6cDrDvA==" := by decide +kernel
  obtain ⟨text, made, -, read, others⟩ := header_recoverable c
  have same : text = "dXNlcgo6cDrDvA==".toList := by
    have start : "Basic dXNlcgo6cDrDvA==" = "Basic " ++ "dXNlcgo6cDrDvA==" := by decide
    rw [header, Option.some_inj, start, String.append_right_inj] at made
    rw [made, String.toList_ofList]
  rw [same] at read
  refine ⟨plain, header, read, ?_⟩
  intro d hd made
  exact others plain d hd (made.trans header.symm)

end Credentials
end DocumentClient
