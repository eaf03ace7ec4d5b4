import DocumentClient.Proofs.Query.Delivery
import DocumentClient.Proofs.Query.LifeCycle

/-!
# Three ways to read a run

A run can be read row by row, all at once, or as a stream that is polled. Whatever has been read
before, and whether that went well or not, what is left of a run comes to the same in all three
ways: the same rows in the same order, then the end or the same failure. The stream asks for one
row with each poll and gives the run up with the first failure. What can be said of a run that
has been read in part holds of a tidy one, whose buffer is empty unless it reads.
-/

namespace DocumentClient

/-- An outcome with its result changed. -/
def Outcome.map {α β : Type} (f : α → β) : Outcome α → Outcome β
  | .ok a => .ok (f a)
  | .error e => .error e
  | .crashed => .crashed

theorem Outcome.map_of {α β : Type} (f : α → β) (result : Except Error α) :
    (Outcome.of result).map f = .of (result.map f) := by
  cases result <;> rfl

namespace Run
open RunCall

/-- What reading a run to its end comes to: its rows, and what becomes of the read after them. -/
structure Remainder where
  rows : List Json.Value
  ending : Outcome Unit

namespace Remainder

/-- As one result. A failure takes the rows with it. -/
def result (r : Remainder) : Outcome (List Json.Value) := r.ending.map fun _ => r.rows

/-- As the items of a stream. -/
def items (r : Remainder) : List (Outcome Json.Value) :=
  r.rows.map .ok ++
    match r.ending with
    | .ok () => []
    | .error e => [.error e]
    | .crashed => [.crashed]

/-- As the answer that follows the last row. -/
def closing (r : Remainder) : Outcome (Option Json.Value) := r.ending.map fun _ => none

/-- As the answers to a reader of single rows. -/
def answers (r : Remainder) : List (Outcome (Option Json.Value)) :=
  r.rows.map (fun v => .ok (some v)) ++ [r.closing]

def cons (v : Json.Value) (r : Remainder) : Remainder := { r with rows := v :: r.rows }

variable {r r' : Remainder}

theorem cons_inj (v v' : Json.Value) : r.cons v = r'.cons v' ↔ v = v' ∧ r = r' := by
  obtain ⟨rows, ending⟩ := r
  obtain ⟨rows', ending'⟩ := r'
  simp [cons, and_assoc]

theorem closing_ne_row (v : Json.Value) : r.closing ≠ .ok (some v) := by
  obtain ⟨_, ending⟩ := r
  cases ending <;> simp [closing, Outcome.map]

theorem result_eq_ok_iff (rows : List Json.Value) :
    r.result = .ok rows ↔ r = ⟨rows, .ok ()⟩ := by
  obtain ⟨_, ending⟩ := r
  cases ending <;> simp [result, Outcome.map]

theorem result_eq_error_iff (e : Error) : r.result = .error e ↔ ∃ rows, r = ⟨rows, .error e⟩ := by
  obtain ⟨_, ending⟩ := r
  cases ending <;> simp [result, Outcome.map]

theorem result_eq_crashed_iff : r.result = .crashed ↔ ∃ rows, r = ⟨rows, .crashed⟩ := by
  obtain ⟨_, ending⟩ := r
  cases ending <;> simp [result, Outcome.map]

theorem result_cons (v : Json.Value) : (r.cons v).result = r.result.map (v :: ·) := by
  obtain ⟨_, ending⟩ := r
  cases ending <;> rfl

/-- Items tell where the rows end and how. -/
theorem items_inj : r.items = r'.items ↔ r = r' := by
  refine ⟨fun h => ?_, congrArg items⟩
  obtain ⟨rows, ending⟩ := r
  obtain ⟨rows', ending'⟩ := r'
  simp only [items] at h
  induction rows generalizing rows' with
  | nil => cases rows' <;> cases ending <;> cases ending' <;> simp_all
  | cons v rows ih =>
    cases rows' with
    | nil => cases ending' <;> simp at h
    | cons v' rows' =>
      simp only [List.map_cons, List.cons_append, List.cons.injEq, Outcome.ok.injEq] at h
      cases ih rows' h.2
      rw [h.1]

end Remainder

/-- Reading row by row to the end or to the first failure, from a run and a peer to those that
are left. -/
inductive ReadOut (client : Client) : Run → Peer → Remainder → Run → Peer → Prop where
  | ended {run next : Run} {peer later : Peer} {ending : Outcome Unit}
      (h : run.nextRow client peer = (ending.map fun _ => none, next, later)) :
      ReadOut client run peer ⟨[], ending⟩ next later
  | row {run next last : Run} {peer later final : Peer} {v : Json.Value} {r : Remainder}
      (h : run.nextRow client peer = (.ok (some v), next, later))
      (more : ReadOut client next later r last final) :
      ReadOut client run peer (r.cons v) last final

section
variable {run next : Run} {v : Json.Value}

theorem stream_of_error {e : Error} (h : run.advance = (.error e, next)) :
    run.stream = [.error e] := by
  rw [stream]
  split <;> rename_i ha <;> cases ha.symm.trans h
  rfl

theorem stream_of_end (h : run.advance = (.ok none, next)) : run.stream = [] := by
  rw [stream]
  split <;> rename_i ha <;> cases ha.symm.trans h
  rfl

theorem stream_of_row (h : run.advance = (.ok (some v), next)) :
    run.stream = .ok v :: next.stream := by
  rw [stream]
  split <;> rename_i ha <;> cases ha.symm.trans h
  rfl

theorem collect_of_error {e : Error} (h : run.advance = (.error e, next)) :
    run.collect .ok = (.error e, next) := by
  rw [collect]
  split <;> rename_i ha <;> cases ha.symm.trans h
  rfl

theorem collect_of_end (h : run.advance = (.ok none, next)) :
    run.collect .ok = (.ok [], next) := by
  rw [collect]
  split <;> rename_i ha <;> cases ha.symm.trans h
  rfl

theorem collect_of_row (h : run.advance = (.ok (some v), next)) :
    run.collect .ok = ((next.collect .ok).1.map (v :: ·), (next.collect .ok).2) := by
  rw [collect]
  split <;> rename_i ha <;> cases ha.symm.trans h
  rcases next.collect .ok with ⟨_ | rows, last⟩ <;> rfl

/-- A run gives rows only while it reads on. -/
theorem phase_of_advance (h : run.advance = (.ok (some v), next)) : next.phase = run.phase := by
  unfold advance at h
  split at h
  · obtain rfl := (Prod.mk.inj h).2
    rfl
  · split at h
    · exact (weight_pull_lt h).2
    · cases h
    · cases h

end

theorem readOut_of_started (client : Client) (peer : Peer) (run : Run)
    (started : run.phase ≠ .notStarted) :
    ∃ r, ReadOut client run peer r (run.collect .ok).2 peer ∧
      r.result = .of (run.collect .ok).1 ∧ r.items = run.stream.map .of := by
  have asked := run.nextRow_of_started started client peer
  induction hw : run.weight using Nat.strongRecOn generalizing run with
  | ind n ih =>
    subst hw
    rcases ha : run.advance with ⟨answer, next⟩
    rw [ha] at asked
    cases answer with
    | error e =>
      rw [collect_of_error ha, stream_of_error ha]
      exact ⟨⟨[], .error e⟩, .ended asked, rfl, rfl⟩
    | ok row =>
      cases row with
      | none =>
        rw [collect_of_end ha, stream_of_end ha]
        exact ⟨⟨[], .ok ()⟩, .ended asked, rfl, rfl⟩
      | some v =>
        have still : next.phase ≠ .notStarted := phase_of_advance ha ▸ started
        obtain ⟨r, more, hc, hs⟩ := ih next.weight (weight_advance_lt ha) next still
          (next.nextRow_of_started still client peer) rfl
        rw [collect_of_row ha, stream_of_row ha]
        refine ⟨r.cons v, .row asked more, ?_, ?_⟩
        · rw [r.result_cons, hc, Outcome.map_of]
        · rw [List.map_cons, ← hs]
          rfl

/-- Rows are in the buffer only while the run reads. -/
def Tidy (run : Run) : Prop := run.phase ≠ .streaming → run.buffer = []

section
variable {run next : Run} {client : Client} {peer later : Peer}

/-- A tidy run starts if that is due, and then it has been started, or it is spent. -/
theorem Tidy.ensureStarted_cases (h : run.Tidy) (client : Client) (peer : Peer) :
    (∃ failure : Outcome Unit, ∃ spent later, failure ≠ .ok () ∧
      run.ensureStarted client peer = (failure, spent, later) ∧ spent.Tidy) ∨
    (∃ begun later, run.ensureStarted client peer = (.ok (), begun, later) ∧ begun.Tidy ∧
      begun.phase ≠ .notStarted) := by
  by_cases fresh : run.phase = .notStarted
  · have empty : run.buffer = [] := h (by simp [fresh])
    rw [ensureStarted, if_pos ⟨empty, fresh⟩]
    cases ha : run.accepted? peer with
    | none =>
      obtain ⟨failure, later, -, failed, hs⟩ := run.start_of_not_accepted client peer ha
      exact .inl ⟨failure, _, later, failed, hs, fun _ => empty⟩
    | some stream =>
      obtain ⟨later, -, hs⟩ := run.start_of_accepted client peer ha
      exact .inr ⟨_, later, hs, fun away => absurd rfl away, by simp⟩
  · exact .inr ⟨run, peer, run.ensureStarted_of_started fresh client peer, h, fresh⟩

/-- A run that cannot start is read out at once, in each of the ways. -/
theorem readOut_of_failure {spent : Run} {failure : Outcome Unit} (failed : failure ≠ .ok ())
    (hs : run.ensureStarted client peer = (failure, spent, later)) :
    ReadOut client run peer ⟨[], failure⟩ spent later ∧
      run.execute client peer = (Remainder.result ⟨[], failure⟩, spent, later) ∧
      run.intoStream client peer = (Remainder.items ⟨[], failure⟩, later) := by
  cases failure with
  | ok _ => exact absurd rfl failed
  | error e =>
    refine ⟨.ended ?_, ?_, ?_⟩
    · rw [nextRow, hs]
      rfl
    · rw [execute, executeWith, hs]
      rfl
    · rw [intoStream, hs]
      rfl
  | crashed =>
    refine ⟨.ended ?_, ?_, ?_⟩
    · rw [nextRow, hs]
      rfl
    · rw [execute, executeWith, hs]
      rfl
    · rw [intoStream, hs]
      rfl

theorem Tidy.of_advance {answer : Except Error (Option Json.Value)} (h : run.Tidy)
    (started : run.phase ≠ .notStarted) (ha : run.advance = (answer, next)) : next.Tidy := by
  cases hp : run.phase with
  | notStarted => exact absurd hp started
  | done =>
    rw [advance_of_done hp (h (by simp [hp]))] at ha
    cases ha
    exact h
  | streaming =>
    cases hr : run.rowsAhead with
    | nil =>
      obtain ⟨last, hl, -, -, empty, -⟩ := advance_of_no_row hp hr
      cases hl.symm.trans ha
      exact fun _ => empty
    | cons row rows =>
      obtain ⟨last, hl, -, reading, -⟩ := advance_of_row hp hr
      cases hl.symm.trans ha
      exact fun away => absurd reading away

theorem Tidy.of_nextRow {answer : Outcome (Option Json.Value)} (h : run.Tidy)
    (hn : run.nextRow client peer = (answer, next, later)) : next.Tidy := by
  rcases h.ensureStarted_cases client peer with
    ⟨failure, spent, after, failed, hs, tidy⟩ | ⟨begun, after, hs, tidy, started⟩
  · rw [nextRow, hs] at hn
    cases failure with
    | ok _ => exact absurd rfl failed
    | error | crashed =>
      cases hn
      exact tidy
  · rw [nextRow, hs] at hn
    cases hn
    exact tidy.of_advance started rfl

/-- What reading out a tidy run comes to is what both of the other readers tell. -/
theorem Tidy.readOut (h : run.Tidy) (client : Client) (peer : Peer) :
    ∃ r last final, ReadOut client run peer r last final ∧
      run.execute client peer = (r.result, last, final) ∧
      run.intoStream client peer = (r.items, final) := by
  rcases h.ensureStarted_cases client peer with
    ⟨failure, spent, later, failed, hs, -⟩ | ⟨begun, later, hs, -, started⟩
  · exact ⟨_, _, _, readOut_of_failure failed hs⟩
  · obtain ⟨r, out, hc, hi⟩ := readOut_of_started client later begun started
    -- the first read of the run is the first read of the run that has begun
    have first : run.nextRow client peer = begun.nextRow client later := by
      rw [begun.nextRow_of_started started, nextRow, hs]
    refine ⟨r, (begun.collect .ok).2, later, ?_, ?_, ?_⟩
    · cases out with
      | ended hn => exact .ended (first.trans hn)
      | row hn more => exact .row (first.trans hn) more
    · rw [execute, executeWith, hs, hc]
    · rw [intoStream, hs, hi]

end

/-- The run and the peer after `n` reads. -/
def afterReads (run : Run) (client : Client) (peer : Peer) : Nat → Run × Peer
  | 0 => (run, peer)
  | n + 1 =>
    let (_, next, peer) := run.nextRow client peer
    next.afterReads client peer n

theorem reads_add (run : Run) (client : Client) (peer : Peer) (n m : Nat) :
    run.reads client peer (n + m) = run.reads client peer n ++
      (run.afterReads client peer n).1.reads client (run.afterReads client peer n).2 m := by
  induction n generalizing run peer with
  | zero => rw [Nat.zero_add, reads, afterReads, List.nil_append]
  | succ n ih =>
    rcases hn : run.nextRow client peer with ⟨answer, next, later⟩
    rw [Nat.succ_add]
    simp only [reads, Run.afterReads, hn, ih, List.cons_append]

theorem Tidy.afterReads {run : Run} (h : run.Tidy) (client : Client) (peer : Peer) (n : Nat) :
    (run.afterReads client peer n).1.Tidy := by
  induction n generalizing run peer with
  | zero => exact h
  | succ n ih => exact ih (h.of_nextRow rfl) _

/-- Single reads tell the same, and nothing else. -/
theorem ReadOut.reads_iff {run last : Run} {client : Client} {peer final : Peer} {r : Remainder}
    (out : ReadOut client run peer r last final) (r' : Remainder) :
    run.reads client peer (r'.rows.length + 1) = r'.answers ↔ r = r' := by
  induction out generalizing r' with
  | @ended run next peer later ending h =>
    obtain ⟨_ | ⟨v, rows⟩, ending'⟩ := r'
    · cases ending <;> cases ending' <;>
        simp [reads, h, Remainder.answers, Remainder.closing, Outcome.map]
    · cases ending <;> simp [reads, h, Remainder.answers, Outcome.map]
  | @row run next last peer later final v r h more ih =>
    rw [reads, h]
    obtain ⟨_ | ⟨v', rows⟩, ending⟩ := r'
    · have other := (Remainder.closing_ne_row (r := ⟨[], ending⟩) v).symm
      simp [Remainder.answers, Remainder.cons, other]
    · change _ = Outcome.ok (some v') :: Remainder.answers ⟨rows, ending⟩ ↔
        r.cons v = Remainder.cons v' ⟨rows, ending⟩
      rw [Remainder.cons_inj, ← ih ⟨rows, ending⟩, List.cons.injEq, Outcome.ok.injEq,
        Option.some.injEq]
      rfl

/-- One poll of the rows of a run as a stream. There is a run to ask as long as rows come. -/
def poll (client : Client) : Option Run → Peer →
    Option (Outcome Json.Value) × Option Run × Peer
  | none, peer => (none, none, peer)
  | some run, peer =>
    match run.nextRow client peer with
    | (.ok (some v), next, peer) => (some (.ok v), some next, peer)
    | (.ok none, _, peer) => (none, none, peer)
    | (.error e, _, peer) => (some (.error e), none, peer)
    | (.crashed, _, peer) => (some .crashed, none, peer)

/-- What the poll after `n` others yields. -/
def polled (client : Client) (source : Option Run) (peer : Peer) :
    Nat → Option (Outcome Json.Value)
  | 0 => (poll client source peer).1
  | n + 1 =>
    let (_, source, peer) := poll client source peer
    polled client source peer n

theorem polled_none (client : Client) (peer : Peer) (n : Nat) :
    polled client none peer n = none := by
  induction n with
  | zero => rfl
  | succ n ih => exact ih

theorem ReadOut.polled_eq {run last : Run} {client : Client} {peer final : Peer} {r : Remainder}
    (out : ReadOut client run peer r last final) (n : Nat) :
    polled client (some run) peer n = r.items[n]? := by
  induction out generalizing n with
  | @ended run next peer later ending h =>
    cases ending <;> cases n <;>
      simp [polled, poll, h, Remainder.items, Outcome.map, polled_none]
  | row h more ih =>
    cases n with
    | zero => simp [polled, poll, h, Remainder.items, Remainder.cons]
    | succ n =>
      rw [polled, poll, h]
      exact ih n

/-- What is left of a run is read alike in the three ways. -/
structure ReadersAgree (run : Run) (client : Client) (peer : Peer) : Prop where
  /-- The rows are collected that the stream yields before it ends. -/
  collected (rows : List Json.Value) : (run.execute client peer).1 = .ok rows ↔
    (run.intoStream client peer).1 = rows.map .ok
  /-- Collecting fails with the failure that the stream yields once, after its rows. -/
  failed (e : Error) : (run.execute client peer).1 = .error e ↔
    ∃ rows : List Json.Value, (run.intoStream client peer).1 = rows.map .ok ++ [.error e]
  /-- Collecting breaks down where the stream does. -/
  crashed : (run.execute client peer).1 = .crashed ↔
    ∃ rows : List Json.Value, (run.intoStream client peer).1 = rows.map .ok ++ [.crashed]
  /-- Both of them take the same from the peer. -/
  peers : (run.execute client peer).2.2 = (run.intoStream client peer).2
  /-- The stream yields one item with each poll and nothing after the last one. -/
  polled (n : Nat) :
    polled client (some run) peer n = (run.intoStream client peer).1[n]?
  /-- After any number of single reads, those rows are collected with which single reads would
  go on until the end. -/
  resumed (n : Nat) (rows : List Json.Value) :
    let left := run.afterReads client peer n
    (left.1.execute client left.2).1 = .ok rows ↔
      run.reads client peer (n + (rows.length + 1)) =
        run.reads client peer n ++ (rows.map (fun v => .ok (some v)) ++ [.ok none])
  /-- The stream yields those with which single reads would go on until the failure. -/
  resumedFailing (n : Nat) (rows : List Json.Value) (e : Error) :
    let left := run.afterReads client peer n
    (left.1.intoStream client left.2).1 = rows.map .ok ++ [.error e] ↔
      run.reads client peer (n + (rows.length + 1)) =
        run.reads client peer n ++ (rows.map (fun v => .ok (some v)) ++ [.error e])

theorem readersAgree_of_tidy {run : Run} (tidy : run.Tidy) (client : Client) (peer : Peer) :
    run.ReadersAgree client peer := by
  obtain ⟨r, last, final, out, hc, hi⟩ := tidy.readOut client peer
  have items (rows : List Json.Value) : rows.map .ok = Remainder.items ⟨rows, .ok ()⟩ :=
    (List.append_nil _).symm
  have failing (rows : List Json.Value) (e : Error) :
      rows.map .ok ++ [.error e] = Remainder.items ⟨rows, .error e⟩ := rfl
  have crashing (rows : List Json.Value) :
      rows.map .ok ++ [.crashed] = Remainder.items ⟨rows, .crashed⟩ := rfl
  refine
    { collected := ?_
      failed := ?_
      crashed := ?_
      peers := by rw [hc, hi]
      polled := by
        intro n
        rw [hi]
        exact out.polled_eq n
      resumed := ?_
      resumedFailing := ?_ }
  · intro rows
    rw [hc, hi, items, r.result_eq_ok_iff, Remainder.items_inj]
  · intro e
    rw [hc, hi, r.result_eq_error_iff]
    simp only [failing, Remainder.items_inj]
  · rw [hc, hi, r.result_eq_crashed_iff]
    simp only [crashing, Remainder.items_inj]
  · intro n rows left
    obtain ⟨r, last, final, out, hc, -⟩ := (tidy.afterReads client peer n).readOut client left.2
    rw [hc, r.result_eq_ok_iff, reads_add, List.append_cancel_left_eq]
    exact (out.reads_iff ⟨rows, .ok ()⟩).symm
  · intro n rows e left
    obtain ⟨r, last, final, out, -, hi⟩ := (tidy.afterReads client peer n).readOut client left.2
    rw [hi, failing, Remainder.items_inj, reads_add, List.append_cancel_left_eq]
    exact (out.reads_iff ⟨rows, .error e⟩).symm

theorem tidy_of_performAll (configuration : Configuration) (query : Query) (client : Client)
    (before : Peer) (calls : List RunCall) :
    (performAll client calls (ofQuery configuration query) before).2.1.Tidy :=
  ((Stage.fresh (fresh_ofQuery configuration query)).of_performAll calls).1.drained

/-- Whatever has been called on a run, and whatever peer it is read from, collecting, streaming
and reading row by row agree on what is left. -/
theorem readers_agree (configuration : Configuration) (query : Query) (client : Client)
    (before peer : Peer) (calls : List RunCall) :
    let run := (performAll client calls (ofQuery configuration query) before).2.1
    run.ReadersAgree client peer :=
  readersAgree_of_tidy (tidy_of_performAll configuration query client before calls) client peer

end Run
end DocumentClient
