import DocumentClient.Proofs.Query.Readers

/-!
# How far a stream is read

A read is a loop: it gives a row that is in the buffer, or else makes the call, or else takes one
item from the stream, until one of these is an answer. Each turn that is no answer takes an item or
makes the call, so a read comes to its end. And an item is only taken while the buffer is empty, so
what has been taken after some reads is the least that supplies as many rows, and never goes past a
failure. Main statement: `Run.pulls_lazily`.
-/

namespace DocumentClient

/-- What one turn of a read comes to. -/
inductive Turn where
  | again (run : Run) (peer : Peer)
  | answer (given : Outcome (Option Json.Value)) (run : Run) (peer : Peer)

namespace Run
open ChunkStream

/-- One turn of a read. -/
def turn (run : Run) (client : Client) (peer : Peer) : Turn :=
  match run.buffer with
  | row :: rows => .answer (.of (run.decodeRow row)) { run with buffer := rows } peer
  | [] =>
    match run.phase with
    | .notStarted =>
      match run.start client peer with
      | (.crashed, run, peer) => .answer .crashed run peer
      | (.error e, run, peer) => .answer (.error e) run peer
      | (.ok (), run, peer) => .again run peer
    | .streaming =>
      match run.unread with
      | [] =>
        match run.ending with
        | .closed => .answer (.of run.finish.1) run.finish.2 peer
        | .stalled =>
          .answer (.error run.lateError) { run with phase := .done, unread := [] } peer
      | .error status :: rest =>
        .answer (.error (.ofStatus status)) { run with phase := .done, unread := rest } peer
      | .ok chunk :: rest =>
        .again { run with
          buffer := chunk.rows, unread := rest
          lastMetadata := chunk.metadata.or run.lastMetadata } peer
    | .done => .answer (.error .alreadyQueried) run peer

/-- A read that takes so many turns, the last of which answers. -/
inductive Turns (client : Client) :
    Run → Peer → Nat → Outcome (Option Json.Value) → Run → Peer → Prop where
  | last {run next : Run} {peer later : Peer} {given : Outcome (Option Json.Value)}
    (answered : run.turn client peer = .answer given next later) :
    Turns client run peer 1 given next later
  | more {run mid next : Run} {peer between later : Peer} {n : Nat}
    {given : Outcome (Option Json.Value)} (again : run.turn client peer = .again mid between)
    (rest : Turns client mid between n given next later) :
    Turns client run peer (n + 1) given next later

section
variable {run : Run}

theorem turn_of_row {row : Bytes} {rows : List Bytes} (buffered : run.buffer = row :: rows)
    (client : Client) (peer : Peer) :
    run.turn client peer = .answer (.of (run.decodeRow row)) { run with buffer := rows } peer := by
  simp only [turn, buffered]

theorem turn_of_streaming (reading : run.phase = .streaming) (empty : run.buffer = [])
    (client : Client) (peer : Peer) :
    run.turn client peer =
      match run.unread with
      | [] =>
        match run.ending with
        | .closed => .answer (.of run.finish.1) run.finish.2 peer
        | .stalled =>
          .answer (.error run.lateError) { run with phase := .done, unread := [] } peer
      | .error status :: rest =>
        .answer (.error (.ofStatus status)) { run with phase := .done, unread := rest } peer
      | .ok chunk :: rest =>
        .again { run with
          buffer := chunk.rows, unread := rest
          lastMetadata := chunk.metadata.or run.lastMetadata } peer := by
  simp only [turn, empty, reading]

/-- Where pulling leaves the stream does not depend on what is noted as unread before. -/
theorem pull_with_unread (run : Run) (unread items : List Item) :
    pull { run with unread } items = run.pull items := by
  induction items generalizing run with
  | nil =>
    cases ends : run.ending with
    | closed => simp only [pull, ends, finish]
    | stalled => simp only [pull, ends, lateError]
  | cons item rest ih =>
    cases item with
    | error status => rfl
    | ok chunk =>
      simp only [pull]
      cases chunk.rows with
      | nil => exact ih { run with lastMetadata := chunk.metadata.or run.lastMetadata }
      | cons row more => rfl

/-- Taking items up to the first row is a loop over them; one more turn gives the row. -/
theorem turns_of_pull (client : Client) (peer : Peer) {items : List Item}
    (reading : run.phase = .streaming) (empty : run.buffer = []) (ahead : run.unread = items) :
    ∃ n ≤ items.length + 1,
      Turns client run peer n (.of (run.pull items).1) (run.pull items).2 peer := by
  induction items generalizing run with
  | nil =>
    refine ⟨1, by simp, .last ?_⟩
    rw [turn_of_streaming reading empty, ahead, pull]
    cases run.ending <;> rfl
  | cons item rest ih =>
    cases item with
    | error status =>
      refine ⟨1, by simp, .last ?_⟩
      rw [turn_of_streaming reading empty, ahead]
      rfl
    | ok chunk =>
      let mid : Run :=
        { run with
          buffer := chunk.rows, unread := rest
          lastMetadata := chunk.metadata.or run.lastMetadata }
      have again : run.turn client peer = .again mid peer := by
        rw [turn_of_streaming reading empty, ahead]
      cases rows : chunk.rows with
      | nil =>
        obtain ⟨n, few, turns⟩ := @ih mid reading rows rfl
        have same : mid.pull rest = run.pull (.ok chunk :: rest) := by
          have left : mid = { run with
              unread := rest, lastMetadata := chunk.metadata.or run.lastMetadata } := by
            simp only [mid, rows, empty]
          rw [left, pull, rows]
          exact pull_with_unread { run with lastMetadata := chunk.metadata.or run.lastMetadata }
            rest rest
        refine ⟨n + 1, by simp only [List.length_cons]; omega, .more again ?_⟩
        rw [← same]
        exact turns
      | cons row more =>
        refine ⟨1 + 1, by simp only [List.length_cons]; omega, .more again (.last ?_)⟩
        rw [turn_of_row rows, pull, rows]
        rfl

/-- A read of a run that has been started. -/
theorem turns_of_started (started : run.phase ≠ .notStarted) (client : Client) (peer : Peer) :
    ∃ n ≤ run.unread.length + 1,
      Turns client run peer n (.of run.advance.1) run.advance.2 peer := by
  cases buffered : run.buffer with
  | cons row rows =>
    refine ⟨1, by omega, .last ?_⟩
    rw [turn_of_row buffered, advance, buffered]
  | nil =>
    cases phase : run.phase with
    | notStarted => exact absurd phase started
    | streaming =>
      have step : run.advance = run.pull run.unread := by simp only [advance, buffered, phase]
      rw [step]
      exact turns_of_pull client peer phase buffered rfl
    | done =>
      refine ⟨1, by omega, .last ?_⟩
      rw [advance_of_done phase buffered]
      simp only [turn, buffered, phase]
      rfl

end

/-- Chunks, and no status among them. -/
def Sound (items : List Item) : Prop := ∀ item ∈ items, ∃ chunk, item = .ok chunk

/-- The first `n` items are chunks that hold `k` rows together. -/
structure Supplies (items : List Item) (k n : Nat) : Prop where
  within : n ≤ items.length
  sound : Sound (items.take n)
  rows : k ≤ (rowsOf (items.take n)).length

/-- How many items a reader takes who is after `k` rows and takes none without need. -/
inductive Taken (items : List Item) (k : Nat) : Nat → Prop where
  /-- As few as supply the rows. -/
  | enough {n : Nat} (supplies : Supplies items k n)
    (least : ∀ m, Supplies items k m → n ≤ m) : Taken items k n
  /-- Where no items do, all up to the first status, and that. -/
  | failed {before after : List Item} {status : Status}
    (split : items = before ++ .error status :: after) (sound : Sound before)
    (short : ∀ n, ¬ Supplies items k n) : Taken items k (before.length + 1)
  /-- All of them, if there is no status. -/
  | all (sound : Sound items) (short : ∀ n, ¬ Supplies items k n) : Taken items k items.length

section
variable {items : List Item} {k n : Nat}

theorem rowsOf_append {before : List Item} (sound : Sound before) (after : List Item) :
    rowsOf (before ++ after) = rowsOf before ++ rowsOf after := by
  induction before with
  | nil => rfl
  | cons item rest ih =>
    obtain ⟨⟨chunk, rfl⟩, others⟩ := List.forall_mem_cons.mp sound
    rw [List.cons_append, rowsOf, rowsOf, ih others, List.append_assoc]

/-- The item that comes next, when `n` have been taken. -/
theorem next_of_drop {item : Item} {rest : List Item} (ahead : items.drop n = item :: rest) :
    n < items.length ∧ items.take (n + 1) = items.take n ++ [item] ∧
      items.drop (n + 1) = rest := by
  refine ⟨?_, ?_, ?_⟩
  · have length := congrArg List.length ahead
    rw [List.length_drop, List.length_cons] at length
    omega
  · rw [List.take_add, ahead]
    rfl
  · rw [← List.drop_drop, ahead]
    rfl

theorem Supplies.fewer (supplies : Supplies items (k + 1) n) : Supplies items k n :=
  ⟨supplies.within, supplies.sound, Nat.le_of_succ_le supplies.rows⟩

/-- Items without a status end before the first one. -/
theorem Sound.le_of_split (sound : Sound (items.take n))
    {before after : List Item} {status : Status}
    (split : items = before ++ .error status :: after) : n ≤ before.length := by
  refine Nat.le_of_not_lt fun beyond => ?_
  have mem : Except.error status ∈ items.take n := by
    rw [split, List.take_append, List.mem_append]
    obtain ⟨m, hm⟩ : ∃ m, n - before.length = m + 1 := ⟨n - before.length - 1, by omega⟩
    rw [hm, List.take_succ_cons]
    exact .inr List.mem_cons_self
  obtain ⟨chunk, same⟩ := sound _ mem
  cases same

theorem Taken.le_length (taken : Taken items k n) : n ≤ items.length := by
  cases taken with
  | enough supplies => exact supplies.within
  | failed split =>
    rw [split, List.length_append, List.length_cons]
    omega
  | all => exact Nat.le_refl _

/-- Nothing beyond a status is ever taken. -/
theorem Taken.le_of_split (taken : Taken items k n) {before after : List Item} {status : Status}
    (split : items = before ++ .error status :: after) : n ≤ before.length + 1 := by
  cases taken with
  | enough supplies => exact Nat.le_succ_of_le (supplies.sound.le_of_split split)
  | @failed first rest other apart sound =>
    have prefixed : items.take first.length = first := by rw [apart, List.take_left]
    have bound := Sound.le_of_split (prefixed.symm ▸ sound) split
    omega
  | all sound =>
    have whole : Sound (items.take items.length) := (List.take_length (l := items)).symm ▸ sound
    exact Nat.le_succ_of_le (whole.le_of_split split)

end

/-- A run that has taken so many items and given `k` rows; it has taken none without need. -/
structure Reading (items : List Item) (k taken : Nat) (run : Run) : Prop where
  phase : run.phase = .streaming
  within : taken ≤ items.length
  unread : run.unread = items.drop taken
  sound : Sound (items.take taken)
  rows : (rowsOf (items.take taken)).length = k + run.buffer.length
  needed : ∀ n < taken, (rowsOf (items.take n)).length ≤ k

/-- Where a run is after `k` reads. -/
inductive Progress (items : List Item) (k : Nat) (run : Run) : Prop where
  | reading {taken : Nat} (reads : Reading items k taken run)
    (least : ∀ n, Supplies items k n → taken ≤ n)
  | ended {taken : Nat} (phase : run.phase = .done) (drained : run.buffer = [])
    (unread : run.unread = items.drop taken) (reached : Taken items k taken)
    (short : ∀ n, ¬ Supplies items k n)

section
variable {items : List Item} {k taken : Nat} {run : Run}

/-- With an empty buffer, what has been taken does not supply one row more. -/
theorem Reading.not_supplies (h : Reading items k taken run) (empty : run.buffer = []) {n : Nat}
    (within : n ≤ taken) : ¬ Supplies items (k + 1) n := by
  intro supplies
  have many := supplies.rows
  have rows := h.rows
  rw [empty, List.length_nil] at rows
  rcases Nat.lt_or_eq_of_le within with before | rfl
  · have few := h.needed n before
    omega
  · omega

/-- Giving a row that is in the buffer takes nothing. -/
theorem Reading.of_row (h : Reading items k taken run) {row : Bytes} {rows : List Bytes}
    (buffered : run.buffer = row :: rows) :
    Progress items (k + 1) { run with buffer := rows } := by
  have count := h.rows
  rw [buffered, List.length_cons] at count
  have reads : Reading items (k + 1) taken { run with buffer := rows } := by
    refine ⟨h.phase, h.within, h.unread, h.sound, ?_, ?_⟩
    · dsimp only
      omega
    · exact fun n before => Nat.le_succ_of_le (h.needed n before)
  refine .reading reads fun n supplies => Nat.le_of_not_lt fun before => ?_
  have few := h.needed n before
  have many := supplies.rows
  omega

/-- A chunk is taken while the buffer is empty. -/
theorem Reading.of_chunk (h : Reading items k taken run) (empty : run.buffer = [])
    {chunk : Wire.QueryResponse} {rest : List Item} (ahead : run.unread = .ok chunk :: rest)
    (metadata : Option Wire.QueryMetadata) :
    Reading items k (taken + 1)
      { run with buffer := chunk.rows, unread := rest, lastMetadata := metadata } := by
  obtain ⟨within, one, after⟩ := next_of_drop (h.unread.symm.trans ahead)
  have count := h.rows
  rw [empty, List.length_nil] at count
  refine ⟨h.phase, within, after.symm, ?_, ?_, ?_⟩
  · rw [one]
    exact List.forall_mem_append.mpr ⟨h.sound, List.forall_mem_singleton.mpr ⟨chunk, rfl⟩⟩
  · have own : rowsOf [.ok chunk] = chunk.rows := List.append_nil _
    rw [one, rowsOf_append h.sound, List.length_append, count, own, Nat.add_zero]
  · intro n before
    rcases Nat.lt_or_eq_of_le (Nat.le_of_lt_succ before) with earlier | rfl
    · exact h.needed n earlier
    · omega

/-- With nothing left to take, all items have been taken, and they hold no row more. -/
theorem Reading.of_end (h : Reading items k taken run) (empty : run.buffer = [])
    (ahead : run.unread = []) {next : Run} (phase : next.phase = .done)
    (drained : next.buffer = []) (unread : next.unread = []) : Progress items (k + 1) next := by
  have all : taken = items.length :=
    Nat.le_antisymm h.within (List.drop_eq_nil_iff.mp (h.unread.symm.trans ahead))
  subst all
  have short : ∀ n, ¬ Supplies items (k + 1) n := fun n supplies =>
    h.not_supplies empty supplies.within supplies
  have sound : Sound items := List.take_length (l := items) ▸ h.sound
  exact .ended phase drained (unread.trans List.drop_length.symm) (.all sound short) short

/-- A status is taken, and the rows before it are no more. -/
theorem Reading.of_status (h : Reading items k taken run) (empty : run.buffer = [])
    {status : Status} {rest : List Item} (ahead : run.unread = .error status :: rest) :
    Progress items (k + 1) { run with phase := .done, unread := rest } := by
  have left : items.drop taken = .error status :: rest := h.unread.symm.trans ahead
  obtain ⟨-, -, after⟩ := next_of_drop left
  have split : items = items.take taken ++ .error status :: rest := by
    rw [← left, List.take_append_drop]
  have length : (items.take taken).length = taken := List.length_take_of_le h.within
  have short : ∀ n, ¬ Supplies items (k + 1) n := by
    intro n supplies
    have bound := supplies.sound.le_of_split split
    rw [length] at bound
    exact h.not_supplies empty bound supplies
  have reached : Taken items (k + 1) (taken + 1) := length ▸ .failed split h.sound short
  exact .ended rfl empty after.symm reached short

/-- One turn: an item is taken, or the read has its answer. -/
theorem Reading.turn_cases (h : Reading items k taken run) (client : Client) (peer : Peer) :
    (∃ next, run.turn client peer = .again next peer ∧ Reading items k (taken + 1) next) ∨
      ∃ given next, run.turn client peer = .answer given next peer ∧
        Progress items (k + 1) next := by
  cases buffered : run.buffer with
  | cons row rows => exact .inr ⟨_, _, turn_of_row buffered client peer, h.of_row buffered⟩
  | nil =>
    rw [turn_of_streaming h.phase buffered]
    cases ahead : run.unread with
    | nil =>
      cases run.ending with
      | closed =>
        refine .inr ⟨_, _, rfl, h.of_end buffered ahead ?_ ?_ ?_⟩
        all_goals rw [finish_eq]
        exact buffered
      | stalled => exact .inr ⟨_, _, rfl, h.of_end buffered ahead rfl buffered rfl⟩
    | cons item rest =>
      cases item with
      | ok chunk => exact .inl ⟨_, rfl, h.of_chunk buffered ahead _⟩
      | error status => exact .inr ⟨_, _, rfl, h.of_status buffered ahead⟩

/-- All turns of a read: one row more is given, if there is one. -/
theorem Reading.of_turns {client : Client} {peer later : Peer} {next : Run} {turns : Nat}
    {given : Outcome (Option Json.Value)} (h : Reading items k taken run)
    (taking : Turns client run peer turns given next later) : Progress items (k + 1) next := by
  -- between turns the rows given stay the same, and nothing has been taken without need
  induction taking generalizing taken with
  | @last run next peer later given answered =>
    obtain ⟨mid, again, -⟩ | ⟨given, after, same, progress⟩ := h.turn_cases client peer
    · cases again.symm.trans answered
    · cases same.symm.trans answered
      exact progress
  | @more run mid next peer between later n given again rest ih =>
    obtain ⟨after, same, reads⟩ | ⟨given, after, answered, -⟩ := h.turn_cases client peer
    · cases same.symm.trans again
      exact ih reads
    · cases answered.symm.trans again

theorem Progress.started (h : Progress items k run) : run.phase ≠ .notStarted := by
  cases h with
  | reading reads => simp [reads.phase]
  | ended phase => simp [phase]

theorem Progress.exists_taken (h : Progress items k run) :
    ∃ taken, run.unread = items.drop taken ∧ Taken items k taken := by
  cases h with
  | @reading taken reads least =>
    refine ⟨taken, reads.unread, .enough ⟨reads.within, reads.sound, ?_⟩ least⟩
    rw [reads.rows]
    omega
  | ended _ _ unread reached => exact ⟨_, unread, reached⟩

theorem Progress.unread_length_le (h : Progress items k run) :
    run.unread.length ≤ items.length := by
  obtain ⟨taken, unread, -⟩ := h.exists_taken
  rw [unread, List.length_drop]
  omega

/-- One read more. -/
theorem Progress.nextRow (h : Progress items k run) (client : Client) (peer : Peer) :
    Progress items (k + 1) (run.nextRow client peer).2.1 := by
  rw [run.nextRow_of_started h.started]
  cases h with
  | reading reads =>
    have started : run.phase ≠ .notStarted := by simp [reads.phase]
    obtain ⟨turns, -, taking⟩ := turns_of_started started client peer
    exact reads.of_turns taking
  | ended phase drained unread reached short =>
    rw [advance_of_done phase drained]
    have shorter : ∀ n, ¬ Supplies items (k + 1) n := fun n supplies => short n supplies.fewer
    refine .ended phase drained unread ?_ shorter
    cases reached with
    | enough supplies => exact absurd supplies (short _)
    | failed split sound => exact .failed split sound shorter
    | all sound => exact .all sound shorter

theorem Progress.afterReads (h : Progress items k run) (client : Client) (peer : Peer) (n : Nat) :
    Progress items (k + n) (run.afterReads client peer n).1 := by
  induction n generalizing k run peer with
  | zero => exact h
  | succ n ih =>
    have later := ih (h.nextRow client peer) (run.nextRow client peer).2.2
    rw [Nat.succ_add_eq_add_succ] at later
    exact later

end

/-- The run that the first read goes on with, once its call is accepted. -/
theorem progress_of_accepted (run : Run) (fresh : run.phase = .notStarted) (empty : run.buffer = [])
    (client : Client) (peer : Peer) {stream : ChunkStream}
    (accepted : run.accepted? peer = some stream) :
    (∃ n ≤ stream.items.length + 2,
      Turns client run peer n (run.nextRow client peer).1 (run.nextRow client peer).2.1
        (run.nextRow client peer).2.2) ∧
      Progress stream.items 1 (run.nextRow client peer).2.1 := by
  obtain ⟨later, -, start⟩ := run.start_of_accepted client peer accepted
  let begun : Run :=
    { run with phase := .streaming, unread := stream.items, ending := stream.ending }
  have first : run.nextRow client peer = (.of begun.advance.1, begun.advance.2, later) := by
    rw [nextRow, ensureStarted, if_pos ⟨empty, fresh⟩, start]
  have again : run.turn client peer = .again begun later := by
    simp only [turn, empty, fresh, start, begun]
  have reads : Reading stream.items 0 0 begun := by
    refine ⟨rfl, Nat.zero_le _, rfl, ?_, ?_, fun n before => absurd before (Nat.not_lt_zero n)⟩
    · exact List.forall_mem_nil _
    · simp [begun, empty, rowsOf]
  have started : begun.phase ≠ .notStarted := by simp [begun]
  obtain ⟨n, few, taking⟩ := turns_of_started started client later
  rw [first]
  exact ⟨⟨n + 1, Nat.succ_le_succ few, .more again taking⟩, reads.of_turns taking⟩

/-- What the `k`-th read does, which finds the run and the peer as they are left by those before. -/
structure PullsLazily (client : Client) (items : List Item) (k : Nat) (left : Run) (peer : Peer) :
    Prop where
  /-- It comes to an answer after some turns. -/
  returns : ∃ turns ≤ items.length + 2,
    Turns client left peer turns (left.nextRow client peer).1 (left.nextRow client peer).2.1
      (left.nextRow client peer).2.2
  /-- No more has been taken than it needs, and nothing beyond a status. -/
  taken : ∃ n ≤ items.length, (left.nextRow client peer).2.1.unread = items.drop n ∧
    Taken items k n ∧ ∀ before status after, items = before ++ .error status :: after →
      n ≤ before.length + 1
  /-- A row that is in the buffer is given without a look at the stream or the peer. -/
  buffered : ∀ row rows, left.buffer = row :: rows →
    left.nextRow client peer = (.of (left.decodeRow row), { left with buffer := rows }, peer)

theorem nextRow_of_row {run : Run} {row : Bytes} {rows : List Bytes}
    (buffered : run.buffer = row :: rows) (client : Client) (peer : Peer) :
    run.nextRow client peer = (.of (run.decodeRow row), { run with buffer := rows }, peer) := by
  simp only [nextRow, ensureStarted, advance, buffered, reduceCtorEq, false_and, if_false]

theorem pullsLazily_of_progress {client : Client} {items : List Item} {k : Nat} {left : Run}
    {peer : Peer}
    (returns : ∃ turns ≤ items.length + 2,
      Turns client left peer turns (left.nextRow client peer).1 (left.nextRow client peer).2.1
        (left.nextRow client peer).2.2)
    (progress : Progress items k (left.nextRow client peer).2.1) :
    PullsLazily client items k left peer := by
  obtain ⟨n, unread, taken⟩ := progress.exists_taken
  exact ⟨returns, ⟨n, taken.le_length, unread, taken, fun _ _ _ split => taken.le_of_split split⟩,
    fun _ _ buffered => nextRow_of_row buffered client peer⟩

/-- However many reads there have been of a run whose call is accepted, the next one returns, and
takes as much of the stream as it needs. -/
theorem pulls_lazily (configuration : Configuration) (query : Query) (client : Client)
    (peer : Peer) {stream : ChunkStream}
    (accepted : (ofQuery configuration query).accepted? peer = some stream) (k : Nat) :
    let left := (ofQuery configuration query).afterReads client peer k
    PullsLazily client stream.items (k + 1) left.1 left.2 := by
  intro left
  let run := ofQuery configuration query
  obtain ⟨first, begun⟩ := run.progress_of_accepted rfl rfl client peer accepted
  -- the first read makes the call, each later one finds the run started
  cases k with
  | zero => exact pullsLazily_of_progress first begun
  | succ k =>
    have progress : Progress stream.items (1 + k) left.1 := begun.afterReads client _ k
    rw [Nat.add_comm] at progress
    refine pullsLazily_of_progress ?_ (progress.nextRow client left.2)
    have few := progress.unread_length_le
    obtain ⟨turns, fewer, taking⟩ := turns_of_started progress.started client left.2
    refine ⟨turns, by omega, ?_⟩
    rw [nextRow_of_started _ progress.started]
    exact taking

theorem pulls_lazily_of_failing :
    let query : Query := { statement := "SELECT 1" }
    let items : List Item :=
      [.ok {}, .ok { rows := [[49], [50]] }, .ok { metadata := some {} },
        .error { code := .internal, message := "" }, .ok { rows := [[51]] }]
    let stream : ChunkStream := ⟨items, .stalled⟩
    let peer := Peer.setReplies {} .query [.ok stream]
    (ofQuery {} query).accepted? peer = some stream ∧
      let left := (ofQuery {} query).afterReads ⟨{}, none⟩ peer 2
      PullsLazily ⟨{}, none⟩ items 3 left.1 left.2 := by
  intro query items stream peer
  have accepted : (ofQuery {} query).accepted? peer = some stream :=
    accepted?_of_scripted rfl (by decide) rfl rfl
  exact ⟨accepted, pulls_lazily {} query ⟨{}, none⟩ peer accepted 2⟩

end Run
end DocumentClient
