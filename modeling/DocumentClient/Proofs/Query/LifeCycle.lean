import DocumentClient.Proofs.Query.Metadata
import DocumentClient.Proofs.Query.Stream
import Mathlib.Logic.Relation

/-!
# Life of a run

Any calls on one run, in any order. A run is fresh, then it may read a stream, and then it is
spent; each call leads from one of these stages to the same or a later one. What a stage fixes:
the calls that the peer has received, the buffer, the metadata, and the answers that are still
possible. Everything that holds of a whole life follows from the stages by induction on the
calls.
-/

namespace DocumentClient

/-- A call on a run. Rows may be read as any type. -/
inductive RunCall : Type 1 where
  | nextRow
  | nextRowAs {α : Type} (convert : Json.Value → Except Error α)
  | execute
  | executeAs {α : Type} (convert : Json.Value → Except Error α)
  | metadata
  | isDone

namespace RunCall

def Answer : RunCall → Type
  | .nextRow => Outcome (Option Json.Value)
  | @nextRowAs α _ => Outcome (Option α)
  | .execute => Outcome (List Json.Value)
  | @executeAs α _ => Outcome (List α)
  | .metadata => Except Error QueryMetadata
  | .isDone => Bool

def IsRead : RunCall → Prop
  | .metadata | .isDone => False
  | _ => True

/-- Whether an answer says that the end of the stream was reached. -/
def saysEnd : (call : RunCall) → call.Answer → Bool
  | .nextRow, answer => isEnd answer
  | .nextRowAs _, answer => isEnd answer
  | .execute, answer => isWhole answer
  | .executeAs _, answer => isWhole answer
  | .metadata, _ | .isDone, _ => false
where
  isEnd {α : Type} : Outcome (Option α) → Bool
    | .ok none => true
    | _ => false
  isWhole {α : Type} : Outcome α → Bool
    | .ok _ => true
    | _ => false

/-- Whether this is a call whose answer says so. -/
def isEnding (x : Σ call : RunCall, call.Answer) : Bool := x.1.saysEnd x.2

/-- Whether an answer says that nothing can be read any more. -/
def saysQueried : (call : RunCall) → call.Answer → Bool
  | .nextRow, answer => isQueried answer
  | .nextRowAs _, answer => isQueried answer
  | .execute, answer => isQueried answer
  | .executeAs _, answer => isQueried answer
  | .metadata, _ | .isDone, _ => false
where
  isQueried {α : Type} : Outcome α → Bool
    | .error .alreadyQueried => true
    | _ => false

theorem eq_of_isEnd {α : Type} {answer : Outcome (Option α)}
    (h : saysEnd.isEnd answer = true) : answer = .ok none := by
  cases answer with
  | error | crashed => cases h
  | ok row =>
    cases row with
    | none => rfl
    | some v => cases h

theorem eq_of_isWhole {α : Type} {answer : Outcome α} (h : saysEnd.isWhole answer = true) :
    ∃ a, answer = .ok a := by
  cases answer with
  | error | crashed => cases h
  | ok a => exact ⟨a, rfl⟩

def perform : (call : RunCall) → Run → Client → Peer → call.Answer × Run × Peer
  | .nextRow, run, client, peer => run.nextRow client peer
  | .nextRowAs convert, run, client, peer => run.nextRowWith convert client peer
  | .execute, run, client, peer => run.execute client peer
  | .executeAs convert, run, client, peer => run.executeWith convert client peer
  | .metadata, run, _, peer => (run.metadata, run, peer)
  | .isDone, run, _, peer => (run.isDone, run, peer)

/-- The calls with their answers, the run and the peer after them. -/
def performAll (client : Client) : List RunCall → Run → Peer →
    List (Σ call : RunCall, call.Answer) × Run × Peer
  | [], run, peer => ([], run, peer)
  | call :: rest, run, peer =>
    let (answer, run, peer) := call.perform run client peer
    let (history, last) := performAll client rest run peer
    (⟨call, answer⟩ :: history, last)

theorem performAll_cons {call : RunCall} {rest : List RunCall} {run next : Run}
    {peer later : Peer} {answer : call.Answer}
    (h : call.perform run client peer = (answer, next, later)) :
    performAll client (call :: rest) run peer =
      (⟨call, answer⟩ :: (performAll client rest next later).1,
        (performAll client rest next later).2) := by
  rw [performAll, h]

theorem perform_of_not_read {call : RunCall} (h : ¬ call.IsRead) (run : Run) (client : Client)
    (peer : Peer) : ∃ answer, call.perform run client peer = (answer, run, peer) := by
  cases call with
  | metadata | isDone => exact ⟨_, rfl⟩
  | _ => exact absurd trivial h

theorem performAll_of_not_read {calls : List RunCall} (h : ∀ call ∈ calls, ¬ call.IsRead)
    (run : Run) (client : Client) (peer : Peer) :
    (performAll client calls run peer).2 = (run, peer) := by
  induction calls with
  | nil => rfl
  | cons call rest ih =>
    rw [List.forall_mem_cons] at h
    obtain ⟨answer, hp⟩ := perform_of_not_read h.1 run client peer
    rw [performAll_cons hp]
    exact ih h.2

end RunCall

/-- One move of the phase. A run leaves its first phase by its call, and it reads on if that is
accepted. -/
inductive Phase.Move (accepted : Option ChunkStream) : Phase → Phase → Prop where
  | accepted (h : accepted ≠ none) : Move accepted .notStarted .streaming
  | refused (h : accepted = none) : Move accepted .notStarted .done
  | ended (h : accepted ≠ none) : Move accepted .streaming .done

open RunCall

namespace Run

/-- A run before its first call. -/
structure Fresh (run : Run) : Prop where
  phase : run.phase = .notStarted
  buffer : run.buffer = []
  lastMetadata : run.lastMetadata = none
  metadata? : run.metadata? = none

theorem fresh_ofQuery (configuration : Configuration) (query : Query) :
    (ofQuery configuration query).Fresh := ⟨rfl, rfl, rfl, rfl⟩

/-- Where the life of a run stands that was `first` when the peer was `before`. -/
inductive Stage (first : Run) (client : Client) (before : Peer) : Run → Peer → Prop where
  | fresh (new : first.Fresh) : Stage first client before first before
  | reading {run : Run} {peer : Peer} {stream : ChunkStream}
      (asked : first.AskedOnce client before peer)
      (accepted : first.accepted? before = some stream) (phase : run.phase = .streaming)
      (same : first.Continues run) (unreported : run.metadata? = none)
      (metadata : run.metadataAhead = stream.lastMetadata)
      (conclusion : run.conclusionAhead = stream.conclusion) : Stage first client before run peer
  | spent {run : Run} {peer : Peer} (asked : first.AskedOnce client before peer)
      (phase : run.phase = .done) (drained : run.buffer = [])
      (reported : run.metadata? = (first.accepted? before).bind fun stream =>
        first.report stream.lastMetadata stream.conclusion) : Stage first client before run peer

/-- A run in a stage behind the first one. -/
def Begun (first : Run) (client : Client) (before : Peer) (run : Run) (peer : Peer) : Prop :=
  Stage first client before run peer ∧ run.phase ≠ .notStarted

section
variable {first run next : Run} {client : Client} {before peer : Peer}

theorem Begun.of_advance {answer : Except Error (Option Json.Value)}
    (h : Begun first client before run peer) (ha : run.advance = (answer, next)) :
    Begun first client before next peer ∧ (answer = .ok none → next.phase = .done) := by
  rcases h with ⟨h, started⟩
  cases h with
  | fresh new => exact absurd new.phase started
  | spent asked phase drained reported =>
    rw [advance_of_done phase drained, Prod.mk.injEq] at ha
    rcases ha with ⟨rfl, rfl⟩
    exact ⟨⟨.spent asked phase drained reported, started⟩, fun _ => phase⟩
  | reading asked accepted phase same unreported metadata conclusion =>
    cases hr : run.rowsAhead with
    | nil =>
      obtain ⟨last, hl, -, hdone, hdrained, hreport⟩ := advance_of_no_row phase hr
      rw [hl, Prod.mk.injEq] at ha
      rcases ha with ⟨rfl, rfl⟩
      refine ⟨⟨.spent asked hdone hdrained ?_, by simp [hdone]⟩, fun _ => hdone⟩
      rw [hreport, unreported, Option.or_none, metadata, conclusion, same.report_eq, accepted,
        Option.bind_some]
    | cons row rows =>
      obtain ⟨after, hl, hsame, hphase, hm, -, hmeta, hconc⟩ := advance_of_row phase hr
      rw [hl, Prod.mk.injEq] at ha
      rcases ha with ⟨rfl, rfl⟩
      refine ⟨⟨?_, by simp [hphase]⟩, fun h => absurd h (map_some_ne_end _)⟩
      exact .reading asked accepted hphase (same.trans hsame) (hm.trans unreported)
        (hmeta.trans metadata) (hconc.trans conclusion)

theorem Begun.of_collect {α : Type} {convert : Json.Value → Except Error α}
    {answer : Except Error (List α)} (h : Begun first client before run peer)
    (hc : run.collect convert = (answer, next)) :
    Begun first client before next peer ∧ ((∃ rows, answer = .ok rows) → next.phase = .done) := by
  fun_induction collect convert run generalizing answer next with
  | case1 run e after ha =>
    cases hc
    refine ⟨(h.of_advance ha).1, ?_⟩
    rintro ⟨_, ⟨⟩⟩
  | case2 run after ha =>
    cases hc
    exact ⟨(h.of_advance ha).1, fun _ => (h.of_advance ha).2 rfl⟩
  | case3 run row after ha e hv =>
    cases hc
    refine ⟨(h.of_advance ha).1, ?_⟩
    rintro ⟨_, ⟨⟩⟩
  | case4 run row after ha a hv e last hl ih =>
    cases hc
    refine ⟨(ih (h.of_advance ha).1 hl).1, ?_⟩
    rintro ⟨_, ⟨⟩⟩
  | case5 run row after ha a hv rows last hl ih =>
    cases hc
    exact ⟨(ih (h.of_advance ha).1 hl).1, fun _ => (ih (h.of_advance ha).1 hl).2 ⟨_, rfl⟩⟩

/-- The call of a fresh run leads to reading or, if it fails, to the end. -/
theorem Stage.of_ensureStarted {result : Outcome Unit} {later : Peer}
    (h : Stage first client before run peer)
    (he : run.ensureStarted client peer = (result, next, later)) :
    Begun first client before next later := by
  by_cases started : run.phase ≠ .notStarted
  · cases (run.ensureStarted_of_started started client peer).symm.trans he
    exact ⟨h, started⟩
  · cases h with
    | reading _ _ phase => exact absurd (by simp [phase]) started
    | spent _ phase => exact absurd (by simp [phase]) started
    | fresh new =>
      rw [ensureStarted, if_pos ⟨new.buffer, new.phase⟩] at he
      cases ha : first.accepted? before with
      | none =>
        obtain ⟨_, after, asked, -, hs⟩ := first.start_of_not_accepted client before ha
        cases hs.symm.trans he
        refine ⟨.spent asked rfl new.buffer ?_, by simp⟩
        rw [ha, Option.bind_none]
        exact new.metadata?
      | some stream =>
        obtain ⟨after, asked, hs⟩ := first.start_of_accepted client before ha
        cases hs.symm.trans he
        refine ⟨.reading asked ha rfl ⟨rfl, rfl, rfl⟩ new.metadata? ?_ rfl, by simp⟩
        simp only [metadataAhead, new.lastMetadata, Option.or_none, ChunkStream.lastMetadata]

theorem Stage.of_nextRow {answer : Outcome (Option Json.Value)} {later : Peer}
    (h : Stage first client before run peer)
    (hn : run.nextRow client peer = (answer, next, later)) :
    Begun first client before next later ∧ (answer = .ok none → next.phase = .done) := by
  obtain ⟨result, started, hs, ⟨failed, rfl⟩ | ⟨row, ha, rfl⟩⟩ := nextRow_cases hn
  · exact ⟨h.of_ensureStarted hs, fun told => absurd told (failed none)⟩
  · obtain ⟨begun, ended⟩ := (h.of_ensureStarted hs).of_advance ha
    exact ⟨begun, fun told => ended (Outcome.of_eq_ok_iff.mp told)⟩

theorem Stage.of_executeWith {α : Type} {convert : Json.Value → Except Error α}
    {answer : Outcome (List α)} {later : Peer} (h : Stage first client before run peer)
    (hn : run.executeWith convert client peer = (answer, next, later)) :
    Begun first client before next later ∧
      ((∃ rows, answer = .ok rows) → next.phase = .done) := by
  obtain ⟨result, started, hs, ⟨failed, rfl⟩ | ⟨rows, hc, rfl⟩⟩ := executeWith_cases hn
  · exact ⟨h.of_ensureStarted hs, fun ⟨rows, told⟩ => absurd told (failed rows)⟩
  · obtain ⟨begun, ended⟩ := (h.of_ensureStarted hs).of_collect hc
    exact ⟨begun, fun ⟨rows, told⟩ => ended ⟨rows, Outcome.of_eq_ok_iff.mp told⟩⟩

/-- Every call leads to a stage, and a read to a later one than the first. -/
theorem Stage.of_perform {later : Peer} (call : RunCall) {answer : call.Answer}
    (h : Stage first client before run peer)
    (hp : call.perform run client peer = (answer, next, later)) :
    Stage first client before next later ∧ (call.IsRead → next.phase ≠ .notStarted) ∧
      (call.saysEnd answer = true → next.phase = .done) := by
  cases call with
  | nextRow =>
    obtain ⟨begun, ended⟩ := h.of_nextRow hp
    exact ⟨begun.1, fun _ => begun.2, fun told => ended (eq_of_isEnd told)⟩
  | nextRowAs convert =>
    obtain ⟨row, hn, same⟩ := nextRowWith_cases hp
    obtain ⟨begun, ended⟩ := h.of_nextRow hn
    exact ⟨begun.1, fun _ => begun.2, fun told => ended (same (eq_of_isEnd told))⟩
  | execute =>
    obtain ⟨begun, ended⟩ := h.of_executeWith hp
    exact ⟨begun.1, fun _ => begun.2, fun told => ended (eq_of_isWhole told)⟩
  | executeAs convert =>
    obtain ⟨begun, ended⟩ := h.of_executeWith hp
    exact ⟨begun.1, fun _ => begun.2, fun told => ended (eq_of_isWhole told)⟩
  | metadata | isDone =>
    cases hp
    refine ⟨h, False.elim, ?_⟩
    rintro ⟨⟩

/-- No call changes which call the run is of, and each asks for no more than that. -/
theorem perform_spec {later : Peer} (call : RunCall) {answer : call.Answer}
    (hp : call.perform run client peer = (answer, next, later)) :
    run.Continues next ∧ run.AskedOnce client peer later := by
  have ofStarted {result : Outcome Unit} {started : Run}
      (hs : run.ensureStarted client peer = (result, started, later)) :
      run.Continues started ∧ run.AskedOnce client peer later := by
    obtain ⟨_, _, _, he, spec⟩ := run.ensureStarted_spec client peer
    cases hs.symm.trans he
    exact spec
  have ofRow {row : Outcome (Option Json.Value)}
      (hn : run.nextRow client peer = (row, next, later)) :
      run.Continues next ∧ run.AskedOnce client peer later := by
    obtain ⟨result, started, hs, ⟨-, rfl⟩ | ⟨row, ha, rfl⟩⟩ := nextRow_cases hn
    · exact ofStarted hs
    · exact ⟨(ofStarted hs).1.trans (continues_of_advance ha), (ofStarted hs).2⟩
  have ofRows {α : Type} {convert : Json.Value → Except Error α} {rows : Outcome (List α)}
      (hn : run.executeWith convert client peer = (rows, next, later)) :
      run.Continues next ∧ run.AskedOnce client peer later := by
    obtain ⟨result, started, hs, ⟨-, rfl⟩ | ⟨rows, hc, rfl⟩⟩ := executeWith_cases hn
    · exact ofStarted hs
    · exact ⟨(ofStarted hs).1.trans (continues_of_collect hc), (ofStarted hs).2⟩
  cases call with
  | nextRow => exact ofRow hp
  | nextRowAs convert =>
    obtain ⟨row, hn, -⟩ := nextRowWith_cases hp
    exact ofRow hn
  | execute => exact ofRows hp
  | executeAs convert => exact ofRows hp
  | metadata | isDone =>
    cases hp
    exact ⟨.refl run, run.askedOnce_refl client peer⟩

/-- Nothing can be read from a spent run. -/
theorem perform_of_done (spent : run.phase = .done) (drained : run.buffer = []) (call : RunCall)
    (client : Client) (peer : Peer) :
    ∃ answer, call.perform run client peer = (answer, run, peer) ∧
      (call.IsRead → call.saysQueried answer = true) ∧ call.saysEnd answer = false := by
  have started : run.phase ≠ .notStarted := by simp [spent]
  have hn : run.nextRow client peer = (.error .alreadyQueried, run, peer) := by
    rw [run.nextRow_of_started started, advance_of_done spent drained]
    rfl
  have hc {α : Type} (convert : Json.Value → Except Error α) :
      run.executeWith convert client peer = (.error .alreadyQueried, run, peer) := by
    simp only [executeWith, run.ensureStarted_of_started started, collect_of_done spent drained]
    rfl
  cases call with
  | nextRow => exact ⟨_, hn, fun _ => rfl, rfl⟩
  | nextRowAs convert =>
    refine ⟨.error .alreadyQueried, ?_, fun _ => rfl, rfl⟩
    simp only [RunCall.perform, nextRowWith, hn]
    rfl
  | execute => exact ⟨_, hc .ok, fun _ => rfl, rfl⟩
  | executeAs convert => exact ⟨_, hc convert, fun _ => rfl, rfl⟩
  | metadata | isDone => exact ⟨_, rfl, False.elim, rfl⟩

end

/-- What is true of a run that was `first` after any calls, with what they answered. -/
structure LifeCycle (first : Run) (client : Client) (before : Peer) (calls : List RunCall)
    (history : List (Σ call : RunCall, call.Answer)) (run : Run) (peer : Peer) : Prop where
  /-- The peer receives at most one call, a query, and none before the first read. -/
  asked : first.AskedOnce client before peer ∧
    ((∀ call ∈ calls, ¬ call.IsRead) → peer.received = before.received)
  moves : Relation.ReflTransGen (Phase.Move (first.accepted? before)) .notStarted run.phase
  /-- What comes after moves on from here. -/
  movesOn : ∀ more, Relation.ReflTransGen (Phase.Move (first.accepted? before)) run.phase
    (performAll client more run peer).2.1.phase
  drained : run.phase ≠ .streaming → run.buffer = []
  endsOnce : history.countP isEnding ≤ 1
  spent : run.phase = .done → ∀ call : RunCall, call.IsRead →
    call.saysQueried (call.perform run client peer).1 = true ∧
      (call.perform run client peer).2 = (run, peer)
  pending : run.phase ≠ .done → run.metadata = .error .metadataPending
  reported : run.phase = .done → ∀ m, run.metadata = .ok m ↔
    ∃ stream w, first.accepted? before = some stream ∧ stream.EndsWell ∧
      stream.lastMetadata = some w ∧ QueryMetadata.Says first.serializer w m
  missing : run.phase = .done → (∀ m, run.metadata ≠ .ok m) →
    run.metadata = .error .metadataMissing
  settled : run.phase = .done → ∀ more,
    (performAll client more run peer).2.1.metadata = run.metadata

section
variable {first run next : Run} {client : Client} {before peer later : Peer}

theorem Stage.askedOnce (h : Stage first client before run peer) :
    first.AskedOnce client before peer := by
  cases h with
  | fresh => exact first.askedOnce_refl client before
  | reading asked => exact asked
  | spent asked => exact asked

theorem Stage.drained (h : Stage first client before run peer) (away : run.phase ≠ .streaming) :
    run.buffer = [] := by
  cases h with
  | fresh new => exact new.buffer
  | reading _ _ phase => exact absurd phase away
  | spent _ _ drained => exact drained

theorem Stage.moves (h : Stage first client before run peer) :
    Relation.ReflTransGen (Phase.Move (first.accepted? before)) .notStarted run.phase := by
  cases h with
  | fresh new =>
    rw [new.phase]
  | reading _ accepted phase =>
    rw [phase]
    exact .single (.accepted (by simp [accepted]))
  | spent _ phase =>
    rw [phase]
    by_cases refused : first.accepted? before = none
    · exact .single (.refused refused)
    · exact .tail (.single (.accepted refused)) (.ended refused)

theorem Stage.moves_of_perform {call : RunCall} {answer : call.Answer}
    (h : Stage first client before run peer)
    (hp : call.perform run client peer = (answer, next, later)) :
    Relation.ReflTransGen (Phase.Move (first.accepted? before)) run.phase next.phase := by
  obtain ⟨after, begun, -⟩ := h.of_perform call hp
  by_cases read : call.IsRead
  · cases h with
    | fresh new =>
      rw [new.phase]
      exact after.moves
    | reading _ accepted phase =>
      rw [phase]
      cases hn : next.phase with
      | notStarted => exact absurd hn (begun read)
      | streaming => exact .refl
      | done => exact .single (.ended (by simp [accepted]))
    | spent _ phase drained =>
      obtain ⟨_, hq, -⟩ := perform_of_done phase drained call client peer
      cases hq.symm.trans hp
      exact .refl
  · obtain ⟨_, hq⟩ := perform_of_not_read read run client peer
    cases hq.symm.trans hp
    exact .refl

/-- A spent run stays as it is. -/
theorem performAll_of_done (spent : run.phase = .done) (drained : run.buffer = [])
    (calls : List RunCall) (client : Client) (peer : Peer) :
    (performAll client calls run peer).2 = (run, peer) ∧
      (performAll client calls run peer).1.countP isEnding = 0 := by
  induction calls with
  | nil => exact ⟨rfl, rfl⟩
  | cons call rest ih =>
    obtain ⟨answer, hp, -, silent⟩ := perform_of_done spent drained call client peer
    rw [performAll_cons hp, List.countP_cons_of_neg (by simp [isEnding, silent])]
    exact ih

theorem Stage.of_performAll (calls : List RunCall) (h : Stage first client before run peer) :
    let (history, last, final) := performAll client calls run peer
    Stage first client before last final ∧
      Relation.ReflTransGen (Phase.Move (first.accepted? before)) run.phase last.phase ∧
      history.countP isEnding ≤ 1 := by
  induction calls generalizing run peer with
  | nil => exact ⟨h, .refl, Nat.zero_le 1⟩
  | cons call rest ih =>
    rcases hp : call.perform run client peer with ⟨answer, next, later⟩
    obtain ⟨after, -, ended⟩ := h.of_perform call hp
    obtain ⟨last, moves, once⟩ := ih after
    rw [performAll_cons hp]
    refine ⟨last, (h.moves_of_perform hp).trans moves, ?_⟩
    cases told : call.saysEnd answer with
    | false => rwa [List.countP_cons_of_neg (by simp [isEnding, told])]
    | true =>
      -- after the end nothing says it again
      have spent : next.phase = .done := ended told
      have drained : next.buffer = [] := after.drained (by simp [spent])
      have silent := (performAll_of_done spent drained rest client later).2
      apply Nat.le_of_eq
      rw [List.countP_cons_of_pos (show isEnding ⟨call, answer⟩ = true from told), silent]

theorem metadata_eq_ok_iff_of_done (spent : run.phase = .done) {m : QueryMetadata} :
    run.metadata = .ok m ↔ run.metadata? = some m := by
  rw [metadata, if_pos spent]
  cases run.metadata? <;> simp

theorem metadata_of_done (spent : run.phase = .done) :
    (∃ m, run.metadata = .ok m) ∨ run.metadata = .error .metadataMissing := by
  rw [metadata, if_pos spent]
  cases run.metadata? with
  | none => exact .inr rfl
  | some m => exact .inl ⟨m, rfl⟩

/-- The metadata of a spent run comes from the end of the accepted stream. -/
theorem Stage.metadata_eq_ok_iff (h : Stage first client before run peer)
    (spent : run.phase = .done) (m : QueryMetadata) :
    run.metadata = .ok m ↔
      ∃ stream w, first.accepted? before = some stream ∧ stream.EndsWell ∧
        stream.lastMetadata = some w ∧ QueryMetadata.Says first.serializer w m := by
  simp only [← QueryMetadata.ofWire_eq_ok_iff]
  cases h with
  | fresh new => exact absurd (spent.symm.trans new.phase) (by simp)
  | reading _ _ phase => exact absurd (spent.symm.trans phase) (by simp)
  | spent _ phase _ reported =>
    rw [metadata_eq_ok_iff_of_done phase, reported]
    constructor
    · intro hm
      obtain ⟨stream, accepted, hr⟩ := Option.bind_eq_some_iff.mp hm
      cases hc : stream.conclusion with
      | failed status => simp [hc, report] at hr
      | stalled => simp [hc, report] at hr
      | ended =>
        rw [hc, report] at hr
        obtain ⟨w, hw, ho⟩ := Option.bind_eq_some_iff.mp hr
        refine ⟨stream, w, accepted, stream.conclusion_eq_ended_iff.mp hc, hw, ?_⟩
        cases hd : QueryMetadata.ofWire first.serializer w with
        | error fault => simp [hd, Except.toOption] at ho
        | ok m' => simpa [hd, Except.toOption] using ho
    · rintro ⟨stream, w, accepted, well, hw, ho⟩
      have hc := stream.conclusion_eq_ended_iff.mpr well
      simp [accepted, hc, report, hw, ho, Except.toOption]

/-- Any calls, in any order, lead a run through its life. -/
theorem life_of_run (configuration : Configuration) (query : Query) (client : Client)
    (peer : Peer) (calls : List RunCall) :
    let first := ofQuery configuration query
    let (history, run, later) := performAll client calls first peer
    LifeCycle first client peer calls history run later := by
  intro first
  have start : Stage first client peer first peer := .fresh (fresh_ofQuery configuration query)
  obtain ⟨stage, moves, once⟩ := start.of_performAll calls
  exact
    { asked := by
        refine ⟨stage.askedOnce, fun unread => ?_⟩
        exact congrArg (·.2.received) (performAll_of_not_read unread first client peer)
      moves
      movesOn more := (stage.of_performAll more).2.1
      drained := stage.drained
      endsOnce := once
      spent := by
        intro spent call read
        have drained := stage.drained (by simp [spent])
        obtain ⟨answer, hp, told, -⟩ := perform_of_done spent drained call client _
        rw [hp]
        exact ⟨told read, rfl⟩
      pending := fun active => if_neg active
      reported := stage.metadata_eq_ok_iff
      missing := by
        intro spent never
        exact (metadata_of_done spent).resolve_left fun ⟨m, hm⟩ => never m hm
      settled := by
        intro spent more
        rw [(performAll_of_done spent (stage.drained (by simp [spent])) more client _).1] }

end
end Run
end DocumentClient
