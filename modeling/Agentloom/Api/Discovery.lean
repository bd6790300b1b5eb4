import Agentloom.Api.Resuming

/-! Healing and discovery. A resync pass reads on with the tails that are not marked as finished; a
connection without a live feed also polls the list of runs for new ones. -/

namespace Agentloom.Api

open Event Sequence

variable {server : Server} {rows : List RunListing}

def RunTail.UpTo (log : List EventEnvelope) (tail : RunTail) : Prop :=
  ∀ env ∈ log, env.seq ≤ tail.tailer.lastSeq

variable {before : RunID → List EventEnvelope} {reads : RunID → Reads} {conn : Conn}
  {runID : RunID} {order : List RunID} {start : Int}

namespace Conn

def ReadsSince (before : RunID → List EventEnvelope) (reads : RunID → Reads) : Prop :=
  ∀ runID log, some log ∈ reads runID → Committed runID log ∧ before runID <+: log

theorem ReadsSince.committed (since : ReadsSince before reads) : ReadsCommitted reads :=
  fun runID log read => (since runID log read).1

def Ends (server : Server) (reads : Reads) (tailer : Tailer) : Prop :=
  ∀ conn, (Tailer.catchup (deliverEvent server) reads (tailer, conn)).1 = .ended

theorem Ends.of_short (short : log.length < tailer.pageSize) : Ends server [some log] tailer := by
  intro conn
  have page : (eventsAfter log tailer.lastSeq tailer.pageSize).length < tailer.pageSize := by
    refine lt_of_le_of_lt ?_ short
    exact (List.length_take_le' _ _).trans (List.length_filter_le _ _)
  rw [Tailer.catchup, if_pos page]

theorem catchup_tail? (since : ReadsSince before reads) (sound : conn.Sound)
    (tracked : conn.tail? runID = some tail) :
    ∃ tail', (conn.catchup server runID (reads runID)).tail? runID = some tail' ∧
      tail'.terminal = tail.terminal ∧
      (Ends server (reads runID) tail.tailer → tail'.UpTo (before runID)) := by
  rw [catchup, tracked]
  dsimp only
  cases called : Tailer.catchup (deliverEvent server) (reads runID) (tail.tailer, conn) with
  | mk outcome state =>
    obtain ⟨tailer, _⟩ := state
    obtain ⟨_, took, _, heads⟩ := catchup_took (fun log read => (since runID log read).1)
      (sound runID tail tracked) called
    have isRun : tailer.runID = runID := took.runID.trans (tail?_runID tracked)
    refine ⟨{ tail with tailer := tailer }, ?_, rfl, fun ends => ?_⟩
    · rw [tail?_setTailer, (took_undisturbed took).tail?, tracked, if_pos isRun.symm]
      rfl
    · have ended : outcome = .ended := by
        have outcomeEnds := ends conn
        rw [called] at outcomeEnds
        exact outcomeEnds
      obtain ⟨log, read, head⟩ := heads ended
      intro env committed
      exact head env ((since runID log read).2.subset committed)

theorem healOne_tail?_other (differs : other ≠ runID) (sound : conn.Sound)
    (committed : ReadsCommitted reads) :
    (healOne server reads conn runID).tail? other = conn.tail? other := by
  unfold healOne
  split
  · split
    · rfl
    · exact catchup_tail?_other differs sound (committed runID)
  · rfl

theorem heal_tail?_unvisited (unvisited : runID ∉ order) (sound : conn.Sound)
    (committed : ReadsCommitted reads) :
    (conn.heal server order reads).tail? runID = conn.tail? runID := by
  unfold heal
  induction order generalizing conn with
  | nil => rfl
  | cons first rest ih =>
    have differs : runID ≠ first := fun same => unvisited (same ▸ List.mem_cons_self)
    have absent : runID ∉ rest := fun mem => unvisited (List.mem_cons_of_mem _ mem)
    have moves : Moves server conn (healOne server reads conn first) :=
      healOne_moves sound committed first
    rw [List.foldl_cons, ih absent (moves.sound sound),
      healOne_tail?_other differs sound committed]

theorem heal_untracked (sound : conn.Sound) (committed : ReadsCommitted reads)
    (untracked : conn.tail? runID = none) : (conn.heal server order reads).tail? runID = none := by
  induction order generalizing conn with
  | nil => exact untracked
  | cons first rest ih =>
    have moves : Moves server conn (healOne server reads conn first) :=
      healOne_moves sound committed first
    refine ih (moves.sound sound) ?_
    by_cases isFirst : runID = first
    · subst isFirst
      rw [healOne, untracked]
      exact untracked
    · rw [healOne_tail?_other isFirst sound committed]
      exact untracked

theorem heal_tail? (since : ReadsSince before reads) (nodup : order.Nodup)
    (visited : runID ∈ order) (sound : conn.Sound) (tracked : conn.tail? runID = some tail) :
    ∃ tail', (conn.heal server order reads).tail? runID = some tail' ∧
      (tail.terminal = true → tail' = tail) ∧
      (tail.terminal = false → Ends server (reads runID) tail.tailer → tail'.UpTo (before runID)) := by
  unfold heal
  induction order generalizing conn with
  | nil => cases visited
  | cons first rest ih =>
    obtain ⟨absent, nodupRest⟩ := List.nodup_cons.mp nodup
    have moves : Moves server conn (healOne server reads conn first) :=
      healOne_moves sound since.committed first
    rw [List.foldl_cons]
    by_cases isFirst : runID = first
    · subst isFirst
      have later : (rest.foldl (healOne server reads) (healOne server reads conn runID)).tail? runID =
          (healOne server reads conn runID).tail? runID :=
        heal_tail?_unvisited absent (moves.sound sound) since.committed
      rw [later, healOne, tracked]
      dsimp only
      cases marked : tail.terminal with
      | true => exact ⟨tail, by rw [if_pos rfl, tracked], fun _ => rfl, nofun⟩
      | false =>
        obtain ⟨tail', found, _, upTo⟩ := catchup_tail? since sound tracked
        exact ⟨tail', found, nofun, fun _ => upTo⟩
    · refine ih nodupRest ((List.mem_cons.mp visited).resolve_left isFirst) (moves.sound sound) ?_
      rw [healOne_tail?_other isFirst sound since.committed]
      exact tracked

def ReadUp (before : RunID → List EventEnvelope) (conn : Conn) : Prop :=
  ∀ runID tail, conn.tail? runID = some tail → tail.UpTo (before runID)

theorem startTailAt_readUp (since : ReadsSince before reads) (sound : conn.Sound)
    (listened : conn.subs ≠ [])
    (ends : Ends server (reads runID) (newTailer runID (max start 0) wsBackfillPageSize))
    (readUp : conn.ReadUp before) :
    (conn.startTailAt server runID start (reads runID)).ReadUp before := by
  intro other tail found
  by_cases isRun : other = runID
  · subst isRun
    rw [startTailAt] at found
    split at found
    · exact readUp other tail found
    · rename_i untracked
      have absent : conn.tail? other = none := Option.not_isSome_iff_eq_none.mp untracked
      have begun : Moves server conn ((conn.makeRoom server).track other (max start 0)) :=
        track_moves listened (by simp [absent])
      have tracked : ((conn.makeRoom server).track other (max start 0)).tail? other =
          some { tailer := newTailer other (max start 0) wsBackfillPageSize } := by
        rw [tail?_track, makeRoom_untracked absent, Option.none_or, if_pos rfl]
      obtain ⟨_, isTail, _, upTo⟩ := catchup_tail? since (begun.sound sound) tracked
      rw [isTail] at found
      cases found
      exact upTo ends
  · rcases startTailAt_tail?_other isRun sound listened (since.committed runID) with kept | gone
    · exact readUp other tail (kept.symm.trans found)
    · simp [gone] at found

theorem discoverNewRuns_readUp (since : ReadsSince before reads)
    (ends : ∀ runID start, 0 ≤ start → Ends server (reads runID)
      (newTailer runID start wsBackfillPageSize)) (sound : conn.Sound) (readUp : conn.ReadUp before) :
    (conn.discoverNewRuns server visible reads).ReadUp before := by
  cases visible with
  | none => exact readUp
  | some visible =>
    change ((listPage visible conn.highWater discoveryPage).foldl (discover server reads) conn).ReadUp
      before
    generalize listPage visible conn.highWater discoveryPage = rows
    induction rows generalizing conn with
    | nil => exact readUp
    | cons run rest ih =>
      have moves : Moves server conn (discover server reads conn run) :=
        discover_moves sound since.committed run
      refine ih (moves.sound sound) ?_
      unfold discover
      dsimp only
      split
      · exact readUp
      · split
        · rename_i wants
          have raised : ({ conn with highWater := max conn.highWater run.createdAt } : Conn).Sound :=
            sound
          exact startTailAt_readUp since raised (wantsRun_listened wants)
            (ends run.id _ (le_max_right _ _)) readUp
        · exact readUp

end Conn

/-- After a resync pass whose reads all succeed every tail has been read up to what was committed
before the pass if that is so for the tails that are marked as finished; and, as long as the pass
starts no tails, only then. -/
theorem resync_readUp_iff (server : Server) (polls : Bool) (buffer : Nat) (now : Int)
    (signals : List Signal) (earlier : ∀ signal ∈ signals, signal.ReadsCommitted)
    (before : RunID → List EventEnvelope) (order : List RunID) (reads backfill : RunID → Reads)
    (visible : Option (List RunListing)) (since : Conn.ReadsSince before reads)
    (since' : Conn.ReadsSince before backfill) (nodup : order.Nodup) :
    let conn := (Conn.opened buffer now).run server polls signals
    let conn' := conn.resync server polls order reads visible backfill
    (∀ runID tail, conn.tail? runID = some tail →
      runID ∈ order ∧ Conn.Ends server (reads runID) tail.tailer) →
    (∀ runID start, 0 ≤ start →
      Conn.Ends server (backfill runID) (newTailer runID start wsBackfillPageSize)) →
    let finishedReadUp := ∀ runID tail, conn.tail? runID = some tail → tail.terminal = true →
      tail.UpTo (before runID)
    (finishedReadUp → conn'.ReadUp before) ∧ (polls = false → conn'.ReadUp before → finishedReadUp) := by
  intro conn conn' visits ends finishedReadUp
  have sound : conn.Sound := Conn.run_sound earlier (Conn.opened_sound buffer now)
  have healed : Conn.Moves server conn (conn.heal server order reads) :=
    Conn.heal_moves sound since.committed
  refine ⟨fun finished => ?_, fun live readUp runID tail tracked marked => ?_⟩
  · have readUp : (conn.heal server order reads).ReadUp before := by
      intro runID tail' found
      cases tracked : conn.tail? runID with
      | none =>
        simp [Conn.heal_untracked sound since.committed tracked] at found
      | some tail =>
        obtain ⟨visited, end'⟩ := visits runID tail tracked
        obtain ⟨after, isAfter, kept, upTo⟩ := Conn.heal_tail? since nodup visited sound tracked
        rw [isAfter] at found
        cases found
        cases marked : tail.terminal with
        | true =>
          rw [kept marked]
          exact finished runID tail tracked marked
        | false => exact upTo marked end'
    unfold conn' Conn.resync
    split
    · exact Conn.discoverNewRuns_readUp since' ends (healed.sound sound) readUp
    · exact readUp
  · obtain ⟨visited, _⟩ := visits runID tail tracked
    obtain ⟨after, isAfter, kept, _⟩ := Conn.heal_tail? since nodup visited sound tracked
    have isHealed : conn' = conn.heal server order reads := by
      unfold conn' Conn.resync
      rw [live, if_neg Bool.false_ne_true]
    rw [← isHealed] at isAfter
    rw [← kept marked]
    exact readUp runID after isAfter

def failedLog : List EventEnvelope := [⟨7, 1, .runCreated⟩, ⟨7, 2, .stepReady⟩, ⟨7, 3, .runFailed⟩]

def resumedLog : List EventEnvelope := [⟨7, 1, .runCreated⟩, ⟨7, 2, .runFailed⟩, ⟨7, 3, .runResumed⟩]

def oneRead : Signal := .control (.subscribe "a" {} [("7", 0)]) (readSeven (resumedLog.take 1))

def endedLog : List EventEnvelope := [⟨8, 1, .runCreated⟩, ⟨8, 2, .runFailed⟩]

/-- Two runs: the first has gone on, but the connection has heard of the second only. -/
def twoLogs : RunID → List EventEnvelope := fun runID =>
  if runID = 8 then endedLog else onSeven resumedLog runID

theorem twoLogs_since : Conn.ReadsSince twoLogs fun runID => [some (twoLogs runID)] := by
  intro runID log read
  obtain rfl : log = twoLogs runID := Option.some.inj (List.mem_singleton.mp read)
  refine ⟨?_, List.prefix_refl _⟩
  unfold twoLogs
  split
  · rename_i isEight
    exact isEight ▸ ⟨by decide, by decide⟩
  · exact onSeven_committed ⟨by decide, by decide⟩ runID

theorem twoLogs_ends (size : tailer.pageSize = 500) :
    Conn.Ends promptServer [some (twoLogs runID)] tailer := by
  refine .of_short ?_
  rw [size, twoLogs, onSeven]
  split
  · decide
  · split <;> decide

def halfHeard : List Signal := [oneRead, .live ⟨8, 2, .runFailed⟩ [some (endedLog.take 1)] []]

theorem halfHeard_committed : ∀ signal ∈ halfHeard, signal.ReadsCommitted := by
  refine List.forall_mem_cons.mpr
    ⟨readSeven_committed ⟨by decide, by decide⟩, List.forall_mem_singleton.mpr ⟨?_, nofun⟩⟩
  intro log read
  obtain rfl : log = endedLog.take 1 := Option.some.inj (List.mem_singleton.mp read)
  exact ⟨by decide, by decide⟩

theorem resync_readUp_seven :
    ((Conn.opened 256 0).run promptServer false halfHeard).tails.map
        (fun tail => (tail.tailer.runID, tail.tailer.lastSeq, tail.terminal)) =
      [(7, 1, false), (8, 2, true)] ∧
    (((Conn.opened 256 0).run promptServer false halfHeard).resync promptServer false [7, 8]
      (fun runID => [some (twoLogs runID)]) none fun runID => [some (twoLogs runID)]).ReadUp
        twoLogs := by
  have tails : ∀ tail ∈ ((Conn.opened 256 0).run promptServer false halfHeard).tails,
      tail.tailer.runID ∈ [7, 8] ∧ tail.tailer.pageSize = 500 ∧
        (tail.terminal = true → ∀ env ∈ twoLogs tail.tailer.runID, env.seq ≤ tail.tailer.lastSeq) := by
    decide +kernel
  refine ⟨by decide +kernel, (resync_readUp_iff promptServer false 256 0 halfHeard halfHeard_committed
    twoLogs [7, 8] _ _ none twoLogs_since twoLogs_since (by decide) ?_ ?_).1 ?_⟩
  · intro runID tail tracked
    obtain ⟨known, size, _⟩ := tails tail (List.mem_of_find?_eq_some tracked)
    exact ⟨Conn.tail?_runID tracked ▸ known, twoLogs_ends size⟩
  · intro runID start _
    exact twoLogs_ends rfl
  · intro runID tail tracked marked
    obtain ⟨_, _, readUp⟩ := tails tail (List.mem_of_find?_eq_some tracked)
    exact Conn.tail?_runID tracked ▸ readUp marked

/-- A terminal event that comes early, with a backfill that fails; and one that is delivered, on a run
that is requeued, with the next event lost. In both cases the pass leaves the tail behind. -/
theorem finished_tail_left_behind : ¬ (((Conn.opened 256 0).run promptServer false
        [oneRead, .live ⟨7, 3, .runFailed⟩ [] [none]]).resync promptServer false [7]
          (fun _ => [some failedLog]) none fun _ => [some failedLog]).ReadUp (fun _ => failedLog) ∧
    ¬ (((Conn.opened 256 0).run promptServer false
        [oneRead, .live ⟨7, 2, .runFailed⟩ [] []]).resync promptServer false [7]
          (fun _ => [some resumedLog]) none fun _ => [some resumedLog]).ReadUp fun _ => resumedLog := by
  have behind (conn : Conn) (seq : Int) (log : RunID → List EventEnvelope) (env : EventEnvelope)
      (logged : env ∈ log 7) (ahead : seq < env.seq)
      (stands : (conn.tail? 7).map (fun tail => tail.tailer.lastSeq) = some seq) :
      ¬ conn.ReadUp log := by
    intro readUp
    obtain ⟨tail, tracked, _⟩ := Option.map_eq_some_iff.mp stands
    have upTo := readUp 7 tail tracked env logged
    omega
  refine ⟨behind _ 1 _ ⟨7, 3, .runFailed⟩ (by decide +kernel) (by decide) (by decide +kernel), ?_⟩
  exact behind _ 2 _ ⟨7, 3, .runResumed⟩ (by decide +kernel) (by decide) (by decide +kernel)

variable {conn' : Conn} {run : RunListing}

namespace Conn

def Begun (runID : RunID) (conn : Conn) : Prop := (conn.tail? runID).isSome = true ∨ runID ∈ conn.lost

def wantsListing (server : Server) (run : RunListing) (conn : Conn) : Bool :=
  conn.wantsRun run.id (server.metaOf run.id)

theorem Undisturbed.lost (same : Undisturbed conn conn') : conn'.lost = conn.lost :=
  congrArg (List.map Prod.fst) same.left

theorem mem_lost_drop : runID ∈ (conn.drop dropped).lost ↔
    ((conn.tail? runID).isSome = true ∧ runID = dropped) ∨ runID ∈ conn.lost := by
  rw [Conn.lost, drop, List.map_append, List.mem_append]
  refine or_congr_left ?_
  by_cases same : runID = dropped
  · subst same
    cases conn.tail? runID <;> simp
  · cases conn.tail? dropped <;> simp [same]

theorem Move.begun (move : Move server conn conn') (begun : conn.Begun runID) :
    conn'.Begun runID := by
  cases move with
  | sent | asked | raised => exact begun
  | took _ _ took =>
    have same := took_undisturbed took
    refine begun.imp (fun tracked => ?_) fun lost => same.lost ▸ lost
    rw [tail?_setTailer, same.tail?]
    split
    · rw [Option.isSome_map]
      exact tracked
    · exact tracked
  | @marked env =>
    have same : (conn.markTerminal env).lost = conn.lost := by
      unfold markTerminal
      split <;> rfl
    refine begun.imp (fun tracked => ?_) fun lost => same ▸ lost
    rw [tail?_markTerminal, Option.isSome_map]
    exact tracked
  | @dropped dropped order =>
    change (conn.drop dropped).Begun runID
    rw [Begun, tail?_drop, mem_lost_drop]
    by_cases isRun : runID = dropped
    · exact .inr (begun.imp_left fun tracked => ⟨tracked, isRun⟩)
    · rw [if_neg isRun]
      exact begun.imp_right .inr
  | began _ _ _ =>
    refine begun.imp_left fun tracked => ?_
    rw [tail?_track, Option.isSome_or, tracked, Bool.true_or]

theorem Moves.begun (moves : Moves server conn conn') (begun : conn.Begun runID) :
    conn'.Begun runID := by
  induction moves with
  | refl => exact begun
  | tail _ move ih => exact move.begun ih

theorem Moves.wantsListing (moves : Moves server conn conn') (run : RunListing) :
    conn'.wantsListing server run = conn.wantsListing server run := by
  unfold Conn.wantsListing wantsRun
  rw [moves.subs]

theorem startTailAt_begun (sound : conn.Sound) (listened : conn.subs ≠ []) {reads}
    (committed : ∀ log, some log ∈ reads → Committed runID log) :
    (conn.startTailAt server runID start reads).Begun runID := by
  unfold startTailAt
  split
  · rename_i tracked
    exact .inl tracked
  · rename_i untracked
    have moves : Moves server conn ((conn.makeRoom server).track runID (max start 0)) :=
      track_moves listened untracked
    have tracked : ((conn.makeRoom server).track runID (max start 0)).Begun runID := by
      left
      rw [tail?_track, if_pos rfl, Option.isSome_or, Option.isSome_some, Bool.or_true]
    have reading : Moves server _ (((conn.makeRoom server).track runID (max start 0)).catchup server
        runID reads) := catchup_moves (moves.sound sound) committed
    exact reading.begun tracked

theorem discover_begun (sound : conn.Sound) (committed : ReadsCommitted reads)
    (wants : conn.wantsListing server run = true) :
    (discover server reads conn run).Begun run.id := by
  unfold discover
  dsimp only
  split
  · rename_i tracked
    exact .inl tracked
  · rw [if_pos (show ({ conn with highWater := max conn.highWater run.createdAt } : Conn).wantsRun
      run.id (server.metaOf run.id) = true from wants)]
    have raised : ({ conn with highWater := max conn.highWater run.createdAt } : Conn).Sound := sound
    exact startTailAt_begun raised (wantsRun_listened wants) (committed run.id)

theorem discoverAll_begun (sound : conn.Sound)
    (committed : ReadsCommitted reads) (listed : run ∈ rows)
    (wants : conn.wantsListing server run = true) :
    (rows.foldl (discover server reads) conn).Begun run.id := by
  induction rows generalizing conn with
  | nil => cases listed
  | cons first rest ih =>
    have moves : Moves server conn (discover server reads conn first) :=
      discover_moves sound committed first
    rcases List.mem_cons.mp listed with rfl | later
    · have all : Moves server _ (rest.foldl (discover server reads) (discover server reads conn run)) :=
        foldl_moves (moves.sound sound) fun other _ _ sound => discover_moves sound committed other
      exact all.begun (discover_begun sound committed wants)
    · refine ih (moves.sound sound) later ?_
      rw [moves.wantsListing]
      exact wants

theorem catchup_frame (sound : conn.Sound) {reads}
    (committed : ∀ log, some log ∈ reads → Committed runID log) :
    (conn.catchup server runID reads).highWater = conn.highWater ∧
      (conn.catchup server runID reads).lost = conn.lost := by
  rw [catchup]
  cases tracked : conn.tail? runID with
  | none => exact ⟨rfl, rfl⟩
  | some tail =>
    have called : Tailer.catchup (deliverEvent server) reads (tail.tailer, conn) = (_, _, _) := rfl
    obtain ⟨_, took, _⟩ := catchup_took committed (sound runID tail tracked) called
    exact ⟨(took_undisturbed took).highWater, (took_undisturbed took).lost⟩

theorem heal_frame (sound : conn.Sound) (committed : ReadsCommitted reads) :
    (conn.heal server order reads).highWater = conn.highWater ∧
      (conn.heal server order reads).lost = conn.lost := by
  induction order generalizing conn with
  | nil => exact ⟨rfl, rfl⟩
  | cons runID rest ih =>
    have moves : Moves server conn (healOne server reads conn runID) :=
      healOne_moves sound committed runID
    have first : (healOne server reads conn runID).highWater = conn.highWater ∧
        (healOne server reads conn runID).lost = conn.lost := by
      unfold healOne
      split
      · split
        · exact ⟨rfl, rfl⟩
        · exact catchup_frame sound (committed runID)
      · exact ⟨rfl, rfl⟩
    obtain ⟨mark, lost⟩ := ih (moves.sound sound)
    exact ⟨mark.trans first.1, lost.trans first.2⟩

end Conn

/-- A connection in poll mode, with the runs that its last successful poll could see. Between polls
no run appears behind the mark, a poll has no more runs to list than fit a page, and no subscription
comes to want a run that the polls have passed over. -/
inductive Polled (server : Server) (start : Int) : List RunListing → Conn → Prop where
  | opened (buffer : Nat) : Polled server start [] (Conn.opened buffer start)
  | control {seen : List RunListing} {conn : Conn} (message : Control) (reads : RunID → Reads) :
      Polled server start seen conn → conn.link.slow = false → Conn.ReadsCommitted reads →
      (∀ run ∈ seen, start ≤ run.createdAt →
        (conn.onControl server reads message).wantsListing server run = true →
        conn.wantsListing server run = true ∨ conn.Begun run.id) →
      Polled server start seen (conn.onControl server reads message)
  | live {seen : List RunListing} {conn : Conn} (env : EventEnvelope) (backfill reads : Reads) :
      Polled server start seen conn → conn.link.slow = false →
      (∀ log, some log ∈ backfill → Committed env.runID log) →
      (∀ log, some log ∈ reads → Committed env.runID log) →
      Polled server start seen (conn.onLiveEnvelope server env backfill reads)
  | failed {seen : List RunListing} {conn : Conn} (order : List RunID) (reads backfill : RunID → Reads) :
      Polled server start seen conn → conn.link.slow = false → Conn.ReadsCommitted reads →
      Polled server start seen (conn.resync server true order reads none backfill)
  | polled {seen : List RunListing} {conn : Conn} (order : List RunID) (reads backfill : RunID → Reads)
      (visible : List RunListing) :
      Polled server start seen conn → conn.link.slow = false → Conn.ReadsCommitted reads →
      Conn.ReadsCommitted backfill →
      (∀ run ∈ visible, start ≤ run.createdAt → run.createdAt < conn.highWater → run ∈ seen) →
      (visible.filter fun run => run.createdAt ≥ conn.highWater).length ≤ Conn.discoveryPage →
      Polled server start visible (conn.resync server true order reads (some visible) backfill)

theorem Polled.sound (polled : Polled server start seen conn) : conn.Sound := by
  induction polled with
  | opened buffer => exact Conn.opened_sound buffer start
  | control message reads _ _ committed _ ih =>
    obtain ⟨_, moves⟩ := Conn.onControl_moves ih committed message
    exact moves.sound ih
  | live env backfill reads _ _ committed committed' ih =>
    exact (Conn.onLiveEnvelope_moves ih committed committed').sound ih
  | failed order reads backfill _ _ committed ih =>
    exact (Conn.heal_moves ih committed).sound ih
  | polled order reads backfill visible _ _ committed committed' _ _ ih =>
    exact (Conn.resync_moves ih committed committed').sound ih

/-- Every run that a successful poll can see, that was created since the connection started and that
a subscription wants, has been tailed by then. -/
theorem discovered_runs_tailed (server : Server) (start : Int) (seen : List RunListing) (conn : Conn)
    (polled : Polled server start seen conn) (run : RunListing) (visible : run ∈ seen)
    (created : start ≤ run.createdAt) (wanted : conn.wantsListing server run = true) :
    conn.Begun run.id := by
  induction polled with
  | opened buffer => cases visible
  | @control seen conn message reads before _ committed kept ih =>
    obtain ⟨_, moves⟩ := Conn.onControl_moves before.sound committed message
    have begun : conn.Begun run.id :=
      (kept run visible created wanted).elim (ih visible) id
    exact moves.begun begun
  | @live seen conn env backfill reads before _ committed committed' ih =>
    have moves : Conn.Moves server conn (conn.onLiveEnvelope server env backfill reads) :=
      Conn.onLiveEnvelope_moves before.sound committed committed'
    rw [moves.wantsListing] at wanted
    exact moves.begun (ih visible wanted)
  | @failed seen conn order reads backfill before _ committed ih =>
    have moves : Conn.Moves server conn (conn.heal server order reads) :=
      Conn.heal_moves before.sound committed
    change (conn.heal server order reads).wantsListing server run = true at wanted
    rw [moves.wantsListing] at wanted
    exact moves.begun (ih visible wanted)
  | @polled seen conn order reads backfill rows before _ committed committed' behind fits ih =>
    have healed : Conn.Moves server conn (conn.heal server order reads) :=
      Conn.heal_moves before.sound committed
    have moves : Conn.Moves server conn
        ((conn.heal server order reads).discoverNewRuns server (some rows) backfill) :=
      healed.trans (Conn.discoverNewRuns_moves (healed.sound before.sound) committed')
    rw [show (conn.resync server true order reads (some rows) backfill).wantsListing server run =
      conn.wantsListing server run from moves.wantsListing run] at wanted
    by_cases recent : conn.highWater ≤ run.createdAt
    · have mark : (conn.heal server order reads).highWater = conn.highWater :=
        (Conn.heal_frame before.sound committed).1
      refine Conn.discoverAll_begun (healed.sound before.sound) committed' ?_ ?_
      · rw [mark, Conn.listPage, List.take_of_length_le (by rwa [List.length_insertionSort]),
          List.mem_insertionSort]
        exact List.mem_filter.mpr ⟨visible, by simpa using recent⟩
      · rw [healed.wantsListing]
        exact wanted
    · exact moves.begun (ih (behind run visible created (not_le.mp recent)) wanted)

def listeningConn : Conn :=
  (Conn.opened 256 0).onControl promptServer runSevenReads (.subscribe "a" {} [])

/-- The runs that two polls see, one of them created in between. -/
def polledRuns : List RunListing := [⟨9, 9⟩, ⟨8, 6⟩, ⟨7, 5⟩]

def polledOnce : Conn :=
  listeningConn.resync promptServer true [] runSevenReads (some (polledRuns.drop 1)) runSevenReads

def polledTwice : Conn :=
  polledOnce.resync promptServer true [7] runSevenReads (some polledRuns) runSevenReads

theorem discovered_runs_tailed_seven :
    polledTwice.Begun 7 ∧ polledTwice.Begun 8 ∧ polledTwice.Begun 9 := by
  have committed := runSevenReads_committed
  have listening : Polled promptServer 0 [] listeningConn :=
    .control _ _ (.opened 256) rfl committed nofun
  have once : Polled promptServer 0 (polledRuns.drop 1) polledOnce :=
    .polled [] _ _ _ listening (by decide +kernel) committed committed (by decide +kernel)
      (by decide +kernel)
  have twice : Polled promptServer 0 polledRuns polledTwice :=
    .polled [7] _ _ _ once (by decide +kernel) committed committed (by decide +kernel)
      (by decide +kernel)
  have tailed := discovered_runs_tailed promptServer 0 polledRuns _ twice
  exact ⟨tailed ⟨7, 5⟩ (by decide) (by decide) (by decide +kernel),
    tailed ⟨8, 6⟩ (by decide) (by decide) (by decide +kernel),
    tailed ⟨9, 9⟩ (by decide) (by decide) (by decide +kernel)⟩

namespace Conn

theorem makeRoom_lost (gone : runID ∈ (conn.makeRoom server).lost) : conn.Begun runID := by
  have dropped (other : RunID) (mem : runID ∈ (conn.drop other).lost) : conn.Begun runID :=
    (mem_lost_drop.mp mem).imp_left And.left
  unfold makeRoom evictOne at gone
  split at gone
  · split at gone
    · exact dropped _ gone
    · split at gone
      · exact dropped _ gone
      · exact .inr gone
  · exact .inr gone

theorem startTailAt_begins (sound : conn.Sound) (listened : conn.subs ≠ []) {other}
    (differs : other ≠ runID) {reads} (committed : ∀ log, some log ∈ reads → Committed runID log)
    (begun : (conn.startTailAt server runID start reads).Begun other) : conn.Begun other := by
  rcases begun with tracked | gone
  · rcases startTailAt_tail?_other differs sound listened committed with kept | none
    · exact .inl (kept ▸ tracked)
    · simp [none] at tracked
  · unfold startTailAt at gone
    split at gone
    · exact .inr gone
    · rename_i untracked
      have moves : Moves server conn ((conn.makeRoom server).track runID (max start 0)) :=
        track_moves listened untracked
      rw [(catchup_frame (moves.sound sound) committed).2] at gone
      exact makeRoom_lost gone

theorem startTailAt_highWater (sound : conn.Sound) (listened : conn.subs ≠ []) {reads}
    (committed : ∀ log, some log ∈ reads → Committed runID log) :
    (conn.startTailAt server runID start reads).highWater = conn.highWater := by
  unfold startTailAt
  split
  · rfl
  · rename_i untracked
    have moves : Moves server conn ((conn.makeRoom server).track runID (max start 0)) :=
      track_moves listened untracked
    rw [(catchup_frame (moves.sound sound) committed).1]
    unfold makeRoom evictOne
    split
    · split
      · rfl
      · split <;> rfl
    · rfl

structure Passed (run : RunListing) (conn : Conn) : Prop where
  sound : conn.Sound
  behind : run.createdAt < conn.highWater
  missed : ¬ conn.Begun run.id

theorem Passed.startTailAt (passed : Passed run conn) (listened : conn.subs ≠ [])
    (differs : run.id ≠ runID) {reads} (committed : ∀ log, some log ∈ reads → Committed runID log) :
    Passed run (conn.startTailAt server runID start reads) := by
  have moves : Moves server conn (conn.startTailAt server runID start reads) :=
    startTailAt_moves passed.sound listened committed
  refine ⟨moves.sound passed.sound, ?_, fun begun => ?_⟩
  · rw [startTailAt_highWater passed.sound listened committed]
    exact passed.behind
  · exact passed.missed (startTailAt_begins passed.sound listened differs committed begun)

theorem Passed.discover (passed : Passed run conn) (committed : ReadsCommitted reads)
    {other} (differs : run.id ≠ other.id) : Passed run (discover server reads conn other) := by
  have raised : Passed run { conn with highWater := max conn.highWater other.createdAt } :=
    ⟨passed.sound, lt_of_lt_of_le passed.behind (le_max_left _ _), passed.missed⟩
  unfold Conn.discover
  dsimp only
  split
  · exact raised
  · split
    · rename_i wants
      exact raised.startTailAt (wantsRun_listened wants) differs (committed other.id)
    · exact raised

theorem Passed.discoverAll (passed : Passed run conn) (committed : ReadsCommitted reads)
    (differ : ∀ other ∈ rows, run.id ≠ other.id) :
    Passed run (rows.foldl (Conn.discover server reads) conn) := by
  induction rows generalizing conn with
  | nil => exact passed
  | cons other rest ih =>
    exact ih (passed.discover committed (differ other List.mem_cons_self))
      fun later mem => differ later (List.mem_cons_of_mem _ mem)

theorem Passed.resync (passed : Passed run conn)
    (committed : ReadsCommitted reads) (committed' : ReadsCommitted backfill)
    (same : ∀ other ∈ visible, other.id = run.id → other.createdAt = run.createdAt) :
    Passed run (conn.resync server true order reads (some visible) backfill) := by
  have moves : Moves server conn (conn.heal server order reads) := heal_moves passed.sound committed
  obtain ⟨mark, lost⟩ : (conn.heal server order reads).highWater = conn.highWater ∧
      (conn.heal server order reads).lost = conn.lost := heal_frame passed.sound committed
  have healed : Passed run (conn.heal server order reads) := by
    refine ⟨moves.sound passed.sound, mark ▸ passed.behind, ?_⟩
    rintro (tracked | gone)
    · cases before : conn.tail? run.id with
      | none =>
        simp [heal_untracked passed.sound committed before] at tracked
      | some tail => exact passed.missed (.inl (before ▸ rfl))
    · exact passed.missed (.inr (lost ▸ gone))
  -- the page lists runs at or after the mark only
  have recent : ∀ other ∈ listPage visible (conn.heal server order reads).highWater discoveryPage,
      run.id ≠ other.id := by
    intro other listed isRun
    have kept := List.mem_filter.mp ((List.mem_insertionSort _).mp (List.mem_of_mem_take listed))
    have created := same other kept.1 isRun.symm
    have after : (conn.heal server order reads).highWater ≤ other.createdAt := by simpa using kept.2
    have behind := healed.behind
    omega
  exact healed.discoverAll committed' recent

end Conn

def manyRuns : List RunListing := (List.range 201).reverse.map fun n => ⟨n, n + 1⟩

theorem listeningConn_sound : listeningConn.Sound := by
  obtain ⟨_, moves⟩ := Conn.onControl_moves (Conn.opened_sound 256 0) runSevenReads_committed
    (.subscribe "a" {} [])
  exact moves.sound (Conn.opened_sound 256 0)

def crowdedConn : Conn :=
  listeningConn.resync promptServer true [] runSevenReads (some manyRuns) runSevenReads

theorem crowdedConn_passed : Conn.Passed ⟨0, 1⟩ crowdedConn := by
  have page : Conn.listPage manyRuns 0 Conn.discoveryPage = ⟨200, 201⟩ :: (manyRuns.drop 1).take 199 := by
    decide +kernel
  have others : ∀ other ∈ (manyRuns.drop 1).take 199, 0 ≠ other.id := by decide +kernel
  have polled : crowdedConn = ((manyRuns.drop 1).take 199).foldl
      (Conn.discover promptServer runSevenReads)
      (Conn.discover promptServer runSevenReads listeningConn ⟨200, 201⟩) := by
    have mark : listeningConn.highWater = 0 := by decide +kernel
    have healed : listeningConn.heal promptServer [] runSevenReads = listeningConn := rfl
    rw [crowdedConn, Conn.resync, healed, if_pos rfl, Conn.discoverNewRuns, mark, page,
      List.foldl_cons]
  have first :
    Conn.Passed ⟨0, 1⟩ (Conn.discover promptServer runSevenReads listeningConn ⟨200, 201⟩) := by
    have moves : Conn.Moves promptServer listeningConn _ :=
      Conn.discover_moves listeningConn_sound runSevenReads_committed ⟨200, 201⟩
    refine ⟨moves.sound listeningConn_sound, by decide +kernel, ?_⟩
    rintro (tracked | gone)
    · revert tracked
      decide +kernel
    · revert gone
      decide +kernel
  rw [polled]
  exact first.discoverAll runSevenReads_committed others

/-- Of the runs created between two polls the oldest is never tailed, whatever is polled later. -/
theorem oldest_run_never_discovered :
    (⟨0, 1⟩ : RunListing) ∈ manyRuns ∧ crowdedConn.wantsListing promptServer ⟨0, 1⟩ = true ∧
      ∀ polls : List (List RunID × List RunListing),
        (∀ poll ∈ polls, ∀ run ∈ poll.2, run.id = 0 → run.createdAt = 1) →
        ¬ (polls.foldl (fun conn poll => conn.resync promptServer true poll.1 runSevenReads (some poll.2)
          runSevenReads) crowdedConn).Begun 0 := by
  have moves : Conn.Moves promptServer listeningConn crowdedConn := Conn.resync_moves listeningConn_sound
    runSevenReads_committed runSevenReads_committed
  refine ⟨by decide +kernel, ?_, fun polls same => ?_⟩
  · rw [moves.wantsListing]
    decide +kernel
  · have passed := crowdedConn_passed
    clear moves
    generalize crowdedConn = conn at passed
    induction polls generalizing conn with
    | nil => exact passed.missed
    | cons poll rest ih =>
      refine ih (fun later member => same later (List.mem_cons_of_mem _ member)) _ ?_
      exact passed.resync runSevenReads_committed runSevenReads_committed
        (same poll List.mem_cons_self)

end Agentloom.Api
