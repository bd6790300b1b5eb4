import Agentloom.Event.Tailer

/-! The outbound half of a WebSocket connection, and the endpoint that streams one run. A frame goes
into a bounded buffer that one writer drains; a client that keeps the buffer full for too long is
given up, but only once the driver looks. -/

namespace Agentloom.Api

open Event Sequence List

variable {π : Type} {runID : RunID}

structure WSFilter where
  runIDs : List String := []
  types : List String := []
  definitionID : String := ""
  definitionName : String := ""
deriving DecidableEq, Repr

inductive Frame (π : Type) where
  | snapshot
  | event (env : Envelope π) (subscriptions : List String)
  | caughtUp (lastSeq : Int)
  | subscribed (id : String) (filter : WSFilter)
  | resumed (id : String) (cursors : List (RunID × Int))
  | unsubscribed (id : String)
  | error (code message id : String)
deriving DecidableEq, Repr

/-- What happens while one frame waits: how many frames the writer takes out of the buffer, whether
the connection is torn down by then, and whether `select` prefers the teardown to a free slot. -/
structure Pace where
  drained : Nat := 0
  torn : Bool := false
  prefersDone : Bool := false
deriving DecidableEq, Repr

structure Link (π : Type) where
  buffer : Nat
  offered : List (Frame π × Bool) := []
  drained : Nat := 0
  torn : Bool := false
  slow : Bool := false
deriving DecidableEq, Repr

section Link

variable (pace : Nat → Pace)

def Link.sent (link : Link π) : List (Frame π) :=
  (link.offered.filter fun offer => offer.2).map fun offer => offer.1

def Link.enqueue (frame : Frame π) (link : Link π) : Bool × Link π :=
  let now := pace link.offered.length
  let drained := min link.sent.length (link.drained + now.drained)
  let torn := link.torn || now.torn
  let room := link.sent.length - drained < link.buffer
  let accepted := room && !(torn && now.prefersDone)
  (accepted, { link with
    offered := link.offered ++ [(frame, accepted)]
    drained := drained
    torn := torn
    slow := link.slow || (!accepted && !torn) })

inductive CloseCode where
  | normalClosure
  | internalError
  | slowConsumer
deriving DecidableEq, Repr

def Link.finish (code : CloseCode) (link : Link π) : CloseCode :=
  if link.slow then .slowConsumer else code

end Link

/-- What waits in the buffer, and whether the connection is torn down. -/
structure Backlog where
  waiting : Nat := 0
  torn : Bool := false
deriving DecidableEq, Repr

def Backlog.leavesRoom (buffer : Nat) (now : Pace) (backlog : Backlog) : Bool :=
  backlog.waiting - now.drained < buffer && !((backlog.torn || now.torn) && now.prefersDone)

/-- The backlog when the frame of a number comes: the pace of the client and the size of the buffer
decide it, whatever the frames are. -/
def backlogAt (pace : Nat → Pace) (buffer : Nat) : Nat → Backlog
  | 0 => {}
  | n + 1 =>
    let before := backlogAt pace buffer n
    ⟨before.waiting - (pace n).drained + (before.leavesRoom buffer (pace n)).toNat,
      before.torn || (pace n).torn⟩

def leavesRoom (pace : Nat → Pace) (buffer : Nat) (n : Nat) : Bool :=
  (backlogAt pace buffer n).leavesRoom buffer (pace n)

section Paced

variable {pace : Nat → Pace} {buffer : Nat} {link : Link π}

/-- The buffer has answered as the pace of the client has it. -/
structure Paced (pace : Nat → Pace) (buffer : Nat) (link : Link π) : Prop where
  size : link.buffer = buffer
  drained : link.drained ≤ link.sent.length
  backlog : backlogAt pace buffer link.offered.length = ⟨link.sent.length - link.drained, link.torn⟩
  answers : ∀ offer ∈ link.offered.zipIdx, offer.1.2 = leavesRoom pace buffer offer.2

theorem Paced.begin (pace : Nat → Pace) (buffer : Nat) :
    Paced pace buffer ({ buffer := buffer } : Link π) :=
  ⟨rfl, le_refl 0, rfl, nofun⟩

theorem Paced.accepted (paced : Paced pace buffer link) (frame : Frame π) :
    (link.enqueue pace frame).1 = leavesRoom pace buffer link.offered.length := by
  have left : link.sent.length - min link.sent.length
      (link.drained + (pace link.offered.length).drained) =
        link.sent.length - link.drained - (pace link.offered.length).drained := by
    omega
  rw [leavesRoom, paced.backlog, Backlog.leavesRoom, Link.enqueue, left, paced.size]

theorem Paced.enqueue (paced : Paced pace buffer link) (frame : Frame π) :
    Paced pace buffer (link.enqueue pace frame).2 := by
  have accepted := paced.accepted frame
  have offered : (link.enqueue pace frame).2.offered =
      link.offered ++ [(frame, leavesRoom pace buffer link.offered.length)] := by
    rw [← accepted]
    rfl
  have sent : (link.enqueue pace frame).2.sent.length =
      link.sent.length + (leavesRoom pace buffer link.offered.length).toNat := by
    rw [Link.sent, offered, filter_append, map_append, length_append, ← Link.sent]
    cases leavesRoom pace buffer link.offered.length <;> rfl
  have drained : (link.enqueue pace frame).2.drained =
      min link.sent.length (link.drained + (pace link.offered.length).drained) := rfl
  refine ⟨paced.size, ?_, ?_, ?_⟩
  · rw [sent, drained]
    omega
  · have room : (backlogAt pace buffer link.offered.length).leavesRoom buffer
      (pace link.offered.length) = leavesRoom pace buffer link.offered.length := rfl
    rw [offered, length_append, length_singleton, backlogAt, room, sent, drained, paced.backlog]
    refine congrArg₂ Backlog.mk ?_ rfl
    dsimp only
    omega
  · intro offer member
    rw [offered, zipIdx_append, zipIdx_singleton, Nat.zero_add] at member
    rcases mem_append.mp member with old | new
    · exact paced.answers offer old
    · rw [mem_singleton.mp new]

end Paced

def wsBackfillPageSize : Int := defaultBackfillPageSize

structure RunConn (π : Type) where
  link : Link π
  lastSeq : Int
deriving DecidableEq, Repr

/-- What the loop of a connection wakes up for; a ping and a closed subscription change nothing. -/
inductive RunSignal (π : Type) where
  | live (env : Envelope π) (reads : List (Read π))
  | resync (reads : List (Read π))

section RunConn

variable (pace : Nat → Pace)

def RunConn.deliver (env : Envelope π) (conn : RunConn π) : RunConn π :=
  let (accepted, link) := conn.link.enqueue pace (.event env [])
  ⟨link, if accepted && conn.lastSeq < env.seq then env.seq else conn.lastSeq⟩

def RunConn.serve (state : Tailer × RunConn π) : RunSignal π → Tailer × RunConn π
  | .live env reads => (Tailer.offer (RunConn.deliver pace) env reads state).2
  | .resync reads => (Tailer.catchup (RunConn.deliver pace) reads state).2

def RunConn.loop : List (RunSignal π) → Tailer × RunConn π → Tailer × RunConn π
  | [], state => state
  | signal :: rest, state =>
    if state.2.link.slow then state else RunConn.loop rest (RunConn.serve pace state signal)

def RunConn.run (buffer : Nat) (runID : RunID) (lastSeq : Int) (backfill : List (Read π))
    (signals : List (RunSignal π)) : CloseCode × RunConn π :=
  let (accepted, link) := ({ buffer := buffer } : Link π).enqueue pace .snapshot
  if !accepted then (link.finish .normalClosure, ⟨link, lastSeq⟩)
  else
    let tailer := newTailer runID lastSeq wsBackfillPageSize
    match Tailer.catchup (RunConn.deliver pace) backfill (tailer, ⟨link, lastSeq⟩) with
    | (.ended, tailer, conn) =>
      if conn.link.slow then (conn.link.finish .normalClosure, conn)
      else
        let (accepted, link) := conn.link.enqueue pace (.caughtUp tailer.lastSeq)
        if !accepted then (link.finish .normalClosure, { conn with link := link })
        else
          let (_, conn) := RunConn.loop pace signals (tailer, { conn with link := link })
          (conn.link.finish .normalClosure, conn)
    | (.failed, _, conn) =>
      -- A teardown makes the read fail as well; only a failed read of a live connection is an error.
      (conn.link.finish (if conn.link.torn then .normalClosure else .internalError), conn)
    | (.reading, _, conn) => (conn.link.finish .normalClosure, conn)

end RunConn

variable {start lastSeq : Int}

section Events

def Frame.eventOf (runID : RunID) : Frame π → Option (Envelope π)
  | .event env _ => if env.runID = runID then some env else none
  | _ => none

def Link.eventsOf (runID : RunID) (link : Link π) : List (Envelope π × Bool) :=
  link.offered.filterMap fun offer => (offer.1.eventOf runID).map fun env => (env, offer.2)

/-- The numbers of the frames that carry an event of the run. -/
def Link.places (runID : RunID) (link : Link π) : List Nat :=
  link.offered.zipIdx.filterMap fun offer => (offer.1.1.eventOf runID).map fun _ => offer.2

theorem Paced.eventsOf {link : Link π} (paced : Paced pace buffer link) (runID : RunID) :
    (link.eventsOf runID).map (fun event => event.2) =
      (link.places runID).map (leavesRoom pace buffer) := by
  have numbered : link.eventsOf runID = link.offered.zipIdx.filterMap fun offer =>
      (offer.1.1.eventOf runID).map fun env => (env, offer.1.2) := by
    rw [Link.eventsOf]
    nth_rewrite 1 [← zipIdx_map_fst 0 link.offered]
    rw [filterMap_map]
    rfl
  rw [numbered, Link.places, map_filterMap, map_filterMap]
  refine filterMap_congr fun offer member => ?_
  rw [Option.map_map, Option.map_map]
  refine congrArg (Option.map · (offer.1.1.eventOf runID)) ?_
  funext env
  exact paced.answers offer member

def sentSeqs (runID : RunID) (frames : List (Frame π)) : List Int :=
  (frames.filterMap (Frame.eventOf runID)).map Envelope.seq

theorem sentSeqs_sent (runID : RunID) (link : Link π) : sentSeqs runID link.sent =
      ((link.eventsOf runID).filter fun event => event.2).map fun event => event.1.seq := by
  rw [sentSeqs, Link.sent, Link.eventsOf]
  induction link.offered with
  | nil => rfl
  | cons offer rest ih =>
    obtain ⟨frame, accepted⟩ := offer
    cases accepted <;> cases isEvent : frame.eventOf runID <;> simpa [isEvent] using ih

variable (pace : Nat → Pace)

theorem eventsOf_enqueue (runID : RunID) (frame : Frame π) (link : Link π) :
    (link.enqueue pace frame).2.eventsOf runID = link.eventsOf runID ++
      ((frame.eventOf runID).map fun env => (env, (link.enqueue pace frame).1)).toList := by
  rw [Link.eventsOf, Link.eventsOf, Link.enqueue]
  cases isEvent : frame.eventOf runID <;> simp [isEvent]

/-- The tail of a run has offered the events from its start to its cursor, one after the other. -/
structure Tailing (start : Int) (lastSeq : Int) (events : List (Envelope π × Bool)) : Prop where
  consecutive : Consecutive start (events.map fun event => event.1.seq)
  position : lastSeq = start + events.length

theorem Tailing.begin (start : Int) : Tailing start start ([] : List (Envelope π × Bool)) :=
  ⟨trivial, by simp⟩

theorem Tailing.extend (tailing : Tailing start lastSeq events)
    {more : List (Envelope π × Bool)} (consecutive : Consecutive lastSeq (taken.map Envelope.seq))
    (offers : more.map (fun event => event.1) = taken) :
    Tailing start (lastSeq + taken.length) (events ++ more) := by
  have seqs : more.map (fun event => event.1.seq) = taken.map Envelope.seq := by
    rw [← offers, map_map]
    rfl
  have count : more.length = taken.length := by
    rw [← offers, length_map]
  refine ⟨?_, ?_⟩
  · rw [map_append, Consecutive.append, length_map, ← tailing.position, seqs]
    exact ⟨tailing.consecutive, consecutive⟩
  · rw [tailing.position, length_append, count]
    push_cast
    omega

/-- The events of a run that the buffer took follow its start without a gap, so a client that has
received some of the frames has every event up to the highest it received. -/
structure Streamed (runID : RunID) (start : Int) (link : Link π) : Prop where
  consecutive : Consecutive start (sentSeqs runID link.sent)
  resumable : ∀ received, received <+: link.sent → ∀ seq, start < seq →
    (∃ highest ∈ sentSeqs runID received, seq ≤ highest) → seq ∈ sentSeqs runID received

theorem Streamed.of_consecutive {link : Link π}
    (consecutive : Consecutive start (sentSeqs runID link.sent)) : Streamed runID start link := by
  refine ⟨consecutive, ?_⟩
  rintro received ⟨_, whole⟩ seq above ⟨_, member, below⟩
  have first : Consecutive start (sentSeqs runID received) := by
    rw [← whole, sentSeqs, filterMap_append, map_append] at consecutive
    exact (Consecutive.append.mp consecutive).1
  have bound := (first.mem.mp member).2
  exact first.mem.mpr ⟨above, below.trans bound⟩

/-- Of the events that were offered, those that the buffer took are consecutive exactly when the
client leaves room for none of them after it left none for one. -/
theorem Tailing.streamed_iff {pace : Nat → Pace} {link : Link π} (paced : Paced pace buffer link)
    (tailing : Tailing start lastSeq (link.eventsOf runID)) :
    Streamed runID start link ↔ Steady (leavesRoom pace buffer) (link.places runID) := by
  have steady : Steady (leavesRoom pace buffer) (link.places runID) ↔
      Steady (fun event => event.2) (link.eventsOf runID) := by
    rw [Steady, ← pairwise_map (R := fun earlier later => later = true → earlier = true),
      ← paced.eventsOf, pairwise_map, Steady]
  rw [steady, ← consecutive_kept_iff tailing.consecutive, ← sentSeqs_sent]
  exact ⟨fun streamed => streamed.consecutive, .of_consecutive⟩

section Forwards

variable {σ : Type} {deliver : Envelope π → σ → σ} (linkOf : σ → Link π) (keeps : σ → Prop)

def Forwards (deliver : Envelope π → σ → σ) (runID : RunID) : Prop :=
  ∀ env state, env.runID = runID → keeps state → keeps (deliver env state) ∧
    ∃ accepted, (linkOf (deliver env state)).eventsOf runID =
      (linkOf state).eventsOf runID ++ [(env, accepted)]

variable {linkOf keeps}

theorem Forwards.all (offers : Forwards linkOf keeps deliver runID)
    (ofRun : ∀ env ∈ taken, env.runID = runID) (kept : keeps state) :
    keeps (deliverAll deliver taken state) ∧
      ∃ more, (linkOf (deliverAll deliver taken state)).eventsOf runID =
          (linkOf state).eventsOf runID ++ more ∧ more.map (fun event => event.1) = taken := by
  induction taken generalizing state with
  | nil => exact ⟨kept, [], by simp [deliverAll], rfl⟩
  | cons env rest ih =>
    obtain ⟨kept', accepted, offered⟩ := offers env state (ofRun env mem_cons_self) kept
    obtain ⟨kept'', more, offeredMore, exactly⟩ :=
      ih (fun other mem => ofRun other (mem_cons_of_mem _ mem)) kept'
    refine ⟨kept'', (env, accepted) :: more, ?_, by rw [map_cons, exactly]⟩
    rw [offered, append_assoc] at offeredMore
    exact offeredMore

theorem Forwards.took (offers : Forwards linkOf keeps deliver runID) {taken : List (Envelope π)}
    (ofRun : ∀ env ∈ taken, env.runID = runID) {state state' : Tailer × σ}
    (took : Took deliver taken state state') (kept : keeps state.2)
    (tailing : Tailing start state.1.lastSeq ((linkOf state.2).eventsOf runID)) :
    keeps state'.2 ∧ Tailing start state'.1.lastSeq ((linkOf state'.2).eventsOf runID) := by
  obtain ⟨kept', _, offered, exactly⟩ := offers.all ofRun kept
  rw [took.rest, took.lastSeq, offered]
  exact ⟨kept', tailing.extend took.consecutive exactly⟩

end Forwards

end Events

section RunSent

variable {pace : Nat → Pace} {buffer : Nat}

theorem RunConn.deliver_offers : Forwards (RunConn.link : RunConn π → Link π)
    (fun conn => Paced pace buffer conn.link) (RunConn.deliver pace) runID := by
  intro env conn ofRun paced
  refine ⟨paced.enqueue _, (conn.link.enqueue pace (.event env [])).1, ?_⟩
  rw [RunConn.deliver, eventsOf_enqueue, Frame.eventOf, if_pos ofRun]
  rfl

def RunSignal.reads : RunSignal π → List (Read π)
  | .live _ reads => reads
  | .resync reads => reads

structure RunTailing (pace : Nat → Pace) (buffer : Nat) (runID : RunID) (start : Int)
    (state : Tailer × RunConn π) : Prop where
  paced : Paced pace buffer state.2.link
  ofRun : state.1.runID = runID
  nonneg : 0 ≤ state.1.lastSeq
  tailing : Tailing start state.1.lastSeq (state.2.link.eventsOf runID)

theorem RunTailing.took {state state'}
    (tailing : RunTailing pace buffer runID start state) {taken : List (Envelope π)}
    (took : Took (RunConn.deliver pace) taken state state')
    (ofRun : ∀ env ∈ taken, env.runID = runID) : RunTailing pace buffer runID start state' := by
  obtain ⟨paced, tailing'⟩ := RunConn.deliver_offers.took ofRun took tailing.paced tailing.tailing
  exact ⟨paced, took.runID.trans tailing.ofRun, took.nonneg tailing.nonneg, tailing'⟩

theorem RunTailing.catchup {outcome : Outcome}
    (tailing : RunTailing pace buffer runID start state) {reads : List (Read π)}
    (committed : ∀ log, some log ∈ reads → Committed runID log)
    (called : Tailer.catchup (RunConn.deliver pace) reads state = (outcome, state')) :
    RunTailing pace buffer runID start state' := by
  obtain ⟨_, took, ofReads, _⟩ := catchup_took committed tailing.nonneg called
  refine tailing.took took fun env mem => ?_
  obtain ⟨log, read, logged⟩ := ofReads env mem
  exact (committed log read).ofRun env logged

theorem RunTailing.serve {state : Tailer × RunConn π} (tailing : RunTailing pace buffer runID start state)
    {signal : RunSignal π} (committed : ∀ log, some log ∈ signal.reads → Committed runID log) :
    RunTailing pace buffer runID start (RunConn.serve pace state signal) := by
  cases signal with
  | resync reads => exact tailing.catchup committed rfl
  | live env reads =>
    have called : Tailer.offer (RunConn.deliver pace) env reads state = (_, _) := rfl
    obtain ⟨_, took, ofReads⟩ := offer_took committed tailing.nonneg called
    refine tailing.took took fun other mem => ?_
    rcases ofReads other mem with ⟨rfl, ofTail⟩ | ⟨log, read, logged⟩
    · exact ofTail.trans tailing.ofRun
    · exact (committed log read).ofRun other logged

theorem RunTailing.loop
    (committed : ∀ signal ∈ signals, ∀ log, some log ∈ signal.reads → Committed runID log)
    {state : Tailer × RunConn π} (tailing : RunTailing pace buffer runID start state) :
    RunTailing pace buffer runID start (RunConn.loop pace signals state) := by
  induction signals generalizing state with
  | nil => exact tailing
  | cons signal rest ih =>
    rw [RunConn.loop]
    split
    · exact tailing
    · exact ih (fun other mem => committed other (mem_cons_of_mem _ mem))
        (tailing.serve (committed signal mem_cons_self))

theorem RunTailing.enqueue
    (tailing : RunTailing pace buffer runID start (tailer, conn)) {frame : Frame π}
    (plain : frame.eventOf runID = none) :
    RunTailing pace buffer runID start
      (tailer, { conn with link := (conn.link.enqueue pace frame).2 }) := by
  refine ⟨tailing.paced.enqueue frame, tailing.ofRun, tailing.nonneg, ?_⟩
  have same := eventsOf_enqueue pace runID frame conn.link
  rw [plain, Option.map_none, Option.toList_none, append_nil] at same
  rw [same]
  exact tailing.tailing

theorem RunConn.run_tailing (nonneg : 0 ≤ lastSeq) {backfill : List (Read π)}
    {signals : List (RunSignal π)} (committed : ∀ log, some log ∈ backfill → Committed runID log)
    (committedLater : ∀ signal ∈ signals, ∀ log, some log ∈ signal.reads → Committed runID log) :
    ∃ tailer, RunTailing pace buffer runID lastSeq
      (tailer, (RunConn.run pace buffer runID lastSeq backfill signals).2) := by
  have fresh : RunTailing pace buffer runID lastSeq
      (newTailer runID lastSeq wsBackfillPageSize, (⟨{ buffer := buffer }, lastSeq⟩ : RunConn π)) := by
    refine ⟨.begin pace buffer, newTailer_runID .., ?_, ?_⟩
    · rw [newTailer_lastSeq]
      exact nonneg
    · rw [newTailer_lastSeq]
      exact .begin lastSeq
  have greeted := fresh.enqueue (show Frame.snapshot.eventOf runID = none from rfl)
  rw [RunConn.run]
  cases offered : ({ buffer := buffer } : Link π).enqueue pace .snapshot with
  | mk accepted link =>
    rw [offered] at greeted
    dsimp only
    split_ifs
    · exact ⟨_, greeted⟩
    · cases called : Tailer.catchup (RunConn.deliver pace) backfill
          (newTailer runID lastSeq wsBackfillPageSize, ⟨link, lastSeq⟩) with
      | mk outcome state =>
        obtain ⟨tailer, _⟩ := state
        have filled := greeted.catchup committed called
        cases outcome with
        | failed => exact ⟨tailer, filled⟩
        | reading => exact ⟨tailer, filled⟩
        | ended =>
          dsimp only
          have announced := filled.enqueue
            (show (Frame.caughtUp tailer.lastSeq).eventOf runID = none from rfl)
          split_ifs
          · exact ⟨tailer, filled⟩
          · exact ⟨tailer, announced⟩
          · exact ⟨_, announced.loop committedLater⟩

end RunSent

end Agentloom.Api
