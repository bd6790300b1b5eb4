import Agentloom.Api.Firehose

/-! What the steps of a firehose connection are made of, and what reaches the client. -/

namespace Agentloom.Api

open Event Sequence

variable {server : Server}

variable {conn conn' : Conn} {runID : RunID} {env : EventEnvelope} {reads : RunID → Reads}
  {polls : Bool} {buffer : Nat}

namespace Conn

structure Undisturbed (conn conn' : Conn) : Prop where
  subs : conn'.subs = conn.subs
  tails : conn'.tails = conn.tails
  trackOrder : conn'.trackOrder = conn.trackOrder
  highWater : conn'.highWater = conn.highWater
  left : conn'.left = conn.left
  begun : conn'.begun = conn.begun

theorem Undisturbed.refl (conn : Conn) : Undisturbed conn conn := ⟨rfl, rfl, rfl, rfl, rfl, rfl⟩

theorem Undisturbed.trans (left : Undisturbed first second)
    (right : Undisturbed second third) : Undisturbed first third :=
  ⟨right.subs.trans left.subs, right.tails.trans left.tails, right.trackOrder.trans left.trackOrder,
    right.highWater.trans left.highWater, right.left.trans left.left, right.begun.trans left.begun⟩

theorem Undisturbed.tail? (same : Undisturbed conn conn') (runID : RunID) :
    conn'.tail? runID = conn.tail? runID := by
  rw [Conn.tail?, Conn.tail?, same.tails]

theorem asked_undisturbed (conn : Conn) : Undisturbed conn conn.asked :=
  ⟨rfl, rfl, rfl, rfl, rfl, rfl⟩

theorem deliverEvent_undisturbed (env : EventEnvelope) (conn : Conn) :
    Undisturbed conn (deliverEvent server env conn) := by
  unfold deliverEvent
  dsimp only
  split
  · exact asked_undisturbed conn
  · exact (asked_undisturbed conn).trans ⟨rfl, rfl, rfl, rfl, rfl, rfl⟩

theorem deliverAll_undisturbed (taken : List EventEnvelope) (conn : Conn) :
    Undisturbed conn (deliverAll (deliverEvent server) taken conn) := by
  induction taken generalizing conn with
  | nil => exact .refl conn
  | cons env rest ih => exact (deliverEvent_undisturbed env conn).trans (ih _)

theorem took_undisturbed (took : Took (deliverEvent server) taken state state') :
    Undisturbed state.2 state'.2 := by
  rw [took.rest]
  exact deliverAll_undisturbed taken state.2

theorem tail?_runID (tracked : conn.tail? runID = some tail) : tail.tailer.runID = runID := by
  simpa using List.find?_some tracked

theorem find?_map_tails (tails : List RunTail) (change : RunTail → RunTail)
    (same : ∀ tail, (change tail).tailer.runID = tail.tailer.runID) (runID : RunID) :
    (tails.map change).find? (fun tail => tail.tailer.runID == runID) =
      (tails.find? fun tail => tail.tailer.runID == runID).map change := by
  rw [List.find?_map]
  congr 2
  funext tail
  simp [same]

theorem tail?_setTailer (tailer : Tailer) (conn : Conn) (runID : RunID) :
    (conn.setTailer tailer).tail? runID =
      if runID = tailer.runID then (conn.tail? runID).map fun tail => { tail with tailer := tailer }
      else conn.tail? runID := by
  rw [tail?, setTailer, find?_map_tails _ _ (by intro tail; split <;> simp_all), ← tail?]
  cases found : conn.tail? runID with
  | none => simp
  | some tail =>
    have ofRun := tail?_runID found
    simp only [Option.map_some, ofRun]
    split <;> rfl

theorem tail?_markTerminal (env : EventEnvelope) (conn : Conn) (runID : RunID) :
    (conn.markTerminal env).tail? runID = (conn.tail? runID).map fun tail =>
      if env.payload.terminal ∧ runID = env.runID then { tail with terminal := true } else tail := by
  unfold markTerminal
  split
  · rename_i ends
    rw [tail?, find?_map_tails _ _ (by intro tail; split <;> rfl), ← tail?]
    cases found : conn.tail? runID with
    | none => rfl
    | some tail =>
      have ofRun := tail?_runID found
      simp only [Option.map_some, ofRun, ends, true_and]
  · rename_i continues
    cases conn.tail? runID <;> simp [continues]

theorem tail?_drop (dropped : RunID) (conn : Conn) (runID : RunID) :
    (conn.drop dropped).tail? runID = if runID = dropped then none else conn.tail? runID := by
  rw [tail?, drop, List.find?_filter]
  split
  · rename_i same
    subst same
    rw [List.find?_eq_none]
    intro tail _
    simp
  · rename_i other
    congr 1
    funext tail
    by_cases ofRun : tail.tailer.runID = runID <;> simp [ofRun, other]

theorem tail?_track (begun : RunID) (start : Int) (conn : Conn) (runID : RunID) :
    (conn.track begun start).tail? runID = (conn.tail? runID).or
      (if runID = begun then some { tailer := newTailer begun start wsBackfillPageSize } else none) := by
  rw [tail?, track, List.find?_append]
  congr 1
  by_cases same : runID = begun
  · simp [newTailer_runID, same]
  · simp [newTailer_runID, same, Ne.symm same]

def Sound (conn : Conn) : Prop :=
  ∀ runID tail, conn.tail? runID = some tail → 0 ≤ tail.tailer.lastSeq

/-- All that a step does between reading its message and looking at the next one. -/
inductive Move (server : Server) : Conn → Conn → Prop where
  | sent {conn : Conn} {frame : Frame EventType} (plain : ∀ runID, frame.eventOf runID = none) :
      Move server conn (conn.send server frame)
  | asked {conn : Conn} : Move server conn conn.asked
  | took {conn conn' : Conn} {tail : RunTail} {tailer : Tailer} {taken : List EventEnvelope}
      (tracked : conn.tail? tail.tailer.runID = some tail)
      (ofRun : ∀ env ∈ taken, env.runID = tail.tailer.runID)
      (took : Took (deliverEvent server) taken (tail.tailer, conn) (tailer, conn')) :
      Move server conn (conn'.setTailer tailer)
  | marked {conn : Conn} {env : EventEnvelope} : Move server conn (conn.markTerminal env)
  | dropped {conn : Conn} {runID : RunID} {order : List RunID} :
      Move server conn { conn.drop runID with trackOrder := order }
  | began {conn : Conn} {runID : RunID} {start : Int} (untracked : conn.tail? runID = none)
      (nonneg : 0 ≤ start) (listened : conn.subs ≠ []) : Move server conn (conn.track runID start)
  | raised {conn : Conn} {mark : Int} : Move server conn { conn with highWater := mark }

abbrev Moves (server : Server) : Conn → Conn → Prop := Relation.ReflTransGen (Move server)

theorem Move.subs (move : Move server conn conn') : conn'.subs = conn.subs := by
  cases move with
  | took _ _ took => exact (took_undisturbed took).subs
  | marked =>
    unfold markTerminal
    split <;> rfl
  | sent | asked | dropped | began | raised => rfl

theorem Moves.subs (moves : Moves server conn conn') : conn'.subs = conn.subs := by
  induction moves with
  | refl => rfl
  | tail _ move ih => exact move.subs.trans ih

theorem Move.sound (move : Move server conn conn') (sound : conn.Sound) : conn'.Sound := by
  intro runID tail tracked
  cases move with
  | sent | asked | raised => exact sound runID tail tracked
  | took before ofRun took =>
    rw [tail?_setTailer, (took_undisturbed took).tail?] at tracked
    split at tracked
    · obtain ⟨_, _, rfl⟩ := Option.map_eq_some_iff.mp tracked
      exact took.nonneg (sound _ _ before)
    · exact sound runID tail tracked
  | marked =>
    rw [tail?_markTerminal] at tracked
    obtain ⟨old, found, rfl⟩ := Option.map_eq_some_iff.mp tracked
    split <;> exact sound runID old found
  | @dropped dropped _ =>
    have tracked : (conn.drop dropped).tail? runID = some tail := tracked
    rw [tail?_drop] at tracked
    split at tracked
    · cases tracked
    · exact sound runID tail tracked
  | began _ nonneg _ =>
    rw [tail?_track] at tracked
    rcases Option.or_eq_some_iff.mp tracked with old | ⟨_, new⟩
    · exact sound runID tail old
    · split at new
      · cases new
        exact nonneg
      · cases new

theorem Moves.sound (moves : Moves server conn conn') (sound : conn.Sound) : conn'.Sound := by
  induction moves with
  | refl => exact sound
  | tail _ move ih => exact move.sound ih

theorem deliverAll_paced (paced : Paced server.pace buffer conn.link) (taken : List EventEnvelope) :
    Paced server.pace buffer (deliverAll (deliverEvent server) taken conn).link := by
  induction taken generalizing conn with
  | nil => exact paced
  | cons env rest ih =>
    refine ih ?_
    unfold deliverEvent
    dsimp only
    split
    · exact paced
    · exact paced.enqueue _

theorem Move.paced (move : Move server conn conn') (paced : Paced server.pace buffer conn.link) :
    Paced server.pace buffer conn'.link := by
  cases move with
  | sent _ => exact paced.enqueue _
  | asked | dropped | began | raised => exact paced
  | @took conn' _ _ taken _ _ took =>
    have rest : conn' = deliverAll (deliverEvent server) taken conn := took.rest
    rw [rest]
    exact deliverAll_paced paced taken
  | marked =>
    unfold markTerminal
    split <;> exact paced

theorem Moves.paced (moves : Moves server conn conn')
    (paced : Paced server.pace buffer conn.link) : Paced server.pace buffer conn'.link := by
  induction moves with
  | refl => exact paced
  | tail _ move ih => exact move.paced ih

theorem catchup_moves (sound : conn.Sound) {reads}
    (committed : ∀ log, some log ∈ reads → Committed runID log) :
    Moves server conn (conn.catchup server runID reads) := by
  rw [catchup]
  cases tracked : conn.tail? runID with
  | none => exact .refl
  | some tail =>
    have called : Tailer.catchup (deliverEvent server) reads (tail.tailer, conn) = (_, _, _) := rfl
    obtain ⟨_, took, ofReads, _⟩ := catchup_took committed (sound runID tail tracked) called
    obtain rfl := tail?_runID tracked
    refine .single (.took tracked (fun env mem => ?_) took)
    obtain ⟨log, read, logged⟩ := ofReads env mem
    exact (committed log read).ofRun env logged

theorem offer_moves (sound : conn.Sound) {reads}
    (committed : ∀ log, some log ∈ reads → Committed env.runID log) :
    Moves server conn (conn.offer server env reads) := by
  rw [offer]
  cases tracked : conn.tail? env.runID with
  | none => exact .refl
  | some tail =>
    have called : Tailer.offer (deliverEvent server) env reads (tail.tailer, conn) = (_, _, _) := rfl
    obtain ⟨_, took, ofReads⟩ := offer_took committed (sound env.runID tail tracked) called
    have isRun := tail?_runID tracked
    rw [← isRun] at tracked
    refine .tail (.single (.took tracked (fun other mem => ?_) took)) .marked
    rw [isRun]
    rcases ofReads other mem with ⟨rfl, _⟩ | ⟨log, read, logged⟩
    · rfl
    · exact (committed log read).ofRun other logged

theorem evictOne_moves (conn : Conn) : Moves server conn conn.evictOne := by
  unfold evictOne
  split
  · exact .single .dropped
  · split
    · exact .single .dropped
    · exact .refl

theorem makeRoom_tail? (runID : RunID) (conn : Conn) :
    (conn.makeRoom server).tail? runID = conn.tail? runID ∨
      (conn.makeRoom server).tail? runID = none := by
  have dropped (other : RunID) (order : List RunID) :
      ({ conn.drop other with trackOrder := order } : Conn).tail? runID = conn.tail? runID ∨
        ({ conn.drop other with trackOrder := order } : Conn).tail? runID = none := by
    have same : ({ conn.drop other with trackOrder := order } : Conn).tail? runID =
      (conn.drop other).tail? runID := rfl
    rw [same, tail?_drop]
    split
    · exact .inr rfl
    · exact .inl rfl
  unfold makeRoom evictOne
  split
  · split
    · exact dropped _ _
    · split
      · exact dropped _ _
      · exact .inl rfl
  · exact .inl rfl

theorem makeRoom_moves (conn : Conn) : Moves server conn (conn.makeRoom server) := by
  unfold makeRoom
  split
  · exact evictOne_moves conn
  · exact .refl

theorem makeRoom_untracked (untracked : conn.tail? runID = none) :
    (conn.makeRoom server).tail? runID = none :=
  (makeRoom_tail? runID conn).elim (fun same => same.trans untracked) id

theorem track_moves (listened : conn.subs ≠ []) (untracked : ¬(conn.tail? runID).isSome = true) :
    Moves server conn ((conn.makeRoom server).track runID (max start 0)) := by
  have cleared : Moves server conn (conn.makeRoom server) := makeRoom_moves conn
  have absent := Option.not_isSome_iff_eq_none.mp untracked
  refine cleared.tail (.began (makeRoom_untracked absent) (le_max_right _ _) ?_)
  rw [cleared.subs]
  exact listened

theorem startTailAt_moves (sound : conn.Sound) (listened : conn.subs ≠ []) {start reads}
    (committed : ∀ log, some log ∈ reads → Committed runID log) :
    Moves server conn (conn.startTailAt server runID start reads) := by
  unfold startTailAt
  split
  · exact .refl
  · rename_i untracked
    have begun : Moves server conn ((conn.makeRoom server).track runID (max start 0)) :=
      track_moves listened untracked
    exact begun.trans (catchup_moves (begun.sound sound) committed)

theorem gcTail_moves (conn : Conn) (runID : RunID) : Moves server conn (gcTail server conn runID) := by
  unfold gcTail
  split
  · exact .single .asked
  · exact .tail (.single .asked) .dropped

theorem foldl_moves {ι : Type} {change} {items : List ι} (sound : conn.Sound)
    (moves : ∀ item ∈ items, ∀ conn : Conn, conn.Sound → Moves server conn (change conn item)) :
    Moves server conn (items.foldl change conn) := by
  induction items generalizing conn with
  | nil => exact .refl
  | cons item rest ih =>
    have first := moves item List.mem_cons_self conn sound
    exact first.trans (ih (first.sound sound) fun other mem =>
      moves other (List.mem_cons_of_mem _ mem))

theorem gcTails_moves (sound : conn.Sound) : Moves server conn (conn.gcTails server) :=
  foldl_moves sound fun runID _ conn _ => gcTail_moves conn runID

def ReadsCommitted (reads : RunID → Reads) : Prop :=
  ∀ runID log, some log ∈ reads runID → Committed runID log

theorem resume_moves (committed : ReadsCommitted reads) (cursors : List (RunID × Int))
    (sound : state.1.Sound) (listened : state.1.subs ≠ []) :
    Moves server state.1 (cursors.foldl (resumeRun server reads) state).1 := by
  induction cursors generalizing state with
  | nil => exact .refl
  | cons cursor rest ih =>
    have first : Moves server state.1 (resumeRun server reads state cursor).1 :=
      startTailAt_moves sound listened (committed cursor.1)
    exact first.trans (ih (first.sound sound) (by rw [first.subs]; exact listened))

theorem wantsRun_listened {runMeta} (wants : conn.wantsRun runID runMeta = true) :
    conn.subs ≠ [] := by
  intro none
  simp [wantsRun, none] at wants

theorem onLiveEnvelope_moves (sound : conn.Sound) {backfill reads : Reads}
    (committed : ∀ log, some log ∈ backfill → Committed env.runID log)
    (committed' : ∀ log, some log ∈ reads → Committed env.runID log) :
    Moves server conn (conn.onLiveEnvelope server env backfill reads) := by
  unfold onLiveEnvelope
  split
  · exact offer_moves sound committed'
  · split
    · rename_i wants
      have started : Moves server conn (conn.asked.startTailAt server env.runID
          ((conn.minCursor env.runID).getD 0) backfill) :=
        .trans (.single .asked) (startTailAt_moves (show conn.asked.Sound from sound)
          (wantsRun_listened wants) committed)
      exact started.trans (offer_moves (started.sound sound) committed')
    · exact .single .asked

theorem healOne_moves (sound : conn.Sound) (committed : ReadsCommitted reads) (runID : RunID) :
    Moves server conn (healOne server reads conn runID) := by
  unfold healOne
  split
  · split
    · exact .refl
    · exact catchup_moves sound (committed runID)
  · exact .refl

theorem heal_moves (sound : conn.Sound) {order : List RunID} (committed : ReadsCommitted reads) :
    Moves server conn (conn.heal server order reads) :=
  foldl_moves sound fun runID _ _ sound => healOne_moves sound committed runID

theorem discover_moves (sound : conn.Sound) (committed : ReadsCommitted reads) (run : RunListing) :
    Moves server conn (discover server reads conn run) := by
  unfold discover
  dsimp only
  have raised : Moves server conn { conn with highWater := max conn.highWater run.createdAt } :=
    .single .raised
  split
  · exact raised
  · split
    · rename_i wants
      exact raised.trans (startTailAt_moves (raised.sound sound) (wantsRun_listened wants)
        (committed run.id))
    · exact raised

theorem discoverNewRuns_moves (sound : conn.Sound) {visible : Option (List RunListing)}
    (committed : ReadsCommitted reads) :
    Moves server conn (conn.discoverNewRuns server visible reads) := by
  cases visible with
  | none => exact .refl
  | some visible => exact foldl_moves sound fun run _ conn sound => discover_moves sound committed run

theorem resync_moves (sound : conn.Sound) (committed : ReadsCommitted reads)
    (committed' : ReadsCommitted backfill) :
    Moves server conn (conn.resync server polls order reads visible backfill) := by
  have healed : Moves server conn (conn.heal server order reads) := heal_moves sound committed
  unfold resync
  split
  · exact healed.trans (discoverNewRuns_moves (healed.sound sound) committed')
  · exact healed

theorem onSubscribe_cases {id filter cursors} :
    (∃ code message, conn.onSubscribe server id filter cursors reads =
      conn.sendError server id code message) ∨
    ∃ compiled resumed, compileFilter server filter = .ok compiled ∧
      parseCursors server cursors = .ok resumed ∧
      conn.onSubscribe server id filter cursors reads =
        let started := resumed.foldl (resumeRun server reads)
          ((conn.install ⟨id, compiled, resumed⟩).send server (.subscribed id filter), [])
        started.1.send server (.resumed id started.2) := by
  unfold onSubscribe
  split_ifs
  · exact .inl ⟨_, _, rfl⟩
  · exact .inl ⟨_, _, rfl⟩
  · split
    · exact .inl ⟨_, _, rfl⟩
    · rename_i compiled isCompiled
      split
      · exact .inl ⟨_, _, rfl⟩
      · rename_i resumed isResumed
        exact .inr ⟨compiled, resumed, isCompiled, isResumed, rfl⟩

def Unfiltered (conn : Conn) : Prop := ∀ sub ∈ conn.subs, sub.filter = {}

def Served (conn : Conn) : Prop := ∀ runID, (conn.tail? runID).isSome → conn.subs ≠ []

/-- A tail of the run that is begun again begins where the one before it stood. -/
def Seamless (runID : RunID) (conn : Conn) : Prop :=
  ∀ start stood, (runID, start, some stood) ∈ conn.begun → start = stood

/-- Where the tail of a run stands, or stood when it was dropped. -/
def stand (runID : RunID) (conn : Conn) : Option Int :=
  ((conn.tail? runID).map fun tail => tail.tailer.lastSeq).or (conn.left.lookup runID)

/-- The events of a run from where its tail first began were offered, as long as it is seamless. -/
def Streaming (runID : RunID) (conn : Conn) : Prop :=
  conn.Seamless runID → ∃ start, 0 ≤ start ∧
    match conn.stand runID with
    | none => conn.link.eventsOf runID = []
    | some lastSeq => Tailing start lastSeq (conn.link.eventsOf runID)

theorem deliverEvent_offers (runID : RunID) :
    Forwards Conn.link (fun conn => conn.subs ≠ [] ∧ conn.Unfiltered) (deliverEvent server) runID := by
  intro env conn ofRun kept
  obtain ⟨listened, unfiltered⟩ := kept
  have same : Undisturbed conn (deliverEvent server env conn) := deliverEvent_undisturbed env conn
  refine ⟨⟨by rw [same.subs]; exact listened, by rw [Unfiltered, same.subs]; exact unfiltered⟩, ?_⟩
  have matched : (conn.subs.filter fun sub => sub.filter.matches env (conn.runMeta server env.runID)) =
      conn.subs := by
    refine List.filter_eq_self.mpr fun sub mem => ?_
    rw [unfiltered sub mem]
    rfl
  have sends : deliverEvent server env conn = conn.asked.send server
      (.event env ((conn.subs.map Subscription.id).insertionSort (· ≤ ·))) := by
    unfold deliverEvent
    dsimp only
    rw [matched, if_neg (by simpa using listened)]
  refine ⟨(conn.asked.link.enqueue server.pace
    (.event env ((conn.subs.map Subscription.id).insertionSort (· ≤ ·)))).1, ?_⟩
  rw [sends, send, eventsOf_enqueue, Frame.eventOf, if_pos ofRun]
  rfl

theorem deliverAll_eventsOf_other (other : ∀ env ∈ taken, env.runID ≠ runID) (conn : Conn) :
    (deliverAll (deliverEvent server) taken conn).link.eventsOf runID = conn.link.eventsOf runID := by
  induction taken generalizing conn with
  | nil => rfl
  | cons env rest ih =>
    refine (ih (fun later mem => other later (List.mem_cons_of_mem _ mem)) _).trans ?_
    unfold deliverEvent
    dsimp only
    split
    · rfl
    · rw [send, eventsOf_enqueue, Frame.eventOf, if_neg (other env List.mem_cons_self)]
      exact List.append_nil _

theorem Streaming.congr (streaming : Streaming runID conn) (begun : conn'.begun = conn.begun)
    (stands : conn'.stand runID = conn.stand runID)
    (events : conn'.link.eventsOf runID = conn.link.eventsOf runID) : Streaming runID conn' := by
  unfold Streaming Seamless
  rw [begun, stands, events]
  exact streaming

theorem stand_drop (dropped : RunID) (conn : Conn) (runID : RunID) :
    (conn.drop dropped).stand runID = conn.stand runID := by
  rw [stand, tail?_drop, stand, drop]
  by_cases same : runID = dropped
  · subst same
    cases conn.tail? runID <;> simp
  · have differs : (runID == dropped) = false := by simpa using same
    cases conn.tail? dropped <;> simp [same, List.lookup_cons, differs]

theorem Streaming.drop (streaming : Streaming runID conn) (dropped : RunID) (order : List RunID) :
    Streaming runID { conn.drop dropped with trackOrder := order } :=
  streaming.congr rfl (stand_drop dropped conn runID) rfl

theorem send_eventsOf (plain : frame.eventOf runID = none) (conn : Conn) :
    (conn.send server frame).link.eventsOf runID = conn.link.eventsOf runID := by
  rw [send, eventsOf_enqueue, plain]
  exact List.append_nil _

theorem Move.served (move : Move server conn conn') (served : conn.Served) : conn'.Served := by
  intro runID tracked
  rw [move.subs]
  cases move with
  | sent | asked | raised => exact served runID tracked
  | took before _ _ => exact served _ (Option.isSome_of_eq_some before)
  | marked =>
    rw [tail?_markTerminal, Option.isSome_map] at tracked
    exact served runID tracked
  | @dropped dropped _ =>
    have tracked : ((conn.drop dropped).tail? runID).isSome := tracked
    rw [tail?_drop] at tracked
    split at tracked
    · cases tracked
    · exact served runID tracked
  | began _ _ listened => exact listened

theorem Move.streaming (move : Move server conn conn') (served : conn.Served)
    (unfiltered : conn.Unfiltered) (streaming : Streaming runID conn) : Streaming runID conn' := by
  cases move with
  | sent plain => exact streaming.congr rfl rfl (send_eventsOf (plain runID) conn)
  | asked | raised => exact streaming.congr rfl rfl rfl
  | @took conn' tail tailer taken tracked ofRun took =>
    have same := took_undisturbed took
    have isRun : tailer.runID = tail.tailer.runID := took.runID
    by_cases ofTail : tail.tailer.runID = runID
    · subst ofTail
      intro seamless
      have seamless : conn.Seamless tail.tailer.runID := by
        unfold Seamless at seamless ⊢
        rw [← same.begun]
        exact seamless
      obtain ⟨start, nonneg, tailing⟩ := streaming seamless
      rw [stand, tracked] at tailing
      obtain ⟨_, tailing'⟩ :=
        (deliverEvent_offers tail.tailer.runID).took ofRun took
          ⟨served _ (Option.isSome_of_eq_some tracked), unfiltered⟩ tailing
      refine ⟨start, nonneg, ?_⟩
      rw [stand, tail?_setTailer, same.tail?, if_pos isRun.symm, tracked]
      exact tailing'
    · refine streaming.congr same.begun ?_ ?_
      · rw [stand, tail?_setTailer, same.tail?,
          if_neg (fun isOther => ofTail (isRun ▸ isOther.symm)), stand]
        exact congrArg (fun left => Option.or _ (List.lookup runID left)) same.left
      · have other : ∀ env ∈ taken, env.runID ≠ runID := by
          intro env mem isOther
          exact ofTail ((ofRun env mem).symm.trans isOther)
        have events : conn'.link.eventsOf runID = conn.link.eventsOf runID := by
          have rest : conn' = _ := took.rest
          rw [rest]
          exact deliverAll_eventsOf_other other conn
        exact events
  | @marked env =>
    have same : (conn.markTerminal env).begun = conn.begun ∧
        (conn.markTerminal env).left = conn.left ∧ (conn.markTerminal env).link = conn.link := by
      unfold markTerminal
      split <;> exact ⟨rfl, rfl, rfl⟩
    refine streaming.congr same.1 ?_ (by rw [same.2.2])
    rw [stand, tail?_markTerminal, same.2.1, stand]
    cases conn.tail? runID with
    | none => rfl
    | some tail =>
      dsimp only [Option.map_some]
      split <;> rfl
  | dropped => exact streaming.drop _ _
  | @began begun start untracked nonneg _ =>
    intro seamless
    have earlier : conn.Seamless runID := by
      intro position stood member
      exact seamless position stood (List.mem_cons_of_mem _ member)
    obtain ⟨first, firstNonneg, tailing⟩ := streaming earlier
    rw [stand] at tailing
    rw [stand, tail?_track]
    by_cases isRun : runID = begun
    · subst isRun
      rw [untracked, Option.map_none, Option.none_or] at tailing
      rw [untracked, Option.none_or, if_pos rfl, Option.map_some, Option.some_or, newTailer_lastSeq]
      cases before : conn.left.lookup runID with
      | none =>
        rw [before] at tailing
        refine ⟨start, nonneg, ?_⟩
        change Tailing start start (conn.link.eventsOf runID)
        rw [show conn.link.eventsOf runID = [] from tailing]
        exact .begin start
      | some stood =>
        rw [before] at tailing
        have again : start = stood := seamless start stood (before ▸ List.mem_cons_self)
        exact ⟨first, firstNonneg, again ▸ tailing⟩
    · rw [if_neg isRun, Option.or_none]
      exact ⟨first, firstNonneg, tailing⟩

theorem gcTail_streaming (streaming : Streaming runID conn) (other : RunID) :
    Streaming runID (gcTail server conn other) := by
  have asked : Streaming runID conn.asked := streaming.congr rfl rfl rfl
  unfold gcTail
  split
  · exact asked
  · exact asked.drop other _

theorem gcTails_streaming (streaming : Streaming runID conn) :
    Streaming runID (conn.gcTails server) := by
  unfold gcTails
  generalize (conn.tails.map fun tail => tail.tailer.runID) = runIDs
  induction runIDs generalizing conn with
  | nil => exact streaming
  | cons other rest ih => exact ih (gcTail_streaming streaming other)

theorem gcTails_unserved (unserved : conn.subs = []) (runID : RunID) :
    (conn.gcTails server).tail? runID = none := by
  have survives (runIDs : List RunID) : ∀ conn : Conn, conn.subs = [] →
      ((runIDs.foldl (gcTail server) conn).tail? runID).isSome →
      (conn.tail? runID).isSome ∧ runID ∉ runIDs := by
    induction runIDs with
    | nil =>
      intro conn _ tracked
      exact ⟨tracked, List.not_mem_nil⟩
    | cons other rest ih =>
      intro conn unserved tracked
      have drops : gcTail server conn other = conn.asked.drop other := by
        rw [gcTail, wantsRun, unserved]
        rfl
      rw [List.foldl_cons, drops] at tracked
      obtain ⟨found, absent⟩ := ih (conn.asked.drop other) unserved tracked
      rw [tail?_drop] at found
      split at found
      · cases found
      · rename_i differs
        exact ⟨found, by simpa using ⟨differs, absent⟩⟩
  cases left : (conn.gcTails server).tail? runID with
  | none => rfl
  | some tail =>
    obtain ⟨found, absent⟩ := survives _ conn unserved (by rw [← gcTails, left]; rfl)
    obtain ⟨tail', tracked⟩ := Option.isSome_iff_exists.mp found
    refine absurd (List.mem_map.mpr ⟨tail', List.mem_of_find?_eq_some tracked, ?_⟩) absent
    exact tail?_runID tracked

structure Listening (server : Server) (buffer : Nat) (runID : RunID) (conn : Conn) : Prop where
  paced : Paced server.pace buffer conn.link
  sound : conn.Sound
  unfiltered : conn.Unfiltered
  served : conn.Served
  streaming : Streaming runID conn

theorem Listening.move (listening : Listening server buffer runID conn) (move : Move server conn conn') :
    Listening server buffer runID conn' := by
  refine ⟨move.paced listening.paced, move.sound listening.sound, ?_, move.served listening.served,
    move.streaming listening.served listening.unfiltered listening.streaming⟩
  rw [Unfiltered, move.subs]
  exact listening.unfiltered

theorem Listening.moves (listening : Listening server buffer runID conn)
    (moves : Moves server conn conn') :
    Listening server buffer runID conn' := by
  induction moves with
  | refl => exact listening
  | tail _ move ih => exact ih.move move

theorem Listening.send (listening : Listening server buffer runID conn)
    (plain : frame.eventOf runID = none) : Listening server buffer runID (conn.send server frame) :=
  ⟨listening.paced.enqueue frame, listening.sound, listening.unfiltered, listening.served,
    listening.streaming.congr rfl rfl (send_eventsOf plain conn)⟩

theorem compileFilter_empty (isCompiled : compileFilter server {} = .ok compiled) :
    compiled = {} := by
  have computed : compileFilter server {} = .ok {} := rfl
  exact Except.ok.inj (isCompiled.symm.trans computed)

theorem Listening.onSubscribe (listening : Listening server buffer runID conn) {id cursors}
    (committed : ReadsCommitted reads) :
    Listening server buffer runID (conn.onSubscribe server id {} cursors reads) := by
  rcases onSubscribe_cases with ⟨_, _, refused⟩ |
      ⟨_, resumed, isCompiled, _, installed⟩
  · rw [refused]
    exact listening.send rfl
  · rw [installed]
    obtain rfl := compileFilter_empty isCompiled
    have added : Listening server buffer runID (conn.install ⟨id, {}, resumed⟩) := by
      refine ⟨listening.paced, listening.sound, ?_, fun _ _ => List.cons_ne_nil _ _,
        listening.streaming.congr rfl rfl rfl⟩
      intro sub mem
      rcases List.mem_cons.mp mem with rfl | old
      · rfl
      · exact listening.unfiltered sub (List.mem_filter.mp old).1
    have greeted : Listening server buffer runID
        ((conn.install ⟨id, {}, resumed⟩).send server (.subscribed id {})) := added.send rfl
    have moves : Moves server _ (resumed.foldl (resumeRun server reads)
        ((conn.install ⟨id, {}, resumed⟩).send server (.subscribed id {}), [])).1 :=
      resume_moves committed resumed greeted.sound (List.cons_ne_nil _ _)
    exact (greeted.moves moves).send rfl

theorem Listening.onUnsubscribe (listening : Listening server buffer runID conn) (id : String) :
    Listening server buffer runID (conn.onUnsubscribe server id) := by
  unfold Conn.onUnsubscribe
  split
  · have kept : Streaming runID (({ conn with subs := conn.subs.filter fun sub =>
    sub.id != id } : Conn).send
        server (.unsubscribed id)) :=
      Streaming.congr (listening.streaming.congr rfl rfl rfl) rfl rfl (send_eventsOf rfl _)
    have sound : Sound (({ conn with subs := conn.subs.filter fun sub => sub.id != id } : Conn).send
        server (.unsubscribed id)) := listening.sound
    have moves : Moves server _ _ := gcTails_moves sound
    refine ⟨moves.paced (listening.paced.enqueue _), moves.sound sound, ?_, ?_, gcTails_streaming kept⟩
    · rw [Unfiltered, moves.subs]
      exact fun sub mem => listening.unfiltered sub (List.mem_filter.mp mem).1
    · intro other tracked unserved
      rw [moves.subs] at unserved
      simp [gcTails_unserved unserved] at tracked
  · exact listening.send rfl

end Conn

def Signal.ReadsCommitted : Signal → Prop
  | .control _ reads => Conn.ReadsCommitted reads
  | .live env backfill reads =>
    (∀ log, some log ∈ backfill → Committed env.runID log) ∧
      ∀ log, some log ∈ reads → Committed env.runID log
  | .resync _ reads _ backfill => Conn.ReadsCommitted reads ∧ Conn.ReadsCommitted backfill

def Signal.Unfiltered : Signal → Prop
  | .control (.subscribe _ filter _) _ => filter = {}
  | _ => True

namespace Conn

theorem onControl_moves (sound : conn.Sound) (committed : ReadsCommitted reads)
    (message : Control) :
    ∃ subs, Moves server { conn with subs := subs } (conn.onControl server reads message) := by
  have refused (code text id : String) :
      ∃ subs, Moves server { conn with subs := subs } (conn.sendError server id code text) :=
    ⟨conn.subs, .single (.sent fun _ => rfl)⟩
  cases message with
  | malformed => exact refused _ _ _
  | unknown type id => exact refused _ _ _
  | unsubscribe id =>
    change ∃ subs, Moves server _ (conn.onUnsubscribe server id)
    unfold onUnsubscribe
    split
    · refine ⟨conn.subs.filter fun sub => sub.id != id, ?_⟩
      have sent : Moves server { conn with subs := conn.subs.filter fun sub => sub.id != id }
          (({ conn with subs := conn.subs.filter fun sub => sub.id != id } : Conn).send server
            (.unsubscribed id)) := .single (.sent fun _ => rfl)
      exact sent.trans (gcTails_moves sound)
    · exact refused _ _ _
  | subscribe id filter cursors =>
    change ∃ subs, Moves server _ (conn.onSubscribe server id filter cursors reads)
    rcases onSubscribe_cases with ⟨_, _, isRefused⟩ | ⟨compiled, resumed, _, _, installed⟩
    · rw [isRefused]
      exact refused _ _ _
    · rw [installed]
      refine ⟨(conn.install ⟨id, compiled, resumed⟩).subs, ?_⟩
      have greeted : Moves server (conn.install ⟨id, compiled, resumed⟩)
          ((conn.install ⟨id, compiled, resumed⟩).send server (.subscribed id filter)) :=
        .single (.sent fun _ => rfl)
      have started : Moves server _ (resumed.foldl (resumeRun server reads)
          ((conn.install ⟨id, compiled, resumed⟩).send server (.subscribed id filter), [])).1 :=
        resume_moves committed resumed sound (List.cons_ne_nil _ _)
      exact (greeted.trans started).tail (.sent fun _ => rfl)

theorem step_moves (sound : conn.Sound) (committed : signal.ReadsCommitted) :
    ∃ subs, Moves server { conn with subs := subs } (conn.step server polls signal) := by
  unfold step
  split
  · exact ⟨conn.subs, .refl⟩
  · cases signal with
    | control message reads => exact onControl_moves sound committed message
    | live env backfill reads => exact ⟨conn.subs, onLiveEnvelope_moves sound committed.1 committed.2⟩
    | resync order reads visible backfill =>
      exact ⟨conn.subs, resync_moves sound committed.1 committed.2⟩

theorem run_sound (committed : ∀ signal ∈ signals, signal.ReadsCommitted)
    (sound : conn.Sound) : (conn.run server polls signals).Sound := by
  induction signals generalizing conn with
  | nil => exact sound
  | cons signal rest ih =>
    obtain ⟨_, moves⟩ := step_moves sound (committed signal List.mem_cons_self)
    exact ih (fun other mem => committed other (List.mem_cons_of_mem _ mem)) (moves.sound sound)

theorem run_paced (committed : ∀ signal ∈ signals, signal.ReadsCommitted) (sound : conn.Sound)
    (paced : Paced server.pace buffer conn.link) :
    Paced server.pace buffer (conn.run server polls signals).link := by
  induction signals generalizing conn with
  | nil => exact paced
  | cons signal rest ih =>
    obtain ⟨_, moves⟩ := step_moves sound (committed signal List.mem_cons_self)
    exact ih (fun other mem => committed other (List.mem_cons_of_mem _ mem)) (moves.sound sound)
      (moves.paced paced)

theorem opened_sound (buffer : Nat) (now : Int) : (opened buffer now).Sound := by
  intro _ _ tracked
  cases tracked

theorem Listening.serve (listening : Listening server buffer runID conn)
    (unfiltered : signal.Unfiltered) (committed : signal.ReadsCommitted) :
    Listening server buffer runID (conn.serve server polls signal) := by
  cases signal with
  | control message reads =>
    cases message with
    | unsubscribe id => exact listening.onUnsubscribe id
    | subscribe id filter cursors =>
      obtain rfl : filter = {} := unfiltered
      exact listening.onSubscribe committed
    | _ => exact listening.send rfl
  | live env backfill reads =>
    exact listening.moves (onLiveEnvelope_moves listening.sound committed.1 committed.2)
  | resync order reads visible backfill =>
    exact listening.moves (resync_moves listening.sound committed.1 committed.2)

theorem Listening.run (unfiltered : ∀ signal ∈ signals, signal.Unfiltered)
    (committed : ∀ signal ∈ signals, signal.ReadsCommitted)
    (listening : Listening server buffer runID conn) :
    Listening server buffer runID (conn.run server polls signals) := by
  induction signals generalizing conn with
  | nil => exact listening
  | cons signal rest ih =>
    refine ih (fun other mem => unfiltered other (List.mem_cons_of_mem _ mem))
      (fun other mem => committed other (List.mem_cons_of_mem _ mem)) ?_
    unfold step
    split
    · exact listening
    · exact listening.serve (unfiltered signal List.mem_cons_self)
        (committed signal List.mem_cons_self)

theorem Listening.opened (runID : RunID) (buffer : Nat) (now : Int) :
    Listening server buffer runID (Conn.opened buffer now) := by
  refine ⟨.begin server.pace buffer, opened_sound buffer now, ?_, ?_, ?_⟩
  · intro _ mem
    cases mem
  · intro _ tracked
    cases tracked
  · exact fun _ => ⟨0, le_refl 0, rfl⟩

end Conn

/-- A connection streams a run without a gap exactly when its client leaves room for no event of the
run after it left none for one; on a firehose as long as a tail of the run that is begun again begins
where the one before it stood. -/
theorem streamed_iff_steady (buffer : Nat) (runID : RunID) :
    (∀ (π : Type) (pace : Nat → Pace) (lastSeq : Int) (backfill : List (Read π))
        (signals : List (RunSignal π)), 0 ≤ lastSeq →
        (∀ log, some log ∈ backfill → Committed runID log) →
        (∀ signal ∈ signals, ∀ log, some log ∈ signal.reads → Committed runID log) →
        let link := (RunConn.run pace buffer runID lastSeq backfill signals).2.link
        Streamed runID lastSeq link ↔ Steady (leavesRoom pace buffer) (link.places runID)) ∧
    ∀ (server : Server) (polls : Bool) (now : Int) (signals : List Signal),
        (∀ signal ∈ signals, signal.Unfiltered) →
        (∀ signal ∈ signals, signal.ReadsCommitted) →
        let conn := (Conn.opened buffer now).run server polls signals
        conn.Seamless runID → ∃ start, 0 ≤ start ∧
          Consecutive start ((conn.link.eventsOf runID).map fun event => event.1.seq) ∧
          (Streamed runID start conn.link ↔
            Steady (leavesRoom server.pace buffer) (conn.link.places runID)) := by
  refine ⟨?_, ?_⟩
  · intro π pace lastSeq backfill signals nonneg committed committedLater
    obtain ⟨_, tailing⟩ := RunConn.run_tailing nonneg committed committedLater
    exact tailing.tailing.streamed_iff tailing.paced
  · intro server polls now signals unfiltered committed conn seamless
    have listening : Conn.Listening server buffer runID conn :=
      (Conn.Listening.opened runID buffer now).run unfiltered committed
    obtain ⟨start, nonneg, offered⟩ := listening.streaming seamless
    obtain ⟨_, tailing⟩ : ∃ lastSeq, Tailing start lastSeq (conn.link.eventsOf runID) := by
      cases stands : conn.stand runID with
      | none =>
        rw [stands] at offered
        exact ⟨start, offered ▸ .begin start⟩
      | some lastSeq =>
        rw [stands] at offered
        exact ⟨lastSeq, offered⟩
    exact ⟨start, nonneg, tailing.consecutive, tailing.streamed_iff listening.paced⟩

def threeEvents : List EventEnvelope := [⟨7, 1, .runCreated⟩, ⟨7, 2, .stepReady⟩, ⟨7, 3, .stepClaimed⟩]

theorem threeEvents_committed : Committed 7 threeEvents := ⟨by decide, by decide⟩

def promptServer : Server where
  maxSubscriptions := 16
  maxCursorRuns := 256
  maxTrackedRuns := 2048
  parseUUID := fun text => if text = "7" then some 7 else none
  metaOf := fun _ => {}
  resolves := fun _ => true
  pace := fun _ => { drained := 1 }

def onSeven (log : List EventEnvelope) : RunID → List EventEnvelope :=
  fun runID => if runID = 7 then log else []

theorem onSeven_committed (committed : Committed 7 log) (runID : RunID) :
    Committed runID (onSeven log runID) := by
  unfold onSeven
  split
  · rename_i isSeven
    exact isSeven ▸ committed
  · exact ⟨nofun, trivial⟩

def readSeven (log : List EventEnvelope) : RunID → Reads := fun runID => [some (onSeven log runID)]

theorem readSeven_committed (committed : Committed 7 log) : Conn.ReadsCommitted (readSeven log) := by
  intro runID read isRead
  obtain rfl : read = onSeven log runID := Option.some.inj (List.mem_singleton.mp isRead)
  exact onSeven_committed committed runID

def runSevenLog : RunID → List EventEnvelope := onSeven threeEvents

def runSevenReads : RunID → Reads := readSeven threeEvents

theorem runSevenReads_committed : Conn.ReadsCommitted runSevenReads :=
  readSeven_committed threeEvents_committed

def firstSubscribe : Signal := .control (.subscribe "a" {} [("7", 0)]) runSevenReads

def fourEvents : List EventEnvelope := threeEvents ++ [⟨7, 4, .stepReady⟩]

/-- The client leaves, and comes back for what was committed meanwhile. -/
def leaveAndReturn : List Signal :=
  [firstSubscribe, .control (.unsubscribe "a") runSevenReads,
    .control (.subscribe "a" {} [("7", 3)]) (readSeven fourEvents)]

theorem leaveAndReturn_seamless :
    ((Conn.opened 256 0).run promptServer false leaveAndReturn).Seamless 7 := by
  have begun : ((Conn.opened 256 0).run promptServer false leaveAndReturn).begun =
      [(7, 3, some 3), (7, 0, none)] := by
    decide +kernel
  intro start stood member
  obtain ⟨rfl, rfl⟩ : start = 3 ∧ stood = 3 := by simpa [begun] using member
  rfl

theorem prompt_client_streamed :
    Streamed 7 0 (RunConn.run (fun _ => { drained := 1 }) 1 7 0 [some threeEvents] []).2.link ∧
      Streamed 7 0 ((Conn.opened 256 0).run promptServer false leaveAndReturn).link := by
  refine ⟨((streamed_iff_steady 1 7).1 EventType _ 0 [some threeEvents] [] (by decide) ?_ nofun).mpr
    (by unfold Steady; decide), ?_⟩
  · intro log read
    obtain rfl : log = threeEvents := Option.some.inj (List.mem_singleton.mp read)
    exact threeEvents_committed
  · have three := runSevenReads_committed
    have four : Conn.ReadsCommitted (readSeven fourEvents) :=
      readSeven_committed ⟨by decide, by decide⟩
    obtain ⟨start, _, offered, streamed⟩ := (streamed_iff_steady 256 7).2 promptServer false 0
      leaveAndReturn (by simp [leaveAndReturn, firstSubscribe, Signal.Unfiltered])
      (List.forall_mem_cons.mpr ⟨three, List.forall_mem_cons.mpr ⟨three, List.forall_mem_singleton.mpr
        four⟩⟩) leaveAndReturn_seamless
    have seqs : (((Conn.opened 256 0).run promptServer false leaveAndReturn).link.eventsOf 7).map
        (fun event => event.1.seq) = [1, 2, 3, 4] := by
      decide +kernel
    rw [seqs] at offered
    obtain rfl : start = 0 := by
      have first := offered.1
      omega
    exact streamed.mpr (by unfold Steady; decide +kernel)

/-- The client reads the snapshot, stalls after the first event until the second one has timed out,
and reads on. -/
def stallingPace : Nat → Pace := fun n => if n = 1 ∨ n = 3 then { drained := 1 } else {}

theorem stalling_client_misses_event :
    sentSeqs 7 (RunConn.run stallingPace 1 7 0 [some threeEvents] []).2.link.sent = [1, 3] ∧
      (RunConn.run stallingPace 1 7 0 [some threeEvents] []).1 = .slowConsumer ∧
      ¬ Streamed 7 0 (RunConn.run stallingPace 1 7 0 [some threeEvents] []).2.link := by
  have sent : sentSeqs 7 (RunConn.run stallingPace 1 7 0 [some threeEvents] []).2.link.sent = [1, 3] := by
    decide
  refine ⟨sent, by decide, fun streamed => ?_⟩
  have consecutive := streamed.consecutive
  revert consecutive
  decide

end Agentloom.Api
