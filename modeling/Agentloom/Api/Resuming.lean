import Agentloom.Api.Delivery

/-! Resuming a subscription. The acknowledgement says up to which event of a run the client is caught
up; that is where the tail of the run stands, and the tail may be older than the subscription. -/

namespace Agentloom.Api

open Event Sequence List

theorem parseCursorMap_spec (parsed : parseCursorMap server cursors = .ok resumed) :
    (resumed.map Prod.fst).Nodup ∧ ∀ cursor ∈ resumed, 0 ≤ cursor.2 := by
  induction cursors generalizing resumed with
  | nil =>
    cases parsed
    exact ⟨nodup_nil, nofun⟩
  | cons cursor rest ih =>
    obtain ⟨text, _⟩ := cursor
    rw [parseCursorMap] at parsed
    cases isID : server.parseUUID text with
    | none =>
      simp [isID] at parsed
    | some runID =>
      rw [isID] at parsed
      dsimp only at parsed
      split at parsed
      · cases parsed
      · rename_i nonneg
        cases later : parseCursorMap server rest with
        | error message =>
          simp [later] at parsed
        | ok others =>
          rw [later] at parsed
          obtain ⟨nodup, all⟩ := ih later
          cases parsed
          split
          · exact ⟨nodup, all⟩
          · rename_i fresh
            have absent : runID ∉ others.map Prod.fst := by
              intro mem
              obtain ⟨other, listed, same⟩ := mem_map.mp mem
              refine fresh (any_eq_true.mpr ⟨other, listed, ?_⟩)
              simpa using same
            refine ⟨nodup_cons.mpr ⟨absent, nodup⟩, ?_⟩
            intro cursor mem
            rcases mem_cons.mp mem with rfl | old
            · exact not_lt.mp nonneg
            · exact all cursor old

variable {conn conn' : Conn} {count asked : Nat} {id : String} {env : EventEnvelope}
  {sub : Subscription} {runID : RunID} {reads : RunID → Reads}

namespace Conn

variable {server : Server}

structure Grows (conn conn' : Conn) : Prop where
  offered : conn.link.offered <+: conn'.link.offered
  lookups : conn.lookups ≤ conn'.lookups

theorem Grows.refl (conn : Conn) : Grows conn conn := ⟨prefix_refl _, le_refl _⟩

theorem Grows.trans (left : Grows first second) (right : Grows second third) : Grows first third :=
  ⟨left.offered.trans right.offered, left.lookups.trans right.lookups⟩

theorem send_offered (frame : Frame EventType) (conn : Conn) :
    (conn.send server frame).link.offered =
      conn.link.offered ++ [(frame, (conn.link.enqueue server.pace frame).1)] := rfl

theorem send_grows (frame : Frame EventType) (conn : Conn) : Grows conn (conn.send server frame) :=
  ⟨prefix_append _ _, le_refl _⟩

theorem asked_grows (conn : Conn) : Grows conn conn.asked :=
  ⟨prefix_refl _, Nat.le_succ _⟩

theorem deliverEvent_grows (env : EventEnvelope) (conn : Conn) :
    Grows conn (deliverEvent server env conn) := by
  unfold deliverEvent
  dsimp only
  split
  · exact asked_grows conn
  · exact (asked_grows conn).trans (send_grows _ _)

theorem deliverAll_grows (taken : List EventEnvelope) (conn : Conn) :
    Grows conn (deliverAll (deliverEvent server) taken conn) := by
  induction taken generalizing conn with
  | nil => exact .refl conn
  | cons env rest ih => exact (deliverEvent_grows env conn).trans (ih _)

theorem Move.grows (move : Move server conn conn') : Grows conn conn' := by
  cases move with
  | sent _ => exact send_grows _ conn
  | asked => exact asked_grows conn
  | @took conn' tail tailer taken _ _ took =>
    have rest : conn' = deliverAll (deliverEvent server) taken conn := took.rest
    rw [rest]
    exact ⟨(deliverAll_grows taken conn).offered, (deliverAll_grows taken conn).lookups⟩
  | marked =>
    unfold markTerminal
    split <;> exact ⟨prefix_refl _, le_refl _⟩
  | dropped | began | raised => exact ⟨prefix_refl _, le_refl _⟩

theorem Moves.grows (moves : Moves server conn conn') : Grows conn conn' := by
  induction moves with
  | refl => exact .refl _
  | tail _ move ih => exact ih.trans move.grows

def OfferedSince (count : Nat) (id : String) (env : EventEnvelope) (conn : Conn) : Prop :=
  ∃ tags accepted, id ∈ tags ∧ (.event env tags, accepted) ∈ conn.link.offered.drop count

theorem OfferedSince.grows (offered : OfferedSince count id env conn) (grows : Grows conn conn') :
    OfferedSince count id env conn' := by
  obtain ⟨tags, accepted, tagged, mem⟩ := offered
  obtain ⟨_, whole⟩ := grows.offered
  refine ⟨tags, accepted, tagged, ?_⟩
  rw [← whole, drop_append]
  exact mem_append_left _ mem

/-- A filter that asks about runs is answered from one lookup up to another. -/
def Answered (server : Server) (filter : Filter) (first last : Nat) : Prop :=
  filter.needsMeta = true → ∀ n < last, first ≤ n → server.resolves n = true

theorem send_offeredSince (conn : Conn) (since : count ≤ conn.link.offered.length) (tagged : id ∈ tags) :
    OfferedSince count id env (conn.send server (.event env tags)) := by
  refine ⟨tags, (conn.link.enqueue server.pace (.event env tags)).1, tagged, ?_⟩
  rw [send_offered, drop_append_of_le_length since]
  exact mem_append_right _ mem_cons_self

theorem deliverEvent_lookups (env : EventEnvelope) (conn : Conn) :
    (deliverEvent server env conn).lookups = conn.lookups + 1 := by
  unfold deliverEvent
  dsimp only
  split <;> rfl

theorem deliverEvent_offeredSince (answered : Answered server sub.filter asked last)
    (mem : sub ∈ conn.subs) (later : asked ≤ conn.lookups)
    (inside : (deliverEvent server env conn).lookups ≤ last)
    (since : count ≤ conn.link.offered.length)
    (wanted : sub.filter.matches env (server.metaOf env.runID) = true) :
    OfferedSince count sub.id env (deliverEvent server env conn) := by
  have listed : sub ∈ conn.subs.filter
      fun other => other.filter.matches env (conn.runMeta server env.runID) := by
    refine mem_filter.mpr ⟨mem, wanted ▸ ?_⟩
    cases needs : sub.filter.needsMeta with
    | false => simp [Filter.matches, Filter.wantsRun, needs]
    | true =>
      rw [deliverEvent_lookups] at inside
      rw [runMeta, answered needs conn.lookups inside later, if_pos rfl]
  have tagged : sub.id ∈ (conn.subs.filter
      fun other => other.filter.matches env (conn.runMeta server env.runID)).map Subscription.id :=
    mem_map_of_mem listed
  unfold deliverEvent
  rw [if_neg (ne_nil_of_mem tagged)]
  exact send_offeredSince conn.asked since ((perm_insertionSort (· ≤ ·) _).mem_iff.mpr tagged)

theorem deliverAll_offeredSince (answered : Answered server sub.filter asked last)
    (mem : sub ∈ conn.subs) (later : asked ≤ conn.lookups)
    (inside : (deliverAll (deliverEvent server) taken conn).lookups ≤ last)
    (since : count ≤ conn.link.offered.length) (taking : env ∈ taken)
    (wanted : sub.filter.matches env (server.metaOf env.runID) = true) :
    OfferedSince count sub.id env (deliverAll (deliverEvent server) taken conn) := by
  induction taken generalizing conn with
  | nil => cases taking
  | cons first rest ih =>
    have grows : Grows conn (deliverEvent server first conn) := deliverEvent_grows first conn
    rcases mem_cons.mp taking with rfl | inRest
    · have others : Grows _ (deliverAll (deliverEvent server) rest (deliverEvent server env conn)) :=
        deliverAll_grows rest _
      exact (deliverEvent_offeredSince answered mem later (others.lookups.trans inside) since
        wanted).grows others
    · refine ih ?_ (later.trans grows.lookups) inside (since.trans grows.offered.length_le) inRest
      rw [(deliverEvent_undisturbed first conn).subs]
      exact mem

theorem catchup_tail?_other {other} (differs : other ≠ runID) (sound : conn.Sound)
    {reads} (committed : ∀ log, some log ∈ reads → Committed runID log) :
    (conn.catchup server runID reads).tail? other = conn.tail? other := by
  rw [catchup]
  cases tracked : conn.tail? runID with
  | none => rfl
  | some tail =>
    have called : Tailer.catchup (deliverEvent server) reads (tail.tailer, conn) = (_, _, _) := rfl
    obtain ⟨_, took, _⟩ := catchup_took committed (sound runID tail tracked) called
    have isRun := took.runID.trans (tail?_runID tracked)
    rw [tail?_setTailer, if_neg (fun same => differs (same.trans isRun)),
      (took_undisturbed took).tail?]

theorem startTailAt_tail?_other {other} (differs : other ≠ runID) (sound : conn.Sound)
    (listened : conn.subs ≠ []) {start reads}
    (committed : ∀ log, some log ∈ reads → Committed runID log) :
    (conn.startTailAt server runID start reads).tail? other = conn.tail? other ∨
      (conn.startTailAt server runID start reads).tail? other = none := by
  unfold startTailAt
  split
  · exact .inl rfl
  · rename_i untracked
    have begun : Moves server conn ((conn.makeRoom server).track runID (max start 0)) :=
      track_moves listened untracked
    rw [catchup_tail?_other differs (begun.sound sound) committed, tail?_track, if_neg differs,
      Option.or_none]
    exact makeRoom_tail? other conn

section Truth

variable {truth : RunID → List EventEnvelope}

/-- The reads of a step see the log of the run as far as it is committed by then. -/
def ReadsTruth (truth : RunID → List EventEnvelope) (reads : RunID → Reads) : Prop :=
  ∀ runID log, some log ∈ reads runID → log <+: truth runID

theorem startTailAt_offered (committed : ∀ runID, Committed runID (truth runID))
    (readsTruth : ReadsTruth truth reads) (answered : Answered server sub.filter asked last)
    (member : sub ∈ conn.subs) (later : asked ≤ conn.lookups)
    (inside : (conn.startTailAt server runID cursor (reads runID)).lookups ≤ last)
    (since : count ≤ conn.link.offered.length) (nonneg : 0 ≤ cursor)
    (untracked : conn.tail? runID = none) :
    ∃ tail, (conn.startTailAt server runID cursor (reads runID)).tail? runID = some tail ∧
      ∀ env ∈ truth runID, cursor < env.seq → env.seq ≤ tail.tailer.lastSeq →
        sub.filter.matches env (server.metaOf runID) = true →
        OfferedSince count sub.id env (conn.startTailAt server runID cursor (reads runID)) := by
  have roomMoves : Moves server conn (conn.makeRoom server) := makeRoom_moves conn
  have roomGrows := roomMoves.grows
  have roomTail : (conn.makeRoom server).tail? runID = none := makeRoom_untracked untracked
  generalize roomy : conn.makeRoom server = room at roomMoves roomGrows roomTail
  have begun : (room.track runID cursor).tail? runID =
      some { tailer := newTailer runID cursor wsBackfillPageSize } := by
    rw [tail?_track, roomTail, Option.none_or, if_pos rfl]
  have starts : conn.startTailAt server runID cursor (reads runID) =
      (room.track runID cursor).catchup server runID (reads runID) := by
    rw [startTailAt, untracked, Option.isSome_none, if_neg Bool.false_ne_true, roomy,
      max_eq_left nonneg]
  rw [starts, catchup, begun] at inside ⊢
  dsimp only at inside ⊢
  cases called : Tailer.catchup (deliverEvent server) (reads runID)
      (newTailer runID cursor wsBackfillPageSize, room.track runID cursor) with
  | mk outcome state =>
    obtain ⟨tailer, conn'⟩ := state
    obtain ⟨taken, took, ofReads, _⟩ := catchup_took
      (fun log read => (committed runID).before (readsTruth runID log read))
      (by rw [newTailer_lastSeq]; exact nonneg) called
    have same := took_undisturbed took
    have rest : conn' = deliverAll (deliverEvent server) taken (room.track runID cursor) := took.rest
    rw [called] at inside
    have consecutive := took.consecutive
    have position := took.lastSeq
    refine ⟨{ tailer := tailer }, ?_, fun env logged above below wanted => ?_⟩
    · have isRun : tailer.runID = runID := took.runID.trans (newTailer_runID ..)
      rw [tail?_setTailer, same.tail?, begun, if_pos isRun.symm]
      rfl
    · -- the event lies between the cursor and the tail, so it was taken
      have between : env.seq ∈ taken.map Envelope.seq := by
        refine consecutive.mem.mpr ⟨above, ?_⟩
        rw [length_map, ← position]
        exact below
      obtain ⟨other, taking, sameSeq⟩ := mem_map.mp between
      obtain ⟨log, read, inLog⟩ := ofReads other taking
      obtain rfl := inj_on_of_nodup_map (committed runID).gapFree.nodup
        ((readsTruth runID log read).subset inLog) logged sameSeq
      have listed : sub ∈ (room.track runID cursor).subs := by
        rw [show (room.track runID cursor).subs = conn.subs from roomMoves.subs]
        exact member
      have offered := deliverAll_offeredSince answered listed (later.trans roomGrows.lookups)
        (rest ▸ inside) (since.trans roomGrows.offered.length_le) taking
        (by rw [(committed runID).ofRun other logged]; exact wanted)
      rw [← rest] at offered
      exact offered

/-- Where the loop over the cursors stands: what it acknowledged was offered, and the runs that are
still to come have the tails they had, or none. -/
structure Resumed (server : Server) (truth : RunID → List EventEnvelope) (sub : Subscription)
    (conn : Conn) (rest : List (RunID × Int)) (state : Conn × List (RunID × Int)) : Prop where
  sound : state.1.Sound
  member : sub ∈ state.1.subs
  grows : Grows conn state.1
  tails : ∀ cursor ∈ rest, state.1.tail? cursor.1 = conn.tail? cursor.1 ∨
    state.1.tail? cursor.1 = none
  done : ∀ runID seq, (runID, seq) ∈ state.2 → ∃ cursor, (runID, cursor) ∈ sub.cursors ∧
    ∀ env ∈ truth runID, cursor < env.seq → env.seq ≤ seq →
      sub.filter.matches env (server.metaOf runID) = true →
      (∃ tail, conn.tail? runID = some tail ∧ env.seq ≤ tail.tailer.lastSeq) ∨
        OfferedSince conn.link.offered.length sub.id env state.1

theorem Resumed.next (committed : ∀ runID, Committed runID (truth runID))
    (readsTruth : ReadsTruth truth reads) (answered : Answered server sub.filter conn.lookups last)
    {cursor} (nonneg : 0 ≤ cursor.2) (supplied : cursor ∈ sub.cursors)
    {rest} (fresh : cursor.1 ∉ rest.map Prod.fst) {state}
    (resumed : Resumed server truth sub conn (cursor :: rest) state)
    (inside : (resumeRun server reads state cursor).1.lookups ≤ last) :
    Resumed server truth sub conn rest (resumeRun server reads state cursor) := by
  have readsCommitted : ∀ log, some log ∈ reads cursor.1 → Committed cursor.1 log :=
    fun log read => (committed cursor.1).before (readsTruth cursor.1 log read)
  have listened : state.1.subs ≠ [] := ne_nil_of_mem resumed.member
  have moves : Moves server state.1
      (state.1.startTailAt server cursor.1 cursor.2 (reads cursor.1)) :=
    startTailAt_moves resumed.sound listened readsCommitted
  have grows := resumed.grows.trans moves.grows
  refine ⟨moves.sound resumed.sound, ?_, grows, ?_, ?_⟩
  · rw [show (resumeRun server reads state cursor).1.subs = state.1.subs from moves.subs]
    exact resumed.member
  · intro other mem
    have differs : other.1 ≠ cursor.1 := by
      intro same
      exact fresh (same ▸ mem_map_of_mem mem)
    rcases startTailAt_tail?_other differs resumed.sound listened readsCommitted with kept | gone
    · rcases resumed.tails other (mem_cons_of_mem _ mem) with same | none
      · exact .inl (kept.trans same)
      · exact .inr (kept.trans none)
    · exact .inr gone
  · intro runID seq acknowledged
    rcases mem_append.mp acknowledged with earlier | now
    · obtain ⟨position, listed, done⟩ := resumed.done runID seq earlier
      refine ⟨position, listed, fun env logged above below wanted => ?_⟩
      exact (done env logged above below wanted).imp_right fun offered => offered.grows moves.grows
    · obtain ⟨tail, found, isTail⟩ := Option.map_eq_some_iff.mp (Option.mem_toList.mp now)
      obtain ⟨rfl, rfl⟩ := Prod.mk.inj isTail
      refine ⟨cursor.2, supplied, fun env logged above below wanted => ?_⟩
      cases before : state.1.tail? cursor.1 with
      | some old =>
        -- somebody else's tail, as it was when the step began
        have stays : state.1.startTailAt server cursor.1 cursor.2 (reads cursor.1) = state.1 := by
          rw [startTailAt, before, Option.isSome_some, if_pos rfl]
        rw [stays, before] at found
        cases found
        rcases resumed.tails cursor mem_cons_self with same | none
        · exact .inl ⟨tail, same.symm.trans before, below⟩
        · simp [none] at before
      | none =>
        obtain ⟨_, isBegun, offered⟩ := startTailAt_offered committed readsTruth answered
          resumed.member resumed.grows.lookups inside resumed.grows.offered.length_le nonneg before
        rw [isBegun] at found
        cases found
        exact .inr (offered env logged above below wanted)

theorem Resumed.all (committed : ∀ runID, Committed runID (truth runID))
    (readsTruth : ReadsTruth truth reads) (answered : Answered server sub.filter conn.lookups last)
      (nonneg : ∀ cursor ∈ rest, 0 ≤ cursor.2)
    (supplied : ∀ cursor ∈ rest, cursor ∈ sub.cursors) (fresh : (rest.map Prod.fst).Nodup)
      (resumed : Resumed server truth sub conn rest state)
    (inside : (rest.foldl (resumeRun server reads) state).1.lookups ≤ last) :
    Resumed server truth sub conn [] (rest.foldl (resumeRun server reads) state) := by
  induction rest generalizing state with
  | nil => exact resumed
  | cons cursor rest ih =>
    obtain ⟨absent, nodup⟩ := nodup_cons.mp fresh
    have readsCommitted : ReadsCommitted reads :=
      fun runID log read => (committed runID).before (readsTruth runID log read)
    have listened : state.1.subs ≠ [] := ne_nil_of_mem resumed.member
    have first : Moves server state.1 (resumeRun server reads state cursor).1 :=
      startTailAt_moves resumed.sound listened (readsCommitted cursor.1)
    have others : Moves server _ (rest.foldl (resumeRun server reads)
        (resumeRun server reads state cursor)).1 :=
      resume_moves readsCommitted rest (first.sound resumed.sound) (by rw [first.subs]; exact listened)
    refine ih (fun other mem => nonneg other (mem_cons_of_mem _ mem))
      (fun other mem => supplied other (mem_cons_of_mem _ mem)) nodup ?_ inside
    exact resumed.next committed readsTruth answered (nonneg cursor mem_cons_self)
      (supplied cursor mem_cons_self) absent (others.grows.lookups.trans inside)

end Truth

end Conn

def Tagged (id : String) (env : EventEnvelope) (conn : Conn) : Prop :=
  ∃ tags, id ∈ tags ∧ .event env tags ∈ conn.link.sent

theorem mem_sent {link : Link EventType} : frame ∈ link.sent ↔ (frame, true) ∈ link.offered := by
  simp [Link.sent]

theorem Tagged.grows (tagged : Tagged id env conn) (grows : Conn.Grows conn conn') :
    Tagged id env conn' := by
  obtain ⟨tags, mem, sent⟩ := tagged
  exact ⟨tags, mem, mem_sent.mpr (grows.offered.subset (mem_sent.mp sent))⟩

theorem Paced.taken_since {link : Link EventType} (paced : Paced pace buffer link)
    (roomy : ∀ n < link.offered.length, count ≤ n → leavesRoom pace buffer n = true)
    (offer : (frame, taken) ∈ link.offered.drop count) : taken = true := by
  obtain ⟨n, found⟩ := mem_iff_getElem?.mp offer
  rw [getElem?_drop] at found
  have answer := paced.answers _ (mk_mem_zipIdx_iff_getElem?.mpr found)
  rw [show taken = _ from answer]
  exact roomy _ (List.getElem?_eq_some_iff.mp found).1 (Nat.le_add_right count n)

def SentBetween (server : Server) (truth : RunID → List EventEnvelope) (id : String) (filter : Filter)
    (runID : RunID) (cursor seq : Int) (conn : Conn) : Prop :=
  ∀ env ∈ truth runID, cursor < env.seq → env.seq ≤ seq →
    filter.matches env (server.metaOf runID) = true → Tagged id env conn

/-- When a subscription is acknowledged as caught up, everything after its cursors was sent for it:
if that is so for the runs that already have a tail up to where that tail stands, if the filter gets
its answers in this step, and if the client leaves room for the frames of the step. -/
theorem caught_up_sent (server : Server) (polls : Bool) (buffer : Nat) (now : Int)
    (signals : List Signal) (earlier : ∀ signal ∈ signals, signal.ReadsCommitted)
    (truth : RunID → List EventEnvelope) (committed : ∀ runID, Committed runID (truth runID))
    (id : String) (filter : WSFilter) (cursors : List (String × Int)) (reads : RunID → Reads)
    (readsTruth : Conn.ReadsTruth truth reads) (compiled : Filter)
    (isCompiled : compileFilter server filter = .ok compiled) (resumed : List (RunID × Int))
    (isResumed : parseCursors server cursors = .ok resumed) :
    let conn := (Conn.opened buffer now).run server polls signals
    let conn' := conn.step server polls (.control (.subscribe id filter cursors) reads)
    (∀ runID cursor tail, (runID, cursor) ∈ resumed → conn.tail? runID = some tail →
      SentBetween server truth id compiled runID cursor tail.tailer.lastSeq conn) →
    Conn.Answered server compiled conn.lookups conn'.lookups →
    (∀ n < conn'.link.offered.length, conn.link.offered.length ≤ n →
      leavesRoom server.pace buffer n = true) →
    ∀ ack, (∃ between, conn'.link.offered =
        conn.link.offered ++ between ++ [(.resumed id ack, true)]) →
      ∀ runID seq cursor, (runID, seq) ∈ ack → (runID, cursor) ∈ resumed →
        SentBetween server truth id compiled runID cursor seq conn' := by
  intro conn conn' unread answered roomy ack acknowledged runID seq cursor listed supplied
  have opened : (Conn.opened buffer now).Sound := Conn.opened_sound buffer now
  have sound : conn.Sound := Conn.run_sound earlier opened
  have paced : Paced server.pace buffer conn'.link := by
    have before : Paced server.pace buffer conn.link :=
      Conn.run_paced earlier opened (.begin server.pace buffer)
    obtain ⟨_, moves⟩ : ∃ subs, Conn.Moves server { conn with subs := subs } conn' :=
      Conn.step_moves sound fun runID log read => (committed runID).before (readsTruth runID log read)
    exact moves.paced before
  obtain ⟨_, whole⟩ := acknowledged
  have steps : conn' = conn.onSubscribe server id filter cursors reads := by
    unfold conn' Conn.step
    split
    · rename_i slow
      have same : conn' = conn := if_pos slow
      rw [same] at whole
      have lengths := congrArg length whole
      simp at lengths
    · rfl
  rcases Conn.onSubscribe_cases with ⟨_, _, refused⟩ |
      ⟨_, _, isCompiled', isResumed', installed⟩
  · rw [steps, refused, Conn.sendError, Conn.send_offered] at whole
    cases (append_inj' whole rfl).2
  · obtain rfl := Except.ok.inj (isCompiled.symm.trans isCompiled')
    obtain rfl := Except.ok.inj (isResumed.symm.trans isResumed')
    have parsed := isResumed
    rw [parseCursors] at parsed
    split at parsed
    · cases parsed
    obtain ⟨nodup, nonneg⟩ := parseCursorMap_spec parsed
    rw [← steps] at installed
    have begins : Conn.Resumed server truth ⟨id, compiled, resumed⟩ conn resumed
        ((conn.install ⟨id, compiled, resumed⟩).send server (.subscribed id filter), []) :=
      ⟨sound, mem_cons_self, ⟨prefix_append _ _, le_refl _⟩, fun _ _ => .inl rfl, nofun⟩
    have grows : Conn.Grows (resumed.foldl (Conn.resumeRun server reads)
        ((conn.install ⟨id, compiled, resumed⟩).send server (.subscribed id filter), [])).1 conn' := by
      rw [installed]
      exact Conn.send_grows _ _
    have ends := begins.all committed readsTruth answered nonneg (fun _ member => member) nodup
      grows.lookups
    generalize resumed.foldl (Conn.resumeRun server reads) (_, []) = started at ends grows installed
    have isAck : started.2 = ack := by
      rw [installed, Conn.send_offered] at whole
      have last := head_eq_of_cons_eq (append_inj' whole rfl).2
      cases (Prod.mk.inj last).1
      rfl
    obtain ⟨cursor', supplied', done⟩ := ends.done runID seq (isAck ▸ listed)
    obtain rfl : cursor = cursor' := by
      have same := inj_on_of_nodup_map nodup supplied supplied' rfl
      exact (Prod.mk.inj same).2
    intro env logged above below wanted
    rcases done env logged above below wanted with ⟨tail, tracked, upTo⟩ | offered
    · exact (unread runID cursor tail supplied tracked env logged above upTo wanted).grows
        (ends.grows.trans grows)
    · obtain ⟨tags, taken, tagged, offer⟩ := offered.grows grows
      have isTaken : taken = true := paced.taken_since roomy offer
      exact ⟨tags, tagged, mem_sent.mpr (mem_of_mem_drop (isTaken ▸ offer))⟩

def Frame.tags : Frame EventType → List String
  | .event _ tags => tags
  | _ => []

theorem runSevenReads_truth : Conn.ReadsTruth runSevenLog runSevenReads := by
  intro runID log read
  obtain rfl : log = runSevenLog runID := Option.some.inj (mem_singleton.mp read)
  exact prefix_refl _

def secondSubscribe : Signal := .control (.subscribe "b" {} [("7", 0)]) runSevenReads

theorem caught_up_sent_first : SentBetween promptServer runSevenLog "a" {} 7 0 3
      (((Conn.opened 256 0).run promptServer false []).step promptServer false firstSubscribe) := by
  refine caught_up_sent promptServer false 256 0 [] nofun runSevenLog
    (onSeven_committed threeEvents_committed) "a" {} [("7", 0)] runSevenReads runSevenReads_truth {} rfl [(7, 0)] (by decide +kernel) ?_
    (fun _ _ _ _ => rfl) (by decide +kernel) [(7, 3)] ?_ 7 3 0 mem_cons_self mem_cons_self
  · intro runID cursor tail _ tracked
    cases tracked
  · refine ⟨[(.subscribed "a" {}, true), (.event ⟨7, 1, .runCreated⟩ ["a"], true),
      (.event ⟨7, 2, .stepReady⟩ ["a"], true), (.event ⟨7, 3, .stepClaimed⟩ ["a"], true)], ?_⟩
    decide +kernel

/-- The second subscription is acknowledged at the third event of a run that the first one reads, and
is sent none of them. -/
theorem second_subscription_misses_events :
    (((Conn.opened 256 0).run promptServer false [firstSubscribe]).step promptServer false
        secondSubscribe).link.offered.getLast? = some (.resumed "b" [(7, 3)], true) ∧
      ¬ SentBetween promptServer runSevenLog "b" {} 7 0 3
        (((Conn.opened 256 0).run promptServer false [firstSubscribe]).step promptServer false
          secondSubscribe) := by
  refine ⟨by decide +kernel, fun sent => ?_⟩
  obtain ⟨_, tagged, member⟩ :=
    sent ⟨7, 1, .runCreated⟩ (by decide +kernel) (by decide) (by decide) rfl
  have untagged : ∀ frame ∈ (((Conn.opened 256 0).run promptServer false [firstSubscribe]).step
      promptServer false secondSubscribe).link.sent, "b" ∉ frame.tags := by
    decide +kernel
  exact untagged _ member tagged

end Agentloom.Api
