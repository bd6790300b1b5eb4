import Agentloom.Library.Consecutive
import Agentloom.Engine.Runs
import Agentloom.Store.EventLog

/-! The tail of one run. Live envelopes may be lost, doubled or reordered on their way; the tailer
keeps a cursor into the committed events of the run and reads what it missed from the store, page by
page. -/

namespace Agentloom.Event

open Sequence List

variable {π σ : Type}

abbrev RunID := Nat

structure Envelope (π : Type) where
  runID : RunID
  seq : Int
  payload : π
deriving DecidableEq, Repr

/-- A backfill read fails, or sees the events of the run that are committed by then. -/
abbrev Read (π : Type) := Option (List (Envelope π))

section Reading

def eventsAfter (log : List (Envelope π)) (afterSeq : Int) (limit : Nat) : List (Envelope π) :=
  (log.filter fun env => afterSeq < env.seq).take limit

def defaultBackfillPageSize : Nat := 500

structure Tailer where
  runID : RunID
  lastSeq : Int
  pageSize : Nat
  positive : 0 < pageSize

def newTailer (runID : RunID) (lastSeq pageSize : Int) : Tailer :=
  if size : 0 < pageSize then ⟨runID, lastSeq, pageSize.toNat, by omega⟩
  else ⟨runID, lastSeq, defaultBackfillPageSize, by decide⟩

theorem newTailer_runID (runID : RunID) (lastSeq pageSize : Int) :
    (newTailer runID lastSeq pageSize).runID = runID := by
  unfold newTailer
  split <;> rfl

theorem newTailer_lastSeq (runID : RunID) (lastSeq pageSize : Int) :
    (newTailer runID lastSeq pageSize).lastSeq = lastSeq := by
  unfold newTailer
  split <;> rfl

def Tailer.advance (tailer : Tailer) (seq : Int) : Tailer := { tailer with lastSeq := seq }

inductive Outcome where
  | ended
  | failed
  | reading
deriving DecidableEq, Repr

-- What `deliver` does to the rest of the connection.
variable (deliver : Envelope π → σ → σ)

def Tailer.take (env : Envelope π) (state : Tailer × σ) : Tailer × σ :=
  (state.1.advance env.seq, deliver env state.2)

def Tailer.takeRow (state : Tailer × σ) (env : Envelope π) : Tailer × σ :=
  if env.seq = state.1.lastSeq + 1 then Tailer.take deliver env state
  -- A hole in the page is delivered all the same: the store has the truth.
  else if env.seq > state.1.lastSeq then Tailer.take deliver env state
  else state

def Tailer.catchup : List (Read π) → Tailer × σ → Outcome × Tailer × σ
  | [], state => (.reading, state)
  | none :: _, state => (.failed, state)
  | some log :: reads, state =>
    let rows := eventsAfter log state.1.lastSeq state.1.pageSize
    let state' := rows.foldl (Tailer.takeRow deliver) state
    if rows.length < state.1.pageSize then (.ended, state') else Tailer.catchup reads state'

def Tailer.offer (env : Envelope π) (reads : List (Read π)) (state : Tailer × σ) :
    Outcome × Tailer × σ :=
  if env.runID ≠ state.1.runID then (.ended, state)
  else if env.seq ≤ state.1.lastSeq then (.ended, state)
  else if env.seq = state.1.lastSeq + 1 then (.ended, Tailer.take deliver env state)
  else match Tailer.catchup deliver reads state with
    | (.ended, state') =>
      if env.seq = state'.1.lastSeq + 1 then (.ended, Tailer.take deliver env state')
      else (.ended, state')
    | stopped => stopped

end Reading

/-- The log of a run, as the store keeps it: numbered from one, without a gap. -/
structure Committed (runID : RunID) (log : List (Envelope π)) : Prop where
  ofRun : ∀ env ∈ log, env.runID = runID
  gapFree : Consecutive 0 (log.map Envelope.seq)

theorem Committed.before {log earlier : List (Envelope π)}
    (committed : Committed runID log) (isPrefix : earlier <+: log) : Committed runID earlier := by
  obtain ⟨rest, whole⟩ := isPrefix
  refine ⟨fun env mem => committed.ofRun env (whole ▸ mem_append_left rest mem), ?_⟩
  have all := committed.gapFree
  rw [← whole, map_append] at all
  exact (Consecutive.append.mp all).1

def envelopes (runID : RunID) (s : Store.RunStore) : List (Envelope Store.Event) :=
  s.events.map fun row => ⟨runID, row.seq, row.payload⟩

theorem eventsAfter_consecutive {log : List (Envelope π)}
    (committed : Committed runID log) (nonneg : 0 ≤ cursor) (limit : Nat) :
    Consecutive cursor ((eventsAfter log cursor limit).map Envelope.seq) := by
  have above := (committed.gapFree.filter_above nonneg).take limit
  rw [filter_map, ← map_take] at above
  exact above

section Calls

variable {deliver : Envelope π → σ → σ}

def deliverAll (deliver : Envelope π → σ → σ) (taken : List (Envelope π)) (rest : σ) : σ :=
  taken.foldl (fun rest env => deliver env rest) rest

/-- The envelopes are delivered in order, each the next one after the cursor, which moves along. -/
structure Took (deliver : Envelope π → σ → σ) (taken : List (Envelope π))
    (state state' : Tailer × σ) : Prop where
  consecutive : Consecutive state.1.lastSeq (taken.map Envelope.seq)
  tailer : state'.1 = state.1.advance (state.1.lastSeq + taken.length)
  rest : state'.2 = deliverAll deliver taken state.2

namespace Took

variable {state state' state'' : Tailer × σ} {taken later : List (Envelope π)}

theorem nothing (state : Tailer × σ) : Took deliver [] state state :=
  ⟨trivial, by simp [Tailer.advance], rfl⟩

theorem next (isNext : env.seq = state.1.lastSeq + 1) :
    Took deliver [env] state (Tailer.take deliver env state) :=
  ⟨⟨isNext, trivial⟩, by simp [Tailer.take, isNext], rfl⟩

theorem append (first : Took deliver taken state state') (second : Took deliver later state' state'') :
    Took deliver (taken ++ later) state state'' := by
  have position : state'.1.lastSeq = state.1.lastSeq + taken.length := by
    rw [first.tailer]
    rfl
  refine ⟨?_, ?_, ?_⟩
  · rw [map_append, Consecutive.append, length_map, ← position]
    exact ⟨first.consecutive, second.consecutive⟩
  · rw [second.tailer, position, first.tailer]
    simp [Tailer.advance, Int.add_assoc]
  · rw [second.rest, first.rest, deliverAll, deliverAll, deliverAll, foldl_append]

theorem lastSeq (took : Took deliver taken state state') :
    state'.1.lastSeq = state.1.lastSeq + taken.length := by
  rw [took.tailer]
  rfl

theorem nonneg (took : Took deliver taken state state') (start : 0 ≤ state.1.lastSeq) :
    0 ≤ state'.1.lastSeq := by
  rw [took.lastSeq]
  omega

theorem runID (took : Took deliver taken state state') : state'.1.runID = state.1.runID := by
  rw [took.tailer]
  rfl

theorem pageSize (took : Took deliver taken state state') :
    state'.1.pageSize = state.1.pageSize := by
  rw [took.tailer]
  rfl

end Took

theorem foldl_takeRow (consecutive : Consecutive state.1.lastSeq (rows.map Envelope.seq)) :
    Took deliver rows state (rows.foldl (Tailer.takeRow deliver) state) := by
  induction rows generalizing state with
  | nil => exact .nothing state
  | cons env rest ih =>
    obtain ⟨isNext, later⟩ := consecutive
    have takes : Tailer.takeRow deliver state env = Tailer.take deliver env state := if_pos isNext
    rw [foldl_cons, takes]
    exact (Took.next isNext).append (ih later)

theorem catchup_took {reads : List (Read π)}
    (committed : ∀ log, some log ∈ reads → Committed runID log) (start : 0 ≤ state.1.lastSeq)
    (called : Tailer.catchup deliver reads state = (outcome, state')) :
    ∃ taken, Took deliver taken state state' ∧
      (∀ env ∈ taken, ∃ log, some log ∈ reads ∧ env ∈ log) ∧
      (outcome = .ended → ∃ log, some log ∈ reads ∧ ∀ env ∈ log, env.seq ≤ state'.1.lastSeq) := by
  induction reads generalizing state with
  | nil =>
    cases called
    exact ⟨[], .nothing _, nofun, nofun⟩
  | cons read reads ih =>
    cases read with
    | none =>
      cases called
      exact ⟨[], .nothing _, nofun, nofun⟩
    | some log =>
      have isLog := committed log mem_cons_self
      have took : Took deliver _ state _ :=
        foldl_takeRow (eventsAfter_consecutive isLog start state.1.pageSize)
      have ofLog : ∀ env ∈ eventsAfter log state.1.lastSeq state.1.pageSize, env ∈ log :=
        fun env member => (mem_filter.mp (mem_of_mem_take member)).1
      rw [Tailer.catchup] at called
      split at called
      · rename_i short
        cases called
        refine ⟨_, took, fun env member => ⟨log, mem_cons_self, ofLog env member⟩,
          fun _ => ⟨log, mem_cons_self, fun env member => ?_⟩⟩
        -- the page is short, so it holds all that lies above the cursor
        by_cases above : state.1.lastSeq < env.seq
        · have whole : eventsAfter log state.1.lastSeq state.1.pageSize =
              log.filter fun env => state.1.lastSeq < env.seq := by
            refine take_of_length_le ?_
            rw [eventsAfter, length_take] at short
            omega
          have listed : env ∈ eventsAfter log state.1.lastSeq state.1.pageSize := by
            rw [whole]
            exact mem_filter.mpr ⟨member, by simpa using above⟩
          have bound := (took.consecutive.mem.mp (mem_map_of_mem listed)).2
          rw [took.lastSeq]
          simpa using bound
        · rw [took.lastSeq]
          omega
      · obtain ⟨_, tookLater, ofReads, heads⟩ :=
          ih (fun log member => committed log (mem_cons_of_mem _ member))
            (took.nonneg start) called
        refine ⟨_, took.append tookLater, fun env member => ?_, fun ended => ?_⟩
        · rcases mem_append.mp member with first | second
          · exact ⟨log, mem_cons_self, ofLog env first⟩
          · obtain ⟨other, listed, inside⟩ := ofReads env second
            exact ⟨other, mem_cons_of_mem _ listed, inside⟩
        · obtain ⟨other, listed, head⟩ := heads ended
          exact ⟨other, mem_cons_of_mem _ listed, head⟩

theorem offer_took (committed : ∀ log, some log ∈ reads → Committed runID log)
    (start : 0 ≤ state.1.lastSeq)
    (called : Tailer.offer deliver env reads state = (outcome, state')) :
    ∃ taken, Took deliver taken state state' ∧
      ∀ other ∈ taken, (other = env ∧ env.runID = state.1.runID) ∨
        ∃ log, some log ∈ reads ∧ other ∈ log := by
  rw [Tailer.offer] at called
  split_ifs at called with foreign old isNext
  · cases called
    exact ⟨[], .nothing _, nofun⟩
  · cases called
    exact ⟨[], .nothing _, nofun⟩
  · cases called
    exact ⟨[env], .next isNext,
      fun other mem => .inl ⟨mem_singleton.mp mem, not_not.mp foreign⟩⟩
  · cases reached : Tailer.catchup deliver reads state with
    | mk outcome₁ state₁ =>
      obtain ⟨taken, took, ofReads, _⟩ := catchup_took committed start reached
      rw [reached] at called
      cases outcome₁ with
      | ended =>
        dsimp only at called
        split_ifs at called with isNext'
        · cases called
          refine ⟨taken ++ [env], took.append (.next isNext'), fun other mem => ?_⟩
          rcases mem_append.mp mem with earlier | last
          · exact .inr (ofReads other earlier)
          · exact .inl ⟨mem_singleton.mp last, not_not.mp foreign⟩
        · cases called
          exact ⟨taken, took, fun other mem => .inr (ofReads other mem)⟩
      | failed =>
        cases called
        exact ⟨taken, took, fun other mem => .inr (ofReads other mem)⟩
      | reading =>
        cases called
        exact ⟨taken, took, fun other mem => .inr (ofReads other mem)⟩

theorem catchup_ends {head : Nat}
    (committed : ∀ log, some log ∈ reads → Committed runID log ∧ log.length ≤ head)
    (succeed : none ∉ reads) (nonempty : reads ≠ []) {state : Tailer × σ} (start : 0 ≤ state.1.lastSeq)
    (enough : head < state.1.lastSeq + state.1.pageSize * reads.length) :
    (Tailer.catchup deliver reads state).1 = .ended := by
  induction reads generalizing state with
  | nil => exact absurd rfl nonempty
  | cons read reads ih =>
    cases read with
    | none => exact absurd mem_cons_self succeed
    | some log =>
      obtain ⟨isLog, _⟩ := committed log mem_cons_self
      have took : Took deliver _ state _ :=
        foldl_takeRow (eventsAfter_consecutive isLog start state.1.pageSize)
      rw [Tailer.catchup]
      by_cases short : (eventsAfter log state.1.lastSeq state.1.pageSize).length < state.1.pageSize
      · rw [if_pos short]
      · rw [if_neg short]
        have full : (eventsAfter log state.1.lastSeq state.1.pageSize).length = state.1.pageSize :=
          le_antisymm (length_take_le _ _) (not_lt.mp short)
        have positive := state.1.positive
        -- the last row of a full page is an event of the log
        have inside : state.1.lastSeq + state.1.pageSize ≤ head := by
          have last : state.1.lastSeq + state.1.pageSize ∈
              (eventsAfter log state.1.lastSeq state.1.pageSize).map Envelope.seq := by
            refine took.consecutive.mem.mpr ⟨by omega, ?_⟩
            rw [length_map, full]
          obtain ⟨env, listed, _⟩ := mem_map.mp last
          have logged : env ∈ log := (mem_filter.mp (mem_of_mem_take listed)).1
          have bound := (isLog.gapFree.mem.mp (mem_map_of_mem logged)).2
          rw [length_map] at bound
          omega
        have rest : reads ≠ [] := by
          rintro rfl
          simp at enough
          omega
        refine ih (fun log member => committed log (mem_cons_of_mem _ member))
          (fun member => succeed (mem_cons_of_mem _ member)) rest (took.nonneg start) ?_
        rw [took.lastSeq, took.pageSize, full]
        rw [length_cons] at enough
        push_cast at enough
        rw [Int.mul_add, Int.mul_one] at enough
        omega

end Calls

inductive Call (π : Type) where
  | offer (env : Envelope π) (reads : List (Read π))
  | catchup (reads : List (Read π))

section Tails

variable (deliver : Envelope π → σ → σ)

def Call.reads : Call π → List (Read π)
  | .offer _ reads => reads
  | .catchup reads => reads

def Call.perform (state : Tailer × σ) : Call π → Tailer × σ
  | .offer env reads => (Tailer.offer deliver env reads state).2
  | .catchup reads => (Tailer.catchup deliver reads state).2

def performAll (calls : List (Call π)) (state : Tailer × σ) : Tailer × σ :=
  calls.foldl (Call.perform deliver) state

variable {deliver}

theorem Call.took {runID} (call : Call π)
    (committed : ∀ log, some log ∈ call.reads → Committed runID log) {state}
    (start : 0 ≤ state.1.lastSeq) : ∃ taken, Took deliver taken state (call.perform deliver state) := by
  cases call with
  | offer env reads =>
    have called : Tailer.offer deliver env reads state = (_, _) := rfl
    obtain ⟨taken, took, _⟩ := offer_took committed start called
    exact ⟨taken, took⟩
  | catchup reads =>
    have called : Tailer.catchup deliver reads state = (_, _) := rfl
    obtain ⟨taken, took, _⟩ := catchup_took committed start called
    exact ⟨taken, took⟩

theorem performAll_took
    (committed : ∀ call ∈ calls, ∀ log, some log ∈ call.reads → Committed runID log)
    (state : Tailer × σ) (start : 0 ≤ state.1.lastSeq) :
    ∃ taken, Took deliver taken state (performAll deliver calls state) := by
  induction calls generalizing state with
  | nil => exact ⟨[], .nothing state⟩
  | cons call calls ih =>
    obtain ⟨taken, took⟩ := call.took (committed call mem_cons_self) start
    obtain ⟨later, tookLater⟩ := ih (fun other mem => committed other
      (mem_cons_of_mem _ mem)) _ (took.nonneg start)
    exact ⟨taken ++ later, took.append tookLater⟩

def keep (env : Envelope π) (delivered : List (Envelope π)) : List (Envelope π) := delivered ++ [env]

theorem deliverAll_keep (taken delivered : List (Envelope π)) :
    deliverAll keep taken delivered = delivered ++ taken := by
  induction taken generalizing delivered with
  | nil => simp [deliverAll]
  | cons env rest ih => simpa [deliverAll, keep] using ih (delivered ++ [env])

theorem Took.kept {runID cursor pageSize taken} {state : Tailer × List (Envelope π)}
    (took : Took keep taken (newTailer runID cursor pageSize, []) state) :
    Consecutive cursor (state.2.map Envelope.seq) ∧ state.1.lastSeq = cursor + state.2.length := by
  have delivered : state.2 = taken := by
    rw [took.rest, deliverAll_keep, nil_append]
  have consecutive := took.consecutive
  have position := took.lastSeq
  rw [newTailer_lastSeq] at consecutive position
  rw [delivered]
  exact ⟨consecutive, position⟩

end Tails

/-- Whatever is offered and whichever reads fail, the events after the cursor are delivered one by
one, and a catch-up that ends has delivered everything that was committed before it began. -/
theorem tail_gap_free {π : Type} (runID : RunID) (cursor : Int) (nonneg : 0 ≤ cursor) (pageSize : Int)
    (calls : List (Call π))
    (committed : ∀ call ∈ calls, ∀ log, some log ∈ call.reads → Committed runID log) :
    Consecutive cursor
        ((performAll keep calls (newTailer runID cursor pageSize, [])).2.map Envelope.seq) ∧
      ∀ (before : List (Envelope π)) (reads : List (Read π)) (state : Tailer × List (Envelope π)),
        (∀ log, some log ∈ reads → Committed runID log ∧ before <+: log) →
        Tailer.catchup keep reads (performAll keep calls (newTailer runID cursor pageSize, [])) =
          (.ended, state) → Consecutive cursor (state.2.map Envelope.seq) ∧
          ∀ env ∈ before, cursor < env.seq → env.seq ∈ state.2.map Envelope.seq := by
  have start : 0 ≤ (newTailer runID cursor pageSize).lastSeq := by
    rw [newTailer_lastSeq]
    exact nonneg
  obtain ⟨taken, took⟩ : ∃ taken, Took keep taken _ _ :=
    performAll_took committed (newTailer runID cursor pageSize, []) start
  obtain ⟨delivered, _⟩ := took.kept
  refine ⟨delivered, fun before reads state whole ended => ?_⟩
  obtain ⟨_, tookLater, _, heads⟩ :=
    catchup_took (fun log member => (whole log member).1) (took.nonneg start) ended
  obtain ⟨all, upTo⟩ := (took.append tookLater).kept
  refine ⟨all, fun env member above => all.mem.mpr ⟨above, ?_⟩⟩
  obtain ⟨log, read, head⟩ := heads rfl
  rw [length_map, ← upTo]
  exact head env ((whole log read).2.subset member)

def shakyLog : List (Envelope Unit) := [⟨7, 1, ()⟩, ⟨7, 2, ()⟩, ⟨7, 3, ()⟩]

def shakyCalls : List (Call Unit) :=
  [.offer ⟨7, 3, ()⟩ [none], .offer ⟨7, 2, ()⟩ [some [⟨7, 1, ()⟩]]]

theorem shakyCalls_committed :
    ∀ call ∈ shakyCalls, ∀ log, some log ∈ call.reads → Committed 7 log := by
  simp only [shakyCalls, forall_mem_cons, Call.reads, mem_singleton, Option.some.injEq,
    reduceCtorEq, forall_eq, false_implies, implies_true, true_and]
  exact ⟨by simp, by decide⟩

theorem tail_gap_free_shakyCalls :
    (performAll keep shakyCalls (newTailer 7 0 0, [])).2.map Envelope.seq = [1, 2] ∧
      ∀ env ∈ shakyLog, 0 < env.seq → env.seq ∈ (Tailer.catchup keep [some shakyLog]
        (performAll keep shakyCalls (newTailer 7 0 0, []))).2.2.map Envelope.seq := by
  refine ⟨by decide, ((tail_gap_free 7 0 (by decide) 0 shakyCalls shakyCalls_committed).2 shakyLog
    [some shakyLog] _ ?_ rfl).2⟩
  intro log read
  obtain rfl : log = shakyLog := Option.some.inj (mem_singleton.mp read)
  exact ⟨⟨by decide, by decide⟩, prefix_refl _⟩

theorem committed_of_sequenced (sequenced : Store.Sequenced s) (runID : RunID) :
    Committed runID (envelopes runID s) := by
  refine ⟨by simp [envelopes], ?_⟩
  have numbers := consecutive_range 0 s.run.nextSeq
  rw [Nat.zero_add, ← sequenced] at numbers
  simpa [envelopes, Function.comp_def] using numbers

/-- Whatever a tail of a run was offered and has read, a catch-up that reads the log often enough
ends and has delivered, once and in order, all that was recorded before it began. -/
theorem history_is_tailed (definitionLint : Dag.DefinitionLint) (env : Engine.Environment)
    (history : Engine.History definitionLint env states) (runID : RunID) (cursor pageSize : Int)
    (nonneg : 0 ≤ cursor) (calls : List (Call Store.Event))
    (tails : ∀ call ∈ calls, ∀ log, some log ∈ call.reads → ∃ s ∈ states, log = envelopes runID s)
    (before : Store.RunStore) (reads : List Store.RunStore) (nonempty : reads ≠ [])
    (later : ∀ s ∈ reads, s ∈ states ∧ before.events <+: s.events)
    (enough : ∀ s ∈ reads,
      s.events.length < (newTailer runID cursor pageSize).pageSize * reads.length) :
    ∃ state, Tailer.catchup keep (reads.map fun s => some (envelopes runID s))
        (performAll keep calls (newTailer runID cursor pageSize, [])) = (.ended, state) ∧
      Consecutive cursor (state.2.map Envelope.seq) ∧
      ∀ row ∈ before.events, cursor < row.seq → (row.seq : Int) ∈ state.2.map Envelope.seq := by
  have committed : ∀ s ∈ states, Committed runID (envelopes runID s) := fun s listed =>
    committed_of_sequenced (history.invariant
      (Store.sequenced_invariant definitionLint env.lint .all) s listed).2 runID
  have start : 0 ≤ (newTailer runID cursor pageSize).lastSeq := by
    rw [newTailer_lastSeq]
    exact nonneg
  obtain ⟨taken, took⟩ : ∃ taken, Took keep taken (newTailer runID cursor pageSize, [])
      (performAll keep calls (newTailer runID cursor pageSize, [])) :=
    performAll_took (fun call member log read => by
      obtain ⟨s, listed, rfl⟩ := tails call member log read
      exact committed s listed) _ start
  have isRead : ∀ log, some log ∈ reads.map (fun s => some (envelopes runID s)) →
      ∃ s ∈ reads, envelopes runID s = log := by simp
  have bounded : ∀ log, some log ∈ reads.map (fun s => some (envelopes runID s)) →
      Committed runID log ∧
        log.length ≤ (newTailer runID cursor pageSize).pageSize * reads.length - 1 := by
    intro log read
    obtain ⟨s, inside, rfl⟩ := isRead log read
    rw [envelopes, length_map]
    exact ⟨committed s (later s inside).1, Nat.le_sub_one_of_lt (enough s inside)⟩
  have ended : (Tailer.catchup keep (reads.map fun s => some (envelopes runID s))
      (performAll keep calls (newTailer runID cursor pageSize, []))).1 = .ended := by
    refine catchup_ends bounded (by simp) (by simpa) (took.nonneg start) ?_
    have positive := Nat.mul_pos (newTailer runID cursor pageSize).positive
      (length_pos_of_ne_nil nonempty)
    have reached := took.nonneg start
    rw [took.pageSize, length_map, ← Int.natCast_mul]
    dsimp only
    omega
  obtain ⟨_, tookLater, _, heads⟩ :=
    catchup_took (fun log read => (bounded log read).1) (took.nonneg start) (Prod.ext ended rfl)
  obtain ⟨all, upTo⟩ := (took.append tookLater).kept
  refine ⟨_, Prod.ext ended rfl, all, fun row member above => all.mem.mpr ⟨above, ?_⟩⟩
  obtain ⟨log, read, head⟩ := heads rfl
  obtain ⟨s, inside, rfl⟩ := isRead log read
  rw [length_map, ← upTo]
  exact head _ (mem_map_of_mem ((later s inside).2.subset member))

theorem planned_history_is_tailed :
    ∃ state, Tailer.catchup keep [some (envelopes 7 Store.plannedRun)]
        (performAll keep [.offer ⟨7, 2, .stepReady "p"⟩ [none]] (newTailer 7 0 0, [])) =
          (.ended, state) ∧
      Consecutive 0 (state.2.map Envelope.seq) ∧
      ∀ row ∈ Store.plannedRun.events, (0 : Int) < row.seq →
        (row.seq : Int) ∈ state.2.map Envelope.seq :=
  history_is_tailed Dag.quietDefinitionLint ⟨Dag.quietPlanLint, fun _ _ => true⟩
    (.created Store.plannedRun_created) 7 0 0 (by decide) _ (by simp [Call.reads]) Store.plannedRun
    [Store.plannedRun] (by simp) (by simp) (by decide)

end Agentloom.Event
