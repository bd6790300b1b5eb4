import Agentloom.Engine.Dispatch

/-! The fan-out computes the fixed point of the reference rules. The engine keeps counters and a
worklist, the rules are recomputed from the sets of completed and skipped steps; on every run
without failures and expansions, whose verdicts are fixed, the two agree after every completion. -/

namespace Agentloom.Engine

open Transaction Store List

variable {verdict : EdgeVerdict} {s s' : RunStore} {graph : Dag.Graph} {fires fires' : Nat → Bool}
  {owed : List EdgeVerdict} {now : Time} {row : StepRow}

def verdictsFor (fires : Nat → Bool) (edges : List EdgeRow) : List EdgeVerdict :=
  (edges.filter fun edge => edge.edgeType == .normal).map fun edge =>
    { ordinal := edge.ordinal, fired := fires edge.ordinal }

/-- The runs of a graph in which claimed steps succeed, in any order, with the verdicts given. -/
inductive Plays (graph : Dag.Graph) (fires : Nat → Bool) : RunStore → Prop
  | opened {entry : List String} {params : Json} {budgetNanoUSD : Option Int} {now : Time}
      {s : RunStore} (planned : planInstantiation graph.definition = .ok entry)
      (same : SameGraph (initialStore graph.definition entry params budgetNanoUSD now) s) :
      Plays graph fires s
  | claimed {stepID workerID : String} {claimID : ClaimID} {now : Time} {s s' : RunStore}
      {row : StepRow} (plays : Plays graph fires s)
      (claimed : claimStep stepID claimID workerID now s = (.ok row, s')) : Plays graph fires s'
  | completed {stepID : String} {claimID : ClaimID} {completion : Completion} {now : Time}
      {columns : Columns} {s s₁ s' : RunStore} {row : StepRow} {fan : FanOut}
      (plays : Plays graph fires s)
      (succeeded : succeedStep stepID claimID completion now columns s = (.ok row, s₁))
      (fanned : fanOut { stepID, verdicts := verdictsFor fires (listEdgesFromStep stepID s₁) } now s₁ =
        (.ok fan, s')) : Plays graph fires s'

def ruling (fires : Nat → Bool) (status : StepStatus) (ordinal : Nat) : EdgeResolution :=
  match status with
  | .succeeded => resolutionOf (fires ordinal)
  | .skipped => .skipped
  | _ => .unresolved

def LeadsTo (edges : List EdgeRow) (id : String) : Prop :=
  ∃ edge ∈ edges, edge.edgeType = .normal ∧ edge.toStep = id

def Placed (edges : List EdgeRow) (row : StepRow) : Prop :=
  match row.status with
  | .pending => Waits row
  | .ready => LeadsTo edges row.stepID → Countable row
  | .running => LeadsTo edges row.stepID → Countable row
  | .succeeded => LeadsTo edges row.stepID → Countable row
  | .skipped => row.remainingDeps = 0 ∧ row.firedDeps = 0 ∧ LeadsTo edges row.stepID
  | _ => False

def rowShape (row : StepRow) : String × Dag.StepType × Dag.StepConfig :=
  (row.stepID, row.stepType, row.config)

def stepShape (step : Dag.Step) : String × Dag.StepType × Dag.StepConfig :=
  (step.id, step.type, step.config)

def edgeShape (edge : EdgeRow) : Nat × String × String × Dag.EdgeType :=
  (edge.ordinal, edge.fromStep, edge.toStep, edge.edgeType)

structure Playing (graph : Dag.Graph) (fires : Nat → Bool) (owed : List EdgeVerdict)
    (s : RunStore) : Prop where
  unique : UniqueSteps s
  wired : Wired s
  flowing : Flowing (Owed owed) s
  steps : s.steps.map rowShape = graph.definition.steps.map stepShape
  edges : s.edges.map edgeShape = (initialEdges graph.definition).map edgeShape
  placed : ∀ row ∈ s.steps, Placed s.edges row
  ruled : ∀ edge ∈ s.edges, edge.edgeType = .normal → edge.resolution ≠ .unresolved →
    ∀ source ∈ s.steps, source.stepID = edge.fromStep →
      edge.resolution = ruling fires source.status edge.ordinal
  owes : ∀ verdict ∈ owed, ∃ edge ∈ s.edges, edge.edgeType = .normal ∧
    edge.ordinal = verdict.ordinal ∧ ∀ source ∈ s.steps, source.stepID = edge.fromStep →
      resolutionOf verdict.fired = ruling fires source.status edge.ordinal

theorem resolutionOf_ne (fired : Bool) : resolutionOf fired ≠ .unresolved := by
  cases fired <;> decide

theorem settle_skipped
    (became : settle joinAny remaining fired .pending = .skipped) : remaining = 0 ∧ fired = 0 := by
  unfold settle at became
  split_ifs at became with satisfied unfired
  exact unfired

section Resolved

variable {edge : EdgeRow} {old new : StepRow} (resolves : Resolves verdict s s' edge old new)

include resolves

theorem Resolves.leadsTo_iff {id} : LeadsTo s'.edges id ↔ LeadsTo s.edges id := by
  constructor
  · rintro ⟨other, mem, normal, into⟩
    rcases resolves.edges.mem_of_mem mem with rfl | inside
    · exact ⟨edge, resolves.edges.old_mem, normal, into⟩
    · exact ⟨other, inside, normal, into⟩
  · rintro ⟨other, mem, normal, into⟩
    rcases resolves.edges.mem_or_old mem with rfl | inside
    · exact ⟨_, resolves.edges.new_mem, normal, into⟩
    · exact ⟨other, inside, normal, into⟩

theorem Resolves.placed (placed : Placed s.edges old) : Placed s'.edges new := by
  have leads : LeadsTo s.edges old.stepID :=
    ⟨edge, resolves.edges.old_mem, resolves.normal.1, resolves.into.symm⟩
  have joins := resolves.isJoinAny_eq
  have counts : Countable old → Countable new := by
    rintro ⟨someFired, complete⟩
    have fired := resolves.fired
    have owed := resolves.owed
    exact ⟨by omega, .inr (joins.trans (complete.resolve_left (by omega)))⟩
  have taken : ∀ status : StepStatus, old.status = status → new.status = old.status →
      Placed s'.edges new := by
    intro status isStatus same
    unfold Placed at placed ⊢
    rw [same]
    rw [isStatus] at placed ⊢
    cases status with
    | pending => exact resolves.waits (same.trans isStatus)
    | ready => exact fun _ => counts (placed leads)
    | running => exact fun _ => counts (placed leads)
    | succeeded => exact fun _ => counts (placed leads)
    | skipped =>
      have owed := resolves.owed
      have none : old.remainingDeps = 0 := placed.1
      omega
    | _ => exact placed
  rcases resolves.status_cases with ⟨same, _⟩ | ⟨pending, became | became | became⟩
  · exact taken _ rfl same
  · exact taken _ pending (became.trans pending.symm)
  · have status := resolves.status
    rw [pending, became] at status
    unfold settle at status
    split_ifs at status with satisfied
    obtain ⟨someFired, complete⟩ := satisfied
    unfold Placed
    rw [became]
    exact fun _ => ⟨someFired, complete.imp_right joins.trans⟩
  · have status := resolves.status
    rw [pending, became] at status
    obtain ⟨none, unfired⟩ := settle_skipped status.symm
    unfold Placed
    rw [became]
    refine ⟨none, unfired, ?_⟩
    rw [resolves.stepID, resolves.leadsTo_iff]
    exact leads

theorem Resolves.ruling (fires : Nat → Bool) (mem : source' ∈ s'.steps) :
    ∃ source ∈ s.steps, source.stepID = source'.stepID ∧ ∀ ordinal,
      Engine.ruling fires source.status ordinal ≠ .unresolved →
        Engine.ruling fires source'.status ordinal = Engine.ruling fires source.status ordinal := by
  rcases resolves.steps.mem_of_mem mem with rfl | inside
  · refine ⟨old, resolves.steps.old_mem, resolves.stepID.symm, fun ordinal settled => ?_⟩
    rcases resolves.status_cases with ⟨same, _⟩ | ⟨pending, _⟩
    · rw [same]
    · rw [pending] at settled
      exact absurd rfl settled
  · exact ⟨source', inside, rfl, fun _ _ => rfl⟩

theorem Playing.resolved {graph fires owed}
    (playing : Playing graph fires (verdict :: owed) s) (wired' : Wired s') :
    Playing graph fires (owed ++ (reactionOf s' old new).verdicts) s' := by
  have unique' := resolves.uniqueSteps playing.unique
  obtain ⟨_, _, ordinal⟩ := resolves.normal
  refine ⟨unique', wired', playing.flowing.resolved resolves playing.unique playing.wired.ordinals,
    ?_, ?_, ?_, ?_, ?_⟩
  · rw [resolves.steps.map_eq rowShape]
    · exact playing.steps
    · simp [rowShape, resolves.stepID, resolves.stepType, resolves.config]
  · rw [resolves.edges.map_eq edgeShape rfl]
    exact playing.edges
  · intro row mem
    rcases resolves.steps.mem_of_mem mem with rfl | inside
    · exact resolves.placed (playing.placed old resolves.steps.old_mem)
    · have placed := playing.placed row inside
      unfold Placed at placed ⊢
      simp only [resolves.leadsTo_iff]
      exact placed
  · intro other mem isNormal isResolved source' mem' leaves
    obtain ⟨source, inside, named, kept⟩ := resolves.ruling fires mem'
    rcases resolves.edges.mem_of_mem mem with rfl | earlier
    · obtain ⟨found, listed, _, sameOrdinal, rules⟩ := playing.owes verdict mem_cons_self
      obtain rfl := Table.eq_of_key playing.wired.ordinals listed resolves.edges.old_mem
        (sameOrdinal.trans ordinal.symm)
      have rule := rules source inside (named.trans leaves)
      rw [kept _ (rule ▸ resolutionOf_ne _)]
      exact rule
    · have rule := playing.ruled other earlier isNormal isResolved source inside (named.trans leaves)
      rw [kept _ (rule ▸ isResolved)]
      exact rule
  · intro verdict' mem
    rcases mem_append.mp mem with later | added
    · obtain ⟨found, listed, isNormal, sameOrdinal, rules⟩ :=
        playing.owes verdict' (mem_cons_of_mem _ later)
      have rules' : ∀ source' ∈ s'.steps, source'.stepID = found.fromStep →
          resolutionOf verdict'.fired = Engine.ruling fires source'.status found.ordinal := by
        intro source' mem' leaves
        obtain ⟨source, inside, named, kept⟩ := resolves.ruling fires mem'
        have rule := rules source inside (named.trans leaves)
        rw [kept _ (rule ▸ resolutionOf_ne _)]
        exact rule
      rcases resolves.edges.mem_or_old listed with rfl | inside
      · exact ⟨_, resolves.edges.new_mem, isNormal, sameOrdinal, rules'⟩
      · exact ⟨found, inside, isNormal, sameOrdinal, rules'⟩
    · unfold reactionOf at added
      split_ifs at added
      · cases added
      cases status : new.status <;> rw [status] at added <;> first | cases added | skip
      obtain ⟨found, listed, rfl⟩ := mem_map.mp
        (show verdict' ∈ allSkippedVerdicts (listEdgesFromStep new.stepID s') from added)
      obtain ⟨leaves, isNormal⟩ := mem_filter.mp listed
      obtain ⟨inside, isSource⟩ := mem_listEdgesFromStep.mp leaves
      refine ⟨found, inside, by simpa using isNormal, rfl, fun source mem' named => ?_⟩
      obtain rfl := Table.eq_of_key unique' mem' resolves.steps.new_mem (named.trans isSource)
      rw [status]
      rfl

end Resolved

theorem Playing.step (playing : Playing graph fires (verdict :: owed) s)
    (ok : resolveVerdict verdict now s = (.ok reaction, s')) :
    Playing graph fires (owed ++ reaction.verdicts) s' := by
  have reaches : Reaches Dag.quietPlanLint .all s s' := (resolveVerdict_sound verdict).of_ok ok
  rcases resolveVerdict_ok playing.unique ok with ⟨rfl, rfl, missed⟩ | ⟨_, _, _, resolves, rfl⟩
  · refine (append_nil owed).symm ▸ ?_
    exact ⟨playing.unique, playing.wired, playing.flowing.absorbed missed, playing.steps,
      playing.edges, playing.placed, playing.ruled,
      fun other mem => playing.owes other (mem_cons_of_mem _ mem)⟩
  · exact playing.resolved resolves (wired_of_reaches reaches playing.unique playing.wired)

theorem Playing.resolveEdge_total (playing : Playing graph fires (verdict :: owed) s)
    (timed : now ≠ 0) : resolveEdge verdict.ordinal verdict.fired now s ≠ (.error e, s') := by
  obtain ⟨edge, mem, normal, ordinal, rules⟩ := playing.owes verdict mem_cons_self
  rw [← ordinal]
  refine playing.wired.resolveEdge_total mem normal (fun closed => ?_) timed
  -- an edge that was resolved before was resolved the same way
  obtain ⟨source, inside, named⟩ := mem_map.mp (playing.wired.ends edge mem).1
  rw [rules source inside named]
  exact playing.ruled edge mem normal closed source inside named

theorem Playing.total (playing : Playing graph fires (verdict :: owed) s) (timed : now ≠ 0) :
    resolveVerdict verdict now s ≠ (.error e, s') :=
  resolveVerdict_total timed fun _ _ => playing.resolveEdge_total timed

theorem Playing.fanOut (playing : Playing graph fires source.verdicts s) (timed : now ≠ 0) :
    ∃ fan s', Engine.fanOut source now s = (.ok fan, s') ∧ Playing graph fires [] s' := by
  have step : ∀ verdict owed s reaction s', Playing graph fires (verdict :: owed) s →
      resolveVerdict verdict now s = (.ok reaction, s') →
      Playing graph fires (owed ++ reaction.verdicts) s' :=
    fun _ _ _ _ _ playing ok => playing.step ok
  have rule := fanOut_rule (fun _ _ playing => playing.unique) step playing
  cases outcome : Engine.fanOut source now s with
  | mk result s' =>
    rw [outcome] at rule
    cases result with
    | ok fan => exact ⟨fan, s', rfl, rule⟩
    | error e =>
      obtain ⟨_, _, t, _, playing', failed⟩ := rule
      exact absurd failed (playing'.total timed)

variable {stepID : String} {claimID : ClaimID}

theorem Playing.of_same (playing : Playing graph fires owed s) (same : SameGraph s s') :
    Playing graph fires owed s' := by
  obtain ⟨steps, edges, _, _⟩ := same
  refine ⟨?_, playing.wired.of_shapes edges (by rw [steps]), playing.flowing.of_same steps edges, ?_,
    ?_, ?_, ?_, ?_⟩
  · unfold UniqueSteps
    rw [steps]
    exact playing.unique
  · rw [steps]
    exact playing.steps
  · rw [edges]
    exact playing.edges
  · rw [steps, edges]
    exact playing.placed
  · rw [steps, edges]
    exact playing.ruled
  · rw [steps, edges]
    exact playing.owes

theorem Playing.start (acyclic : Dag.EdgesAcyclic graph.definition.edges)
    (planned : planInstantiation graph.definition = .ok entry) :
    Playing graph fires [] (initialStore graph.definition entry params budgetNanoUSD now) := by
  have built := Dag.newGraph_of_resolved graph.unique graph.resolved
  have isEntry : ∀ id ∈ entry, inDegree graph.definition.edges id = 0 := by
    intro id mem
    rw [planInstantiation_eq built acyclic] at planned
    cases planned
    obtain ⟨step, inside, rfl⟩ := mem_map.mp mem
    simpa using (mem_filter.mp inside).2
  have isPending : ∀ step ∈ graph.definition.steps, step.id ∉ entry →
      0 < inDegree graph.definition.edges step.id := by
    intro step mem absent
    rw [planInstantiation_eq built acyclic] at planned
    cases planned
    refine Nat.pos_of_ne_zero fun none => absent (mem_map_of_mem (mem_filter.mpr ?_))
    exact ⟨mem, by simpa using none⟩
  have waits : ∀ step ∈ graph.definition.steps, step.id ∉ entry → ∀ row : StepRow,
      row.remainingDeps = inDegree graph.definition.edges step.id → row.firedDeps = 0 →
      Waits row := by
    intro step mem absent row remaining unfired
    exact ⟨remaining ▸ isPending step mem absent, fun _ => unfired⟩
  refine ⟨?_, initialStore_wired graph.resolved, ⟨?_, ?_⟩, ?_, rfl, ?_, ?_, ?_⟩
  · change ((initialSteps graph.definition entry now).map StepRow.stepID).Nodup
    rw [initialSteps_stepID]
    exact graph.unique
  · intro edge _ _ _ row mem _ settled
    rcases initialSteps_unsettled row mem with ready | pending
    · simp [ready, isSettled] at settled
    · simp [pending, isSettled] at settled
  · intro row mem pending
    obtain ⟨step, inside, rfl⟩ := mem_map.mp mem
    refine waits step inside (fun listed => ?_) _ rfl rfl
    simp [stepRowParams, listed] at pending
  · change (initialSteps graph.definition entry now).map rowShape = _
    rw [initialSteps, map_map]
    rfl
  · intro row mem
    obtain ⟨step, inside, rfl⟩ := mem_map.mp mem
    by_cases listed : step.id ∈ entry
    · have contained : entry.contains step.id = true := by simpa using listed
      simp only [stepRowParams, contained, if_true]
      rintro ⟨edge, isEdge, normal, into⟩
      obtain ⟨placed, isPlaced, rfl⟩ := mem_map.mp isEdge
      have missed := countP_eq_zero.mp (isEntry step.id listed) placed.1
        (fst_mem_of_mem_zipIdx isPlaced)
      have isNormal : placed.1.type = .normal := normal
      have isInto : placed.1.toStep = step.id := into
      simp [Dag.Edge.isLoop, isNormal, isInto] at missed
    · have absent : entry.contains step.id = false := by simpa using listed
      simp only [stepRowParams, absent, Bool.false_eq_true, if_false]
      exact waits step inside listed _ rfl rfl
  · intro edge mem _ resolved
    obtain ⟨_, _, rfl⟩ := mem_map.mp mem
    exact absurd rfl resolved
  · intro verdict mem
    cases mem

theorem Playing.shifted {old new} (playing : Playing graph fires [] s)
    (shifted : Shifted s s' old new) (shape : rowShape new = rowShape old)
    (before : old.status = .ready ∨ old.status = .running)
    (after : new.status = .running ∨ new.status = .succeeded) (flowing : Flowing (Owed owed) s')
    (owes : ∀ verdict ∈ owed, ∃ edge ∈ s'.edges, edge.edgeType = .normal ∧
      edge.ordinal = verdict.ordinal ∧ ∀ source ∈ s'.steps, source.stepID = edge.fromStep →
        resolutionOf verdict.fired = ruling fires source.status edge.ordinal) :
    Playing graph fires owed s' := by
  refine ⟨shifted.uniqueSteps playing.unique, shifted.wired playing.wired, flowing, ?_, ?_, ?_, ?_,
    owes⟩
  · rw [shifted.replaced.map_eq rowShape shape]
    exact playing.steps
  · rw [shifted.edges]
    exact playing.edges
  · rw [shifted.edges]
    intro row mem
    rcases shifted.replaced.mem_of_mem mem with rfl | inside
    · have counts : LeadsTo s.edges row.stepID → Countable row := by
        have placed := playing.placed old shifted.replaced.old_mem
        unfold Placed at placed
        unfold Countable
        rw [shifted.place.stepID, shifted.place.remaining, shifted.place.fired, shifted.place.joins]
        rcases before with status | status
        · rw [status] at placed
          exact placed
        · rw [status] at placed
          exact placed
      unfold Placed
      rcases after with status | status
      · rw [status]
        exact counts
      · rw [status]
        exact counts
    · exact playing.placed row inside
  · rw [shifted.edges]
    intro edge mem normal resolved source inside named
    rcases shifted.replaced.mem_of_mem inside with rfl | earlier
    · have rule := playing.ruled edge mem normal resolved old shifted.replaced.old_mem
        (shifted.place.stepID.symm.trans named)
      refine absurd ?_ resolved
      rw [rule]
      rcases before with status | status
      · rw [status]
        rfl
      · rw [status]
        rfl
    · exact playing.ruled edge mem normal resolved source earlier named

theorem Playing.claimed {workerID} (playing : Playing graph fires [] s)
    (ok : claimStep stepID claimID workerID now s = (.ok row, s')) : Playing graph fires [] s' := by
  obtain ⟨_, old, steps, attempt, _, claims, rfl, replaced, _, _, _, _, _, rfl⟩ :=
    claimStep_ok _ _ _ ok
  have shifted : Shifted s (RunStore.record { s with steps, attempts := s.attempts ++ [attempt] }
      (.stepClaimed stepID claimID (claimRow claimID now old).attemptCount workerID))
      old (claimRow claimID now old) :=
    ⟨replaced, ⟨rfl, rfl, rfl, rfl⟩, rfl, rfl, rfl⟩
  have isReady : old.status = .ready := by
    rcases claimable_status claims with isReady | retrying
    · exact isReady
    · have placed := playing.placed old replaced.old_mem
      unfold Placed at placed
      rw [retrying] at placed
      exact placed.elim
  refine playing.shifted shifted rfl (.inl isReady) (.inl rfl) ?_ (by simp)
  exact playing.flowing.shifted shifted (fun _ => id) (by rintro ⟨⟩) (by rintro ⟨⟩)

theorem Playing.succeeded (playing : Playing graph fires [] s)
    (ok : succeedStep stepID claimID completion now columns s = (.ok row, s')) :
    Playing graph fires (verdictsFor fires (listEdgesFromStep stepID s')) s' := by
  obtain ⟨_, named, held, rfl, shifted⟩ :=
    shifted_of_run (requireArgument_bind_ok ok) (succeed_moves _ _ _ _)
  have isSource : stepID = _ := named.symm.trans shifted.place.stepID.symm
  refine playing.shifted shifted rfl (.inr (heldBy_running _ held)) (.inr rfl) ?_ ?_
  · let source : TerminalSource :=
      { stepID, verdicts := verdictsFor fires (listEdgesFromStep stepID s') }
    have leaves : Flowing (fun edge => edge.fromStep = source.stepID) s' :=
      playing.flowing.shifted shifted (fun _ owed => by simp [Owed] at owed)
        (fun _ _ leaves => leaves.trans isSource.symm) nofun
    exact leaves.covered (by simp [Covers, source, verdictsFor])
  · intro verdict mem
    obtain ⟨edge, listed, rfl⟩ := mem_map.mp mem
    obtain ⟨inside, normal⟩ := mem_filter.mp listed
    obtain ⟨isEdge, leaves⟩ := mem_listEdgesFromStep.mp inside
    refine ⟨edge, isEdge, by simpa using normal, rfl, fun source mem' named' => ?_⟩
    obtain rfl := Table.eq_of_key (shifted.uniqueSteps playing.unique) mem'
      shifted.replaced.new_mem (named'.trans (leaves.trans isSource))
    rfl

theorem Playing.completed (playing : Playing graph fires [] s)
    (ok : succeedStep stepID claimID completion now columns s = (.ok row, s')) :
    ∃ fan t, Engine.fanOut { stepID, verdicts := verdictsFor fires (listEdgesFromStep stepID s') } now
      s' = (.ok fan, t) ∧ Playing graph fires [] t := by
  have timed : now ≠ 0 := by
    obtain ⟨_, _, checked, _⟩ := Tx.bind_ok (requireArgument_bind_ok ok)
    exact (requireNow_ok checked).1
  exact Playing.fanOut (by exact playing.succeeded ok) timed

theorem Plays.playing (acyclic : Dag.EdgesAcyclic graph.definition.edges)
    (plays : Plays graph fires s) : Playing graph fires [] s := by
  induction plays with
  | opened planned same => exact (Playing.start acyclic planned).of_same same
  | claimed _ ok ih => exact ih.claimed ok
  | completed _ succeeded fanned ih =>
    obtain ⟨_, t, ok, after⟩ := ih.completed succeeded
    rw [fanned] at ok
    cases ok
    exact after

def stateOf : StepStatus → Dag.StepState
  | .succeeded => .completed
  | .skipped => .skipped
  | _ => .pending

def statesOf (s : RunStore) : Dag.States := fun position =>
  (s.steps[position]?.map fun row => stateOf row.status).getD .pending

def ruleOf : EdgeResolution → Dag.EdgeResolution
  | .unresolved => .unresolved
  | .fired => .fired
  | .skipped => .skipped

variable {position : Nat}

section Rules

variable (playing : Playing graph fires [] s)

include playing

theorem Playing.step_at (found : s.steps[position]? = some row) :
    ∃ step, graph.definition.steps[position]? = some step ∧ rowShape row = stepShape step := by
  have shapes := congrArg (fun shapes => shapes[position]?) playing.steps
  simp only [getElem?_map, found, Option.map_some] at shapes
  obtain ⟨step, isStep, same⟩ := Option.map_eq_some_iff.mp shapes.symm
  exact ⟨step, isStep, same.symm⟩

theorem Playing.row_at (bound : position < graph.size) : ∃ row, s.steps[position]? = some row := by
  have length := congrArg length playing.steps
  simp only [length_map] at length
  exact ⟨_, getElem?_eq_getElem (by rw [length]; exact bound)⟩

theorem Playing.index_row (found : s.steps[position]? = some row) :
    graph.index row.stepID = position := by
  obtain ⟨step, isStep, same⟩ := playing.step_at found
  have named : row.stepID = step.id := congrArg Prod.fst same
  rw [named]
  exact Dag.Graph.index_of_get isStep

theorem Playing.declared (mem : row ∈ s.steps) : row.stepID ∈ graph.definition.stepIDs := by
  obtain ⟨_, found⟩ := mem_iff_getElem?.mp mem
  obtain ⟨step, isStep, same⟩ := playing.step_at found
  have named : row.stepID = step.id := congrArg Prod.fst same
  rw [named]
  exact mem_map_of_mem (mem_of_getElem? isStep)

theorem Playing.statesOf_index (mem : row ∈ s.steps) :
    statesOf s (graph.index row.stepID) = stateOf row.status := by
  obtain ⟨_, found⟩ := mem_iff_getElem?.mp mem
  rw [playing.index_row found, statesOf, found]
  rfl

theorem Playing.edge_iff : (∃ edge ∈ s.edges, edgeShape edge = (ordinal, shape)) ↔
      ∃ e, graph.definition.edges[ordinal]? = some e ∧ (e.fromStep, e.toStep, e.type) = shape := by
  rw [← mem_map, playing.edges, initialEdges, map_map, mem_map]
  constructor
  · rintro ⟨⟨e, _⟩, placed, same⟩
    obtain ⟨rfl, rest⟩ := Prod.mk.inj same
    exact ⟨e, mem_zipIdx_iff_getElem?.mp placed, rest⟩
  · rintro ⟨e, found, rfl⟩
    exact ⟨(e, ordinal), mem_zipIdx_iff_getElem?.mpr found, rfl⟩

theorem Playing.mem_inNormal_iff (mem : row ∈ s.steps) :
    ordinal ∈ graph.inNormal (graph.index row.stepID) ↔
      ∃ edge ∈ s.edges, edge.ordinal = ordinal ∧ edge.edgeType = .normal ∧
        edge.toStep = row.stepID := by
  rw [Dag.Graph.mem_inNormal]
  constructor
  · rintro ⟨e, found, normal, same⟩
    obtain ⟨edge, inside, shape⟩ := playing.edge_iff.mpr ⟨e, found, rfl⟩
    simp only [edgeShape, Prod.mk.injEq] at shape
    obtain ⟨isOrdinal, _, into, type⟩ := shape
    have isNormal : e.type = .normal := by
      cases kind : e.type with
      | normal => rfl
      | loop => simp [Dag.Edge.isLoop, kind] at normal
    refine ⟨edge, inside, isOrdinal, type.trans isNormal, ?_⟩
    rw [into]
    exact Dag.Graph.index_inj (graph.resolved e (mem_of_getElem? found)).2
      (playing.declared mem) same
  · rintro ⟨edge, inside, rfl, normal, into⟩
    obtain ⟨e, found, shape⟩ := playing.edge_iff.mp ⟨edge, inside, rfl⟩
    simp only [Prod.mk.injEq] at shape
    refine ⟨e, found, ?_, by rw [shape.2.1, into]⟩
    simp [Dag.Edge.isLoop, shape.2.2, normal]

theorem Playing.ruled_all (mem : edge ∈ s.edges) (normal : edge.edgeType = .normal)
    (inside : source ∈ s.steps) (named : source.stepID = edge.fromStep) :
    edge.resolution = ruling fires source.status edge.ordinal := by
  by_cases unresolved : edge.resolution = .unresolved
  · have unpaid : isSettled source.status = true → False := fun settled => by
      obtain ⟨_, owed, _⟩ := playing.flowing.paid edge mem normal unresolved source inside named
        settled
      cases owed
    rw [unresolved]
    cases status : source.status with
    | succeeded => exact (unpaid (by rw [status]; rfl)).elim
    | skipped => exact (unpaid (by rw [status]; rfl)).elim
    | _ => rfl
  · exact playing.ruled edge mem normal unresolved source inside named

variable
  (agree : ∀ edge ∈ s.edges, edge.edgeType = .normal → fires' edge.ordinal = fires edge.ordinal)

include agree

theorem Playing.resolve_eq (mem : edge ∈ s.edges) (normal : edge.edgeType = .normal) :
    graph.resolve fires' (statesOf s) edge.ordinal = ruleOf edge.resolution := by
  obtain ⟨source, inside, named⟩ := mem_map.mp (playing.wired.ends edge mem).1
  obtain ⟨e, found, shape⟩ := playing.edge_iff.mp ⟨edge, mem, rfl⟩
  simp only [Prod.mk.injEq] at shape
  rw [playing.ruled_all mem normal inside named, Dag.Graph.resolve,
    Dag.Graph.fromIdx_of_get found, shape.1, ← named, playing.statesOf_index inside]
  cases source.status with
  | succeeded =>
    simp only [stateOf, ruling, agree edge mem normal]
    cases fires edge.ordinal <;> rfl
  | _ => rfl

section Row

variable (member : row ∈ s.steps)

include member

theorem Playing.someFired_iff : (∃ ordinal ∈ graph.inNormal (graph.index row.stepID),
      graph.resolve fires' (statesOf s) ordinal = .fired) ↔ 1 ≤ row.firedDeps := by
  rw [playing.wired.fired row member, Nat.one_le_iff_ne_zero, Nat.ne_zero_iff_zero_lt, incoming,
    countP_pos_iff]
  constructor
  · rintro ⟨_, into, fired⟩
    obtain ⟨edge, inside, rfl, normal, isInto⟩ := (playing.mem_inNormal_iff member).mp into
    rw [playing.resolve_eq agree inside normal] at fired
    refine ⟨edge, inside, ?_⟩
    cases resolution : edge.resolution <;> simp [resolution, ruleOf] at fired
    simp [EdgeRow.isInto, normal, isInto, resolution]
  · rintro ⟨edge, inside, counted⟩
    simp only [EdgeRow.isInto, Bool.and_eq_true, beq_iff_eq] at counted
    refine ⟨edge.ordinal, (playing.mem_inNormal_iff member).mpr
      ⟨edge, inside, rfl, counted.1.1, counted.1.2⟩, ?_⟩
    rw [playing.resolve_eq agree inside counted.1.1, counted.2]
    rfl

theorem Playing.allResolved_iff : (∀ ordinal ∈ graph.inNormal (graph.index row.stepID),
      graph.resolve fires' (statesOf s) ordinal ≠ .unresolved) ↔ row.remainingDeps = 0 := by
  rw [playing.wired.remaining row member, incoming, countP_eq_zero]
  constructor
  · intro all edge inside counted
    simp only [EdgeRow.isInto, Bool.and_eq_true, beq_iff_eq] at counted
    refine all edge.ordinal ((playing.mem_inNormal_iff member).mpr
      ⟨edge, inside, rfl, counted.1.1, counted.1.2⟩) ?_
    rw [playing.resolve_eq agree inside counted.1.1, counted.2]
    rfl
  · intro none ordinal into unresolved
    obtain ⟨edge, inside, rfl, normal, isInto⟩ := (playing.mem_inNormal_iff member).mp into
    rw [playing.resolve_eq agree inside normal] at unresolved
    refine none edge inside ?_
    cases resolution : edge.resolution <;> simp [resolution, ruleOf] at unresolved
    simp [EdgeRow.isInto, normal, isInto, resolution]

omit agree in
theorem Playing.leadsTo_iff :
    LeadsTo s.edges row.stepID ↔ graph.inNormal (graph.index row.stepID) ≠ [] := by
  constructor
  · rintro ⟨edge, inside, normal, into⟩
    exact ne_nil_of_mem
      ((playing.mem_inNormal_iff member).mpr ⟨edge, inside, rfl, normal, into⟩)
  · intro nonempty
    obtain ⟨_, into⟩ := exists_mem_of_ne_nil _ nonempty
    obtain ⟨edge, inside, _, normal, isInto⟩ := (playing.mem_inNormal_iff member).mp into
    exact ⟨edge, inside, normal, isInto⟩

theorem Playing.allSkipped_iff : graph.AllSkipped fires' (statesOf s) (graph.index row.stepID) ↔
      LeadsTo s.edges row.stepID ∧ row.remainingDeps = 0 ∧ row.firedDeps = 0 := by
  rw [Dag.Graph.AllSkipped, playing.leadsTo_iff member, ← playing.allResolved_iff agree member]
  have unfired := not_congr (playing.someFired_iff agree member)
  rw [Nat.not_le, Nat.lt_one_iff] at unfired
  rw [← unfired]
  refine and_congr_right fun _ => ⟨fun all => ⟨fun ordinal into => ?_, ?_⟩, ?_⟩
  · simp [all ordinal into]
  · rintro ⟨ordinal, into, fired⟩
    simp [all ordinal into] at fired
  · rintro ⟨resolved, none⟩ ordinal into
    cases resolution : graph.resolve fires' (statesOf s) ordinal with
    | unresolved => exact absurd resolution (resolved ordinal into)
    | fired => exact absurd ⟨ordinal, into, resolution⟩ none
    | skipped => rfl

theorem Playing.skipped_iff (unfinished : row.status ≠ .succeeded) :
    graph.AllSkipped fires' (statesOf s) (graph.index row.stepID) ↔ row.status = .skipped := by
  rw [playing.allSkipped_iff agree member]
  have placed := playing.placed row member
  have taken : (LeadsTo s.edges row.stepID → Countable row) →
      ¬(LeadsTo s.edges row.stepID ∧ row.remainingDeps = 0 ∧ row.firedDeps = 0) := by
    rintro counts ⟨leads, _, _⟩
    have someFired := (counts leads).1
    omega
  unfold Placed at placed
  cases status : row.status <;> rw [status] at placed
  case pending =>
    refine iff_of_false ?_ nofun
    rintro ⟨_, _, _⟩
    have missing := placed.1
    omega
  case ready => exact iff_of_false (taken placed) nofun
  case running => exact iff_of_false (taken placed) nofun
  case succeeded => exact absurd status unfinished
  case skipped => exact iff_of_true ⟨placed.2.2, placed.1, placed.2.1⟩ rfl
  all_goals exact placed.elim

theorem Playing.ready_iff {step} (shape : rowShape row = stepShape step) :
    graph.readyNow fires' (statesOf s) (graph.index row.stepID) step = true ↔
      row.status = .ready ∨ row.status = .running := by
  have joins : Dag.joinMode step = some .any ↔ isJoinAny row = true := by
    simp only [rowShape, stepShape, Prod.mk.injEq] at shape
    simp only [Dag.joinMode, isJoinAny, shape.2.1, shape.2.2, Bool.and_eq_true, beq_iff_eq]
    by_cases isJoin : step.type = .join
    · simp only [isJoin, ne_eq, not_true_eq_false, if_false, true_and]
      cases step.config <;> simp
    · simp [isJoin]
  rw [Dag.Graph.readyNow_iff, playing.statesOf_index member, playing.someFired_iff agree member,
    playing.allResolved_iff agree member, joins]
  have placed := playing.placed row member
  have leads := playing.leadsTo_iff member
  have taken : (LeadsTo s.edges row.stepID → Countable row) →
      graph.inNormal (graph.index row.stepID) = [] ∨
        1 ≤ row.firedDeps ∧ (isJoinAny row = true ∨ row.remainingDeps = 0) := by
    intro counts
    refine or_iff_not_imp_left.mpr fun nonempty => ?_
    obtain ⟨someFired, complete⟩ := counts (leads.mpr nonempty)
    exact ⟨someFired, complete.symm⟩
  unfold Placed at placed
  cases status : row.status <;> rw [status] at placed
  case pending =>
    obtain ⟨missing, unfired⟩ := placed
    refine iff_of_false ?_ (by simp)
    rintro ⟨_, none | ⟨_, joined | _⟩⟩
    · have into : LeadsTo s.edges row.stepID := by
        rw [playing.wired.remaining row member] at missing
        obtain ⟨edge, inside, counted⟩ := countP_pos_iff.mp missing
        simp only [EdgeRow.isInto, Bool.and_eq_true, beq_iff_eq] at counted
        exact ⟨edge, inside, counted.1.1, counted.1.2⟩
      exact leads.mp into none
    · have none := unfired joined
      omega
    · omega
  case ready => exact iff_of_true ⟨rfl, taken placed⟩ (.inl rfl)
  case running => exact iff_of_true ⟨rfl, taken placed⟩ (.inr rfl)
  case succeeded => exact iff_of_false (by simp [stateOf]) (by simp)
  case skipped => exact iff_of_false (by simp [stateOf]) (by simp)
  all_goals exact placed.elim

end Row

theorem Playing.fixedPoint
    (inputs : ∀ position row, s.steps[position]? = some row → given position = stateOf row.status ∨
      given position = .pending ∧ row.status = .skipped) :
    graph.FixedPoint fires' given (statesOf s) := by
  intro position bound
  obtain ⟨row, found⟩ := playing.row_at bound
  have member := mem_of_getElem? found
  have isRow := playing.index_row found
  have skips := playing.skipped_iff agree member
  have input := inputs position row found
  rw [← isRow] at input ⊢
  rw [playing.statesOf_index member, Dag.Graph.outcome]
  by_cases succeeded : row.status = .succeeded
  · have completed : given (graph.index row.stepID) = .completed := by
      simpa [succeeded, stateOf] using input
    rw [completed, succeeded]
    rfl
  by_cases skipped : row.status = .skipped
  · rw [skipped] at input ⊢
    rcases input with isSkipped | ⟨isPending, _⟩
    · rw [isSkipped]
      rfl
    · rw [if_pos ⟨isPending, (skips succeeded).mpr skipped⟩]
      rfl
  · rw [if_neg fun both => skipped ((skips succeeded).mp both.2)]
    rcases input with same | ⟨_, isSkipped⟩
    · exact same.symm
    · exact absurd isSkipped skipped

end Rules

def idsIn (statuses : List StepStatus) (s : RunStore) : List String :=
  (s.steps.filter fun row => statuses.contains row.status).map StepRow.stepID

theorem ids_filter {steps : List Dag.Step} {rows : List StepRow}
    (shapes : rows.map rowShape = steps.map stepShape)
    (agree : ∀ position step row, steps[position]? = some step → rows[position]? = some row →
      p (step, offset + position) = q row) :
    ((steps.zipIdx offset).filter p).map (fun entry => entry.1.id) =
      (rows.filter q).map StepRow.stepID := by
  induction steps generalizing rows offset with
  | nil =>
    rw [map_nil, map_eq_nil_iff] at shapes
    rw [shapes]
    rfl
  | cons step rest ih =>
    cases rows with
    | nil => cases shapes
    | cons row others =>
      obtain ⟨same, shapes⟩ := cons.inj shapes
      have named : row.stepID = step.id := congrArg Prod.fst same
      have first : p (step, offset) = q row := agree 0 step row rfl rfl
      have later : ((rest.zipIdx (offset + 1)).filter p).map (fun entry => entry.1.id) =
          (others.filter q).map StepRow.stepID := by
        refine ih shapes fun position step row isStep isRow => ?_
        rw [Nat.add_assoc, Nat.add_comm 1]
        exact agree (position + 1) step row isStep isRow
      rw [zipIdx_cons, filter_cons, filter_cons, first]
      split
      · rw [map_cons, map_cons, later, named]
      · exact later

variable {statuses : List StepStatus}

section Listed

variable (playing : Playing graph fires [] s)

include playing

theorem Playing.mem_idsIn (found : s.steps[position]? = some row) :
    position ∈ (idsIn statuses s).map graph.index ↔ row.status ∈ statuses := by
  have member := mem_of_getElem? found
  simp only [idsIn, mem_map, mem_filter, contains_iff_mem]
  constructor
  · rintro ⟨_, ⟨other, ⟨inside, status⟩, rfl⟩, isIndex⟩
    have same : other.stepID = row.stepID := Dag.Graph.index_inj (playing.declared inside)
      (playing.declared member) (isIndex.trans (playing.index_row found).symm)
    rwa [← Table.eq_of_key playing.unique inside member same]
  · intro status
    exact ⟨_, ⟨row, ⟨member, status⟩, rfl⟩, playing.index_row found⟩

theorem Playing.idsIn_known : ∀ id ∈ idsIn statuses s, id ∈ graph.definition.stepIDs := by
  intro id mem
  obtain ⟨_, inside, rfl⟩ := mem_map.mp mem
  exact playing.declared (mem_filter.mp inside).1

theorem Playing.idsIn_nodup : (idsIn statuses s).Nodup :=
  playing.unique.sublist (filter_sublist.map StepRow.stepID)

theorem Playing.idsIn_disjoint : (idsIn [.succeeded] s ++ idsIn [.skipped] s).Nodup := by
  refine nodup_append.mpr ⟨playing.idsIn_nodup, playing.idsIn_nodup, ?_⟩
  rintro id first _ second rfl
  obtain ⟨_, inside, rfl⟩ := mem_map.mp first
  obtain ⟨_, inside', same⟩ := mem_map.mp second
  obtain ⟨mem, succeeded⟩ := mem_filter.mp inside
  obtain ⟨mem', skipped⟩ := mem_filter.mp inside'
  rw [Table.eq_of_key playing.unique mem' mem same] at skipped
  simp only [contains_iff_mem, mem_singleton] at succeeded skipped
  simp [succeeded] at skipped

variable (acyclic : Dag.EdgesAcyclic graph.definition.edges)
  (agree : ∀ edge ∈ s.edges, edge.edgeType = .normal → fires' edge.ordinal = fires edge.ordinal)

include acyclic agree

theorem Playing.answers {completed skipped : List String} {given : Dag.States}
    (inputs : graph.inputStates completed skipped [] = .ok given)
    (fits : ∀ position row, s.steps[position]? = some row → given position = stateOf row.status ∨
      given position = .pending ∧ row.status = .skipped) :
    graph.readyStepsWith fires' completed skipped [] = .ok (idsIn [.ready, .running] s,
      (s.steps.filter fun row => given (graph.index row.stepID) == .pending &&
        row.status == .skipped).map StepRow.stepID) := by
  rw [Dag.Graph.readyStepsWith_eq acyclic inputs (playing.fixedPoint agree fits)]
  congr 2
  · refine ids_filter playing.steps fun position step row isStep isRow => ?_
    obtain ⟨_, isFound, shape⟩ := playing.step_at isRow
    obtain rfl := Option.some.inj (isStep.symm.trans isFound)
    have rule := playing.ready_iff agree (mem_of_getElem? isRow) shape
    rw [playing.index_row isRow] at rule
    rw [Nat.zero_add, Bool.eq_iff_iff, rule]
    simp
  · refine ids_filter playing.steps fun position step row isStep isRow => ?_
    have state : statesOf s position = stateOf row.status := by
      rw [statesOf, isRow]
      rfl
    rw [Nat.zero_add, state, playing.index_row isRow]
    congr 1
    cases row.status <;> rfl

theorem Playing.answers_completed : graph.readyStepsWith fires' (idsIn [.succeeded] s) [] [] =
      .ok (idsIn [.ready, .running] s, idsIn [.skipped] s) := by
  have known : ∀ id ∈ idsIn [.succeeded] s ++ [], id ∈ graph.definition.stepIDs := by
    rw [append_nil]
    exact playing.idsIn_known
  have distinct : (idsIn [.succeeded] s ++ []).Nodup := by
    rw [append_nil]
    exact playing.idsIn_nodup
  rw [playing.answers acyclic agree (Dag.Graph.inputStates_ok known distinct)]
  · congr 2
    refine congrArg _ (filter_congr fun row mem => ?_)
    obtain ⟨position, isRow⟩ := mem_iff_getElem?.mp mem
    rw [playing.index_row isRow]
    simp only [map_nil, not_mem_nil, if_false, playing.mem_idsIn isRow]
    cases row.status <;> simp
  · intro position row isRow
    simp only [map_nil, not_mem_nil, if_false, playing.mem_idsIn isRow]
    cases row.status <;> simp [stateOf]

theorem Playing.answers_skipped :
    graph.readyStepsWith fires' (idsIn [.succeeded] s) (idsIn [.skipped] s) [] =
      .ok (idsIn [.ready, .running] s, []) := by
  have known : ∀ id ∈ idsIn [.succeeded] s ++ idsIn [.skipped] s, id ∈ graph.definition.stepIDs := by
    intro id mem
    rcases mem_append.mp mem with first | second
    · exact playing.idsIn_known id first
    · exact playing.idsIn_known id second
  rw [playing.answers acyclic agree (Dag.Graph.inputStates_ok known playing.idsIn_disjoint)]
  · congr 2
    rw [map_eq_nil_iff, filter_eq_nil_iff]
    intro row mem
    obtain ⟨position, isRow⟩ := mem_iff_getElem?.mp mem
    rw [playing.index_row isRow]
    simp only [playing.mem_idsIn isRow]
    cases row.status <;> simp
  · intro position row isRow
    simp only [playing.mem_idsIn isRow]
    cases row.status <;> simp [stateOf]

end Listed

def finalState (graph : Dag.Graph) (fires : Nat → Bool) (states : Dag.States)
    (position : Nat) (joins : Bool) : Dag.StepState :=
  if graph.AllSkipped fires states position then .skipped
  else if graph.inNormal position = [] ∨
      (∃ edge ∈ graph.inNormal position, graph.resolve fires states edge = .fired) ∧
        (joins = true ∨ ∀ edge ∈ graph.inNormal position,
          graph.resolve fires states edge ≠ .unresolved) then .completed
  else .pending

theorem finalState_congr (same : ∀ edge ∈ graph.inNormal position,
      states (graph.fromIdx edge) = states' (graph.fromIdx edge)) :
    finalState graph fires states position joins = finalState graph fires states' position joins := by
  have resolved : ∀ edge ∈ graph.inNormal position,
      graph.resolve fires states edge = graph.resolve fires states' edge := by
    intro edge into
    rw [Dag.Graph.resolve, Dag.Graph.resolve, same edge into]
  have all : graph.AllSkipped fires states position ↔ graph.AllSkipped fires states' position :=
    and_congr_right fun _ => forall₂_congr fun edge into => by rw [resolved edge into]
  have some : (∃ edge ∈ graph.inNormal position, graph.resolve fires states edge = .fired) ↔
      ∃ edge ∈ graph.inNormal position, graph.resolve fires states' edge = .fired :=
    exists_congr fun edge => and_congr_right fun into => by rw [resolved edge into]
  have none : (∀ edge ∈ graph.inNormal position, graph.resolve fires states edge ≠ .unresolved) ↔
      ∀ edge ∈ graph.inNormal position, graph.resolve fires states' edge ≠ .unresolved :=
    forall₂_congr fun edge into => by rw [resolved edge into]
  simp only [finalState, all, some, none]

theorem Playing.final (playing : Playing graph fires [] s) (mem : row ∈ s.steps)
    (still : row.status ≠ .ready ∧ row.status ≠ .running) : stateOf row.status =
      finalState graph fires (statesOf s) (graph.index row.stepID) (isJoinAny row) := by
  have same : ∀ edge ∈ s.edges, edge.edgeType = .normal → fires edge.ordinal = fires edge.ordinal :=
    fun _ _ _ => rfl
  have leads := playing.leadsTo_iff mem
  have skips := playing.allSkipped_iff same mem
  have supports : (graph.inNormal (graph.index row.stepID) = [] ∨
      (∃ edge ∈ graph.inNormal (graph.index row.stepID),
        graph.resolve fires (statesOf s) edge = .fired) ∧
        (isJoinAny row = true ∨ ∀ edge ∈ graph.inNormal (graph.index row.stepID),
          graph.resolve fires (statesOf s) edge ≠ .unresolved)) ↔
      (LeadsTo s.edges row.stepID → Countable row) := by
    rw [playing.someFired_iff same mem, playing.allResolved_iff same mem, leads,
      or_iff_not_imp_left, Countable, or_comm]
  have placed := playing.placed row mem
  unfold Placed at placed
  unfold finalState
  cases status : row.status <;> rw [status] at placed
  case pending =>
    obtain ⟨missing, unfired⟩ := placed
    rw [if_neg, if_neg]
    · rfl
    · rw [supports]
      intro counts
      have into : LeadsTo s.edges row.stepID := by
        rw [playing.wired.remaining row mem] at missing
        obtain ⟨edge, inside, counted⟩ := countP_pos_iff.mp missing
        simp only [EdgeRow.isInto, Bool.and_eq_true, beq_iff_eq] at counted
        exact ⟨edge, inside, counted.1.1, counted.1.2⟩
      obtain ⟨someFired, complete | joined⟩ := counts into
      · omega
      · have none := unfired joined
        omega
    · rw [skips]
      rintro ⟨_, _, _⟩
      omega
  case succeeded =>
    rw [if_neg, if_pos (supports.mpr placed)]
    · rfl
    · rw [skips]
      rintro ⟨isLed, _, _⟩
      have someFired := (placed isLed).1
      omega
  case skipped =>
    rw [if_pos (skips.mpr ⟨placed.2.2, placed.1, placed.2.1⟩)]
    rfl
  case ready => exact absurd status still.1
  case running => exact absurd status still.2
  all_goals exact placed.elim

theorem Playing.final_eq (acyclic : Dag.EdgesAcyclic graph.definition.edges)
    (playing : Playing graph fires [] s) (playing' : Playing graph fires [] s')
    (still : ∀ row ∈ s.steps, row.status ≠ .ready ∧ row.status ≠ .running)
    (still' : ∀ row ∈ s'.steps, row.status ≠ .ready ∧ row.status ≠ .running) :
    ∀ position < graph.size, statesOf s position = statesOf s' position := by
  refine Dag.Graph.eq_of_sources acyclic fun position bound sources => ?_
  obtain ⟨row, found⟩ := playing.row_at bound
  obtain ⟨row', found'⟩ := playing'.row_at bound
  have member := mem_of_getElem? found
  have member' := mem_of_getElem? found'
  have joins : isJoinAny row' = isJoinAny row := by
    obtain ⟨_, isStep, shape⟩ := playing.step_at found
    obtain ⟨_, isStep', shape'⟩ := playing'.step_at found'
    obtain rfl := Option.some.inj (isStep.symm.trans isStep')
    have shapes := shape'.trans shape.symm
    simp only [rowShape, Prod.mk.injEq] at shapes
    rw [isJoinAny, isJoinAny, shapes.2.1, shapes.2.2]
  have first := playing.statesOf_index member
  have second := playing'.statesOf_index member'
  rw [playing.index_row found] at first
  rw [playing'.index_row found'] at second
  rw [first, second, playing.final member (still row member),
    playing'.final member' (still' row' member'), playing.index_row found,
    playing'.index_row found', joins]
  exact finalState_congr sources

theorem Playing.idsIn_eq (playing : Playing graph fires [] s) {status : StepStatus}
    (settled : status = .succeeded ∨ status = .skipped) :
    idsIn [status] s = (graph.definition.steps.zipIdx.filter fun entry =>
      statesOf s entry.2 == stateOf status).map fun entry => entry.1.id := by
  refine (ids_filter playing.steps fun position step row isStep isRow => ?_).symm
  rw [Nat.zero_add, statesOf, isRow, Option.map_some, Option.getD_some]
  rcases settled with rfl | rfl
  · cases row.status <;> rfl
  · cases row.status <;> rfl

/-- On an acyclic graph, with fixed verdicts and steps completed in any order: after every claim and
completion the ready and skipped rows are those of the reference rules, every completion can be
routed, and where a play ends does not depend on the order. -/
theorem fanOut_computes_fixed_point (graph : Dag.Graph)
    (acyclic : Dag.EdgesAcyclic graph.definition.edges) (fires : Nat → Bool) :
    (∀ s, Plays graph fires s →
      graph.readyStepsWith fires (idsIn [.succeeded] s) [] [] =
          .ok (idsIn [.ready, .running] s, idsIn [.skipped] s) ∧
        graph.readyStepsWith fires (idsIn [.succeeded] s) (idsIn [.skipped] s) [] =
          .ok (idsIn [.ready, .running] s, []) ∧
        ((∀ edge ∈ s.edges, edge.edgeType = .normal → fires edge.ordinal = true) →
          graph.readySteps (idsIn [.succeeded] s) [] [] =
            .ok (idsIn [.ready, .running] s, idsIn [.skipped] s)) ∧
        ∀ stepID claimID completion now columns row t,
          succeedStep stepID claimID completion now columns s = (.ok row, t) →
          ∃ fan s', fanOut { stepID, verdicts := verdictsFor fires (listEdgesFromStep stepID t) } now
            t = (.ok fan, s')) ∧
      ∀ s s', Plays graph fires s → Plays graph fires s' →
        idsIn [.ready, .running] s = [] → idsIn [.ready, .running] s' = [] →
        idsIn [.succeeded] s = idsIn [.succeeded] s' ∧ idsIn [.skipped] s = idsIn [.skipped] s' := by
  constructor
  · intro s plays
    have playing := plays.playing acyclic
    refine ⟨playing.answers_completed acyclic fun _ _ _ => rfl,
      playing.answers_skipped acyclic fun _ _ _ => rfl, fun fired => ?_, ?_⟩
    · exact playing.answers_completed acyclic fun edge member normal => (fired edge member normal).symm
    · intro stepID claimID completion now columns row t ok
      obtain ⟨fan, s', fanned, _⟩ := playing.completed ok
      exact ⟨fan, s', fanned⟩
  · intro s s' plays plays' rest rest'
    have playing := plays.playing acyclic
    have playing' := plays'.playing acyclic
    have quiet : ∀ t, idsIn [.ready, .running] t = [] →
        ∀ row ∈ t.steps, row.status ≠ .ready ∧ row.status ≠ .running := by
      intro t none row member
      rw [idsIn, map_eq_nil_iff, filter_eq_nil_iff] at none
      simpa using none row member
    have same := playing.final_eq acyclic playing' (quiet s rest) (quiet s' rest')
    have lists : ∀ status, status = .succeeded ∨ status = .skipped →
        idsIn [status] s = idsIn [status] s' := by
      intro status settled
      rw [playing.idsIn_eq settled, playing'.idsIn_eq settled]
      refine congrArg _ (filter_congr fun entry member => ?_)
      have bound := (mem_zipIdx member).2.1
      rw [same entry.2 (by simpa [Dag.Graph.size] using bound)]
    exact ⟨lists _ (.inl rfl), lists _ (.inr rfl)⟩

/-! A step takes one of its two edges; the step of the other edge is skipped. -/

def forkGraph : Dag.Graph :=
  { definition :=
      { name := "fork"
        steps := [{ id := "a", type := .noop }, { id := "b", type := .noop },
          { id := "c", type := .noop }, { id := "d", type := .noop }]
        edges := [{ fromStep := "a", toStep := "b" }, { fromStep := "a", toStep := "c" },
          { fromStep := "c", toStep := "d" }] }
    unique := by decide
    resolved := by decide }

def forkFires (ordinal : Nat) : Bool := ordinal == 0

def forkOpened : RunStore := initialStore forkGraph.definition ["a"] "" none 1

def forkClaimed : RunStore := (claimStep "a" 7 "worker" 2 forkOpened).2

def forkSucceeded : RunStore := (succeedStep "a" 7 {} 3 {} forkClaimed).2

def forkRouted : RunStore :=
  (fanOut { stepID := "a", verdicts := verdictsFor forkFires (listEdgesFromStep "a" forkSucceeded) } 3
    forkSucceeded).2

theorem forkRouted_plays : Plays forkGraph forkFires forkRouted := by
  have opened : Plays forkGraph forkFires forkOpened := .opened (by decide) (.refl _)
  obtain ⟨_, claimed⟩ := Tx.ok_of_isOk (x := claimStep "a" 7 "worker" 2) (s := forkOpened) (by decide)
  obtain ⟨_, succeeded⟩ := Tx.ok_of_isOk (x := succeedStep "a" 7 {} 3) (s := forkClaimed) (by decide)
  obtain ⟨_, fanned⟩ := Tx.ok_of_isOk (x := fanOut
    { stepID := "a", verdicts := verdictsFor forkFires (listEdgesFromStep "a" forkSucceeded) } 3)
    (s := forkSucceeded) (by decide +kernel)
  exact .completed (.claimed opened claimed) succeeded fanned

theorem fork_follows_rules :
    forkGraph.readyStepsWith forkFires (idsIn [.succeeded] forkRouted) [] [] =
        .ok (idsIn [.ready, .running] forkRouted, idsIn [.skipped] forkRouted) ∧
      idsIn [.succeeded] forkRouted = ["a"] ∧ idsIn [.ready, .running] forkRouted = ["b"] ∧
      idsIn [.skipped] forkRouted = ["c", "d"] := by
  have acyclic : Dag.EdgesAcyclic forkGraph.definition.edges :=
    forkGraph.findCycles_nil_iff.mp (by decide)
  exact ⟨((fanOut_computes_fixed_point forkGraph acyclic forkFires).1 forkRouted forkRouted_plays).1,
    by decide +kernel, by decide +kernel, by decide +kernel⟩

end Agentloom.Engine
