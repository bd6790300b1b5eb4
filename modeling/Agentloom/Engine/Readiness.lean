import Agentloom.Engine.Dispatch
import Agentloom.Engine.Stranding

/-! No step runs before its predecessors are resolved. Only the fan-out looks at the counters, so
that what it established has to survive every later change of the graph: a step that was dispatched
once is never pending again in a run that has not ended, and an expansion widens pending steps
only. -/

namespace Agentloom.Engine

open Transaction Store Relation List Tx

variable {s s' : RunStore} {started : String → Prop} {now : Time} {env : Environment}
  {action : Action}

/-- The step has no incoming normal edge; or one of them fired and, unless the step is a join of
mode any, none is unresolved. -/
def Satisfied (edges : List EdgeRow) (row : StepRow) : Prop :=
  (∀ edge ∈ edges, edge.edgeType = .normal → edge.toStep ≠ row.stepID) ∨
    (∃ edge ∈ edges, edge.edgeType = .normal ∧ edge.toStep = row.stepID ∧
      edge.resolution = .fired) ∧
    (isJoinAny row = true ∨ ∀ edge ∈ edges, edge.edgeType = .normal → edge.toStep = row.stepID →
      edge.resolution ≠ .unresolved)

theorem satisfied_of_countable (wired : Wired s) (mem : row ∈ s.steps)
    (countable : Countable row) : Satisfied s.edges row := by
  obtain ⟨someFired, complete⟩ := countable
  refine .inr ⟨?_, complete.symm.imp_right fun none edge inside normal into unresolved => ?_⟩
  · rw [wired.fired row mem] at someFired
    obtain ⟨edge, inside, counted⟩ := countP_pos_iff.mp someFired
    simp only [EdgeRow.isInto, Bool.and_eq_true, beq_iff_eq] at counted
    exact ⟨edge, inside, counted.1.1, counted.1.2, counted.2⟩
  · rw [wired.remaining row mem] at none
    have missed := countP_eq_zero.mp none edge inside
    simp [EdgeRow.isInto, normal, into, unresolved] at missed

section Kept

variable {edges edges' : List EdgeRow} {row row' : StepRow}

theorem Satisfied.of_place (satisfied : Satisfied edges row) (stepID : row'.stepID = row.stepID)
    (joins : isJoinAny row' = isJoinAny row) : Satisfied edges row' := by
  unfold Satisfied
  rw [stepID, joins]
  exact satisfied

theorem Satisfied.resolved
    (satisfied : Satisfied edges row) (isOpen : resolvable ordinal edge = true)
    (replaced : Table.Replaced edges edges' edge { edge with resolution := resolutionOf fired }) :
    Satisfied edges' row := by
  simp only [resolvable, Bool.and_eq_true, beq_iff_eq] at isOpen
  rcases satisfied with none | ⟨⟨source, inside, normal, into, isFired⟩, complete⟩
  · refine .inl fun other mem isNormal => ?_
    rcases replaced.mem_of_mem mem with rfl | earlier
    · exact none edge replaced.old_mem isNormal
    · exact none other earlier isNormal
  · refine .inr ⟨⟨source, ?_, normal, into, isFired⟩, complete.imp_right ?_⟩
    · rcases replaced.mem_or_old inside with rfl | kept
      · rw [isOpen.2] at isFired
        cases isFired
      · exact kept
    · intro all other mem isNormal isInto
      rcases replaced.mem_of_mem mem with rfl | earlier
      · cases fired <;> simp [resolutionOf]
      · exact all other earlier isNormal isInto

end Kept

def Sated (started : String → Prop) (s : RunStore) : Prop :=
  ∀ row ∈ s.steps, isBegun row.status = true ∨ started row.stepID → Satisfied s.edges row

section Motions

variable {leave : Leave}

theorem Motion.wired (motion : Motion leave s s') (unique : UniqueSteps s) (wired : Wired s) :
    Wired s' := by
  cases motion with
  | kept steps edges _ _ => exact wired.of_shapes edges (by rw [steps])
  | turned replaced turn edges _ _ =>
    refine wired.of_shapes edges (replaced.map_eq wireShape ?_)
    simp [wireShape, turn.stepID, turn.remaining, turn.fired]
  | resolved isOpen edgeReplaced into owed replaced _ _ =>
    exact (wired.resolved unique isOpen edgeReplaced into owed replaced).of_shapes rfl rfl

theorem Motion.sated (motion : Motion leave s s') (allowed : ∀ id, leave.buries id → started id)
    (wired : Wired s) (sated : Sated started s) : Sated started s' := by
  cases motion with
  | kept steps edges _ _ =>
    unfold Sated
    rw [steps, edges]
    exact sated
  | @turned old new replaced turn edges _ _ =>
    intro row mem begun
    rw [edges]
    rcases replaced.mem_of_mem mem with rfl | inside
    · refine Satisfied.of_place ?_ turn.stepID turn.joins
      rcases begun with isBegun | isStarted
      · rcases turn.begins isBegun with before | countable | buried
        · exact sated old replaced.old_mem (.inl before)
        · exact satisfied_of_countable wired replaced.old_mem countable
        · exact sated old replaced.old_mem (.inr (allowed _ buried))
      · rw [turn.stepID] at isStarted
        exact sated old replaced.old_mem (.inr isStarted)
    · exact sated row inside begun
  | resolved isOpen edgeReplaced _ _ replaced _ _ =>
    intro row mem begun
    refine Satisfied.resolved ?_ isOpen edgeReplaced
    rcases replaced.mem_of_mem mem with rfl | inside
    · exact (sated _ replaced.old_mem begun).of_place rfl rfl
    · exact sated row inside begun

theorem Drifts.sated (drifts : Drifts leave s s') (allowed : ∀ id, leave.buries id → started id)
    (unique : UniqueSteps s) (wired : Wired s) (sated : Sated started s) : Sated started s' := by
  have chain := drifts unique
  clear drifts
  have all : UniqueSteps s' ∧ Wired s' ∧ Sated started s' := by
    induction chain with
    | refl => exact ⟨unique, wired, sated⟩
    | tail _ motion ih =>
      obtain ⟨unique, wired, sated⟩ := ih
      exact ⟨motion.uniqueSteps unique, motion.wired unique wired,
        motion.sated allowed wired sated⟩
  exact all.2.2

theorem Sated.of_same (sated : Sated started s) (same : SameGraph s s') : Sated started s' := by
  unfold Sated
  rw [same.steps, same.edges]
  exact sated

theorem Sated.shifted {old new} (sated : Sated started s)
    (shifted : Shifted s s' old new) (before : isBegun old.status = true) : Sated started s' := by
  intro row mem begun
  rw [shifted.edges]
  rcases shifted.replaced.mem_of_mem mem with rfl | inside
  · exact (sated old shifted.replaced.old_mem (.inl before)).of_place shifted.place.stepID
      shifted.place.joins
  · exact sated row inside begun

end Motions

section Expanded

variable {lint : Dag.PlanLint} {args : ExpandRun} {origin : StepRow}
  (fits : args.Fits lint origin now s)

theorem newEdges_elsewhere {id} (none : inDegree args.plan.edges id = 0) {version first edge}
    (mem : edge ∈ args.newEdges version first)
    (normal : edge.edgeType = .normal) : edge.toStep ≠ id := by
  obtain ⟨placed, listed, rfl⟩ := mem_map.mp mem
  intro into
  have missed := countP_eq_zero.mp none placed.1 (fst_mem_of_mem_zipIdx listed)
  have isNormal : placed.1.type = .normal := normal
  have isInto : placed.1.toStep = id := into
  simp [Dag.Edge.isLoop, isNormal, isInto] at missed

include fits in
theorem Sated.expanded (unique : UniqueSteps s) (wired : Wired s) (sated : Sated started s)
    (begun : ∀ id, started id → Begun s id) : Sated started (args.apply origin now s) := by
  intro row' mem due
  rcases mem_expanded mem with ⟨row, inside, rfl⟩ | new
  · have before : isBegun row.status = true := by
      rw [(widenRow_place args now row).1, widenRow_stepID] at due
      rcases due with isBegun | isStarted
      · exact isBegun
      · obtain ⟨other, known, same, isBegun⟩ := begun _ isStarted
        rwa [Table.eq_of_key unique known inside same] at isBegun
    have kept : row.stepID ∉ args.widened := by
      intro widened
      obtain ⟨other, known, same, pending⟩ := fits.anchored row.stepID widened
      rw [Table.eq_of_key unique known inside same] at pending
      rw [pending] at before
      cases before
    have none := fits.inDegree_eq_zero (mem_map_of_mem inside) kept
    refine Satisfied.of_place ?_ (widenRow_stepID args now row) (widenRow_place args now row).2.1
    have elsewhere : ∀ edge ∈ (args.apply origin now s).edges, edge.edgeType = .normal →
        edge.toStep = row.stepID → edge ∈ s.edges := by
      intro edge listed normal into
      rcases mem_append.mp listed with old | new
      · exact old
      · exact absurd into (newEdges_elsewhere none new normal)
    rcases sated row inside (.inl before) with free | ⟨⟨edge, old, fired⟩, complete⟩
    · exact .inl fun edge listed normal into => free edge (elsewhere edge listed normal into) normal into
    · refine .inr ⟨⟨edge, mem_append_left _ old, fired⟩, complete.imp_right fun all => ?_⟩
      intro other listed normal into
      exact all other (elsewhere other listed normal into) normal into
  · have isNew : row'.stepID ∈ args.deltaIDs := by
      rw [← newSteps_stepID args (s.run.graphVersion + 1) origin now]
      exact mem_map_of_mem new
    have unknown : row'.stepID ∉ s.steps.map StepRow.stepID := fun old => fits.fresh old isNew
    have isReady : row'.status = .ready ∧ row'.remainingDeps = 0 := by
      rcases newSteps_status new with ready | ⟨pending, _⟩
      · exact ready
      · rcases due with isBegun | isStarted
        · rw [pending] at isBegun
          cases isBegun
        · obtain ⟨_, known, same, _⟩ := begun _ isStarted
          exact absurd (same ▸ mem_map_of_mem known) unknown
    obtain ⟨_, _, rfl⟩ := mem_map.mp new
    refine .inl fun edge inside normal => ?_
    rcases mem_append.mp inside with old | placed
    · exact fun into => unknown (into ▸ (wired.ends edge old).2)
    · exact newEdges_elsewhere isReady.2 placed normal

end Expanded

section Actions

variable (unique : UniqueSteps s) (wired : Wired s) (sated : Sated started s)
  (begun : s.run.status.ended = false → ∀ id, started id → Begun s id)

include unique wired sated begun

theorem succeed_sated (ok : completeSuccess env.lint args now s = (.ok u, s')) : Sated started s' := by
  obtain ⟨source, t, settled, routed⟩ := bind_ok ok
  have reaches : Reaches env.lint .all s t :=
    (settleSuccess_sound trivial trivial args fun _ _ => trivial).of_ok settled
  have after : Sated started t := by
    by_cases cancelling : s.run.status = .cancelling
    · obtain ⟨_, s₁, locked, rest₁⟩ := bind_ok settled
      obtain ⟨rfl, rfl⟩ := lockRunStatus_ok locked
      obtain ⟨_, _, succeeded, rest₂⟩ := bind_ok rest₁
      obtain ⟨_, s₃, noted, rest₃⟩ := bind_ok rest₂
      have drifts : Drifts ⟨started, True, True⟩ s₁ s₃ := .trans _ _ _
        (.of_sound (succeedStep_sound _ _ _ _) succeeded) (recordNotes_drifts noted)
      unfold sourceOfSuccess at rest₃
      rw [if_pos cancelling] at rest₃
      cases rest₃
      exact drifts.sated (fun _ => id) unique wired sated
    · obtain ⟨_, _, _, _, _, settles⟩ := settleSuccess_ok cancelling settled
      have active := isBegun_of_active settles.before
      have shifted := sated.shifted settles.shifted active
      rcases settles.grown with same | ⟨_, _, _, _, _, fits, same⟩
      · exact shifted.of_same same
      · -- an expansion needs a live run, and there a dispatched step is not pending
        have unended : s.run.status.ended = false := by
          rw [← settles.shifted.status]
          exact RunRow.live_not_ended fits.live
        refine (shifted.expanded fits (settles.shifted.uniqueSteps unique)
          (settles.shifted.wired wired) fun id isStarted => ?_).of_same same
        refine (begun unended id isStarted).replaced settles.shifted.replaced
          settles.shifted.place.stepID fun _ => ?_
        rcases settles.after with succeeded | collected
        · rw [succeeded]
          rfl
        · rw [collected]
          rfl
  have drifts : Drifts ⟨started, True, True⟩ t s' :=
    .of_sound (routeAndRollup_sound trivial source) routed
  exact drifts.sated (fun _ => id) (uniqueSteps_of_chain (reaches unique) unique)
    (wired_of_reaches reaches unique wired) after

theorem act_sated (poisons : ∀ stepID error payload,
    action = .poison stepID error payload → started stepID) :
    Sated started (act env action now s) := by
  unfold act commit
  split
  on_goal 2 => exact sated
  rename_i ok
  by_cases succeeds : ∃ args, action = .succeed args
  · obtain ⟨args, rfl⟩ := succeeds
    exact succeed_sated unique wired sated begun ok
  · have sound : Sound env.lint (Leave.mk started True True).permits (action.exec env now) :=
      Action.exec_sound
        { buries := poisons
          expands := fun args same => succeeds ⟨args, same⟩ }
    exact (Drifts.of_reaches (sound.of_ok ok)).sated (fun _ => id) unique wired sated

end Actions

section Begun

variable {id : String}

theorem Begun.calm (begun : Begun s id) (chain : ReflTransGen Stir s s') : Begun s' id := by
  induction chain with
  | refl => exact begun
  | tail _ stir ih =>
    cases stir with
    | kept same => exact ih.of_steps same.steps
    | ran => exact ih.of_steps rfl
    | shifted shifted _ after =>
      exact ih.replaced shifted.replaced shifted.place.stepID fun _ => isBegun_of_active after

theorem Begun.mapped (begun : Begun s id) (mapped : Mapped s s' mark)
    (keeps : ∀ row ∈ s.steps, isBegun row.status = true → mark row = row) : Begun s' id := by
  obtain ⟨row, mem, named, isBegun⟩ := begun
  refine ⟨row, ?_, named, isBegun⟩
  rw [mapped.steps, ← keeps row mem isBegun]
  exact mem_map_of_mem mem

theorem Begun.change (unique : UniqueSteps s) (unended : s.run.status.ended = false)
    (live : s'.run.status.ended = false) (change : Change env action now s s')
    (begun : Begun s id) : Begun s' id := by
  cases change with
  | calm chain => exact begun.calm chain
  | ended ended =>
    rw [live] at ended
    cases ended
  | routed sourced settles routed =>
    have reaches := (action.source_sound env now).of_ok sourced
    refine (routeAndRollup_dispatches (uniqueSteps_of_chain (reaches unique) unique) routed).1 id ?_
    have settled : Begun _ id := begun.replaced settles.shifted.replaced
      settles.shifted.place.stepID fun _ => by
        rcases settles.after with succeeded | collected
        · rw [succeeded]
          rfl
        · rw [collected]
          rfl
    rcases settles.grown with same | ⟨args, origin, time, _, _, _, same⟩
    · exact settled.of_steps same.steps
    · exact (settled.expanded args origin time).of_steps same.steps
  | buried dies disposition =>
    have unique' := uniqueSteps_of_chain (dies.reaches unique) unique
    have after := begun.replaced dies.shifted.replaced dies.shifted.place.stepID fun _ => by
      rw [dies.after]
      rfl
    rcases deadLetterDisposition_ok env.lint unique' disposition with ⟨_, outcome⟩ |
      ⟨_, t, mapped, _, outcome⟩
    · rcases outcome with fails | ⟨_, rfl⟩
      · exact after.of_steps fails.steps
      · exact after
    · have kept := after.mapped mapped fun row mem isBegun => setIn_of_notMem fun listed => by
        obtain ⟨_, known, same, pending⟩ := (writeOffOf_writeOff _).pending listed
        rw [Table.eq_of_key unique' known mem same] at pending
        rw [pending] at isBegun
        cases isBegun
      rcases outcome with ⟨_, fails⟩ | ⟨_, rfl⟩
      · exact kept.of_steps fails.steps
      · exact kept
  | requeued _ requeued =>
    obtain ⟨_, s₂, _, _, _, _, shifted, _, isReady, steps, _, _, _, mapped, same⟩ :=
      requeue_ok unended unique requeued
    have unique₂ : UniqueSteps s₂ := by
      unfold UniqueSteps
      rw [steps]
      exact shifted.uniqueSteps unique
    have after := begun.replaced shifted.replaced shifted.place.stepID fun _ => by
      rw [isReady]
      rfl
    refine Begun.of_steps ((after.of_steps steps).mapped mapped ?_) same.steps
    intro row mem isBegun
    refine setIn_of_notMem fun listed => ?_
    have cancelled := ((mem_revivable unique₂ mem).mp listed).1
    rw [cancelled] at isBegun
    cases isBegun

end Begun

/-- A sweep of the reconciler dispatches what it scans again: ready steps, retrying steps and the
steps of pending approvals. -/
def scanned (stepID : String) (s : RunStore) : Bool :=
  (s.steps.any fun row =>
    row.stepID == stepID && (row.status == .ready || row.status == .retrying)) ||
  s.approvals.any fun approval => approval.stepID == stepID && approval.isPending

def Action.Delivered (states : List RunStore) : Action → Prop
  | .poison stepID _ _ => ∃ seen ∈ states, ∃ entry ∈ seen.outbox, entry.stepID = stepID
  | .enqueue stepID _ => ∃ seen ∈ states, scanned stepID seen = true
  | _ => True

/-- The histories in which poison handling concerns steps that were once given a dispatch row. -/
inductive DeliveredHistory (definitionLint : Dag.DefinitionLint) (env : Environment) :
    List RunStore → Prop
  | created {definition : Dag.Definition} {s : RunStore}
      (creation : Created definitionLint definition s) : DeliveredHistory definitionLint env [s]
  | acted {action : Action} {now : Time} {s : RunStore} {past : List RunStore}
      (history : DeliveredHistory definitionLint env (s :: past))
      (reads : ∀ seen ∈ action.reads, seen ∈ s :: past) (delivered : action.Delivered (s :: past)) :
      DeliveredHistory definitionLint env (act env action now s :: s :: past)

def Started (states : List RunStore) (id : String) : Prop := ∃ seen ∈ states, Begun seen id

variable {states : List RunStore}

section Histories

variable {definitionLint : Dag.DefinitionLint}

theorem DeliveredHistory.history (history : DeliveredHistory definitionLint env states) :
    History definitionLint env states := by
  induction history with
  | created creation => exact .created creation
  | acted _ reads _ ih => exact .acted ih reads trivial

theorem Created.sated (created : Created definitionLint definition s) :
    Sated (fun _ => False) s ∧ ∀ entry ∈ s.outbox, Begun s entry.stepID := by
  obtain ⟨validated, entry, params, budgetNanoUSD, now, planned, announced⟩ := created.opened
  have founded : Founded definitionLint definition
      (initialStore definition entry params budgetNanoUSD now) :=
    ⟨validated, entry, params, budgetNanoUSD, now, planned, rfl⟩
  obtain ⟨_, _, recorded, rest₁⟩ := bind_ok announced
  cases recorded
  obtain ⟨_, _, noted, dispatched⟩ := bind_ok rest₁
  have idles : Idles (Tx.forEach entry fun id => appendEvent (.stepReady id)) :=
    Tx.Ensures.forEach SameWork.trans SameWork.refl fun _ _ => Tx.Ensures.write fun _ => ⟨rfl, rfl⟩
  have same := idles.of_ok noted
  obtain ⟨steps, entries⟩ := dispatchAll_ok dispatched
  have keeps : Keeps (announce definition.name definition.steps.length entry) :=
    (appendEvent_keeps _).bind fun _ => (Keeps.forEach fun _ => appendEvent_keeps _).bind fun _ =>
      .forEach fun _ => createOutbox_keeps _ _
  constructor
  · refine Sated.of_same ?_ (keeps.of_ok announced)
    intro row mem begun
    obtain ⟨step, inside, rfl⟩ := mem_map.mp mem
    have isEntry : step.id ∈ entry := by
      by_contra absent
      have pending : entry.contains step.id = false := by simpa using absent
      simp only [stepRowParams, pending, or_false] at begun
      cases begun
    obtain ⟨_, _, _, none⟩ := (mem_entry_iff validated planned).mp isEntry
    refine .inl fun edge listed normal into => ?_
    obtain ⟨placed, isPlaced, rfl⟩ := mem_map.mp listed
    have missed := countP_eq_zero.mp none placed.1 (fst_mem_of_mem_zipIdx isPlaced)
    have isNormal : placed.1.type = .normal := normal
    have isInto : placed.1.toStep = step.id := into
    simp [Dag.Edge.isLoop, isNormal, isInto] at missed
  · intro row mem
    rcases entries row mem with old | listed
    · rw [same.outbox] at old
      cases old
    · obtain ⟨step, inside, named, _⟩ := (mem_entry_iff validated planned).mp listed
      refine Begun.of_steps (s := initialStore definition entry params budgetNanoUSD now) ?_
        (steps.trans same.steps)
      refine ⟨_, mem_map_of_mem inside, named, ?_⟩
      have contained : entry.contains step.id = true := by simpa [named] using listed
      simp only [stepRowParams, contained, if_true]
      rfl

/-- What a history knows of its last state: dispatched steps have begun, those that have begun are
satisfied, and none of them is taken back before the run ends. -/
structure Settled (states : List RunStore) (s : RunStore) : Prop where
  sated : Sated (Started states) s
  begun : s.run.status.ended = false → ∀ id, Started states id → Begun s id
  dispatched : ∀ seen ∈ states, ∀ entry ∈ seen.outbox, Started states entry.stepID

theorem Started.mono {states' id} (started : Started states id) (subset : states ⊆ states') :
    Started states' id := by
  obtain ⟨seen, mem, begun⟩ := started
  exact ⟨seen, subset mem, begun⟩

theorem started_of_scanned (history : History definitionLint env states) (mem : seen ∈ states)
    (isScanned : scanned stepID seen = true) : Started states stepID := by
  refine ⟨seen, mem, ?_⟩
  unfold scanned at isScanned
  rw [Bool.or_eq_true, any_eq_true, any_eq_true] at isScanned
  rcases isScanned with ⟨row, inside, matching⟩ | ⟨approval, inside, pending⟩
  · simp only [Bool.and_eq_true, Bool.or_eq_true, beq_iff_eq] at matching
    refine ⟨row, inside, matching.1, ?_⟩
    rcases matching.2 with isReady | retrying
    · rw [isReady]
      rfl
    · rw [retrying]
      rfl
  · rw [Bool.and_eq_true, beq_iff_eq] at pending
    have gated := history.gated seen mem
    obtain ⟨row, known, same⟩ := gated.known approval inside
    refine ⟨row, known, same.trans pending.1, ?_⟩
    have fits := gated.fits row known
    unfold GateFits at fits
    split at fits
    · rename_i waits
      rw [waits]
      rfl
    · have listed := mem_pendingFor.mpr ⟨inside, same.symm, pending.2⟩
      simp [fits] at listed

theorem DeliveredHistory.settled {past}
    (history : DeliveredHistory definitionLint env (s :: past)) : Settled (s :: past) s := by
  generalize isStates : s :: past = states at history
  induction history generalizing s past with
  | @created definition s creation =>
    cases isStates
    obtain ⟨sated, dispatched⟩ := Created.sated creation
    have unique : UniqueSteps s :=
      ((HistoryOf.created creation : History definitionLint env [s]).invariant
        (wired_invariant definitionLint env.lint .all) s mem_cons_self).1
    have here : ∀ id, Started [s] id → Begun s id := by
      rintro id ⟨seen, mem, begun⟩
      rwa [mem_singleton.mp mem] at begun
    refine ⟨fun row mem due => sated row mem (.inl ?_), fun _ => here, ?_⟩
    · rcases due with isBegun | isStarted
      · exact isBegun
      · obtain ⟨other, known, same, isBegun⟩ := here _ isStarted
        rwa [Table.eq_of_key unique known mem same] at isBegun
    · intro seen mem entry listed
      rw [mem_singleton.mp mem] at listed
      exact ⟨s, mem_cons_self, dispatched entry listed⟩
  | @acted action now before earlier history reads delivered ih =>
    cases isStates
    have plain := history.history
    have known := fun kept (invariant : Invariant definitionLint env.lint .all kept) =>
      plain.invariant invariant before mem_cons_self
    obtain ⟨unique, wired⟩ := known _ (wired_invariant definitionLint env.lint .all)
    obtain ⟨sated, begun, dispatched⟩ := ih rfl
    have unique' := uniqueSteps_of_chain (act_reaches env action now before unique) unique
    have grows : before :: earlier ⊆ act env action now before :: before :: earlier :=
      subset_cons_self _ _
    have kept : (act env action now before).run.status.ended = false → ∀ id,
        Started (before :: earlier) id → Begun (act env action now before) id := by
      intro live id isStarted
      have running : before.run.status.ended = false := by
        by_contra ended
        rw [ended_of_reaches (act_reaches env action now before) unique (by simpa using ended)]
          at live
        cases live
      refine Begun.change unique running live (act_change running unique fun seen read => ?_)
        (begun running id isStarted)
      by_contra ended
      simp [plain.ended seen (reads seen read) (by simpa using ended)] at running
    refine ⟨fun row mem due => ?_, ?_, ?_⟩
    · refine act_sated unique wired sated begun ?_ row mem ?_
      · rintro stepID error payload rfl
        obtain ⟨seen, isState, entry, listed, rfl⟩ := delivered
        exact dispatched seen isState entry listed
      · rcases due with isBegun | ⟨seen, mem', isBegun⟩
        · exact .inl isBegun
        · rcases mem_cons.mp mem' with rfl | inside
          · obtain ⟨_, known, same, isBegun⟩ := isBegun
            exact .inl (by rwa [Table.eq_of_key unique' known mem same] at isBegun)
          · exact .inr ⟨seen, inside, isBegun⟩
    · rintro live id ⟨seen, mem, isBegun⟩
      rcases mem_cons.mp mem with rfl | inside
      · exact isBegun
      · exact kept live id ⟨seen, inside, isBegun⟩
    · intro seen mem entry listed
      rcases mem_cons.mp mem with rfl | inside
      · by_cases swept : ∃ stepID reason, action = .enqueue stepID reason
        · obtain ⟨stepID, reason, rfl⟩ := swept
          rcases mem_append.mp listed with old | new
          · exact (dispatched before mem_cons_self entry old).mono grows
          · obtain ⟨seen, scannedIn, isScanned⟩ := delivered
            rw [mem_singleton.mp new]
            exact (started_of_scanned plain scannedIn isScanned).mono grows
        · rcases act_dispatches unique (fun stepID reason same => swept ⟨stepID, reason, same⟩) entry
            listed with old | isBegun
          · exact (dispatched before mem_cons_self entry old).mono grows
          · exact ⟨_, mem_cons_self, isBegun⟩
      · exact (dispatched seen inside entry listed).mono grows

end Histories

/-- In every state of every history in which poison handling concerns dispatched steps, a step that
may run or has run has its required predecessors resolved. -/
theorem running_step_has_resolved_predecessors (definitionLint : Dag.DefinitionLint)
    (env : Environment) (states : List RunStore)
    (history : DeliveredHistory definitionLint env states) :
    ∀ s ∈ states, ∀ row ∈ s.steps,
      row.status = .ready ∨ row.status = .running ∨ row.status = .retrying ∨
        row.status = .awaitingHuman ∨ row.status = .succeeded ∨ row.status = .collected →
      Satisfied s.edges row := by
  induction history with
  | created creation =>
    intro s member row inside status
    rw [mem_singleton.mp member] at inside ⊢
    have history : DeliveredHistory definitionLint env _ := .created creation
    refine history.settled.sated row inside (.inl ?_)
    rcases status with status | status | status | status | status | status <;> rw [status] <;> rfl
  | @acted action now before earlier history reads delivered ih =>
    intro s member row inside status
    rcases mem_cons.mp member with rfl | older
    · refine (DeliveredHistory.acted history reads delivered).settled.sated row inside (.inl ?_)
      rcases status with status | status | status | status | status | status <;> rw [status] <;> rfl
    · exact ih s older row inside status

/-! The first branch of the join is poisoned, the second succeeds and its edge fires. -/

def joinPoisoned : RunStore := act quietEnvironment (.poison "a" none none) 2 joinRun

def joinSurvived : RunStore :=
  act quietEnvironment (.succeed (joinSuccess true)) 4
    (act quietEnvironment (.claim "b" 8 "worker") 3 joinPoisoned)

theorem join_runs_on_one_fired_edge :
    ∃ row ∈ joinSurvived.steps, row.stepID = "j" ∧ row.status = .ready ∧
      Satisfied joinSurvived.edges row := by
  have poisoned : DeliveredHistory Dag.quietDefinitionLint quietEnvironment [joinPoisoned, joinRun] :=
    .acted (.created joinRun_created) (by simp)
      ⟨joinRun, mem_cons_self, { stepID := "a", reason := .stepReady }, by decide, rfl⟩
  have settled : DeliveredHistory Dag.quietDefinitionLint quietEnvironment (joinSurvived :: _) :=
    .acted (.acted poisoned (by simp) trivial) (by simp) trivial
  have isReady : ∃ row ∈ joinSurvived.steps, row.stepID = "j" ∧ row.status = .ready := by decide
  obtain ⟨row, member, named, ready⟩ := isReady
  exact ⟨row, member, named, ready, running_step_has_resolved_predecessors _ _ _ settled _
    mem_cons_self row member (.inl ready)⟩

end Agentloom.Engine
