import Agentloom.Store.Counters
import Agentloom.Engine.Changes

/-! Which runs keep their pending steps possible. A write-off leaves no impossible step behind and a
requeue revives what became possible again, so that only a fan-out can strand a step, and only a
join that its edge leads to. -/

namespace Agentloom.Engine

open Transaction Store Relation List Tx

variable {reaction : Reaction}

def canSucceed (row : RunRow) : Bool :=
  row.live && row.counters.failed == 0 &&
    row.counters.succeeded + row.counters.skipped + row.counters.collected == row.stepsTotal

def canFail (row : RunRow) : Bool := row.live && row.counters.failed ≥ 1 && allSettled row

structure Fails (s s' : RunStore) : Prop where
  steps : s'.steps = s.steps
  edges : s'.edges = s.edges
  status : s'.run.status = .failed
  onFailure : s'.run.onFailure = s.run.onFailure

section Rollups

variable {now : Time} {s s' : RunStore} {found : Option RunRow}

theorem failRunRollup_dropped
    (ok : dropping StoreError.isConflict (failRunRollup now) s = (.ok found, s')) :
    (canFail s.run = true ∧ Fails s s') ∨ (found = none ∧ canFail s.run = false ∧ s' = s) := by
  rcases dropped_run_ok ok with ⟨_, guarded, rfl⟩ | ⟨rfl, missed, rfl⟩
  · exact .inl ⟨guarded, rfl, rfl, rfl, rfl⟩
  · exact .inr ⟨rfl, missed, rfl⟩

theorem attemptRunRollup_ok (ok : attemptRunRollup now s = (.ok found, s')) :
    s'.run.status.ended = true ∨ (canFail s.run = true ∧ Fails s s') ∨
      (canSucceed s.run = false ∧ canFail s.run = false ∧ s' = s) := by
  obtain ⟨_, _, first, rest₁⟩ := bind_ok ok
  rcases dropped_run_ok first with ⟨rfl, _, rfl⟩ | ⟨rfl, unable, rfl⟩
  · cases rest₁
    exact .inl rfl
  obtain ⟨failed, _, second, rest₂⟩ := bind_ok rest₁
  rcases failRunRollup_dropped second with ⟨able, fails⟩ | ⟨rfl, missed, rfl⟩
  · cases failed with
    | some row =>
      cases rest₂
      exact .inr (.inl ⟨able, fails⟩)
    | none =>
      rcases attemptCancelRollup_ok rest₂ with rfl | ended
      · exact .inr (.inl ⟨able, fails⟩)
      · exact .inl ended
  · rcases attemptCancelRollup_ok rest₂ with rfl | ended
    · exact .inr (.inr ⟨unable, missed, rfl⟩)
    · exact .inl ended

end Rollups

def setIn (ids : List String) (set : StepRow → StepRow) (row : StepRow) : StepRow :=
  if row.stepID ∈ ids then set row else row

variable {ids : List String} {set : StepRow → StepRow} {row : StepRow}

theorem setIn_of_mem (inside : row.stepID ∈ ids) : setIn ids set row = set row := if_pos inside

theorem setIn_of_notMem (outside : row.stepID ∉ ids) : setIn ids set row = row := if_neg outside

theorem SamePlace.refl (row : StepRow) : SamePlace row row := ⟨rfl, rfl, rfl, rfl⟩

theorem setIn_place (place : ∀ row, SamePlace row (set row)) (row : StepRow) :
    SamePlace row (setIn ids set row) := by
  unfold setIn
  split
  · exact place row
  · exact .refl row

structure Mapped (s s' : RunStore) (mark : StepRow → StepRow) : Prop where
  steps : s'.steps = s.steps.map mark
  edges : s'.edges = s.edges
  status : s'.run.status = s.run.status
  onFailure : s'.run.onFailure = s.run.onFailure

variable {s s' : RunStore} {u : Unit}

theorem forEachStep_ok (transition : String → StepTransition) {body : String → StoreTx Unit}
    (runs : ∀ id s s' u, body id s = (.ok u, s') → ∃ row, (transition id).run s = (.ok row, s'))
    (named : ∀ id, (transition id).stepID = id) (sets : ∀ id, (transition id).set = set)
    (keeps : ∀ row, (set row).stepID = row.stepID) (distinct : ids.Nodup)
    (unique : UniqueSteps s) (ok : Tx.forEach ids body s = (.ok u, s')) :
    Mapped s s' (setIn ids set) := by
  unfold setIn
  induction ids generalizing s with
  | nil =>
    cases ok
    exact ⟨by simp, rfl, rfl, rfl⟩
  | cons id rest ih =>
    obtain ⟨absent, distinct⟩ := nodup_cons.mp distinct
    obtain ⟨_, s₁, first, others⟩ := bind_ok ok
    obtain ⟨row, ran⟩ := runs id s s₁ _ first
    obtain ⟨old, steps, _, _, _, isNamed, _, rfl, replaced, _, _, rfl⟩ := StepTransition.run_ok ran
    rw [sets] at replaced
    rw [named] at isNamed
    have unique₁ : (steps.map StepRow.stepID).Nodup := by
      rw [replaced.map_eq StepRow.stepID (keeps old)]
      exact unique
    obtain ⟨after, edges, status, onFailure⟩ := ih distinct (by exact unique₁) others
    refine ⟨?_, edges, status, onFailure⟩
    rw [after, record_steps, replaced.eq_map unique, List.map_map]
    refine map_congr_left fun row mem => ?_
    by_cases same : row.stepID = id
    · obtain rfl := Table.eq_of_key unique mem replaced.old_mem (same.trans isNamed.symm)
      simp [keeps, same, absent]
    · simp [same, isNamed]

theorem writeOffOf_writeOff (s : RunStore) : WriteOff s.steps s.edges (· ∈ writeOffOf s) :=
  planWriteOff_writeOff (fun _ => mem_insertionSort _) fun _ => mem_insertionSort _

def cancelledRow (now : Time) (row : StepRow) : StepRow :=
  { row with status := .cancelled, nextAttemptAt := none, updatedAt := now }

theorem cancelledRow_place (now : Time) (row : StepRow) : SamePlace row (cancelledRow now row) :=
  ⟨rfl, rfl, rfl, rfl⟩

variable {now : Time}

theorem cancelAll_ok (unique : UniqueSteps s) (ok : Tx.forEach (writeOffOf s)
      (fun stepID => (cancelStep stepID "upstream_dead_lettered" now).void) s = (.ok u, s')) :
    Mapped s s' (setIn (writeOffOf s) (cancelledRow now)) := by
  refine forEachStep_ok (fun id => cancel id "upstream_dead_lettered" now) ?_ (fun _ => rfl)
    (fun _ => rfl) (fun _ => rfl) (Marking.fixpoint_nodup _ _ _) unique ok
  intro id s s' u cancelled
  obtain ⟨row, step⟩ := void_ok cancelled
  have rest₁ := requireNow_bind_ok step
  have rest₂ := requireArgument_bind_ok rest₁
  exact ⟨row, rest₂⟩

section WrittenOff

variable {s s' : RunStore} {now : Time}
  (mapped : Mapped s s' (setIn (writeOffOf s) (cancelledRow now)))

include mapped

theorem writtenOff_possible : Possible s'.steps s'.edges := by
  rw [mapped.steps, mapped.edges]
  refine (writeOffOf_writeOff s).possible (fun row _ => setIn_place (cancelledRow_place now) row)
    (fun row _ inside => ?_) fun row _ outside => ?_
  · rw [setIn_of_mem inside]
    rfl
  · rw [setIn_of_notMem outside]

theorem writtenOff_grounded (unique : UniqueSteps s) (grounded : Grounded s.steps s.edges) :
    Grounded s'.steps s'.edges := by
  rw [mapped.steps, mapped.edges]
  refine (writeOffOf_writeOff s).grounded unique
    (fun row _ => setIn_place (cancelledRow_place now) row)
    (fun row _ inside => ?_) (fun row _ outside => ?_) grounded
  · rw [setIn_of_mem inside]
    rfl
  · rw [setIn_of_notMem outside]

end WrittenOff

def revivedRow (now : Time) (row : StepRow) : StepRow :=
  { row with status := .pending, updatedAt := now }

theorem revivedRow_place (now : Time) (row : StepRow) : SamePlace row (revivedRow now row) :=
  ⟨rfl, rfl, rfl, rfl⟩

theorem mem_revivable (unique : UniqueSteps s) (mem : row ∈ s.steps) :
    row.stepID ∈ revivable s ↔ row.status = .cancelled ∧
      row.stepID ∉ planWriteOff ((listRunSteps s).map asIfPending) (listRunEdges s) := by
  simp only [revivable, mem_map, mem_filter, Bool.and_eq_true, beq_iff_eq,
    Bool.not_eq_true', contains_eq_mem, decide_eq_false_iff_not]
  constructor
  · rintro ⟨_, ⟨inside, cancelled, outside⟩, same⟩
    obtain rfl := Table.eq_of_key unique ((mem_insertionSort _).mp inside) mem same
    exact ⟨cancelled, outside⟩
  · rintro ⟨cancelled, outside⟩
    exact ⟨row, ⟨(mem_insertionSort _).mpr mem, cancelled, outside⟩, rfl⟩

theorem revivable_nodup (unique : UniqueSteps s) : (revivable s).Nodup := by
  have sorted : ((listRunSteps s).map StepRow.stepID).Nodup :=
    ((perm_insertionSort _ s.steps).map StepRow.stepID).nodup_iff.mpr unique
  exact sorted.sublist (filter_sublist.map StepRow.stepID)

theorem reviveAll_ok (unique : UniqueSteps s)
    (ok : Tx.forEach (revivable s) (fun id => (reviveStep id "dlq_requeue" now).void) s = (.ok u, s')) :
    Mapped s s' (setIn (revivable s) (revivedRow now)) := by
  refine forEachStep_ok (fun id => revive id "dlq_requeue" now) ?_ (fun _ => rfl)
    (fun _ => rfl) (fun _ => rfl) (revivable_nodup unique) unique ok
  intro id s s' u revived
  obtain ⟨row, step⟩ := void_ok revived
  have rest₁ := requireNow_bind_ok step
  have rest₂ := requireArgument_bind_ok rest₁
  exact ⟨row, rest₂⟩

section Revived

variable {s s' : RunStore} {now : Time} (unique : UniqueSteps s)
  (mapped : Mapped s s' (setIn (revivable s) (revivedRow now)))
  (possible : Possible s.steps s.edges)

include unique mapped possible

theorem revived_sheltered : Possible s'.steps s'.edges ∧ Grounded s'.steps s'.edges := by
  have writeOff : WriteOff (s.steps.map asIfPending) s.edges
      (· ∈ planWriteOff ((listRunSteps s).map asIfPending) (listRunEdges s)) :=
    planWriteOff_writeOff
      (fun row => by simp only [mem_map, listRunSteps, mem_insertionSort])
      fun edge => by simp only [listRunEdges, mem_insertionSort]
  have place : ∀ row ∈ s.steps, SamePlace row (setIn (revivable s) (revivedRow now) row) :=
    fun row _ => setIn_place (revivedRow_place now) row
  have stays : ∀ row ∈ s.steps,
      row.stepID ∈ planWriteOff ((listRunSteps s).map asIfPending) (listRunEdges s) →
      (setIn (revivable s) (revivedRow now) row).status = row.status := by
    intro row mem inside
    rw [setIn_of_notMem fun revived => ((mem_revivable unique mem).mp revived).2 inside]
  have revived : ∀ row ∈ s.steps, row.status = .cancelled →
      row.stepID ∉ planWriteOff ((listRunSteps s).map asIfPending) (listRunEdges s) →
      (setIn (revivable s) (revivedRow now) row).status = .pending := by
    intro row mem cancelled outside
    rw [setIn_of_mem ((mem_revivable unique mem).mpr ⟨cancelled, outside⟩)]
    rfl
  have kept : ∀ row ∈ s.steps, row.status ≠ .cancelled →
      (setIn (revivable s) (revivedRow now) row).status = row.status := by
    intro row mem settled
    rw [setIn_of_notMem fun revived => settled ((mem_revivable unique mem).mp revived).1]
  rw [mapped.steps, mapped.edges]
  exact ⟨writeOff.revived_possible unique place possible stays revived kept,
    writeOff.revived_grounded unique place possible stays revived kept⟩

end Revived

/-- In a run that may still execute, the pending steps are possible and dead steps account for the
cancelled ones; the policy that fails fast cancels nothing, and the other fails a run only when all
its steps are settled. -/
structure Sheltered (s : RunStore) : Prop where
  possible : s.run.live = true → Possible s.steps s.edges
  grounded : Grounded s.steps s.edges
  plain : s.run.onFailure = .failFast → ∀ row ∈ s.steps, row.status ≠ .cancelled
  quiet : s.run.onFailure = .continueIndependentBranches → s.run.status = .failed →
    ∀ row ∈ s.steps, isCounted row.status = true

theorem isActive_spec (active : isActive status = true) :
    isCounted status = false ∧ isBlocked status = false ∧ isDead status = false ∧
      status ≠ .cancelled ∧ status ≠ .pending := by
  cases status <;> simp_all [isActive, isCounted, isBlocked, isDead]

theorem live_congr {row row' : RunRow} (status : row'.status = row.status) :
    row'.live = row.live := by
  rw [RunRow.live, RunRow.live, status]

theorem live_of_unended {row : RunRow} (unended : row.status.ended = false)
    (running : row.status ≠ .failed) : row.live = true := by
  unfold RunRow.live
  cases status : row.status <;> simp_all [RunStatus.ended]

theorem not_live_of_failed {row : RunRow} (failed : row.status = .failed) : row.live = false := by
  simp [RunRow.live, failed]

variable {old new : StepRow} {lint : Dag.PlanLint}

section Kept

variable {s s' : RunStore}

theorem Sheltered.of_same (sheltered : Sheltered s) (same : SameGraph s s') : Sheltered s' := by
  obtain ⟨possible, grounded, plain, quiet⟩ := sheltered
  constructor
  · rw [same.steps, same.edges, live_congr same.status]
    exact possible
  · rw [same.steps, same.edges]
    exact grounded
  · rw [same.steps, same.onFailure]
    exact plain
  · rw [same.steps, same.onFailure, same.status]
    exact quiet

theorem Sheltered.shifted (sheltered : Sheltered s) (shifted : Shifted s s' old new)
    (before : isActive old.status = true) (free : isBlocked new.status = false)
    (moved : new.status ≠ .pending) : Sheltered s' := by
  obtain ⟨uncounted, _, notDead, notCancelled, _⟩ := isActive_spec before
  have kept : new.status ≠ .cancelled := by
    intro cancelled
    rw [cancelled] at free
    cases free
  constructor
  · intro live
    rw [shifted.edges]
    refine (sheltered.possible ((live_congr shifted.status).symm.trans live)).shift shifted.replaced
      shifted.place (fun pending => absurd pending moved) fun blocked => ?_
    rw [free] at blocked
    cases blocked
  · rw [shifted.edges]
    refine sheltered.grounded.shift shifted.replaced shifted.place notCancelled kept fun dead => ?_
    rw [notDead] at dead
    cases dead
  · intro failFast row mem
    rcases shifted.replaced.mem_of_mem mem with rfl | inside
    · exact kept
    · exact sheltered.plain (shifted.onFailure.symm.trans failFast) row inside
  · intro continues failed
    have counted := sheltered.quiet (shifted.onFailure.symm.trans continues)
      (shifted.status.symm.trans failed) old shifted.replaced.old_mem
    rw [uncounted] at counted
    cases counted

theorem Sheltered.stir (sheltered : Sheltered s) (stir : Stir s s') : Sheltered s' := by
  cases stir with
  | kept same => exact sheltered.of_same same
  | ran before after onFailure =>
    refine ⟨fun _ => sheltered.possible before, sheltered.grounded, ?_, ?_⟩
    · intro failFast
      exact sheltered.plain (onFailure.symm.trans failFast)
    · intro _ failed
      rw [not_live_of_failed failed] at after
      cases after
  | shifted shifted before after =>
    obtain ⟨_, free, _, _, moved⟩ := isActive_spec after
    exact sheltered.shifted shifted before free moved

theorem Sheltered.calm (sheltered : Sheltered s) (chain : ReflTransGen Stir s s') :
    Sheltered s' := by
  induction chain with
  | refl => exact sheltered
  | tail _ stir ih => exact ih.stir stir

theorem Sheltered.expanded {args : ExpandRun} {origin} (sheltered : Sheltered s)
    (fits : args.Fits lint origin now s) (wired : Wired s) (unique : UniqueSteps s)
    (free : isBlocked origin.status = false) : Sheltered (args.apply origin now s) := by
  constructor
  · exact fun _ => (sheltered.possible fits.live).expanded fits wired unique free
  · exact sheltered.grounded.expanded fits unique
  · intro failFast row' mem
    rcases mem_expanded mem with ⟨row, inside, rfl⟩ | new
    · rw [(widenRow_place args now row).1]
      exact sheltered.plain failFast row inside
    · rcases newSteps_status new with ⟨ready, _⟩ | ⟨pending, _⟩
      · simp [ready]
      · simp [pending]
  · intro _ failed
    have live := fits.live
    rw [not_live_of_failed (by exact failed)] at live
    cases live

theorem Sheltered.fails (sheltered : Sheltered s) (fails : Fails s s')
    (settled : ∀ row ∈ s.steps, isCounted row.status = true) : Sheltered s' := by
  constructor
  · intro live
    rw [not_live_of_failed fails.status] at live
    cases live
  · rw [fails.steps, fails.edges]
    exact sheltered.grounded
  · rw [fails.steps, fails.onFailure]
    exact sheltered.plain
  · intro _ _
    rw [fails.steps]
    exact settled

end Kept

def isSettled : StepStatus → Bool
  | .succeeded => true
  | .collected => true
  | .skipped => true
  | _ => false

def Skips (verdicts : List EdgeVerdict) (edge : EdgeRow) : Prop :=
  ∃ verdict ∈ verdicts, verdict.ordinal = edge.ordinal ∧ verdict.fired = false

/-- The steps that a fan-out of the verdicts skips: nothing has fired into them, and every open edge
that leads to them is skipped by a verdict or leaves a step that is skipped. -/
inductive Dropped (verdicts : List EdgeVerdict) (s : RunStore) : String → Prop
  | skipped {row : StepRow} (mem : row ∈ s.steps) (pending : row.status = .pending)
      (unfired : row.firedDeps = 0)
      (edges : ∀ edge ∈ unresolvedIn s.edges row.stepID, ¬Skips verdicts edge →
        Dropped verdicts s edge.fromStep) : Dropped verdicts s row.stepID

def Lost (verdicts : List EdgeVerdict) (s : RunStore) (edge : EdgeRow) : Prop :=
  Skips verdicts edge ∨ Dropped verdicts s edge.fromStep

/-- A join of mode any that a blocked step leads to keeps an open edge from a step that is neither
blocked nor skipped. -/
def Spares (verdicts : List EdgeVerdict) (s : RunStore) : Prop :=
  ∀ row ∈ s.steps, row.status = .pending → isJoinAny row = true → row.firedDeps = 0 →
    (∃ edge ∈ unresolvedIn s.edges row.stepID, Blocked s.steps edge.fromStep) →
    ∃ edge ∈ unresolvedIn s.edges row.stepID, ¬Blocked s.steps edge.fromStep ∧ ¬Lost verdicts s edge

/-- What a fan-out has resolved and still owes is explained by its verdicts and the rows it was
planned on. -/
structure Explained (verdicts : List EdgeVerdict) (before : RunStore) (owed : List EdgeVerdict)
    (s : RunStore) : Prop where
  rows : ∀ row ∈ s.steps, row.status = .pending → row.stepID ∈ before.steps.map StepRow.stepID →
    ∃ old ∈ before.steps, old.stepID = row.stepID ∧ old.status = .pending ∧
      isJoinAny old = isJoinAny row ∧ old.firedDeps ≤ row.firedDeps
  blocked : ∀ id, Blocked s.steps id → Blocked before.steps id
  known : ∀ edge ∈ s.edges, edge.resolution = .unresolved → Blocked s.steps edge.fromStep →
    edge ∈ before.edges
  edges : ∀ edge ∈ before.edges, ∃ resolution, { edge with resolution } ∈ s.edges ∧
    (resolution = .skipped → edge.resolution = .unresolved → Lost verdicts before edge)
  owed : ∀ verdict ∈ owed, verdict.fired = false → ∀ edge ∈ before.edges,
    edge.ordinal = verdict.ordinal → Lost verdicts before edge

variable {verdict : EdgeVerdict} {owed verdicts : List EdgeVerdict} {before : RunStore}

theorem skipped_of_settle (skipped : settle joinAny remaining fired .pending = .skipped) :
    remaining = 0 ∧ fired = 0 := by
  unfold settle at skipped
  split_ifs at skipped with _ unfired
  exact unfired

/-- A join that is impossible now was to be stranded when the fan-out began. -/
theorem Explained.spared (explained : Explained verdicts before owed s) (spares : Spares verdicts before)
    (wired : Wired s) (ends : Wired before) (mem : row ∈ s.steps) (joins : isJoinAny row = true)
    (pending : row.status = .pending) : ¬Impossible s.edges (Blocked s.steps) row := by
  intro impossible
  obtain ⟨unfired, _, all⟩ := (impossible_of_join joins).mp impossible
  obtain ⟨edge, into, blocked⟩ := impossible.source
  obtain ⟨inside, normal, unresolved, target⟩ := mem_unresolvedIn.mp into
  have known := explained.known edge inside unresolved blocked
  obtain ⟨old, member, named, waiting, isJoin, fired⟩ :=
    explained.rows row mem pending (target ▸ (ends.ends edge known).2)
  obtain ⟨other, into', free, kept⟩ := spares old member waiting (isJoin.trans joins) (by omega)
    ⟨edge, mem_unresolvedIn.mpr ⟨known, normal, unresolved, target.trans named.symm⟩,
      explained.blocked _ blocked⟩
  obtain ⟨inside', normal', unresolved', target'⟩ := mem_unresolvedIn.mp into'
  obtain ⟨resolution, moved, lost⟩ := explained.edges other inside'
  cases resolution with
  | unresolved =>
    have still : { other with resolution := .unresolved } ∈ unresolvedIn s.edges row.stepID :=
      mem_unresolvedIn.mpr ⟨moved, normal', rfl, target'.trans named⟩
    have blocks := all _ still
    exact free (explained.blocked _ blocks)
  | fired =>
    have some : 0 < incoming s.edges row.stepID .fired :=
      incoming_pos moved normal' (target'.trans named) rfl
    rw [wired.fired row mem] at unfired
    omega
  | skipped => exact kept (lost rfl unresolved')

def SourcesSettled (owed : List EdgeVerdict) (s : RunStore) : Prop :=
  ∀ verdict ∈ owed, ∀ edge ∈ s.edges, edge.ordinal = verdict.ordinal →
    ∃ row ∈ s.steps, row.stepID = edge.fromStep ∧ isSettled row.status = true

structure Fanning (verdicts : List EdgeVerdict) (before : RunStore) (owed : List EdgeVerdict)
    (s : RunStore) : Prop where
  unique : UniqueSteps s
  wired : Wired s
  sheltered : Sheltered s
  sources : SourcesSettled owed s
  explained : Explained verdicts before owed s
  spares : s.run.live = true → Spares verdicts before

section Resolved

variable {verdict : EdgeVerdict} {s s' : RunStore} {edge : EdgeRow} {old new : StepRow}
  (resolves : Resolves verdict s s' edge old new)

include resolves

theorem Resolves.settled (mem : row ∈ s.steps) (settled : isSettled row.status = true) :
    ∃ row' ∈ s'.steps, row'.stepID = row.stepID ∧ isSettled row'.status = true := by
  rcases resolves.steps.mem_or_old mem with rfl | inside
  · refine ⟨new, resolves.steps.new_mem, resolves.stepID, ?_⟩
    rcases resolves.status_cases with ⟨same, _⟩ | ⟨pending, _⟩
    · rw [same]
      exact settled
    · rw [pending] at settled
      cases settled
  · exact ⟨row, inside, rfl, settled⟩

theorem Resolves.sources (sources : SourcesSettled owed s) : SourcesSettled owed s' := by
  intro verdict' mem edge' inside' ordinal
  have before : ∃ row ∈ s.steps, row.stepID = edge'.fromStep ∧ isSettled row.status = true := by
    rcases resolves.edges.mem_of_mem inside' with rfl | inside
    · exact sources verdict' mem edge resolves.edges.old_mem ordinal
    · exact sources verdict' mem edge' inside ordinal
  obtain ⟨_, inside, same, settled⟩ := before
  obtain ⟨row', mem', same', settled'⟩ := resolves.settled inside settled
  exact ⟨row', mem', same'.trans same, settled'⟩

theorem Resolves.ordinals_eq : s'.edges.map EdgeRow.ordinal = s.edges.map EdgeRow.ordinal :=
  resolves.edges.map_eq EdgeRow.ordinal rfl

theorem Resolves.reaction_sources (ordinals : (s.edges.map EdgeRow.ordinal).Nodup) :
    SourcesSettled (reactionOf s' old new).verdicts s' := by
  intro verdict' mem edge' inside' ordinal
  obtain ⟨_, skipped, _, found, isEdge, _, leaves, isOrdinal⟩ := resolves.mem_reaction mem
  have same := Table.eq_of_key (resolves.ordinals_eq ▸ ordinals) inside' isEdge
    (ordinal.trans isOrdinal)
  refine ⟨new, resolves.steps.new_mem, ?_, by rw [skipped]; rfl⟩
  rw [same, leaves, resolves.stepID]

theorem Sheltered.resolved (wired : Wired s) (unique : UniqueSteps s) (sheltered : Sheltered s)
    (free : ¬Blocked s.steps edge.fromStep)
    (spared : s.run.live = true → isJoinAny new = true → new.status = .pending →
      ¬Impossible s'.edges (Blocked s'.steps) new) : Sheltered s' := by
  constructor
  · intro live
    have live' := (live_congr resolves.runStatus).symm.trans live
    exact (sheltered.possible live').resolved resolves wired.ordinals unique (spared live')
  · exact sheltered.grounded.resolved resolves wired.ordinals unique free
  · intro failFast row mem
    have before := sheltered.plain (resolves.onFailure.symm.trans failFast)
    rcases resolves.steps.mem_of_mem mem with rfl | inside
    · exact fun cancelled => before old resolves.steps.old_mem (resolves.cancelled_iff.mp cancelled)
    · exact before row inside
  · intro continues failed row mem
    have before := sheltered.quiet (resolves.onFailure.symm.trans continues)
      (resolves.runStatus.symm.trans failed)
    rcases resolves.steps.mem_of_mem mem with rfl | inside
    · have counted := before old resolves.steps.old_mem
      rcases resolves.status_cases with ⟨same, _⟩ | ⟨pending, _⟩
      · rw [same]
        exact counted
      · rw [pending] at counted
        cases counted
    · exact before row inside

theorem Explained.resolved (explained : Explained verdicts before (verdict :: owed) s)
    (wired : Wired s') (ends : Wired before) :
    Explained verdicts before (owed ++ (reactionOf s' old new).verdicts) s' := by
  obtain ⟨normal, open_, ordinal⟩ := resolves.normal
  have kept : ∀ other ∈ s.edges, other ≠ edge → other ∈ s'.edges := fun other mem apart =>
    (resolves.edges.mem_or_old mem).resolve_left apart
  have edges : ∀ other ∈ before.edges, ∃ resolution, { other with resolution } ∈ s'.edges ∧
      (resolution = .skipped → other.resolution = .unresolved → Lost verdicts before other) := by
    intro other mem
    obtain ⟨resolution, inside, lost⟩ := explained.edges other mem
    by_cases same : { other with resolution } = edge
    · refine ⟨resolutionOf verdict.fired, ?_, fun skipped _ => ?_⟩
      · have moved := resolves.edges.new_mem
        rwa [← same] at moved
      · refine explained.owed verdict mem_cons_self ?_ other mem ?_
        · cases fired : verdict.fired <;> simp [resolutionOf, fired] at skipped ⊢
        · rw [← ordinal, ← same]
    · exact ⟨resolution, kept _ inside same, lost⟩
  refine ⟨fun row mem pending inside => ?_, fun id blocked => ?_, fun other mem unresolved blocked => ?_,
    edges, fun other mem unfired edge₀ mem₀ same => ?_⟩
  · rcases resolves.steps.mem_of_mem mem with rfl | earlier
    · have waiting : old.status = .pending := by
        rcases resolves.status_cases with ⟨same, settled⟩ | ⟨waiting, _⟩
        · exact absurd (same ▸ pending) settled
        · exact waiting
      rw [resolves.stepID] at inside
      obtain ⟨first, known, named, waits, joins, fired⟩ :=
        explained.rows old resolves.steps.old_mem waiting inside
      refine ⟨first, known, named.trans resolves.stepID.symm, waits,
        joins.trans resolves.isJoinAny_eq.symm, ?_⟩
      rw [resolves.fired]
      omega
    · exact explained.rows row earlier pending inside
  · exact explained.blocked id
      (Blocked.shift resolves.steps resolves.stepID resolves.isBlocked_eq.symm.trans blocked)
  · rcases resolves.edges.mem_of_mem mem with rfl | earlier
    · cases fired : verdict.fired <;> simp [resolutionOf, fired] at unresolved
    · exact explained.known other earlier unresolved
        (Blocked.shift resolves.steps resolves.stepID resolves.isBlocked_eq.symm.trans blocked)
  · rcases mem_append.mp mem with earlier | added
    · exact explained.owed other (mem_cons_of_mem _ earlier) unfired edge₀ mem₀ same
    -- the target is skipped, so every edge that was open when the fan-out began is lost
    obtain ⟨waiting, skipped, _, out, isOut, _, leaves, isOrdinal⟩ := resolves.mem_reaction added
    obtain ⟨_, now₀, _⟩ := edges edge₀ mem₀
    have isEdge := Table.eq_of_key wired.ordinals now₀ isOut (same.trans isOrdinal)
    have source : edge₀.fromStep = old.stepID := by
      rw [← leaves, ← isEdge]
    obtain ⟨first, known, named, pending, _, fired⟩ := explained.rows old resolves.steps.old_mem
      waiting (source ▸ (ends.ends edge₀ mem₀).1)
    obtain ⟨none, unfired'⟩ : new.remainingDeps = 0 ∧ new.firedDeps = 0 :=
      skipped_of_settle ((congrArg _ waiting).symm.trans (resolves.status.symm.trans skipped))
    rw [Lost, source, ← named]
    refine .inr (.skipped known pending (by rw [resolves.fired] at unfired'; omega) ?_)
    intro into open₀ unskipped
    obtain ⟨isEdge₀, isNormal, unresolved, isTarget⟩ := mem_unresolvedIn.mp open₀
    obtain ⟨resolution, moved, lost⟩ := edges into isEdge₀
    have target : into.toStep = new.stepID := by
      rw [isTarget, named, resolves.stepID]
    cases resolution with
    | unresolved =>
      have some : 0 < incoming s'.edges new.stepID .unresolved :=
        incoming_pos moved isNormal target rfl
      rw [wired.remaining new resolves.steps.new_mem] at none
      omega
    | fired =>
      have some : 0 < incoming s'.edges new.stepID .fired :=
        incoming_pos moved isNormal target rfl
      rw [wired.fired new resolves.steps.new_mem] at unfired'
      omega
    | skipped => exact (lost rfl unresolved).resolve_left unskipped

end Resolved

theorem wired_of_reaches (reaches : Reaches lint may s s')
    (unique : UniqueSteps s) (wired : Wired s) : Wired s' :=
  (wired_invariant Dag.quietDefinitionLint lint may).chain (reaches unique) unique wired

theorem booked_of_reaches (reaches : Reaches lint may s s')
    (unique : UniqueSteps s) (booked : Booked s) : Booked s' :=
  (booked_invariant Dag.quietDefinitionLint lint may).chain (reaches unique) unique booked

theorem isBlocked_of_settled (settled : isSettled status = true) : isBlocked status = false := by
  cases status <;> simp_all [isSettled, isBlocked]

theorem Fanning.step (ends : Wired before) (fanning : Fanning verdicts before (verdict :: owed) s)
    (ok : resolveVerdict verdict now s = (.ok reaction, s')) :
    Fanning verdicts before (owed ++ reaction.verdicts) s' := by
  obtain ⟨unique, wired, sheltered, sources, explained, spares⟩ := fanning
  have reaches : Reaches Dag.quietPlanLint .all s s' := (resolveVerdict_sound verdict).of_ok ok
  have later : SourcesSettled owed s := fun other mem =>
    sources other (mem_cons_of_mem _ mem)
  rcases resolveVerdict_ok unique ok with ⟨rfl, rfl, _⟩ | ⟨edge, _, _, resolves, rfl⟩
  · refine ⟨unique, wired, sheltered, ?_, { explained with owed := fun other mem => ?_ }, spares⟩
    · simpa [Reaction.verdicts] using later
    · exact explained.owed other (mem_cons_of_mem _ (by simpa [Reaction.verdicts] using mem))
  · have wired' := wired_of_reaches reaches unique wired
    have explained' := explained.resolved resolves wired' ends
    refine ⟨uniqueSteps_of_chain (reaches unique) unique, wired', ?_, ?_, explained', fun live => ?_⟩
    · refine sheltered.resolved resolves wired unique ?_ fun live joins pending =>
        explained'.spared (spares live) wired' ends resolves.steps.new_mem joins pending
      obtain ⟨_, mem, same, settled⟩ :=
        sources verdict mem_cons_self edge resolves.edges.old_mem resolves.normal.2.2
      rw [← same]
      exact not_blocked unique mem (isBlocked_of_settled settled)
    · intro other mem
      rcases mem_append.mp mem with earlier | added
      · exact resolves.sources later other earlier
      · exact resolves.reaction_sources wired.ordinals other added
    · rw [live_congr resolves.runStatus] at live
      exact spares live

variable {source : TerminalSource}

theorem Fanning.fanOut (ends : Wired before)
    (fanning : Fanning source.verdicts before source.verdicts s)
    (ok : fanOut source now s = (.ok fan, s')) : Fanning source.verdicts before [] s' := by
  have unique : ∀ owed s, Fanning source.verdicts before owed s → UniqueSteps s :=
    fun _ _ fanning => fanning.unique
  have step : ∀ verdict owed s reaction s', Fanning source.verdicts before (verdict :: owed) s →
      resolveVerdict verdict now s = (.ok reaction, s') →
      Fanning source.verdicts before (owed ++ reaction.verdicts) s' :=
    fun _ _ _ _ _ fanning ok => fanning.step ends ok
  have rule := fanOut_rule unique step fanning
  rw [ok] at rule
  exact rule

variable {s₁ t : RunStore} {stepID : String}

section Parts

variable {lint : Dag.PlanLint} {expands : Option ExpandRun} {now : Time}
  {s s' : RunStore}

theorem Shifted.uniqueSteps (shifted : Shifted s s' old new) (unique : UniqueSteps s) :
    UniqueSteps s' := by
  unfold UniqueSteps
  rw [shifted.replaced.map_eq StepRow.stepID shifted.place.stepID]
  exact unique

theorem Shifted.wired (shifted : Shifted s s' old new) (wired : Wired s) : Wired s' := by
  refine wired.of_shapes shifted.edges (shifted.replaced.map_eq wireShape ?_)
  simp [wireShape, shifted.place.stepID, shifted.place.remaining, shifted.place.fired]

theorem Settles.settled (settles : Settles lint expands source s s₁ t old new) :
    isSettled new.status = true := by
  rcases settles.after with succeeded | collected
  · rw [succeeded]
    rfl
  · rw [collected]
    rfl

theorem Settles.sourceRow (settles : Settles lint expands source s s₁ t old new) :
    ∃ row ∈ t.steps, row.stepID = source.stepID ∧ isSettled row.status = true := by
  rw [settles.stepID]
  rcases settles.grown with same | ⟨args, _, time, _, _, _, same⟩
  · rw [same.steps]
    exact ⟨new, settles.shifted.replaced.new_mem, rfl, settles.settled⟩
  · rw [same.steps]
    refine ⟨args.widenRow time new, ?_, widenRow_stepID args time new, ?_⟩
    · exact mem_append_left _ (mem_map_of_mem settles.shifted.replaced.new_mem)
    · rw [(widenRow_place args time new).1]
      exact settles.settled

theorem Covers.fromStep (covers : Covers source s) (wired : Wired s)
    (mem : verdict ∈ source.verdicts) {edge : EdgeRow} (inside : edge ∈ s.edges)
    (ordinal : edge.ordinal = verdict.ordinal) : edge.fromStep = source.stepID := by
  have listed : verdict.ordinal ∈ source.verdicts.map EdgeVerdict.ordinal :=
    mem_map_of_mem mem
  rw [covers] at listed
  obtain ⟨_, kept, same⟩ := mem_map.mp listed
  simp only [listEdgesFromStep, listRunEdges, mem_filter, mem_insertionSort,
    beq_iff_eq] at kept
  rw [Table.eq_of_key wired.ordinals inside kept.1.1 (ordinal.trans same.symm)]
  exact kept.1.2

theorem Settles.sheltered (settles : Settles lint expands source s s₁ t old new)
    (unique : UniqueSteps s) (wired : Wired s) (sheltered : Sheltered s) : Sheltered t := by
  have free := isBlocked_of_settled settles.settled
  have moved : new.status ≠ .pending := by
    intro pending
    have settled := settles.settled
    rw [pending] at settled
    cases settled
  have after := sheltered.shifted settles.shifted settles.before free moved
  rcases settles.grown with same | ⟨_, _, _, _, isOrigin, fits, same⟩
  · exact after.of_same same
  · obtain ⟨mem, named⟩ := findStep_some fits.found
    rw [← Table.eq_of_key (settles.shifted.uniqueSteps unique) mem
      settles.shifted.replaced.new_mem (named.trans isOrigin)] at free
    exact (after.expanded fits (settles.shifted.wired wired)
      (settles.shifted.uniqueSteps unique) free).of_same same

theorem Settles.live (settles : Settles lint expands source s s₁ t old new)
    (live : t.run.live = true) : s.run.live = true := by
  rw [← live, live_congr settles.shifted.status.symm]
  rcases settles.grown with same | ⟨_, _, _, _, _, _, same⟩ <;> exact (live_congr same.status).symm

theorem Settles.explained (settles : Settles lint expands source s s₁ t old new)
    (unique : UniqueSteps s) : Explained source.verdicts s source.verdicts t := by
  obtain ⟨_, notBlocked, _, _, waits⟩ := isActive_spec settles.before
  have unique₁ := settles.shifted.uniqueSteps unique
  have free := isBlocked_of_settled settles.settled
  have rows : ∀ row ∈ s₁.steps, row.status = .pending → row ∈ s.steps := by
    intro row mem pending
    refine (settles.shifted.replaced.mem_of_mem mem).resolve_left ?_
    rintro rfl
    have settled := settles.settled
    rw [pending] at settled
    cases settled
  have blocked : ∀ id, Blocked s₁.steps id → Blocked s.steps id := fun id =>
    Blocked.shift settles.shifted.replaced settles.shifted.place.stepID fun blocks => by
      rw [free] at blocks
      cases blocks
  have owed : ∀ verdict ∈ source.verdicts, verdict.fired = false → ∀ edge ∈ s.edges,
      edge.ordinal = verdict.ordinal → Lost source.verdicts s edge :=
    fun verdict mem unfired _ _ same => .inl ⟨verdict, mem, same.symm, unfired⟩
  have edges : ∀ t : RunStore, s.edges ⊆ t.edges → ∀ edge ∈ s.edges, ∃ resolution,
      { edge with resolution } ∈ t.edges ∧ (resolution = .skipped →
        edge.resolution = .unresolved → Lost source.verdicts s edge) := by
    intro t kept edge mem
    refine ⟨edge.resolution, kept mem, fun skipped unresolved => ?_⟩
    rw [skipped] at unresolved
    cases unresolved
  rcases settles.grown with same | ⟨args, origin, time, _, isOrigin, fits, same⟩
  · have sameEdges : t.edges = s.edges := same.edges.trans settles.shifted.edges
    refine ⟨fun row mem pending _ => ?_, fun id held => ?_, fun edge mem _ _ => ?_,
      edges t (by rw [sameEdges]; exact fun _ mem => mem), owed⟩
    · rw [same.steps] at mem
      exact ⟨row, rows row mem pending, rfl, pending, rfl, le_rfl⟩
    · rw [same.steps] at held
      exact blocked id held
    · rwa [sameEdges] at mem
  · obtain ⟨isMem, named⟩ := findStep_some fits.found
    obtain rfl := Table.eq_of_key unique₁ isMem settles.shifted.replaced.new_mem
      (named.trans isOrigin)
    refine ⟨fun row mem pending inside => ?_, fun id held => ?_, fun edge mem _ held => ?_,
      edges t ?_, owed⟩
    · rw [same.steps] at mem
      rcases mem_expanded mem with ⟨row, earlier, rfl⟩ | added
      · obtain ⟨status, joins, fired⟩ := widenRow_place args time row
        have waiting := status.symm.trans pending
        exact ⟨row, rows row earlier waiting, (widenRow_stepID args time row).symm, waiting,
          joins.symm, fired.ge⟩
      · rw [← settles.shifted.replaced.map_eq StepRow.stepID settles.shifted.place.stepID] at inside
        refine absurd ?_ (fits.fresh inside)
        rw [← newSteps_stepID args (s₁.run.graphVersion + 1) origin time]
        exact mem_map_of_mem added
    · rw [same.steps] at held
      exact blocked id (blocked_of_expanded held)
    · rw [same.edges] at mem
      rw [same.steps] at held
      rcases mem_append.mp mem with earlier | added
      · rwa [settles.shifted.edges] at earlier
      · exact absurd (blocked_of_expanded held) (newEdges_unblocked fits unique₁ free added)
    · rw [same.edges, ← settles.shifted.edges]
      exact subset_append_left _ _

theorem routeAndRollup_ok (lint : Dag.PlanLint)
    (ok : routeAndRollup (some source) now s = (.ok u, s')) :
    ∃ fan t t' found, fanOut source now s = (.ok fan, t) ∧ SameGraph t t' ∧
      Reaches lint .all s t' ∧ attemptRunRollup now t' = (.ok found, s') := by
  obtain ⟨_, t', routed, rest⟩ := bind_ok ok
  obtain ⟨found, rolled⟩ := void_ok rest
  obtain ⟨fan, t, fanned, dispatched⟩ := bind_ok routed
  have keeps : Keeps (Tx.forEach fan.readied fun id => createOutbox id .stepReady) :=
    .forEach fun _ => createOutbox_keeps _ _
  exact ⟨fan, t, t', found, fanned, keeps.of_ok dispatched,
    (route_sound trivial source).of_ok routed, rolled⟩

theorem deadLetterDisposition_ok (lint : Dag.PlanLint) (unique : UniqueSteps s)
    (ok : deadLetterDisposition s.run.onFailure now s = (.ok disposed, s')) :
    (s.run.onFailure = .failFast ∧
        (Fails s s' ∨ ((s.run.live = true → s.run.counters.failed < 1) ∧ s' = s))) ∨
      (s.run.onFailure = .continueIndependentBranches ∧
        ∃ t, Mapped s t (setIn (writeOffOf s) (cancelledRow now)) ∧ Reaches lint .all s t ∧
          ((canFail t.run = true ∧ Fails t s') ∨ (canFail t.run = false ∧ s' = t))) := by
  cases policy : s.run.onFailure with
  | failFast =>
    rw [policy] at ok
    obtain ⟨found, s₁, dropped, rest⟩ := bind_ok ok
    cases rest
    refine .inl ⟨rfl, ?_⟩
    rcases dropped_run_ok dropped with ⟨_, _, rfl⟩ | ⟨_, missed, rfl⟩
    · exact .inl ⟨rfl, rfl, rfl, rfl⟩
    · exact .inr ⟨fun live => by simpa [live] using missed, rfl⟩
  | continueIndependentBranches =>
    rw [policy] at ok
    have rest₁ := read_bind_ok ok
    obtain ⟨_, t, cancelled, rest₂⟩ := bind_ok rest₁
    obtain ⟨_, _, dropped, rest₃⟩ := bind_ok rest₂
    cases rest₃
    have reaches : Reaches lint .all s t :=
      (Sound.forEach fun id _ => (cancelStep_sound id _ _).void).of_ok cancelled
    refine .inr ⟨rfl, t, cancelAll_ok unique cancelled, reaches, ?_⟩
    exact (failRunRollup_dropped dropped).imp_right And.right

theorem reopen_status (ok : reopen now s = (.ok u, s')) :
    s'.steps = s.steps ∧ s'.edges = s.edges ∧ s'.run.onFailure = s.run.onFailure ∧
      s.run.status ≠ .cancelling ∧ s.run.status ≠ .cancelled ∧
      s'.run.status = if s.run.status = .failed then .running else s.run.status := by
  have rest := read_bind_ok ok
  cases status : s.run.status with
  | failed =>
    simp only [status] at rest
    obtain ⟨_, resumed⟩ := void_ok rest
    obtain ⟨_, _, rfl⟩ := RunTransition.run_ok resumed
    simp [RunStore.record]
  | running =>
    simp only [status] at rest
    cases rest
    simp [status]
  | parked =>
    simp only [status] at rest
    cases rest
    simp [status]
  | succeeded =>
    simp only [status] at rest
    cases rest
    simp [status]
  | cancelling =>
    simp only [status] at rest
    cases rest
  | cancelled =>
    simp only [status] at rest
    cases rest

theorem requeue_parts (unique : UniqueSteps s) (ok : Engine.requeue stepID now s = (.ok u, s')) :
    ∃ s₁ s₂ s₃ old new, old.stepID = stepID ∧ Shifted s s₁ old new ∧
      old.status = .deadLettered ∧ new.status = .ready ∧ reopen now s₁ = (.ok (), s₂) ∧
      Mapped s₂ s₃ (setIn (revivable s₂) (revivedRow now)) ∧ SameGraph s₃ s' := by
  obtain ⟨_, s₁, requeued, rest₁⟩ := bind_ok ok
  obtain ⟨_, s₂, reopened, rest₂⟩ := bind_ok rest₁
  have rest₃ := read_bind_ok rest₂
  obtain ⟨_, s₄, revived, rest₄⟩ := bind_ok rest₃
  obtain ⟨old, named, dead, rfl, shifted⟩ := shifted_of_run requeued (requeue_moves stepID now)
  have unique₂ : UniqueSteps s₂ := by
    unfold UniqueSteps
    rw [(reopen_status reopened).1]
    exact shifted.uniqueSteps unique
  exact ⟨s₁, s₂, s₄, old, _, named, shifted, eq_of_beq dead, rfl, reopened,
    reviveAll_ok unique₂ revived, (redispatch_keeps _).of_ok rest₄⟩

structure Requeued (stepID : String) (now : Time) (s s₁ s₂ s₃ s' : RunStore) (old new : StepRow) :
    Prop where
  named : old.stepID = stepID
  shifted : Shifted s s₁ old new
  before : old.status = .deadLettered
  after : new.status = .ready
  steps : s₂.steps = s₁.steps
  edges : s₂.edges = s₁.edges
  onFailure : s₂.run.onFailure = s₁.run.onFailure
  live : s₂.run.live = true
  revived : Mapped s₂ s₃ (setIn (revivable s₂) (revivedRow now))
  same : SameGraph s₃ s'

theorem requeue_ok (unended : s.run.status.ended = false) (unique : UniqueSteps s)
    (ok : Engine.requeue stepID now s = (.ok u, s')) :
    ∃ s₁ s₂ s₃ old new, Requeued stepID now s s₁ s₂ s₃ s' old new := by
  obtain ⟨s₁, s₂, s₃, old, new, named, shifted, dead, ready, reopened, mapped, same⟩ :=
    requeue_parts unique ok
  obtain ⟨steps, edges, onFailure, _, _, _⟩ := reopen_status reopened
  have live : s₂.run.live = true := by
    rw [← shifted.status] at unended
    unfold RunRow.live
    cases before : s₁.run.status <;> simp_all [RunStatus.ended]
  exact ⟨s₁, s₂, s₃, old, new, named, shifted, dead, ready, steps, edges, onFailure, live, mapped,
    same⟩

end Parts

/-- The verdicts of a completion on a run that executes spare its joins. -/
def Action.Spares (env : Environment) (now : Time) (s : RunStore) (action : Action) : Prop :=
  ∀ source t, action.source env now s = (.ok (some source), t) → s.run.live = true →
    Engine.Spares source.verdicts s

/-- A failed run is resumed only where no step but the requeued one blocks a pending step. -/
def Action.Clear (s : RunStore) (action : Action) : Prop :=
  ∀ stepID, action = .requeue stepID → s.run.onFailure = .failFast → s.run.status = .failed →
    ∀ row ∈ s.steps, row.status = .pending →
      ¬Impossible s.edges (fun id => Blocked s.steps id ∧ id ≠ stepID) row

theorem writeOffOf_eq_nil_iff : writeOffOf s = [] ↔ Possible s.steps s.edges := by
  unfold writeOffOf
  rw [planWriteOff_eq_nil_iff]
  unfold Possible
  have blocked : Blocked (listRunSteps s) = Blocked s.steps := by
    funext id
    exact propext ⟨.of_mem fun row => (mem_insertionSort _).mp,
      .of_mem fun row => (mem_insertionSort _).mpr⟩
  have incoming : ∀ (row : StepRow) (edge : EdgeRow),
      edge ∈ unresolvedIn (listRunEdges s) row.stepID ↔
      edge ∈ unresolvedIn s.edges row.stepID := by
    intro row edge
    rw [mem_unresolvedIn, mem_unresolvedIn, listRunEdges, mem_insertionSort]
  rw [blocked]
  constructor
  · intro possible row mem pending impossible
    exact possible row ((mem_insertionSort _).mpr mem) pending
      (impossible.congr rfl rfl (incoming row))
  · intro possible row mem pending impossible
    exact possible row ((mem_insertionSort _).mp mem) pending
      (impossible.congr rfl rfl fun edge => (incoming row edge).symm)

section Actions

variable {env : Environment} {action : Action} {now : Time} {s s' : RunStore}
  (unique : UniqueSteps s) (wired : Wired s) (booked : Booked s) (sheltered : Sheltered s)
  (unended : s.run.status.ended = false)

include unique wired booked sheltered

theorem Sheltered.routed (sourced : action.source env now s = (.ok (some source), t))
    (settles : Settles env.lint expands source s s₁ t old new)
    (routed : routeAndRollup (some source) now t = (.ok (), s'))
    (spares : action.Spares env now s) (live : s'.run.status.ended = false) : Sheltered s' := by
  have reaches := (action.source_sound env now).of_ok sourced
  have unique' := uniqueSteps_of_chain (reaches unique) unique
  have wired' := wired_of_reaches reaches unique wired
  have fanning : Fanning source.verdicts s source.verdicts t := by
    refine ⟨unique', wired', settles.sheltered unique wired sheltered, ?_,
      settles.explained unique, fun live => spares source t sourced (settles.live live)⟩
    intro verdict mem edge inside ordinal
    rw [settles.covers.fromStep wired' mem inside ordinal]
    exact settles.sourceRow
  obtain ⟨_, _, _, _, fanned, same, reaches', rolled⟩ := routeAndRollup_ok env.lint routed
  have after := (fanning.fanOut wired fanned).sheltered.of_same same
  have booked' := booked_of_reaches reaches' unique' (booked_of_reaches reaches unique booked)
  rcases attemptRunRollup_ok rolled with ended | ⟨able, fails⟩ | ⟨_, _, rfl⟩
  · rw [live] at ended
    cases ended
  · unfold canFail at able
    rw [Bool.and_eq_true] at able
    exact after.fails fails (booked'.allSettled_iff.mp able.2)
  · exact after

omit wired in
theorem Sheltered.buried {disposed : List String × Bool} (dies : Dies env.lint s t old new)
    (disposition : deadLetterDisposition t.run.onFailure now t = (.ok disposed, s')) :
    Sheltered s' := by
  have unique' := uniqueSteps_of_chain (dies.reaches unique) unique
  have booked' := booked_of_reaches dies.reaches unique booked
  have uncounted : isCounted old.status = false ∧ old.status ≠ .cancelled ∧
      isDead old.status = false := by
    rcases dies.before with active | pending
    · obtain ⟨uncounted, _, notDead, notCancelled, _⟩ := isActive_spec active
      exact ⟨uncounted, notCancelled, notDead⟩
    · simp [pending, isCounted, isDead]
  have grounded : Grounded t.steps t.edges := by
    rw [dies.shifted.edges]
    refine sheltered.grounded.shift dies.shifted.replaced dies.shifted.place uncounted.2.1
      (by simp [dies.after]) fun _ => ?_
    rw [dies.after]
    rfl
  rcases deadLetterDisposition_ok env.lint unique' disposition with ⟨policy, outcome⟩ |
    ⟨policy, u, mapped, reaches, outcome⟩
  · have plain : ∀ row ∈ t.steps, row.status ≠ .cancelled := by
      intro row mem
      rcases dies.shifted.replaced.mem_of_mem mem with rfl | inside
      · simp [dies.after]
      · exact sheltered.plain (dies.shifted.onFailure.symm.trans policy) row inside
    rcases outcome with fails | ⟨missed, rfl⟩
    · refine ⟨fun live => ?_, ?_, fun _ => ?_, fun continues => ?_⟩
      · rw [not_live_of_failed fails.status] at live
        cases live
      · rw [fails.steps, fails.edges]
        exact grounded
      · rw [fails.steps]
        exact plain
      · rw [fails.onFailure, policy] at continues
        cases continues
    · -- a dead step is counted, so that a live run would have failed
      have counted : 1 ≤ s'.run.counters.failed := by
        rw [booked'.counters]
        have found : 0 < withStatus .deadLettered s'.steps :=
          countP_pos_iff.mpr ⟨new, dies.shifted.replaced.new_mem, by simp [dies.after]⟩
        change (1 : Int) ≤ withStatus .deadLettered s'.steps
        omega
      refine ⟨fun live => ?_, grounded, fun _ => plain, fun continues => ?_⟩
      · have few := missed live
        omega
      · rw [policy] at continues
        cases continues
  · have running : t.run.status ≠ .failed := by
      intro failed
      have counted := sheltered.quiet (dies.shifted.onFailure.symm.trans policy)
        (dies.shifted.status.symm.trans failed) old dies.shifted.replaced.old_mem
      rw [uncounted.1] at counted
      cases counted
    have after : Sheltered u := by
      refine ⟨fun _ => writtenOff_possible mapped, writtenOff_grounded mapped unique' grounded,
        fun failFast => ?_, fun _ failed => ?_⟩
      · rw [mapped.onFailure, policy] at failFast
        cases failFast
      · rw [mapped.status] at failed
        exact absurd failed running
    rcases outcome with ⟨able, fails⟩ | ⟨_, rfl⟩
    · unfold canFail at able
      rw [Bool.and_eq_true] at able
      have booked'' := booked_of_reaches reaches unique' booked'
      exact after.fails fails (booked''.allSettled_iff.mp able.2)
    · exact after

omit wired booked in
include unended in
theorem Sheltered.requeued (clear : (Action.requeue stepID).Clear s)
    (requeued : Engine.requeue stepID now s = (.ok (), s')) : Sheltered s' := by
  obtain ⟨s₁, s₂, s₃, _, new, isNamed, shifted, _, isReady, steps, edges, onFailure, live,
    mapped, same⟩ := requeue_ok unended unique requeued
  have unique₂ : UniqueSteps s₂ := by
    unfold UniqueSteps
    rw [steps]
    exact shifted.uniqueSteps unique
  have possible₁ : Possible s₁.steps s₁.edges := by
    have shift : Possible s.steps s.edges → Possible s₁.steps s₁.edges := by
      intro possible
      rw [shifted.edges]
      refine possible.shift shifted.replaced shifted.place (fun pending => ?_) fun blocked => ?_
      · rw [isReady] at pending
        cases pending
      · rw [isReady] at blocked
        cases blocked
    by_cases failed : s.run.status = .failed
    · cases policy : s.run.onFailure with
      | failFast =>
        intro row mem pending impossible
        rcases shifted.replaced.mem_of_mem mem with rfl | inside
        · rw [isReady] at pending
          cases pending
        rw [shifted.edges] at impossible
        refine clear stepID rfl policy failed row inside pending (impossible.mono ?_)
        rintro id ⟨source, known, rfl, blocks⟩
        rcases shifted.replaced.key_ne unique known with rfl | ⟨earlier, apart⟩
        · rw [isReady] at blocks
          cases blocks
        · exact ⟨⟨source, earlier, rfl, blocks⟩, isNamed ▸ apart⟩
      | continueIndependentBranches =>
        refine shift fun row mem pending => ?_
        have counted := sheltered.quiet policy failed row mem
        rw [pending] at counted
        cases counted
    · exact shift (sheltered.possible (live_of_unended unended failed))
  rw [← steps, ← edges] at possible₁
  obtain ⟨possible, grounded⟩ := revived_sheltered unique₂ mapped possible₁
  have after : Sheltered s₃ := by
    refine ⟨fun _ => possible, grounded, fun failFast row' mem => ?_, fun _ failed => ?_⟩
    · rw [mapped.steps] at mem
      obtain ⟨row, inside, rfl⟩ := mem_map.mp mem
      rw [mapped.onFailure, onFailure, shifted.onFailure] at failFast
      unfold setIn
      split
      · simp [revivedRow]
      · rw [steps] at inside
        rcases shifted.replaced.mem_of_mem inside with rfl | earlier
        · simp [isReady]
        · exact sheltered.plain failFast row earlier
    · rw [mapped.status] at failed
      rw [not_live_of_failed failed] at live
      cases live
  exact after.of_same same

theorem Sheltered.change (change : Change env action now s s') (spares : action.Spares env now s)
    (clear : action.Clear s) (unended : s.run.status.ended = false)
    (live : s'.run.status.ended = false) : Sheltered s' := by
  cases change with
  | calm chain => exact sheltered.calm chain
  | ended ended =>
    rw [live] at ended
    cases ended
  | routed sourced settles routed =>
    exact sheltered.routed unique wired booked sourced settles routed spares live
  | buried dies disposition => exact sheltered.buried unique booked dies disposition
  | requeued isRequeue requeued =>
    subst isRequeue
    exact sheltered.requeued unique unended clear requeued

end Actions

section Histories

variable {definitionLint : Dag.DefinitionLint} {env : Environment}
  {meets : Action → Time → RunStore → Prop}

theorem Founded.sheltered (founded : Founded definitionLint definition s) : Sheltered s := by
  obtain ⟨entry, _, _, now, _, rfl⟩ := founded.planned
  have fresh : ∀ row ∈ initialSteps definition entry now, isBlocked row.status = false := by
    intro row mem
    rcases initialSteps_unsettled row mem with ready | pending
    · rw [ready]
      rfl
    · rw [pending]
      rfl
  have plain : ∀ row ∈ initialSteps definition entry now, row.status ≠ .cancelled := by
    intro row mem cancelled
    have free := fresh row mem
    rw [cancelled] at free
    cases free
  refine ⟨fun _ row _ _ impossible => ?_, .of_none plain, fun _ => plain, fun _ failed => ?_⟩
  · obtain ⟨_, _, source, mem, _, blocked⟩ := impossible.source
    rw [fresh source mem] at blocked
    cases blocked
  · cases failed

theorem created_sameGraph (created : Created definitionLint definition s) :
    ∃ founding, Founded definitionLint definition founding ∧ SameGraph founding s := by
  obtain ⟨founding, entry, founded, announced⟩ := created.announced
  have keeps : Keeps (announce definition.name definition.steps.length entry) :=
    (appendEvent_keeps _).bind fun _ => (Keeps.forEach fun _ => appendEvent_keeps _).bind fun _ =>
      .forEach fun _ => createOutbox_keeps _ _
  exact ⟨founding, founded, keeps.of_ok announced⟩

theorem HistoryOf.ended (history : HistoryOf definitionLint env meets (s :: past)) :
    ∀ seen ∈ s :: past, seen.run.status.ended = true → s.run.status.ended = true := by
  generalize isStates : s :: past = states at history
  induction history generalizing s past with
  | created =>
    cases isStates
    intro seen mem ended
    rwa [mem_singleton.mp mem] at ended
  | @acted action now before earlier history reads met ih =>
    cases isStates
    intro seen mem ended
    rcases mem_cons.mp mem with rfl | inside
    · exact ended
    · have unique := (history.invariant (booked_invariant definitionLint env.lint .all) before
        mem_cons_self).1
      exact ended_of_reaches (act_reaches env action now before) unique (ih rfl seen inside ended)

/-- What creation starts with and every change of a run that has not ended hands on, given the
invariants of the store, holds until the run ends. -/
theorem HistoryOf.rule {holds : RunStore → Prop}
    (history : HistoryOf definitionLint env meets states)
    (start : ∀ definition s, Created definitionLint definition s → holds s)
    (step : ∀ action now s, meets action now s →
      (∀ kept, Invariant definitionLint env.lint .all kept → UniqueSteps s ∧ kept s) →
      s.run.status.ended = false → (act env action now s).run.status.ended = false →
      Change env action now s (act env action now s) → holds s → holds (act env action now s)) :
    ∀ s ∈ states, s.run.status.ended = false → holds s := by
  induction history with
  | created creation =>
    intro s mem _
    rw [mem_singleton.mp mem]
    exact start _ _ creation
  | @acted action now before past history reads met ih =>
    intro s mem unended
    rcases mem_cons.mp mem with rfl | inside
    · have known : ∀ kept, Invariant definitionLint env.lint .all kept →
          UniqueSteps before ∧ kept before :=
        fun kept invariant => history.invariant invariant before mem_cons_self
      have unique := (known _ (booked_invariant definitionLint env.lint .all)).1
      have running : before.run.status.ended = false := by
        by_contra ended
        rw [ended_of_reaches (act_reaches env action now before) unique (by simpa using ended)]
          at unended
        cases unended
      refine step action now before met known running unended
        (act_change running unique fun seen read => ?_)
        (ih before mem_cons_self running)
      by_contra ended
      rw [history.ended seen (reads seen read) (by simpa using ended)] at running
      cases running
    · exact ih s inside unended

/-- Where no fan-out strands a join, and no failed run is resumed with an impossible step, every
run that has not ended is sheltered. -/
theorem HistoryOf.sheltered {states : List RunStore}
    (history : HistoryOf definitionLint env meets states) (covered : Dag.FailurePolicy → Prop)
    (spares : ∀ action now s, meets action now s → covered s.run.onFailure →
      action.Spares env now s ∧ action.Clear s) :
    ∀ s ∈ states, s.run.status.ended = false → covered s.run.onFailure → Sheltered s := by
  refine history.rule ?_ ?_
  · intro definition s creation _
    obtain ⟨_, founded, same⟩ := created_sameGraph creation
    exact (Founded.sheltered founded).of_same same
  · intro action now s met known unended live change sheltered isCovered
    obtain ⟨unique, wired⟩ := known _ (wired_invariant definitionLint env.lint .all)
    have booked := (known _ (booked_invariant definitionLint env.lint .all)).2
    rw [onFailure_of_reaches (act_reaches env action now s) unique] at isCovered
    obtain ⟨spared, clear⟩ := spares action now s met isCovered
    exact (sheltered isCovered).change unique wired booked change spared clear unended live

end Histories

end Agentloom.Engine
