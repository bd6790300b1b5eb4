import Agentloom.Store.Approval
import Agentloom.Store.Costs
import Agentloom.Store.Expand

/-! What the transitions of a run can do to its rows. Every committed change is a chain of the
effects below, and a transition that its guard refuses changes nothing; the invariants of a run are
proved for the effects. -/

namespace Agentloom.Store

open Transaction Relation List Tx

variable {op : String} {now : Time} {s s' : RunStore} {u : Unit}

theorem requireNow_ok (ok : requireNow op now s = (.ok u, s')) : now ≠ 0 ∧ s' = s := by
  unfold requireNow at ok
  split at ok
  · cases ok
  · cases ok
    exact ⟨by assumption, rfl⟩

theorem requireArgument_ok (ok : requireArgument valid op msg s = (.ok u, s')) :
    valid = true ∧ s' = s := by
  unfold requireArgument at ok
  split at ok
  · cases ok
    exact ⟨by assumption, rfl⟩
  · cases ok

section Guards

variable {α : Type} {f : Unit → StoreTx α} {a : α}

theorem requireNow_yields (timed : now ≠ 0) (op : String) :
    Tx.Yields (requireNow op now) s fun _ s' => s' = s := by
  unfold requireNow
  rw [if_neg timed]
  exact .pure rfl

theorem requireArgument_yields (isGiven : given = true) :
    Tx.Yields (requireArgument given op msg) s fun _ s' => s' = s := by
  rw [isGiven]
  exact .pure rfl

theorem requireNow_bind_ok (ok : (requireNow op now >>= f) s = (.ok a, s')) : f () s = (.ok a, s') := by
  obtain ⟨_, _, checked, rest⟩ := bind_ok ok
  obtain ⟨_, rfl⟩ := requireNow_ok checked
  exact rest

theorem requireArgument_bind_ok
    (ok : (requireArgument valid op msg >>= f) s = (.ok a, s')) : f () s = (.ok a, s') := by
  obtain ⟨_, _, argued, rest⟩ := bind_ok ok
  obtain ⟨_, rfl⟩ := requireArgument_ok argued
  exact rest

end Guards

theorem requireNow_state (op : String) (now : Time) (s : RunStore) :
    (requireNow op now s).2 = s := by
  unfold requireNow
  split <;> rfl

theorem requireArgument_state (valid : Bool) (op msg : String) (s : RunStore) :
    (requireArgument valid op msg s).2 = s := by
  unfold requireArgument
  split <;> rfl

theorem getRunStep_apply (op stepID : String) (s : RunStore) :
    getRunStep op stepID s = match findStep s stepID with
      | some row => (.ok row, s)
      | none => (.error (.notFound op stepID), s) := by
  rw [getRunStep, bind_apply, read_apply]
  cases findStep s stepID <;> rfl

theorem getRunStep_state (op stepID : String) (s : RunStore) : (getRunStep op stepID s).2 = s := by
  rw [getRunStep_apply]
  cases findStep s stepID <;> rfl

variable {stepID : String} {row : StepRow}

theorem getRunStep_ok (ok : getRunStep op stepID s = (.ok row, s')) :
    findStep s stepID = some row ∧ s' = s := by
  rw [getRunStep_apply] at ok
  split at ok
  · rename_i found
    cases ok
    exact ⟨found, rfl⟩
  · cases ok

theorem findStep_some (found : findStep s stepID = some row) :
    row ∈ s.steps ∧ row.stepID = stepID :=
  ⟨mem_of_find?_eq_some found, by simpa using find?_some found⟩

variable {guard : StepRow → Bool} {set : StepRow → StepRow}

theorem updateRunStep_some (ok : updateRunStep stepID guard set s = (.ok (some row), s')) :
    ∃ old steps, old.stepID = stepID ∧ guard old = true ∧ row = set old ∧
      Table.Replaced s.steps steps old row ∧ s' = { s with steps } := by
  unfold updateRunStep at ok
  split at ok
  · rename_i new steps updated
    cases ok
    obtain ⟨old, meets, rfl, replaced⟩ := Table.updateFirst_some updated
    rw [Bool.and_eq_true, beq_iff_eq] at meets
    exact ⟨old, steps, meets.1, meets.2, rfl, replaced, rfl⟩
  · cases ok

theorem updateRunStep_none (ok : updateRunStep stepID guard set s = (.ok none, s')) :
    s' = s ∧ ∀ row ∈ s.steps, row.stepID = stepID → guard row = false := by
  unfold updateRunStep at ok
  split at ok
  · cases ok
  · rename_i missed
    cases ok
    refine ⟨rfl, fun row mem same => ?_⟩
    simpa [same] using Table.updateFirst_none.mp missed row mem

variable {e : StoreError}

theorem updateRunStep_error : updateRunStep stepID guard set s ≠ (.error e, s') := by
  unfold updateRunStep
  split <;> simp

/-! A missing row, a bad argument or a corrupted counter is not a refusal: no caller goes on
after one. -/

theorem requireNow_uncaught (op : String) (now : Time) :
    Tx.Uncaught StoreError.isRefusal (requireNow op now) := by
  unfold requireNow
  split
  · exact .throw rfl
  · exact .pure ()

theorem requireArgument_uncaught (valid : Bool) (op msg : String) :
    Tx.Uncaught StoreError.isRefusal (requireArgument valid op msg) := by
  unfold requireArgument
  split
  · exact .pure ()
  · exact .throw rfl

theorem getRunStep_uncaught (op stepID : String) :
    Tx.Uncaught StoreError.isRefusal (getRunStep op stepID) := by
  intro s e s' failed
  rw [getRunStep_apply] at failed
  split at failed <;> cases failed
  rfl

theorem updateRunStep_uncaught (stepID : String) (guard : StepRow → Bool)
    (set : StepRow → StepRow) : Tx.Uncaught StoreError.isRefusal (updateRunStep stepID guard set) :=
  fun _ _ _ failed => absurd failed updateRunStep_error

def Finished (attempts attempts' : List AttemptRow) (step : StepRow) (now : Time) :
    Option Finish → Prop
  | none => attempts' = attempts
  | some finish => ∃ row, row.stepID = step.stepID ∧ row.attemptNo = step.attemptCount ∧
      Table.Replaced attempts attempts' row (row.finish finish now)

theorem finishAttempt_ok {step finish} (ok : finishAttempt op step finish now s = (.ok u, s')) :
    ∃ attempts, Finished s.attempts attempts step now (some finish) ∧ s' = { s with attempts } := by
  unfold finishAttempt at ok
  split at ok
  · rename_i new attempts updated
    cases ok
    obtain ⟨old, meets, rfl, replaced⟩ := Table.updateFirst_some updated
    rw [Bool.and_eq_true, beq_iff_eq, beq_iff_eq] at meets
    exact ⟨attempts, ⟨old, meets.1, meets.2, replaced⟩, rfl⟩
  · cases ok

variable {t : StepTransition}

theorem closeAttempt_ok (ok : t.closeAttempt row s = (.ok u, s')) :
    ∃ attempts, Finished s.attempts attempts row t.now t.finish ∧ s' = { s with attempts } := by
  unfold StepTransition.closeAttempt at ok
  cases finish : t.finish with
  | some outcome =>
    rw [finish] at ok
    exact finishAttempt_ok ok
  | none =>
    rw [finish] at ok
    cases ok
    exact ⟨s.attempts, rfl, rfl⟩

def Lettered (deadLetters deadLetters' : List DeadLetterRow) (step : StepRow) :
    Option Letter → Prop
  | none => deadLetters' = deadLetters
  | some letter => ∃ row, row.stepID = step.stepID ∧ row.attemptsAtDeath = step.attemptCount ∧
      row.source = letter.source ∧ deadLetters' = deadLetters ++ [row]

theorem writeLetter_ok {seq} (ok : t.writeLetter row s = (.ok seq, s')) :
    ∃ deadLetters, Lettered s.deadLetters deadLetters row t.letter ∧
      s' = { s with deadLetters } := by
  unfold StepTransition.writeLetter at ok
  cases letter : t.letter with
  | some content =>
    rw [letter] at ok
    cases ok
    exact ⟨_, ⟨_, rfl, rfl, rfl, rfl⟩, rfl⟩
  | none =>
    rw [letter] at ok
    cases ok
    exact ⟨s.deadLetters, rfl, rfl⟩

theorem changeStep_ok (ok : changeStep t s = (.ok row, s')) :
    ∃ old steps, old.stepID = t.stepID ∧ t.guard old = true ∧ row = t.set old ∧
      Table.Replaced s.steps steps old row ∧ s' = { s with steps } := by
  obtain ⟨written, _, first, second⟩ := bind_ok ok
  cases written with
  | some new =>
    cases second
    exact updateRunStep_some first
  | none =>
    obtain ⟨_, _, _, refused⟩ := bind_ok second
    cases refused

theorem changeStep_error (failed : changeStep t s = (.error e, s')) :
    s' = s ∧ ∀ row ∈ s.steps, row.stepID = t.stepID → t.guard row = false := by
  rcases bind_error failed with early | ⟨written, _, first, second⟩
  · exact absurd early updateRunStep_error
  · cases written with
    | some new => cases second
    | none =>
      obtain ⟨rfl, missed⟩ := updateRunStep_none first
      refine ⟨?_, missed⟩
      rcases bind_error second with lookup | ⟨_, _, lookup, refused⟩
      · exact (congrArg Prod.snd lookup).symm.trans (getRunStep_state _ _ _)
      · cases refused
        exact (getRunStep_ok lookup).2

theorem StepTransition.run_ok (ok : t.run s = (.ok row, s')) :
    ∃ old steps attempts deadLetters seq, old.stepID = t.stepID ∧ t.guard old = true ∧
      row = t.set old ∧ Table.Replaced s.steps steps old row ∧
      Finished s.attempts attempts row t.now t.finish ∧
      Lettered s.deadLetters deadLetters row t.letter ∧
      s' = RunStore.record
        { s with steps, attempts, deadLetters
                 run := { s.run with counters := s.run.counters.add t.delta } }
        (t.event row seq) := by
  obtain ⟨_, _, checked, rest₁⟩ := bind_ok ok
  obtain ⟨written, _, changed, rest₂⟩ := bind_ok rest₁
  obtain ⟨_, _, closed, rest₃⟩ := bind_ok rest₂
  obtain ⟨_, _, bumped, rest₄⟩ := bind_ok rest₃
  obtain ⟨seq, _, lettered, rest₅⟩ := bind_ok rest₄
  obtain ⟨_, rfl⟩ := requireNow_ok checked
  obtain ⟨old, steps, same, guarded, rfl, replaced, rfl⟩ := changeStep_ok changed
  obtain ⟨attempts, finished, rfl⟩ := closeAttempt_ok closed
  cases bumped
  obtain ⟨deadLetters, written, rfl⟩ := writeLetter_ok lettered
  cases rest₅
  exact ⟨old, steps, attempts, deadLetters, seq, same, guarded, rfl, replaced, finished, written,
    rfl⟩

theorem closeAttempt_uncaught (t : StepTransition) (row : StepRow) :
    Tx.Uncaught StoreError.isRefusal (t.closeAttempt row) := by
  intro s e s' failed
  unfold StepTransition.closeAttempt at failed
  cases finish : t.finish with
  | some outcome =>
    rw [finish] at failed
    simp only [finishAttempt] at failed
    split at failed <;> cases failed
    rfl
  | none =>
    simp [finish] at failed

theorem writeLetter_uncaught (t : StepTransition) (row : StepRow) :
    Tx.Uncaught StoreError.isRefusal (t.writeLetter row) := by
  intro s e s' failed
  unfold StepTransition.writeLetter at failed
  cases letter : t.letter <;> rw [letter] at failed <;> cases failed

theorem StepTransition.run_clean (t : StepTransition) (s : RunStore) :
    Tx.Clean StoreError.isRefusal t.run s := by
  refine .bind_reading (requireNow_state _ _ s) fun _ _ => ?_
  refine .bind_uncaught (fun e s' failed _ => (changeStep_error failed).1) fun row => ?_
  exact (closeAttempt_uncaught t row).bind fun _ => (Tx.Uncaught.write _).bind fun _ =>
    (writeLetter_uncaught t row).bind fun _ => (Tx.Uncaught.write _).bind fun _ => .pure _

theorem StepTransition.run_total (timed : t.now ≠ 0) (leaves : t.finish = none)
    (mem : row ∈ s.steps) (named : row.stepID = t.stepID) (guarded : t.guard row = true) :
    t.run s ≠ (.error e, s') := by
  intro failed
  rcases bind_error failed with early | ⟨_, _, checked, failed₁⟩
  · simp [requireNow, timed] at early
  obtain ⟨_, rfl⟩ := requireNow_ok checked
  rcases bind_error failed₁ with missed | ⟨_, _, _, failed₂⟩
  · simp [(changeStep_error missed).2 row mem named] at guarded
  rcases bind_error failed₂ with early | ⟨_, _, _, failed₃⟩
  · unfold StepTransition.closeAttempt at early
    simp [leaves] at early
  rcases bind_error failed₃ with early | ⟨_, _, _, failed₄⟩
  · cases early
  rcases bind_error failed₄ with early | ⟨_, _, _, failed₅⟩
  · unfold StepTransition.writeLetter at early
    cases letter : t.letter <;> rw [letter] at early <;> cases early
  · cases failed₅

theorem updateRun_apply (guard : RunRow → Bool) (set : RunRow → RunRow) (s : RunStore) :
    updateRun guard set s =
      if guard s.run then (.ok (some (set s.run)), { s with run := set s.run })
      else (.ok none, s) := rfl

theorem RunTransition.run_ok {t : RunTransition} {row} (ok : t.run s = (.ok row, s')) :
    t.guard s.run = true ∧ row = t.set s.run ∧
      s' = RunStore.record { s with run := t.set s.run } t.event := by
  obtain ⟨_, _, checked, rest₁⟩ := bind_ok ok
  obtain ⟨_, rfl⟩ := requireNow_ok checked
  obtain ⟨_, _, updated, rest₂⟩ := bind_ok rest₁
  rw [updateRun_apply] at updated
  split at updated
  · rename_i guarded
    cases updated
    cases rest₂
    exact ⟨guarded, rfl, rfl⟩
  · cases updated
    cases rest₂

theorem RunTransition.run_error {t : RunTransition} (failed : t.run s = (.error e, s')) :
    s' = s ∧ (t.now = 0 ∨ t.guard s.run = false) := by
  rcases bind_error failed with early | ⟨_, _, checked, failed₁⟩
  · have kept := requireNow_state t.op t.now s
    rw [early] at kept
    refine ⟨kept, .inl ?_⟩
    by_contra nonzero
    simp [requireNow, nonzero] at early
  obtain ⟨_, rfl⟩ := requireNow_ok checked
  rcases bind_error failed₁ with refused | ⟨_, _, updated, failed₂⟩
  · rw [updateRun_apply] at refused
    split at refused <;> cases refused
  · rw [updateRun_apply] at updated
    split at updated
    · cases updated
      cases failed₂
    · rename_i guarded
      cases updated
      cases failed₂
      exact ⟨rfl, .inr (by simpa using guarded)⟩

theorem lockRunStatus_ok (ok : lockRunStatus now s = (.ok status, s')) :
    status = s.run.status ∧ s' = s := by
  obtain ⟨_, _, checked, rest⟩ := bind_ok ok
  obtain ⟨_, rfl⟩ := requireNow_ok checked
  cases rest
  exact ⟨rfl, rfl⟩

theorem lockRunStatus_bind_ok {α : Type} {f} {a : α}
    (ok : (lockRunStatus now >>= f) s = (.ok a, s')) : f s.run.status s = (.ok a, s') := by
  obtain ⟨_, _, locked, rest⟩ := bind_ok ok
  obtain ⟨rfl, rfl⟩ := lockRunStatus_ok locked
  exact rest

theorem updateRunEdge_ok {ordinal resolution edge}
    (ok : updateRunEdge ordinal resolution s = (.ok edge, s')) :
    (edge = none ∧ s' = s ∧ ∀ row ∈ s.edges, resolvable ordinal row = false) ∨
      ∃ old edges, resolvable ordinal old = true ∧ edge = some { old with resolution } ∧
      Table.Replaced s.edges edges old { old with resolution } ∧ s' = { s with edges } := by
  unfold updateRunEdge at ok
  split at ok
  · rename_i new edges updated
    cases ok
    obtain ⟨old, meets, rfl, replaced⟩ := Table.updateFirst_some updated
    exact .inr ⟨old, edges, meets, rfl, replaced, rfl⟩
  · rename_i missed
    cases ok
    exact .inl ⟨rfl, rfl, Table.updateFirst_none.mp missed⟩

theorem resolveEdgeNoop_apply (ordinal : Nat) (resolution : EdgeResolution) (s : RunStore) :
    (resolveEdgeNoop ordinal resolution s).2 = s ∧
      ∀ result, (resolveEdgeNoop ordinal resolution s).1 = .ok result → result.resolved = false := by
  rw [resolveEdgeNoop, bind_apply, read_apply]
  cases s.edges.find? fun row => row.ordinal == ordinal with
  | none => exact ⟨rfl, fun _ ok => by cases ok⟩
  | some edge =>
    dsimp only
    split
    · exact ⟨rfl, fun _ ok => by cases ok⟩
    · split
      · exact ⟨rfl, fun _ ok => by cases ok; rfl⟩
      · exact ⟨rfl, fun _ ok => by cases ok⟩

theorem resolveEdge_ok
    (ok : resolveEdge ordinal fired now s = (.ok result, s')) :
    (result.resolved = false ∧ s' = s ∧ ∀ row ∈ s.edges, resolvable ordinal row = false) ∨
      ∃ edge edges target steps,
      resolvable ordinal edge = true ∧
      Table.Replaced s.edges edges edge { edge with resolution := resolutionOf fired } ∧
      target.stepID = edge.toStep ∧ 0 < target.remainingDeps ∧
      Table.Replaced s.steps steps target (applyResolution fired now target) ∧
      s' = { s with edges, steps } ∧ result =
        { resolved := true
          edge := { edge with resolution := resolutionOf fired }
          toStep := some (applyResolution fired now target) } := by
  obtain ⟨_, _, checked, rest₁⟩ := bind_ok ok
  obtain ⟨_, rfl⟩ := requireNow_ok checked
  obtain ⟨written, s₂, updated, rest₂⟩ := bind_ok rest₁
  rcases updateRunEdge_ok updated with ⟨rfl, rfl, missed⟩ | ⟨edge, edges, meets, rfl, replaced, rfl⟩
  · obtain ⟨kept, unresolved⟩ := resolveEdgeNoop_apply ordinal (resolutionOf fired) s₂
    dsimp only at rest₂
    rw [rest₂] at kept unresolved
    subst kept
    exact .inl ⟨unresolved result rfl, rfl, missed⟩
  · obtain ⟨target, _, applied, rest₃⟩ := bind_ok rest₂
    cases target with
    | none =>
      obtain ⟨_, _, _, refused⟩ := bind_ok rest₃
      cases refused
    | some written =>
      obtain ⟨old, steps, into, owed, rfl, stepReplaced, rfl⟩ := updateRunStep_some applied
      cases rest₃
      refine .inr ⟨edge, edges, old, steps, meets, replaced, into, ?_, stepReplaced, rfl, rfl⟩
      simpa using owed

theorem resolveEdge_uncaught (ordinal : Nat) (fired : Bool) (now : Time) :
    Tx.Uncaught StoreError.isRefusal (resolveEdge ordinal fired now) := by
  refine (requireNow_uncaught _ _).bind fun _ => Tx.Uncaught.bind ?_ fun written => ?_
  · intro s e s' failed
    unfold updateRunEdge at failed
    split at failed <;> cases failed
  cases written with
  | none =>
    refine (Tx.Uncaught.read _).bind fun found => ?_
    cases found with
    | none => exact .throw rfl
    | some edge =>
      dsimp only
      split_ifs
      · exact .throw rfl
      · exact .pure _
      · exact .throw rfl
  | some edge =>
    refine (updateRunStep_uncaught _ _ _).bind fun target => ?_
    cases target with
    | some row => exact .pure _
    | none => exact (getRunStep_uncaught _ _).bind fun _ => .throw rfl

def StepStatus.isOpen : StepStatus → Bool
  | .running => true
  | .awaitingHuman => true
  | _ => false

/-- A status that a guarded change writes: it holds no attempt, and is not the old status of a
failed step. -/
def StepStatus.isRest : StepStatus → Bool
  | .failed => false
  | status => !status.isOpen

def tally : StepStatus → Counters
  | .succeeded => { succeeded := 1 }
  | .deadLettered => { failed := 1 }
  | .skipped => { skipped := 1 }
  | .cancelled => { cancelled := 1 }
  | .collected => { collected := 1 }
  | _ => {}

def StepRow.placement (row : StepRow) :
    Int × Int × Option String × Option Dag.ExpansionOriginKind :=
  (row.graphVersion, row.depth, row.originStep, row.originKind)

structure SameStep (old new : StepRow) : Prop where
  stepID : new.stepID = old.stepID
  stepType : new.stepType = old.stepType
  config : new.config = old.config
  remaining : new.remainingDeps = old.remainingDeps
  fired : new.firedDeps = old.firedDeps
  attemptCount : new.attemptCount = old.attemptCount
  placement : new.placement = old.placement

/-- A guarded change of one step: it is balanced by its counters and closes the attempt exactly
when one is open. -/
structure StepMove (old new : StepRow) (finish : Option Finish) (delta : Counters) : Prop
    extends SameStep old new where
  balanced : tally new.status = (tally old.status).add delta
  rests : new.status.isRest = true
  closes : finish.isSome = old.status.isOpen

theorem StepMove.closed (move : StepMove old new finish delta) : new.status.isOpen = false := by
  have rests := move.rests
  cases status : new.status <;> simp_all [StepStatus.isRest, StepStatus.isOpen]

structure RunRow.SameBooks (old new : RunRow) : Prop where
  onFailure : new.onFailure = old.onFailure
  graphVersion : new.graphVersion = old.graphVersion
  nextSeq : new.nextSeq = old.nextSeq
  stepsTotal : new.stepsTotal = old.stepsTotal
  counters : new.counters = old.counters
  expansionCaps : new.expansionCaps = old.expansionCaps
  spent : new.spentNanoUSD = old.spentNanoUSD
  saved : new.savedNanoUSD = old.savedNanoUSD

def ExpandRun.widenRow (args : ExpandRun) (now : Time) (row : StepRow) : StepRow :=
  if row.stepID ∈ args.widened then widen (inDegree args.plan.edges row.stepID) now row else row

def ExpandRun.apply (args : ExpandRun) (origin : StepRow) (now : Time) (s : RunStore) : RunStore :=
  { s with
    steps := s.steps.map (args.widenRow now) ++ args.newSteps (s.run.graphVersion + 1) origin now
    edges := s.edges ++ args.newEdges (s.run.graphVersion + 1) (nextOrdinal s)
    run := { s.run with
      graphVersion := s.run.graphVersion + 1
      stepsTotal := s.run.stepsTotal + args.plan.steps.length } }

/-- The expansion passed the validator and the primary keys, and its anchors are pending. -/
structure ExpandRun.Fits (lint : Dag.PlanLint) (args : ExpandRun) (origin : StepRow) (now : Time)
    (s : RunStore) : Prop where
  live : s.run.live = true
  found : findStep s args.originStep = some origin
  accepted : (Dag.validateExpansion lint (args.input origin s)).ok = true
  steps : ((s.steps ++ args.newSteps (s.run.graphVersion + 1) origin now).map
    StepRow.stepID).Nodup
  edges : ((s.edges ++ args.newEdges (s.run.graphVersion + 1) (nextOrdinal s)).map
    EdgeRow.ordinal).Nodup
  anchored : ∀ id ∈ args.widened, ∃ row ∈ s.steps, row.stepID = id ∧ row.status = .pending

def RunStatus.ended : RunStatus → Bool
  | .succeeded => true
  | .cancelling => true
  | .cancelled => true
  | _ => false

def RunStatus.isCancel (status : RunStatus) : Prop := status = .cancelling ∨ status = .cancelled

/-- What a transaction may do: the claim ids it may issue, whether it may touch the approvals and
the steps that wait for them, whether it may open an approval, what it may charge, the steps it may
bury before they begin, whether it may dispatch steps, cancel the run and expand it. -/
structure Permits where
  mints : ClaimID → Prop := fun _ => True
  gates : Prop := True
  opens : Prop := True
  charges : CostRow → Prop := fun _ => True
  buries : String → Prop := fun _ => True
  sends : Prop := True
  cancels : Prop := True
  expands : Prop := True

def Permits.minting (mints : ClaimID → Prop) : Permits := { mints }

def Permits.all : Permits := .minting fun _ => True

def StepStatus.begun : StepStatus → Bool
  | .pending => false
  | .skipped => false
  | .cancelled => false
  | .failed => false
  | _ => true

def StepRow.Countable (row : StepRow) : Prop :=
  1 ≤ row.firedDeps ∧ (row.remainingDeps = 0 ∨ row.stepType = .join ∧ row.config = .join .any)

/-- A step begins on its counters only, unless it may be buried before that. -/
def Begins (may : Permits) (old new : StepRow) : Prop :=
  new.status.begun = true → old.status.begun = true ∨ old.Countable ∨ may.buries old.stepID

def Event.runTotals : Event → Option (Int × Int)
  | .costUpdated _ _ _ _ _ _ _ _ spent saved _ => some (spent, saved)
  | _ => none

def ApprovalRow.terms (row : ApprovalRow) :
    List Dag.ApprovalDecision × Bool × Option Json × Option Time :=
  (row.allowedDecisions, row.allowEdit, row.editSchema, row.timeoutAt)

/-- The changes a transition is made of. Only a charge announces totals of the run. -/
inductive Effect (lint : Dag.PlanLint) (may : Permits) : RunStore → RunStore → Prop
  | moved {s : RunStore} {old new : StepRow} {steps : List StepRow} {attempts : List AttemptRow}
      {deadLetters : List DeadLetterRow} {finish : Option Finish} {delta : Counters} {now : Time}
      {event : Event} {letter : Option Letter} (move : StepMove old new finish delta)
      (gated : old.status = .awaitingHuman → may.gates)
      (replaced : Table.Replaced s.steps steps old new)
      (finished : Finished s.attempts attempts new now finish)
      (lettered : Lettered s.deadLetters deadLetters new letter)
      (begins : Begins may old new) (plain : event.runTotals = none) :
      Effect lint may s (RunStore.record
        { s with steps, attempts, deadLetters
                 run := { s.run with counters := s.run.counters.add delta } } event)
  | claimed {s : RunStore} {old : StepRow} {steps : List StepRow} {attempt : AttemptRow}
      {claimID : ClaimID} {now : Time} {event : Event} (minted : may.mints claimID)
      (claims : claimable now old = true)
      (replaced : Table.Replaced s.steps steps old (claimRow claimID now old))
      (stepID : attempt.stepID = old.stepID) (attemptNo : attempt.attemptNo = old.attemptCount + 1)
      (claim : attempt.claimID = claimID)
      (outcome : attempt.outcome = none) (finishedAt : attempt.finishedAt = none)
      (plain : event.runTotals = none) :
      Effect lint may s
        (RunStore.record { s with steps, attempts := s.attempts ++ [attempt] } event)
  | awaited {s : RunStore} {old : StepRow} {steps : List StepRow} {claimID : ClaimID}
      {content : ApprovalContent} {now : Time} {event : Event} (gated : may.gates)
      (opens : may.opens)
      (held : heldBy claimID old = true)
      (replaced : Table.Replaced s.steps steps old (awaitRow now old))
      (fresh : ∀ row ∈ s.approvals, row.id ≠ content.id)
      (single : ∀ row ∈ s.approvals, row.stepID = old.stepID → row.isPending = false)
      (plain : event.runTotals = none) :
      Effect lint may s (RunStore.record
        { s with steps, approvals := s.approvals ++ [content.row (awaitRow now old) now] } event)
  | ran {s : RunStore} {row : RunRow} {event : Event} (books : s.run.SameBooks row)
      (ends : s.run.status.ended = true → row.status.ended = true)
      (cancels : row.status = .cancelling → s.run.status = .cancelling ∨ may.cancels)
      (plain : event.runTotals = none) :
      Effect lint may s (RunStore.record { s with run := row } event)
  | resolved {s : RunStore} {edge : EdgeRow} {edges : List EdgeRow} {target : StepRow}
      {steps : List StepRow} {ordinal : Nat} {fired : Bool} {now : Time}
      (open_ : resolvable ordinal edge = true)
      (edgeReplaced : Table.Replaced s.edges edges edge { edge with resolution := resolutionOf fired })
      (into : target.stepID = edge.toStep) (owed : 0 < target.remainingDeps)
      (stepReplaced : Table.Replaced s.steps steps target (applyResolution fired now target)) :
      Effect lint may s { s with edges, steps }
  | reapproved {s : RunStore} {old new : ApprovalRow} {approvals : List ApprovalRow}
      (gated : may.gates) (pending : old.isPending = true) (id : new.id = old.id) (stepID :
        new.stepID = old.stepID)
      (attempt : new.attempt = old.attempt)
      (terms : new.terms = old.terms)
      (replaced : Table.Replaced s.approvals approvals old new) :
      Effect lint may s { s with approvals }
  | recorded {s : RunStore} (event : Event) (plain : event.runTotals = none) :
      Effect lint may s (s.record event)
  | charged {s : RunStore} {row : CostRow} (amounts : 0 ≤ row.costNanoUSD ∧ 0 ≤ row.savedNanoUSD)
      (fresh : ∀ other ∈ s.costs, other.key ≠ row.key) (charges : may.charges row) :
      Effect lint may s (s.charge row)
  | enqueued {s : RunStore} (outbox : List OutboxRow)
      (sends : outbox ⊆ s.outbox ∨ may.sends) : Effect lint may s { s with outbox }
  | expanded {s : RunStore} {args : ExpandRun} {origin : StepRow} {now : Time} {event : Event}
      (fits : args.Fits lint origin now s) (expands : may.expands) (plain : event.runTotals = none) :
      Effect lint may s (RunStore.record (args.apply origin now s) event)

def UniqueSteps (s : RunStore) : Prop := (s.steps.map StepRow.stepID).Nodup

theorem widenRow_stepID (args : ExpandRun) (now : Time) (row : StepRow) :
    (args.widenRow now row).stepID = row.stepID := by
  unfold ExpandRun.widenRow widen
  split <;> rfl

theorem map_widenRow_stepID (args : ExpandRun) (now : Time) (rows : List StepRow) :
    (rows.map (args.widenRow now)).map StepRow.stepID = rows.map StepRow.stepID := by
  rw [List.map_map]
  exact map_congr_left fun row _ => widenRow_stepID args now row

section Reaching

variable {lint : Dag.PlanLint} {may : Permits}

theorem Effect.uniqueSteps (effect : Effect lint may s s') (unique : UniqueSteps s) :
    UniqueSteps s' := by
  unfold UniqueSteps at unique ⊢
  cases effect with
  | moved move _ replaced _ _ _ _ =>
    rw [record_steps, replaced.map_eq StepRow.stepID move.stepID]
    exact unique
  | claimed _ _ replaced _ _ _ _ _ _ =>
    rw [record_steps, replaced.map_eq StepRow.stepID rfl]
    exact unique
  | awaited _ _ _ replaced _ _ _ =>
    rw [record_steps, replaced.map_eq StepRow.stepID rfl]
    exact unique
  | resolved _ _ _ _ replaced =>
    rw [replaced.map_eq StepRow.stepID rfl]
    exact unique
  | expanded fits _ _ =>
    rw [record_steps, ExpandRun.apply, map_append, map_widenRow_stepID, ← map_append]
    exact fits.steps
  | _ => exact unique

/-- From a state with unique step ids, a chain of effects leads to the other state. -/
def Reaches (lint : Dag.PlanLint) (may : Permits) (s s' : RunStore) : Prop :=
  UniqueSteps s → ReflTransGen (Effect lint may) s s'

theorem uniqueSteps_of_chain (chain : ReflTransGen (Effect lint may) s s')
    (unique : UniqueSteps s) : UniqueSteps s' := by
  induction chain with
  | refl => exact unique
  | tail _ effect ih => exact effect.uniqueSteps ih

theorem Reaches.refl (s : RunStore) : Reaches lint may s s := fun _ => .refl

theorem Reaches.trans (s s' s'' : RunStore) (first : Reaches lint may s s')
    (second : Reaches lint may s' s'') : Reaches lint may s s'' := by
  intro unique
  exact (first unique).trans (second (uniqueSteps_of_chain (first unique) unique))

theorem Reaches.single (effect : Effect lint may s s') : Reaches lint may s s' := fun _ => .single effect

end Reaching

end Agentloom.Store
