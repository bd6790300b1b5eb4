import Agentloom.Engine.Changes

/-! What a transaction does to the statuses of the steps, in every run: a step begins only on
satisfied counters, or because its message was poisoned. Expansions are told apart. -/

namespace Agentloom.Engine

open Transaction Store Relation

def isBegun : StepStatus → Bool
  | .succeeded => true
  | .collected => true
  | .deadLettered => true
  | status => isActive status

def Begun (s : RunStore) (id : String) : Prop :=
  ∃ row ∈ s.steps, row.stepID = id ∧ isBegun row.status = true

structure Leave where
  buries : String → Prop
  sends : Prop
  cancels : Prop

def Countable (row : StepRow) : Prop :=
  1 ≤ row.firedDeps ∧ (row.remainingDeps = 0 ∨ isJoinAny row = true)

structure Turn (leave : Leave) (old new : StepRow) : Prop extends SamePlace old new where
  begins : isBegun new.status = true →
    isBegun old.status = true ∨ Countable old ∨ leave.buries old.stepID

inductive Motion (leave : Leave) (s s' : RunStore) : Prop
  | kept (steps : s'.steps = s.steps) (edges : s'.edges = s.edges)
      (outbox : s'.outbox ⊆ s.outbox ∨ leave.sends)
      (cancels : s'.run.status = .cancelling → s.run.status = .cancelling ∨ leave.cancels)
  | turned {old new : StepRow} (replaced : Table.Replaced s.steps s'.steps old new)
      (turn : Turn leave old new) (edges : s'.edges = s.edges) (outbox : s'.outbox = s.outbox)
      (status : s'.run.status = s.run.status)
  | resolved {edge : EdgeRow} {target : StepRow} {ordinal : Nat} {fired : Bool} {now : Time}
      (isOpen : resolvable ordinal edge = true)
      (edgeReplaced : Table.Replaced s.edges s'.edges edge
        { edge with resolution := resolutionOf fired })
      (into : target.stepID = edge.toStep) (owed : 0 < target.remainingDeps)
      (replaced : Table.Replaced s.steps s'.steps target (applyResolution fired now target))
      (outbox : s'.outbox = s.outbox) (status : s'.run.status = s.run.status)

variable {leave : Leave}

variable {s s' : RunStore}

theorem Motion.uniqueSteps (motion : Motion leave s s') (unique : UniqueSteps s) :
    UniqueSteps s' := by
  unfold UniqueSteps at unique ⊢
  cases motion with
  | kept steps _ _ _ =>
    rw [steps]
    exact unique
  | turned replaced turn _ _ _ =>
    rw [replaced.map_eq StepRow.stepID turn.stepID]
    exact unique
  | resolved _ _ _ _ replaced _ _ =>
    rw [replaced.map_eq StepRow.stepID rfl]
    exact unique

def Drifts (leave : Leave) (s s' : RunStore) : Prop :=
  UniqueSteps s → ReflTransGen (Motion leave) s s'

theorem Drifts.uniqueSteps (drifts : Drifts leave s s') (unique : UniqueSteps s) :
    UniqueSteps s' := by
  have chain := drifts unique
  clear drifts
  induction chain with
  | refl => exact unique
  | tail _ motion ih => exact motion.uniqueSteps ih

theorem Drifts.trans (s s' s'' : RunStore) (first : Drifts leave s s')
    (second : Drifts leave s' s'') : Drifts leave s s'' := by
  intro unique
  exact (first unique).trans (second (first.uniqueSteps unique))

def Leave.permits (leave : Leave) : Permits :=
  { buries := leave.buries, sends := leave.sends, cancels := leave.cancels, expands := False }

theorem isBegun_eq (status : StepStatus) : isBegun status = status.begun := by
  cases status <;> rfl

theorem Countable.of_row (countable : row.Countable) : Countable row :=
  countable.imp_right fun satisfied => satisfied.imp_right fun any => by simp [isJoinAny, any]

theorem Motion.of_effect (effect : Effect lint leave.permits s s') : Motion leave s s' := by
  cases effect with
  | moved move _ replaced _ _ begins _ =>
    refine .turned replaced ⟨.of_sameStep move.toSameStep, fun begun => ?_⟩ rfl rfl rfl
    rw [isBegun_eq] at begun ⊢
    exact (begins begun).imp_right fun later => later.imp_left .of_row
  | claimed _ claims replaced _ _ _ _ _ _ =>
    refine .turned replaced ⟨⟨rfl, rfl, rfl, rfl⟩, fun _ => .inl ?_⟩ rfl rfl rfl
    rcases claimable_status claims with status | status <;> rw [status] <;> rfl
  | awaited _ _ held replaced _ _ _ =>
    refine .turned replaced ⟨⟨rfl, rfl, rfl, rfl⟩, fun _ => .inl ?_⟩ rfl rfl rfl
    rw [heldBy_running _ held]
    rfl
  | ran _ _ cancels _ => exact .kept rfl rfl (.inl fun _ mem => mem) cancels
  | resolved isOpen replaced into owed stepReplaced =>
    exact .resolved isOpen replaced into owed stepReplaced rfl rfl
  | enqueued _ sends => exact .kept rfl rfl sends .inl
  | expanded _ expands _ => exact expands.elim
  | _ => exact .kept rfl rfl (.inl fun _ mem => mem) .inl

theorem Drifts.of_reaches (reaches : Reaches lint leave.permits s s') : Drifts leave s s' :=
  fun unique => (reaches unique).lift id fun _ _ => Motion.of_effect

theorem Drifts.of_sound {α : Type} {x} {a : α}
    (sound : Sound Dag.quietPlanLint leave.permits x) (ok : x s = (.ok a, s')) :
    Drifts leave s s' :=
  .of_reaches (sound.of_ok ok)

theorem recordNotes_drifts {stepID} {notes : List Note} {now}
    (ok : recordNotes stepID notes now columns s = (.ok (), s')) : Drifts leave s s' :=
  .of_sound (recordNotes_sound stepID notes fun _ _ => trivial) ok

end Agentloom.Engine
