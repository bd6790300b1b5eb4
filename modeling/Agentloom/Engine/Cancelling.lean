import Agentloom.Engine.Dispatch
import Agentloom.Engine.Stranding

/-! How a cancelled run winds down. The sweep leaves only the steps that a worker holds; from then
on an action keeps the steps or settles one of these, and the action that settles the last one ends
the run. Only a takeover by the reconciler puts a step of such a run back. -/

namespace Agentloom.Engine

open Transaction Store Relation List Tx

variable {s s' : RunStore} {row : StepRow} {now : Time} {env : Environment}

def Rests (row : StepRow) : Prop := isCounted row.status = true ∨ row.status = .running

variable {e : StoreError}

theorem isRefusal_of_isConflict (conflict : e.isConflict = true) : e.isRefusal = true := by
  cases e <;> first | rfl | exact conflict

theorem run_unrefused {t : StepTransition} (mem : row ∈ s.steps)
    (named : row.stepID = t.stepID) (guarded : t.guard row = true)
    (failed : t.run s = (.error e, s')) : e.isRefusal = false := by
  rcases bind_error failed with early | ⟨_, _, checked, failed₁⟩
  · exact requireNow_uncaught _ _ _ _ _ early
  obtain ⟨_, rfl⟩ := requireNow_ok checked
  rcases bind_error failed₁ with missed | ⟨new, _, _, failed₂⟩
  · simp [(changeStep_error missed).2 row mem named] at guarded
  have rest : Tx.Uncaught StoreError.isRefusal (do
      t.closeAttempt new
      bumpCounters t.delta
      let seq ← t.writeLetter new
      appendEvent (t.event new seq)
      pure new) :=
    (closeAttempt_uncaught t new).bind fun _ => (Tx.Uncaught.write _).bind fun _ =>
      (writeLetter_uncaught t new).bind fun _ => (Tx.Uncaught.write _).bind fun _ => .pure _
  exact rest _ _ _ failed₂

variable {stepID reason : String}

theorem cancelStep_ok (ok : cancelStep stepID reason now s = (.ok row, s')) :
    (cancel stepID reason now).run s = (.ok row, s') := by
  have rest₁ := requireNow_bind_ok ok
  have rest₂ := requireArgument_bind_ok rest₁
  exact rest₂

theorem checked_error {op now valid msg} {next : StoreTx α}
    (failed : (do requireNow op now; requireArgument valid op msg; next) s = (.error e, s')) :
    e.isRefusal = false ∨ next s = (.error e, s') := by
  rcases bind_error failed with early | ⟨_, _, checked, failed₁⟩
  · exact .inl (requireNow_uncaught _ _ _ _ _ early)
  obtain ⟨_, rfl⟩ := requireNow_ok checked
  rcases bind_error failed₁ with early | ⟨_, _, argued, failed₂⟩
  · exact .inl (requireArgument_uncaught _ _ _ _ _ _ early)
  obtain ⟨_, rfl⟩ := requireArgument_ok argued
  exact .inr failed₂

theorem cancelStep_unrefused (mem : row ∈ s.steps) (named : row.stepID = stepID)
    (unclaimed : row.status = .pending ∨ row.status = .ready ∨ row.status = .retrying)
    (failed : cancelStep stepID reason now s = (.error e, s')) : e.isRefusal = false := by
  rcases checked_error failed with early | failed₂
  · exact early
  refine run_unrefused mem named ?_ failed₂
  simpa [cancel, or_assoc] using unclaimed

variable {u : Unit}

theorem cancelAwaitingHumanStep_ok
    (ok : cancelAwaitingHumanStep stepID reason now s = (.ok row, s')) :
    ∃ old, old.stepID = stepID ∧ row.status = .cancelled ∧ Shifted s s' old row := by
  have rest₁ := requireNow_bind_ok ok
  have rest₂ := requireArgument_bind_ok rest₁
  obtain ⟨_, _, ran, rest₃⟩ := bind_ok rest₂
  obtain ⟨old, named, _, rfl, shifted⟩ := shifted_of_run ran (cancelAwaitingHuman_moves _ _ _)
  obtain ⟨found, _, withdrawn, rest₄⟩ := bind_ok rest₃
  have same := (updateApproval_keeps _ _).of_ok withdrawn
  cases found with
  | none =>
    cases rest₄
    exact ⟨old, named, rfl, shifted.after same⟩
  | some approval =>
    obtain ⟨_, _, recorded, rest₅⟩ := bind_ok rest₄
    cases rest₅
    exact ⟨old, named, rfl, (shifted.after same).after ((appendEvent_keeps _).of_ok recorded)⟩

theorem cancelAwaitingHumanStep_unrefused (mem : row ∈ s.steps) (named : row.stepID = stepID)
    (waits : row.status = .awaitingHuman)
    (failed : cancelAwaitingHumanStep stepID reason now s = (.error e, s')) :
    e.isRefusal = false := by
  rcases checked_error failed with early | failed₂
  · exact early
  rcases bind_error failed₂ with refused | ⟨_, _, _, failed₃⟩
  · refine run_unrefused mem named ?_ refused
    simp [cancelAwaitingHuman, leaveWait, waits]
  rcases bind_error failed₃ with early | ⟨found, _, _, failed₄⟩
  · exact updateApproval_uncaught _ _ _ _ _ early
  cases found with
  | none => cases failed₄
  | some approval => cases failed₄

theorem cancelUnclaimed_ok (unique : UniqueSteps s) (mem : row ∈ s.steps)
    (unfailed : row.status ≠ .failed) (ok : cancelUnclaimed row now s = (.ok u, s')) :
    ∃ new, Table.Replaced s.steps s'.steps row new ∧ new.stepID = row.stepID ∧ Rests new ∧
      s'.run.status = s.run.status := by
  have same : ∀ {old new : StepRow}, old.stepID = row.stepID → new.status = .cancelled →
      Shifted s s' old new → ∃ new, Table.Replaced s.steps s'.steps row new ∧
        new.stepID = row.stepID ∧ Rests new ∧ s'.run.status = s.run.status := by
    intro old new named cancelled shifted
    obtain rfl := Table.eq_of_key unique shifted.replaced.old_mem mem named
    refine ⟨new, shifted.replaced, shifted.place.stepID, .inl ?_, shifted.status⟩
    rw [cancelled]
    rfl
  have dropped : (cancelStep row.stepID "run_cancelled" now).void s = (.ok u, s') →
      ∃ new, Table.Replaced s.steps s'.steps row new ∧ new.stepID = row.stepID ∧ Rests new ∧
        s'.run.status = s.run.status := by
    intro ok
    obtain ⟨new, cancelled⟩ := void_ok ok
    obtain ⟨old, named, _, rfl, shifted⟩ := shifted_of_run (cancelStep_ok cancelled)
      (cancel_moves _ _ _)
    exact same named rfl shifted
  have kept : Rests row → s' = s → ∃ new, Table.Replaced s.steps s'.steps row new ∧
      new.stepID = row.stepID ∧ Rests new ∧ s'.run.status = s.run.status := by
    rintro rests rfl
    obtain ⟨front, rest, isSplit⟩ := append_of_mem mem
    exact ⟨row, ⟨front, rest, isSplit, isSplit⟩, rfl, rests, rfl⟩
  unfold cancelUnclaimed at ok
  cases status : row.status with
  | pending => exact dropped (by rwa [status] at ok)
  | ready => exact dropped (by rwa [status] at ok)
  | retrying => exact dropped (by rwa [status] at ok)
  | awaitingHuman =>
    rw [status] at ok
    obtain ⟨_, cancelled⟩ := void_ok ok
    obtain ⟨_, named, isCancelled, shifted⟩ := cancelAwaitingHumanStep_ok cancelled
    exact same named isCancelled shifted
  | failed => exact absurd status unfailed
  | running =>
    rw [status] at ok
    cases ok
    exact kept (.inr status) rfl
  | _ =>
    rw [status] at ok
    cases ok
    exact kept (.inl (by rw [status]; rfl)) rfl

theorem cancelUnclaimed_unrefused (mem : row ∈ s.steps)
    (failed : cancelUnclaimed row now s = (.error e, s')) : e.isRefusal = false := by
  unfold cancelUnclaimed at failed
  cases status : row.status with
  | pending =>
    rw [status] at failed
    exact cancelStep_unrefused mem rfl (.inl status) (void_error.mp failed)
  | ready =>
    rw [status] at failed
    exact cancelStep_unrefused mem rfl (.inr (.inl status)) (void_error.mp failed)
  | retrying =>
    rw [status] at failed
    exact cancelStep_unrefused mem rfl (.inr (.inr status)) (void_error.mp failed)
  | awaitingHuman =>
    rw [status] at failed
    exact cancelAwaitingHumanStep_unrefused mem rfl status (void_error.mp failed)
  | _ =>
    simp [status] at failed

structure Sweeping (rows : List StepRow) (s : RunStore) : Prop where
  distinct : (rows.map StepRow.stepID).Nodup
  current : ∀ row ∈ rows, row ∈ s.steps
  rests : ∀ row ∈ s.steps, row ∈ rows ∨ Rests row
  unfailed : ∀ row ∈ rows, row.status ≠ .failed
  unique : UniqueSteps s

theorem Sweeping.step (sweeping : Sweeping (row :: rows) s)
    (ok : cancelUnclaimed row now s = (.ok u, s')) :
    Sweeping rows s' ∧ s'.run.status = s.run.status := by
  obtain ⟨absent, distinct⟩ := nodup_cons.mp sweeping.distinct
  obtain ⟨new, replaced, named, rests, status⟩ := cancelUnclaimed_ok sweeping.unique
    (sweeping.current row mem_cons_self) (sweeping.unfailed row mem_cons_self) ok
  refine ⟨⟨distinct, fun other mem => ?_, fun other mem => ?_,
    fun other mem => sweeping.unfailed other (mem_cons_of_mem _ mem), ?_⟩, status⟩
  · rcases replaced.mem_or_old (sweeping.current other (mem_cons_of_mem _ mem)) with
      rfl | inside
    · exact absurd (mem_map_of_mem mem) absent
    · exact inside
  · rcases replaced.mem_of_mem mem with rfl | inside
    · exact .inr rests
    · rcases sweeping.rests other inside with listed | isRest
      · rcases mem_cons.mp listed with rfl | later
        · -- the swept row itself is gone: its id now names the new row
          refine .inr ?_
          have unique' : UniqueSteps s' := by
            unfold UniqueSteps
            rw [replaced.map_eq StepRow.stepID named]
            exact sweeping.unique
          rwa [Table.eq_of_key unique' mem replaced.new_mem named.symm]
        · exact .inl later
      · exact .inr isRest
  · unfold UniqueSteps
    rw [replaced.map_eq StepRow.stepID named]
    exact sweeping.unique

theorem Sweeping.all (sweeping : Sweeping rows s) :
    (∀ u, Tx.forEach rows (fun row => cancelUnclaimed row now) s = (.ok u, s') →
        (∀ row ∈ s'.steps, Rests row) ∧ s'.run.status = s.run.status) ∧
      ∀ e, Tx.forEach rows (fun row => cancelUnclaimed row now) s = (.error e, s') →
        e.isRefusal = false := by
  induction rows generalizing s with
  | nil =>
    refine ⟨fun u ok => ?_, fun e failed => ?_⟩
    · cases ok
      exact ⟨fun row mem => (sweeping.rests row mem).resolve_left not_mem_nil, rfl⟩
    · cases failed
  | cons row rest ih =>
    refine ⟨fun u ok => ?_, fun e failed => ?_⟩
    · obtain ⟨_, s₁, first, others⟩ := bind_ok ok
      obtain ⟨after, status⟩ := sweeping.step first
      obtain ⟨rests, status'⟩ := (ih after).1 u others
      exact ⟨rests, status'.trans status⟩
    · rcases bind_error failed with early | ⟨_, _, first, late⟩
      · exact cancelUnclaimed_unrefused (sweeping.current row mem_cons_self) early
      · exact (ih (sweeping.step first).1).2 e late

theorem cancelRollup_ok (cancelling : s.run.status = .cancelling)
    (ok : attemptCancelRollup now s = (.ok found, s')) :
    s'.steps = s.steps ∧ (s'.run.status = .cancelled ∨ allSettled s'.run = false) := by
  rcases dropped_run_ok ok with ⟨_, _, rfl⟩ | ⟨_, missed, rfl⟩
  · exact ⟨rfl, .inl rfl⟩
  · exact ⟨rfl, .inr (by simpa [cancelling] using missed)⟩

theorem attemptCancelRollup_uncaught (failed : attemptCancelRollup now s = (.error e, s')) :
    e.isConflict = false := by
  unfold attemptCancelRollup dropping at failed
  split at failed
  · cases failed
  · split at failed
    · cases failed
    · rename_i dropped
      cases failed
      simpa using dropped

theorem cancelRunTx_ok {reason} (unique : UniqueSteps s) (unfailed : Unfailed s) :
    (∀ u, cancelRunTx reason now s = (.ok u, s') → s.run.live = true ∧
        (∀ row ∈ s'.steps, Rests row) ∧ (s'.run.status = .cancelled ∨ allSettled s'.run = false)) ∧
      ∀ e, cancelRunTx reason now s = (.error e, s') → e.isConflict = true → s' = s := by
  have swept : ∀ row s₁, cancelRun reason now s = (.ok row, s₁) →
      s.run.live = true ∧ s₁.run.status = .cancelling ∧ Sweeping (listRunSteps s₁) s₁ := by
    intro row s₁ cancelled
    obtain ⟨live, _, rfl⟩ := RunTransition.run_ok cancelled
    have perm := perm_insertionSort (fun a b : StepRow => a.stepID ≤ b.stepID) s.steps
    refine ⟨live, rfl, (perm.map StepRow.stepID).nodup_iff.mpr unique, fun _ => perm.mem_iff.mp,
      fun row mem => .inl (perm.mem_iff.mpr mem),
      fun row mem => unfailed row (perm.mem_iff.mp mem), unique⟩
  constructor
  · intro u ok
    obtain ⟨row, s₁, cancelled, rest₁⟩ := bind_ok ok
    obtain ⟨live, status, sweeping⟩ := swept row s₁ cancelled
    obtain ⟨rows, s₂, read, rest₂⟩ := bind_ok rest₁
    cases read
    obtain ⟨_, s₃, swept, rest₃⟩ := bind_ok rest₂
    obtain ⟨rests, kept⟩ := sweeping.all.1 _ swept
    obtain ⟨_, rolled⟩ := void_ok rest₃
    obtain ⟨steps, outcome⟩ := cancelRollup_ok (kept.trans status) rolled
    rw [steps]
    exact ⟨live, rests, outcome⟩
  · intro e failed conflict
    rcases bind_error failed with early | ⟨row, s₁, cancelled, failed₁⟩
    · exact (RunTransition.run_error early).1
    obtain ⟨_, _, sweeping⟩ := swept row s₁ cancelled
    rcases bind_error failed₁ with early | ⟨_, _, read, failed₂⟩
    · cases early
    cases read
    rcases bind_error failed₂ with late | ⟨_, _, _, rolled⟩
    · have refusal := isRefusal_of_isConflict conflict
      simp [sweeping.all.2 e late] at refusal
    · simp [attemptCancelRollup_uncaught (void_error.mp rolled)] at conflict

theorem enforceDeadline_ok {payload} (unique : UniqueSteps s) (unfailed : Unfailed s)
    (ok : Engine.enforceDeadline payload now s = (.ok u, s')) :
    s' = s ∨ s.run.live = true ∧ (∀ row ∈ s'.steps, Rests row) ∧
      (s'.run.status = .cancelled ∨ allSettled s'.run = false) := by
  obtain ⟨_, s₁, dropped, rest⟩ := bind_ok ok
  unfold dropping at dropped
  split at dropped
  · rename_i cancelled
    cases dropped
    have recorded := requireNow_bind_ok rest
    cases recorded
    obtain ⟨live, rests, outcome⟩ := (cancelRunTx_ok unique unfailed).1 _ cancelled
    exact .inr ⟨live, rests, outcome⟩
  · rename_i e s₁ failed
    split at dropped
    · rename_i conflict
      cases dropped
      cases rest
      exact .inl ((cancelRunTx_ok unique unfailed).2 e failed conflict)
    · cases dropped

inductive Winds (s s' : RunStore) : Prop
  | kept (steps : s'.steps = s.steps)
  | settled {old new : StepRow} (replaced : Table.Replaced s.steps s'.steps old new)
      (after : isCounted new.status = true)
      (rolled : s'.run.status = .cancelled ∨ allSettled s'.run = false)

def Action.Spared (s : RunStore) : Action → Prop
  | .healRunning stepID claimID _ => s.run.status = .cancelling →
      ∀ row ∈ s.steps, row.stepID = stepID → heldBy claimID row = false
  | _ => True

variable {claimID : ClaimID}

section Winding

variable (cancelling : s.run.status = .cancelling)

include cancelling

theorem cancelling_not_live : s.run.live = false := by
  simp [RunRow.live, cancelling]

theorem Winds.of_shifted (shifted : Shifted s t old new) (after : isCounted new.status = true)
    (rolled : attemptCancelRollup now t = (.ok found, s')) : Winds s s' := by
  obtain ⟨steps, outcome⟩ := cancelRollup_ok (shifted.status.trans cancelling) rolled
  exact .settled (steps.symm ▸ shifted.replaced) after outcome

theorem takeoverAndClaim_refused :
    Engine.takeoverAndClaim stepID holder claimID workerID now s ≠ (.ok u, s') := by
  intro ok
  obtain ⟨_, t, dropped, rest⟩ := bind_ok ok
  obtain ⟨_, claimed⟩ := void_ok rest
  have running := (claimStep_ok _ _ _ claimed).1
  have status : t.run.status = s.run.status := by
    unfold dropping at dropped
    split at dropped
    · rename_i ran
      cases dropped
      obtain ⟨_, _, _, _, shifted⟩ := shifted_of_run ran (takeover_moves _ _ _)
      exact shifted.status
    · rename_i e s₁ failed
      split at dropped
      · rename_i ready
        cases dropped
        have refused : e.isRefusal = true := by
          cases e <;> first | rfl | cases ready
        rw [StepTransition.run_clean _ _ _ _ failed refused]
      · cases dropped
  simp [status, cancelling] at running

theorem succeed_winds (ok : completeSuccess env.lint args now s = (.ok u, s')) : Winds s s' := by
  obtain ⟨_, t, settled, rest⟩ := bind_ok ok
  have rest₁ := lockRunStatus_bind_ok settled
  obtain ⟨_, _, succeeded, rest₂⟩ := bind_ok rest₁
  obtain ⟨_, _, noted, rest₃⟩ := bind_ok rest₂
  unfold sourceOfSuccess at rest₃
  rw [if_pos cancelling] at rest₃
  cases rest₃
  obtain ⟨_, _, _, rfl, shifted⟩ :=
    shifted_of_run (requireArgument_bind_ok succeeded) (succeed_moves _ _ _ _)
  have after := shifted.after ((recordNotes_keeps _ _ _).of_ok noted)
  have rest₄ := read_bind_ok rest
  obtain ⟨_, rolled⟩ := void_ok rest₄
  have dead := cancelling_not_live (after.status.trans cancelling)
  obtain ⟨run, _, first, rest₅⟩ := bind_ok rolled
  rcases dropped_run_ok first with ⟨_, guarded, _⟩ | ⟨rfl, _, rfl⟩
  · simp [dead] at guarded
  obtain ⟨_, _, second, rest₆⟩ := bind_ok rest₅
  rcases dropped_run_ok second with ⟨_, guarded, _⟩ | ⟨rfl, _, rfl⟩
  · simp [dead] at guarded
  exact .of_shifted cancelling after rfl rest₆

theorem deadLetterDisposition_rests (rests : ∀ row ∈ s.steps, Rests row)
    (ok : deadLetterDisposition onFailure now s = (.ok disposed, s')) :
    disposed.2 = false ∧ s' = s := by
  have dead := cancelling_not_live cancelling
  cases onFailure with
  | failFast =>
    obtain ⟨found, s₁, dropped, rest⟩ := bind_ok ok
    cases rest
    rcases dropped_run_ok dropped with ⟨_, guarded, _⟩ | ⟨rfl, _, rfl⟩
    · simp [dead] at guarded
    · exact ⟨rfl, rfl⟩
  | continueIndependentBranches =>
    have rest₁ := read_bind_ok ok
    have nothing : writeOffOf s = [] := by
      refine eq_nil_iff_forall_not_mem.mpr fun id listed => ?_
      obtain ⟨row, mem, _, pending⟩ := (writeOffOf_writeOff s).pending listed
      rcases rests row mem with counted | running
      · rw [pending] at counted
        cases counted
      · simp [pending] at running
    rw [nothing] at rest₁
    have rest₂ := read_bind_ok rest₁
    obtain ⟨_, _, dropped, rest₃⟩ := bind_ok rest₂
    cases rest₃
    rcases dropped_run_ok dropped with ⟨_, guarded, _⟩ | ⟨rfl, _, rfl⟩
    · simp [dead] at guarded
    · exact ⟨rfl, rfl⟩

theorem poison_winds (rests : ∀ row ∈ s.steps, Rests row)
    (ok : handlePoison stepID error payload now s = (.ok u, s')) : Winds s s' := by
  have rest₁ := read_bind_ok ok
  obtain ⟨row, t, buried, rest₂⟩ := bind_ok rest₁
  obtain ⟨⟨_, _⟩, t', disposition, rest₃⟩ := bind_ok rest₂
  obtain ⟨_, new, dies⟩ := poisonDeadLetterStep_ok Dag.quietPlanLint buried
  have counted : isCounted new.status = true := by
    rw [dies.after]
    rfl
  have rests' : ∀ row ∈ t.steps, Rests row := by
    intro row mem
    rcases dies.shifted.replaced.mem_of_mem mem with rfl | inside
    · exact .inl counted
    · exact rests row inside
  obtain ⟨rfl, rfl⟩ := deadLetterDisposition_rests (dies.shifted.status.trans cancelling) rests'
    disposition
  obtain ⟨_, rolled⟩ := void_ok (rest₃ : (attemptCancelRollup now).void t' = (.ok u, s'))
  exact .of_shifted cancelling dies.shifted counted rolled

theorem requeue_refused : Engine.requeue stepID now s ≠ (.ok u, s') := by
  intro ok
  obtain ⟨_, _, requeued, rest₁⟩ := bind_ok ok
  obtain ⟨_, _, reopened, _⟩ := bind_ok rest₁
  obtain ⟨_, _, _, rfl, shifted⟩ := shifted_of_run requeued (requeue_moves stepID now)
  have rest₂ := read_bind_ok reopened
  simp [shifted.status, cancelling] at rest₂

theorem decide_refused : Engine.decide satisfies args seen now s ≠ (.ok u, s') := by
  intro ok
  unfold Engine.decide at ok
  cases admitted : admitDecision satisfies args seen with
  | error e =>
    simp [admitted] at ok
  | ok rows =>
    rw [admitted] at ok
    obtain ⟨_, t, settled, _⟩ := bind_ok ok
    obtain ⟨_, _, required, _⟩ := bind_ok settled
    have rest := lockRunStatus_bind_ok required
    simp only [cancelling, reduceCtorEq, or_self, if_false] at rest
    cases rest

theorem healRunning_winds (spared : (Action.healRunning stepID claimID hasPendingOutbox).Spared s)
    (ok : healRunningStep stepID claimID hasPendingOutbox now s = (.ok u, s')) : Winds s s' := by
  obtain ⟨_, t, dropped, rest⟩ := bind_ok ok
  unfold dropping at dropped
  split at dropped
  · rename_i ran
    cases dropped
    obtain ⟨old, named, held, _, shifted⟩ := shifted_of_run ran (takeover_moves _ _ _)
    have free := spared cancelling old shifted.replaced.old_mem named
    simp [show heldBy claimID old = true from held] at free
  · rename_i e s₁ failed
    split at dropped
    · rename_i conflict
      cases dropped
      cases rest
      rw [StepTransition.run_clean _ _ _ _ failed (isRefusal_of_isConflict conflict)]
      exact .kept rfl
    · cases dropped

theorem healScanned_winds (unique : UniqueSteps s)
    (ok : healScanned stepID claimID seen now s = (.ok u, s')) : Winds s s' := by
  unfold healScanned at ok
  split at ok
  on_goal 2 =>
    cases ok
    exact .kept rfl
  obtain ⟨found, dropped⟩ := void_ok ok
  unfold dropping at dropped
  split at dropped
  · rename_i healed
    cases dropped
    obtain ⟨row, s₁, taken, rest₁⟩ := bind_ok healed
    obtain ⟨old, named, _, rfl, shifted⟩ := shifted_of_run taken (takeover_moves _ _ _)
    obtain ⟨row, s₂, cancelled, rest₂⟩ := bind_ok rest₁
    obtain ⟨_, named', _, rfl, shifted'⟩ := shifted_of_run (cancelStep_ok cancelled)
      (cancel_moves _ _ _)
    obtain rfl := Table.eq_of_key (shifted.uniqueSteps unique) shifted'.replaced.old_mem
      shifted.replaced.new_mem (named'.trans (shifted.place.stepID.trans named).symm)
    obtain ⟨_, rolled⟩ := void_ok rest₂
    have replaced := shifted.replaced.trans shifted'.replaced unique shifted.place.stepID
    obtain ⟨steps, outcome⟩ := cancelRollup_ok
      (shifted'.status.trans (shifted.status.trans cancelling)) rolled
    exact .settled (steps.symm ▸ replaced) rfl outcome
  · rename_i e s₁ failed
    split at dropped
    on_goal 2 => cases dropped
    rename_i conflict
    cases dropped
    refine .kept ?_
    rcases bind_error failed with early | ⟨row, _, taken, late⟩
    · rw [StepTransition.run_clean _ _ _ _ early (isRefusal_of_isConflict conflict)]
    obtain ⟨_, named, _, rfl, shifted⟩ := shifted_of_run taken (takeover_moves _ _ _)
    rcases bind_error late with refused | ⟨_, _, _, rolled⟩
    · have refusal := isRefusal_of_isConflict conflict
      rw [cancelStep_unrefused shifted.replaced.new_mem (shifted.place.stepID.trans named)
        (.inr (.inl rfl)) refused] at refusal
      cases refusal
    · simp [attemptCancelRollup_uncaught (void_error.mp rolled)] at conflict

theorem expireApprovalPark_refused : expireApprovalPark args now s ≠ (.ok action, s') := by
  intro ok
  have rest₁ := requireNow_bind_ok ok
  have rest₂ := read_bind_ok rest₁
  obtain ⟨marked, _, updated, rest₃⟩ := bind_ok rest₂
  have same := (updateApproval_keeps _ _).of_ok updated
  cases marked with
  | none =>
    obtain ⟨_, s₄, _, refused⟩ := bind_ok rest₃
    split at refused <;> cases refused
  | some approval =>
    obtain ⟨_, _, park, _⟩ := bind_ok rest₃
    unfold parkForTimeout at park
    rw [if_neg (by simp [cancelling])] at park
    obtain ⟨_, _, parks, _⟩ := bind_ok park
    obtain ⟨running, _, _⟩ := RunTransition.run_ok parks
    simp [same.status, cancelling] at running

theorem exec_winds (unique : UniqueSteps s) (unfailed : Unfailed s)
    (rests : ∀ row ∈ s.steps, Rests row) {action : Action} (spared : action.Spared s)
    (ok : action.exec env now s = (.ok u, s')) : Winds s s' := by
  have dead := cancelling_not_live cancelling
  cases action with
  | claim stepID claimID workerID =>
    obtain ⟨row, claimed⟩ := void_ok ok
    have running := (claimStep_ok _ _ _ claimed).1
    simp [cancelling] at running
  | takeoverAndClaim => exact absurd ok (takeoverAndClaim_refused cancelling)
  | succeed args => exact succeed_winds cancelling ok
  | poison => exact poison_winds cancelling rests ok
  | requeue => exact absurd ok (requeue_refused cancelling)
  | cancel reason =>
    have live := ((cancelRunTx_ok unique unfailed).1 _ ok).1
    simp [dead] at live
  | enforceDeadline payload =>
    rcases enforceDeadline_ok unique unfailed ok with rfl | ⟨live, _⟩
    · exact .kept rfl
    · simp [dead] at live
  | park reason =>
    obtain ⟨row, parked⟩ := void_ok ok
    obtain ⟨_, _, rfl⟩ := RunTransition.run_ok parked
    exact .kept rfl
  | unpark =>
    obtain ⟨row, t, unparked, _⟩ := bind_ok ok
    obtain ⟨parked, _, _⟩ := RunTransition.run_ok unparked
    simp [cancelling] at parked
  | setBudget budgetNanoUSD =>
    obtain ⟨row, set⟩ := void_ok ok
    have rest₁ := requireNow_bind_ok set
    obtain ⟨_, s₂, locked, rest₂⟩ := bind_ok rest₁
    cases locked
    obtain ⟨_, _, updated, rest₃⟩ := bind_ok rest₂
    rw [updateRun_apply, if_pos (by simp [cancelling, RunStatus.terminal])] at updated
    cases updated
    cases rest₃
    exact .kept rfl
  | decide => exact absurd ok (decide_refused cancelling)
  | timeout stepID output evaluator seen later =>
    rcases handleApprovalTimeout_ok ok with ⟨_, rfl⟩ | ⟨_, _, ⟨_, parked⟩ | ⟨_, _, decided⟩⟩
    · exact .kept rfl
    · obtain ⟨_, parked⟩ := void_ok parked
      exact absurd parked (expireApprovalPark_refused cancelling)
    · exact absurd decided (decide_refused cancelling)
  | healRunning => exact healRunning_winds cancelling spared ok
  | healCancelling => exact healScanned_winds cancelling unique ok
  | downgrade stepID claimID payload =>
    have rest₁ := requireNow_bind_ok ok
    obtain ⟨_, _, read, rest₂⟩ := bind_ok rest₁
    obtain ⟨_, rfl⟩ := getRunStep_ok read
    split at rest₂
    · cases rest₂
      exact .kept rfl
    · cases rest₂
  | record stepID entry => exact .kept ((recordNote_beside stepID entry).of_ok ok).steps
  | enqueue =>
    cases ok
    exact .kept rfl
  | drain =>
    cases ok
    exact .kept rfl
  | _ =>
    obtain ⟨_, _, _, _, shifted, cancelled, rolled⟩ := unlessCancelling_settles cancelling ok
    exact .of_shifted cancelling shifted (by rw [cancelled]; rfl) rolled

end Winding

theorem uncancelled_of_chain (sober : ¬may.cancels)
    (chain : ReflTransGen (Effect lint may) s s') (cancelling : s'.run.status = .cancelling) :
    s.run.status = .cancelling := by
  induction chain with
  | refl => exact cancelling
  | tail _ effect ih =>
    cases effect with
    | ran _ _ cancels _ => exact ih ((cancels cancelling).resolve_right sober)
    | _ => exact ih cancelling

structure Winding (s : RunStore) : Prop where
  rests : ∀ row ∈ s.steps, Rests row
  held : ∃ row ∈ s.steps, row.status = .running

theorem Winding.of_unsettled (booked : Booked s) (rests : ∀ row ∈ s.steps, Rests row)
    (unsettled : allSettled s.run = false) : Winding s := by
  refine ⟨rests, ?_⟩
  by_contra none
  have settled : allSettled s.run = true := by
    refine booked.allSettled_iff.mpr fun row mem => ?_
    exact (rests row mem).resolve_right fun running => none ⟨row, mem, running⟩
  simp [unsettled] at settled

section Acts

variable {action : Action} (unique : UniqueSteps s)

include unique

theorem exec_cancels (unfailed : Unfailed s) (ok : action.exec env now s = (.ok u, s'))
    (cancelling : s'.run.status = .cancelling) :
    s.run.status = .cancelling ∨ (∀ row ∈ s'.steps, Rests row) ∧ allSettled s'.run = false := by
  have awake : s'.run.status ≠ .cancelled := by simp [cancelling]
  by_cases cancels : action.cancels = true
  · cases action with
    | cancel reason =>
      obtain ⟨_, rests, outcome⟩ := (cancelRunTx_ok unique unfailed).1 _ ok
      exact .inr ⟨rests, outcome.resolve_left awake⟩
    | enforceDeadline payload =>
      rcases enforceDeadline_ok unique unfailed ok with rfl | ⟨_, rests, outcome⟩
      · exact .inl cancelling
      · exact .inr ⟨rests, outcome.resolve_left awake⟩
    | _ => cases cancels
  have reaches : Reaches env.lint { cancels := False } s s' :=
    (Action.exec_sound { cancels := fun isCancel => cancels isCancel }).of_ok ok
  exact .inl (uncancelled_of_chain id (reaches unique) cancelling)

theorem act_winding (unfailed : Unfailed s) (booked : Booked (act env action now s))
    (winding : s.run.status = .cancelling → Winding s) (spared : action.Spared s) :
    ((act env action now s).run.status = .cancelling → Winding (act env action now s)) ∧
      (s.run.status = .cancelling → (∀ row ∈ (act env action now s).steps, row.status ≠ .running) →
        (act env action now s).run.status = .cancelled) := by
  have occupied : ∀ row ∈ s.steps, row.status = .running → ¬∀ row ∈ s.steps, row.status ≠ .running :=
    fun row mem running none => none row mem running
  unfold act commit at booked ⊢
  split at booked
  on_goal 2 =>
    refine ⟨winding, fun cancelling none => ?_⟩
    obtain ⟨row, mem, running⟩ := (winding cancelling).held
    exact absurd none (occupied row mem running)
  rename_i u s' ok
  dsimp only at booked ⊢
  by_cases cancelling : s.run.status = .cancelling
  · obtain ⟨rests, row, mem, running⟩ := winding cancelling
    cases exec_winds cancelling unique unfailed rests spared ok with
    | kept steps =>
      refine ⟨fun _ => ⟨steps ▸ rests, row, steps ▸ mem, running⟩, fun _ none => ?_⟩
      exact absurd (steps ▸ none) (occupied row mem running)
    | settled replaced after rolled =>
      have rests' : ∀ row ∈ s'.steps, Rests row := by
        intro row mem
        rcases replaced.mem_of_mem mem with rfl | inside
        · exact .inl after
        · exact rests row inside
      refine ⟨fun cancelling' => .of_unsettled booked rests' (rolled.resolve_left ?_),
        fun _ none => rolled.resolve_right fun unsettled => ?_⟩
      · simp [cancelling']
      · obtain ⟨held, inside, isHeld⟩ := (Winding.of_unsettled booked rests' unsettled).held
        exact none held inside isHeld
  · refine ⟨fun cancelling' => ?_, fun isCancelling => absurd isCancelling cancelling⟩
    obtain ⟨rests, unsettled⟩ := (exec_cancels unique unfailed ok cancelling').resolve_left cancelling
    exact .of_unsettled booked rests unsettled

end Acts

abbrev SparedHistory (definitionLint : Dag.DefinitionLint) (env : Environment) :
    List RunStore → Prop :=
  HistoryOf definitionLint env fun action _ s => action.Spared s

theorem created_running (created : Created definitionLint definition s) : s.run.status = .running := by
  obtain ⟨_, founded, same⟩ := created_sameGraph created
  obtain ⟨_, _, _, _, _, rfl⟩ := founded.planned
  exact same.status

section Histories

variable {definitionLint : Dag.DefinitionLint}

theorem HistoryOf.winding_step
    (history : SparedHistory definitionLint env (s :: past)) (spared : action.Spared s)
    (winding : s.run.status = .cancelling → Winding s) :
    ((act env action now s).run.status = .cancelling → Winding (act env action now s)) ∧
      (s.run.status = .cancelling → (∀ row ∈ (act env action now s).steps, row.status ≠ .running) →
        (act env action now s).run.status = .cancelled) := by
  have known := fun kept (invariant : Invariant definitionLint env.lint .all kept) =>
    history.invariant invariant s mem_cons_self
  obtain ⟨unique, unfailed⟩ := known _ (unfailed_invariant definitionLint env.lint .all)
  have booked := (known _ (booked_invariant definitionLint env.lint .all)).2
  exact act_winding unique unfailed
    (booked_of_reaches (act_reaches env action now s) unique booked) winding spared

theorem HistoryOf.winding (history : SparedHistory definitionLint env states) :
    ∀ s ∈ states, s.run.status = .cancelling → Winding s := by
  induction history with
  | created creation =>
    intro s mem cancelling
    simp [mem_singleton.mp mem, created_running creation] at cancelling
  | acted history reads spared ih =>
    intro s mem
    rcases mem_cons.mp mem with rfl | inside
    · exact (history.winding_step spared (ih _ mem_cons_self)).1
    · exact ih s inside

end Histories

/-- In every run in which no takeover by the reconciler lands after the cancellation: the open steps
of a cancelling run are running, and the action that settles the last of them ends the run. -/
theorem cancelling_run_winds_down (definitionLint : Dag.DefinitionLint) (env : Environment)
    (states : List RunStore) (history : SparedHistory definitionLint env states) :
    (∀ s ∈ states, s.run.status = .cancelling →
        ∀ row ∈ s.steps, isCounted row.status = true ∨ row.status = .running) ∧
      ∀ later s' s past, states = later ++ s' :: s :: past → s.run.status = .cancelling →
        (∃ row ∈ s.steps, row.status = .running) → (∀ row ∈ s'.steps, row.status ≠ .running) →
        s'.run.status = .cancelled := by
  refine ⟨fun s member cancelling => (history.winding s member cancelling).rests, ?_⟩
  induction history with
  | created =>
    intro later s' s past isStates
    have length := congrArg length isStates
    simp only [length_append, length_cons, length_nil] at length
    omega
  | acted history reads spared ih =>
    intro later s' s past isStates cancelling held none
    cases later with
    | nil =>
      cases isStates
      exact (history.winding_step spared (history.winding _ mem_cons_self)).2 cancelling none
    | cons last later => exact ih later s' s past (cons.inj isStates).2 cancelling held none

/-! One branch of the join is claimed, then the run is cancelled. The reconciler has scanned the
step before and takes it over after; or its worker reports a failure. -/

def joinCancelled : RunStore :=
  act quietEnvironment (.cancel .manual) 3
    (act quietEnvironment (.claim "a" 7 "worker") 2 joinRun)

def joinHealed : RunStore := act quietEnvironment (.healRunning "a" 7 false) 4 joinCancelled

theorem takeover_reopens_cancelling_run :
    ∃ past, History Dag.quietDefinitionLint quietEnvironment (joinHealed :: past) ∧
      joinHealed.run.status = .cancelling ∧
      joinHealed.steps.map (fun row => (row.stepID, row.status)) =
        [("a", .ready), ("b", .cancelled), ("j", .cancelled)] :=
  ⟨_, .acted (.acted (.acted (.created joinRun_created) (by simp) trivial)
    (by simp) trivial) (by simp) trivial, by decide, by decide⟩

def joinWound : RunStore :=
  act quietEnvironment (.fail "a" 7 { outcome := .transient } [] (.retry 9)) 4 joinCancelled

theorem failure_winds_cancelling_run_down :
    joinCancelled.run.status = .cancelling ∧ joinWound.run.status = .cancelled := by
  have history : SparedHistory Dag.quietDefinitionLint quietEnvironment
      (joinWound :: joinCancelled :: _) :=
    .acted (.acted (.acted (.created joinRun_created) (by simp) trivial)
      (by simp) trivial) (by simp) trivial
  exact ⟨by decide, (cancelling_run_winds_down _ _ _ history).2 [] _ _ _ rfl (by decide) (by decide)
    (by decide)⟩

end Agentloom.Engine
