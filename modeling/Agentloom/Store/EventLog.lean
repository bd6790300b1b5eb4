import Mathlib.Data.List.Range
import Agentloom.Store.Runs

/-! The event log of a run: its sequence numbers have no gaps, a change of status is never silent,
and a refused call leaves no trace. -/

namespace Agentloom.Store

open Transaction List Tx

variable {s s' : RunStore}

def Sequenced (s : RunStore) : Prop := s.events.map EventRow.seq = List.range' 1 s.run.nextSeq

theorem Sequenced.record {s} (sequenced : Sequenced s) (event : Event) :
    Sequenced (s.record event) := by
  unfold Sequenced RunStore.record
  rw [map_append, sequenced, range'_concat]
  simp [Nat.add_comm]

theorem Founded.sequenced {definitionLint definition s}
    (founded : Founded definitionLint definition s) : Sequenced s := by
  obtain ⟨_, _, _, _, _, rfl⟩ := founded.planned
  rfl

def statuses (s : RunStore) : RunStatus × List (String × StepStatus) :=
  (s.run.status, s.steps.map fun row => (row.stepID, row.status))

def Logged (s s' : RunStore) : Prop :=
  ∃ appended, s'.events = s.events ++ appended ∧ (appended = [] → statuses s' = statuses s)

theorem Logged.of_record {event} (events : s'.events = s.events) : Logged s (s'.record event) := by
  refine ⟨[{ seq := s'.run.nextSeq + 1, payload := event }], ?_, fun none => by cases none⟩
  unfold RunStore.record
  rw [events]

theorem Logged.of_kept (events : s'.events = s.events)
    (kept : statuses s' = statuses s) : Logged s s' :=
  ⟨[], by rw [events, append_nil], fun _ => kept⟩

theorem Logged.trans {s'' : RunStore} (first : Logged s s') (second : Logged s' s'') :
    Logged s s'' := by
  obtain ⟨earlier, events, kept⟩ := first
  obtain ⟨later, events', kept'⟩ := second
  refine ⟨earlier ++ later, by rw [events', events, append_assoc], fun none => ?_⟩
  rw [append_eq_nil_iff] at none
  rw [kept' none.2, kept none.1]

section Effects

variable {lint : Dag.PlanLint} {may : Permits} {s s' : RunStore}

theorem Effect.sequenced (effect : Effect lint may s s') (sequenced : Sequenced s) :
    Sequenced s' := by
  cases effect with
  | ran books _ _ _ =>
    refine Sequenced.record ?_ _
    unfold Sequenced
    rw [books.nextSeq]
    exact sequenced
  | resolved _ _ _ _ _ => exact sequenced
  | reapproved _ _ _ _ _ _ _ => exact sequenced
  | recorded event _ => exact sequenced.record event
  | enqueued _ _ => exact sequenced
  | _ => exact Sequenced.record sequenced _

theorem Effect.logged (effect : Effect lint may s s') : Logged s s' := by
  cases effect with
  | resolved _ _ _ _ replaced =>
    refine .of_kept rfl (congrArg (Prod.mk s.run.status) ?_)
    exact replaced.map_eq (fun row => (row.stepID, row.status)) rfl
  | reapproved _ _ _ _ _ _ _ => exact .of_kept rfl rfl
  | enqueued _ _ => exact .of_kept rfl rfl
  | _ => exact .of_record rfl

theorem Reaches.logged (reaches : Reaches lint may s s') (unique : UniqueSteps s) :
    Logged s s' := by
  have chain := reaches unique
  clear reaches
  induction chain with
  | refl => exact .of_kept rfl rfl
  | tail _ effect ih => exact ih.trans effect.logged

end Effects

theorem sequenced_invariant (definitionLint : Dag.DefinitionLint) (lint : Dag.PlanLint)
    (may : Permits) : Invariant definitionLint lint may Sequenced where
  founded _ _ founded := founded.sequenced
  kept _ _ effect _ sequenced := effect.sequenced sequenced

section Clean

variable (s : RunStore)

theorem checkedRun_clean {op now valid msg} (t : StepTransition) : Tx.Clean StoreError.isRefusal (do
      requireNow op now
      requireArgument valid op msg
      t.run) s := by
  refine .bind_reading (requireNow_state _ _ s) fun _ _ => ?_
  exact .bind_reading (requireArgument_state _ _ _ s) fun _ _ => t.run_clean s

theorem parkOverBudget_uncaught (status : RunStatus) :
    Tx.Uncaught StoreError.isRefusal (parkOverBudget status) := by
  unfold parkOverBudget
  split
  · refine Tx.Uncaught.bind ?_ fun parked => ?_
    · intro s₁ e s' failed
      rw [updateRun_apply] at failed
      split at failed <;> cases failed
    · cases parked with
      | some _ => exact .write _
      | none => exact .throw rfl
  · exact .pure _

theorem Fenced.perform_clean (stepID : String) (claimID : ClaimID) (now : Time) (t : Fenced) :
    Tx.Clean StoreError.isRefusal (t.perform stepID claimID now) s := by
  cases t with
  | takeover => apply StepTransition.run_clean
  | succeed => exact .bind_reading (requireArgument_state _ _ _ s) fun _ _ => StepTransition.run_clean _ s
  | collectFail => apply StepTransition.run_clean
  | retry =>
    refine .bind_reading (requireNow_state _ _ s) fun _ _ => ?_
    refine .bind_reading (requireArgument_state _ _ _ s) fun _ _ => ?_
    exact .bind_reading (requireArgument_state _ _ _ s) fun _ _ => StepTransition.run_clean _ s
  | budgetPark =>
    refine .bind_reading rfl fun run _ => .bind_uncaught (StepTransition.run_clean _ s) fun _ => ?_
    exact (parkOverBudget_uncaught run.status).bind fun _ => .pure _
  | awaitHuman => apply awaitHumanStep_clean
  | _ => apply checkedRun_clean

theorem updateApproval_uncaught (guard : ApprovalRow → Bool) (set : ApprovalRow → ApprovalRow) :
    Tx.Uncaught StoreError.isRefusal (updateApproval guard set) := by
  intro s e s' failed
  unfold updateApproval at failed
  split at failed <;> cases failed

theorem Unfenced.perform_clean (stepID : String) (now : Time) (t : Unfenced) :
    Tx.Clean StoreError.isRefusal (t.perform stepID now) s := by
  cases t with
  | cancel => apply checkedRun_clean
  | revive => apply checkedRun_clean
  | poison =>
    refine .bind_reading (requireNow_state _ _ s) fun _ _ => ?_
    exact .bind_reading (getRunStep_state _ _ s) fun _ _ => StepTransition.run_clean _ s
  | cancelAwaitingHuman =>
    refine .bind_reading (requireNow_state _ _ s) fun _ _ => ?_
    refine .bind_reading (requireArgument_state _ _ _ s) fun _ _ => ?_
    refine .bind_uncaught (StepTransition.run_clean _ s) fun row => ?_
    refine (updateApproval_uncaught _ _).bind fun cancelled => ?_
    cases cancelled with
    | none => exact .pure _
    | some approval => exact (Tx.Uncaught.write _).bind fun _ => .pure _
  | succeedAwaitingHuman | deadLetterAwaitingHuman =>
    exact .bind_reading (requireArgument_state _ _ _ s) fun _ _ => StepTransition.run_clean _ s
  | _ => apply StepTransition.run_clean

theorem RunTransition.run_clean (t : RunTransition) : Tx.Clean StoreError.isRefusal t.run s :=
  fun _ _ failed _ => (RunTransition.run_error failed).1

theorem RunMove.perform_clean (now : Time) (move : RunMove) :
    Tx.Clean StoreError.isRefusal (move.perform now) s := by
  cases move with
  | setBudget =>
    refine .bind_reading (requireNow_state _ _ s) fun _ _ => .bind_reading rfl fun locked _ => ?_
    intro e s' failed _
    rw [bind_apply, updateRun_apply] at failed
    by_cases guarded : (!s.run.status.terminal) = true
    · simp only [guarded, ↓reduceIte] at failed
      cases failed
    · simp only [guarded, Bool.false_eq_true, ↓reduceIte] at failed
      cases failed
      rfl
  | _ => apply RunTransition.run_clean

theorem updateApproval_clean {α : Type} {guard set} {next : Option ApprovalRow → StoreTx α}
    (refuses : (next none s).2 = s)
    (writes : ∀ row, Tx.Uncaught StoreError.isRefusal (next (some row))) :
    Tx.Clean StoreError.isRefusal (updateApproval guard set >>= next) s := by
  intro e s' failed refused
  rcases bind_error failed with early | ⟨written, s₁, updated, failed₁⟩
  · simp [updateApproval_uncaught _ _ s e s' early] at refused
  cases written with
  | none =>
    unfold updateApproval at updated
    split at updated <;> cases updated
    rw [failed₁] at refuses
    exact refuses
  | some row =>
    simp [writes row s₁ e s' failed₁] at refused

theorem getApproval_state (op : String) (id : ApprovalID) : (getApproval op id s).2 = s := by
  rw [getApproval, bind_apply, read_apply]
  cases s.approvals.find? fun row => row.id == id <;> rfl

theorem decideApproval_clean (args : DecideApproval) (now : Time) :
    Tx.Clean StoreError.isRefusal (decideApproval args now) s := by
  refine .bind_reading (requireNow_state _ _ s) fun _ _ => ?_
  refine .bind_reading (requireArgument_state _ _ _ s) fun _ _ => ?_
  refine .bind_reading (requireArgument_state _ _ _ s) fun _ _ => ?_
  refine updateApproval_clean s ?_ fun row => (Tx.Uncaught.write _).bind fun _ => .pure _
  exact bind_state (getApproval_state s _ _) fun _ => rfl

theorem parkForTimeout_uncaught {status now s s' e}
    (known : s.run.status = status) (live : s.run.live = true)
    (failed : parkForTimeout status now s = (.error e, s')) : e.isRefusal = false := by
  unfold parkForTimeout at failed
  split at failed
  · cases failed
  rename_i unparked
  rcases bind_error failed with early | ⟨_, _, _, late⟩
  · rcases RunTransition.run_error early with ⟨rfl, zero | guarded⟩
    · unfold parkRun RunTransition.run requireNow at early
      subst zero
      cases early
      rfl
    · have running : s'.run.status = .running := by
        simp only [RunRow.live, Bool.or_eq_true, beq_iff_eq] at live
        exact live.resolve_right fun parked => unparked (known ▸ parked)
      simp [running] at guarded
  · cases late

theorem expireApprovalPark_clean (args : ExpireApprovalPark) (now : Time)
    (live : s.run.live = true) : Tx.Clean StoreError.isRefusal (expireApprovalPark args now) s := by
  refine .bind_reading (requireNow_state _ _ s) fun _ _ => .bind_reading rfl fun run locked => ?_
  cases locked
  intro e s' failed refused
  rcases bind_error failed with early | ⟨_, _, updated, failed₁⟩
  · simp [updateApproval_uncaught _ _ s e s' early] at refused
  unfold updateApproval at updated
  split at updated <;> cases updated
  · rcases bind_error failed₁ with early | ⟨_, s₂, _, late⟩
    · simp [parkForTimeout_uncaught (by rfl) (by exact live) early] at refused
    · cases late
  · rcases bind_error failed₁ with early | ⟨_, _, looked, late⟩
    · exact (congrArg Prod.snd early).symm.trans (getApproval_state s _ _)
    · have kept := getApproval_state s "expire approval park" args.id
      rw [looked] at kept
      cases kept
      split at late <;> cases late <;> rfl

/-- A refused call has written nothing, before any rollback; the timeout of an approval can be
refused after a write, but only where the run has left the live statuses. -/
theorem Call.perform_clean (lint : Dag.PlanLint) (call : Call)
    (parks : ∀ args, call.transition = .expireApprovalPark args → s.run.live = true) :
    Tx.Clean StoreError.isRefusal (call.perform lint) s := by
  obtain ⟨transition, now⟩ := call
  cases transition with
  | claim => exact (claimStep_clean _ _ _ _ s).void
  | fenced stepID claimID t => exact (t.perform_clean s stepID claimID now).void
  | step stepID t => exact (t.perform_clean s stepID now).void
  | run move => exact (move.perform_clean s now).void
  | decideApproval args => exact (decideApproval_clean s args now).void
  | expireApprovalPark args => exact (expireApprovalPark_clean s args now (parks args rfl)).void
  | resolveEdge ordinal fired =>
    exact (Tx.Clean.of_uncaught (resolveEdge_uncaught ordinal fired now)).void
  | expand args => exact (expandRun_clean args now s).void
  | downgrade =>
    refine .bind_reading (requireNow_state _ _ s) fun _ _ => ?_
    refine .bind_reading (getRunStep_state _ _ s) fun row _ => ?_
    split
    · exact .of_uncaught (.write _)
    · exact .of_state rfl
  | record => exact .of_uncaught ((requireNow_uncaught _ _).bind fun _ => .write _)
  | charge args => exact (Tx.Clean.of_uncaught (applyAttemptCost_uncaught now args)).void
  | enqueue => exact .of_uncaught (.write _)

end Clean

/-- After every history of calls the events are numbered without a gap up to the stored sequence
number; the next call logs every status change it commits, and leaves the rows as they were if it is
refused, by its rollback and also before it. -/
theorem event_log_gap_free (definitionLint : Dag.DefinitionLint) (lint : Dag.PlanLint)
    (definition : Dag.Definition) (created : RunStore)
    (creation : Created definitionLint definition created) (calls : List Call) :
    let s := replay lint created calls
    s.events.map EventRow.seq = range' 1 s.run.nextSeq ∧
      (∀ call, ∃ appended, (advance lint s call).events = s.events ++ appended ∧
        (statuses (advance lint s call) ≠ statuses s → appended ≠ [])) ∧
      (∀ (call : Call) e, ((call.perform lint).commit s).1 = .error e → advance lint s call = s) ∧
      ∀ (call : Call) e s', call.perform lint s = (.error e, s') → e.isRefusal = true →
        (∀ args, call.transition = .expireApprovalPark args → s.run.live = true) → s' = s := by
  intro s
  obtain ⟨unique, sequenced⟩ := (sequenced_invariant definitionLint lint .all).replay
    creation calls fun _ _ _ _ => trivial
  refine ⟨sequenced, fun call => ?_, fun call e failed => commit_of_error failed, ?_⟩
  · have reaches : Reaches lint .all s (advance lint s call) :=
      advance_reaches s call fun _ _ => trivial
    obtain ⟨appended, events, kept⟩ := reaches.logged unique
    exact ⟨appended, events, fun changed none => changed (kept none)⟩
  · intro call e s' failed refused parks
    exact Call.perform_clean s lint call parks e s' failed refused

theorem planned_event_log_gap_free :
    (replay Dag.quietPlanLint plannedRun plannedCalls).events.map EventRow.seq =
      [1, 2, 3, 4, 5, 6, 7] := by
  refine ((event_log_gap_free Dag.quietDefinitionLint Dag.quietPlanLint Dag.plannedDefinition
    plannedRun plannedRun_created plannedCalls).1).trans ?_
  decide

end Agentloom.Store
