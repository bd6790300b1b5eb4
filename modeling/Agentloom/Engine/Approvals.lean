import Agentloom.Store.EventLog
import Agentloom.Engine.Runs

/-! The gate of a waiting step. Operators, timers and cancels resolve the same approval through
different transactions; a step waits exactly as long as one approval of its attempt is pending. -/

namespace Agentloom.Engine

open Transaction Store Relation List Tx

variable {s s' : RunStore} {lint : Dag.PlanLint} {may : Permits} {env : Environment}
  {definitionLint : Dag.DefinitionLint}

def pendingFor (approvals : List ApprovalRow) (stepID : String) : List ApprovalRow :=
  approvals.filter fun approval => approval.stepID == stepID && approval.isPending

variable {approvals : List ApprovalRow} {approval : ApprovalRow} {stepID : String}

theorem mem_pendingFor : approval ∈ pendingFor approvals stepID ↔
      approval ∈ approvals ∧ approval.stepID = stepID ∧ approval.isPending = true := by
  simp [pendingFor]

def GateFits (approvals : List ApprovalRow) (row : StepRow) : Prop :=
  if row.status = .awaitingHuman then
    ∃ approval, pendingFor approvals row.stepID = [approval] ∧ approval.attempt = row.attemptCount
  else pendingFor approvals row.stepID = []

structure Gated (s : RunStore) : Prop where
  known : ∀ approval ∈ s.approvals, ∃ row ∈ s.steps, row.stepID = approval.stepID
  fits : ∀ row ∈ s.steps, GateFits s.approvals row

structure SameGate (old new : StepRow) : Prop where
  stepID : new.stepID = old.stepID
  waits : new.status = .awaitingHuman ↔ old.status = .awaitingHuman
  attempt : old.status = .awaitingHuman → new.attemptCount = old.attemptCount

variable {old new : StepRow}

theorem SameGate.of_idle (stepID : new.stepID = old.stepID)
    (before : old.status ≠ .awaitingHuman) (after : new.status ≠ .awaitingHuman) :
    SameGate old new :=
  ⟨stepID, iff_of_false after before, fun waits => absurd waits before⟩

theorem GateFits.of_same (same : SameGate old new) (fits : GateFits approvals old) :
    GateFits approvals new := by
  unfold GateFits at fits ⊢
  rw [same.stepID]
  by_cases waiting : old.status = .awaitingHuman
  · rw [if_pos waiting] at fits
    rw [if_pos (same.waits.mpr waiting), same.attempt waiting]
    exact fits
  · rw [if_neg waiting] at fits
    rw [if_neg fun waits => waiting (same.waits.mp waits)]
    exact fits

variable {approvals' : List ApprovalRow} {a a' : ApprovalRow} {now : Time}

theorem known_of_map {steps steps' : List StepRow}
    (kept : steps'.map StepRow.stepID = steps.map StepRow.stepID)
    (known : ∀ approval ∈ approvals, ∃ row ∈ steps, row.stepID = approval.stepID) :
    ∀ approval ∈ approvals, ∃ row ∈ steps', row.stepID = approval.stepID := by
  intro approval mem
  have listed : approval.stepID ∈ steps'.map StepRow.stepID := by
    obtain ⟨_, inside, same⟩ := known approval mem
    rw [kept, ← same]
    exact mem_map_of_mem inside
  exact mem_map.mp listed

theorem Gated.replaced (gated : Gated s) (approvals : s'.approvals = s.approvals)
    (replaced : Table.Replaced s.steps s'.steps old new) (same : SameGate old new) : Gated s' := by
  refine ⟨?_, ?_⟩ <;> rw [approvals]
  · exact known_of_map (replaced.map_eq StepRow.stepID same.stepID) gated.known
  · intro row mem
    rcases replaced.mem_of_mem mem with rfl | other
    · exact (gated.fits old replaced.old_mem).of_same same
    · exact gated.fits row other

theorem pendingFor_of_ne (replaced : Table.Replaced approvals approvals' a a')
    (same : a'.stepID = a.stepID) (other : stepID ≠ a.stepID) :
    pendingFor approvals' stepID = pendingFor approvals stepID := by
  obtain ⟨_, _, before, after⟩ :=
    replaced.filter fun approval => approval.stepID == stepID && approval.isPending
  unfold pendingFor
  rw [before, after, same]
  simp [Ne.symm other]

theorem pendingFor_of_eq (replaced : Table.Replaced approvals approvals' a a')
    (same : a'.stepID = a.stepID) (pending : a.isPending = true)
    (single : pendingFor approvals a.stepID = [approval]) :
    approval = a ∧ pendingFor approvals' a.stepID = if a'.isPending then [a'] else [] := by
  obtain ⟨front, _, before, after⟩ :=
    replaced.filter fun approval => approval.stepID == a.stepID && approval.isPending
  unfold pendingFor at single ⊢
  rw [before] at single
  simp only [beq_self_eq_true, pending, Bool.and_self, if_true, append_assoc,
    singleton_append] at single
  cases front with
  | nil =>
    cases single
    rw [after, same]
    simp
  | cons head tail => simp at single

theorem known_of_replaced {steps : List StepRow}
    (replaced : Table.Replaced approvals approvals' a a') (same : a'.stepID = a.stepID)
    (known : ∀ approval ∈ approvals, ∃ row ∈ steps, row.stepID = approval.stepID) :
    ∀ approval ∈ approvals', ∃ row ∈ steps, row.stepID = approval.stepID := by
  intro approval mem
  rcases replaced.mem_of_mem mem with rfl | other
  · rw [same]
    exact known a replaced.old_mem
  · exact known approval other

theorem Gated.marked (gated : Gated s) (steps : s'.steps = s.steps)
    (replaced : Table.Replaced s.approvals s'.approvals a a') (stepID : a'.stepID = a.stepID)
    (attempt : a'.attempt = a.attempt) (pending : a.isPending = true)
    (stays : a'.isPending = true) : Gated s' := by
  refine ⟨?_, ?_⟩ <;> rw [steps]
  · exact known_of_replaced replaced stepID gated.known
  intro row mem
  have fits := gated.fits row mem
  unfold GateFits at fits ⊢
  by_cases other : row.stepID = a.stepID
  · have waits : row.status = .awaitingHuman := by
      by_contra idle
      rw [if_neg idle, other] at fits
      have gate := mem_pendingFor.mpr ⟨replaced.old_mem, rfl, pending⟩
      rw [fits] at gate
      exact not_mem_nil gate
    rw [if_pos waits] at fits ⊢
    obtain ⟨_, single, number⟩ := fits
    rw [other] at single ⊢
    obtain ⟨rfl, after⟩ := pendingFor_of_eq replaced stepID pending single
    rw [if_pos stays] at after
    exact ⟨a', after, attempt.trans number⟩
  · rw [pendingFor_of_ne replaced stepID other]
    exact fits

theorem Gated.left (gated : Gated s) (unique : UniqueSteps s)
    (steps : Table.Replaced s.steps s'.steps old new) (named : new.stepID = old.stepID)
    (waited : old.status = .awaitingHuman) (idle : new.status ≠ .awaitingHuman)
    (approvals : Table.Replaced s.approvals s'.approvals a a') (same : a'.stepID = a.stepID)
    (pending : a.isPending = true) (gone : a'.isPending = false) (gate : a.stepID = old.stepID) :
    Gated s' := by
  refine ⟨?_, ?_⟩
  · exact known_of_replaced approvals same
      (known_of_map (steps.map_eq StepRow.stepID named) gated.known)
  intro row mem
  rcases steps.key_ne unique mem with rfl | ⟨inside, other⟩
  · have fits := gated.fits old steps.old_mem
    unfold GateFits at fits ⊢
    rw [if_pos waited, ← gate] at fits
    obtain ⟨_, single, _⟩ := fits
    rw [if_neg idle, named, ← gate, (pendingFor_of_eq approvals same pending single).2, gone]
    rfl
  · have fits := gated.fits row inside
    unfold GateFits at fits ⊢
    rwa [pendingFor_of_ne approvals same (gate ▸ other)]

theorem Gated.entered (gated : Gated s) (unique : UniqueSteps s) {content : ApprovalContent}
    (steps : Table.Replaced s.steps s'.steps old (awaitRow now old))
    (approvals : s'.approvals = s.approvals ++ [content.row (awaitRow now old) now])
    (single : ∀ row ∈ s.approvals, row.stepID = old.stepID → row.isPending = false) : Gated s' := by
  have pendings : ∀ stepID, pendingFor s'.approvals stepID = pendingFor s.approvals stepID ++
      if stepID = old.stepID then [content.row (awaitRow now old) now] else [] := by
    intro stepID
    rw [approvals, pendingFor, filter_append]
    congr 1
    by_cases own : stepID = old.stepID
    · simp [own, ApprovalContent.row, awaitRow, ApprovalRow.isPending]
    · simp [own, Ne.symm own, ApprovalContent.row, awaitRow]
  refine ⟨?_, ?_⟩
  · refine known_of_map (steps.map_eq StepRow.stepID rfl) fun approval mem => ?_
    rw [approvals] at mem
    rcases mem_append.mp mem with before | added
    · exact gated.known approval before
    · rw [mem_singleton.mp added]
      exact ⟨old, steps.old_mem, rfl⟩
  intro row mem
  rcases steps.key_ne unique mem with rfl | ⟨inside, other⟩
  · unfold GateFits
    rw [if_pos (show (awaitRow now old).status = .awaitingHuman from rfl), pendings,
      if_pos (show (awaitRow now old).stepID = old.stepID from rfl)]
    have none : pendingFor s.approvals (awaitRow now old).stepID = [] := by
      refine eq_nil_iff_forall_not_mem.mpr fun approval gate => ?_
      obtain ⟨mem, own, pending⟩ := mem_pendingFor.mp gate
      rw [single approval mem own] at pending
      cases pending
    exact ⟨_, by rw [none, nil_append], rfl⟩
  · have fits := gated.fits row inside
    unfold GateFits at fits ⊢
    rwa [pendings, if_neg other, append_nil]

theorem Gated.expanded {lint} {args : ExpandRun} {origin}
    (gated : Gated s) (fits : args.Fits lint origin now s) : Gated (args.apply origin now s) := by
  refine ⟨fun approval mem => ?_, fun row mem => ?_⟩
  · obtain ⟨row, inside, same⟩ := gated.known approval mem
    exact ⟨_, mem_append_left _ (mem_map_of_mem inside),
      (widenRow_stepID args now row).trans same⟩
  rcases mem_append.mp mem with before | added
  · obtain ⟨old, inside, rfl⟩ := mem_map.mp before
    refine (gated.fits old inside).of_same ?_
    unfold ExpandRun.widenRow
    split <;> exact ⟨rfl, Iff.rfl, fun _ => rfl⟩
  · -- No approval can be about a step that did not exist.
    obtain ⟨_, _, rfl⟩ := mem_map.mp added
    unfold GateFits
    rw [if_neg (by dsimp only [stepRowParams]; split <;> decide)]
    refine eq_nil_iff_forall_not_mem.mpr fun approval gate => ?_
    obtain ⟨inside, own, _⟩ := mem_pendingFor.mp gate
    obtain ⟨_, old, same⟩ := gated.known approval inside
    have unique := fits.steps
    rw [map_append, nodup_append] at unique
    exact unique.2.2 _ (mem_map_of_mem old) _ (mem_map_of_mem added) (same.trans own)

theorem gated_of_effect (effect : Effect lint may s s') (idle : ¬may.gates) (gated : Gated s) :
    Gated s' := by
  cases effect with
  | moved move gate replaced _ _ _ _ =>
    refine gated.replaced rfl replaced (.of_idle move.stepID (fun waits => idle (gate waits)) ?_)
    intro waits
    have closed := move.closed
    rw [waits] at closed
    cases closed
  | @claimed old _ _ _ _ _ _ claims replaced _ =>
    refine gated.replaced rfl replaced (.of_idle rfl ?_ (by simp [claimRow]))
    intro waits
    simp [claimable, waits] at claims
  | awaited gate _ _ _ _ _ _ => exact absurd gate idle
  | resolved _ _ _ _ replaced => exact gated.replaced rfl replaced ⟨rfl, Iff.rfl, fun _ => rfl⟩
  | reapproved gate _ _ _ _ _ _ => exact absurd gate idle
  | expanded fits _ _ =>
    obtain ⟨known, fits⟩ := gated.expanded fits
    exact ⟨known, fits⟩
  | _ => exact ⟨gated.known, gated.fits⟩

def KeepsGates (s s' : RunStore) : Prop :=
  UniqueSteps s → Gated s → UniqueSteps s' ∧ Gated s'

theorem KeepsGates.refl (s : RunStore) : KeepsGates s s := fun unique gated => ⟨unique, gated⟩

theorem KeepsGates.trans (s s' s'' : RunStore) (first : KeepsGates s s')
    (second : KeepsGates s' s'') : KeepsGates s s'' := fun unique gated =>
  second (first unique gated).1 (first unique gated).2

theorem KeepsGates.of_reaches (reaches : Reaches lint may s s') (idle : ¬may.gates) :
    KeepsGates s s' := by
  intro unique gated
  have chain := reaches unique
  clear reaches
  induction chain with
  | refl => exact ⟨unique, gated⟩
  | tail _ effect ih => exact ⟨effect.uniqueSteps ih.1, gated_of_effect effect idle ih.2⟩

abbrev Gating {α : Type} (x : StoreTx α) : Prop := Tx.Ensures StoreError.isRefusal KeepsGates x

def idle : Permits := { gates := False, opens := False }

theorem Gating.of_sound {α : Type} {x : StoreTx α} (lint : Dag.PlanLint)
    (sound : Sound lint idle x) : Gating x :=
  sound.mono fun _ _ reaches => .of_reaches reaches id

theorem gated_of_leave {t : StepTransition} (gated : Gated s)
    (unique : UniqueSteps s) (steps : s₁.steps = s.steps)
    (approvals : Table.Replaced s.approvals s₁.approvals a a') (same : a'.stepID = a.stepID)
    (pending : a.isPending = true) (gone : a'.isPending = false)
    (left : t.run s₁ = (.ok row, s₂)) (gate : a.stepID = t.stepID)
    (guard : ∀ row, t.guard row = true → row.status = .awaitingHuman)
    (set : ∀ row, (t.set row).stepID = row.stepID ∧ (t.set row).status ≠ .awaitingHuman) :
    UniqueSteps s₂ ∧ Gated s₂ := by
  obtain ⟨old, _, _, _, _, named, guarded, rfl, replaced, _, _, rfl⟩ := StepTransition.run_ok left
  rw [steps] at replaced
  refine ⟨?_, ?_⟩
  · unfold UniqueSteps
    rw [record_steps, replaced.map_eq StepRow.stepID (set old).1]
    exact unique
  · exact gated.left unique replaced (set old).1 (guard old guarded) (set old).2 approvals same
      pending gone (gate.trans named.symm)

theorem cancelAwaitingHumanStep_gating (stepID reason : String) (now : Time) :
    Gating (cancelAwaitingHumanStep stepID reason now) := by
  refine fun s => .of_clean (.refl s)
    ((Unfenced.cancelAwaitingHuman reason).perform_clean s stepID now) ?_
  intro row s' ok unique gated
  have rest₁ := requireNow_bind_ok ok
  have rest₂ := requireArgument_bind_ok rest₁
  obtain ⟨step, _, left, rest₃⟩ := bind_ok rest₂
  obtain ⟨old, _, _, _, _, named, guarded, rfl, replaced, _, _, rfl⟩ := StepTransition.run_ok left
  have waited : old.status = .awaitingHuman := eq_of_beq guarded
  obtain ⟨cancelled, _, swept, rest₄⟩ := bind_ok rest₃
  have fits := gated.fits old replaced.old_mem
  unfold GateFits at fits
  rw [if_pos waited] at fits
  obtain ⟨approval, single, _⟩ := fits
  cases cancelled with
  | none =>
    -- A waiting step has a pending approval, so the sweep finds one.
    have missed := (updateApproval_none swept).2 approval
    have gate : approval ∈ pendingFor s.approvals old.stepID := by simp [single]
    obtain ⟨inside, own, pending⟩ := mem_pendingFor.mp gate
    have named : old.stepID = stepID := named
    simp [own, pending, named] at missed
    exact absurd inside missed
  | some cancelled =>
    obtain ⟨a, _, meets, rfl, withdrawn, rfl⟩ := updateApproval_some swept
    cases rest₄
    rw [Bool.and_eq_true, beq_iff_eq] at meets
    refine ⟨?_, ?_⟩
    · unfold UniqueSteps
      exact (replaced.map_eq StepRow.stepID rfl).symm ▸ unique
    · refine gated.left unique replaced ?_ waited ?_ withdrawn ?_ meets.2 ?_ (meets.1.trans named.symm)
      · rfl
      · simp [cancelAwaitingHuman, leaveWait]
      · rfl
      · rfl

theorem cancelRunTx_gating (lint : Dag.PlanLint) (reason : RunCancelReason) (now : Time) :
    Gating (cancelRunTx reason now) := by
  refine Tx.Ensures.bind KeepsGates.trans (Gating.of_sound lint (cancelRun_sound now trivial reason))
    fun _ => ?_
  refine Tx.Ensures.bind KeepsGates.trans (Tx.Ensures.read KeepsGates.refl _) fun steps => ?_
  refine Tx.Ensures.bind KeepsGates.trans
    (Tx.Ensures.forEach KeepsGates.trans KeepsGates.refl fun row _ => ?_)
    fun _ => (Gating.of_sound lint attemptCancelRollup_sound).void
  unfold cancelUnclaimed
  split
  · exact (Gating.of_sound lint (cancelStep_sound _ _ _)).void
  · exact (Gating.of_sound lint (cancelStep_sound _ _ _)).void
  · exact (Gating.of_sound lint (cancelStep_sound _ _ _)).void
  · exact (cancelAwaitingHumanStep_gating _ _ _).void
  · exact Tx.Ensures.pure KeepsGates.refl _

theorem decideApproval_ok {args} (ok : decideApproval args now columns s = (.ok approval, s')) :
    ∃ a approvals, a.id = args.id ∧ a.isPending = true ∧ args.status.isDecision = true ∧
      Table.Replaced s.approvals approvals a (args.set now a) ∧
      s' = RunStore.record { s with approvals } args.event := by
  have rest₁ := requireNow_bind_ok ok
  obtain ⟨_, _, argued, rest₂⟩ := bind_ok rest₁
  obtain ⟨decides, rfl⟩ := requireArgument_ok argued
  obtain ⟨decided, _, updated, rest₃⟩ := bind_ok (requireArgument_bind_ok rest₂)
  cases decided with
  | none =>
    obtain ⟨_, _, _, refused⟩ := bind_ok rest₃
    cases refused
  | some row =>
    obtain ⟨a, approvals, meets, rfl, replaced, rfl⟩ := updateApproval_some updated
    cases rest₃
    rw [Bool.and_eq_true, beq_iff_eq] at meets
    exact ⟨a, approvals, meets.1, meets.2, decides, replaced, rfl⟩

theorem not_pending_of_isDecision {args : DecideApproval} (now : Time) (a : ApprovalRow)
    (decides : args.status.isDecision = true) : (args.set now a).isPending = false := by
  cases status : args.status <;> simp_all [DecideApproval.set, ApprovalRow.isPending,
    ApprovalStatus.isDecision]

variable {u : Unit}

variable {args : Decision}

theorem settleDecision_gated (lint : Dag.PlanLint)
    {source : Option TerminalSource} (unique : UniqueSteps s) (gated : Gated s)
    (gate : ∀ a ∈ s.approvals, a.id = approval.id → a.stepID = step.stepID)
    (ok : settleDecision approval step args now s = (.ok source, s')) :
    UniqueSteps s' ∧ Gated s' := by
  obtain ⟨_, _, live, rest₁⟩ := bind_ok ok
  obtain ⟨_, rfl⟩ := requireLiveRun_ok live
  obtain ⟨_, _, cast, rest₂⟩ := bind_ok rest₁
  obtain ⟨a, _, sameID, pending, decides, replaced, rfl⟩ := decideApproval_ok cast
  have own := gate a replaced.old_mem sameID
  have gone := not_pending_of_isDecision now a decides
  unfold settleStep at rest₂
  split at rest₂
  · obtain ⟨_, s₃, buried, rest₃⟩ := bind_ok rest₂
    cases rest₃
    obtain ⟨_, s₄, locked, rest₄⟩ := bind_ok buried
    cases locked
    obtain ⟨row, _, left, rest₅⟩ := bind_ok rest₄
    obtain ⟨unique₅, gated₅⟩ := gated_of_leave gated unique (by rfl) (by exact replaced) (by rfl)
      pending gone (requireArgument_bind_ok left) own (fun _ guarded => eq_of_beq guarded)
      fun _ => ⟨rfl, by simp [deadLetterAwaitingHuman, leaveWait]⟩
    exact (Gating.of_sound lint (deadLetterDisposition_sound _)).void.of_ok rest₅ unique₅ gated₅
  · obtain ⟨_, _, succeeded, rest₃⟩ := bind_ok rest₂
    cases rest₃
    obtain ⟨_, _, left, rest₄⟩ := bind_ok succeeded
    obtain ⟨unique₄, gated₄⟩ := gated_of_leave gated unique (by rfl) (by exact replaced) (by rfl)
      pending gone (requireArgument_bind_ok left) own (fun _ guarded => eq_of_beq guarded)
      fun _ => ⟨rfl, by simp [succeedAwaitingHuman, leaveWait]⟩
    have sourced := Gating.of_sound lint (terminalSource_sound step.stepID
      step.stepType args.evaluator (filterDecisionVerdicts args.request.decision))
    exact sourced.of_ok rest₄ unique₄ gated₄

variable {satisfies : Json → Json → Bool} {seen : RunStore}

theorem admitDecision_ok {step : StepRow}
    (admitted : admitDecision satisfies args seen = .ok (approval, step)) :
    approval ∈ seen.approvals ∧ approval.id = args.approvalID ∧ approval.isPending = true ∧
      step.stepID = approval.stepID := by
  unfold admitDecision at admitted
  cases found : seen.approvals.find? fun row => row.id == args.approvalID with
  | none =>
    simp [found] at admitted
  | some row =>
    rw [found] at admitted
    dsimp only at admitted
    split at admitted
    · cases admitted
    rename_i pending
    cases located : findStep seen row.stepID with
    | none =>
      simp [located] at admitted
    | some owner =>
      rw [located] at admitted
      dsimp only at admitted
      split at admitted <;> cases admitted
      refine ⟨mem_of_find?_eq_some found, by simpa using find?_some found, ?_,
        (findStep_some located).2⟩
      simpa [ApprovalRow.isPending] using pending

theorem decide_gated (lint : Dag.PlanLint) (unique : UniqueSteps s) (gated : Gated s)
    (stable : ∀ approval ∈ seen.approvals, ∀ a ∈ s.approvals, a.id = approval.id →
      a.stepID = approval.stepID)
    (ok : Engine.decide satisfies args seen now s = (.ok u, s')) : UniqueSteps s' ∧ Gated s' := by
  unfold Engine.decide at ok
  cases admitted : admitDecision satisfies args seen with
  | error e =>
    simp [admitted] at ok
  | ok rows =>
    obtain ⟨approval, _⟩ := rows
    rw [admitted] at ok
    obtain ⟨mem, _, _, named⟩ := admitDecision_ok admitted
    obtain ⟨source, _, settled, rest⟩ := bind_ok ok
    obtain ⟨unique₁, gated₁⟩ := settleDecision_gated lint unique gated
      (fun a inside same => (stable approval mem a inside same).trans named.symm) settled
    cases source with
    | none =>
      cases rest
      exact ⟨unique₁, gated₁⟩
    | some source =>
      exact (Gating.of_sound lint (routeAndRollup_sound trivial _)).of_ok rest unique₁ gated₁

theorem expireApprovalPark_gated (lint : Dag.PlanLint) {args action} (unique : UniqueSteps s)
    (gated : Gated s)
    (ok : expireApprovalPark args now s = (.ok action, s')) : UniqueSteps s' ∧ Gated s' := by
  have rest₁ := requireNow_bind_ok ok
  have rest₂ := read_bind_ok rest₁
  obtain ⟨marked, _, updated, rest₃⟩ := bind_ok rest₂
  cases marked with
  | none =>
    obtain ⟨_, _, _, refused⟩ := bind_ok rest₃
    split at refused <;> cases refused
  | some row =>
    obtain ⟨a, approvals, meets, rfl, replaced, rfl⟩ := updateApproval_some updated
    simp only [Bool.and_eq_true] at meets
    have marked : Gated { s with approvals } :=
      gated.marked rfl replaced rfl rfl meets.1.2 meets.1.2
    have parks := (Gating.of_sound lint (parkForTimeout_sound now s.run.status))
    obtain ⟨_, _, parked, rest₄⟩ := bind_ok rest₃
    obtain ⟨unique₄, gated₄⟩ := parks.of_ok parked (by exact unique) marked
    obtain ⟨_, _, recorded, rest₅⟩ := bind_ok rest₄
    cases recorded
    cases rest₅
    exact ⟨unique₄, gated₄.known, gated₄.fits⟩

/-- Every approval keeps its identity, and one that is no longer pending keeps all of its row. -/
def ApprovalsKept (s s' : RunStore) : Prop :=
  ∀ a ∈ s.approvals, ∃ a' ∈ s'.approvals, a'.id = a.id ∧ a'.stepID = a.stepID ∧
    (a.isPending = false → a' = a)

theorem ApprovalsKept.of_eq (same : s'.approvals = s.approvals) : ApprovalsKept s s' :=
  fun a mem => ⟨a, same ▸ mem, rfl, rfl, fun _ => rfl⟩

theorem ApprovalsKept.trans (first : ApprovalsKept s s') (second : ApprovalsKept s' s'') :
    ApprovalsKept s s'' := by
  intro a mem
  obtain ⟨a', inside, id, stepID, kept⟩ := first a mem
  obtain ⟨a'', inside', id', stepID', kept'⟩ := second a' inside
  refine ⟨a'', inside', id'.trans id, stepID'.trans stepID, fun decided => ?_⟩
  rw [kept' (by rw [kept decided]; exact decided), kept decided]

theorem approvalsKept_of_effect (effect : Effect lint may s s') : ApprovalsKept s s' := by
  cases effect with
  | awaited _ _ _ _ _ _ _ =>
    exact fun a mem => ⟨a, mem_append_left _ mem, rfl, rfl, fun _ => rfl⟩
  | @reapproved old new approvals _ pending id stepID _ _ replaced =>
    intro a mem
    rcases replaced.mem_or_old mem with rfl | other
    · refine ⟨new, replaced.new_mem, id, stepID, fun decided => ?_⟩
      simp [pending] at decided
    · exact ⟨a, other, rfl, rfl, fun _ => rfl⟩
  | _ => exact .of_eq rfl

def UniqueApprovals (s : RunStore) : Prop := (s.approvals.map ApprovalRow.id).Nodup

theorem uniqueApprovals_of_effect (effect : Effect lint may s s') (unique : UniqueApprovals s) :
    UniqueApprovals s' := by
  unfold UniqueApprovals at unique ⊢
  cases effect with
  | awaited _ _ _ _ fresh _ _ =>
    rw [record_approvals, map_append, nodup_append]
    refine ⟨unique, by simp, fun id mem other same => ?_⟩
    obtain ⟨approval, inside, rfl⟩ := mem_map.mp mem
    rw [map_singleton, mem_singleton] at same
    exact same ▸ fresh approval inside
  | reapproved _ _ id _ _ _ replaced =>
    rw [replaced.map_eq ApprovalRow.id id]
    exact unique
  | _ => exact unique

theorem uniqueApprovals_invariant (definitionLint : Dag.DefinitionLint) (lint : Dag.PlanLint)
    (may : Permits) : Invariant definitionLint lint may UniqueApprovals where
  founded := by
    intro definition s founded
    obtain ⟨_, _, _, _, _, rfl⟩ := founded.planned
    exact nodup_nil
  kept := fun _ _ effect _ unique => uniqueApprovals_of_effect effect unique

theorem approvalsKept_of_chain (chain : ReflTransGen (Effect lint may) s s') :
    ApprovalsKept s s' := by
  induction chain with
  | refl => exact .of_eq rfl
  | tail _ effect ih => exact ih.trans (approvalsKept_of_effect effect)

theorem approvalsKept_of_act (env : Environment) (action : Action) (now : Time)
    (unique : UniqueSteps s) : ApprovalsKept s (act env action now s) :=
  approvalsKept_of_chain (act_reaches env action now s unique)

theorem completeAwaitHuman_gated (lint : Dag.PlanLint) (unique : UniqueSteps s) (gated : Gated s)
    (ok : completeAwaitHuman stepID claimID content now s = (.ok u, s')) :
    UniqueSteps s' ∧ Gated s' := by
  have rest := lockRunStatus_bind_ok ok
  split at rest
  · exact (Gating.of_sound lint (settleCancelled_sound _ _ _)).of_ok rest unique gated
  · obtain ⟨_, parked⟩ := void_ok rest
    obtain ⟨_, _, _, _, rfl, replaced, _, single, rfl⟩ := awaitHumanStep_ok parked
    refine ⟨?_, gated.entered unique replaced rfl single⟩
    unfold UniqueSteps
    rw [record_steps, replaced.map_eq StepRow.stepID rfl]
    exact unique

theorem enforceDeadline_gating (lint : Dag.PlanLint) (payload : Json) (now : Time) :
    Gating (Engine.enforceDeadline payload now) := by
  refine Tx.Ensures.bind KeepsGates.trans
    ((cancelRunTx_gating lint .deadlineExceeded now).dropping fun e conflict => ?_) fun cancelled => ?_
  · cases e <;> first | rfl | exact conflict
  · cases cancelled with
    | some _ => exact Gating.of_sound lint (recordEvent_sound _ _ _ _ _)
    | none => exact Tx.Ensures.pure KeepsGates.refl _

theorem handleApprovalTimeout_ok
    (ok : handleApprovalTimeout satisfies stepID output evaluator seen later now s = (.ok u, s')) :
    (dueApproval stepID seen now = none ∧ s' = s) ∨
      ∃ approval, dueApproval stepID seen now = some approval ∧
        ((approvalTimeoutPolicy stepID seen = .park ∧ applyTimeoutPark approval now s = (.ok u, s')) ∨
          (approvalTimeoutPolicy stepID seen ≠ .park ∧
            ∃ decision, Engine.decide satisfies
              (timeoutDecision approval.id decision output evaluator) later now s = (.ok u, s'))) := by
  unfold handleApprovalTimeout at ok
  cases due : dueApproval stepID seen now with
  | none =>
    rw [due] at ok
    cases ok
    exact .inl ⟨rfl, rfl⟩
  | some approval =>
    refine .inr ⟨approval, rfl, ?_⟩
    rw [due] at ok
    cases policy : approvalTimeoutPolicy stepID seen with
    | park =>
      rw [policy] at ok
      exact .inl ⟨rfl, ok⟩
    | approve =>
      rw [policy] at ok
      exact .inr ⟨by decide, .approve, ok⟩
    | reject =>
      rw [policy] at ok
      exact .inr ⟨by decide, .reject, ok⟩

variable {action : Action}

theorem Action.exec_gated (unique : UniqueSteps s) (gated : Gated s)
    (stable : ∀ seen ∈ action.reads, ∀ approval ∈ seen.approvals, ∀ a ∈ s.approvals,
      a.id = approval.id → a.stepID = approval.stepID)
    (ok : action.exec env now s = (.ok u, s')) : UniqueSteps s' ∧ Gated s' := by
  by_cases gate : action.isGate = true
  · cases action with
    | awaitHuman => exact completeAwaitHuman_gated env.lint unique gated ok
    | cancel reason => exact (cancelRunTx_gating env.lint reason now).of_ok ok unique gated
    | enforceDeadline payload =>
      exact (enforceDeadline_gating env.lint payload now).of_ok ok unique gated
    | decide args seen =>
      exact decide_gated env.lint unique gated (stable seen mem_cons_self) ok
    | timeout stepID output evaluator seen later =>
      rcases handleApprovalTimeout_ok ok with ⟨_, rfl⟩ | ⟨_, _, ⟨_, parked⟩ | ⟨_, _, decided⟩⟩
      · exact ⟨unique, gated⟩
      · obtain ⟨_, parked⟩ := void_ok parked
        exact expireApprovalPark_gated env.lint unique gated parked
      · exact decide_gated env.lint unique gated (stable later (by simp)) decided
    | _ => cases gate
  · have sound : Sound env.lint idle (action.exec env now) :=
      Action.exec_sound
        { gates := fun isGate => absurd isGate gate
          opens := fun opens => absurd (action.isGate_of_opens opens) gate }
    exact (Gating.of_sound env.lint sound).of_ok ok unique gated

theorem HistoryOf.uniqueApprovals (history : History definitionLint env states) :
    ∀ s ∈ states, UniqueSteps s ∧ UniqueApprovals s :=
  history.invariant (uniqueApprovals_invariant definitionLint env.lint .all)

theorem HistoryOf.approvalsKept (history : History definitionLint env (s :: past)) :
    ∀ seen ∈ s :: past, ApprovalsKept seen s := by
  generalize isStates : s :: past = states at history
  induction history generalizing s past with
  | created creation =>
    cases isStates
    simp [ApprovalsKept.of_eq]
  | @acted action now before earlier history _ _ ih =>
    cases isStates
    intro seen mem
    rcases mem_cons.mp mem with rfl | earlier
    · exact .of_eq rfl
    · have unique := (history.uniqueApprovals before mem_cons_self).1
      exact (ih rfl seen earlier).trans (approvalsKept_of_act env action now unique)

theorem gated_of_founded (founded : Founded definitionLint definition s) : Gated s := by
  obtain ⟨_, _, _, _, _, rfl⟩ := founded.planned
  refine ⟨fun approval mem => absurd mem not_mem_nil, fun row mem => ?_⟩
  obtain ⟨_, _, rfl⟩ := mem_map.mp mem
  unfold GateFits
  rw [if_neg (by dsimp only [stepRowParams]; split <;> decide)]
  rfl

theorem HistoryOf.gated (history : History definitionLint env states) :
    ∀ s ∈ states, Gated s := by
  induction history with
  | created creation =>
    intro s mem
    rw [mem_singleton.mp mem]
    obtain ⟨_, founded, reaches⟩ := creation.founded env.lint idle trivial
    exact (KeepsGates.of_reaches reaches id founded.uniqueSteps (gated_of_founded founded)).2
  | @acted action now s past history reads _ ih =>
    intro other mem
    rcases mem_cons.mp mem with rfl | earlier
    · have gated := ih s mem_cons_self
      have unique := history.uniqueApprovals s mem_cons_self
      unfold act commit
      split
      · rename_i ok
        refine (Action.exec_gated unique.1 gated (fun seen read approval known a inside same => ?_) ok).2
        obtain ⟨_, inside', id, stepID, _⟩ :=
          history.approvalsKept seen (reads seen read) approval known
        rw [Table.eq_of_key unique.2 inside inside' (same.trans id.symm), stepID]
      · exact gated
    · exact ih other earlier

def isPendingID (id : ApprovalID) (s : RunStore) : Bool :=
  s.approvals.any fun approval => approval.id == id && approval.isPending

def departures (id : ApprovalID) : List RunStore → Nat
  | after :: before :: past =>
    (if isPendingID id before && !isPendingID id after then 1 else 0) +
      departures id (before :: past)
  | _ => 0

def Action.contested (now : Time) : Action → Option ApprovalID
  | .decide args _ => some args.approvalID
  | .timeout stepID _ _ seen _ => (dueApproval stepID seen now).map ApprovalRow.id
  | _ => none

def Action.marks : Action → Bool
  | .timeout stepID _ _ seen _ => approvalTimeoutPolicy stepID seen == .park
  | _ => false

/-- Another transaction resolved the approval first, or marked it where this one only marks. -/
def Action.loses (action : Action) (now : Time) (s : RunStore) : Prop :=
  ∃ id, action.contested now = some id ∧ (isPendingID id s = false ∨
    action.marks = true ∧ ∀ approval ∈ s.approvals, approval.id = id → approval.expiredAt.isSome)

theorem isPendingID_iff {id} :
    isPendingID id s = true ↔ ∃ a ∈ s.approvals, a.id = id ∧ a.isPending = true := by
  simp [isPendingID]

theorem decide_lost (resolved : isPendingID args.approvalID s = false) :
    Engine.decide satisfies args seen now s ≠ (.ok u, s') := by
  intro ok
  unfold Engine.decide at ok
  cases admitted : admitDecision satisfies args seen with
  | error e =>
    simp [admitted] at ok
  | ok rows =>
    obtain ⟨_, _⟩ := rows
    rw [admitted] at ok
    obtain ⟨_, _, settled, _⟩ := bind_ok ok
    obtain ⟨_, _, live, rest₂⟩ := bind_ok settled
    obtain ⟨_, rfl⟩ := requireLiveRun_ok live
    obtain ⟨_, _, cast, _⟩ := bind_ok rest₂
    obtain ⟨a, _, sameID, pending, _, replaced, _⟩ := decideApproval_ok cast
    have isPending := isPendingID_iff.mpr ⟨a, replaced.old_mem,
      sameID.trans (admitDecision_ok admitted).2.1, pending⟩
    simp [isPending] at resolved

theorem expireApprovalPark_lost {args action}
    (ok : expireApprovalPark args now s = (.ok action, s')) :
    ∃ a ∈ s.approvals, a.id = args.id ∧ a.isPending = true ∧ a.expiredAt.isSome = false := by
  have rest₁ := requireNow_bind_ok ok
  have rest₂ := read_bind_ok rest₁
  obtain ⟨marked, _, updated, rest₃⟩ := bind_ok rest₂
  cases marked with
  | none =>
    obtain ⟨_, _, _, refused⟩ := bind_ok rest₃
    split at refused <;> cases refused
  | some row =>
    obtain ⟨a, _, meets, _, replaced, _⟩ := updateApproval_some updated
    simp only [Bool.and_eq_true, beq_iff_eq] at meets
    refine ⟨a, replaced.old_mem, meets.1.1, meets.1.2, ?_⟩
    rw [Option.isNone_iff_eq_none.mp meets.2]
    rfl

theorem Action.exec_lost (loses : action.loses now s) : action.exec env now s ≠ (.ok u, s') := by
  intro ok
  obtain ⟨_, contested, lost⟩ := loses
  cases action with
  | decide args seen =>
    cases contested
    rcases lost with resolved | ⟨marks, _⟩
    · exact decide_lost resolved ok
    · cases marks
  | timeout stepID output evaluator seen later =>
    obtain ⟨approval, due, rfl⟩ := Option.map_eq_some_iff.mp contested
    rcases handleApprovalTimeout_ok ok with ⟨none, _⟩ | ⟨found, isDue, ⟨_, parked⟩ | ⟨policy,
      _, decided⟩⟩
    · simp [due] at none
    · obtain rfl : approval = found := Option.some.inj (due.symm.trans isDue)
      obtain ⟨_, parked⟩ := void_ok parked
      obtain ⟨a, inside, same, pending, unmarked⟩ := expireApprovalPark_lost parked
      rcases lost with resolved | ⟨_, marked⟩
      · simp [isPendingID_iff.mpr ⟨a, inside, same, pending⟩] at resolved
      · simp [marked a inside same] at unmarked
    · obtain rfl : approval = found := Option.some.inj (due.symm.trans isDue)
      rcases lost with resolved | ⟨marks, _⟩
      · exact decide_lost resolved decided
      · exact policy (eq_of_beq marks)
  | _ => cases contested

theorem Action.act_lost (loses : action.loses now s) : act env action now s = s := by
  unfold act commit
  split
  · rename_i ok
    exact absurd ok (Action.exec_lost loses)
  · rfl

section Departures

variable {id : ApprovalID}

def Resolved (id : ApprovalID) (s : RunStore) : Prop :=
  ∃ a ∈ s.approvals, a.id = id ∧ a.isPending = false

theorem Resolved.not_pending (resolved : Resolved id s) (unique : UniqueApprovals s) :
    isPendingID id s = false := by
  obtain ⟨a, inside, same, decided⟩ := resolved
  refine Bool.eq_false_iff.mpr fun pending => ?_
  obtain ⟨b, inside', same', pending⟩ := isPendingID_iff.mp pending
  simp [Table.eq_of_key unique inside' inside (same'.trans same.symm), decided] at pending

theorem departures_le_one (id : ApprovalID) (history : History definitionLint env (s :: past)) :
    departures id (s :: past) = 0 ∨ (departures id (s :: past) = 1 ∧ Resolved id s) := by
  generalize isStates : s :: past = states at history
  induction history generalizing s past with
  | created creation =>
    cases isStates
    exact .inl rfl
  | @acted action now before earlier history _ _ ih =>
    cases isStates
    have unique := history.uniqueApprovals before mem_cons_self
    have kept := approvalsKept_of_act env action now unique.1
    unfold departures
    rcases ih rfl with none | ⟨once, a, inside, same, decided⟩
    · rw [none]
      by_cases leaves : (isPendingID id before && !isPendingID id (act env action now before)) = true
      · rw [if_pos leaves]
        refine .inr ⟨rfl, ?_⟩
        rw [Bool.and_eq_true, Bool.not_eq_true'] at leaves
        obtain ⟨a, inside, same, _⟩ := isPendingID_iff.mp leaves.1
        obtain ⟨a', inside', same', _⟩ := kept a inside
        refine ⟨a', inside', same'.trans same, Bool.eq_false_iff.mpr fun pending => ?_⟩
        rw [isPendingID_iff.mpr ⟨a', inside', same'.trans same, pending⟩] at leaves
        cases leaves.2
      · rw [if_neg leaves]
        exact .inl rfl
    · have resolved : Resolved id before := ⟨a, inside, same, decided⟩
      obtain ⟨a', inside', same', _, unchanged⟩ := kept a inside
      rw [once, resolved.not_pending unique.2]
      exact .inr ⟨rfl, a', inside', same'.trans same, unchanged decided ▸ decided⟩

end Departures

/-- In every state of every history an approval has left the pending status at most once, a step
waits exactly when one pending approval of its current attempt holds it, and a decision or expiry
that lost the race leaves all rows as they are. -/
theorem approvals_arbitrate_once (definitionLint : Dag.DefinitionLint) (env : Environment)
    (s : RunStore) (past : List RunStore) (history : History definitionLint env (s :: past)) :
    (∀ id, departures id (s :: past) ≤ 1) ∧ (∀ row ∈ s.steps, row.status = .awaitingHuman ↔
        ∃ approval, pendingFor s.approvals row.stepID = [approval] ∧
          approval.attempt = row.attemptCount) ∧
      ∀ (action : Action) (now : Time), action.loses now s → act env action now s = s := by
  refine ⟨fun id => ?_, fun row member => ?_, fun action now loses => Action.act_lost loses⟩
  · rcases departures_le_one id history with none | ⟨_, _⟩ <;> omega
  · have fits := history.gated s mem_cons_self |>.fits row member
    unfold GateFits at fits
    constructor
    · intro waits
      rwa [if_pos waits] at fits
    · rintro ⟨_, single, _⟩
      by_contra idle
      simp [if_neg idle, single] at fits

/-! A gate that is approved while a rejection of it is under way. -/

def gateDefinition : Dag.Definition :=
  { name := "gate"
    steps := [{ id := "g", type := .humanApproval, config := .humanApproval { title := "Ship it" } }]
    edges := [] }

def gateRun : RunStore := opened gateDefinition ["g"]

theorem gateRun_created : Created Dag.quietDefinitionLint gateDefinition gateRun :=
  ⟨"", none, 1, rfl⟩

def gateEnvironment : Environment := ⟨Dag.quietPlanLint, fun _ _ => true⟩

def gateWaiting : RunStore :=
  act gateEnvironment
    (.awaitHuman "g" 7 { id := 9, title := "Ship it", allowedDecisions := [.approve, .reject] }) 3
    (act gateEnvironment (.claim "g" 7 "worker") 2 gateRun)

def gateDecision (decision : Dag.ApprovalDecision) : Action :=
  .decide { approvalID := 9, request := { decision, source := .human } } gateWaiting

theorem gate_arbitrates_once :
    (act gateEnvironment (gateDecision .approve) 4 gateWaiting).run.status = .succeeded ∧
      act gateEnvironment (gateDecision .reject) 5
          (act gateEnvironment (gateDecision .approve) 4 gateWaiting) =
        act gateEnvironment (gateDecision .approve) 4 gateWaiting := by
  have waiting : History Dag.quietDefinitionLint gateEnvironment
      [gateWaiting, act gateEnvironment (.claim "g" 7 "worker") 2 gateRun, gateRun] :=
    .acted (.acted (.created gateRun_created) (by simp) trivial)
      (by simp) trivial
  have decided : History Dag.quietDefinitionLint gateEnvironment
      (act gateEnvironment (gateDecision .approve) 4 gateWaiting :: gateWaiting :: _) :=
    .acted waiting (by simp [gateDecision, Action.reads]) trivial
  refine ⟨by decide, ?_⟩
  exact (approvals_arbitrate_once _ _ _ _ decided).2.2 _ _ ⟨9, rfl, .inl (by decide)⟩

end Agentloom.Engine
