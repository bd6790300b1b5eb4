import Agentloom.Store.Attempts

/-! Claims fence a step: a claim id is worth one transition. The rows that a claim id still holds
bound the transitions it can land, a landing spends one of them, and only a claim issues one. -/

namespace Agentloom.Store

open Transaction List Tx

variable {claimID : ClaimID} {s s' : RunStore} {stepID : String} {now : Time} {t : StepTransition}

def holders (claimID : ClaimID) (s : RunStore) : Nat := s.steps.countP (heldBy claimID)

theorem heldBy_of_closed {claimID row} (closed : row.status.isOpen = false) :
    heldBy claimID row = false := by
  unfold heldBy
  cases status : row.status <;> simp_all [StepStatus.isOpen]

theorem countP_replaced_le {rows rows' old new} {p : StepRow → Bool}
    (replaced : Table.Replaced rows rows' old new) (kept : p new = true → p old = true) :
    rows'.countP p ≤ rows.countP p := by
  have count := replaced.countP p
  by_cases isNew : p new = true
  · simp only [isNew, kept isNew, if_true] at count
    omega
  · simp only [isNew, Bool.false_eq_true, if_false] at count
    omega

section Effects

variable {lint : Dag.PlanLint}

theorem holders_expanded {args : ExpandRun} {origin} :
    holders claimID (args.apply origin now s) = holders claimID s := by
  unfold holders ExpandRun.apply
  rw [countP_append, countP_map]
  have old : s.steps.countP (heldBy claimID ∘ args.widenRow now) = s.steps.countP (heldBy claimID) :=
    countP_congr fun row _ => by
      rw [Function.comp_apply, ExpandRun.widenRow, widen]
      split <;> rfl
  have new : (args.newSteps (s.run.graphVersion + 1) origin now).countP (heldBy claimID) = 0 := by
    refine countP_eq_zero.mpr fun row mem => ?_
    obtain ⟨_, _, rfl⟩ := mem_map.mp mem
    simp [heldBy, stepRowParams]
  rw [old, new, Nat.add_zero]

theorem Effect.holders_le (effect : Effect lint (.minting (· ≠ claimID)) s s') :
    holders claimID s' ≤ holders claimID s := by
  cases effect with
  | moved move _ replaced _ _ _ _ =>
    refine countP_replaced_le replaced fun held => ?_
    simp [heldBy_of_closed move.closed] at held
  | claimed minted _ replaced _ _ _ _ _ _ =>
    refine countP_replaced_le replaced fun held => ?_
    simp only [heldBy, claimRow, beq_self_eq_true, Bool.true_and, beq_iff_eq,
      Option.some.injEq] at held
    exact absurd held minted
  | awaited _ _ _ replaced _ _ _ =>
    exact countP_replaced_le replaced fun held => by cases held
  | resolved _ _ _ _ replaced => exact countP_replaced_le replaced id
  | expanded _ _ _ => exact holders_expanded.le
  | _ => exact le_rfl

theorem Reaches.holders_le (reaches : Reaches lint (.minting (· ≠ claimID)) s s') (unique :
    UniqueSteps s) : holders claimID s' ≤ holders claimID s := by
  have chain := reaches unique
  clear reaches
  induction chain with
  | refl => exact le_rfl
  | tail _ effect ih => exact effect.holders_le.trans ih

end Effects

theorem holders_replaced {steps old new}
    (replaced : Table.Replaced s.steps steps old new) (held : heldBy claimID old = true)
    (released : heldBy claimID new = false) :
    steps.countP (heldBy claimID) + 1 = holders claimID s := by
  have count := replaced.countP (heldBy claimID)
  simp only [held, released, if_true, Bool.false_eq_true, if_false] at count
  exact count

def Releases (claimID : ClaimID) {α : Type} (x : StoreTx α) : Prop :=
  ∀ s a s', x s = (.ok a, s') → holders claimID s' + 1 = holders claimID s

theorem Releases.run (guard : t.guard = heldBy claimID)
    (released : ∀ row, heldBy claimID (t.set row) = false) : Releases claimID t.run := by
  intro s row s' ok
  obtain ⟨old, _, _, _, _, _, guarded, rfl, replaced, _, _, rfl⟩ := StepTransition.run_ok ok
  exact holders_replaced replaced (guard ▸ guarded) (released old)

theorem Releases.fenced (op : String) {target set finish event} (left : target ≠ .running) :
    Releases claimID (Store.fenced op stepID claimID now target set finish event).run :=
  .run rfl fun row => by simp [Store.fenced, heldBy, left]

theorem Releases.after {α β : Type} {x} {f : α → StoreTx β}
    (keeps : ∀ s, (x s).2 = s) (next : ∀ a, Releases claimID (f a)) :
    Releases claimID (x >>= f) := by
  intro s b s' ok
  obtain ⟨a, _, first, second⟩ := bind_ok ok
  have kept := keeps s
  rw [first] at kept
  cases kept
  exact next a _ b s' second

theorem Releases.before {α β : Type} {x} {f : α → StoreTx β}
    (first : Releases claimID x) (keeps : ∀ a s b s', f a s = (.ok b, s') → s'.steps = s.steps) :
    Releases claimID (x >>= f) := by
  intro s b s' ok
  obtain ⟨a, middle, ok₁, ok₂⟩ := bind_ok ok
  have spent := first s a middle ok₁
  unfold holders at spent ⊢
  rw [keeps a middle b s' ok₂]
  exact spent

theorem parkOverBudget_steps {status} {u : Unit} (ok : parkOverBudget status s = (.ok u, s')) :
    s'.steps = s.steps := by
  unfold parkOverBudget at ok
  split at ok
  · rw [bind_apply, updateRun_apply] at ok
    by_cases guarded : (s.run.status == .running) = true
    · simp only [guarded, ↓reduceIte] at ok
      cases ok
      rfl
    · simp only [guarded, Bool.false_eq_true, ↓reduceIte] at ok
      cases ok
  · cases ok
    rfl

theorem awaitHumanStep_releases (content : ApprovalContent) :
    Releases claimID (awaitHumanStep stepID claimID content now) := by
  intro s row s' ok
  obtain ⟨old, _, _, held, rfl, replaced, _, _, rfl⟩ := awaitHumanStep_ok ok
  exact holders_replaced replaced held rfl

theorem budgetParkStep_releases (payload : Json) :
    Releases claimID (budgetParkStep stepID claimID payload now) := by
  refine .after (fun _ => rfl) fun run => Releases.before (.fenced _ (by decide)) ?_
  intro row s b s' ok
  obtain ⟨_, _, parked, rest⟩ := bind_ok ok
  cases rest
  exact parkOverBudget_steps parked

theorem Fenced.perform_releases (t : Fenced) : Releases claimID (t.perform stepID claimID now) := by
  cases t with
  | takeover => exact .fenced _ (by decide)
  | succeed completion => exact .after (requireArgument_state _ _ _) fun _ => .run rfl fun _ => rfl
  | deadLetter source failure =>
    exact .after (requireNow_state _ _) fun _ => .after (requireArgument_state _ _ _) fun _ =>
      .run rfl fun _ => rfl
  | collectFail failure output => exact .run rfl fun _ => rfl
  | cancelRunning reason error =>
    exact .after (requireNow_state _ _) fun _ => .after (requireArgument_state _ _ _) fun _ =>
      .run rfl fun _ => rfl
  | retry failure nextAttemptAt =>
    exact .after (requireNow_state _ _) fun _ => .after (requireArgument_state _ _ _) fun _ =>
      .after (requireArgument_state _ _ _) fun _ => .fenced _ (by decide)
  | budgetPark payload => exact budgetParkStep_releases payload
  | awaitHuman content => exact awaitHumanStep_releases content
  | _ =>
    exact .after (requireNow_state _ _) fun _ => .after (requireArgument_state _ _ _) fun _ =>
      .fenced _ (by decide)

def NotCurrent (s : RunStore) (stepID : String) (claimID : ClaimID) : Prop :=
  ∀ row ∈ s.steps, row.stepID = stepID → ¬(row.status = .running ∧ row.claimID = some claimID)

def Refuses {α : Type} (s : RunStore) (x : StoreTx α) : Prop := ∃ e, x s = (.error e, s)

theorem Refuses.after {α β : Type} {x} {f : α → StoreTx β} (keeps : (x s).2 = s)
    (next : ∀ a, Refuses s (f a)) : Refuses s (x >>= f) := by
  cases first : x s with
  | mk result middle =>
    rw [first] at keeps
    cases keeps
    cases result with
    | ok a =>
      obtain ⟨e, failed⟩ := next a
      exact ⟨e, (bind_of_ok first).trans failed⟩
    | error e => exact ⟨e, bind_of_error first⟩

theorem Refuses.before {α β : Type} {x} {f : α → StoreTx β} (first : Refuses s x) :
    Refuses s (x >>= f) := by
  obtain ⟨e, failed⟩ := first
  exact ⟨e, bind_of_error failed⟩

theorem updateRunStep_missed {guard set}
    (missed : ∀ row ∈ s.steps, row.stepID = stepID → guard row = false) :
    updateRunStep stepID guard set s = (.ok none, s) := by
  have none : Table.updateFirst (fun row => row.stepID == stepID && guard row) set s.steps = none := by
    refine Table.updateFirst_none.mpr fun row mem => ?_
    by_cases same : row.stepID = stepID
    · simp [same, missed row mem same]
    · simp [same]
  unfold updateRunStep
  rw [none]

theorem Refuses.update {α : Type} {guard : StepRow → Bool} {set : StepRow → StepRow}
    {next : Option StepRow → StoreTx α} {op : String} {refusal : StepRow → StoreError}
    (missed : ∀ row ∈ s.steps, row.stepID = stepID → guard row = false) (refuses : next none = (do
      let row ← getRunStep op stepID
      Tx.throw (refusal row))) : Refuses s (updateRunStep stepID guard set >>= next) := by
  unfold Refuses
  rw [bind_of_ok (updateRunStep_missed missed), refuses]
  exact Refuses.after (getRunStep_state _ _ s) fun row => ⟨_, rfl⟩

theorem StepTransition.run_refuses
    (missed : ∀ row ∈ s.steps, row.stepID = t.stepID → t.guard row = false) : Refuses s t.run :=
  .after (requireNow_state _ _ s) fun _ => .before (.update missed rfl)

theorem NotCurrent.missed (notCurrent : NotCurrent s stepID claimID) :
    ∀ row ∈ s.steps, row.stepID = stepID → heldBy claimID row = false := by
  intro row mem same
  rw [Bool.eq_false_iff, ne_eq, heldBy_iff]
  exact notCurrent row mem same

theorem Fenced.perform_refuses (now : Time) (notCurrent : NotCurrent s stepID claimID) (t : Fenced) :
    Refuses s (t.perform stepID claimID now) := by
  have missed := notCurrent.missed
  cases t with
  | takeover => exact StepTransition.run_refuses missed
  | succeed completion =>
    exact .after (requireArgument_state _ _ _ s) fun _ => StepTransition.run_refuses missed
  | collectFail failure output => exact StepTransition.run_refuses missed
  | retry failure nextAttemptAt =>
    exact .after (requireNow_state _ _ s) fun _ => .after (requireArgument_state _ _ _ s) fun _ =>
      .after (requireArgument_state _ _ _ s) fun _ => StepTransition.run_refuses missed
  | budgetPark payload => exact .after rfl fun _ => .before (StepTransition.run_refuses missed)
  | awaitHuman content => exact .after (requireNow_state _ _ s) fun _ => .update missed rfl
  | _ =>
    exact .after (requireNow_state _ _ s) fun _ => .after (requireArgument_state _ _ _ s) fun _ =>
      StepTransition.run_refuses missed

def Call.presented (call : Call) : Option ClaimID :=
  match call.transition with
  | .fenced _ claimID _ => some claimID
  | _ => none

def lands (lint : Dag.PlanLint) (s : RunStore) (call : Call) : Bool :=
  ((call.perform lint).commit s).1.isOk

def landings (lint : Dag.PlanLint) (claimID : ClaimID) : RunStore → List Call → Nat
  | _, [] => 0
  | s, call :: rest =>
    (if call.presented = some claimID ∧ lands lint s call = true then 1 else 0) +
      landings lint claimID (advance lint s call) rest

section Histories

variable (lint : Dag.PlanLint) (claimID : ClaimID)

theorem holders_claimStep_le {claimID stepID workerID now s s' row}
    (ok : claimStep stepID claimID workerID now s = (.ok row, s')) :
    holders claimID s' ≤ holders claimID s + 1 := by
  obtain ⟨_, _, steps, _, _, _, rfl, replaced, _, _, _, _, _, rfl⟩ :=
    claimStep_ok _ _ _ ok
  have count := replaced.countP (heldBy claimID)
  change steps.countP (heldBy claimID) ≤ s.steps.countP (heldBy claimID) + 1
  split at count <;> split at count <;> omega

theorem advance_holders_le {s} (unique : UniqueSteps s) (call : Call) :
    (if call.presented = some claimID ∧ lands lint s call = true then 1 else 0) +
        holders claimID (advance lint s call) ≤
      holders claimID s + if call.minted = some claimID then 1 else 0 := by
  by_cases minted : call.minted = some claimID
  · obtain ⟨transition, now⟩ := call
    cases transition with
    | claim stepID issued workerID =>
      obtain rfl : issued = claimID := by simpa [Call.minted] using minted
      simp only [Call.presented, reduceCtorEq, false_and, if_false, Nat.zero_add, minted, if_true]
      unfold advance commit
      split
      · rename_i ok
        obtain ⟨row, claimed⟩ := void_ok ok
        exact holders_claimStep_le claimed
      · exact Nat.le_succ _
    | _ => cases minted
  · have reaches : Reaches lint (.minting (· ≠ claimID)) s (advance lint s call) := by
      refine advance_reaches s call fun issued isMinted clash => minted ?_
      rw [isMinted, clash]
    have bound := reaches.holders_le unique
    split
    · rename_i landing
      obtain ⟨presented, landed⟩ := landing
      obtain ⟨transition, _⟩ := call
      cases transition with
      | fenced stepID shown t =>
        obtain rfl : shown = claimID := by simpa [Call.presented] using presented
        unfold lands commit at landed
        split at landed
        · rename_i ok
          obtain ⟨row, performed⟩ := void_ok ok
          have spent := t.perform_releases s row _ performed
          rw [advance, commit_of_ok ok]
          dsimp only
          omega
        · cases landed
      | _ => cases presented
    · omega

theorem landings_le {s} (unique : UniqueSteps s) (calls : List Call) :
    landings lint claimID s calls ≤
      holders claimID s + calls.countP fun call => call.minted = some claimID := by
  induction calls generalizing s with
  | nil => exact Nat.zero_le _
  | cons call rest ih =>
    have step := advance_holders_le lint claimID unique call
    have reaches : Reaches lint .all s (advance lint s call) :=
      advance_reaches s call fun _ _ => trivial
    have later := ih (uniqueSteps_of_chain (reaches unique) unique)
    simp only [landings, countP_cons, decide_eq_true_eq]
    omega

end Histories

theorem Effect.settled_kept {lint may s s'} (effect : Effect lint may s s') (fit : AttemptsFit s) :
    ∀ row ∈ s.attempts, row.outcome ≠ none → row ∈ s'.attempts := by
  intro row mem settled
  cases effect with
  | @moved old new _ _ _ finish _ _ _ _ move _ replaced finished _ _ _ =>
    cases finish with
    | none => exact finished.symm ▸ mem
    | some outcome =>
      obtain ⟨_, ofStep, number, rowReplaced⟩ := finished
      refine (rowReplaced.mem_or_old mem).resolve_left ?_
      rintro rfl
      refine settled ((fit.opened old replaced.old_mem row mem ?_).mpr ⟨?_, ?_⟩)
      · exact ofStep.trans move.stepID
      · exact number.trans move.attemptCount
      · exact move.closes.symm
  | claimed _ _ _ _ _ _ _ _ _ => exact mem_append_left _ mem
  | _ => exact mem

theorem settled_kept_of_chain {lint may s s'}
    (chain : Relation.ReflTransGen (Effect lint may) s s') (unique : UniqueSteps s)
    (fit : AttemptsFit s) :
    AttemptsFit s' ∧ ∀ row ∈ s.attempts, row.outcome ≠ none → row ∈ s'.attempts := by
  induction chain with
  | refl => exact ⟨fit, fun _ mem _ => mem⟩
  | tail first effect ih =>
    obtain ⟨fitMiddle, kept⟩ := ih
    refine ⟨effect.attemptsFit (uniqueSteps_of_chain first unique) fitMiddle, ?_⟩
    exact fun row mem settled => effect.settled_kept fitMiddle row (kept row mem settled) settled

theorem Founded.holders_eq {definitionLint definition s}
    (founded : Founded definitionLint definition s) (claimID : ClaimID) :
    holders claimID s = 0 := by
  obtain ⟨_, _, _, _, _, rfl⟩ := founded.planned
  refine countP_eq_zero.mpr fun row mem => ?_
  obtain ⟨_, _, rfl⟩ := mem_map.mp mem
  simp [heldBy, stepRowParams]

/-- With fresh claim ids, every claim id lands at most one fenced transition; at every point of the
history a claim that is not current is refused without a write, and an attempt that has its outcome
keeps its row to the end. -/
theorem claims_land_at_most_once (definitionLint : Dag.DefinitionLint) (lint : Dag.PlanLint)
    (definition : Dag.Definition) (created : RunStore)
    (creation : Created definitionLint definition created) (calls : List Call)
    (fresh : (calls.filterMap Call.minted).Nodup) :
    (∀ claimID, landings lint claimID created calls ≤ 1) ∧
      ∀ earlier later, calls = earlier ++ later →
        let s := replay lint created earlier
        (∀ stepID claimID t now, NotCurrent s stepID claimID →
          ∃ e, Call.perform lint { transition := .fenced stepID claimID t, now } s = (.error e, s)) ∧
        ∀ row ∈ s.attempts, row.outcome ≠ none →
          row ∈ (replay lint created calls).attempts ∧
            ∀ other ∈ (replay lint created calls).attempts, other.key = row.key → other = row := by
  constructor
  · intro claimID
    obtain ⟨_, founded, reaches⟩ := creation.founded lint (.minting (· ≠ claimID)) trivial
    have unique := uniqueSteps_of_chain (reaches founded.uniqueSteps) founded.uniqueSteps
    have unheld := reaches.holders_le founded.uniqueSteps
    rw [founded.holders_eq] at unheld
    have once : calls.countP (fun call => call.minted = some claimID) ≤ 1 := by
      have counted := nodup_iff_count_le_one.mp fresh claimID
      rw [count, countP_filterMap] at counted
      refine le_trans (countP_mono_left fun call _ issued => ?_) counted
      simp only [decide_eq_true_eq] at issued
      simp [issued]
    have bound := landings_le lint claimID unique calls
    omega
  · rintro earlier later rfl
    obtain ⟨unique, fit⟩ := (attemptsFit_invariant definitionLint lint .all).replay
      creation earlier fun _ _ _ _ => trivial
    refine ⟨fun stepID claimID t now notCurrent => ?_, fun row member settled => ?_⟩
    · obtain ⟨e, failed⟩ := t.perform_refuses now notCurrent
      exact ⟨e, void_error.mpr failed⟩
    · rw [replay_append]
      have reaches : Reaches lint .all (replay lint created earlier)
          (replay lint (replay lint created earlier) later) :=
        replay_reaches _ later fun _ _ _ _ => trivial
      obtain ⟨fitLater, kept⟩ := settled_kept_of_chain (reaches unique) unique fit
      have remains := kept row member settled
      exact ⟨remains, fun other inside same => Table.eq_of_key fitLater.keys inside remains same⟩

theorem planned_claims_land_once : landings Dag.quietPlanLint 7 plannedRun plannedCalls ≤ 1 ∧
      landings Dag.quietPlanLint 7 plannedRun plannedCalls = 1 :=
  ⟨(claims_land_at_most_once Dag.quietDefinitionLint Dag.quietPlanLint Dag.plannedDefinition
    plannedRun plannedRun_created plannedCalls (by decide)).1 7, by decide⟩

end Agentloom.Store
