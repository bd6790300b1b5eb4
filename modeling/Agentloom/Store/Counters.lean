import Agentloom.Store.Runs

/-! The aggregate counters of a run agree with the statuses of its steps. The roll-ups decide how a
run ends from the counters alone, so this is what makes them right. -/

namespace Agentloom.Store

open List

theorem Counters.add_assoc (a b c : Counters) : (a.add b).add c = a.add (b.add c) := by
  simp only [Counters.add, Counters.mk.injEq]
  omega

theorem Counters.add_comm (a b : Counters) : a.add b = b.add a := by
  simp only [Counters.add, Counters.mk.injEq]
  omega

theorem Counters.add_zero (a : Counters) : a.add {} = a := by
  simp [Counters.add]

theorem Counters.add_right_cancel {a b c : Counters} (same : a.add c = b.add c) : a = b := by
  obtain ⟨_, _, _, _, _⟩ := a
  obtain ⟨_, _, _, _, _⟩ := b
  simp only [Counters.add, Counters.mk.injEq] at same ⊢
  omega

def withStatus (status : StepStatus) (rows : List StepRow) : Nat :=
  rows.countP fun row => row.status == status

def census (rows : List StepRow) : Counters :=
  { succeeded := withStatus .succeeded rows
    failed := withStatus .deadLettered rows
    skipped := withStatus .skipped rows
    cancelled := withStatus .cancelled rows
    collected := withStatus .collected rows }

@[simp] theorem census_nil : census [] = {} := rfl

theorem census_cons (row : StepRow) (rows : List StepRow) :
    census (row :: rows) = (tally row.status).add (census rows) := by
  simp only [census, withStatus, countP_cons, Counters.add, tally]
  cases row.status <;> simp <;> omega

theorem census_append (rows more : List StepRow) :
    census (rows ++ more) = (census rows).add (census more) := by
  simp [census, withStatus, Counters.add]

theorem census_congr (same : rows'.map StepRow.status = rows.map StepRow.status) :
    census rows' = census rows := by
  have counted : ∀ status (list : List StepRow),
      withStatus status list = (list.map StepRow.status).countP (· == status) := by
    intro status list
    rw [countP_map]
    rfl
  simp only [census, counted, same]

theorem census_unsettled (unsettled : ∀ row ∈ rows, tally row.status = {}) : census rows = {} := by
  induction rows with
  | nil => rfl
  | cons row rest ih =>
    rw [census_cons, unsettled row mem_cons_self,
      ih fun other mem => unsettled other (mem_cons_of_mem _ mem)]
    rfl

theorem census_replaced (replaced : Table.Replaced rows rows' old new) :
    (census rows').add (tally old.status) = (census rows).add (tally new.status) := by
  obtain ⟨_, _, rfl, rfl⟩ := replaced
  simp only [census_append, census_cons, Counters.add, Counters.mk.injEq]
  omega

structure Booked (s : RunStore) : Prop where
  counters : s.run.counters = census s.steps
  total : s.run.stepsTotal = s.steps.length

def isCounted : StepStatus → Bool
  | .succeeded => true
  | .deadLettered => true
  | .skipped => true
  | .cancelled => true
  | .collected => true
  | _ => false

theorem census_total (rows : List StepRow) :
    (census rows).total = rows.countP fun row => isCounted row.status := by
  induction rows with
  | nil => rfl
  | cons row rest ih =>
    rw [census_cons, countP_cons]
    have one : (tally row.status).total = if isCounted row.status then 1 else 0 := by
      cases row.status <;> rfl
    simp only [Counters.total, Counters.add] at ih one ⊢
    push_cast
    split at one <;> simp_all <;> omega

theorem Booked.allSettled_iff (booked : Booked s) :
    allSettled s.run = true ↔ ∀ row ∈ s.steps, isCounted row.status = true := by
  rw [← countP_eq_length, allSettled, beq_iff_eq, booked.counters, booked.total, census_total]
  omega

theorem tally_pending_or_ready (unsettled : status = .ready ∨ status = .pending) :
    tally status = {} := by
  rcases unsettled with rfl | rfl <;> rfl

theorem initialSteps_unsettled :
    ∀ row ∈ initialSteps definition entry now, row.status = .ready ∨ row.status = .pending := by
  intro row mem
  obtain ⟨_, _, rfl⟩ := mem_map.mp mem
  split
  · exact .inl rfl
  · exact .inr rfl

theorem newSteps_unsettled {args : ExpandRun} :
    ∀ row ∈ args.newSteps version origin now, row.status = .ready ∨ row.status = .pending := by
  intro row mem
  obtain ⟨_, _, rfl⟩ := mem_map.mp mem
  split
  · exact .inl rfl
  · exact .inr rfl

theorem Founded.booked (founded : Founded definitionLint definition s) : Booked s := by
  obtain ⟨_, _, _, _, _, rfl⟩ := founded.planned
  refine ⟨(census_unsettled fun row mem => ?_).symm, by simp [initialStore, initialSteps]⟩
  exact tally_pending_or_ready (initialSteps_unsettled row mem)

theorem tally_claimable (claims : claimable now row = true) : tally row.status = {} := by
  rcases claimable_status claims with status | status <;> rw [status] <;> rfl

section Kept

variable {lint : Dag.PlanLint} {may : Permits} {s s' : RunStore}

theorem Booked.of_replaced {steps : List StepRow} (booked : Booked s)
    (delta : Counters) (replaced : Table.Replaced s.steps steps old new)
    (balanced : tally new.status = (tally old.status).add delta) :
    s.run.counters.add delta = census steps ∧ s.run.stepsTotal = steps.length := by
  refine ⟨Counters.add_right_cancel (c := tally old.status) ?_, ?_⟩
  · rw [census_replaced replaced, balanced, booked.counters, Counters.add_assoc,
      Counters.add_comm delta]
  · rw [replaced.length]
    exact booked.total

theorem ExpandRun.widenRow_status (args : ExpandRun) (now : Time) (row : StepRow) :
    (args.widenRow now row).status = row.status := by
  unfold ExpandRun.widenRow widen
  split <;> rfl

theorem Effect.booked (effect : Effect lint may s s') (booked : Booked s) : Booked s' := by
  cases effect with
  | moved move _ replaced _ _ _ _ =>
    obtain ⟨counters, total⟩ := booked.of_replaced _ replaced move.balanced
    exact ⟨counters, total⟩
  | claimed _ claims replaced _ _ _ _ _ _ =>
    obtain ⟨counters, total⟩ := booked.of_replaced {} replaced (by
      rw [tally_claimable claims]
      rfl)
    exact ⟨(Counters.add_zero _).symm.trans counters, total⟩
  | awaited _ _ held replaced _ _ _ =>
    obtain ⟨counters, total⟩ := booked.of_replaced {} replaced (by
      rw [heldBy_running _ held]
      rfl)
    exact ⟨(Counters.add_zero _).symm.trans counters, total⟩
  | ran books _ _ _ => exact ⟨books.counters.trans booked.counters, books.stepsTotal.trans booked.total⟩
  | resolved _ _ _ _ replaced =>
    refine ⟨booked.counters.trans (census_congr ?_).symm, booked.total.trans ?_⟩
    · exact replaced.map_eq StepRow.status rfl
    · rw [replaced.length]
  | @expanded args _ now _ _ _ =>
    refine ⟨?_, ?_⟩
    · rw [record_counters, record_steps]
      unfold ExpandRun.apply
      rw [census_append, census_unsettled fun row mem =>
        tally_pending_or_ready (newSteps_unsettled row mem), Counters.add_zero, booked.counters]
      refine (census_congr ?_).symm
      rw [map_map]
      exact map_congr_left fun row _ => args.widenRow_status now row
    · rw [record_stepsTotal, record_steps]
      simp [ExpandRun.apply, ExpandRun.newSteps, booked.total]
  | _ => exact ⟨booked.counters, booked.total⟩

end Kept

theorem booked_invariant (definitionLint : Dag.DefinitionLint) (lint : Dag.PlanLint)
    (may : Permits) : Invariant definitionLint lint may Booked where
  founded _ _ founded := founded.booked
  kept _ _ effect _ booked := effect.booked booked

/-- After every history of calls the counters of a run count the statuses of its steps. -/
theorem counters_count_statuses (definitionLint : Dag.DefinitionLint) (lint : Dag.PlanLint)
    (definition : Dag.Definition) (created : RunStore)
    (creation : Created definitionLint definition created) (calls : List Call) :
    let s := replay lint created calls
    s.run.counters.succeeded = withStatus .succeeded s.steps ∧
      s.run.counters.failed = withStatus .deadLettered s.steps ∧
      s.run.counters.skipped = withStatus .skipped s.steps ∧
      s.run.counters.cancelled = withStatus .cancelled s.steps ∧
      s.run.counters.collected = withStatus .collected s.steps ∧
      s.run.stepsTotal = s.steps.length := by
  intro s
  obtain ⟨_, booked⟩ := (booked_invariant definitionLint lint .all).replay creation
    calls
    fun _ _ _ _ => trivial
  have counters : s.run.counters = census s.steps := booked.counters
  rw [counters]
  exact ⟨rfl, rfl, rfl, rfl, rfl, booked.total⟩

theorem counters_count_planned_statuses :
    let s := replay Dag.quietPlanLint plannedRun plannedCalls
    s.run.counters.succeeded = withStatus .succeeded s.steps ∧
      withStatus .succeeded s.steps = 1 := by
  refine ⟨?_, by decide⟩
  exact (counters_count_statuses Dag.quietDefinitionLint Dag.quietPlanLint Dag.plannedDefinition
    plannedRun plannedRun_created plannedCalls).1

end Agentloom.Store
