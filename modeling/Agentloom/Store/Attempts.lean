import Mathlib.Data.List.Range
import Agentloom.Store.Runs

/-! Attempt rows: every claim opens one, and the transition that takes the step out of the open
statuses closes it. -/

namespace Agentloom.Store

open List

variable {s : RunStore}

def AttemptRow.isOpen (row : AttemptRow) : Bool := row.outcome.isNone && row.finishedAt.isNone

def AttemptRow.key (row : AttemptRow) : String × Nat := (row.stepID, row.attemptNo)

def numbersOf (keys : List (String × Nat)) (stepID : String) : List Nat :=
  (keys.filter fun key => key.1 == stepID).map Prod.snd

structure AttemptsFit (s : RunStore) : Prop where
  keys : (s.attempts.map AttemptRow.key).Nodup
  owned : ∀ row ∈ s.attempts, ∃ step ∈ s.steps, step.stepID = row.stepID
  numbered : ∀ step ∈ s.steps,
    numbersOf (s.attempts.map AttemptRow.key) step.stepID = List.range' 1 step.attemptCount
  opened : ∀ step ∈ s.steps, ∀ row ∈ s.attempts, row.stepID = step.stepID →
    (row.outcome = none ↔ row.attemptNo = step.attemptCount ∧ step.status.isOpen = true)
  finished : ∀ row ∈ s.attempts, row.outcome = none ↔ row.finishedAt = none
  started : ∀ step ∈ s.steps, step.status.isOpen = true → 1 ≤ step.attemptCount

variable {row : AttemptRow}

theorem mem_numbersOf {rows : List AttemptRow} (mem : row ∈ rows) :
    row.attemptNo ∈ numbersOf (rows.map AttemptRow.key) row.stepID := by
  refine mem_map.mpr ⟨row.key, mem_filter.mpr ⟨mem_map_of_mem mem, ?_⟩, rfl⟩
  simp [AttemptRow.key]

theorem AttemptsFit.number_le (fit : AttemptsFit s) {step : StepRow} (inSteps : step ∈ s.steps)
    (mem : row ∈ s.attempts) (same : row.stepID = step.stepID) :
    row.attemptNo ≤ step.attemptCount := by
  have listed := mem_numbersOf mem
  rw [same, fit.numbered step inSteps, mem_range'_1] at listed
  omega

def attemptShape (row : StepRow) : String × Nat × Bool :=
  (row.stepID, row.attemptCount, row.status.isOpen)

variable {s' : RunStore}

theorem AttemptsFit.of_shapes (fit : AttemptsFit s) (attempts : s'.attempts = s.attempts)
    (shapes : s'.steps.map attemptShape = s.steps.map attemptShape) : AttemptsFit s' := by
  have back : ∀ step' ∈ s'.steps, ∃ step ∈ s.steps, step.stepID = step'.stepID ∧
      step.attemptCount = step'.attemptCount ∧ step.status.isOpen = step'.status.isOpen := by
    intro step' mem
    have shaped : attemptShape step' ∈ s.steps.map attemptShape :=
      shapes ▸ mem_map_of_mem mem
    obtain ⟨step, inside, same⟩ := mem_map.mp shaped
    simp only [attemptShape, Prod.mk.injEq] at same
    exact ⟨step, inside, same⟩
  refine ⟨?_, ?_, ?_, ?_, ?_, ?_⟩
  · rw [attempts]
    exact fit.keys
  · intro row mem
    rw [attempts] at mem
    obtain ⟨step, inside, same⟩ := fit.owned row mem
    have shaped : attemptShape step ∈ s'.steps.map attemptShape :=
      shapes ▸ mem_map_of_mem inside
    obtain ⟨step', inside', same'⟩ := mem_map.mp shaped
    simp only [attemptShape, Prod.mk.injEq] at same'
    exact ⟨step', inside', same'.1.trans same⟩
  · intro step' mem
    obtain ⟨step, inside, id, count, _⟩ := back step' mem
    rw [attempts, ← id, ← count]
    exact fit.numbered step inside
  · intro step' mem row inAttempts same
    rw [attempts] at inAttempts
    obtain ⟨step, inside, id, count, isOpen⟩ := back step' mem
    rw [← count, ← isOpen]
    exact fit.opened step inside row inAttempts (same.trans id.symm)
  · rw [attempts]
    exact fit.finished
  · intro step' mem
    obtain ⟨step, inside, _, count, isOpen⟩ := back step' mem
    rw [← count, ← isOpen]
    exact fit.started step inside

variable {now : Time}

section Kept

variable (fit : AttemptsFit s) (unique : UniqueSteps s)

include fit unique

theorem AttemptsFit.closed (same : SameStep old new)
    (closed : new.status.isOpen = false) (replaced : Table.Replaced s.steps steps old new)
    (finished : Finished s.attempts attempts new now (some finish)) (stepsEq : s'.steps = steps)
    (attemptsEq : s'.attempts = attempts) : AttemptsFit s' := by
  obtain ⟨row, rowStep, rowNo, rowReplaced⟩ := finished
  have keysEq : attempts.map AttemptRow.key = s.attempts.map AttemptRow.key :=
    rowReplaced.map_eq AttemptRow.key rfl
  refine ⟨?_, ?_, ?_, ?_, ?_, ?_⟩ <;> simp only [stepsEq, attemptsEq]
  · rw [keysEq]
    exact fit.keys
  · intro other mem
    have owner : ∃ step ∈ s.steps, step.stepID = other.stepID := by
      rcases rowReplaced.mem_of_mem mem with rfl | inside
      · exact fit.owned row rowReplaced.old_mem
      · exact fit.owned other inside
    obtain ⟨step, inside, id⟩ := owner
    rcases replaced.mem_or_old inside with rfl | kept
    · exact ⟨new, replaced.new_mem, same.stepID.trans id⟩
    · exact ⟨step, kept, id⟩
  · intro step mem
    rw [keysEq]
    rcases replaced.mem_of_mem mem with rfl | inside
    · rw [same.stepID, same.attemptCount]
      exact fit.numbered old replaced.old_mem
    · exact fit.numbered step inside
  · intro step mem other inAttempts id
    rcases rowReplaced.key_ne fit.keys inAttempts with rfl | ⟨inside, otherKey⟩
    · -- the row just finished belongs to the step just closed
      have isNew : step = new := by
        rcases replaced.key_ne unique mem with isNew | ⟨_, otherStep⟩
        · exact isNew
        · exact absurd (id.symm.trans (rowStep.trans same.stepID)) otherStep
      simp [isNew, closed, AttemptRow.finish]
    · rcases replaced.key_ne unique mem with rfl | ⟨inSteps, _⟩
      · have otherNo : other.attemptNo ≠ old.attemptCount := by
          intro clash
          refine otherKey (Prod.ext (id.trans rowStep.symm) ?_)
          exact clash.trans (same.attemptCount.symm.trans rowNo.symm)
        have finishedBefore := fit.opened old replaced.old_mem other inside (id.trans same.stepID)
        simp [finishedBefore, otherNo, closed]
      · exact fit.opened step inSteps other inside id
  · intro other mem
    rcases rowReplaced.mem_of_mem mem with rfl | inside
    · simp [AttemptRow.finish]
    · exact fit.finished other inside
  · intro step mem isOpen
    rcases replaced.mem_of_mem mem with rfl | inside
    · simp [closed] at isOpen
    · exact fit.started step inside isOpen

theorem AttemptsFit.claimed {old steps attempt claimID} (claims : claimable now old = true)
    (replaced : Table.Replaced s.steps steps old (claimRow claimID now old))
    (stepID : attempt.stepID = old.stepID) (attemptNo : attempt.attemptNo = old.attemptCount + 1)
    (outcome : attempt.outcome = none) (finishedAt : attempt.finishedAt = none)
    (stepsEq : s'.steps = steps) (attemptsEq : s'.attempts = s.attempts ++ [attempt]) :
    AttemptsFit s' := by
  have wasClosed : old.status.isOpen = false := by
    rcases claimable_status claims with status | status <;> rw [status] <;> rfl
  have bound : ∀ row ∈ s.attempts, row.stepID = old.stepID → row.attemptNo ≤ old.attemptCount :=
    fun row mem same => fit.number_le replaced.old_mem mem same
  refine ⟨?_, ?_, ?_, ?_, ?_, ?_⟩ <;> simp only [stepsEq, attemptsEq]
  · rw [map_append, nodup_append]
    refine ⟨fit.keys, by simp, ?_⟩
    rintro _ inside _ fresh rfl
    obtain ⟨row, mem, rowKey⟩ := mem_map.mp inside
    simp only [map_cons, map_nil, mem_singleton, ← rowKey, AttemptRow.key,
      Prod.mk.injEq] at fresh
    have := bound row mem (fresh.1.trans stepID)
    omega
  · intro row mem
    have owner : ∃ step ∈ s.steps, step.stepID = row.stepID := by
      rcases mem_append.mp mem with inside | isNew
      · exact fit.owned row inside
      · rw [mem_singleton.mp isNew]
        exact ⟨old, replaced.old_mem, stepID.symm⟩
    obtain ⟨step, inside, id⟩ := owner
    rcases replaced.mem_or_old inside with rfl | kept
    · exact ⟨_, replaced.new_mem, id⟩
    · exact ⟨step, kept, id⟩
  · intro step mem
    unfold numbersOf
    rw [map_append, filter_append, map_append]
    rcases replaced.key_ne unique mem with rfl | ⟨inside, other⟩
    · have before := fit.numbered old replaced.old_mem
      unfold numbersOf at before
      have newNumber : (([attempt].map AttemptRow.key).filter fun key =>
          key.1 == (claimRow claimID now old).stepID).map Prod.snd = [old.attemptCount + 1] := by
        simp [AttemptRow.key, stepID, attemptNo, claimRow]
      rw [newNumber]
      change _ = range' 1 (old.attemptCount + 1)
      rw [range'_concat, ← before]
      simp [claimRow, Nat.add_comm]
    · have absent : (([attempt].map AttemptRow.key).filter fun key =>
          key.1 == step.stepID) = [] := by
        simp [AttemptRow.key, stepID, Ne.symm other]
      rw [absent, map_nil, append_nil]
      exact fit.numbered step inside
  · intro step mem row inAttempts id
    rcases replaced.key_ne unique mem with rfl | ⟨inSteps, other⟩
    · rcases mem_append.mp inAttempts with inside | isNew
      · have finishedBefore := fit.opened old replaced.old_mem row inside id
        have small := bound row inside id
        have later : row.attemptNo ≠ old.attemptCount + 1 := by omega
        simp [finishedBefore, wasClosed, claimRow, later]
      · simp [mem_singleton.mp isNew, outcome, attemptNo, claimRow, StepStatus.isOpen]
    · rcases mem_append.mp inAttempts with inside | isNew
      · exact fit.opened step inSteps row inside id
      · rw [mem_singleton.mp isNew, stepID] at id
        exact absurd id.symm other
  · intro row mem
    rcases mem_append.mp mem with inside | isNew
    · exact fit.finished row inside
    · rw [mem_singleton.mp isNew, outcome, finishedAt]
      simp
  · intro step mem isOpen
    rcases replaced.mem_of_mem mem with rfl | inside
    · simp [claimRow]
    · exact fit.started step inside isOpen

omit unique in
theorem AttemptsFit.expanded {lint} {args : ExpandRun} {origin}
    (fits : args.Fits lint origin now s) : AttemptsFit (args.apply origin now s) := by
  have widened : AttemptsFit { s with steps := s.steps.map (args.widenRow now) } := by
    refine fit.of_shapes rfl ?_
    rw [map_map]
    refine map_congr_left fun row _ => ?_
    unfold Function.comp ExpandRun.widenRow widen
    split <;> rfl
  -- a new id is no id of an old step, and every attempt belongs to an old step
  have apart : ∀ step ∈ args.newSteps (s.run.graphVersion + 1) origin now, ∀ row ∈ s.attempts,
      row.stepID ≠ step.stepID := by
    intro step new row mem same
    obtain ⟨_, inside, id⟩ := fit.owned row mem
    have distinct := fits.steps
    rw [map_append, nodup_append] at distinct
    exact distinct.2.2 _ (mem_map_of_mem inside) _ (mem_map_of_mem new) (id.trans same)
  have blank : ∀ step ∈ args.newSteps (s.run.graphVersion + 1) origin now,
      step.attemptCount = 0 ∧ step.status.isOpen = false := by
    intro step new
    obtain ⟨_, _, rfl⟩ := mem_map.mp new
    refine ⟨rfl, ?_⟩
    split <;> rfl
  refine ⟨fit.keys, ?_, ?_, ?_, fit.finished, ?_⟩
  · intro row mem
    obtain ⟨step, inside, id⟩ := widened.owned row mem
    exact ⟨step, mem_append_left _ inside, id⟩
  · intro step mem
    rcases mem_append.mp mem with old | new
    · exact widened.numbered step old
    · rw [(blank step new).1]
      unfold numbersOf
      rw [filter_eq_nil_iff.mpr]
      · rfl
      · intro key inKeys
        obtain ⟨row, inside, rfl⟩ := mem_map.mp inKeys
        simpa [AttemptRow.key] using apart step new row inside
  · intro step mem row inAttempts id
    rcases mem_append.mp mem with old | new
    · exact widened.opened step old row inAttempts id
    · exact absurd id (apart step new row inAttempts)
  · intro step mem isOpen
    rcases mem_append.mp mem with old | new
    · exact widened.started step old isOpen
    · simp [(blank step new).2] at isOpen

end Kept

theorem Founded.attemptsFit (founded : Founded definitionLint definition s) : AttemptsFit s := by
  obtain ⟨_, _, _, _, _, rfl⟩ := founded.planned
  refine ⟨nodup_nil, ?_, ?_, ?_, ?_, ?_⟩
  · intro row mem
    cases mem
  · intro step mem
    obtain ⟨planned, _, rfl⟩ := mem_map.mp mem
    rfl
  · intro step _ row inAttempts
    cases inAttempts
  · intro row mem
    cases mem
  · intro step mem isOpen
    obtain ⟨_, _, rfl⟩ := mem_map.mp mem
    split at isOpen <;> cases isOpen

theorem Effect.attemptsFit {may : Permits} (effect : Effect lint may s s')
    (unique : UniqueSteps s) (fit : AttemptsFit s) : AttemptsFit s' := by
  cases effect with
  | @moved old new _ _ _ finish _ _ _ _ move _ replaced finished _ _ _ =>
    cases finish with
    | none =>
      refine fit.of_shapes finished (replaced.map_eq attemptShape ?_)
      have wasClosed : old.status.isOpen = false := move.closes.symm
      simp [attemptShape, move.stepID, move.attemptCount, move.closed, wasClosed]
    | some outcome =>
      exact fit.closed unique move.toSameStep move.closed replaced finished rfl rfl
  | claimed _ claims replaced stepID attemptNo _ outcome finishedAt _ =>
    exact fit.claimed unique claims replaced stepID attemptNo outcome finishedAt rfl rfl
  | awaited _ _ held replaced _ _ _ =>
    refine fit.of_shapes rfl (replaced.map_eq attemptShape ?_)
    simp [attemptShape, awaitRow, heldBy_running _ held, StepStatus.isOpen]
  | resolved _ _ _ _ replaced => exact fit.of_shapes rfl (replaced.map_eq attemptShape rfl)
  | expanded fits _ _ => exact (fit.expanded fits).of_shapes rfl rfl
  | _ => exact fit.of_shapes rfl rfl

theorem attemptsFit_invariant (definitionLint : Dag.DefinitionLint) (lint : Dag.PlanLint)
    (may : Permits) : Invariant definitionLint lint may AttemptsFit where
  founded _ _ founded := founded.attemptsFit
  kept _ _ effect unique fit := effect.attemptsFit unique fit

section Reading

variable (fit : AttemptsFit s) {step : StepRow} (inSteps : step ∈ s.steps)

include fit

theorem AttemptsFit.isOpen_iff (mem : row ∈ s.attempts) :
    row.isOpen = true ↔ row.outcome = none := by
  simp only [AttemptRow.isOpen, Bool.and_eq_true, Option.isNone_iff_eq_none]
  exact ⟨And.left, fun unset => ⟨unset, (fit.finished row mem).mp unset⟩⟩

include inSteps

theorem AttemptsFit.exists_open_iff :
    (∃ row ∈ s.attempts, row.stepID = step.stepID ∧ row.isOpen = true) ↔
      step.status.isOpen = true := by
  constructor
  · rintro ⟨row, mem, same, isOpen⟩
    exact ((fit.opened step inSteps row mem same).mp ((fit.isOpen_iff mem).mp isOpen)).2
  · intro isOpen
    have latest : step.attemptCount ∈ numbersOf (s.attempts.map AttemptRow.key) step.stepID := by
      have positive := fit.started step inSteps isOpen
      rw [fit.numbered step inSteps, mem_range'_1]
      omega
    obtain ⟨_, listed, number⟩ := mem_map.mp latest
    obtain ⟨inKeys, ofStep⟩ := mem_filter.mp listed
    obtain ⟨row, mem, rfl⟩ := mem_map.mp inKeys
    have same : row.stepID = step.stepID := by simpa [AttemptRow.key] using ofStep
    exact ⟨row, mem, same, (fit.isOpen_iff mem).mpr
      ((fit.opened step inSteps row mem same).mpr ⟨number, isOpen⟩)⟩

theorem AttemptsFit.open_number (mem : row ∈ s.attempts) (same : row.stepID = step.stepID)
    (isOpen : row.isOpen = true) : row.attemptNo = step.attemptCount :=
  ((fit.opened step inSteps row mem same).mp ((fit.isOpen_iff mem).mp isOpen)).1

theorem AttemptsFit.open_le_one :
    (s.attempts.countP fun row => row.stepID == step.stepID && row.isOpen) ≤ 1 := by
  calc (s.attempts.countP fun row => row.stepID == step.stepID && row.isOpen)
      ≤ s.attempts.countP fun row => row.key == (step.stepID, step.attemptCount) := by
        refine countP_mono_left fun row mem opened => ?_
        simp only [Bool.and_eq_true, beq_iff_eq] at opened
        rw [beq_iff_eq]
        exact Prod.ext opened.1 (fit.open_number inSteps mem opened.1 opened.2)
    _ = (s.attempts.map AttemptRow.key).count (step.stepID, step.attemptCount) := by
        rw [count, countP_map]
        rfl
    _ ≤ 1 := nodup_iff_count_le_one.mp fit.keys _

theorem AttemptsFit.numbers :
    (s.attempts.filter fun row => row.stepID == step.stepID).map AttemptRow.attemptNo =
      range' 1 step.attemptCount := by
  rw [← fit.numbered step inSteps, numbersOf, filter_map, map_map]
  rfl

end Reading

/-- In every history of a run, a step has an open attempt exactly while it runs or waits for a
human; there is one of them, it is the latest, and the attempts are numbered from one on. -/
theorem attempts_match_steps (definitionLint : Dag.DefinitionLint) (lint : Dag.PlanLint)
    (definition : Dag.Definition) (created : RunStore)
    (creation : Created definitionLint definition created) (calls : List Call) :
    let s := replay lint created calls
    ∀ step ∈ s.steps,
      ((∃ row ∈ s.attempts, row.stepID = step.stepID ∧ row.outcome = none ∧
          row.finishedAt = none) ↔ step.status = .running ∨ step.status = .awaitingHuman) ∧
        (s.attempts.countP fun row => row.stepID == step.stepID && row.isOpen) ≤ 1 ∧
        (∀ row ∈ s.attempts, row.stepID = step.stepID → row.isOpen = true →
          row.attemptNo = step.attemptCount) ∧
        (s.attempts.filter fun row => row.stepID == step.stepID).map AttemptRow.attemptNo =
          range' 1 step.attemptCount := by
  intro s step inSteps
  obtain ⟨_, fit⟩ := (attemptsFit_invariant definitionLint lint .all).replay creation
    calls fun _ _ _ _ => trivial
  have open_iff : step.status.isOpen = true ↔
      step.status = .running ∨ step.status = .awaitingHuman := by
    cases step.status <;> simp [StepStatus.isOpen]
  refine ⟨?_, fit.open_le_one inSteps, fun row member same isOpen =>
    fit.open_number inSteps member same isOpen, fit.numbers inSteps⟩
  rw [← open_iff, ← fit.exists_open_iff inSteps]
  simp only [AttemptRow.isOpen, Bool.and_eq_true, Option.isNone_iff_eq_none]
  exact Iff.rfl

def reclaimedStep : StepRow :=
  { stepID := "p", stepType := .planner, status := .running, claimID := some 8, attemptCount := 2,
    startedAt := some 2, updatedAt := 4 }

theorem reclaimed_attempts_match_step :
    ((replay Dag.quietPlanLint plannedRun (plannedCalls.take 3)).attempts.filter fun row =>
      row.stepID == reclaimedStep.stepID).map AttemptRow.attemptNo = [1, 2] :=
  (attempts_match_steps Dag.quietDefinitionLint Dag.quietPlanLint Dag.plannedDefinition plannedRun
    plannedRun_created (plannedCalls.take 3) reclaimedStep (by decide)).2.2.2

end Agentloom.Store
