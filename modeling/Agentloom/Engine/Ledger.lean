import Agentloom.Store.Ledger
import Agentloom.Engine.Runs

/-! The totals of a run are kept beside its ledger. Whatever the workers, operators and reconcilers
do to a run, the totals are the sums over the rows, and the events that announce them never go
back. -/

namespace Agentloom.Engine

open Store

/-- In every state of every history the totals of the run are the sums over its ledger rows, no
step, attempt and entry is charged twice, and the totals that the events announce never decrease. -/
theorem ledger_totals_exact (definitionLint : Dag.DefinitionLint) (env : Environment)
    (states : List RunStore) (history : History definitionLint env states) (s : RunStore)
    (reached : s ∈ states) : s.run.spentNanoUSD = (s.costs.map CostRow.costNanoUSD).sum ∧
      s.run.savedNanoUSD = (s.costs.map CostRow.savedNanoUSD).sum ∧
      (s.costs.map CostRow.key).Nodup ∧
      ∀ earlier ∈ s.events, ∀ later ∈ s.events, earlier.seq ≤ later.seq →
        ∀ before after, earlier.payload.runTotals = some before →
          later.payload.runTotals = some after → before.1 ≤ after.1 ∧ before.2 ≤ after.2 := by
  obtain ⟨_, spent, saved, keys, _, _, ordered⟩ :=
    history.invariant (ledgered_invariant definitionLint env.lint .all) s reached
  exact ⟨spent, saved, keys, ordered⟩

/-! An attempt that is retried and one that succeeds are both charged; the second charge is replayed
and refused. -/

def ledgerEnvironment : Environment := ⟨Dag.quietPlanLint, fun _ _ => true⟩

def ledgerCharge (attempt : Nat) (costNanoUSD : Int) : Note :=
  .charge { stepID := "p", attempt, resource := "mock:sim-1", rate := "\x7b\x7d", costNanoUSD }

def ledgerRetried : RunStore :=
  act ledgerEnvironment (.fail "p" 7 { outcome := .transient } [ledgerCharge 1 250] (.retry 4)) 3
    (act ledgerEnvironment (.claim "p" 7 "worker") 2 plannedRun)

def ledgerSucceeded : RunStore :=
  act ledgerEnvironment
    (.succeed { stepID := "p", stepType := .planner, claimID := 8, notes := [ledgerCharge 2 400] }) 5
    (act ledgerEnvironment (.claim "p" 8 "worker") 4 ledgerRetried)

def ledgerReplayed : RunStore :=
  act ledgerEnvironment (.record "p" (ledgerCharge 2 400)) 6 ledgerSucceeded

theorem ledger_totals_exact_replayed :
    ledgerReplayed.run.spentNanoUSD = 650 ∧ (ledgerReplayed.costs.map CostRow.costNanoUSD).sum = 650 := by
  have retried : History Dag.quietDefinitionLint ledgerEnvironment [ledgerRetried, _, plannedRun] :=
    .acted (.acted (.created plannedRun_created) (by simp) trivial)
      (by simp) trivial
  have succeeded : History Dag.quietDefinitionLint ledgerEnvironment (ledgerSucceeded :: _) :=
    .acted (.acted retried (by simp) trivial) (by simp) trivial
  have replayed : History Dag.quietDefinitionLint ledgerEnvironment (ledgerReplayed :: _) :=
    .acted succeeded (by simp) trivial
  have spent : ledgerReplayed.run.spentNanoUSD = 650 := by decide +kernel
  have totals := ledger_totals_exact _ _ _ replayed ledgerReplayed List.mem_cons_self
  exact ⟨spent, totals.1 ▸ spent⟩

end Agentloom.Engine
