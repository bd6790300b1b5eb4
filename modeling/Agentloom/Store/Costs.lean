import Agentloom.Store.Transitions

/-! The cost ledger. A charge inserts one row and moves the totals of the run with it; the totals
after the charge are announced by an event. Money is in whole nano-dollars. -/

namespace Agentloom.Store

open Transaction

def entryAttempt : String := "attempt"

def judgeEntry (chainIndex : Nat) : String := "judge:" ++ toString chainIndex

def judgeErrorEntry : String := "judge:e"

def compactionEntry (index : Nat) : String := "compaction:" ++ toString index

theorem ne_compactionEntry (first : entry.toList.head? ≠ some 'c') (index : Nat) :
    entry ≠ compactionEntry index := by
  rintro rfl
  simp [compactionEntry, String.toList_append] at first

theorem entryAttempt_ne_compaction (index : Nat) : entryAttempt ≠ compactionEntry index :=
  ne_compactionEntry (by simp [entryAttempt]) index

def maxBigint : Int := 2 ^ 63 - 1

structure AttemptCost where
  stepID : String
  attempt : Nat
  entry : String := ""
  resource : String
  usage : Option Json := none
  rate : Json
  rateSource : String := ""
  cacheHit : Bool := false
  overhead : Bool := false
  costNanoUSD : Int := 0
  savedNanoUSD : Int := 0
  warning : Option Json := none
deriving DecidableEq, Repr

def AttemptCost.row (args : AttemptCost) (now : Time) : CostRow :=
  { stepID := args.stepID
    attempt := args.attempt
    entry := if args.entry = "" then entryAttempt else args.entry
    resource := args.resource
    usage := args.usage
    rate := args.rate
    rateSource := args.rateSource
    cacheHit := args.cacheHit
    overhead := args.overhead
    costNanoUSD := args.costNanoUSD
    savedNanoUSD := args.savedNanoUSD
    createdAt := now }

def CostRow.key (row : CostRow) : String × Nat × String := (row.stepID, row.attempt, row.entry)

structure CostApplied where
  runSpentNanoUSD : Int
  runSavedNanoUSD : Int
  budgetNanoUSD : Option Int
deriving DecidableEq, Repr

def insertCostLedgerEntry (op : String) (row : CostRow) : StoreTx Unit := fun s =>
  if row.costNanoUSD < 0 ∨ row.savedNanoUSD < 0 then (.error (.checkViolation op "cost_ledger"), s)
  else if s.costs.any fun other => other.key == row.key then
    (.error (.uniqueViolation op "cost_ledger"), s)
  else (.ok (), { s with costs := s.costs ++ [row] })

def addRunCost (op : String) (spent saved : Int) : StoreTx CostApplied := fun s =>
  let run := { s.run with
    spentNanoUSD := s.run.spentNanoUSD + spent
    savedNanoUSD := s.run.savedNanoUSD + saved }
  if run.spentNanoUSD > maxBigint then (.error (.outOfRange op "spent_nano_usd"), s)
  else if run.savedNanoUSD > maxBigint then (.error (.outOfRange op "saved_nano_usd"), s)
  else (.ok
    { runSpentNanoUSD := run.spentNanoUSD
      runSavedNanoUSD := run.savedNanoUSD
      budgetNanoUSD := run.budgetNanoUSD }, { s with run })

def CostRow.event (row : CostRow) (applied : CostApplied) : Event :=
  .costUpdated row.stepID row.attempt row.entry row.resource row.cacheHit row.overhead
    row.costNanoUSD row.savedNanoUSD applied.runSpentNanoUSD applied.runSavedNanoUSD
    applied.budgetNanoUSD

def warnUnknownModel (stepID : String) (warning : Option Json) : StoreTx Unit :=
  match warning with
  | some payload => appendEvent (.recorded "cost_unknown_model" stepID payload)
  | none => pure ()

def applyAttemptCost (args : AttemptCost) (now : Time) : StoreTx CostApplied := do
  requireNow "apply attempt cost" now
  requireArgument (args.resource ≠ "") "apply attempt cost" "empty Resource"
  requireArgument (args.rate ≠ "") "apply attempt cost" "empty Rate snapshot"
  let row := args.row now
  insertCostLedgerEntry "apply attempt cost: insert ledger row" row
  let applied ← addRunCost "apply attempt cost: bump run cost" row.costNanoUSD row.savedNanoUSD
  appendEvent (row.event applied)
  warnUnknownModel row.stepID args.warning
  pure applied

def RunStore.charge (s : RunStore) (row : CostRow) : RunStore :=
  RunStore.record
    { s with
      costs := s.costs ++ [row]
      run := { s.run with
        spentNanoUSD := s.run.spentNanoUSD + row.costNanoUSD
        savedNanoUSD := s.run.savedNanoUSD + row.savedNanoUSD } }
    (row.event
      { runSpentNanoUSD := s.run.spentNanoUSD + row.costNanoUSD
        runSavedNanoUSD := s.run.savedNanoUSD + row.savedNanoUSD
        budgetNanoUSD := s.run.budgetNanoUSD })

theorem insertCostLedgerEntry_ok (ok : insertCostLedgerEntry op row s = (.ok u, s')) :
    (0 ≤ row.costNanoUSD ∧ 0 ≤ row.savedNanoUSD) ∧ (∀ other ∈ s.costs, other.key ≠ row.key) ∧
      s' = { s with costs := s.costs ++ [row] } := by
  unfold insertCostLedgerEntry at ok
  split_ifs at ok with negative known
  · cases ok
  · cases ok
  · cases ok
    refine ⟨by omega, ?_, rfl⟩
    simpa using known

theorem addRunCost_ok
    (ok : addRunCost op spent saved s = (.ok applied, s')) :
    applied = { runSpentNanoUSD := s.run.spentNanoUSD + spent
                runSavedNanoUSD := s.run.savedNanoUSD + saved
                budgetNanoUSD := s.run.budgetNanoUSD } ∧
      s' = { s with run := { s.run with
        spentNanoUSD := s.run.spentNanoUSD + spent
        savedNanoUSD := s.run.savedNanoUSD + saved } } := by
  unfold addRunCost at ok
  dsimp only at ok
  split_ifs at ok
  · cases ok
  · cases ok
  · cases ok
    exact ⟨rfl, rfl⟩

end Agentloom.Store
