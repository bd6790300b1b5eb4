import Agentloom.Store.Instantiate

/-! Expansion of a running graph: the plan is revalidated against the rows under the run lock, its
steps and edges are inserted, and the pending steps it splices before gain dependencies. -/

namespace Agentloom.Store

open Transaction

structure ExpandRun where
  kind : Dag.ExpansionOriginKind
  originStep : String
  plan : Dag.PlanOutput
  maxAddedSteps : Int := 0
  depthOverride : Option Int := none
deriving DecidableEq, Repr

structure ExpandRunResult where
  graphVersion : Int
  readied : List String
  widened : List String

def listRunSteps (s : RunStore) : List StepRow :=
  s.steps.insertionSort fun a b => a.stepID ≤ b.stepID

def listRunEdges (s : RunStore) : List EdgeRow :=
  s.edges.insertionSort fun a b => a.ordinal ≤ b.ordinal

def anchorStatus : StepStatus → Dag.ExpansionAnchorStatus
  | .pending => .pending
  | .ready => .active
  | .running => .active
  | .retrying => .active
  | _ => .terminal

/-- The origin counts as active: its completion has not yet resolved its out-edges. -/
def buildAnchors (steps : List StepRow) (originStepID : String) :
    List (String × Dag.ExpansionAnchor) :=
  steps.map fun row =>
    (row.stepID,
      { type := row.stepType
        status := if row.stepID = originStepID then .active else anchorStatus row.status
        succeeded := row.status == .succeeded })

def toDagEdge (row : EdgeRow) : Dag.Edge :=
  { fromStep := row.fromStep
    toStep := row.toStep
    type := row.edgeType
    when := row.whenExpr
    condition := row.condition
    maxIterations := row.maxIterations }

namespace ExpandRun

variable (args : ExpandRun)

def deltaIDs : List String := args.plan.steps.map Dag.Step.id

def perExpansionCap (caps : Dag.ExpansionCaps) : Int :=
  if args.maxAddedSteps > 0 ∧ args.maxAddedSteps < caps.maxAddedStepsPerExpansion then
    args.maxAddedSteps
  else caps.maxAddedStepsPerExpansion

def baseDepth (origin : StepRow) : Int := args.depthOverride.getD origin.depth

def input (origin : StepRow) (s : RunStore) : Dag.ExpansionInput :=
  { plan := args.plan
    origin := { kind := args.kind, stepID := args.originStep, depth := args.baseDepth origin }
    existing := buildAnchors (listRunSteps s) args.originStep
    existingEdges := (listRunEdges s).map toDagEdge
    runParams := s.run.params
    perExpansionCap := args.perExpansionCap s.run.expansionCaps
    caps := s.run.expansionCaps
    currentStepCount := s.steps.length
    expansionsSoFar := s.run.graphVersion - 1 }

def newSteps (version : Int) (origin : StepRow) (now : Time) : List StepRow :=
  args.plan.steps.map fun step =>
    stepRowParams step
      { status := if inDegree args.plan.edges step.id = 0 then .ready else .pending
        remainingDeps := inDegree args.plan.edges step.id
        graphVersion := version
        depth := args.baseDepth origin + 1
        originStep := some args.originStep
        originKind := some args.kind } now

def readied : List String := args.deltaIDs.filter fun id => inDegree args.plan.edges id = 0

def newEdges (version : Int) (first : Nat) : List EdgeRow :=
  args.plan.edges.zipIdx.map fun (edge, position) =>
    edgeRowParams edge (first + position) version (some args.originStep) (some args.kind)

def widened : List String :=
  (((args.plan.edges.filter fun edge => !edge.isLoop && !args.deltaIDs.contains edge.toStep).map
    Dag.Edge.toStep).dedup).insertionSort (· ≤ ·)

end ExpandRun

def createStepBatch (rows : List StepRow) : StoreTx Unit := fun s =>
  if ((s.steps ++ rows).map StepRow.stepID).Nodup then
    (.ok (), { s with steps := s.steps ++ rows })
  else (.error (.uniqueViolation "expand run: insert steps" "run_steps"), s)

def createEdgeBatch (rows : List EdgeRow) : StoreTx Unit := fun s =>
  if ((s.edges ++ rows).map EdgeRow.ordinal).Nodup then
    (.ok (), { s with edges := s.edges ++ rows })
  else (.error (.uniqueViolation "expand run: insert edges" "run_edges"), s)

def nextOrdinal (s : RunStore) : Nat := (s.edges.map fun row => row.ordinal + 1).foldl max 0

def widen (count : Nat) (now : Time) (row : StepRow) : StepRow :=
  { row with remainingDeps := row.remainingDeps + count, updatedAt := now }

def addRunStepRemainingDeps (stepID : String) (count : Nat) (now : Time) : StoreTx Unit := do
  match ← updateRunStep stepID (fun row => row.status == .pending) (widen count now) with
  | some _ => pure ()
  | none => Tx.throw (.corrupted "expand run"
      "widen anchor: not pending — graph bookkeeping corrupted (validated pending under this lock)")

def expandRunGraph (expected : Int) (added : Nat) : StoreTx RunRow := do
  match ← updateRun (fun row => row.graphVersion == expected)
      (fun row => { row with
        graphVersion := row.graphVersion + 1
        stepsTotal := row.stepsTotal + added }) with
  | some row => pure row
  | none => Tx.throw (.corrupted "expand run" "graph_version moved under the run lock")

def splice (args : ExpandRun) (run : RunRow) (origin : StepRow) (now : Time) : StoreTx RunRow := do
  createStepBatch (args.newSteps (run.graphVersion + 1) origin now)
  let first ← Tx.read nextOrdinal
  createEdgeBatch (args.newEdges (run.graphVersion + 1) first)
  Tx.forEach args.widened fun id =>
    addRunStepRemainingDeps id (inDegree args.plan.edges id) now
  expandRunGraph run.graphVersion args.plan.steps.length

def expandRun (lint : Dag.PlanLint) (args : ExpandRun) (now : Time) : StoreTx ExpandRunResult := do
  requireNow "expand run" now
  requireArgument (args.originStep ≠ "") "expand run" "empty origin step id"
  let run ← lockRun
  if run.status ≠ .running ∧ run.status ≠ .parked then
    Tx.throw (.runConflict "expand run" run.status run.status .runNotRunning)
  else
    let origin ← getRunStep "expand run" args.originStep
    let input ← Tx.read (args.input origin)
    let verdict := Dag.validateExpansion lint input
    if !verdict.ok then Tx.throw (.expansionRejected verdict)
    else
      let bumped ← splice args run origin now
      appendEvent (.graphExpanded args.originStep args.kind run.graphVersion bumped.graphVersion
        (args.baseDepth origin + 1) args.plan args.readied args.widened)
      Tx.forEach args.readied fun id => appendEvent (.stepReady id)
      Tx.forEach args.readied fun id => createOutbox id .stepReady
      pure { graphVersion := bumped.graphVersion, readied := args.readied, widened := args.widened }

end Agentloom.Store
