import Mathlib.Data.List.Sort
import Agentloom.Library.Kahn
import Agentloom.Dag.Graph

/-! The reference rules for readiness and skip propagation. The rules are stated for any verdict on
the out-edges of completed steps; `readySteps` is the case in which all of them fire. -/

namespace Agentloom.Dag

def joinMode (step : Step) : Option JoinMode :=
  if step.type ≠ .join then none
  else match step.config with
    | .join mode => some mode
    | _ => none

namespace Graph

variable (graph : Graph)

def topoOrder : List Nat × Bool :=
  let order := Kahn.order (List.range graph.size) graph.outNormal graph.toIdx
    fun v => (graph.inNormal v).length
  (order, order.length == graph.size)

end Graph

inductive StepState where
  | pending
  | completed
  | skipped
  | failed
deriving DecidableEq, Repr

inductive EdgeResolution where
  | unresolved
  | fired
  | skipped
deriving DecidableEq, Repr

abbrev States := Nat → StepState

def States.set (states : States) (position : Nat) (state : StepState) : States :=
  fun other => if other = position then state else states other

structure Assigning where
  states : States := fun _ => .pending
  unknown : List String := []
  overlap : List String := []

namespace Graph

variable (graph : Graph)

def assign (state : StepState) (acc : Assigning) (id : String) : Assigning :=
  match stepIndex graph.definition.steps id with
  | none => { acc with unknown := acc.unknown ++ [id] }
  | some position =>
    if acc.states position ≠ .pending then { acc with overlap := acc.overlap ++ [id] }
    else { acc with states := acc.states.set position state }

def quoteList (ids : List String) : String :=
  "[" ++ String.intercalate " " ((ids.insertionSort (· ≤ ·)).map quote) ++ "]"

def inputStates (completed skipped failed : List String) : Except String States :=
  let acc := completed.foldl (graph.assign .completed) {}
  let acc := skipped.foldl (graph.assign .skipped) acc
  let acc := failed.foldl (graph.assign .failed) acc
  if acc.unknown = [] ∧ acc.overlap = [] then .ok acc.states
  else
    let unknown := if acc.unknown = [] then [] else ["unknown steps " ++ quoteList acc.unknown]
    let overlap :=
      if acc.overlap = [] then []
      else ["steps in more than one set " ++ quoteList acc.overlap]
    .error ("dag: ReadySteps: " ++ String.intercalate "; " (unknown ++ overlap))

variable (fires : Nat → Bool)

def resolve (states : States) (edge : Nat) : EdgeResolution :=
  match states (graph.fromIdx edge) with
  | .completed => if fires edge then .fired else .skipped
  | .skipped => .skipped
  | _ => .unresolved

def skipsNow (states : States) (step : Nat) : Bool :=
  states step == .pending && !(graph.inNormal step).isEmpty &&
    (graph.inNormal step).all fun edge => graph.resolve fires states edge == .skipped

def propagate (acc : States × List Nat) (step : Nat) : States × List Nat :=
  if graph.skipsNow fires acc.1 step then (acc.1.set step .skipped, acc.2 ++ [step]) else acc

def readyNow (states : States) (position : Nat) (step : Step) : Bool :=
  let edges := graph.inNormal position
  let anyFired := edges.any fun edge => graph.resolve fires states edge == .fired
  let allResolved := edges.all fun edge => graph.resolve fires states edge != .unresolved
  states position == .pending &&
    (edges.isEmpty || (anyFired && (joinMode step == some .any || allResolved)))

def readyStepsWith (completed skipped failed : List String) :
    Except String (List String × List String) := do
  let states ← graph.inputStates completed skipped failed
  let (order, complete) := graph.topoOrder
  if !complete then
    .error "dag: ReadySteps: the normal-edge graph has a cycle (run Validate for the offending edges)"
  else
    let (states, newlySkipped) := order.foldl (graph.propagate fires) (states, [])
    let ready := graph.definition.steps.zipIdx.filter fun entry =>
      graph.readyNow fires states entry.2 entry.1
    .ok (ready.map fun entry => entry.1.id,
      (newlySkipped.insertionSort (· ≤ ·)).map graph.stepID)

def readySteps (completed skipped failed : List String) :
    Except String (List String × List String) :=
  graph.readyStepsWith (fun _ => true) completed skipped failed

end Graph

end Agentloom.Dag
