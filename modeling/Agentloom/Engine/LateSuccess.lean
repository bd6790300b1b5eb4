import Agentloom.Engine.Charges

/-! Steps that are still in flight when another branch fails the run. Their successes are accepted,
but an expansion is not: it rolls the whole completion back, and since the run is not running any
more, the delivery that comes back is dropped. -/

namespace Agentloom.Engine

open Transaction Store List Tx

inductive ClaimAction where
  | redeliver
  | ackDrop
  | takeover (holderClaim : ClaimID)
deriving DecidableEq, Repr

def classifyStatus (status : StepStatus) (deliveryCount : Nat) (currentClaimID : Option ClaimID) :
    ClaimAction :=
  match status with
  | .running =>
    if deliveryCount ≤ 1 then .ackDrop
    else match currentClaimID with
      | some holder => .takeover holder
      | none => .redeliver
  | .pending => .redeliver
  | .ready => .redeliver
  | _ => .ackDrop

def classifyClaimFailure (e : StoreError) (deliveryCount : Nat) : ClaimAction :=
  match e with
  | .runNotRunning .. => .ackDrop
  | .stepConflict _ _ source _ reason _ currentClaimID =>
    if reason = .wrongStatus then classifyStatus source deliveryCount currentClaimID
    else .redeliver
  | .notFound .. => .ackDrop
  | _ => .redeliver

theorem claim_dropped (stopped : s.run.status ≠ .running)
    (timed : now ≠ 0) (stepID workerID : String) (claimID : ClaimID) (deliveryCount : Nat) :
    ∃ e, claimStep stepID claimID workerID now s = (.error e, s) ∧
      classifyClaimFailure e deliveryCount = .ackDrop := by
  unfold claimStep requireNow
  rw [if_neg timed, bind_of_ok (by rfl), bind_of_ok (show lockRun s = _ from rfl),
    if_pos stopped]
  cases found : findStep s stepID with
  | none =>
    refine ⟨.notFound "claim step" stepID, bind_of_error ?_, rfl⟩
    rw [getRunStep_apply, found]
  | some row =>
    refine ⟨.runNotRunning "claim step" stepID s.run.status row.claimID, ?_, rfl⟩
    exact bind_of_ok (by rw [getRunStep_apply, found])

structure Credited (args : Success) (now : Time) (s : RunStore) : Prop where
  settled : ∃ row ∈ s.steps, row.stepID = args.stepID ∧ row.status = .succeeded ∧
    row.output = some args.completion.output
  charged : ∀ charge ∈ chargesOf args.notes, charge.row now ∈ s.costs

structure Acceptable (args : Success) (s : RunStore) : Prop where
  completion : args.completion.taken args.columns = true
  notes : ∀ note ∈ args.notes ++ args.loopNotes, note.taken args.columns = true
  edges : ∃ verdicts, planEdges args.stepType args.evaluator (listEdgesFromStep args.stepID s) =
    .ok verdicts
  charges : Affordable (chargesOf args.notes) s.run.spentNanoUSD s.run.savedNanoUSD

theorem listEdgesFromStep_eq (edges : s'.edges = s.edges) (stepID : String) :
    listEdgesFromStep stepID s' = listEdgesFromStep stepID s := by
  unfold listEdgesFromStep listRunEdges
  rw [edges]

section Late

variable {lint : Dag.PlanLint} {args : Success} {now : Time} {s : RunStore}

theorem acceptable_of_commits (failed : s.run.status = .failed)
    (ok : completeSuccess lint args now s = (.ok u, s')) :
    args.expansion = none ∧ Acceptable args s := by
  obtain ⟨_, _, settled, _⟩ := bind_ok ok
  have rest := lockRunStatus_bind_ok settled
  obtain ⟨_, _, succeeded, rest₁⟩ := bind_ok rest
  obtain ⟨_, _, noted, sourced⟩ := bind_ok rest₁
  obtain ⟨_, _, accepted, _⟩ := bind_ok succeeded
  have taken := (requireArgument_ok accepted).1
  have ran := requireArgument_bind_ok succeeded
  obtain ⟨_, spent, saved⟩ := run_books ran
  obtain ⟨_, _, _, _, shifted⟩ := shifted_of_run ran (succeed_moves _ _ _ _)
  have beside := (recordNotes_beside args.stepID args.notes).of_ok noted
  have affordable := (recordNotes_charges noted).1
  rw [spent, saved] at affordable
  unfold sourceOfSuccess at sourced
  rw [if_neg (by rw [failed]; decide)] at sourced
  obtain ⟨_, _, grown, sourced₁⟩ := bind_ok sourced
  obtain ⟨_, s₅, looped, sourced₂⟩ := bind_ok sourced₁
  obtain ⟨_, _, planned, _⟩ := bind_ok sourced₂
  cases expansion : args.expansion with
  | some plan =>
    rw [expansion] at grown
    obtain ⟨_, expanded⟩ := void_ok grown
    obtain ⟨_, fits, _⟩ := expandRun_grows expanded
    have live := fits.live
    simp [RunRow.live, beside.status, shifted.status, failed] at live
  | none =>
    rw [expansion] at grown
    cases grown
    have edges : s₅.edges = s.edges := by
      rw [((recordNotes_beside args.stepID args.loopNotes).of_ok looped).edges, beside.edges,
        shifted.edges]
    refine ⟨rfl, taken, forall_mem_append.mpr ⟨recordNotes_taken noted, recordNotes_taken looped⟩, ?_,
      affordable⟩
    unfold terminalSource at planned
    rw [bind_apply, read_apply, listEdgesFromStep_eq edges] at planned
    cases plans : planEdges args.stepType args.evaluator (listEdgesFromStep args.stepID s) with
    | ok verdicts => exact ⟨verdicts, rfl⟩
    | error msg =>
      simp only [plans] at planned
      cases planned

theorem terminalSource_yields
    (plans : planEdges stepType evaluator (listEdgesFromStep stepID s) = .ok verdicts) :
    Tx.Yields (terminalSource stepID stepType evaluator select) s fun _ s' => s' = s := by
  refine Tx.Yields.bind_read ?_
  rw [plans]
  exact .pure rfl

theorem lockRunStatus_yields (timed : now ≠ 0) :
    Tx.Yields (lockRunStatus now) s fun status s' => status = s.run.status ∧ s' = s := by
  refine (requireNow_yields timed _).bind fun _ s₁ same => ?_
  subst same
  exact Tx.Yields.bind_read (.pure ⟨rfl, rfl⟩)

section Held

variable {held : StepRow} (member : held ∈ s.steps) (named : held.stepID = args.stepID)
  (holds : heldBy args.claimID held = true) (timed : now ≠ 0)
  (acceptable : Acceptable args s) (unbooked : Unbooked (chargesOf args.notes) now s)
  (loops : chargesOf args.loopNotes = []) (plain : args.expansion = none)

include member named holds timed acceptable unbooked loops plain

theorem settleSuccess_yields (fit : AttemptsFit s) (unique : UniqueSteps s)
    (live : s.run.status ≠ .cancelling) : Tx.Yields (settleSuccess lint args now) s fun _ s' =>
      Stands ((succeed args.stepID args.claimID args.completion now).set held) s' := by
  have isOpen : held.status.isOpen = true := by
    rw [heldBy_running held holds]
    rfl
  refine (lockRunStatus_yields timed).bind fun status s₀ locked => ?_
  obtain ⟨rfl, rfl⟩ := locked
  have succeeds : Tx.Yields
      (succeedStep args.stepID args.claimID args.completion now args.columns) s₀ fun _ s₁ =>
        Lands (succeed args.stepID args.claimID args.completion now) held s₀ s₁ ∧
          s₁.run.spentNanoUSD = s₀.run.spentNanoUSD ∧ s₁.run.savedNanoUSD = s₀.run.savedNanoUSD := by
    refine (requireArgument_yields acceptable.completion).bind fun _ _ same => ?_
    subst same
    obtain ⟨new, s₁, ok, _, closes⟩ := StepTransition.run_yields (succeed_moves _ _ _ _) timed fit
      unique member named holds isOpen
    exact ⟨new, s₁, ok, closes, (run_books ok).2⟩
  refine succeeds.bind fun _ s₁ ⟨closes, spent, saved⟩ => ?_
  have affordable := acceptable.charges
  rw [← spent, ← saved] at affordable
  have unbooked₁ : Unbooked (chargesOf args.notes) now s₁ :=
    ⟨by rw [closes.costs]; exact unbooked.fresh, unbooked.distinct⟩
  obtain ⟨taken, loopsTaken⟩ := forall_mem_append.mp acceptable.notes
  refine (recordNotes_yields timed taken affordable unbooked₁).bind fun _ s₂ ⟨beside, _⟩ => ?_
  unfold sourceOfSuccess expandOrigin
  rw [if_neg live, plain]
  have unexpanded : Tx.Yields (pure () : StoreTx Unit) s₂ fun _ s₃ => s₃ = s₂ := .pure rfl
  refine unexpanded.bind fun _ s₃ same => ?_
  subst same
  have silent : Unbooked (chargesOf args.loopNotes) now s₃ := by
    rw [loops]
    exact ⟨nofun, nodup_nil⟩
  refine (recordNotes_yields timed loopsTaken (by rw [loops]; trivial) silent).bind
    fun _ s₄ ⟨looped, _⟩ => ?_
  have edges : s₄.edges = s₀.edges := by
    rw [looped.edges, beside.edges, closes.shifted.edges]
  obtain ⟨_, plans⟩ := acceptable.edges
  rw [← listEdgesFromStep_eq edges] at plans
  refine (terminalSource_yields plans).bind fun source s₅ same => ?_
  subst same
  refine .pure ?_
  have stands : Stands ((succeed args.stepID args.claimID args.completion now).set held) s₁ :=
    ⟨_, closes.shifted.replaced.new_mem, rfl, rfl, rfl⟩
  exact (stands.of_steps beside.steps).of_steps looped.steps

theorem completeSuccess_yields (fit : AttemptsFit s) (unique : UniqueSteps s)
    (wired : Wired s) (unspent : Unspent s) (live : s.run.status ≠ .cancelling) :
    Tx.Yields (completeSuccess lint args now) s fun _ s' => Credited args now s' := by
  have settling : Tx.Yields (settleSuccess lint args now) s _ := settleSuccess_yields member named
    holds timed acceptable unbooked loops plain fit unique live
  obtain ⟨_, t, settled, stands⟩ := settling
  obtain ⟨_, _, _, _, rfl, settles⟩ := settleSuccess_ok live settled
  have reaches : Reaches lint .all s t := (settleSuccess_sound trivial trivial args fun _ _ =>
    trivial).of_ok settled
  have paying := settles.paying unique unspent (uniqueSteps_of_chain (reaches unique) unique)
    (wired_of_reaches reaches unique wired)
  obtain ⟨u, s', routed, routes⟩ := paying.routeAndRollup_yields timed (by nofun) stands
  have ok : completeSuccess lint args now s = (.ok u, s') := (bind_of_ok settled).trans routed
  refine ⟨u, s', ok, ?_, fun charge listed => ?_⟩
  · obtain ⟨row, inside, isNamed, status, output⟩ := routes.stands
    exact ⟨row, inside, isNamed.trans named, status, output⟩
  · obtain ⟨_, _, _, booked⟩ := completeSuccess_booked loops ok
    rw [booked.costs unique]
    exact mem_append_right _ (mem_map_of_mem listed)

end Held

end Late

/-- In every history whose charges belong to their attempts, the success of a step that is in flight
when the run has failed is committed exactly when it expands nothing, the columns take its texts, the
predicates on its out-edges evaluate and the ledger can take its charges. -/
theorem late_success_iff (definitionLint : Dag.DefinitionLint) (env : Environment) (s : RunStore)
    (past : List RunStore) (history : PricedHistory definitionLint env (s :: past))
    (failed : s.run.status = .failed) (args : Success) (held : StepRow) (member : held ∈ s.steps)
    (named : held.stepID = args.stepID) (holds : heldBy args.claimID held = true) (now : Time)
    (timed : now ≠ 0) (priced : (Action.succeed args).Priced now s) :
    Credited args now (act env (.succeed args) now s) ↔
      args.expansion = none ∧ Acceptable args s := by
  have reached : s ∈ s :: past := mem_cons_self
  obtain ⟨unique, wired⟩ := history.invariant (wired_invariant definitionLint env.lint .all) s reached
  have fit := (history.invariant (attemptsFit_invariant definitionLint env.lint .all) s reached).2
  have running := heldBy_running held holds
  constructor
  · intro credited
    cases outcome : completeSuccess env.lint args now s with
    | mk result s' =>
      cases result with
      | ok u => exact acceptable_of_commits failed outcome
      | error e =>
        -- the rolled back completion leaves the step running
        have unchanged : act env (.succeed args) now s = s := by
          change ((completeSuccess env.lint args now).commit s).2 = s
          rw [commit, outcome]
        obtain ⟨_, inside, isNamed, status, _⟩ := credited.settled
        rw [unchanged] at inside
        simp [Table.eq_of_key unique inside member (isNamed.trans named.symm), running] at status
  · rintro ⟨plain, acceptable⟩
    have unspent := HistoryOf.unspent history s reached (by rw [failed]; rfl)
    have unbooked := PricedHistory.unbooked history reached member (by rw [running]; rfl)
      (priced.2 held member named holds)
    obtain ⟨u, _, ok, credited⟩ := completeSuccess_yields member named holds timed acceptable unbooked
      priced.1 plain fit unique wired unspent (by rw [failed]; decide)
    change Credited args now ((completeSuccess env.lint args now).commit s).2
    rw [commit_of_ok ok]
    exact credited

/-! Two branches: the tool fails the run while the planner beside it is in flight. -/

def branchesDefinition : Dag.Definition :=
  { steps := [{ id := "t", type := .noop }, { id := "p", type := .planner }], edges := [] }

def branchesRun : RunStore := opened branchesDefinition ["t", "p"]

theorem branchesRun_created : Created Dag.quietDefinitionLint branchesDefinition branchesRun :=
  ⟨"", none, 1, rfl⟩

def branchesClaimed : RunStore :=
  act retryEnvironment (.claim "p" 2 "worker") 3
    (act retryEnvironment (.claim "t" 1 "worker") 2 branchesRun)

def branchesFailed : RunStore :=
  act retryEnvironment (.fail "t" 1 { outcome := .permanent } [] (.bury false)) 4 branchesClaimed

theorem branchesFailed_history : ∃ past,
    PricedHistory Dag.quietDefinitionLint retryEnvironment (branchesFailed :: past) :=
  ⟨_, .acted (.acted (.acted (.created branchesRun_created) (by simp) ⟨trivial, nofun⟩)
    (by simp) ⟨trivial, nofun⟩) (by simp)
      ⟨trivial, fun _ _ _ _ => ⟨nofun, nofun, nodup_nil⟩⟩⟩

def plannerCharge : AttemptCost :=
  { stepID := "p", attempt := 1, resource := "mock:m", rate := "\x7b\x7d", costNanoUSD := 5 }

def plannerSuccess (expansion : Option Expansion) : Success :=
  { stepID := "p", stepType := .planner, claimID := 2, notes := [.charge plannerCharge], expansion }

theorem plannerSuccess_priced (expansion : Option Expansion) (now : Time) :
    (Action.succeed (plannerSuccess expansion)).Priced now branchesFailed := by
  refine ⟨rfl, fun held mem named holds => ⟨?_, ?_, nodup_singleton _⟩⟩
  · intro charge listed
    obtain rfl := mem_singleton.mp listed
    have single : ∀ row ∈ branchesFailed.steps, row.stepID = "p" → row.attemptCount = 1 := by
      decide +kernel
    exact ⟨named.symm, (single held mem named).symm⟩
  · rintro charge listed ⟨index, entry⟩
    obtain rfl := mem_singleton.mp listed
    exact entryAttempt_ne_compaction index entry

theorem planner_credited : Credited (plannerSuccess none) 5
    (act retryEnvironment (.succeed (plannerSuccess none)) 5 branchesFailed) := by
  obtain ⟨past, history⟩ := branchesFailed_history
  refine (late_success_iff _ _ _ past history (by decide +kernel) (plannerSuccess none)
    (rowOf branchesFailed "p") (by decide +kernel) (by decide +kernel) (by decide +kernel) 5
    (by decide) (plannerSuccess_priced none 5)).mpr ⟨rfl, rfl, by decide, ⟨[], ?_⟩, ?_⟩
  · decide +kernel
  · exact ⟨by decide, by decide +kernel, by decide +kernel, trivial⟩

def lateExpansion : Expansion :=
  ⟨.planner, { schemaVersion := 1, steps := [{ id := "n", type := .noop }], edges := [] }, 0, none⟩

/-- The plan rolls the completion back: the planner stays running, nothing is charged, and whatever
is delivered of the run from then on is dropped. -/
theorem late_planner_uncredited :
    (∃ past, PricedHistory Dag.quietDefinitionLint retryEnvironment (branchesFailed :: past)) ∧
      branchesFailed.run.status = .failed ∧ heldBy 2 (rowOf branchesFailed "p") = true ∧
      act retryEnvironment (.succeed (plannerSuccess (some lateExpansion))) 5 branchesFailed =
        branchesFailed ∧ ¬Credited (plannerSuccess (some lateExpansion)) 5
        (act retryEnvironment (.succeed (plannerSuccess (some lateExpansion))) 5 branchesFailed) ∧
      ∀ claimID deliveryCount, ∃ e, claimStep "p" claimID "worker" 6 branchesFailed =
        (.error e, branchesFailed) ∧ classifyClaimFailure e deliveryCount = .ackDrop := by
  have unchanged : act retryEnvironment (.succeed (plannerSuccess (some lateExpansion))) 5
      branchesFailed = branchesFailed := by decide +kernel
  refine ⟨branchesFailed_history, by decide +kernel, by decide +kernel, unchanged, ?_, ?_⟩
  · intro credited
    obtain ⟨row, inside, named, status, _⟩ := credited.settled
    have running : ∀ row ∈ branchesFailed.steps, row.stepID = "p" → row.status = .running := by
      decide +kernel
    simp [running row inside named] at status
  · exact fun claimID deliveryCount =>
      claim_dropped (by decide +kernel) (by decide) "p" "worker" claimID deliveryCount

end Agentloom.Engine
