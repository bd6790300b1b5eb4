import Agentloom.Engine.Commits
import Agentloom.Engine.Gates

/-! Decisions that commit. The predicates of all out-edges of a gate are evaluated before those that
the decision rules out are dropped, so a decision that does not bury its step and whose texts can be
stored commits exactly when none of them fails. -/

namespace Agentloom.Engine

open Transaction Store Relation List Tx

variable {approval : ApprovalRow} {gate : StepRow} {s : RunStore} {now : Time} {args : Decision}
  {predicate : EdgeRow → Except String Bool}

variable {edges : List EdgeRow} {edge : EdgeRow}

section Verdicts

variable (predicate : EdgeRow → Except String Bool)

def evaluates (edge : EdgeRow) : Bool := (edgeFires false false predicate edge).isOk

def fires (edge : EdgeRow) : Bool :=
  match edgeFires false false predicate edge with
  | .ok fired => fired
  | .error _ => false

theorem planVerdicts_of_evaluates
    (clean : ∀ edge ∈ edges, edge.edgeType = .normal → evaluates predicate edge = true) :
    planVerdicts false predicate false edges =
      .ok ((edges.filter fun edge => edge.edgeType == .normal).map fun edge =>
        { ordinal := edge.ordinal, fired := fires predicate edge }) := by
  induction edges with
  | nil => rfl
  | cons edge rest ih =>
    have later := ih fun other mem => clean other (mem_cons_of_mem _ mem)
    unfold planVerdicts
    by_cases normal : edge.edgeType = .normal
    · have first := clean edge mem_cons_self normal
      cases outcome : edgeFires false false predicate edge with
      | error msg => simp [evaluates, outcome, Except.isOk, Except.toBool] at first
      | ok fired =>
        simp [bind, Except.bind, outcome, later, normal, fires]
    · rw [if_pos normal, later]
      simp [normal]

theorem planVerdicts_of_fails (mem : edge ∈ edges) (normal : edge.edgeType = .normal)
    (fails : evaluates predicate edge = false) :
    ∃ msg, planVerdicts false predicate false edges = .error msg := by
  induction edges with
  | nil => cases mem
  | cons first rest ih =>
    unfold planVerdicts
    by_cases isNormal : first.edgeType = .normal
    · rw [if_neg (by simp [isNormal])]
      cases outcome : edgeFires false false predicate first with
      | error msg => exact ⟨msg, rfl⟩
      | ok fired =>
        rcases mem_cons.mp mem with rfl | later
        · simp [evaluates, outcome, Except.isOk, Except.toBool] at fails
        · obtain ⟨msg, failed⟩ := ih later
          refine ⟨msg, ?_⟩
          simp [bind, Except.bind, failed]
    · rw [if_pos isNormal]
      rcases mem_cons.mp mem with rfl | later
      · exact absurd normal isNormal
      · exact ih later

end Verdicts

def Evaluable (predicate : EdgeRow → Except String Bool) (stepID : String) (s : RunStore) : Prop :=
  ∀ edge ∈ s.edges, edge.fromStep = stepID → edge.edgeType = .normal →
    evaluates predicate edge = true

/-- The columns take the texts of a decision: those of the approval row, and the error or the output
of the step. -/
structure Decision.Taken (args : Decision) (gate : StepRow) : Prop where
  comment : args.columns.text args.request.comment = true
  decidedBy : args.columns.text args.request.decidedBy = true
  edited : args.request.editedPayload.all args.columns.json = true
  settled : args.columns.json (if args.request.buries gate then rejectionError args.request.comment
    else args.output) = true

/-- The approval has the decision, and the step is settled by it: it is buried where a rejection
buries it or where a predicate on an edge that the decision takes does not evaluate, and succeeds
with its edges routed otherwise. -/
structure Decided (args : Decision) (predicate : EdgeRow → Except String Bool) (gate : StepRow)
    (s s' : RunStore) : Prop where
  cast : ∃ a ∈ s'.approvals, a.id = args.approvalID ∧ a.status = args.request.status
  buried : (args.request.buries gate = true ∨ ∃ edge ∈ s.edges, edge.fromStep = gate.stepID ∧
      edge.edgeType = .normal ∧ edgeMatchesDecision args.request.decision edge = true ∧
      evaluates predicate edge = false) →
    ∃ row ∈ s'.steps, row.stepID = gate.stepID ∧ row.status = .deadLettered
  settled : args.request.buries gate = false →
    (∀ edge ∈ s.edges, edge.fromStep = gate.stepID → edge.edgeType = .normal →
      edgeMatchesDecision args.request.decision edge = true → evaluates predicate edge = true) →
    (∃ row ∈ s'.steps, row.stepID = gate.stepID ∧ row.status = .succeeded ∧
        row.output = some args.output) ∧
      ∀ edge ∈ s.edges, edge.fromStep = gate.stepID → edge.edgeType = .normal →
        ∃ edge' ∈ s'.edges, edge'.ordinal = edge.ordinal ∧ edge'.resolution =
          resolutionOf (edgeMatchesDecision args.request.decision edge && fires predicate edge)

structure AtGate (gate : StepRow) (s : RunStore) : Prop where
  unique : UniqueSteps s
  wired : Wired s
  fit : AttemptsFit s
  unspent : Unspent s
  member : gate ∈ s.steps
  waits : gate.status = .awaitingHuman
  isGate : gate.stepType = .humanApproval

structure Waiting (approval : ApprovalRow) (gate : StepRow) (s : RunStore) : Prop
    extends AtGate gate s where
  approvals : UniqueApprovals s
  live : s.run.live = true
  inside : approval ∈ s.approvals
  pending : approval.isPending = true
  named : gate.stepID = approval.stepID

section Waiting

variable {lint : Dag.PlanLint}

theorem decided_status (request : DecideRequest) : request.status.isDecision = true := by
  unfold DecideRequest.status
  cases request.source <;> cases request.decision <;> rfl

theorem Waiting.decideApproval_yields (waiting : Waiting approval gate s) (timed : now ≠ 0)
    {cast} (id : cast.id = approval.id) (decides : cast.status.isDecision = true)
    (taken : cast.taken columns = true) :
    Tx.Yields (decideApproval cast now columns) s fun _ s' => ∃ approvals,
      Table.Replaced s.approvals approvals approval (cast.set now approval) ∧
        s' = RunStore.record { s with approvals } cast.event := by
  refine .of_total (fun e s' failed => ?_) fun row s' ok => ?_
  · rcases bind_error failed with early | ⟨_, _, checked, failed₁⟩
    · simp [requireNow, timed] at early
    obtain ⟨_, rfl⟩ := requireNow_ok checked
    rcases bind_error failed₁ with early | ⟨_, _, argued, failed₂⟩
    · simp [requireArgument, decides] at early
    obtain ⟨_, rfl⟩ := requireArgument_ok argued
    rcases bind_error failed₂ with early | ⟨_, _, accepted, failed₃⟩
    · simp [requireTaken, requireArgument, taken] at early
    obtain ⟨_, rfl⟩ := requireArgument_ok accepted
    rcases bind_error failed₃ with early | ⟨written, _, updated, failed₄⟩
    · exact updateApproval_error early
    cases written with
    | some row => cases failed₄
    | none =>
      have missed := (updateApproval_none updated).2 approval waiting.inside
      simp [id, waiting.pending] at missed
  · obtain ⟨a, approvals, same, _, _, replaced, rfl⟩ := decideApproval_ok ok
    obtain rfl := Table.eq_of_key waiting.approvals replaced.old_mem waiting.inside (same.trans id)
    exact ⟨approvals, replaced, rfl⟩

theorem Waiting.casting (waiting : Waiting approval gate s) {approvals event s₁}
    (same : s₁ = RunStore.record { s with approvals } event)
    (reaches : Reaches lint .all s s₁) : AtGate gate s₁ := by
  have unique₁ := uniqueSteps_of_chain (reaches waiting.unique) waiting.unique
  have fit₁ := (attemptsFit_invariant Dag.quietDefinitionLint lint .all).chain
    (reaches waiting.unique) waiting.unique waiting.fit
  have wired₁ := wired_of_reaches reaches waiting.unique waiting.wired
  subst same
  exact ⟨unique₁, wired₁, fit₁, waiting.unspent.of_same rfl rfl, waiting.member, waiting.waits,
    waiting.isGate⟩

end Waiting

theorem AtGate.leave_yields (atGate : AtGate gate s) (taken : isTaken = true) (moves : t.Moves)
    (timed : t.now ≠ 0) (named : gate.stepID = t.stepID)
    (guard : ∀ row, t.guard row = (row.status == .awaitingHuman)) :
    Tx.Yields (requireTaken isTaken op >>= fun _ => t.run) s fun new s' =>
      new = t.set gate ∧ Lands t gate s s' := by
  refine (requireArgument_yields taken).bind fun _ s₁ same => ?_
  subst same
  exact StepTransition.run_yields moves timed atGate.fit atGate.unique atGate.member named
    (by rw [guard, atGate.waits]; rfl) (by rw [atGate.waits]; rfl)

theorem AtGate.decideDeadLetter_yields (atGate : AtGate gate s) (timed : now ≠ 0) {comment : String}
    (taken : columns.json (rejectionError comment) = true) :
    Tx.Yields (decideDeadLetter gate.stepID comment now columns) s fun _ s' =>
      ∃ row ∈ s'.steps, row.stepID = gate.stepID ∧ row.status = .deadLettered := by
  refine Tx.Yields.bind_read ?_
  refine (atGate.leave_yields taken (deadLetterAwaitingHuman_moves _ _ _) (by exact timed) (by rfl)
    fun _ => rfl).bind fun row s₁ ⟨_, closes⟩ => ?_
  have stands : Stands ((deadLetterAwaitingHuman gate.stepID (some (rejectionError comment))
      now).set gate) s₁ := ⟨_, closes.shifted.replaced.new_mem, rfl, rfl, rfl⟩
  refine (deadLetterDisposition_yields (by simp [deadLetterAwaitingHuman, leaveWait]) timed
    (closes.shifted.uniqueSteps atGate.unique)
    stands _).void fun _ s' ⟨row, mem, named, status, _⟩ => ?_
  exact ⟨row, mem, named, status⟩

def gateVerdicts (predicate : EdgeRow → Except String Bool) (decision : Dag.ApprovalDecision)
    (edges : List EdgeRow) : List EdgeVerdict :=
  filterDecisionVerdicts decision edges
    ((edges.filter fun edge => edge.edgeType == .normal).map fun edge =>
      { ordinal := edge.ordinal, fired := fires predicate edge })

theorem terminalSource_of_planned
    (planned : planEdges stepType evaluator (listEdgesFromStep stepID s) = .ok verdicts) :
    terminalSource stepID stepType evaluator select s =
      (.ok ⟨stepID, select (listEdgesFromStep stepID s) verdicts⟩, s) := by
  unfold terminalSource
  rw [bind_apply, read_apply]
  simp only [planned]
  rfl

theorem AtGate.decideSucceed_yields (atGate : AtGate gate s) (timed : now ≠ 0)
    (taken : args.columns.json args.output = true) (evaluator : args.evaluator = .ok predicate)
    (clean : Evaluable predicate gate.stepID s) :
    Tx.Yields (decideSucceed gate.stepID gate.stepType args now) s fun source s' =>
      source = ⟨gate.stepID, gateVerdicts predicate args.request.decision
        (listEdgesFromStep gate.stepID s)⟩ ∧
      Lands (succeedAwaitingHuman gate.stepID args.output now) gate s s' := by
  refine (atGate.leave_yields taken (succeedAwaitingHuman_moves _ _ _) (by exact timed) (by rfl)
    fun _ => rfl).bind fun row s₁ ⟨_, closes⟩ => ?_
  have listed : listEdgesFromStep gate.stepID s₁ = listEdgesFromStep gate.stepID s := by
    unfold listEdgesFromStep listRunEdges
    rw [closes.shifted.edges]
  rw [atGate.isGate, evaluator]
  refine ⟨_, s₁, terminalSource_of_planned (planVerdicts_of_evaluates _ ?_), ?_, closes⟩
  · intro edge mem normal
    rw [listed] at mem
    obtain ⟨inside, leaves⟩ := mem_listEdgesFromStep.mp mem
    exact clean edge inside leaves normal
  · rw [listed]
    rfl

theorem AtGate.route_yields (atGate : AtGate gate s) (timed : now ≠ 0)
    (closes : Lands (succeedAwaitingHuman gate.stepID args.output now) gate s s₁)
    (reaches : Reaches Dag.quietPlanLint .all s s₁) (stepID : source.stepID = gate.stepID)
    (covers : Covers source s₁) : Tx.Yields (routeDecided (some source) now) s₁ fun _ s' =>
      Routes source ((succeedAwaitingHuman gate.stepID args.output now).set gate) s' := by
  have settles : Settles Dag.quietPlanLint none source s s₁ s₁ gate
      ((succeedAwaitingHuman gate.stepID args.output now).set gate) :=
    ⟨closes.shifted, by rw [atGate.waits]; rfl, .inl rfl, .inl (.refl _), stepID, covers⟩
  have unique₁ := closes.shifted.uniqueSteps atGate.unique
  have paying := settles.paying atGate.unique atGate.unspent unique₁
    (wired_of_reaches reaches atGate.unique atGate.wired)
  exact paying.routeAndRollup_yields timed (by simp [succeedAwaitingHuman, leaveWait])
    ⟨_, closes.shifted.replaced.new_mem, rfl, rfl, rfl⟩

theorem Waiting.requireLiveRun_ok (waiting : Waiting approval gate s) (timed : now ≠ 0) :
    requireLiveRun now s = (.ok (), s) := by
  have live := waiting.live
  unfold RunRow.live at live
  have isLive : s.run.status = .running ∨ s.run.status = .parked := by simpa using live
  simp [requireLiveRun, lockRunStatus, requireNow, timed, lockRun, bind_apply, isLive]

theorem AtGate.settle_yields (atGate : AtGate gate s) (timed : now ≠ 0) (taken : args.Taken gate)
    (evaluator : args.evaluator = .ok predicate)
    (runs : args.request.buries gate = true ∨ Evaluable predicate gate.stepID s) :
    Tx.Yields (settleStep gate args now >>= fun source => routeDecided source now) s fun _ s' =>
      if args.request.buries gate = true then
        ∃ row ∈ s'.steps, row.stepID = gate.stepID ∧ row.status = .deadLettered
      else Routes ⟨gate.stepID, gateVerdicts predicate args.request.decision
          (listEdgesFromStep gate.stepID s)⟩
        ((succeedAwaitingHuman gate.stepID args.output now).set gate) s' := by
  have settled := taken.settled
  by_cases buries : args.request.buries gate = true
  · rw [if_pos buries] at settled
    obtain ⟨u, s₁, buried, dead⟩ := atGate.decideDeadLetter_yields timed settled
    simp only [if_pos buries]
    refine ⟨(), s₁, ?_, dead⟩
    simp [settleStep, buries, bind_apply, buried, routeDecided]
  · rw [if_neg buries] at settled
    obtain ⟨_, s₁, succeeded, rfl, closes⟩ :=
      atGate.decideSucceed_yields timed settled evaluator (runs.resolve_left buries)
    have reaches : Reaches Dag.quietPlanLint .all s s₁ := by
      have sound : Sound Dag.quietPlanLint .all (decideSucceed gate.stepID gate.stepType args now) :=
        (succeedAwaitingHumanStep_sound _ _ trivial _).bind fun _ => terminalSource_sound _ _ _ _
      exact sound.of_ok succeeded
    have covers : Covers ⟨gate.stepID, gateVerdicts predicate args.request.decision
        (listEdgesFromStep gate.stepID s)⟩ s₁ := by
      have same : Covers ⟨gate.stepID, gateVerdicts predicate args.request.decision
          (listEdgesFromStep gate.stepID s)⟩ s := by
        simp [Covers, gateVerdicts, filterDecisionVerdicts, Function.comp_def]
      exact same.of_same closes.shifted.edges
    obtain ⟨u, s₂, routed, routes⟩ := atGate.route_yields timed closes reaches rfl covers
    simp only [if_neg buries]
    refine ⟨u, s₂, ?_, routes⟩
    simp [settleStep, buries, bind_apply, succeeded, routed]

theorem mem_gateVerdicts (wired : Wired s)
    (mem : edge ∈ s.edges) (normal : edge.edgeType = .normal) :
    { ordinal := edge.ordinal
      fired := edgeMatchesDecision decision edge && fires predicate edge } ∈
        gateVerdicts predicate decision (listEdgesFromStep edge.fromStep s) := by
  have listed : edge ∈ listEdgesFromStep edge.fromStep s := mem_listEdgesFromStep.mpr ⟨mem, rfl⟩
  refine mem_map.mpr ⟨{ ordinal := edge.ordinal, fired := fires predicate edge }, ?_, ?_⟩
  · exact mem_map.mpr ⟨edge, mem_filter.mpr ⟨listed, beq_iff_eq.mpr normal⟩, rfl⟩
  · -- the ordinal is a key, so that the marker looked up is that of the edge
    have taken : ((listEdgesFromStep edge.fromStep s).any fun other =>
        other.ordinal == edge.ordinal && edgeMatchesDecision decision other) =
          edgeMatchesDecision decision edge := by
      rw [Bool.eq_iff_iff, any_eq_true]
      constructor
      · rintro ⟨_, inside, found⟩
        rw [Bool.and_eq_true, beq_iff_eq] at found
        obtain rfl := Table.eq_of_key wired.ordinals (mem_listEdgesFromStep.mp inside).1 mem found.1
        exact found.2
      · intro takes
        exact ⟨edge, listed, by simp [takes]⟩
    simp only [taken, Bool.and_comm]

theorem settleStep_eq (same : stepOf step = stepOf gate) :
    settleStep step args now = settleStep gate args now := by
  obtain ⟨stepID, stepType, config⟩ : step.stepID = gate.stepID ∧
      step.stepType = gate.stepType ∧ step.config = gate.config := by
    simpa [stepOf] using same
  have buries : args.request.buries step = args.request.buries gate := by
    unfold DecideRequest.buries rejectPolicy
    rw [config]
  unfold settleStep
  rw [buries, stepID, stepType]

theorem decideApproval_taken {cast} (ok : decideApproval cast now columns s = (.ok row, s')) :
    cast.taken columns = true := by
  obtain ⟨_, _, accepted, _⟩ := bind_ok (requireArgument_bind_ok (requireNow_bind_ok ok))
  exact (requireArgument_ok accepted).1

theorem Waiting.settleDecision_yields (waiting : Waiting approval gate s) (timed : now ≠ 0)
    (id : a.id = approval.id) (same : stepOf step = stepOf gate)
    (isArgs : args.approvalID = approval.id) (taken : args.Taken gate)
    (evaluator : args.evaluator = .ok predicate)
    (runs : args.request.buries gate = true ∨ Evaluable predicate gate.stepID s) :
    Tx.Yields (settleDecision a step args now >>= fun source => routeDecided source now) s
      fun _ s' => Decided args predicate gate s s' := by
  have isTaken : (decisionRow a args.request now).taken args.columns = true := by
    simp [DecideApproval.taken, decisionRow, taken.comment, taken.decidedBy, taken.edited]
  obtain ⟨row, s₁, cast, _, replaced, isCast⟩ := waiting.decideApproval_yields timed
    (show (decisionRow a args.request now).id = approval.id from id) (decided_status args.request)
    isTaken
  have reaches : Reaches Dag.quietPlanLint .all s s₁ :=
    (decideApproval_sound now trivial _).of_ok cast
  have atGate := waiting.casting isCast reaches
  have edges : s₁.edges = s.edges := by rw [isCast]; rfl
  have listed : listEdgesFromStep gate.stepID s₁ = listEdgesFromStep gate.stepID s := by
    unfold listEdgesFromStep listRunEdges
    rw [edges]
  obtain ⟨u, s', settled, holds⟩ := atGate.settle_yields timed taken evaluator
    (runs.imp_right fun clean => by unfold Evaluable; rw [edges]; exact clean)
  refine ⟨u, s', ?_, ?_⟩
  · simp only [settleDecision, bind_apply, waiting.requireLiveRun_ok timed, cast, settleStep_eq same]
    simpa only [bind_apply] using settled
  have sound : Sound Dag.quietPlanLint .all
      (settleStep gate args now >>= fun source => routeDecided source now) :=
    (settleStep_sound trivial gate args).bind fun source => routeDecided_sound trivial source
  have kept : ApprovalsKept s₁ s' := approvalsKept_of_chain (sound.of_ok settled atGate.unique)
  refine ⟨?_, fun failing => ?_, fun survives taken => ?_⟩
  · have written : (decisionRow a args.request now).set now approval ∈ s₁.approvals := by
      rw [isCast]
      exact replaced.new_mem
    obtain ⟨_, inside, _, _, unchanged⟩ := kept _ written
    rw [unchanged (not_pending_of_isDecision now approval (decided_status args.request))] at inside
    exact ⟨_, inside, isArgs.symm, rfl⟩
  · by_cases buries : args.request.buries gate = true
    · rw [if_pos buries] at holds
      exact holds
    · obtain ⟨edge, mem, leaves, normal, _, fails⟩ := failing.resolve_left buries
      rw [runs.resolve_left buries edge mem leaves normal] at fails
      cases fails
  · rw [if_neg (by simp [survives]), listed] at holds
    obtain ⟨⟨row, mem, named, status, output⟩, resolved⟩ := holds
    refine ⟨⟨row, mem, named, status, output⟩, fun edge inside leaves normal => ?_⟩
    exact resolved _ (leaves ▸ mem_gateVerdicts waiting.wired inside normal)

theorem Waiting.settleDecision_runs (waiting : Waiting approval gate s)
    (same : stepOf step = stepOf gate) (evaluator : args.evaluator = .ok predicate)
    (ok : (settleDecision a step args now >>= fun source => routeDecided source now) s = (.ok u, s')) :
    args.Taken gate ∧ (args.request.buries gate = true ∨ Evaluable predicate gate.stepID s) := by
  obtain ⟨_, _, settled, _⟩ := bind_ok ok
  obtain ⟨_, _, live, rest₂⟩ := bind_ok settled
  obtain ⟨_, rfl⟩ := Engine.requireLiveRun_ok live
  obtain ⟨_, _, cast, rest₃⟩ := bind_ok rest₂
  have taken := decideApproval_taken cast
  simp only [DecideApproval.taken, decisionRow, Bool.and_eq_true] at taken
  obtain ⟨⟨comment, decidedBy⟩, edited⟩ := taken
  obtain ⟨_, _, _, _, _, _, rfl⟩ := decideApproval_ok cast
  rw [settleStep_eq same, settleStep] at rest₃
  by_cases buries : args.request.buries gate = true
  · rw [if_pos buries] at rest₃
    obtain ⟨_, _, buried, _⟩ := bind_ok rest₃
    have rest₄ := read_bind_ok buried
    obtain ⟨_, _, left, _⟩ := bind_ok rest₄
    obtain ⟨_, _, accepted, _⟩ := bind_ok left
    have isTaken := (requireArgument_ok accepted).1
    exact ⟨⟨comment, decidedBy, edited, by rw [if_pos buries]; exact isTaken⟩, .inl buries⟩
  rw [if_neg buries] at rest₃
  obtain ⟨_, _, succeeded, _⟩ := bind_ok rest₃
  obtain ⟨_, s₅, left, planned⟩ := bind_ok succeeded
  obtain ⟨_, _, accepted, ran⟩ := bind_ok left
  obtain ⟨isTaken, rfl⟩ := requireArgument_ok accepted
  obtain ⟨_, _, _, _, shifted⟩ := shifted_of_run ran (succeedAwaitingHuman_moves _ _ _)
  refine ⟨⟨comment, decidedBy, edited, by rwa [if_neg buries]⟩, .inr fun edge mem leaves normal => ?_⟩
  by_contra fails
  have listed : edge ∈ listEdgesFromStep gate.stepID s₅ := by
    refine mem_listEdgesFromStep.mpr ⟨?_, leaves⟩
    rw [shifted.edges]
    exact mem
  obtain ⟨msg, failed⟩ := planVerdicts_of_fails predicate listed normal (Bool.eq_false_iff.mpr fails)
  have plans : planEdges gate.stepType args.evaluator (listEdgesFromStep gate.stepID s₅) =
      .error msg := by
    rw [waiting.isGate, evaluator]
    exact failed
  unfold terminalSource at planned
  rw [bind_apply, read_apply] at planned
  simp only [plans] at planned
  cases planned

theorem Waiting.admits (waiting : Waiting approval gate s)
    (kept : GatesKept seen s) (lasting : ApprovalsKept seen s) (gated : Gated seen)
    (known : ∃ a ∈ seen.approvals, a.id = approval.id) (isArgs : args.approvalID = approval.id)
    (satisfies : Json → Json → Bool) :
    ∃ a step, a.id = approval.id ∧ stepOf step = stepOf gate ∧ admitDecision satisfies args seen =
        match validateDecision satisfies approval args.request with
        | .error msg => .error (.engine "decide" msg)
        | .ok _ => .ok (a, step) := by
  obtain ⟨first, isFirst, isID⟩ := known
  cases found : seen.approvals.find? fun row => row.id == args.approvalID with
  | none =>
    have missed := find?_eq_none.mp found first isFirst
    simp [isID, isArgs] at missed
  | some a =>
    have inside := mem_of_find?_eq_some found
    have named : a.id = approval.id := by
      have := find?_some found
      rw [← isArgs]
      simpa using this
    have isApproval : ∀ a' ∈ s.approvals, a'.id = a.id → a' = approval := fun a' mem' same =>
      Table.eq_of_key waiting.approvals mem' waiting.inside (same.trans named)
    obtain ⟨a', mem', sameID, sameStep, terms⟩ := kept.terms a inside
    obtain rfl := isApproval a' mem' sameID
    have pending : a.status = .pending := by
      by_contra decided
      obtain ⟨a'', mem'', sameID', _, unchanged⟩ := lasting a inside
      have same : a'' = a := unchanged (by simpa [ApprovalRow.isPending] using decided)
      have isPending := waiting.pending
      rw [← isApproval a'' mem'' sameID', same] at isPending
      exact decided (by simpa [ApprovalRow.isPending] using isPending)
    obtain ⟨owner, isOwner, ofStep⟩ := gated.known a inside
    cases located : findStep seen a.stepID with
    | none =>
      have missed := find?_eq_none.mp located owner isOwner
      simp [ofStep] at missed
    | some step =>
      obtain ⟨isStep, hasID⟩ := findStep_some located
      obtain ⟨row, mem, same⟩ := mem_map.mp (kept.steps (mem_map_of_mem isStep))
      have isGate : row = gate := by
        refine Table.eq_of_key waiting.unique mem waiting.member ?_
        have rowID : row.stepID = step.stepID := congrArg Dag.Step.id same
        exact rowID.trans (hasID.trans (sameStep.symm.trans waiting.named.symm))
      have validated : validateDecision satisfies a args.request =
          validateDecision satisfies a' args.request := by
        obtain ⟨allowed, edits, schema, _⟩ : a'.allowedDecisions = a.allowedDecisions ∧
            a'.allowEdit = a.allowEdit ∧ a'.editSchema = a.editSchema ∧
            a'.timeoutAt = a.timeoutAt := by
          simpa [ApprovalRow.terms] using terms
        unfold validateDecision
        rw [allowed, edits, schema]
      refine ⟨a, step, named, (isGate ▸ same).symm, ?_⟩
      unfold admitDecision
      rw [found]
      cases decided : validateDecision satisfies a' args.request <;>
        simp [pending, located, validated, decided]

section Histories

variable {definitionLint : Dag.DefinitionLint} {env : Environment} {readers : Exec.Readers}
  {past : List RunStore}

theorem GateHistory.waiting (history : GateHistory definitionLint env readers (s :: past))
    (inside : approval ∈ s.approvals) (pending : approval.isPending = true)
    (live : s.run.live = true) (member : gate ∈ s.steps)
    (named : gate.stepID = approval.stepID) : Waiting approval gate s := by
  have reached : s ∈ s :: past := mem_cons_self
  obtain ⟨unique, wired⟩ := history.invariant (wired_invariant definitionLint env.lint .all) s reached
  have fit := (history.invariant (attemptsFit_invariant definitionLint env.lint .all) s reached).2
  have waits : gate.status = .awaitingHuman := by
    by_contra idle
    have fits := (history.history.gated s reached).fits gate member
    unfold GateFits at fits
    rw [if_neg idle, named] at fits
    have listed := mem_pendingFor.mpr ⟨inside, rfl, pending⟩
    rw [fits] at listed
    cases listed
  have isGate : gate.stepType = .humanApproval := by
    obtain ⟨_, isStep, _⟩ := history.gatesMatch s reached approval inside
    obtain ⟨row, isRow, same⟩ := mem_map.mp isStep
    have rowID : row.stepID = approval.stepID := congrArg Dag.Step.id same
    rw [← Table.eq_of_key unique isRow member (rowID.trans named.symm)]
    exact congrArg Dag.Step.type same
  exact
    { unique, wired, fit, member, waits, isGate, live, inside, pending, named
      unspent := HistoryOf.unspent history s reached (RunRow.live_not_ended live)
      approvals := (history.history.uniqueApprovals s reached).2 }

section Outcome

variable {seen : RunStore} {satisfies : Json → Json → Bool}
  (history : GateHistory definitionLint env readers (s :: past))
  (waiting : Waiting approval gate s) (read : seen ∈ s :: past)
  (known : ∃ a ∈ seen.approvals, a.id = approval.id) (isArgs : args.approvalID = approval.id)

include history waiting read known isArgs

theorem GateHistory.decide_eq :
    ∃ a step, a.id = approval.id ∧ stepOf step = stepOf gate ∧
      Engine.decide satisfies args seen now =
        match validateDecision satisfies approval args.request with
        | .error msg => Tx.throw (.engine "decide" msg)
        | .ok _ => settleDecision a step args now >>= fun source => routeDecided source now := by
  obtain ⟨a, step, id, same, admitted⟩ := waiting.admits (HistoryOf.gatesKept history seen read)
    (history.history.approvalsKept seen read) (history.history.gated seen read) known isArgs satisfies
  refine ⟨a, step, id, same, ?_⟩
  unfold Engine.decide
  rw [admitted]
  cases validateDecision satisfies approval args.request <;> rfl

theorem GateHistory.decide_commits (timed : now ≠ 0) (evaluator : args.evaluator = .ok predicate)
    (allowed : validateDecision satisfies approval args.request = .ok edited)
    (taken : args.Taken gate)
    (runs : args.request.buries gate = true ∨ Evaluable predicate gate.stepID s) :
    Decided args predicate gate s ((Engine.decide satisfies args seen now).commit s).2 := by
  obtain ⟨a, _, id, same, decides⟩ := history.decide_eq waiting read known isArgs
  rw [allowed] at decides
  obtain ⟨u, _, ok, decided⟩ :=
    waiting.settleDecision_yields timed id same isArgs taken evaluator runs
  rw [decides, commit_of_ok ok]
  exact decided

theorem GateHistory.decide_refused (evaluator : args.evaluator = .ok predicate)
    (refused : ¬∃ edited, validateDecision satisfies approval args.request = .ok edited ∧
      args.Taken gate ∧ (args.request.buries gate = true ∨ Evaluable predicate gate.stepID s)) :
    ((Engine.decide satisfies args seen now).commit s).2 = s := by
  obtain ⟨a, _, _, same, decides⟩ := history.decide_eq waiting read known isArgs
  rw [decides]
  cases allowed : validateDecision satisfies approval args.request with
  | error msg => rfl
  | ok edited =>
    unfold commit
    split
    · rename_i ok
      exact absurd ⟨edited, allowed, waiting.settleDecision_runs same evaluator ok⟩ refused
    · rfl

end Outcome

end Histories

/-- In every history, whatever was read of a pending approval of a live run, a decision that its
gate allows is cast and settles the step exactly when the columns take its texts and it buries the
step or the predicates on all out-edges evaluate, those that the decision rules out included. -/
theorem decision_commits_iff (definitionLint : Dag.DefinitionLint) (env : Environment)
    (readers : Exec.Readers) (s : RunStore) (past : List RunStore)
    (history : GateHistory definitionLint env readers (s :: past)) (live : s.run.live = true)
    (approval : ApprovalRow) (inside : approval ∈ s.approvals) (pending : approval.isPending = true)
    (gate : StepRow) (member : gate ∈ s.steps) (named : gate.stepID = approval.stepID)
    (args : Decision) (isArgs : args.approvalID = approval.id) (edited : Bool)
    (allowed : validateDecision env.satisfies approval args.request = .ok edited)
    (predicate : EdgeRow → Except String Bool) (evaluator : args.evaluator = .ok predicate)
    (seen : RunStore) (read : seen ∈ s :: past)
    (known : ∃ a ∈ seen.approvals, a.id = approval.id) (now : Time) (timed : now ≠ 0) :
    Decided args predicate gate s (act env (.decide args seen) now s) ↔ args.Taken gate ∧
      (args.request.buries gate = true ∨ Evaluable predicate gate.stepID s) := by
  have waiting := history.waiting inside pending live member named
  constructor
  · intro decided
    by_contra refused
    have unchanged : act env (.decide args seen) now s = s :=
      history.decide_refused waiting read known isArgs evaluator
        fun ⟨_, _, commits⟩ => refused commits
    -- nothing was written, so the approval is still pending
    obtain ⟨_, isFound, sameID, status⟩ := decided.cast
    rw [unchanged] at isFound
    obtain rfl := Table.eq_of_key waiting.approvals isFound inside (sameID.trans isArgs)
    have decides := decided_status args.request
    rw [← status, eq_of_beq pending] at decides
    cases decides
  · rintro ⟨taken, runs⟩
    exact history.decide_commits waiting read known isArgs timed evaluator allowed taken runs

/-! A review that is routed either way; the edge of a rejection has a predicate. -/

def reviewDefinition : Dag.Definition :=
  { name := "review"
    steps := [
      { id := "g", type := .humanApproval,
        config := .humanApproval { title := "Ship it", onReject := .route } },
      { id := "a", type := .noop }, { id := "b", type := .noop }]
    edges := [
      { fromStep := "g", toStep := "a" },
      { fromStep := "g", toStep := "b", when := "output.score > 3", decision := .decision .reject }] }

def reviewRun : RunStore := opened reviewDefinition ["g"]

def reviewReaders : Exec.Readers := ⟨fun _ => .ok 10, fun _ => .ok ()⟩

def reviewContent : ApprovalContent :=
  { id := 9, title := "Ship it", allowedDecisions := [.approve, .reject] }

def reviewClaimed : RunStore := act gateEnvironment (.claim "g" 7 "worker") 2 reviewRun

def reviewWaiting : RunStore := act gateEnvironment (.awaitHuman "g" 7 reviewContent) 3 reviewClaimed

theorem reviewWaiting_history : GateHistory Dag.quietDefinitionLint gateEnvironment reviewReaders
    [reviewWaiting, reviewClaimed, reviewRun] := by
  have created : Created Dag.quietDefinitionLint reviewDefinition reviewRun := ⟨"", none, 1, rfl⟩
  refine .acted (.acted (.created created) (by simp) trivial)
    (by simp) ?_
  exact ⟨{ title := "Ship it", onReject := .route }, _, _, by decide, ⟨rfl, rfl, rfl⟩, rfl, rfl⟩

def reviewApproval : ApprovalRow :=
  { id := 9
    stepID := "g"
    attempt := 1
    title := "Ship it"
    allowedDecisions := [.approve, .reject]
    createdAt := 3
    updatedAt := 3 }

def reviewGate : StepRow :=
  { stepID := "g"
    stepType := .humanApproval
    config := .humanApproval { title := "Ship it", onReject := .route }
    status := .awaitingHuman
    attemptCount := 1
    startedAt := some 2
    updatedAt := 3 }

def reviewApprove (predicate : EdgeRow → Except String Bool) : Decision :=
  { approvalID := 9
    request := { decision := .approve, source := .human }
    output := "\x7b\"decision\":\"approve\"\x7d"
    evaluator := .ok predicate }

theorem review_approved : Decided (reviewApprove fun _ => .ok true) (fun _ => .ok true) reviewGate
    reviewWaiting
    (act gateEnvironment (.decide (reviewApprove fun _ => .ok true) reviewWaiting) 4 reviewWaiting) :=
  (decision_commits_iff Dag.quietDefinitionLint gateEnvironment reviewReaders reviewWaiting
    [reviewClaimed, reviewRun] reviewWaiting_history (by decide) reviewApproval (by decide) (by decide)
    reviewGate (by decide) rfl (reviewApprove fun _ => .ok true) rfl false (by decide)
    (fun _ => .ok true) rfl reviewWaiting mem_cons_self ⟨reviewApproval, by decide, rfl⟩ 4
    (by decide)).mpr ⟨⟨rfl, rfl, rfl, rfl⟩, .inr fun edge _ _ _ => by
      simp only [evaluates, edgeFires]
      split_ifs <;> rfl⟩

def scoreless (edge : EdgeRow) : Except String Bool :=
  if edge.whenExpr = "output.score > 3" then .error "no such key: score" else .ok true

/-- The gate allows the approval, and the only predicate is on the edge of a rejection; yet it fails
and leaves the review pending. -/
theorem review_undecidable : GateHistory Dag.quietDefinitionLint gateEnvironment reviewReaders
        [reviewWaiting, reviewClaimed, reviewRun] ∧
      validateDecision gateEnvironment.satisfies reviewApproval (reviewApprove scoreless).request =
          .ok false ∧
      (∀ edge ∈ reviewWaiting.edges, edge.whenExpr ≠ "" → edgeMatchesDecision .approve edge = false) ∧
      (act gateEnvironment (.decide (reviewApprove scoreless) reviewWaiting) 4
        reviewWaiting).approvals = [reviewApproval] ∧
      ¬Decided (reviewApprove scoreless) scoreless reviewGate reviewWaiting
        (act gateEnvironment (.decide (reviewApprove scoreless) reviewWaiting) 4 reviewWaiting) := by
  have pending : (act gateEnvironment (.decide (reviewApprove scoreless) reviewWaiting) 4
      reviewWaiting).approvals = [reviewApproval] := by decide
  refine ⟨reviewWaiting_history, by decide, by decide, pending, fun decided => ?_⟩
  obtain ⟨a, inside, _, status⟩ := decided.cast
  rw [pending, mem_singleton] at inside
  subst inside
  cases status

end Agentloom.Engine
