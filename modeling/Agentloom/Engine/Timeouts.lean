import Agentloom.Engine.Deciding

/-! Expiries of approvals. The validator checks the policy of a timeout only where it is authored,
while the engine falls back to a rejection; so an expiry may record a decision that its own gate
does not allow, and is then refused each time it is delivered. -/

namespace Agentloom.Engine

open Transaction Store Relation List

variable {approval : ApprovalRow} {gate : StepRow} {s : RunStore} {now : Time}

def GatesChecked (s : RunStore) : Prop :=
  ∀ row ∈ s.steps, Dag.ApprovalChecked row.stepType row.config

theorem gatesChecked_invariant (duration : String → Except String Int)
    (definitionLint : Dag.DefinitionLint) (lint : Dag.PlanLint) (may : Permits) :
    Invariant (definitionLint.withApprovals duration) (lint.withApprovals duration) may
      GatesChecked where
  founded := by
    intro definition s founded row mem
    have checked := Dag.validates_approvals founded.validated
    obtain ⟨_, _, _, now, _, rfl⟩ := founded.planned
    obtain ⟨step, inside, rfl⟩ := mem_map.mp mem
    exact checked step inside
  kept := by
    intro s s' effect _ checked
    have before : ∀ step ∈ s.steps.map stepOf, Dag.ApprovalChecked step.type step.config := by
      rintro step listed
      obtain ⟨row, mem, rfl⟩ := mem_map.mp listed
      exact checked row mem
    have after : ∀ step ∈ s'.steps.map stepOf, Dag.ApprovalChecked step.type step.config := by
      rcases steps_of_effect effect with same | ⟨_, _, _, fits, grown⟩
      · rw [same]
        exact before
      · rw [grown]
        intro step listed
        rcases mem_append.mp listed with known | added
        · exact before step known
        · exact Dag.validateExpansion_approvals fits.accepted step added
    exact fun row mem => after (stepOf row) (mem_map_of_mem mem)

def TimedOut (id : ApprovalID) (stepID : String) (s s' : RunStore) : Prop :=
  ((∃ a ∈ s'.approvals, a.id = id ∧ a.status = .expired) ∧
      ∃ row ∈ s'.steps, row.stepID = stepID ∧
        (row.status = .succeeded ∨ row.status = .deadLettered)) ∨
    ((∀ a ∈ s.approvals, a.id = id → a.expiredAt = none) ∧
      (∃ a ∈ s'.approvals, a.id = id ∧ a.expiredAt.isSome = true) ∧ s'.run.status = .parked)

theorem dueApproval_some (due : dueApproval stepID seen now = some approval) :
    approval ∈ seen.approvals ∧ approval.stepID = stepID := by
  unfold dueApproval at due
  split at due
  · cases due
  · rename_i found located
    split_ifs at due
    cases due
    have fits := find?_some located
    rw [Bool.and_eq_true, beq_iff_eq] at fits
    exact ⟨mem_of_find?_eq_some located, fits.1⟩

theorem parkForTimeout_yields (timed : now ≠ 0) (live : s.run.live = true) :
    Tx.Yields (parkForTimeout s.run.status now) s fun _ s' =>
      s'.run.status = .parked ∧ s'.approvals = s.approvals := by
  unfold parkForTimeout
  by_cases parked : s.run.status = .parked
  · rw [if_pos parked]
    exact .pure ⟨parked, rfl⟩
  · have running : s.run.status = .running := by
      unfold RunRow.live at live
      simpa [parked] using live
    rw [if_neg parked]
    refine Tx.Yields.bind (RunTransition.run_yields (by exact timed) (beq_iff_eq.mpr running))
      fun row s' ⟨_, same⟩ => .pure ?_
    rw [same]
    exact ⟨rfl, rfl⟩

theorem Waiting.expireApprovalPark_yields (waiting : Waiting approval gate s) (timed : now ≠ 0)
    (id : args.id = approval.id) (unmarked : approval.expiredAt = none) :
    Tx.Yields (expireApprovalPark args now) s fun _ s' =>
      TimedOut approval.id gate.stepID s s' := by
  have marks : Tx.Yields (updateApproval
      (fun row => row.id == args.id && row.isPending && row.expiredAt.isNone)
      (fun row => { row with expiredAt := some now, updatedAt := now })) s fun row s' =>
        row.isSome = true ∧ s'.run = s.run ∧
          ∃ a ∈ s'.approvals, a.id = approval.id ∧ a.expiredAt.isSome = true := by
    refine .of_total (fun e s' => updateApproval_error) fun row s' updated => ?_
    cases row with
    | none =>
      have missed := (updateApproval_none updated).2 approval waiting.inside
      simp [id, waiting.pending, unmarked] at missed
    | some row =>
      obtain ⟨a, approvals, fits, rfl, replaced, rfl⟩ := updateApproval_some updated
      simp only [Bool.and_eq_true, beq_iff_eq] at fits
      exact ⟨rfl, rfl, _, replaced.new_mem, fits.1.1.trans id, rfl⟩
  refine Tx.Yields.bind (requireNow_yields timed _) fun _ s₁ same => ?_
  subst same
  refine Tx.Yields.bind_read (marks.bind fun row s₂ ⟨found, sameRun, marked⟩ => ?_)
  obtain ⟨_, rfl⟩ := Option.isSome_iff_exists.mp found
  have parks := parkForTimeout_yields (s := s₂) timed (by rw [sameRun]; exact waiting.live)
  rw [sameRun] at parks
  obtain ⟨action, s₃, done, parked, approvals⟩ := parks
  refine ⟨action, s₃.record (.approvalExpired args.id args.stepID args.attemptNo "park" none action
    args.timeoutAt), ?_, .inr ⟨fun a mem same => ?_, ?_, parked⟩⟩
  · simp only [Tx.bind_apply, done]
    rfl
  · rw [Table.eq_of_key waiting.approvals mem waiting.inside same]
    exact unmarked
  · rw [record_approvals, approvals]
    exact marked

theorem Decided.timedOut
    (decided : Decided args predicate gate s s') (automatic : args.request.source = .timeout)
    (runs : args.request.buries gate = true ∨ Evaluable predicate gate.stepID s) :
    TimedOut args.approvalID gate.stepID s s' := by
  obtain ⟨a, inside, id, status⟩ := decided.cast
  have expired : args.request.status = .expired := by
    unfold DecideRequest.status
    rw [automatic]
  refine .inl ⟨⟨a, inside, id, status.trans expired⟩, ?_⟩
  by_cases buries : args.request.buries gate = true
  · obtain ⟨row, mem, named, dead⟩ := decided.buried (.inl buries)
    exact ⟨row, mem, named, .inr dead⟩
  · have clean := runs.resolve_left buries
    obtain ⟨⟨row, mem, named, succeeded, _⟩, _⟩ := decided.settled (Bool.eq_false_iff.mpr buries)
      fun edge inside leaves normal _ => clean edge inside leaves normal
    exact ⟨row, mem, named, .inl succeeded⟩

theorem Waiting.not_timedOut (waiting : Waiting approval gate s) (stepID : String) :
    ¬TimedOut approval.id stepID s s := by
  rintro (⟨⟨a, inside, id, expired⟩, _⟩ | ⟨unmarked, ⟨a, inside, id, marked⟩, _⟩)
  · have pending := waiting.pending
    rw [← Table.eq_of_key waiting.approvals inside waiting.inside id] at pending
    simp [ApprovalRow.isPending, expired] at pending
  · simp [unmarked a inside id] at marked

theorem validateDecision_timeout {satisfies id decision output evaluator} :
    (∃ edited, validateDecision satisfies approval
      (timeoutDecision id decision output evaluator).request = .ok edited) ↔
        decision ∈ approval.allowedDecisions := by
  unfold validateDecision timeoutDecision
  by_cases allowed : decision ∈ approval.allowedDecisions
  · simp [allowed]
  · simp [allowed]

section Histories

variable {definitionLint : Dag.DefinitionLint} {env : Environment} {readers : Exec.Readers}
  {past : List RunStore}

theorem GateHistory.expiry_commits_iff (history : GateHistory definitionLint env readers (s :: past))
    (waiting : Waiting approval gate s) {seen} (read : seen ∈ s :: past)
    (known : ∃ a ∈ seen.approvals, a.id = approval.id) (timed : now ≠ 0)
    (decision : Dag.ApprovalDecision) (output : Json) (predicate : EdgeRow → Except String Bool) :
    TimedOut approval.id gate.stepID s ((Engine.decide env.satisfies
        (timeoutDecision approval.id decision output (.ok predicate)) seen now).commit s).2 ↔
      decision ∈ approval.allowedDecisions ∧
        ((timeoutDecision approval.id decision output (.ok predicate)).request.buries gate = true ∨
          Evaluable predicate gate.stepID s) := by
  rw [← validateDecision_timeout, ← exists_and_right]
  constructor
  · intro timedOut
    by_contra refused
    rw [history.decide_refused waiting read known rfl rfl fun ⟨edited, allowed, _, runs⟩ =>
      refused ⟨edited, allowed, runs⟩] at timedOut
    exact waiting.not_timedOut _ timedOut
  · rintro ⟨_, allowed, runs⟩
    exact (history.decide_commits waiting read known rfl timed rfl allowed ⟨rfl, rfl, rfl, rfl⟩
      runs).timedOut rfl runs

theorem GateHistory.policy_eq (history : GateHistory definitionLint env readers (s :: past))
    (unique : UniqueSteps s) (mem : gate ∈ s.steps) (read : seen ∈ s :: past)
    (known : ∃ a ∈ seen.approvals, a.stepID = gate.stepID) :
    approvalTimeoutPolicy gate.stepID seen = timeoutPolicy gate := by
  obtain ⟨a, inside, ofGate⟩ := known
  obtain ⟨owner, isOwner, named⟩ := (history.history.gated seen read).known a inside
  unfold approvalTimeoutPolicy
  cases located : findStep seen gate.stepID with
  | none =>
    have missed := find?_eq_none.mp located owner isOwner
    simp [named, ofGate] at missed
  | some step =>
    obtain ⟨isStep, hasID⟩ := findStep_some located
    have kept := HistoryOf.gatesKept history seen read
    obtain ⟨row, isRow, same⟩ := mem_map.mp (kept.steps (mem_map_of_mem isStep))
    have rowID : row.stepID = step.stepID := congrArg Dag.Step.id same
    obtain rfl := Table.eq_of_key unique isRow mem (rowID.trans hasID)
    have config : step.config = row.config := (congrArg Dag.Step.config same).symm
    simp only [timeoutPolicy, config]

theorem GateHistory.allows (history : GateHistory definitionLint env readers (s :: past))
    (waiting : Waiting approval gate s)
    (isConfig : gate.config = .humanApproval config) (decision : Dag.ApprovalDecision) :
    decision ∈ approval.allowedDecisions ↔ config.decisionAllowed decision = true := by
  obtain ⟨found, isStep, allowed⟩ :=
    history.gatesMatch s mem_cons_self approval waiting.inside
  obtain ⟨row, isRow, same⟩ := mem_map.mp isStep
  have rowID : row.stepID = approval.stepID := congrArg Dag.Step.id same
  obtain rfl := Table.eq_of_key waiting.unique isRow waiting.member (rowID.trans waiting.named.symm)
  have hasConfig : row.config = .humanApproval found := congrArg Dag.Step.config same
  cases isConfig.symm.trans hasConfig
  rw [allowed]
  exact Exec.mem_resolvedDecisions

end Histories

/-- An expiry of a due approval in a live run has lost to an earlier one, or takes effect, exactly
when it has lost, or its policy parks, or its policy is authored or rejects where rejections are
allowed and in addition the step is buried or no predicate on its out-edges fails. -/
theorem timeout_applies_iff (definitionLint : Dag.DefinitionLint) (lint : Dag.PlanLint)
    (satisfies : Json → Json → Bool) (readers : Exec.Readers) (s : RunStore) (past : List RunStore)
    (history : GateHistory (definitionLint.withApprovals readers.duration)
      ⟨lint.withApprovals readers.duration, satisfies⟩ readers (s :: past))
    (live : s.run.live = true) (gate : StepRow) (member : gate ∈ s.steps)
    (config : Dag.HumanApprovalConfig) (isConfig : gate.config = .humanApproval config)
    (seen later : RunStore) (read : seen ∈ s :: past) (reread : later ∈ s :: past)
    (approval : ApprovalRow) (now : Time) (timed : now ≠ 0)
    (due : dueApproval gate.stepID seen now = some approval)
    (known : ∃ a ∈ later.approvals, a.id = approval.id) (output : Json)
    (predicate : EdgeRow → Except String Bool) (expiry : Action)
    (isExpiry : expiry = .timeout gate.stepID output (.ok predicate) seen later) :
    (expiry.loses now s ∨ TimedOut approval.id gate.stepID s
        (act ⟨lint.withApprovals readers.duration, satisfies⟩ expiry now s)) ↔
      expiry.loses now s ∨ config.onTimeout = some .park ∨
        ((config.onTimeout.isSome = true ∨ config.decisionAllowed .reject = true) ∧
          ((config.onTimeout ≠ some .approve ∧ config.onReject = .fail) ∨
            Evaluable predicate gate.stepID s)) := by
  refine or_congr_right' fun wins => ?_
  have reached : s ∈ s :: past := mem_cons_self
  subst isExpiry
  obtain ⟨inSeen, ofGate⟩ := dueApproval_some due
  have contested : (Action.timeout gate.stepID output (.ok predicate) seen later).contested now =
      some approval.id := by
    simp [Action.contested, due]
  have isPending : isPendingID approval.id s = true := by
    by_contra resolved
    exact wins ⟨approval.id, contested, .inl (Bool.eq_false_iff.mpr resolved)⟩
  obtain ⟨a, inside, id, pending⟩ := isPendingID_iff.mp isPending
  have ofStep : gate.stepID = a.stepID := by
    obtain ⟨_, inside', sameID, sameStep, _⟩ :=
      (HistoryOf.gatesKept history seen read).terms approval inSeen
    rw [← Table.eq_of_key (history.history.uniqueApprovals s reached).2 inside' inside
      (sameID.trans id.symm), sameStep, ofGate]
  have waiting := history.waiting inside pending live member ofStep
  have policy := history.policy_eq waiting.unique member read ⟨approval, inSeen, ofGate⟩
  have isPolicy : timeoutPolicy gate = config.onTimeout.getD .reject := by
    simp only [timeoutPolicy, isConfig]
  have allows : ∀ decision, decision ∈ a.allowedDecisions ↔ config.decisionAllowed decision = true :=
    history.allows waiting isConfig
  have authored : config.TimeoutAllowed := by
    obtain ⟨_, same, allowed⟩ := (history.invariant (gatesChecked_invariant readers.duration
      definitionLint lint .all) s reached).2 gate member waiting.isGate
    cases isConfig.symm.trans same
    exact allowed
  have buries : ∀ decision, (timeoutDecision a.id decision output (.ok predicate)).request.buries
      gate = true ↔ decision = .reject ∧ config.onReject = .fail := by
    intro decision
    simp [timeoutDecision, DecideRequest.buries, rejectPolicy, isConfig]
  have decides := fun decision => history.expiry_commits_iff waiting reread (id.symm ▸ known) timed
    decision output predicate
  unfold act Action.exec handleApprovalTimeout
  simp only [due, policy, isPolicy, ← id]
  cases onTimeout : config.onTimeout with
  | none => simpa [allows, buries] using decides .reject
  | some authoredPolicy =>
    cases authoredPolicy with
    | reject =>
      have allowed := authored .reject .reject onTimeout rfl
      simpa [allows, buries, allowed] using decides .reject
    | approve =>
      have allowed := authored .approve .approve onTimeout rfl
      simpa [allows, buries, allowed] using decides .approve
    | park =>
      have unmarked : a.expiredAt = none := by
        by_contra marked
        refine wins ⟨approval.id, contested, .inr ⟨?_, fun other isOther same => ?_⟩⟩
        · simp [Action.marks, policy, isPolicy, onTimeout]
        · rw [Table.eq_of_key waiting.approvals isOther inside (same.trans id.symm)]
          exact Option.isSome_iff_ne_none.mpr marked
      obtain ⟨u, _, ok, timedOut⟩ : Tx.Yields (applyTimeoutPark _ now) s fun _ s' =>
          TimedOut _ gate.stepID s s' :=
        (waiting.expireApprovalPark_yields timed id.symm unmarked).void fun _ _ timedOut => timedOut
      simp only [Option.getD_some, Tx.commit_of_ok ok]
      simp [timedOut]

/-! A gate that may only be approved, and expires. -/

section Signoff

variable (onTimeout : Option Dag.ApprovalTimeoutPolicy)

def signoffConfig : Dag.HumanApprovalConfig :=
  { title := "Sign off", allowedDecisions := [.approve], timeout := "10ns", onTimeout }

def signoffDefinition : Dag.Definition :=
  { name := "signoff"
    steps := [{ id := "g", type := .humanApproval, config := .humanApproval (signoffConfig onTimeout) }]
    edges := [] }

def signoffRun : RunStore := opened (signoffDefinition onTimeout) ["g"]

def signoffEnvironment : Environment :=
  ⟨Dag.quietPlanLint.withApprovals reviewReaders.duration, fun _ _ => true⟩

def signoffContent : ApprovalContent :=
  { id := 9, title := "Sign off", allowedDecisions := [.approve], timeoutAt := some 13 }

def signoffClaimed : RunStore :=
  act signoffEnvironment (.claim "g" 7 "worker") 2 (signoffRun onTimeout)

def signoffWaiting : RunStore :=
  act signoffEnvironment (.awaitHuman "g" 7 signoffContent) 3 (signoffClaimed onTimeout)

def signoffApproval : ApprovalRow :=
  { id := 9
    stepID := "g"
    attempt := 1
    title := "Sign off"
    allowedDecisions := [.approve]
    timeoutAt := some 13
    createdAt := 3
    updatedAt := 3 }

def signoffGate : StepRow :=
  { stepID := "g"
    stepType := .humanApproval
    config := .humanApproval (signoffConfig onTimeout)
    status := .awaitingHuman
    attemptCount := 1
    startedAt := some 2
    updatedAt := 3 }

def signoffExpiry : Action :=
  .timeout "g" "\x7b\"decision\":\"approve\"\x7d" (.ok fun _ => .ok true)
    (signoffWaiting onTimeout) (signoffWaiting onTimeout)

variable {onTimeout}

theorem signoffWaiting_history
    (created : Created (Dag.quietDefinitionLint.withApprovals reviewReaders.duration)
      (signoffDefinition onTimeout) (signoffRun onTimeout)) :
    GateHistory (Dag.quietDefinitionLint.withApprovals reviewReaders.duration) signoffEnvironment
      reviewReaders [signoffWaiting onTimeout, signoffClaimed onTimeout, signoffRun onTimeout] := by
  refine .acted (.acted (.created created) (by simp) trivial)
    (by simp) ?_
  exact ⟨signoffConfig onTimeout, signoffConfig onTimeout, _, mem_cons_self, ⟨rfl, rfl, rfl⟩,
    rfl, rfl⟩

end Signoff

theorem signoff_expires :
    (signoffExpiry (some .approve)).loses 14 (signoffWaiting (some .approve)) ∨
      TimedOut 9 "g" (signoffWaiting (some .approve))
        (act signoffEnvironment (signoffExpiry (some .approve)) 14
          (signoffWaiting (some .approve))) :=
  (timeout_applies_iff Dag.quietDefinitionLint Dag.quietPlanLint (fun _ _ => true) reviewReaders
    (signoffWaiting (some .approve)) _ (signoffWaiting_history ⟨"", none, 1, rfl⟩) (by decide)
    (signoffGate (some .approve)) (by decide) (signoffConfig (some .approve)) rfl
    (signoffWaiting (some .approve)) (signoffWaiting (some .approve)) mem_cons_self
    mem_cons_self signoffApproval 14 (by decide) (by decide)
    ⟨signoffApproval, by decide, rfl⟩ _ (fun _ => .ok true) _ rfl).mpr
      (.inr (.inr ⟨.inl rfl, .inr fun edge inside _ _ => absurd inside (by decide +revert)⟩))

/-- A definition that validates leaves the policy to the default; the expiry then records a
rejection, which the gate does not allow, and nothing changes. -/
theorem signoff_refused :
    GateHistory (Dag.quietDefinitionLint.withApprovals reviewReaders.duration) signoffEnvironment
        reviewReaders [signoffWaiting none, signoffClaimed none, signoffRun none] ∧
      dueApproval "g" (signoffWaiting none) 14 = some signoffApproval ∧
      ((signoffExpiry none).exec signoffEnvironment 14 (signoffWaiting none)).1 =
        .error (.engine "decide" "invalid decision: decision is not in the gate's allowed set") ∧
      ¬((signoffExpiry none).loses 14 (signoffWaiting none) ∨ TimedOut 9 "g" (signoffWaiting none)
          (act signoffEnvironment (signoffExpiry none) 14 (signoffWaiting none))) := by
  have pending : (act signoffEnvironment (signoffExpiry none) 14
      (signoffWaiting none)).approvals = [signoffApproval] := by decide
  refine ⟨signoffWaiting_history ⟨"", none, 1, rfl⟩, by decide, by rfl, ?_⟩
  rintro (⟨_, contested, resolved | ⟨marks, _⟩⟩ | ⟨⟨a, inside, _, expired⟩, _⟩ |
    ⟨_, ⟨a, inside, _, marked⟩, _⟩)
  · cases contested
    revert resolved
    decide
  · revert marks
    decide
  · rw [pending, mem_singleton] at inside
    subst inside
    cases expired
  · rw [pending, mem_singleton] at inside
    subst inside
    cases marked

end Agentloom.Engine
