import Agentloom.Engine.Approvals
import Agentloom.Engine.Flow
import Agentloom.Engine.Motion

/-! Dispatch rows are written for steps that have begun: a fan-out dispatches what it made ready, an
expansion its entry steps, a heal the step it took over. -/

namespace Agentloom.Engine

open Transaction Store Relation List Tx

variable {s s' : RunStore} {now : Time}

def silent : Leave := ⟨fun _ => True, False, True⟩

theorem outbox_subset (drifts : Drifts silent s s') (unique : UniqueSteps s) :
    s'.outbox ⊆ s.outbox := by
  have chain := drifts unique
  clear drifts
  induction chain with
  | refl => exact fun _ mem => mem
  | tail _ motion ih =>
    refine List.Subset.trans ?_ ih
    cases motion with
    | kept _ _ outbox _ => exact outbox.elim id False.elim
    | turned _ _ _ outbox _ =>
      rw [outbox]
      exact fun _ mem => mem
    | resolved _ _ _ _ _ outbox _ =>
      rw [outbox]
      exact fun _ mem => mem

structure SameWork (s s' : RunStore) : Prop where
  steps : s'.steps = s.steps
  outbox : s'.outbox = s.outbox

theorem SameWork.refl (s : RunStore) : SameWork s s := ⟨rfl, rfl⟩

theorem SameWork.trans (s s' s'' : RunStore) (first : SameWork s s') (second : SameWork s' s'') :
    SameWork s s'' :=
  ⟨second.steps.trans first.steps, second.outbox.trans first.outbox⟩

abbrev Idles {α : Type} (x : StoreTx α) : Prop := Tx.Ensures StoreError.isRefusal SameWork x

theorem Idles.of_runTransition (t : RunTransition) :
    Idles (dropping StoreError.isConflict t.run) := by
  refine Tx.Ensures.dropping (.intro ?_ ?_) fun e conflict => by
    cases e <;> first | rfl | exact conflict
  · intro s row s' ok
    obtain ⟨_, _, rfl⟩ := RunTransition.run_ok ok
    exact ⟨rfl, rfl⟩
  · intro s e s' failed _
    rw [(RunTransition.run_error failed).1]
    exact .refl s

theorem attemptRunRollup_idles (now : Time) : Idles (attemptRunRollup now) := by
  refine Tx.Ensures.bind SameWork.trans (Idles.of_runTransition _) fun succeeded => ?_
  cases succeeded with
  | some run => exact Tx.Ensures.pure SameWork.refl _
  | none =>
    refine Tx.Ensures.bind SameWork.trans (Idles.of_runTransition _) fun failed => ?_
    cases failed with
    | some run => exact Tx.Ensures.pure SameWork.refl _
    | none => exact Idles.of_runTransition _

theorem recordNotes_idles (stepID : String) (notes : List Note) (now : Time) :
    Idles (recordNotes stepID notes now columns) :=
  (recordNotes_beside stepID notes).mono fun _ _ beside => ⟨beside.steps, beside.outbox⟩

variable {id : String}

theorem Begun.of_steps (begun : Begun s id) (steps : s'.steps = s.steps) : Begun s' id := by
  unfold Begun
  rw [steps]
  exact begun

theorem isBegun_of_active (active : isActive status = true) : isBegun status = true := by
  cases status <;> first | rfl | cases active

theorem Begun.replaced (begun : Begun s id)
    (replaced : Table.Replaced s.steps s'.steps old new) (stepID : new.stepID = old.stepID)
    (keeps : isBegun old.status = true → isBegun new.status = true) : Begun s' id := by
  obtain ⟨row, mem, named, isBegun⟩ := begun
  rcases replaced.mem_or_old mem with rfl | inside
  · exact ⟨new, replaced.new_mem, stepID.trans named, keeps isBegun⟩
  · exact ⟨row, inside, named, isBegun⟩

def Dispatches (s s' : RunStore) : Prop :=
  ∀ entry ∈ s'.outbox, entry ∈ s.outbox ∨ Begun s' entry.stepID

theorem Dispatches.of_subset (subset : s'.outbox ⊆ s.outbox) : Dispatches s s' :=
  fun _ mem => .inl (subset mem)

theorem Dispatches.trans (first : Dispatches s s') (second : Dispatches s' s'')
    (begun : ∀ id, Begun s' id → Begun s'' id) : Dispatches s s'' := by
  intro entry mem
  rcases second entry mem with earlier | isBegun
  · exact (first entry earlier).imp_right (begun _)
  · exact .inr isBegun

variable {reason : OutboxReason} {u : Unit}

theorem dispatchAll_ok (ok : Tx.forEach ids (fun id => createOutbox id reason) s = (.ok u, s')) :
    s'.steps = s.steps ∧ ∀ entry ∈ s'.outbox, entry ∈ s.outbox ∨ entry.stepID ∈ ids := by
  induction ids generalizing s with
  | nil =>
    cases ok
    exact ⟨rfl, fun _ => .inl⟩
  | cons id rest ih =>
    obtain ⟨_, _, created, later⟩ := bind_ok ok
    cases created
    obtain ⟨steps, entries⟩ := ih later
    refine ⟨steps, fun entry mem => ?_⟩
    rcases entries entry mem with inside | listed
    · rcases mem_append.mp inside with old | new
      · exact .inl old
      · rw [mem_singleton.mp new]
        exact .inr mem_cons_self
    · exact .inr (mem_cons_of_mem _ listed)

theorem dispatchAll_dispatches (begun : ∀ id ∈ ids, Begun s id)
    (ok : Tx.forEach ids (fun id => createOutbox id reason) s = (.ok u, s')) :
    s'.steps = s.steps ∧ Dispatches s s' := by
  obtain ⟨steps, entries⟩ := dispatchAll_ok ok
  refine ⟨steps, fun entry mem => ?_⟩
  exact (entries entry mem).imp_right fun listed => (begun _ listed).of_steps steps

theorem redispatch_dispatches (ok : redispatch reason s = (.ok u, s')) :
    s'.steps = s.steps ∧ Dispatches s s' := by
  have rest := read_bind_ok ok
  refine dispatchAll_dispatches (fun id listed => ?_) rest
  obtain ⟨row, kept, rfl⟩ := mem_map.mp listed
  obtain ⟨mem, isReady⟩ := mem_filter.mp kept
  rw [Bool.and_eq_true, beq_iff_eq] at isReady
  refine ⟨row, (mem_insertionSort _).mp mem, rfl, ?_⟩
  rw [isReady.1]
  rfl

theorem Resolves.begun
    (resolves : Resolves verdict s s' edge old new) (begun : Begun s id) : Begun s' id := by
  refine begun.replaced resolves.steps resolves.stepID fun isBegun => ?_
  have moved : old.status ≠ .pending := by
    intro pending
    rw [pending] at isBegun
    cases isBegun
  rw [resolves.status, settle_of_ne moved]
  exact isBegun

theorem fanOut_begun (unique : UniqueSteps s) (ok : fanOut source now s = (.ok fan, s')) :
    UniqueSteps s' ∧ (∀ id, Begun s id → Begun s' id) ∧ ∀ id ∈ fan.readied, Begun s' id := by
  let Holds := fun (ids : List String) (u : RunStore) =>
    UniqueSteps u ∧ (∀ id, Begun s id → Begun u id) ∧ ∀ id ∈ ids, Begun u id
  have step : ∀ verdict ids u reaction u', Holds ids u →
      resolveVerdict verdict now u = (.ok reaction, u') →
      Holds (ids ++ reaction.readiedIDs) u' := by
    rintro verdict ids u reaction u' ⟨unique, kept, readied⟩ resolved
    rcases resolveVerdict_ok unique resolved with ⟨rfl, rfl, _⟩ | ⟨_, _, new, resolves, rfl⟩
    · have none : ids ++ Reaction.nothing.readiedIDs = ids := append_nil ids
      rw [none]
      exact ⟨unique, kept, readied⟩
    · refine ⟨resolves.toCounts.uniqueSteps unique, fun id begun => resolves.begun (kept id begun), ?_⟩
      intro id mem
      rcases mem_append.mp mem with earlier | now
      · exact resolves.begun (readied id earlier)
      · unfold reactionOf at now
        split at now
        · cases now
        · split at now
          · rename_i isReady
            rw [Reaction.readiedIDs, mem_singleton] at now
            exact ⟨new, resolves.steps.new_mem, now.symm, by rw [isReady]; rfl⟩
          · cases now
          · cases now
  exact fanOut_readied step ⟨unique, fun _ => id, by simp⟩ ok

theorem routeAndRollup_dispatches (unique : UniqueSteps s)
    (ok : routeAndRollup source now s = (.ok u, s')) :
    (∀ id, Begun s id → Begun s' id) ∧ Dispatches s s' := by
  obtain ⟨_, t, routed, rest⟩ := bind_ok ok
  obtain ⟨_, rolled⟩ := void_ok rest
  have same := (attemptRunRollup_idles now).of_ok rolled
  have after : (∀ id, Begun s id → Begun t id) ∧ Dispatches s t := by
    cases source with
    | none =>
      cases routed
      exact ⟨fun _ => id, .of_subset fun _ mem => mem⟩
    | some source =>
      obtain ⟨_, t₁, fanned, dispatched⟩ := bind_ok routed
      obtain ⟨_, kept, readied⟩ := fanOut_begun unique fanned
      obtain ⟨steps, dispatches⟩ := dispatchAll_dispatches readied dispatched
      have drifts : Drifts silent s t₁ := .of_sound (fanOut_sound source) fanned
      refine ⟨fun id begun => (kept id begun).of_steps steps, ?_⟩
      exact (Dispatches.of_subset (outbox_subset drifts unique)).trans dispatches
        fun id begun => begun.of_steps steps
  refine ⟨fun id begun => (after.1 id begun).of_steps same.steps, ?_⟩
  refine after.2.trans (.of_subset ?_) fun id begun => begun.of_steps same.steps
  rw [same.outbox]
  exact fun _ mem => mem

theorem Begun.expanded (begun : Begun s id) (args : ExpandRun) (origin : StepRow) (now : Time) :
    Begun (args.apply origin now s) id := by
  obtain ⟨row, mem, named, isBegun⟩ := begun
  refine ⟨args.widenRow now row, mem_append_left _ (mem_map_of_mem mem),
    (widenRow_stepID args now row).trans named, ?_⟩
  rw [(widenRow_place args now row).1]
  exact isBegun

theorem expandRun_dispatches (ok : expandRun lint args now s = (.ok result, s')) :
    (∀ id, Begun s id → Begun s' id) ∧ Dispatches s s' := by
  obtain ⟨origin, _, _, _, announced⟩ := expandRun_ok ok
  obtain ⟨_, t, noted, dispatched⟩ := bind_ok announced
  have idles : Idles (Tx.forEach args.readied fun id => appendEvent (.stepReady id)) :=
    Tx.Ensures.forEach SameWork.trans SameWork.refl fun _ _ => Tx.Ensures.write fun _ => ⟨rfl, rfl⟩
  have same := idles.of_ok noted
  have readied : ∀ id ∈ args.readied, Begun t id := by
    intro id listed
    obtain ⟨inDelta, none⟩ := mem_filter.mp listed
    obtain ⟨step, mem, rfl⟩ := mem_map.mp inDelta
    refine Begun.of_steps (s := args.apply origin now s) ?_ same.steps
    refine ⟨_, mem_append_right _ (mem_map_of_mem mem), rfl, ?_⟩
    have entry : inDegree args.plan.edges step.id = 0 := by simpa using none
    simp only [stepRowParams, entry, if_true]
    rfl
  obtain ⟨steps, dispatches⟩ := dispatchAll_dispatches readied dispatched
  constructor
  · intro id begun
    exact ((begun.expanded args origin now).of_steps same.steps).of_steps steps
  · intro entry mem
    rcases dispatches entry mem with inside | begun
    · rw [same.outbox] at inside
      exact .inl inside
    · exact .inr begun

section Actions

variable {env : Environment} (unique : UniqueSteps s)

include unique

theorem succeed_dispatches (ok : completeSuccess env.lint args now s = (.ok u, s')) :
    Dispatches s s' := by
  obtain ⟨_, t, settled, routed⟩ := bind_ok ok
  have reaches : Reaches env.lint .all s t :=
    (settleSuccess_sound trivial trivial args fun _ _ => trivial).of_ok settled
  obtain ⟨begun, dispatches⟩ :=
    routeAndRollup_dispatches (uniqueSteps_of_chain (reaches unique) unique) routed
  refine Dispatches.trans ?_ dispatches begun
  have rest₁ := lockRunStatus_bind_ok settled
  obtain ⟨_, _, succeeded, rest₂⟩ := bind_ok rest₁
  obtain ⟨_, s₃, noted, rest₃⟩ := bind_ok rest₂
  have drifts : Drifts silent s s₃ := .trans _ _ _
    (.of_sound (succeedStep_sound _ _ _ _) succeeded) (recordNotes_drifts noted)
  have quiet := Dispatches.of_subset (outbox_subset drifts unique)
  unfold sourceOfSuccess at rest₃
  split at rest₃
  · cases rest₃
    exact quiet
  · obtain ⟨_, s₄, grown, rest₄⟩ := bind_ok rest₃
    obtain ⟨_, _, looped, rest₅⟩ := bind_ok rest₄
    obtain ⟨_, _, planned, rest₆⟩ := bind_ok rest₅
    cases rest₆
    obtain ⟨rfl, _⟩ := terminalSource_ok (fun _ _ => rfl) planned
    have same := (recordNotes_idles _ _ _).of_ok looped
    have last : Dispatches s₄ t := by
      refine .of_subset ?_
      rw [same.outbox]
      exact fun _ mem => mem
    have kept : ∀ id, Begun s₄ id → Begun t id := fun id begun => begun.of_steps same.steps
    cases expansion : args.expansion with
    | none =>
      rw [expansion] at grown
      cases grown
      exact quiet.trans last kept
    | some plan =>
      rw [expansion] at grown
      obtain ⟨_, expanded⟩ := void_ok grown
      obtain ⟨begun', dispatches'⟩ := expandRun_dispatches expanded
      exact (quiet.trans dispatches' begun').trans last kept

theorem routed_dispatches
    (drifts : Drifts silent s t) (routed : routeAndRollup source now t = (.ok u, s')) :
    Dispatches s s' := by
  obtain ⟨begun, dispatches⟩ := routeAndRollup_dispatches (drifts.uniqueSteps unique) routed
  exact (Dispatches.of_subset (outbox_subset drifts unique)).trans dispatches begun

theorem decide_dispatches
    (ok : Engine.decide satisfies args seen now s = (.ok u, s')) : Dispatches s s' := by
  unfold Engine.decide at ok
  cases admitted : admitDecision satisfies args seen with
  | error e =>
    simp [admitted] at ok
  | ok rows =>
    rw [admitted] at ok
    obtain ⟨source, t, settled, routed⟩ := bind_ok ok
    have drifts : Drifts silent s t := .of_sound (settleDecision_sound trivial _ _ _) settled
    cases source with
    | some source => exact routed_dispatches unique drifts routed
    | none =>
      cases routed
      exact .of_subset (outbox_subset drifts unique)

theorem collect_dispatches (ok : completeCollected args now s = (.ok u, s')) : Dispatches s s' := by
  have rest := lockRunStatus_bind_ok ok
  split at rest
  · exact .of_subset (outbox_subset (.of_sound (settleCancelled_sound _ _ _) rest) unique)
  · obtain ⟨_, t, settled, routed⟩ := bind_ok rest
    exact routed_dispatches unique (.of_sound (settleCollected_sound args fun _ _ =>
      trivial) settled) routed

theorem redispatched (drifts : Drifts silent s t) (ok : redispatch reason t = (.ok u, s')) :
    Dispatches s s' := by
  obtain ⟨steps, dispatches⟩ := redispatch_dispatches ok
  exact (Dispatches.of_subset (outbox_subset drifts unique)).trans dispatches
    fun id begun => begun.of_steps steps

theorem invalidate_dispatches {stepID claimID failure notes validationRoute}
    (ok : completeValidationFailure stepID claimID failure notes validationRoute now s = (.ok u, s')) :
    Dispatches s s' := by
  have rest := lockRunStatus_bind_ok ok
  split at rest
  · exact .of_subset (outbox_subset (.of_sound (settleCancelled_sound _ _ _) rest) unique)
  cases validationRoute with
  | bury error =>
    exact .of_subset (outbox_subset
      (.of_sound (buryStep_sound _ _ _ _ _ fun _ _ => trivial) rest) unique)
  | semanticRetry feedback semanticAttempt maxAttempts issueCount =>
    obtain ⟨_, s₂, retried, rest₂⟩ := bind_ok rest
    obtain ⟨_, _, created, noted⟩ := bind_ok rest₂
    cases created
    have same := (recordNotes_idles _ _ _).of_ok noted
    have drifts : Drifts silent s s₂ := .of_sound (semanticRetryStep_sound _ _ _ _) retried
    have rest₃ := requireNow_bind_ok retried
    have rest₄ := requireArgument_bind_ok rest₃
    obtain ⟨_, named, _, rfl, shifted⟩ := shifted_of_run rest₄ (semanticRetry_moves _ _ _ _)
    intro entry mem
    rw [same.outbox] at mem
    rcases mem_append.mp mem with inside | new
    · exact .inl (outbox_subset drifts unique inside)
    · rw [mem_singleton.mp new]
      refine .inr (Begun.of_steps (s := s₂) ?_ same.steps)
      exact ⟨_, shifted.replaced.new_mem, named, rfl⟩

theorem healRunning_dispatches
    (ok : healRunningStep stepID claimID hasPendingOutbox now s = (.ok u, s')) :
    Dispatches s s' := by
  obtain ⟨taken, s₁, dropped, rest⟩ := bind_ok ok
  have drifts : Drifts silent s s₁ := .of_sound (takeoverStep_sound _ _ _).conflicts dropped
  have quiet := Dispatches.of_subset (outbox_subset drifts unique)
  cases taken with
  | none =>
    cases rest
    exact quiet
  | some row =>
    dsimp only at rest
    split at rest
    · cases rest
      exact quiet
    · cases rest
      unfold dropping at dropped
      split at dropped
      · rename_i ran
        cases dropped
        obtain ⟨_, named, _, rfl, shifted⟩ := shifted_of_run ran (takeover_moves _ _ _)
        intro entry mem
        rcases mem_append.mp mem with inside | new
        · exact .inl (outbox_subset drifts unique inside)
        · rw [mem_singleton.mp new]
          exact .inr ⟨_, shifted.replaced.new_mem, named, rfl⟩
      · split at dropped <;> cases dropped

theorem act_dispatches {action} (unswept : ∀ stepID reason, action ≠ .enqueue stepID reason) :
    Dispatches s (act env action now s) := by
  unfold act commit
  split
  on_goal 2 => exact .of_subset fun _ mem => mem
  rename_i s' ok
  by_cases sends : action.sends = true
  · cases action with
    | succeed args => exact succeed_dispatches unique ok
    | collect args => exact collect_dispatches unique ok
    | invalidate => exact invalidate_dispatches unique ok
    | requeue stepID =>
      obtain ⟨_, _, requeued, rest₁⟩ := bind_ok ok
      obtain ⟨_, s₂, reopened, rest₂⟩ := bind_ok rest₁
      have rest₃ := read_bind_ok rest₂
      obtain ⟨_, s₄, revived, rest₄⟩ := bind_ok rest₃
      have reopens : Drifts silent s s₂ := .trans _ _ _
        (.of_sound (requeueStep_sound _ _) requeued) (.of_sound reopen_sound reopened)
      have revives : Drifts silent s₂ s₄ :=
        .of_sound (Sound.forEach fun id _ => (reviveStep_sound id _ _).void) revived
      exact redispatched unique (.trans _ _ _ reopens revives) rest₄
    | unpark =>
      obtain ⟨_, t, unparked, rest⟩ := bind_ok ok
      exact redispatched unique (.of_sound (unparkRun_sound now) unparked) rest
    | decide args seen => exact decide_dispatches unique ok
    | timeout stepID output evaluator seen later =>
      rcases handleApprovalTimeout_ok ok with ⟨_, rfl⟩ | ⟨_, _, ⟨_, parked⟩ | ⟨_, _, decided⟩⟩
      · exact .of_subset fun _ mem => mem
      · obtain ⟨_, parked⟩ := void_ok parked
        exact .of_subset (outbox_subset (.of_sound
          (expireApprovalPark_sound now trivial _) parked) unique)
      · exact decide_dispatches unique decided
    | healRunning => exact healRunning_dispatches unique ok
    | enqueue stepID reason => exact absurd rfl (unswept stepID reason)
    | _ => cases sends
  · have sound : Sound env.lint silent.permits (action.exec env now) := Action.exec_sound
      { sends := fun isSends => sends isSends
        expands := by rintro args rfl; exact sends rfl }
    exact .of_subset (outbox_subset (.of_reaches (sound.of_ok ok)) unique)

end Actions

end Agentloom.Engine
