import Agentloom.Engine.Commits
import Agentloom.Engine.Ledger
import Agentloom.Engine.Failures

/-! What a settlement charges. The transition that closes the attempt comes first, then the charges
of the attempt; nothing else of the transaction touches the ledger. So an attempt that is still open
has no charges but those of its context. -/

namespace Agentloom.Engine

open Transaction Store Relation

theorem chargesOf_cons (note : Note) (rest : List Note) :
    chargesOf (note :: rest) = chargesOf [note] ++ chargesOf rest := by
  cases note <;> rfl

theorem Affordable.append :
    Affordable (first ++ second) spent saved ↔ Affordable first spent saved ∧
      Affordable second (spent + (first.map AttemptCost.costNanoUSD).sum)
        (saved + (first.map AttemptCost.savedNanoUSD).sum) := by
  induction first generalizing spent saved with
  | nil => simp [Affordable]
  | cons charge rest ih => simp [Affordable, ih, and_assoc, Int.add_assoc]

structure Unbooked (charges : List AttemptCost) (now : Time) (s : RunStore) : Prop where
  fresh : ∀ charge ∈ charges, ∀ row ∈ s.costs, row.key ≠ (charge.row now).key
  distinct : (charges.map fun charge => (charge.row now).key).Nodup

theorem Unbooked.rest
    (unbooked : Unbooked (first ++ second) now s) (charged : Charged first now s s') :
    Unbooked second now s' := by
  have distinct := unbooked.distinct
  rw [List.map_append, List.nodup_append] at distinct
  refine ⟨fun charge mem row inside same => ?_, distinct.2.1⟩
  rw [charged.costs] at inside
  rcases List.mem_append.mp inside with old | new
  · exact unbooked.fresh charge (List.mem_append_right _ mem) row old same
  · obtain ⟨_, isOther, rfl⟩ := List.mem_map.mp new
    exact distinct.2.2 _ (List.mem_map_of_mem isOther) _ (List.mem_map_of_mem mem) same

theorem recordNote_charges (ok : recordNote stepID now note columns s = (.ok u, s')) :
    Affordable (chargesOf [note]) s.run.spentNanoUSD s.run.savedNanoUSD ∧
      Charged (chargesOf [note]) now s s' := by
  cases note with
  | charge args =>
    obtain ⟨_, applied⟩ := Tx.void_ok ok
    exact applyAttemptCost_charges applied
  | event op type payload =>
    have recorded := requireNow_bind_ok (requireArgument_bind_ok ok)
    cases recorded
    exact ⟨trivial, by simp [chargesOf, RunStore.record], by simp [chargesOf, RunStore.record],
      by simp [chargesOf, RunStore.record]⟩

theorem recordNotes_charges (ok : recordNotes stepID notes now columns s = (.ok u, s')) :
    Affordable (chargesOf notes) s.run.spentNanoUSD s.run.savedNanoUSD ∧
      Charged (chargesOf notes) now s s' := by
  induction notes generalizing s with
  | nil =>
    cases ok
    exact ⟨trivial, .nil ⟨rfl, rfl, rfl, rfl, rfl⟩⟩
  | cons note rest ih =>
    obtain ⟨_, _, first, later⟩ := Tx.bind_ok ok
    obtain ⟨affordable, charged⟩ := recordNote_charges first
    obtain ⟨affordable', charged'⟩ := ih later
    rw [chargesOf_cons]
    rw [charged.spent, charged.saved] at affordable'
    exact ⟨Affordable.append.mpr ⟨affordable, affordable'⟩, charged.append charged'⟩

def Note.taken (columns : Columns) : Note → Bool
  | .charge _ => true
  | .event _ _ payload => columns.json payload

theorem recordNotes_taken (ok : recordNotes stepID notes now columns s = (.ok u, s')) :
    ∀ note ∈ notes, note.taken columns = true := by
  induction notes generalizing s with
  | nil => simp
  | cons note rest ih =>
    obtain ⟨_, _, first, later⟩ := Tx.bind_ok ok
    refine List.forall_mem_cons.mpr ⟨?_, ih later⟩
    cases note with
    | charge args => rfl
    | event op type payload =>
      obtain ⟨_, _, accepted, _⟩ := Tx.bind_ok first
      exact (requireArgument_ok accepted).1

theorem recordNote_yields (timed : now ≠ 0) (taken : note.taken columns = true)
    (affordable : Affordable (chargesOf [note]) s.run.spentNanoUSD s.run.savedNanoUSD)
    (unbooked : Unbooked (chargesOf [note]) now s) :
    Tx.Yields (recordNote stepID now note columns) s fun _ _ => True := by
  cases note with
  | charge args =>
    exact (applyAttemptCost_yields timed affordable
      (unbooked.fresh args (by simp [mem_chargesOf]))).void fun _ _ _ => trivial
  | event op type payload =>
    exact (requireArgument_yields taken).bind fun _ _ _ =>
      (requireNow_yields timed _).bind fun _ _ _ => .write trivial

theorem recordNotes_yields (timed : now ≠ 0) (taken : ∀ note ∈ notes, note.taken columns = true)
    (affordable : Affordable (chargesOf notes) s.run.spentNanoUSD s.run.savedNanoUSD)
    (unbooked : Unbooked (chargesOf notes) now s) :
    Tx.Yields (recordNotes stepID notes now columns) s fun _ s' =>
      Beside s s' ∧ Charged (chargesOf notes) now s s' := by
  have recorded : Tx.Yields (recordNotes stepID notes now columns) s fun _ _ => True := by
    refine (Tx.Yields.forEach (fun rest s => (∀ note ∈ rest, note.taken columns = true) ∧
      Affordable (chargesOf rest) s.run.spentNanoUSD s.run.savedNanoUSD ∧
        Unbooked (chargesOf rest) now s) ?_ ⟨taken, affordable, unbooked⟩).mono fun _ _ _ => trivial
    rintro note rest s ⟨taken, affordable, unbooked⟩
    obtain ⟨isTaken, areTaken⟩ := List.forall_mem_cons.mp taken
    rw [chargesOf_cons] at affordable unbooked
    obtain ⟨first, later⟩ := Affordable.append.mp affordable
    have distinct := unbooked.distinct
    rw [List.map_append, List.nodup_append] at distinct
    obtain ⟨u, s', ok, _⟩ := recordNote_yields timed isTaken first
      ⟨fun charge mem => unbooked.fresh charge (List.mem_append_left _ mem), distinct.1⟩
    have charged := (recordNote_charges ok).2
    refine ⟨u, s', ok, areTaken, ?_, unbooked.rest charged⟩
    rw [charged.spent, charged.saved]
    exact later
  obtain ⟨u, s', ok, _⟩ := recorded
  exact ⟨u, s', ok, (recordNotes_beside stepID notes).of_ok ok, (recordNotes_charges ok).2⟩

def AttemptClosed (stepID : String) (number : Nat) (s : RunStore) : Prop :=
  ∃ row ∈ s.attempts, row.stepID = stepID ∧ row.attemptNo = number ∧ row.outcome ≠ none

def uncharging : Permits := { Permits.all with charges := fun _ => False }

section Effects

variable {may : Permits}

theorem AttemptClosed.finished (closed : AttemptClosed stepID number s)
    (finished : Finished s.attempts attempts step now finish) (after : s'.attempts = attempts) :
    AttemptClosed stepID number s' := by
  obtain ⟨row, mem, named, numbered, outcome⟩ := closed
  subst after
  cases finish with
  | none => exact ⟨row, finished.symm ▸ mem, named, numbered, outcome⟩
  | some finish =>
    obtain ⟨_, _, _, replaced⟩ := finished
    rcases replaced.mem_or_old mem with rfl | kept
    · exact ⟨_, replaced.new_mem, named, numbered, nofun⟩
    · exact ⟨row, kept, named, numbered, outcome⟩

theorem Effect.attemptClosed (effect : Effect lint may s s')
    (closed : AttemptClosed stepID number s) : AttemptClosed stepID number s' := by
  cases effect with
  | moved _ _ _ finished _ _ _ => exact closed.finished finished rfl
  | claimed _ _ _ _ _ _ _ _ _ =>
    obtain ⟨row, mem, rest⟩ := closed
    exact ⟨row, List.mem_append_left _ mem, rest⟩
  | _ => exact closed

theorem Reaches.attemptClosed (reaches : Reaches lint may s s')
    (unique : UniqueSteps s) (closed : AttemptClosed stepID number s) :
    AttemptClosed stepID number s' := by
  have chain := reaches unique
  clear reaches
  induction chain with
  | refl => exact closed
  | tail _ effect ih => exact Effect.attemptClosed effect ih

theorem Effect.costs (effect : Effect lint may s s') :
    ∀ row ∈ s'.costs, row ∈ s.costs ∨ may.charges row := by
  intro row mem
  cases effect with
  | charged _ _ charges =>
    rcases List.mem_append.mp mem with old | new
    · exact .inl old
    · rw [List.mem_singleton.mp new]
      exact .inr charges
  | _ => exact .inl mem

theorem Reaches.costs (reaches : Reaches lint may s s') (unique : UniqueSteps s) :
    ∀ row ∈ s'.costs, row ∈ s.costs ∨ may.charges row := by
  have chain := reaches unique
  clear reaches
  induction chain with
  | refl => exact fun _ => .inl
  | tail _ effect ih =>
    intro row mem
    rcases Effect.costs effect row mem with earlier | charged
    · exact ih row earlier
    · exact .inr charged

theorem Reaches.costs_kept (reaches : Reaches lint uncharging s s') (unique : UniqueSteps s) :
    s'.costs = s.costs := by
  have chain := reaches unique
  clear reaches
  induction chain with
  | refl => rfl
  | tail _ effect ih =>
    rw [← ih]
    cases effect with
    | charged _ _ charges => exact charges.elim
    | _ => rfl

end Effects

structure Settlement where
  stepID : String
  claimID : ClaimID
  notes : List Note

def Action.settlement : Action → Option Settlement
  | .succeed args => some ⟨args.stepID, args.claimID, args.notes⟩
  | .fail stepID claimID _ notes _ => some ⟨stepID, claimID, notes⟩
  | .collect args => some ⟨args.stepID, args.claimID, args.notes⟩
  | .invalidate stepID claimID _ notes _ => some ⟨stepID, claimID, notes⟩
  | _ => none

def Action.isSuccess : Action → Bool
  | .succeed _ => true
  | _ => false

def Action.Loops : Action → Prop
  | .succeed args => chargesOf args.loopNotes = []
  | _ => True

structure Booked (lint : Dag.PlanLint) (settlement : Settlement) (now : Time) (s s' : RunStore)
    (held : StepRow) (s₁ s₂ : RunStore) : Prop where
  member : held ∈ s.steps
  named : held.stepID = settlement.stepID
  holds : heldBy settlement.claimID held = true
  closed : AttemptClosed held.stepID held.attemptCount s₁
  before : Reaches lint uncharging s s₁
  noted : ∃ columns, recordNotes settlement.stepID settlement.notes now columns s₁ = (.ok (), s₂)
  after : Reaches lint uncharging s₂ s'

section Settling

theorem closed_of_run {t : StepTransition} (ok : t.run s = (.ok row, s'))
    (moves : t.Moves) (finishes : t.finish.isSome = true) :
    ∃ held ∈ s.steps, held.stepID = t.stepID ∧ t.guard held = true ∧
      AttemptClosed held.stepID held.attemptCount s' := by
  obtain ⟨held, _, _, _, _, named, guarded, rfl, replaced, finished, _, rfl⟩ :=
    StepTransition.run_ok ok
  have same := (moves held guarded).toSameStep
  refine ⟨held, replaced.old_mem, named, guarded, ?_⟩
  obtain ⟨_, isFinish⟩ := Option.isSome_iff_exists.mp finishes
  rw [isFinish] at finished
  obtain ⟨_, ofStep, number, closed⟩ := finished
  exact ⟨_, closed.new_mem, ofStep.trans same.stepID, number.trans same.attemptCount, nofun⟩

theorem run_books {t : StepTransition} (ok : t.run s = (.ok row, s')) :
    s'.costs = s.costs ∧ s'.run.spentNanoUSD = s.run.spentNanoUSD ∧
      s'.run.savedNanoUSD = s.run.savedNanoUSD := by
  obtain ⟨_, _, _, _, _, _, _, _, _, _, _, rfl⟩ := StepTransition.run_ok ok
  exact ⟨rfl, rfl, rfl⟩

variable {claimID : ClaimID} {notes : List Note}

theorem completeSuccess_booked {args : Success} (loops : chargesOf args.loopNotes = [])
    (ok : completeSuccess lint args now s = (.ok u, s')) :
    ∃ held s₁ s₂, Booked lint ⟨args.stepID, args.claimID, args.notes⟩ now s s' held s₁ s₂ := by
  obtain ⟨source, _, settled, routed⟩ := Tx.bind_ok ok
  have rest := lockRunStatus_bind_ok settled
  obtain ⟨_, s₁, succeeded, rest₁⟩ := Tx.bind_ok rest
  obtain ⟨_, s₂, noted, rest₂⟩ := Tx.bind_ok rest₁
  obtain ⟨held, mem, named, guarded, closed⟩ :=
    closed_of_run (requireArgument_bind_ok succeeded) (succeed_moves _ _ _ _) rfl
  have sourced : Sound lint uncharging (sourceOfSuccess lint args s.run.status now) :=
    sourceOfSuccess_sound trivial trivial args _ (by rw [loops]; exact nofun)
  exact ⟨held, s₁, s₂, mem, named, guarded, closed, (succeedStep_sound _ _ _ _).of_ok succeeded,
    ⟨_, noted⟩, .trans _ _ _ (sourced.of_ok rest₂) ((routeAndRollup_sound trivial source).of_ok routed)⟩

theorem buryStep_booked {source : DeadLetterSource} {failure u}
    (ok : buryStep stepID claimID source failure notes now s = (.ok u, s')) :
    ∃ held s₁ s₂, Booked lint ⟨stepID, claimID, notes⟩ now s s' held s₁ s₂ := by
  obtain ⟨_, s₁, buried, rest₁⟩ := Tx.bind_ok ok
  obtain ⟨_, s₂, noted, rest₂⟩ := Tx.bind_ok rest₁
  obtain ⟨held, mem, named, guarded, closed⟩ := closed_of_run (deadLetterStep_run buried)
    (deadLetter_moves _ _ _ _ _) rfl
  have disposed : Sound lint uncharging (lockRun >>= fun run =>
      (deadLetterDisposition run.onFailure now).void) :=
    lockRun_sound.bind fun _ => (deadLetterDisposition_sound _).void
  exact ⟨held, s₁, s₂, mem, named, guarded, closed,
    (deadLetterStep_sound _ _ _ _ _).of_ok buried, ⟨_, noted⟩, disposed.of_ok rest₂⟩

theorem failureRoute_booked {failure : Failure} {failureRoute : FailureRoute} {u}
    (ok : failureRoute.settle stepID claimID failure notes now s = (.ok u, s')) :
    ∃ held s₁ s₂, Booked lint ⟨stepID, claimID, notes⟩ now s s' held s₁ s₂ := by
  cases failureRoute with
  | retry nextAttemptAt =>
    obtain ⟨_, s₁, retried, noted⟩ := Tx.bind_ok ok
    obtain ⟨held, mem, named, guarded, closed⟩ := closed_of_run (retryStep_run retried)
      (retry_moves _ _ _ _ _) rfl
    exact ⟨held, s₁, s', mem, named, guarded, closed,
      (retryStep_sound _ _ _ _ _).of_ok retried, ⟨_, noted⟩, .refl _⟩
  | bury exhausted => exact buryStep_booked ok

theorem settleCollected_booked {args : Collected}
    (ok : (settleCollected args now >>= fun source => routeAndRollup (some source) now) s =
      (.ok u, s')) :
    ∃ held s₁ s₂, Booked lint ⟨args.stepID, args.claimID, args.notes⟩ now s s' held s₁ s₂ := by
  obtain ⟨_, _, settled, routed⟩ := Tx.bind_ok ok
  obtain ⟨_, s₁, collected, rest₁⟩ := Tx.bind_ok settled
  obtain ⟨_, s₂, noted, planned⟩ := Tx.bind_ok rest₁
  obtain ⟨held, mem, named, guarded, closed⟩ := closed_of_run collected
    (collectFail_moves _ _ _ _ _) rfl
  exact ⟨held, s₁, s₂, mem, named, guarded, closed,
    (collectFailStep_sound _ _ _ _ _).of_ok collected, ⟨_, noted⟩,
    .trans _ _ _ ((terminalSource_sound _ _ _ _).of_ok planned)
      ((routeAndRollup_sound trivial _).of_ok routed)⟩

theorem validationRoute_booked {failure : Failure} {validationRoute : ValidationRoute} {u}
    (ok : validationRoute.settle stepID claimID failure notes now s = (.ok u, s')) :
    ∃ held s₁ s₂, Booked lint ⟨stepID, claimID, notes⟩ now s s' held s₁ s₂ := by
  cases validationRoute with
  | semanticRetry feedback semanticAttempt maxAttempts issueCount =>
    obtain ⟨_, s₀, retried, rest⟩ := Tx.bind_ok ok
    obtain ⟨_, s₁, queued, noted⟩ := Tx.bind_ok rest
    obtain ⟨held, mem, named, guarded, closed⟩ := closed_of_run (semanticRetryStep_run retried)
      (semanticRetry_moves _ _ _ _) rfl
    have first : Reaches lint uncharging s s₀ :=
      (semanticRetryStep_sound _ _ _ _).of_ok retried
    have second : Reaches lint uncharging s₀ s₁ := (createOutbox_sound trivial _ _).of_ok queued
    have closed₁ : AttemptClosed held.stepID held.attemptCount s₁ := by
      cases queued
      exact closed
    exact ⟨held, s₁, s', mem, named, guarded, closed₁, .trans _ _ _ first second, ⟨_, noted⟩, .refl _⟩
  | bury error => exact buryStep_booked ok

theorem unlessCancelling_booked (booked : ∀ u s', otherwise s = (.ok u, s') →
      ∃ held s₁ s₂, Booked lint settlement now s s' held s₁ s₂)
    (ok : unlessCancelling stepID claimID error now otherwise s = (.ok u, s')) :
    s.run.status = .cancelling ∧ Reaches lint uncharging s s' ∨
      s.run.status ≠ .cancelling ∧ ∃ held s₁ s₂, Booked lint settlement now s s' held s₁ s₂ := by
  have rest := lockRunStatus_bind_ok ok
  split at rest
  · rename_i cancelling
    exact .inl ⟨cancelling, (settleCancelled_sound _ _ _).of_ok rest⟩
  · rename_i live
    exact .inr ⟨live, booked _ _ rest⟩

/-- A settlement that commits books the attempt, unless the run is cancelling and the attempt did
not succeed: such a step is cancelled and its charges are dropped. -/
theorem exec_booked {action : Action}
    (settles : action.settlement = some settlement) (loops : action.Loops)
    (ok : action.exec env now s = (.ok u, s')) :
    ((s.run.status = .cancelling ∧ action.isSuccess = false) ∧ Reaches env.lint uncharging s s') ∨
      ((s.run.status ≠ .cancelling ∨ action.isSuccess = true) ∧
        ∃ held s₁ s₂, Booked env.lint settlement now s s' held s₁ s₂) := by
  cases action <;> cases settles
  case succeed args => exact .inr ⟨.inr rfl, completeSuccess_booked loops ok⟩
  case fail stepID claimID failure notes failureRoute =>
      rcases unlessCancelling_booked (fun _ _ => failureRoute_booked) ok with
        ⟨cancelling, reaches⟩ | ⟨live, booked⟩
      · exact .inl ⟨⟨cancelling, rfl⟩, reaches⟩
      · exact .inr ⟨.inl live, booked⟩
  case collect args =>
      rcases unlessCancelling_booked (fun _ _ => settleCollected_booked) ok with
        ⟨cancelling, reaches⟩ | ⟨live, booked⟩
      · exact .inl ⟨⟨cancelling, rfl⟩, reaches⟩
      · exact .inr ⟨.inl live, booked⟩
  case invalidate stepID claimID failure notes validationRoute =>
      rcases unlessCancelling_booked (fun _ _ => validationRoute_booked) ok with
        ⟨cancelling, reaches⟩ | ⟨live, booked⟩
      · exact .inl ⟨⟨cancelling, rfl⟩, reaches⟩
      · exact .inr ⟨.inl live, booked⟩

theorem Booked.costs
    (booked : Booked lint settlement now s s' held s₁ s₂) (unique : UniqueSteps s) :
    s'.costs = s.costs ++ (chargesOf settlement.notes).map (AttemptCost.row · now) := by
  have unique₁ := uniqueSteps_of_chain (booked.before unique) unique
  obtain ⟨_, noted⟩ := booked.noted
  have noting : Reaches lint .all s₁ s₂ := (recordNotes_sound _ _ fun _ _ => trivial).of_ok noted
  rw [Reaches.costs_kept booked.after (uniqueSteps_of_chain (noting unique₁) unique₁),
    (recordNotes_charges noted).2.costs, Reaches.costs_kept booked.before unique]

theorem Booked.closes
    (booked : Booked lint settlement now s s' held s₁ s₂) (unique : UniqueSteps s) :
    AttemptClosed held.stepID held.attemptCount s' := by
  have unique₁ := uniqueSteps_of_chain (booked.before unique) unique
  obtain ⟨_, noted⟩ := booked.noted
  have noting : Reaches lint .all s₁ s₂ := (recordNotes_sound _ _ fun _ _ => trivial).of_ok noted
  exact Reaches.attemptClosed booked.after (uniqueSteps_of_chain (noting unique₁) unique₁)
    (Reaches.attemptClosed noting unique₁ booked.closed)

end Settling

structure AttemptCharges (held : StepRow) (charges : List AttemptCost) (now : Time) : Prop where
  attempt : ∀ charge ∈ charges, charge.stepID = held.stepID ∧ charge.attempt = held.attemptCount
  entries : ∀ charge ∈ charges, ¬(charge.row now).Compacts
  distinct : (charges.map fun charge => (charge.row now).entry).Nodup

/-- A settlement charges the attempt it settles; anything else charges the compaction of a
context. -/
def Action.Priced (action : Action) (now : Time) (s : RunStore) : Prop :=
  action.Loops ∧ match action.settlement with
    | some settlement => ∀ held ∈ s.steps, held.stepID = settlement.stepID →
        heldBy settlement.claimID held = true →
          AttemptCharges held (chargesOf settlement.notes) now
    | none => ∀ charge ∈ action.charges, (charge.row now).Compacts

abbrev PricedHistory (definitionLint : Dag.DefinitionLint) (env : Environment) :
    List RunStore → Prop :=
  HistoryOf definitionLint env Action.Priced

def ChargesClosed (s : RunStore) : Prop :=
  ∀ row ∈ s.costs, row.Compacts ∨ AttemptClosed row.stepID row.attempt s

theorem ChargesClosed.act {action : Action}
    (closed : ChargesClosed s) (unique : UniqueSteps s) (priced : action.Priced now s) :
    ChargesClosed (act env action now s) := by
  have lasts : ∀ stepID number, AttemptClosed stepID number s →
      AttemptClosed stepID number (Engine.act env action now s) := fun _ _ =>
    Reaches.attemptClosed (act_reaches env action now s) unique
  have kept : ∀ row ∈ s.costs, row.Compacts ∨
      AttemptClosed row.stepID row.attempt (Engine.act env action now s) := fun row mem =>
    (closed row mem).imp_right (lasts _ _)
  have state : Engine.act env action now s = ((action.exec env now).commit s).2 := rfl
  obtain ⟨loops, priced⟩ := priced
  cases settles : action.settlement with
  | none =>
    rw [settles] at priced
    have sound : Sound env.lint { Permits.all with charges := CostRow.Compacts }
        (action.exec env now) :=
      Action.exec_sound { charges := priced }
    intro row mem
    rcases Reaches.costs (Tx.Ensures.commit Reaches.refl sound s) unique row mem with old | new
    · exact kept row old
    · exact .inl new
  | some settlement =>
    rw [settles] at priced
    cases outcome : action.exec env now s with
    | mk result s' =>
      cases result with
      | error e =>
        have same : Engine.act env action now s = s := by
          rw [state, Tx.commit, outcome]
        rw [same]
        exact closed
      | ok u =>
        have same : Engine.act env action now s = s' := by rw [state, Tx.commit_of_ok outcome]
        rw [same] at kept ⊢
        rcases exec_booked settles loops outcome with ⟨_, reaches⟩ | ⟨_, held, _, _, booked⟩
        · intro row mem
          rw [Reaches.costs_kept reaches unique] at mem
          exact kept row mem
        · intro row mem
          rw [booked.costs unique] at mem
          rcases List.mem_append.mp mem with old | new
          · exact kept row old
          · obtain ⟨charge, listed, rfl⟩ := List.mem_map.mp new
            obtain ⟨ofStep, number⟩ :=
              (priced held booked.member booked.named booked.holds).attempt charge listed
            refine .inr ?_
            have closes := booked.closes unique
            rwa [← ofStep, ← number] at closes

section Histories

variable {definitionLint : Dag.DefinitionLint} {env : Environment} {states : List RunStore}

theorem PricedHistory.chargesClosed (history : PricedHistory definitionLint env states) :
    ∀ s ∈ states, UniqueSteps s ∧ ChargesClosed s := by
  induction history with
  | created creation =>
    intro s mem
    rw [List.mem_singleton.mp mem]
    have invariant : Invariant definitionLint env.lint uncharging fun s => s.costs = [] := by
      refine ⟨fun definition s founded => ?_, fun s s' effect unique none => ?_⟩
      · obtain ⟨_, _, _, now, _, rfl⟩ := founded.planned
        rfl
      · rw [Reaches.costs_kept (.single effect) unique, none]
    obtain ⟨unique, none⟩ := invariant.created trivial creation
    refine ⟨unique, fun row inside => ?_⟩
    simp [none] at inside
  | @acted action now s past _ _ met ih =>
    intro other mem
    rcases List.mem_cons.mp mem with rfl | earlier
    · obtain ⟨unique, closed⟩ := ih s List.mem_cons_self
      exact ⟨uniqueSteps_of_chain (act_reaches env action now s unique) unique,
        closed.act unique met⟩
    · exact ih other earlier

theorem PricedHistory.unbooked (history : PricedHistory definitionLint env states)
    (reached : s ∈ states) (mem : held ∈ s.steps)
    (isOpen : held.status.isOpen = true) (priced : AttemptCharges held charges now) :
      Unbooked charges now s := by
  have fit := (history.invariant (attemptsFit_invariant definitionLint env.lint .all) s reached).2
  refine ⟨fun charge listed row inside same => ?_, ?_⟩
  · obtain ⟨ofStep, number⟩ := priced.attempt charge listed
    obtain ⟨stepID, attempt, entry⟩ : row.stepID = charge.stepID ∧ row.attempt = charge.attempt ∧
        row.entry = (charge.row now).entry := by
      simpa [CostRow.key, AttemptCost.row] using same
    rcases (history.chargesClosed s reached).2 row inside with ⟨index, compacts⟩ | closed
    · exact priced.entries charge listed ⟨index, entry.symm.trans compacts⟩
    · obtain ⟨found, isFound, ofFound, numbered, outcome⟩ := closed
      refine outcome ((fit.opened held mem found isFound ?_).mpr ⟨?_, isOpen⟩)
      · rw [ofFound, stepID, ofStep]
      · rw [numbered, attempt, number]
  · have keys : charges.map (fun charge => (charge.row now).key) =
        (charges.map fun charge => (charge.row now).entry).map
          fun entry => (held.stepID, held.attemptCount, entry) := by
      rw [List.map_map]
      refine List.map_congr_left fun charge listed => ?_
      obtain ⟨ofStep, number⟩ := priced.attempt charge listed
      simp [CostRow.key, AttemptCost.row, ofStep, number]
    rw [keys]
    exact priced.distinct.map fun _ _ same => by simpa using same

end Histories

end Agentloom.Engine
