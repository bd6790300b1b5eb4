import Agentloom.Store.Attempts
import Agentloom.Engine.Flow

/-! What a completion cannot fail at. Until a run ends, only settled steps have resolved out-edges,
so a step that settles finds its own edges open: its fan-out succeeds and resolves each of them as
its verdict says, and neither the roll-up nor the disposition of a dead step is ever refused. -/

namespace Agentloom.Engine

open Transaction Store Relation List Tx

variable {old new row : StepRow} {edge : EdgeRow} {s s' : RunStore} {verdict : EdgeVerdict}
  {now : Time} {source : TerminalSource}

def Unspent (s : RunStore) : Prop :=
  ∀ edge ∈ s.edges, edge.edgeType = .normal → edge.resolution ≠ .unresolved →
    ∃ row ∈ s.steps, row.stepID = edge.fromStep ∧ isSettled row.status = true

def SettledKept (s s' : RunStore) : Prop :=
  ∀ row ∈ s.steps, isSettled row.status = true →
    ∃ row' ∈ s'.steps, row'.stepID = row.stepID ∧ isSettled row'.status = true

theorem Unspent.of_kept (unspent : Unspent s) (kept : SettledKept s s')
    (edges : ∀ edge ∈ s'.edges, edge.resolution ≠ .unresolved → edge ∈ s.edges) : Unspent s' := by
  intro edge mem normal spent
  obtain ⟨row, inside, leaves, settled⟩ := unspent edge (edges edge mem spent) normal spent
  obtain ⟨row', inside', same, settled'⟩ := kept row inside settled
  exact ⟨row', inside', same.trans leaves, settled'⟩

theorem Unspent.of_same (unspent : Unspent s) (steps : s'.steps = s.steps)
    (edges : s'.edges = s.edges) : Unspent s' :=
  unspent.of_kept (fun row mem settled => ⟨row, steps ▸ mem, rfl, settled⟩)
    fun _ mem _ => edges ▸ mem

theorem Unspent.shifted (unspent : Unspent s) (shifted : Shifted s s' old new)
    (unsettled : isSettled old.status = false) : Unspent s' := by
  refine unspent.of_kept (fun row mem settled => ?_) fun _ mem _ => shifted.edges ▸ mem
  rcases shifted.replaced.mem_or_old mem with rfl | inside
  · rw [unsettled] at settled
    cases settled
  · exact ⟨row, inside, rfl, settled⟩

theorem Unspent.mapped (unspent : Unspent s) (mapped : Mapped s s' mark)
    (keeps : ∀ row ∈ s.steps, isSettled row.status = true → mark row = row) : Unspent s' := by
  refine unspent.of_kept (fun row mem settled => ⟨row, ?_, rfl, settled⟩)
    fun _ mem _ => mapped.edges ▸ mem
  rw [mapped.steps]
  exact mem_map.mpr ⟨row, mem, keeps row mem settled⟩

theorem Unspent.expanded {args : ExpandRun} {origin now} (unspent : Unspent s) :
    Unspent (args.apply origin now s) := by
  refine unspent.of_kept ?_ ?_
  · intro row mem settled
    refine ⟨args.widenRow now row, mem_append_left _ (mem_map_of_mem mem),
      widenRow_stepID args now row, ?_⟩
    rw [(widenRow_place args now row).1]
    exact settled
  · intro edge mem spent
    rcases mem_append.mp mem with known | added
    · exact known
    · obtain ⟨_, _, rfl⟩ := mem_map.mp added
      exact absurd rfl spent

theorem isSettled_of_active (active : isActive status = true) : isSettled status = false := by
  cases status <;> simp_all [isActive, isSettled]

theorem Unspent.opens (unspent : Unspent s) (unique : UniqueSteps s) (mem : row ∈ s.steps)
    (unsettled : isSettled row.status = false) (inside : edge ∈ s.edges)
    (normal : edge.edgeType = .normal) (leaves : edge.fromStep = row.stepID) :
    edge.resolution = .unresolved := by
  by_contra spent
  obtain ⟨_, isSource, named, settled⟩ := unspent edge inside normal spent
  rw [Table.eq_of_key unique isSource mem (named.trans leaves), unsettled] at settled
  cases settled

structure Paying (owed : List EdgeVerdict) (s : RunStore) : Prop where
  unique : UniqueSteps s
  wired : Wired s
  unspent : Unspent s
  sources : SourcesSettled owed s
  distinct : (owed.map EdgeVerdict.ordinal).Nodup
  opens : ∀ verdict ∈ owed, ∃ edge ∈ s.edges, resolvable verdict.ordinal edge = true

def Paid (seed owed : List EdgeVerdict) (s : RunStore) : Prop :=
  ∀ verdict ∈ seed, verdict ∈ owed ∨
    ∃ edge ∈ s.edges, edge.ordinal = verdict.ordinal ∧ edge.resolution = resolutionOf verdict.fired

def Stands (row : StepRow) (s : RunStore) : Prop :=
  ∃ row' ∈ s.steps, row'.stepID = row.stepID ∧ row'.status = row.status ∧ row'.output = row.output

theorem Stands.of_steps (stands : Stands row s) (steps : s'.steps = s.steps) : Stands row s' := by
  unfold Stands
  rw [steps]
  exact stands

theorem Stands.replaced (stands : Stands row s)
    (replaced : Table.Replaced s.steps s'.steps old new) (stepID : new.stepID = old.stepID)
    (keeps : old.status = row.status → new.status = old.status ∧ new.output = old.output) :
    Stands row s' := by
  obtain ⟨found, mem, named, status, output⟩ := stands
  rcases replaced.mem_or_old mem with rfl | inside
  · obtain ⟨status', output'⟩ := keeps status
    exact ⟨new, replaced.new_mem, stepID.trans named, status'.trans status, output'.trans output⟩
  · exact ⟨found, inside, named, status, output⟩

section Resolved

variable (resolves : Resolves verdict s s' edge old new)

include resolves

theorem Resolves.stands (settled : row.status ≠ .pending) (stands : Stands row s) :
    Stands row s' := by
  refine stands.replaced resolves.steps resolves.stepID fun same => ⟨?_, resolves.output⟩
  rw [resolves.status, settle_of_ne (same ▸ settled)]

theorem Resolves.reaction_distinct (ordinals : (s.edges.map EdgeRow.ordinal).Nodup) :
    ((reactionOf s' old new).verdicts.map EdgeVerdict.ordinal).Nodup := by
  unfold reactionOf
  split_ifs
  · exact nodup_nil
  cases status : new.status <;> first | exact nodup_nil | skip
  have sorted : ((listRunEdges s').map EdgeRow.ordinal).Nodup := by
    refine ((perm_insertionSort _ s'.edges).map EdgeRow.ordinal).nodup_iff.mpr ?_
    rw [resolves.ordinals_eq]
    exact ordinals
  simp only [Reaction.verdicts, allSkippedVerdicts, List.map_map, Function.comp_def]
  exact sorted.sublist ((List.filter_sublist.trans List.filter_sublist).map EdgeRow.ordinal)

theorem Paid.resolved (paid : Paid seed (verdict :: owed) s) :
    Paid seed (owed ++ (reactionOf s' old new).verdicts) s' := by
  intro other mem
  rcases paid other mem with isOwed | ⟨found, inside, ordinal, resolution⟩
  · rcases mem_cons.mp isOwed with rfl | later
    · exact .inr ⟨_, resolves.edges.new_mem, resolves.normal.2.2, rfl⟩
    · exact .inl (mem_append_left _ later)
  · rcases resolves.edges.mem_or_old inside with rfl | kept
    · -- the edge that is resolved now was open
      rw [resolves.normal.2.1] at resolution
      cases fired : other.fired <;> simp [resolutionOf, fired] at resolution
    · exact .inr ⟨found, kept, ordinal, resolution⟩

end Resolved

variable {e : StoreError}

section Step

variable {owed : List EdgeVerdict}

theorem Paying.resolves (paying : Paying (verdict :: owed) s)
    (ok : resolveVerdict verdict now s = (.ok reaction, s')) :
    ∃ edge old new, Resolves verdict s s' edge old new ∧ reaction = reactionOf s' old new := by
  rcases resolveVerdict_ok paying.unique ok with ⟨_, _, missed⟩ | found
  · obtain ⟨edge, mem, isOpen⟩ := paying.opens verdict mem_cons_self
    rw [missed edge mem] at isOpen
    cases isOpen
  · exact found

theorem Paying.unspent_step (paying : Paying (verdict :: owed) s)
    (resolves : Resolves verdict s s' edge old new) : Unspent s' := by
  intro edge' mem normal spent
  have before : ∃ row ∈ s.steps, row.stepID = edge'.fromStep ∧ isSettled row.status = true := by
    rcases resolves.edges.mem_of_mem mem with rfl | inside
    · exact paying.sources verdict mem_cons_self edge resolves.edges.old_mem
        resolves.normal.2.2
    · exact paying.unspent edge' inside normal spent
  obtain ⟨_, inside, leaves, settled⟩ := before
  obtain ⟨row', inside', same, settled'⟩ := resolves.settled inside settled
  exact ⟨row', inside', same.trans leaves, settled'⟩

theorem Paying.not_owed (paying : Paying owed s) (mem : row ∈ s.steps)
    (pending : row.status = .pending) (inside : edge ∈ s.edges)
    (leaves : edge.fromStep = row.stepID) : edge.ordinal ∉ owed.map EdgeVerdict.ordinal := by
  intro isOwed
  obtain ⟨other, listed, ordinal⟩ := mem_map.mp isOwed
  obtain ⟨_, isSource, named, settled⟩ := paying.sources other listed edge inside ordinal.symm
  rw [Table.eq_of_key paying.unique isSource mem (named.trans leaves), pending] at settled
  cases settled

theorem Paying.step (paying : Paying (verdict :: owed) s)
    (ok : resolveVerdict verdict now s = (.ok reaction, s')) :
    Paying (owed ++ reaction.verdicts) s' := by
  have reaches : Reaches Dag.quietPlanLint .all s s' := (resolveVerdict_sound verdict).of_ok ok
  obtain ⟨edge, old, _, resolves, rfl⟩ := paying.resolves ok
  have distinct := paying.distinct
  rw [map_cons, nodup_cons] at distinct
  have later : SourcesSettled owed s := fun other mem =>
    paying.sources other (mem_cons_of_mem _ mem)
  -- an out-edge of the target, which was pending, is another edge than the one resolved now
  have before : ∀ edge' ∈ s'.edges, edge'.fromStep = old.stepID → old.status = .pending →
      edge' ∈ s.edges := by
    intro edge' mem leaves pending
    rcases resolves.edges.mem_of_mem mem with rfl | inside
    · refine absurd ?_ (paying.not_owed resolves.steps.old_mem pending resolves.edges.old_mem leaves)
      simp [resolves.normal.2.2]
    · exact inside
  refine ⟨uniqueSteps_of_chain (reaches paying.unique) paying.unique,
    wired_of_reaches reaches paying.unique paying.wired, paying.unspent_step resolves, ?_, ?_, ?_⟩
  · intro other mem
    rcases mem_append.mp mem with earlier | added
    · exact resolves.sources later other earlier
    · exact resolves.reaction_sources paying.wired.ordinals other added
  · rw [map_append, nodup_append]
    refine ⟨distinct.2, resolves.reaction_distinct paying.wired.ordinals, ?_⟩
    intro ordinal isOwed other added same
    obtain ⟨found, listed, rfl⟩ := mem_map.mp added
    obtain ⟨pending, _, _, edge', inside', _, leaves, isEdge⟩ := resolves.mem_reaction listed
    refine paying.not_owed resolves.steps.old_mem pending
      (before edge' inside' leaves pending) leaves ?_
    rw [← isEdge, ← same, map_cons]
    exact mem_cons_of_mem _ isOwed
  · intro other mem
    rcases mem_append.mp mem with earlier | added
    · obtain ⟨found, inside, isOpen⟩ := paying.opens other (mem_cons_of_mem _ earlier)
      rcases resolves.edges.mem_or_old inside with rfl | kept
      · have ordinal : verdict.ordinal = other.ordinal := by
          simp only [resolvable, Bool.and_eq_true, beq_iff_eq] at isOpen
          exact resolves.normal.2.2.symm.trans isOpen.1.1
        exact absurd (ordinal ▸ mem_map_of_mem earlier) distinct.1
      · exact ⟨found, kept, isOpen⟩
    · obtain ⟨pending, _, _, edge', inside', normal, leaves, isEdge⟩ := resolves.mem_reaction added
      refine ⟨edge', inside', ?_⟩
      have isOpen := paying.unspent.opens paying.unique resolves.steps.old_mem
        (by rw [pending]; rfl) (before edge' inside' leaves pending) normal leaves
      simp [resolvable, normal, isOpen, isEdge]

theorem Paying.total (paying : Paying (verdict :: owed) s) (timed : now ≠ 0) :
    resolveVerdict verdict now s ≠ (.error e, s') := by
  refine resolveVerdict_total timed fun e s' failed => ?_
  rcases paying.wired.resolveEdge_error failed with early | ⟨closed, _⟩
  · simp [requireNow, timed] at early
  · obtain ⟨edge, mem, isOpen⟩ := paying.opens verdict mem_cons_self
    rw [closed edge mem] at isOpen
    cases isOpen

end Step

theorem Paying.fanOut (paying : Paying source.verdicts s)
    (ok : fanOut source now s = (.ok fan, s')) : Paying [] s' := by
  exact fanOut_rule_ok (fun _ _ paying => paying.unique) (fun _ _ _ _ _ paying ok => paying.step ok)
    paying ok

structure OnlyRun (s s' : RunStore) : Prop where
  steps : s'.steps = s.steps
  edges : s'.edges = s.edges
  attempts : s'.attempts = s.attempts
  approvals : s'.approvals = s.approvals
  deadLetters : s'.deadLetters = s.deadLetters
  costs : s'.costs = s.costs

theorem OnlyRun.refl (s : RunStore) : OnlyRun s s := ⟨rfl, rfl, rfl, rfl, rfl, rfl⟩

theorem OnlyRun.trans (first : OnlyRun s s') (second : OnlyRun s' s'') : OnlyRun s s'' :=
  ⟨second.steps.trans first.steps, second.edges.trans first.edges,
    second.attempts.trans first.attempts, second.approvals.trans first.approvals,
    second.deadLetters.trans first.deadLetters, second.costs.trans first.costs⟩

variable {t : RunTransition}

theorem RunTransition.run_conflict (timed : t.now ≠ 0) (failed : t.run s = (.error e, s')) :
    e.isConflict = true := by
  unfold RunTransition.run requireNow at failed
  rw [if_neg timed, bind_of_ok (by rfl), bind_apply, updateRun_apply] at failed
  split_ifs at failed with guarded
  · cases failed
  · cases failed
    rfl

theorem RunTransition.run_yields (timed : t.now ≠ 0) (guarded : t.guard s.run = true) :
    Tx.Yields t.run s fun row s' => row = t.set s.run ∧
      s' = RunStore.record { s with run := t.set s.run } t.event := by
  refine .of_total (fun e s' failed => ?_) fun row s' ok => (RunTransition.run_ok ok).2
  unfold RunTransition.run requireNow at failed
  rw [if_neg timed, bind_of_ok (by rfl), bind_apply, updateRun_apply, if_pos guarded] at failed
  cases failed

theorem dropped_run_yields (timed : t.now ≠ 0) :
    Tx.Yields (dropping StoreError.isConflict t.run) s fun _ s' => OnlyRun s s' := by
  refine .of_total (fun e s' => dropping_total fun e s' => RunTransition.run_conflict timed) ?_
  intro found s' ok
  rcases dropped_run_ok ok with ⟨_, _, rfl⟩ | ⟨_, _, rfl⟩
  · exact ⟨rfl, rfl, rfl, rfl, rfl, rfl⟩
  · exact .refl _

theorem attemptRunRollup_yields (timed : now ≠ 0) :
    Tx.Yields (attemptRunRollup now) s fun _ s' => OnlyRun s s' := by
  refine (dropped_run_yields (by exact timed)).bind fun succeeded s₁ first => ?_
  cases succeeded with
  | some run => exact .pure first
  | none =>
    refine (dropped_run_yields (by exact timed)).bind fun failed s₂ second => ?_
    cases failed with
    | some run => exact .pure (first.trans second)
    | none => exact (dropped_run_yields (by exact timed)).mono fun _ _ third =>
      (first.trans second).trans third

structure Cancellable (row : StepRow) (ids : List String) (s : RunStore) : Prop where
  unique : UniqueSteps s
  distinct : ids.Nodup
  pending : ∀ id ∈ ids, ∃ other ∈ s.steps, other.stepID = id ∧ other.status = .pending
  stands : Stands row s

theorem cancelStep_yields (settled : row.status ≠ .pending) (timed : now ≠ 0)
    {id reason} (given : reason ≠ "") {rest} (cancellable : Cancellable row (id :: rest) s):
    Tx.Yields (cancelStep id reason now).void s fun _ s' => Cancellable row rest s' := by
  obtain ⟨unique, distinct, pending, stands⟩ := cancellable
  obtain ⟨absent, distinct⟩ := nodup_cons.mp distinct
  obtain ⟨_, mem, named, isPending⟩ := pending id mem_cons_self
  have runs : ∀ e s', (cancel id reason now).run s ≠ (.error e, s') := fun e s' =>
    StepTransition.run_total timed rfl mem named (by simp [cancel, isPending])
  have starts : cancelStep id reason now s = (cancel id reason now).run s := by
    simp [cancelStep, requireNow, requireArgument, timed, given, bind_apply]
  refine Tx.Yields.void (.of_total (fun e s' => starts ▸ runs e s') fun new s' ok => ?_)
    fun _ _ cancellable => cancellable
  rw [starts] at ok
  obtain ⟨_, _, _, _, _, isNamed, _, rfl, replaced, _, _, rfl⟩ := StepTransition.run_ok ok
  obtain rfl := Table.eq_of_key unique replaced.old_mem mem (isNamed.trans named.symm)
  refine ⟨?_, distinct, fun other isOther => ?_, ?_⟩
  · unfold UniqueSteps
    rw [record_steps, replaced.map_eq StepRow.stepID rfl]
    exact unique
  · obtain ⟨waiting, inside, isID, waits⟩ := pending other (mem_cons_of_mem _ isOther)
    rcases replaced.mem_or_old inside with rfl | kept
    · exact absurd (named.symm.trans isID ▸ isOther) absent
    · exact ⟨waiting, kept, isID, waits⟩
  · exact stands.replaced replaced rfl fun same => absurd (same.symm.trans isPending) settled

theorem deadLetterDisposition_yields (settled : row.status ≠ .pending) (timed : now ≠ 0)
    (unique : UniqueSteps s) (stands : Stands row s) (onFailure : Dag.FailurePolicy) :
    Tx.Yields (deadLetterDisposition onFailure now) s fun _ s' => Stands row s' := by
  cases onFailure with
  | failFast =>
    exact (dropped_run_yields (by exact timed)).bind fun _ _ only =>
      .pure (stands.of_steps only.steps)
  | continueIndependentBranches =>
    have pending : ∀ id ∈ writeOffOf s, ∃ other ∈ s.steps, other.stepID = id ∧
        other.status = .pending := by
      intro id inside
      obtain ⟨other, listed, rest⟩ := planWriteOff_pending id inside
      exact ⟨other, (mem_insertionSort _).mp listed, rest⟩
    have start : Cancellable row (writeOffOf s) s :=
      ⟨unique, Marking.fixpoint_nodup _ _ _, pending, stands⟩
    refine Tx.Yields.bind (.read start) fun ids s₁ cancellable => ?_
    refine Tx.Yields.bind (Tx.Yields.forEach (Cancellable row) (fun id rest s₂ cancellable =>
      cancelStep_yields settled timed (by decide) cancellable) cancellable) fun _ s₂ cancelled => ?_
    exact (dropped_run_yields (by exact timed)).bind fun _ _ only =>
      .pure (cancelled.stands.of_steps only.steps)

structure Routes (source : TerminalSource) (row : StepRow) (s : RunStore) : Prop where
  stands : Stands row s
  resolved : ∀ verdict ∈ source.verdicts, ∃ edge ∈ s.edges, edge.ordinal = verdict.ordinal ∧
    edge.resolution = resolutionOf verdict.fired

theorem Routes.of_same (routes : Routes source row s) (steps : s'.steps = s.steps)
    (edges : s'.edges = s.edges) : Routes source row s' :=
  ⟨routes.stands.of_steps steps, by rw [edges]; exact routes.resolved⟩

theorem Paying.fanOut_yields (paying : Paying source.verdicts s) (timed : now ≠ 0)
    (settled : row.status ≠ .pending) (stands : Stands row s) :
    Tx.Yields (Engine.fanOut source now) s fun _ s' => Routes source row s' := by
  have step : ∀ verdict owed s reaction s',
      Paying (verdict :: owed) s ∧ Paid source.verdicts (verdict :: owed) s ∧ Stands row s →
      resolveVerdict verdict now s = (.ok reaction, s') →
      Paying (owed ++ reaction.verdicts) s' ∧
        Paid source.verdicts (owed ++ reaction.verdicts) s' ∧ Stands row s' := by
    rintro verdict owed s reaction s' ⟨paying, paid, stands⟩ ok
    have next := paying.step ok
    obtain ⟨_, _, _, resolves, rfl⟩ := paying.resolves ok
    exact ⟨next, paid.resolved resolves, resolves.stands settled stands⟩
  have rule := @fanOut_rule now s source (fun owed s =>
    Paying owed s ∧ Paid source.verdicts owed s ∧ Stands row s) (fun _ _ holds => holds.1.unique)
    step ⟨paying, fun _ => .inl, stands⟩
  refine .of_total (fun e s' failed => ?_) fun fan s' ok => ?_
  · rw [failed] at rule
    obtain ⟨verdict, _, _, _, holds, refused⟩ := rule
    exact holds.1.total timed refused
  · rw [ok] at rule
    obtain ⟨_, paid, stands⟩ := rule
    refine ⟨stands, fun verdict mem => ?_⟩
    exact (paid verdict mem).resolve_left not_mem_nil

theorem Paying.routeAndRollup_yields (paying : Paying source.verdicts s) (timed : now ≠ 0)
    (settled : row.status ≠ .pending) (stands : Stands row s) :
    Tx.Yields (routeAndRollup (some source) now) s fun _ s' => Routes source row s' := by
  have routed : Tx.Yields (route source now) s fun _ s' => Routes source row s' := by
    refine (paying.fanOut_yields timed settled stands).bind fun fan s₁ routes => ?_
    refine Tx.Yields.forEach (fun _ s' => Routes source row s') (fun id rest s₂ routes => ?_) routes
    exact .write (routes.of_same rfl rfl)
  refine routed.bind fun _ s₁ routes => ?_
  exact (attemptRunRollup_yields timed).void fun _ _ only =>
    routes.of_same only.steps only.edges

section Closing

variable {t : StepTransition}

theorem StepTransition.run_closes (timed : t.now ≠ 0) (fit : AttemptsFit s)
    (unique : UniqueSteps s) (mem : row ∈ s.steps) (named : row.stepID = t.stepID)
    (guarded : t.guard row = true) (isOpen : row.status.isOpen = true)
    (same : SameStep row (t.set row)) : t.run s ≠ (.error e, s') := by
  intro failed
  rcases bind_error failed with early | ⟨_, _, checked, failed₁⟩
  · simp [requireNow, timed] at early
  obtain ⟨_, rfl⟩ := requireNow_ok checked
  rcases bind_error failed₁ with missed | ⟨_, _, changed, failed₂⟩
  · rw [(changeStep_error missed).2 row mem named] at guarded
    cases guarded
  rcases bind_error failed₂ with early | ⟨_, _, _, failed₃⟩
  · obtain ⟨_, _, isNamed, _, rfl, replaced, rfl⟩ := changeStep_ok changed
    obtain rfl := Table.eq_of_key unique replaced.old_mem mem (isNamed.trans named.symm)
    obtain ⟨attempt, inside, ofStep, current⟩ := (fit.exists_open_iff mem).mpr isOpen
    have number := fit.open_number mem inside ofStep current
    unfold StepTransition.closeAttempt at early
    cases finish : t.finish with
    | none =>
      rw [finish] at early
      cases early
    | some outcome =>
      rw [finish] at early
      simp only [finishAttempt] at early
      split at early
      · cases early
      · rename_i missed
        have absent := Table.updateFirst_none.mp missed attempt inside
        simp [ofStep, number, same.stepID, same.attemptCount] at absent
  rcases bind_error failed₃ with early | ⟨_, _, _, failed₄⟩
  · cases early
  rcases bind_error failed₄ with early | ⟨_, _, _, failed₅⟩
  · unfold StepTransition.writeLetter at early
    cases letter : t.letter <;> rw [letter] at early <;> cases early
  · cases failed₅

structure Lands (t : StepTransition) (row : StepRow) (s s' : RunStore) : Prop where
  shifted : Shifted s s' row (t.set row)
  approvals : s'.approvals = s.approvals
  costs : s'.costs = s.costs

theorem StepTransition.run_yields (moves : t.Moves) (timed : t.now ≠ 0) (fit : AttemptsFit s)
    (unique : UniqueSteps s) (mem : row ∈ s.steps) (named : row.stepID = t.stepID)
    (guarded : t.guard row = true) (isOpen : row.status.isOpen = true) :
    Tx.Yields t.run s fun new s' => new = t.set row ∧ Lands t row s s' := by
  have same := (moves row guarded).toSameStep
  refine .of_total (fun e s' => StepTransition.run_closes timed fit unique mem named guarded
    isOpen same) fun new s' ok => ?_
  obtain ⟨_, _, _, _, _, isNamed, _, rfl, replaced, _, _, rfl⟩ := StepTransition.run_ok ok
  obtain rfl := Table.eq_of_key unique replaced.old_mem mem (isNamed.trans named.symm)
  exact ⟨rfl, ⟨replaced, .of_sameStep same, rfl, rfl, rfl⟩, rfl, rfl⟩

end Closing

theorem Settles.paying {lint : Dag.PlanLint} {expands s₁ t}
    (settles : Settles lint expands source s s₁ t old new)
    (unique : UniqueSteps s) (unspent : Unspent s) (unique' : UniqueSteps t) (wired : Wired t) :
    Paying source.verdicts t := by
  have unsettled := isSettled_of_active settles.before
  have spent₁ := unspent.shifted settles.shifted unsettled
  have known : Unspent t ∧ ∀ edge ∈ t.edges, edge.resolution = .unresolved ∨ edge ∈ s.edges := by
    rcases settles.grown with same | ⟨_, _, _, _, _, _, same⟩
    · refine ⟨spent₁.of_same same.steps same.edges, fun edge mem => .inr ?_⟩
      rw [same.edges, settles.shifted.edges] at mem
      exact mem
    · refine ⟨(spent₁.expanded).of_same same.steps same.edges, fun edge mem => ?_⟩
      rw [same.edges] at mem
      rcases mem_append.mp mem with inside | added
      · rw [settles.shifted.edges] at inside
        exact .inr inside
      · obtain ⟨_, _, rfl⟩ := mem_map.mp added
        exact .inl rfl
  refine ⟨unique', wired, known.1, fun verdict mem edge inside ordinal => ?_, ?_,
    fun verdict mem => ?_⟩
  · rw [settles.covers.fromStep wired mem inside ordinal]
    exact settles.sourceRow
  · rw [settles.covers]
    have sorted : ((listRunEdges t).map EdgeRow.ordinal).Nodup :=
      ((perm_insertionSort _ t.edges).map EdgeRow.ordinal).nodup_iff.mpr wired.ordinals
    exact sorted.sublist ((filter_sublist.trans filter_sublist).map EdgeRow.ordinal)
  · have listed : verdict.ordinal ∈ source.verdicts.map EdgeVerdict.ordinal :=
      mem_map_of_mem mem
    rw [settles.covers] at listed
    obtain ⟨edge, kept, ordinal⟩ := mem_map.mp listed
    obtain ⟨fromSource, isNormal⟩ := mem_filter.mp kept
    obtain ⟨inside, leaves⟩ := mem_listEdgesFromStep.mp fromSource
    have normal : edge.edgeType = .normal := eq_of_beq isNormal
    have isOpen : edge.resolution = .unresolved := by
      rcases known.2 edge inside with fresh | before
      · exact fresh
      · refine unspent.opens unique settles.shifted.replaced.old_mem unsettled before normal ?_
        rw [leaves, settles.stepID, settles.shifted.place.stepID]
    exact ⟨edge, inside, by simp [resolvable, ordinal, normal, isOpen]⟩

section Unspent

variable {env : Environment} {action : Action}

theorem Unspent.calm (unspent : Unspent s) (chain : ReflTransGen Stir s s') : Unspent s' := by
  induction chain with
  | refl => exact unspent
  | tail _ stir ih =>
    cases stir with
    | kept same => exact ih.of_same same.steps same.edges
    | ran _ _ _ => exact ih.of_same rfl rfl
    | shifted shifted before _ => exact ih.shifted shifted (isSettled_of_active before)

theorem isSettled_of_writtenOff (unique : UniqueSteps s) (mem : row ∈ s.steps)
    (settled : isSettled row.status = true) : row.stepID ∉ writeOffOf s := by
  intro inside
  obtain ⟨_, listed, named, pending⟩ := planWriteOff_pending _ inside
  rw [← Table.eq_of_key unique ((mem_insertionSort _).mp listed) mem named, pending]
    at settled
  cases settled

theorem Unspent.buried (unspent : Unspent s) (unique : UniqueSteps s) {t disposed}
    (dies : Dies env.lint s t old new)
    (disposition : deadLetterDisposition t.run.onFailure now t = (.ok disposed, s')) :
    Unspent s' := by
  have unique' := uniqueSteps_of_chain (dies.reaches unique) unique
  have unsettled : isSettled old.status = false := by
    rcases dies.before with active | pending
    · exact isSettled_of_active active
    · rw [pending]
      rfl
  have after := unspent.shifted dies.shifted unsettled
  rcases deadLetterDisposition_ok env.lint unique' disposition with
    ⟨_, fails | ⟨_, rfl⟩⟩ | ⟨_, u, mapped, _, outcome⟩
  · exact after.of_same fails.steps fails.edges
  · exact after
  · have written : Unspent u := after.mapped mapped fun row mem settled =>
      setIn_of_notMem (isSettled_of_writtenOff unique' mem settled)
    rcases outcome with ⟨_, fails⟩ | ⟨_, rfl⟩
    · exact written.of_same fails.steps fails.edges
    · exact written

theorem Unspent.requeued (unspent : Unspent s) (unique : UniqueSteps s)
    (unended : s.run.status.ended = false)
    (requeued : Engine.requeue stepID now s = (.ok (), s')) : Unspent s' := by
  obtain ⟨_, s₂, _, _, _, ⟨_, shifted, dead, _, steps, edges, _, _, mapped, same⟩⟩ :=
    requeue_ok unended unique requeued
  have after := (unspent.shifted shifted (by rw [dead]; rfl)).of_same steps edges
  have unique₂ : UniqueSteps s₂ := by
    unfold UniqueSteps
    rw [steps]
    exact shifted.uniqueSteps unique
  refine (after.mapped mapped fun row mem settled => setIn_of_notMem fun revived => ?_).of_same
    same.steps same.edges
  rw [((mem_revivable unique₂ mem).mp revived).1] at settled
  cases settled

theorem Unspent.change (unspent : Unspent s) (change : Change env action now s s')
    (unique : UniqueSteps s) (wired : Wired s) (unended : s.run.status.ended = false)
    (live : s'.run.status.ended = false) : Unspent s' := by
  cases change with
  | calm chain => exact unspent.calm chain
  | ended ended =>
    simp [live] at ended
  | routed sourced settles routed =>
    have reaches := (action.source_sound env now).of_ok sourced
    have unique' := uniqueSteps_of_chain (reaches unique) unique
    have paying := settles.paying unique unspent unique' (wired_of_reaches reaches unique wired)
    obtain ⟨_, _, _, _, fanned, same, _, rolled⟩ := routeAndRollup_ok env.lint routed
    have after := (paying.fanOut fanned).unspent.of_same same.steps same.edges
    rcases attemptRunRollup_ok rolled with ended | ⟨_, fails⟩ | ⟨_, _, rfl⟩
    · simp [live] at ended
    · exact after.of_same fails.steps fails.edges
    · exact after
  | buried dies disposition => exact unspent.buried unique dies disposition
  | requeued isRequeue requeued => exact unspent.requeued unique unended requeued

end Unspent

theorem HistoryOf.unspent (history : HistoryOf definitionLint env meets states) :
    ∀ s ∈ states, s.run.status.ended = false → Unspent s := by
  refine history.rule ?_ ?_
  · intro definition s creation
    obtain ⟨_, founded, same⟩ := created_sameGraph creation
    obtain ⟨_, _, _, now, _, rfl⟩ := founded.planned
    intro edge mem _ spent
    rw [same.edges] at mem
    obtain ⟨_, _, rfl⟩ := mem_map.mp mem
    exact absurd rfl spent
  · intro action now s _ known unended live change unspent
    obtain ⟨unique, wired⟩ := known _ (wired_invariant definitionLint env.lint .all)
    exact unspent.change change unique wired unended live

end Agentloom.Engine
