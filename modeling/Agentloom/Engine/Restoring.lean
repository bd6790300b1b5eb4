import Mathlib.Data.List.Forall2
import Agentloom.Engine.Continuation
import Agentloom.Engine.Progress

/-! A requeue undoes a write-off. While a step is dead-lettered the other branches go on, and their
edges are resolved into the steps written off as well; the history with the dead-lettered step runs
in step with the one in which that step stayed ready, so that the requeue leads to the same graph. -/

namespace Agentloom.Engine

open Transaction Store Relation List Tx

variable {buried : String} {marks : String → Prop} {left right : StepRow} {now : Time}
  {owed : List EdgeVerdict} {a b a' b' s s' t r : RunStore} {lint : Dag.PlanLint}
  {env : Environment} {status : RunStatus}

structure Mirror (buried : String) (marks : String → Prop) (left right : StepRow) : Prop where
  stepID : left.stepID = right.stepID
  joins : isJoinAny left = isJoinAny right
  remaining : left.remainingDeps = right.remainingDeps
  fired : left.firedDeps = right.firedDeps
  status : (right.stepID = buried ∧ left.status = .deadLettered ∧ right.status = .ready) ∨
    (right.stepID ≠ buried ∧ marks right.stepID ∧ left.status = .cancelled ∧
      right.status = .pending) ∨
    (right.stepID ≠ buried ∧ ¬marks right.stepID ∧ left.status = right.status ∧
      isBlocked right.status = false)

/-- The verdicts owed concern neither the dead-lettered step nor one written off, and these stay
impossible. -/
structure Mirrors (buried : String) (marks : String → Prop) (owed : List EdgeVerdict)
    (a b : RunStore) : Prop where
  unique : UniqueSteps b
  known : ∀ id, id = buried ∨ marks id → id ∈ b.steps.map StepRow.stepID
  wired : Wired b
  edges : a.edges = b.edges
  rows : List.Forall₂ (Mirror buried marks) a.steps b.steps
  stays : ∀ row ∈ b.steps, marks row.stepID →
    Impossible b.edges (fun id => id = buried ∨ marks id) row
  free : ∀ verdict ∈ owed, ∀ edge ∈ b.edges, edge.ordinal = verdict.ordinal →
    ¬(edge.fromStep = buried ∨ marks edge.fromStep)

theorem Mirror.of_buried (mirror : Mirror buried marks left right) (isBuried : right.stepID = buried) :
    left.status = .deadLettered ∧ right.status = .ready := by
  rcases mirror.status with ⟨_, both⟩ | ⟨apart, _⟩ | ⟨apart, _⟩
  · exact both
  · exact absurd isBuried apart
  · exact absurd isBuried apart

theorem Mirror.of_marked (mirror : Mirror buried marks left right) (apart : right.stepID ≠ buried)
    (marked : marks right.stepID) : left.status = .cancelled ∧ right.status = .pending := by
  rcases mirror.status with ⟨isBuried, _⟩ | ⟨_, _, both⟩ | ⟨_, unmarked, _⟩
  · exact absurd isBuried apart
  · exact both
  · exact absurd marked unmarked

theorem Mirror.of_free (mirror : Mirror buried marks left right) (apart : right.stepID ≠ buried)
    (unmarked : ¬marks right.stepID) :
    left.status = right.status ∧ isBlocked right.status = false := by
  rcases mirror.status with ⟨isBuried, _⟩ | ⟨_, marked, _⟩ | ⟨_, _, both⟩
  · exact absurd isBuried apart
  · exact absurd marked unmarked
  · exact both

theorem forall₂_of_mem {α β : Type} {related related'} {left : List α}
    {right : List β} (rows : List.Forall₂ related left right)
    (implies : ∀ x ∈ left, ∀ y ∈ right, related x y → related' x y) :
    List.Forall₂ related' left right := by
  induction rows with
  | nil => exact .nil
  | cons first rest ih =>
    refine .cons (implies _ mem_cons_self _ mem_cons_self first) (ih ?_)
    exact fun x inLeft y inRight =>
      implies x (mem_cons_of_mem _ inLeft) y (mem_cons_of_mem _ inRight)

theorem exists_left_of_mem {α β : Type} {related} {left : List α} {right : List β}
    (rows : List.Forall₂ related left right) {y} (mem : y ∈ right) :
    ∃ x ∈ left, related x y := by
  induction rows with
  | nil => cases mem
  | cons first _ ih =>
    rcases mem_cons.mp mem with rfl | later
    · exact ⟨_, mem_cons_self, first⟩
    · obtain ⟨x, inside, found⟩ := ih later
      exact ⟨x, mem_cons_of_mem _ inside, found⟩

variable {row oldA newA oldB newB : StepRow} {verdict : EdgeVerdict} {source : TerminalSource}

theorem Mirrors.stepIDs (mirrors : Mirrors buried marks owed a b) :
    a.steps.map StepRow.stepID = b.steps.map StepRow.stepID := by
  have ids : List.Forall₂ (· = ·) (a.steps.map StepRow.stepID) (b.steps.map StepRow.stepID) := by
    rw [forall₂_map_left_iff, forall₂_map_right_iff]
    exact mirrors.rows.imp fun _ _ mirror => mirror.stepID
  rwa [forall₂_eq_eq_eq] at ids

theorem Mirrors.uniqueLeft (mirrors : Mirrors buried marks owed a b) : UniqueSteps a := by
  unfold UniqueSteps
  rw [mirrors.stepIDs]
  exact mirrors.unique

theorem Mirrors.rowOf (mirrors : Mirrors buried marks owed a b) (inLeft : left ∈ a.steps)
    (inRight : right ∈ b.steps) (same : left.stepID = right.stepID) :
    Mirror buried marks left right := by
  have unique := mirrors.unique
  have keyed : List.Forall₂ (fun x y : StepRow => x.stepID = left.stepID →
      Mirror buried marks x y ∧ y = right) a.steps b.steps := by
    refine forall₂_of_mem mirrors.rows fun x _ y inside mirror isLeft => ⟨mirror, ?_⟩
    exact Table.eq_of_key unique inside inRight
      (mirror.stepID.symm.trans (isLeft.trans same))
  obtain ⟨_, bound, found⟩ := getElem_of_mem inLeft
  have length := keyed.length_eq
  obtain ⟨mirror, rfl⟩ := keyed.get bound (length ▸ bound) (by simpa using congrArg StepRow.stepID found)
  simp only [get_eq_getElem, found] at mirror
  exact mirror

theorem outside_of_settled (rows : List.Forall₂ (Mirror buried marks) a.steps b.steps)
    (mem : row ∈ b.steps) (settled : isSettled row.status = true) :
    ¬(row.stepID = buried ∨ marks row.stepID) := by
  obtain ⟨_, _, mirror⟩ := exists_left_of_mem rows mem
  rcases mirror.status with ⟨_, _, ready⟩ | ⟨_, _, _, pending⟩ | ⟨apart, unmarked, _⟩
  · simp [ready, isSettled] at settled
  · simp [pending, isSettled] at settled
  · exact not_or.mpr ⟨apart, unmarked⟩

theorem Mirrors.replaced (mirrors : Mirrors buried marks owed a b)
    (left : Table.Replaced a.steps a'.steps oldA newA)
    (right : Table.Replaced b.steps b'.steps oldB newB) (same : oldA.stepID = oldB.stepID)
    (mirror : Mirror buried marks newA newB) :
    List.Forall₂ (Mirror buried marks) a'.steps b'.steps := by
  rw [left.eq_map mirrors.uniqueLeft, right.eq_map mirrors.unique, forall₂_map_left_iff,
    forall₂_map_right_iff]
  refine mirrors.rows.imp fun x y related => ?_
  by_cases isOld : x.stepID = oldA.stepID
  · rw [if_pos isOld, if_pos (related.stepID.symm.trans (isOld.trans same))]
    exact mirror
  · rw [if_neg isOld, if_neg fun isOldB => isOld (related.stepID.trans (isOldB.trans same.symm))]
    exact related

theorem resolveEdgeNoop_edges (ordinal : Nat) (resolution : EdgeResolution)
    (edges : a.edges = b.edges) :
    (resolveEdgeNoop ordinal resolution a).1 = (resolveEdgeNoop ordinal resolution b).1 := by
  unfold resolveEdgeNoop
  rw [bind_apply, read_apply, bind_apply, read_apply, edges]
  cases b.edges.find? fun row => row.ordinal == ordinal with
  | none => rfl
  | some edge =>
    dsimp only
    split_ifs <;> rfl

theorem resolveVerdict_follows (edges : a.edges = b.edges)
    (wired : Wired b) (ok : resolveVerdict verdict now a = (.ok reaction, a')) :
    ∃ reaction' b', resolveVerdict verdict now b = (.ok reaction', b') := by
  obtain ⟨_, _, resolved, _⟩ := bind_ok ok
  obtain ⟨_, _, checked, rest⟩ := bind_ok resolved
  obtain ⟨timed, rfl⟩ := requireNow_ok checked
  obtain ⟨_, _, updated, noop⟩ := bind_ok rest
  cases outcome : resolveVerdict verdict now b with
  | mk taken b' =>
    cases taken with
    | ok reaction' => exact ⟨reaction', b', rfl⟩
    | error e =>
      refine absurd outcome (resolveVerdict_total timed fun e' b'' failed => ?_)
      rcases wired.resolveEdge_error failed with early | ⟨closed, refused⟩
      · simp [requireNow, timed] at early
      rw [← edges] at closed
      rcases updateRunEdge_ok updated with ⟨rfl, rfl, _⟩ | ⟨edge, _, isOpen, _, replaced, _⟩
      · have same := resolveEdgeNoop_edges verdict.ordinal (resolutionOf verdict.fired) edges
        rw [refused, show resolveEdgeNoop _ _ _ = _ from noop] at same
        cases same
      · rw [closed edge replaced.old_mem] at isOpen
        cases isOpen

theorem Mirror.resolved (mirror : Mirror buried marks oldA oldB)
    (left : Resolves verdict a a' edge oldA newA) (right : Resolves verdict b b' edge oldB newB)
    (waits : marks newB.stepID → oldB.status = .pending → newB.status = .pending) :
    Mirror buried marks newA newB := by
  have remaining : newA.remainingDeps = newB.remainingDeps := by
    rw [left.remaining, right.remaining, mirror.remaining]
  have fired : newA.firedDeps = newB.firedDeps := by
    rw [left.fired, right.fired, mirror.fired]
  refine ⟨?_, ?_, remaining, fired, ?_⟩
  · rw [left.stepID, right.stepID, mirror.stepID]
  · rw [left.isJoinAny_eq, right.isJoinAny_eq, mirror.joins]
  rcases mirror.status with ⟨isBuried, dead, ready⟩ | ⟨apart, marked, cancelled, pending⟩ |
    ⟨apart, unmarked, same, unblocked⟩
  · refine .inl ⟨right.stepID.trans isBuried, ?_, ?_⟩
    · rw [left.status, settle_of_ne (by simp [dead]), dead]
    · rw [right.status, settle_of_ne (by simp [ready]), ready]
  · refine .inr (.inl ⟨right.stepID ▸ apart, right.stepID ▸ marked, ?_, ?_⟩)
    · rw [left.status, settle_of_ne (by simp [cancelled]), cancelled]
    · exact waits (right.stepID ▸ marked) pending
  · refine .inr (.inr ⟨right.stepID ▸ apart, right.stepID ▸ unmarked, ?_,
      right.isBlocked_eq.trans unblocked⟩)
    rw [left.status, right.status, mirror.joins, remaining, fired, same]

theorem Mirror.reaction (edges : a'.edges = b'.edges) (before : Mirror buried marks oldA oldB)
    (after : Mirror buried marks newA newB) (kept : newB.stepID = oldB.stepID) :
    reactionOf a' oldA newA = reactionOf b' oldB newB := by
  have listed : listEdgesFromStep newA.stepID a' = listEdgesFromStep newB.stepID b' := by
    rw [listEdgesFromStep, listEdgesFromStep, listRunEdges, listRunEdges, edges, after.stepID]
  unfold reactionOf
  rw [listed, after.stepID]
  rcases before.status with ⟨_, dead, ready⟩ | ⟨apart, marked, cancelled, _⟩ |
    ⟨apart, unmarked, same, _⟩
  · simp [dead, ready]
  · simp [cancelled, (after.of_marked (kept ▸ apart) (kept ▸ marked)).2]
  · rw [same, (after.of_free (kept ▸ apart) (kept ▸ unmarked)).1]

theorem Mirrors.resolved (mirrors : Mirrors buried marks (verdict :: owed) a b)
    (left : Resolves verdict a a' edge oldA newA) (right : Resolves verdict b b' edge oldB newB)
    (wired' : Wired b') : reactionOf a' oldA newA = reactionOf b' oldB newB ∧
      Mirrors buried marks (owed ++ (reactionOf b' oldB newB).verdicts) a' b' := by
  have unique := mirrors.unique
  have ordinals := mirrors.wired.ordinals
  have free := mirrors.free verdict mem_cons_self edge right.edges.old_mem right.normal.2.2
  have edges : a'.edges = b'.edges := by
    have ordinalsA : (a.edges.map EdgeRow.ordinal).Nodup := mirrors.edges ▸ ordinals
    rw [left.edges.eq_map ordinalsA, right.edges.eq_map ordinals, mirrors.edges]
  have mirror : Mirror buried marks oldA oldB := mirrors.rowOf left.steps.old_mem
    right.steps.old_mem (left.into.trans right.into.symm)
  have stays : ∀ row ∈ b'.steps, marks row.stepID →
      Impossible b'.edges (fun id => id = buried ∨ marks id) row := by
    intro row mem marked
    rcases right.steps.mem_of_mem mem with rfl | inside
    · exact right.impossible ordinals free unique mem right.steps.old_mem right.stepID.symm
        (mirrors.stays oldB right.steps.old_mem (right.stepID ▸ marked))
    · exact right.impossible ordinals free unique mem inside rfl (mirrors.stays row inside marked)
  have mirror' : Mirror buried marks newA newB := by
    refine mirror.resolved left right fun marked pending => ?_
    rw [right.status, pending, ← right.isJoinAny_eq]
    exact settle_of_impossible wired' right.steps.new_mem (stays newB right.steps.new_mem marked)
  have rows := mirrors.replaced left.steps right.steps (left.into.trans right.into.symm) mirror'
  have known : ∀ id, id = buried ∨ marks id → id ∈ b'.steps.map StepRow.stepID := by
    rw [right.steps.map_eq StepRow.stepID right.stepID]
    exact mirrors.known
  refine ⟨mirror.reaction edges mirror' right.stepID, right.uniqueSteps unique, known, wired', edges,
    rows, stays, ?_⟩
  intro other isOwed edge' inside' ordinal
  rcases mem_append.mp isOwed with later | added
  · rcases right.edges.mem_of_mem inside' with rfl | inside
    · exact free
    · exact mirrors.free other (mem_cons_of_mem _ later) edge' inside ordinal
  · -- only a step that is skipped in both stores adds verdicts
    obtain ⟨_, mem, named, settled⟩ :=
      right.reaction_sources ordinals other added edge' inside' ordinal
    rw [← named]
    exact outside_of_settled rows mem settled

theorem Mirrors.step (mirrors : Mirrors buried marks (verdict :: owed) a b)
    (ok : resolveVerdict verdict now a = (.ok reaction, a')) :
    ∃ b', resolveVerdict verdict now b = (.ok reaction, b') ∧
      Mirrors buried marks (owed ++ reaction.verdicts) a' b' := by
  have unique := mirrors.unique
  obtain ⟨_, b', follows⟩ := resolveVerdict_follows mirrors.edges mirrors.wired ok
  have reaches : Reaches Dag.quietPlanLint .all b b' := (resolveVerdict_sound verdict).of_ok follows
  rcases resolveVerdict_ok mirrors.uniqueLeft ok with ⟨rfl, rfl, missed⟩ | ⟨edge, _, _, left, rfl⟩
  · rcases resolveVerdict_ok unique follows with ⟨rfl, rfl, _⟩ | ⟨edge, oldB, newB, right, rfl⟩
    · refine ⟨b', follows, (append_nil owed).symm ▸ ?_⟩
      exact { mirrors with
        free := fun other mem => mirrors.free other (mem_cons_of_mem _ mem) }
    · have closed := missed edge (mirrors.edges ▸ right.edges.old_mem)
      rw [right.unresolved] at closed
      cases closed
  · rcases resolveVerdict_ok unique follows with ⟨_, _, missed⟩ | ⟨edge', _, _, right, rfl⟩
    · have closed := missed edge (mirrors.edges ▸ left.edges.old_mem)
      rw [left.unresolved] at closed
      cases closed
    · obtain rfl : edge' = edge := Table.eq_of_key mirrors.wired.ordinals right.edges.old_mem
        (mirrors.edges ▸ left.edges.old_mem) (right.normal.2.2.trans left.normal.2.2.symm)
      obtain ⟨same, mirrors'⟩ :=
        mirrors.resolved left right (wired_of_reaches reaches unique mirrors.wired)
      rw [same]
      exact ⟨b', follows, mirrors'⟩

theorem Mirrors.fanOut (mirrors : Mirrors buried marks source.verdicts a b)
    (left : Engine.fanOut source now a = (.ok fan, a'))
    (right : Engine.fanOut source now b = (.ok fan', b')) : Mirrors buried marks [] a' b' := by
  have step : ∀ verdict owed a b reaction a', Mirrors buried marks (verdict :: owed) a b →
      resolveVerdict verdict now a = (.ok reaction, a') →
      ∃ b', resolveVerdict verdict now b = (.ok reaction, b') ∧
        Mirrors buried marks (owed ++ reaction.verdicts) a' b' :=
    fun _ _ _ _ _ _ mirrors ok => mirrors.step ok
  obtain ⟨_, follows, mirrors'⟩ := fanOut_lockstep step mirrors.rows.length_eq mirrors left
  rw [right] at follows
  cases follows
  exact mirrors'

theorem Mirrors.of_rows (mirrors : Mirrors buried marks owed a b) (stepsA : a'.steps = a.steps)
    (edgesA : a'.edges = a.edges) (stepsB : b'.steps = b.steps) (edgesB : b'.edges = b.edges) :
    Mirrors buried marks owed a' b' := by
  obtain ⟨unique, known, wired, edges, rows, stays, free⟩ := mirrors
  refine ⟨?_, ?_, wired.of_shapes edgesB (by rw [stepsB]), ?_, ?_, ?_, ?_⟩
  · unfold UniqueSteps
    rw [stepsB]
    exact unique
  · rw [stepsB]
    exact known
  · rw [edgesA, edgesB, edges]
  · rw [stepsA, stepsB]
    exact rows
  · rw [stepsB, edgesB]
    exact stays
  · rw [edgesB]
    exact free

theorem Mirrors.shifted (mirrors : Mirrors buried marks owed a b) (left : Shifted a a' oldA newA)
    (right : Shifted b b' oldB newB) (same : oldA.stepID = oldB.stepID)
    (active : isActive oldA.status = true) (status : newA.status = newB.status)
    (unblocked : isBlocked newB.status = false) :
    Mirrors buried marks owed a' b' ∧ ¬(newB.stepID = buried ∨ marks newB.stepID) := by
  have mirror := mirrors.rowOf left.replaced.old_mem right.replaced.old_mem same
  obtain ⟨apart, unmarked⟩ : oldB.stepID ≠ buried ∧ ¬marks oldB.stepID := by
    rcases mirror.status with ⟨_, dead, _⟩ | ⟨_, _, cancelled, _⟩ | ⟨apart, unmarked, _⟩
    · simp [dead, isActive] at active
    · simp [cancelled, isActive] at active
    · exact ⟨apart, unmarked⟩
  have mirror' : Mirror buried marks newA newB := by
    refine ⟨?_, ?_, ?_, ?_, .inr (.inr ⟨right.place.stepID ▸ apart, right.place.stepID ▸ unmarked,
      status, unblocked⟩)⟩
    · rw [left.place.stepID, right.place.stepID, same]
    · rw [left.place.joins, right.place.joins, mirror.joins]
    · rw [left.place.remaining, right.place.remaining, mirror.remaining]
    · rw [left.place.fired, right.place.fired, mirror.fired]
  have known : ∀ id, id = buried ∨ marks id → id ∈ b'.steps.map StepRow.stepID := by
    rw [right.replaced.map_eq StepRow.stepID right.place.stepID]
    exact mirrors.known
  refine ⟨⟨right.uniqueSteps mirrors.unique, known, right.wired mirrors.wired, ?_,
    mirrors.replaced left.replaced right.replaced same mirror', ?_, ?_⟩,
    not_or.mpr ⟨right.place.stepID ▸ apart, right.place.stepID ▸ unmarked⟩⟩
  · rw [left.edges, right.edges, mirrors.edges]
  · rw [right.edges]
    intro row mem marked
    rcases right.replaced.mem_of_mem mem with rfl | inside
    · exact absurd (right.place.stepID ▸ marked) unmarked
    · exact mirrors.stays row inside marked
  · rw [right.edges]
    exact mirrors.free

theorem attemptRunRollup_unable
    (uncancelled : s.run.status ≠ .cancelling) (unable : canSucceed s.run = false)
    (ok : attemptRunRollup now s = (.ok found, s')) :
    (canFail s.run = true ∧ Fails s s') ∨ (canFail s.run = false ∧ s' = s) := by
  obtain ⟨_, _, first, rest₁⟩ := bind_ok ok
  rcases dropped_run_ok first with ⟨_, able, _⟩ | ⟨rfl, _, rfl⟩
  · have isAble : canSucceed s.run = true := able
    rw [unable] at isAble
    cases isAble
  obtain ⟨_, _, second, rest₂⟩ := bind_ok rest₁
  rcases dropped_run_ok second with ⟨rfl, able, rfl⟩ | ⟨rfl, missed, rfl⟩
  · cases rest₂
    exact .inl ⟨able, rfl, rfl, rfl, rfl⟩
  · rcases dropped_run_ok rest₂ with ⟨_, cancelling, _⟩ | ⟨_, _, rfl⟩
    · simp [uncancelled] at cancelling
    · exact .inr ⟨missed, rfl⟩

theorem fanOut_runStatus {fan : FanOut} (unique : UniqueSteps s)
    (ok : fanOut source now s = (.ok fan, s')) : s'.run.status = s.run.status := by
  let holds (_ : List EdgeVerdict) (t : RunStore) : Prop :=
    UniqueSteps t ∧ t.run.status = s.run.status
  have step : ∀ verdict owed t reaction t', holds (verdict :: owed) t →
      resolveVerdict verdict now t = (.ok reaction, t') → holds (owed ++ reaction.verdicts) t' := by
    rintro verdict owed t reaction t' ⟨uniqueSteps, same⟩ taken
    rcases resolveVerdict_ok uniqueSteps taken with ⟨_, rfl, _⟩ | ⟨_, _, _, resolves, _⟩
    · exact ⟨uniqueSteps, same⟩
    · exact ⟨resolves.uniqueSteps uniqueSteps, resolves.runStatus.trans same⟩
  have after : holds [] s' :=
    fanOut_rule_ok (fun _ _ held => held.1) step (by exact ⟨unique, rfl⟩) ok
  exact after.2

theorem not_canSucceed_of_unsettled (booked : Booked s) (mem : row ∈ s.steps)
    (unsettled : isCounted row.status = false) : canSucceed s.run = false := by
  by_contra able
  simp only [canSucceed, Bool.not_eq_false, Bool.and_eq_true, beq_iff_eq] at able
  obtain ⟨⟨_, _⟩, _⟩ := able
  have total := census_total s.steps
  rw [← booked.counters, Counters.total] at total
  have cancelled : 0 ≤ s.run.counters.cancelled := by
    rw [booked.counters]
    exact Int.natCast_nonneg _
  have all : s.steps.countP (fun row => isCounted row.status) = s.steps.length := by
    have bound := countP_le_length (p := fun row : StepRow => isCounted row.status) (l := s.steps)
    have sum := booked.total
    omega
  have counted := countP_eq_length.mp all row mem
  rw [unsettled] at counted
  cases counted

theorem failed_pos_of_dead (booked : Booked s) (mem : row ∈ s.steps)
    (dead : row.status = .deadLettered) : 1 ≤ s.run.counters.failed := by
  have found : 0 < withStatus .deadLettered s.steps :=
    countP_pos_iff.mpr ⟨row, mem, by simp [dead]⟩
  rw [booked.counters]
  change (1 : Int) ≤ withStatus .deadLettered s.steps
  omega

/-- The run with the dead-lettered step may have failed meanwhile; the other keeps its status. -/
structure Parallel (buried : String) (marks : String → Prop) (status : RunStatus)
    (a b : RunStore) : Prop where
  mirrors : Mirrors buried marks [] a b
  bookedLeft : Booked a
  bookedRight : Booked b
  uncancelled : status ≠ .cancelling
  left : a.run.status = status ∨
    a.run.status = .failed ∧ (status = .running ∨ status = .parked)
  right : b.run.status = status

variable {stepID : String} {found : Option TerminalSource}
  {decision : ApprovalRow × StepRow × Decision} {action : Action} {claimID : ClaimID} {u : Unit}

theorem uncancelled_of_left (uncancelled : status ≠ .cancelling)
    (left : s.run.status = status ∨ s.run.status = .failed ∧ (status = .running ∨ status = .parked)) :
    s.run.status ≠ .cancelling := by
  rcases left with same | ⟨failed, _⟩
  · rw [same]
    exact uncancelled
  · simp [failed]

theorem Mirrors.left_unable (mirrors : Mirrors buried marks owed a b) (booked : Booked a) :
    canSucceed a.run = false := by
  obtain ⟨_, mem, named⟩ := mem_map.mp (mirrors.known buried (.inl rfl))
  obtain ⟨left, inside, mirror⟩ := exists_left_of_mem mirrors.rows mem
  have failed := failed_pos_of_dead booked inside (mirror.of_buried named).1
  simp only [canSucceed, Bool.and_eq_false_iff, beq_eq_false_iff_ne]
  exact .inl (.inr (by omega))

theorem Mirrors.right_unable (mirrors : Mirrors buried marks owed a b) (booked : Booked b) :
    canSucceed b.run = false ∧ canFail b.run = false := by
  obtain ⟨right, mem, named⟩ := mem_map.mp (mirrors.known buried (.inl rfl))
  obtain ⟨_, _, mirror⟩ := exists_left_of_mem mirrors.rows mem
  have unsettled : isCounted right.status = false := by
    rw [(mirror.of_buried named).2]
    rfl
  refine ⟨not_canSucceed_of_unsettled booked mem unsettled, ?_⟩
  by_contra able
  simp only [canFail, Bool.not_eq_false, Bool.and_eq_true] at able
  have counted := booked.allSettled_iff.mp able.2 right mem
  rw [unsettled] at counted
  cases counted

theorem Parallel.moved {settled} (parallel : Parallel buried marks status a b)
    (unblocked : isBlocked settled = false) (left : MovesTo stepID settled a a' oldA newA)
    (right : MovesTo stepID settled b b' oldB newB) (reachesLeft : Reaches lint .all a a')
    (reachesRight : Reaches lint .all b b') : Parallel buried marks status a' b' := by
  obtain ⟨mirrors, _⟩ := parallel.mirrors.shifted left.shifted right.shifted
    (left.named.trans right.named.symm) left.before (left.after.trans right.after.symm)
    (right.after ▸ unblocked)
  exact ⟨mirrors, booked_of_reaches reachesLeft parallel.mirrors.uniqueLeft parallel.bookedLeft,
    booked_of_reaches reachesRight parallel.mirrors.unique parallel.bookedRight,
    parallel.uncancelled, left.shifted.status ▸ parallel.left,
    right.shifted.status ▸ parallel.right⟩

theorem terminalSource_inj (edges : s.edges = t.edges)
    (left : terminalSource stepID stepType evaluator select s = (.ok first, s'))
    (right : terminalSource stepID stepType evaluator select t = (.ok second, t')) :
    first = second := by
  have listed : listEdgesFromStep stepID s = listEdgesFromStep stepID t := by
    rw [listEdgesFromStep, listEdgesFromStep, listRunEdges, listRunEdges, edges]
  unfold terminalSource at left right
  rw [bind_apply, read_apply] at left right
  rw [listed] at left
  cases planned : planEdges stepType evaluator (listEdgesFromStep stepID t) with
  | error msg =>
    simp only [planned] at left
    cases left
  | ok verdicts =>
    simp only [planned] at left right
    cases left
    cases right
    rfl

theorem Parallel.completed (parallel : Parallel buried marks status a b)
    (isSettled : Engine.isSettled settled = true)
    (left : SettlesTo stepID verdicts settled sourceA a s oldA newA)
    (right : SettlesTo stepID verdicts settled sourceB b t oldB newB)
    (reachesLeft : Reaches lint .all a s) (reachesRight : Reaches lint .all b t)
    (routedLeft : routeAndRollup (some sourceA) now s = (.ok (), a'))
    (routedRight : routeAndRollup (some sourceB) now t = (.ok (), b')) :
    Parallel buried marks status a' b' := by
  have unblocked : isBlocked newB.status = false := by
    rw [right.after]
    exact isBlocked_of_settled isSettled
  obtain ⟨mirrors, outside⟩ := parallel.mirrors.shifted left.shifted right.shifted
    (left.named.trans right.named.symm) left.before (left.after.trans right.after.symm) unblocked
  obtain rfl : sourceA = sourceB :=
    terminalSource_inj mirrors.edges left.planned right.planned
  obtain ⟨_, sourced, covers⟩ := terminalSource_ok verdicts.selects right.planned
  have seeded : Mirrors buried marks sourceA.verdicts s t := by
    refine { mirrors with free := fun verdict mem edge inside ordinal => ?_ }
    rw [covers.fromStep mirrors.wired mem inside ordinal, sourced, ← right.named,
      ← right.shifted.place.stepID]
    exact outside
  obtain ⟨_, _, s₂, _, fannedA, sameA, routingA, rolledA⟩ := routeAndRollup_ok lint routedLeft
  obtain ⟨_, _, t₂, _, fannedB, sameB, routingB, rolledB⟩ := routeAndRollup_ok lint routedRight
  have mirrors₂ := (seeded.fanOut fannedA fannedB).of_rows sameA.steps sameA.edges sameB.steps
    sameB.edges
  have bookedS := booked_of_reaches reachesLeft parallel.mirrors.uniqueLeft parallel.bookedLeft
  have bookedT := booked_of_reaches reachesRight parallel.mirrors.unique parallel.bookedRight
  have statusB : t₂.run.status = status := by
    rw [sameB.status, fanOut_runStatus mirrors.unique fannedB, right.shifted.status, parallel.right]
  have statusA : s₂.run.status = status ∨
      s₂.run.status = .failed ∧ (status = .running ∨ status = .parked) := by
    rw [sameA.status, fanOut_runStatus mirrors.uniqueLeft fannedA, left.shifted.status]
    exact parallel.left
  have routesA : Reaches lint .all s a' := (routeAndRollup_sound trivial _).of_ok routedLeft
  have routesB : Reaches lint .all t b' := (routeAndRollup_sound trivial _).of_ok routedRight
  have bookedA' := booked_of_reaches routesA mirrors.uniqueLeft bookedS
  have bookedB' := booked_of_reaches routesB mirrors.unique bookedT
  obtain ⟨unable, standing⟩ :=
    mirrors₂.right_unable (booked_of_reaches routingB mirrors.unique bookedT)
  have leftUnable := mirrors₂.left_unable (booked_of_reaches routingA mirrors.uniqueLeft bookedS)
  have rests : b' = t₂ := by
    rcases attemptRunRollup_unable (statusB ▸ parallel.uncancelled) unable rolledB with
      ⟨able, _⟩ | ⟨_, same⟩
    · rw [standing] at able
      cases able
    · exact same
  rcases attemptRunRollup_unable
    (uncancelled_of_left parallel.uncancelled statusA) leftUnable rolledA with
    ⟨able, fails⟩ | ⟨_, rfl⟩
  · have live : status = .running ∨ status = .parked := by
      simp only [canFail, RunRow.live, Bool.and_eq_true, Bool.or_eq_true, beq_iff_eq] at able
      rcases statusA with same | ⟨_, live⟩
      · exact same ▸ able.1.1
      · exact live
    exact ⟨mirrors₂.of_rows fails.steps fails.edges (by rw [rests]) (by rw [rests]), bookedA',
      bookedB', parallel.uncancelled, .inr ⟨fails.status, live⟩, rests ▸ statusB⟩
  · exact ⟨rests ▸ mirrors₂, bookedA', bookedB', parallel.uncancelled, statusA, rests ▸ statusB⟩

def Action.moves : Action → Option (String × StepStatus)
  | .claim stepID _ _ => some (stepID, .running)
  | .fail stepID _ _ _ (.retry _) => some (stepID, .retrying)
  | .throttle stepID _ _ _ _ _ => some (stepID, .retrying)
  | .invalidate stepID _ _ _ (.semanticRetry _ _ _ _) => some (stepID, .retrying)
  | .awaitHuman stepID _ _ => some (stepID, .awaitingHuman)
  | _ => none

inductive Action.Completes : Action → Prop
  | moves {action : Action} {target : String × StepStatus} (moves : action.moves = some target) :
      action.Completes
  | succeed {args : Success} (plain : args.expansion = none) : (Action.succeed args).Completes
  | collect (args : Collected) : (Action.collect args).Completes

def Action.admits (env : Environment) (now : Time) : Action → Option (ApprovalRow × StepRow × Decision)
  | .decide args seen =>
    (admitDecision env.satisfies args seen).toOption.map fun rows => (rows.1, rows.2, args)
  | .timeout stepID output evaluator seen later =>
    match dueApproval stepID seen now, approvalTimeoutPolicy stepID seen with
    | none, _ | _, .park => none
    | some approval, .approve =>
      let args := timeoutDecision approval.id .approve output evaluator
      (admitDecision env.satisfies args later).toOption.map fun rows => (rows.1, rows.2, args)
    | some approval, .reject =>
      let args := timeoutDecision approval.id .reject output evaluator
      (admitDecision env.satisfies args later).toOption.map fun rows => (rows.1, rows.2, args)
  | _ => none

theorem decide_of_admitted
    (admits : (admitDecision env.satisfies args seen).toOption.map (fun rows => (rows.1, rows.2,
      args)) = some decision) : Engine.decide env.satisfies args seen now =
      (settleDecision decision.1 decision.2.1 decision.2.2 now >>= fun source =>
        routeDecided source now) := by
  unfold Engine.decide
  cases admitted : admitDecision env.satisfies args seen with
  | error e =>
    rw [admitted] at admits
    cases admits
  | ok rows =>
    rw [admitted] at admits
    cases admits
    rfl

theorem Action.exec_of_admits (admits : action.admits env now = some decision) :
    action.exec env now = (settleDecision decision.1 decision.2.1 decision.2.2 now >>= fun source =>
      routeDecided source now) := by
  cases action with
  | decide args seen => exact decide_of_admitted admits
  | timeout stepID output evaluator seen later =>
    change handleApprovalTimeout _ _ _ _ _ _ _ = _
    unfold handleApprovalTimeout
    unfold Action.admits at admits
    cases due : dueApproval stepID seen now with
    | none => simp [due] at admits
    | some approval =>
      cases policy : approvalTimeoutPolicy stepID seen with
      | park => simp [due, policy] at admits
      | approve =>
        simp only [due, policy] at admits
        exact decide_of_admitted admits
      | reject =>
        simp only [due, policy] at admits
        exact decide_of_admitted admits
  | _ => cases admits

theorem claimStep_shifted (ok : claimStep stepID claimID workerID now s = (.ok row, s')) :
    ∃ old, Shifted s s' old row ∧ old.stepID = stepID ∧ isActive old.status = true ∧
      row.status = .running := by
  obtain ⟨_, old, _, _, named, claims, rfl, replaced, _, _, _, _, _, rfl⟩ :=
    claimStep_ok _ _ _ ok
  refine ⟨old, ⟨replaced, ⟨rfl, rfl, rfl, rfl⟩, rfl, rfl, rfl⟩, named, ?_, rfl⟩
  rcases claimable_status claims with status | status <;> rw [status] <;> rfl

theorem Action.exec_movesTo (moves : action.moves = some target)
    (uncancelled : s.run.status ≠ .cancelling) (ok : action.exec env now s = (.ok (), s')) :
    isBlocked target.2 = false ∧ ∃ old new, MovesTo target.1 target.2 s s' old new := by
  unfold Action.moves at moves
  split at moves
  on_goal 6 => cases moves
  all_goals cases moves
  all_goals refine ⟨rfl, ?_⟩
  · obtain ⟨row, claimed⟩ := void_ok ok
    obtain ⟨old, shifted, named, active, running⟩ := claimStep_shifted claimed
    exact ⟨old, row, shifted, named, active, running⟩
  · obtain ⟨row, s₁, retried, noted⟩ := bind_ok (unlessCancelling_parts uncancelled ok)
    have rest₂ := requireNow_bind_ok retried
    have rest₃ := requireArgument_bind_ok rest₂
    have rest₄ := requireArgument_bind_ok rest₃
    obtain ⟨old, named, held, rfl, shifted⟩ := shifted_of_run rest₄ (retry_moves _ _ _ _ _)
    exact ⟨old, _, shifted.after ((recordNotes_keeps _ _ _).of_ok noted), named,
      isActive_of_held old held, rfl⟩
  · obtain ⟨row, throttled⟩ := void_ok (unlessCancelling_parts uncancelled ok)
    have rest₂ := requireNow_bind_ok throttled
    have rest₃ := requireArgument_bind_ok rest₂
    obtain ⟨old, named, held, rfl, shifted⟩ := shifted_of_run rest₃ (throttle_moves _ _ _ _ _ _ _)
    exact ⟨old, _, shifted, named, isActive_of_held old held, rfl⟩
  · obtain ⟨row, _, retried, rest₁⟩ := bind_ok (unlessCancelling_parts uncancelled ok)
    have rest₂ := requireNow_bind_ok retried
    have rest₃ := requireArgument_bind_ok rest₂
    obtain ⟨old, named, held, rfl, shifted⟩ := shifted_of_run rest₃ (semanticRetry_moves _ _ _ _)
    obtain ⟨_, s, queued, noted⟩ := bind_ok rest₁
    exact ⟨old, _, (shifted.after ((createOutbox_keeps _ _).of_ok queued)).after
      ((recordNotes_keeps _ _ _).of_ok noted), named, isActive_of_held old held, rfl⟩
  · obtain ⟨_, awaited⟩ := void_ok (unlessCancelling_parts uncancelled ok)
    obtain ⟨old, _, named, held, rfl, replaced, _, _, rfl⟩ := awaitHumanStep_ok awaited
    exact ⟨old, _, ⟨replaced, ⟨rfl, rfl, rfl, rfl⟩, rfl, rfl, rfl⟩, named,
      isActive_of_held old held, rfl⟩

theorem Parallel.acted (parallel : Parallel buried marks status a b)
    (completes : action.Completes) (left : action.exec env now a = (.ok (), a'))
    (right : action.exec env now b = (.ok (), b')) : Parallel buried marks status a' b' := by
  have sound : Sound env.lint .all (action.exec env now) := Action.exec_sound {}
  have leftUncancelled := uncancelled_of_left parallel.uncancelled parallel.left
  have rightUncancelled : b.run.status ≠ .cancelling := parallel.right ▸ parallel.uncancelled
  cases completes with
  | moves moves =>
    obtain ⟨unblocked, _, _, movesA⟩ := Action.exec_movesTo moves leftUncancelled left
    obtain ⟨_, _, _, movesB⟩ := Action.exec_movesTo moves rightUncancelled right
    exact parallel.moved unblocked movesA movesB (sound.of_ok left) (sound.of_ok right)
  | succeed plain =>
    rename_i args
    obtain ⟨_, s, settledA, routedA⟩ := bind_ok left
    obtain ⟨_, t, settledB, routedB⟩ := bind_ok right
    obtain ⟨sourceA, _, _, rfl, settlesA⟩ :=
      settleSuccess_settlesTo plain leftUncancelled settledA
    obtain ⟨sourceB, _, _, rfl, settlesB⟩ :=
      settleSuccess_settlesTo plain rightUncancelled settledB
    exact parallel.completed rfl settlesA settlesB
      ((settleSuccess_sound trivial trivial args fun _ _ => trivial).of_ok settledA)
      ((settleSuccess_sound trivial trivial args fun _ _ => trivial).of_ok settledB) routedA routedB
  | collect args =>
    obtain ⟨_, s, settledA, routedA⟩ := bind_ok (unlessCancelling_parts leftUncancelled left)
    obtain ⟨_, t, settledB, routedB⟩ := bind_ok (unlessCancelling_parts rightUncancelled right)
    obtain ⟨_, _, settlesA⟩ := settleCollected_settlesTo settledA
    obtain ⟨_, _, settlesB⟩ := settleCollected_settlesTo settledB
    have settling : Sound env.lint .all (settleCollected args now) :=
      (collectFailStep_sound _ _ _ _ _).bind fun _ =>
        (recordNotes_sound _ _ fun _ _ => trivial).bind fun _ => terminalSource_sound _ _ _ _
    exact parallel.completed rfl settlesA settlesB (settling.of_ok settledA)
      (settling.of_ok settledB) routedA routedB

theorem Parallel.decided {left right : Action} (parallel : Parallel buried marks status a b)
    (admitsLeft : left.admits env now = some decision)
    (admitsRight : right.admits env now = some decision)
    (spared : decision.2.2.request.buries decision.2.1 = false)
    (okLeft : left.exec env now a = (.ok (), a')) (okRight : right.exec env now b = (.ok (), b')) :
    Parallel buried marks status a' b' := by
  rw [Action.exec_of_admits admitsLeft] at okLeft
  rw [Action.exec_of_admits admitsRight] at okRight
  obtain ⟨_, s, settledA, routedA⟩ := bind_ok okLeft
  obtain ⟨_, t, settledB, routedB⟩ := bind_ok okRight
  obtain ⟨_, _, _, _, rfl, settlesA⟩ := settleDecision_settlesTo spared settledA
  obtain ⟨_, _, _, _, rfl, settlesB⟩ := settleDecision_settlesTo spared settledB
  have sound : Sound env.lint .all
      (settleDecision decision.1 decision.2.1 decision.2.2 now) := settleDecision_sound trivial _ _ _
  exact parallel.completed rfl settlesA settlesB (sound.of_ok settledA) (sound.of_ok settledB)
    routedA routedB

inductive Paired (env : Environment) (a b : RunStore) : RunStore → RunStore → Prop
  | start : Paired env a b a b
  | acted {action : Action} {now : Time} {a₁ b₁ a₂ b₂ : RunStore} (paired : Paired env a b a₁ b₁)
      (completes : action.Completes) (left : action.exec env now a₁ = (.ok (), a₂))
      (right : action.exec env now b₁ = (.ok (), b₂)) : Paired env a b a₂ b₂
  | decided {left right : Action} {decision : ApprovalRow × StepRow × Decision} {now : Time}
      {a₁ b₁ a₂ b₂ : RunStore} (paired : Paired env a b a₁ b₁)
      (admitsLeft : left.admits env now = some decision)
      (admitsRight : right.admits env now = some decision)
      (spared : decision.2.2.request.buries decision.2.1 = false)
      (okLeft : left.exec env now a₁ = (.ok (), a₂))
      (okRight : right.exec env now b₁ = (.ok (), b₂)) : Paired env a b a₂ b₂

def neverBuried (stepID : String) (s : RunStore) : RunStore :=
  { s with
    steps := s.steps.map fun row => if row.stepID = stepID then { row with status := .ready } else row }

def graphRow (row : StepRow) : String × StepStatus × Nat × Nat :=
  (row.stepID, row.status, row.remainingDeps, row.firedDeps)

theorem nothing_impossible (alive : ∀ row ∈ s.steps, isDead row.status = false) :
    planWriteOff ((listRunSteps s).map asIfPending) (listRunEdges s) = [] := by
  refine planWriteOff_eq_nil_iff.mpr fun row mem pending impossible => ?_
  obtain ⟨_, _, blocked⟩ := impossible.source
  obtain ⟨source, inside, _, dead⟩ := blocked_asIfPending_iff.mp blocked
  rw [alive source ((mem_insertionSort _).mp inside)] at dead
  cases dead

theorem Mirrors.rightOf (mirrors : Mirrors buried marks owed a b) (mem : left ∈ a.steps) :
    ∃ right ∈ b.steps, Mirror buried marks left right := by
  have listed : left.stepID ∈ b.steps.map StepRow.stepID := by
    rw [← mirrors.stepIDs]
    exact mem_map_of_mem mem
  obtain ⟨right, inside, same⟩ := mem_map.mp listed
  exact ⟨right, inside, mirrors.rowOf mem inside same.symm⟩

theorem Mirror.dead_iff (mirror : Mirror buried marks left right) :
    isDead left.status = true ↔ left.stepID = buried := by
  rw [mirror.stepID]
  rcases mirror.status with ⟨isBuried, dead, _⟩ | ⟨apart, _, cancelled, _⟩ | ⟨apart, _, same, free⟩
  · simp [isBuried, dead, isDead]
  · simp [apart, cancelled, isDead]
  · rw [same]
    refine iff_of_false (fun dead => ?_) apart
    rw [isBlocked_iff.mpr (.inl dead)] at free
    cases free

theorem Parallel.requeued (parallel : Parallel buried marks status a b)
    (requeued : Engine.requeue buried now a = (.ok (), r)) :
    r.steps.map graphRow = b.steps.map graphRow ∧ r.edges = b.edges ∧
      a.run.status ≠ .cancelling ∧ a.run.status ≠ .cancelled ∧
      r.run.status = if a.run.status = .failed then .running else a.run.status := by
  have mirrors := parallel.mirrors
  have uniqueA := mirrors.uniqueLeft
  obtain ⟨_, s₂, _, old, new, _, shifted, dead, ready, reopened, mapped, same⟩ :=
    requeue_parts uniqueA requeued
  obtain ⟨steps, edges, _, uncancelling, uncancelled, reopens⟩ := reopen_status reopened
  rw [shifted.status] at uncancelling uncancelled reopens
  have isOld : old.stepID = buried := by
    obtain ⟨_, _, mirror⟩ := mirrors.rightOf shifted.replaced.old_mem
    exact mirror.dead_iff.mp (by rw [dead]; rfl)
  have unique₂ : UniqueSteps s₂ := by
    unfold UniqueSteps
    rw [steps]
    exact shifted.uniqueSteps uniqueA
  have alive : ∀ row ∈ s₂.steps, isDead row.status = false := by
    rw [steps]
    intro row mem
    rcases shifted.replaced.key_ne uniqueA mem with rfl | ⟨inside, apart⟩
    · rw [ready]
      rfl
    · obtain ⟨_, _, mirror⟩ := mirrors.rightOf inside
      exact Bool.eq_false_iff.mpr fun isDead => apart ((mirror.dead_iff.mp isDead).trans isOld.symm)
  have revives : ∀ row ∈ s₂.steps, row.stepID ∈ revivable s₂ ↔ row.status = .cancelled := by
    intro row mem
    rw [mem_revivable unique₂ mem, nothing_impossible alive]
    simp
  refine ⟨?_, ?_, uncancelling, uncancelled, ?_⟩
  · have restored : List.Forall₂ (fun x y => graphRow (setIn (revivable s₂) (revivedRow now)
        (if x.stepID = old.stepID then new else x)) = graphRow y) a.steps b.steps := by
      refine forall₂_of_mem mirrors.rows fun x inA y _ mirror => ?_
      have inside : (if x.stepID = old.stepID then new else x) ∈ s₂.steps := by
        rw [steps, shifted.replaced.eq_map uniqueA]
        exact mem_map_of_mem inA
      have revived := revives _ inside
      rcases mirror.status with ⟨isBuried, _, isReady⟩ | ⟨apart, _, cancelled, pending⟩ |
        ⟨apart, _, sameStatus, free⟩
      · have named : x.stepID = old.stepID := mirror.stepID.trans (isBuried.trans isOld.symm)
        obtain rfl := Table.eq_of_key uniqueA inA shifted.replaced.old_mem named
        rw [if_pos rfl] at revived ⊢
        rw [setIn_of_notMem (by simp [revived, ready])]
        simp [graphRow, ready, isReady, shifted.place.stepID, shifted.place.remaining,
          shifted.place.fired, mirror.stepID, mirror.remaining, mirror.fired]
      · have named : x.stepID ≠ old.stepID := fun isOldA =>
          apart (mirror.stepID.symm.trans (isOldA.trans isOld))
        rw [if_neg named] at revived ⊢
        rw [setIn_of_mem (revived.mpr cancelled)]
        simp [graphRow, revivedRow, pending, mirror.stepID, mirror.remaining, mirror.fired]
      · have named : x.stepID ≠ old.stepID := fun isOldA =>
          apart (mirror.stepID.symm.trans (isOldA.trans isOld))
        have uncancelledRow : x.status ≠ .cancelled := by
          rw [sameStatus]
          intro cancelled
          rw [cancelled] at free
          cases free
        rw [if_neg named] at revived ⊢
        rw [setIn_of_notMem (by simp [revived, uncancelledRow])]
        simp [graphRow, sameStatus, mirror.stepID, mirror.remaining, mirror.fired]
    rw [same.steps, mapped.steps, steps, shifted.replaced.eq_map uniqueA, List.map_map, List.map_map]
    rw [← forall₂_eq_eq_eq, forall₂_map_left_iff, forall₂_map_right_iff]
    exact restored
  · rw [same.edges, mapped.edges, edges, shifted.edges, mirrors.edges]
  · rw [same.status, mapped.status, reopens]

section Burial

variable {old new : StepRow} {disposed : List String × Bool}

theorem neverBuried_shifted (unique : UniqueSteps s) (mem : old ∈ s.steps) :
    Shifted s (neverBuried old.stepID s) old { old with status := .ready } := by
  obtain ⟨front, rest, split⟩ := append_of_mem mem
  have replaced : Table.Replaced s.steps (front ++ { old with status := .ready } :: rest) old
      { old with status := .ready } := ⟨front, rest, split, rfl⟩
  have steps : (neverBuried old.stepID s).steps = front ++ { old with status := .ready } :: rest := by
    rw [replaced.eq_map unique]
    refine map_congr_left fun row inside => ?_
    by_cases same : row.stepID = old.stepID
    · rw [if_pos same, if_pos same, Table.eq_of_key unique inside mem same]
    · rw [if_neg same, if_neg same]
  exact ⟨steps ▸ replaced, ⟨rfl, rfl, rfl, rfl⟩, rfl, rfl, rfl⟩

theorem neverBuried_booked (booked : Booked s)
    (shifted : Shifted s (neverBuried old.stepID s) old { old with status := .ready })
    (before : isActive old.status = true ∨ old.status = .pending) :
    Booked (neverBuried old.stepID s) := by
  have uncounted : tally old.status = {} := by
    rcases before with active | pending
    · cases status : old.status <;> simp_all [isActive, tally]
    · rw [pending]
      rfl
  refine ⟨?_, ?_⟩
  · have census := census_replaced shifted.replaced
    rw [uncounted, show tally StepStatus.ready = {} from rfl, Counters.add_zero,
      Counters.add_zero] at census
    rw [census]
    exact booked.counters
  · rw [shifted.replaced.length]
    exact booked.total

theorem deadLetterDisposition_written (continues : t.run.onFailure = .continueIndependentBranches)
    (ok : deadLetterDisposition t.run.onFailure now t = (.ok disposed, a)) :
    disposed.1 = writeOffOf t := by
  rw [continues] at ok
  have rest₁ := read_bind_ok ok
  obtain ⟨_, _, _, rest₂⟩ := bind_ok rest₁
  obtain ⟨_, _, _, rest₃⟩ := bind_ok rest₂
  cases rest₃
  rfl

theorem writeOffOf_known {id} (written : id ∈ writeOffOf t) : id ∈ t.steps.map StepRow.stepID :=
  (writeOffOf_writeOff t).least _ (fun _ mem _ _ => mem_map_of_mem mem) id written

theorem Dies.stays (dies : Dies lint s t old new) (unique : UniqueSteps s) (wired : Wired s)
    (unfailed : ∀ row ∈ s.steps, isBlocked row.status = false) :
    ∀ row ∈ t.steps, row.stepID ∈ writeOffOf t → row.status = .pending ∧
      Impossible t.edges (fun id => id = old.stepID ∨ id ∈ writeOffOf t) row := by
  intro row mem marked
  have stuck := (writeOffOf_writeOff t).stuck (dies.shifted.uniqueSteps unique)
    (dies.shifted.wired wired)
  obtain ⟨pending, impossible⟩ := stuck.stays row mem marked
  refine ⟨pending, impossible.mono fun id => Or.imp_left ?_⟩
  rintro ⟨source, inside, rfl, blocked⟩
  rcases dies.shifted.replaced.mem_of_mem inside with rfl | earlier
  · exact dies.shifted.place.stepID
  · rw [unfailed source earlier] at blocked
    cases blocked

theorem Dies.spared (dies : Dies lint s t old new) (unique : UniqueSteps s) (wired : Wired s)
    (unfailed : ∀ row ∈ s.steps, isBlocked row.status = false) : old.stepID ∉ writeOffOf t := by
  intro marked
  have pending := (dies.stays unique wired unfailed new dies.shifted.replaced.new_mem
    (dies.shifted.place.stepID ▸ marked)).1
  rw [dies.after] at pending
  cases pending

theorem Parallel.start (unique : UniqueSteps s) (wired : Wired s) (booked : Booked s)
    (continues : s.run.onFailure = .continueIndependentBranches)
    (unfailed : ∀ row ∈ s.steps, isBlocked row.status = false)
    (uncancelled : s.run.status ≠ .cancelling) (dies : Dies lint s t old new)
    (ok : deadLetterDisposition t.run.onFailure now t = (.ok disposed, a)) :
    Parallel old.stepID (· ∈ writeOffOf t) s.run.status a (neverBuried old.stepID s) := by
  have uniqueT := dies.shifted.uniqueSteps unique
  have shifted := neverBuried_shifted unique dies.shifted.replaced.old_mem
  have stays := dies.stays unique wired unfailed
  have spared := dies.spared unique wired unfailed
  have kept : ∀ row ∈ s.steps, row.stepID ≠ old.stepID → row ∈ t.steps := by
    intro row mem apart
    rcases dies.shifted.replaced.mem_or_old mem with rfl | inside
    · exact absurd rfl apart
    · exact inside
  have reachesT : Booked t := booked_of_reaches dies.reaches unique booked
  have reaches : Reaches lint .all t a := (deadLetterDisposition_sound _).of_ok ok
  have policy := dies.shifted.onFailure.trans continues
  rcases deadLetterDisposition_ok lint uniqueT ok with ⟨failFast, _⟩ | ⟨_, u, mapped, _, outcome⟩
  · rw [policy] at failFast
    cases failFast
  have rows : a.steps = u.steps ∧ a.edges = u.edges ∧
      (a.run.status = s.run.status ∨
        a.run.status = .failed ∧ (s.run.status = .running ∨ s.run.status = .parked)) := by
    rcases outcome with ⟨able, fails⟩ | ⟨_, rfl⟩
    · refine ⟨fails.steps, fails.edges, .inr ⟨fails.status, ?_⟩⟩
      simp only [canFail, RunRow.live, Bool.and_eq_true, Bool.or_eq_true, beq_iff_eq, mapped.status,
        dies.shifted.status] at able
      exact able.1.1
    · exact ⟨rfl, rfl, .inl (mapped.status.trans dies.shifted.status)⟩
  refine ⟨⟨shifted.uniqueSteps unique, ?_, shifted.wired wired, ?_, ?_, ?_, by simp⟩,
    booked_of_reaches reaches uniqueT reachesT, neverBuried_booked booked shifted dies.before,
    uncancelled, rows.2.2, rfl⟩
  · rw [shifted.replaced.map_eq StepRow.stepID rfl]
    rintro id (rfl | marked)
    · exact mem_map_of_mem dies.shifted.replaced.old_mem
    · rw [← dies.shifted.replaced.map_eq StepRow.stepID dies.shifted.place.stepID]
      exact writeOffOf_known marked
  · rw [rows.2.1, mapped.edges, dies.shifted.edges]
    rfl
  · rw [rows.1, mapped.steps, dies.shifted.replaced.eq_map unique, neverBuried, List.map_map,
      forall₂_map_left_iff, forall₂_map_right_iff, forall₂_same]
    intro x mem
    by_cases isOld : x.stepID = old.stepID
    · obtain rfl := Table.eq_of_key unique mem dies.shifted.replaced.old_mem isOld
      simp only [Function.comp_apply, if_true]
      rw [setIn_of_notMem (dies.shifted.place.stepID ▸ spared)]
      exact ⟨dies.shifted.place.stepID, dies.shifted.place.joins, dies.shifted.place.remaining,
        dies.shifted.place.fired, .inl ⟨rfl, dies.after, rfl⟩⟩
    · simp only [Function.comp_apply, isOld, if_false]
      by_cases marked : x.stepID ∈ writeOffOf t
      · rw [setIn_of_mem marked]
        exact ⟨rfl, rfl, rfl, rfl,
          .inr (.inl ⟨isOld, marked, rfl, (stays x (kept x mem isOld) marked).1⟩)⟩
      · rw [setIn_of_notMem marked]
        exact ⟨rfl, rfl, rfl, rfl, .inr (.inr ⟨isOld, marked, rfl, unfailed x mem⟩)⟩
  · intro row mem marked
    rcases shifted.replaced.key_ne unique mem with rfl | ⟨inside, apart⟩
    · exact absurd marked spared
    · have impossible := (stays row (kept row inside apart) marked).2
      rw [dies.shifted.edges] at impossible
      exact impossible

end Burial

theorem not_live_of_cancel (cancels : s.run.status.isCancel) : s.run.live = false := by
  rcases cancels with status | status <;> simp [RunRow.live, status]

theorem attemptRunRollup_cancels {found} (cancels : s.run.status.isCancel)
    (ok : attemptRunRollup now s = (.ok found, s')) : s'.run.status.isCancel := by
  have dead := not_live_of_cancel cancels
  obtain ⟨_, _, first, rest₁⟩ := bind_ok ok
  rcases dropped_run_ok first with ⟨_, able, _⟩ | ⟨rfl, _, rfl⟩
  · simp [dead] at able
  obtain ⟨_, _, second, rest₂⟩ := bind_ok rest₁
  rcases dropped_run_ok second with ⟨_, able, _⟩ | ⟨rfl, _, rfl⟩
  · simp [dead] at able
  rcases dropped_run_ok rest₂ with ⟨_, _, rfl⟩ | ⟨_, _, rfl⟩
  · exact .inr rfl
  · exact cancels

theorem routeAndRollup_cancels {source} (unique : UniqueSteps s)
    (cancels : s.run.status.isCancel) (ok : routeAndRollup source now s = (.ok u, s')) :
    s'.run.status.isCancel := by
  cases source with
  | none =>
    have rest := read_bind_ok ok
    obtain ⟨_, rolled⟩ := void_ok rest
    exact attemptRunRollup_cancels cancels rolled
  | some source =>
    obtain ⟨_, t, _, _, fanned, same, _, rolled⟩ := routeAndRollup_ok Dag.quietPlanLint ok
    refine attemptRunRollup_cancels ?_ rolled
    rw [same.status, fanOut_runStatus unique fanned]
    exact cancels

theorem settleSuccess_runStatus (plain : args.expansion = none)
    (ok : settleSuccess lint args now s = (.ok found, t)) : t.run.status = s.run.status := by
  by_cases cancelling : s.run.status = .cancelling
  · have rest₁ := lockRunStatus_bind_ok ok
    obtain ⟨_, _, succeeded, rest₂⟩ := bind_ok rest₁
    obtain ⟨_, _, noted, rest₃⟩ := bind_ok rest₂
    unfold sourceOfSuccess at rest₃
    rw [if_pos cancelling] at rest₃
    cases rest₃
    obtain ⟨_, _, _, rfl, shifted⟩ :=
      shifted_of_run (requireArgument_bind_ok succeeded) (succeed_moves _ _ _ _)
    exact (shifted.after ((recordNotes_keeps _ _ _).of_ok noted)).status
  · obtain ⟨_, _, _, _, settles⟩ := settleSuccess_settlesTo plain cancelling ok
    exact settles.shifted.status

theorem unlessCancelling_cancels
    (keeps : ∀ v, s.run.status ≠ .cancelling → otherwise s = (.ok v, s') →
      s'.run.status.isCancel)
    (ok : unlessCancelling stepID claimID error now otherwise s = (.ok u, s')) :
    s'.run.status.isCancel := by
  by_cases cancelling : s.run.status = .cancelling
  · obtain ⟨t, _, _, _, shifted, _, rolled⟩ := unlessCancelling_settles cancelling ok
    rcases dropped_run_ok rolled with ⟨_, _, rfl⟩ | ⟨_, _, rfl⟩
    · exact .inr rfl
    · exact .inl (shifted.status.trans cancelling)
  · exact keeps u cancelling (unlessCancelling_parts cancelling ok)

theorem exec_moves_cancels (moves : action.moves = some target)
    (cancels : s.run.status.isCancel) (ok : action.exec env now s = (.ok (), s')) :
    s'.run.status.isCancel := by
  by_cases cancelling : s.run.status = .cancelling
  · unfold Action.moves at moves
    split at moves
    on_goal 1 =>
      obtain ⟨_, claimed⟩ := void_ok ok
      have running := (claimStep_ok _ _ _ claimed).1
      simp [cancelling] at running
    on_goal 5 => cases moves
    all_goals exact unlessCancelling_cancels (fun _ apart => absurd cancelling apart) ok
  · obtain ⟨_, _, _, movesTo⟩ := Action.exec_movesTo moves cancelling ok
    rw [movesTo.shifted.status]
    exact cancels

theorem exec_keeps_cancel (completes : action.Completes) (unique : UniqueSteps s)
    (cancels : s.run.status.isCancel) (ok : action.exec env now s = (.ok (), s')) :
    s'.run.status.isCancel := by
  cases completes with
  | moves moves => exact exec_moves_cancels moves cancels ok
  | succeed plain =>
    rename_i args
    obtain ⟨_, t, settled, routed⟩ := bind_ok ok
    have reaches : Reaches env.lint .all s t :=
      (settleSuccess_sound trivial trivial args fun _ _ => trivial).of_ok settled
    refine routeAndRollup_cancels (uniqueSteps_of_chain (reaches unique) unique) ?_ routed
    rw [settleSuccess_runStatus plain settled]
    exact cancels
  | collect args =>
    refine unlessCancelling_cancels (fun _ _ collected => ?_) ok
    obtain ⟨_, t, settled, routed⟩ := bind_ok collected
    obtain ⟨_, _, settles⟩ := settleCollected_settlesTo settled
    refine routeAndRollup_cancels (settles.shifted.uniqueSteps unique) ?_ routed
    rw [settles.shifted.status]
    exact cancels

section Restored

variable {env : Environment} {a b c d r : RunStore}

theorem Paired.parallel
    (paired : Paired env a b c d) (parallel : Parallel buried marks status a b) :
    Parallel buried marks status c d := by
  induction paired with
  | start => exact parallel
  | acted _ completes left right ih => exact ih.acted completes left right
  | decided _ admitsLeft admitsRight spared left right ih =>
    exact ih.decided admitsLeft admitsRight spared left right

theorem Paired.cancels (paired : Paired env a b c d) (unique : UniqueSteps a)
    (cancels : a.run.status.isCancel) :
    UniqueSteps c ∧ c.run.status.isCancel := by
  induction paired with
  | start => exact ⟨unique, cancels⟩
  | @acted action now a₁ _ a₂ _ _ completes left _ ih =>
    have reaches : Reaches env.lint .all a₁ a₂ := (Action.exec_sound {}).of_ok left
    exact ⟨uniqueSteps_of_chain (reaches ih.1) ih.1, exec_keeps_cancel completes ih.1 ih.2 left⟩
  | decided _ admits _ spared left _ ih =>
    -- a gate is decided on a live run only
    rw [Action.exec_of_admits admits] at left
    obtain ⟨_, _, settled, _⟩ := bind_ok left
    have live := (settleDecision_settlesTo spared settled).1
    rw [not_live_of_cancel ih.2] at live
    cases live

theorem requeue_refused_of_cancel
    (unique : UniqueSteps t) (cancels : t.run.status.isCancel)
    (continues : t.run.onFailure = .continueIndependentBranches)
    (ok : deadLetterDisposition t.run.onFailure buriedAt t = (.ok disposed, a))
    (paired : Paired env a b c d) : Engine.requeue stepID requeuedAt c ≠ (.ok (), r) := by
  intro requeued
  have reaches : Reaches env.lint .all t a := (deadLetterDisposition_sound _).of_ok ok
  have kept : a.run.status.isCancel := by
    rcases deadLetterDisposition_ok env.lint unique ok with ⟨failFast, _⟩ | ⟨_, u, mapped, _, outcome⟩
    · rw [continues] at failFast
      cases failFast
    · have cancelled : u.run.status.isCancel := mapped.status ▸ cancels
      rcases outcome with ⟨able, _⟩ | ⟨_, rfl⟩
      · simp [canFail, not_live_of_cancel cancelled] at able
      · exact cancelled
  obtain ⟨unique', cancels'⟩ := paired.cancels (uniqueSteps_of_chain (reaches unique) unique) kept
  obtain ⟨_, _, _, _, _, _, shifted, _, _, reopened, _⟩ := requeue_parts unique' requeued
  obtain ⟨_, _, _, uncancelling, uncancelled, _⟩ := reopen_status reopened
  rw [shifted.status] at uncancelling uncancelled
  rcases cancels' with cancelling | cancelled
  · exact uncancelling cancelling
  · exact uncancelled cancelled

/-- A step is dead-lettered, other branches go on, and the step is requeued: the steps written off
are pending again, and the graph is that of the run in which the step was ready all along. The run
has the status it would have, unless it failed after it was parked: the requeue sets it running. -/
theorem requeue_restores {definitionLint : Dag.DefinitionLint} {past : List RunStore}
    {s t : RunStore} {old new : StepRow} {written : List String} {failed : Bool}
    {buriedAt requeuedAt : Time} (history : History definitionLint env (s :: past))
    (continues : s.run.onFailure = .continueIndependentBranches)
    (unfailed : ∀ row ∈ s.steps, isBlocked row.status = false) (dies : Dies env.lint s t old new)
    (disposed : deadLetterDisposition t.run.onFailure buriedAt t = (.ok (written, failed), a))
    (paired : Paired env a (neverBuried old.stepID s) c d)
    (requeued : Engine.requeue old.stepID requeuedAt c = (.ok (), r)) :
    (∀ id ∈ written, Pends id r) ∧ r.steps.map graphRow = d.steps.map graphRow ∧ r.edges = d.edges ∧
      (r.run.status = d.run.status ↔ (c.run.status = .failed → s.run.status = .running)) := by
  obtain ⟨unique, wired⟩ := history.invariant (wired_invariant definitionLint env.lint .all) s
    mem_cons_self
  have booked := (history.invariant (booked_invariant definitionLint env.lint .all) s
    mem_cons_self).2
  have uncancelled : s.run.status ≠ .cancelling := fun cancelling =>
    requeue_refused_of_cancel (dies.shifted.uniqueSteps unique)
      (.inl (dies.shifted.status.trans cancelling)) (dies.shifted.onFailure.trans continues)
      disposed paired requeued
  have parallel := paired.parallel
    (Parallel.start unique wired booked continues unfailed uncancelled dies disposed)
  obtain ⟨rows, edges, _, _, runs⟩ := parallel.requeued requeued
  refine ⟨?_, rows, edges, ?_⟩
  · intro id isWritten
    have marked : id ∈ writeOffOf t := by
      rw [← deadLetterDisposition_written (dies.shifted.onFailure.trans continues) disposed]
      exact isWritten
    obtain ⟨right, member, named⟩ := mem_map.mp (parallel.mirrors.known id (.inr marked))
    have apart : right.stepID ≠ old.stepID := fun isOld =>
      dies.spared unique wired unfailed (isOld ▸ named.symm ▸ marked)
    obtain ⟨_, _, mirror⟩ := exists_left_of_mem parallel.mirrors.rows member
    have pending := (mirror.of_marked apart (named ▸ marked)).2
    have listed : graphRow right ∈ r.steps.map graphRow := rows ▸ mem_map_of_mem member
    obtain ⟨row, inside, same⟩ := mem_map.mp listed
    simp only [graphRow, Prod.mk.injEq] at same
    exact ⟨row, inside, same.1.trans named, same.2.1.trans pending⟩
  · rw [runs, parallel.right]
    by_cases isFailed : c.run.status = .failed
    · simp [isFailed, eq_comm]
    · have kept : c.run.status = s.run.status := by
        rcases parallel.left with same | ⟨isFailed', _⟩
        · exact same
        · exact absurd isFailed' isFailed
      rw [if_neg isFailed]
      exact iff_of_true kept fun isFailed' => absurd isFailed' isFailed

end Restored

/-! Two branches of a run that goes on after failures. One of them is dead-lettered at its first
step, the other one completes, and the run fails. -/

def twinRun : RunStore :=
  { branchRun with run := { branchRun.run with onFailure := .continueIndependentBranches } }

def twinClaimed : RunStore :=
  act quietEnvironment (.claim "b" 8 "worker") 3
    (act quietEnvironment (.claim "a" 7 "worker") 2 twinRun)

def twinParked : RunStore := act quietEnvironment (.park .manual) 4 twinClaimed

def twinBuried (s : RunStore) : RunStore :=
  (deadLetterStep "b" 8 .permanent { outcome := .permanent } 5 s).2

def twinDisposed (s : RunStore) : RunStore :=
  (deadLetterDisposition (twinBuried s).run.onFailure 5 (twinBuried s)).2

def twinCompletion : Action := .succeed { stepID := "a", stepType := .noop, claimID := 7 }

def twinCompleted (s : RunStore) : RunStore := (twinCompletion.exec quietEnvironment 6 s).2

def twinRequeued (s : RunStore) : RunStore := (Engine.requeue "b" 7 (twinCompleted (twinDisposed s))).2

theorem twinRun_created : Created Dag.quietDefinitionLint
    { branchDefinition with onFailure := .continueIndependentBranches } twinRun :=
  ⟨"", none, 1, rfl⟩

theorem twinClaimed_history : History Dag.quietDefinitionLint quietEnvironment
      [twinClaimed, act quietEnvironment (.claim "a" 7 "worker") 2 twinRun, twinRun] :=
  .acted (.acted (.created twinRun_created) (by simp) trivial)
    (by simp) trivial

theorem ok_of_fst {α : Type} {x : StoreTx α} {found} (ok : (x s).1 = .ok found) :
    x s = (.ok found, (x s).2) := by
  rw [← ok]

theorem twin_dies
    (buries : (deadLetterStep "b" 8 .permanent { outcome := .permanent } 5 s).1.isOk = true) :
    ∃ old new, old.stepID = "b" ∧ Dies quietEnvironment.lint s (twinBuried s) old new := by
  cases found : (deadLetterStep "b" 8 .permanent { outcome := .permanent } 5 s).1 with
  | error e => simp [found, Except.isOk, Except.toBool] at buries
  | ok row =>
    obtain ⟨old, named, dies⟩ := deadLetterStep_dies quietEnvironment.lint (ok_of_fst found)
    exact ⟨old, row, named, dies⟩

theorem twin_paired {left right : RunStore}
    (completed : (twinCompletion.exec quietEnvironment 6 left).1 = .ok ())
    (completed' : (twinCompletion.exec quietEnvironment 6 right).1 = .ok ()) :
    Paired quietEnvironment left right (twinCompleted left) (twinCompleted right) :=
  .acted .start (.succeed rfl) (ok_of_fst completed) (ok_of_fst completed')

/-- The run was parked when the step died, and is not when it is requeued. -/
theorem requeue_runs_parked_run :
    ∃ past old new written failed,
      History Dag.quietDefinitionLint quietEnvironment (twinParked :: past) ∧
      twinParked.run.onFailure = .continueIndependentBranches ∧
      (∀ row ∈ twinParked.steps, isBlocked row.status = false) ∧
      Dies quietEnvironment.lint twinParked (twinBuried twinParked) old new ∧
      deadLetterDisposition (twinBuried twinParked).run.onFailure 5 (twinBuried twinParked) =
        (.ok (written, failed), twinDisposed twinParked) ∧
      Paired quietEnvironment (twinDisposed twinParked) (neverBuried old.stepID twinParked)
        (twinCompleted (twinDisposed twinParked)) (twinCompleted (neverBuried "b" twinParked)) ∧
      Engine.requeue old.stepID 7 (twinCompleted (twinDisposed twinParked)) =
        (.ok (), twinRequeued twinParked) ∧ (twinRequeued twinParked).run.status = .running ∧
      (twinCompleted (neverBuried "b" twinParked)).run.status = .parked := by
  obtain ⟨old, new, named, dies⟩ := twin_dies (s := twinParked) (by decide +kernel)
  refine ⟨_, old, new, ["c"], false,
    .acted twinClaimed_history (by simp) trivial, by decide +kernel,
      by decide +kernel, dies,
    ok_of_fst (by decide +kernel), ?_, ?_, by decide +kernel, by decide +kernel⟩
  · rw [named]
    exact twin_paired (by decide +kernel) (by decide +kernel)
  · rw [named]
    exact ok_of_fst (by decide +kernel)

theorem twinClaimed_disposed :
    (deadLetterDisposition (twinBuried twinClaimed).run.onFailure 5 (twinBuried twinClaimed)).1 =
      .ok (["c"], false) := by
  decide +kernel

theorem requeue_restores_running_run : (∀ id ∈ ["c"], Pends id (twinRequeued twinClaimed)) ∧
      (twinCompleted (twinDisposed twinClaimed)).run.status = .failed ∧
      (twinRequeued twinClaimed).steps.map graphRow =
        (twinCompleted (neverBuried "b" twinClaimed)).steps.map graphRow ∧
      (twinRequeued twinClaimed).run.status =
        (twinCompleted (neverBuried "b" twinClaimed)).run.status := by
  obtain ⟨old, _, named, dies⟩ := twin_dies (s := twinClaimed) (by decide +kernel)
  have paired : Paired quietEnvironment (twinDisposed twinClaimed)
      (neverBuried old.stepID twinClaimed) (twinCompleted (twinDisposed twinClaimed))
      (twinCompleted (neverBuried "b" twinClaimed)) := by
    rw [named]
    exact twin_paired (by decide +kernel) (by decide +kernel)
  have requeued : Engine.requeue old.stepID 7 (twinCompleted (twinDisposed twinClaimed)) =
      (.ok (), twinRequeued twinClaimed) := by
    rw [named]
    exact ok_of_fst (by decide +kernel)
  obtain ⟨revived, rows, _, status⟩ := requeue_restores twinClaimed_history (by decide +kernel)
    (by decide +kernel) dies (ok_of_fst twinClaimed_disposed) paired requeued
  exact ⟨revived, by decide +kernel, rows, status.mpr fun _ => by decide +kernel⟩

end Agentloom.Engine
