import Agentloom.Engine.Fixpoint

/-! What a run can still come to. In a continuation every step that is under way settles, with any
verdicts on its out-edges, and a blocked step never resolves its own. The write-off holds exactly
the pending steps that no continuation makes ready or skipped. -/

namespace Agentloom.Engine

open Transaction Store Relation List

variable {s t t' : RunStore} {marks : String → Prop} {owed : List EdgeVerdict} {bound : Nat}

inductive Advances : RunStore → RunStore → Prop
  | settled {s s₁ s' : RunStore} {old new : StepRow} {fires : Nat → Bool} {now : Time}
      {fan : FanOut} (active : isActive old.status = true)
      (after : new.status = .succeeded ∨ new.status = .collected) (shifted : Shifted s s₁ old new)
      (fanned : fanOut
        { stepID := new.stepID
          verdicts := verdictsFor fires (listEdgesFromStep new.stepID s₁) } now s₁ =
        (.ok fan, s')) : Advances s s'

def Continues : RunStore → RunStore → Prop := ReflTransGen Advances

def Determined (stepID : String) (s : RunStore) : Prop :=
  ∃ row ∈ s.steps, row.stepID = stepID ∧ (row.status = .ready ∨ row.status = .skipped)

variable {stepID : String} {verdict : EdgeVerdict}

theorem mem_verdictsFor : verdict ∈ verdictsFor fires (listEdgesFromStep stepID s) ↔
      ∃ edge ∈ s.edges, edge.edgeType = .normal ∧ edge.fromStep = stepID ∧
        verdict = { ordinal := edge.ordinal, fired := fires edge.ordinal } := by
  simp only [verdictsFor, mem_map, mem_filter, mem_listEdgesFromStep, beq_iff_eq]
  constructor
  · rintro ⟨edge, ⟨⟨inside, leaves⟩, normal⟩, rfl⟩
    exact ⟨edge, inside, normal, leaves, rfl⟩
  · rintro ⟨edge, inside, normal, leaves, rfl⟩
    exact ⟨edge, ⟨⟨inside, leaves⟩, normal⟩, rfl⟩

theorem isBlocked_of_active (active : isActive status = true) : isBlocked status = false := by
  cases status <;> simp_all [isActive, isBlocked]

theorem ne_pending_of_active (active : isActive status = true) : status ≠ .pending := by
  rintro rfl
  cases active

/-- A written-off step stays impossible: the worklist owes no edge of a blocked or written-off
source. -/
structure Stuck (s : RunStore) (marks : String → Prop) (owed : List EdgeVerdict) (t : RunStore) :
    Prop where
  unique : UniqueSteps t
  wired : Wired t
  blocked : ∀ id, Blocked s.steps id → Blocked t.steps id
  stays : ∀ row ∈ t.steps, marks row.stepID → row.status = .pending ∧
    Impossible t.edges (fun id => Blocked s.steps id ∨ marks id) row
  free : ∀ verdict ∈ owed, ∀ edge ∈ t.edges, edge.ordinal = verdict.ordinal →
    ¬(Blocked s.steps edge.fromStep ∨ marks edge.fromStep)

variable {edge : EdgeRow} {old : StepRow} {now : Time} {reaction : Reaction}

theorem WriteOff.stuck (writeOff : WriteOff s.steps s.edges marks) (unique : UniqueSteps s)
    (wired : Wired s) : Stuck s marks [] s := by
  refine ⟨unique, wired, fun _ => id, fun row mem marked => ?_, by simp⟩
  let holds (id : String) : Prop := ∀ row ∈ s.steps, row.stepID = id → row.status = .pending ∧
    Impossible s.edges (fun id => Blocked s.steps id ∨ marks id) row
  refine writeOff.least holds ?_ row.stepID marked row mem rfl
  intro first inside pending impossible other inside' same
  obtain rfl := Table.eq_of_key unique inside' inside same
  exact ⟨pending, impossible.mono fun _ => Or.imp_right And.left⟩

theorem Stuck.outside (stuck : Stuck s marks owed t) (mem : row ∈ t.steps)
    (moved : row.status ≠ .pending) (unblocked : isBlocked row.status = false) :
    ¬(Blocked s.steps row.stepID ∨ marks row.stepID) := by
  rintro (blocked | marked)
  · exact not_blocked stuck.unique mem unblocked (stuck.blocked _ blocked)
  · exact moved (stuck.stays row mem marked).1

theorem settle_of_impossible (wired : Wired t)
    (mem : row ∈ t.steps) (impossible : Impossible t.edges blocked row) :
    settle (isJoinAny row) row.remainingDeps row.firedDeps .pending = .pending := by
  obtain ⟨edge, into, _⟩ := impossible.source
  have missing : 0 < row.remainingDeps := (remaining_pos_iff wired mem).mpr ⟨edge, into⟩
  unfold settle
  by_cases joins : isJoinAny row = true
  · have unfired := ((impossible_of_join joins).mp impossible).1
    rw [if_neg (by omega), if_neg (by omega)]
  · rw [if_neg fun satisfied => satisfied.2.elim (by omega) joins, if_neg (by omega)]

theorem Stuck.resolved (stuck : Stuck s marks (verdict :: owed) t)
    (resolves : Resolves verdict t t' edge old new) (wired' : Wired t') :
    Stuck s marks (owed ++ (reactionOf t' old new).verdicts) t' := by
  have unique' := resolves.uniqueSteps stuck.unique
  have free := stuck.free verdict mem_cons_self edge resolves.edges.old_mem resolves.normal.2.2
  have blocked : ∀ id, Blocked s.steps id → Blocked t'.steps id := by
    intro id isBlocked
    obtain ⟨row, mem, rfl, status⟩ := stuck.blocked id isBlocked
    rcases resolves.steps.mem_or_old mem with rfl | inside
    · exact ⟨new, resolves.steps.new_mem, resolves.stepID, resolves.isBlocked_eq.trans status⟩
    · exact ⟨row, inside, rfl, status⟩
  have stays : ∀ row ∈ t'.steps, marks row.stepID → row.status = .pending ∧
      Impossible t'.edges (fun id => Blocked s.steps id ∨ marks id) row := by
    intro row mem marked
    rcases resolves.steps.mem_of_mem mem with rfl | inside
    · obtain ⟨pending, impossible⟩ := stuck.stays old resolves.steps.old_mem (resolves.stepID ▸ marked)
      have after := resolves.impossible stuck.wired.ordinals free stuck.unique mem
        resolves.steps.old_mem resolves.stepID.symm impossible
      refine ⟨?_, after⟩
      rw [resolves.status, pending, ← resolves.isJoinAny_eq]
      exact settle_of_impossible wired' mem after
    · obtain ⟨pending, impossible⟩ := stuck.stays row inside marked
      exact ⟨pending, resolves.impossible stuck.wired.ordinals free stuck.unique mem inside rfl
        impossible⟩
  refine ⟨unique', wired', blocked, stays, fun other isOwed edge' inside' ordinal => ?_⟩
  rcases mem_append.mp isOwed with later | added
  · rcases resolves.edges.mem_of_mem inside' with rfl | inside
    · exact free
    · exact stuck.free other (mem_cons_of_mem _ later) edge' inside ordinal
  · obtain ⟨row, mem, named, settled⟩ :=
      resolves.reaction_sources stuck.wired.ordinals other added edge' inside' ordinal
    have pushed : Stuck s marks [] t' := ⟨unique', wired', blocked, stays, by simp⟩
    rw [← named]
    refine pushed.outside mem ?_ (isBlocked_of_settled settled)
    intro pending
    rw [pending] at settled
    cases settled

theorem Stuck.step (stuck : Stuck s marks (verdict :: owed) t)
    (ok : resolveVerdict verdict now t = (.ok reaction, t')) :
    Stuck s marks (owed ++ reaction.verdicts) t' := by
  have reaches : Reaches Dag.quietPlanLint .all t t' := (resolveVerdict_sound verdict).of_ok ok
  rcases resolveVerdict_ok stuck.unique ok with ⟨rfl, rfl, _⟩ | ⟨_, _, _, resolves, rfl⟩
  · refine (append_nil owed).symm ▸ ?_
    exact ⟨stuck.unique, stuck.wired, stuck.blocked, stuck.stays,
      fun other mem => stuck.free other (mem_cons_of_mem _ mem)⟩
  · exact stuck.resolved resolves (wired_of_reaches reaches stuck.unique stuck.wired)

theorem Stuck.advances (stuck : Stuck s marks [] t) (advances : Advances t t') :
    Stuck s marks [] t' := by
  obtain ⟨active, after, shifted, fanned⟩ := advances
  rename_i t₁ old new fires now fan
  have outside := stuck.outside shifted.replaced.old_mem (ne_pending_of_active active)
    (isBlocked_of_active active)
  rw [← shifted.place.stepID] at outside
  have seeded : Stuck s marks (verdictsFor fires (listEdgesFromStep new.stepID t₁)) t₁ := by
    refine ⟨shifted.uniqueSteps stuck.unique, shifted.wired stuck.wired, ?_, ?_, ?_⟩
    · intro id blocked
      obtain ⟨row, mem, rfl, status⟩ := stuck.blocked id blocked
      rcases shifted.replaced.mem_or_old mem with rfl | inside
      · simp [isBlocked_of_active active] at status
      · exact ⟨row, inside, rfl, status⟩
    · intro row mem marked
      rw [shifted.edges]
      rcases shifted.replaced.mem_of_mem mem with rfl | inside
      · exact absurd (.inr marked) outside
      · exact stuck.stays row inside marked
    · intro verdict isOwed edge inside ordinal
      obtain ⟨source, isSource, _, leaves, rfl⟩ := mem_verdictsFor.mp isOwed
      rw [Table.eq_of_key (shifted.wired stuck.wired).ordinals inside isSource ordinal, leaves]
      exact outside
  exact fanOut_rule_ok (fun _ _ stuck => stuck.unique)
    (fun _ _ _ _ _ stuck ok => Stuck.step stuck ok) (by exact seeded) fanned

theorem Stuck.continues (stuck : Stuck s marks [] t) (continues : Continues t t') :
    Stuck s marks [] t' := by
  induction continues with
  | refl => exact stuck
  | tail _ advances ih => exact ih.advances advances

theorem Stuck.undecided (stuck : Stuck s marks owed t) (marked : marks stepID) :
    ¬Determined stepID t := by
  rintro ⟨row, mem, rfl, decided⟩
  have pending := (stuck.stays row mem marked).1
  rcases decided with ready | skipped
  · simp [ready] at pending
  · simp [skipped] at pending

def firesOpen (s : RunStore) (ordinal : Nat) : Bool :=
  !s.edges.any fun edge => edge.ordinal == ordinal && edge.resolution == .skipped

def outstanding (s : RunStore) : Nat :=
  s.steps.countP fun row => row.status == .pending || isActive row.status

def FiredFrom (edges : List EdgeRow) (edge' : EdgeRow) : Prop :=
  ∃ edge ∈ edges, edge' = edge ∨
    edge.resolution = .unresolved ∧ edge' = { edge with resolution := .fired }

structure Unfolds (s : RunStore) (bound : Nat) (owed : List EdgeVerdict) (t : RunStore) : Prop where
  unique : UniqueSteps t
  wired : Wired t
  flowing : Flowing (Owed owed) t
  shape : t.edges.map toDagEdge = s.edges.map toDagEdge
  ordinals : t.edges.map EdgeRow.ordinal = s.edges.map EdgeRow.ordinal
  fired : ∀ edge ∈ t.edges, FiredFrom s.edges edge
  waits : ∀ row ∈ t.steps, row.status = .pending → ∃ row₀ ∈ s.steps,
    row₀.stepID = row.stepID ∧ isJoinAny row₀ = isJoinAny row ∧ row₀.status = .pending
  blocked : ∀ id, Blocked t.steps id → Blocked s.steps id
  owes : ∀ verdict ∈ owed, verdict.fired = firesOpen s verdict.ordinal ∧
    ∃ edge ∈ t.edges, edge.edgeType = .normal ∧ edge.ordinal = verdict.ordinal
  bounded : outstanding t ≤ bound

theorem firesOpen_of_edge (ordinals : (s.edges.map EdgeRow.ordinal).Nodup)
    (mem : edge ∈ s.edges) : firesOpen s edge.ordinal = true ↔ edge.resolution ≠ .skipped := by
  simp only [firesOpen, Bool.not_eq_true', any_eq_false, Bool.and_eq_true, beq_iff_eq, not_and]
  constructor
  · exact fun open' => open' edge mem rfl
  · intro kept other inside same
    rw [Table.eq_of_key ordinals inside mem same]
    exact kept

theorem Unfolds.agrees (unfolds : Unfolds s bound owed t) (mem : edge ∈ t.edges)
    (closed : edge.resolution ≠ .unresolved) :
    edge.resolution = resolutionOf (firesOpen s edge.ordinal) := by
  have ordinals : (s.edges.map EdgeRow.ordinal).Nodup := unfolds.ordinals ▸ unfolds.wired.ordinals
  obtain ⟨edge₀, inside, rfl | ⟨isOpen, rfl⟩⟩ := unfolds.fired edge mem
  · have fires := firesOpen_of_edge ordinals inside
    cases resolution : edge.resolution with
    | unresolved => exact absurd resolution closed
    | fired =>
      rw [fires.mpr (by simp [resolution])]
      rfl
    | skipped =>
      rw [Bool.eq_false_iff.mpr fun isOpen => fires.mp isOpen resolution]
      rfl
  · have fires := (firesOpen_of_edge ordinals inside).mpr (by simp [isOpen])
    rw [fires]
    rfl

theorem Unfolds.resolved (unfolds : Unfolds s bound (verdict :: owed) t)
    (resolves : Resolves verdict t t' edge old new) (wired' : Wired t') :
    Unfolds s bound (owed ++ (reactionOf t' old new).verdicts) t' := by
  obtain ⟨normal, isOpen, ordinal⟩ := resolves.normal
  have before : edge ∈ s.edges := by
    obtain ⟨edge₀, inside, rfl | ⟨_, rfl⟩⟩ := unfolds.fired edge resolves.edges.old_mem
    · exact inside
    · cases isOpen
  have ordinals : (s.edges.map EdgeRow.ordinal).Nodup := unfolds.ordinals ▸ unfolds.wired.ordinals
  have fires : verdict.fired = true := by
    rw [(unfolds.owes verdict mem_cons_self).1, ← ordinal]
    exact (firesOpen_of_edge ordinals before).mpr (by simp [isOpen])
  have readied : new.status = old.status ∧ old.status ≠ .pending ∨
      old.status = .pending ∧ (new.status = .pending ∨ new.status = .ready) := by
    rcases resolves.status_cases with kept | ⟨pending, became | became | became⟩
    · exact .inl kept
    · exact .inr ⟨pending, .inl became⟩
    · exact .inr ⟨pending, .inr became⟩
    · have status := resolves.status
      rw [pending, became] at status
      have unfired := (settle_skipped status.symm).2
      rw [resolves.fired, fires] at unfired
      simp at unfired
  have nothing : (reactionOf t' old new).verdicts = [] := by
    unfold reactionOf
    rcases readied with ⟨_, moved⟩ | ⟨pending, became | became⟩
    · rw [if_pos moved]
      rfl
    · simp [pending, became, Reaction.verdicts]
    · simp [pending, became, Reaction.verdicts]
  have flowing := unfolds.flowing.resolved resolves unfolds.unique unfolds.wired.ordinals
  rw [nothing, append_nil] at flowing ⊢
  refine ⟨resolves.uniqueSteps unfolds.unique, wired', flowing, ?_, ?_, ?_, ?_, ?_, ?_, ?_⟩
  · rw [resolves.edges.map_eq toDagEdge rfl]
    exact unfolds.shape
  · rw [resolves.ordinals_eq]
    exact unfolds.ordinals
  · intro edge' mem
    rcases resolves.edges.mem_of_mem mem with rfl | inside
    · refine ⟨edge, before, .inr ⟨isOpen, ?_⟩⟩
      rw [fires]
      rfl
    · exact unfolds.fired edge' inside
  · intro row mem pending
    rcases resolves.steps.mem_of_mem mem with rfl | inside
    · have waited : old.status = .pending := by
        rcases readied with ⟨same, moved⟩ | ⟨waited, _⟩
        · exact absurd (same.symm.trans pending) moved
        · exact waited
      obtain ⟨row₀, inside₀, same, joins, pending₀⟩ :=
        unfolds.waits old resolves.steps.old_mem waited
      exact ⟨row₀, inside₀, same.trans resolves.stepID.symm, joins.trans resolves.isJoinAny_eq.symm,
        pending₀⟩
    · exact unfolds.waits row inside pending
  · intro id blocked
    exact unfolds.blocked id
      (Blocked.shift resolves.steps resolves.stepID resolves.isBlocked_eq.symm.trans blocked)
  · intro other later
    obtain ⟨fired, edge', inside, isNormal, same⟩ :=
      unfolds.owes other (mem_cons_of_mem _ later)
    rcases resolves.edges.mem_or_old inside with rfl | kept
    · exact ⟨fired, _, resolves.edges.new_mem, isNormal, same⟩
    · exact ⟨fired, edge', kept, isNormal, same⟩
  · have counts := resolves.steps.countP fun row => row.status == .pending || isActive row.status
    have bounded := unfolds.bounded
    unfold outstanding at bounded ⊢
    rcases readied with ⟨same, _⟩ | ⟨pending, became | became⟩
    · simp only [same] at counts
      omega
    · simp only [pending, became] at counts
      omega
    · have runs : isActive .ready = true := rfl
      simp only [pending, became, runs, beq_self_eq_true, Bool.true_or, Bool.or_true] at counts
      omega

theorem Unfolds.step (unfolds : Unfolds s bound (verdict :: owed) t)
    (ok : resolveVerdict verdict now t = (.ok reaction, t')) :
    Unfolds s bound (owed ++ reaction.verdicts) t' := by
  have reaches : Reaches Dag.quietPlanLint .all t t' := (resolveVerdict_sound verdict).of_ok ok
  rcases resolveVerdict_ok unfolds.unique ok with ⟨rfl, rfl, missed⟩ | ⟨_, _, _, resolves, rfl⟩
  · refine (append_nil owed).symm ▸ ?_
    exact { unfolds with
      flowing := unfolds.flowing.absorbed missed
      owes := fun other mem => unfolds.owes other (mem_cons_of_mem _ mem) }
  · exact unfolds.resolved resolves (wired_of_reaches reaches unfolds.unique unfolds.wired)

theorem Unfolds.total (unfolds : Unfolds s bound (verdict :: owed) t) (timed : now ≠ 0) :
    resolveVerdict verdict now t ≠ (.error e, t') := by
  obtain ⟨fires, edge, mem, normal, ordinal⟩ := unfolds.owes verdict mem_cons_self
  refine resolveVerdict_total timed fun _ _ => ?_
  rw [fires, ← ordinal]
  exact unfolds.wired.resolveEdge_total mem normal (unfolds.agrees mem) timed

theorem Unfolds.fanOut (unfolds : Unfolds s bound source.verdicts t) (timed : now ≠ 0) :
    ∃ fan t', Engine.fanOut source now t = (.ok fan, t') ∧ Unfolds s bound [] t' := by
  have step : ∀ verdict owed t reaction t', Unfolds s bound (verdict :: owed) t →
      resolveVerdict verdict now t = (.ok reaction, t') →
      Unfolds s bound (owed ++ reaction.verdicts) t' :=
    fun _ _ _ _ _ unfolds ok => unfolds.step ok
  have rule := fanOut_rule (fun _ _ unfolds => unfolds.unique) step unfolds
  cases outcome : Engine.fanOut source now t with
  | mk result t' =>
    rw [outcome] at rule
    cases result with
    | ok fan => exact ⟨fan, t', rfl, rule⟩
    | error e =>
      obtain ⟨verdict, owed, u, u', unfolds', failed⟩ := rule
      exact absurd failed (unfolds'.total timed)

theorem Unfolds.start (unique : UniqueSteps s) (wired : Wired s)
    (flowing : Flowing (fun _ => False) s) : Unfolds s (outstanding s) [] s where
  unique := unique
  wired := wired
  flowing := ⟨fun edge member normal unresolved row inside same settled =>
    (flowing.paid edge member normal unresolved row inside same settled).elim, flowing.waits⟩
  shape := rfl
  ordinals := rfl
  fired edge member := ⟨edge, member, .inl rfl⟩
  waits row member pending := ⟨row, member, rfl, rfl, pending⟩
  blocked _ blocked := blocked
  owes := by simp
  bounded := le_rfl

theorem Unfolds.advance (unfolds : Unfolds s (bound + 1) [] t) (mem : old ∈ t.steps)
    (active : isActive old.status = true) : ∃ t', Advances t t' ∧ Unfolds s bound [] t' := by
  obtain ⟨front, rest, split⟩ := append_of_mem mem
  let new : StepRow := { old with status := .succeeded }
  let t₁ : RunStore := { t with steps := front ++ new :: rest }
  have shifted : Shifted t t₁ old new :=
    ⟨⟨front, rest, split, rfl⟩, ⟨rfl, rfl, rfl, rfl⟩, rfl, rfl, rfl⟩
  let source : TerminalSource :=
    { stepID := new.stepID
      verdicts := verdictsFor (firesOpen s) (listEdgesFromStep new.stepID t₁) }
  have flowing : Flowing (fun edge => edge.fromStep = source.stepID) t₁ := by
    refine unfolds.flowing.shifted shifted ?_ (fun _ _ leaves => leaves) (by simp [new])
    rintro edge ⟨verdict, isOwed, _⟩
    cases isOwed
  have covers : Covers source t₁ := by
    simp [Covers, source, verdictsFor, List.map_map, Function.comp_def]
  have seeded : Unfolds s bound source.verdicts t₁ := by
    refine ⟨shifted.uniqueSteps unfolds.unique, shifted.wired unfolds.wired, flowing.covered covers,
      unfolds.shape, unfolds.ordinals, unfolds.fired, ?_, ?_, ?_, ?_⟩
    · intro row isRow pending
      rcases shifted.replaced.mem_of_mem isRow with rfl | inside
      · cases pending
      · exact unfolds.waits row inside pending
    · intro id blocked
      refine unfolds.blocked id (Blocked.shift shifted.replaced rfl (fun blocks => ?_) blocked)
      cases blocks
    · intro verdict isOwed
      obtain ⟨edge, inside, normal, _, rfl⟩ := mem_verdictsFor.mp isOwed
      exact ⟨rfl, edge, inside, normal, rfl⟩
    · have counts := shifted.replaced.countP fun row => row.status == .pending || isActive row.status
      have bounded := unfolds.bounded
      have rests : ((new.status == .pending) || isActive new.status) = false := rfl
      unfold outstanding at bounded ⊢
      simp only [active, rests, Bool.or_true, if_true, Bool.false_eq_true, if_false] at counts
      omega
  have timed : (1 : Time) ≠ 0 := by decide
  obtain ⟨fan, t', fanned, unfolds'⟩ := seeded.fanOut timed
  exact ⟨t', .settled active (.inl rfl) shifted fanned, unfolds'⟩

theorem Unfolds.exhausts (unfolds : Unfolds s bound [] t) :
    ∃ t' bound', Continues t t' ∧ Unfolds s bound' [] t' ∧
      ∀ row ∈ t'.steps, isActive row.status = false := by
  induction bound generalizing t with
  | zero =>
    refine ⟨t, 0, .refl, unfolds, fun row mem => ?_⟩
    have none := countP_eq_zero.mp (Nat.le_zero.mp unfolds.bounded) row mem
    simp only [Bool.or_eq_true, not_or, Bool.not_eq_true] at none
    exact none.2
  | succ bound ih =>
    by_cases idle : ∀ row ∈ t.steps, isActive row.status = false
    · exact ⟨t, bound + 1, .refl, unfolds, idle⟩
    · push Not at idle
      obtain ⟨row, mem, active⟩ := idle
      obtain ⟨t₁, advances, unfolds₁⟩ := unfolds.advance mem (by simpa using active)
      obtain ⟨t', bound', continues, unfolds', done⟩ := ih unfolds₁
      exact ⟨t', bound', .head advances continues, unfolds', done⟩

variable {s' : RunStore}

theorem Unfolds.rests (unfolds : Unfolds s bound [] t) (flowing : Flowing (fun _ => False) s)
    (acyclic : AcyclicRun s) (writeOff : WriteOff s.steps s.edges marks)
    (idle : ∀ row ∈ t.steps, isActive row.status = false) :
    ∀ row ∈ t.steps, row.status = .pending → marks row.stepID := by
  intro some isSome waiting
  by_contra unmarked
  obtain ⟨row, mem, ⟨pending, outside⟩, first⟩ := (acyclic.of_edges unfolds.shape).first
    (fun row => row.status = .pending ∧ ¬marks row.stepID) isSome ⟨waiting, unmarked⟩
  obtain ⟨row₀, mem₀, named, joins, pending₀⟩ := unfolds.waits row mem pending
  have sources : ∀ edge ∈ unresolvedIn t.edges row.stepID,
      Blocked s.steps edge.fromStep ∨ marks edge.fromStep := by
    intro edge into
    obtain ⟨inside, normal, unresolved, _⟩ := mem_unresolvedIn.mp into
    obtain ⟨source, isSource, leaves⟩ := mem_map.mp (unfolds.wired.ends edge inside).1
    have unsettled : isSettled source.status ≠ true := fun settled => by
      obtain ⟨verdict, isOwed, _⟩ :=
        unfolds.flowing.paid edge inside normal unresolved source isSource leaves settled
      cases isOwed
    have inactive := idle source isSource
    rw [← leaves]
    by_cases waits : source.status = .pending
    · by_contra free
      exact first edge into source isSource leaves ⟨waits, fun marked => free (.inr marked)⟩
    · refine .inl (unfolds.blocked _ ⟨source, isSource, rfl, ?_⟩)
      cases status : source.status <;> simp_all [isActive, isSettled, isBlocked]
  have before : ∀ edge ∈ unresolvedIn t.edges row.stepID,
      edge ∈ unresolvedIn s.edges row₀.stepID := by
    intro edge into
    obtain ⟨inside, normal, unresolved, toStep⟩ := mem_unresolvedIn.mp into
    obtain ⟨edge₀, inside₀, rfl | ⟨_, rfl⟩⟩ := unfolds.fired edge inside
    · exact mem_unresolvedIn.mpr ⟨inside₀, normal, unresolved, toStep.trans named.symm⟩
    · cases unresolved
  obtain ⟨missing, unfired⟩ := unfolds.flowing.waits row mem pending
  obtain ⟨edge, into⟩ := (remaining_pos_iff unfolds.wired mem).mp missing
  refine outside (named ▸ writeOff.closed row₀ mem₀ pending₀ ?_)
  by_cases isJoin : isJoinAny row₀ = true
  · refine (impossible_of_join isJoin).mpr ⟨(flowing.waits row₀ mem₀ pending₀).2 isJoin,
      ne_nil_of_mem (before edge into), fun edge₀ into₀ => ?_⟩
    obtain ⟨inside₀, normal, unresolved, toStep⟩ := mem_unresolvedIn.mp into₀
    have listed := mem_map_of_mem (f := EdgeRow.ordinal) inside₀
    rw [← unfolds.ordinals] at listed
    obtain ⟨later, inside, ordinal⟩ := mem_map.mp listed
    have ordinals : (s.edges.map EdgeRow.ordinal).Nodup := unfolds.ordinals ▸ unfolds.wired.ordinals
    obtain ⟨edge₁, inside₁, rfl | ⟨_, rfl⟩⟩ := unfolds.fired later inside
    · obtain rfl := Table.eq_of_key ordinals inside₁ inside₀ ordinal
      exact sources later (mem_unresolvedIn.mpr ⟨inside, normal, unresolved, toStep.trans named⟩)
    · -- an edge that fired since would have decided the join
      obtain rfl := Table.eq_of_key ordinals inside₁ inside₀ ordinal
      have none := unfired (joins ▸ isJoin)
      rw [unfolds.wired.fired row mem] at none
      have missed := countP_eq_zero.mp none _ inside
      simp [EdgeRow.isInto, normal, toStep, named] at missed
  · exact (impossible_of_plain isJoin).mpr ⟨edge, before edge into, sources edge into⟩

def Pends (stepID : String) (s : RunStore) : Prop :=
  ∃ row ∈ s.steps, row.stepID = stepID ∧ row.status = .pending

structure Watched (stepID : String) (s : RunStore) : Prop where
  unique : UniqueSteps s
  either : Pends stepID s ∨ Determined stepID s

theorem Watched.step (watched : Watched stepID s)
    (ok : resolveVerdict verdict now s = (.ok reaction, s')) : Watched stepID s' := by
  obtain ⟨unique, either⟩ := watched
  rcases resolveVerdict_ok unique ok with ⟨rfl, rfl, _⟩ | ⟨_, _, new, resolves, rfl⟩
  · exact ⟨unique, either⟩
  refine ⟨resolves.uniqueSteps unique, ?_⟩
  rcases either with ⟨row, mem, named, pending⟩ | ⟨row, mem, named, decided⟩
  · rcases resolves.steps.mem_or_old mem with rfl | inside
    · rcases resolves.status_cases with ⟨_, moved⟩ | ⟨_, became | became⟩
      · exact absurd pending moved
      · exact .inl ⟨new, resolves.steps.new_mem, resolves.stepID.trans named, became⟩
      · exact .inr ⟨new, resolves.steps.new_mem, resolves.stepID.trans named, became⟩
    · exact .inl ⟨row, inside, named, pending⟩
  · rcases resolves.steps.mem_or_old mem with rfl | inside
    · rcases resolves.status_cases with ⟨same, _⟩ | ⟨pending, _⟩
      · exact .inr ⟨new, resolves.steps.new_mem, resolves.stepID.trans named, same ▸ decided⟩
      · simp [pending] at decided
    · exact .inr ⟨row, inside, named, decided⟩

theorem Advances.watched (advances : Advances s s') (unique : UniqueSteps s)
    (waiting : Pends stepID s) : Watched stepID s' := by
  obtain ⟨active, after, shifted, fanned⟩ := advances
  rename_i s₁ old new fires now fan
  have seeded : Watched stepID s₁ := by
    obtain ⟨row, mem, named, pending⟩ := waiting
    refine ⟨shifted.uniqueSteps unique, ?_⟩
    rcases shifted.replaced.mem_or_old mem with rfl | inside
    · exact absurd pending (ne_pending_of_active active)
    · exact .inl ⟨row, inside, named, pending⟩
  let holds (_ : List EdgeVerdict) (t : RunStore) : Prop := Watched stepID t
  have step : ∀ verdict owed t reaction t', holds (verdict :: owed) t →
      resolveVerdict verdict now t = (.ok reaction, t') → holds (owed ++ reaction.verdicts) t' :=
    fun _ _ _ _ _ watched ok => Watched.step watched ok
  exact fanOut_rule_ok (fun _ _ watched => watched.unique) step seeded fanned

theorem Continues.watched (continues : Continues s s') (unique : UniqueSteps s)
    (waiting : Pends stepID s) :
    (UniqueSteps s' ∧ Pends stepID s') ∨ ∃ t, Continues s t ∧ Determined stepID t := by
  induction continues with
  | refl => exact .inl ⟨unique, waiting⟩
  | tail earlier advances ih =>
    rcases ih with ⟨unique', waiting'⟩ | found
    · obtain ⟨unique'', waits | decided⟩ := advances.watched unique' waiting'
      · exact .inl ⟨unique'', waits⟩
      · exact .inr ⟨_, .tail earlier advances, decided⟩
    · exact .inr found

/-- The write-off is the least set of pending steps that is closed under impossibility, whatever
the order of the rows, and holds exactly the pending steps that no continuation decides. -/
theorem planWriteOff_exact {s : RunStore} (unique : UniqueSteps s) (wired : Wired s)
    (acyclic : AcyclicRun s) (flowing : Flowing (fun _ => False) s) {steps : List StepRow}
    {edges : List EdgeRow} (sameSteps : steps.Perm s.steps) (sameEdges : edges.Perm s.edges) :
    WriteOff s.steps s.edges (· ∈ planWriteOff steps edges) ∧
      (∀ id, id ∈ planWriteOff steps edges ↔ id ∈ planWriteOff s.steps s.edges) ∧
      ∀ row ∈ s.steps, row.status = .pending → (row.stepID ∈ planWriteOff steps edges ↔
          ¬∃ s', Continues s s' ∧ Determined row.stepID s') := by
  have writeOff : WriteOff s.steps s.edges (· ∈ planWriteOff steps edges) :=
    planWriteOff_writeOff (fun _ => sameSteps.mem_iff) fun _ => sameEdges.mem_iff
  have sorted : WriteOff s.steps s.edges (· ∈ planWriteOff s.steps s.edges) :=
    planWriteOff_writeOff (fun _ => Iff.rfl) fun _ => Iff.rfl
  refine ⟨writeOff, fun id => ⟨writeOff.le sorted id, sorted.le writeOff id⟩, ?_⟩
  intro row member pending
  constructor
  · rintro marked ⟨s', continues, decided⟩
    exact ((writeOff.stuck unique wired).continues continues).undecided marked decided
  · intro undecided
    obtain ⟨t, bound, continues, unfolds, idle⟩ := (Unfolds.start unique wired flowing).exhausts
    rcases continues.watched unique ⟨row, member, rfl, pending⟩ with ⟨_, later⟩ | found
    · obtain ⟨row', member', named, pending'⟩ := later
      rw [← named]
      exact unfolds.rests flowing acyclic writeOff idle row' member' pending'
    · exact absurd found undecided

/-! A dead-lettered step cuts off the step behind it, and not the join that another branch feeds. -/

def mergeGraph : Dag.Graph :=
  { definition :=
      { name := "merge"
        steps := [{ id := "a", type := .noop }, { id := "b", type := .noop },
          { id := "c", type := .noop }, { id := "j", type := .join, config := .join .any }]
        edges := [{ fromStep := "a", toStep := "c" }, { fromStep := "a", toStep := "j" },
          { fromStep := "b", toStep := "j" }] }
    unique := by decide
    resolved := by decide }

def mergeBuried : RunStore :=
  { initialStore mergeGraph.definition ["a", "b"] "" none 1 with
    steps := [{ stepID := "a", stepType := .noop, status := .deadLettered, updatedAt := 2 },
      { stepID := "b", stepType := .noop, status := .ready, updatedAt := 1 },
      { stepID := "c", stepType := .noop, remainingDeps := 1, updatedAt := 1 },
      { stepID := "j", stepType := .join, config := .join .any, remainingDeps := 2, updatedAt := 1 }] }

theorem planWriteOff_exact_mergeBuried :
    planWriteOff mergeBuried.steps.reverse mergeBuried.edges.reverse = ["c"] ∧
      (¬∃ s', Continues mergeBuried s' ∧ Determined "c" s') ∧
      ∃ s', Continues mergeBuried s' ∧ Determined "j" s' := by
  have acyclic : AcyclicRun mergeBuried := mergeGraph.findCycles_nil_iff.mp (by decide)
  have unique : UniqueSteps mergeBuried := by
    unfold UniqueSteps
    decide
  have wired : Wired mergeBuried := ⟨by decide, by decide, by decide, by decide⟩
  have flowing : Flowing (fun _ => False) mergeBuried := ⟨by decide, by simp [mergeBuried, Waits]⟩
  have cut : planWriteOff mergeBuried.steps.reverse mergeBuried.edges.reverse = ["c"] := by decide
  obtain ⟨_, _, exactly⟩ := planWriteOff_exact unique wired acyclic flowing
    (reverse_perm mergeBuried.steps) (reverse_perm mergeBuried.edges)
  refine ⟨rfl, ?_, ?_⟩
  · exact (exactly _ (mem_of_getElem? (i := 2) rfl) rfl).mp (by decide)
  · exact not_not.mp (mt (exactly _ (mem_of_getElem? (i := 3) rfl) rfl).mpr (by decide))

end Agentloom.Engine
