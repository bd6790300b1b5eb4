import Agentloom.Store.Dependencies
import Agentloom.Engine.DeadLetter

/-! What a write-off means. A pending step is impossible when its readiness can no longer come
about; the write-off is the least set that is closed under this, and a cancelled step is one that
dead-lettered steps make impossible. -/

namespace Agentloom.Engine

open Transaction Store List

variable {edges : List EdgeRow} {steps : List StepRow} {old new : StepRow} {s : RunStore}

def Blocked (steps : List StepRow) (id : String) : Prop :=
  ∃ row ∈ steps, row.stepID = id ∧ isBlocked row.status = true

def Impossible (edges : List EdgeRow) (blocked : String → Prop) (row : StepRow) : Prop :=
  if isJoinAny row = true then
    row.firedDeps = 0 ∧ unresolvedIn edges row.stepID ≠ [] ∧
      ∀ edge ∈ unresolvedIn edges row.stepID, blocked edge.fromStep
  else ∃ edge ∈ unresolvedIn edges row.stepID, blocked edge.fromStep

variable {id : String}

theorem mem_unresolvedIn : edge ∈ unresolvedIn edges id ↔ edge ∈ edges ∧ edge.edgeType = .normal ∧
      edge.resolution = .unresolved ∧ edge.toStep = id := by
  simp [unresolvedIn, and_assoc]

theorem mem_blockedSources : id ∈ blockedSources steps ↔ Blocked steps id := by
  simp only [blockedSources, Blocked, mem_map, mem_filter]
  exact ⟨fun ⟨row, ⟨mem, blocked⟩, same⟩ => ⟨row, mem, same, blocked⟩,
    fun ⟨row, mem, same, blocked⟩ => ⟨row, ⟨mem, blocked⟩, same⟩⟩

variable {blocked : String → Prop} {row : StepRow}

theorem impossible_of_join (joins : isJoinAny row = true) : Impossible edges blocked row ↔
      row.firedDeps = 0 ∧ unresolvedIn edges row.stepID ≠ [] ∧
        ∀ edge ∈ unresolvedIn edges row.stepID, blocked edge.fromStep := by
  rw [Impossible, if_pos joins]

theorem impossible_of_plain (plain : isJoinAny row ≠ true) : Impossible edges blocked row ↔
      ∃ edge ∈ unresolvedIn edges row.stepID, blocked edge.fromStep := by
  rw [Impossible, if_neg plain]

theorem Impossible.mono (wider : ∀ id, blocked id → blocked' id)
    (impossible : Impossible edges blocked row) : Impossible edges blocked' row := by
  by_cases joins : isJoinAny row = true
  · obtain ⟨unfired, some, all⟩ := (impossible_of_join joins).mp impossible
    exact (impossible_of_join joins).mpr ⟨unfired, some, fun edge mem => wider _ (all edge mem)⟩
  · obtain ⟨edge, mem, blocks⟩ := (impossible_of_plain joins).mp impossible
    exact (impossible_of_plain joins).mpr ⟨edge, mem, wider _ blocks⟩

variable {row' : StepRow}

theorem Impossible.congr (joins : isJoinAny row' = isJoinAny row)
    (fired : row'.firedDeps = row.firedDeps)
    (incoming : ∀ edge, edge ∈ unresolvedIn edges' row'.stepID ↔ edge ∈ unresolvedIn edges row.stepID)
    (impossible : Impossible edges blocked row) : Impossible edges' blocked row' := by
  by_cases isJoin : isJoinAny row = true
  · obtain ⟨unfired, some, all⟩ := (impossible_of_join isJoin).mp impossible
    obtain ⟨edge, mem⟩ := exists_mem_of_ne_nil _ some
    exact (impossible_of_join (joins.trans isJoin)).mpr ⟨fired.trans unfired,
      ne_nil_of_mem ((incoming edge).mpr mem),
      fun edge mem => all edge ((incoming edge).mp mem)⟩
  · obtain ⟨edge, mem, blocks⟩ := (impossible_of_plain isJoin).mp impossible
    exact (impossible_of_plain (joins ▸ isJoin)).mpr ⟨edge, (incoming edge).mpr mem, blocks⟩

theorem Impossible.source (impossible : Impossible edges blocked row) :
    ∃ edge ∈ unresolvedIn edges row.stepID, blocked edge.fromStep := by
  by_cases joins : isJoinAny row = true
  · obtain ⟨_, some, all⟩ := (impossible_of_join joins).mp impossible
    obtain ⟨edge, mem⟩ := exists_mem_of_ne_nil _ some
    exact ⟨edge, mem, all edge mem⟩
  · exact (impossible_of_plain joins).mp impossible

theorem isImpossible_iff : isImpossible steps edges marked row = true ↔ row.status = .pending ∧
      Impossible edges (fun id => Blocked steps id ∨ id ∈ marked) row := by
  unfold isImpossible Impossible
  simp only [← mem_blockedSources]
  by_cases joins : isJoinAny row = true
  · simp [joins, countP_eq_zero, length_pos_iff, and_assoc, or_iff_not_imp_left]
  · simp [joins, countP_pos_iff]

theorem planWriteOff_closed (mem : row ∈ steps) (pending : row.status = .pending)
    (impossible : Impossible edges (fun id => Blocked steps id ∨ id ∈ planWriteOff steps edges) row) :
    row.stepID ∈ planWriteOff steps edges := by
  by_contra outside
  have selected := isImpossible_iff.mpr ⟨pending, impossible⟩
  have closed : isImpossible steps edges (planWriteOff steps edges) row = false :=
    Marking.fixpoint_closed StepRow.stepID (isImpossible steps edges) mem outside
  simp [selected] at closed

theorem planWriteOff_induction {holds : String → Prop}
    (step : ∀ row ∈ steps, row.status = .pending →
      Impossible edges (fun id => Blocked steps id ∨ id ∈ planWriteOff steps edges ∧ holds id) row →
      holds row.stepID) : ∀ id ∈ planWriteOff steps edges, holds id := by
  refine Marking.fixpoint_induction StepRow.stepID (isImpossible steps edges) ?_ ?_
  · intro marks marks' wider row _ selected
    obtain ⟨pending, impossible⟩ := isImpossible_iff.mp selected
    exact isImpossible_iff.mpr ⟨pending, impossible.mono fun id => Or.imp_right (wider ·)⟩
  · intro marks held row mem selected
    obtain ⟨pending, impossible⟩ := isImpossible_iff.mp selected
    exact step row mem pending (impossible.mono fun id => Or.imp_right (held id ·))

theorem planWriteOff_pending : ∀ id ∈ planWriteOff steps edges,
    ∃ row ∈ steps, row.stepID = id ∧ row.status = .pending :=
  planWriteOff_induction fun row mem pending _ => ⟨row, mem, rfl, pending⟩

def Possible (steps : List StepRow) (edges : List EdgeRow) : Prop :=
  ∀ row ∈ steps, row.status = .pending → ¬Impossible edges (Blocked steps) row

theorem planWriteOff_eq_nil_iff : planWriteOff steps edges = [] ↔ Possible steps edges := by
  unfold planWriteOff Possible
  rw [Marking.fixpoint_eq_nil_iff]
  refine forall₂_congr fun row _ => ?_
  rw [← Bool.not_eq_true, isImpossible_iff, not_and]
  simp

def isDead : StepStatus → Bool
  | .deadLettered => true
  | .failed => true
  | _ => false

def Dead (steps : List StepRow) (id : String) : Prop :=
  ∃ row ∈ steps, row.stepID = id ∧ isDead row.status = true

def Cancelled (steps : List StepRow) (id : String) : Prop :=
  ∃ row ∈ steps, row.stepID = id ∧ row.status = .cancelled

/-- Dead-lettered steps account for every cancelled one: what contains each cancelled step that
dead steps and its own members make impossible contains them all. -/
def Grounded (steps : List StepRow) (edges : List EdgeRow) : Prop :=
  ∀ holds : String → Prop,
    (∀ row ∈ steps, row.status = .cancelled →
      Impossible edges (fun id => Dead steps id ∨ Cancelled steps id ∧ holds id) row →
      holds row.stepID) →
    ∀ row ∈ steps, row.status = .cancelled → holds row.stepID

theorem isBlocked_iff : isBlocked status = true ↔ isDead status = true ∨ status = .cancelled := by
  cases status <;> simp [isBlocked, isDead]

theorem blocked_iff : Blocked steps id ↔ Dead steps id ∨ Cancelled steps id := by
  simp only [Blocked, Dead, Cancelled, isBlocked_iff, and_or_left, exists_or]

theorem not_blocked (unique : (steps.map StepRow.stepID).Nodup) (mem : row ∈ steps)
    (free : isBlocked row.status = false) : ¬Blocked steps row.stepID := by
  rintro ⟨_, inside, same, blocked⟩
  simp [Table.eq_of_key unique inside mem same, free] at blocked

theorem Grounded.of_none (none : ∀ row ∈ steps, row.status ≠ .cancelled) : Grounded steps edges :=
  fun _ _ row mem cancelled => absurd cancelled (none row mem)

theorem Grounded.impossible (grounded : Grounded steps edges)
    (unique : (steps.map StepRow.stepID).Nodup) (mem : row ∈ steps)
    (cancelled : row.status = .cancelled) : Impossible edges (Blocked steps) row := by
  let held (id : String) : Prop :=
    ∀ other ∈ steps, other.stepID = id → Impossible edges (Blocked steps) other
  have all := grounded held ?_ row mem cancelled
  · exact all row mem rfl
  · intro row' mem' _ impossible other inside same
    rw [Table.eq_of_key unique inside mem' same]
    exact impossible.mono fun id => by
      rw [blocked_iff]
      exact Or.imp_right And.left

theorem Grounded.none (grounded : Grounded steps edges)
    (alive : ∀ row ∈ steps, isDead row.status = false) :
    ∀ row ∈ steps, row.status ≠ .cancelled := by
  intro row mem cancelled
  refine grounded (fun _ => False) ?_ row mem cancelled
  intro other _ _ impossible
  obtain ⟨_, _, ⟨source, inside, _, dead⟩ | ⟨_, none⟩⟩ := impossible.source
  · simp [alive source inside] at dead
  · exact none

structure SamePlace (old new : StepRow) : Prop where
  stepID : new.stepID = old.stepID
  joins : isJoinAny new = isJoinAny old
  remaining : new.remainingDeps = old.remainingDeps
  fired : new.firedDeps = old.firedDeps

section Shift

variable {steps' : List StepRow}

theorem Blocked.shift (replaced : Table.Replaced steps steps' old new)
    (stepID : new.stepID = old.stepID)
    (blocks : isBlocked new.status = true → isBlocked old.status = true)
    (blocked : Blocked steps' id) : Blocked steps id := by
  obtain ⟨row, mem, rfl, isBlocked⟩ := blocked
  rcases replaced.mem_of_mem mem with rfl | inside
  · exact ⟨old, replaced.old_mem, stepID.symm, blocks isBlocked⟩
  · exact ⟨row, inside, rfl, isBlocked⟩

theorem Possible.shift (possible : Possible steps edges)
    (replaced : Table.Replaced steps steps' old new) (place : SamePlace old new)
    (waits : new.status = .pending → old.status = .pending)
    (blocks : isBlocked new.status = true → isBlocked old.status = true) :
    Possible steps' edges := by
  intro row mem pending impossible
  have before := impossible.mono fun _ => Blocked.shift replaced place.stepID blocks
  rcases replaced.mem_of_mem mem with rfl | inside
  · refine possible old replaced.old_mem (waits pending) ?_
    exact before.congr place.joins.symm place.fired.symm fun edge => by rw [place.stepID]
  · exact possible row inside pending before

theorem Grounded.shift (grounded : Grounded steps edges)
    (replaced : Table.Replaced steps steps' old new) (place : SamePlace old new)
    (oldKept : old.status ≠ .cancelled) (newKept : new.status ≠ .cancelled)
    (dies : isDead old.status = true → isDead new.status = true) : Grounded steps' edges := by
  have kept {row : StepRow} (cancelled : row.status = .cancelled) :
      row ∈ steps' ↔ row ∈ steps := by
    refine replaced.mem_iff_of_ne ?_ ?_
    · rintro rfl
      exact oldKept cancelled
    · rintro rfl
      exact newKept cancelled
  intro holds closed row mem cancelled
  refine grounded holds ?_ row ((kept cancelled).mp mem) cancelled
  intro row' mem' cancelled' impossible
  refine closed row' ((kept cancelled').mpr mem') cancelled' (impossible.mono ?_)
  rintro id (⟨source, inside, rfl, dead⟩ | ⟨⟨source, inside, rfl, isCancelled⟩, held⟩)
  · rcases replaced.mem_or_old inside with rfl | inside'
    · exact .inl ⟨new, replaced.new_mem, place.stepID, dies dead⟩
    · exact .inl ⟨source, inside', rfl, dead⟩
  · exact .inr ⟨⟨source, (kept isCancelled).mpr inside, rfl, isCancelled⟩, held⟩

end Shift

section Resolved

variable {verdict : EdgeVerdict} {s' : RunStore} {edge : EdgeRow}
  (resolves : Resolves verdict s s' edge old new) (ordinals : (s.edges.map EdgeRow.ordinal).Nodup)

include resolves

theorem Resolves.normal : edge.edgeType = .normal ∧ edge.resolution = .unresolved ∧
    edge.ordinal = verdict.ordinal := by
  have isOpen := resolves.unresolved
  simp only [resolvable, Bool.and_eq_true, beq_iff_eq] at isOpen
  exact ⟨isOpen.1.2, isOpen.2, isOpen.1.1⟩

theorem Resolves.status_cases : (new.status = old.status ∧ old.status ≠ .pending) ∨
    (old.status = .pending ∧
      (new.status = .pending ∨ new.status = .ready ∨ new.status = .skipped)) := by
  have status := resolves.status
  by_cases pending : old.status = .pending
  · refine .inr ⟨pending, ?_⟩
    rw [status, pending]
    unfold settle
    split_ifs <;> simp
  · rw [settle_of_ne pending] at status
    exact .inl ⟨status, pending⟩

theorem Resolves.isBlocked_eq : isBlocked new.status = isBlocked old.status := by
  rcases resolves.status_cases with ⟨same, _⟩ | ⟨pending, became | became | became⟩
  · rw [same]
  all_goals simp [pending, became, isBlocked]

theorem Resolves.isDead_eq : isDead new.status = isDead old.status := by
  rcases resolves.status_cases with ⟨same, _⟩ | ⟨pending, became | became | became⟩
  · rw [same]
  all_goals simp [pending, became, isDead]

theorem Resolves.cancelled_iff : new.status = .cancelled ↔ old.status = .cancelled := by
  rcases resolves.status_cases with ⟨same, _⟩ | ⟨pending, became | became | became⟩
  · rw [same]
  all_goals simp [pending, became]

include ordinals

theorem Resolves.mem_unresolvedIn_iff : other ∈ unresolvedIn s'.edges id ↔
      other ∈ unresolvedIn s.edges id ∧ other.ordinal ≠ edge.ordinal := by
  simp only [mem_unresolvedIn]
  constructor
  · rintro ⟨mem, normal, unresolved, into⟩
    rcases resolves.edges.key_ne ordinals mem with rfl | ⟨inside, apart⟩
    · cases fired : verdict.fired <;> simp [resolutionOf, fired] at unresolved
    · exact ⟨⟨inside, normal, unresolved, into⟩, apart⟩
  · rintro ⟨⟨mem, normal, unresolved, into⟩, apart⟩
    rcases resolves.edges.mem_or_old mem with rfl | inside
    · exact absurd rfl apart
    · exact ⟨inside, normal, unresolved, into⟩

theorem Resolves.unresolvedIn_other (elsewhere : id ≠ edge.toStep) :
    other ∈ unresolvedIn s'.edges id ↔ other ∈ unresolvedIn s.edges id := by
  rw [resolves.mem_unresolvedIn_iff ordinals]
  refine and_iff_left_of_imp fun mem same => elsewhere ?_
  obtain ⟨inside, _, _, into⟩ := mem_unresolvedIn.mp mem
  rw [← into, Table.eq_of_key ordinals inside resolves.edges.old_mem same]

theorem Possible.resolved (unique : UniqueSteps s) (possible : Possible s.steps s.edges)
    (spared : isJoinAny new = true → new.status = .pending →
      ¬Impossible s'.edges (Blocked s'.steps) new) : Possible s'.steps s'.edges := by
  intro row mem pending impossible
  have before := impossible.mono fun _ =>
    Blocked.shift resolves.steps resolves.stepID resolves.isBlocked_eq.symm.trans
  rcases resolves.steps.key_ne unique mem with rfl | ⟨inside, apart⟩
  · by_cases joins : isJoinAny row = true
    · exact spared joins pending impossible
    rcases resolves.status_cases with ⟨same, settled⟩ | ⟨waiting, _⟩
    · exact settled (same ▸ pending)
    obtain ⟨source, into, blocked⟩ := (impossible_of_plain joins).mp before
    rw [resolves.isJoinAny_eq] at joins
    refine possible old resolves.steps.old_mem waiting ((impossible_of_plain joins).mpr ?_)
    rw [resolves.stepID] at into
    exact ⟨source, ((resolves.mem_unresolvedIn_iff ordinals).mp into).1, blocked⟩
  · refine possible row inside pending (before.congr rfl rfl fun other => ?_)
    exact (resolves.unresolvedIn_other ordinals (resolves.into ▸ apart)).symm

theorem Resolves.impossible (free : ¬blocked edge.fromStep) (unique : UniqueSteps s)
    (mem : row ∈ s'.steps) (inside : before ∈ s.steps)
    (same : before.stepID = row.stepID) (impossible : Impossible s.edges blocked before) :
    Impossible s'.edges blocked row := by
  rcases resolves.steps.key_ne unique mem with rfl | ⟨kept, apart⟩
  · obtain rfl : before = old :=
      Table.eq_of_key unique inside resolves.steps.old_mem (same.trans resolves.stepID)
    have edgeIn : edge ∈ unresolvedIn s.edges before.stepID := by
      obtain ⟨normal, unresolved, _⟩ := resolves.normal
      exact mem_unresolvedIn.mpr ⟨resolves.edges.old_mem, normal, unresolved, resolves.into.symm⟩
    by_cases joins : isJoinAny before = true
    · obtain ⟨_, _, all⟩ := (impossible_of_join joins).mp impossible
      exact absurd (all edge edgeIn) free
    · obtain ⟨other, into, source⟩ := (impossible_of_plain joins).mp impossible
      rw [← resolves.isJoinAny_eq] at joins
      refine (impossible_of_plain joins).mpr ⟨other, ?_, source⟩
      rw [resolves.stepID]
      refine (resolves.mem_unresolvedIn_iff ordinals).mpr ⟨into, fun clash => free ?_⟩
      obtain rfl : other = edge := Table.eq_of_key ordinals (mem_unresolvedIn.mp into).1
        resolves.edges.old_mem clash
      exact source
  · obtain rfl := Table.eq_of_key unique inside kept same
    refine impossible.congr rfl rfl fun other => ?_
    exact resolves.unresolvedIn_other ordinals (resolves.into ▸ apart)

theorem Grounded.resolved (unique : UniqueSteps s) (grounded : Grounded s.steps s.edges)
    (free : ¬Blocked s.steps edge.fromStep) : Grounded s'.steps s'.edges := by
  intro holds closed row mem cancelled
  have after : ∀ row ∈ s.steps, ∃ row' ∈ s'.steps, row'.stepID = row.stepID ∧
      isDead row'.status = isDead row.status ∧
      (row'.status = .cancelled ↔ row.status = .cancelled) := by
    intro row mem
    rcases resolves.steps.mem_or_old mem with rfl | inside
    · exact ⟨new, resolves.steps.new_mem, resolves.stepID, resolves.isDead_eq,
        resolves.cancelled_iff⟩
    · exact ⟨row, inside, rfl, rfl, Iff.rfl⟩
  have step : ∀ row ∈ s.steps, row.status = .cancelled → Impossible s.edges
      (fun id => Dead s.steps id ∨ Cancelled s.steps id ∧ holds id) row → holds row.stepID := by
    intro before inside cancelled' impossible
    obtain ⟨row', mem', same, _, alike⟩ := after before inside
    rw [← same]
    refine closed row' mem' (alike.mpr cancelled') ?_
    have moved := resolves.impossible ordinals (fun blocked => free (blocked_iff.mpr
      (blocked.imp_right And.left))) unique mem' inside same.symm impossible
    refine moved.mono ?_
    rintro id (⟨source, known, rfl, dead⟩ | ⟨⟨source, known, rfl, isCancelled⟩, held⟩)
    · obtain ⟨source', known', same', deadEq, _⟩ := after source known
      exact .inl ⟨source', known', same', deadEq.trans dead⟩
    · obtain ⟨source', known', same', _, alike'⟩ := after source known
      exact .inr ⟨⟨source', known', same', alike'.mpr isCancelled⟩, held⟩
  rcases resolves.steps.mem_of_mem mem with rfl | inside
  · rw [resolves.stepID]
    exact grounded holds step old resolves.steps.old_mem (resolves.cancelled_iff.mp cancelled)
  · exact grounded holds step row inside cancelled

end Resolved

structure WriteOff (steps : List StepRow) (edges : List EdgeRow) (marks : String → Prop) :
    Prop where
  closed : ∀ row ∈ steps, row.status = .pending →
    Impossible edges (fun id => Blocked steps id ∨ marks id) row → marks row.stepID
  least : ∀ holds : String → Prop,
    (∀ row ∈ steps, row.status = .pending →
      Impossible edges (fun id => Blocked steps id ∨ marks id ∧ holds id) row →
      holds row.stepID) → ∀ id, marks id → holds id

theorem WriteOff.le (writeOff : WriteOff steps edges marks)
    (other : WriteOff steps edges marks') (id : String) (marked : marks id) : marks' id := by
  refine writeOff.least marks' (fun row mem pending impossible => ?_) id marked
  exact other.closed row mem pending (impossible.mono fun _ => Or.imp_right And.right)

theorem Blocked.of_mem (known : ∀ row ∈ steps, row ∈ steps') (blocked : Blocked steps id) :
    Blocked steps' id := by
  obtain ⟨row, mem, same, isBlocked⟩ := blocked
  exact ⟨row, known row mem, same, isBlocked⟩

theorem planWriteOff_writeOff (sameSteps : ∀ row, row ∈ sorted ↔ row ∈ steps)
    (sameEdges : ∀ edge, edge ∈ sortedEdges ↔ edge ∈ edges) :
    WriteOff steps edges (· ∈ planWriteOff sorted sortedEdges) := by
  have incoming : ∀ id edge, edge ∈ unresolvedIn sortedEdges id ↔ edge ∈ unresolvedIn edges id := by
    intro id edge
    rw [mem_unresolvedIn, mem_unresolvedIn, sameEdges]
  have blocked : ∀ id, Blocked steps id ↔ Blocked sorted id := fun id =>
    ⟨.of_mem fun row => (sameSteps row).mpr, .of_mem fun row => (sameSteps row).mp⟩
  constructor
  · intro row mem pending impossible
    refine planWriteOff_closed ((sameSteps row).mpr mem) pending ?_
    refine (impossible.congr rfl rfl (incoming row.stepID)).mono fun id => ?_
    exact Or.imp_left (blocked id).mp
  · intro holds step
    refine planWriteOff_induction fun row mem pending impossible => ?_
    refine step row ((sameSteps row).mp mem) pending ?_
    refine (impossible.congr rfl rfl fun edge => (incoming row.stepID edge).symm).mono fun id => ?_
    exact Or.imp_left (blocked id).mpr

section Written

variable {marks : String → Prop} {mark : StepRow → StepRow}
  (unique : (steps.map StepRow.stepID).Nodup) (place : ∀ row ∈ steps, SamePlace row (mark row))

theorem WriteOff.pending (writeOff : WriteOff steps edges marks) (marked : marks id) :
    ∃ row ∈ steps, row.stepID = id ∧ row.status = .pending :=
  writeOff.least (fun id => ∃ row ∈ steps, row.stepID = id ∧ row.status = .pending)
    (fun row mem pending _ => ⟨row, mem, rfl, pending⟩) id marked

theorem mem_asIfPending (mem : row ∈ steps)
    (waits : row.status = .pending ∨ row.status = .cancelled) :
    ∃ row' ∈ steps.map asIfPending, row'.status = .pending ∧ SamePlace row' row := by
  refine ⟨asIfPending row, mem_map_of_mem mem, ?_⟩
  unfold asIfPending
  rcases waits with pending | cancelled
  · rw [if_neg (by simp [pending])]
    exact ⟨pending, rfl, rfl, rfl, rfl⟩
  · rw [if_pos cancelled]
    exact ⟨rfl, rfl, rfl, rfl, rfl⟩

theorem asIfPending_mem (mem' : row' ∈ steps.map asIfPending) (pending : row'.status = .pending) :
    ∃ row ∈ steps, SamePlace row row' ∧ (row.status = .cancelled ∨ row.status = .pending) := by
  obtain ⟨row, mem, rfl⟩ := mem_map.mp mem'
  refine ⟨row, mem, ?_⟩
  unfold asIfPending at pending ⊢
  split
  · rename_i cancelled
    exact ⟨⟨rfl, rfl, rfl, rfl⟩, .inl cancelled⟩
  · rename_i kept
    rw [if_neg kept] at pending
    exact ⟨⟨rfl, rfl, rfl, rfl⟩, .inr pending⟩

theorem blocked_asIfPending_iff : Blocked (steps.map asIfPending) id ↔ Dead steps id := by
  have alike : ∀ row : StepRow, isBlocked (asIfPending row).status = isDead row.status ∧
      (asIfPending row).stepID = row.stepID := by
    intro row
    unfold asIfPending
    split
    · rename_i cancelled
      simp [cancelled, isBlocked, isDead]
    · rename_i kept
      exact ⟨Bool.eq_iff_iff.mpr (by simp [isBlocked_iff, kept]), rfl⟩
  simp only [Blocked, Dead, mem_map, exists_exists_and_eq_and, alike]

theorem WriteOff.cancelled (writeOff : WriteOff (steps.map asIfPending) edges marks)
    (possible : Possible steps edges) (marked : marks id) : Cancelled steps id := by
  refine writeOff.least (Cancelled steps) ?_ id marked
  intro row' mem' pending impossible
  obtain ⟨row, mem, same, cancelled | waits⟩ := asIfPending_mem mem' pending
  · exact ⟨row, mem, same.stepID.symm, cancelled⟩
  · refine absurd ?_ (possible row mem waits)
    have before : Impossible edges (Blocked steps) row' := by
      refine impossible.mono fun id blocked => blocked_iff.mpr ?_
      exact blocked.imp blocked_asIfPending_iff.mp And.right
    exact before.congr same.joins.symm same.fired.symm fun edge => by rw [same.stepID]

include place

theorem impossible_mark_iff (mem : row ∈ steps) :
    Impossible edges blocked (mark row) ↔ Impossible edges blocked row := by
  have same := place row mem
  constructor
  · exact .congr same.joins.symm same.fired.symm fun edge => by rw [same.stepID]
  · exact .congr same.joins same.fired fun edge => by rw [same.stepID]

section Cancel

variable (writeOff : WriteOff steps edges marks)
  (marked : ∀ row ∈ steps, marks row.stepID → (mark row).status = .cancelled)
  (kept : ∀ row ∈ steps, ¬marks row.stepID → (mark row).status = row.status)

include writeOff marked kept

theorem WriteOff.possible : Possible (steps.map mark) edges := by
  intro row' mem' pending impossible
  obtain ⟨row, mem, rfl⟩ := mem_map.mp mem'
  have outside : ¬marks row.stepID := by
    intro inside
    simp [marked row mem inside] at pending
  rw [kept row mem outside] at pending
  refine outside (writeOff.closed row mem pending ?_)
  refine ((impossible_mark_iff place mem).mp impossible).mono ?_
  rintro id ⟨_, inside', rfl, isBlocked⟩
  obtain ⟨source, inside, rfl⟩ := mem_map.mp inside'
  rw [(place source inside).stepID]
  by_cases inMarks : marks source.stepID
  · exact .inr inMarks
  · exact .inl ⟨source, inside, rfl, kept source inside inMarks ▸ isBlocked⟩

include unique

theorem WriteOff.grounded (grounded : Grounded steps edges) : Grounded (steps.map mark) edges := by
  have unmarked : ∀ row ∈ steps, row.status ≠ .pending → ¬marks row.stepID := by
    intro row mem settled inside
    obtain ⟨_, inside', same, pending⟩ := writeOff.pending inside
    exact settled (Table.eq_of_key unique inside' mem same ▸ pending)
  have dead : ∀ id, Dead steps id → Dead (steps.map mark) id := by
    rintro id ⟨row, mem, rfl, isDead⟩
    have outside := unmarked row mem fun pending => by simp [pending, Engine.isDead] at isDead
    exact ⟨mark row, mem_map_of_mem mem, (place row mem).stepID,
      kept row mem outside ▸ isDead⟩
  have cancelled : ∀ id, Cancelled steps id → Cancelled (steps.map mark) id := by
    rintro id ⟨row, mem, rfl, isCancelled⟩
    have outside := unmarked row mem (by simp [isCancelled])
    exact ⟨mark row, mem_map_of_mem mem, (place row mem).stepID,
      (kept row mem outside).trans isCancelled⟩
  have inMarks : ∀ id, marks id → Cancelled (steps.map mark) id := by
    intro id inside
    obtain ⟨row, mem, rfl, _⟩ := writeOff.pending inside
    exact ⟨mark row, mem_map_of_mem mem, (place row mem).stepID,
      marked row mem inside⟩
  intro holds closed
  have close : ∀ row ∈ steps, (mark row).status = .cancelled →
      Impossible edges (fun id => Dead steps id ∨ Cancelled (steps.map mark) id ∧ holds id) row →
      holds row.stepID := by
    intro row mem isCancelled impossible
    rw [← (place row mem).stepID]
    refine closed _ (mem_map_of_mem mem) isCancelled ?_
    exact ((impossible_mark_iff place mem).mpr impossible).mono fun id => Or.imp_left (dead id)
  have before : ∀ id, Cancelled steps id → holds id := by
    rintro id ⟨row, mem, rfl, isCancelled⟩
    refine grounded holds (fun row mem isCancelled impossible => ?_) row mem isCancelled
    have outside := unmarked row mem (by simp [isCancelled])
    refine close row mem ((kept row mem outside).trans isCancelled) (impossible.mono ?_)
    exact fun id => Or.imp_right (And.imp_left (cancelled id))
  have written : ∀ id, marks id → holds id := by
    refine writeOff.least holds fun row mem pending impossible => ?_
    have inside := writeOff.closed row mem pending
      (impossible.mono fun id => Or.imp_right And.left)
    refine close row mem (marked row mem inside) (impossible.mono ?_)
    rintro id (blocked | ⟨isMarked, held⟩)
    · refine (blocked_iff.mp blocked).imp_right fun isCancelled => ?_
      exact ⟨cancelled id isCancelled, before id isCancelled⟩
    · exact .inr ⟨inMarks id isMarked, held⟩
  intro row' mem' isCancelled
  obtain ⟨row, mem, rfl⟩ := mem_map.mp mem'
  rw [(place row mem).stepID]
  by_cases inside : marks row.stepID
  · exact written _ inside
  · exact before _ ⟨row, mem, rfl, (kept row mem inside).symm.trans isCancelled⟩

end Cancel

section Revive

variable (writeOff : WriteOff (steps.map asIfPending) edges marks)
  (possible : Possible steps edges)

variable
  (stays : ∀ row ∈ steps, marks row.stepID → (mark row).status = row.status)
  (revived : ∀ row ∈ steps, row.status = .cancelled → ¬marks row.stepID →
    (mark row).status = .pending)
  (kept : ∀ row ∈ steps, row.status ≠ .cancelled → (mark row).status = row.status)

omit place in
include revived kept in
theorem revived_status (mem : row ∈ steps) (isCancelled : (mark row).status = .cancelled) :
    row.status = .cancelled ∧ marks row.stepID := by
  have cancelled : row.status = .cancelled := by
    by_contra other
    exact other ((kept row mem other).symm.trans isCancelled)
  refine ⟨cancelled, ?_⟩
  by_contra outside
  simp [revived row mem cancelled outside] at isCancelled

include stays revived kept

theorem dead_revived_iff : Dead (steps.map mark) id ↔ Dead steps id := by
  have alike : ∀ row ∈ steps, isDead (mark row).status = isDead row.status := by
    intro row mem
    by_cases cancelled : row.status = .cancelled
    · by_cases inside : marks row.stepID
      · rw [stays row mem inside]
      · rw [revived row mem cancelled inside, cancelled]
        rfl
    · rw [kept row mem cancelled]
  constructor
  · rintro ⟨_, mem', rfl, dead⟩
    obtain ⟨row, mem, rfl⟩ := mem_map.mp mem'
    exact ⟨row, mem, (place row mem).stepID.symm, alike row mem ▸ dead⟩
  · rintro ⟨row, mem, rfl, dead⟩
    exact ⟨mark row, mem_map_of_mem mem, (place row mem).stepID,
      (alike row mem).trans dead⟩

include unique writeOff possible

theorem WriteOff.revived_possible : Possible (steps.map mark) edges := by
  intro row' mem' pending impossible
  obtain ⟨row, mem, rfl⟩ := mem_map.mp mem'
  have waits : row.status = .pending ∨ row.status = .cancelled := by
    by_cases cancelled : row.status = .cancelled
    · exact .inr cancelled
    · exact .inl ((kept row mem cancelled).symm.trans pending)
  have inside : marks row.stepID := by
    obtain ⟨shown, memberShown, isPending, same⟩ := mem_asIfPending mem waits
    rw [same.stepID]
    refine writeOff.closed shown memberShown isPending ?_
    have before := ((impossible_mark_iff place mem).mp impossible).congr same.joins.symm
      same.fired.symm fun edge => by rw [same.stepID]
    refine before.mono fun id blocked => ?_
    rw [blocked_asIfPending_iff]
    refine (blocked_iff.mp blocked).imp
      (dead_revived_iff place stays revived kept).mp ?_
    rintro ⟨_, inside', rfl, isCancelled⟩
    obtain ⟨source, inside, rfl⟩ := mem_map.mp inside'
    rw [(place source inside).stepID]
    exact (revived_status revived kept inside isCancelled).2
  rw [stays row mem inside] at pending
  obtain ⟨_, inside', same, cancelled⟩ := writeOff.cancelled possible inside
  simp [Table.eq_of_key unique inside' mem same, pending] at cancelled

theorem WriteOff.revived_grounded : Grounded (steps.map mark) edges := by
  intro holds closed
  have all : ∀ id, marks id → holds id := by
    refine writeOff.least holds fun shown memberShown isPending impossible => ?_
    have inside := writeOff.closed shown memberShown isPending
      (impossible.mono fun id => Or.imp_right And.left)
    obtain ⟨row, mem, same, cancelled⟩ := writeOff.cancelled possible inside
    obtain ⟨_, mem', same', _⟩ := asIfPending_mem memberShown isPending
    obtain rfl := Table.eq_of_key unique mem mem' (same.trans same'.stepID)
    rw [← same, ← (place row mem).stepID]
    refine closed _ (mem_map_of_mem mem)
      ((stays row mem (same ▸ inside)).trans cancelled) ?_
    refine (impossible_mark_iff place mem).mpr (Impossible.mono ?_ (impossible.congr
      same'.joins.symm same'.fired.symm fun edge => by rw [same'.stepID]))
    rintro id (blocked | ⟨isMarked, held⟩)
    · exact .inl ((dead_revived_iff place stays revived kept).mpr
        (blocked_asIfPending_iff.mp blocked))
    · obtain ⟨source, inside', rfl, isCancelled⟩ := writeOff.cancelled possible isMarked
      exact .inr ⟨⟨mark source, mem_map_of_mem inside', (place source inside').stepID,
        (stays source inside' isMarked).trans isCancelled⟩, held⟩
  intro row' mem' isCancelled
  obtain ⟨row, mem, rfl⟩ := mem_map.mp mem'
  rw [(place row mem).stepID]
  exact all _ (revived_status revived kept mem isCancelled).2

end Revive

end Written

theorem Impossible.of_append (free : ∀ edge ∈ more, ¬blocked edge.fromStep)
    (impossible : Impossible (edges ++ more) blocked row) : Impossible edges blocked row := by
  have known : ∀ edge ∈ unresolvedIn (edges ++ more) row.stepID, blocked edge.fromStep →
      edge ∈ unresolvedIn edges row.stepID := by
    intro edge mem isBlocked
    obtain ⟨inside, rest⟩ := mem_unresolvedIn.mp mem
    rcases mem_append.mp inside with old | new
    · exact mem_unresolvedIn.mpr ⟨old, rest⟩
    · exact absurd isBlocked (free edge new)
  by_cases joins : isJoinAny row = true
  · obtain ⟨unfired, some, all⟩ := (impossible_of_join joins).mp impossible
    obtain ⟨edge, mem⟩ := exists_mem_of_ne_nil _ some
    refine (impossible_of_join joins).mpr
      ⟨unfired, ne_nil_of_mem (known edge mem (all edge mem)), ?_⟩
    intro other into
    obtain ⟨inside, rest⟩ := mem_unresolvedIn.mp into
    exact all other (mem_unresolvedIn.mpr ⟨mem_append_left _ inside, rest⟩)
  · obtain ⟨edge, mem, isBlocked⟩ := (impossible_of_plain joins).mp impossible
    exact (impossible_of_plain joins).mpr ⟨edge, known edge mem isBlocked, isBlocked⟩

section Expanded

variable {lint : Dag.PlanLint} {args : ExpandRun} {origin : StepRow} {now : Time}
  (fits : args.Fits lint origin now s)

theorem newSteps_status (mem : row ∈ args.newSteps version origin now) :
    row.status = .ready ∧ row.remainingDeps = 0 ∨ row.status = .pending ∧ 0 < row.remainingDeps := by
  obtain ⟨step, _, rfl⟩ := mem_map.mp mem
  by_cases entry : inDegree args.plan.edges step.id = 0
  · exact .inl ⟨if_pos entry, entry⟩
  · exact .inr ⟨if_neg entry, Nat.pos_of_ne_zero entry⟩

theorem widenRow_place (args : ExpandRun) (now : Time) (row : StepRow) :
    (args.widenRow now row).status = row.status ∧
    isJoinAny (args.widenRow now row) = isJoinAny row ∧
    (args.widenRow now row).firedDeps = row.firedDeps := by
  unfold ExpandRun.widenRow
  split
  · exact ⟨rfl, rfl, rfl⟩
  · exact ⟨rfl, rfl, rfl⟩

theorem mem_expanded (mem : row' ∈ (args.apply origin now s).steps) :
    (∃ row ∈ s.steps, row' = args.widenRow now row) ∨
      row' ∈ args.newSteps (s.run.graphVersion + 1) origin now := by
  rcases mem_append.mp mem with old | new
  · obtain ⟨row, inside, rfl⟩ := mem_map.mp old
    exact .inl ⟨row, inside, rfl⟩
  · exact .inr new

theorem blocked_of_expanded (blocked : Blocked (args.apply origin now s).steps id) :
    Blocked s.steps id := by
  obtain ⟨_, mem, rfl, isBlocked⟩ := blocked
  rcases mem_expanded mem with ⟨row, inside, rfl⟩ | new
  · rw [(widenRow_place args now row).1] at isBlocked
    exact ⟨row, inside, (widenRow_stepID args now row).symm, isBlocked⟩
  · rcases newSteps_status new with ⟨ready, _⟩ | ⟨pending, _⟩
    · simp [ready, Engine.isBlocked] at isBlocked
    · simp [pending, Engine.isBlocked] at isBlocked

include fits

theorem newEdges_unblocked (unique : UniqueSteps s) (free : isBlocked origin.status = false)
    (mem : edge ∈ args.newEdges version first) : ¬Blocked s.steps edge.fromStep := by
  obtain ⟨placed, inside, rfl⟩ := mem_map.mp mem
  change ¬Blocked s.steps placed.1.fromStep
  rcases fits.sources unique (fst_mem_of_mem_zipIdx inside) with
    new | ⟨row, known, same, isOrigin | unsettled⟩
  · rintro ⟨row, known, same, _⟩
    exact fits.fresh (mem_map_of_mem known) (same ▸ new)
  · obtain ⟨found, named⟩ := findStep_some fits.found
    obtain rfl := Table.eq_of_key unique known found (isOrigin.trans named.symm)
    exact same ▸ not_blocked unique known free
  · rw [← same]
    refine not_blocked unique known ?_
    cases status : row.status <;> simp [status, anchorStatus] at unsettled <;> rfl

theorem Possible.expanded (wired : Wired s) (unique : UniqueSteps s)
    (free : isBlocked origin.status = false) (possible : Possible s.steps s.edges) :
    Possible (args.apply origin now s).steps (args.apply origin now s).edges := by
  intro row' mem pending impossible
  have before := (impossible.mono fun _ => blocked_of_expanded).of_append fun edge =>
    newEdges_unblocked fits unique free
  rcases mem_expanded mem with ⟨row, inside, rfl⟩ | new
  · obtain ⟨status, joins, fired⟩ := widenRow_place args now row
    refine possible row inside (status.symm.trans pending) ?_
    exact before.congr joins.symm fired.symm fun edge => by rw [widenRow_stepID]
  · obtain ⟨edge, into, _⟩ := before.source
    obtain ⟨known, _, _, toStep⟩ := mem_unresolvedIn.mp into
    refine fits.fresh (wired.ends edge known).2 ?_
    rw [toStep, ← newSteps_stepID args (s.run.graphVersion + 1) origin now]
    exact mem_map_of_mem new

theorem Grounded.expanded (unique : UniqueSteps s) (grounded : Grounded s.steps s.edges) :
    Grounded (args.apply origin now s).steps (args.apply origin now s).edges := by
  have kept : ∀ row ∈ s.steps, row.status = .cancelled → row.stepID ∉ args.widened := by
    intro row mem cancelled widened
    obtain ⟨_, inside, same, pending⟩ := fits.anchored row.stepID widened
    simp [Table.eq_of_key unique inside mem same, cancelled] at pending
  have after : ∀ row ∈ s.steps, args.widenRow now row ∈ (args.apply origin now s).steps :=
    fun row mem => mem_append_left _ (mem_map_of_mem mem)
  intro holds closed row' mem cancelled
  have step : ∀ row ∈ s.steps, row.status = .cancelled → Impossible s.edges
      (fun id => Dead s.steps id ∨ Cancelled s.steps id ∧ holds id) row → holds row.stepID := by
    intro row inside cancelled' impossible
    obtain ⟨status, joins, fired⟩ := widenRow_place args now row
    rw [← widenRow_stepID args now row]
    refine closed _ (after row inside) (status.trans cancelled') ?_
    have moved : Impossible (args.apply origin now s).edges
        (fun id => Dead s.steps id ∨ Cancelled s.steps id ∧ holds id) (args.widenRow now row) := by
      refine impossible.congr joins fired fun edge => ?_
      rw [widenRow_stepID, mem_unresolvedIn, mem_unresolvedIn, ExpandRun.apply, mem_append]
      refine and_congr_left fun rest => ⟨fun place => place.resolve_right fun new => ?_, .inl⟩
      obtain ⟨placed, listed, rfl⟩ := mem_map.mp new
      refine kept row inside cancelled' (mem_widened.mpr ⟨?_, placed.1,
        fst_mem_of_mem_zipIdx listed, ?_, rest.2.2⟩)
      · exact fits.fresh (mem_map_of_mem inside)
      · have normal : placed.1.type = .normal := rest.1
        simp [Dag.Edge.isLoop, normal]
    refine moved.mono ?_
    rintro id (⟨source, known, rfl, dead⟩ | ⟨⟨source, known, rfl, isCancelled⟩, held⟩)
    · exact .inl ⟨_, after source known, widenRow_stepID args now source,
        (widenRow_place args now source).1 ▸ dead⟩
    · exact .inr ⟨⟨_, after source known, widenRow_stepID args now source,
        (widenRow_place args now source).1.trans isCancelled⟩, held⟩
  rcases mem_expanded mem with ⟨row, inside, rfl⟩ | new
  · rw [widenRow_stepID]
    rw [(widenRow_place args now row).1] at cancelled
    exact grounded holds step row inside cancelled
  · rcases newSteps_status new with ⟨ready, _⟩ | ⟨pending, _⟩
    · simp [ready] at cancelled
    · simp [pending] at cancelled

end Expanded

end Agentloom.Engine
