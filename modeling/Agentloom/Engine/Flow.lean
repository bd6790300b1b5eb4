import Agentloom.Engine.Sheltered

/-! How work flows through the rows of a run. Outside a fan-out every settled step has resolved its
out-edges, and a pending step waits for an edge; hence in an acyclic run a step that waits in vain
waits for a blocked one. -/

namespace Agentloom.Engine

open Transaction Store Relation List

variable {s s' : RunStore}

def Waits (row : StepRow) : Prop :=
  0 < row.remainingDeps ∧ (isJoinAny row = true → row.firedDeps = 0)

/-- The unresolved out-edges of settled steps are those still owed, and pending steps wait. -/
structure Flowing (owes : EdgeRow → Prop) (s : RunStore) : Prop where
  paid : ∀ edge ∈ s.edges, edge.edgeType = .normal → edge.resolution = .unresolved →
    ∀ row ∈ s.steps, row.stepID = edge.fromStep → isSettled row.status = true → owes edge
  waits : ∀ row ∈ s.steps, row.status = .pending → Waits row

def Owed (owed : List EdgeVerdict) (edge : EdgeRow) : Prop :=
  ∃ verdict ∈ owed, verdict.ordinal = edge.ordinal

variable {row : StepRow}

section Kept

variable {owes owes' : EdgeRow → Prop}

theorem Waits.of_place (waits : Waits row) (place : SamePlace row row') : Waits row' := by
  unfold Waits
  rw [place.remaining, place.joins, place.fired]
  exact waits

theorem Flowing.of_rows (flowing : Flowing owes s) (edges : s'.edges = s.edges)
    (weaker : ∀ edge, owes edge → owes' edge)
    (rows : ∀ row' ∈ s'.steps, ∃ row ∈ s.steps, SamePlace row row' ∧
      (isSettled row'.status = true → isSettled row.status = true ∨
        ∀ edge : EdgeRow, edge.fromStep = row'.stepID → owes' edge) ∧
      (row'.status = .pending → row.status = .pending ∨ Waits row)) : Flowing owes' s' := by
  constructor
  · rw [edges]
    intro edge mem normal unresolved row' mem' same settled'
    obtain ⟨row, inside, place, settles, _⟩ := rows row' mem'
    rcases settles settled' with settled | owed
    · exact weaker edge (flowing.paid edge mem normal unresolved row inside
        (place.stepID.symm.trans same) settled)
    · exact owed edge same.symm
  · intro row' mem' pending'
    obtain ⟨row, inside, place, _, waits⟩ := rows row' mem'
    rcases waits pending' with pending | waiting
    · exact (flowing.waits row inside pending).of_place place
    · exact waiting.of_place place

theorem Flowing.of_same (flowing : Flowing owes s) (steps : s'.steps = s.steps)
    (edges : s'.edges = s.edges) : Flowing owes s' := by
  refine flowing.of_rows edges (fun _ => id) fun row mem => ?_
  rw [steps] at mem
  exact ⟨row, mem, .refl row, .inl, .inl⟩

theorem Flowing.shifted {old new} (flowing : Flowing owes s)
    (shifted : Shifted s s' old new) (weaker : ∀ edge, owes edge → owes' edge)
    (settles : isSettled new.status = true →
      ∀ edge : EdgeRow, edge.fromStep = new.stepID → owes' edge) (moved : new.status ≠ .pending) :
        Flowing owes' s' := by
  refine flowing.of_rows shifted.edges weaker fun row' mem => ?_
  rcases shifted.replaced.mem_of_mem mem with rfl | inside
  · exact ⟨old, shifted.replaced.old_mem, shifted.place, fun settled => .inr (settles settled),
      fun pending => absurd pending moved⟩
  · exact ⟨row', inside, .refl row', .inl, .inl⟩

theorem Flowing.mapped (flowing : Flowing owes s)
    (mapped : Mapped s s' mark) (place : ∀ row, SamePlace row (mark row))
    (settles : ∀ row ∈ s.steps, isSettled (mark row).status = true → isSettled row.status = true)
    (waits : ∀ row ∈ s.steps, (mark row).status = .pending → row.status = .pending ∨ Waits row) :
    Flowing owes s' := by
  refine flowing.of_rows mapped.edges (fun _ => id) fun row' mem => ?_
  rw [mapped.steps] at mem
  obtain ⟨row, inside, rfl⟩ := mem_map.mp mem
  exact ⟨row, inside, place row, fun settled => .inl (settles row inside settled), waits row inside⟩

end Kept

theorem Flowing.covered
    (flowing : Flowing (fun edge => edge.fromStep = source.stepID) s) (covers : Covers source s) :
    Flowing (Owed source.verdicts) s := by
  refine ⟨fun edge mem normal unresolved row inside same settled => ?_, flowing.waits⟩
  have leaves := flowing.paid edge mem normal unresolved row inside same settled
  have listed : edge.ordinal ∈ source.verdicts.map EdgeVerdict.ordinal := by
    rw [covers]
    refine mem_map_of_mem (mem_filter.mpr ⟨mem_listEdgesFromStep.mpr ⟨mem, leaves⟩, ?_⟩)
    simp [normal]
  obtain ⟨verdict, isOwed, ordinal⟩ := mem_map.mp listed
  exact ⟨verdict, isOwed, ordinal⟩

theorem Flowing.absorbed (flowing : Flowing (Owed (verdict :: owed)) s)
    (missed : ∀ row ∈ s.edges, resolvable verdict.ordinal row = false) : Flowing (Owed owed) s := by
  refine ⟨fun edge mem normal unresolved row inside same settled => ?_, flowing.waits⟩
  obtain ⟨other, isOwed, ordinal⟩ := flowing.paid edge mem normal unresolved row inside same settled
  rcases mem_cons.mp isOwed with rfl | later
  · have closed := missed edge mem
    simp [resolvable, ordinal, normal, unresolved] at closed
  · exact ⟨other, later, ordinal⟩

theorem waits_of_settle (pending : settle joinAny remaining fired .pending = .pending) :
    0 < remaining ∧ (joinAny = true → fired = 0) := by
  unfold settle at pending
  split_ifs at pending with satisfied unfired
  constructor
  · by_contra none
    exact unfired ⟨by omega, by
      by_contra some
      exact satisfied ⟨by omega, .inl (by omega)⟩⟩
  · intro joins
    by_contra some
    exact satisfied ⟨by omega, .inr joins⟩

section Resolved

variable {verdict : EdgeVerdict} {edge : EdgeRow} {old new : StepRow}
  (resolves : Resolves verdict s s' edge old new)

include resolves

theorem Resolves.waits (pending : new.status = .pending) : Waits new := by
  have status := resolves.status
  rw [pending] at status
  have before : old.status = .pending := by
    rcases resolves.status_cases with ⟨same, settled⟩ | ⟨waiting, _⟩
    · exact absurd (same.symm.trans pending) settled
    · exact waiting
  rw [before, ← resolves.isJoinAny_eq] at status
  exact waits_of_settle status.symm

theorem Resolves.reaction_owes (waiting : old.status = .pending)
    (settled : isSettled new.status = true) (mem : other ∈ s'.edges)
      (normal : other.edgeType = .normal)
    (leaves : other.fromStep = new.stepID) : Owed (reactionOf s' old new).verdicts other := by
  have skipped : new.status = .skipped := by
    rcases resolves.status_cases with ⟨_, notPending⟩ | ⟨_, became | became | became⟩
    · exact absurd waiting notPending
    · simp [became, isSettled] at settled
    · simp [became, isSettled] at settled
    · exact became
  have reacts : (reactionOf s' old new).verdicts =
      allSkippedVerdicts (listEdgesFromStep new.stepID s') := by
    simp [reactionOf, waiting, skipped, Reaction.verdicts]
  rw [reacts]
  refine ⟨_, mem_map_of_mem (mem_filter.mpr
    ⟨mem_listEdgesFromStep.mpr ⟨mem, leaves⟩, ?_⟩), rfl⟩
  simp [normal]

theorem Flowing.resolved (flowing : Flowing (Owed (verdict :: owed)) s)
    (unique : UniqueSteps s) (ordinals : (s.edges.map EdgeRow.ordinal).Nodup) :
    Flowing (Owed (owed ++ (reactionOf s' old new).verdicts)) s' := by
  constructor
  · intro other mem normal unresolved row' mem' same settled'
    have before : other ∈ s.edges ∧ other.ordinal ≠ edge.ordinal := by
      rcases resolves.edges.key_ne ordinals mem with rfl | kept
      · cases fired : verdict.fired <;> simp [resolutionOf, fired] at unresolved
      · exact kept
    have owedBefore : ∀ row ∈ s.steps, row.stepID = other.fromStep → isSettled row.status = true →
        Owed (owed ++ (reactionOf s' old new).verdicts) other := by
      intro row inside leaves settled
      obtain ⟨found, isOwed, ordinal⟩ :=
        flowing.paid other before.1 normal unresolved row inside leaves settled
      rcases mem_cons.mp isOwed with rfl | later
      · exact absurd (resolves.normal.2.2.trans ordinal).symm before.2
      · exact ⟨found, mem_append_left _ later, ordinal⟩
    rcases resolves.steps.key_ne unique mem' with rfl | ⟨inside, _⟩
    · rcases resolves.status_cases with ⟨kept, _⟩ | ⟨waiting, _⟩
      · exact owedBefore old resolves.steps.old_mem (resolves.stepID.symm.trans same)
          (kept ▸ settled')
      · obtain ⟨found, isOwed, ordinal⟩ :=
          resolves.reaction_owes waiting settled' mem normal same.symm
        exact ⟨found, mem_append_right _ isOwed, ordinal⟩
    · exact owedBefore row' inside same settled'
  · intro row' mem' pending
    rcases resolves.steps.mem_of_mem mem' with rfl | inside
    · exact resolves.waits pending
    · exact flowing.waits row' inside pending

end Resolved

section Expanded

variable {lint : Dag.PlanLint} {args : ExpandRun} {origin : StepRow} {now : Time}
  (fits : args.Fits lint origin now s) (unique : UniqueSteps s)

include fits unique

theorem Flowing.expanded (flowing : Flowing (fun edge => edge.fromStep = args.originStep) s) :
    Flowing (fun edge => edge.fromStep = args.originStep) (args.apply origin now s) := by
  constructor
  · intro edge mem normal unresolved row' mem' same settled
    rcases mem_expanded mem' with ⟨row, inside, rfl⟩ | new
    · rw [(widenRow_place args now row).1] at settled
      rw [widenRow_stepID] at same
      rcases mem_append.mp mem with known | added
      · exact flowing.paid edge known normal unresolved row inside same settled
      · obtain ⟨_, planned, rfl⟩ := mem_map.mp added
        rcases fits.sources unique (fst_mem_of_mem_zipIdx planned) with fresh | anchored
        · exact absurd fresh (fits.fresh (mem_map.mpr ⟨row, inside, same⟩))
        · obtain ⟨_, isAnchor, named, isOrigin | unsettled⟩ := anchored
          · exact named.symm.trans isOrigin
          · rw [Table.eq_of_key unique isAnchor inside (named.trans same.symm)] at unsettled
            cases status : row.status <;> simp [status, isSettled, anchorStatus] at settled unsettled
    · rcases newSteps_status new with ⟨ready, _⟩ | ⟨pending, _⟩
      · simp [ready, isSettled] at settled
      · simp [pending, isSettled] at settled
  · intro row' mem' pending
    rcases mem_expanded mem' with ⟨row, inside, rfl⟩ | new
    · obtain ⟨status, joins, fired⟩ := widenRow_place args now row
      obtain ⟨missing, unfired⟩ := flowing.waits row inside (status.symm.trans pending)
      refine ⟨?_, fun isJoin => fired.trans (unfired (joins.symm.trans isJoin))⟩
      unfold ExpandRun.widenRow widen
      split
      · change 0 < row.remainingDeps + _
        omega
      · exact missing
    · rcases newSteps_status new with ⟨ready, _⟩ | ⟨_, missing⟩
      · rw [ready] at pending
        cases pending
      · obtain ⟨_, _, rfl⟩ := mem_map.mp new
        exact ⟨missing, fun _ => rfl⟩

end Expanded

def AcyclicRun (s : RunStore) : Prop := Dag.EdgesAcyclic (s.edges.map toDagEdge)

theorem AcyclicRun.of_edges (acyclic : AcyclicRun s)
    (edges : s'.edges.map toDagEdge = s.edges.map toDagEdge) : AcyclicRun s' := by
  unfold AcyclicRun
  rw [edges]
  exact acyclic

theorem AcyclicRun.expanded {lint} {args : ExpandRun} {origin now} (acyclic : AcyclicRun s)
    (fits : args.Fits lint origin now s) (unique : UniqueSteps s) (wired : Wired s)
    (onward : Dag.Onward (s.edges.map toDagEdge) args.plan.edges) :
    AcyclicRun (args.apply origin now s) := by
  have edges : Dag.NormalEdge (args.input origin s).existingEdges =
      Dag.NormalEdge (s.edges.map toDagEdge) := by
    funext a b
    simp only [Dag.NormalEdge, ExpandRun.input, listRunEdges, mem_map, mem_insertionSort]
  have resolved : Dag.Resolved (args.input origin s).existingIDs
      (args.input origin s).existingEdges := by
    have perm := existingIDs_perm args origin s
    refine ⟨perm.nodup_iff.mpr unique, fun edge mem => ?_⟩
    obtain ⟨row, inside, rfl⟩ := mem_map.mp mem
    obtain ⟨fromKnown, toKnown⟩ := wired.ends row ((mem_insertionSort _).mp inside)
    exact ⟨perm.mem_iff.mpr fromKnown, perm.mem_iff.mpr toKnown⟩
  refine (Dag.merged_acyclic resolved (by rwa [Dag.EdgesAcyclic, edges])
    (by rwa [Dag.Onward, edges]) fits.accepted).mono ?_
  rintro a b ⟨_, mem, normal, fromEq, toEq⟩
  obtain ⟨row, inside, rfl⟩ := mem_map.mp mem
  rcases mem_append.mp inside with known | added
  · refine ⟨toDagEdge row, mem_append_left _ (mem_map_of_mem ?_), normal, fromEq, toEq⟩
    exact (mem_insertionSort _).mpr known
  · obtain ⟨placed, planned, rfl⟩ := mem_map.mp added
    exact ⟨placed.1, mem_append_right _ (fst_mem_of_mem_zipIdx planned), normal, fromEq,
      toEq⟩

def Unfailed (s : RunStore) : Prop := ∀ row ∈ s.steps, row.status ≠ .failed

theorem unfailed_invariant (definitionLint : Dag.DefinitionLint) (lint : Dag.PlanLint)
    (may : Permits) : Invariant definitionLint lint may Unfailed where
  founded definition s founded := by
    obtain ⟨_, _, _, _, _, rfl⟩ := founded.planned
    intro row mem
    rcases initialSteps_unsettled row mem with ready | pending
    · simp [ready]
    · simp [pending]
  kept s s' effect unique unfailed := by
    have replaced : ∀ {steps : List StepRow} {old new : StepRow},
        Table.Replaced s.steps steps old new → new.status ≠ .failed →
        ∀ row ∈ steps, row.status ≠ .failed := by
      intro steps old new replaced kept row mem
      rcases replaced.mem_of_mem mem with rfl | inside
      · exact kept
      · exact unfailed row inside
    cases effect with
    | moved move _ steps _ _ _ _ =>
      refine replaced steps fun failed => ?_
      have rests := move.rests
      rw [failed] at rests
      cases rests
    | claimed _ _ steps _ _ _ _ _ _ => exact replaced steps (by simp [claimRow])
    | awaited _ _ _ steps _ _ _ => exact replaced steps (by simp [awaitRow])
    | resolved _ _ _ _ steps =>
      have kept := unfailed _ steps.old_mem
      exact replaced steps kept
    | expanded fits _ _ =>
      intro row' mem
      rcases mem_expanded mem with ⟨row, inside, rfl⟩ | new
      · rw [(widenRow_place _ _ row).1]
        exact unfailed row inside
      · rcases newSteps_unsettled row' new with ready | pending
        · simp [ready]
        · simp [pending]
    | _ => exact unfailed

theorem remaining_pos_iff (wired : Wired s) (mem : row ∈ s.steps) :
    0 < row.remainingDeps ↔ ∃ edge, edge ∈ unresolvedIn s.edges row.stepID := by
  rw [wired.remaining row mem, incoming, countP_pos_iff]
  refine exists_congr fun edge => ?_
  simp [EdgeRow.isInto, mem_unresolvedIn, and_assoc, and_comm, and_left_comm]

theorem AcyclicRun.first (acyclic : AcyclicRun s) (chosen : StepRow → Prop) (mem : row ∈ s.steps)
    (isChosen : chosen row) :
    ∃ first ∈ s.steps, chosen first ∧ ∀ edge ∈ unresolvedIn s.edges first.stepID,
      ∀ source ∈ s.steps, source.stepID = edge.fromStep → ¬chosen source := by
  classical
  let ids := (s.steps.filter fun row => chosen row).map StepRow.stepID
  have mem_ids : ∀ id, id ∈ ids ↔ ∃ row ∈ s.steps, row.stepID = id ∧ chosen row := by
    intro id
    simp [ids, and_assoc, and_left_comm, and_comm]
  obtain ⟨id, isFirst, none⟩ := Acyclic.exists_source acyclic ids
    (ne_nil_of_mem ((mem_ids _).mpr ⟨row, mem, rfl, isChosen⟩))
  obtain ⟨first, inside, rfl, waiting⟩ := (mem_ids id).mp isFirst
  refine ⟨first, inside, waiting, fun edge into source isSource named sourceWaits => ?_⟩
  obtain ⟨isEdge, normal, _, toStep⟩ := mem_unresolvedIn.mp into
  refine none edge.fromStep ((mem_ids _).mpr ⟨source, isSource, named, sourceWaits⟩) ?_
  refine ⟨toDagEdge edge, mem_map_of_mem isEdge, ?_, rfl, toStep⟩
  simp [toDagEdge, Dag.Edge.isLoop, normal]

section Stalled

variable (wired : Wired s) (acyclic : AcyclicRun s) (flowing : Flowing (fun _ => False) s)
  (possible : Possible s.steps s.edges) (stalled : ∀ row ∈ s.steps, isActive row.status = false)

include wired acyclic flowing possible stalled

/-- Where nothing is active and every pending step is possible, nothing is pending: the first
pending step would wait for blocked steps only. -/
theorem nothing_pending_of_stalled : ∀ row ∈ s.steps, row.status ≠ .pending := by
  intro some isSome waiting
  obtain ⟨row, mem, pending, first⟩ := acyclic.first (·.status = .pending) isSome waiting
  have sources : ∀ edge ∈ unresolvedIn s.edges row.stepID, Blocked s.steps edge.fromStep := by
    intro edge into
    obtain ⟨inside, normal, unresolved, _⟩ := mem_unresolvedIn.mp into
    obtain ⟨source, isSource, named⟩ := mem_map.mp (wired.ends edge inside).1
    have notPending := first edge into source isSource named
    have notSettled : isSettled source.status ≠ true :=
      flowing.paid edge inside normal unresolved source isSource named
    have inactive := stalled source isSource
    refine ⟨source, isSource, named, ?_⟩
    cases status : source.status <;> simp_all [isActive, isSettled, isBlocked]
  obtain ⟨missing, unfired⟩ := flowing.waits row mem pending
  obtain ⟨edge, into⟩ := (remaining_pos_iff wired mem).mp missing
  refine possible row mem pending ?_
  by_cases joins : isJoinAny row = true
  · exact (impossible_of_join joins).mpr ⟨unfired joins, ne_nil_of_mem into, sources⟩
  · exact (impossible_of_plain joins).mpr ⟨edge, into, sources edge into⟩

theorem settled_of_stalled (unfailed : Unfailed s) :
    ∀ row ∈ s.steps, isCounted row.status = true := by
  intro row mem
  have notPending := nothing_pending_of_stalled wired acyclic flowing possible stalled row mem
  have notFailed := unfailed row mem
  have inactive := stalled row mem
  cases status : row.status <;> simp_all [isActive, isCounted]

end Stalled

end Agentloom.Engine
