import Agentloom.Dag.ReadyRules

/-! The naive reading of the readiness rules: the skipped steps are the least set that contains the
given ones and is closed under propagation, and a step is judged by its inputs alone. One pass over
the graph computes the same sets. -/

namespace Agentloom.Dag

open List

def Definition.Feeds (definition : Definition) (edge : Edge) (id : String) : Prop :=
  edge ∈ definition.edges ∧ edge.isLoop = false ∧ edge.toStep = id

section Naive

variable (definition : Definition) (completed skipped failed : List String)

inductive NaiveSkipped : String → Prop
  | given {id : String} (listed : id ∈ skipped) : NaiveSkipped id
  | propagated {id : String} (declared : id ∈ definition.stepIDs) (running : id ∉ completed)
      (alive : id ∉ failed) (fed : ∃ edge, definition.Feeds edge id)
      (all : ∀ edge, definition.Feeds edge id → NaiveSkipped edge.fromStep) : NaiveSkipped id

structure NaiveReady (id : String) : Prop where
  running : id ∉ completed
  alive : id ∉ failed
  kept : ¬NaiveSkipped definition completed skipped failed id
  rule : ∃ step ∈ definition.steps, step.id = id ∧
    ((∀ edge, ¬definition.Feeds edge id) ∨
      (∃ edge, definition.Feeds edge id ∧ edge.fromStep ∈ completed) ∧
        (step.type = .join ∧ step.config = .join .any ∨ ∀ edge, definition.Feeds edge id →
          edge.fromStep ∈ completed ∨
            NaiveSkipped definition completed skipped failed edge.fromStep))

/-- The three sets of an input: known steps, each in one set at most. -/
structure InputSets : Prop where
  known : ∀ id ∈ completed ++ skipped ++ failed, id ∈ definition.stepIDs
  distinct : (completed ++ skipped ++ failed).Nodup

end Naive

variable {definition : Definition} {completed skipped failed : List String}

theorem InputSets.apart (sets : InputSets definition completed skipped failed) (id : String) :
    (id ∈ skipped → id ∉ completed ∧ id ∉ failed) ∧ (id ∈ completed → id ∉ failed) := by
  obtain ⟨firstTwo, _, apartThird⟩ := nodup_append.mp sets.distinct
  obtain ⟨_, _, apart⟩ := nodup_append.mp firstTwo
  refine ⟨fun mem => ⟨fun other => apart id other id mem rfl, fun other => ?_⟩,
    fun mem other => ?_⟩
  · exact apartThird id (by simp [mem]) id other rfl
  · exact apartThird id (by simp [mem]) id other rfl

variable {id : String}

theorem NaiveSkipped.unsettled (skips : NaiveSkipped definition completed skipped failed id)
    (sets : InputSets definition completed skipped failed) :
    id ∈ definition.stepIDs ∧ id ∉ completed ∧ id ∉ failed := by
  cases skips with
  | given listed => exact ⟨sets.known id (by simp [listed]), (sets.apart id).1 listed⟩
  | propagated declared running alive fed all => exact ⟨declared, running, alive⟩

theorem InputSets.feed
    (sets : InputSets definition completed skipped failed) (distinct : newly.Nodup)
    (members : ∀ id, id ∈ newly ↔ NaiveSkipped definition completed skipped failed id ∧ id ∉ skipped) :
    InputSets definition completed (skipped ++ newly) failed := by
  have declared : ∀ id ∈ newly, id ∈ definition.stepIDs ∧ id ∉ completed ∧ id ∉ failed :=
    fun id mem => ((members id).mp mem).1.unsettled sets
  obtain ⟨firstTwo, third, apartThird⟩ := nodup_append.mp sets.distinct
  obtain ⟨first, second, apart⟩ := nodup_append.mp firstTwo
  refine ⟨fun id mem => ?_, ?_⟩
  · simp only [mem_append] at mem
    rcases mem with (inCompleted | inSkipped | inNewly) | inFailed
    · exact sets.known id (by simp [inCompleted])
    · exact sets.known id (by simp [inSkipped])
    · exact (declared id inNewly).1
    · exact sets.known id (by simp [inFailed])
  · have middle : (skipped ++ newly).Nodup :=
      nodup_append.mpr ⟨second, distinct, fun a inSkipped b inNewly same =>
        ((members b).mp inNewly).2 (same ▸ inSkipped)⟩
    refine nodup_append.mpr ⟨nodup_append.mpr ⟨first, middle, ?_⟩, third, ?_⟩
    · rintro a inCompleted b mem rfl
      rcases mem_append.mp mem with inSkipped | inNewly
      · exact apart a inCompleted a inSkipped rfl
      · exact (declared a inNewly).2.1 inCompleted
    · rintro a mem b inFailed rfl
      rcases mem_append.mp mem with inCompleted | inside
      · exact apartThird a (by simp [inCompleted]) a inFailed rfl
      · rcases mem_append.mp inside with inSkipped | inNewly
        · exact apartThird a (by simp [inSkipped]) a inFailed rfl
        · exact (declared a inNewly).2.2 inFailed

variable {edge : Edge} {position : Nat}

namespace Graph

variable {graph : Graph} {completed skipped failed : List String}

def givenStates (graph : Graph) (completed skipped failed : List String) : States :=
  fun position =>
    if position ∈ failed.map graph.index then .failed
    else if position ∈ skipped.map graph.index then .skipped
    else if position ∈ completed.map graph.index then .completed else .pending

theorem mem_map_index (ids : List String) (known : ∀ id ∈ ids, id ∈ graph.definition.stepIDs)
    (declared : id ∈ graph.definition.stepIDs) :
    graph.index id ∈ ids.map graph.index ↔ id ∈ ids := by
  constructor
  · intro listed
    obtain ⟨other, mem, same⟩ := mem_map.mp listed
    rwa [← index_inj (known other mem) declared same]
  · exact fun mem => mem_map_of_mem mem

theorem inputStates_sets (sets : InputSets graph.definition completed skipped failed) :
    graph.inputStates completed skipped failed =
      .ok (graph.givenStates completed skipped failed) := by
  obtain ⟨known, distinct⟩ := sets
  obtain ⟨firstTwo, third, apartThird⟩ := nodup_append.mp distinct
  obtain ⟨first, second, apart⟩ := nodup_append.mp firstTwo
  have knownFirst : ∀ id ∈ completed, id ∈ graph.definition.stepIDs := fun id mem =>
    known id (by simp [mem])
  have knownSecond : ∀ id ∈ skipped, id ∈ graph.definition.stepIDs := fun id mem =>
    known id (by simp [mem])
  have knownThird : ∀ id ∈ failed, id ∈ graph.definition.stepIDs := fun id mem =>
    known id (by simp [mem])
  dsimp only [inputStates]
  rw [foldl_assign knownFirst first fun _ _ => rfl, foldl_assign knownSecond second,
    foldl_assign knownThird third]
  · simp only [and_self, ↓reduceIte]
    rfl
  · intro id mem
    have declared := knownThird id mem
    have outSecond : id ∉ skipped := fun inside => apartThird id (by simp [inside]) id mem rfl
    have outFirst : id ∉ completed := fun inside => apartThird id (by simp [inside]) id mem rfl
    simp only [mem_map_index skipped knownSecond declared, mem_map_index completed knownFirst declared,
      outSecond,
      outFirst, if_false]
  · intro id mem
    have outFirst : id ∉ completed := fun inside => apart id inside id mem rfl
    simp only [mem_map_index completed knownFirst (knownSecond id mem), outFirst, if_false]

section Fixed

variable (sets : InputSets graph.definition completed skipped failed)

include sets

theorem givenStates_index (declared : id ∈ graph.definition.stepIDs) :
    graph.givenStates completed skipped failed (graph.index id) =
      if id ∈ failed then .failed else if id ∈ skipped then .skipped
      else if id ∈ completed then .completed else .pending := by
  have known := sets.known
  have inFailed := mem_map_index failed (fun id mem => known id (by simp [mem]))
    declared
  have inSkipped := mem_map_index skipped (fun id mem => known id (by simp [mem]))
    declared
  have inCompleted := mem_map_index completed
    (fun id mem => known id (by simp [mem])) declared
  simp only [givenStates, inFailed, inSkipped, inCompleted]

theorem given_pending_iff (declared : id ∈ graph.definition.stepIDs) :
    graph.givenStates completed skipped failed (graph.index id) = .pending ↔
      id ∉ completed ∧ id ∉ skipped ∧ id ∉ failed := by
  rw [givenStates_index sets declared]
  by_cases inFailed : id ∈ failed <;> by_cases inSkipped : id ∈ skipped <;>
    by_cases inCompleted : id ∈ completed <;> simp [inFailed, inSkipped, inCompleted]

end Fixed

section States

open Classical in
noncomputable def naiveStates (graph : Graph) (completed skipped failed : List String) : States :=
  fun position =>
    if graph.givenStates completed skipped failed position = .pending ∧
        NaiveSkipped graph.definition completed skipped failed (graph.stepID position) then .skipped
    else graph.givenStates completed skipped failed position

variable (sets : InputSets graph.definition completed skipped failed)

include sets

theorem naiveStates_eq_iff (declared : id ∈ graph.definition.stepIDs) :
    (graph.naiveStates completed skipped failed (graph.index id) = .failed ↔ id ∈ failed) ∧
    (graph.naiveStates completed skipped failed (graph.index id) = .completed ↔ id ∈ completed) ∧
    (graph.naiveStates completed skipped failed (graph.index id) = .skipped ↔
      NaiveSkipped graph.definition completed skipped failed id) := by
  have apart := sets.apart id
  have unsettled : NaiveSkipped graph.definition completed skipped failed id →
      id ∉ completed ∧ id ∉ failed := fun skips => (skips.unsettled sets).2
  have listed : id ∈ skipped → NaiveSkipped graph.definition completed skipped failed id := .given
  classical
  simp only [naiveStates, stepID_index declared, givenStates_index sets declared]
  by_cases inFailed : id ∈ failed
  · have running : id ∉ completed := fun inside => apart.2 inside inFailed
    have kept : ¬NaiveSkipped graph.definition completed skipped failed id :=
      fun skips => (unsettled skips).2 inFailed
    simp [inFailed, running, kept]
  by_cases inSkipped : id ∈ skipped
  · simp [inFailed, inSkipped, (apart.1 inSkipped).1, listed inSkipped]
  by_cases inCompleted : id ∈ completed
  · have kept : ¬NaiveSkipped graph.definition completed skipped failed id :=
      fun skips => (unsettled skips).1 inCompleted
    simp [inFailed, inSkipped, inCompleted, kept]
  by_cases skips : NaiveSkipped graph.definition completed skipped failed id <;>
    simp [inFailed, inSkipped, inCompleted, skips]

end States

theorem feeds_iff (declared : id ∈ graph.definition.stepIDs) : graph.definition.Feeds edge id ↔
      ∃ position ∈ graph.inNormal (graph.index id), graph.definition.edges[position]? = some edge := by
  constructor
  · rintro ⟨member, normal, rfl⟩
    obtain ⟨position, found⟩ := mem_iff_getElem?.mp member
    exact ⟨position, mem_inNormal.mpr ⟨edge, found, normal, rfl⟩, found⟩
  · rintro ⟨_, into, found⟩
    obtain ⟨_, isOther, normal, same⟩ := mem_inNormal.mp into
    cases found.symm.trans isOther
    have member := mem_of_getElem? found
    exact ⟨member, normal, index_inj (graph.resolved edge member).2 declared same⟩

theorem forall_feeds (declared : id ∈ graph.definition.stepIDs) {P : Nat → Prop} {Q : Edge → Prop}
    (same : ∀ position edge, graph.definition.edges[position]? = some edge → (P position ↔ Q edge)) :
    (∀ position ∈ graph.inNormal (graph.index id), P position) ↔
      ∀ edge, graph.definition.Feeds edge id → Q edge := by
  constructor
  · intro all edge feeds
    obtain ⟨position, into, found⟩ := (feeds_iff declared).mp feeds
    exact (same position edge found).mp (all position into)
  · intro all position into
    obtain ⟨edge, found, _⟩ := mem_inNormal.mp into
    exact (same position edge found).mpr
      (all edge ((feeds_iff declared).mpr ⟨position, into, found⟩))

theorem exists_feeds (declared : id ∈ graph.definition.stepIDs) {P : Nat → Prop} {Q : Edge → Prop}
    (same : ∀ position edge, graph.definition.edges[position]? = some edge → (P position ↔ Q edge)) :
    (∃ position ∈ graph.inNormal (graph.index id), P position) ↔
      ∃ edge, graph.definition.Feeds edge id ∧ Q edge := by
  have none := forall_feeds declared fun position edge found => not_congr (same position edge found)
  simpa using not_congr none

theorem exists_index (bound : position < graph.size) :
    ∃ id ∈ graph.definition.stepIDs, graph.index id = position := by
  have found := getElem?_eq_getElem bound
  exact ⟨_, mem_map_of_mem (mem_of_getElem? found), index_of_get found⟩

section Inputs

variable (sets : InputSets graph.definition completed skipped failed)

include sets

theorem resolve_naive (found : graph.definition.edges[position]? = some edge) :
    let states := graph.naiveStates completed skipped failed
    (graph.resolve (fun _ => true) states position = .fired ↔ edge.fromStep ∈ completed) ∧
    (graph.resolve (fun _ => true) states position = .skipped ↔
      NaiveSkipped graph.definition completed skipped failed edge.fromStep) := by
  have source := (graph.resolved edge (mem_of_getElem? found)).1
  obtain ⟨_, isCompleted, isSkipped⟩ := naiveStates_eq_iff sets source
  rw [← isCompleted, ← isSkipped]
  simp only [resolve, fromIdx_of_get found]
  cases graph.naiveStates completed skipped failed (graph.index edge.fromStep) <;> simp

theorem resolved_naive (found : graph.definition.edges[position]? = some edge) :
    graph.resolve (fun _ => true) (graph.naiveStates completed skipped failed) position ≠
        .unresolved ↔ edge.fromStep ∈ completed ∨
        NaiveSkipped graph.definition completed skipped failed edge.fromStep := by
  obtain ⟨fired, skips⟩ := resolve_naive sets found
  rw [← fired, ← skips]
  cases graph.resolve (fun _ => true) (graph.naiveStates completed skipped failed) position <;> simp

theorem allSkipped_naive (declared : id ∈ graph.definition.stepIDs) :
    graph.AllSkipped (fun _ => true) (graph.naiveStates completed skipped failed) (graph.index id) ↔
      (∃ edge, graph.definition.Feeds edge id) ∧ ∀ edge, graph.definition.Feeds edge id →
        NaiveSkipped graph.definition completed skipped failed edge.fromStep := by
  have fed : graph.inNormal (graph.index id) ≠ [] ↔ ∃ edge, graph.definition.Feeds edge id := by
    have some := exists_feeds declared (P := fun _ => True) (Q := fun _ => True) (by simp)
    rw [Ne, eq_nil_iff_forall_not_mem]
    simpa using some
  rw [AllSkipped, fed]
  exact and_congr_right fun _ =>
    forall_feeds declared fun position edge found => (resolve_naive sets found).2

theorem naiveSkipped_iff (declared : id ∈ graph.definition.stepIDs) :
    NaiveSkipped graph.definition completed skipped failed id ↔
      id ∈ skipped ∨ graph.givenStates completed skipped failed (graph.index id) = .pending ∧
        graph.AllSkipped (fun _ => true) (graph.naiveStates completed skipped failed)
          (graph.index id) := by
  rw [allSkipped_naive sets declared, given_pending_iff sets declared]
  constructor
  · intro skips
    by_cases listed : id ∈ skipped
    · exact .inl listed
    · cases skips with
      | given inside => exact .inl inside
      | propagated _ running alive fed all => exact .inr ⟨⟨running, listed, alive⟩, fed, all⟩
  · rintro (listed | ⟨⟨running, _, alive⟩, fed, all⟩)
    · exact .given listed
    · exact .propagated declared running alive fed all

theorem naiveStates_fixedPoint :
    graph.FixedPoint (fun _ => true) (graph.givenStates completed skipped failed)
      (graph.naiveStates completed skipped failed) := by
  intro position bound
  obtain ⟨id, declared, rfl⟩ := exists_index bound
  have closed := naiveSkipped_iff sets declared
  rw [outcome]
  by_cases propagates : graph.givenStates completed skipped failed (graph.index id) = .pending ∧
      graph.AllSkipped (fun _ => true) (graph.naiveStates completed skipped failed)
        (graph.index id)
  · rw [if_pos propagates, (naiveStates_eq_iff sets declared).2.2]
    exact closed.mpr (.inr propagates)
  · rw [if_neg propagates, naiveStates, if_neg]
    rintro ⟨pending, skips⟩
    rw [stepID_index declared] at skips
    rcases closed.mp skips with listed | propagated
    · exact ((given_pending_iff sets declared).mp pending).2.1 listed
    · exact propagates propagated

theorem naiveStates_pending_iff (declared : id ∈ graph.definition.stepIDs) :
    graph.naiveStates completed skipped failed (graph.index id) = .pending ↔
      id ∉ completed ∧ id ∉ failed ∧
        ¬NaiveSkipped graph.definition completed skipped failed id := by
  obtain ⟨isFailed, isCompleted, isSkipped⟩ := naiveStates_eq_iff sets declared
  rw [← isFailed, ← isCompleted, ← isSkipped]
  cases graph.naiveStates completed skipped failed (graph.index id) <;> simp

theorem readyNow_naive {step : Step} (found : graph.definition.steps[position]? = some step) :
    graph.readyNow (fun _ => true) (graph.naiveStates completed skipped failed) position step =
        true ↔ NaiveReady graph.definition completed skipped failed step.id := by
  have inside := mem_of_getElem? found
  have declared : step.id ∈ graph.definition.stepIDs := mem_map_of_mem inside
  have same := index_of_get found
  rw [readyNow_iff, ← same, naiveStates_pending_iff sets declared]
  have entry : graph.inNormal (graph.index step.id) = [] ↔
      ∀ edge, ¬graph.definition.Feeds edge step.id := by
    rw [eq_nil_iff_forall_not_mem]
    simpa using forall_feeds declared (P := fun _ => False) (Q := fun _ => False) (by simp)
  have fired := exists_feeds declared fun position edge found => (resolve_naive sets found).1
  have resolved := forall_feeds declared fun position edge found =>
    resolved_naive sets found
  have joins : joinMode step = some .any ↔ step.type = .join ∧ step.config = .join .any := by
    unfold joinMode
    split
    · simp [*]
    · split <;> simp_all
  rw [entry, fired, resolved, joins]
  constructor
  · rintro ⟨⟨running, alive, kept⟩, rule⟩
    exact ⟨running, alive, kept, step, inside, rfl, rule⟩
  · rintro ⟨running, alive, kept, _, mem, named, rule⟩
    obtain rfl := inj_on_of_nodup_map graph.unique mem inside named
    exact ⟨⟨running, alive, kept⟩, rule⟩

omit sets in
theorem mem_selected : id ∈ (graph.definition.steps.zipIdx.filter p).map (fun entry => entry.1.id) ↔
      ∃ position step, graph.definition.steps[position]? = some step ∧ step.id = id ∧
        p (step, position) = true := by
  simp only [mem_map, mem_filter, Prod.exists, mem_zipIdx_iff_getElem?]
  constructor
  · rintro ⟨step, position, ⟨found, chosen⟩, named⟩
    exact ⟨position, step, found, named, chosen⟩
  · rintro ⟨position, step, found, named, chosen⟩
    exact ⟨step, position, ⟨found, chosen⟩, named⟩

omit sets in
theorem selected_sublist (p : Step × Nat → Bool) :
    ((graph.definition.steps.zipIdx.filter p).map fun entry => entry.1.id).Sublist
      graph.definition.stepIDs := by
  have all : graph.definition.steps.zipIdx.map (fun entry => entry.1.id) =
      graph.definition.stepIDs := by
    rw [Definition.stepIDs, ← zipIdx_map_fst 0 graph.definition.steps, map_map]
    simp [Function.comp_def]
  rw [← all]
  exact filter_sublist.map _

theorem mem_newly (id : String) : id ∈ (graph.definition.steps.zipIdx.filter fun entry =>
        graph.givenStates completed skipped failed entry.2 == .pending &&
          graph.naiveStates completed skipped failed entry.2 == .skipped).map
            (fun entry => entry.1.id) ↔
      NaiveSkipped graph.definition completed skipped failed id ∧ id ∉ skipped := by
  rw [mem_selected]
  constructor
  · rintro ⟨position, step, found, rfl, chosen⟩
    have declared : step.id ∈ graph.definition.stepIDs :=
      mem_map_of_mem (mem_of_getElem? found)
    simp only [Bool.and_eq_true, beq_iff_eq, ← index_of_get found] at chosen
    exact ⟨(naiveStates_eq_iff sets declared).2.2.mp chosen.2,
      ((given_pending_iff sets declared).mp chosen.1).2.1⟩
  · rintro ⟨skips, unlisted⟩
    obtain ⟨declared, running, alive⟩ := skips.unsettled sets
    obtain ⟨step, mem, rfl⟩ := mem_map.mp declared
    obtain ⟨position, found⟩ := mem_iff_getElem?.mp mem
    refine ⟨position, step, found, rfl, ?_⟩
    simp only [Bool.and_eq_true, beq_iff_eq, ← index_of_get found]
    exact ⟨(given_pending_iff sets declared).mpr ⟨running, unlisted, alive⟩,
      (naiveStates_eq_iff sets declared).2.2.mpr skips⟩

theorem mem_ready : id ∈ (graph.definition.steps.zipIdx.filter fun entry =>
        graph.readyNow (fun _ => true) (graph.naiveStates completed skipped failed) entry.2
          entry.1).map (fun entry => entry.1.id) ↔
      NaiveReady graph.definition completed skipped failed id := by
  rw [mem_selected]
  constructor
  · rintro ⟨position, step, found, rfl, chosen⟩
    exact (readyNow_naive sets found).mp chosen
  · intro ready
    obtain ⟨step, mem, rfl, _⟩ := ready.rule
    obtain ⟨position, found⟩ := mem_iff_getElem?.mp mem
    exact ⟨position, step, found, rfl, (readyNow_naive sets found).mpr ready⟩

theorem readySteps_feed (acyclic : EdgesAcyclic graph.definition.edges)
    (distinct : newly.Nodup) (members : ∀ id, id ∈ newly ↔
      NaiveSkipped graph.definition completed skipped failed id ∧ id ∉ skipped) :
    graph.readySteps completed (skipped ++ newly) failed = .ok
      ((graph.definition.steps.zipIdx.filter fun entry =>
          graph.readyNow (fun _ => true) (graph.naiveStates completed skipped failed) entry.2
            entry.1).map fun entry => entry.1.id, []) := by
  have fed := sets.feed distinct members
  have listed : ∀ id, id ∈ skipped ++ newly ↔
      NaiveSkipped graph.definition completed skipped failed id := by
    intro id
    rw [mem_append, members]
    by_cases given : id ∈ skipped
    · simp [given, NaiveSkipped.given given]
    · simp [given]
  have settled : ∀ position < graph.size,
      graph.givenStates completed (skipped ++ newly) failed position =
        graph.naiveStates completed skipped failed position := by
    intro position bound
    obtain ⟨id, declared, rfl⟩ := exists_index bound
    obtain ⟨isFailed, isCompleted, isSkipped⟩ := naiveStates_eq_iff sets declared
    rw [givenStates_index fed declared]
    by_cases inFailed : id ∈ failed
    · rw [if_pos inFailed, isFailed.mpr inFailed]
    by_cases skips : id ∈ skipped ++ newly
    · rw [if_neg inFailed, if_pos skips, isSkipped.mpr ((listed id).mp skips)]
    by_cases inCompleted : id ∈ completed
    · rw [if_neg inFailed, if_neg skips, if_pos inCompleted, isCompleted.mpr inCompleted]
    · rw [if_neg inFailed, if_neg skips, if_neg inCompleted]
      exact ((naiveStates_pending_iff sets declared).mpr
        ⟨inCompleted, inFailed, fun naive => skips ((listed id).mpr naive)⟩).symm
  have fixed : graph.FixedPoint (fun _ => true)
      (graph.givenStates completed (skipped ++ newly) failed)
      (graph.naiveStates completed skipped failed) := by
    intro position bound
    have before := naiveStates_fixedPoint sets position bound
    rw [outcome, settled position bound, if_neg]
    rintro ⟨pending, all⟩
    rw [outcome, pending] at before
    split at before
    · cases before
    · rename_i unskipped
      exact unskipped ⟨before.symm, all⟩
  rw [readySteps, readyStepsWith_eq acyclic (inputStates_sets fed) fixed]
  have none : (graph.definition.steps.zipIdx.filter fun entry =>
      graph.givenStates completed (skipped ++ newly) failed entry.2 == .pending &&
        graph.naiveStates completed skipped failed entry.2 == .skipped) = [] := by
    rw [filter_eq_nil_iff]
    rintro ⟨_, position⟩ mem chosen
    have bound : position < graph.size := by simpa [size] using (mem_zipIdx mem).2.1
    simp only [settled position bound, Bool.and_eq_true, beq_iff_eq] at chosen
    exact absurd (chosen.1.symm.trans chosen.2) (by decide)
  rw [none, map_nil]

theorem exists_naiveReady (acyclic : EdgesAcyclic graph.definition.edges)
    (unfailed : failed = []) (declared : id ∈ graph.definition.stepIDs) (running : id ∉ completed)
    (kept : ¬NaiveSkipped graph.definition completed skipped failed id) :
    ∃ ready, NaiveReady graph.definition completed skipped failed ready := by
  let states := graph.naiveStates completed skipped failed
  let open_ := (range graph.size).filter fun position => states position = .pending
  have alive : ∀ id, id ∉ failed := by simp [unfailed]
  have nonempty : open_ ≠ [] := by
    refine ne_nil_of_mem (mem_filter.mpr ⟨mem_range.mpr (index_lt declared), ?_⟩)
    simpa using (naiveStates_pending_iff sets declared).mpr ⟨running, alive id, kept⟩
  obtain ⟨position, mem, first⟩ := (edgesAcyclic_iff.mp acyclic).exists_source open_ nonempty
  obtain ⟨bound, pending⟩ := mem_filter.mp mem
  obtain ⟨_, isStep, rfl⟩ := exists_index (mem_range.mp bound)
  obtain ⟨step, inside, rfl⟩ := mem_map.mp isStep
  obtain ⟨stillRunning, _, stillKept⟩ :=
    (naiveStates_pending_iff sets isStep).mp (by simpa using pending)
  have resolved : ∀ edge, graph.definition.Feeds edge step.id → edge.fromStep ∈ completed ∨
      NaiveSkipped graph.definition completed skipped failed edge.fromStep := by
    intro edge feeds
    by_contra unresolved
    obtain ⟨position, into, found⟩ := (feeds_iff isStep).mp feeds
    obtain ⟨leaves, target, sourceBound⟩ := inNormal_source into
    refine first (graph.fromIdx position)
      (mem_filter.mpr ⟨mem_range.mpr sourceBound, ?_⟩) ⟨position, leaves, target⟩
    have known := (graph.resolved edge feeds.1).1
    rw [fromIdx_of_get found]
    simpa using (naiveStates_pending_iff sets known).mpr
      ⟨fun inside => unresolved (.inl inside), alive _, fun skips => unresolved (.inr skips)⟩
  refine ⟨step.id, stillRunning, alive _, stillKept, step, inside, rfl, ?_⟩
  by_cases fed : ∃ edge, graph.definition.Feeds edge step.id
  · right
    refine ⟨?_, .inr resolved⟩
    by_contra unfired
    refine stillKept (.propagated isStep stillRunning (alive _) fed fun edge feeds => ?_)
    exact (resolved edge feeds).resolve_left fun inside => unfired ⟨edge, feeds, inside⟩
  · exact .inl fun edge feeds => fed ⟨edge, feeds⟩

/-- The reference rules compute the naive sets, are stable under their own skips, and leave nothing
open when nothing failed and nothing is ready. -/
theorem readySteps_naive (acyclic : EdgesAcyclic graph.definition.edges) :
    ∃ ready newly, graph.readySteps completed skipped failed = .ok (ready, newly) ∧
      (∀ id, id ∈ ready ↔ NaiveReady graph.definition completed skipped failed id) ∧
      (∀ id, id ∈ newly ↔
        NaiveSkipped graph.definition completed skipped failed id ∧ id ∉ skipped) ∧
      graph.readySteps completed (skipped ++ newly) failed = .ok (ready, []) ∧
      (failed = [] → ready = [] → ∀ id ∈ graph.definition.stepIDs,
        id ∈ completed ∨ id ∈ skipped ∨ id ∈ newly) := by
  have members := mem_newly sets
  have computed : graph.readySteps completed skipped failed = .ok _ :=
    readyStepsWith_eq acyclic (inputStates_sets sets) (naiveStates_fixedPoint sets)
  refine ⟨_, _, computed, fun id => mem_ready sets, members,
    readySteps_feed sets acyclic (graph.unique.sublist (selected_sublist _)) members, ?_⟩
  intro unfailed idle id declared
  by_contra open_
  push Not at open_
  obtain ⟨running, unskipped, unlisted⟩ := open_
  have kept : ¬NaiveSkipped graph.definition completed skipped failed id := fun skips =>
    unlisted ((members id).mpr ⟨skips, unskipped⟩)
  obtain ⟨_, isReady⟩ := exists_naiveReady sets acyclic unfailed declared running kept
  have listed := (mem_ready sets).mpr isReady
  simp [idle] at listed

end Inputs

/-- Two branches that both an any-join and an all-join bring together. -/
def diamond : Graph where
  definition :=
    { name := "diamond"
      steps := [⟨"a", .noop, .absent⟩, ⟨"b", .noop, .absent⟩, ⟨"c", .noop, .absent⟩,
        ⟨"d", .join, .join .any⟩, ⟨"e", .join, .join .all⟩]
      edges := [{ fromStep := "a", toStep := "b" }, { fromStep := "a", toStep := "c" },
        { fromStep := "b", toStep := "d" }, { fromStep := "c", toStep := "d" },
        { fromStep := "b", toStep := "e" }, { fromStep := "c", toStep := "e" }] }
  unique := by decide
  resolved := by decide

/-- While one branch is open, the any-join is ready and the all-join is not. -/
theorem readySteps_naive_diamond :
    EdgesAcyclic diamond.definition.edges ∧ InputSets diamond.definition ["a", "b"] [] [] ∧
      diamond.readySteps ["a", "b"] [] [] = .ok (["c", "d"], []) ∧
        ∀ id, NaiveReady diamond.definition ["a", "b"] [] [] id ↔ id = "c" ∨ id = "d" := by
  have acyclic : EdgesAcyclic diamond.definition.edges :=
    diamond.findCycles_nil_iff.mp (by decide +kernel)
  have sets : InputSets diamond.definition ["a", "b"] [] [] := ⟨by decide, by decide⟩
  obtain ⟨ready, newly, answer, isReady, _⟩ := readySteps_naive sets acyclic
  have computed : diamond.readySteps ["a", "b"] [] [] = .ok (["c", "d"], []) := by decide +kernel
  rw [computed] at answer
  cases answer
  refine ⟨acyclic, sets, computed, fun id => ?_⟩
  rw [← isReady]
  simp

end Graph

end Agentloom.Dag
