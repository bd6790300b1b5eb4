import Agentloom.Store.Runs

/-! The fan-out of a settled step. Its out-edges are resolved one by one; a target whose counters
are satisfied becomes ready, a target whose edges all resolved without firing is skipped, and the
out-edges of a skipped step join the worklist. -/

namespace Agentloom.Engine

open Transaction Store List Tx

variable {now : Time}

structure EdgeVerdict where
  ordinal : Nat
  fired : Bool
deriving DecidableEq, Repr

/-- The predicates over a decoded step output: the decoding may fail, and so may an evaluation. -/
abbrev Evaluator := Except String (EdgeRow → Except String Bool)

def edgeFires (isBranch isMatched : Bool) (evaluate : EdgeRow → Except String Bool)
    (edge : EdgeRow) : Except String Bool :=
  if edge.whenExpr = "" then .ok (!isBranch || !isMatched)
  else if isBranch && isMatched then .ok false
  else evaluate edge

def planVerdicts (isBranch : Bool) (evaluate : EdgeRow → Except String Bool) :
    Bool → List EdgeRow → Except String (List EdgeVerdict)
  | _, [] => .ok []
  | isMatched, edge :: rest =>
    if edge.edgeType ≠ .normal then planVerdicts isBranch evaluate isMatched rest
    else do
      let fired ← edgeFires isBranch isMatched evaluate edge
      let verdicts ← planVerdicts isBranch evaluate (isMatched || (fired && isBranch)) rest
      .ok ({ ordinal := edge.ordinal, fired } :: verdicts)

def planEdges (stepType : Dag.StepType) (evaluator : Evaluator) (edges : List EdgeRow) :
    Except String (List EdgeVerdict) := do
  let evaluate ← evaluator
  planVerdicts (stepType == .branch) evaluate false edges

def allSkippedVerdicts (edges : List EdgeRow) : List EdgeVerdict :=
  (edges.filter fun edge => edge.edgeType == .normal).map fun edge =>
    { ordinal := edge.ordinal, fired := false }

def isJoinAny (row : StepRow) : Bool := row.stepType == .join && row.config == .join .any

def listEdgesFromStep (stepID : String) (s : RunStore) : List EdgeRow :=
  (listRunEdges s).filter fun edge => edge.fromStep == stepID

structure TerminalSource where
  stepID : String
  verdicts : List EdgeVerdict
deriving DecidableEq, Repr

inductive Reaction where
  | nothing
  | readied (stepID : String)
  | skipped (source : TerminalSource)
deriving DecidableEq, Repr

def react (target : StepRow) (now : Time) : StoreTx Reaction :=
  -- A join that already became ready on an earlier edge absorbs the late one.
  if target.status ≠ .pending then pure .nothing
  else if target.firedDeps ≥ 1 ∧ (target.remainingDeps = 0 ∨ isJoinAny target = true) then do
    let _ ← readyStep target.stepID (isJoinAny target) now
    pure (.readied target.stepID)
  else if target.remainingDeps = 0 ∧ target.firedDeps = 0 then do
    let _ ← skipStep target.stepID now
    let edges ← Tx.read (listEdgesFromStep target.stepID)
    pure (.skipped { stepID := target.stepID, verdicts := allSkippedVerdicts edges })
  else pure .nothing

def resolveVerdict (verdict : EdgeVerdict) (now : Time) : StoreTx Reaction := do
  let result ← resolveEdge verdict.ordinal verdict.fired now
  match result.resolved, result.toStep with
  | true, some target => react target now
  | _, _ => pure .nothing

structure FanOut where
  readied : List String := []
  skipped : List String := []
  work : List TerminalSource := []
deriving DecidableEq, Repr

def FanOut.absorb (fan : FanOut) : Reaction → FanOut
  | .nothing => fan
  | .readied stepID => { fan with readied := fan.readied ++ [stepID] }
  | .skipped source =>
    { fan with skipped := fan.skipped ++ [source.stepID], work := fan.work ++ [source] }

def resolveVerdicts (now : Time) : List EdgeVerdict → FanOut → StoreTx FanOut
  | [], fan => pure fan
  | verdict :: rest, fan => do
      let reaction ← resolveVerdict verdict now
      resolveVerdicts now rest (fan.absorb reaction)

/-- The worklist under a budget of sources; `fanOut_rule` shows that the budget is never spent. -/
def fanOutFrom (now : Time) (budget : Nat) (fan : FanOut) : StoreTx FanOut :=
  match budget, fan.work with
  | _, [] => pure fan
  | 0, _ => Tx.throw (.engine "fan out" "worklist budget exhausted")
  | budget + 1, source :: rest => do
      let fan ← resolveVerdicts now source.verdicts { fan with work := rest }
      fanOutFrom now budget fan

def fanOut (seed : TerminalSource) (now : Time) : StoreTx FanOut := do
  let budget ← Tx.read fun s => s.steps.length + 1
  fanOutFrom now budget { work := [seed] }

def settle (joinAny : Bool) (remaining fired : Nat) : StepStatus → StepStatus
  | .pending =>
    if fired ≥ 1 ∧ (remaining = 0 ∨ joinAny = true) then .ready
    else if remaining = 0 ∧ fired = 0 then .skipped
    else .pending
  | status => status

structure Counts (verdict : EdgeVerdict) (s s' : RunStore) (edge : EdgeRow) (old new : StepRow) :
    Prop where
  unresolved : resolvable verdict.ordinal edge = true
  edges : Table.Replaced s.edges s'.edges edge
    { edge with resolution := resolutionOf verdict.fired }
  into : old.stepID = edge.toStep
  owed : 0 < old.remainingDeps
  steps : Table.Replaced s.steps s'.steps old new
  stepID : new.stepID = old.stepID
  stepType : new.stepType = old.stepType
  config : new.config = old.config
  attemptCount : new.attemptCount = old.attemptCount
  remaining : new.remainingDeps = old.remainingDeps - 1
  fired : new.firedDeps = old.firedDeps + if verdict.fired then 1 else 0
  output : new.output = old.output
  onFailure : s'.run.onFailure = s.run.onFailure
  runStatus : s'.run.status = s.run.status

structure Resolves (verdict : EdgeVerdict) (s s' : RunStore) (edge : EdgeRow) (old new : StepRow) :
    Prop extends Counts verdict s s' edge old new where
  status : new.status = settle (isJoinAny old) new.remainingDeps new.firedDeps old.status

def Reaction.verdicts : Reaction → List EdgeVerdict
  | .skipped source => source.verdicts
  | _ => []

def reactionOf (s' : RunStore) (old new : StepRow) : Reaction :=
  if old.status ≠ .pending then .nothing
  else match new.status with
    | .ready => .readied new.stepID
    | .skipped => .skipped
        { stepID := new.stepID
          verdicts := allSkippedVerdicts (listEdgesFromStep new.stepID s') }
    | _ => .nothing

theorem mem_listEdgesFromStep :
    edge ∈ listEdgesFromStep stepID s ↔ edge ∈ s.edges ∧ edge.fromStep = stepID := by
  simp [listEdgesFromStep, listRunEdges]

theorem settle_of_ne (settled : status ≠ .pending) : settle joinAny remaining fired status = status := by
  cases status <;> first | rfl | exact absurd rfl settled

variable {verdict : EdgeVerdict} {s s' : RunStore} {edge : EdgeRow} {old new : StepRow}

theorem Resolves.mem_reaction (resolves : Resolves verdict s s' edge old new)
    (mem : other ∈ (reactionOf s' old new).verdicts) :
    old.status = .pending ∧ new.status = .skipped ∧ other.fired = false ∧ ∃ edge' ∈ s'.edges,
      edge'.edgeType = .normal ∧ edge'.fromStep = old.stepID ∧ other.ordinal = edge'.ordinal := by
  unfold reactionOf at mem
  split_ifs at mem with moved
  · cases mem
  cases status : new.status <;> rw [status] at mem <;> first | cases mem | skip
  obtain ⟨edge', listed, rfl⟩ := List.mem_map.mp (show other ∈ allSkippedVerdicts _ from mem)
  obtain ⟨inside, normal⟩ := List.mem_filter.mp listed
  obtain ⟨isEdge, leaves⟩ := mem_listEdgesFromStep.mp inside
  exact ⟨Decidable.not_not.mp moved, rfl, rfl, edge', isEdge, eq_of_beq normal,
    leaves.trans resolves.stepID, rfl⟩

theorem Counts.uniqueSteps (counts : Counts verdict s s' edge old new) (unique : UniqueSteps s) :
    UniqueSteps s' := by
  unfold UniqueSteps
  rw [counts.steps.map_eq StepRow.stepID counts.stepID]
  exact unique

theorem Counts.moved {s₁ mid} {t : StepTransition}
    (counts : Counts verdict s s₁ edge old mid) (unique : UniqueSteps s)
    (ok : t.run s₁ = (.ok new, s')) (named : t.stepID = mid.stepID)
    (same : ∀ row, SameStep row (t.set row)) (silent : ∀ row, (t.set row).output = row.output) :
    new = t.set mid ∧ Counts verdict s s' edge old new := by
  obtain ⟨found, steps, _, _, _, isNamed, _, rfl, replaced, _, _,
    rfl⟩ := StepTransition.run_ok ok
  obtain rfl : found = mid := Table.eq_of_key (counts.uniqueSteps unique) replaced.old_mem
    counts.steps.new_mem (isNamed.trans named)
  have same := same found
  exact ⟨rfl, {
    unresolved := counts.unresolved
    edges := counts.edges
    into := counts.into
    owed := counts.owed
    steps := counts.steps.trans replaced unique counts.stepID
    stepID := same.stepID.trans counts.stepID
    stepType := same.stepType.trans counts.stepType
    config := same.config.trans counts.config
    attemptCount := same.attemptCount.trans counts.attemptCount
    remaining := same.remaining.trans counts.remaining
    fired := same.fired.trans counts.fired
    output := (silent found).trans counts.output
    onFailure := counts.onFailure
    runStatus := counts.runStatus }⟩

theorem Counts.isJoinAny_eq (counts : Counts verdict s s' edge old new) :
    isJoinAny new = isJoinAny old := by
  unfold isJoinAny
  rw [counts.stepType, counts.config]

variable {reaction : Reaction}

theorem react_ok {s₁ : RunStore} {mid : StepRow} (unique : UniqueSteps s)
    (counts : Counts verdict s s₁ edge old mid) (kept : mid.status = old.status)
    (ok : react mid now s₁ = (.ok reaction, s')) :
    ∃ new, Resolves verdict s s' edge old new ∧ reaction = reactionOf s' old new := by
  have joins := counts.isJoinAny_eq
  unfold react at ok
  unfold reactionOf
  rw [← kept]
  split_ifs at ok with settled satisfied unfired
  · cases ok
    refine ⟨mid, ⟨counts, ?_⟩, (if_pos settled).symm⟩
    rw [← kept, settle_of_ne settled]
  · obtain ⟨new, s₂, moved, rest⟩ := bind_ok ok
    cases rest
    obtain ⟨rfl, counts'⟩ := counts.moved unique moved rfl
      (fun _ => ⟨rfl, rfl, rfl, rfl, rfl, rfl, rfl⟩) fun _ => rfl
    refine ⟨_, ⟨counts', ?_⟩, (if_neg settled).symm⟩
    rw [← kept, Decidable.not_not.mp settled]
    exact (if_pos (joins ▸ satisfied)).symm
  · obtain ⟨_, _, moved, rest⟩ := bind_ok ok
    cases rest
    obtain ⟨rfl, counts'⟩ := counts.moved unique moved rfl
      (fun _ => ⟨rfl, rfl, rfl, rfl, rfl, rfl, rfl⟩) fun _ => rfl
    refine ⟨_, ⟨counts', ?_⟩, (if_neg settled).symm⟩
    rw [← kept, Decidable.not_not.mp settled]
    exact ((if_neg (joins ▸ satisfied)).trans (if_pos unfired)).symm
  · cases ok
    have pending := Decidable.not_not.mp settled
    refine ⟨mid, ⟨counts, ?_⟩, ?_⟩
    · rw [← kept, pending]
      exact ((if_neg (joins ▸ satisfied)).trans (if_neg unfired)).symm
    · rw [if_neg settled, pending]

theorem resolveVerdict_ok (unique : UniqueSteps s)
    (ok : resolveVerdict verdict now s = (.ok reaction, s')) :
    (reaction = .nothing ∧ s' = s ∧ ∀ row ∈ s.edges, resolvable verdict.ordinal row = false) ∨
      ∃ edge old new, Resolves verdict s s' edge old new ∧ reaction = reactionOf s' old new := by
  obtain ⟨_, _, resolved, rest⟩ := bind_ok ok
  rcases resolveEdge_ok resolved with ⟨absorbed, rfl, missed⟩ |
    ⟨edge, edges, old, steps, meets, replaced, into, owed, stepReplaced, rfl, rfl⟩
  · rw [absorbed] at rest
    cases rest
    exact .inl ⟨rfl, rfl, missed⟩
  · have counts : Counts verdict s { s with edges, steps } edge old
        (applyResolution verdict.fired now old) :=
      ⟨meets, replaced, into, owed, stepReplaced, rfl, rfl, rfl, rfl, rfl, rfl, rfl, rfl, rfl⟩
    obtain ⟨new, resolves, pushed⟩ := react_ok unique counts rfl rest
    exact .inr ⟨edge, old, new, resolves, pushed⟩

theorem react_total (mem : target ∈ s.steps) (timed : now ≠ 0) :
    react target now s ≠ (.error e, s') := by
  intro failed
  unfold react at failed
  split_ifs at failed with settled satisfied unfired
  · cases failed
  · rcases bind_error failed with early | ⟨_, _, _, late⟩
    · refine StepTransition.run_total timed rfl mem rfl ?_ early
      simpa [ready, Decidable.not_not.mp settled] using satisfied
    · cases late
  · rcases bind_error failed with early | ⟨_, _, _, late⟩
    · refine StepTransition.run_total timed rfl mem rfl ?_ early
      simpa [skip, Decidable.not_not.mp settled] using unfired
    · rcases bind_error late with read | ⟨_, _, _, last⟩
      · cases read
      · cases last
  · cases failed

theorem resolveVerdict_total (timed : now ≠ 0)
    (resolves : ∀ e s', resolveEdge verdict.ordinal verdict.fired now s ≠ (.error e, s')) :
    resolveVerdict verdict now s ≠ (.error e, s') := by
  intro failed
  rcases bind_error failed with early | ⟨_, _, resolved, late⟩
  · exact resolves _ _ early
  rcases resolveEdge_ok resolved with ⟨absorbed, rfl, _⟩ |
    ⟨_, _, _, _, _, _, _, _, replaced, rfl, rfl⟩
  · simp [absorbed] at late
  · exact react_total (by exact replaced.new_mem) timed late

def FanOut.owed (fan : FanOut) : List EdgeVerdict := fan.work.flatMap TerminalSource.verdicts

theorem FanOut.absorb_owed (fan : FanOut) (reaction : Reaction) :
    (fan.absorb reaction).owed = fan.owed ++ reaction.verdicts := by
  cases reaction <;> simp [FanOut.absorb, FanOut.owed, Reaction.verdicts]

def pendingSteps (s : RunStore) : Nat := s.steps.countP fun row => row.status == .pending

theorem resolveVerdict_work (unique : UniqueSteps s) (fan : FanOut)
    (ok : resolveVerdict verdict now s = (.ok reaction, s')) :
    (fan.absorb reaction).work.length + pendingSteps s' ≤ fan.work.length + pendingSteps s := by
  rcases resolveVerdict_ok unique ok with ⟨rfl, rfl, _⟩ | ⟨_, old, new, resolves, rfl⟩
  · exact le_rfl
  have counts := resolves.steps.countP fun row => row.status == .pending
  have status := resolves.status
  unfold pendingSteps
  by_cases pending : old.status = .pending
  · cases became : new.status <;> simp [reactionOf, pending, became, FanOut.absorb] at counts ⊢ <;>
      omega
  · rw [settle_of_ne pending] at status
    simp [reactionOf, pending, status, FanOut.absorb] at counts ⊢
    omega

variable {verdicts : List EdgeVerdict} {fan : FanOut} {budget : Nat} {seed : TerminalSource}

section Rule

variable {holds : List EdgeVerdict → RunStore → Prop}

def FailsWhile (now : Time) (holds : List EdgeVerdict → RunStore → Prop) (e : StoreError) : Prop :=
  ∃ verdict owed s s', holds (verdict :: owed) s ∧ resolveVerdict verdict now s = (.error e, s')

variable (unique : ∀ owed s, holds owed s → UniqueSteps s)
  (step : ∀ verdict owed s reaction s', holds (verdict :: owed) s →
    resolveVerdict verdict now s = (.ok reaction, s') → holds (owed ++ reaction.verdicts) s')

include unique step

theorem resolveVerdicts_rule (start : holds (verdicts ++ fan.owed) s) :
    match resolveVerdicts now verdicts fan s with
    | (.ok fan', s') => holds fan'.owed s' ∧
        fan'.work.length + pendingSteps s' ≤ fan.work.length + pendingSteps s
    | (.error e, _) => FailsWhile now holds e := by
  induction verdicts generalizing fan s with
  | nil => exact ⟨start, le_rfl⟩
  | cons verdict rest ih =>
    rw [resolveVerdicts, bind_apply]
    cases first : resolveVerdict verdict now s with
    | mk outcome s₁ =>
      cases outcome with
      | error e => exact ⟨verdict, _, s, s₁, start, first⟩
      | ok reaction =>
        have next := step verdict (rest ++ fan.owed) s reaction s₁ start first
        rw [append_assoc, ← fan.absorb_owed] at next
        have bound := resolveVerdict_work (unique _ _ start) fan first
        have later := ih next
        dsimp only at later ⊢
        split at later
        · rename_i ok
          rw [ok]
          exact ⟨later.1, later.2.trans bound⟩
        · rename_i failed
          rw [failed]
          exact later

theorem fanOutFrom_rule (start : holds fan.owed s)
    (enough : fan.work.length + pendingSteps s ≤ budget) :
    match fanOutFrom now budget fan s with
    | (.ok _, s') => holds [] s'
    | (.error e, _) => FailsWhile now holds e := by
  induction budget generalizing fan s with
  | zero =>
    have empty : fan.work = [] := eq_nil_of_length_eq_zero (by omega)
    rw [FanOut.owed, empty] at start
    unfold fanOutFrom
    rw [empty]
    exact start
  | succ budget ih =>
    unfold fanOutFrom
    cases work : fan.work with
    | nil =>
      rw [FanOut.owed, work] at start
      exact start
    | cons source rest =>
      rw [FanOut.owed, work] at start
      have sources := resolveVerdicts_rule unique step
        (by exact start : holds (source.verdicts ++ { fan with work := rest }.owed) s)
      dsimp only
      rw [bind_apply]
      split at sources
      · rename_i fan' s' ok
        rw [ok]
        refine ih sources.1 ?_
        have bound := sources.2
        rw [work, length_cons] at enough
        dsimp only at bound
        omega
      · rename_i failed
        rw [failed]
        exact sources

/-- What the seed's verdicts start with and every resolved verdict hands on holds when the worklist
is empty; the budget is never the reason for a failure. -/
theorem fanOut_rule (start : holds seed.verdicts s) :
    match fanOut seed now s with
    | (.ok _, s') => holds [] s'
    | (.error e, _) => FailsWhile now holds e := by
  have seeded : holds ({ work := [seed] } : FanOut).owed s := by
    simpa [FanOut.owed] using start
  refine fanOutFrom_rule unique step seeded ?_
  have bound : pendingSteps s ≤ s.steps.length := countP_le_length
  simp only [length_singleton]
  omega

theorem fanOut_rule_ok (start : holds seed.verdicts s) (ok : fanOut seed now s = (.ok fan, s')) :
    holds [] s' := by
  have rule := fanOut_rule unique step start
  rw [ok] at rule
  exact rule

end Rule

variable {fan' : FanOut} {a b a' : RunStore}

section Lockstep

variable {related : List EdgeVerdict → RunStore → RunStore → Prop}
  (step : ∀ verdict owed a b reaction a', related (verdict :: owed) a b →
    resolveVerdict verdict now a = (.ok reaction, a') →
    ∃ b', resolveVerdict verdict now b = (.ok reaction, b') ∧
    related (owed ++ reaction.verdicts) a' b')

include step

theorem resolveVerdicts_lockstep (start : related (verdicts ++ fan.owed) a b)
    (ok : resolveVerdicts now verdicts fan a = (.ok fan', a')) :
    ∃ b', resolveVerdicts now verdicts fan b = (.ok fan', b') ∧ related fan'.owed a' b' := by
  induction verdicts generalizing fan a b with
  | nil =>
    cases ok
    exact ⟨b, rfl, start⟩
  | cons verdict rest ih =>
    obtain ⟨reaction, a₁, first, later⟩ := bind_ok ok
    obtain ⟨b₁, follows, next⟩ := step verdict (rest ++ fan.owed) a b reaction a₁ start first
    rw [append_assoc, ← fan.absorb_owed] at next
    obtain ⟨b', rests, last⟩ := ih next later
    exact ⟨b', (bind_of_ok follows).trans rests, last⟩

theorem fanOutFrom_lockstep (start : related fan.owed a b)
    (ok : fanOutFrom now budget fan a = (.ok fan', a')) :
    ∃ b', fanOutFrom now budget fan b = (.ok fan', b') ∧ related [] a' b' := by
  induction budget generalizing fan a b with
  | zero =>
    unfold fanOutFrom at ok ⊢
    cases work : fan.work with
    | nil =>
      rw [FanOut.owed, work] at start
      rw [work] at ok
      cases ok
      exact ⟨b, rfl, start⟩
    | cons source rest =>
      simp [work] at ok
  | succ budget ih =>
    unfold fanOutFrom at ok ⊢
    cases work : fan.work with
    | nil =>
      rw [FanOut.owed, work] at start
      rw [work] at ok
      cases ok
      exact ⟨b, rfl, start⟩
    | cons source rest =>
      rw [FanOut.owed, work] at start
      rw [work] at ok
      obtain ⟨fan₁, _, first, later⟩ := bind_ok ok
      obtain ⟨b₁, follows, next⟩ := resolveVerdicts_lockstep step
        (by exact start : related (source.verdicts ++ { fan with work := rest }.owed) a b) first
      obtain ⟨b', rests, last⟩ := ih next later
      exact ⟨b', (bind_of_ok follows).trans rests, last⟩

/-- Where every verdict that one store takes the other takes with the same reaction, so it is with
the whole fan-out. -/
theorem fanOut_lockstep (size : a.steps.length = b.steps.length)
    (start : related seed.verdicts a b) (ok : fanOut seed now a = (.ok fan, a')) :
    ∃ b', fanOut seed now b = (.ok fan, b') ∧ related [] a' b' := by
  have seeded : related ({ work := [seed] } : FanOut).owed a b := by
    simpa [FanOut.owed] using start
  have rest := read_bind_ok ok
  obtain ⟨b', follows, last⟩ := fanOutFrom_lockstep step seeded rest
  refine ⟨b', (bind_of_ok ?_).trans follows, last⟩
  simp [size]

end Lockstep

def Reaction.readiedIDs : Reaction → List String
  | .readied stepID => [stepID]
  | _ => []

theorem FanOut.absorb_readied (fan : FanOut) (reaction : Reaction) :
    (fan.absorb reaction).readied = fan.readied ++ reaction.readiedIDs := by
  cases reaction <;> simp [FanOut.absorb, Reaction.readiedIDs]

section Readied

variable {holds : List String → RunStore → Prop}
  (step : ∀ verdict ids s reaction s', holds ids s → resolveVerdict verdict now s = (.ok reaction,
    s') → holds (ids ++ reaction.readiedIDs) s')

include step

theorem resolveVerdicts_readied (start : holds fan.readied s)
    (ok : resolveVerdicts now verdicts fan s = (.ok fan', s')) : holds fan'.readied s' := by
  induction verdicts generalizing fan s with
  | nil =>
    cases ok
    exact start
  | cons verdict rest ih =>
    obtain ⟨reaction, s₁, first, later⟩ := bind_ok ok
    refine ih ?_ later
    rw [fan.absorb_readied]
    exact step verdict fan.readied s reaction s₁ start first

theorem fanOutFrom_readied (start : holds fan.readied s)
    (ok : fanOutFrom now budget fan s = (.ok fan', s')) : holds fan'.readied s' := by
  induction budget generalizing fan s with
  | zero =>
    unfold fanOutFrom at ok
    cases work : fan.work with
    | nil =>
      rw [work] at ok
      cases ok
      exact start
    | cons source rest =>
      simp [work] at ok
  | succ budget ih =>
    unfold fanOutFrom at ok
    cases work : fan.work with
    | nil =>
      rw [work] at ok
      cases ok
      exact start
    | cons source rest =>
      rw [work] at ok
      obtain ⟨_, _, resolved, later⟩ := bind_ok ok
      exact ih (resolveVerdicts_readied step (by exact start) resolved) later

theorem fanOut_readied (start : holds [] s) (ok : fanOut seed now s = (.ok fan, s')) :
    holds fan.readied s' := by
  have rest := read_bind_ok ok
  exact fanOutFrom_readied step (by exact start) rest

end Readied

end Agentloom.Engine
