import Mathlib.Logic.Function.Basic
import Mathlib.Data.List.Chain
import Mathlib.Data.List.Nodup
import Mathlib.Algebra.Order.BigOperators.Group.List
import Mathlib.Algebra.Order.Group.Nat
import Mathlib.Algebra.GroupWithZero.Nat
import Agentloom.Library.Acyclic

/-! Iterative three-colour depth-first search over a finite graph with named edges. A finding is
recorded for every edge that leads to a vertex of the current path. The main result says that the
edges of the findings meet every cycle, and that each finding is a cycle. -/

namespace Agentloom.DepthFirst

open Relation List

variable {V E : Type} {out : V → List E} {target : E → V} {finished roots : List V}

inductive Color where
  | white
  | gray
  | black
deriving DecidableEq, Repr

/-- The stack holds, top first, the vertices of the current path, each with the out-edges that
are still to be visited. -/
structure Search (V E : Type) where
  color : V → Color
  stack : List (V × List E)
  findings : List (E × List V)

section Algorithm

variable [DecidableEq V]

def start : Search V E := { color := fun _ => .white, stack := [], findings := [] }

def cyclePath (stack : List (V × List E)) (vertex : V) : List V :=
  (stack.map Prod.fst).reverse.dropWhile (fun other => decide (other ≠ vertex)) ++ [vertex]

variable (out : V → List E) (target : E → V)

def advance (search : Search V E) : Search V E :=
  match search.stack with
  | [] => search
  | (vertex, []) :: below =>
    { search with color := Function.update search.color vertex .black, stack := below }
  | (vertex, edge :: pending) :: below =>
    match search.color (target edge) with
    | .white =>
      { search with
        color := Function.update search.color (target edge) .gray
        stack := (target edge, out (target edge)) :: (vertex, pending) :: below }
    | .gray =>
      { search with
        stack := (vertex, pending) :: below
        findings := search.findings ++ [(edge, cyclePath search.stack (target edge))] }
    | .black => { search with stack := (vertex, pending) :: below }

def explore : Nat → Search V E → Search V E
  | 0, search => search
  | fuel + 1, search => explore fuel (advance out target search)

def enter (search : Search V E) (root : V) : Search V E :=
  { search with color := Function.update search.color root .gray, stack := [(root, out root)] }

def roundFuel (roots : List V) : Nat := (roots.map fun v => (out v).length + 1).sum

def searchFrom (fuel : Nat) (search : Search V E) (root : V) : Search V E :=
  if search.color root = .white then explore out target fuel (enter out search root) else search

def searchAll (roots : List V) : Search V E :=
  roots.foldl (searchFrom out target (roundFuel out roots)) start

end Algorithm

section Order

variable (out : V → List E) (target : E → V)

def Step (a b : V) : Prop := ∃ edge ∈ out a, target edge = b

def StepOff (cut : E → Prop) (a b : V) : Prop := ∃ edge ∈ out a, ¬cut edge ∧ target edge = b

def ClosesCycle (edge : E) (path : List V) : Prop :=
  ∃ inner source, path = inner ++ [target edge] ∧ inner.Nodup ∧
    inner.head? = some (target edge) ∧ inner.getLast? = some source ∧
    inner.IsChain (Step out target) ∧ edge ∈ out source

def FramesVisited (settled : E → Prop) : Option V → List (V × List E) → Prop
  | _, [] => True
  | above, (vertex, pending) :: below =>
    (∃ done, out vertex = done ++ pending ∧
      ∀ edge ∈ done, settled edge ∨ some (target edge) = above) ∧
    FramesVisited settled (some vertex) below

def FinishOrder (cut : E → Prop) : List V → Prop
  | [] => True
  | vertex :: earlier =>
    (∀ edge ∈ out vertex, cut edge ∨ target edge ∈ earlier) ∧ FinishOrder cut earlier

variable {out target}

theorem FramesVisited.mono (weaker : ∀ edge, settled edge → settled' edge) :
    ∀ {above : Option V}, FramesVisited out target settled above stack →
      FramesVisited out target settled' above stack := by
  induction stack with
  | nil => exact fun _ => trivial
  | cons frame below ih =>
    rintro above ⟨⟨done, split, all⟩, rest⟩
    exact ⟨⟨done, split, fun edge mem => (all edge mem).imp_left (weaker edge)⟩, ih rest⟩

theorem FramesVisited.visit
    (frames : FramesVisited out target settled none ((vertex, edge :: pending) :: below))
    (weaker : ∀ other, settled other → settled' other)
    (now : settled' edge ∨ some (target edge) = above) :
    FramesVisited out target settled' above ((vertex, pending) :: below) := by
  obtain ⟨⟨done, split, all⟩, rest⟩ := frames
  refine ⟨⟨done ++ [edge], by simp [split], ?_⟩, rest.mono weaker⟩
  intro other mem
  rcases mem_append.mp mem with before | last
  · exact .inl (weaker other ((all other before).resolve_right (by simp)))
  · rw [mem_singleton.mp last]
    exact now

theorem FinishOrder.mono
    (weaker : ∀ edge, cut edge → cut' edge) (ordered : FinishOrder out target cut finished) :
    FinishOrder out target cut' finished := by
  induction finished with
  | nil => trivial
  | cons vertex earlier ih =>
    exact ⟨fun edge mem => (ordered.1 edge mem).imp_left (weaker edge), ih ordered.2⟩

theorem FinishOrder.suffix (ordered : FinishOrder out target cut (later ++ vertex :: earlier)) :
    FinishOrder out target cut (vertex :: earlier) := by
  induction later with
  | nil => exact ordered
  | cons first later ih => exact ih ordered.2

theorem FinishOrder.reaches_earlier :
    ∀ {vertex : V} {earlier : List V}, FinishOrder out target cut (vertex :: earlier) →
      TransGen (StepOff out target cut) vertex other → other ∈ earlier := by
  intro vertex earlier ordered reaches
  induction reaches using TransGen.head_induction_on generalizing earlier with
  | single step =>
    obtain ⟨edge, mem, uncut, rfl⟩ := step
    exact (ordered.1 edge mem).resolve_left uncut
  | head step _ ih =>
    obtain ⟨edge, mem, uncut, rfl⟩ := step
    obtain ⟨_, _, rfl⟩ :=
      append_of_mem ((ordered.1 edge mem).resolve_left uncut)
    exact mem_append_right _ (mem_cons_of_mem _ (ih ordered.2.suffix))

theorem FinishOrder.acyclic (ordered : FinishOrder out target cut finished) (once : finished.Nodup)
    (complete : ∀ v, out v ≠ [] → v ∈ finished) : Acyclic (StepOff out target cut) := by
  intro vertex cycle
  obtain ⟨_, ⟨_, mem, _⟩, _⟩ := TransGen.head'_iff.mp cycle
  obtain ⟨_, _, rfl⟩ :=
    append_of_mem (complete vertex (ne_nil_of_mem mem))
  have again := ordered.suffix.reaches_earlier cycle
  exact (nodup_cons.mp (nodup_append.mp once).2.1).1 again

end Order

section Invariant

variable (out : V → List E) (target : E → V)

def Search.closing (search : Search V E) (edge : E) : Prop := edge ∈ search.findings.map Prod.fst

/-- The invariant of the search; `finished` lists the black vertices, the latest one first. -/
structure Explored (search : Search V E) (finished : List V) : Prop where
  gray : ∀ v, search.color v = .gray ↔ v ∈ search.stack.map Prod.fst
  black : ∀ v, search.color v = .black ↔ v ∈ finished
  distinct : (search.stack.map Prod.fst).Nodup
  once : finished.Nodup
  path : (search.stack.map Prod.fst).IsChain (fun upper lower => Step out target lower upper)
  visited : FramesVisited out target
    (fun edge => search.closing edge ∨ target edge ∈ finished) none search.stack
  ordered : FinishOrder out target search.closing finished
  cycles : ∀ finding ∈ search.findings, ClosesCycle out target finding.1 finding.2

variable {out target}

theorem start_explored : Explored out target (start : Search V E) [] where
  gray := by simp [start]
  black := by simp [start]
  distinct := by simp [start]
  once := by simp
  path := by simp [start]
  visited := trivial
  ordered := trivial
  cycles := by simp [start]

theorem Explored.finished_of_colored
    (explored : Explored out target search finished) (empty : search.stack = [])
    (colored : search.color vertex ≠ .white) : vertex ∈ finished := by
  apply (explored.black vertex).mp
  cases colorEq : search.color vertex with
  | white => exact absurd colorEq colored
  | gray => simpa [empty] using (explored.gray vertex).mp colorEq
  | black => rfl

variable [DecidableEq V]

theorem dropWhile_ne_split {path : List V} (mem : vertex ∈ path) :
    ∃ front rest, path = front ++ vertex :: rest ∧
      path.dropWhile (fun other => decide (other ≠ vertex)) = vertex :: rest := by
  induction path with
  | nil => simp at mem
  | cons first path ih =>
    by_cases same : first = vertex
    · exact ⟨[], path, by simp [same], by simp [same]⟩
    · obtain ⟨front, rest, split, dropped⟩ :=
        ih ((mem_cons.mp mem).resolve_left (Ne.symm same))
      exact ⟨first :: front, rest, by simp [split], by simpa [same] using dropped⟩

theorem cyclePath_closes {edge : E} {stack : List (V × List E)}
    (top : (stack.map Prod.fst).head? = some vertex) (distinct : (stack.map Prod.fst).Nodup)
    (path : (stack.map Prod.fst).IsChain (fun upper lower => Step out target lower upper))
    (onPath : target edge ∈ stack.map Prod.fst) (mem : edge ∈ out vertex) :
    ClosesCycle out target edge (cyclePath stack (target edge)) := by
  obtain ⟨front, rest, split, dropped⟩ :=
    dropWhile_ne_split (mem_reverse.mpr onPath)
  have upDistinct : (front ++ target edge :: rest).Nodup := by
    rw [← split]
    exact nodup_reverse.mpr distinct
  have upPath : (front ++ target edge :: rest).IsChain (Step out target) := by
    rw [← split]
    exact isChain_reverse.mpr path
  have upLast : (front ++ target edge :: rest).getLast? = some vertex := by
    rw [← split, getLast?_reverse]
    exact top
  refine ⟨target edge :: rest, vertex, by rw [cyclePath, dropped], ?_, rfl, ?_, ?_, mem⟩
  · exact (nodup_append.mp upDistinct).2.1
  · simpa using upLast
  · exact upPath.right_of_append

theorem advance_explored {search : Search V E} (explored : Explored out target search finished) :
    ∃ finished', Explored out target (advance out target search) finished' ∧
      finished <:+ finished' := by
  obtain ⟨color, stack, findings⟩ := search
  obtain ⟨gray, black, distinct, once, path, visited, ordered, cycles⟩ := explored
  match stack with
  | [] => exact ⟨finished, ⟨gray, black, distinct, once, path, visited, ordered, cycles⟩,
      suffix_refl _⟩
  | (vertex, []) :: below =>
    -- The top vertex has no edge left: it is finished, and every edge of it is settled.
    have wasGray : color vertex = .gray := (gray vertex).mpr (by simp)
    have notFinished : vertex ∉ finished := by
      intro mem
      have isBlack : color vertex = .black := (black vertex).mpr mem
      simp [isBlack] at wasGray
    obtain ⟨apart, distinctBelow⟩ := nodup_cons.mp distinct
    obtain ⟨⟨done, split, all⟩, below'⟩ := visited
    rw [append_nil] at split
    refine ⟨vertex :: finished, ⟨?_, ?_, distinctBelow, ?_, ?_, ?_, ?_, cycles⟩, ?_⟩
    · intro other
      by_cases same : other = vertex
      · subst same
        simpa [advance] using apart
      · simpa [advance, same] using gray other
    · intro other
      by_cases same : other = vertex
      · simp [advance, same]
      · simpa [advance, same] using black other
    · exact nodup_cons.mpr ⟨notFinished, once⟩
    · exact path.tail
    · match below, below' with
      | [], _ => trivial
      | (lower, pending) :: rest, ⟨⟨visitedEdges, lowerSplit, lowerAll⟩, rest'⟩ =>
        refine ⟨⟨visitedEdges, lowerSplit, ?_⟩, FramesVisited.mono ?_ rest'⟩
        · intro edge mem
          rcases lowerAll edge mem with (closes | done) | leads
          · exact .inl (.inl closes)
          · exact .inl (.inr (mem_cons_of_mem _ done))
          · exact .inl (.inr (by simp [Option.some.inj leads]))
        · exact fun edge => Or.imp_right (mem_cons_of_mem _)
    · refine ⟨fun edge mem => ?_, ordered⟩
      rw [split] at mem
      exact (all edge mem).resolve_right (by simp)
    · exact suffix_cons _ _
  | (vertex, edge :: pending) :: below =>
    have mem : edge ∈ out vertex := by
      obtain ⟨⟨_, split, _⟩, _⟩ := visited
      simp [split]
    match colorEq : color (target edge) with
    | .white =>
      have fresh : target edge ∉ vertex :: below.map Prod.fst := by
        intro onPath
        have isGray : color (target edge) = .gray := (gray (target edge)).mpr onPath
        simp [isGray] at colorEq
      have unfinished : target edge ∉ finished := by
        intro isFinished
        have isBlack : color (target edge) = .black := (black (target edge)).mpr isFinished
        simp [isBlack] at colorEq
      simp only [advance, colorEq]
      refine ⟨finished, ⟨?_, ?_, ?_, once, ?_, ?_, ordered, cycles⟩, suffix_refl _⟩
      · intro other
        by_cases same : other = target edge
        · simp [same]
        · simpa [same] using gray other
      · intro other
        by_cases same : other = target edge
        · simp [same, unfinished]
        · simpa [same] using black other
      · exact nodup_cons.mpr ⟨fresh, distinct⟩
      · exact isChain_cons_cons.mpr ⟨⟨edge, mem, rfl⟩, path⟩
      · exact ⟨⟨[], by simp, by simp⟩, visited.visit (fun _ => id) (.inr rfl)⟩
    | .gray =>
      have closingGrows : ∀ other, other ∈ findings.map Prod.fst →
          other ∈ (findings ++ [(edge, cyclePath ((vertex, edge :: pending) :: below)
            (target edge))]).map Prod.fst := by
        intro other found
        rw [map_append]
        exact mem_append_left _ found
      simp only [advance, colorEq]
      refine ⟨finished, ⟨gray, black, distinct, once, path, ?_, ?_, ?_⟩, suffix_refl _⟩
      · refine visited.visit (fun other => Or.imp_left (closingGrows other)) (.inl (.inl ?_))
        simp [Search.closing]
      · exact ordered.mono closingGrows
      · intro finding found
        rcases mem_append.mp found with before | now
        · exact cycles finding before
        · rw [mem_singleton.mp now]
          exact cyclePath_closes rfl distinct path ((gray _).mp colorEq) mem
    | .black =>
      simp only [advance, colorEq]
      refine ⟨finished, ⟨gray, black, distinct, once, path, ?_, ordered, cycles⟩,
        suffix_refl _⟩
      exact visited.visit (fun _ => id) (.inl (.inr ((black _).mp colorEq)))

theorem explore_explored (fuel : Nat) (explored : Explored out target search finished) :
    ∃ finished', Explored out target (explore out target fuel search) finished' ∧
      finished <:+ finished' := by
  induction fuel generalizing search finished with
  | zero => exact ⟨finished, explored, suffix_refl _⟩
  | succ fuel ih =>
    obtain ⟨_, advanced, first⟩ := advance_explored explored
    obtain ⟨finished', final, second⟩ := ih advanced
    exact ⟨finished', final, first.trans second⟩

end Invariant

section Termination

theorem sum_map_change (once : roots.Nodup)
    (mem : vertex ∈ roots) {f g : V → Nat} (agree : ∀ other, other ≠ vertex → f other = g other) :
    (roots.map f).sum + g vertex = (roots.map g).sum + f vertex := by
  obtain ⟨front, rest, rfl⟩ := append_of_mem mem
  obtain ⟨_, restOnce, apart⟩ := nodup_append.mp once
  have frontEq : front.map f = front.map g :=
    map_congr_left fun other inside => agree other (apart other inside vertex (by simp))
  have restEq : rest.map f = rest.map g :=
    map_congr_left fun other inside =>
      agree other fun same => (nodup_cons.mp restOnce).1 (same ▸ inside)
  simp only [map_append, map_cons, sum_append, sum_cons, frontEq, restEq]
  omega

variable [DecidableEq V]

def weight (out : V → List E) (roots : List V) (search : Search V E) : Nat :=
  (roots.map fun v => if search.color v = .white then (out v).length + 1 else 0).sum +
    (search.stack.map fun frame => frame.2.length + 1).sum

theorem advance_weight (once : roots.Nodup) (closed : ∀ v, ∀ edge ∈ out v, target edge ∈ roots)
    (explored : Explored out target search finished) (unfinished : search.stack ≠ []) :
    weight out roots (advance out target search) + 1 = weight out roots search := by
  obtain ⟨color, stack, _⟩ := search
  match stack with
  | [] => exact absurd rfl unfinished
  | (vertex, []) :: below =>
    have wasGray : color vertex = .gray := (explored.gray vertex).mpr (by simp)
    have same : ∀ v, (Function.update color vertex .black v = .white) = (color v = .white) := by
      intro v
      by_cases here : v = vertex
      · simp [here, wasGray]
      · simp [here]
    simp only [weight, advance, same, map_cons, sum_cons, length_nil]
    omega
  | (vertex, edge :: pending) :: below =>
    match colorEq : color (target edge) with
    | .white =>
      have mem : edge ∈ out vertex := by
        obtain ⟨⟨_, split, _⟩, _⟩ := explored.visited
        simp [split]
      have change := sum_map_change once (closed vertex edge mem)
        (f := fun v => if Function.update color (target edge) .gray v = .white
          then (out v).length + 1 else 0)
        (g := fun v => if color v = .white then (out v).length + 1 else 0)
        (fun other different => by simp [different])
      simp only [Function.update_self, colorEq, ↓reduceIte, reduceCtorEq] at change
      simp only [weight, advance, colorEq, map_cons, sum_cons, length_cons]
      omega
    | .gray =>
      simp only [weight, advance, colorEq, map_cons, sum_cons, length_cons]
      omega
    | .black =>
      simp only [weight, advance, colorEq, map_cons, sum_cons, length_cons]
      omega

theorem explore_of_empty (empty : search.stack = []) : explore out target fuel search = search := by
  have still : advance out target search = search := by
    simp [advance, empty]
  induction fuel with
  | zero => rfl
  | succ fuel ih => rw [explore, still, ih]

theorem explore_empties (once : roots.Nodup)
    (closed : ∀ v, ∀ edge ∈ out v, target edge ∈ roots) (explored : Explored out target search finished)
    (enough : weight out roots search ≤ fuel) : (explore out target fuel search).stack = [] := by
  induction fuel generalizing search finished with
  | zero =>
    by_contra unfinished
    have decreases := advance_weight once closed explored unfinished
    omega
  | succ fuel ih =>
    obtain ⟨_, advanced, _⟩ := advance_explored explored
    by_cases empty : search.stack = []
    · rw [explore_of_empty empty]
      exact empty
    · have decreases := advance_weight once closed explored empty
      exact ih advanced (by omega)

theorem enter_explored (explored : Explored out target search finished) (empty : search.stack = [])
    (white : search.color root = .white) :
    Explored out target (enter out search root) finished where
  gray other := by
    by_cases same : other = root
    · simp [enter, same]
    · simpa [enter, same, empty] using explored.gray other
  black other := by
    by_cases same : other = root
    · subst same
      have unfinished : other ∉ finished := by
        intro mem
        simp [(explored.black other).mpr mem] at white
      simpa [enter] using unfinished
    · simpa [enter, same] using explored.black other
  distinct := by simp [enter]
  once := explored.once
  path := by simp [enter]
  visited := ⟨⟨[], by simp, by simp⟩, trivial⟩
  ordered := explored.ordered
  cycles := explored.cycles

theorem advance_colored (colored : search.color vertex ≠ .white) :
    (advance out target search).color vertex ≠ .white := by
  unfold advance
  split
  · exact colored
  · rename_i top below _
    by_cases same : vertex = top
    · simp [same]
    · simpa [same] using colored
  · rename_i edge _ _ _
    split
    · by_cases same : vertex = target edge
      · simp [same]
      · simpa [same] using colored
    · exact colored
    · exact colored

theorem explore_colored (colored : search.color vertex ≠ .white) :
    (explore out target fuel search).color vertex ≠ .white := by
  induction fuel generalizing search with
  | zero => exact colored
  | succ fuel ih => exact ih (advance_colored colored)

theorem weight_enter_le (once : roots.Nodup) {root : V} (mem : root ∈ roots) :
    weight out roots (enter out search root) ≤ roundFuel out roots := by
  have change := sum_map_change once mem
    (f := fun v => if (enter out search root).color v = .white then (out v).length + 1 else 0)
    (g := fun v => if v = root ∨ (enter out search root).color v = .white
      then (out v).length + 1 else 0)
    (fun other different => by simp [different])
  have bounded : (roots.map fun v => if v = root ∨ (enter out search root).color v = .white
      then (out v).length + 1 else 0).sum ≤ roundFuel out roots := by
    apply sum_le_sum
    intro v _
    split_ifs <;> omega
  have entered : (enter out search root).color root ≠ .white := by simp [enter]
  simp only [entered, ↓reduceIte, true_or] at change
  have stack : ((enter out search root).stack.map fun frame => frame.2.length + 1).sum =
      (out root).length + 1 := by
    simp [enter]
  rw [weight, stack]
  omega

theorem searchFrom_explored (once : roots.Nodup) (closed : ∀ v, ∀ edge ∈ out v, target edge ∈ roots)
    (explored : Explored out target search finished) (empty : search.stack = [])
    (mem : root ∈ roots) :
    ∃ finished', Explored out target
        (searchFrom out target (roundFuel out roots) search root) finished' ∧
      (searchFrom out target (roundFuel out roots) search root).stack = [] ∧
      finished <:+ finished' ∧ root ∈ finished' := by
  unfold searchFrom
  split
  · rename_i white
    have entered := enter_explored explored empty white
    obtain ⟨finished', final, grows⟩ := explore_explored (roundFuel out roots) entered
    have done := explore_empties once closed entered (weight_enter_le once mem)
    exact ⟨finished', final, done, grows,
      final.finished_of_colored done (explore_colored (by simp [enter]))⟩
  · rename_i colored
    exact ⟨finished, explored, empty, suffix_refl _,
      explored.finished_of_colored empty colored⟩

theorem searchAll_explored (once : roots.Nodup)
    (closed : ∀ v, ∀ edge ∈ out v, target edge ∈ roots) :
    ∃ finished, Explored out target (searchAll out target roots) finished ∧ roots ⊆ finished := by
  have rounds : ∀ (left : List V) (search : Search V E) (finished : List V), left ⊆ roots →
      Explored out target search finished → search.stack = [] →
      ∃ finished', Explored out target
          (left.foldl (searchFrom out target (roundFuel out roots)) search) finished' ∧
        finished <:+ finished' ∧ left ⊆ finished' := by
    intro left
    induction left with
    | nil =>
      intro search finished _ explored _
      exact ⟨finished, explored, suffix_refl _, nil_subset _⟩
    | cons root left ih =>
      intro search finished inside explored empty
      obtain ⟨middle, first, done, grows, entered⟩ :=
        searchFrom_explored once closed explored empty (inside mem_cons_self)
      obtain ⟨finished', final, grows', covered⟩ :=
        ih _ middle (fun v mem => inside (mem_cons_of_mem _ mem)) first done
      exact ⟨finished', final, grows.trans grows',
        cons_subset.mpr ⟨grows'.subset entered, covered⟩⟩
  obtain ⟨finished, explored, _, covered⟩ :=
    rounds roots start [] (List.Subset.refl _) start_explored rfl
  exact ⟨finished, explored, covered⟩

end Termination

section Result

theorem ClosesCycle.cyclic (closes : ClosesCycle out target edge path) :
    TransGen (Step out target) (target edge) (target edge) := by
  obtain ⟨inner, source, _, _, head, last, chain, mem⟩ := closes
  have reaches : ReflTransGen (Step out target) (target edge) source := by
    match inner, head with
    | first :: rest, head =>
      obtain rfl : first = target edge := by simpa using head
      have lastEq : (target edge :: rest).getLast (by simp) = source := by
        exact Option.some.inj last
      exact relationReflTransGen_of_exists_isChain_cons rest chain lastEq
  exact TransGen.tail' reaches ⟨edge, mem, rfl⟩

variable [DecidableEq V]

theorem searchAll_sound (once : roots.Nodup) (closed : ∀ v, ∀ edge ∈ out v, target edge ∈ roots) :
    ∀ finding ∈ (searchAll out target roots).findings,
      ClosesCycle out target finding.1 finding.2 := by
  obtain ⟨_, explored, _⟩ := searchAll_explored once closed
  exact explored.cycles

/-- The edges of the findings meet every cycle: without them the graph is acyclic. -/
theorem searchAll_cuts (once : roots.Nodup)
    (closed : ∀ v, ∀ edge ∈ out v, target edge ∈ roots) (sources : ∀ v, out v ≠ [] → v ∈ roots) :
    Acyclic (StepOff out target (searchAll out target roots).closing) := by
  obtain ⟨_, explored, covered⟩ := searchAll_explored once closed
  exact explored.ordered.acyclic explored.once fun v hasEdge => covered (sources v hasEdge)

theorem searchAll_nil_iff (once : roots.Nodup)
    (closed : ∀ v, ∀ edge ∈ out v, target edge ∈ roots) (sources : ∀ v, out v ≠ [] → v ∈ roots) :
    (searchAll out target roots).findings = [] ↔ Acyclic (Step out target) := by
  constructor
  · intro none
    refine (searchAll_cuts once closed sources).mono ?_
    rintro a b ⟨edge, mem, leads⟩
    exact ⟨edge, mem, by simp [Search.closing, none], leads⟩
  · intro acyclic
    rw [eq_nil_iff_forall_not_mem]
    intro finding found
    exact acyclic _ (searchAll_sound once closed finding found).cyclic

end Result

end Agentloom.DepthFirst
