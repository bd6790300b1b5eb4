import Mathlib.Logic.Relation
import Mathlib.Data.List.Perm.Subperm
import Mathlib.Tactic.Common

/-! Acyclic relations, with the rules the graph algorithms use: monotonicity, transport along a
map of the vertices, unions, and the source that every finite set of vertices must have. -/

namespace Agentloom

open Relation List

def Acyclic {V : Type*} (r : V → V → Prop) : Prop := ∀ v, ¬TransGen r v v

variable {V W : Type*} {r s : V → V → Prop}

theorem Acyclic.mono (acyclic : Acyclic s) (included : ∀ a b, r a b → s a b) : Acyclic r := by
  intro v cycle
  exact acyclic v (TransGen.mono included v v cycle)

theorem Acyclic.comap (acyclic : Acyclic t) (f : V → W) (mapped : ∀ a b, r a b → t (f a) (f b)) :
    Acyclic r := by
  intro v cycle
  exact acyclic (f v) (cycle.lift f mapped)

/-- Where `s` never stands on both sides of a path of `r`, a path of both has at most one stretch of
`s`. -/
theorem path_of_apart (apart : ∀ a b c d, s a b → TransGen r b c → ¬s c d)
    (path : TransGen (fun a b => r a b ∨ s a b) a b) : TransGen r a b ∨
      ∃ c d, ReflTransGen r a c ∧ TransGen s c d ∧ ReflTransGen r d b := by
  induction path with
  | single edge => exact edge.imp .single fun edge => ⟨_, _, .refl, .single edge, .refl⟩
  | tail _ edge ih =>
    rcases edge with edge | edge
    · rcases ih with path | ⟨c, d, before, middle, after⟩
      · exact .inl (path.tail edge)
      · exact .inr ⟨c, d, before, middle, after.tail edge⟩
    · rcases ih with path | ⟨c, d, before, middle, after⟩
      · exact .inr ⟨_, _, path.to_reflTransGen, .single edge, .refl⟩
      · rcases reflTransGen_iff_eq_or_transGen.mp after with rfl | after
        · exact .inr ⟨c, _, before, middle.tail edge, .refl⟩
        · obtain ⟨_, _, last⟩ := TransGen.tail'_iff.mp middle
          exact absurd edge (apart _ _ _ _ last after)

theorem Acyclic.union (first : Acyclic r) (second : Acyclic s)
    (apart : ∀ a b c d, s a b → TransGen r b c → ¬s c d) : Acyclic fun a b => r a b ∨ s a b := by
  intro v cycle
  rcases path_of_apart apart cycle with path | ⟨c, d, before, middle, after⟩
  · exact first v path
  · rcases reflTransGen_iff_eq_or_transGen.mp (after.trans before) with rfl | around
    · exact second _ middle
    · obtain ⟨_, _, last⟩ := TransGen.tail'_iff.mp middle
      obtain ⟨_, next, _⟩ := TransGen.head'_iff.mp middle
      exact apart _ _ _ _ last around next

/-- A set of vertices in which every member has a predecessor inside the set cannot be finite and
non-empty when the relation is acyclic. -/
theorem Acyclic.exists_source (acyclic : Acyclic r) (vertices : List V) (nonempty : vertices ≠ []) :
    ∃ v ∈ vertices, ∀ u ∈ vertices, ¬r u v := by
  -- Walk backwards: a chain of predecessors that never leaves the list has to repeat a vertex.
  by_contra none
  push Not at none
  have extend : ∀ size : Nat, ∃ path : List V, path.length = size + 1 ∧ path ⊆ vertices ∧
      path.IsChain r ∧ path.Nodup := by
    intro size
    induction size with
    | zero =>
      obtain ⟨v, mem⟩ := exists_mem_of_ne_nil vertices nonempty
      exact ⟨[v], rfl, by simpa using mem, by simp, by simp⟩
    | succ size ih =>
      obtain ⟨path, length, inside, chain, distinct⟩ := ih
      match path, length with
      | v :: rest, length =>
        obtain ⟨u, mem, edge⟩ := none v (inside (by simp))
        refine ⟨u :: v :: rest, by simpa using length, ?_, ?_, ?_⟩
        · exact cons_subset.mpr ⟨mem, inside⟩
        · exact isChain_cons_cons.mpr ⟨edge, chain⟩
        · refine nodup_cons.mpr ⟨?_, distinct⟩
          intro repeated
          have reaches : TransGen r u u := by
            have pairs := List.IsChain.pairwise (R := TransGen r)
              (List.IsChain.imp (fun _ _ => TransGen.single)
                (isChain_cons_cons.mpr ⟨edge, chain⟩))
            exact (pairwise_cons.mp pairs).1 u repeated
          exact acyclic u reaches
  obtain ⟨_, _, inside, _, distinct⟩ := extend vertices.length
  have bound := (subperm_of_subset distinct inside).length_le
  omega

end Agentloom
