import Mathlib.Data.List.Nodup
import Mathlib.Data.List.Count
import Agentloom.Library.Acyclic

/-! Kahn's algorithm over an arbitrary vertex type. The queue holds the vertices whose incoming
edges are all accounted for; the order it produces lists every vertex after its predecessors, and
it is complete when the edges are acyclic. -/

namespace Agentloom.Kahn

open List

variable {α ε : Type} [DecidableEq α]

structure Sorting (α : Type) where
  remaining : α → Int
  queue : List α
  order : List α

def relax (target : ε → α) (state : Sorting α) (edge : ε) : Sorting α :=
  let left := state.remaining (target edge) - 1
  { state with
    remaining := fun v => if v = target edge then left else state.remaining v
    queue := if left = 0 then state.queue ++ [target edge] else state.queue }

def sort (out : α → List ε) (target : ε → α) : Nat → Sorting α → Sorting α
  | 0, state => state
  | fuel + 1, state =>
    match state.queue with
    | [] => state
    | v :: rest =>
      sort out target fuel
        ((out v).foldl (relax target) { state with queue := rest, order := state.order ++ [v] })

def start (vertices : List α) (incoming : α → Nat) : Sorting α :=
  { remaining := fun v => incoming v
    queue := vertices.filter fun v => incoming v == 0
    order := [] }

def order (vertices : List α) (out : α → List ε) (target : ε → α) (incoming : α → Nat) : List α :=
  (sort out target vertices.length (start vertices incoming)).order

section Counts

variable (out : α → List ε) (target : ε → α)

def hits (sources : List α) (v : α) : Nat := ((sources.flatMap out).map target).count v

theorem hits_append (front rest : List α) (v : α) :
    hits out target (front ++ rest) v = hits out target front v + hits out target rest v := by
  simp [hits]

variable {out target}

theorem hits_perm (perm : sources.Perm sources') (v : α) :
    hits out target sources v = hits out target sources' v :=
  ((perm.flatMap_right out).map target).count_eq v

theorem hits_le (distinct : sources.Nodup) (inside : sources ⊆ vertices) (v : α) :
    hits out target sources v ≤ hits out target vertices v := by
  obtain ⟨_, perm, sub⟩ := subperm_of_subset distinct inside
  obtain ⟨_, split⟩ := sub.exists_perm_append
  rw [← hits_perm perm v, hits_perm split v, hits_append]
  omega

theorem hits_eq_zero :
    hits out target sources v = 0 ↔ ∀ u ∈ sources, ∀ edge ∈ out u, target edge ≠ v := by
  rw [hits, count_eq_zero]
  constructor
  · intro absent u mem edge leaves same
    exact absent (mem_map.mpr ⟨edge, mem_flatMap.mpr ⟨u, mem, leaves⟩, same⟩)
  · intro absent hit
    obtain ⟨edge, listed, same⟩ := mem_map.mp hit
    obtain ⟨u, mem, leaves⟩ := mem_flatMap.mp listed
    exact absent u mem edge leaves same

end Counts

section Run

variable {vertices : List α} {out : α → List ε} {target : ε → α} {incoming : α → Nat}

structure Relaxing (vertices : List α) (incoming : α → Nat) (done : List α) (state : Sorting α) :
    Prop where
  counted : ∀ v, state.remaining v = incoming v - (done.count v : Int)
  unique : (state.order ++ state.queue).Nodup
  inside : ∀ v ∈ state.order ++ state.queue, v ∈ vertices
  zero : ∀ v ∈ vertices, v ∈ state.order ++ state.queue ↔ state.remaining v = 0

theorem Relaxing.relax {state : Sorting α}
    (relaxing : Relaxing vertices incoming done state) (declared : target edge ∈ vertices)
    (within : (done ++ [target edge]).count (target edge) ≤ incoming (target edge)) :
    Relaxing vertices incoming (done ++ [target edge]) (Kahn.relax target state edge) := by
  have before := relaxing.counted (target edge)
  simp only [count_append, count_singleton_self] at within
  have fresh : target edge ∉ state.order ++ state.queue := by
    rw [relaxing.zero _ declared]
    omega
  have counted : ∀ v, (Kahn.relax target state edge).remaining v =
      incoming v - ((done ++ [target edge]).count v : Int) := by
    intro v
    by_cases same : v = target edge
    · subst same
      simp only [Kahn.relax, ↓reduceIte, count_append, count_singleton_self]
      omega
    · simp [Kahn.relax, same, count_append, Ne.symm same, relaxing.counted]
  by_cases last : state.remaining (target edge) - 1 = 0
  · have queued : state.order ++ (Kahn.relax target state edge).queue =
        (state.order ++ state.queue) ++ [target edge] := by
      simp [Kahn.relax, last]
    refine ⟨counted, ?_, ?_, ?_⟩
    · change (state.order ++ (Kahn.relax target state edge).queue).Nodup
      rw [queued]
      exact concat_eq_append ▸ List.Nodup.concat fresh relaxing.unique
    · intro v mem
      change v ∈ state.order ++ (Kahn.relax target state edge).queue at mem
      rw [queued, mem_append, mem_singleton] at mem
      rcases mem with old | rfl
      · exact relaxing.inside v old
      · exact declared
    · intro v mem
      change v ∈ state.order ++ (Kahn.relax target state edge).queue ↔ _
      rw [queued, mem_append, mem_singleton, relaxing.zero v mem]
      by_cases same : v = target edge
      · simp [same, Kahn.relax, last]
      · simp [same, Kahn.relax]
  · refine ⟨counted, ?_, ?_, ?_⟩
    · simpa [Kahn.relax, last] using relaxing.unique
    · simpa [Kahn.relax, last] using relaxing.inside
    · intro v mem
      by_cases same : v = target edge
      · subst same
        simpa [Kahn.relax, last] using fresh
      · simpa [Kahn.relax, last, same] using relaxing.zero v mem

theorem Relaxing.relaxAll {edges : List ε} {state : Sorting α}
    (relaxing : Relaxing vertices incoming done state)
    (declared : ∀ edge ∈ edges, target edge ∈ vertices)
    (within : ∀ v, (done ++ edges.map target).count v ≤ incoming v) :
    Relaxing vertices incoming (done ++ edges.map target) (edges.foldl (Kahn.relax target) state) := by
  induction edges generalizing done state with
  | nil => simpa using relaxing
  | cons edge rest ih =>
    have split : done ++ (edge :: rest).map target = (done ++ [target edge]) ++ rest.map target := by
      simp
    rw [split]
    refine ih (relaxing.relax (declared edge (by simp)) ?_)
      (fun other mem => declared other (mem_cons_of_mem _ mem)) ?_
    · have bound := within (target edge)
      rw [split, count_append] at bound
      omega
    · rw [← split]
      exact within

theorem relax_order (edges : List ε) (state : Sorting α) :
    (edges.foldl (relax target) state).order = state.order := by
  induction edges generalizing state with
  | nil => rfl
  | cons edge rest ih => exact ih (relax target state edge)

structure Consistent (vertices : List α) (out : α → List ε) (target : ε → α) (incoming : α → Nat)
    (state : Sorting α) : Prop where
  relaxing : Relaxing vertices incoming ((state.order.flatMap out).map target) state
  ordered : ∀ front v rest, state.order = front ++ v :: rest →
    ∀ u ∈ vertices, ∀ edge ∈ out u, target edge = v → u ∈ front

theorem start_sound (distinct : vertices.Nodup) :
    Consistent vertices out target incoming (start vertices incoming) := by
  refine ⟨⟨fun v => by simp [start], ?_, ?_, ?_⟩, ?_⟩
  · simpa [start] using distinct.filter _
  · intro v mem
    simp only [start, nil_append, mem_filter] at mem
    exact mem.1
  · intro v mem
    simp [start, mem]
  · intro front v rest split
    simp [start] at split

section Steps

variable (indegree : ∀ v, incoming v = hits out target vertices v)

include indegree

theorem Consistent.placed {state : Sorting α} (sound : Consistent vertices out target incoming state)
    (zero : state.remaining v = 0) (mem : u ∈ vertices) (leaves : edge ∈ out u)
    (same : target edge = v) : u ∈ state.order := by
  by_contra absent
  have distinct : (state.order ++ [u]).Nodup := by
    have unique := (nodup_append.mp sound.relaxing.unique).1
    exact concat_eq_append ▸ List.Nodup.concat absent unique
  have inside : state.order ++ [u] ⊆ vertices := by
    intro w placed
    rcases mem_append.mp placed with old | new
    · exact sound.relaxing.inside w (mem_append_left _ old)
    · exact mem_singleton.mp new ▸ mem
  have bound : hits out target (state.order ++ [u]) v ≤ hits out target vertices v :=
    hits_le distinct inside v
  have positive : hits out target [u] v ≠ 0 := by
    intro none
    exact hits_eq_zero.mp none u (by simp) edge leaves same
  have counted := sound.relaxing.counted v
  rw [hits_append] at bound
  rw [indegree v, zero] at counted
  change (0 : Int) = _ - (hits out target state.order v : Int) at counted
  omega

theorem Consistent.next {state : Sorting α} (sound : Consistent vertices out target incoming state)
    (declared : ∀ u ∈ vertices, ∀ edge ∈ out u, target edge ∈ vertices) {v : α}
    (queue : state.queue = v :: rest) : Consistent vertices out target incoming
      ((out v).foldl (relax target) { state with queue := rest, order := state.order ++ [v] }) := by
  have same : state.order ++ state.queue = (state.order ++ [v]) ++ rest := by simp [queue]
  have mem : v ∈ vertices := sound.relaxing.inside v (by simp [queue])
  have zero : state.remaining v = 0 := (sound.relaxing.zero v mem).mp (by simp [queue])
  have moved : Relaxing vertices incoming ((state.order.flatMap out).map target)
      { state with queue := rest, order := state.order ++ [v] } := by
    refine ⟨sound.relaxing.counted, ?_, ?_, ?_⟩
    · exact same ▸ sound.relaxing.unique
    · exact same ▸ sound.relaxing.inside
    · exact same ▸ sound.relaxing.zero
  have edges : ((state.order ++ [v]).flatMap out).map target =
      (state.order.flatMap out).map target ++ (out v).map target := by simp
  refine ⟨?_, ?_⟩
  · rw [relax_order, edges]
    refine moved.relaxAll (declared v mem) fun w => ?_
    rw [← edges, indegree w]
    refine hits_le ?_ (fun u placed => moved.inside u (mem_append_left _ placed)) w
    exact (nodup_append.mp moved.unique).1
  · rw [relax_order]
    intro front w back split u inside edge leaves targets
    rcases append_eq_append_iff.mp split with ⟨tail, rfl, short⟩ | ⟨tail, long, short⟩
    · -- `w` is the vertex just taken off the queue, or stands after it.
      cases tail with
      | nil =>
        simp only [nil_append, cons.injEq] at short
        rw [append_nil]
        exact sound.placed indegree zero inside leaves (targets.trans short.1.symm)
      | cons first others => simp at short
    · cases tail with
      | nil =>
        simp only [nil_append, cons.injEq] at short
        rw [append_nil] at long
        rw [← long]
        exact sound.placed indegree zero inside leaves (targets.trans short.1)
      | cons first others =>
        simp only [cons_append, cons.injEq] at short
        exact sound.ordered front w others (by rw [long, short.1]) u inside edge leaves targets

theorem sort_sound (declared : ∀ u ∈ vertices, ∀ edge ∈ out u, target edge ∈ vertices) (fuel : Nat)
    {state : Sorting α} (sound : Consistent vertices out target incoming state) :
    Consistent vertices out target incoming (sort out target fuel state) := by
  induction fuel generalizing state with
  | zero => exact sound
  | succ fuel ih =>
    unfold sort
    split
    · exact sound
    · rename_i v rest queue
      exact ih (sound.next indegree declared queue)

theorem sort_drains (declared : ∀ u ∈ vertices, ∀ edge ∈ out u, target edge ∈ vertices)
    {state : Sorting α} (sound : Consistent vertices out target incoming state)
    (enough : vertices.length ≤ state.order.length + fuel) :
    (sort out target fuel state).queue = [] := by
  induction fuel generalizing state with
  | zero =>
    have bound := (subperm_of_subset sound.relaxing.unique sound.relaxing.inside).length_le
    rw [length_append] at bound
    exact length_eq_zero_iff.mp (by simp only [sort]; omega)
  | succ fuel ih =>
    unfold sort
    split
    · assumption
    · rename_i v rest queue
      refine ih (sound.next indegree declared queue) ?_
      rw [relax_order]
      simp only [length_append, length_singleton]
      omega

variable (distinct : vertices.Nodup)
  (declared : ∀ u ∈ vertices, ∀ edge ∈ out u, target edge ∈ vertices)

include distinct declared

theorem order_sound : Consistent vertices out target incoming
    (sort out target vertices.length (start vertices incoming)) :=
  sort_sound indegree declared _ (start_sound distinct)

theorem order_nodup : (order vertices out target incoming).Nodup :=
  (nodup_append.mp (order_sound indegree distinct declared).relaxing.unique).1

theorem order_subset : order vertices out target incoming ⊆ vertices := by
  intro v mem
  exact (order_sound indegree distinct declared).relaxing.inside v (mem_append_left _ mem)

theorem order_complete
    (acyclic : Acyclic fun u v => u ∈ vertices ∧ ∃ edge ∈ out u, target edge = v) :
    vertices ⊆ order vertices out target incoming := by
  by_contra incomplete
  let state := sort out target vertices.length (start vertices incoming)
  have sound : Consistent vertices out target incoming state := order_sound indegree distinct declared
  have drained : state.queue = [] :=
    sort_drains indegree declared (start_sound distinct) (by simp [start])
  let missing := vertices.filter fun v => v ∉ state.order
  have nonempty : missing ≠ [] := by
    intro empty
    refine incomplete fun v mem => ?_
    have placed : v ∈ state.order := by simpa using filter_eq_nil_iff.mp empty v mem
    exact placed
  obtain ⟨v, lacking, source⟩ := acyclic.exists_source missing nonempty
  obtain ⟨mem, absent⟩ := mem_filter.mp lacking
  -- No edge into `v` starts at a missing vertex, so the placed ones account for all of them.
  have perm : (state.order ++ missing).Perm vertices := by
    refine (perm_ext_iff_of_nodup ?_ distinct).mpr fun w => ?_
    · refine List.Nodup.append (order_nodup indegree distinct declared) (distinct.filter _) ?_
      intro w placed lacks
      simpa [placed, state] using (mem_filter.mp lacks).2
    · simp only [mem_append, missing, mem_filter, decide_eq_true_eq]
      constructor
      · rintro (placed | lacks)
        · exact order_subset indegree distinct declared placed
        · exact lacks.1
      · intro inside
        by_cases placed : w ∈ state.order
        · exact .inl placed
        · exact .inr ⟨inside, placed⟩
  have unhit : hits out target missing v = 0 := by
    rw [hits_eq_zero]
    intro u lacks edge leaves same
    exact source u lacks ⟨(mem_filter.mp lacks).1, edge, leaves, same⟩
  have counted : state.remaining v = 0 := by
    have total : hits out target (state.order ++ missing) v = hits out target vertices v :=
      hits_perm perm v
    rw [hits_append, unhit, ← indegree v] at total
    have count := sound.relaxing.counted v
    change state.remaining v = incoming v - (hits out target state.order v : Int) at count
    omega
  have placed := (sound.relaxing.zero v mem).mpr counted
  rw [drained, append_nil] at placed
  simp [placed] at absent

end Steps

end Run

end Agentloom.Kahn
