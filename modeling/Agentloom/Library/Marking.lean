import Mathlib.Data.List.Perm.Subperm
import Mathlib.Tactic.Common

/-! Marking to a fixed point. Rounds visit the items in order and mark those that a test selects,
where the test may look at every mark made so far; the rounds stop when one of them adds nothing. -/

namespace Agentloom.Marking

open List

variable {ι κ : Type} [DecidableEq κ] (key : ι → κ) (test : List κ → ι → Bool) {holds : κ → Prop}

def visit (marked : List κ) (item : ι) : List κ :=
  if key item ∉ marked ∧ test marked item = true then marked ++ [key item] else marked

def round (items : List ι) (marked : List κ) : List κ := items.foldl (visit key test) marked

def rounds (items : List ι) : Nat → List κ → List κ
  | 0, marked => marked
  | fuel + 1, marked =>
    let next := round key test items marked
    if next.length = marked.length then marked else rounds items fuel next

def fixpoint (items : List ι) : List κ := rounds key test items (items.length + 1) []

theorem round_cons (item : ι) (rest : List ι) (marked : List κ) :
    round key test (item :: rest) marked = round key test rest (visit key test marked item) := rfl

theorem visit_prefix (marked : List κ) (item : ι) :
    ∃ added, visit key test marked item = marked ++ added := by
  unfold visit
  split
  · exact ⟨_, rfl⟩
  · exact ⟨[], (append_nil _).symm⟩

theorem round_prefix (items : List ι) (marked : List κ) :
    ∃ added, round key test items marked = marked ++ added := by
  induction items generalizing marked with
  | nil => exact ⟨[], (append_nil _).symm⟩
  | cons item rest ih =>
    obtain ⟨first, visited⟩ := visit_prefix key test marked item
    obtain ⟨later, others⟩ := ih (visit key test marked item)
    refine ⟨first ++ later, ?_⟩
    rw [round_cons, others, visited, append_assoc]

theorem visit_unchanged (same : (round key test (item :: rest) marked).length = marked.length) :
    visit key test marked item = marked := by
  obtain ⟨first, visited⟩ := visit_prefix key test marked item
  obtain ⟨_, others⟩ := round_prefix key test rest (visit key test marked item)
  rw [round_cons, others, visited, length_append, length_append] at same
  rw [visited, eq_nil_of_length_eq_zero (by omega : first.length = 0), append_nil]

theorem round_closed (same : (round key test items marked).length = marked.length) :
    ∀ item ∈ items, key item ∉ marked → test marked item = false := by
  induction items with
  | nil => simp
  | cons item rest ih =>
    have unchanged := visit_unchanged key test same
    rw [round_cons, unchanged] at same
    intro other mem unmarked
    rcases mem_cons.mp mem with rfl | inRest
    · by_contra selected
      rw [visit, if_pos ⟨unmarked, by simpa using selected⟩] at unchanged
      simp at unchanged
    · exact ih same other inRest unmarked

theorem round_least
    (step : ∀ marks, (∀ k ∈ marks, holds k) → ∀ item ∈ items, test marks item = true →
      holds (key item)) (start : ∀ k ∈ marked, holds k) :
    ∀ k ∈ round key test items marked, holds k := by
  induction items generalizing marked with
  | nil => exact start
  | cons item rest ih =>
    refine ih (fun marks held other mem => step marks held other (by simp [mem])) ?_
    intro k mem
    unfold visit at mem
    split at mem
    · rename_i selected
      rcases mem_append.mp mem with old | new
      · exact start k old
      · rw [mem_singleton.mp new]
        exact step marked start item (by simp) selected.2
    · exact start k mem

theorem rounds_least
    (step : ∀ marks, (∀ k ∈ marks, holds k) → ∀ item ∈ items, test marks item = true →
      holds (key item)) (start : ∀ k ∈ marked, holds k) :
    ∀ k ∈ rounds key test items fuel marked, holds k := by
  induction fuel generalizing marked with
  | zero => exact start
  | succ fuel ih =>
    unfold rounds
    dsimp only
    split
    · exact start
    · exact ih (round_least key test step start)

theorem round_nodup (distinct : marked.Nodup) : (round key test items marked).Nodup := by
  induction items generalizing marked with
  | nil => exact distinct
  | cons item rest ih =>
    refine ih ?_
    unfold visit
    split
    · rename_i selected
      refine nodup_append.mpr ⟨distinct, by simp, fun k old other new => ?_⟩
      rw [mem_singleton.mp new]
      exact fun same => selected.1 (same ▸ old)
    · exact distinct

theorem rounds_closed (distinct : marked.Nodup)
    (inside : marked ⊆ items.map key) (enough : items.length < fuel + marked.length) :
    ∀ item ∈ items, key item ∉ rounds key test items fuel marked →
      test (rounds key test items fuel marked) item = false := by
  induction fuel generalizing marked with
  | zero =>
    have bound := (distinct.subperm inside).length_le
    rw [length_map] at bound
    omega
  | succ fuel ih =>
    unfold rounds
    dsimp only
    split
    · rename_i same
      exact round_closed key test same
    · rename_i grown
      refine ih (round_nodup key test distinct)
        (round_least key test (fun _ _ _ mem _ => mem_map_of_mem mem) inside) ?_
      obtain ⟨_, extended⟩ := round_prefix key test items marked
      rw [extended, length_append] at grown ⊢
      omega

theorem rounds_nodup (distinct : marked.Nodup) : (rounds key test items fuel marked).Nodup := by
  induction fuel generalizing marked with
  | zero => exact distinct
  | succ fuel ih =>
    unfold rounds
    dsimp only
    split
    · exact distinct
    · exact ih (round_nodup key test distinct)

theorem fixpoint_nodup (items : List ι) : (fixpoint key test items).Nodup :=
  rounds_nodup key test nodup_nil

theorem fixpoint_closed (mem : item ∈ items) (outside : key item ∉ fixpoint key test items) :
    test (fixpoint key test items) item = false :=
  rounds_closed key test nodup_nil (nil_subset _) (by simp) item mem outside

theorem fixpoint_least
    (step : ∀ marks, (∀ k ∈ marks, holds k) → ∀ item ∈ items, test marks item = true →
      holds (key item)) : ∀ k ∈ fixpoint key test items, holds k :=
  rounds_least key test step (by simp)

/-- For a test that more marks can only help, an induction may also use that every earlier mark is
one of the fixed point. -/
theorem fixpoint_induction
    (mono : ∀ marks marks', marks ⊆ marks' → ∀ item ∈ items, test marks item = true →
      test marks' item = true)
    (step : ∀ marks, (∀ k ∈ marks, k ∈ fixpoint key test items ∧ holds k) → ∀ item ∈ items,
      test marks item = true → holds (key item)) : ∀ k ∈ fixpoint key test items, holds k := by
  have both : ∀ k ∈ fixpoint key test items, k ∈ fixpoint key test items ∧ holds k := by
    refine fixpoint_least key test fun marks held item mem selected => ⟨?_, ?_⟩
    · by_contra outside
      have closed := fixpoint_closed key test mem outside
      simp [mono marks _ (fun k marked => (held k marked).1) item mem selected] at closed
    · exact step marks held item mem selected
  exact fun k mem => (both k mem).2

theorem fixpoint_eq_nil_iff {items : List ι} :
    fixpoint key test items = [] ↔ ∀ item ∈ items, test [] item = false := by
  constructor
  · intro empty item mem
    have closed := fixpoint_closed key test mem (by rw [empty]; exact not_mem_nil)
    rwa [empty] at closed
  · intro unselected
    have nothing : ∀ k ∈ fixpoint key test items, False := by
      refine fixpoint_least key test fun marks none item mem selected => ?_
      rw [eq_nil_iff_forall_not_mem.mpr none, unselected item mem] at selected
      exact Bool.false_ne_true selected
    exact eq_nil_iff_forall_not_mem.mpr nothing

end Agentloom.Marking
