import Mathlib.Data.List.Basic
import Mathlib.Tactic.Common

/-! Lists of numbers without gap, repetition or reordering. -/

namespace Agentloom.Sequence

open List

def Consecutive (start : Int) : List Int → Prop
  | [] => True
  | n :: rest => n = start + 1 ∧ Consecutive n rest

instance decidableConsecutive : (start : Int) → (numbers : List Int) →
    Decidable (Consecutive start numbers)
  | _, [] => .isTrue trivial
  | start, n :: rest =>
    have := decidableConsecutive n rest
    inferInstanceAs (Decidable (n = start + 1 ∧ Consecutive n rest))

variable {start : Int}

theorem Consecutive.append : Consecutive start (first ++ second) ↔
      Consecutive start first ∧ Consecutive (start + first.length) second := by
  induction first generalizing start with
  | nil => simp [Consecutive]
  | cons n rest ih =>
    simp only [cons_append, Consecutive, ih, and_assoc, length_cons]
    refine and_congr_right fun next => and_congr_right fun _ => ?_
    rw [next, show start + 1 + (rest.length : Int) = start + (rest.length + 1 : Nat) by omega]

theorem consecutive_range (start count : Nat) :
    Consecutive start ((range' (start + 1) count).map Int.ofNat) := by
  induction count generalizing start with
  | zero => trivial
  | succ count ih => exact ⟨rfl, ih (start + 1)⟩

variable {numbers : List Int}

theorem Consecutive.mem (consecutive : Consecutive start numbers) :
    n ∈ numbers ↔ start < n ∧ n ≤ start + numbers.length := by
  induction numbers generalizing start with
  | nil => simp
  | cons first rest ih =>
    obtain ⟨rfl, later⟩ := consecutive
    rw [mem_cons, ih later, length_cons]
    omega

theorem Consecutive.nodup (consecutive : Consecutive start numbers) : numbers.Nodup := by
  induction numbers generalizing start with
  | nil => exact nodup_nil
  | cons first rest ih =>
    obtain ⟨_, later⟩ := consecutive
    refine nodup_cons.mpr ⟨fun member => ?_, ih later⟩
    have above := (later.mem.mp member).1
    omega

theorem Consecutive.take (consecutive : Consecutive start numbers) (count : Nat) :
    Consecutive start (numbers.take count) := by
  have whole := consecutive
  rw [← take_append_drop count numbers] at whole
  exact (Consecutive.append.mp whole).1

theorem Consecutive.filter_above (consecutive : Consecutive start numbers)
    (above : start ≤ low) : Consecutive low (numbers.filter fun n => low < n) := by
  induction numbers generalizing start with
  | nil => trivial
  | cons first rest ih =>
    obtain ⟨rfl, later⟩ := consecutive
    by_cases inside : low < start + 1
    · have same : low = start := by omega
      subst same
      have all : (rest.filter fun n => low < n) = rest := by
        refine filter_eq_self.mpr fun n member => decide_eq_true ?_
        have bounds := later.mem.mp member
        omega
      rw [filter_cons_of_pos (by simp [inside]), all]
      exact ⟨rfl, later⟩
    · rw [filter_cons_of_neg (by simpa using inside)]
      exact ih later (by omega)

def Steady {α : Type} (kept : α → Bool) (items : List α) : Prop :=
  items.Pairwise fun earlier later => kept later = true → kept earlier = true

/-- The numbers that are kept of a consecutive list are consecutive exactly when nothing is kept
after something was dropped. -/
theorem consecutive_kept_iff {α : Type} {number kept} {items : List α}
    (consecutive : Consecutive start (items.map number)) :
    Consecutive start ((items.filter kept).map number) ↔ Steady kept items := by
  induction items generalizing start with
  | nil => simp [Consecutive, Steady]
  | cons item rest ih =>
    obtain ⟨next, later⟩ := consecutive
    rw [Steady, pairwise_cons]
    cases isKept : kept item with
    | true =>
      rw [filter_cons_of_pos isKept, map_cons]
      simp only [Consecutive, next, true_and, implies_true]
      rw [next] at later
      exact ih later
    | false =>
      rw [filter_cons_of_neg (by simp [isKept])]
      -- the first number kept from the rest is too large to follow the start
      have none : Consecutive start ((rest.filter kept).map number) ↔ rest.filter kept = [] := by
        constructor
        · intro follows
          cases keeps : rest.filter kept with
          | nil => rfl
          | cons first others =>
            rw [keeps] at follows
            have member : first ∈ rest :=
              (mem_filter.mp (keeps ▸ mem_cons_self : first ∈ rest.filter kept)).1
            have bounds := later.mem.mp (mem_map_of_mem member)
            have follow := follows.1
            omega
        · intro empty
          rw [empty]
          trivial
      rw [none, filter_eq_nil_iff]
      constructor
      · intro dropped
        refine ⟨fun other member keeps => absurd keeps (dropped other member), ?_⟩
        exact pairwise_of_forall_mem_list fun _ _ other member keeps =>
          absurd keeps (dropped other member)
      · rintro ⟨first, _⟩ other member keeps
        cases first other member keeps

end Agentloom.Sequence
