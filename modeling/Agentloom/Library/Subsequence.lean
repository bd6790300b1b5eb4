import Mathlib.Algebra.Order.Group.Nat
import Mathlib.Data.List.Basic

/-! Lists of lines: the length of a longest common subsequence, by comparing heads, and the lists
that a separator splits a list into. -/

namespace Agentloom

open List

variable {α : Type}

theorem intercalate_concat {x : α} {lines : List (List α)} (line : List α) (some : lines ≠ []) :
    [x].intercalate (lines ++ [line]) = [x].intercalate lines ++ x :: line := by
  induction lines with
  | nil => exact absurd rfl some
  | cons first rest ih =>
    cases rest with
    | nil => simp [intercalate]
    | cons second rest =>
      rw [cons_append, cons_append, intercalate_cons_cons, intercalate_cons_cons, ← cons_append,
        ih (by simp)]
      simp

variable [DecidableEq α]

theorem splitOn_cons (x y : α) (xs : List α) : (y :: xs).splitOn x =
    if y = x then [] :: xs.splitOn x else (xs.splitOn x).modifyHead (y :: ·) := by
  simp [splitOn, splitOnP_cons_eq_if_modifyHead]

theorem notMem_of_mem_splitOn {x : α} : ∀ {xs line : List α}, line ∈ xs.splitOn x → x ∉ line
  | [], _, mem => by simp_all
  | y :: xs, line, mem => by
    rw [splitOn_cons] at mem
    split at mem
    · rcases mem_cons.mp mem with rfl | later
      · exact not_mem_nil
      · exact notMem_of_mem_splitOn later
    · cases split : xs.splitOn x with
      | nil => simp [split] at mem
      | cons first rest =>
        have inner : ∀ line ∈ first :: rest, x ∉ line := fun line mem =>
          notMem_of_mem_splitOn (split ▸ mem)
        simp only [split, modifyHead_cons, mem_cons] at mem
        rcases mem with rfl | later
        · simp [Ne.symm ‹_›, inner first mem_cons_self]
        · exact inner line (mem_cons_of_mem _ later)

def lcsLength : List α → List α → Nat
  | [], _ => 0
  | _ :: _, [] => 0
  | a :: as, b :: bs =>
    if a = b then lcsLength as bs + 1 else max (lcsLength as (b :: bs)) (lcsLength (a :: as) bs)
termination_by as bs => as.length + bs.length

@[simp] theorem lcsLength_nil_left (bs : List α) : lcsLength [] bs = 0 := by
  rw [lcsLength]

@[simp] theorem lcsLength_nil_right (as : List α) : lcsLength as [] = 0 := by
  cases as <;> rw [lcsLength]

theorem lcsLength_drop {as bs : List α} {i j} (inA : i < as.length) (inB : j < bs.length) :
    lcsLength (as.drop i) (bs.drop j) =
      if as[i] = bs[j] then lcsLength (as.drop (i + 1)) (bs.drop (j + 1)) + 1
      else max (lcsLength (as.drop (i + 1)) (bs.drop j)) (lcsLength (as.drop i) (bs.drop (j + 1))) := by
  rw [drop_eq_getElem_cons inA, drop_eq_getElem_cons inB, lcsLength]

theorem length_le_lcsLength {as bs common : List α} (left : common <+ as) (right : common <+ bs) :
    common.length ≤ lcsLength as bs := by
  induction as, bs using lcsLength.induct generalizing common with
  | case1 bs => simp [sublist_nil.mp left]
  | case2 a as => simp [sublist_nil.mp right]
  | case3 a as bs ih =>
    -- equal heads: what follows the first element of a common subsequence is one of the tails
    have tails := ih left.tail right.tail
    rw [lcsLength, if_pos rfl]
    rw [length_tail] at tails
    omega
  | case4 a as b bs differ ihLeft ihRight =>
    rw [lcsLength, if_neg differ]
    rcases sublist_cons_iff.mp left with later | ⟨rest, rfl, _⟩
    · exact (ihLeft later right).trans (le_max_left _ _)
    · rcases sublist_cons_iff.mp right with later | ⟨_, same, _⟩
      · exact (ihRight left later).trans (le_max_right _ _)
      · exact absurd (cons.inj same).1 differ

end Agentloom
