import Mathlib.Data.List.Nodup
import Mathlib.Data.List.Count
import Mathlib.Tactic.Common

/-! Tables as lists of rows. A guarded update rewrites the first row that meets the guard; what it
does to counts, keys and membership is said once, for a single replaced row. -/

namespace Agentloom.Table

open List

variable {α κ : Type} {rows : List α} {key : α → κ}

def updateFirst (guard : α → Bool) (set : α → α) : List α → Option (α × List α)
  | [] => none
  | row :: rest =>
    if guard row then some (set row, set row :: rest)
    else (updateFirst guard set rest).map fun result => (result.1, row :: result.2)

def Replaced (rows rows' : List α) (old new : α) : Prop :=
  ∃ front rest, rows = front ++ old :: rest ∧ rows' = front ++ new :: rest

theorem updateFirst_some {guard set rows rows'} {new : α}
    (updated : updateFirst guard set rows = some (new, rows')) :
    ∃ old, guard old = true ∧ new = set old ∧ Replaced rows rows' old new := by
  induction rows generalizing rows' with
  | nil => simp [updateFirst] at updated
  | cons row rest ih =>
    unfold updateFirst at updated
    split at updated
    · rename_i meets
      cases updated
      exact ⟨row, meets, rfl, [], rest, rfl, rfl⟩
    · obtain ⟨⟨_, _⟩, inner, same⟩ := Option.map_eq_some_iff.mp updated
      cases same
      obtain ⟨old, meets, set, front, back, split, split'⟩ := ih inner
      exact ⟨old, meets, set, row :: front, back, by simp [split], by simp [split']⟩

theorem updateFirst_none {guard set} :
    updateFirst guard set rows = none ↔ ∀ row ∈ rows, guard row = false := by
  induction rows with
  | nil => simp [updateFirst]
  | cons row rest ih =>
    unfold updateFirst
    by_cases meets : guard row = true
    · simp [meets]
    · simp [meets, ih]

namespace Replaced

variable {rows rows' : List α} {old new : α}

theorem old_mem (replaced : Replaced rows rows' old new) : old ∈ rows := by
  obtain ⟨_, _, rfl, _⟩ := replaced
  simp

theorem new_mem (replaced : Replaced rows rows' old new) : new ∈ rows' := by
  obtain ⟨_, _, _, rfl⟩ := replaced
  simp

theorem mem_of_mem (replaced : Replaced rows rows' old new) (mem : row ∈ rows') :
    row = new ∨ row ∈ rows := by
  obtain ⟨_, _, rfl, rfl⟩ := replaced
  simp only [mem_append, mem_cons] at mem ⊢
  rcases mem with inFront | same | inRest
  · exact .inr (.inl inFront)
  · exact .inl same
  · exact .inr (.inr (.inr inRest))

theorem mem_or_old (replaced : Replaced rows rows' old new) (mem : row ∈ rows) :
    row = old ∨ row ∈ rows' := by
  obtain ⟨_, _, rfl, rfl⟩ := replaced
  simp only [mem_append, mem_cons] at mem ⊢
  rcases mem with inFront | same | inRest
  · exact .inr (.inl inFront)
  · exact .inl same
  · exact .inr (.inr (.inr inRest))

theorem countP (replaced : Replaced rows rows' old new) (p : α → Bool) :
    rows'.countP p + (if p old then 1 else 0) = rows.countP p + if p new then 1 else 0 := by
  obtain ⟨_, _, rfl, rfl⟩ := replaced
  simp only [countP_append, countP_cons]
  omega

theorem filter (replaced : Replaced rows rows' old new) (p : α → Bool) :
    ∃ front rest, rows.filter p = front ++ (if p old then [old] else []) ++ rest ∧
      rows'.filter p = front ++ (if p new then [new] else []) ++ rest := by
  obtain ⟨front, rest, rfl, rfl⟩ := replaced
  refine ⟨front.filter p, rest.filter p, ?_, ?_⟩
  · rw [filter_append, filter_cons]
    split <;> simp
  · rw [filter_append, filter_cons]
    split <;> simp

theorem length (replaced : Replaced rows rows' old new) : rows'.length = rows.length := by
  obtain ⟨_, _, rfl, rfl⟩ := replaced
  simp

theorem map_eq {κ : Type*} (replaced : Replaced rows rows' old new) (key : α → κ)
    (same : key new = key old) : rows'.map key = rows.map key := by
  obtain ⟨_, _, rfl, rfl⟩ := replaced
  simp [same]

theorem mem_iff_of_ne (replaced : Replaced rows rows' old new) (notOld : row ≠ old)
    (notNew : row ≠ new) : row ∈ rows' ↔ row ∈ rows := by
  constructor
  · intro mem
    exact (replaced.mem_of_mem mem).resolve_left notNew
  · intro mem
    exact (replaced.mem_or_old mem).resolve_left notOld

theorem key_ne (replaced : Replaced rows rows' old new)
    (unique : (rows.map key).Nodup) (mem : row ∈ rows') :
    row = new ∨ (row ∈ rows ∧ key row ≠ key old) := by
  obtain ⟨_, _, rfl, rfl⟩ := replaced
  rw [map_append, map_cons, nodup_append, nodup_cons] at unique
  obtain ⟨_, ⟨notRest, _⟩, apart⟩ := unique
  simp only [mem_append, mem_cons] at mem ⊢
  rcases mem with inFront | isNew | inRest
  · refine .inr ⟨.inl inFront, ?_⟩
    exact apart _ (mem_map_of_mem inFront) _ (by simp)
  · exact .inl isNew
  · refine .inr ⟨.inr (.inr inRest), fun clash => notRest ?_⟩
    exact clash ▸ mem_map_of_mem inRest

theorem eq_map [DecidableEq κ] (replaced : Replaced rows rows' old new)
    (unique : (rows.map key).Nodup) :
    rows' = rows.map fun row => if key row = key old then new else row := by
  obtain ⟨front, rest, rfl, rfl⟩ := replaced
  rw [map_append, map_cons, nodup_append, nodup_cons] at unique
  obtain ⟨_, ⟨notRest, _⟩, apart⟩ := unique
  rw [map_append, map_cons, if_pos rfl]
  congr 1
  · refine (map_id front).symm.trans (map_congr_left fun row mem => ?_)
    exact (if_neg (apart _ (mem_map_of_mem mem) _ (by simp))).symm
  · congr 1
    refine (map_id rest).symm.trans (map_congr_left fun row mem => ?_)
    have other : key row ≠ key old := fun same => notRest (same ▸ mem_map_of_mem mem)
    exact (if_neg other).symm

theorem trans (first : Replaced rows rows' old new)
    (second : Replaced rows' rows'' new last) (unique : (rows.map key).Nodup)
    (same : key new = key old) : Replaced rows rows'' old last := by
  have unique' := first.map_eq key same ▸ unique
  obtain ⟨front, rest, rfl, rfl⟩ := first
  obtain ⟨_, _, split, rfl⟩ := second
  have distinct := nodup_append.mp unique'.of_map
  obtain ⟨rfl, _, rfl⟩ := (append_cons_inj_of_notMem
    (fun inFront => distinct.2.2 _ inFront _ mem_cons_self rfl)
    (nodup_cons.mp distinct.2.1).1).mp split
  exact ⟨front, rest, rfl, rfl⟩

end Replaced

theorem eq_of_key (unique : (rows.map key).Nodup)
    (memberA : a ∈ rows) (memberB : b ∈ rows) (same : key a = key b) : a = b :=
  inj_on_of_nodup_map unique memberA memberB same

end Agentloom.Table
