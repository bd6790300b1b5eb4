import Mathlib.Algebra.Group.Nat.Defs
import Mathlib.Data.List.Basic

/-! Sequences written one after the other, each behind its length, which always takes the same
number of places. What is written can then be cut in one way only. -/

namespace Agentloom.Framing

open List

structure LengthMark (α : Type) (bound : Nat) where
  write : Nat → List α
  width : Nat
  width_pos : 0 < width
  length_write : ∀ n, (write n).length = width
  injective : ∀ m < bound, ∀ n < bound, write m = write n → m = n

abbrev Sized (α : Type) (bound : Nat) := { items : List α // items.length < bound }

variable {α : Type} {bound : Nat} (mark : LengthMark α bound)

def frames (parts : List (Sized α bound)) : List α :=
  parts.flatMap fun part => mark.write part.val.length ++ part.val

theorem frames_cons_ne (part : Sized α bound) (rest : List (Sized α bound)) :
    frames mark (part :: rest) ≠ [] := by
  intro empty
  have length := congrArg length empty
  simp only [frames, flatMap_cons, length_append, mark.length_write,
    length_nil] at length
  have := mark.width_pos
  omega

theorem frames_injective : Function.Injective (frames mark) := by
  intro parts parts' same
  induction parts generalizing parts' with
  | nil =>
    cases parts' with
    | nil => rfl
    | cons part' rest' => exact absurd same.symm (frames_cons_ne mark part' rest')
  | cons part rest ih =>
    cases parts' with
    | nil => exact absurd same (frames_cons_ne mark part rest)
    | cons part' rest' =>
      simp only [frames, flatMap_cons, append_assoc] at same
      -- the marks are equally wide, and equal marks make the parts equally long
      obtain ⟨marks, tails⟩ := append_inj same (by simp only [mark.length_write])
      have lengths := mark.injective _ part.property _ part'.property marks
      obtain ⟨items, rests⟩ := append_inj tails lengths
      rw [Subtype.ext items, ih rests]

/-- The eight bytes of a number, the highest first. -/
def bigEndian64 (n : Nat) : List UInt8 :=
  [56, 48, 40, 32, 24, 16, 8, 0].map fun shift => UInt8.ofNat (n >>> shift)

theorem bigEndian64_inj {m n} (low : m < 2 ^ 64) (low' : n < 2 ^ 64)
    (same : bigEndian64 m = bigEndian64 n) : m = n := by
  simp only [bigEndian64, map_cons, map_nil, cons.injEq, ← UInt8.toNat_inj,
    UInt8.toNat_ofNat', Nat.shiftRight_eq_div_pow] at same
  omega

def lengthMark64 : LengthMark UInt8 (2 ^ 63) where
  write := bigEndian64
  width := 8
  width_pos := by decide
  length_write _ := rfl
  injective _ low _ low' := bigEndian64_inj (by omega) (by omega)

end Agentloom.Framing
