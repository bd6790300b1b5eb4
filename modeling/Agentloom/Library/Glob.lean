import Mathlib.Data.List.Infix

/-! Redis glob patterns, read byte by byte as `stringmatchlen` does, and their escaping. -/

namespace Agentloom.Glob

open List

/-- A bracket expression: the byte ranges it lists, ends in either order. -/
structure Class where
  negated : Bool
  ranges : List (UInt8 × UInt8)

def Class.has (k : Class) (byte : UInt8) : Bool :=
  k.negated != k.ranges.any fun (a, b) => min a b ≤ byte && byte ≤ max a b

inductive Token where
  | star
  | any
  | lit (byte : UInt8)
  | oneOf (k : Class)

/-- The tokens of a pattern; the option is the bracket expression being read. -/
def tokens : Option Class → List UInt8 → List Token
  | none, [] => []
  | some k, [] => [.oneOf k]
  | none, c :: p =>
    if c = 42 then .star :: tokens none p
    else if c = 63 then .any :: tokens none p
    else if c = 91 then
      match p with
      | 94 :: p => tokens (some ⟨true, []⟩) p
      | p => tokens (some ⟨false, []⟩) p
    else if c = 92 then
      match p with
      | [] => [.lit c]
      | d :: p => .lit d :: tokens none p
    else .lit c :: tokens none p
  | some k, c :: p =>
    let listed := fun a b => some { k with ranges := (a, b) :: k.ranges }
    if c = 93 then .oneOf k :: tokens none p
    else
      match p with
      | [] => tokens (listed c c) []
      | d :: p =>
        if c = 92 then tokens (listed d d) p
        else
          match p with
          | [] => tokens (listed c c) [d]
          | e :: p => if d = 45 then tokens (listed c e) p else tokens (listed c c) (d :: e :: p)

def matchTokens : List Token → List UInt8 → Bool
  | [], s => s.isEmpty
  | .star :: p, s => s.tails.any (matchTokens p)
  | .any :: p, _ :: s => matchTokens p s
  | .lit b :: p, c :: s => b == c && matchTokens p s
  | .oneOf k :: p, c :: s => k.has c && matchTokens p s
  | _ :: _, [] => false

def bytes (text : String) : List UInt8 := text.toList.flatMap String.utf8EncodeChar

def stringMatch (pattern text : String) : Bool := matchTokens (tokens none (bytes pattern)) (bytes text)

def special : List Char := ['*', '?', '[', ']', '\\']

def escapeRune (r : Char) : List Char := if r ∈ special then ['\\', r] else [r]

def globEscape (text : String) : String := String.ofList (text.toList.flatMap escapeRune)

@[simp] theorem bytes_append (a b : String) : bytes (a ++ b) = bytes a ++ bytes b := by simp [bytes]

theorem bytes_injective : Function.Injective bytes := by
  intro a b same
  rw [← String.toByteArray_inj, ← String.utf8Encode_toList, ← String.utf8Encode_toList]
  exact toByteArray_inj.mpr same

theorem ascii_of_mem {c : Char} (mem : b ∈ String.utf8EncodeChar c) (low : b.toNat < 128) :
    c.toNat = b.toNat := by
  simp only [String.utf8EncodeChar] at mem
  split_ifs at mem <;> simp only [mem_cons, not_mem_nil, or_false] at mem
  · rw [mem, UInt8.toNat_ofNat', Char.toNat]
    omega
  · obtain rfl | rfl := mem <;> simp only [UInt8.toNat_ofNat'] at low <;> omega
  · obtain rfl | rfl | rfl := mem <;> simp only [UInt8.toNat_ofNat'] at low <;> omega
  · obtain rfl | rfl | rfl | rfl := mem <;> simp only [UInt8.toNat_ofNat'] at low <;> omega

theorem eq_of_mem {c d : Char} (low : c.toNat < 128)
    (mem : UInt8.ofNat c.toNat ∈ String.utf8EncodeChar d) : d = c := by
  have value : (UInt8.ofNat c.toNat).toNat = c.toNat := by
    rw [UInt8.toNat_ofNat']
    omega
  exact Char.toNat_inj.mp ((ascii_of_mem mem (by rwa [value])).trans value)

theorem tokens_plain (p : List UInt8) :
    ∀ l : List UInt8, (∀ b ∈ l, ∀ c ∈ special, b ≠ UInt8.ofNat c.toNat) →
      tokens none (l ++ p) = l.map .lit ++ tokens none p
  | [], _ => rfl
  | b :: l, plain => by
    have first := plain b mem_cons_self
    simp only [special, forall_mem_cons, Char.reduceToNat, UInt8.reduceOfNat] at first
    rw [cons_append, tokens.eq_def]
    simp [first, tokens_plain p l fun b mem => plain b (mem_cons_of_mem _ mem)]

theorem tokens_escapeRune (p : List UInt8) (r : Char) :
    tokens none ((escapeRune r).flatMap String.utf8EncodeChar ++ p) =
      (String.utf8EncodeChar r).map .lit ++ tokens none p := by
  rw [escapeRune]
  split
  next found =>
    simp only [special, mem_cons, not_mem_nil, or_false] at found
    obtain rfl | rfl | rfl | rfl | rfl := found <;> rfl
  next free =>
    have low : ∀ c ∈ special, c.toNat < 128 := by simp [special]
    rw [flatMap_singleton]
    refine tokens_plain p _ fun b mem c found same => free ?_
    have whole : r = c := eq_of_mem (low c found) (same ▸ mem)
    rwa [whole]

theorem tokens_globEscape (p : List UInt8) (text : String) :
    tokens none (bytes (globEscape text) ++ p) = (bytes text).map .lit ++ tokens none p := by
  simp only [bytes, globEscape, String.toList_ofList]
  induction text.toList with
  | nil => rfl
  | cons r rest ih => simp only [flatMap_cons, flatMap_append, map_append, append_assoc,
      tokens_escapeRune, ih]

theorem match_lits (p : List Token) : ∀ l s : List UInt8,
    matchTokens (l.map .lit ++ p) s ↔ ∃ rest, s = l ++ rest ∧ matchTokens p rest
  | [], s => by simp
  | b :: l, [] => by simp [matchTokens]
  | b :: l, c :: s => by
    simp only [map_cons, cons_append, matchTokens, Bool.and_eq_true, beq_iff_eq, match_lits p l s,
      cons.injEq]
    grind

theorem match_star (p : List Token) (s : List UInt8) :
    matchTokens (.star :: p) s ↔ ∃ skipped rest, s = skipped ++ rest ∧ matchTokens p rest := by
  simp only [matchTokens, any_eq_true, mem_tails, IsSuffix]
  grind

@[simp] theorem globEscape_append (a b : String) : globEscape (a ++ b) = globEscape a ++ globEscape b := by
  simp [globEscape]

theorem match_stars (a b text : String) :
    stringMatch (globEscape a ++ "*" ++ globEscape b ++ "*") text ↔
      ∃ x y, bytes text = bytes a ++ (x ++ (bytes b ++ y)) := by
  have star : ∀ p, tokens none (bytes "*" ++ p) = .star :: tokens none p := fun p => by
    rw [show bytes "*" = [42] by decide, singleton_append, tokens.eq_def]
    rfl
  have last := star []
  rw [append_nil] at last
  rw [stringMatch, bytes_append, bytes_append, bytes_append, append_assoc, append_assoc,
    tokens_globEscape, star, tokens_globEscape, last]
  simp only [match_lits, match_star]
  constructor
  · rintro ⟨_, split, x, _, rfl, y, rfl, _⟩
    exact ⟨x, y, split⟩
  · rintro ⟨x, y, split⟩
    exact ⟨_, split, x, _, rfl, y, rfl, y, [], (append_nil y).symm, rfl⟩

end Agentloom.Glob
