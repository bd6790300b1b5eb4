import Agentloom.Library.Subsequence

/-! The line diff of the step inspector. The hunks are read off a table of the lengths of longest
common subsequences, which is filled from the ends of the texts. -/

namespace Agentloom.Dashboard

open List

/-- The code units of a JavaScript string. -/
abbrev Text := List UInt16

inductive DiffKind where
  | same
  | add
  | del
deriving DecidableEq, Repr

structure DiffHunk where
  kind : DiffKind
  text : Text
  aLine : Option Nat := none
  bLine : Option Nat := none
deriving DecidableEq, Repr

inductive RangeError where
  | invalidArrayLength
deriving DecidableEq, Repr

def toLines (s : Text) : List Text :=
  if s = [] then []
  else
    let lines := s.splitOn 10
    if lines.getLast? = some [] then lines.dropLast else lines

section Table

variable (al bl : List Text)

def width : Nat := bl.length + 1

def at_ (lcs : Array Nat) (i j : Nat) : Nat := lcs.getD (i * width bl + j) 0

def cell (lcs : Array Nat) (i j : Nat) : Nat :=
  if al[i]? = bl[j]? then at_ bl lcs (i + 1) (j + 1) + 1
  else max (at_ bl lcs (i + 1) j) (at_ bl lcs i (j + 1))

def fillRow (i : Nat) : Nat → Array Nat → Array Nat
  | 0, lcs => lcs
  | j + 1, lcs => fillRow i j (lcs.setIfInBounds (i * width bl + j) (cell al bl lcs i j))

def fillTable : Nat → Array Nat → Array Nat
  | 0, lcs => lcs
  | i + 1, lcs => fillTable i (fillRow al bl i bl.length lcs)

/-- The length of a JavaScript array is an unsigned 32-bit integer. -/
def newArray (length : Nat) : Except RangeError (Array Nat) :=
  if length < 2 ^ 32 then .ok (Array.replicate length 0) else .error .invalidArrayLength

def lcsTable : Except RangeError (Array Nat) := do
  let lcs ← newArray ((al.length + 1) * width bl)
  return fillTable al bl al.length lcs

def walk (lcs : Array Nat) (i j : Nat) : List DiffHunk :=
  if inA : i < al.length then
    if inB : j < bl.length then
      if al[i] = bl[j] then
        { kind := .same, text := al[i], aLine := some i, bLine := some j } :: walk lcs (i + 1) (j + 1)
      else if at_ bl lcs i (j + 1) ≤ at_ bl lcs (i + 1) j then
        { kind := .del, text := al[i], aLine := some i } :: walk lcs (i + 1) j
      else { kind := .add, text := bl[j], bLine := some j } :: walk lcs i (j + 1)
    else { kind := .del, text := al[i], aLine := some i } :: walk lcs (i + 1) j
  else if inB : j < bl.length then
    { kind := .add, text := bl[j], bLine := some j } :: walk lcs i (j + 1)
  else []
termination_by al.length - i + (bl.length - j)

end Table

def diffLines (a b : Text) : Except RangeError (List DiffHunk) := do
  let al := toLines a
  let bl := toLines b
  let lcs ← lcsTable al bl
  return walk al bl lcs 0 0

/-- The lines joined by newlines are the text up to one newline at its end. -/
theorem toLines_joined (s : Text) :
    s = [10].intercalate (toLines s) ++ if s.getLast? = some 10 then [10] else [] := by
  by_cases empty : s = []
  · simp [toLines, empty]
  have joined := @intercalate_splitOn _ s _ _ 10
  rcases eq_nil_or_concat' (s.splitOn 10) with none | ⟨init, last, split⟩
  · rw [none] at joined
    exact absurd joined.symm empty
  have apart : 10 ∉ last := notMem_of_mem_splitOn (show last ∈ s.splitOn 10 by simp [split])
  simp only [toLines, if_neg empty, split, getLast?_concat, dropLast_concat]
  rw [split] at joined
  by_cases blank : last = []
  · subst blank
    have some? : init ≠ [] := by
      rintro rfl
      exact empty joined.symm
    rw [intercalate_concat [] some?] at joined
    simp [← joined]
  · have ends : s.getLast? = last.getLast? := by
      by_cases none : init = []
      · rw [← joined, none]
        simp
      · rw [← joined, intercalate_concat last none, getLast?_append_of_ne_nil _ (by simp),
          getLast?_cons, getLast?_eq_some_getLast blank]
        simp
    have plain : s.getLast? ≠ some 10 := by
      rw [ends]
      exact fun newline => apart (mem_of_getLast? newline)
    simp [blank, plain, joined]

theorem toLines_plain (mem : line ∈ toLines s) : 10 ∉ line := by
  unfold toLines at mem
  dsimp only at mem
  split_ifs at mem
  · cases mem
  · exact notMem_of_mem_splitOn (dropLast_subset _ mem)
  · exact notMem_of_mem_splitOn mem

section Filled

variable {al bl : List Text} {lcs : Array Nat}

/-- The cells after `(i, j)`, row by row, and the last column hold the lengths for what is left. -/
structure Filled (al bl : List Text) (i j : Nat) (lcs : Array Nat) : Prop where
  size : lcs.size = (al.length + 1) * width bl
  cells : ∀ i' ≤ al.length, ∀ j' ≤ bl.length, i < i' ∨ i' = i ∧ j ≤ j' ∨ j' = bl.length →
    at_ bl lcs i' j' = lcsLength (al.drop i') (bl.drop j')

theorem index_div {i j : Nat} (low : j < width bl) : (i * width bl + j) / width bl = i := by
  rw [Nat.add_comm, Nat.add_mul_div_right _ _ (Nat.zero_lt_of_lt low), Nat.div_eq_of_lt low,
    Nat.zero_add]

theorem index_inj {i i' j j' : Nat} (low : j < width bl) (low' : j' < width bl)
    (same : i * width bl + j = i' * width bl + j') : i = i' ∧ j = j' := by
  have rows : i = i' := by rw [← @index_div bl i j low, same, index_div low']
  subst rows
  omega

theorem at_set {i i' j j' : Nat} (low : j < width bl) (low' : j' < width bl)
    (room : i * width bl + j < lcs.size) (value : Nat) :
    at_ bl (lcs.setIfInBounds (i * width bl + j) value) i' j' =
      if i' = i ∧ j' = j then value else at_ bl lcs i' j' := by
  simp only [at_, Array.getD_eq_getD_getElem?, Array.getElem?_setIfInBounds]
  by_cases same : i' = i ∧ j' = j
  · simp [same, room]
  · have apart : i * width bl + j ≠ i' * width bl + j' := by
      intro equal
      obtain ⟨rows, columns⟩ := index_inj low low' equal
      exact same ⟨rows.symm, columns.symm⟩
    rw [if_neg apart, if_neg same]

theorem Filled.cell_eq {i j} (filled : Filled al bl i (j + 1) lcs) (inA : i < al.length)
    (inB : j < bl.length) : cell al bl lcs i j = lcsLength (al.drop i) (bl.drop j) := by
  rw [cell, filled.cells (i + 1) (by omega) (j + 1) (by omega) (by omega),
    filled.cells (i + 1) (by omega) j (by omega) (by omega),
    filled.cells i (by omega) (j + 1) (by omega) (by omega), lcsLength_drop inA inB,
    getElem?_eq_getElem inA, getElem?_eq_getElem inB]
  simp only [Option.some.injEq]

theorem Filled.set {i j} (filled : Filled al bl i (j + 1) lcs) (inA : i < al.length)
    (inB : j < bl.length) :
    Filled al bl i j (lcs.setIfInBounds (i * width bl + j) (cell al bl lcs i j)) where
  size := by rw [Array.size_setIfInBounds, filled.size]
  cells i' low j' low' place := by
    have room : i * width bl + j < lcs.size := by
      rw [filled.size]
      calc i * width bl + j < i * width bl + width bl := by rw [width]; omega
        _ = (i + 1) * width bl := by rw [Nat.succ_mul]
        _ ≤ (al.length + 1) * width bl := Nat.mul_le_mul_right _ (by omega)
    rw [at_set (by rw [width]; omega) (by rw [width]; omega) room]
    split
    · rename_i same
      rw [same.1, same.2, filled.cell_eq inA inB]
    · exact filled.cells i' low j' low' (by omega)

theorem fillRow_filled {i j} (filled : Filled al bl i j lcs) (inA : i < al.length)
    (inB : j ≤ bl.length) : Filled al bl i 0 (fillRow al bl i j lcs) := by
  induction j generalizing lcs with
  | zero => exact filled
  | succ j ih => exact ih (filled.set inA inB) (by omega)

theorem fillTable_filled {i} (filled : Filled al bl i 0 lcs) (inA : i ≤ al.length) :
    Filled al bl 0 0 (fillTable al bl i lcs) := by
  induction i generalizing lcs with
  | zero => exact filled
  | succ i ih =>
    refine ih (fillRow_filled ⟨filled.size, ?_⟩ inA le_rfl) (by omega)
    intro i' low j' low' place
    exact filled.cells i' low j' low' (by omega)

theorem lcsTable_filled : Filled al bl 0 0
    (fillTable al bl al.length (Array.replicate ((al.length + 1) * width bl) 0)) := by
  refine fillTable_filled ⟨by simp, fun i' low j' low' place => ?_⟩ le_rfl
  have empty : al.drop i' = [] ∨ bl.drop j' = [] := by
    simp only [drop_eq_nil_iff]
    omega
  have zero : lcsLength (al.drop i') (bl.drop j') = 0 := by
    rcases empty with none | none <;> rw [none] <;> simp
  rw [zero, at_, Array.getD_eq_getD_getElem?, Array.getElem?_replicate]
  split <;> rfl

end Filled

section Walk

variable {al bl : List Text} {lcs : Array Nat}

/-- The hunks account for both texts from the given lines on, each line under its number. -/
structure Accounts (al bl : List Text) (i j : Nat) (hunks : List DiffHunk) : Prop where
  left : (hunks.filter (·.kind ≠ .add)).map (fun h => (h.text, h.aLine)) =
    ((al.drop i).zipIdx i).map fun line => (line.1, some line.2)
  right : (hunks.filter (·.kind ≠ .del)).map (fun h => (h.text, h.bLine)) =
    ((bl.drop j).zipIdx j).map fun line => (line.1, some line.2)
  unnumbered : ∀ h ∈ hunks, (h.kind = .add → h.aLine = none) ∧ (h.kind = .del → h.bLine = none)

theorem numbered_cons {i : Nat} (inA : i < al.length) :
    (al.drop i).zipIdx i = (al[i], i) :: (al.drop (i + 1)).zipIdx (i + 1) := by
  rw [drop_eq_getElem_cons inA, zipIdx_cons]

theorem walk_accounts (i j : Nat) : Accounts al bl i j (walk al bl lcs i j) := by
  fun_induction walk al bl lcs i j with
  | case1 i j inA inB same ih =>
    refine ⟨?_, ?_, ?_⟩
    · simpa [numbered_cons inA] using ih.left
    · simpa [numbered_cons inB, same] using ih.right
    · simpa using ih.unnumbered
  | case2 i j inA inB differ longer ih =>
    exact ⟨by simpa [numbered_cons inA] using ih.left, by simpa using ih.right,
      by simpa using ih.unnumbered⟩
  | case3 i j inA inB differ shorter ih =>
    exact ⟨by simpa using ih.left, by simpa [numbered_cons inB] using ih.right,
      by simpa using ih.unnumbered⟩
  | case4 i j inA outB ih =>
    exact ⟨by simpa [numbered_cons inA] using ih.left, by simpa using ih.right,
      by simpa using ih.unnumbered⟩
  | case5 i j outA inB ih =>
    exact ⟨by simpa using ih.left, by simpa [numbered_cons inB] using ih.right,
      by simpa using ih.unnumbered⟩
  | case6 i j outA outB =>
    exact ⟨by simpa using outA, by simpa using outB, by simp⟩

theorem walk_same (filled : Filled al bl 0 0 lcs) (i j : Nat) :
    (walk al bl lcs i j).countP (·.kind = .same) = lcsLength (al.drop i) (bl.drop j) := by
  fun_induction walk al bl lcs i j with
  | case1 i j inA inB same ih =>
    rw [lcsLength_drop inA inB, if_pos same, ← ih]
    simp
  | case2 i j inA inB differ longer ih =>
    rw [filled.cells i (by omega) (j + 1) (by omega) (by omega),
      filled.cells (i + 1) (by omega) j (by omega) (by omega)] at longer
    rw [lcsLength_drop inA inB, if_neg differ, max_eq_left longer, ← ih]
    simp
  | case3 i j inA inB differ shorter ih =>
    rw [filled.cells i (by omega) (j + 1) (by omega) (by omega),
      filled.cells (i + 1) (by omega) j (by omega) (by omega)] at shorter
    rw [lcsLength_drop inA inB, if_neg differ, max_eq_right (not_le.mp shorter).le, ← ih]
    simp
  | case4 i j inA outB ih =>
    rw [drop_eq_nil_iff.mpr (not_lt.mp outB), lcsLength_nil_right] at ih ⊢
    simpa using ih
  | case5 i j outA inB ih =>
    rw [drop_eq_nil_iff.mpr (not_lt.mp outA), lcsLength_nil_left] at ih ⊢
    simpa using ih
  | case6 i j outA outB => simp [drop_eq_nil_iff.mpr (not_lt.mp outA)]

end Walk

/-- What a diff is to be: the hunks account for every line of both texts, and no diff has more
unchanged lines; so a text that only gained lines shows none as deleted. -/
structure Optimal (al bl : List Text) (hunks : List DiffHunk) : Prop where
  accounts : Accounts al bl 0 0 hunks
  common : ∃ common, common <+ al ∧ common <+ bl ∧ common.length = hunks.countP (·.kind = .same)
  longest : ∀ common, common <+ al → common <+ bl →
    common.length ≤ hunks.countP (·.kind = .same)
  gained : al <+ bl → ∀ hunk ∈ hunks, hunk.kind ≠ .del

theorem walk_optimal {al bl : List Text} {lcs} (filled : Filled al bl 0 0 lcs) :
    Optimal al bl (walk al bl lcs 0 0) := by
  have accounts : Accounts al bl 0 0 (walk al bl lcs 0 0) := walk_accounts 0 0
  have longest := walk_same filled 0 0
  revert accounts longest
  generalize walk al bl lcs 0 0 = hunks
  intro accounts longest
  have texts : (hunks.filter (·.kind ≠ .add)).map (·.text) = al := by
    simpa [Function.comp_def] using congrArg (map Prod.fst) accounts.left
  have texts' : (hunks.filter (·.kind ≠ .del)).map (·.text) = bl := by
    simpa [Function.comp_def] using congrArg (map Prod.fst) accounts.right
  have kept : hunks.filter (·.kind = .same) <+ hunks.filter (·.kind ≠ .add) :=
    monotone_filter_right _ fun h same => by simp_all
  have kept' : hunks.filter (·.kind = .same) <+ hunks.filter (·.kind ≠ .del) :=
    monotone_filter_right _ fun h same => by simp_all
  refine ⟨accounts, ⟨(hunks.filter (·.kind = .same)).map (·.text), ?_, ?_, ?_⟩, ?_, ?_⟩
  · exact texts ▸ kept.map _
  · exact texts' ▸ kept'.map _
  · rw [length_map, countP_eq_length_filter]
  · intro common left right
    rw [longest]
    exact length_le_lcsLength left right
  · intro gained hunk member deleted
    -- every line of the first text is unchanged, which leaves none to be deleted
    have all := length_le_lcsLength (Sublist.refl _) gained
    rw [drop_zero, drop_zero] at longest
    rw [← longest, ← texts, length_map, countP_eq_length_filter] at all
    have listed : hunk ∈ hunks.filter (·.kind ≠ .add) := by simp [member, deleted]
    rw [← kept.eq_of_length_le all] at listed
    simp [deleted] at listed

/-- The diff is optimal for every two texts whose table is a JavaScript array, and throws for the
others. -/
theorem diffLines_optimal (a b : Text) :
    (∀ s : Text, (∀ line ∈ toLines s, 10 ∉ line) ∧
      s = [10].intercalate (toLines s) ++ if s.getLast? = some 10 then [10] else []) ∧
    if ((toLines a).length + 1) * ((toLines b).length + 1) < 2 ^ 32 then
      ∃ hunks, diffLines a b = .ok hunks ∧ Optimal (toLines a) (toLines b) hunks
    else diffLines a b = .error .invalidArrayLength := by
  refine ⟨fun s => ⟨fun line => toLines_plain, toLines_joined s⟩, ?_⟩
  by_cases fits : ((toLines a).length + 1) * ((toLines b).length + 1) < 2 ^ 32
  · have made : newArray (((toLines a).length + 1) * width (toLines b)) = .ok _ := if_pos fits
    rw [if_pos fits]
    refine ⟨_, ?_, walk_optimal lcsTable_filled⟩
    simp only [diffLines, lcsTable, made]
    rfl
  · have refused : newArray (((toLines a).length + 1) * width (toLines b)) = .error _ := if_neg fits
    rw [if_neg fits]
    simp only [diffLines, lcsTable, refused]
    rfl

theorem toLines_newlines (count : Nat) : (toLines (replicate count 10)).length = count := by
  have split : (replicate count (10 : UInt16)).splitOn 10 = replicate (count + 1) [] := by
    induction count with
    | zero => rfl
    | succ count ih => rw [replicate_succ, splitOn_cons, if_pos rfl, ih, ← replicate_succ]
  cases count with
  | zero => rfl
  | succ count =>
    rw [toLines, if_neg (by simp), split]
    simp [getLast?_replicate]

theorem long_texts_throw : diffLines (replicate 65535 10) (replicate 65535 10) =
    .error .invalidArrayLength := by
  have refused : newArray (65536 * 65536) = .error _ := if_neg (by decide)
  simp only [diffLines, lcsTable, width, toLines_newlines]
  rw [refused]
  rfl

end Agentloom.Dashboard
