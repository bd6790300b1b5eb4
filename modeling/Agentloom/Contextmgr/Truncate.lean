import Mathlib.Data.String.Basic
import Mathlib.Tactic.Common

/-!
Cutting a context source down to a token cap. A counter is any function on texts: neither
search below may rely on it being monotone or additive, only on the last probe that fitted.
-/

namespace Agentloom

/-- The search over `lo <= hi` that remembers the last probe that fitted. -/
def bisect (fits : Nat → Bool) (lo : Nat) (hi : Int) (best : Nat) : Nat :=
  if lo ≤ hi then
    let mid := ((lo + hi) / 2).toNat
    if fits mid then bisect fits (mid + 1) hi mid else bisect fits lo (mid - 1) best
  else best
termination_by (hi + 1 - lo).toNat

theorem bisect_keeps {hi : Int} {P : Nat → Prop} (start : P best)
    (probed : ∀ mid : Nat, mid ≤ hi → fits mid = true → P mid) : P (bisect fits lo hi best) := by
  fun_induction bisect fits lo hi best with
  | case1 lo hi best inside mid fitted ih =>
    exact ih (probed mid (by omega) fitted) probed
  | case2 lo hi best inside mid _ ih =>
    refine ih start ?_
    intro probe below fitted
    exact probed probe (by omega) fitted
  | case3 => exact start

/-- Where everything below a probe that fits does, the search ends at the last one that fits. -/
theorem bisect_largest {lo best n k : Nat} {hi : Int} (closed : ∀ k more, k ≤ more → more ≤ n →
      fits more = true → fits k = true)
    (upper : ∀ k : Nat, k ≤ n → fits k = true → k ≤ hi ∨ k ≤ best) (low : best ≤ lo) (next : lo ≤ best + 1)
    (top : hi ≤ n) (inside : k ≤ n) (fitted : fits k = true) : k ≤ bisect fits lo hi best := by
  fun_induction bisect fits lo hi best with
  | case1 lo hi best _ mid _ ih =>
    refine ih ?_ (by omega) (by omega) top
    intro k inside fitted
    have := upper k inside fitted
    omega
  | case2 lo hi best _ mid unfitted ih =>
    refine ih ?_ low next (by omega)
    intro k inside fitted
    by_contra beyond
    have := upper k inside fitted
    exact unfitted (closed mid k (by omega) inside fitted)
  | case3 lo hi best _ =>
    have := upper k inside fitted
    omega

end Agentloom

namespace Agentloom.Contextmgr

abbrev Counter := String → Int

def truncationMarker : String := "\n…[truncated]…"

def elisionMarker : String := "\n…[elided]…\n"

/-- `string(runes[:n])` -/
def head (text : String) (n : Nat) : String := String.ofList (text.toList.take n)

/-- `string(runes[n:])` -/
def rest (text : String) (n : Nat) : String := String.ofList (text.toList.drop n)

theorem head_rest (text : String) (n : Nat) : head text n ++ rest text n = text := by
  simp [head, rest, ← String.ofList_append]

theorem head_zero (text : String) : head text 0 = "" := by simp [head]

def truncateToTokens (text : String) (cap : Int) (count : Counter) : String × Int × Bool :=
  let total := count text
  if total ≤ cap then (text, 0, false)
  else
    let withMarker := decide (count truncationMarker ≤ cap)
    let measure (kept : String) : Int :=
      if withMarker then count (kept ++ truncationMarker) else count kept
    let best := bisect (fun n => measure (head text n) ≤ cap) 0 text.length 0
    let kept := head text best
    let removed := total - count kept
    if withMarker then (kept ++ truncationMarker, removed, true) else (kept, removed, true)

/-- Both ends of the text around the marker, `k` runes of it in all. -/
def build (text : String) (k : Nat) : String :=
  let headN := (k + 1) / 2
  let tailN := k / 2
  if headN + tailN > text.length then
    head text text.length ++ elisionMarker ++ rest text text.length
  else head text headN ++ elisionMarker ++ rest text (text.length - tailN)

def truncateMiddle (text : String) (target : Int) (count : Counter) : String × Int :=
  if count text ≤ target then (text, count text)
  else if count elisionMarker > target then ("", 0)
  else
    let best := bisect (fun k => count (build text k) ≤ target) 0 text.length 0
    (build text best, count (build text best))

theorem build_ends (text : String) (k : Nat) : ∃ front gone back,
    text = front ++ gone ++ back ∧ build text k = front ++ elisionMarker ++ back := by
  simp only [build]
  split
  · exact ⟨_, "", _, by simp [head_rest], rfl⟩
  · rename_i inside
    refine ⟨_, head (rest text ((k + 1) / 2)) (text.length - k / 2 - (k + 1) / 2), _, ?_, rfl⟩
    have skipped : rest text (text.length - k / 2) = rest (rest text ((k + 1) / 2))
        (text.length - k / 2 - (k + 1) / 2) := by
      simp only [rest, String.toList_ofList, List.drop_drop]
      congr 2
      omega
    rw [skipped, String.append_assoc, head_rest, head_rest]

theorem build_zero (text : String) : build text 0 = elisionMarker := by
  have whole : text.toList.length ≤ text.length := text.length_toList.le
  simp [build, head, rest, whole]

theorem truncateToTokens_spec {count : Counter} (empty : count "" = 0) (text : String) {cap : Int}
    (nonneg : 0 ≤ cap) (long : ¬ count text ≤ cap) : ∃ n,
    count (truncateToTokens text cap count).1 ≤ cap ∧
    ((truncateToTokens text cap count).1 = head text n ++ truncationMarker ∨
      (truncateToTokens text cap count).1 = head text n) := by
  by_cases marked : count truncationMarker ≤ cap
  · simp only [truncateToTokens, long, marked, if_false, if_true, decide_true]
    refine ⟨_, ?_, .inl rfl⟩
    apply bisect_keeps (P := fun n => count (head text n ++ truncationMarker) ≤ cap)
    · simpa [head_zero] using marked
    · simp
  · simp only [truncateToTokens, long, marked, if_false, decide_false, Bool.false_eq_true]
    refine ⟨_, ?_, .inr rfl⟩
    apply bisect_keeps (P := fun n => count (head text n) ≤ cap)
    · simp [head_zero, empty, nonneg]
    · simp

theorem truncateMiddle_spec {count : Counter} (empty : count "" = 0) (text : String) {cap : Int}
    (nonneg : 0 ≤ cap) (long : ¬ count text ≤ cap) : count (truncateMiddle text cap count).1 ≤ cap ∧
    ((truncateMiddle text cap count).1 = "" ∨ ∃ k, (truncateMiddle text cap count).1 = build text k) := by
  by_cases marked : count elisionMarker > cap
  · simp [truncateMiddle, long, marked, empty, nonneg]
  · simp only [truncateMiddle, long, marked, if_false]
    refine ⟨?_, .inr ⟨_, rfl⟩⟩
    apply bisect_keeps (P := fun k => count (build text k) ≤ cap)
    · rw [build_zero]
      omega
    · simp

theorem truncation_bounded {count : Counter} (empty : count "" = 0) (text : String) {cap : Int}
    (nonneg : 0 ≤ cap) : (count (truncateToTokens text cap count).1 ≤ cap ∧
      (∃ front gone, text = front ++ gone ∧
        ((truncateToTokens text cap count).1 = front ++ truncationMarker ∨
          (truncateToTokens text cap count).1 = front)) ∧
      ((truncateToTokens text cap count).1 = text ↔ count text ≤ cap)) ∧
    (count (truncateMiddle text cap count).1 ≤ cap ∧
      (∃ front gone back, text = front ++ gone ++ back ∧
        ((truncateMiddle text cap count).1 = front ++ elisionMarker ++ back ∨
          (truncateMiddle text cap count).1 = front ++ back ∧ (gone = "" ∨ front ++ back = ""))) ∧
      ((truncateMiddle text cap count).1 = text ↔ count text ≤ cap)) := by
  by_cases short : count text ≤ cap
  · have kept : (truncateToTokens text cap count).1 = text := by simp [truncateToTokens, short]
    have middle : (truncateMiddle text cap count).1 = text := by simp [truncateMiddle, short]
    simp only [kept, middle, short, true_and, and_true]
    exact ⟨⟨text, "", by simp⟩, text, "", "", by simp⟩
  · obtain ⟨n, fits, shape⟩ := truncateToTokens_spec empty text nonneg short
    obtain ⟨middleFits, middle⟩ := truncateMiddle_spec empty text nonneg short
    -- A text over the cap cannot come back: what comes back fits.
    have differs : ∀ kept, count kept ≤ cap → (kept = text ↔ count text ≤ cap) := by
      intro kept within
      constructor
      · rintro rfl
        exact within
      · intro fitting
        exact absurd fitting short
    refine ⟨⟨fits, ⟨_, _, (head_rest text n).symm, shape⟩, differs _ fits⟩, middleFits, ?_,
      differs _ middleFits⟩
    rcases middle with nothing | ⟨k, built⟩
    · exact ⟨"", text, "", by simp [nothing]⟩
    · obtain ⟨front, gone, back, whole, ends⟩ := build_ends text k
      exact ⟨front, gone, back, whole, .inl (built.trans ends)⟩

def perRune : Counter := fun text => text.length

theorem truncation_bounded_per_rune : perRune (truncateToTokens "a long source" 5 perRune).1 ≤ 5 ∧
    perRune (truncateMiddle "a long source" 5 perRune).1 ≤ 5 := by
  have bounded := @truncation_bounded perRune (by decide) "a long source" 5 (by decide)
  exact ⟨bounded.1.1, bounded.2.1⟩

end Agentloom.Contextmgr
