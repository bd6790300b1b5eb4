import Mathlib.Algebra.Ring.Nat
import Mathlib.Data.List.TakeWhile
import Agentloom.Contextmgr.Truncate
import Agentloom.Dag.Definition

/-!
The `truncate_oldest` strategy of context compaction: the oldest unpinned entry above the
floor is cut in the middle, over and over, while the framed request is over its budget.
-/

namespace Agentloom.Contextmgr

variable {count : Counter}

structure Entry where
  sourceIndex : Int
  kind : String
  name : String
  pinned : Bool := false
  content : String
  tokens : Int

structure EntryAction where
  sourceIndex : Int
  name : String
  action : String
  tokensBefore : Int
  tokensAfter : Int

structure CompactState where
  /-- In message order. -/
  entries : List Entry
  /-- By source index. -/
  dropped : List Int := []
  truncated : List Int := []

def renderBlock (kind name content : String) : String :=
  "<context name=" ++ Dag.quote name ++ " kind=" ++ Dag.quote kind ++ ">\n" ++ content ++
    "\n</context>"

def render (entries : List Entry) : String :=
  "\n\n".intercalate (entries.map fun e => renderBlock e.kind e.name e.content)

def liveEntries (st : CompactState) : List Entry :=
  st.entries.filter fun e => !st.dropped.contains e.sourceIndex

def renderLive (st : CompactState) : String := render (liveEntries st)

def CompactState.spares (st : CompactState) (floor : Int) (e : Entry) : Bool :=
  e.pinned || st.dropped.contains e.sourceIndex || decide (e.tokens ≤ floor)

/-- A further cut of an entry only moves the end of its action. -/
def recordCut (e : Entry) (tokens : Int) (actions : List EntryAction) : List EntryAction :=
  if actions.any (·.sourceIndex == e.sourceIndex) then
    actions.map fun a =>
      if a.sourceIndex = e.sourceIndex then { a with tokensAfter := tokens } else a
  else actions ++ [⟨e.sourceIndex, e.name, "truncated", e.tokens, tokens⟩]

def cutTarget (floor surplus : Int) (e : Entry) : Int :=
  let target := e.tokens - surplus
  let target := if target < floor then floor else target
  if target ≥ e.tokens then e.tokens - 1 else target

def Entry.cut (count : Counter) (floor surplus : Int) (e : Entry) : Entry :=
  let (newContent, newTokens) := truncateMiddle e.content (cutTarget floor surplus e) count
  { e with content := newContent, tokens := newTokens }

def excess (floor : Int) (entries : List Entry) : Nat :=
  (entries.map fun e => (e.tokens - floor).toNat).sum

theorem excess_split (floor : Int) (older newer : List Entry) (e : Entry) :
    excess floor (older ++ e :: newer) =
      excess floor older + (e.tokens - floor).toNat + excess floor newer := by
  simp [excess, Nat.add_assoc]

theorem CompactState.above_of_chosen {st : CompactState} (chosen : st.spares floor e = false) :
    floor < e.tokens := by
  simp only [spares, Bool.or_eq_false_iff, decide_eq_false_iff_not] at chosen
  omega

theorem CompactState.victim_found {st : CompactState}
    (victim : st.entries.dropWhile (st.spares floor) = e :: newer) :
    st.entries = st.entries.takeWhile (st.spares floor) ++ e :: newer ∧
      st.spares floor e = false := by
  have chosen := List.head_dropWhile_not (st.spares floor) (l := st.entries) (by simp [victim])
  simp only [victim, List.head_cons] at chosen
  exact ⟨victim ▸ List.takeWhile_append_dropWhile.symm, chosen⟩

variable {ε : Type}

def truncateOldest (count : Counter) (measure : String → Except ε Int) (budget floor : Int)
    (st : CompactState) (actions : List EntryAction) :
    Except ε (CompactState × List EntryAction) :=
  match measure (renderLive st) with
  | .error err => .error err
  | .ok cur =>
    if cur ≤ budget then .ok (st, actions)
    else
      match _ : st.entries.dropWhile (st.spares floor) with
      | [] => .ok (st, actions)
      | e :: newer =>
        if (e.cut count floor (cur - budget)).tokens ≥ e.tokens then .ok (st, actions)
        else
          truncateOldest count measure budget floor
            { st with
              entries := st.entries.takeWhile (st.spares floor) ++
                e.cut count floor (cur - budget) :: newer
              truncated := e.sourceIndex :: st.truncated }
            (recordCut e (e.cut count floor (cur - budget)).tokens actions)
termination_by excess floor st.entries
decreasing_by
  obtain ⟨whole, chosen⟩ := CompactState.victim_found ‹_›
  have above := CompactState.above_of_chosen chosen
  have shrunk := excess_split floor (st.entries.takeWhile (st.spares floor)) newer
  rw [congrArg (excess floor) whole, shrunk, shrunk]
  omega

def Entry.keep (e : Entry) (kept : String × Int) : Entry :=
  { e with content := kept.1, tokens := kept.2 }

theorem Entry.cut_eq {floor : Int} {e : Entry} (exceeds : budget < cur) (above : floor < e.tokens) :
    e.cut count floor (cur - budget) =
      e.keep (truncateMiddle e.content (max floor (e.tokens - (cur - budget))) count) := by
  have aimed : cutTarget floor (cur - budget) e = max floor (e.tokens - (cur - budget)) := by
    simp only [cutTarget]
    split <;> split <;> omega
  rw [cut, aimed, keep]

def Fitting (count : Counter) (text : String) (target : Int) (k : Nat) : Prop :=
  k ≤ text.length ∧ count (build text k) ≤ target

def Largest (count : Counter) (text : String) (target : Int) (k : Nat) : Prop :=
  Fitting count text target k ∧ ∀ other, Fitting count text target other → other ≤ k

/-- What a cut leaves of a text: a split of the kind asked for, or nothing where not even the marker
fits. -/
def Cut (splits : String → Int → Nat → Prop) (count : Counter) (text : String) (target : Int)
    (kept : String × Int) : Prop :=
  if count elisionMarker ≤ target then
    ∃ k, splits text target k ∧ kept = (build text k, count (build text k))
  else kept = ("", 0)

/-- Keeping more of a text never counts less. -/
def Growing (count : Counter) : Prop :=
  ∀ text k more, k ≤ more → more ≤ text.length → count (build text k) ≤ count (build text more)

section Cuts

variable {splits : String → Int → Nat → Prop} {text : String} {target : Int}

theorem truncateMiddle_cut (long : target < count text) (lands : count elisionMarker ≤ target →
      splits text target (bisect (fun k => count (build text k) ≤ target) 0 text.length 0)) :
    Cut splits count text target (truncateMiddle text target count) := by
  unfold Cut truncateMiddle
  rw [if_neg (not_le.mpr long)]
  split
  · rename_i marked
    rw [if_neg (not_lt.mpr marked)]
    exact ⟨_, lands marked, rfl⟩
  · rename_i unmarked
    rw [if_pos (not_le.mp unmarked)]

theorem bisect_fitting (marked : count elisionMarker ≤ target) :
    Fitting count text target (bisect (fun k => count (build text k) ≤ target) 0 text.length 0) := by
  apply bisect_keeps (P := Fitting count text target)
  · exact ⟨Nat.zero_le _, by rwa [build_zero]⟩
  · intro k inside fits
    exact ⟨by omega, by simpa using fits⟩

theorem bisect_growing (grows : Growing count) (fits : Fitting count text target k) :
    k ≤ bisect (fun k => count (build text k) ≤ target) 0 text.length 0 := by
  refine bisect_largest ?_ (fun _ inside _ => .inl (by omega)) (Nat.le_refl 0) (by omega)
    (Int.le_refl _) fits.1 (by simpa using fits.2)
  intro k more le inside fits
  have grown := grows text k more le inside
  simp only [decide_eq_true_eq] at fits ⊢
  omega

theorem truncateMiddle_largest (grows : Growing count) (long : target < count text) :
    Cut (Largest count) count text target (truncateMiddle text target count) :=
  truncateMiddle_cut long fun marked => ⟨bisect_fitting marked, fun _ => bisect_growing grows⟩

theorem Cut.fits (fitting : ∀ k, splits text target k → Fitting count text target k)
    (cut : Cut splits count text target kept) (least : 0 ≤ target) : kept.2 ≤ target := by
  unfold Cut at cut
  split at cut
  · obtain ⟨k, chosen, rfl⟩ := cut
    exact (fitting k chosen).2
  · rwa [cut]

theorem Cut.unique (first : Cut (Largest count) count text target kept)
    (second : Cut (Largest count) count text target kept') : kept = kept' := by
  unfold Cut at first second
  split at first
  · rename_i marked
    rw [if_pos marked] at second
    obtain ⟨k, chosen, rfl⟩ := first
    obtain ⟨k', chosen', rfl⟩ := second
    rw [Nat.le_antisymm (chosen'.2 k chosen.1) (chosen.2 k' chosen'.1)]
  · rename_i unmarked
    rw [if_neg unmarked] at second
    rw [first, second]

end Cuts

def CompactState.replace (st : CompactState) (older newer : List Entry) (e : Entry)
    (kept : String × Int) : CompactState :=
  { st with
    entries := older ++ e.keep kept :: newer
    truncated := e.sourceIndex :: st.truncated }

/-- While the request is over its budget, whatever a cut of the oldest entry that is not spared may
leave has the tokens of the floor. The target is what the surplus leaves of the entry, or the
floor. -/
inductive Roomy (splits : String → Int → Nat → Prop) (count : Counter) (size : String → Int)
    (budget : Int) (floor : Nat) : CompactState → Prop
  | fits (within : size (renderLive st) ≤ budget) : Roomy splits count size budget floor st
  | spared (spared : ∀ e ∈ st.entries, st.spares floor e = true) :
    Roomy splits count size budget floor st
  | cut (exceeds : budget < size (renderLive st)) (whole : st.entries = older ++ e :: newer)
    (spared : ∀ x ∈ older, st.spares floor x = true) (chosen : st.spares floor e = false)
    (aimed : target = max (floor : Int) (e.tokens - (size (renderLive st) - budget)))
    (room : ∀ kept, Cut splits count e.content target kept → floor ≤ kept.2)
    (next : ∀ kept, Cut splits count e.content target kept →
      Roomy splits count size budget floor (st.replace older newer e kept)) :
    Roomy splits count size budget floor st

def Kept (floor : Nat) (e e' : Entry) : Prop := (floor : Int) < e.tokens → (floor : Int) ≤ e'.tokens

/-- No entry above the floor ends below it. -/
def KeepsFloor (count : Counter) (size : String → Int) (budget : Int) (floor : Nat)
    (st : CompactState) : Prop :=
  ∃ st' actions, truncateOldest (ε := String) count (fun text => .ok (size text)) budget floor st [] =
    .ok (st', actions) ∧ st.entries.Forall₂ (Kept floor) st'.entries

section Runs

variable {splits : String → Int → Nat → Prop} {size : String → Int} {budget : Int} {floor : Nat}
  {st : CompactState} {actions : List EntryAction}

theorem replace_forall₂ {R : Entry → Entry → Prop} (step : ∀ a, R e a → R e' a)
    (all : List.Forall₂ R (older ++ e :: newer) after) : List.Forall₂ R (older ++ e' :: newer) after := by
  induction older generalizing after with
  | nil =>
    cases all with
    | cons first others => exact .cons (step _ first) others
  | cons x older ih =>
    cases all with
    | cons first others => exact .cons first (ih others)

theorem both_forall₂ {R S : Entry → Entry → Prop} (all : List.Forall₂ R (older ++ e :: newer) after)
    (all' : List.Forall₂ S (older ++ e' :: newer) after) : ∃ a, R e a ∧ S e' a := by
  induction older generalizing after with
  | nil =>
    cases all with
    | cons first _ =>
      cases all' with
      | cons first' _ => exact ⟨_, first, first'⟩
  | cons x older ih =>
    cases all with
    | cons _ others =>
      cases all' with
      | cons _ others' => exact ih others others'

/-- An entry above the floor carries the count of its content. -/
def Counted (count : Counter) (floor : Nat) (st : CompactState) : Prop :=
  ∀ e ∈ st.entries, (floor : Int) < e.tokens → e.tokens = count e.content

theorem Counted.replace (counted : Counted count floor st)
    (whole : st.entries = older ++ e :: newer) (cut : Cut splits count e.content target kept) :
    Counted count floor (st.replace older newer e kept) := by
  intro x listed above
  simp only [CompactState.replace, List.mem_append, List.mem_cons] at listed
  obtain old | rfl | new := listed
  · exact counted x (whole ▸ by simp [old]) above
  · unfold Cut at cut
    split at cut
    · obtain ⟨_, _, rfl⟩ := cut
      rfl
    · subst cut
      simp only [Entry.keep] at above
      omega
  · exact counted x (whole ▸ by simp [new]) above

theorem Roomy.keeps (lands : ∀ text target, target < count text →
      Cut splits count text target (truncateMiddle text target count))
    (fitting : ∀ text target k, splits text target k → Fitting count text target k)
    (room : Roomy splits count size budget floor st) (counted : Counted count floor st) :
    ∃ st' actions', truncateOldest (ε := String) count (fun text => .ok (size text)) budget floor st
      actions = .ok (st', actions') ∧
      st.entries.Forall₂ (fun e e' => (floor : Int) ≤ e.tokens → (floor : Int) ≤ e'.tokens)
        st'.entries := by
  have stays (entries : List Entry) : entries.Forall₂
      (fun e e' => (floor : Int) ≤ e.tokens → (floor : Int) ≤ e'.tokens) entries :=
    List.forall₂_same.mpr fun _ _ => id
  induction room generalizing actions with
  | fits within =>
    rw [truncateOldest]
    simp only [within, if_true]
    exact ⟨_, _, rfl, stays _⟩
  | @spared st spared =>
    have none : st.entries.dropWhile (st.spares floor) = [] := List.dropWhile_eq_nil_iff.mpr spared
    rw [truncateOldest]
    simp only
    split
    · exact ⟨_, _, rfl, stays _⟩
    · split
      · exact ⟨_, _, rfl, stays _⟩
      · simp_all
  | @cut st older e newer target exceeds whole spared chosen aimed room next ih =>
    have above := CompactState.above_of_chosen chosen
    have exact := counted e (whole ▸ by simp) above
    have cut := lands e.content target (by omega)
    have first : st.entries.takeWhile (st.spares floor) = older := by
      rw [whole, List.takeWhile_append_of_pos spared]
      simp [chosen]
    have victim : st.entries.dropWhile (st.spares floor) = e :: newer := by
      rw [whole, List.dropWhile_append_of_pos spared]
      simp [chosen]
    have shrinks := cut.fits (fitting e.content target) (by omega)
    rw [truncateOldest]
    simp only [not_le.mpr exceeds, if_false]
    split
    · simp_all
    · rename_i found
      rw [victim] at found
      cases found
      rw [Entry.cut_eq exceeds above, ← aimed, first, if_neg (by simp only [Entry.keep]; omega)]
      obtain ⟨st', actions', ran, kept⟩ := ih _ cut (counted.replace whole cut)
      refine ⟨st', actions', ran, ?_⟩
      rw [whole]
      exact replace_forall₂ (fun _ keeps _ => keeps (room _ cut)) kept

theorem truncateOldest_shrinks {measure : String → Except ε Int}
    (ran : truncateOldest count measure budget floor st actions = .ok (st', actions')) :
    st.entries.Forall₂ (fun e e' => e'.tokens ≤ e.tokens) st'.entries := by
  fun_induction truncateOldest count measure budget floor st actions with
  | case1 => simp at ran
  | case2 | case3 | case4 =>
    simp only [Except.ok.injEq, Prod.mk.injEq] at ran
    exact ran.1 ▸ List.forall₂_same.mpr fun _ _ => le_rfl
  | case5 st actions cur _ _ e newer victim shrinks ih =>
    rw [(CompactState.victim_found victim).1]
    exact replace_forall₂ (fun _ less => by omega) (ih ran)

theorem roomy_of_kept (grows : Growing count) (counted : Counted count floor st)
    (ran : truncateOldest (ε := String) count (fun text => .ok (size text)) budget floor st actions =
      .ok (st', actions')) (kept : st.entries.Forall₂ (Kept floor) st'.entries) :
    Roomy (Largest count) count size budget floor st := by
  fun_induction truncateOldest count (fun text => .ok (size text)) budget floor st actions with
  | case1 => simp at ran
  | case2 st _ cur measured within =>
    cases measured
    exact .fits within
  | case3 st _ cur _ exceeds none => exact .spared (List.dropWhile_eq_nil_iff.mp none)
  | case4 st _ cur measured exceeds e newer victim grown =>
    cases measured
    obtain ⟨whole, chosen⟩ := CompactState.victim_found victim
    have above := CompactState.above_of_chosen chosen
    have exact := counted e (whole ▸ by simp) above
    have cut : Cut (Largest count) count e.content
      (max floor (e.tokens - (size (renderLive st) - budget))) _ :=
        truncateMiddle_largest grows (by omega)
    have shrinks := cut.fits (fun _ largest => largest.1) (by omega)
    rw [Entry.cut_eq (not_le.mp exceeds) above] at grown
    simp only [Entry.keep] at grown
    omega
  | case5 st actions cur measured exceeds e newer victim _ ih =>
    cases measured
    obtain ⟨whole, chosen⟩ := CompactState.victim_found victim
    have above := CompactState.above_of_chosen chosen
    have exact := counted e (whole ▸ by simp) above
    have cut : Cut (Largest count) count e.content
      (max floor (e.tokens - (size (renderLive st) - budget))) _ :=
        truncateMiddle_largest grows (by omega)
    rw [whole] at kept
    rw [Entry.cut_eq (not_le.mp exceeds) above] at ran ih
    obtain ⟨last, keeps, shrinks⟩ := both_forall₂ kept (truncateOldest_shrinks ran)
    refine .cut (not_le.mp exceeds) whole (fun x old => List.mem_takeWhile_imp old) chosen rfl ?_ ?_
    · rintro _ other
      rw [other.unique cut]
      exact (keeps above).trans shrinks
    · rintro _ other
      rw [other.unique cut]
      exact ih (counted.replace whole cut) ran (replace_forall₂ (fun _ keeps _ => keeps above) kept)

end Runs

theorem perRune_build (inside : k ≤ text.length) :
    perRune (build text k) = perRune elisionMarker + k := by
  have whole : text.toList.length = text.length := text.length_toList
  have halves : ¬ text.length < (k + 1) / 2 + k / 2 := by omega
  simp only [perRune, build, gt_iff_lt, halves, if_false, head, rest, String.length_append,
    String.length_ofList, List.length_take, List.length_drop, whole]
  omega

theorem perRune_growing : Growing perRune := by
  intro text k more le inside
  rw [perRune_build (le.trans inside), perRune_build inside]
  omega

def oneSource : CompactState :=
  ⟨[⟨0, "literal", "source", false, "a source of thirty characters.", 30⟩], [], []⟩

def surplus (n : Int) : Int := perRune (renderLive oneSource) - n

end Agentloom.Contextmgr
