import Agentloom.Validate.Chain

/-! The verdict of a chain, and which validators it called, from what each entry gives. -/

namespace Agentloom.Validate

open Transaction List Tx

namespace ChainEntry

variable (entry : ChainEntry)

def verdict : Option Verdict := entry.judged.toOption

def fails : Bool := entry.verdict.any fun verdict => !verdict.passed

def issues : List Issue := entry.verdict.elim [] Verdict.issues

def answer : ValidatorResult := entry.verdict.elim (skippedResult entry.name) entry.result

end ChainEntry

def cheapFails (entries : List ChainEntry) : Bool :=
  entries.any fun entry => !entry.costBearing && entry.fails

/-- An entry runs unless it costs money and one that does not has failed. -/
def ChainEntry.runs (entries : List ChainEntry) (entry : ChainEntry) : Bool :=
  !(entry.costBearing && cheapFails entries)

variable {items : List (ChainEntry × Nat)} {state : ChainState} {entries : List ChainEntry}

def place (f : ChainEntry → ValidatorResult) (items : List (ChainEntry × Nat))
    (results : List ValidatorResult) : List ValidatorResult :=
  items.foldl (fun results item => results.set item.2 (f item.1)) results

/-- What a pass adds in which no entry is skipped. -/
def ChainState.asked (items : List (ChainEntry × Nat)) (state : ChainState) : ChainState :=
  { results := place ChainEntry.answer items state.results
    calls := state.calls ++ (items.filter fun item => item.1.resolves).map Prod.snd
    failed := state.failed || items.any fun item => item.1.fails
    cheapFailed := state.cheapFailed || items.any fun item => item.1.fails && !item.1.costBearing
    score := (items.filterMap fun item => item.1.verdict.bind Verdict.score).foldl
      (fun score next => minScorePtr score (some next)) state.score
    issues := state.issues ++ (items.filter fun item => item.1.fails).flatMap fun item =>
      item.1.issues }

theorem runEntry_answers {entry : ChainEntry}
    (isAsked : ¬(entry.costBearing && state.cheapFailed) = true) (judged : entry.judged = .ok verdict) :
    runEntry (entry, position) state = (.ok (), state.asked [(entry, position)]) := by
  have isVerdict : entry.verdict = some verdict := by rw [ChainEntry.verdict, judged]; rfl
  simp only [runEntry, if_neg isAsked, judged, ChainState.asked, place, ChainEntry.answer,
    ChainEntry.fails, ChainEntry.issues]
  cases scored : verdict.score <;> cases passed : verdict.passed <;>
    cases resolves : entry.resolves <;> simp [scored, passed, resolves, minScorePtr, isVerdict]

theorem ChainState.asked_append (first second : List (ChainEntry × Nat)) (state : ChainState) :
    (state.asked first).asked second = state.asked (first ++ second) := by
  simp [ChainState.asked, place, Bool.or_assoc]

theorem forEach_asks (judged : ∀ item ∈ items, ∃ verdict, item.1.judged = .ok verdict)
    (onePass : (∀ item ∈ items, item.1.costBearing = false) ∨
      (∀ item ∈ items, item.1.costBearing = true) ∧ state.cheapFailed = false) :
    Tx.forEach items runEntry state = (.ok (), state.asked items) := by
  induction items generalizing state with
  | nil => simp [Tx.forEach, ChainState.asked, place]
  | cons item rest ih =>
    obtain ⟨_, ok⟩ := judged item mem_cons_self
    have isAsked : ¬(item.1.costBearing && state.cheapFailed) = true := by
      rcases onePass with cheap | ⟨_, none⟩
      · simp [cheap item mem_cons_self]
      · simp [none]
    refine (bind_of_ok (runEntry_answers isAsked ok)).trans ?_
    rw [ih (fun other mem => judged other (mem_cons_of_mem _ mem)), ChainState.asked_append]
    · rfl
    · refine onePass.imp (fun cheap other mem => cheap other (mem_cons_of_mem _ mem)) ?_
      rintro ⟨costly, none⟩
      refine ⟨fun other mem => costly other (mem_cons_of_mem _ mem), ?_⟩
      simp [ChainState.asked, none, costly item mem_cons_self]

theorem forEach_skips (costly : ∀ item ∈ items, item.1.costBearing = true)
    (cheapFailed : state.cheapFailed = true) :
    Tx.forEach items runEntry state = (.ok (), { state with
      results := place (fun entry => skippedResult entry.name) items state.results }) := by
  induction items generalizing state with
  | nil => rfl
  | cons item rest ih =>
    have skipped : (item.1.costBearing && state.cheapFailed) = true := by
      simp [costly item mem_cons_self, cheapFailed]
    refine (bind_of_ok (runEntry_skips skipped)).trans ?_
    exact ih (fun other mem => costly other (mem_cons_of_mem _ mem)) cheapFailed

section Positions

variable {f g : ChainEntry → ValidatorResult} {results : List ValidatorResult}

theorem place_append (first second : List (ChainEntry × Nat)) (results : List ValidatorResult) :
    place f (first ++ second) results = place f second (place f first results) :=
  foldl_append

theorem place_congr (same : ∀ item ∈ items, f item.1 = g item.1) :
    place f items results = place g items results :=
  foldl_ext _ _ _ fun _ item mem => by rw [same item mem]

theorem place_apart (apart : position ∉ items.map Prod.snd) :
    (place f items results)[position]? = results[position]? := by
  induction items generalizing results with
  | nil => rfl
  | cons item rest ih =>
    simp only [map_cons, mem_cons, not_or] at apart
    exact (ih apart.2).trans (getElem?_set_ne (Ne.symm apart.1))

theorem place_mem (distinct : (items.map Prod.snd).Nodup) (mem : (entry, position) ∈ items)
    (inside : position < results.length) :
    (place f items results)[position]? = some (f entry) := by
  induction items generalizing results with
  | nil => cases mem
  | cons item rest ih =>
    obtain ⟨absent, distinct⟩ := nodup_cons.mp distinct
    rcases mem_cons.mp mem with rfl | later
    · exact (place_apart absent).trans (getElem?_set_self inside)
    · exact ih distinct later (by simpa using inside)

theorem place_eq_map (perm : items.Perm entries.zipIdx) (length : results.length = entries.length) :
    place f items results = entries.map f := by
  refine ext_getElem? fun position => ?_
  rw [getElem?_map]
  cases found : entries[position]? with
  | none =>
    have outside : entries.length ≤ position := getElem?_eq_none_iff.mp found
    rw [place_apart, getElem?_eq_none (by omega)]
    · rfl
    · rw [(perm.map Prod.snd).mem_iff, zipIdx_map_snd]
      simp [outside]
  | some entry =>
    have inside : position < entries.length := (List.getElem?_eq_some_iff.mp found).1
    refine place_mem (positions_nodup perm) (perm.mem_iff.mpr ?_) (by omega)
    exact mem_zipIdx_iff_getElem?.mpr found

end Positions

section Passes

variable (entries : List ChainEntry)

theorem zipIdx_filter_fst (p : ChainEntry → Bool) :
    (entries.zipIdx.filter fun item => p item.1).map Prod.fst = entries.filter p := by
  have whole : (entries.zipIdx.map Prod.fst).filter p = entries.filter p := by rw [zipIdx_map_fst]
  rw [← whole, filter_map]
  rfl

/-- The entries that run, in the order of the passes. -/
def ranItems : List (ChainEntry × Nat) :=
  inPass false entries ++
    if cheapFails entries then [] else inPass true entries

theorem ran_perm : (ranItems entries).Perm
    (entries.zipIdx.filter fun item => item.1.runs entries) := by
  unfold ranItems ChainEntry.runs
  cases cheapFails entries with
  | true => simp [inPass]
  | false => simpa [inPasses] using inPasses_perm entries

/-- Where a free entry fails none that costs money runs, and where none fails every failing entry
costs money: the failing entries come in the authored order. -/
theorem ran_failing : ((ranItems entries).filter fun item => item.1.fails).map Prod.fst =
    entries.filter fun entry => entry.runs entries && entry.fails := by
  rw [← zipIdx_filter_fst]
  congr 1
  unfold ranItems ChainEntry.runs
  cases cheap : cheapFails entries with
  | true => simp [inPass, filter_filter, Bool.and_comm]
  | false =>
    have passes : ∀ item ∈ entries.zipIdx, item.1.fails = true → item.1.costBearing = true := by
      intro item mem fails
      have quiet := any_eq_false.mp cheap item.1 (fst_mem_of_mem_zipIdx mem)
      simpa [fails] using quiet
    have none : (inPass false entries).filter (fun item => item.1.fails) = [] := by
      refine filter_eq_nil_iff.mpr fun item mem fails => ?_
      obtain ⟨listed, isCheap⟩ := mem_filter.mp mem
      simp [passes item listed fails] at isCheap
    rw [filter_append, none, nil_append]
    simp only [Bool.false_eq_true, ↓reduceIte, inPass, filter_filter, Bool.and_false,
      Bool.not_false, Bool.true_and]
    refine filter_congr fun item mem => ?_
    cases fails : item.1.fails with
    | true => simp [passes item mem fails]
    | false => rfl

theorem ran_any : ((ranItems entries).any fun item => item.1.fails) =
    entries.any fun entry => entry.runs entries && entry.fails := by
  have same := congrArg (any · fun _ => true) (ran_failing entries)
  simpa [any_filter] using same

theorem ran_nodup : ((ranItems entries).map Prod.snd).Nodup := by
  rw [((ran_perm entries).map Prod.snd).nodup_iff]
  exact (positions_nodup (.refl _)).sublist (filter_sublist.map Prod.snd)

end Passes

theorem asked_cheapFailed (entries : List ChainEntry) :
    ((chainStart entries).asked (inPass false entries)).cheapFailed = cheapFails entries := by
  rw [Bool.eq_iff_iff, cheapFails, any_eq_true]
  simp only [ChainState.asked, chainStart, inPass, Bool.false_or, any_eq_true, mem_filter,
    Bool.and_eq_true, Bool.not_eq_true', beq_false]
  constructor
  · rintro ⟨item, ⟨mem, cheap⟩, fails, _⟩
    exact ⟨item.1, fst_mem_of_mem_zipIdx mem, cheap, fails⟩
  · rintro ⟨entry, mem, cheap, fails⟩
    obtain ⟨position, found⟩ := mem_iff_getElem?.mp mem
    exact ⟨(entry, position), ⟨mem_zipIdx_iff_getElem?.mpr found, cheap⟩, fails, cheap⟩

def shown (entries : List ChainEntry) (entry : ChainEntry) : ValidatorResult :=
  if entry.runs entries then entry.answer else skippedResult entry.name

theorem runPasses_eq
    (quiet : ∀ entry ∈ entries, entry.runs entries = true → ∃ verdict, entry.judged = .ok verdict) :
    runPasses entries = (.ok (), { (chainStart entries).asked (ranItems entries) with
      results := entries.map (shown entries) }) := by
  have isCheap : ∀ item ∈ inPass false entries, item.1.costBearing = false := by simp [inPass]
  have isCostly : ∀ item ∈ inPass true entries, item.1.costBearing = true := by simp [inPass]
  have judged : ∀ item ∈ ranItems entries, ∃ verdict, item.1.judged = .ok verdict := by
    intro item mem
    obtain ⟨listed, runs⟩ := mem_filter.mp ((ran_perm entries).mem_iff.mp mem)
    exact quiet item.1 (fst_mem_of_mem_zipIdx listed) runs
  have first : Tx.forEach (inPass false entries) runEntry (chainStart entries) = _ :=
    forEach_asks (fun item mem => judged item (mem_append_left _ mem)) (.inl isCheap)
  have whole : place (shown entries) (inPasses entries) (chainStart entries).results =
      entries.map (shown entries) :=
    place_eq_map (inPasses_perm entries) (by simp [chainStart])
  have placed : ∀ results, place (shown entries) (inPass false entries) results =
      place ChainEntry.answer (inPass false entries) results := fun _ =>
    place_congr fun item mem => by simp [shown, ChainEntry.runs, isCheap item mem]
  rw [runPasses, inPasses, forEach_append_ok first, ← whole, inPasses, place_append, placed]
  cases cheap : cheapFails entries with
  | true =>
    rw [forEach_skips isCostly ((asked_cheapFailed entries).trans cheap), ranItems, cheap, if_pos rfl,
      append_nil]
    congr 2
    exact place_congr fun item mem => by simp [shown, ChainEntry.runs, isCostly item mem, cheap]
  | false =>
    have all : ranItems entries = inPasses entries := by
      rw [ranItems, cheap]
      rfl
    rw [all, inPasses] at judged ⊢
    rw [forEach_asks (fun item mem => judged item (mem_append_right _ mem))
      (.inr ⟨isCostly, (asked_cheapFailed entries).trans cheap⟩), ← ChainState.asked_append]
    have rest : ∀ results, place (shown entries) (inPass true entries) results =
        place ChainEntry.answer (inPass true entries) results := fun _ =>
      place_congr fun item mem => by simp [shown, ChainEntry.runs, cheap]
    rw [rest]
    rfl

theorem minScorePtr_some (cur : Option Rat) (next : Rat) :
    minScorePtr cur (some next) = some (cur.elim next (min next)) := by
  cases cur with
  | none => rfl
  | some cur =>
    simp only [minScorePtr, Option.elim_some, min_def_lt]
    split <;> rfl

theorem foldl_minScore (scores : List Rat) :
    scores.foldl (fun score next => minScorePtr score (some next)) none = scores.min? := by
  have later : ∀ (rest : List Rat) (first : Rat),
      rest.foldl (fun score next => minScorePtr score (some next)) (some first) =
        some (rest.foldl min first) := by
    intro rest
    induction rest with
    | nil => exact fun _ => rfl
    | cons next rest ih =>
      intro first
      rw [foldl_cons, foldl_cons, minScorePtr_some, Option.elim_some, min_comm, ih]
  cases scores with
  | nil => rfl
  | cons first rest => exact later rest first

instance : RightCommutative fun score next => minScorePtr score (some next) where
  right_comm score first second := by
    simp only [minScorePtr_some, Option.elim_some]
    cases score with
    | none => simp [min_comm]
    | some score => simp [min_left_comm]

def wordy : Issue := { code := "rubric_below_threshold", message := "too long" }

def gradedChain : List ChainEntry :=
  [{ name := "schema", costBearing := false, reply := .ok { status := .pass, score := some 1 } },
    { name := "judge", costBearing := true
      reply := .ok { status := .fail, score := some (1 / 4), issues := [wordy] } },
    { name := "regex", costBearing := false, reply := .ok { status := .pass, score := some (1 / 2) } }]

def unresolvedChain : List ChainEntry :=
  [{ name := "judge", target := "/text", costBearing := true, resolves := false
     reply := .ok { status := .pass } }]

end Agentloom.Validate
