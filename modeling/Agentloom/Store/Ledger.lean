import Mathlib.Algebra.BigOperators.Group.List.Basic
import Mathlib.Algebra.Ring.Int.Defs
import Agentloom.Store.Runs

/-! The totals of a run are the sums over its ledger, and a charge that is in order and affordable
is booked. -/

namespace Agentloom.Store

open Transaction List Tx

structure Ledgered (s : RunStore) : Prop where
  spent : s.run.spentNanoUSD = (s.costs.map CostRow.costNanoUSD).sum
  saved : s.run.savedNanoUSD = (s.costs.map CostRow.savedNanoUSD).sum
  keys : (s.costs.map CostRow.key).Nodup
  numbered : ∀ event ∈ s.events, event.seq ≤ s.run.nextSeq
  bounded : ∀ event ∈ s.events, ∀ totals, event.payload.runTotals = some totals →
    totals.1 ≤ s.run.spentNanoUSD ∧ totals.2 ≤ s.run.savedNanoUSD
  ordered : ∀ earlier ∈ s.events, ∀ later ∈ s.events, earlier.seq ≤ later.seq →
    ∀ before after, earlier.payload.runTotals = some before →
      later.payload.runTotals = some after → before.1 ≤ after.1 ∧ before.2 ≤ after.2

structure SameLedger (s s' : RunStore) : Prop where
  costs : s'.costs = s.costs
  events : s'.events = s.events
  spent : s'.run.spentNanoUSD = s.run.spentNanoUSD
  saved : s'.run.savedNanoUSD = s.run.savedNanoUSD
  nextSeq : s'.run.nextSeq = s.run.nextSeq

section Kept

variable {s s' : RunStore}

theorem Ledgered.of_same (ledgered : Ledgered s) (same : SameLedger s s') : Ledgered s' := by
  obtain ⟨_, _, _, _, _, _⟩ := ledgered
  constructor <;> simpa only [same.costs, same.events, same.spent, same.saved, same.nextSeq]

theorem mem_record_events : event ∈ (s.record payload).events ↔
      event ∈ s.events ∨ event = { seq := s.run.nextSeq + 1, payload } := by
  simp [RunStore.record]

theorem Ledgered.recorded (ledgered : Ledgered s) (plain : payload.runTotals = none) :
    Ledgered (s.record payload) := by
  refine ⟨ledgered.spent, ledgered.saved, ledgered.keys, fun event mem => ?_,
    fun event mem totals announces => ?_, fun earlier first later second sequel before after
      announced announces => ?_⟩
  · rcases mem_record_events.mp mem with old | rfl
    · exact (ledgered.numbered event old).trans (Nat.le_succ _)
    · exact le_rfl
  · rcases mem_record_events.mp mem with old | rfl
    · exact ledgered.bounded event old totals announces
    · simp [plain] at announces
  · rcases mem_record_events.mp first with old | rfl
    · rcases mem_record_events.mp second with old' | rfl
      · exact ledgered.ordered earlier old later old' sequel before after announced announces
      · simp [plain] at announces
    · simp [plain] at announced

theorem Ledgered.recorded_same (ledgered : Ledgered s) (same : SameLedger s s')
    (plain : payload.runTotals = none) : Ledgered (s'.record payload) :=
  (ledgered.of_same same).recorded plain

theorem Ledgered.charged (ledgered : Ledgered s)
    (amounts : 0 ≤ row.costNanoUSD ∧ 0 ≤ row.savedNanoUSD)
    (fresh : ∀ other ∈ s.costs, other.key ≠ row.key) : Ledgered (s.charge row) := by
  have grown : ∀ event ∈ s.events, ∀ totals, event.payload.runTotals = some totals →
      totals.1 ≤ s.run.spentNanoUSD + row.costNanoUSD ∧
        totals.2 ≤ s.run.savedNanoUSD + row.savedNanoUSD := by
    intro event mem totals announces
    have bound := ledgered.bounded event mem totals announces
    omega
  refine ⟨?_, ?_, ?_, fun event mem => ?_, fun event mem totals announces => ?_,
    fun earlier first later second sequel before after announced announces => ?_⟩
  · simp [RunStore.charge, RunStore.record, ledgered.spent]
  · simp [RunStore.charge, RunStore.record, ledgered.saved]
  · have distinct : ∀ other ∈ s.costs.map CostRow.key, other ≠ row.key := by
      intro other mem
      obtain ⟨charge, inside, rfl⟩ := mem_map.mp mem
      exact fresh charge inside
    simpa [RunStore.charge, RunStore.record, nodup_append, ledgered.keys] using distinct
  · rcases mem_record_events.mp mem with old | rfl
    · exact (ledgered.numbered event old).trans (Nat.le_succ _)
    · exact le_rfl
  · rcases mem_record_events.mp mem with old | rfl
    · exact grown event old totals announces
    · cases announces
      exact ⟨le_rfl, le_rfl⟩
  · rcases mem_record_events.mp second with old' | rfl
    · rcases mem_record_events.mp first with old | rfl
      · exact ledgered.ordered earlier old later old' sequel before after announced announces
      · -- The new event carries the highest number.
        have known := ledgered.numbered later old'
        exact absurd (sequel.trans known) (Nat.not_succ_le_self _)
    · cases announces
      rcases mem_record_events.mp first with old | rfl
      · exact grown earlier old before announced
      · cases announced
        exact ⟨le_rfl, le_rfl⟩

theorem Effect.ledgered (effect : Effect lint may s s') (ledgered : Ledgered s) : Ledgered s' := by
  cases effect with
  | moved _ _ _ _ _ _ plain => exact ledgered.recorded_same ⟨rfl, rfl, rfl, rfl, rfl⟩ plain
  | claimed _ _ _ _ _ _ _ _ plain =>
    exact ledgered.recorded_same ⟨rfl, rfl, rfl, rfl, rfl⟩ plain
  | awaited _ _ _ _ _ _ plain => exact ledgered.recorded_same ⟨rfl, rfl, rfl, rfl, rfl⟩ plain
  | ran books _ _ plain =>
    exact ledgered.recorded_same ⟨rfl, rfl, books.spent, books.saved, books.nextSeq⟩ plain
  | recorded _ plain => exact ledgered.recorded plain
  | charged amounts fresh _ => exact ledgered.charged amounts fresh
  | expanded _ _ plain => exact ledgered.recorded_same ⟨rfl, rfl, rfl, rfl, rfl⟩ plain
  | _ => exact ledgered.of_same ⟨rfl, rfl, rfl, rfl, rfl⟩

end Kept

theorem ledgered_invariant (definitionLint : Dag.DefinitionLint) (lint : Dag.PlanLint)
    (may : Permits) : Invariant definitionLint lint may Ledgered where
  founded := by
    intro definition s founded
    obtain ⟨_, _, _, _, _, rfl⟩ := founded.planned
    refine ⟨rfl, rfl, nodup_nil, ?_, ?_, ?_⟩ <;>
      exact fun _ mem => absurd mem not_mem_nil
  kept _ _ effect _ ledgered := effect.ledgered ledgered

variable {now : Time} {s s' : RunStore} {stepID : String} {lint : Dag.PlanLint}

def AttemptCost.Priced (charge : AttemptCost) : Prop :=
  charge.resource ≠ "" ∧ charge.rate ≠ "" ∧ 0 ≤ charge.costNanoUSD ∧ 0 ≤ charge.savedNanoUSD

instance (charge : AttemptCost) : Decidable charge.Priced :=
  inferInstanceAs (Decidable (_ ∧ _ ∧ _ ∧ _))

def Affordable : List AttemptCost → Int → Int → Prop
  | [], _, _ => True
  | charge :: rest, spent, saved =>
    charge.Priced ∧ spent + charge.costNanoUSD ≤ maxBigint ∧
      saved + charge.savedNanoUSD ≤ maxBigint ∧
      Affordable rest (spent + charge.costNanoUSD) (saved + charge.savedNanoUSD)

/-- The row is about the compaction of a context, which an attempt may pay for while it runs. -/
def CostRow.Compacts (row : CostRow) : Prop := ∃ index, row.entry = compactionEntry index

structure Charged (charges : List AttemptCost) (now : Time) (s s' : RunStore) : Prop where
  costs : s'.costs = s.costs ++ charges.map (AttemptCost.row · now)
  spent : s'.run.spentNanoUSD = s.run.spentNanoUSD + (charges.map AttemptCost.costNanoUSD).sum
  saved : s'.run.savedNanoUSD = s.run.savedNanoUSD + (charges.map AttemptCost.savedNanoUSD).sum

theorem Charged.nil (same : SameLedger s s') : Charged [] now s s' :=
  ⟨by simpa using same.costs, by simpa using same.spent, by simpa using same.saved⟩

variable {first second : List AttemptCost}

theorem Charged.append (charged : Charged first now s s')
    (charged' : Charged second now s' s'') : Charged (first ++ second) now s s'' := by
  refine ⟨?_, ?_, ?_⟩
  · rw [charged'.costs, charged.costs, map_append, append_assoc]
  · rw [charged'.spent, charged.spent, map_append, sum_append, Int.add_assoc]
  · rw [charged'.saved, charged.saved, map_append, sum_append, Int.add_assoc]

variable {op : String}

section Charge

variable {args : AttemptCost}

theorem applyAttemptCost_charges (ok : applyAttemptCost args now s = (.ok applied, s')) :
    Affordable [args] s.run.spentNanoUSD s.run.savedNanoUSD ∧ Charged [args] now s s' := by
  have rest₁ := requireNow_bind_ok ok
  obtain ⟨_, _, named, rest₂⟩ := bind_ok rest₁
  obtain ⟨isNamed, rfl⟩ := requireArgument_ok named
  obtain ⟨_, s₃, rated, rest₃⟩ := bind_ok rest₂
  obtain ⟨isRated, rfl⟩ := requireArgument_ok rated
  obtain ⟨_, _, inserted, rest₄⟩ := bind_ok rest₃
  obtain ⟨amounts, _, rfl⟩ := insertCostLedgerEntry_ok inserted
  obtain ⟨_, _, added, rest₅⟩ := bind_ok rest₄
  have bounded : s₃.run.spentNanoUSD + args.costNanoUSD ≤ maxBigint ∧
      s₃.run.savedNanoUSD + args.savedNanoUSD ≤ maxBigint := by
    unfold addRunCost at added
    dsimp only at added
    split_ifs at added with spent saved
    · cases added
    · cases added
    · exact ⟨not_lt.mp spent, not_lt.mp saved⟩
  obtain ⟨rfl, rfl⟩ := addRunCost_ok added
  obtain ⟨_, _, announced, rest₆⟩ := bind_ok rest₅
  cases announced
  obtain ⟨_, _, warned, rest₇⟩ := bind_ok rest₆
  cases rest₇
  refine ⟨⟨⟨of_decide_eq_true isNamed, of_decide_eq_true isRated, amounts⟩, bounded.1, bounded.2,
    trivial⟩, ?_⟩
  cases warning : args.warning <;> rw [warning] at warned <;> cases warned <;>
    exact ⟨rfl, by simp [RunStore.record, AttemptCost.row], by simp [RunStore.record, AttemptCost.row]⟩

theorem insertCostLedgerEntry_yields (amounts : 0 ≤ row.costNanoUSD ∧ 0 ≤ row.savedNanoUSD)
    (fresh : ∀ other ∈ s.costs, other.key ≠ row.key) :
    Tx.Yields (insertCostLedgerEntry op row) s fun _ s' =>
      s' = { s with costs := s.costs ++ [row] } := by
  have unknown : (s.costs.any fun other => other.key == row.key) = false := by simpa using fresh
  refine ⟨(), _, ?_, rfl⟩
  unfold insertCostLedgerEntry
  rw [if_neg (by omega), unknown]
  rfl

theorem addRunCost_yields (isSpent : s.run.spentNanoUSD + spent ≤ maxBigint)
    (isSaved : s.run.savedNanoUSD + saved ≤ maxBigint) :
    Tx.Yields (addRunCost op spent saved) s fun _ _ => True := by
  refine .of_total (fun e s' failed => ?_) fun _ _ _ => trivial
  unfold addRunCost at failed
  simp [if_neg (not_lt.mpr isSpent), if_neg (not_lt.mpr isSaved)] at failed

theorem applyAttemptCost_yields (timed : now ≠ 0)
    (affordable : Affordable [args] s.run.spentNanoUSD s.run.savedNanoUSD)
    (fresh : ∀ other ∈ s.costs, other.key ≠ (args.row now).key) :
    Tx.Yields (applyAttemptCost args now) s fun _ _ => True := by
  obtain ⟨⟨isNamed, isRated, amounts⟩, spent, saved, _⟩ := affordable
  refine (requireNow_yields timed _).bind fun _ s₁ same₁ => ?_
  subst same₁
  refine (requireArgument_yields (decide_eq_true isNamed)).bind fun _ s₂ same₂ => ?_
  subst same₂
  refine (requireArgument_yields (decide_eq_true isRated)).bind fun _ s₃ same₃ => ?_
  subst same₃
  refine (insertCostLedgerEntry_yields amounts fresh).bind fun _ s₄ same₄ => ?_
  subst same₄
  refine Tx.Yields.bind (addRunCost_yields (by exact spent) (by exact saved)) fun applied s₅ _ => ?_
  have announced : Tx.Yields (appendEvent ((args.row now).event applied)) s₅ fun _ _ => True :=
    .write trivial
  refine announced.bind fun _ s₆ _ => ?_
  have warned : Tx.Yields (warnUnknownModel (args.row now).stepID args.warning) s₆ fun _ _ => True := by
    unfold warnUnknownModel
    split
    · exact .write trivial
    · exact .pure trivial
  exact warned.bind fun _ _ _ => .pure trivial

end Charge

end Agentloom.Store
