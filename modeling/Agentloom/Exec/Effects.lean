import Agentloom.Store.Rows

/-! The side-effect journal of one step. Any number of calls of `Do`, by any attempts, run
interleaved; a call whose worker died or lost its claim is one that stops or goes on like any other.
A fresh intent is written in two steps, since nothing is locked while no row exists. -/

namespace Agentloom.Exec

open Store List

structure ResultColumn (Raw Value : Type) where
  value : Raw → Value
  store : Raw → Option Raw
  keeps : ∀ raw stored, store raw = some stored → value stored = value raw

inductive SideEffectStatus (Raw : Type) where
  | intent
  | done (result : Raw) (resultAt : Time)

structure SideEffect (Raw : Type) where
  status : SideEffectStatus Raw
  attempt : Nat
  claimID : ClaimID
  intentAt : Time

abbrev SideEffects (Raw : Type) := String → Option (SideEffect Raw)

section Journal

variable {Raw Value : Type}

def SideEffects.put (rows : SideEffects Raw) (effectID : String) (row : SideEffect Raw) :
    SideEffects Raw :=
  fun other => if other = effectID then some row else rows other

/-- Where a call of `Do` stands. A call that has failed has returned an error or has died. -/
inductive Phase (Raw : Type) where
  | begin (passes : Nat)
  | insert (passes : Nat)
  | execute
  | complete (out : Raw)
  | returned (result : Raw)
  | failed

structure Call (Raw : Type) where
  effectID : String
  attempt : Nat
  claimID : ClaimID
  phase : Phase Raw
  executed : Bool := false

def Call.new (effectID : String) (attempt : Nat) (claimID : ClaimID) : Call Raw :=
  { effectID, attempt, claimID, phase := if effectID = "" then .failed else .begin 2 }

def intentOf (call : Call Raw) (now : Time) : SideEffect Raw :=
  { status := .intent, attempt := call.attempt, claimID := call.claimID, intentAt := now }

/-- The locked read of the intent phase: a result ends the call, a dangling intent is taken over. -/
def Call.begin (call : Call Raw) (passes : Nat) (rows : SideEffects Raw) (now : Time) :
    SideEffects Raw × Call Raw :=
  match rows call.effectID with
  | none => (rows, { call with phase := .insert passes })
  | some row =>
    match row.status with
    | .done result _ => (rows, { call with phase := .returned result })
    | .intent => (rows.put call.effectID (intentOf call now), { call with phase := .execute })

/-- An insert that lost to another is tried again against the row that now exists. -/
def Call.insert (call : Call Raw) (passes : Nat) (rows : SideEffects Raw) (now : Time) :
    SideEffects Raw × Call Raw :=
  match rows call.effectID with
  | none => (rows.put call.effectID (intentOf call now), { call with phase := .execute })
  | some _ =>
    (rows, { call with phase := if passes ≤ 1 then .failed else .begin (passes - 1) })

/-- The first result is recorded; a later one is dropped in its favour. -/
def Call.complete (column : ResultColumn Raw Value) (call : Call Raw) (out : Raw)
    (rows : SideEffects Raw) (now : Time) : SideEffects Raw × Call Raw :=
  match rows call.effectID with
  | none => (rows, { call with phase := .failed })
  | some row =>
    match row.status with
    | .done result _ => (rows, { call with phase := .returned result })
    | .intent =>
      match column.store out with
      | none => (rows, { call with phase := .failed })
      | some stored =>
        (rows.put call.effectID { row with status := .done stored now },
          { call with phase := .returned out })

/-- What happens to a call next: its own next transaction, the answer of the effect function, or its
end, which may hide that its last transaction was committed. -/
inductive Event (Raw : Type) where
  | next (now : Time)
  | answer (out : Except Unit Raw)
  | stop
  | stopCommitted (now : Time)

def Call.transact (column : ResultColumn Raw Value) (call : Call Raw) (rows : SideEffects Raw)
    (now : Time) : SideEffects Raw × Call Raw :=
  match call.phase with
  | .begin passes => call.begin passes rows now
  | .insert passes => call.insert passes rows now
  | .complete out => call.complete column out rows now
  | _ => (rows, call)

def Call.react (column : ResultColumn Raw Value) (call : Call Raw) (rows : SideEffects Raw) :
    Event Raw → SideEffects Raw × Call Raw
  | .next now => call.transact column rows now
  | .answer out =>
    match call.phase with
    | .execute =>
      (rows, { call with
        executed := true
        phase := match out with
          | .ok out => .complete out
          | .error _ => .failed })
    | _ => (rows, call)
  | .stop =>
    match call.phase with
    | .returned _ => (rows, call)
    | _ => (rows, { call with phase := .failed })
  | .stopCommitted now =>
    match call.phase with
    | .returned _ => (rows, call)
    | _ => ((call.transact column rows now).1, { call with phase := .failed })

structure JournalState (Raw : Type) where
  rows : SideEffects Raw
  calls : List (Call Raw)

inductive JournalStep (column : ResultColumn Raw Value) :
    JournalState Raw → JournalState Raw → Prop
  | start {s : JournalState Raw} (effectID : String) (attempt : Nat) (claimID : ClaimID) :
      JournalStep column s { s with calls := s.calls ++ [Call.new effectID attempt claimID] }
  | advance {s : JournalState Raw} {position : Nat} {call : Call Raw} (event : Event Raw)
      (found : s.calls[position]? = some call) :
      JournalStep column s
        { rows := (call.react column s.rows event).1
          calls := s.calls.set position (call.react column s.rows event).2 }

abbrev JournalRun (column : ResultColumn Raw Value) : JournalState Raw → JournalState Raw → Prop :=
  Relation.ReflTransGen (JournalStep column)

def SideEffects.recorded (rows : SideEffects Raw) (effectID : String) : Option Raw :=
  match rows effectID with
  | some { status := .done result _, .. } => some result
  | _ => none

def Kept (rows rows' : SideEffects Raw) : Prop :=
  ∀ effectID result, rows.recorded effectID = some result → rows'.recorded effectID = some result

theorem recorded_put (rows : SideEffects Raw) (effectID other : String) (row : SideEffect Raw) :
    (rows.put effectID row).recorded other =
      if other = effectID then
        match row.status with
        | .done result _ => some result
        | .intent => none
      else rows.recorded other := by
  by_cases same : other = effectID
  · obtain ⟨status, _, _, _⟩ := row
    cases status <;> simp [SideEffects.recorded, SideEffects.put, same]
  · simp [SideEffects.recorded, SideEffects.put, same]

variable {rows : SideEffects Raw} {effectID : String}

theorem Kept.put (row : SideEffect Raw) (open_ : rows.recorded effectID = none) :
    Kept rows (rows.put effectID row) := by
  intro other result recorded
  have apart : other ≠ effectID := by
    rintro rfl
    simp [open_] at recorded
  rw [recorded_put, if_neg apart, recorded]

variable {result : Raw}

theorem recorded_of_done
    (found : rows effectID = some row) (done : row.status = .done result resultAt) :
    rows.recorded effectID = some result := by
  obtain ⟨_, _, _, _⟩ := row
  cases done
  simp [SideEffects.recorded, found]

theorem recorded_of_intent (found : rows effectID = some row) (intent : row.status = .intent) :
    rows.recorded effectID = none := by
  obtain ⟨_, _, _, _⟩ := row
  cases intent
  simp [SideEffects.recorded, found]

theorem exists_done (recorded : rows.recorded effectID = some result) :
    ∃ row resultAt, rows effectID = some row ∧ row.status = .done result resultAt := by
  cases found : rows effectID with
  | none => simp [SideEffects.recorded, found] at recorded
  | some row =>
    cases status : row.status with
    | intent => simp [recorded_of_intent found status] at recorded
    | done stored resultAt =>
      rw [recorded_of_done found status] at recorded
      cases recorded
      exact ⟨row, resultAt, rfl, status⟩

def Honest (column : ResultColumn Raw Value) (rows : SideEffects Raw) (call : Call Raw) : Prop :=
  ∀ result, call.phase = .returned result → ∃ recorded,
    rows.recorded call.effectID = some recorded ∧ column.value recorded = column.value result

variable {column : ResultColumn Raw Value} {call : Call Raw}

theorem Honest.kept (honest : Honest column rows call) (kept : Kept rows rows') :
    Honest column rows' call := by
  intro result returned
  obtain ⟨recorded, found, same⟩ := honest result returned
  exact ⟨recorded, kept _ _ found, same⟩

structure Transacts (column : ResultColumn Raw Value) (rows : SideEffects Raw) (call : Call Raw)
    (after : SideEffects Raw × Call Raw) : Prop where
  kept : Kept rows after.1
  honest : Honest column after.1 after.2
  effectID : after.2.effectID = call.effectID
  executed : after.2.executed = call.executed

theorem Call.begin_transacts (column : ResultColumn Raw Value) (call : Call Raw) (passes : Nat)
    (rows : SideEffects Raw) (now : Time) :
    Transacts column rows call (call.begin passes rows now) := by
  cases found : rows call.effectID with
  | none =>
    simp only [Call.begin, found]
    exact ⟨fun _ _ recorded => recorded, by simp [Honest], rfl, rfl⟩
  | some row =>
    cases status : row.status with
    | done result resultAt =>
      simp only [Call.begin, found, status]
      refine ⟨fun _ _ recorded => recorded, ?_, rfl, rfl⟩
      rintro _ ⟨⟩
      exact ⟨result, recorded_of_done found status, rfl⟩
    | intent =>
      simp only [Call.begin, found, status]
      exact ⟨.put _ (recorded_of_intent found status), by simp [Honest], rfl, rfl⟩

theorem Call.insert_transacts (column : ResultColumn Raw Value) (call : Call Raw) (passes : Nat)
    (rows : SideEffects Raw) (now : Time) :
    Transacts column rows call (call.insert passes rows now) := by
  cases found : rows call.effectID with
  | none =>
    have absent : rows.recorded call.effectID = none := by simp [SideEffects.recorded, found]
    simp only [Call.insert, found]
    exact ⟨.put _ absent, by simp [Honest], rfl, rfl⟩
  | some row =>
    simp only [Call.insert, found]
    refine ⟨fun _ _ recorded => recorded, ?_, rfl, rfl⟩
    by_cases last : passes ≤ 1 <;> simp [Honest, last]

theorem Call.complete_transacts (column : ResultColumn Raw Value) (call : Call Raw) (out : Raw)
    (rows : SideEffects Raw) (now : Time) :
    Transacts column rows call (call.complete column out rows now) := by
  cases found : rows call.effectID with
  | none =>
    simp only [Call.complete, found]
    exact ⟨fun _ _ recorded => recorded, by simp [Honest], rfl, rfl⟩
  | some row =>
    cases status : row.status with
    | done result resultAt =>
      simp only [Call.complete, found, status]
      refine ⟨fun _ _ recorded => recorded, ?_, rfl, rfl⟩
      rintro _ ⟨⟩
      exact ⟨result, recorded_of_done found status, rfl⟩
    | intent =>
      cases stores : column.store out with
      | none =>
        simp only [Call.complete, found, status, stores]
        exact ⟨fun _ _ recorded => recorded, by simp [Honest], rfl, rfl⟩
      | some stored =>
        simp only [Call.complete, found, status, stores]
        refine ⟨.put _ (recorded_of_intent found status), ?_, rfl, rfl⟩
        rintro _ ⟨⟩
        exact ⟨stored, by simp [recorded_put], column.keeps out stored stores⟩

theorem Call.transact_transacts (honest : Honest column rows call) (now : Time) :
    Transacts column rows call (call.transact column rows now) := by
  have idle : Transacts column rows call (rows, call) :=
    ⟨fun _ _ recorded => recorded, honest, rfl, rfl⟩
  unfold Call.transact
  split
  · exact call.begin_transacts column _ rows now
  · exact call.insert_transacts column _ rows now
  · exact call.complete_transacts column _ rows now
  · exact idle

theorem Call.react_keeps (honest : Honest column rows call) (event : Event Raw) :
    Kept rows (call.react column rows event).1 ∧
      Honest column (call.react column rows event).1 (call.react column rows event).2 ∧
      (call.react column rows event).2.effectID = call.effectID := by
  have transacts := Call.transact_transacts honest
  cases event with
  | next now => exact ⟨(transacts now).kept, (transacts now).honest, (transacts now).effectID⟩
  | answer out =>
    simp only [Call.react]
    split
    · refine ⟨fun _ _ recorded => recorded, ?_, rfl⟩
      cases out <;> simp [Honest]
    · exact ⟨fun _ _ recorded => recorded, honest, rfl⟩
  | stop =>
    simp only [Call.react]
    split
    · exact ⟨fun _ _ recorded => recorded, honest, rfl⟩
    · exact ⟨fun _ _ recorded => recorded, by simp [Honest], rfl⟩
  | stopCommitted now =>
    simp only [Call.react]
    split
    · exact ⟨fun _ _ recorded => recorded, honest, rfl⟩
    · exact ⟨(transacts now).kept, by simp [Honest], rfl⟩

/-- A call that began after the result was recorded: it has not called the effect function, and
there is nothing else for it to return. -/
structure Spared (result : Raw) (call : Call Raw) : Prop where
  executed : call.executed = false
  phase : (∃ passes, call.phase = .begin passes) ∨ call.phase = .returned result ∨
    call.phase = .failed

theorem Spared.react (spared : Spared result call)
    (recorded : rows.recorded call.effectID = some result) (event : Event Raw) :
    Spared result (call.react column rows event).2 := by
  obtain ⟨_, _, found, done⟩ := exists_done recorded
  obtain ⟨executed, ⟨_, phase⟩ | phase | phase⟩ := spared <;> cases event <;>
    simp only [Call.react, Call.transact, phase, Call.begin, found, done] <;>
    exact ⟨executed, by simp [phase]⟩

section Runs

variable {column : ResultColumn Raw Value} {s t : JournalState Raw}

def AllHonest (column : ResultColumn Raw Value) (s : JournalState Raw) : Prop :=
  ∀ call ∈ s.calls, Honest column s.rows call

theorem JournalStep.kept (step : JournalStep column s t) (honest : AllHonest column s) :
    Kept s.rows t.rows := by
  cases step with
  | start => exact fun _ _ recorded => recorded
  | advance event found =>
    exact (Call.react_keeps (honest _ (mem_of_getElem? found)) event).1

theorem JournalStep.honest (step : JournalStep column s t) (honest : AllHonest column s) :
    AllHonest column t := by
  have kept := step.kept honest
  cases step with
  | start effectID attempt claimID =>
    intro call mem
    rcases mem_append.mp mem with earlier | isNew
    · exact honest call earlier
    · rw [mem_singleton.mp isNew]
      by_cases empty : effectID = "" <;> simp [Honest, Call.new, empty]
  | advance event found =>
    intro call mem
    rcases mem_or_eq_of_mem_set mem with earlier | rfl
    · exact (honest call earlier).kept kept
    · exact (Call.react_keeps (honest _ (mem_of_getElem? found)) event).2.1

theorem JournalRun.honest (run : JournalRun column s t) (honest : AllHonest column s) :
    AllHonest column t ∧ Kept s.rows t.rows := by
  induction run with
  | refl => exact ⟨honest, fun _ _ recorded => recorded⟩
  | tail _ step ih =>
    exact ⟨step.honest ih.1, fun effectID result recorded =>
      step.kept ih.1 effectID result (ih.2 effectID result recorded)⟩

def SparedFrom (rows : SideEffects Raw) (first : Nat) (s : JournalState Raw) : Prop :=
  ∀ position call result, first ≤ position → s.calls[position]? = some call →
    rows.recorded call.effectID = some result → Spared result call

theorem JournalStep.spared (step : JournalStep column s t)
    (honest : AllHonest column s) (kept : Kept rows s.rows) (spared : SparedFrom rows first s) :
    SparedFrom rows first t := by
  intro position call result late found recorded
  cases step with
  | start effectID attempt claimID =>
    rw [getElem?_append] at found
    split at found
    · exact spared position call result late found recorded
    · rw [mem_singleton.mp (mem_of_getElem? found)]
      by_cases empty : effectID = "" <;> exact ⟨rfl, by simp [Call.new, empty]⟩
  | @advance other moved event isMoved =>
    rw [getElem?_set] at found
    split at found
    · rename_i same
      subst same
      obtain ⟨_, rfl⟩ : other < s.calls.length ∧ (moved.react column s.rows event).2 = call := by
        simpa using found
      have named := (Call.react_keeps (honest _ (mem_of_getElem? isMoved)) event).2.2
      rw [named] at recorded
      exact (spared other moved result late isMoved recorded).react (kept _ _ recorded) event
    · exact spared position call result late found recorded

theorem JournalRun.spared (run : JournalRun column s t) (honest : AllHonest column s) :
    SparedFrom s.rows s.calls.length t := by
  induction run with
  | refl =>
    intro position call result late found
    simp [getElem?_eq_none_iff.mpr late] at found
  | tail before step ih =>
    have reached := JournalRun.honest before honest
    exact step.spared reached.1 reached.2 ih

/-- Over any interleaving: a recorded result stays and is the only one; a call that has returned has
returned it; and a call that began after it was recorded has not called the effect function, and
returns it from its next transaction. -/
theorem do_effectively_once {start s t : JournalState Raw} (fresh : start.calls = [])
    (before : JournalRun column start s) (after : JournalRun column s t) :
    (∀ effectID result, s.rows.recorded effectID = some result →
      t.rows.recorded effectID = some result) ∧
    (∀ call ∈ t.calls, ∀ result, call.phase = .returned result → ∃ recorded,
      t.rows.recorded call.effectID = some recorded ∧ column.value recorded = column.value result) ∧
    (∀ position call result, s.calls.length ≤ position → t.calls[position]? = some call →
      s.rows.recorded call.effectID = some result → call.executed = false ∧
        ((∃ passes, call.phase = .begin passes ∧ ∀ now,
            (call.react column t.rows (.next now)).2.phase = .returned result) ∨
          call.phase = .returned result ∨ call.phase = .failed)) := by
  have none : AllHonest column start := by
    intro call member
    simp [fresh] at member
  have honest := (JournalRun.honest before none).1
  obtain ⟨honestNow, kept⟩ := JournalRun.honest after honest
  refine ⟨kept, honestNow, fun position call result late found recorded => ?_⟩
  obtain ⟨executed, phase⟩ := JournalRun.spared after honest position call result late found recorded
  refine ⟨executed, phase.imp_left ?_⟩
  rintro ⟨passes, isBegin⟩
  refine ⟨passes, isBegin, fun now => ?_⟩
  obtain ⟨_, _, isRow, done⟩ := exists_done (kept _ _ recorded)
  simp only [Call.react, Call.transact, isBegin, Call.begin, isRow, done]

def plainColumn : ResultColumn Nat Nat where
  value := id
  store := some
  keeps := by
    rintro raw stored ⟨⟩
    rfl

theorem do_effectively_once_second_attempt :
    ∃ s t : JournalState Nat, JournalRun plainColumn ⟨fun _ => none, []⟩ s ∧
      JournalRun plainColumn s t ∧ s.rows.recorded "mail" = some 7 ∧
      ∃ call, t.calls[1]? = some call ∧ call.executed = false ∧
        ∀ now, (call.react plainColumn t.rows (.next now)).2.phase = .returned 7 := by
  have first : JournalRun plainColumn ⟨fun _ => none, []⟩ _ :=
    (((((Relation.ReflTransGen.refl.tail (.start "mail" 1 1)).tail
      (@JournalStep.advance _ _ _ _ 0 _ (.next 1) rfl)).tail
      (@JournalStep.advance _ _ _ _ 0 _ (.next 2) rfl)).tail
      (@JournalStep.advance _ _ _ _ 0 _ (.answer (.ok 7)) rfl)).tail
      (@JournalStep.advance _ _ _ _ 0 _ (.next 3) rfl))
  have second : ∀ s, JournalRun plainColumn s _ := fun s => .single (.start "mail" 2 2)
  refine ⟨_, _, first, second _, rfl, _, rfl, ?_⟩
  obtain ⟨_, _, spared⟩ := do_effectively_once rfl first (second _)
  obtain ⟨executed, ⟨_, _, returns⟩ | returned | failed⟩ := spared 1 _ 7 le_rfl rfl rfl
  · exact ⟨executed, returns⟩
  · cases returned
  · cases failed

end Runs

end Journal

end Agentloom.Exec
