import Mathlib.Algebra.Group.Nat.Defs
import Mathlib.Data.Prod.Lex
import Mathlib.Order.Fin.Basic

/-! The retention of the dispatch stream. A trim is three commands, between which entries are
delivered, acknowledged and claimed; it still removes only entries that the group is done with. -/

namespace Agentloom.Queue

open List

/-- A time and a sequence number, compared in this order. -/
abbrev StreamID := Fin (2 ^ 64) ×ₗ Fin (2 ^ 64)

def successorStreamID (id : StreamID) : StreamID :=
  let (ms, seq) := ofLex id
  if seq.val = 2 ^ 64 - 1 then toLex (ms + 1, 0) else toLex (ms, seq + 1)

/-- Where a call of `TrimAcked` stands; one that fails stays there. -/
inductive TrimCall where
  | started
  | informed (lastDelivered : StreamID)
  | decided (threshold : StreamID)
  | returned (trimmed : Nat)

/-- A stream with one consumer group, created at zero, and the calls that trim it. -/
structure Stream where
  entries : List StreamID := []
  lastGenerated : StreamID := toLex (0, 0)
  lastDelivered : StreamID := toLex (0, 0)
  pending : List StreamID := []
  calls : Nat → TrimCall := fun _ => .started

inductive Command where
  | enqueue (id : StreamID)
  | read (count : Nat)
  | ack (id : StreamID)
  | claim (ids : List StreamID)
  | trim (call : Nat)

namespace Stream

def enter (s : Stream) (call : Nat) (phase : TrimCall) : Stream :=
  { s with calls := Function.update s.calls call phase }

def step (s : Stream) : Command → Stream
  | .enqueue id =>
    if s.lastGenerated < id then { s with entries := s.entries ++ [id], lastGenerated := id } else s
  | .read count =>
    let batch := (s.entries.filter (s.lastDelivered < ·)).take count
    { s with pending := s.pending ++ batch, lastDelivered := batch.foldl max s.lastDelivered }
  | .ack id => { s with pending := s.pending.filter (· ≠ id) }
  -- a claimed entry stays pending for its new owner, unless the stream has lost it
  | .claim ids => { s with pending := s.pending.filter fun id => id ∉ ids ∨ id ∈ s.entries }
  | .trim call =>
    match s.calls call with
    | .started => s.enter call (.informed s.lastDelivered)
    | .informed last => s.enter call (.decided (s.pending.min?.getD (successorStreamID last)))
    | .decided threshold =>
      let kept := s.entries.filter (threshold ≤ ·)
      { s.enter call (.returned (s.entries.length - kept.length)) with entries := kept }
    | .returned _ => s

def run (s : Stream) (commands : List Command) : Stream := commands.foldl step s

def Fits (lastDelivered : StreamID) (pending : List StreamID) : TrimCall → Prop
  | .informed last => last ≤ lastDelivered
  | .decided threshold =>
    (∀ id ∈ pending, threshold ≤ id) ∧ ∀ id, lastDelivered < id → threshold ≤ id
  | _ => True

structure Safe (s : Stream) : Prop where
  delivered : ∀ id ∈ s.pending, id ≤ s.lastDelivered
  calls : ∀ call, Fits s.lastDelivered s.pending (s.calls call)

theorem le_of_lt_successor {id other} (below : other < successorStreamID id) : other ≤ id := by
  rw [Prod.Lex.le_iff]
  rw [successorStreamID, Prod.Lex.lt_iff] at below
  generalize ofLex id = last at below ⊢
  generalize ofLex other = earlier at below ⊢
  obtain ⟨ms, seq⟩ := last
  obtain ⟨ms', seq'⟩ := earlier
  dsimp only at below ⊢
  have zero : (0 : Fin (2 ^ 64)).val = 0 := rfl
  have one : (1 : Fin (2 ^ 64)).val = 1 := rfl
  split at below
  · simp only [ofLex_toLex, Fin.lt_def, Fin.le_def, Fin.ext_iff, Fin.val_add] at below ⊢
    omega
  · simp only [ofLex_toLex, Fin.lt_def, Fin.le_def, Fin.ext_iff, Fin.val_add] at below ⊢
    omega

theorem foldl_max_le {α : Type} [LinearOrder α] {ids : List α} {start : α} :
    start ≤ ids.foldl max start ∧ ∀ id ∈ ids, id ≤ ids.foldl max start := by
  induction ids generalizing start with
  | nil => simp
  | cons head rest ih =>
    obtain ⟨above, all⟩ := @ih (max start head)
    refine ⟨(le_max_left _ _).trans above, fun id mem => ?_⟩
    rcases mem_cons.mp mem with rfl | later
    · exact (le_max_right _ _).trans above
    · exact all id later

variable {s s' : Stream}

theorem Safe.moved (safe : Safe s) (calls : s'.calls = s.calls)
    (later : s.lastDelivered ≤ s'.lastDelivered) (pending : ∀ id ∈ s'.pending,
      id ∈ s.pending ∨ s.lastDelivered < id ∧ id ≤ s'.lastDelivered) : Safe s' where
  delivered id member :=
    (pending id member).elim (fun earlier => (safe.delivered id earlier).trans later) And.right
  calls call := by
    have fits := safe.calls call
    rw [calls]
    cases phase : s.calls call with
    | informed last =>
      rw [phase] at fits
      exact le_trans fits later
    | decided threshold =>
      rw [phase] at fits
      refine ⟨fun id member => ?_, fun id above => fits.2 id (later.trans_lt above)⟩
      exact (pending id member).elim (fits.1 id) fun fresh => fits.2 id fresh.1
    | _ => trivial

theorem Safe.entered (safe : Safe s) (call : Nat) {phase}
    (fits : Fits s.lastDelivered s.pending phase) : Safe (s.enter call phase) where
  delivered := safe.delivered
  calls other := by
    change Fits s.lastDelivered s.pending (Function.update s.calls call phase other)
    by_cases same : other = call
    · rwa [same, Function.update_self]
    · rw [Function.update_of_ne same]
      exact safe.calls other

theorem Safe.decides (safe : Safe s) {last} (informed : last ≤ s.lastDelivered) :
    Fits s.lastDelivered s.pending (.decided (s.pending.min?.getD (successorStreamID last))) := by
  cases least : s.pending.min? with
  | none =>
    rw [min?_eq_none_iff] at least
    refine ⟨by simp [least], fun id above => not_lt.mp fun below => ?_⟩
    exact absurd ((le_of_lt_successor below).trans informed) above.not_ge
  | some lower =>
    obtain ⟨mem, below⟩ := min?_eq_some_iff.mp least
    exact ⟨below, fun id above => (safe.delivered lower mem).trans above.le⟩

theorem Safe.step (safe : Safe s) (command : Command) : Safe (s.step command) := by
  cases command with
  | enqueue id =>
    dsimp only [Stream.step]
    split
    · exact safe.moved rfl le_rfl fun _ => .inl
    · exact safe
  | read count =>
    obtain ⟨later, most⟩ := @foldl_max_le _ _
      ((s.entries.filter (s.lastDelivered < ·)).take count) s.lastDelivered
    refine safe.moved rfl later fun id mem => ?_
    rcases mem_append.mp mem with earlier | fresh
    · exact .inl earlier
    · have above := (mem_filter.mp (mem_of_mem_take fresh)).2
      exact .inr ⟨by simpa using above, most id fresh⟩
  | ack id => exact safe.moved rfl le_rfl fun _ mem => .inl (mem_filter.mp mem).1
  | claim ids => exact safe.moved rfl le_rfl fun _ mem => .inl (mem_filter.mp mem).1
  | trim call =>
    have fits := safe.calls call
    dsimp only [Stream.step]
    cases phase : s.calls call with
    | started => exact safe.entered call (le_refl s.lastDelivered)
    | informed last =>
      rw [phase] at fits
      exact safe.entered call (safe.decides fits)
    | decided threshold =>
      exact (@Safe.entered s safe call (.returned _) trivial).moved rfl le_rfl fun _ => .inl
    | returned _ => exact safe

theorem Safe.run (safe : Safe s) (commands : List Command) : Safe (s.run commands) := by
  induction commands generalizing s with
  | nil => exact safe
  | cons command rest ih => exact ih (safe.step command)

theorem removed {command id} (mem : id ∈ s.entries) (gone : id ∉ (s.step command).entries) :
    ∃ call threshold, s.calls call = .decided threshold ∧ id < threshold := by
  cases command with
  | enqueue other =>
    dsimp only [Stream.step] at gone
    split at gone
    · exact absurd (mem_append_left _ mem) gone
    · exact absurd mem gone
  | trim call =>
    dsimp only [Stream.step] at gone
    cases phase : s.calls call with
    | decided threshold =>
      rw [phase] at gone
      exact ⟨call, threshold, phase, by simpa [mem] using gone⟩
    | _ =>
      rw [phase] at gone
      exact absurd mem gone
  | _ => exact absurd mem gone

/-- After any commands, whoever gave them: what the next one removes has been delivered and is not
pending, and a call with no other command in between keeps exactly what is not below the oldest
pending entry. -/
theorem trim_spares_live (commands : List Command) :
    let s := run {} commands
    (∀ command, ∀ id ∈ s.entries, id ∉ (s.step command).entries →
      id ∉ s.pending ∧ id ≤ s.lastDelivered) ∧
    ∀ call, s.calls call = .started → ∀ oldest ∈ s.pending, (∀ id ∈ s.pending, oldest ≤ id) →
      (s.run [.trim call, .trim call, .trim call]).entries = s.entries.filter (oldest ≤ ·) := by
  intro s
  have start : Safe {} := ⟨by simp, fun _ => trivial⟩
  have safe : Safe s := start.run commands
  constructor
  · intro command id member gone
    obtain ⟨call, threshold, decided, below⟩ := removed member gone
    have fits := safe.calls call
    rw [decided] at fits
    exact ⟨fun pending => absurd (fits.1 id pending) below.not_ge,
      not_lt.mp fun above => absurd (fits.2 id above) below.not_ge⟩
  · intro call started oldest member least
    have lower : s.pending.min? = some oldest := min?_eq_some_iff.mpr ⟨member, least⟩
    simp [run, Stream.step, started, enter, lower]

end Stream

end Agentloom.Queue
