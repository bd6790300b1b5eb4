import Mathlib.Logic.Relation
import Mathlib.Tactic.Common

/-! Programs over a state that may stop with an error. Writes made before an error stay visible to
a caller that handles the error; only `commit`, which runs a program as one transaction, undoes
them. `Ensures` relates the states before and after a program and composes over its parts. -/

namespace Agentloom.Transaction

def Tx (σ ε α : Type) : Type := σ → Except ε α × σ

namespace Tx

variable {σ ε α β : Type}

instance : Monad (Tx σ ε) where
  pure a := fun s => (.ok a, s)
  bind x f := fun s =>
    match x s with
    | (.ok a, s') => f a s'
    | (.error e, s') => (.error e, s')

def throw (e : ε) : Tx σ ε α := fun s => (.error e, s)

def read (f : σ → α) : Tx σ ε α := fun s => (.ok (f s), s)

def write (f : σ → σ) : Tx σ ε Unit := fun s => (.ok (), f s)

def dropping (handled : ε → Bool) (x : Tx σ ε α) : Tx σ ε (Option α) := fun s =>
  match x s with
  | (.ok a, s') => (.ok (some a), s')
  | (.error e, s') => if handled e then (.ok none, s') else (.error e, s')

def forEach (items : List α) (body : α → Tx σ ε Unit) : Tx σ ε Unit :=
  match items with
  | [] => pure ()
  | item :: rest => do
      body item
      forEach rest body

def commit (x : Tx σ ε α) (s : σ) : Except ε α × σ :=
  match x s with
  | (.ok a, s') => (.ok a, s')
  | (.error e, _) => (.error e, s)

@[simp] theorem pure_apply (a : α) (s : σ) : (pure a : Tx σ ε α) s = (.ok a, s) := rfl

@[simp] theorem throw_apply (e : ε) (s : σ) : (throw e : Tx σ ε α) s = (.error e, s) := rfl

@[simp] theorem read_apply (f : σ → α) (s : σ) : (read f : Tx σ ε α) s = (.ok (f s), s) := rfl

@[simp] theorem write_apply (f : σ → σ) (s : σ) : (write f : Tx σ ε Unit) s = (.ok (), f s) := rfl

theorem bind_apply (x : Tx σ ε α) (f : α → Tx σ ε β) (s : σ) :
    (x >>= f) s = match x s with
      | (.ok a, s') => f a s'
      | (.error e, s') => (.error e, s') := rfl

theorem bind_of_ok {f : α → Tx σ ε β} (ok : x s = (.ok a, s')) : (x >>= f) s = f a s' := by
  rw [bind_apply, ok]

theorem bind_of_error {f : α → Tx σ ε β} (failed : x s = (.error e, s')) :
    (x >>= f) s = (.error e, s') := by
  rw [bind_apply, failed]

theorem bind_ok {f : α → Tx σ ε β} (ok : (x >>= f) s = (.ok b, s')) :
    ∃ a middle, x s = (.ok a, middle) ∧ f a middle = (.ok b, s') := by
  rw [bind_apply] at ok
  split at ok
  · rename_i a middle first
    exact ⟨a, middle, first, ok⟩
  · cases ok

theorem read_bind_ok {read} {f : α → Tx σ ε β} {s s' b}
    (ok : (Tx.read read >>= f) s = (.ok b, s')) : f (read s) s = (.ok b, s') := ok

theorem bind_error {f : α → Tx σ ε β} (failed : (x >>= f) s = (.error e, s')) :
    x s = (.error e, s') ∨ ∃ a middle, x s = (.ok a, middle) ∧ f a middle = (.error e, s') := by
  rw [bind_apply] at failed
  split at failed
  · rename_i a middle first
    exact .inr ⟨a, middle, first, failed⟩
  · rename_i first
    cases failed
    exact .inl first

theorem forEach_append_ok {body : α → Tx σ ε Unit} (ok : forEach items body s = (.ok u, s'))
    (more : List α) : forEach (items ++ more) body s = forEach more body s' := by
  induction items generalizing s with
  | nil =>
    cases ok
    rfl
  | cons item rest ih =>
    obtain ⟨_, _, first, later⟩ := bind_ok ok
    exact (bind_of_ok first).trans (ih later)

theorem bind_state {f : α → Tx σ ε β} (first : (x s).2 = s) (second : ∀ a, (f a s).2 = s) :
    ((x >>= f) s).2 = s := by
  rw [bind_apply]
  split
  · rename_i ok
    rw [ok] at first
    cases first
    exact second _
  · rename_i failed
    rw [failed] at first
    exact first

theorem commit_of_ok {x : Tx σ ε α} (ok : x s = (.ok a, s')) : commit x s = (.ok a, s') := by
  rw [commit, ok]

theorem commit_of_error {x : Tx σ ε α} (failed : (commit x s).1 = .error e) :
    (commit x s).2 = s := by
  unfold commit at failed ⊢
  split
  · rename_i first
    simp [first] at failed
  · rfl

theorem ok_of_isOk {x : Tx σ ε α} (isOk : (x s).1.isOk = true) :
    ∃ a, x s = (.ok a, (x s).2) := by
  cases outcome : x s with
  | mk result s' =>
    rw [outcome] at isOk
    cases result with
    | ok a => exact ⟨a, rfl⟩
    | error e => cases isOk

def Uncaught (handled : ε → Bool) (x : Tx σ ε α) : Prop :=
  ∀ s e s', x s = (.error e, s') → handled e = false

section Uncaught

variable {handled : ε → Bool}

theorem Uncaught.pure (a : α) : Uncaught handled (Pure.pure a : Tx σ ε α) := by
  intro s e s' failed
  cases failed

theorem Uncaught.throw (uncaught : handled e = false) : Uncaught handled (throw e : Tx σ ε α) := by
  intro s e s' failed
  cases failed
  exact uncaught

theorem Uncaught.read (f : σ → α) : Uncaught handled (read f : Tx σ ε α) := by
  intro s e s' failed
  cases failed

theorem Uncaught.write (f : σ → σ) : Uncaught handled (write f : Tx σ ε Unit) := by
  intro s e s' failed
  cases failed

theorem Uncaught.bind {f : α → Tx σ ε β} (first : Uncaught handled x)
    (second : ∀ a, Uncaught handled (f a)) : Uncaught handled (x >>= f) := by
  intro s e s' failed
  rcases bind_error failed with early | ⟨a, middle, _, late⟩
  · exact first s e s' early
  · exact second a middle e s' late

theorem Uncaught.forEach {body : α → Tx σ ε Unit}
    (each : ∀ item, Uncaught handled (body item)) : Uncaught handled (forEach items body) := by
  induction items with
  | nil => exact .pure ()
  | cons item rest ih => exact (each item).bind fun _ => ih

end Uncaught

def Clean (handled : ε → Bool) (x : Tx σ ε α) (s : σ) : Prop :=
  ∀ e s', x s = (.error e, s') → handled e = true → s' = s

section Clean

variable {handled : ε → Bool} {x : Tx σ ε α} {s : σ}

theorem Clean.of_uncaught (uncaught : Uncaught handled x) : Clean handled x s := by
  intro e s' failed drops
  simp [uncaught s e s' failed] at drops

theorem Clean.of_state (keeps : (x s).2 = s) : Clean handled x s := by
  intro e s' failed _
  rw [failed] at keeps
  exact keeps

theorem Clean.bind_reading {f : α → Tx σ ε β} (keeps : (x s).2 = s)
    (next : ∀ a, x s = (.ok a, s) → Clean handled (f a) s) : Clean handled (x >>= f) s := by
  intro e s' failed drops
  rcases bind_error failed with early | ⟨a, _, first, late⟩
  · rw [early] at keeps
    exact keeps
  · rw [first] at keeps
    cases keeps
    exact next a first e s' late drops

theorem Clean.bind_uncaught {f : α → Tx σ ε β} (first : Clean handled x s)
    (rest : ∀ a, Uncaught handled (f a)) : Clean handled (x >>= f) s := by
  intro e s' failed drops
  rcases bind_error failed with early | ⟨a, middle, _, late⟩
  · exact first e s' early drops
  · simp [rest a middle e s' late] at drops

end Clean

def EnsuresAt (handled : ε → Bool) (r : σ → σ → Prop) (x : Tx σ ε α) (s : σ) : Prop :=
  match x s with
  | (.ok _, s') => r s s'
  | (.error e, s') => handled e = true → r s s'

def Ensures (handled : ε → Bool) (r : σ → σ → Prop) (x : Tx σ ε α) : Prop :=
  ∀ s, EnsuresAt handled r x s

variable {handled : ε → Bool} {r : σ → σ → Prop} {x : Tx σ ε α}

theorem EnsuresAt.of_ok (ensures : EnsuresAt handled r x s) (ok : x s = (.ok a, s')) : r s s' := by
  unfold EnsuresAt at ensures
  rw [ok] at ensures
  exact ensures

theorem EnsuresAt.of_error (ensures : EnsuresAt handled r x s)
    (failed : x s = (.error e, s')) (drops : handled e = true) : r s s' := by
  unfold EnsuresAt at ensures
  rw [failed] at ensures
  exact ensures drops

theorem EnsuresAt.intro (onOk : ∀ a s', x s = (.ok a, s') → r s s')
    (onError : ∀ e s', x s = (.error e, s') → handled e = true → r s s') :
    EnsuresAt handled r x s := by
  unfold EnsuresAt
  split
  · rename_i ok
    exact onOk _ _ ok
  · rename_i failed
    exact onError _ _ failed

theorem EnsuresAt.bind_reading {s : σ} {f : α → Tx σ ε β} (refl : r s s) (keeps : (x s).2 = s)
    (next : ∀ a, x s = (.ok a, s) → EnsuresAt handled r (f a) s) :
    EnsuresAt handled r (x >>= f) s := by
  refine .intro ?_ ?_
  · intro b s' ok
    obtain ⟨a, middle, first, second⟩ := bind_ok ok
    rw [first] at keeps
    cases keeps
    exact (next a first).of_ok second
  · intro e s' failed drops
    rcases bind_error failed with early | ⟨a, _, first, late⟩
    · rw [early] at keeps
      cases keeps
      exact refl
    · rw [first] at keeps
      cases keeps
      exact (next a first).of_error late drops

theorem Ensures.of_ok (ensures : Ensures handled r x) (ok : x s = (.ok a, s')) : r s s' :=
  (ensures s).of_ok ok

theorem Ensures.intro (onOk : ∀ s a s', x s = (.ok a, s') → r s s')
    (onError : ∀ s e s', x s = (.error e, s') → handled e = true → r s s') : Ensures handled r x :=
  fun s => .intro (onOk s) (onError s)

theorem EnsuresAt.of_clean (refl : r s s) (clean : Clean handled x s)
    (onOk : ∀ a s', x s = (.ok a, s') → r s s') : EnsuresAt handled r x s := by
  refine .intro onOk fun e s' failed drops => ?_
  rw [clean e s' failed drops]
  exact refl

theorem Ensures.mono (ensures : Ensures handled r x) (weaker : ∀ s s', r s s' → r' s s') :
    Ensures handled r' x :=
  .intro (fun s _ s' ok => weaker s s' (ensures.of_ok ok))
    fun s _ s' failed drops => weaker s s' ((ensures s).of_error failed drops)

section Rules

variable (refl : ∀ s, r s s)

include refl

theorem Ensures.pure (a : α) : Ensures handled r (Pure.pure a : Tx σ ε α) := fun s => refl s

theorem Ensures.throw (e : ε) : Ensures handled r (throw e : Tx σ ε α) := fun s _ => refl s

theorem Ensures.read (f : σ → α) : Ensures handled r (read f : Tx σ ε α) := fun s => refl s

theorem Ensures.commit (ensures : Ensures handled r x) (s : σ) : r s (x.commit s).2 := by
  unfold Tx.commit
  split
  · rename_i ok
    exact ensures.of_ok ok
  · exact refl s

end Rules

theorem Ensures.write (step : ∀ s, r s (f s)) :
    Ensures handled r (write f : Tx σ ε Unit) := step

section Sequencing

variable (trans : ∀ s s' s'' : σ, r s s' → r s' s'' → r s s'')

include trans

theorem EnsuresAt.bind {s : σ} {f : α → Tx σ ε β} (first : EnsuresAt handled r x s)
    (second : ∀ a s', x s = (.ok a, s') → EnsuresAt handled r (f a) s') :
    EnsuresAt handled r (x >>= f) s := by
  refine .intro ?_ ?_
  · intro b s' ok
    obtain ⟨a, middle, ok₁, ok₂⟩ := bind_ok ok
    exact trans _ _ _ (first.of_ok ok₁) ((second a middle ok₁).of_ok ok₂)
  · intro e s' failed drops
    rcases bind_error failed with early | ⟨a, middle, ok₁, late⟩
    · exact first.of_error early drops
    · exact trans _ _ _ (first.of_ok ok₁) ((second a middle ok₁).of_error late drops)

theorem Ensures.bind {f : α → Tx σ ε β} (first : Ensures handled r x)
    (second : ∀ a, Ensures handled r (f a)) : Ensures handled r (x >>= f) :=
  fun s => (first s).bind trans fun a s' _ => second a s'

theorem Ensures.forEach (refl : ∀ s, r s s) {body : α → Tx σ ε Unit}
    (each : ∀ item ∈ items, Ensures handled r (body item)) :
    Ensures handled r (forEach items body) := by
  induction items with
  | nil => exact .pure refl ()
  | cons item rest ih =>
    refine .bind trans (each item List.mem_cons_self) fun _ => ?_
    exact ih fun other mem => each other (List.mem_cons_of_mem _ mem)

end Sequencing

theorem Ensures.dropping (ensures : Ensures handled r x)
    (included : ∀ e, dropped e = true → handled e = true) :
    Ensures handled r (dropping dropped x) := by
  refine .intro ?_ ?_
  · intro s a s' ok
    unfold Tx.dropping at ok
    split at ok
    · rename_i first
      cases ok
      exact ensures.of_ok first
    · rename_i e s'' failed
      split at ok
      · cases ok
        exact (ensures s).of_error failed (included e (by assumption))
      · cases ok
  · intro s e s' failed drops
    unfold Tx.dropping at failed
    split at failed
    · cases failed
    · rename_i first
      split at failed
      · cases failed
      · cases failed
        exact (ensures s).of_error first drops

def void (x : Tx σ ε α) : Tx σ ε Unit := do
  let _ ← x
  pure ()

theorem void_ok (ok : void x s = (.ok u, s')) : ∃ a, x s = (.ok a, s') := by
  obtain ⟨a, _, first, second⟩ := bind_ok ok
  cases second
  exact ⟨a, first⟩

theorem void_error : void x s = (.error e, s') ↔ x s = (.error e, s') := by
  unfold void
  rw [bind_apply]
  split <;> simp_all

theorem Ensures.void (ensures : Ensures handled r x) : Ensures handled r x.void := by
  refine .intro ?_ ?_
  · intro s u s' ok
    obtain ⟨a, first⟩ := void_ok ok
    exact ensures.of_ok first
  · intro s e s' failed
    exact (ensures s).of_error (void_error.mp failed)

theorem Clean.void (clean : Clean handled x s) : Clean handled x.void s :=
  fun e s' failed => clean e s' (void_error.mp failed)

/-- From this state the program succeeds, with a result and a state that meet the condition. -/
def Yields (x : Tx σ ε α) (s : σ) (post : α → σ → Prop) : Prop :=
  ∃ a s', x s = (.ok a, s') ∧ post a s'

section Yields

variable {post : α → σ → Prop} {s : σ}

theorem Yields.of_total (never : ∀ e s', x s ≠ (.error e, s'))
    (holds : ∀ a s', x s = (.ok a, s') → post a s') : Yields x s post := by
  cases outcome : x s with
  | mk result s' =>
    cases result with
    | ok a => exact ⟨a, s', outcome, holds a s' outcome⟩
    | error e => exact absurd outcome (never e s')

theorem Yields.pure (holds : post a s) : Yields (Pure.pure a : Tx σ ε α) s post :=
  ⟨a, s, rfl, holds⟩

theorem Yields.read (holds : post (f s) s) : Yields (read f : Tx σ ε α) s post :=
  ⟨f s, s, rfl, holds⟩

theorem Yields.write {f post} (holds : post () (f s)) : Yields (write f : Tx σ ε Unit) s post :=
  ⟨(), f s, rfl, holds⟩

theorem Yields.mono (yields : Yields x s post) (weaker : ∀ a s', post a s' → post' a s') :
    Yields x s post' := by
  obtain ⟨a, s', ok, holds⟩ := yields
  exact ⟨a, s', ok, weaker a s' holds⟩

theorem Yields.bind {f : α → Tx σ ε β} (first : Yields x s post)
    (second : ∀ a s', post a s' → Yields (f a) s' post') : Yields (x >>= f) s post' := by
  obtain ⟨a, middle, ok, holds⟩ := first
  obtain ⟨b, s', ok', holds'⟩ := second a middle holds
  exact ⟨b, s', (bind_of_ok ok).trans ok', holds'⟩

theorem Yields.bind_read {g : α → Tx σ ε β} (next : Yields (g (f s)) s post') :
    Yields (Tx.read f >>= g) s post' := next

theorem Yields.void {post' : Unit → σ → Prop} (yields : Yields x s post)
    (weaker : ∀ a s', post a s' → post' () s') : Yields x.void s post' :=
  yields.bind fun a s' holds => .pure (weaker a s' holds)

theorem Yields.forEach {body : α → Tx σ ε Unit} (holds : List α → σ → Prop)
    (step : ∀ item rest s, holds (item :: rest) s → Yields (body item) s fun _ s' => holds rest s')
    (start : holds items s) : Yields (forEach items body) s fun _ s' => holds [] s' := by
  induction items generalizing s with
  | nil => exact .pure start
  | cons item rest ih => exact (step item rest s start).bind fun _ _ next => ih next

theorem dropping_total (drops : ∀ e s', x s = (.error e, s') → dropped e = true) :
    dropping dropped x s ≠ (.error e, s') := by
  intro failed
  unfold Tx.dropping at failed
  split at failed
  · cases failed
  · rename_i first
    simp [if_pos (drops _ _ first)] at failed

end Yields

end Tx

end Agentloom.Transaction
