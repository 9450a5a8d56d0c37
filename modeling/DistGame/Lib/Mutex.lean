import Mathlib.Data.List.Basic

/-! Procedures over a state that a mutex protects. A procedure ends with a value, or it panics, or it
    blocks for ever on a mutex it already holds; in each case the state and the mutex are left as
    they were at that point, since nothing but the procedure itself, or a deferred call, releases
    the mutex. -/

namespace DistGame

/-- Why a procedure does not return. -/
inductive Stop where
  | panic
  | blocked
  deriving DecidableEq

/-- A state and whether its mutex is held. -/
structure Guarded (σ : Type) where
  state : σ
  held : Bool

/-- A procedure over a guarded state. -/
abbrev Proc (σ α : Type) := ExceptT Stop (StateM (Guarded σ)) α

namespace Proc
variable {σ α β : Type}

/-- `mu.Lock()`. -/
def lock : Proc σ Unit := do
  let g ← get
  if g.held then throw .blocked else set { g with held := true }

/-- `mu.Unlock()`; unlocking a mutex that is not held is a panic. -/
def unlock : Proc σ Unit := do
  let g ← get
  if g.held then set { g with held := false } else throw .panic

/-- A computation on the state; no result is a panic before anything is written. -/
def act (f : σ → Option (α × σ)) : Proc σ α := do
  let g ← get
  match f g.state with
  | some (a, s) => do set { g with state := s }; pure a
  | none => throw .panic

/-- Reading through a pointer. -/
def deref (pointer : Option α) : Proc σ α :=
  match pointer with
  | some a => pure a
  | none => throw .panic

/-- `defer mu.Unlock()` before `body`: the mutex is released also when `body` panics. -/
def deferUnlock (body : Proc σ α) : Proc σ α := do
  let a ← tryCatch body fun e => do unlock; throw e
  unlock
  pure a

/-- `body` between `Lock` and an `Unlock` that only its normal end reaches. -/
def locked (body : Proc σ α) : Proc σ α := do
  lock
  let a ← body
  unlock
  pure a

/-- `body` between `Lock` and a deferred `Unlock`. -/
def lockedDefer (body : Proc σ α) : Proc σ α := do
  lock
  deferUnlock body

/-- How a procedure ends. -/
def exec (p : Proc σ α) (g : Guarded σ) : Except Stop α × Guarded σ := p.run.run g

/-- The procedure finds the mutex free, runs to its end and leaves it free. -/
def Completes (p : Proc σ α) (s : σ) : Prop := ∃ a s', p.exec ⟨s, false⟩ = (.ok a, ⟨s', false⟩)

/-- From the state `s` the procedure ends as the result says, or panics if there is none, whatever it
    has written until then; the mutex stays as it is. -/
def Gives (p : Proc σ α) (s : σ) : Option (α × σ) → Prop
  | some (a, s') => ∀ held, p.exec ⟨s, held⟩ = (.ok a, ⟨s', held⟩)
  | none => ∀ held, ∃ s', p.exec ⟨s, held⟩ = (.error .panic, ⟨s', held⟩)

variable {p : Proc σ α} {k : α → Proc σ β} {f : σ → Option (α × σ)} {s s' : σ} {g g' : Guarded σ}
  {r : Option (α × σ)}

@[simp] theorem exec_pure (a : α) (g : Guarded σ) : (pure a : Proc σ α).exec g = (.ok a, g) := rfl

@[simp] theorem exec_throw (e : Stop) (g : Guarded σ) :
    (throw e : Proc σ α).exec g = (.error e, g) := rfl

theorem exec_get (g : Guarded σ) : (get : Proc σ (Guarded σ)).exec g = (.ok g, g) := rfl

theorem exec_bind_ok {a : α} (h : p.exec g = (.ok a, g')) : (p >>= k).exec g = (k a).exec g' := by
  simp only [exec] at h
  rw [exec, ExceptT.run_bind, StateT.run_bind, h]
  rfl

theorem exec_bind_error {e : Stop} (h : p.exec g = (.error e, g')) :
    (p >>= k).exec g = (.error e, g') := by
  simp only [exec] at h
  rw [exec, ExceptT.run_bind, StateT.run_bind, h]
  rfl

theorem exec_lock (s : σ) : lock.exec ⟨s, false⟩ = (.ok (), ⟨s, true⟩) := rfl

theorem exec_unlock (s : σ) : unlock.exec ⟨s, true⟩ = (.ok (), ⟨s, false⟩) := rfl

theorem exec_act_some {a : α} {held : Bool} (h : f s = some (a, s')) :
    (act f).exec ⟨s, held⟩ = (.ok a, ⟨s', held⟩) := by
  rw [act, exec_bind_ok (exec_get _)]
  simp only [h]
  rfl

theorem exec_act_none {held : Bool} (h : f s = none) :
    (act f).exec ⟨s, held⟩ = (.error .panic, ⟨s, held⟩) := by
  rw [act, exec_bind_ok (exec_get _)]
  simp only [h]
  rfl

theorem gives_pure (a : α) (s : σ) : (pure a : Proc σ α).Gives s (some (a, s)) := fun _ => rfl

theorem gives_act (f : σ → Option (α × σ)) (s : σ) : (act f).Gives s (f s) := by
  cases h : f s with
  | none => exact fun held => ⟨s, exec_act_none h⟩
  | some r => exact fun held => exec_act_some h

theorem gives_deref (pointer : Option α) (s : σ) :
    (deref pointer : Proc σ α).Gives s (pointer.map fun a => (a, s)) := by
  cases pointer with
  | none => exact fun _ => ⟨s, rfl⟩
  | some a => exact gives_pure a s

/-- The second procedure starts from what the first has written. -/
theorem Gives.next {a : α} {r : Option (β × σ)} (hp : p.Gives s (some (a, s')))
    (hk : (k a).Gives s' r) : (p >>= k).Gives s r := by
  cases r with
  | none =>
    intro held
    obtain ⟨s₁, hs₁⟩ := hk held
    exact ⟨s₁, by rw [exec_bind_ok (hp held), hs₁]⟩
  | some r =>
    intro held
    rw [exec_bind_ok (hp held), hk held]

theorem Gives.stop (hp : p.Gives s none) : (p >>= k).Gives s none := by
  intro held
  obtain ⟨s₁, hs₁⟩ := hp held
  exact ⟨s₁, exec_bind_error hs₁⟩

/-- The second procedure always ends, with a value made of what the first has left. -/
theorem Gives.map_next {q : α → σ → β × σ} (hp : p.Gives s r)
    (hk : ∀ a s', (k a).Gives s' (some (q a s'))) :
    (p >>= k).Gives s (r.map fun x => q x.1 x.2) := by
  cases r with
  | none => exact hp.stop
  | some x =>
    obtain ⟨a, s'⟩ := x
    exact hp.next (hk a s')

theorem gives_deref_bind {pointer : Option α} {q : α → Option (β × σ)}
    (h : ∀ a, (k a).Gives s (q a)) : (deref pointer >>= k).Gives s (pointer.bind q) := by
  cases pointer with
  | none => exact (gives_deref none s).stop
  | some a => exact (gives_deref (some a) s).next (h a)

/-- A panic in `locked` leaves the mutex held. -/
theorem exec_locked_error {e : Stop} (h : p.exec ⟨s, true⟩ = (.error e, ⟨s', true⟩)) :
    (locked p).exec ⟨s, false⟩ = (.error e, ⟨s', true⟩) := by
  rw [locked, exec_bind_ok (exec_lock s), exec_bind_error h]

/-- What comes normally out of `locked` leaves it free. -/
theorem exec_locked_some {a : α} (h : p.Gives s (some (a, s'))) :
    (locked p).exec ⟨s, false⟩ = (.ok a, ⟨s', false⟩) := by
  rw [locked, exec_bind_ok (exec_lock s), exec_bind_ok (h true), exec_bind_ok (exec_unlock s'),
    exec_pure]

theorem exec_locked_none (h : p.Gives s none) :
    ∃ s', (locked p).exec ⟨s, false⟩ = (.error .panic, ⟨s', true⟩) := by
  obtain ⟨s', hs'⟩ := h true
  exact ⟨s', exec_locked_error hs'⟩

theorem exec_tryCatch_ok {a : α} {handler : Stop → Proc σ α} (h : p.exec g = (.ok a, g')) :
    (tryCatch p handler).exec g = (.ok a, g') := by
  simp only [exec] at h
  rw [exec, ExceptT.run_tryCatch, StateT.run_bind, h]
  rfl

theorem exec_tryCatch_error {e : Stop} {handler : Stop → Proc σ α}
    (h : p.exec g = (.error e, g')) : (tryCatch p handler).exec g = (handler e).exec g' := by
  simp only [exec] at h
  rw [exec, ExceptT.run_tryCatch, StateT.run_bind, h]
  rfl

/-- What comes normally out of `lockedDefer` leaves the mutex free. -/
theorem exec_lockedDefer_some {a : α} (h : p.Gives s (some (a, s'))) :
    (lockedDefer p).exec ⟨s, false⟩ = (.ok a, ⟨s', false⟩) := by
  rw [lockedDefer, exec_bind_ok (exec_lock s), deferUnlock,
    exec_bind_ok (exec_tryCatch_ok (h true)), exec_bind_ok (exec_unlock s'), exec_pure]

/-- A panic in `lockedDefer` leaves it free too. -/
theorem exec_lockedDefer_none (h : p.Gives s none) :
    ∃ s', (lockedDefer p).exec ⟨s, false⟩ = (.error .panic, ⟨s', false⟩) := by
  obtain ⟨s', hs'⟩ := h true
  have hcaught : (do unlock; throw .panic : Proc σ α).exec ⟨s', true⟩ =
      (.error .panic, ⟨s', false⟩) := by
    rw [exec_bind_ok (exec_unlock s'), exec_throw]
  refine ⟨s', ?_⟩
  rw [lockedDefer, exec_bind_ok (exec_lock s), deferUnlock, exec_bind_error]
  rw [exec_tryCatch_error hs', hcaught]

/-! ### When a procedure completes -/

theorem completes_locked_iff (h : p.Gives s r) : (locked p).Completes s ↔ r.isSome := by
  cases r with
  | none =>
    obtain ⟨s', hs'⟩ := exec_locked_none h
    simp [Completes, hs']
  | some r => simp [Completes, exec_locked_some h]

theorem completes_lockedDefer_iff (h : p.Gives s r) : (lockedDefer p).Completes s ↔ r.isSome := by
  cases r with
  | none =>
    obtain ⟨s', hs'⟩ := exec_lockedDefer_none h
    simp [Completes, hs']
  | some r => simp [Completes, exec_lockedDefer_some h]

theorem completes_locked_bind_iff (h : p.Gives s r) :
    (locked p >>= k).Completes s ↔ ∃ a s', r = some (a, s') ∧ (k a).Completes s' := by
  cases r with
  | none =>
    obtain ⟨s', hs'⟩ := exec_locked_none h
    simp [Completes, exec_bind_error hs']
  | some r =>
    obtain ⟨a, s'⟩ := r
    simp [Completes, exec_bind_ok (exec_locked_some h)]

theorem completes_act_bind_iff :
    (act f >>= k).Completes s ↔ ∃ a s', f s = some (a, s') ∧ (k a).Completes s' := by
  cases h : f s with
  | none => simp [Completes, exec_bind_error (exec_act_none h)]
  | some r =>
    obtain ⟨a, s'⟩ := r
    simp [Completes, exec_bind_ok (exec_act_some h)]

theorem completes_deref_bind_iff {pointer : Option α} :
    (deref pointer >>= k).Completes s ↔ ∃ a, pointer = some a ∧ (k a).Completes s := by
  cases pointer with
  | none => simp [Completes, deref]
  | some a => simp [Completes, deref]

end Proc

end DistGame
