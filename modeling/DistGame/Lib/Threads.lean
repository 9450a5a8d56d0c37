import Mathlib.Data.Finset.Max
import Mathlib.Data.List.Basic
import Mathlib.Logic.Function.Basic
import Mathlib.Order.Lattice
import DistGame.Lib.Run

/-! Threads over a shared state and any number of mutexes, interleaved access by access. A thread is
    disciplined if it takes its mutexes in the order of a rank, releases the last one taken first,
    and touches the state only while it holds one fixed mutex, the guard. Disciplined threads do not
    deadlock, and what they do between taking the guard and releasing it happens as if at once: any
    interleaving of them is one in which each such section runs whole. -/

namespace DistGame

/-- A thread that ends with a value: it takes or releases a mutex, or it changes the state in one
    access and goes on with what it has read. -/
inductive Thread (σ L α : Type) where
  | ret (a : α)
  | panic
  | lock (l : L) (rest : Thread σ L α)
  | unlock (l : L) (rest : Thread σ L α)
  | access (f : σ → σ) (rest : σ → Thread σ L α)

namespace Thread
variable {σ L α β : Type}

/-- A thread, and then another that depends on its value. -/
def bind : Thread σ L α → (α → Thread σ L β) → Thread σ L β
  | ret a, k => k a
  | panic, _ => panic
  | lock l t, k => lock l (bind t k)
  | unlock l t, k => unlock l (bind t k)
  | access f t, k => access f fun s => bind (t s) k

instance : Monad (Thread σ L) where
  pure := ret
  bind := bind

/-- The value that `f` reads in the state. -/
def read (f : σ → α) : Thread σ L α := access id fun s => ret (f s)

/-- A change of the state. -/
def write (f : σ → σ) : Thread σ L Unit := access f fun _ => ret ()

/-- `body` between `Lock` and the `Unlock` at each of its ends. -/
def holding (l : L) (body : Thread σ L α) : Thread σ L α :=
  lock l (body.bind fun a => unlock l (ret a))

/-- The value and the state a thread ends with when it runs alone. -/
def alone : Thread σ L α → σ → Option (α × σ)
  | ret a, s => some (a, s)
  | panic, _ => none
  | lock _ t, s => alone t s
  | unlock _ t, s => alone t s
  | access f t, s => alone (t s) (f s)

@[simp] theorem bind_eq (t : Thread σ L α) (k : α → Thread σ L β) : t >>= k = t.bind k := rfl

theorem bind_assoc {γ : Type} (k : α → Thread σ L β) (k' : β → Thread σ L γ) (t : Thread σ L α) :
    (t.bind k).bind k' = t.bind fun a => (k a).bind k' := by
  induction t with
  | ret a => rfl
  | panic => rfl
  | lock l t ih => exact congrArg (lock l) ih
  | unlock l t ih => exact congrArg (unlock l) ih
  | access f t ih => exact congrArg (access f) (funext ih)

theorem alone_bind (k : α → Thread σ L β) (t : Thread σ L α) (s : σ) :
    (t.bind k).alone s = (t.alone s).bind fun r => (k r.1).alone r.2 := by
  induction t generalizing s with
  | ret a => rfl
  | panic => rfl
  | lock l t ih => exact ih s
  | unlock l t ih => exact ih s
  | access f t ih => exact ih s (f s)

/-- A thread that ends, and then another. -/
theorem alone_bind_some {t : Thread σ L α} {k : α → Thread σ L β} {s s' : σ} {a : α}
    (h : t.alone s = some (a, s')) : (t.bind k).alone s = (k a).alone s' := by
  rw [alone_bind, h]
  rfl

theorem alone_holding (l : L) (body : Thread σ L α) (s : σ) :
    (holding l body).alone s = body.alone s := by
  rw [holding, alone, alone_bind]
  cases body.alone s <;> rfl

theorem alone_read (f : σ → α) (s : σ) : (read f : Thread σ L α).alone s = some (f s, s) := rfl

theorem alone_write (f : σ → σ) (s : σ) : (write f : Thread σ L Unit).alone s = some ((), f s) := rfl

/-! ### Discipline -/

section
variable {W : Type} [LinearOrder W] (rank : L → W) (guard : L)

/-- While the mutexes in `held` are held throughout, the thread takes and releases the further ones in
    `own`, the last one first, each above all that it holds, and ends without any of its own. It
    accesses the state with the guard held. -/
def Disciplined (held : List L) : List L → Thread σ L α → Prop
  | own, ret _ => own = []
  | _, panic => True
  | own, lock l t => (∀ k ∈ own ++ held, rank k < rank l) ∧ Disciplined held (l :: own) t
  | own, unlock l t => ∃ below, own = l :: below ∧ Disciplined held below t
  | own, access _ t => guard ∈ own ++ held ∧ ∀ s, Disciplined held own (t s)

variable {rank guard} {held own : List L}

theorem Disciplined.bind {k : α → Thread σ L β} (hk : ∀ a, Disciplined rank guard held [] (k a)) :
    ∀ {t : Thread σ L α} {own : List L}, Disciplined rank guard held own t →
      Disciplined rank guard held own (t.bind k)
  | ret a, _, h => by
    cases h
    exact hk a
  | panic, _, _ => trivial
  | lock _ _, _, h => ⟨h.1, h.2.bind hk⟩
  | unlock _ _, _, ⟨below, hown, h⟩ => ⟨below, hown, h.bind hk⟩
  | access _ _, _, h => ⟨h.1, fun s => (h.2 s).bind hk⟩

/-- What a thread does under a mutex held throughout, and then its release. -/
theorem Disciplined.release {l : L} {k : α → Thread σ L β}
    (hk : ∀ a, Disciplined rank guard held [] (k a)) :
    ∀ {t : Thread σ L α} {own : List L}, Disciplined rank guard (l :: held) own t →
      Disciplined rank guard held (own ++ [l]) (t.bind fun a => unlock l (k a))
  | ret a, _, h => by
    cases h
    exact ⟨[], rfl, hk a⟩
  | panic, _, _ => trivial
  | lock _ _, _, h => ⟨by simpa using h.1, h.2.release hk⟩
  | unlock _ _, _, ⟨below, hown, h⟩ => ⟨below ++ [l], by rw [hown]; rfl, h.release hk⟩
  | access _ _, _, h => ⟨by simpa using h.1, fun s => (h.2 s).release hk⟩

theorem Disciplined.holding {l : L} {body : Thread σ L α} (hl : ∀ k ∈ held, rank k < rank l)
    (h : Disciplined rank guard (l :: held) [] body) :
    Disciplined rank guard held [] (holding l body) :=
  ⟨hl, h.release (k := ret) fun _ => rfl⟩

theorem disciplined_ret (a : α) : Disciplined rank guard held [] (ret a : Thread σ L α) := rfl

theorem disciplined_read {f : σ → α} (hg : guard ∈ held) :
    Disciplined rank guard held [] (read f) := ⟨hg, fun _ => rfl⟩

theorem disciplined_write {f : σ → σ} (hg : guard ∈ held) :
    Disciplined rank guard held [] (write f) := ⟨hg, fun _ => rfl⟩

end

/-! ### The section under the guard -/

/-- What is left of a thread that holds the guard once it has released it, and the state then. -/
def untilReleased [DecidableEq L] (guard : L) : Thread σ L α → σ → Thread σ L α × σ
  | ret a, s => (ret a, s)
  | panic, s => (panic, s)
  | lock _ t, s => untilReleased guard t s
  | unlock l t, s => if l = guard then (t, s) else untilReleased guard t s
  | access f t, s => untilReleased guard (t s) (f s)

/-- A section that runs alone to its end ends there also with what follows it. -/
theorem untilReleased_section [DecidableEq L] {W : Type} [LinearOrder W] {rank : L → W} {guard : L}
    {k : α → Thread σ L β} {a : α} {s' : σ} :
    ∀ {t : Thread σ L α} {own : List L} {s : σ}, Disciplined rank guard [guard] own t →
      guard ∉ own → t.alone s = some (a, s') →
      (t.bind fun a => unlock guard (k a)).untilReleased guard s = (k a, s')
  | ret _, _, _, _, _, hrun => by
    cases hrun
    exact if_pos rfl
  | lock l t, own, _, h, hown, hrun => by
    have hne : guard ∉ l :: own := by
      intro hmem
      rcases List.mem_cons.mp hmem with heq | hmem
      · have hlt := h.1 guard (by simp)
        rw [heq] at hlt
        exact lt_irrefl _ hlt
      · exact hown hmem
    exact untilReleased_section (t := t) h.2 hne hrun
  | unlock l t, _, _, ⟨below, heq, h⟩, hown, hrun => by
    subst heq
    obtain ⟨hne, hbelow⟩ := not_or.mp (mt List.mem_cons.mpr hown)
    rw [bind, untilReleased, if_neg (Ne.symm hne)]
    exact untilReleased_section (t := t) h hbelow hrun
  | access _ t, _, s, h, hown, hrun => untilReleased_section (t := t s) (h.2 s) hown hrun

end Thread

/-! ### Interleaved threads -/

/-- Threads at work on a state, and the thread that holds each mutex. -/
structure Pool (σ L α : Type) where
  state : σ
  owner : L → Option ℕ
  threads : List (Thread σ L α)

namespace Pool
open Thread
variable {σ L α : Type} [DecidableEq L]

/-- The next step of the `i`-th thread, if it has one: `Lock` waits until the mutex is free. -/
def step (P : Pool σ L α) (i : ℕ) : Option (Pool σ L α) :=
  match P.threads[i]? with
  | some (.lock l t) =>
    if P.owner l = none then
      some { P with owner := Function.update P.owner l (some i), threads := P.threads.set i t }
    else none
  | some (.unlock l t) =>
    if P.owner l = some i then
      some { P with owner := Function.update P.owner l none, threads := P.threads.set i t }
    else none
  | some (.access f t) =>
    some { P with state := f P.state, threads := P.threads.set i (t P.state) }
  | _ => none

/-- Threads that have not begun, with all mutexes free. -/
def start (s : σ) (threads : List (Thread σ L α)) : Pool σ L α := ⟨s, fun _ => none, threads⟩

/-- Everything a step can do. -/
theorem step_cases {P P' : Pool σ L α} {i : ℕ} (h : P.step i = some P') :
    (∃ l t, P.threads[i]? = some (.lock l t) ∧ P.owner l = none ∧
      P' = ⟨P.state, Function.update P.owner l (some i), P.threads.set i t⟩) ∨
    (∃ l t, P.threads[i]? = some (.unlock l t) ∧ P.owner l = some i ∧
      P' = ⟨P.state, Function.update P.owner l none, P.threads.set i t⟩) ∨
    ∃ f t, P.threads[i]? = some (.access f t) ∧
      P' = ⟨f P.state, P.owner, P.threads.set i (t P.state)⟩ := by
  rw [step] at h
  split at h
  · rename_i l t ht
    split at h
    · rename_i hfree
      exact .inl ⟨l, t, ht, hfree, (Option.some.inj h).symm⟩
    · cases h
  · rename_i l t ht
    split at h
    · rename_i hown
      exact .inr (.inl ⟨l, t, ht, hown, (Option.some.inj h).symm⟩)
    · cases h
  · rename_i f t ht
    exact .inr (.inr ⟨f, t, ht, (Option.some.inj h).symm⟩)
  · cases h

/-! ### No deadlock -/

section
variable {W : Type} [LinearOrder W] (rank : L → W) (guard : L)

/-- Every thread is disciplined in the mutexes that it owns, and every owner is a thread. -/
structure Orderly (P : Pool σ L α) : Prop where
  disciplined : ∀ i t, P.threads[i]? = some t → ∃ own, Disciplined rank guard [] own t ∧
    own.Nodup ∧ ∀ l, P.owner l = some i ↔ l ∈ own
  owner : ∀ l i, P.owner l = some i → i < P.threads.length

variable {rank guard} {P P' : Pool σ L α} {i : ℕ}

omit [DecidableEq L] in
theorem orderly_start {s : σ} {threads : List (Thread σ L α)}
    (h : ∀ t ∈ threads, Disciplined rank guard [] [] t) : Orderly rank guard (start s threads) where
  disciplined i t ht := ⟨[], h t (List.mem_of_getElem? ht), List.nodup_nil, by simp [start]⟩
  owner l i h := by cases h

omit [DecidableEq L] in
/-- A step of one thread leaves the others with what they own. -/
theorem Orderly.set {s : σ} {owner : L → Option ℕ} {own : List L} {t t' : Thread σ L α}
    (hP : Orderly rank guard P) (ht : P.threads[i]? = some t)
    (ht' : Disciplined rank guard [] own t') (hnd : own.Nodup)
    (hself : ∀ l, owner l = some i ↔ l ∈ own)
    (hothers : ∀ j, j ≠ i → ∀ l, owner l = some j ↔ P.owner l = some j) :
    Orderly rank guard ⟨s, owner, P.threads.set i t'⟩ where
  disciplined j u hu := by
    by_cases hij : j = i
    · subst hij
      obtain ⟨hlt, -⟩ := List.getElem?_eq_some_iff.mp ht
      rw [List.getElem?_set_self hlt] at hu
      cases hu
      exact ⟨own, ht', hnd, hself⟩
    · rw [List.getElem?_set_ne (Ne.symm hij)] at hu
      obtain ⟨own', hu', hnd', hown'⟩ := hP.disciplined j u hu
      exact ⟨own', hu', hnd', fun l => (hothers j hij l).trans (hown' l)⟩
  owner l j hj := by
    rw [List.length_set]
    by_cases hij : j = i
    · subst hij
      exact (List.getElem?_eq_some_iff.mp ht).1
    · exact hP.owner l j ((hothers j hij l).mp hj)

theorem orderly_step (hP : Orderly rank guard P) (h : P.step i = some P') :
    Orderly rank guard P' := by
  rcases step_cases h with ⟨l, t, ht, hfree, rfl⟩ | ⟨l, t, ht, hown, rfl⟩ | ⟨f, t, ht, rfl⟩
  · obtain ⟨own, ⟨-, hdisc⟩, hnd, hmem⟩ := hP.disciplined i _ ht
    have hnew : l ∉ own := by
      intro hl
      rw [(hmem l).mpr hl] at hfree
      cases hfree
    refine hP.set ht hdisc (List.nodup_cons.mpr ⟨hnew, hnd⟩) (fun k => ?_) fun j hj k => ?_
    · by_cases hk : k = l
      · simp [hk]
      · simp [hk, hmem k]
    · by_cases hk : k = l
      · simp [hk, hfree, Ne.symm hj]
      · simp [hk]
  · obtain ⟨own, ⟨below, rfl, hdisc⟩, hnd, hmem⟩ := hP.disciplined i _ ht
    obtain ⟨hnew, hnd⟩ := List.nodup_cons.mp hnd
    refine hP.set ht hdisc hnd (fun k => ?_) fun j hj k => ?_
    · by_cases hk : k = l
      · simp [hk, hnew]
      · simp [hk, hmem k]
    · by_cases hk : k = l
      · simp [hk, hown, Ne.symm hj]
      · simp [hk]
  · obtain ⟨own, ⟨-, hdisc⟩, hnd, hmem⟩ := hP.disciplined i _ ht
    exact hP.set ht (hdisc P.state) hnd hmem fun j hj k => Iff.rfl

/-- The mutex that a thread waits for. -/
def awaited : Thread σ L α → Option L
  | .lock l _ => some l
  | _ => none

/-- A thread without a step has ended, or waits for a mutex that another thread owns. -/
theorem stuck_cases (hP : Orderly rank guard P) {t : Thread σ L α} (ht : P.threads[i]? = some t)
    (hstuck : P.step i = none) (hpanic : t ≠ .panic) :
    (∃ a, t = .ret a) ∨ ∃ l rest j, t = .lock l rest ∧ P.owner l = some j := by
  cases t with
  | ret a => exact .inl ⟨a, rfl⟩
  | panic => exact absurd rfl hpanic
  | lock l rest =>
    cases hown : P.owner l with
    | none => simp [step, ht, hown] at hstuck
    | some j => exact .inr ⟨l, rest, j, rfl, hown⟩
  | unlock l rest =>
    obtain ⟨own, ⟨below, rfl, -⟩, -, hmem⟩ := hP.disciplined i _ ht
    have hown := (hmem l).mpr List.mem_cons_self
    simp [step, ht, hown] at hstuck
  | access f rest => simp [step, ht] at hstuck

/-- No deadlock: while no thread panics, one that has not ended can go on. -/
theorem not_deadlocked (hP : Orderly rank guard P) (hpanic : ∀ t ∈ P.threads, t ≠ .panic) :
    (∃ i, (P.step i).isSome) ∨ ∀ t ∈ P.threads, ∃ a, t = .ret a := by
  by_contra hcon
  obtain ⟨hstuck, t₀, ht₀, hgo⟩ : (∀ i, P.step i = none) ∧ ∃ t ∈ P.threads, ¬∃ a, t = .ret a := by
    simpa [not_or] using hcon
  -- among the mutexes waited for, the one of the greatest rank
  obtain ⟨l, hl, hmax⟩ : ∃ l ∈ (P.threads.filterMap awaited).toFinset,
      ∀ k ∈ (P.threads.filterMap awaited).toFinset, rank k ≤ rank l := by
    apply Finset.exists_max_image
    obtain ⟨i, hi⟩ := List.mem_iff_getElem?.mp ht₀
    rcases stuck_cases hP hi (hstuck i) (hpanic t₀ ht₀) with hret | ⟨l, rest, j, rfl, -⟩
    · exact absurd hret hgo
    · exact ⟨l, List.mem_toFinset.mpr (List.mem_filterMap.mpr ⟨_, ht₀, rfl⟩)⟩
  simp only [List.mem_toFinset, List.mem_filterMap] at hl hmax
  obtain ⟨t, ht, hwait⟩ := hl
  obtain ⟨i, hi⟩ := List.mem_iff_getElem?.mp ht
  rcases stuck_cases hP hi (hstuck i) (hpanic t ht) with ⟨a, rfl⟩ | ⟨k, rest, j, rfl, hown⟩
  · cases hwait
  · cases hwait
    -- its owner waits for a mutex of a still greater rank
    have hj := List.getElem?_eq_getElem (hP.owner l j hown)
    obtain ⟨own, hdisc, -, hmem⟩ := hP.disciplined j _ hj
    have hl := (hmem l).mp hown
    rcases stuck_cases hP hj (hstuck j) (hpanic _ (List.mem_of_getElem? hj)) with
      ⟨a, ha⟩ | ⟨k, rest', j', hk, -⟩
    · rw [ha] at hdisc
      cases hdisc
      exact absurd hl List.not_mem_nil
    · rw [hk] at hdisc hj
      have hlt := hdisc.1 l (by simpa using hl)
      exact absurd (hmax k ⟨_, List.mem_of_getElem? hj, rfl⟩) (not_le.mpr hlt)

end

end Pool

/-! ### Sections run whole -/

/-- The same threads when a section under the guard runs whole as soon as it takes the guard; the
    other mutexes do not count. -/
structure Serial (σ L α : Type) where
  state : σ
  threads : List (Thread σ L α)

section
open Thread Pool
variable {σ L α : Type} [DecidableEq L] {guard : L}

/-- The next step of the `i`-th thread outside the guard, or its next section. -/
def Serial.step (guard : L) (S : Serial σ L α) (i : ℕ) : Option (Serial σ L α) :=
  match S.threads[i]? with
  | some (.lock l t) =>
    if l = guard then
      some ⟨(t.untilReleased guard S.state).2,
        S.threads.set i (t.untilReleased guard S.state).1⟩
    else some { S with threads := S.threads.set i t }
  | some (.unlock _ t) => some { S with threads := S.threads.set i t }
  | _ => none

/-- The pool once the thread that holds the guard has run to its release. -/
def Pool.settled (guard : L) (P : Pool σ L α) : Serial σ L α :=
  match P.owner guard with
  | none => ⟨P.state, P.threads⟩
  | some i =>
    match P.threads[i]? with
    | none => ⟨P.state, P.threads⟩
    | some t =>
      ⟨(t.untilReleased guard P.state).2, P.threads.set i (t.untilReleased guard P.state).1⟩

namespace Pool
variable {W : Type} [LinearOrder W] {rank : L → W} {P P' : Pool σ L α} {i : ℕ}

theorem settled_free (h : P.owner guard = none) : P.settled guard = ⟨P.state, P.threads⟩ := by
  rw [settled, h]

theorem settled_absent (h : P.owner guard = some i) (hi : P.threads[i]? = none) :
    P.settled guard = ⟨P.state, P.threads⟩ := by
  rw [settled, h]
  simp only [hi]

theorem settled_held {t : Thread σ L α} (h : P.owner guard = some i)
    (ht : P.threads[i]? = some t) : P.settled guard =
      ⟨(t.untilReleased guard P.state).2, P.threads.set i (t.untilReleased guard P.state).1⟩ := by
  rw [settled, h]
  simp only [ht]

/-- A step inside the section that holds the guard does not change what it comes to. -/
theorem settled_inside {t : Thread σ L α} {s' : σ} {owner : L → Option ℕ} {t' : Thread σ L α}
    (hi : P.owner guard = some i) (ht : P.threads[i]? = some t)
    (hstill : owner guard = some i ∧ t'.untilReleased guard s' = t.untilReleased guard P.state ∨
      owner guard = none ∧ (t', s') = t.untilReleased guard P.state) :
    Pool.settled guard ⟨s', owner, P.threads.set i t'⟩ = P.settled guard := by
  obtain ⟨hlt, -⟩ := List.getElem?_eq_some_iff.mp ht
  rw [settled_held hi ht]
  rcases hstill with ⟨howner, hsame⟩ | ⟨howner, hsame⟩
  · rw [settled_held (P := ⟨s', owner, P.threads.set i t'⟩) howner (List.getElem?_set_self hlt),
      hsame, List.set_set]
  · rw [settled_free (P := ⟨s', owner, P.threads.set i t'⟩) howner, ← hsame]

/-- A step outside the guard is one of the serial threads as well. -/
theorem settled_outside {t t' : Thread σ L α} {owner : L → Option ℕ}
    (hguard : owner guard = P.owner guard) (hi : P.owner guard ≠ some i)
    (ht : P.threads[i]? = some t)
    (hstep : ∀ S : Serial σ L α, S.threads[i]? = some t →
      S.step guard i = some { S with threads := S.threads.set i t' }) :
    (P.settled guard).step guard i =
      some (Pool.settled guard ⟨P.state, owner, P.threads.set i t'⟩) := by
  cases hown : P.owner guard with
  | none =>
    rw [settled_free hown, hstep _ ht,
      settled_free (P := ⟨P.state, owner, P.threads.set i t'⟩) (hguard.trans hown)]
  | some j =>
    have hij : j ≠ i := by
      rintro rfl
      exact hi hown
    cases hj : P.threads[j]? with
    | none =>
      have hj' : (P.threads.set i t')[j]? = none := by rw [List.getElem?_set_ne (Ne.symm hij), hj]
      rw [settled_absent hown hj, hstep _ ht,
        settled_absent (P := ⟨P.state, owner, P.threads.set i t'⟩) (hguard.trans hown) hj']
    | some u =>
      have hj' : (P.threads.set i t')[j]? = some u := by rw [List.getElem?_set_ne (Ne.symm hij), hj]
      rw [settled_held hown hj, hstep _ (by rw [List.getElem?_set_ne hij, ht]),
        settled_held (P := ⟨P.state, owner, P.threads.set i t'⟩) (hguard.trans hown) hj',
        List.set_comm _ _ hij]

/-- A step of the thread that holds the guard does not change what its section comes to. -/
theorem settled_same (hP : Orderly rank guard P) (h : P.step i = some P')
    (hi : P.owner guard = some i) : P'.settled guard = P.settled guard := by
  rcases step_cases h with ⟨l, t, ht, hfree, rfl⟩ | ⟨l, t, ht, hown, rfl⟩ | ⟨f, t, ht, rfl⟩
  · have hl : guard ≠ l := by
      rintro rfl
      rw [hi] at hfree
      cases hfree
    exact settled_inside hi ht (.inl ⟨(Function.update_of_ne hl ..).trans hi, rfl⟩)
  · by_cases hl : l = guard
    · subst hl
      exact settled_inside hown ht
        (.inr ⟨Function.update_self .., by rw [untilReleased, if_pos rfl]⟩)
    · refine settled_inside hi ht
        (.inl ⟨(Function.update_of_ne (Ne.symm hl) ..).trans hi, ?_⟩)
      rw [untilReleased, if_neg hl]
  · exact settled_inside hi ht (.inl ⟨hi, rfl⟩)

/-- A step of any other thread is one of the serial threads: it enters its section, or it is outside. -/
theorem settled_step (hP : Orderly rank guard P) (h : P.step i = some P')
    (hi : P.owner guard ≠ some i) :
    (P.settled guard).step guard i = some (P'.settled guard) := by
  rcases step_cases h with ⟨l, t, ht, hfree, rfl⟩ | ⟨l, t, ht, hown, rfl⟩ | ⟨f, t, ht, rfl⟩
  · by_cases hl : l = guard
    · subst hl
      obtain ⟨hlt, -⟩ := List.getElem?_eq_some_iff.mp ht
      rw [settled_free hfree, Serial.step]
      simp only [ht, if_true]
      rw [settled_held (P := ⟨P.state, _, P.threads.set i t⟩) (Function.update_self ..)
        (List.getElem?_set_self hlt), List.set_set]
    · exact settled_outside (Function.update_of_ne (Ne.symm hl) ..) hi ht fun S hS => by
        rw [Serial.step]
        simp only [hS, if_neg hl]
  · have hl : guard ≠ l := by
      rintro rfl
      exact hi hown
    exact settled_outside (Function.update_of_ne hl ..) hi ht fun S hS => by
      rw [Serial.step]
      simp only [hS]
  · -- an access is always inside a section
    obtain ⟨own, ⟨hg, -⟩, -, hmem⟩ := hP.disciplined i _ ht
    exact absurd ((hmem guard).mpr (by simpa using hg)) hi

/-- A thread that does not hold the guard is where it is when the section has run to its end. -/
theorem settled_threads (hi : P.owner guard ≠ some i) :
    (P.settled guard).threads[i]? = P.threads[i]? := by
  cases hown : P.owner guard with
  | none => rw [settled_free hown]
  | some j =>
    cases hj : P.threads[j]? with
    | none => rw [settled_absent hown hj]
    | some t =>
      rw [settled_held hown hj, List.getElem?_set_ne]
      rintro rfl
      exact hi hown

/-- A thread that panics does so also when its section runs whole. -/
theorem panic_settled (h : .panic ∈ P.threads) : .panic ∈ (P.settled guard).threads := by
  obtain ⟨i, hi⟩ := List.mem_iff_getElem?.mp h
  by_cases hown : P.owner guard = some i
  · obtain ⟨hlt, -⟩ := List.getElem?_eq_some_iff.mp hi
    rw [settled_held hown hi]
    exact List.mem_of_getElem? (List.getElem?_set_self hlt)
  · exact List.mem_of_getElem? ((settled_threads hown).trans hi)

end Pool

namespace Serial
variable {W : Type} [LinearOrder W] {rank : L → W} {S : Serial σ L α} {i : ℕ}

/-- A thread whose next section comes to an end passes it in one step. -/
theorem step_holding {β : Type} {body : Thread σ L β} {k : β → Thread σ L α} {a : β} {s' : σ}
    (hbody : Disciplined rank guard [guard] [] body)
    (ht : S.threads[i]? = some ((holding guard body).bind k))
    (hrun : (holding guard body).alone S.state = some (a, s')) :
    S.step guard i = some ⟨s', S.threads.set i (k a)⟩ := by
  rw [alone_holding] at hrun
  have hsection := untilReleased_section (k := k) hbody List.not_mem_nil hrun
  have hassoc : (body.bind fun a => unlock guard (ret a)).bind k =
      body.bind fun a => unlock guard (k a) := bind_assoc ..
  rw [holding, Thread.bind, hassoc] at ht
  rw [step]
  simp only [ht, if_true, hsection]

end Serial

end

end DistGame
