import DistGame.Locator.Mutexes

/-! The goroutines of the locator, interleaved access by access: the handlers of any number of
    requests, `CleanupLoop` and `ConnectToServer`. Whoever works on the tree holds the root's mutex
    throughout, so the operations happen one after the other, each at the point at which it takes
    this mutex, and as if in one step; and no two goroutines ever wait for each other. -/

namespace DistGame
open QTree Quadtree Thread

/-- What a goroutine does next: an operation on the tree with its clock readings, or
    `ConnectToServer`. A handler queries and inserts each of its items; `CleanupLoop` goes on
    cleaning up. -/
inductive Task where
  | query (clock : NodeClocks) (query : Storable)
  | insert (clock : NodeClocks) (trigger : Storable)
  | cleanup (clock : NodeClocks)
  | connectToServer

/-- A goroutine with these tasks left; it ends with what its queries have found, one after the other.
    Between `Lock` and `Unlock`, `ConnectToServer` writes only `l.servers`, which no operation on the
    tree reads. -/
def goroutine : List Task → List (List Storable) → Thread Locator Mutex (List (List Storable))
  | [], found => pure found
  | .query clock q :: tasks, found => do
    let matches' ← Locking.query clock q []
    goroutine tasks (found ++ [matches'])
  | .insert clock trigger :: tasks, found => do
    let _ ← Locking.insert clock trigger
    goroutine tasks found
  | .cleanup clock :: tasks, found => do
    Locking.cleanup clock
    goroutine tasks found
  | .connectToServer :: tasks, found => do
    holding .locator (pure ())
    goroutine tasks found

/-- A task in one step, and what a query finds. -/
def Locator.perform (l : Locator) : Task → Option (Locator × List (List Storable))
  | .query clock q => (Timed.query q l.lastUpdates clock l.root []).map
      fun (root, found) => ({ l with root }, [found])
  | .insert clock trigger => (Timed.insert l.root clock trigger l.lastUpdates).map
      fun (root, lastUpdates, _) => ({ l with root, lastUpdates }, [])
  | .cleanup clock => (Timed.cleanup l.lastUpdates clock l.root).map
      fun root => ({ l with root }, [])
  | .connectToServer => some (l, [])

/-- The task of an operation at one clock reading. -/
def Op.task : Op → Task
  | .insert now trigger => .insert (fun _ _ => now) trigger
  | .query now q => .query (fun _ _ => now) q
  | .cleanup now => .cleanup fun _ _ => now

/-- With one clock reading a task is a step of the locator. -/
theorem perform_task (l : Locator) (op : Op) : (l.perform op.task).map Prod.fst = l.step op := by
  cases op with
  | insert now trigger =>
    simp only [Op.task, Locator.perform, Timed.insert_same, Locator.step, Locator.insert,
      Option.map_map]
    rfl
  | query now q =>
    simp only [Op.task, Locator.perform, Timed.query_same, Locator.step, Locator.query,
      Option.map_map]
    rfl
  | cleanup now =>
    simp only [Op.task, Locator.perform, Timed.cleanup_same, Locator.step, Locator.cleanup,
      Option.map_map]
    rfl

/-- The goroutines when each task is one step: what each has left, and what its queries have found. -/
structure Crew where
  locator : Locator
  goroutines : List (List Task × List (List Storable))

namespace Crew

def start (l : Locator) (tasks : List (List Task)) : Crew := ⟨l, tasks.map fun ts => (ts, [])⟩

/-- The next task of the `i`-th goroutine. -/
def step (C : Crew) (i : ℕ) : Option Crew :=
  match C.goroutines[i]? with
  | some (task :: tasks, found) => (C.locator.perform task).map fun (l, found') =>
      ⟨l, C.goroutines.set i (tasks, found ++ found')⟩
  | _ => none

end Crew

/-- The locator's goroutines with their mutexes. -/
abbrev Goroutines := Pool Locator Mutex (List (List Storable))

/-- The goroutines before their first step. -/
def Goroutines.start (l : Locator) (tasks : List (List Task)) : Goroutines :=
  Pool.start l (tasks.map fun ts => goroutine ts [])

/-- The `i`-th goroutine begins a task: it waits for a mutex and is not at work on the tree. -/
def Goroutines.Begins (P : Goroutines) (i : ℕ) : Prop :=
  P.owner Mutex.root ≠ some i ∧ ((P.threads[i]?).bind Pool.awaited).isSome = true

instance (P : Goroutines) (i : ℕ) : Decidable (P.Begins i) := inferInstanceAs (Decidable (_ ∧ _))

/-! ### Every goroutine is disciplined -/

theorem inOrder_goroutine : ∀ (tasks : List Task) (found : List (List Storable)),
    Locking.InOrder [] (goroutine tasks found)
  | [], _ => disciplined_ret _
  | .query clock q :: tasks, _ =>
    (Disciplined.holding (fun _ h => absurd h List.not_mem_nil) (Locking.inOrder_atRoot fun fuel =>
      Locking.inOrder_queryAt q fuel clock [] Locking.inside_root)).bind
      fun _ => inOrder_goroutine tasks _
  | .insert clock trigger :: tasks, _ =>
    (Disciplined.holding (fun _ h => absurd h List.not_mem_nil) (Locking.inOrder_atRoot fun fuel =>
      Locking.inOrder_insertAt trigger fuel clock Locking.inside_root)).bind
      fun _ => inOrder_goroutine tasks _
  | .cleanup clock :: tasks, _ =>
    (Disciplined.holding (fun _ h => absurd h List.not_mem_nil) (Locking.inOrder_atRoot fun fuel =>
      Locking.inOrder_cleanupAt fuel clock Locking.inside_root)).bind
      fun _ => inOrder_goroutine tasks _
  | .connectToServer :: tasks, _ =>
    (Disciplined.holding (fun _ h => absurd h List.not_mem_nil) (disciplined_ret _)).bind
      fun _ => inOrder_goroutine tasks _

theorem orderly_goroutines (l : Locator) (tasks : List (List Task)) :
    Pool.Orderly Mutex.rank Mutex.root (Goroutines.start l tasks) := by
  refine Pool.orderly_start fun t ht => ?_
  obtain ⟨ts, -, rfl⟩ := List.mem_map.mp ht
  exact inOrder_goroutine ts []

/-! ### A task is one step -/

/-- Where a thread is: before these tasks, or at the end of the `ConnectToServer` before them. -/
def Stands (t : Thread Locator Mutex (List (List Storable)))
    (g : List Task × List (List Storable)) : Prop :=
  t = goroutine g.1 g.2 ∨ t = .unlock .locator (goroutine g.1 g.2)

/-- The threads with whole sections are where the goroutines with whole tasks are. -/
structure Works (S : Serial Locator Mutex (List (List Storable))) (C : Crew) : Prop where
  state : S.state = C.locator
  stands : ∀ (i : ℕ) t, S.threads[i]? = some t → ∃ g, C.goroutines[i]? = some g ∧ Stands t g

section
variable {c : ℤ} {b : Rectangle} {S : Serial Locator Mutex (List (List Storable))} {C : Crew}
  {i : ℕ}

theorem Works.set (h : Works S C) {l : Locator} {t : Thread Locator Mutex (List (List Storable))}
    {g : List Task × List (List Storable)} (hstands : Stands t g) :
    Works ⟨l, S.threads.set i t⟩ ⟨l, C.goroutines.set i g⟩ where
  state := rfl
  stands j u hu := by
    by_cases hij : i = j
    · subst hij
      obtain ⟨hlt, hset⟩ := List.getElem?_eq_some_iff.mp hu
      rw [List.length_set] at hlt
      obtain ⟨g', hg', -⟩ := h.stands i _ (List.getElem?_eq_getElem hlt)
      obtain ⟨hlt', -⟩ := List.getElem?_eq_some_iff.mp hg'
      rw [List.getElem?_set_self hlt] at hu
      cases hu
      exact ⟨g, List.getElem?_set_self hlt', hstands⟩
    · rw [List.getElem?_set_ne hij] at hu
      obtain ⟨g', hg', hstands'⟩ := h.stands j u hu
      exact ⟨g', (List.getElem?_set_ne hij).trans hg', hstands'⟩

/-- An operation at the root that comes to its end is one step of the serial threads. -/
theorem step_atRoot {α : Type} {body : ℕ → Thread Locator Mutex α}
    {k : α → Thread Locator Mutex (List (List Storable))} {a : α} {l : Locator}
    (hbody : ∀ fuel, Locking.InOrder [Mutex.root] (body fuel))
    (hrun : (Locking.atRoot body).alone S.state = some (a, l))
    (ht : S.threads[i]? = some ((Locking.atRoot body).bind k)) :
    S.step Mutex.root i = some ⟨l, S.threads.set i (k a)⟩ :=
  Serial.step_holding (Locking.inOrder_atRoot hbody) ht hrun

/-- A task done in one step is what its section does. -/
theorem task_step (hc : 1 ≤ c) {l : Locator} (hwf : WF c b l.root) (hstate : S.state = l)
    {task : Task} {tasks : List Task} {found : List (List Storable)}
    (ht : S.threads[i]? = some (goroutine (task :: tasks) found)) :
    ∃ l' found' t, l.perform task = some (l', found') ∧ WF c b l'.root ∧
      S.step Mutex.root i = some ⟨l', S.threads.set i t⟩ ∧ Stands t (tasks, found ++ found') := by
  subst hstate
  cases task with
  | query clock q =>
    obtain ⟨t', hwf', hrun⟩ := Timed.query_wf q S.state.lastUpdates clock hwf
    obtain ⟨matches', hrun⟩ := hrun []
    refine ⟨{ S.state with root := t' }, [matches'], goroutine tasks (found ++ [matches']), ?_, hwf',
      ?_, .inl rfl⟩
    · rw [Locator.perform, hrun]
      rfl
    · exact step_atRoot (k := fun matches' => goroutine tasks (found ++ [matches']))
        (fun fuel => Locking.inOrder_queryAt q fuel clock [] Locking.inside_root)
        (Locking.alone_query hrun) ht
  | insert clock trigger =>
    obtain ⟨t', lu, ok, hrun, hwf'⟩ := Timed.insert_wf hc hwf clock trigger S.state.lastUpdates
    refine ⟨{ S.state with root := t', lastUpdates := lu }, [], goroutine tasks found, ?_, hwf', ?_,
      .inl (by rw [List.append_nil])⟩
    · rw [Locator.perform, hrun]
      rfl
    · exact step_atRoot (k := fun _ => goroutine tasks found)
        (fun fuel => Locking.inOrder_insertAt trigger fuel clock Locking.inside_root)
        (Locking.alone_insert hrun) ht
  | cleanup clock =>
    obtain ⟨t', hrun, hwf'⟩ : ∃ t', Timed.cleanup S.state.lastUpdates clock S.state.root = some t' ∧
        WF c b t' := Timed.cleanup_wf clock hwf
    refine ⟨{ S.state with root := t' }, [], goroutine tasks found, ?_, hwf', ?_,
      .inl (by rw [List.append_nil])⟩
    · rw [Locator.perform, hrun]
      rfl
    · exact step_atRoot (k := fun _ => goroutine tasks found)
        (fun fuel => Locking.inOrder_cleanupAt fuel clock Locking.inside_root)
        (Locking.alone_cleanup hrun) ht
  | connectToServer =>
    refine ⟨S.state, [], .unlock .locator (goroutine tasks found), rfl, hwf, ?_,
      .inr (by rw [List.append_nil])⟩
    rw [Serial.step, ht]
    rfl

theorem crew_step {l : Locator} {task : Task} {tasks : List Task}
    {found found' : List (List Storable)} (hi : C.goroutines[i]? = some (task :: tasks, found))
    (h : C.locator.perform task = some (l, found')) :
    C.step i = some ⟨l, C.goroutines.set i (tasks, found ++ found')⟩ := by
  rw [Crew.step, hi]
  simp only [h, Option.map_some]

/-- Who has a task left waits for a mutex; who has none has ended. -/
theorem goroutine_cases (g : List Task × List (List Storable)) :
    (∃ task tasks, g.1 = task :: tasks ∧ ∃ l t, goroutine g.1 g.2 = .lock l t) ∨
      g.1 = [] ∧ goroutine g.1 g.2 = .ret g.2 := by
  obtain ⟨_ | ⟨task, tasks⟩, found⟩ := g
  · exact .inr ⟨rfl, rfl⟩
  · refine .inl ⟨task, tasks, rfl, ?_⟩
    cases task <;> exact ⟨_, _, rfl⟩

/-! ### Every interleaving -/

/-- The goroutines, once who is at work on the tree has come to the end of its task, are where the crew
    is. -/
structure Tracks (c : ℤ) (b : Rectangle) (P : Goroutines) (C : Crew) : Prop where
  orderly : P.Orderly Mutex.rank Mutex.root
  works : Works (P.settled Mutex.root) C
  wf : WF c b C.locator.root

variable {P P' : Goroutines}

theorem tracks_start {l : Locator} (hwf : WF c b l.root) (tasks : List (List Task)) :
    Tracks c b (Goroutines.start l tasks) (Crew.start l tasks) where
  orderly := orderly_goroutines l tasks
  works := by
    rw [Pool.settled_free rfl]
    refine ⟨rfl, fun i t ht => ?_⟩
    obtain ⟨ts, hts, rfl⟩ := List.getElem?_map .. ▸ ht |> Option.map_eq_some_iff.mp
    exact ⟨(ts, []), by simp [Crew.start, hts], .inl rfl⟩
  wf := hwf

/-- The step by which a goroutine takes its first mutex does the task. -/
theorem tracks_begin (hc : 1 ≤ c) (h : Tracks c b P C) (hstep : P.step i = some P')
    (hbegins : P.Begins i) : ∃ C', C.step i = some C' ∧ Tracks c b P' C' := by
  obtain ⟨hi, hwaits⟩ := hbegins
  have hserial := Pool.settled_step h.orderly hstep hi
  obtain ⟨l, hl⟩ := Option.isSome_iff_exists.mp hwaits
  obtain ⟨t, ht, hl⟩ := Option.bind_eq_some_iff.mp hl
  obtain ⟨g, hg, hstands⟩ := h.works.stands i t ((Pool.settled_threads hi).trans ht)
  rcases hstands with rfl | rfl
  · rcases goroutine_cases g with ⟨task, tasks, hg₁, -⟩ | ⟨-, hret⟩
    · obtain ⟨ts, found⟩ := g
      cases hg₁
      obtain ⟨l', found', t', hperform, hwf', hsection, hstands'⟩ :=
        task_step hc h.wf h.works.state ((Pool.settled_threads hi).trans ht)
      rw [hsection] at hserial
      refine ⟨_, crew_step hg hperform, ⟨Pool.orderly_step h.orderly hstep, ?_, hwf'⟩⟩
      rw [← Option.some.inj hserial]
      exact h.works.set hstands'
    · rw [hret] at hl
      cases hl
  · cases hl

/-- No other step does anything to the crew. -/
theorem tracks_skip (h : Tracks c b P C) (hstep : P.step i = some P') (hbegins : ¬P.Begins i) :
    Tracks c b P' C := by
  refine ⟨Pool.orderly_step h.orderly hstep, ?_, h.wf⟩
  by_cases hi : P.owner Mutex.root = some i
  · rw [Pool.settled_same h.orderly hstep hi]
    exact h.works
  · have hserial := Pool.settled_step h.orderly hstep hi
    have hthread := Pool.settled_threads hi
    cases ht : P.threads[i]? with
    | none => simp [Pool.step, ht] at hstep
    | some t =>
      rw [ht] at hthread
      obtain ⟨g, hg, hstands⟩ := h.works.stands i t hthread
      rcases hstands with rfl | rfl
      · rcases goroutine_cases g with ⟨-, -, -, _, _, hlock⟩ | ⟨-, hret⟩
        · exact absurd ⟨hi, by rw [ht, hlock]; rfl⟩ hbegins
        · rw [Pool.step, ht, hret] at hstep
          cases hstep
      · -- the end of a `ConnectToServer`
        rw [Serial.step, hthread] at hserial
        obtain ⟨hlt, rfl⟩ := List.getElem?_eq_some_iff.mp hg
        have hset := h.works.set (i := i) (l := C.locator) (.inl rfl : Stands _ C.goroutines[i])
        rw [List.set_getElem_self] at hset
        rw [← Option.some.inj hserial, h.works.state]
        exact hset

theorem tracks_run (hc : 1 ≤ c) {l : Locator} (hwf : WF c b l.root) {tasks : List (List Task)}
    {is : List ℕ} (hrun : run Pool.step (Goroutines.start l tasks) is = some P) :
    ∃ C, run Crew.step (Crew.start l tasks)
      (picked Pool.step Goroutines.Begins (Goroutines.start l tasks) is) = some C ∧
        Tracks c b P C := by
  refine run_picked ?_ ?_ (tracks_start hwf tasks) hrun
  · exact fun _ _ _ _ h hstep hbegins => tracks_begin hc h hstep hbegins
  · exact fun _ _ _ _ h hstep hbegins => tracks_skip h hstep hbegins

/-- A thread that has ended holds no mutex. -/
theorem owner_of_ret (hP : P.Orderly Mutex.rank Mutex.root) {found : List (List Storable)}
    (ht : P.threads[i]? = some (.ret found)) (m : Mutex) : P.owner m ≠ some i := by
  obtain ⟨own, hown, -, hmem⟩ := hP.disciplined i _ ht
  cases hown
  intro hm
  exact absurd ((hmem m).mp hm) List.not_mem_nil

/-- In every interleaving of the locator's goroutines, each operation on the tree happens as if at once,
    at the step at which its goroutine takes the root's mutex: whenever this mutex is free the
    locator is as after these operations in this order, and what an ended goroutine has found is what
    its queries find in that order. -/
theorem operations_atomic (hc : 1 ≤ c) {l : Locator} (hwf : WF c b l.root) (tasks : List (List Task))
    {is : List ℕ} (hrun : run Pool.step (Goroutines.start l tasks) is = some P) :
    ∃ C, run Crew.step (Crew.start l tasks)
        (picked Pool.step Goroutines.Begins (Goroutines.start l tasks) is) = some C ∧
      (P.owner Mutex.root = none → P.state = C.locator) ∧
      ∀ (i : ℕ) found, P.threads[i]? = some (.ret found) → C.goroutines[i]? = some ([], found) := by
  obtain ⟨C, hC, htracks⟩ := tracks_run hc hwf hrun
  refine ⟨C, hC, fun hfree => ?_, fun i found ht => ?_⟩
  · have hstate := htracks.works.state
    rwa [Pool.settled_free hfree] at hstate
  · have hi := owner_of_ret htracks.orderly ht Mutex.root
    obtain ⟨⟨ts, found'⟩, hg, hstands⟩ :=
      htracks.works.stands i _ ((Pool.settled_threads hi).trans ht)
    rcases hstands with heq | heq
    · rcases goroutine_cases (ts, found') with ⟨-, -, -, _, _, hlock⟩ | ⟨hts, hret⟩
      · rw [hlock] at heq
        cases heq
      · rw [hret] at heq
        cases heq
        cases hts
        exact hg
    · cases heq

end

/-- A subscription, stored from 1000 on, and a publication that meets it. -/
def meetingArea : Storable := ⟨⟨0, 0, 10, 10⟩, 1, 7, 1000, true⟩

def passerBy : Storable := ⟨⟨5, 5, 1, 1⟩, 2, 8, 1000, false⟩

/-- The subscription is inserted, the publication queries, and a server is connected. -/
def threeGoroutines : Goroutines :=
  Goroutines.start (.start ⟨0, 0, 100, 100⟩ 4)
    [[.insert (fun _ _ => 1000) meetingArea], [.query (fun _ _ => 1001) passerBy],
      [.connectToServer]]

/-- `ConnectToServer` takes the locator's mutex while the insertion is at work on the tree. -/
def oneInterleaving : List ℕ := [0, 0, 2, 0, 2, 0, 0, 0, 0, 0, 0, 1, 1, 1, 1, 1, 1, 1, 1]

theorem operations_atomic_connectBetween : ∃ P C,
    run Pool.step threeGoroutines oneInterleaving = some P ∧
    run Crew.step (Crew.start threeGoroutines.state
      [[.insert (fun _ _ => 1000) meetingArea], [.query (fun _ _ => 1001) passerBy],
        [.connectToServer]]) [0, 2, 1] = some C ∧ P.state = C.locator := by
  obtain ⟨P, hrun, hfree⟩ := exists_of_map_decide (o := run Pool.step threeGoroutines oneInterleaving)
    (P := fun P => P.owner Mutex.root = none) (by decide +kernel)
  have hbegun : picked Pool.step Goroutines.Begins threeGoroutines oneInterleaving = [0, 2, 1] := by
    decide +kernel
  obtain ⟨C, hC, hstate, -⟩ := operations_atomic (by decide) (wf_newQuadtree (by decide) _) _ hrun
  exact ⟨P, C, hrun, hbegun ▸ hC, hstate hfree⟩

section
variable {c : ℤ} {b : Rectangle} {P : Goroutines}

/-- The goroutines of the locator never deadlock, and none panics: in every state that they reach in any
    interleaving, one of them can go on, or all have ended and every mutex is free. -/
theorem locks_never_deadlock (hc : 1 ≤ c) {l : Locator} (hwf : WF c b l.root)
    (tasks : List (List Task)) {is : List ℕ}
    (hrun : run Pool.step (Goroutines.start l tasks) is = some P) :
    (∀ t ∈ P.threads, t ≠ .panic) ∧
      ((∃ i, (P.step i).isSome) ∨
        (∀ t ∈ P.threads, ∃ found, t = .ret found) ∧ ∀ m, P.owner m = none) := by
  obtain ⟨C, -, htracks⟩ := tracks_run hc hwf hrun
  have hpanic : ∀ t ∈ P.threads, t ≠ .panic := by
    rintro t ht rfl
    have hpanics : .panic ∈ (P.settled Mutex.root).threads := Pool.panic_settled ht
    obtain ⟨i, hi⟩ := List.mem_iff_getElem?.mp hpanics
    obtain ⟨g, -, hstands⟩ := htracks.works.stands i _ hi
    rcases hstands with heq | heq
    · rcases goroutine_cases g with ⟨-, -, -, _, _, hlock⟩ | ⟨-, hret⟩
      · rw [hlock] at heq
        cases heq
      · rw [hret] at heq
        cases heq
    · cases heq
  refine ⟨hpanic, (Pool.not_deadlocked htracks.orderly hpanic).imp_right fun hended => ?_⟩
  refine ⟨hended, fun m => ?_⟩
  cases hm : P.owner m with
  | none => rfl
  | some i =>
    have hi := List.getElem?_eq_getElem (htracks.orderly.owner m i hm)
    obtain ⟨found, hret⟩ := hended _ (List.mem_of_getElem? hi)
    rw [hret] at hi
    exact absurd hm (owner_of_ret htracks.orderly hi m)

end

theorem locks_never_deadlock_connectBetween : ∃ P,
    run Pool.step threeGoroutines (oneInterleaving.take 4) = some P ∧
      ∃ i, (P.step i).isSome := by
  obtain ⟨P, hrun, hheld⟩ := exists_of_map_decide
    (o := run Pool.step threeGoroutines (oneInterleaving.take 4))
    (P := fun P => P.owner Mutex.root ≠ none) (by decide +kernel)
  obtain ⟨-, hgo | ⟨-, hfree⟩⟩ :=
    locks_never_deadlock (by decide) (wf_newQuadtree (by decide) _) _ hrun
  · exact ⟨P, hrun, hgo⟩
  · exact absurd (hfree _) hheld

end DistGame
