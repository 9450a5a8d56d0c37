import DistGame.Lib.Run
import DistGame.Locator.Placement

/-! The locator as a state machine over `Insert`, `Query` and `Cleanup`, each run at one clock
    reading, from the empty tree of `NewQuadtree`. `step_cases` says once what a step can do: it
    drops stale entries, and an accepted `Insert` also places one entry and records its expiry. An
    entry that is live at a step is kept in its node by that step. -/

namespace DistGame
open QTree Quadtree

/-- `Locator`; a notification to the server stored under a sid goes to the server that this
    connection leads to. -/
structure Locator where
  root : Quadtree
  lastUpdates : LastUpdates
  servers : GoMap Int32 Int32

/-- A quadtree operation with the clock reading it is run at. -/
inductive Op where
  | insert (now : Int64) (trigger : Storable)
  | query (now : Int64) (query : Storable)
  | cleanup (now : Int64)

/-- The clock reading of an operation. -/
def Op.now : Op → Int64
  | .insert now _ => now
  | .query now _ => now
  | .cleanup now => now

namespace Locator

/-- A locator over an empty tree. -/
def start (boundary : Rectangle) (capacity : ℤ) : Locator :=
  ⟨newQuadtree boundary capacity, ∅, ∅⟩

/-- `l.root.Insert(trigger, l)`. -/
def insert (l : Locator) (now : Int64) (trigger : Storable) : Option (Locator × Bool) :=
  (l.root.insert now trigger l.lastUpdates).map
    fun (root, lastUpdates, ok) => ({ l with root, lastUpdates }, ok)

/-- `l.root.Query(query, &found, l)`. -/
def query (l : Locator) (now : Int64) (q : Storable) (found : List Storable) :
    Option (Locator × List Storable) :=
  (Quadtree.query now q l.lastUpdates l.root found).map fun (root, found) => ({ l with root }, found)

/-- `l.root.Cleanup(l)`. -/
def cleanup (l : Locator) (now : Int64) : Option Locator :=
  (Quadtree.cleanup now l.lastUpdates l.root).map fun root => { l with root }

/-- The state after one operation. -/
def step (l : Locator) : Op → Option Locator
  | .insert now trigger => (l.insert now trigger).map Prod.fst
  | .query now q => (l.query now q []).map Prod.fst
  | .cleanup now => l.cleanup now

end Locator

/-! ### Expiry -/

/-- The expiry time has passed. -/
def expired (now : Int64) (e : Storable) : Bool := decide (e.ttl > 0) && decide (now - e.ttl > 0)

/-- `lastUpdates` holds a later expiry for the entry's guid. -/
def superseded (lu : LastUpdates) (e : Storable) : Bool :=
  decide (lu.index e.guid 0 > 0) && decide (lu.index e.guid 0 > e.ttl)

theorem stale_eq (now : Int64) (lu : LastUpdates) (e : Storable) :
    stale now lu e = (expired now e || superseded lu e) := rfl

theorem stale_eq_false {now : Int64} {lu : LastUpdates} {e : Storable} :
    stale now lu e = false ↔ expired now e = false ∧ superseded lu e = false := by
  rw [stale_eq, Bool.or_eq_false_iff]

/-- After 1970 an expiry time has passed exactly when it is positive and in the past. -/
theorem expired_iff {now : Int64} (h : 0 ≤ now) (e : Storable) :
    expired now e = true ↔ 0 < e.ttl ∧ e.ttl < now := by
  simp only [expired, Bool.and_eq_true, decide_eq_true_eq]
  grind

theorem expired_mono {now now' : Int64} (h0 : 0 ≤ now) (h : now ≤ now') {e : Storable}
    (he : expired now e = true) : expired now' e = true := by
  rw [expired_iff h0] at he
  rw [expired_iff (Int64.le_trans h0 h)]
  grind

theorem superseded_recorded (lu : LastUpdates) (now : Int64) (trigger e : Storable) :
    superseded (recorded lu now trigger) e =
      if e.guid = trigger.guid then
        decide (0 < now + trigger.ttl) && decide (e.ttl < now + trigger.ttl)
      else superseded lu e := by
  rw [superseded, superseded, recorded, GoMap.index_insert]
  split <;> rfl

/-! ### One step -/

section
variable {c : ℤ} {b : Rectangle} {l : Locator}

/-- `Insert` answers false, or it answers true and records the expiry. -/
theorem locator_insert_spec (hc : 1 ≤ c) (hwf : WF c b l.root) (now : Int64) (trigger : Storable) :
    (∃ t', l.insert now trigger = some ({ l with root := t' }, false) ∧
      Refused c b now trigger l.lastUpdates l.root t') ∨
    ∃ t', l.insert now trigger =
        some ({ l with root := t', lastUpdates := recorded l.lastUpdates now trigger }, true) ∧
      Accepted c b now trigger l.lastUpdates l.root t' := by
  rcases insert_spec hc now trigger l.lastUpdates hwf with ⟨t', h, hno⟩ | ⟨t', h, hyes⟩
  · exact .inl ⟨t', by rw [Locator.insert, h]; rfl, hno⟩
  · exact .inr ⟨t', by rw [Locator.insert, h]; rfl, hyes⟩

/-- `Query` appends what it reports and prunes. -/
theorem locator_query_spec (hwf : WF c b l.root) (now : Int64) (q : Storable) :
    ∃ t', (∀ found, l.query now q found =
        some ({ l with root := t' }, found ++ reported now q l.lastUpdates l.root)) ∧
      WF c b t' ∧ Pruned (fun e => stale now l.lastUpdates e = true) l.root t' := by
  obtain ⟨t', h, hwf', hpr⟩ := query_spec now q l.lastUpdates hwf
  exact ⟨t', fun found => by rw [Locator.query, h]; rfl, hwf', hpr⟩

/-- `Cleanup` prunes. -/
theorem locator_cleanup_spec (hwf : WF c b l.root) (now : Int64) :
    ∃ t', l.cleanup now = some { l with root := t' } ∧ WF c b t' ∧
      Pruned (fun e => stale now l.lastUpdates e = true) l.root t' := by
  obtain ⟨t', h, hwf', hpr⟩ := cleanup_spec now l.lastUpdates hwf
  exact ⟨t', by rw [Locator.cleanup, h]; rfl, hwf', hpr⟩

/-- Everything a step can do. -/
theorem step_cases (hc : 1 ≤ c) {l' : Locator} {op : Op} (hwf : WF c b l.root)
    (h : l.step op = some l') :
    WF c b l'.root ∧
      ((∃ trigger, op = .insert op.now trigger ∧
          Accepted c b op.now trigger l.lastUpdates l.root l'.root ∧
          l'.lastUpdates = recorded l.lastUpdates op.now trigger) ∨
        (l'.lastUpdates = l.lastUpdates ∧
          Pruned (fun e => stale op.now l.lastUpdates e = true) l.root l'.root ∧
          ∀ now trigger, op = .insert now trigger → trigger.rect.Nonneg →
            b.intersects trigger.rect = false)) := by
  cases op with
  | insert now trigger =>
    rw [Locator.step] at h
    rcases locator_insert_spec hc hwf now trigger with ⟨t', hrun, hno⟩ | ⟨t', hrun, hyes⟩ <;>
      rw [hrun] at h <;> cases h
    · exact ⟨hno.wf, .inr ⟨rfl, hno.pruned, fun _ _ h => by cases h; exact hno.misses⟩⟩
    · exact ⟨hyes.wf, .inl ⟨trigger, rfl, hyes, rfl⟩⟩
  | query now q =>
    obtain ⟨t', hrun, hwf', hpr⟩ := locator_query_spec hwf now q
    rw [Locator.step, hrun] at h
    cases h
    exact ⟨hwf', .inr ⟨rfl, hpr, fun _ _ h => by simp at h⟩⟩
  | cleanup now =>
    obtain ⟨t', hrun, hwf', hpr⟩ := locator_cleanup_spec hwf now
    rw [Locator.step, hrun] at h
    cases h
    exact ⟨hwf', .inr ⟨rfl, hpr, fun _ _ h => by simp at h⟩⟩

/-- No operation gets stuck on a well-formed tree. -/
theorem step_total (hc : 1 ≤ c) (op : Op) (hwf : WF c b l.root) :
    ∃ l', l.step op = some l' ∧ WF c b l'.root := by
  cases op with
  | insert now trigger =>
    rcases locator_insert_spec hc hwf now trigger with ⟨t', hrun, hno⟩ | ⟨t', hrun, hyes⟩
    · exact ⟨_, by rw [Locator.step, hrun]; rfl, hno.wf⟩
    · exact ⟨_, by rw [Locator.step, hrun]; rfl, hyes.wf⟩
  | query now q =>
    obtain ⟨t', hrun, hwf', -⟩ := locator_query_spec hwf now q
    exact ⟨_, by rw [Locator.step, hrun]; rfl, hwf'⟩
  | cleanup now =>
    obtain ⟨t', hrun, hwf', -⟩ := locator_cleanup_spec hwf now
    exact ⟨_, hrun, hwf'⟩

theorem start_wf (hc : 1 ≤ c) (b : Rectangle) : WF c b (Locator.start b c).root :=
  wf_newQuadtree (by omega) b

theorem run_keeps_wf (hc : 1 ≤ c) {l' : Locator} {ops : List Op} (hwf : WF c b l.root)
    (h : run Locator.step l ops = some l') : WF c b l'.root :=
  run_preserves (P := fun l : Locator => WF c b l.root)
    (fun _ _ _ hP hs => (step_cases hc hP hs).1) hwf h

/-- Every reachable tree is well formed. -/
theorem run_wf (hc : 1 ≤ c) {ops : List Op}
    (h : run Locator.step (Locator.start b c) ops = some l) : WF c b l.root :=
  run_keeps_wf hc (start_wf hc b) h

/-- No run gets stuck. -/
theorem run_total (hc : 1 ≤ c) (hwf : WF c b l.root) (ops : List Op) :
    ∃ l', run Locator.step l ops = some l' := by
  obtain ⟨l', h, -⟩ := run_progress (P := fun l : Locator => WF c b l.root)
    (fun _ op hP => step_total hc op hP) ops l hwf
  exact ⟨l', h⟩

/-- A live entry keeps its place and its number of copies in every step that does not store
    another copy of it. -/
theorem count_step (hc : 1 ≤ c) {l' : Locator} {op : Op} {e : Storable} (hwf : WF c b l.root)
    (h : l.step op = some l') (hlive : stale op.now l.lastUpdates e = false)
    (hne : ∀ now trigger, op = .insert now trigger → trigger.stored now ≠ e) (p : Path) :
    (storeAt l'.root p).count e = (storeAt l.root p).count e := by
  have hnot : ¬ stale op.now l.lastUpdates e = true := by simp [hlive]
  rcases (step_cases hc hwf h).2 with ⟨trigger, hop, hacc, -⟩ | ⟨-, hpr, -⟩
  · obtain ⟨p₀, hp₀⟩ := hacc.placed
    obtain ⟨kept, hdrop, heq⟩ := hp₀ p
    rw [heq, List.count_append, hdrop.count_eq hnot]
    have hzero : (if p = p₀ then [trigger.stored op.now] else []).count e = 0 := by
      split
      · exact List.count_eq_zero.mpr fun hm => hne _ _ hop (List.mem_singleton.mp hm).symm
      · rfl
    omega
  · exact (hpr p).count_eq hnot

end

end DistGame
