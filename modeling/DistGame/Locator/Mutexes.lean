import Mathlib.Order.WithBot
import DistGame.Lib.Threads
import DistGame.Locator.Clocks

/-! The quadtree operations with their mutexes, access by access (`demo/locator/quadtree.go`). Every
    node has a mutex, which an operation holds while it is at the node or below, and the locator has
    one for `lastUpdates`, which it takes at each node for the loop over the store. A mutex is named
    by the path of its node: only who holds the root's has a pointer to a node below, so a node that
    is new at a path is not confused with one that was there before.

    Alone, each operation does what it does in `Quadtree.Timed`. -/

namespace DistGame
open QTree Thread

/-- `qt.mu` of the node at a path, and `l.mu`. -/
inductive Mutex where
  | node (p : Path)
  | locator
  deriving DecidableEq

/-- The order in which the mutexes are taken: downwards in the tree, and the locator's last. -/
def Mutex.rank : Mutex → WithTop ℕ
  | .node p => p.length
  | .locator => ⊤

/-- The root's mutex. -/
def Mutex.root : Mutex := .node []

namespace Quadtree.Locking

/-! ### Accesses -/

/-- The fields of the node at `p`; a nil child is dereferenced. -/
def fields (p : Path) : Thread Locator Mutex Node :=
  .access id fun l =>
    match l.root.labelAt p with
    | some qt => .ret qt
    | none => .panic

/-- `l.lastUpdates`. -/
def lastUpdates : Thread Locator Mutex LastUpdates := .read Locator.lastUpdates

/-- `l.lastUpdates[guid] = ttl`. -/
def record (guid : UInt32) (ttl : Int64) : Thread Locator Mutex Unit :=
  .write fun l => { l with lastUpdates := l.lastUpdates.insert guid ttl }

/-- `qt.store = store`. -/
def withStore (store : List Storable) : Quadtree → Quadtree
  | .nil => .nil
  | .node qt child => .node { qt with store } child

def setStore (p : Path) (store : List Storable) : Thread Locator Mutex Unit :=
  .write fun l => { l with root := l.root.updateAt (withStore store) p }

/-- The children and the flag of `Subdivide`, or those that `Cleanup` leaves. -/
def withChildren (divided : Bool) (child : Node → Quadrant → Quadtree) : Quadtree → Quadtree
  | .nil => .nil
  | .node qt _ => .node { qt with divided } (child qt)

def setChildren (p : Path) (divided : Bool) (child : Node → Quadrant → Quadtree) :
    Thread Locator Mutex Unit :=
  .write fun l => { l with root := l.root.updateAt (withChildren divided child) p }

/-- `len(qt.store) == 0 && !qt.divided` for the node at `p`. -/
def emptyLeafAt (p : Path) : Thread Locator Mutex Bool :=
  .read fun l => emptyLeaf (l.root.subtreeAt p)

/-- The loop over a store: the entries that are not stale, each by a reading of the clock and of
    `lastUpdates`. -/
def scan (clock : ℕ → Int64) : ℕ → List Storable → Thread Locator Mutex (List Storable)
  | _, [] => pure []
  | i, stored :: rest => do
    let updates ← lastUpdates
    let kept ← scan clock (i + 1) rest
    pure (if stale (clock i) updates stored then kept else stored :: kept)

/-- The call on the child in a quadrant of the node at `p`, which takes the child's mutex. -/
def enter {α : Type} (p : Path) (q : Quadrant) (body : Path → Thread Locator Mutex α) :
    Thread Locator Mutex α :=
  holding (.node (p ++ [q])) (body (p ++ [q]))

/-! ### The operations -/

/-- What `Insert` does under the locator's mutex: the stale entries go, and the new one is stored if
    there is room. -/
def insertHere (trigger : Storable) (clock : ℕ → Int64) (p : Path) (qt : Node) :
    Thread Locator Mutex Bool := do
  let store ← scan clock 0 qt.store
  setStore p store
  if (store.length : ℤ) < qt.capacity then
    let ttl := clock qt.store.length + trigger.ttl
    setStore p (store ++ [{ trigger with ttl }])
    record trigger.guid ttl
    pure true
  else pure false

/-- `if !qt.divided { qt.Subdivide() }`. -/
def divide (p : Path) (qt : Node) : Thread Locator Mutex Unit :=
  if qt.divided then pure () else setChildren p true subdivide

/-- `qt.nw.Insert(…) || qt.ne.Insert(…) || …`. -/
def tryInsert (ins : Quadrant → Thread Locator Mutex Bool) :
    List Quadrant → Thread Locator Mutex Bool
  | [] => pure false
  | q :: qs => do
    let ok ← ins q
    if ok then pure true else tryInsert ins qs

/-- `Insert` at the node at `p`, whose mutex is held. -/
def insertAt (trigger : Storable) : ℕ → NodeClocks → Path → Thread Locator Mutex Bool
  | 0, _, _ => .panic
  | fuel + 1, clock, p => do
    let qt ← fields p
    if !qt.boundary.intersects trigger.rect then pure false
    else
      let stored ← holding .locator (insertHere trigger (clock []) p qt)
      if stored then pure true
      else
        divide p qt
        tryInsert (fun q => enter p q (insertAt trigger fuel (clock.below q))) quadrants

/-- `Query` at the node at `p`, whose mutex is held. -/
def queryAt (query : Storable) :
    ℕ → NodeClocks → Path → List Storable → Thread Locator Mutex (List Storable)
  | 0, _, _, _ => .panic
  | fuel + 1, clock, p, found => do
    let qt ← fields p
    if !qt.boundary.intersects query.rect then pure found
    else
      let store ← holding .locator (scan (clock []) 0 qt.store)
      -- the loop also collects into `found`, a slice that no other goroutine sees
      let found := found ++ store.filter (answers query)
      setStore p store
      if qt.divided then do
        let found ← enter p .nw fun p => queryAt query fuel (clock.below .nw) p found
        let found ← enter p .ne fun p => queryAt query fuel (clock.below .ne) p found
        let found ← enter p .sw fun p => queryAt query fuel (clock.below .sw) p found
        enter p .se fun p => queryAt query fuel (clock.below .se) p found
      else pure found

/-- The collapse of four empty children, which `Cleanup` reads without their mutexes. -/
def coalesce (p : Path) : Thread Locator Mutex Unit := do
  let nw ← emptyLeafAt (p ++ [.nw])
  let ne ← emptyLeafAt (p ++ [.ne])
  let sw ← emptyLeafAt (p ++ [.sw])
  let se ← emptyLeafAt (p ++ [.se])
  if nw && ne && sw && se then setChildren p false fun _ _ => .nil else pure ()

/-- `// remove stale objects`. -/
def removeStale (clock : ℕ → Int64) (p : Path) : Thread Locator Mutex Unit := do
  let qt ← fields p
  let store ← holding .locator (scan clock 0 qt.store)
  setStore p store

/-- `Cleanup` at the node at `p`, whose mutex is held. -/
def cleanupAt : ℕ → NodeClocks → Path → Thread Locator Mutex Unit
  | 0, _, _ => .panic
  | fuel + 1, clock, p => do
    let qt ← fields p
    if qt.divided then do
      enter p .nw (cleanupAt fuel (clock.below .nw))
      enter p .ne (cleanupAt fuel (clock.below .ne))
      enter p .sw (cleanupAt fuel (clock.below .sw))
      enter p .se (cleanupAt fuel (clock.below .se))
      coalesce p
      removeStale (clock []) p
    else removeStale (clock []) p

/-- An operation at the root. The bound on its recursion is read with the root's mutex held; this
    access is not one of the code. -/
def atRoot {α : Type} (body : ℕ → Thread Locator Mutex α) : Thread Locator Mutex α :=
  holding .root (.access id fun l => body (l.root.depth + 1))

/-- `l.root.Insert(trigger, l)`. -/
def insert (clock : NodeClocks) (trigger : Storable) : Thread Locator Mutex Bool :=
  atRoot fun fuel => insertAt trigger fuel clock []

/-- `l.root.Query(query, &found, l)`. -/
def query (clock : NodeClocks) (query : Storable) (found : List Storable) :
    Thread Locator Mutex (List Storable) :=
  atRoot fun fuel => queryAt query fuel clock [] found

/-- `l.root.Cleanup(l)`. -/
def cleanup (clock : NodeClocks) : Thread Locator Mutex Unit :=
  atRoot fun fuel => cleanupAt fuel clock []

/-! ### What the accesses do -/

/-- The locator with another subtree at `p` and with these `lastUpdates`. -/
def put (l : Locator) (p : Path) (t : Quadtree) (lu : LastUpdates) : Locator :=
  { l with root := l.root.updateAt (fun _ => t) p, lastUpdates := lu }

section
variable {α : Type} {l : Locator} {p : Path} {qt : Node} {child : Quadrant → Quadtree} {t u : Quadtree}
  {lu lu' : LastUpdates}

theorem put_self (h : l.root.subtreeAt p = t) : put l p t l.lastUpdates = l := by
  have hsame : l.root.updateAt (fun _ => t) p = l.root.updateAt id p := updateAt_congr h.symm
  rw [put, hsame, updateAt_id]

theorem put_put : put (put l p t lu) p u lu' = put l p u lu' := by
  rw [put, put, updateAt_updateAt]
  rfl

theorem subtreeAt_put (h : l.root.subtreeAt p = .node qt child) :
    (put l p t lu).root.subtreeAt p = t := by
  rw [put, subtreeAt_updateAt _ p l.root (by rw [h]; nofun)]

theorem subtreeAt_child (h : l.root.subtreeAt p = .node qt child) (q : Quadrant) :
    l.root.subtreeAt (p ++ [q]) = child q := by
  rw [subtreeAt, List.foldl_append]
  show (l.root.subtreeAt p).subtree q = child q
  rw [h]
  rfl

/-- To replace a child is to replace the node by one with this child. -/
theorem put_child (h : l.root.subtreeAt p = .node qt child) (q : Quadrant) :
    put l (p ++ [q]) t lu = put l p (.node qt (Function.update child q t)) lu := by
  have hsame : l.root.updateAt (fun _ => t) (p ++ [q]) =
      l.root.updateAt (fun _ => .node qt (Function.update child q t)) p := by
    rw [updateAt_append]
    exact updateAt_congr (by rw [h]; rfl)
  rw [put, put, hsame]

theorem alone_fields (h : l.root.subtreeAt p = .node qt child) :
    (fields p).alone l = some (qt, l) := by
  have hlabel : l.root.labelAt p = some qt := by
    have happend := labelAt_append l.root p []
    rwa [List.append_nil, h] at happend
  simp only [fields, alone, hlabel, id]

theorem alone_setStore (h : l.root.subtreeAt p = .node qt child) (store : List Storable) :
    (setStore p store).alone l =
      some ((), put l p (.node { qt with store } child) l.lastUpdates) := by
  have hsame : l.root.updateAt (withStore store) p =
      l.root.updateAt (fun _ => .node { qt with store } child) p := updateAt_congr (by rw [h]; rfl)
  rw [setStore, alone_write, hsame]
  rfl

theorem alone_setChildren (h : l.root.subtreeAt p = .node qt child) (divided : Bool)
    (new : Node → Quadrant → Quadtree) :
    (setChildren p divided new).alone l =
      some ((), put l p (.node { qt with divided } (new qt)) l.lastUpdates) := by
  have hsame : l.root.updateAt (withChildren divided new) p =
      l.root.updateAt (fun _ => .node { qt with divided } (new qt)) p :=
    updateAt_congr (by rw [h]; rfl)
  rw [setChildren, alone_write, hsame]
  rfl

theorem alone_emptyLeafAt (h : l.root.subtreeAt p = .node qt child) (q : Quadrant) :
    (emptyLeafAt (p ++ [q])).alone l = some (emptyLeaf (child q), l) := by
  rw [emptyLeafAt, alone_read, subtreeAt_child h]

/-- The loop over a store changes nothing. -/
theorem alone_scan (clock : ℕ → Int64) (l : Locator) : ∀ (store : List Storable) (i : ℕ),
    (scan clock i store).alone l = some (((store.zipIdx i).filter fun stored =>
      !stale (clock stored.2) l.lastUpdates stored.1).map Prod.fst, l)
  | [], _ => rfl
  | stored :: rest, i => by
    rw [scan, bind_eq, lastUpdates, alone_bind_some (alone_read ..), bind_eq,
      alone_bind_some (alone_scan clock l rest (i + 1)), List.zipIdx_cons, List.filter_cons]
    cases stale (clock i) l.lastUpdates stored <;> rfl

theorem alone_scan_zero (clock : ℕ → Int64) (l : Locator) (store : List Storable) :
    (scan clock 0 store).alone l = some (Timed.prune clock l.lastUpdates store, l) :=
  alone_scan clock l store 0

/-- The loop between `l.mu.Lock()` and `l.mu.Unlock()`. -/
theorem alone_scan_locked (clock : ℕ → Int64) (l : Locator) (store : List Storable) :
    (holding .locator (scan clock 0 store)).alone l =
      some (Timed.prune clock l.lastUpdates store, l) :=
  (alone_holding ..).trans (alone_scan_zero clock l store)

/-- A call on a child of the node at `p`, which other calls may have changed before. -/
theorem alone_enter (ht : l.root.subtreeAt p = .node qt child) (n : Node)
    (child' : Quadrant → Quadtree) (q : Quadrant) {body : Path → Thread Locator Mutex α} {a : α}
    (hbody : ∀ {l' : Locator}, l'.lastUpdates = lu → l'.root.subtreeAt (p ++ [q]) = child' q →
      (body (p ++ [q])).alone l' = some (a, put l' (p ++ [q]) t lu')) :
    (enter p q body).alone (put l p (.node n child') lu) =
      some (a, put l p (.node n (Function.update child' q t)) lu') := by
  have hat : (put l p (.node n child') lu).root.subtreeAt p = .node n child' := subtreeAt_put ht
  rw [enter, alone_holding, hbody rfl (subtreeAt_child hat q), put_child hat, put_put]

/-- The four children, one after the other. -/
theorem update_quadrants (child : Quadrant → Quadtree) (nw ne sw se : Quadtree) :
    Function.update (Function.update (Function.update (Function.update child .nw nw) .ne ne) .sw sw)
      .se se = quad nw ne sw se := by
  funext q
  cases q <;> rfl

/-! ### What the operations do -/

/-- `Query` at a node, alone. -/
theorem alone_queryAt (query : Storable) : ∀ {fuel : ℕ} {clock : NodeClocks} {l : Locator} {p : Path}
    {lu : LastUpdates} {t t' : Quadtree} {found found' : List Storable}, l.lastUpdates = lu →
    l.root.subtreeAt p = t → t.depth < fuel → Timed.query query lu clock t found = some (t', found') →
      (queryAt query fuel clock p found).alone l = some (found', put l p t' lu)
  | 0, _, _, _, _, _, _, _, _, _, _, hfuel, _ => absurd hfuel (Nat.not_lt_zero _)
  | fuel + 1, clock, l, p, _, .nil, _, _, _, _, _, _, hrun => by cases hrun
  | fuel + 1, clock, l, p, _, .node qt child, t', found, found', rfl, ht, hfuel, hrun => by
    rw [queryAt, bind_eq, alone_bind_some (alone_fields ht)]
    rw [Timed.query] at hrun
    by_cases hmeet : (!qt.boundary.intersects query.rect) = true
    · rw [if_pos hmeet] at hrun ⊢
      cases hrun
      rw [put_self ht]
      rfl
    · rw [if_neg hmeet] at hrun ⊢
      rw [bind_eq, alone_bind_some (alone_scan_locked ..), bind_eq,
        alone_bind_some (alone_setStore ht _)]
      by_cases hd : qt.divided = true
      · rw [if_pos hd] at hrun ⊢
        simp only [Option.bind_eq_bind, Option.bind_eq_some_iff, Prod.exists] at hrun
        obtain ⟨nw, found₁, hnw, ne, found₂, hne, sw, found₃, hsw, se, found₄, hse, hrun⟩ := hrun
        cases hrun
        have hfits : ∀ q, (child q).depth < fuel := fun q => by
          have hlt := depth_child_lt qt child q
          omega
        rw [bind_eq, alone_bind_some (alone_enter ht _ child .nw fun hlu hat =>
          alone_queryAt query hlu hat (hfits .nw) hnw)]
        rw [bind_eq, alone_bind_some (alone_enter ht _ (Function.update child .nw nw) .ne
          fun hlu hat => alone_queryAt query hlu hat (hfits .ne) hne)]
        rw [bind_eq, alone_bind_some (alone_enter ht _
          (Function.update (Function.update child .nw nw) .ne ne) .sw
          fun hlu hat => alone_queryAt query hlu hat (hfits .sw) hsw)]
        rw [alone_enter ht _
          (Function.update (Function.update (Function.update child .nw nw) .ne ne) .sw sw) .se
          fun hlu hat => alone_queryAt query hlu hat (hfits .se) hse, update_quadrants]
      · rw [if_neg hd] at hrun ⊢
        cases hrun
        rfl

theorem alone_removeStale (clock : ℕ → Int64) (ht : l.root.subtreeAt p = .node qt child) :
    (removeStale clock p).alone l = some ((), put l p
      (.node { qt with store := Timed.prune clock l.lastUpdates qt.store } child) l.lastUpdates) := by
  rw [removeStale, bind_eq, alone_bind_some (alone_fields ht), bind_eq,
    alone_bind_some (alone_scan_locked ..), alone_setStore ht]

theorem alone_coalesce (ht : l.root.subtreeAt p = .node qt child) {empty : Bool}
    (h : (emptyLeaf (child .nw) && emptyLeaf (child .ne) && emptyLeaf (child .sw) &&
      emptyLeaf (child .se)) = empty) :
    (coalesce p).alone l = some ((), put l p
      (if empty then .node { qt with divided := false } fun _ => .nil else .node qt child)
      l.lastUpdates) := by
  rw [coalesce, bind_eq, alone_bind_some (alone_emptyLeafAt ht .nw), bind_eq,
    alone_bind_some (alone_emptyLeafAt ht .ne), bind_eq,
    alone_bind_some (alone_emptyLeafAt ht .sw), bind_eq,
    alone_bind_some (alone_emptyLeafAt ht .se), h]
  cases empty with
  | true => exact alone_setChildren ht false fun _ _ => .nil
  | false =>
    simp only [Bool.false_eq_true, if_false]
    rw [put_self ht]
    rfl

/-- `Cleanup` at a node, alone. -/
theorem alone_cleanupAt : ∀ {fuel : ℕ} {clock : NodeClocks} {l : Locator} {p : Path}
    {lu : LastUpdates} {t t' : Quadtree}, l.lastUpdates = lu → l.root.subtreeAt p = t →
    t.depth < fuel → Timed.cleanup lu clock t = some t' →
      (cleanupAt fuel clock p).alone l = some ((), put l p t' lu)
  | 0, _, _, _, _, _, _, _, _, hfuel, _ => absurd hfuel (Nat.not_lt_zero _)
  | fuel + 1, clock, l, p, _, .nil, _, _, _, _, hrun => by cases hrun
  | fuel + 1, clock, l, p, _, .node qt child, t', rfl, ht, hfuel, hrun => by
    rw [cleanupAt, bind_eq, alone_bind_some (alone_fields ht)]
    rw [Timed.cleanup] at hrun
    by_cases hd : qt.divided = true
    · rw [if_pos hd] at hrun ⊢
      simp only [Option.bind_eq_bind, Option.bind_eq_some_iff] at hrun
      obtain ⟨nw, hnw, ne, hne, sw, hsw, se, hse, hrun⟩ := hrun
      have hfits : ∀ q, (child q).depth < fuel := fun q => by
        have hlt := depth_child_lt qt child q
        omega
      rw [← put_self ht]
      rw [bind_eq, alone_bind_some (alone_enter ht _ child .nw fun hlu hat =>
        alone_cleanupAt hlu hat (hfits .nw) hnw)]
      rw [bind_eq, alone_bind_some (alone_enter ht _ (Function.update child .nw nw) .ne
        fun hlu hat => alone_cleanupAt hlu hat (hfits .ne) hne)]
      rw [bind_eq, alone_bind_some (alone_enter ht _
        (Function.update (Function.update child .nw nw) .ne ne) .sw
        fun hlu hat => alone_cleanupAt hlu hat (hfits .sw) hsw)]
      rw [bind_eq, alone_bind_some (alone_enter ht _
        (Function.update (Function.update (Function.update child .nw nw) .ne ne) .sw sw) .se
        fun hlu hat => alone_cleanupAt hlu hat (hfits .se) hse), update_quadrants]
      cases hempty : (emptyLeaf nw && emptyLeaf ne && emptyLeaf sw && emptyLeaf se)
      all_goals
        rw [hempty] at hrun
        cases hrun
        rw [bind_eq, alone_bind_some (alone_coalesce (subtreeAt_put ht) hempty), put_put, put_put]
        simp only [Bool.false_eq_true, if_false, if_true]
        rw [alone_removeStale _ (subtreeAt_put ht), put_put]
        rfl
    · rw [if_neg hd] at hrun ⊢
      cases hrun
      exact alone_removeStale (clock []) ht

/-- Under the locator's mutex, alone. -/
theorem alone_insertHere (trigger : Storable) (clock : ℕ → Int64)
    (ht : l.root.subtreeAt p = .node qt child) :
    (insertHere trigger clock p qt).alone l = some
      (if ((Timed.prune clock l.lastUpdates qt.store).length : ℤ) < qt.capacity then
        (true, put l p
          (.node { qt with store := Timed.prune clock l.lastUpdates qt.store ++
            [{ trigger with ttl := clock qt.store.length + trigger.ttl }] } child)
          (l.lastUpdates.insert trigger.guid (clock qt.store.length + trigger.ttl)))
      else (false, put l p
        (.node { qt with store := Timed.prune clock l.lastUpdates qt.store } child) l.lastUpdates)) := by
  rw [insertHere, bind_eq, alone_bind_some (alone_scan_zero ..), bind_eq,
    alone_bind_some (alone_setStore ht _)]
  split
  · rw [bind_eq, alone_bind_some (alone_setStore (subtreeAt_put ht) _), put_put, bind_eq, record,
      alone_bind_some (alone_write ..)]
    rfl
  · rfl

theorem alone_divide (ht : l.root.subtreeAt p = .node qt child) {n : Node}
    (hn : n.divided = qt.divided) :
    (divide p n).alone l = some ((), put l p (.node { qt with divided := true }
      (if qt.divided then child else subdivide qt)) l.lastUpdates) := by
  rw [divide, hn]
  cases hd : qt.divided with
  | true =>
    have hsame : { qt with divided := true } = qt := by rw [← hd]
    rw [if_pos rfl, if_pos rfl, hsame, put_self ht]
    rfl
  | false => exact alone_setChildren ht true subdivide

/-- The chain of children, when each call does what `ins` does. -/
theorem alone_tryInsert (ht : l.root.subtreeAt p = .node qt child) (n : Node)
    {ins : Quadrant → Quadtree → LastUpdates → Option (Quadtree × LastUpdates × Bool)}
    {body : Quadrant → Path → Thread Locator Mutex Bool}
    (hbody : ∀ {q : Quadrant} {l' : Locator} {t t' : Quadtree} {lu lu' : LastUpdates} {ok : Bool},
      l'.lastUpdates = lu → l'.root.subtreeAt (p ++ [q]) = t → ins q t lu = some (t', lu', ok) →
        (body q (p ++ [q])).alone l' = some (ok, put l' (p ++ [q]) t' lu')) :
    ∀ {qs : List Quadrant} {child₁ child₂ : Quadrant → Quadtree} {lu lu' : LastUpdates} {ok : Bool},
      Timed.tryInsert ins qs child₁ lu = some (child₂, lu', ok) →
        (tryInsert (fun q => enter p q (body q)) qs).alone (put l p (.node n child₁) lu) =
          some (ok, put l p (.node n child₂) lu')
  | [], _, _, _, _, _, hrun => by
    cases hrun
    rfl
  | q :: qs, child₁, _, lu, _, _, hrun => by
    rw [Timed.tryInsert] at hrun
    simp only [Option.bind_eq_bind, Option.bind_eq_some_iff, Prod.exists] at hrun
    obtain ⟨t', lu₁, ok₁, hq, hrun⟩ := hrun
    rw [tryInsert, bind_eq, alone_bind_some (alone_enter ht n child₁ q fun hlu hat =>
      hbody hlu hat hq)]
    cases ok₁ with
    | true =>
      cases hrun
      rfl
    | false => exact alone_tryInsert ht n hbody hrun

/-- `Insert` at a node, alone. -/
theorem alone_insertAt (trigger : Storable) : ∀ {fuel : ℕ} {clock : NodeClocks} {l : Locator}
    {p : Path} {t t' : Quadtree} {lu lu' : LastUpdates} {ok : Bool}, l.lastUpdates = lu →
    l.root.subtreeAt p = t → Timed.insertFuel trigger fuel clock t lu = some (t', lu', ok) →
      (insertAt trigger fuel clock p).alone l = some (ok, put l p t' lu')
  | 0, _, _, _, _, _, _, _, _, _, _, hrun => by cases hrun
  | fuel + 1, _, _, _, .nil, _, _, _, _, _, _, hrun => by cases hrun
  | fuel + 1, clock, l, p, .node qt child, _, _, _, _, rfl, ht, hrun => by
    rw [insertAt, bind_eq, alone_bind_some (alone_fields ht)]
    rw [Timed.insertFuel] at hrun
    by_cases hmeet : (!qt.boundary.intersects trigger.rect) = true
    · rw [if_pos hmeet] at hrun ⊢
      cases hrun
      rw [put_self ht]
      rfl
    · rw [if_neg hmeet] at hrun ⊢
      have hhere := alone_insertHere trigger (clock []) ht
      rw [← alone_holding .locator] at hhere
      by_cases hroom : ((Timed.prune (clock []) l.lastUpdates qt.store).length : ℤ) < qt.capacity
      · rw [if_pos hroom] at hhere hrun
        cases hrun
        rw [bind_eq, alone_bind_some hhere]
        rfl
      · rw [if_neg hroom] at hhere hrun
        obtain ⟨⟨child', lu₁, ok₁⟩, hchildren, hrun⟩ := Option.map_eq_some_iff.mp hrun
        cases hrun
        rw [bind_eq, alone_bind_some hhere]
        have hat : (put l p (.node { qt with
            store := Timed.prune (clock []) l.lastUpdates qt.store } child)
              l.lastUpdates).root.subtreeAt p = _ := subtreeAt_put ht
        have hdivide := alone_divide hat (n := qt) rfl
        simp only [Bool.false_eq_true, if_false]
        rw [bind_eq, alone_bind_some hdivide, put_put]
        exact alone_tryInsert ht _ (fun hlu hat hq => alone_insertAt trigger hlu hat hq) hchildren

/-! ### The order of the mutexes -/

/-- What a goroutine holds at the node at `p`: mutexes of nodes above it, the root's among them. -/
structure Inside (p : Path) (held : List Mutex) : Prop where
  root : Mutex.root ∈ held
  above : ∀ k ∈ held, k.rank ≤ p.length

/-- The discipline of the operations. -/
abbrev InOrder (held : List Mutex) (body : Thread Locator Mutex α) : Prop :=
  Disciplined Mutex.rank Mutex.root held [] body

variable {held : List Mutex}

theorem inside_root : Inside [] [Mutex.root] where
  root := List.mem_singleton_self _
  above k hk := by
    cases List.mem_singleton.mp hk
    exact le_refl _

/-- The mutex of a child ranks above those of the nodes over it. -/
theorem inOrder_enter {q : Quadrant} {body : Path → Thread Locator Mutex α} (h : Inside p held)
    (hbody : ∀ {held}, Inside (p ++ [q]) held → InOrder held (body (p ++ [q]))) :
    InOrder held (enter p q body) := by
  have hlt : ((p.length : ℕ) : WithTop ℕ) < ((p ++ [q]).length : ℕ) :=
    WithTop.coe_lt_coe.mpr (by simp)
  refine Disciplined.holding (fun k hk => (h.above k hk).trans_lt hlt)
    (hbody ⟨List.mem_cons_of_mem _ h.root, fun k hk => ?_⟩)
  rcases List.mem_cons.mp hk with rfl | hk
  · exact le_refl _
  · exact ((h.above k hk).trans_lt hlt).le

/-- The locator's mutex ranks above those of the nodes. -/
theorem inOrder_locked {body : Thread Locator Mutex α} (h : Inside p held)
    (hbody : Mutex.root ∈ Mutex.locator :: held → InOrder (.locator :: held) body) :
    InOrder held (holding .locator body) :=
  Disciplined.holding (fun k hk => (h.above k hk).trans_lt (WithTop.coe_lt_top _))
    (hbody (List.mem_cons_of_mem _ h.root))

theorem inOrder_fields (h : Mutex.root ∈ held) : InOrder held (fields p) :=
  ⟨h, fun l => by
    beta_reduce
    split
    · exact disciplined_ret _
    · trivial⟩

theorem inOrder_scan (h : Mutex.root ∈ held) (clock : ℕ → Int64) :
    ∀ (store : List Storable) (i : ℕ), InOrder held (scan clock i store)
  | [], _ => rfl
  | _ :: rest, i => (disciplined_read h).bind fun _ =>
      (inOrder_scan h clock rest (i + 1)).bind fun _ => disciplined_ret _

theorem inOrder_insertHere (h : Mutex.root ∈ held) (trigger : Storable) (clock : ℕ → Int64)
    (n : Node) : InOrder held (insertHere trigger clock p n) := by
  refine (inOrder_scan h clock n.store 0).bind fun store => (disciplined_write h).bind fun _ => ?_
  split
  · exact (disciplined_write h).bind fun _ => (disciplined_write h).bind fun _ => disciplined_ret _
  · rfl

theorem inOrder_tryInsert {ins : Quadrant → Thread Locator Mutex Bool}
    (h : ∀ q, InOrder held (ins q)) : ∀ qs : List Quadrant, InOrder held (tryInsert ins qs)
  | [] => rfl
  | q :: qs => (h q).bind fun ok => by
    cases ok with
    | true => rfl
    | false => exact inOrder_tryInsert h qs

theorem inOrder_insertAt (trigger : Storable) : ∀ (fuel : ℕ) (clock : NodeClocks) {p : Path}
    {held : List Mutex}, Inside p held → InOrder held (insertAt trigger fuel clock p)
  | 0, _, _, _, _ => trivial
  | fuel + 1, clock, p, held, h => (inOrder_fields h.root).bind fun qt => by
    split
    · rfl
    · refine (inOrder_locked h fun hroot => inOrder_insertHere hroot trigger _ qt).bind fun ok => ?_
      split
      · rfl
      · have hdivide : InOrder held (divide p qt) := by
          rw [divide]
          split
          · rfl
          · exact disciplined_write h.root
        exact hdivide.bind fun _ => inOrder_tryInsert (fun q =>
          inOrder_enter h (inOrder_insertAt trigger fuel (clock.below q))) quadrants

theorem inOrder_queryAt (query : Storable) : ∀ (fuel : ℕ) (clock : NodeClocks) (found : List Storable)
    {p : Path} {held : List Mutex}, Inside p held → InOrder held (queryAt query fuel clock p found)
  | 0, _, _, _, _, _ => trivial
  | fuel + 1, clock, found, p, held, h => (inOrder_fields h.root).bind fun qt => by
    have hchild : ∀ (q : Quadrant) (found : List Storable),
        InOrder held (enter p q fun p => queryAt query fuel (clock.below q) p found) :=
      fun q found => inOrder_enter h (inOrder_queryAt query fuel (clock.below q) found)
    split
    · rfl
    · refine (inOrder_locked h fun hroot => inOrder_scan hroot _ _ _).bind fun store =>
        (disciplined_write h.root).bind fun _ => ?_
      split
      · exact (hchild .nw _).bind fun _ => (hchild .ne _).bind fun _ => (hchild .sw _).bind fun _ =>
          hchild .se _
      · rfl

theorem inOrder_coalesce (h : Mutex.root ∈ held) : InOrder held (coalesce p) := by
  refine (disciplined_read h).bind fun _ => (disciplined_read h).bind fun _ =>
    (disciplined_read h).bind fun _ => (disciplined_read h).bind fun _ => ?_
  split
  · exact disciplined_write h
  · rfl

theorem inOrder_removeStale (h : Inside p held) (clock : ℕ → Int64) :
    InOrder held (removeStale clock p) :=
  (inOrder_fields h.root).bind fun _ =>
    (inOrder_locked h fun hroot => inOrder_scan hroot clock _ 0).bind fun _ => disciplined_write h.root

theorem inOrder_cleanupAt : ∀ (fuel : ℕ) (clock : NodeClocks) {p : Path} {held : List Mutex},
    Inside p held → InOrder held (cleanupAt fuel clock p)
  | 0, _, _, _, _ => trivial
  | fuel + 1, clock, p, held, h => (inOrder_fields h.root).bind fun qt => by
    have hchild : ∀ q : Quadrant, InOrder held (enter p q (cleanupAt fuel (clock.below q))) :=
      fun q => inOrder_enter h (inOrder_cleanupAt fuel (clock.below q))
    split
    · exact (hchild .nw).bind fun _ => (hchild .ne).bind fun _ => (hchild .sw).bind fun _ =>
        (hchild .se).bind fun _ => (inOrder_coalesce h.root).bind fun _ => inOrder_removeStale h _
    · exact inOrder_removeStale h _

/-! ### At the root -/

theorem alone_atRoot (body : ℕ → Thread Locator Mutex α) (l : Locator) :
    (atRoot body).alone l = (body (l.root.depth + 1)).alone l := alone_holding ..

/-- `Query` alone is `Query` at the clock readings. -/
theorem alone_query {clock : NodeClocks} {q : Storable} {found found' : List Storable}
    (h : Timed.query q l.lastUpdates clock l.root found = some (t, found')) :
    (query clock q found).alone l = some (found', { l with root := t }) :=
  (alone_atRoot ..).trans (alone_queryAt q rfl rfl (Nat.lt_succ_self _) h)

/-- `Insert` alone is `Insert` at the clock readings. -/
theorem alone_insert {clock : NodeClocks} {trigger : Storable} {ok : Bool}
    (h : Timed.insert l.root clock trigger l.lastUpdates = some (t, lu, ok)) :
    (insert clock trigger).alone l = some (ok, { l with root := t, lastUpdates := lu }) :=
  (alone_atRoot ..).trans (alone_insertAt trigger rfl rfl h)

/-- `Cleanup` alone is `Cleanup` at the clock readings. -/
theorem alone_cleanup {clock : NodeClocks}
    (h : Timed.cleanup l.lastUpdates clock l.root = some t) :
    (cleanup clock).alone l = some ((), { l with root := t }) :=
  (alone_atRoot ..).trans (alone_cleanupAt rfl rfl (Nat.lt_succ_self _) h)

theorem inOrder_atRoot {body : ℕ → Thread Locator Mutex α}
    (h : ∀ fuel, InOrder [Mutex.root] (body fuel)) :
    InOrder [Mutex.root] (.access id fun l => body (l.root.depth + 1)) :=
  ⟨List.mem_singleton_self _, fun _ => h _⟩

end

end Quadtree.Locking

end DistGame
