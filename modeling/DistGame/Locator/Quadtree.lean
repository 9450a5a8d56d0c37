import DistGame.Lib.GoMap
import DistGame.Game.Rectangle

/-! The locator's quadtree (`demo/locator/quadtree.go`). A node keeps the entries put in it until
    they are pruned; a full node hands a new entry to the first child that takes it. An entry is
    stale once its expiry has passed or `lastUpdates` holds a later expiry for its guid.

    A `nil` tree is a nil child pointer: calling a method on it has no result (`none`), like the
    nil dereference in Go. Each operation runs under the locks it takes at the root. Its loops read
    the clock again for each entry they look at, and `Insert` once more for the expiry it stores
    (`Quadtree.Timed`); an operation at one clock reading `now` is the case in which all these
    readings are the same. -/

namespace DistGame
open QTree

/-- `Storable`: a publication or subscription. `ttl` is a duration in a request and the absolute
    expiry time once the entry is stored. -/
structure Storable where
  rect : Rectangle
  sid : Int32
  guid : UInt32
  ttl : Int64
  isSubscription : Bool
  deriving DecidableEq, Repr

/-- `Locator.lastUpdates`. -/
abbrev LastUpdates := GoMap UInt32 Int64

/-- The fields of a `Quadtree` node other than its child pointers. -/
structure Node where
  boundary : Rectangle
  capacity : ℤ
  store : List Storable
  divided : Bool
  deriving DecidableEq, Repr

/-- `*Quadtree`. -/
abbrev Quadtree := QTree Node

/-- The test by which all three operations skip a stored entry. -/
def stale (now : Int64) (lastUpdates : LastUpdates) (stored : Storable) : Bool :=
  (decide (stored.ttl > 0) && decide (now - stored.ttl > 0)) ||
    (decide (lastUpdates.index stored.guid 0 > 0) &&
      decide (lastUpdates.index stored.guid 0 > stored.ttl))

/-- The clock readings of an operation, which visits no node twice: at the node at each path one for
    each entry of its store, and after these the one for a new entry. -/
abbrev NodeClocks := Path → ℕ → Int64

/-- The readings in a subtree. -/
def NodeClocks.below (clock : NodeClocks) (q : Quadrant) : NodeClocks := fun p => clock (q :: p)

namespace Quadtree

/-- `NewQuadtree`. -/
def newQuadtree (boundary : Rectangle) (capacity : ℤ) : Quadtree :=
  .node ⟨boundary, capacity, [], false⟩ fun _ => .nil

/-- `Subdivide`: the children of a node that was not divided. -/
def subdivide (qt : Node) : Quadrant → Quadtree :=
  fun q => newQuadtree (qt.boundary.quadrant q) qt.capacity

/-- A child with `len(store) == 0 && !divided`. -/
def emptyLeaf : Quadtree → Bool
  | .nil => false
  | .node qt _ => qt.store.isEmpty && !qt.divided

/-- The test by which `Query` reports a live entry. -/
def answers (query stored : Storable) : Bool :=
  query.rect.intersects stored.rect && (query.isSubscription != stored.isSubscription) &&
    (query.sid != stored.sid)

namespace Timed

/-- The loop that copies a store without its stale entries. -/
def prune (clock : ℕ → Int64) (lastUpdates : LastUpdates) (store : List Storable) : List Storable :=
  (store.zipIdx.filter fun stored => !stale (clock stored.2) lastUpdates stored.1).map Prod.fst

/-- `qt.nw.Insert(…) || qt.ne.Insert(…) || …`: the children are tried in order until one accepts; a
    child that refuses may have changed all the same. -/
def tryInsert (ins : Quadrant → Quadtree → LastUpdates → Option (Quadtree × LastUpdates × Bool)) :
    List Quadrant → (Quadrant → Quadtree) → LastUpdates →
      Option ((Quadrant → Quadtree) × LastUpdates × Bool)
  | [], child, lastUpdates => some (child, lastUpdates, false)
  | q :: qs, child, lastUpdates => do
    let (t, lastUpdates, ok) ← ins q (child q) lastUpdates
    let child := Function.update child q t
    if ok then some (child, lastUpdates, true) else tryInsert ins qs child lastUpdates

/-- `Insert` with a bound on the recursion depth. -/
def insertFuel (trigger : Storable) :
    ℕ → NodeClocks → Quadtree → LastUpdates → Option (Quadtree × LastUpdates × Bool)
  | 0, _, _, _ => none
  | _ + 1, _, .nil, _ => none
  | fuel + 1, clock, .node qt child, lastUpdates =>
    if !qt.boundary.intersects trigger.rect then some (.node qt child, lastUpdates, false)
    else
      let now := clock [] qt.store.length
      let qt := { qt with store := prune (clock []) lastUpdates qt.store }
      if (qt.store.length : ℤ) < qt.capacity then
        let trigger := { trigger with ttl := now + trigger.ttl }
        some (.node { qt with store := qt.store ++ [trigger] } child,
          lastUpdates.insert trigger.guid trigger.ttl, true)
      else
        let child := if qt.divided then child else subdivide qt
        (tryInsert (fun q => insertFuel trigger fuel (clock.below q)) quadrants child lastUpdates).map
          fun (child, lastUpdates, ok) => (.node { qt with divided := true } child, lastUpdates, ok)

/-- `Insert`. The recursion goes at most one level below the existing tree (`insert_fuel`). -/
def insert (qt : Quadtree) (clock : NodeClocks) (trigger : Storable) (lastUpdates : LastUpdates) :
    Option (Quadtree × LastUpdates × Bool) :=
  insertFuel trigger (qt.depth + 1) clock qt lastUpdates

/-- `Cleanup`: children first, then the collapse of four empty ones, then the node's own store. -/
def cleanup (lastUpdates : LastUpdates) : NodeClocks → Quadtree → Option Quadtree
  | _, .nil => none
  | clock, .node qt child =>
    let store := prune (clock []) lastUpdates qt.store
    if qt.divided then do
      let nw ← cleanup lastUpdates (clock.below .nw) (child .nw)
      let ne ← cleanup lastUpdates (clock.below .ne) (child .ne)
      let sw ← cleanup lastUpdates (clock.below .sw) (child .sw)
      let se ← cleanup lastUpdates (clock.below .se) (child .se)
      if emptyLeaf nw && emptyLeaf ne && emptyLeaf sw && emptyLeaf se then
        some (.node { qt with store, divided := false } fun _ => .nil)
      else
        some (.node { qt with store } (quad nw ne sw se))
    else some (.node { qt with store } child)

/-- `Query`: the live answers are appended to `found` and the visited stores are pruned. -/
def query (query' : Storable) (lastUpdates : LastUpdates) :
    NodeClocks → Quadtree → List Storable → Option (Quadtree × List Storable)
  | _, .nil, _ => none
  | clock, .node qt child, found =>
    if !qt.boundary.intersects query'.rect then some (.node qt child, found)
    else
      let store := prune (clock []) lastUpdates qt.store
      let found := found ++ store.filter (answers query')
      if qt.divided then do
        let (nw, found) ← query query' lastUpdates (clock.below .nw) (child .nw) found
        let (ne, found) ← query query' lastUpdates (clock.below .ne) (child .ne) found
        let (sw, found) ← query query' lastUpdates (clock.below .sw) (child .sw) found
        let (se, found) ← query query' lastUpdates (clock.below .se) (child .se) found
        some (.node { qt with store } (quad nw ne sw se), found)
      else some (.node { qt with store } child, found)

theorem prune_sublist (clock : ℕ → Int64) (lu : LastUpdates) (store : List Storable) :
    (prune clock lu store).Sublist store := by
  have hsub : (prune clock lu store).Sublist (store.zipIdx.map Prod.fst) :=
    List.filter_sublist.map Prod.fst
  rwa [List.zipIdx_map_fst] at hsub

end Timed

end Quadtree

/-! ### One clock reading -/

section
variable (now : Int64) (lastUpdates : LastUpdates)

/-- The loop that copies a store without its stale entries, at one clock reading. -/
def prune (store : List Storable) : List Storable :=
  Quadtree.Timed.prune (fun _ => now) lastUpdates store

theorem prune_eq (store : List Storable) :
    prune now lastUpdates store = store.filter fun stored => !stale now lastUpdates stored := by
  rw [← List.zipIdx_map_fst 0 store, List.filter_map, List.zipIdx_map_fst]
  rfl

theorem prune_sublist (store : List Storable) : (prune now lastUpdates store).Sublist store :=
  Quadtree.Timed.prune_sublist _ _ _

end

namespace Quadtree

/-- The chain of children, when all attempts read the same clock. -/
def tryInsert (ins : Quadtree → LastUpdates → Option (Quadtree × LastUpdates × Bool)) :
    List Quadrant → (Quadrant → Quadtree) → LastUpdates →
      Option ((Quadrant → Quadtree) × LastUpdates × Bool) :=
  Timed.tryInsert fun _ => ins

/-- `Insert` at one clock reading, with a bound on the recursion depth. -/
def insertFuel (now : Int64) (trigger : Storable) (fuel : ℕ) :
    Quadtree → LastUpdates → Option (Quadtree × LastUpdates × Bool) :=
  Timed.insertFuel trigger fuel fun _ _ => now

/-- `Insert` at one clock reading. -/
def insert (qt : Quadtree) (now : Int64) (trigger : Storable) (lastUpdates : LastUpdates) :
    Option (Quadtree × LastUpdates × Bool) :=
  Timed.insert qt (fun _ _ => now) trigger lastUpdates

/-- `Cleanup` at one clock reading. -/
def cleanup (now : Int64) (lastUpdates : LastUpdates) : Quadtree → Option Quadtree :=
  Timed.cleanup lastUpdates fun _ _ => now

/-- `Query` at one clock reading. -/
def query (now : Int64) (query' : Storable) (lastUpdates : LastUpdates) :
    Quadtree → List Storable → Option (Quadtree × List Storable) :=
  Timed.query query' lastUpdates fun _ _ => now

section
variable (now : Int64) (lastUpdates : LastUpdates) (qt : Node) (child : Quadrant → Quadtree)

theorem tryInsert_cons (ins : Quadtree → LastUpdates → Option (Quadtree × LastUpdates × Bool))
    (q : Quadrant) (qs : List Quadrant) :
    tryInsert ins (q :: qs) child lastUpdates = (do
      let (t, lastUpdates, ok) ← ins (child q) lastUpdates
      let child := Function.update child q t
      if ok then some (child, lastUpdates, true) else tryInsert ins qs child lastUpdates) := rfl

theorem insertFuel_zero (trigger : Storable) (t : Quadtree) :
    insertFuel now trigger 0 t lastUpdates = none := rfl

theorem insertFuel_nil (trigger : Storable) (fuel : ℕ) :
    insertFuel now trigger (fuel + 1) .nil lastUpdates = none := rfl

theorem insertFuel_node (trigger : Storable) (fuel : ℕ) :
    insertFuel now trigger (fuel + 1) (.node qt child) lastUpdates =
      if !qt.boundary.intersects trigger.rect then some (.node qt child, lastUpdates, false)
      else
        let qt := { qt with store := prune now lastUpdates qt.store }
        if (qt.store.length : ℤ) < qt.capacity then
          let trigger := { trigger with ttl := now + trigger.ttl }
          some (.node { qt with store := qt.store ++ [trigger] } child,
            lastUpdates.insert trigger.guid trigger.ttl, true)
        else
          let child := if qt.divided then child else subdivide qt
          (tryInsert (insertFuel now trigger fuel) quadrants child lastUpdates).map
            fun (child, lastUpdates, ok) =>
              (.node { qt with divided := true } child, lastUpdates, ok) := rfl

theorem insert_eq (t : Quadtree) (trigger : Storable) :
    t.insert now trigger lastUpdates = insertFuel now trigger (t.depth + 1) t lastUpdates := rfl

theorem cleanup_node : cleanup now lastUpdates (.node qt child) =
    if qt.divided then do
      let nw ← cleanup now lastUpdates (child .nw)
      let ne ← cleanup now lastUpdates (child .ne)
      let sw ← cleanup now lastUpdates (child .sw)
      let se ← cleanup now lastUpdates (child .se)
      let store := prune now lastUpdates qt.store
      if emptyLeaf nw && emptyLeaf ne && emptyLeaf sw && emptyLeaf se then
        some (.node { qt with store, divided := false } fun _ => .nil)
      else
        some (.node { qt with store } (quad nw ne sw se))
    else some (.node { qt with store := prune now lastUpdates qt.store } child) := rfl

theorem query_node (query' : Storable) (found : List Storable) :
    query now query' lastUpdates (.node qt child) found =
      if !qt.boundary.intersects query'.rect then some (.node qt child, found)
      else
        let store := prune now lastUpdates qt.store
        let found := found ++ store.filter (answers query')
        if qt.divided then do
          let (nw, found) ← query now query' lastUpdates (child .nw) found
          let (ne, found) ← query now query' lastUpdates (child .ne) found
          let (sw, found) ← query now query' lastUpdates (child .sw) found
          let (se, found) ← query now query' lastUpdates (child .se) found
          some (.node { qt with store } (quad nw ne sw se), found)
        else some (.node { qt with store } child, found) := rfl

end

end Quadtree

end DistGame
