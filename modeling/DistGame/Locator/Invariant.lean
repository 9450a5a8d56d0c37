import DistGame.Game.Quarters
import DistGame.Locator.Clocks

/-! The representation invariant of the quadtree, node by node, in every tree that `NewQuadtree`,
    `Insert`, `Query` and `Cleanup` make, whatever their clocks show. -/

namespace DistGame
open QTree Quadtree

/-! ### Every node of a well-formed tree -/

section
variable {c : ℤ} {b : Rectangle} {t : Quadtree} {p : Path} {n : Node}

/-- The subtree at a node is well formed in the region that its path leads to. -/
theorem wf_subtreeAt (hwf : WF c b t) (hp : (t.labelAt p).isSome) :
    WF c (b.region p) (t.subtreeAt p) := by
  induction p generalizing t b with
  | nil => exact hwf
  | cons q p ih =>
    cases t with
    | nil => exact hwf.elim
    | node n child =>
      obtain ⟨-, -, -, -, hch⟩ := hwf
      cases hd : n.divided with
      | false =>
        rw [if_neg (by simp [hd])] at hch
        rw [labelAt_node_cons, hch q, labelAt_nil] at hp
        cases hp
      | true =>
        rw [if_pos hd] at hch
        exact ih (hch q) hp

/-- A node with its children. -/
theorem wf_nodeAt (hwf : WF c b t) (hp : t.labelAt p = some n) :
    ∃ child, t.subtreeAt p = .node n child ∧ WF c (b.region p) (.node n child) := by
  have hsub := wf_subtreeAt hwf (by rw [hp]; rfl)
  have hroot : (t.subtreeAt p).root = some n := by
    rw [← labelAt_eq_root, ← labelAt_append, List.append_nil, hp]
  cases hs : t.subtreeAt p with
  | nil =>
    rw [hs] at hroot
    cases hroot
  | node n' child =>
    rw [hs] at hroot hsub
    cases hroot
    exact ⟨child, rfl, hsub⟩

theorem boundary_eq (hwf : WF c b t) (hp : t.labelAt p = some n) : n.boundary = b.region p := by
  obtain ⟨child, -, hnode⟩ := wf_nodeAt hwf hp
  exact hnode.1

/-- A divided node has its four children. -/
theorem children_present (hwf : WF c b t) (hp : t.labelAt p = some n) (hd : n.divided = true)
    (q : Quadrant) : (t.labelAt (p ++ [q])).isSome := by
  obtain ⟨child, hs, -, -, -, -, hch⟩ := wf_nodeAt hwf hp
  rw [if_pos hd] at hch
  have hq := hch q
  rw [labelAt_append, hs, labelAt_node_cons]
  cases hr : child q with
  | nil =>
    rw [hr] at hq
    exact hq.elim
  | node m grandchild => rfl

/-- A node that is not divided has none. -/
theorem children_absent (hwf : WF c b t) (hp : t.labelAt p = some n) (hd : n.divided = false)
    (q : Quadrant) : t.labelAt (p ++ [q]) = none := by
  obtain ⟨child, hs, -, -, -, -, hch⟩ := wf_nodeAt hwf hp
  rw [if_neg (by simp [hd])] at hch
  rw [labelAt_append, hs, labelAt_node_cons, hch q, labelAt_nil]

/-- What a node stores meets its boundary, so it meets those of the nodes above. -/
theorem meets_above (hb : b.Nonneg) (hwf : WF c b t) (hp : t.labelAt p = some n) {e : Storable}
    (he : e ∈ n.store) {p' : Path} {above : Node} (hpre : p' <+: p)
    (habove : t.labelAt p' = some above) : above.boundary.intersects e.rect = true := by
  obtain ⟨child, -, -, -, -, hmeet, -⟩ := wf_nodeAt hwf hp
  have hdown := hmeet e he
  obtain ⟨r, rfl⟩ := hpre
  rw [Rectangle.region_append] at hdown
  rw [boundary_eq hwf habove]
  exact Rectangle.intersects_of_region (Rectangle.nonneg_region hb p') hdown

/-- The representation invariant at the node `n` at the path `p` of a tree over `b`. -/
structure NodeInvariant (c : ℤ) (b : Rectangle) (t : Quadtree) (p : Path) (n : Node) : Prop where
  boundary : n.boundary = b.region p
  capacity : n.capacity = c
  fits : (n.store.length : ℤ) ≤ n.capacity
  meets : ∀ e ∈ n.store, ∀ p' above, p' <+: p → t.labelAt p' = some above →
    above.boundary.intersects e.rect = true
  divided : n.divided = true ↔ ∀ q, (t.labelAt (p ++ [q])).isSome
  undivided : n.divided = false ↔ ∀ q, t.labelAt (p ++ [q]) = none
  children : ∀ q m, t.labelAt (p ++ [q]) = some m → m.boundary = n.boundary.quadrant q
  quarters : ∀ child : Quadrant → Node, (∀ q, t.labelAt (p ++ [q]) = some (child q)) →
    n.boundary.Quartered fun q => (child q).boundary

theorem node_invariant (hb : b.Nonneg) (hwf : WF c b t) (hp : t.labelAt p = some n) :
    NodeInvariant c b t p n := by
  obtain ⟨child, -, hbd, hcap, hlen, -⟩ := wf_nodeAt hwf hp
  have hquadrant : ∀ q m, t.labelAt (p ++ [q]) = some m → m.boundary = n.boundary.quadrant q := by
    intro q m hm
    rw [boundary_eq hwf hm, Rectangle.region_append, ← hbd]
    rfl
  refine ⟨hbd, hcap, by omega, fun e he p' above hpre => meets_above hb hwf hp he hpre,
    ⟨children_present hwf hp, fun hsome => ?_⟩, ⟨children_absent hwf hp, fun hnone => ?_⟩,
    hquadrant, fun child hchildren => ?_⟩
  · by_contra hd
    have hnw := hsome .nw
    rw [children_absent hwf hp (Bool.eq_false_of_not_eq_true hd)] at hnw
    cases hnw
  · by_contra hd
    have hnw := children_present hwf hp (Bool.eq_true_of_not_eq_false hd) .nw
    rw [hnone] at hnw
    cases hnw
  · have hparts : (fun q => (child q).boundary) = n.boundary.quadrant :=
      funext fun q => hquadrant q (child q) (hchildren q)
    rw [hparts, hbd]
    exact Rectangle.quartered (Rectangle.nonneg_region hb p)

end

/-! ### Runs -/

/-- An operation on a tree: its clock readings and the `lastUpdates` it finds. -/
inductive TreeOp where
  | insert (clock : NodeClocks) (lastUpdates : LastUpdates) (trigger : Storable)
  | query (clock : NodeClocks) (lastUpdates : LastUpdates) (query : Storable)
  | cleanup (clock : NodeClocks) (lastUpdates : LastUpdates)

/-- The tree after one operation. -/
def TreeOp.step (t : Quadtree) : TreeOp → Option Quadtree
  | .insert clock lastUpdates trigger =>
    (Timed.insert t clock trigger lastUpdates).map fun (root, _) => root
  | .query clock lastUpdates q => (Timed.query q lastUpdates clock t []).map fun (root, _) => root
  | .cleanup clock lastUpdates => Timed.cleanup lastUpdates clock t

/-- An operation of the locator at one clock reading. -/
def Op.onTree (lastUpdates : LastUpdates) : Op → TreeOp
  | .insert now trigger => .insert (fun _ _ => now) lastUpdates trigger
  | .query now q => .query (fun _ _ => now) lastUpdates q
  | .cleanup now => .cleanup (fun _ _ => now) lastUpdates

theorem step_onTree (l : Locator) (op : Op) :
    TreeOp.step l.root (op.onTree l.lastUpdates) = (l.step op).map Locator.root := by
  cases op with
  | insert now trigger =>
    simp only [Op.onTree, TreeOp.step, Timed.insert_same, Locator.step, Locator.insert,
      Option.map_map]
    rfl
  | query now q =>
    simp only [Op.onTree, TreeOp.step, Timed.query_same, Locator.step, Locator.query, Option.map_map]
    rfl
  | cleanup now =>
    simp only [Op.onTree, TreeOp.step, Timed.cleanup_same, Locator.step, Locator.cleanup,
      Option.map_map]
    exact (congrFun Option.map_id (Quadtree.cleanup now l.lastUpdates l.root)).symm

/-- The trees of the locator are made by such operations. -/
theorem run_onTree : ∀ {ops : List Op} {l l' : Locator}, run Locator.step l ops = some l' →
    ∃ treeOps, run TreeOp.step l.root treeOps = some l'.root
  | [], l, _, h => by
    cases h
    exact ⟨[], rfl⟩
  | op :: ops, l, l', h => by
    obtain ⟨l₁, hstep, h⟩ := run_cons_eq_some.mp h
    obtain ⟨treeOps, hrun⟩ := run_onTree h
    refine ⟨op.onTree l.lastUpdates :: treeOps, run_cons_eq_some.mpr ⟨l₁.root, ?_, hrun⟩⟩
    rw [step_onTree, hstep]
    rfl

/-- No operation gets stuck, and each keeps the tree well formed. -/
theorem treeOp_step_wf {c : ℤ} {b : Rectangle} {t : Quadtree} (hc : 1 ≤ c) (hwf : WF c b t)
    (op : TreeOp) : ∃ t', TreeOp.step t op = some t' ∧ WF c b t' := by
  cases op with
  | insert clock lu trigger =>
    obtain ⟨t', lu', ok, hrun, hwf'⟩ := Timed.insert_wf hc hwf clock trigger lu
    exact ⟨t', by rw [TreeOp.step, hrun]; rfl, hwf'⟩
  | query clock lu q =>
    obtain ⟨t', hwf', hrun⟩ := Timed.query_wf q lu clock hwf
    obtain ⟨found', hrun⟩ := hrun []
    exact ⟨t', by rw [TreeOp.step, hrun]; rfl, hwf'⟩
  | cleanup clock lu => exact Timed.cleanup_wf clock hwf

/-- In every tree reachable from `NewQuadtree`, with any clock readings and any `lastUpdates`, no
    operation having dereferenced a nil child, every node meets the invariant. -/
theorem representation_invariant {b : Rectangle} (hb : b.Nonneg) {c : ℤ} (hc : 1 ≤ c)
    (ops : List TreeOp) :
    ∃ t, run TreeOp.step (newQuadtree b c) ops = some t ∧
      ∀ p n, t.labelAt p = some n → NodeInvariant c b t p n := by
  obtain ⟨t, hrun, hwf⟩ := run_progress (P := WF c b) (fun _ op h => treeOp_step_wf hc h op) ops _
    (wf_newQuadtree (by omega) b)
  exact ⟨t, hrun, fun p n hp => node_invariant hb hwf hp⟩

/-- Three entries on top of each other, one a node, and a `Cleanup` whose clock has moved on when it
    comes back to the root. -/
def lateAtRoot : List TreeOp :=
  [1, 2, 3].map (fun guid => .insert (fun p _ => 1000 + Int64.ofNat p.length) ∅
    ⟨⟨60, 60, 1, 1⟩, 1, guid, 10, false⟩) ++
  [.query (fun _ i => 1003 + Int64.ofNat i) ∅ ⟨⟨0, 0, 100, 100⟩, 2, 9, 0, true⟩,
    .cleanup (fun p _ => if p = [] then 2000 else 1005) ∅]

/-- Only the root loses its entry; the tree keeps its three levels. -/
theorem representation_invariant_lateAtRoot :
    ∃ t, run TreeOp.step (newQuadtree ⟨0, 0, 100, 100⟩ 1) lateAtRoot = some t ∧
      storeAt t [] = [] ∧ t.depth = 3 ∧ (entries t).map Storable.guid = [2, 3] ∧
      ∀ p n, t.labelAt p = some n → NodeInvariant 1 ⟨0, 0, 100, 100⟩ t p n := by
  have hb : (⟨0, 0, 100, 100⟩ : Rectangle).Nonneg := by decide +kernel
  obtain ⟨t, hrun, hall⟩ := representation_invariant hb (Int.le_refl 1) lateAtRoot
  obtain ⟨t', hrun', hroot, hdepth, hguids⟩ := exists_of_map_decide
    (o := run TreeOp.step (newQuadtree ⟨0, 0, 100, 100⟩ 1) lateAtRoot)
    (P := fun t => storeAt t [] = [] ∧ t.depth = 3 ∧ (entries t).map Storable.guid = [2, 3])
    (by decide +kernel)
  obtain rfl := Option.some.inj (hrun.symm.trans hrun')
  exact ⟨t, hrun, hroot, hdepth, hguids, hall⟩

end DistGame
