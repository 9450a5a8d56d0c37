import DistGame.Lib.Drops
import DistGame.Locator.Quadtree

/-! What one operation does to a well-formed quadtree. `WF` is the representation invariant: the
    boundaries are the nested quadrants of the root's, a node is divided exactly when it has its
    four children, and a store holds at most `capacity` entries, all of which meet the node's
    boundary. On a well-formed tree no operation dereferences a nil child, each operation only drops
    stale entries from the node they are in, and `Insert` adds its entry in one node. -/

namespace DistGame
open QTree Quadtree

/-- The store of the node at a path; no node, no entries. -/
def storeAt (t : Quadtree) (p : Path) : List Storable := ((t.labelAt p).map Node.store).getD []

/-- All stored entries, in the order in which `Query` visits them. -/
def entries (t : Quadtree) : List Storable := t.toList.flatMap Node.store

@[simp] theorem storeAt_nil (p : Path) : storeAt .nil p = [] := by simp [storeAt]

@[simp] theorem storeAt_node_nil (n : Node) (child : Quadrant → Quadtree) :
    storeAt (.node n child) [] = n.store := rfl

@[simp] theorem storeAt_node_cons (n : Node) (child : Quadrant → Quadtree) (q : Quadrant) (p : Path) :
    storeAt (.node n child) (q :: p) = storeAt (child q) p := rfl

theorem mem_entries_iff (t : Quadtree) (e : Storable) : e ∈ entries t ↔ ∃ p, e ∈ storeAt t p := by
  simp only [entries, List.mem_flatMap, mem_toList_iff, storeAt]
  constructor
  · rintro ⟨n, ⟨p, hp⟩, he⟩
    exact ⟨p, by simpa [hp] using he⟩
  · rintro ⟨p, he⟩
    cases hp : labelAt t p with
    | none => simp [hp] at he
    | some n => exact ⟨n, ⟨p, hp⟩, by simpa [hp] using he⟩

@[simp] theorem storeAt_newQuadtree (b : Rectangle) (c : ℤ) (p : Path) :
    storeAt (newQuadtree b c) p = [] := by
  cases p <;> simp [newQuadtree]

/-- The representation invariant of a tree with this capacity and root boundary. -/
def WF (c : ℤ) : Rectangle → Quadtree → Prop
  | _, .nil => False
  | b, .node n child =>
    n.boundary = b ∧ n.capacity = c ∧ (n.store.length : ℤ) ≤ c ∧
      (∀ e ∈ n.store, b.intersects e.rect = true) ∧
      if n.divided then ∀ q, WF c (b.quadrant q) (child q) else ∀ q, child q = .nil

theorem wf_newQuadtree {c : ℤ} (hc : 0 ≤ c) (b : Rectangle) : WF c b (newQuadtree b c) := by
  simp [WF, newQuadtree, hc]

/-- Every node's boundary lies within those of the nodes above it. -/
theorem hereditary_intersects {c : ℤ} (r : Rectangle) :
    ∀ {t : Quadtree} {b : Rectangle}, b.Nonneg → WF c b t →
      Hereditary (fun n => n.boundary.intersects r) t ∧
        ∀ n ∈ t.toList, n.boundary.intersects r = true → b.intersects r = true
  | .nil, _, _, h => h.elim
  | .node n child, b, hb, ⟨hbd, _, _, _, hch⟩ => by
    have hsub : ∀ q, Hereditary (fun n => n.boundary.intersects r) (child q) ∧
        ∀ m ∈ (child q).toList, m.boundary.intersects r = true → b.intersects r = true := by
      intro q
      cases hd : n.divided with
      | false =>
        rw [if_neg (by simp [hd])] at hch
        rw [hch q]
        exact ⟨trivial, by simp [toList]⟩
      | true =>
        rw [if_pos hd] at hch
        obtain ⟨hh, hm⟩ := hereditary_intersects r (Rectangle.nonneg_quadrant hb q) (hch q)
        exact ⟨hh, fun m hmem hi => Rectangle.intersects_of_quadrant hb q (hm m hmem hi)⟩
    refine ⟨⟨fun q m hmem hi => ?_, fun q => (hsub q).1⟩, fun m hmem hi => ?_⟩
    · show n.boundary.intersects r = true
      rw [hbd]; exact (hsub q).2 m hmem hi
    · rcases mem_toList_node.mp hmem with rfl | ⟨q, hq⟩
      · rw [← hbd]; exact hi
      · exact (hsub q).2 m hq hi

/-! ### Dropping stale entries -/

/-- `t'` is `t` with some stale entries dropped from their nodes. -/
def Pruned (dead : Storable → Prop) (t t' : Quadtree) : Prop :=
  ∀ p, Drops dead (storeAt t p) (storeAt t' p)

/-- `t'` is `t` with some stale entries dropped and `e` appended to the store at `p`. -/
def Placed (dead : Storable → Prop) (e : Storable) (p : Path) (t t' : Quadtree) : Prop :=
  ∀ p', ∃ kept, Drops dead (storeAt t p') kept ∧
    storeAt t' p' = kept ++ if p' = p then [e] else []

theorem Pruned.refl (dead : Storable → Prop) (t : Quadtree) : Pruned dead t t :=
  fun p => Drops.refl dead (storeAt t p)

/-- A node whose store and children are pruned is pruned. -/
theorem Pruned.node {dead : Storable → Prop} {n n' : Node} {child child' : Quadrant → Quadtree}
    (hs : Drops dead n.store n'.store) (hc : ∀ q, Pruned dead (child q) (child' q)) :
    Pruned dead (.node n child) (.node n' child')
  | [] => hs
  | q :: p => hc q p

theorem drops_prune (now : Int64) (lu : LastUpdates) (store : List Storable) :
    Drops (fun e => stale now lu e = true) store (prune now lu store) := by
  rw [prune_eq]
  exact Drops.filter _ store fun a _ h => by simpa using h

theorem mem_prune {now : Int64} {lu : LastUpdates} {store : List Storable} {e : Storable} :
    e ∈ prune now lu store ↔ e ∈ store ∧ stale now lu e = false := by
  simp [prune_eq]

theorem length_prune_le (now : Int64) (lu : LastUpdates) (store : List Storable) :
    (prune now lu store).length ≤ store.length :=
  (prune_sublist now lu store).length_le

/-- A node stays well formed over well-formed children when it loses entries. -/
theorem wf_node {c : ℤ} {b : Rectangle} {n n' : Node} {child child' : Quadrant → Quadtree}
    (h : WF c b (.node n child)) (hbd : n'.boundary = n.boundary) (hcap : n'.capacity = n.capacity)
    (hsub : n'.store.Sublist n.store)
    (hch : if n'.divided then ∀ q, WF c (b.quadrant q) (child' q) else ∀ q, child' q = .nil) :
    WF c b (.node n' child') := by
  obtain ⟨hbd', hcap', hlen, hmeet, -⟩ := h
  have hle := hsub.length_le
  exact ⟨hbd.trans hbd', hcap.trans hcap', by omega, fun e he => hmeet e (hsub.subset he), hch⟩

/-- Pruning the store of a node keeps the node's part of the invariant. -/
theorem wf_node_prune {c : ℤ} {b : Rectangle} {n : Node} {child child' : Quadrant → Quadtree}
    (now : Int64) (lu : LastUpdates) (h : WF c b (.node n child))
    (hch : if n.divided then ∀ q, WF c (b.quadrant q) (child' q) else ∀ q, child' q = .nil) :
    WF c b (.node { n with store := prune now lu n.store } child') :=
  wf_node h rfl rfl (prune_sublist now lu n.store) hch

/-- A node with room takes an entry that meets its boundary. -/
theorem wf_node_append {c : ℤ} {b : Rectangle} {n : Node} {child : Quadrant → Quadtree}
    {store : List Storable} {e : Storable} (h : WF c b (.node n child))
    (hsub : store.Sublist n.store) (hroom : (store.length : ℤ) < n.capacity)
    (hi : b.intersects e.rect = true) : WF c b (.node { n with store := store ++ [e] } child) := by
  obtain ⟨hbd, hcap, -, hmeet, hch⟩ := h
  refine ⟨hbd, hcap, ?_, fun e' he' => ?_, hch⟩
  · simp only [List.length_append, List.length_singleton]
    omega
  · rcases List.mem_append.mp he' with he' | he'
    · exact hmeet e' (hsub.subset he')
    · rw [List.mem_singleton.mp he']
      exact hi

/-! ### Query -/

/-- The entries `Query` appends: the live answers in the nodes it reaches. -/
def reported (now : Int64) (q : Storable) (lu : LastUpdates) (t : Quadtree) : List Storable :=
  (search (fun n => n.boundary.intersects q.rect) t).flatMap fun n =>
    (prune now lu n.store).filter (answers q)

theorem query_spec {c : ℤ} (now : Int64) (q : Storable) (lu : LastUpdates) :
    ∀ {t : Quadtree} {b : Rectangle}, WF c b t →
      ∃ t', (∀ found, query now q lu t found = some (t', found ++ reported now q lu t)) ∧
        WF c b t' ∧ Pruned (fun e => stale now lu e = true) t t'
  | .nil, _, h => h.elim
  | .node n child, b, h => by
    obtain ⟨hbd, -, -, -, hch⟩ := id h
    by_cases hi : n.boundary.intersects q.rect = true
    · cases hd : n.divided with
      | false =>
        rw [if_neg (by simp [hd])] at hch
        refine ⟨.node { n with store := prune now lu n.store } child, fun found => ?_,
          wf_node_prune now lu h (by simpa [hd] using hch),
          Pruned.node (drops_prune now lu n.store) fun q => Pruned.refl _ _⟩
        simp [query_node, reported, search, hi, hd, hch]
      | true =>
        rw [if_pos hd] at hch
        choose child' hq hwf hpr using fun d => query_spec now q lu (hch d)
        refine ⟨.node { n with store := prune now lu n.store } child', fun found => ?_,
          wf_node_prune now lu h (by rw [if_pos hd]; exact hwf),
          Pruned.node (drops_prune now lu n.store) hpr⟩
        simp [query_node, reported, search, hi, hd, hq, quad_eta, List.append_assoc]
    · refine ⟨.node n child, fun found => ?_, h, Pruned.refl _ _⟩
      simp [query_node, reported, search, hi]

/-- A node after `Query`: pruned if the query meets it. -/
def queried (now : Int64) (q : Storable) (lu : LastUpdates) (n : Node) : Node :=
  if n.boundary.intersects q.rect then { n with store := prune now lu n.store } else n

@[simp] theorem queried_boundary (now : Int64) (q : Storable) (lu : LastUpdates) (n : Node) :
    (queried now q lu n).boundary = n.boundary := by
  rw [queried]
  split <;> rfl

theorem mem_queried {now : Int64} {q e : Storable} {lu : LastUpdates} {n : Node} :
    e ∈ (queried now q lu n).store ↔
      e ∈ n.store ∧ (n.boundary.intersects q.rect = true → stale now lu e = false) := by
  rw [queried]
  split
  · rename_i hi
    simp [mem_prune, hi]
  · rename_i hi
    simp [hi]

/-- `Query` prunes the nodes that the query meets and leaves the others. -/
theorem query_tree {c : ℤ} (now : Int64) (q : Storable) (lu : LastUpdates) :
    ∀ {t t' : Quadtree} {b : Rectangle} {found found' : List Storable}, b.Nonneg → WF c b t →
      query now q lu t found = some (t', found') → t' = t.map (queried now q lu)
  | .nil, _, _, _, _, _, hwf, _ => hwf.elim
  | .node n child, t', b, found, found', hb, hwf, h => by
    obtain ⟨hbd, -, -, -, hch⟩ := id hwf
    by_cases hi : n.boundary.intersects q.rect = true
    · cases hd : n.divided with
      | false =>
        rw [if_neg (by simp [hd])] at hch
        obtain rfl : child = fun _ => .nil := funext hch
        simp only [query_node, hi, hd] at h
        cases h
        simp [QTree.map, queried, hi, hd]
      | true =>
        rw [if_pos hd] at hch
        choose child' hq _ _ using fun d => query_spec now q lu (hch d)
        have hsame : child' = fun d => (child d).map (queried now q lu) := funext fun d =>
          query_tree now q lu (Rectangle.nonneg_quadrant hb d) (hch d) (hq d [])
        have hrun : (query now q lu (.node n child) found).map Prod.fst =
            some (.node { n with store := prune now lu n.store } child') := by
          simp [query_node, hi, hd, hq, quad_eta]
        rw [h] at hrun
        obtain rfl := Option.some.inj hrun
        rw [hsame, QTree.map, queried, if_pos hi]
    · simp only [query_node, hi] at h
      cases h
      refine (map_eq_self fun m hm => if_neg fun hmeet => hi ?_).symm
      rw [hbd]
      exact (hereditary_intersects q.rect hb hwf).2 m hm hmeet

/-! ### Cleanup -/

/-- A child that `Cleanup` collapses stores nothing anywhere. -/
theorem storeAt_of_emptyLeaf {c : ℤ} {b : Rectangle} :
    ∀ {t : Quadtree}, WF c b t → emptyLeaf t = true → ∀ p, storeAt t p = []
  | .nil, h, _, _ => h.elim
  | .node n child, h, he, p => by
    simp only [emptyLeaf, Bool.and_eq_true, List.isEmpty_iff, Bool.not_eq_true'] at he
    obtain ⟨hs, hd⟩ := he
    obtain ⟨-, -, -, -, hch⟩ := h
    rw [if_neg (by simp [hd])] at hch
    cases p with
    | nil => exact hs
    | cons q p => rw [storeAt_node_cons, hch q, storeAt_nil]

section
variable {n : Node} {now : Int64} {lu : LastUpdates}

theorem cleanup_undivided (child : Quadrant → Quadtree) (hd : n.divided = false) :
    cleanup now lu (.node n child) =
      some (.node { n with store := prune now lu n.store } child) := by
  rw [cleanup_node, if_neg (by simp [hd])]

/-- What is left of a divided node once its children are cleaned. -/
theorem cleanup_divided {child child' : Quadrant → Quadtree} (hd : n.divided = true)
    (hq : ∀ q, cleanup now lu (child q) = some (child' q)) :
    cleanup now lu (.node n child) =
      some (if quadrants.all fun q => emptyLeaf (child' q) then
        .node { n with store := prune now lu n.store, divided := false } fun _ => .nil
      else .node { n with store := prune now lu n.store } child') := by
  have hall : (emptyLeaf (child' .nw) && emptyLeaf (child' .ne) && emptyLeaf (child' .sw) &&
      emptyLeaf (child' .se)) = quadrants.all fun q => emptyLeaf (child' q) := by
    simp [quadrants, Bool.and_assoc]
  simp only [cleanup_node, hd, if_true, hq, quad_eta, Option.bind_eq_bind, Option.bind_some]
  rw [hall]
  split <;> rfl

end

theorem cleanup_spec {c : ℤ} (now : Int64) (lu : LastUpdates) :
    ∀ {t : Quadtree} {b : Rectangle}, WF c b t →
      ∃ t', cleanup now lu t = some t' ∧ WF c b t' ∧ Pruned (fun e => stale now lu e = true) t t'
  | .nil, _, h => h.elim
  | .node n child, b, h => by
    obtain ⟨-, -, -, -, hch⟩ := id h
    have hdrop := drops_prune now lu n.store
    cases hd : n.divided with
    | false =>
      rw [if_neg (by simp [hd])] at hch
      exact ⟨_, cleanup_undivided child hd, wf_node_prune now lu h (by simpa [hd] using hch),
        Pruned.node hdrop fun q => Pruned.refl _ _⟩
    | true =>
      rw [if_pos hd] at hch
      choose child' hq hwf hpr using fun d => cleanup_spec now lu (hch d)
      refine ⟨_, cleanup_divided hd hq, ?_⟩
      split
      · -- the four children are dropped, and with them only stale entries
        rename_i hempty
        refine ⟨?_, Pruned.node hdrop fun d p => ?_⟩
        · exact wf_node h rfl rfl (prune_sublist now lu n.store) (by simp)
        · have he := List.all_eq_true.mp hempty d (mem_quadrants d)
          have hp := hpr d p
          rwa [storeAt_of_emptyLeaf (hwf d) he p, ← storeAt_nil p] at hp
      · exact ⟨wf_node_prune now lu h (by rw [if_pos hd]; exact hwf), Pruned.node hdrop hpr⟩

end DistGame
