import DistGame.Locator.Steps

/-! The normal form that `Cleanup` reaches in one pass: no stale entry is stored, and no node is divided
    whose four children are undivided and empty. A node decides about its children once they are
    cleaned, so a subtree collapses from the bottom up in the same pass. -/

namespace DistGame
open QTree Quadtree

/-- No divided node has four undivided children without entries. -/
def Coalesced : Quadtree → Prop
  | .nil => True
  | .node n child =>
    (n.divided = true → ∃ q, emptyLeaf (child q) = false) ∧ ∀ q, Coalesced (child q)

/-- Nothing stale is stored. -/
def AllLive (now : Int64) (lu : LastUpdates) (t : Quadtree) : Prop :=
  ∀ p, ∀ e ∈ storeAt t p, stale now lu e = false

section
variable {c : ℤ} {b : Rectangle} {now : Int64} {lu : LastUpdates}

/-- A collapsed subtree had nothing left to store. -/
theorem prune_of_emptyLeaf {t t' : Quadtree} (hwf : WF c b t') (he : emptyLeaf t' = true)
    (hstore : ∀ p, storeAt t' p = prune now lu (storeAt t p)) (p : Path) :
    prune now lu (storeAt t p) = [] := by
  rw [← hstore p]
  exact storeAt_of_emptyLeaf hwf he p

/-- One pass: every store is pruned, and the tree coalesces. -/
theorem cleanup_normal (now : Int64) (lu : LastUpdates) {t : Quadtree} {b : Rectangle}
    (h : WF c b t) : ∃ t', cleanup now lu t = some t' ∧ WF c b t' ∧ Coalesced t' ∧
      ∀ p, storeAt t' p = prune now lu (storeAt t p) := by
  induction t generalizing b with
  | nil => exact h.elim
  | node n child ih =>
    obtain ⟨t', hrun, hwf, -⟩ := cleanup_spec now lu h
    refine ⟨t', hrun, hwf, ?_⟩
    obtain ⟨-, -, -, -, hch⟩ := h
    cases hd : n.divided with
    | false =>
      rw [if_neg (by simp [hd])] at hch
      rw [cleanup_undivided child hd] at hrun
      obtain rfl := Option.some.inj hrun
      refine ⟨⟨fun hd' => absurd (hd.symm.trans hd') Bool.false_ne_true, fun q => by rw [hch q]; trivial⟩,
        fun p => ?_⟩
      cases p with
      | nil => rfl
      | cons q p => simp [hch q, prune_eq]
    | true =>
      rw [if_pos hd] at hch
      choose child' hq hwf' hco hstore using fun d => ih d (hch d)
      rw [cleanup_divided hd hq] at hrun
      obtain rfl := Option.some.inj hrun
      split
      · rename_i hempty
        refine ⟨⟨fun hd' => absurd hd' Bool.false_ne_true, fun _ => trivial⟩, fun p => ?_⟩
        cases p with
        | nil => rfl
        | cons q p =>
          have he := List.all_eq_true.mp hempty q (mem_quadrants q)
          rw [storeAt_node_cons, storeAt_node_cons, storeAt_nil,
            prune_of_emptyLeaf (hwf' q) he (hstore q)]
      · rename_i hempty
        refine ⟨⟨fun _ => ?_, hco⟩, fun p => ?_⟩
        · by_contra hnone
          refine hempty (List.all_eq_true.mpr fun q _ => ?_)
          by_contra hne
          exact hnone ⟨q, by simpa using hne⟩
        · cases p with
          | nil => rfl
          | cons q p => exact hstore q p

/-- `Cleanup` has nothing to do on a tree in normal form. -/
theorem cleanup_fixed {t : Quadtree} {b : Rectangle} (h : WF c b t) (hall : AllLive now lu t)
    (hco : Coalesced t) : cleanup now lu t = some t := by
  induction t generalizing b with
  | nil => exact h.elim
  | node n child ih =>
    obtain ⟨-, -, -, -, hch⟩ := h
    have hstore : prune now lu n.store = n.store := by
      rw [prune_eq]
      exact List.filter_eq_self.mpr fun e he => by simp [hall [] e he]
    cases hd : n.divided with
    | false => rw [cleanup_undivided child hd, hstore]
    | true =>
      rw [if_pos hd] at hch
      have hsame : ∀ q, cleanup now lu (child q) = some (child q) := fun q =>
        ih q (hch q) (fun p => hall (q :: p)) (hco.2 q)
      have hnot : ¬ (quadrants.all fun q => emptyLeaf (child q)) = true := by
        intro hempty
        obtain ⟨q, hq⟩ := hco.1 hd
        simp [List.all_eq_true.mp hempty q (mem_quadrants q)] at hq
      rw [cleanup_divided hd hsame, if_neg hnot, hstore]

/-- In normal form a tree without entries is a single node. -/
theorem eq_newQuadtree {t : Quadtree} {b : Rectangle} (h : WF c b t) (hco : Coalesced t)
    (hempty : ∀ p, storeAt t p = []) : t = newQuadtree b c := by
  induction t generalizing b with
  | nil => exact h.elim
  | node n child ih =>
    obtain ⟨hbd, hcap, -, -, hch⟩ := h
    have hstore : n.store = [] := hempty []
    cases hd : n.divided with
    | false =>
      rw [if_neg (by simp [hd])] at hch
      obtain rfl : child = fun _ => .nil := funext hch
      obtain ⟨boundary, capacity, store, divided⟩ := n
      simp only at hbd hcap hstore hd
      subst hbd hcap hstore hd
      rfl
    | true =>
      rw [if_pos hd] at hch
      obtain ⟨q, hq⟩ := hco.1 hd
      rw [ih q (hch q) (hco.2 q) fun p => hempty (q :: p)] at hq
      cases hq

/-- From every reachable tree, at one clock reading and for any recorded expiries: `Cleanup` prunes
    every store, stores nothing stale, coalesces, down to a single node if every entry is stale, and
    changes nothing when it is run again. -/
theorem cleanup_normal_form (hc : 1 ≤ c) {ops : List Op} {l : Locator}
    (hrun : run Locator.step (Locator.start b c) ops = some l) (lu : LastUpdates) (now : Int64) :
    ∃ t', ({ l with lastUpdates := lu } : Locator).cleanup now =
        some { l with root := t', lastUpdates := lu } ∧
      (∀ p, storeAt t' p = prune now lu (storeAt l.root p)) ∧ AllLive now lu t' ∧ Coalesced t' ∧
      ((∀ e ∈ entries l.root, stale now lu e = true) → t' = newQuadtree b c) ∧
      ({ l with root := t', lastUpdates := lu } : Locator).cleanup now =
        some { l with root := t', lastUpdates := lu } := by
  obtain ⟨t', hclean, hwf, hco, hstore⟩ := cleanup_normal now lu (run_wf hc hrun)
  have hall : AllLive now lu t' := by
    intro p e he
    rw [hstore p] at he
    exact (mem_prune.mp he).2
  refine ⟨t', by rw [Locator.cleanup, hclean]; rfl, hstore, hall, hco, fun hstale => ?_, ?_⟩
  · refine eq_newQuadtree hwf hco fun p => List.eq_nil_iff_forall_not_mem.mpr fun e he => ?_
    have hlive := hall p e he
    rw [hstore p] at he
    rw [hstale e ((mem_entries_iff _ e).mpr ⟨p, (mem_prune.mp he).1⟩)] at hlive
    cases hlive
  · rw [Locator.cleanup, cleanup_fixed hwf hall hco]
    rfl

end

/-- Three entries on top of each other, one a node. -/
def stacked : List Op :=
  [1, 2, 3].map fun guid => .insert 1 ⟨⟨60, 60, 1, 1⟩, 1, guid, 10, false⟩

/-- A tree of depth three collapses once its entries have expired. -/
theorem cleanup_normal_form_expired :
    ∃ l, run Locator.step (Locator.start ⟨0, 0, 100, 100⟩ 1) stacked = some l ∧
      l.root.depth = 3 ∧ ({ l with lastUpdates := ∅ } : Locator).cleanup 100 =
        some { l with root := newQuadtree ⟨0, 0, 100, 100⟩ 1, lastUpdates := ∅ } := by
  obtain ⟨l, hrun, hdepth, hstale⟩ := exists_of_map_decide
    (o := run Locator.step (Locator.start ⟨0, 0, 100, 100⟩ 1) stacked)
    (P := fun l => l.root.depth = 3 ∧ ∀ e ∈ entries l.root, stale 100 ∅ e = true) (by decide +kernel)
  obtain ⟨t', hclean, -, -, -, hempty, -⟩ := cleanup_normal_form (by decide) hrun ∅ 100
  rw [hempty hstale] at hclean
  exact ⟨l, hrun, hdepth, hclean⟩

end DistGame
