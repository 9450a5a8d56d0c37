import DistGame.Locator.Steps

/-! What `Query` finds. An entry is stored in the first child that meets it, while `Query` skips
    every subtree whose boundary misses the query, so an entry that reaches over the edge of its
    node is not found by a query that meets only the part outside. `Query` is complete exactly when
    no live answer is stored in such a node. -/

namespace DistGame
open QTree Quadtree

/-- The live entries of the tree that answer a query, wherever they are stored. -/
def answersIn (now : Int64) (q : Storable) (lu : LastUpdates) (t : Quadtree) : List Storable :=
  (entries t).filter fun e => !stale now lu e && answers q e

theorem answersIn_eq (now : Int64) (q : Storable) (lu : LastUpdates) (t : Quadtree) :
    answersIn now q lu t = t.toList.flatMap fun n => (prune now lu n.store).filter (answers q) := by
  rw [answersIn, entries, List.filter_flatMap]
  refine List.flatMap_congr fun n _ => ?_
  rw [prune_eq, List.filter_filter]
  exact List.filter_congr fun e _ => Bool.and_comm _ _

/-- `Query` reports only live answers of the tree, each stored copy at most once. -/
theorem reported_sublist (now : Int64) (q : Storable) (lu : LastUpdates) (t : Quadtree) :
    (reported now q lu t).Sublist (answersIn now q lu t) := by
  rw [answersIn_eq, reported]
  exact (search_sublist _ t).flatMap _

/-- A live answer is reported when its node's boundary meets the query. -/
theorem mem_reported {c : ℤ} {b : Rectangle} (hb : b.Nonneg) {t : Quadtree} (hwf : WF c b t)
    {now : Int64} {q : Storable} {lu : LastUpdates} {p : Path} {n : Node} {e : Storable}
    (hn : t.labelAt p = some n) (he : e ∈ n.store) (hlive : stale now lu e = false)
    (hans : answers q e = true) (hmeet : n.boundary.intersects q.rect = true) :
    e ∈ reported now q lu t := by
  rw [reported, search_eq_filter (hereditary_intersects q.rect hb hwf).1]
  have hmem : n ∈ t.toList := (mem_toList_iff t).mpr ⟨p, hn⟩
  exact List.mem_flatMap.mpr ⟨n, List.mem_filter.mpr ⟨hmem, hmeet⟩,
    List.mem_filter.mpr ⟨mem_prune.mpr ⟨he, hlive⟩, hans⟩⟩

/-- What is reported is a live answer in a node whose boundary meets the query. -/
theorem of_mem_reported {t : Quadtree} {now : Int64} {q e : Storable} {lu : LastUpdates}
    (h : e ∈ reported now q lu t) : ∃ n ∈ t.toList, n.boundary.intersects q.rect = true ∧
      e ∈ n.store ∧ stale now lu e = false ∧ answers q e = true := by
  obtain ⟨n, hn, he⟩ := List.mem_flatMap.mp h
  obtain ⟨hin, hans⟩ := List.mem_filter.mp he
  obtain ⟨hin, hlive⟩ := mem_prune.mp hin
  exact ⟨n, (search_sublist _ _).subset hn,
    of_mem_search (p := fun n : Node => n.boundary.intersects q.rect) hn, hin, hlive, hans⟩

/-- In every reachable tree, `Query` appends every live answer exactly when each live answer is
    stored in a node whose boundary meets the query rectangle. -/
theorem query_complete_iff {c : ℤ} {b : Rectangle} (hb : b.Nonneg) (hc : 1 ≤ c) {ops : List Op}
    {l : Locator} (hrun : run Locator.step (Locator.start b c) ops = some l) (now : Int64)
    (q : Storable) (found : List Storable) :
    ∃ root' appended, query now q l.lastUpdates l.root found = some (root', found ++ appended) ∧
      ((answersIn now q l.lastUpdates l.root).Subperm appended ↔
        ∀ n ∈ l.root.toList, ∀ e ∈ n.store, stale now l.lastUpdates e = false →
          answers q e = true → n.boundary.intersects q.rect = true) := by
  have hwf := run_wf hc hrun
  obtain ⟨root', hquery, -, -⟩ := query_spec now q l.lastUpdates hwf
  refine ⟨root', reported now q l.lastUpdates l.root, hquery found, ?_⟩
  rw [answersIn_eq, reported, search_complete_iff (hereditary_intersects q.rect hb hwf).1]
  refine forall₂_congr fun n _ => ?_
  simp only [ne_eq, List.filter_eq_nil_iff, mem_prune, not_forall, not_not]
  constructor
  · intro h e he hlive hans
    exact h ⟨e, ⟨he, hlive⟩, hans⟩
  · rintro h ⟨e, ⟨he, hlive⟩, hans⟩
    exact h e he hlive hans

/-! ### An entry that reaches over the edge of its node -/

/-- The root boundary of `MakeLocatorServer`. -/
def world : Rectangle := ⟨0, 0, 100, 100⟩

/-- A publication of server 1 with a TTL of one second. -/
def publication (guid : UInt32) (rect : Rectangle) : Storable := ⟨rect, 1, guid, 1000, false⟩

/-- Four publications fill the root; the fifth spans the vertical middle line at 50. -/
def fiveInserts : List Op :=
  ([1, 2, 3, 4].map fun guid => .insert 1 (publication guid ⟨60, 60, 1, 1⟩)) ++
    [.insert 1 (publication 5 ⟨45, 10, 10, 5⟩)]

/-- A subscription of server 2 just right of the middle line. -/
def rightOfMiddle : Storable := ⟨⟨52, 11, 2, 2⟩, 2, 9, 1000, true⟩

/-- The fifth publication is live and answers the query, and the query meets the root boundary, but
    the entry is stored in the north-west child, which the query misses: nothing is reported. -/
theorem query_misses_entry :
    ∃ l, run Locator.step (Locator.start world 4) fiveInserts = some l ∧
      world.intersects rightOfMiddle.rect = true ∧
      (publication 5 ⟨45, 10, 10, 5⟩).stored 1 ∈ answersIn 2 rightOfMiddle l.lastUpdates l.root ∧
      (query 2 rightOfMiddle l.lastUpdates l.root []).map Prod.snd = some [] :=
  exists_of_map_decide (by decide +kernel)

/-- The equivalence at that input. -/
theorem query_complete_iff_fiveInserts :
    ∃ l, run Locator.step (Locator.start world 4) fiveInserts = some l ∧
      ∃ root' appended,
        query 2 rightOfMiddle l.lastUpdates l.root [] = some (root', [] ++ appended) ∧
        ((answersIn 2 rightOfMiddle l.lastUpdates l.root).Subperm appended ↔
          ∀ n ∈ l.root.toList, ∀ e ∈ n.store, stale 2 l.lastUpdates e = false →
            answers rightOfMiddle e = true → n.boundary.intersects rightOfMiddle.rect = true) := by
  obtain ⟨l, hrun⟩ := run_total (c := 4) (by decide) (start_wf (by decide) world) fiveInserts
  exact ⟨l, hrun, query_complete_iff (by decide +kernel) (by decide) hrun 2 rightOfMiddle []⟩

end DistGame
