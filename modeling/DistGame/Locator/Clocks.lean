import DistGame.Locator.Steps

/-! The quadtree operations with clock readings of their own end on every well-formed tree and leave a
    well-formed tree, whatever the readings are. -/

namespace DistGame
open QTree Quadtree

namespace Quadtree.Timed

/-! ### One clock reading -/

section
variable (now : Int64) (lu : LastUpdates)

theorem insert_same (t : Quadtree) (trigger : Storable) :
    insert t (fun _ _ => now) trigger lu = Quadtree.insert t now trigger lu := rfl

theorem cleanup_same (t : Quadtree) :
    cleanup lu (fun _ _ => now) t = Quadtree.cleanup now lu t := rfl

theorem query_same (q : Storable) (t : Quadtree) (found : List Storable) :
    query q lu (fun _ _ => now) t found = Quadtree.query now q lu t found := rfl

end

/-! ### What the operations preserve -/

section
variable {c : ℤ} {b : Rectangle} {clock : NodeClocks} {lu : LastUpdates} {trigger : Storable}

/-- The chain of children, when an attempt on a child with `P` leaves it with `Q`. -/
theorem tryInsert_spec
    {ins : Quadrant → Quadtree → LastUpdates → Option (Quadtree × LastUpdates × Bool)}
    {P Q : Quadrant → Quadtree → Prop} (hPQ : ∀ q t, P q t → Q q t)
    (hins : ∀ q t lu, P q t → ∃ t' lu' ok, ins q t lu = some (t', lu', ok) ∧ Q q t') :
    ∀ (qs : List Quadrant) (child : Quadrant → Quadtree) (lu : LastUpdates), qs.Nodup →
      (∀ q, if q ∈ qs then P q (child q) else Q q (child q)) →
      ∃ child' lu' ok, tryInsert ins qs child lu = some (child', lu', ok) ∧ ∀ q, Q q (child' q)
  | [], child, lu, _, h => ⟨child, lu, false, rfl, fun q => by simpa using h q⟩
  | q :: qs, child, lu, hnd, h => by
    obtain ⟨hq, hnd⟩ := List.nodup_cons.mp hnd
    obtain ⟨t', lu', ok, hrun, ht'⟩ := hins q (child q) lu (by simpa using h q)
    have hrest : ∀ d, if d ∈ qs then P d (Function.update child q t' d)
        else Q d (Function.update child q t' d) := by
      intro d
      by_cases hd : d = q
      · subst hd
        rw [if_neg hq, Function.update_self]
        exact ht'
      · rw [Function.update_of_ne hd]
        simpa [hd] using h d
    rw [tryInsert, hrun]
    cases ok with
    | true =>
      refine ⟨_, lu', true, rfl, fun d => ?_⟩
      have hd := hrest d
      split at hd
      · exact hPQ d _ hd
      · exact hd
    | false => exact tryInsert_spec hPQ hins qs _ lu' hnd hrest

/-- The fuel lasts: it exceeds the depth, or the tree is fresh. -/
def Lasts (c : ℤ) (b : Rectangle) (fuel : ℕ) (t : Quadtree) : Prop :=
  t.depth < fuel ∨ 0 < fuel ∧ t = newQuadtree b c

/-- It lasts for the children of a node that is shallower than it: an existing child is shallower still,
    and a fresh one needs no recursion. -/
theorem lasts_below {n : Node} {child : Quadrant → Quadtree} {fuel : ℕ} (hwf : WF c b (.node n child))
    (hdeep : (QTree.node n child).depth < fuel + 1) (q : Quadrant) :
    Lasts c (b.quadrant q) fuel (below n child q) := by
  have hlt := depth_child_lt n child q
  cases hd : n.divided with
  | true =>
    rw [below, if_pos hd]
    exact .inl (by omega)
  | false =>
    rw [below, if_neg (by simp [hd]), subdivide, hwf.1, hwf.2.1]
    exact .inr ⟨by omega, rfl⟩

/-- `Insert` ends on every well-formed tree for which its fuel lasts. -/
theorem insertFuel_wf (hc : 1 ≤ c) : ∀ (fuel : ℕ) {clock : NodeClocks} {t : Quadtree} {b : Rectangle}
    {lu : LastUpdates}, WF c b t → Lasts c b fuel t →
      ∃ t' lu' ok, insertFuel trigger fuel clock t lu = some (t', lu', ok) ∧ WF c b t'
  | 0, _, _, _, _, _, hf => by
    rcases hf with hf | ⟨hf, -⟩ <;> exact absurd hf (Nat.not_lt_zero _)
  | _ + 1, _, .nil, _, _, hwf, _ => hwf.elim
  | fuel + 1, clock, .node n child, b, lu, hwf, hf => by
    have hsub := prune_sublist (clock []) lu n.store
    rw [insertFuel]
    cases hi : n.boundary.intersects trigger.rect with
    | false => exact ⟨_, _, _, rfl, hwf⟩
    | true =>
      simp only [Bool.not_true, Bool.false_eq_true, if_false]
      by_cases hroom : ((prune (clock []) lu n.store).length : ℤ) < n.capacity
      · rw [if_pos hroom]
        exact ⟨_, _, _, rfl, wf_node_append hwf hsub hroom (hwf.1 ▸ hi)⟩
      · rw [if_neg hroom]
        -- a tree without room is not fresh
        have hdeep : (QTree.node n child).depth < fuel + 1 := by
          rcases hf with hf | ⟨-, hfresh⟩
          · exact hf
          · cases hfresh
            simp [prune] at hroom
            omega
        have hchild : ∀ q, if q ∈ quadrants then
              WF c (b.quadrant q) (below n child q) ∧ Lasts c (b.quadrant q) fuel (below n child q)
            else WF c (b.quadrant q) (below n child q) := by
          intro q
          rw [if_pos (mem_quadrants q)]
          exact ⟨wf_below hc hwf q, lasts_below hwf hdeep q⟩
        have hins : ∀ q t lu, WF c (b.quadrant q) t ∧ Lasts c (b.quadrant q) fuel t →
            ∃ t' lu' ok, insertFuel trigger fuel (clock.below q) t lu = some (t', lu', ok) ∧
              WF c (b.quadrant q) t' := fun q t lu h => insertFuel_wf hc fuel h.1 h.2
        obtain ⟨child', lu', ok, hrun, hwf'⟩ := tryInsert_spec (fun q t h => h.1) hins quadrants
          (below n child) lu nodup_quadrants hchild
        have hbelow : below n child = if n.divided then child else
          subdivide { n with store := prune (clock []) lu n.store } := rfl
        rw [hbelow] at hrun
        rw [hrun]
        exact ⟨_, _, _, rfl, wf_node hwf rfl rfl hsub (by simpa using hwf')⟩

theorem insert_wf (hc : 1 ≤ c) {t : Quadtree} (hwf : WF c b t) (clock : NodeClocks)
    (trigger : Storable) (lu : LastUpdates) :
    ∃ t' lu' ok, insert t clock trigger lu = some (t', lu', ok) ∧ WF c b t' :=
  insertFuel_wf hc _ hwf (.inl (Nat.lt_succ_self _))

theorem cleanup_wf : ∀ {t : Quadtree} {b : Rectangle} (clock : NodeClocks), WF c b t →
    ∃ t', cleanup lu clock t = some t' ∧ WF c b t'
  | .nil, _, _, hwf => hwf.elim
  | .node n child, b, clock, hwf => by
    obtain ⟨-, -, -, -, hch⟩ := id hwf
    have hsub := prune_sublist (clock []) lu n.store
    rw [cleanup]
    cases hd : n.divided with
    | false => exact ⟨_, rfl, wf_node hwf rfl rfl hsub (by simpa [hd] using hch)⟩
    | true =>
      rw [if_pos hd] at hch
      choose child' hq hwf' using fun q => cleanup_wf (clock.below q) (hch q)
      simp only [if_true, hq, Option.bind_eq_bind, Option.bind_some, quad_eta]
      split
      · exact ⟨_, rfl, wf_node hwf rfl rfl hsub (by simp)⟩
      · exact ⟨_, rfl, wf_node hwf rfl rfl hsub (by simpa [hd] using hwf')⟩

theorem query_wf (q : Storable) (lu : LastUpdates) :
    ∀ {t : Quadtree} {b : Rectangle} (clock : NodeClocks), WF c b t →
      ∃ t', WF c b t' ∧ ∀ found, ∃ found', query q lu clock t found = some (t', found')
  | .nil, _, _, hwf => hwf.elim
  | .node n child, b, clock, hwf => by
    obtain ⟨-, -, -, -, hch⟩ := id hwf
    have hsub := prune_sublist (clock []) lu n.store
    cases hi : n.boundary.intersects q.rect with
    | false => exact ⟨_, hwf, fun found => ⟨found, by simp [query, hi]⟩⟩
    | true =>
      cases hd : n.divided with
      | false =>
        refine ⟨.node { n with store := prune (clock []) lu n.store } child,
          wf_node hwf rfl rfl hsub (by simpa [hd] using hch), fun found => ?_⟩
        simp [query, hi, hd]
      | true =>
        rw [if_pos hd] at hch
        choose child' hwf' hrun using fun d => query_wf q lu (clock.below d) (hch d)
        choose found' hq using hrun
        refine ⟨.node { n with store := prune (clock []) lu n.store } child',
          wf_node hwf rfl rfl hsub (by simpa [hd] using hwf'), fun found => ?_⟩
        simp [query, hi, hd, hq, quad_eta]

end

end Quadtree.Timed

end DistGame
