import DistGame.Locator.Contents

/-! How large the tree gets. `Insert` divides a node only when as many entries are stored there as it
    has room for, and `Cleanup` only takes children away. So each divided node is paid for by entries
    that were accepted into it, and the tree is no larger than what has been stored, however often
    entries expire and nodes are divided again. -/

namespace DistGame
open QTree Quadtree

namespace Quadtree

/-- What has been paid for a tree: the room of every divided node, and the entries of the others. -/
def weight : Quadtree → ℕ
  | .nil => 0
  | .node n child =>
    if n.divided then n.capacity.toNat + (weight (child .nw) + weight (child .ne) +
      weight (child .sw) + weight (child .se))
    else n.store.length

/-- What has been paid for four trees. -/
def weights (child : Quadrant → Quadtree) : ℕ :=
  weight (child .nw) + weight (child .ne) + weight (child .sw) + weight (child .se)

theorem weight_node (n : Node) (child : Quadrant → Quadtree) : weight (.node n child) =
    if n.divided then n.capacity.toNat + weights child else n.store.length := rfl

theorem weights_mono {child child' : Quadrant → Quadtree}
    (h : ∀ q, weight (child' q) ≤ weight (child q)) : weights child' ≤ weights child := by
  have hnw := h .nw
  have hne := h .ne
  have hsw := h .sw
  have hse := h .se
  rw [weights, weights]
  omega

theorem weights_update (child : Quadrant → Quadtree) (q : Quadrant) (t : Quadtree) :
    weights (Function.update child q t) + weight (child q) = weights child + weight t := by
  cases q <;> simp [weights, Function.update] <;> omega

theorem weights_subdivide (n : Node) : weights (subdivide n) = 0 := rfl

section
variable {now : Int64} {trigger : Storable} {lu : LastUpdates}

/-- A chain of attempts pays for the one that succeeds. -/
theorem tryInsert_weights
    {ins : Quadtree → LastUpdates → Option (Quadtree × LastUpdates × Bool)}
    (hins : ∀ t lu t' lu' ok, ins t lu = some (t', lu', ok) → weight t' ≤ weight t + ok.toNat) :
    ∀ (qs : List Quadrant) {child child' : Quadrant → Quadtree} {lu lu' : LastUpdates} {ok : Bool},
      tryInsert ins qs child lu = some (child', lu', ok) → weights child' ≤ weights child + ok.toNat
  | [], _, _, _, _, _, h => by
    cases h
    simp
  | q :: qs, child, child', lu, lu', ok, h => by
    rw [tryInsert_cons] at h
    obtain ⟨⟨t, lu₁, ok₁⟩, hrun, h⟩ := Option.bind_eq_some_iff.mp h
    have hone := hins _ _ _ _ _ hrun
    have hupdate := weights_update child q t
    dsimp only at h
    split at h
    · rename_i hok
      cases h
      rw [hok] at hone
      omega
    · rename_i hok
      have hrest := tryInsert_weights hins qs h
      have hno : ok₁ = false := by simpa using hok
      rw [hno, Bool.toNat_false] at hone
      omega

/-- An accepted `Insert` adds at most one to what has been paid, and a refused one nothing. -/
theorem insertFuel_weight : ∀ (fuel : ℕ) {t t' : Quadtree} {lu lu' : LastUpdates} {ok : Bool},
    insertFuel now trigger fuel t lu = some (t', lu', ok) → weight t' ≤ weight t + ok.toNat
  | 0, _, _, _, _, _, h => by cases h
  | _ + 1, .nil, _, _, _, _, h => by cases h
  | fuel + 1, .node n child, t', lu, lu', ok, h => by
    have hpruned : (prune now lu n.store).length ≤ n.store.length := length_prune_le now lu n.store
    rw [insertFuel_node] at h
    split at h
    · cases h
      simp
    · dsimp only at h
      split at h
      · -- the node has room and takes the entry
        cases h
        rw [weight_node, weight_node]
        dsimp only
        rw [List.length_append, List.length_singleton, Bool.toNat_true]
        split <;> omega
      · rename_i hfull
        obtain ⟨⟨child', lu₁, ok₁⟩, hrun, heq⟩ := Option.map_eq_some_iff.mp h
        cases heq
        have hbelow := tryInsert_weights (fun _ _ _ _ _ => insertFuel_weight fuel) _ hrun
        rw [weight_node, weight_node, if_pos rfl]
        dsimp only at hbelow hfull ⊢
        split
        · rename_i hd
          rw [if_pos hd] at hbelow
          omega
        · -- a full leaf holds at least what a divided node weighs
          rename_i hd
          rw [if_neg hd, weights_subdivide] at hbelow
          omega

theorem query_weight (q : Storable) : ∀ {t t' : Quadtree} {found found' : List Storable},
    query now q lu t found = some (t', found') → weight t' ≤ weight t
  | .nil, _, _, _, h => by cases h
  | .node n child, t', found, found', h => by
    have hpruned : (prune now lu n.store).length ≤ n.store.length := length_prune_le now lu n.store
    rw [query_node] at h
    split at h
    · cases h
      exact Nat.le_refl _
    · dsimp only at h
      split at h
      · rename_i hd
        obtain ⟨⟨nw, f₁⟩, hnw, h⟩ := Option.bind_eq_some_iff.mp h
        obtain ⟨⟨ne, f₂⟩, hne, h⟩ := Option.bind_eq_some_iff.mp h
        obtain ⟨⟨sw, f₃⟩, hsw, h⟩ := Option.bind_eq_some_iff.mp h
        obtain ⟨⟨se, f₄⟩, hse, h⟩ := Option.bind_eq_some_iff.mp h
        cases h
        have h₁ := query_weight q hnw
        have h₂ := query_weight q hne
        have h₃ := query_weight q hsw
        have h₄ := query_weight q hse
        rw [weight_node, weight_node, if_pos hd, if_pos hd, weights, weights]
        simp only [quad]
        omega
      · rename_i hd
        cases h
        rw [weight_node, weight_node, if_neg hd, if_neg hd]
        exact hpruned

theorem cleanup_weight {c : ℤ} : ∀ {t t' : Quadtree} {b : Rectangle}, WF c b t →
    cleanup now lu t = some t' → weight t' ≤ weight t
  | .nil, _, _, hwf, _ => hwf.elim
  | .node n child, t', b, hwf, h => by
    obtain ⟨-, hcap, hlen, -, hch⟩ := hwf
    have hpruned : (prune now lu n.store).length ≤ n.store.length := length_prune_le now lu n.store
    cases hd : n.divided with
    | false =>
      rw [cleanup_undivided child hd] at h
      cases h
      rw [weight_node, weight_node, if_neg (by simp [hd]), if_neg (by simp [hd])]
      exact hpruned
    | true =>
      rw [if_pos hd] at hch
      choose child' hq _ _ using fun d => cleanup_spec now lu (hch d)
      have hbelow := weights_mono fun d => cleanup_weight (hch d) (hq d)
      rw [cleanup_divided hd hq] at h
      cases h
      rw [weight_node n child, if_pos hd]
      split
      · -- what is left of the node is a leaf with no more entries than it has room for
        rw [weight_node, if_neg (by simp)]
        dsimp only
        omega
      · rw [weight_node, if_pos hd]
        dsimp only
        omega

end

/-! ### Size and depth -/

/-- Every divided node weighs at least its room, and has four children. -/
theorem nodes_le_weight {c : ℤ} (hc : 0 ≤ c) : ∀ {t : Quadtree} {b : Rectangle}, WF c b t →
    c * t.toList.length ≤ c + 4 * t.weight
  | .nil, _, hwf => hwf.elim
  | .node n child, b, hwf => by
    obtain ⟨-, hcap, -, -, hch⟩ := hwf
    rw [weight_node]
    split
    · rename_i hd
      rw [if_pos hd] at hch
      have hnw := nodes_le_weight hc (hch .nw)
      have hne := nodes_le_weight hc (hch .ne)
      have hsw := nodes_le_weight hc (hch .sw)
      have hse := nodes_le_weight hc (hch .se)
      have hroom : (n.capacity.toNat : ℤ) = c := by omega
      simp only [toList, List.length_cons, List.length_append, weights]
      push_cast
      rw [hroom]
      linarith
    · rename_i hd
      rw [if_neg hd] at hch
      simp [toList, hch]

/-- So does every level but the last. -/
theorem depth_le_weight {c : ℤ} (hc : 0 ≤ c) : ∀ {t : Quadtree} {b : Rectangle}, WF c b t →
    c * t.depth ≤ c + t.weight
  | .nil, _, hwf => hwf.elim
  | .node n child, b, hwf => by
    obtain ⟨-, hcap, -, -, hch⟩ := hwf
    rw [weight_node]
    split
    · rename_i hd
      rw [if_pos hd] at hch
      have hroom : (n.capacity.toNat : ℤ) = c := by omega
      obtain ⟨q, hq⟩ := exists_depth_child n child
      have hdeep := depth_le_weight hc (hch q)
      have hpart : (weight (child q) : ℤ) ≤ weights child := by
        cases q <;> simp only [weights] <;> omega
      rw [hq]
      push_cast
      rw [hroom]
      linarith
    · rename_i hd
      rw [if_neg hd] at hch
      simp [depth, hch]

end Quadtree

/-! ### Runs -/

section
variable {c : ℤ} {b : Rectangle} {l l' : Locator} {log log' : List Storable}

/-- What has been paid for the tree is at most the number of accepted entries. -/
theorem logged_weight {op : Op} (hwf : WF c b l.root) (hpaid : l.root.weight ≤ log.length)
    (h : Locator.logged (l, log) op = some (l', log')) : l'.root.weight ≤ log'.length := by
  cases op with
  | insert now trigger =>
    obtain ⟨⟨l₁, ok⟩, hins, heq⟩ := Option.map_eq_some_iff.mp h
    obtain ⟨⟨t', lu', ok'⟩, hrun, heq'⟩ := Option.map_eq_some_iff.mp hins
    cases heq
    cases heq'
    have hone := insertFuel_weight _ hrun
    dsimp only
    split
    · rename_i hok
      rw [hok, Bool.toNat_true] at hone
      rw [List.length_cons]
      omega
    · rename_i hok
      have hno : ok = false := by simpa using hok
      rw [hno, Bool.toNat_false] at hone
      omega
  | query now q =>
    obtain ⟨⟨l₁, found⟩, hquery, heq⟩ := Option.map_eq_some_iff.mp h
    obtain ⟨⟨t', found'⟩, hrun, heq'⟩ := Option.map_eq_some_iff.mp hquery
    cases heq
    cases heq'
    exact (query_weight q hrun).trans hpaid
  | cleanup now =>
    obtain ⟨l₁, hclean, heq⟩ := Option.map_eq_some_iff.mp h
    obtain ⟨t', hrun, heq'⟩ := Option.map_eq_some_iff.mp hclean
    cases heq
    cases heq'
    exact (cleanup_weight hwf hrun).trans hpaid

/-- In every run from the empty tree, the nodes below the root cost a quarter of the capacity each and
    the levels below it the whole, paid for by the entries that were accepted. -/
theorem tree_growth (hc : 1 ≤ c) {ops : List Op}
    (hrun : run Locator.logged (Locator.start b c, []) ops = some (l, log)) :
    c * (l.root.toList.length - 1) ≤ 4 * log.length ∧ c * (l.root.depth - 1) ≤ log.length := by
  have hinv := run_preserves (P := fun s : Locator × List Storable =>
      WF c b s.1.root ∧ s.1.root.weight ≤ s.2.length)
    (fun s op s' h hstep =>
      ⟨(logged_cases hc h.1 hstep).1, logged_weight h.1 h.2 hstep⟩)
    ⟨start_wf hc b, Nat.le_refl _⟩ hrun
  obtain ⟨hwf, hpaid⟩ := hinv
  have hpaid' : (l.root.weight : ℤ) ≤ log.length := by exact_mod_cast hpaid
  have hnodes := nodes_le_weight (by omega) hwf
  have hdepth := depth_le_weight (by omega) hwf
  rw [mul_sub, mul_sub, mul_one]
  exact ⟨by linarith, by linarith⟩

end

/-- Five entries in the same corner. -/
def fiveCorner : List Op :=
  (List.replicate 5 (⟨⟨1, 1, 2, 2⟩, 1, 7, 1000, false⟩ : Storable)).mapIdx fun i e =>
    .insert 1 { e with guid := UInt32.ofNat i }

/-- Five entries pay for the division of a node with room for four. -/
theorem tree_growth_fiveCorner : ∃ l log,
    run Locator.logged (Locator.start ⟨0, 0, 100, 100⟩ 4, []) fiveCorner = some (l, log) ∧
      log.length = 5 ∧ l.root.toList.length = 5 ∧ l.root.depth = 2 ∧
      4 * ((l.root.toList.length : ℤ) - 1) ≤ 4 * log.length := by
  obtain ⟨⟨l, log⟩, hrun, hlog, hnodes, hdepth⟩ := exists_of_map_decide
    (o := run Locator.logged (Locator.start ⟨0, 0, 100, 100⟩ 4, []) fiveCorner)
    (P := fun s => s.2.length = 5 ∧ s.1.root.toList.length = 5 ∧ s.1.root.depth = 2)
    (by decide +kernel)
  exact ⟨l, log, hrun, hlog, hnodes, hdepth, (tree_growth (by decide) hrun).1⟩

end DistGame
