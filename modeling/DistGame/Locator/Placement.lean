import DistGame.Locator.Shape

/-! `Insert` on a well-formed tree: it ends within the recursion bound, and it either refuses,
    leaving only stale entries behind, or puts the entry in exactly one node, with expiry
    `now + ttl`, and records that expiry for the guid. -/

namespace DistGame
open QTree Quadtree

/-- The entry that `Insert` stores for a trigger: its `ttl` becomes an expiry time. -/
def Storable.stored (trigger : Storable) (now : Int64) : Storable :=
  { trigger with ttl := now + trigger.ttl }

@[simp] theorem stored_guid (trigger : Storable) (now : Int64) :
    (trigger.stored now).guid = trigger.guid := rfl

@[simp] theorem stored_ttl (trigger : Storable) (now : Int64) :
    (trigger.stored now).ttl = now + trigger.ttl := rfl

@[simp] theorem stored_isSubscription (trigger : Storable) (now : Int64) :
    (trigger.stored now).isSubscription = trigger.isSubscription := rfl

/-- `lastUpdates` after an accepted `Insert`. -/
def recorded (lu : LastUpdates) (now : Int64) (trigger : Storable) : LastUpdates :=
  lu.insert trigger.guid (now + trigger.ttl)

/-- `Insert` answered false and left the tree `t'`. -/
structure Refused (c : ℤ) (b : Rectangle) (now : Int64) (trigger : Storable) (lu : LastUpdates)
    (t t' : Quadtree) : Prop where
  wf : WF c b t'
  pruned : Pruned (fun e => stale now lu e = true) t t'
  outside : b.intersects trigger.rect = false → t' = t
  misses : trigger.rect.Nonneg → b.intersects trigger.rect = false

/-- `Insert` answered true and left the tree `t'`. -/
structure Accepted (c : ℤ) (b : Rectangle) (now : Int64) (trigger : Storable) (lu : LastUpdates)
    (t t' : Quadtree) : Prop where
  wf : WF c b t'
  meets : b.intersects trigger.rect = true
  placed : ∃ p, Placed (fun e => stale now lu e = true) (trigger.stored now) p t t'

/-- The chain of children stops at the first that accepts; those tried before it have refused. -/
theorem tryInsert_spec {ins : Quadtree → LastUpdates → Option (Quadtree × LastUpdates × Bool)}
    {lu lu' : LastUpdates} {child₀ : Quadrant → Quadtree} {No Yes : Quadrant → Quadtree → Prop}
    (hins : ∀ q, (∃ t', ins (child₀ q) lu = some (t', lu, false) ∧ No q t') ∨
      ∃ t', ins (child₀ q) lu = some (t', lu', true) ∧ Yes q t') :
    ∀ (qs : List Quadrant) (child : Quadrant → Quadtree), qs.Nodup →
      (∀ q ∈ qs, child q = child₀ q) →
      (∃ child', tryInsert ins qs child lu = some (child', lu, false) ∧
        (∀ q ∈ qs, No q (child' q)) ∧ ∀ q, q ∉ qs → child' q = child q) ∨
      ∃ child' q, tryInsert ins qs child lu = some (child', lu', true) ∧
        Yes q (child' q) ∧ ∀ q', q' ≠ q → child' q' = child q' ∨ No q' (child' q')
  | [], child, _, _ => .inl ⟨child, rfl, by simp, fun _ _ => rfl⟩
  | q :: qs, child, hnd, heq => by
    obtain ⟨hq, hnd⟩ := List.nodup_cons.mp hnd
    rcases hins q with ⟨t', hrun, hno⟩ | ⟨t', hrun, hyes⟩ <;> rw [← heq q List.mem_cons_self] at hrun
    · have hold : ∀ d, d ≠ q → Function.update child q t' d = child d := fun d hd =>
        Function.update_of_ne hd _ _
      have heq' : ∀ d ∈ qs, Function.update child q t' d = child₀ d := fun d hd => by
        rw [hold d (by rintro rfl; exact hq hd)]; exact heq d (List.mem_cons_of_mem _ hd)
      rcases tryInsert_spec hins qs _ hnd heq' with
        ⟨child', hrest, hall, hrem⟩ | ⟨child', r, hrest, hyes, hrem⟩
      · refine .inl ⟨child', by simp [tryInsert_cons, hrun, hrest], fun d hd => ?_, fun d hd => ?_⟩
        · rcases List.mem_cons.mp hd with rfl | hd
          · rw [hrem d hq, Function.update_self]; exact hno
          · exact hall d hd
        · obtain ⟨hdq, hd⟩ := not_or.mp (mt List.mem_cons.mpr hd)
          rw [hrem d hd, hold d hdq]
      · refine .inr ⟨child', r, by simp [tryInsert_cons, hrun, hrest], hyes, fun d hd => ?_⟩
        rcases hrem d hd with h | h
        · by_cases hdq : d = q
          · subst hdq; rw [Function.update_self] at h; rw [h]; exact .inr hno
          · rw [hold d hdq] at h; exact .inl h
        · exact .inr h
    · refine .inr ⟨Function.update child q t', q, by simp [tryInsert_cons, hrun], ?_, fun d hd => ?_⟩
      · rw [Function.update_self]; exact hyes
      · exact .inl (Function.update_of_ne hd _ _)

section
variable {c : ℤ} {b : Rectangle} {now : Int64} {trigger : Storable} {lu : LastUpdates}

/-- A rectangle that misses the boundary is refused at once. -/
theorem refused_outside {t : Quadtree} (hwf : WF c b t) (h : b.intersects trigger.rect = false) :
    Refused c b now trigger lu t t :=
  ⟨hwf, Pruned.refl _ t, fun _ => rfl, fun _ => h⟩

/-- A node with room takes the entry itself. -/
theorem accepted_here {n : Node} {child : Quadrant → Quadtree} (hwf : WF c b (.node n child))
    (hi : b.intersects trigger.rect = true)
    (hroom : ((prune now lu n.store).length : ℤ) < n.capacity) :
    Accepted c b now trigger lu (.node n child)
      (.node { n with store := prune now lu n.store ++ [trigger.stored now] } child) where
  wf := wf_node_append hwf (prune_sublist now lu n.store) hroom hi
  meets := hi
  placed := by
    refine ⟨[], fun p => ?_⟩
    cases p with
    | nil => exact ⟨_, drops_prune now lu n.store, rfl⟩
    | cons q p => exact ⟨_, Drops.refl _ _, by simp⟩

/-- The children a full node passes the entry to: its own, or four fresh ones. -/
def below (n : Node) (child : Quadrant → Quadtree) : Quadrant → Quadtree :=
  if n.divided then child else subdivide n

theorem wf_below {n : Node} {child : Quadrant → Quadtree} (hc : 1 ≤ c)
    (hwf : WF c b (.node n child)) (q : Quadrant) : WF c (b.quadrant q) (below n child q) := by
  obtain ⟨hbd, hcap, -, -, hch⟩ := hwf
  cases hd : n.divided with
  | true => rw [if_pos hd] at hch; simpa [below, hd] using hch q
  | false => simpa [below, hd, subdivide, hbd, hcap] using wf_newQuadtree (by omega) (b.quadrant q)

theorem storeAt_below {n : Node} {child : Quadrant → Quadtree} (hwf : WF c b (.node n child))
    (q : Quadrant) (p : Path) : storeAt (below n child q) p = storeAt (child q) p := by
  obtain ⟨-, -, -, -, hch⟩ := hwf
  cases hd : n.divided with
  | true => simp [below, hd]
  | false => rw [if_neg (by simp [hd])] at hch; simp [below, hd, subdivide, hch q]

/-- A full node stays well formed when its children are replaced by well-formed ones. -/
theorem wf_above {n : Node} {child child' : Quadrant → Quadtree} (hwf : WF c b (.node n child))
    (hch : ∀ q, WF c (b.quadrant q) (child' q)) :
    WF c b (.node { n with store := prune now lu n.store, divided := true } child') :=
  wf_node hwf rfl rfl (prune_sublist now lu n.store) (by simpa using hch)

/-- All children of a full node have refused. -/
theorem refused_below {n : Node} {child child' : Quadrant → Quadtree}
    (hwf : WF c b (.node n child)) (hi : b.intersects trigger.rect = true)
    (hno : ∀ q, Refused c (b.quadrant q) now trigger lu (below n child q) (child' q)) :
    Refused c b now trigger lu (.node n child)
      (.node { n with store := prune now lu n.store, divided := true } child') where
  wf := wf_above hwf fun q => (hno q).wf
  pruned := Pruned.node (drops_prune now lu n.store) fun q p => by
    rw [← storeAt_below hwf q p]; exact (hno q).pruned p
  outside h := by rw [hi] at h; simp at h
  misses hr := by
    obtain ⟨q, hq⟩ := Rectangle.exists_quadrant_intersects hr hi
    rw [(hno q).misses hr] at hq; simp at hq

/-- One child of a full node has accepted, and the others are untouched or have refused. -/
theorem accepted_below {n : Node} {child child' : Quadrant → Quadtree} {q : Quadrant} (hc : 1 ≤ c)
    (hwf : WF c b (.node n child)) (hi : b.intersects trigger.rect = true)
    (hyes : Accepted c (b.quadrant q) now trigger lu (below n child q) (child' q))
    (hno : ∀ q', q' ≠ q → child' q' = below n child q' ∨
      Refused c (b.quadrant q') now trigger lu (below n child q') (child' q')) :
    Accepted c b now trigger lu (.node n child)
      (.node { n with store := prune now lu n.store, divided := true } child') where
  wf := wf_above hwf fun q' => by
    by_cases hq : q' = q
    · subst hq; exact hyes.wf
    · rcases hno q' hq with h | h
      · rw [h]; exact wf_below hc hwf q'
      · exact h.wf
  meets := hi
  placed := by
    obtain ⟨p, hp⟩ := hyes.placed
    refine ⟨q :: p, fun p' => ?_⟩
    cases p' with
    | nil => exact ⟨_, drops_prune now lu n.store, by simp⟩
    | cons q' p' =>
      rw [storeAt_node_cons, storeAt_node_cons, ← storeAt_below hwf]
      by_cases hq : q' = q
      · subst hq; simpa using hp p'
      · refine ⟨storeAt (child' q') p', ?_, by simp [hq]⟩
        rcases hno q' hq with h | h
        · rw [h]; exact Drops.refl _ _
        · exact h.pruned p'

/-- A fresh child decides at once, whatever the remaining fuel. -/
theorem insertFuel_newQuadtree (hc : 1 ≤ c) (fuel : ℕ) :
    (∃ t', insertFuel now trigger (fuel + 1) (newQuadtree b c) lu = some (t', lu, false) ∧
      Refused c b now trigger lu (newQuadtree b c) t') ∨
    ∃ t', insertFuel now trigger (fuel + 1) (newQuadtree b c) lu =
        some (t', recorded lu now trigger, true) ∧
      Accepted c b now trigger lu (newQuadtree b c) t' := by
  have hwf : WF c b (newQuadtree b c) := wf_newQuadtree (by omega) b
  cases hi : b.intersects trigger.rect with
  | false => exact .inl ⟨_, by simp [insertFuel_node, newQuadtree, hi], refused_outside hwf hi⟩
  | true =>
    have hroom : ((prune now lu []).length : ℤ) < c := by simp [prune_eq]; omega
    refine .inr ⟨_, ?_, accepted_here (n := ⟨b, c, [], false⟩) hwf hi hroom⟩
    rw [newQuadtree, insertFuel_node, if_neg (by simp [hi]), if_pos hroom]
    rfl

/-- `Insert` ends on every well-formed tree, by refusing or by placing the entry in one node. -/
theorem insertFuel_spec (hc : 1 ≤ c) :
    ∀ (fuel : ℕ) {t : Quadtree} {b : Rectangle}, WF c b t → t.depth < fuel →
      (∃ t', insertFuel now trigger fuel t lu = some (t', lu, false) ∧
        Refused c b now trigger lu t t') ∨
      ∃ t', insertFuel now trigger fuel t lu = some (t', recorded lu now trigger, true) ∧
        Accepted c b now trigger lu t t'
  | 0, _, _, _, hf => absurd hf (Nat.not_lt_zero _)
  | fuel + 1, .nil, _, hwf, _ => hwf.elim
  | fuel + 1, .node n child, b, hwf, hf => by
    have hbd : n.boundary = b := hwf.1
    cases hi : b.intersects trigger.rect with
    | false => exact .inl ⟨_, by simp [insertFuel_node, hbd, hi], refused_outside hwf hi⟩
    | true =>
      by_cases hroom : ((prune now lu n.store).length : ℤ) < n.capacity
      · refine .inr ⟨_, ?_, accepted_here hwf hi hroom⟩
        rw [insertFuel_node, if_neg (by simp [hbd, hi]), if_pos hroom]
        rfl
      · -- an existing child is shallower; a fresh one needs no recursion
        have hins : ∀ q, (∃ t', insertFuel now trigger fuel (below n child q) lu =
              some (t', lu, false) ∧
              Refused c (b.quadrant q) now trigger lu (below n child q) t') ∨
            ∃ t', insertFuel now trigger fuel (below n child q) lu =
                some (t', recorded lu now trigger, true) ∧
              Accepted c (b.quadrant q) now trigger lu (below n child q) t' := by
          intro q
          have hlt := depth_child_lt n child q
          have hsub := wf_below hc hwf q
          cases hd : n.divided with
          | true =>
            rw [below, if_pos hd] at hsub ⊢
            exact insertFuel_spec hc fuel hsub (by omega)
          | false =>
            obtain ⟨f, rfl⟩ : ∃ f, fuel = f + 1 := ⟨fuel - 1, by omega⟩
            rw [below, if_neg (by simp [hd]), subdivide, hbd, hwf.2.1]
            exact insertFuel_newQuadtree hc f
        have hstep : ∀ child' lu' ok,
            tryInsert (insertFuel now trigger fuel) quadrants (below n child) lu =
              some (child', lu', ok) →
            insertFuel now trigger (fuel + 1) (.node n child) lu =
              some (.node { n with store := prune now lu n.store, divided := true } child',
                lu', ok) := by
          intro child' lu' ok h
          rw [insertFuel_node, if_neg (by simp [hbd, hi]), if_neg hroom]
          have hbelow : below n child = if n.divided then child else
            subdivide { n with store := prune now lu n.store } := rfl
          rw [hbelow] at h
          simp only [h, Option.map_some]
        rcases tryInsert_spec hins quadrants (below n child) (by decide) (fun _ _ => rfl) with
          ⟨child', hrun, hno, -⟩ | ⟨child', q, hrun, hyes, hno⟩
        · exact .inl ⟨_, hstep _ _ _ hrun,
            refused_below hwf hi fun q => hno q (mem_quadrants q)⟩
        · exact .inr ⟨_, hstep _ _ _ hrun, accepted_below hc hwf hi hyes hno⟩

/-- `Insert` ends on every well-formed tree, by refusing or by placing the entry in one node. -/
theorem insert_spec (hc : 1 ≤ c) (now : Int64) (trigger : Storable) (lu : LastUpdates)
    {t : Quadtree} (hwf : WF c b t) :
    (∃ t', t.insert now trigger lu = some (t', lu, false) ∧ Refused c b now trigger lu t t') ∨
    ∃ t', t.insert now trigger lu = some (t', recorded lu now trigger, true) ∧
      Accepted c b now trigger lu t t' :=
  insertFuel_spec hc _ hwf (Nat.lt_succ_self _)

/-- More fuel does not change a chain of attempts that has ended. -/
theorem tryInsert_mono {ins ins' : Quadtree → LastUpdates → Option (Quadtree × LastUpdates × Bool)}
    (hins : ∀ t lu r, ins t lu = some r → ins' t lu = some r) :
    ∀ (qs : List Quadrant) (child : Quadrant → Quadtree) (lu : LastUpdates)
      (r : (Quadrant → Quadtree) × LastUpdates × Bool),
      tryInsert ins qs child lu = some r → tryInsert ins' qs child lu = some r
  | [], _, _, _, h => h
  | q :: qs, child, lu, r, h => by
    simp only [tryInsert_cons, Option.bind_eq_bind, Option.bind_eq_some_iff] at h ⊢
    obtain ⟨⟨t, lu', ok⟩, hrun, h⟩ := h
    refine ⟨⟨t, lu', ok⟩, hins _ _ _ hrun, ?_⟩
    cases ok with
    | true => exact h
    | false => exact tryInsert_mono hins qs _ _ r h

/-- More fuel does not change an `Insert` that has ended. -/
theorem insertFuel_mono : ∀ (fuel : ℕ) (t : Quadtree) (lu : LastUpdates)
    (r : Quadtree × LastUpdates × Bool),
    insertFuel now trigger fuel t lu = some r → insertFuel now trigger (fuel + 1) t lu = some r
  | 0, _, _, _, h => by simp [insertFuel_zero] at h
  | _ + 1, .nil, _, _, h => by simp [insertFuel_nil] at h
  | fuel + 1, .node n child, lu, r, h => by
    rw [insertFuel_node] at h ⊢
    split at h
    · rw [if_pos ‹_›]; exact h
    · rw [if_neg ‹_›]
      dsimp only at h ⊢
      split at h
      · rw [if_pos ‹_›]; exact h
      · rw [if_neg ‹_›]
        obtain ⟨a, ha, h⟩ := Option.map_eq_some_iff.mp h
        exact Option.map_eq_some_iff.mpr
          ⟨a, tryInsert_mono (insertFuel_mono fuel) _ _ _ _ ha, h⟩

/-- Any sufficient bound gives the same `Insert`. -/
theorem insert_fuel {t : Quadtree} (hc : 1 ≤ c) (hwf : WF c b t) {fuel : ℕ} (hf : t.depth < fuel) :
    insertFuel now trigger fuel t lu = t.insert now trigger lu := by
  obtain ⟨k, rfl⟩ := Nat.exists_eq_add_of_lt hf
  have hmono : ∀ (k : ℕ) r, t.insert now trigger lu = some r →
      insertFuel now trigger (t.depth + k + 1) t lu = some r := by
    intro k r h
    induction k with
    | zero => exact h
    | succ k ih => exact insertFuel_mono _ _ _ _ ih
  rcases insert_spec hc now trigger lu hwf with
    ⟨t', h, -⟩ | ⟨t', h, -⟩ <;> rw [h, hmono k _ h]

end

end DistGame
