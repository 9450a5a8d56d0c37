import DistGame.Locator.Steps

/-! The stored entries of the whole tree as one list. What an operation does node by node carries
    over to it: stale entries are dropped, and an accepted `Insert` adds one entry. `Locator.logged`
    is the step together with the log of all entries accepted so far, and `insert_one_copy` is the
    complete account of one `Insert` on a reachable tree. -/

namespace DistGame
open QTree Quadtree

theorem storeAt_root (t : Quadtree) : storeAt t [] = t.root.toList.flatMap Node.store := by
  cases t with
  | nil => rfl
  | node n child => simp [root]

theorem storeAt_subtree (t : Quadtree) (q : Quadrant) (p : Path) :
    storeAt t (q :: p) = storeAt (t.subtree q) p := by
  cases t with
  | nil => simp [subtree]
  | node n child => rfl

/-- The root's entries, then those of the four subtrees. -/
theorem entries_eq (t : Quadtree) :
    entries t = storeAt t [] ++ quadrants.flatMap fun q => entries (t.subtree q) := by
  rw [entries, toList_eq, List.flatMap_append, ← storeAt_root, List.flatMap_assoc]
  rfl

/-- Dropping stale entries node by node drops them from the whole. -/
theorem Pruned.entries {dead : Storable → Prop} :
    ∀ {t t' : Quadtree}, Pruned dead t t' → Drops dead (entries t) (entries t')
  | t, .nil, h => by
    refine Drops.to_nil fun e he => ?_
    obtain ⟨p, hp⟩ := (mem_entries_iff t e).mp he
    by_contra hlive
    have := (h p).mem_of_not_dead hp hlive
    rw [storeAt_nil] at this
    exact List.not_mem_nil this
  | t, .node n child, h => by
    rw [entries_eq t, entries_eq (.node n child)]
    refine (h []).append (Drops.flatMap (fun q => Pruned.entries fun p => ?_) quadrants)
    have := h (q :: p)
    rwa [storeAt_subtree, storeAt_subtree] at this

/-- Placing an entry in one node adds it to the whole. -/
theorem Placed.entries {dead : Storable → Prop} {e : Storable} :
    ∀ {t t' : Quadtree} {p : Path}, Placed dead e p t t' →
      ∃ kept, Drops dead (entries t) kept ∧ (entries t').Perm (e :: kept)
  | t, .nil, p, h => by
    obtain ⟨kept, -, heq⟩ := h p
    simp at heq
  | t, .node n child, [], h => by
    obtain ⟨kept, hdrop, heq⟩ := h []
    have hsub : ∀ q, Pruned dead (t.subtree q) (child q) := by
      intro q p
      obtain ⟨kept', hdrop', heq'⟩ := h (q :: p)
      rw [storeAt_subtree] at hdrop'
      rw [storeAt_node_cons, if_neg (List.cons_ne_nil _ _), List.append_nil] at heq'
      rwa [heq']
    refine ⟨kept ++ quadrants.flatMap fun q => DistGame.entries (child q), ?_, ?_⟩
    · rw [entries_eq t]
      exact hdrop.append (Drops.flatMap (fun q => (hsub q).entries) quadrants)
    · rw [entries_eq, heq, if_pos rfl, List.append_assoc]
      exact List.perm_middle
  | t, .node n child, q :: p, h => by
    obtain ⟨kept₀, hdrop₀, heq₀⟩ := h []
    rw [if_neg (List.cons_ne_nil _ _).symm, List.append_nil] at heq₀
    have hq : Placed dead e p (t.subtree q) (child q) := by
      intro p'
      have := h (q :: p')
      rw [storeAt_subtree, storeAt_node_cons] at this
      simpa only [List.cons.injEq, true_and] using this
    have hother : ∀ q', q' ≠ q → Pruned dead (t.subtree q') (child q') := by
      intro q' hne p'
      obtain ⟨kept', hdrop', heq'⟩ := h (q' :: p')
      rw [storeAt_subtree] at hdrop'
      rw [storeAt_node_cons, if_neg (by simp [hne]), List.append_nil] at heq'
      rwa [heq']
    obtain ⟨kept, hdrop, hperm⟩ := Placed.entries hq
    let rest := Function.update (fun q' => DistGame.entries (child q')) q kept
    refine ⟨kept₀ ++ quadrants.flatMap rest, ?_, ?_⟩
    · rw [entries_eq t]
      refine hdrop₀.append (Drops.flatMap (fun q' => ?_) quadrants)
      by_cases hqq : q' = q
      · subst hqq; simpa [rest] using hdrop
      · simpa [rest, hqq] using (hother q' hqq).entries
    · rw [entries_eq, heq₀]
      refine ((perm_flatMap_cons ?_ ?_ quadrants nodup_quadrants (mem_quadrants q)).append_left
        kept₀).trans List.perm_middle
      · simpa [rest, subtree] using hperm
      · intro q' hne
        simp [rest, hne, subtree]

theorem Refused.mem_entries {c : ℤ} {b : Rectangle} {now : Int64} {trigger e : Storable}
    {lu : LastUpdates} {t t' : Quadtree} (h : Refused c b now trigger lu t t') (he : e ∈ entries t') :
    e ∈ entries t := h.pruned.entries.sublist.subset he

/-- After an accepted `Insert` the tree has the new entry and old ones. -/
theorem Accepted.mem_entries {c : ℤ} {b : Rectangle} {now : Int64} {trigger e : Storable}
    {lu : LastUpdates} {t t' : Quadtree} (h : Accepted c b now trigger lu t t')
    (he : e ∈ entries t') : e = trigger.stored now ∨ e ∈ entries t := by
  obtain ⟨p, hp⟩ := h.placed
  obtain ⟨kept, hdrop, hperm⟩ := hp.entries
  rcases List.mem_cons.mp (hperm.subset he) with rfl | he
  · exact .inl rfl
  · exact .inr (hdrop.sublist.subset he)

/-! ### The log of accepted entries -/

/-- A step that also logs the entry it accepts, the newest first. -/
def Locator.logged : Locator × List Storable → Op → Option (Locator × List Storable)
  | (l, log), .insert now trigger =>
    (l.insert now trigger).map fun (l, ok) => (l, if ok then trigger.stored now :: log else log)
  | (l, log), .query now q => (l.query now q []).map fun (l, _) => (l, log)
  | (l, log), .cleanup now => (l.cleanup now).map fun l => (l, log)

/-- Everything a step can do to the stored entries, the recorded expiries and the log. -/
theorem logged_cases {c : ℤ} {b : Rectangle} (hc : 1 ≤ c) {l l' : Locator}
    {log log' : List Storable} {op : Op} (hwf : WF c b l.root)
    (h : Locator.logged (l, log) op = some (l', log')) :
    WF c b l'.root ∧
      ((∃ trigger kept, op = .insert op.now trigger ∧ b.intersects trigger.rect = true ∧
          Drops (fun e => stale op.now l.lastUpdates e = true) (entries l.root) kept ∧
          (entries l'.root).Perm (trigger.stored op.now :: kept) ∧
          l'.lastUpdates = recorded l.lastUpdates op.now trigger ∧
          log' = trigger.stored op.now :: log) ∨
        (Drops (fun e => stale op.now l.lastUpdates e = true) (entries l.root) (entries l'.root) ∧
          l'.lastUpdates = l.lastUpdates ∧ log' = log)) := by
  cases op with
  | insert now trigger =>
    rw [Locator.logged] at h
    rcases locator_insert_spec hc hwf now trigger with ⟨t', hrun, hno⟩ | ⟨t', hrun, hyes⟩ <;>
      rw [hrun] at h <;> cases h
    · exact ⟨hno.wf, .inr ⟨hno.pruned.entries, rfl, rfl⟩⟩
    · obtain ⟨p, hp⟩ := hyes.placed
      obtain ⟨kept, hdrop, hperm⟩ := hp.entries
      exact ⟨hyes.wf, .inl ⟨trigger, kept, rfl, hyes.meets, hdrop, hperm, rfl, rfl⟩⟩
  | query now q =>
    obtain ⟨t', hrun, hwf', hpr⟩ := locator_query_spec hwf now q
    rw [Locator.logged, hrun] at h
    cases h
    exact ⟨hwf', .inr ⟨hpr.entries, rfl, rfl⟩⟩
  | cleanup now =>
    obtain ⟨t', hrun, hwf', hpr⟩ := locator_cleanup_spec hwf now
    rw [Locator.logged, hrun] at h
    cases h
    exact ⟨hwf', .inr ⟨hpr.entries, rfl, rfl⟩⟩

/-! ### One copy -/

/-- The nodes on the way to a path, its own included, exist and their boundaries meet `r`. -/
def Along (r : Rectangle) (t : Quadtree) (p : Path) : Prop :=
  ∀ p', p' <+: p → ∃ n, t.labelAt p' = some n ∧ n.boundary.intersects r = true

/-- A stored entry meets the boundaries of its node and of all nodes above it. -/
theorem along_of_mem {c : ℤ} {e : Storable} :
    ∀ {t : Quadtree} {b : Rectangle} {p : Path}, b.Nonneg → WF c b t → e ∈ storeAt t p →
      b.intersects e.rect = true ∧ Along e.rect t p
  | .nil, _, _, _, hwf, _ => hwf.elim
  | .node n child, b, [], _, ⟨hbd, _, _, hmeet, _⟩, he => by
    have hi := hmeet e he
    refine ⟨hi, fun p' hp' => ⟨n, ?_, by rw [hbd]; exact hi⟩⟩
    rw [List.prefix_nil.mp hp', labelAt_node_nil]
  | .node n child, b, q :: p, hb, ⟨hbd, _, _, _, hch⟩, he => by
    rw [storeAt_node_cons] at he
    cases hd : n.divided with
    | false =>
      rw [if_neg (by simp [hd])] at hch
      rw [hch q, storeAt_nil] at he
      exact absurd he List.not_mem_nil
    | true =>
      rw [if_pos hd] at hch
      obtain ⟨hq, hbelow⟩ := along_of_mem (Rectangle.nonneg_quadrant hb q) (hch q) he
      have hi := Rectangle.intersects_of_quadrant hb q hq
      refine ⟨hi, fun p' hp' => ?_⟩
      rcases List.prefix_cons_iff.mp hp' with rfl | ⟨p'', rfl, hp''⟩
      · exact ⟨n, rfl, by rw [hbd]; exact hi⟩
      · rw [labelAt_node_cons]
        exact hbelow p'' hp''

/-- An entry is not expired at the time at which it is stored. -/
theorem expired_stored (now : Int64) {trigger : Storable} (hd : 0 ≤ trigger.ttl) :
    expired now (trigger.stored now) = false := by
  have hneg : now - (now + trigger.ttl) = -trigger.ttl := by
    rw [Int64.sub_eq_add_neg, Int64.neg_add, Int64.sub_eq_add_neg, ← Int64.add_assoc,
      Int64.add_right_neg, Int64.zero_add]
  simp only [expired, stored_ttl, Bool.and_eq_false_iff, decide_eq_false_iff_not, hneg]
  refine .inr fun hpos => ?_
  have h₁ := trigger.ttl.toInt_lt
  simp only [gt_iff_lt, Int64.lt_iff_toInt_lt, Int64.le_iff_toInt_le, Int64.toInt_neg,
    Int64.toInt_zero] at *
  rw [Int.bmod_def] at hpos
  omega

/-- What `Insert` does on any reachable tree: it ends, it takes the entry exactly when its rectangle
    meets the root boundary, and then stores one copy of it. -/
theorem insert_one_copy {c : ℤ} {b : Rectangle} (hb : b.Nonneg) (hc : 1 ≤ c) {ops : List Op}
    {l : Locator} (hrun : run Locator.step (Locator.start b c) ops = some l) (lu : LastUpdates)
    (now : Int64) {trigger : Storable} (hr : trigger.rect.Nonneg) (hd : 0 ≤ trigger.ttl) :
    ∃ t' lu' ok, (∀ fuel > l.root.depth,
        insertFuel now trigger fuel l.root lu = some (t', lu', ok)) ∧
      l.root.insert now trigger lu = some (t', lu', ok) ∧
      (ok = true ↔ b.intersects trigger.rect = true) ∧
      (ok = true →
        (∃ kept, Drops (fun e => stale now lu e = true) (entries l.root) kept ∧
          (entries t').Perm (trigger.stored now :: kept)) ∧
        (∃ p, Placed (fun e => stale now lu e = true) (trigger.stored now) p l.root t' ∧
          Along trigger.rect t' p) ∧
        (∀ guid, lu'.lookup guid =
          if guid = trigger.guid then some (now + trigger.ttl) else lu.lookup guid) ∧
        stale now lu' (trigger.stored now) = false) ∧
      (ok = false → t' = l.root ∧ lu' = lu) := by
  have hwf := run_wf hc hrun
  have hfuel : ∀ {r}, l.root.insert now trigger lu = some r →
      ∀ fuel > l.root.depth, insertFuel now trigger fuel l.root lu = some r := by
    intro r h fuel hf
    rw [insert_fuel hc hwf hf, h]
  rcases insert_spec hc now trigger lu hwf with ⟨t', hins, hno⟩ | ⟨t', hins, hyes⟩
  · have hmiss := hno.misses hr
    refine ⟨t', lu, false, hfuel hins, hins, by simp [hmiss], by simp, fun _ => ?_⟩
    exact ⟨hno.outside hmiss, rfl⟩
  · refine ⟨t', recorded lu now trigger, true, hfuel hins, hins, by simp [hyes.meets], fun _ => ?_,
      by simp⟩
    obtain ⟨p, hp⟩ := hyes.placed
    obtain ⟨kept, -, heq⟩ := hp p
    have hmem : trigger.stored now ∈ storeAt t' p := by
      rw [heq, if_pos rfl]
      exact List.mem_append_right _ List.mem_cons_self
    refine ⟨hp.entries, ⟨p, hp, (along_of_mem hb hyes.wf hmem).2⟩, fun guid => ?_, ?_⟩
    · rw [recorded, GoMap.lookup_insert_ite]
    · refine stale_eq_false.mpr ⟨expired_stored now hd, ?_⟩
      rw [superseded_recorded, stored_guid, if_pos rfl, stored_ttl]
      simp

/-- A full root hands an entry that touches only its middle lines to its first child. -/
theorem insert_one_copy_below_root :
    ∃ l t' lu' p, run Locator.step (Locator.start ⟨0, 0, 100, 100⟩ 1)
        [.insert 1 ⟨⟨60, 60, 1, 1⟩, 1, 1, 50, false⟩] = some l ∧
      l.root.insert 2 ⟨⟨50, 50, 0, 0⟩, 1, 2, 50, false⟩ ∅ = some (t', lu', true) ∧
      Along ⟨50, 50, 0, 0⟩ t' p ∧ stale 2 lu' ⟨⟨50, 50, 0, 0⟩, 1, 2, 52, false⟩ = false := by
  obtain ⟨l, hrun⟩ := run_total (c := 1) (by decide) (start_wf (by decide) ⟨0, 0, 100, 100⟩)
    [.insert 1 ⟨⟨60, 60, 1, 1⟩, 1, 1, 50, false⟩]
  have hrect : Rectangle.Nonneg ⟨50, 50, 0, 0⟩ := by decide +kernel
  have hd : 0 ≤ (⟨⟨50, 50, 0, 0⟩, 1, 2, 50, false⟩ : Storable).ttl := by decide
  obtain ⟨t', lu', ok, -, hins, hiff, hone, -⟩ :=
    insert_one_copy (by decide +kernel) (by decide) hrun ∅ 2 hrect hd
  obtain rfl : ok = true := hiff.mpr (by decide +kernel)
  obtain ⟨-, ⟨p, -, halong⟩, -, hlive⟩ := hone rfl
  exact ⟨l, t', lu', p, hrun, hins, halong, hlive⟩

end DistGame
