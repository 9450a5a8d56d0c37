import DistGame.Locator.Contents
import DistGame.Locator.Lifetime

/-! Pruning cannot be observed. `Cleanup` and `Query` remove stale entries, free room and collapse
    subtrees, but `Insert` prunes every node before it looks for room there, and the other
    operations skip what is stale. So a run answers its operations as it would without any further
    `Cleanup` or `Query` in between: the two trees hold the same entries in every node, up to stale
    ones, and what is stale once stays stale as long as the expiries of a guid do not go back. -/

namespace DistGame
open QTree Quadtree

/-- The same entries in every node, stale ones aside. A missing node is like one whose entries are
    all stale. -/
def Alike (now : Int64) (lu : LastUpdates) (t₁ t₂ : Quadtree) : Prop :=
  ∀ p, prune now lu (storeAt t₁ p) = prune now lu (storeAt t₂ p)

section
variable {c : ℤ} {b : Rectangle} {now : Int64} {lu : LastUpdates} {t₁ t₂ : Quadtree}

theorem Alike.node {n₁ n₂ : Node} {child₁ child₂ : Quadrant → Quadtree}
    (hs : prune now lu n₁.store = prune now lu n₂.store)
    (hc : ∀ q, Alike now lu (child₁ q) (child₂ q)) :
    Alike now lu (.node n₁ child₁) (.node n₂ child₂)
  | [] => hs
  | q :: p => hc q p

/-- Dropping stale entries on one side changes nothing. -/
theorem alike_of_pruned (h : Pruned (fun e => stale now lu e = true) t₁ t₂) : Alike now lu t₁ t₂ := by
  intro p
  rw [prune_eq, prune_eq]
  exact (h p).filter_eq

/-! ### The operations on two like trees -/

theorem reported_eq_nil (q : Storable) {t : Quadtree}
    (h : ∀ p, (prune now lu (storeAt t p)).filter (answers q) = []) : reported now q lu t = [] := by
  refine List.flatMap_eq_nil_iff.mpr fun n hn => ?_
  obtain ⟨p, hp⟩ := (mem_toList_iff t).mp ((search_sublist _ t).subset hn)
  have := h p
  rwa [storeAt, hp] at this

theorem reported_node (q : Storable) (n : Node) (child : Quadrant → Quadtree) :
    reported now q lu (.node n child) =
      if n.boundary.intersects q.rect then
        (prune now lu n.store).filter (answers q) ++
          quadrants.flatMap fun d => reported now q lu (child d)
      else [] := by
  rw [reported, search]
  split
  · simp [reported, quadrants]
  · rfl

/-- `Query` reports the same entries in the same order when the nodes have the same live answers,
    even for other recorded expiries. -/
theorem reported_congr (q : Storable) {lu' : LastUpdates} :
    ∀ {t₁ t₂ : Quadtree} {b : Rectangle}, WF c b t₁ → WF c b t₂ →
      (∀ p, (prune now lu (storeAt t₁ p)).filter (answers q) =
        (prune now lu' (storeAt t₂ p)).filter (answers q)) →
      reported now q lu t₁ = reported now q lu' t₂
  | .nil, _, _, h, _, _ => h.elim
  | .node _ _, .nil, _, _, h, _ => h.elim
  | .node n₁ child₁, .node n₂ child₂, b, h₁, h₂, halike => by
    obtain ⟨hbd₁, -, -, -, hch₁⟩ := h₁
    obtain ⟨hbd₂, -, -, -, hch₂⟩ := h₂
    have hsub : ∀ d, reported now q lu (child₁ d) = reported now q lu' (child₂ d) := by
      intro d
      have hd : ∀ p, (prune now lu (storeAt (child₁ d) p)).filter (answers q) =
          (prune now lu' (storeAt (child₂ d) p)).filter (answers q) := fun p => halike (d :: p)
      -- a side without children is like one whose children hold no live answer
      cases hd₁ : n₁.divided with
      | false =>
        rw [if_neg (by simp [hd₁])] at hch₁
        rw [hch₁ d] at hd ⊢
        rw [reported_eq_nil q (t := child₂ d) fun p => by rw [← hd p, storeAt_nil]; rfl]
        rfl
      | true =>
        rw [if_pos hd₁] at hch₁
        cases hd₂ : n₂.divided with
        | false =>
          rw [if_neg (by simp [hd₂])] at hch₂
          rw [hch₂ d] at hd ⊢
          rw [reported_eq_nil q (t := child₁ d) fun p => by rw [hd p, storeAt_nil]; rfl]
          rfl
        | true =>
          rw [if_pos hd₂] at hch₂
          exact reported_congr q (hch₁ d) (hch₂ d) hd
    rw [reported_node, reported_node, hbd₁, hbd₂, show (prune now lu n₁.store).filter (answers q) =
      (prune now lu' n₂.store).filter (answers q) from halike []]
    simp only [hsub]

variable {trigger : Storable}

/-- Two chains of attempts on like children stop at the same child. -/
theorem tryInsert_alike
    {ins₁ ins₂ : Quadtree → LastUpdates → Option (Quadtree × LastUpdates × Bool)}
    {old₁ old₂ : Quadrant → Quadtree}
    (hins : ∀ q t₁ t₂ lu₁ lu₂ ok₁ ok₂, ins₁ (old₁ q) lu = some (t₁, lu₁, ok₁) →
      ins₂ (old₂ q) lu = some (t₂, lu₂, ok₂) →
      lu₁ = lu₂ ∧ ok₁ = ok₂ ∧ (ok₁ = false → lu₁ = lu) ∧ Alike now lu t₁ t₂) :
    ∀ (qs : List Quadrant) {child₁ child₂ child₁' child₂' : Quadrant → Quadtree}
      {lu₁ lu₂ : LastUpdates} {ok₁ ok₂ : Bool}, qs.Nodup →
      (∀ q ∈ qs, child₁ q = old₁ q ∧ child₂ q = old₂ q) →
      (∀ q, Alike now lu (child₁ q) (child₂ q)) →
      tryInsert ins₁ qs child₁ lu = some (child₁', lu₁, ok₁) →
      tryInsert ins₂ qs child₂ lu = some (child₂', lu₂, ok₂) →
      lu₁ = lu₂ ∧ ok₁ = ok₂ ∧ (ok₁ = false → lu₁ = lu) ∧
        ∀ q, Alike now lu (child₁' q) (child₂' q)
  | [], _, _, _, _, _, _, _, _, _, _, halike, h₁, h₂ => by
    cases h₁
    cases h₂
    exact ⟨rfl, rfl, fun _ => rfl, halike⟩
  | q :: qs, child₁, child₂, _, _, _, _, _, _, hnd, hold, halike, h₁, h₂ => by
    obtain ⟨hq, hnd⟩ := List.nodup_cons.mp hnd
    obtain ⟨hold₁, hold₂⟩ := hold q List.mem_cons_self
    simp only [tryInsert_cons, Option.bind_eq_bind, Option.bind_eq_some_iff] at h₁ h₂
    obtain ⟨⟨t₁, lu₁', ok₁'⟩, hrun₁, h₁⟩ := h₁
    obtain ⟨⟨t₂, lu₂', ok₂'⟩, hrun₂, h₂⟩ := h₂
    rw [hold₁] at hrun₁
    rw [hold₂] at hrun₂
    obtain ⟨rfl, rfl, hsame, ht⟩ := hins q _ _ _ _ _ _ hrun₁ hrun₂
    have hnew : ∀ d, Alike now lu (Function.update child₁ q t₁ d) (Function.update child₂ q t₂ d) := by
      intro d
      by_cases hd : d = q
      · subst hd; rw [Function.update_self, Function.update_self]; exact ht
      · rw [Function.update_of_ne hd, Function.update_of_ne hd]; exact halike d
    cases ok₁' with
    | true =>
      cases h₁
      cases h₂
      exact ⟨rfl, rfl, by simp, hnew⟩
    | false =>
      rw [hsame rfl] at h₁ h₂
      refine tryInsert_alike hins qs hnd (fun d hd => ?_) hnew h₁ h₂
      have hne : d ≠ q := by rintro rfl; exact hq hd
      rw [Function.update_of_ne hne, Function.update_of_ne hne]
      exact hold d (List.mem_cons_of_mem _ hd)

/-- `Insert` answers alike on two like trees, records the same expiry and leaves them alike. -/
theorem insertFuel_alike (hc : 1 ≤ c) :
    ∀ {fuel₁ fuel₂ : ℕ} {t₁ t₂ t₁' t₂' : Quadtree} {b : Rectangle} {lu₁ lu₂ : LastUpdates}
      {ok₁ ok₂ : Bool}, WF c b t₁ → WF c b t₂ → Alike now lu t₁ t₂ →
      insertFuel now trigger fuel₁ t₁ lu = some (t₁', lu₁, ok₁) →
      insertFuel now trigger fuel₂ t₂ lu = some (t₂', lu₂, ok₂) →
      lu₁ = lu₂ ∧ ok₁ = ok₂ ∧ (ok₁ = false → lu₁ = lu) ∧ Alike now lu t₁' t₂'
  | 0, _, _, _, _, _, _, _, _, _, _, _, _, _, h, _ => by simp [insertFuel_zero] at h
  | _ + 1, 0, _, _, _, _, _, _, _, _, _, _, _, _, _, h => by simp [insertFuel_zero] at h
  | _ + 1, _ + 1, .nil, _, _, _, _, _, _, _, _, hwf, _, _, _, _ => hwf.elim
  | _ + 1, _ + 1, .node _ _, .nil, _, _, _, _, _, _, _, _, hwf, _, _, _ => hwf.elim
  | fuel₁ + 1, fuel₂ + 1, .node n₁ child₁, .node n₂ child₂, _, _, b, _, _, _, _, hwf₁, hwf₂, halike,
      h₁, h₂ => by
    have hstore : prune now lu n₁.store = prune now lu n₂.store := halike []
    have hchild : ∀ q, Alike now lu (child₁ q) (child₂ q) := fun q p => halike (q :: p)
    have hbelow : ∀ q, Alike now lu (below n₁ child₁ q) (below n₂ child₂ q) := by
      intro q p
      rw [storeAt_below hwf₁, storeAt_below hwf₂]
      exact hchild q p
    obtain ⟨hbd₁, hcap₁, -⟩ := id hwf₁
    obtain ⟨hbd₂, hcap₂, -⟩ := id hwf₂
    rw [insertFuel_node] at h₁ h₂
    cases hi : b.intersects trigger.rect with
    | false =>
      rw [if_pos (by simp [hbd₁, hi])] at h₁
      rw [if_pos (by simp [hbd₂, hi])] at h₂
      cases h₁
      cases h₂
      exact ⟨rfl, rfl, fun _ => rfl, halike⟩
    | true =>
      rw [if_neg (by simp [hbd₁, hi])] at h₁
      rw [if_neg (by simp [hbd₂, hi])] at h₂
      dsimp only at h₁ h₂
      by_cases hroom : ((prune now lu n₂.store).length : ℤ) < c
      · rw [hstore, hcap₁, if_pos hroom] at h₁
        rw [hcap₂, if_pos hroom] at h₂
        cases h₁
        cases h₂
        exact ⟨rfl, rfl, by simp, Alike.node rfl hchild⟩
      · rw [if_neg (by rwa [hstore, hcap₁])] at h₁
        rw [if_neg (by rwa [hcap₂])] at h₂
        obtain ⟨⟨child₁', lu₁', ok₁'⟩, hrun₁, h₁⟩ := Option.map_eq_some_iff.mp h₁
        obtain ⟨⟨child₂', lu₂', ok₂'⟩, hrun₂, h₂⟩ := Option.map_eq_some_iff.mp h₂
        cases h₁
        cases h₂
        have hins : ∀ q t₁ t₂ lu₁ lu₂ ok₁ ok₂,
            insertFuel now trigger fuel₁ (below n₁ child₁ q) lu = some (t₁, lu₁, ok₁) →
            insertFuel now trigger fuel₂ (below n₂ child₂ q) lu = some (t₂, lu₂, ok₂) →
            lu₁ = lu₂ ∧ ok₁ = ok₂ ∧ (ok₁ = false → lu₁ = lu) ∧ Alike now lu t₁ t₂ :=
          fun q _ _ _ _ _ _ => insertFuel_alike hc (wf_below hc hwf₁ q) (wf_below hc hwf₂ q)
            (hbelow q)
        obtain ⟨hlu, hok, hsame, hall⟩ := tryInsert_alike hins quadrants nodup_quadrants
          (fun _ _ => ⟨rfl, rfl⟩) hbelow hrun₁ hrun₂
        exact ⟨hlu, hok, hsame, Alike.node (congrArg _ hstore) hall⟩

end

/-! ### What is stale stays stale -/

/-- The time since the expiry of `e` can be computed without wrapping around. -/
def Timely (now : Int64) (e : Storable) : Prop := 0 < e.ttl → -2 ^ 63 < now.toInt - e.ttl.toInt

/-- No recorded expiry goes back. -/
def Raised (lu lu' : LastUpdates) : Prop :=
  ∀ guid, 0 < lu.index guid 0 → lu.index guid 0 ≤ lu'.index guid 0

theorem Raised.refl (lu : LastUpdates) : Raised lu lu := fun _ _ => Int64.le_refl _

theorem raised_recorded {lu : LastUpdates} {now : Int64} {trigger : Storable}
    (h : 0 < lu.index trigger.guid 0 → lu.index trigger.guid 0 ≤ now + trigger.ttl) :
    Raised lu (recorded lu now trigger) := by
  intro guid hpos
  rw [recorded, GoMap.index_insert]
  split
  · subst guid; exact h hpos
  · exact Int64.le_refl _

theorem Timely.mono {t t' : Int64} {e : Storable} (h : Timely t e) (hle : t ≤ t') : Timely t' e := by
  intro hpos
  have := h hpos
  rw [Int64.le_iff_toInt_le] at hle
  omega

/-- With a positive TTL an expiry that does not wrap lies less than 2^63 ahead, at any clock. -/
theorem timely_stored (now : Int64) {trigger : Storable} (hd : 0 < trigger.ttl) :
    Timely now (trigger.stored now) := by
  have h₁ := now.toInt_lt
  have h₂ := trigger.ttl.toInt_lt
  have h₃ := now.le_toInt
  simp only [Timely, stored_ttl, Int64.lt_iff_toInt_lt, Int64.toInt_add, Int64.toInt_zero] at *
  rw [Int.bmod_def]
  omega

theorem expired_later {t t' : Int64} {e : Storable} (he : Timely t e) (hle : t ≤ t')
    (h : expired t e = true) : expired t' e = true := by
  simp only [expired, Bool.and_eq_true, decide_eq_true_eq] at h ⊢
  obtain ⟨hpos, hpast⟩ := h
  have hdiff := he hpos
  have h₁ := t.toInt_lt
  have h₂ := t'.toInt_lt
  simp only [gt_iff_lt, Int64.lt_iff_toInt_lt, Int64.le_iff_toInt_le, Int64.toInt_sub,
    Int64.toInt_zero, Int.bmod_def] at *
  omega

/-- As long as expiries only grow, an entry once stale is stale at every later reading. -/
theorem stale_later {t t' : Int64} {lu lu' : LastUpdates} {e : Storable} (he : Timely t e)
    (hle : t ≤ t') (hlu : Raised lu lu') (h : stale t lu e = true) : stale t' lu' e = true := by
  rw [stale_eq, Bool.or_eq_true] at h ⊢
  refine h.imp (expired_later he hle) fun hsup => ?_
  simp only [superseded, Bool.and_eq_true, decide_eq_true_eq] at hsup ⊢
  have := hlu e.guid hsup.1
  grind

theorem Alike.later {t t' : Int64} {lu lu' : LastUpdates} {t₁ t₂ : Quadtree}
    (h : Alike t lu t₁ t₂) (h₁ : ∀ e ∈ entries t₁, Timely t e) (h₂ : ∀ e ∈ entries t₂, Timely t e)
    (hle : t ≤ t') (hlu : Raised lu lu') : Alike t' lu' t₁ t₂ := by
  have hprune : ∀ store : List Storable, (∀ e ∈ store, Timely t e) →
      prune t' lu' store = prune t' lu' (prune t lu store) := by
    intro store hstore
    rw [prune_eq, prune_eq, prune_eq, List.filter_filter]
    refine List.filter_congr fun e he => ?_
    have hstale := stale_later (hstore e he) hle hlu
    cases h' : stale t lu e with
    | false => simp
    | true => simp [hstale h']
  intro p
  rw [hprune _ fun e he => h₁ e ((mem_entries_iff _ e).mpr ⟨p, he⟩),
    hprune _ fun e he => h₂ e ((mem_entries_iff _ e).mpr ⟨p, he⟩), h p]

/-! ### Two runs -/

/-- What an operation answers. -/
inductive Answer where
  | inserted (ok : Bool)
  | found (entries : List Storable)
  | cleaned
  deriving DecidableEq

/-- One operation and its answer. -/
def Locator.answer (l : Locator) : Op → Option (Locator × Answer)
  | .insert now trigger => (l.insert now trigger).map fun (l, ok) => (l, .inserted ok)
  | .query now q => (l.query now q []).map fun (l, found) => (l, .found found)
  | .cleanup now => (l.cleanup now).map fun l => (l, .cleaned)

/-- `Query` and `Cleanup`. -/
def Op.passive : Op → Bool
  | .insert _ _ => false
  | _ => true

/-- The expiry an `Insert` records for a guid. -/
def Op.expiry : Op → Option (UInt32 × Int64)
  | .insert now trigger => some (trigger.guid, now + trigger.ttl)
  | _ => none

/-- An operation of one run, marked when it belongs to the other run too. -/
structure Turn where
  op : Op
  common : Bool

/-- The answers of a run to the operations it has in common with the other. -/
def Locator.transcript : Locator → List Turn → Option (List Answer)
  | _, [] => some []
  | l, turn :: turns => do
    let (l, answer) ← l.answer turn.op
    let answers ← l.transcript turns
    some (if turn.common then answer :: answers else answers)

/-- TTLs are positive and the expiries of a guid do not go back. -/
structure Rising (ops : List Op) : Prop where
  positive : ∀ now trigger, Op.insert now trigger ∈ ops → 0 < trigger.ttl
  expiries : (ops.filterMap Op.expiry).Pairwise fun e e' => e.1 = e'.1 → e.2 ≤ e'.2

/-- Two locators at a clock reading that differ only by stale entries. -/
structure Twins (c : ℤ) (b : Rectangle) (now : Int64) (l m : Locator) : Prop where
  wf : WF c b l.root ∧ WF c b m.root
  lastUpdates : m.lastUpdates = l.lastUpdates
  alike : Alike now l.lastUpdates l.root m.root
  timely : (∀ e ∈ entries l.root, Timely now e) ∧ ∀ e ∈ entries m.root, Timely now e

section
variable {c : ℤ} {b : Rectangle} {t now : Int64} {l m l' m' : Locator}

theorem twins_refl (hc : 1 ≤ c) (b : Rectangle) (t : Int64) :
    Twins c b t (Locator.start b c) (Locator.start b c) := by
  have hnone : ∀ e ∈ entries (Locator.start b c).root, Timely t e := by
    intro e he
    obtain ⟨p, hp⟩ := (mem_entries_iff _ e).mp he
    simp [Locator.start] at hp
  exact ⟨⟨start_wf hc b, start_wf hc b⟩, rfl, fun _ => rfl, hnone, hnone⟩

theorem Twins.later (h : Twins c b t l m) (hle : t ≤ now) : Twins c b now l m :=
  ⟨h.wf, h.lastUpdates, h.alike.later h.timely.1 h.timely.2 hle (Raised.refl _),
    fun e he => (h.timely.1 e he).mono hle, fun e he => (h.timely.2 e he).mono hle⟩

/-- Pruning one of the two. -/
theorem Twins.pruned (h : Twins c b now l m) {t' : Quadtree} (hwf : WF c b t')
    (hpr : Pruned (fun e => stale now l.lastUpdates e = true) l.root t') :
    Twins c b now { l with root := t' } m where
  wf := ⟨hwf, h.wf.2⟩
  lastUpdates := h.lastUpdates
  alike p := (alike_of_pruned hpr p).symm.trans (h.alike p)
  timely := ⟨fun e he => h.timely.1 e (hpr.entries.sublist.subset he), h.timely.2⟩

theorem Twins.symm (h : Twins c b now l m) : Twins c b now m l where
  wf := h.wf.symm
  lastUpdates := h.lastUpdates.symm
  alike p := by rw [h.lastUpdates]; exact (h.alike p).symm
  timely := h.timely.symm

/-- What is in the tree after an `Insert`: old entries and the new one. -/
theorem timely_insert (hc : 1 ≤ c) {trigger : Storable} {lu lu' : LastUpdates} {t₁ t₁' : Quadtree}
    {ok : Bool} (hwf : WF c b t₁) (hd : 0 < trigger.ttl)
    (h : t₁.insert now trigger lu = some (t₁', lu', ok)) (hold : ∀ e ∈ entries t₁, Timely now e) :
    WF c b t₁' ∧ (∀ e ∈ entries t₁', Timely now e) ∧
      lu' = if ok then recorded lu now trigger else lu := by
  rcases insert_spec hc now trigger lu hwf with ⟨t', hrun, hno⟩ | ⟨t', hrun, hyes⟩ <;>
    rw [h] at hrun <;> cases hrun
  · exact ⟨hno.wf, fun e he => hold e (hno.mem_entries he), rfl⟩
  · refine ⟨hyes.wf, fun e he => ?_, rfl⟩
    rcases hyes.mem_entries he with rfl | he
    · exact timely_stored now hd
    · exact hold e he

/-- An `Insert` at both: the same answer, and twins again. -/
theorem twins_insert (hc : 1 ≤ c) {trigger : Storable} (h : Twins c b now l m)
    (hd : 0 < trigger.ttl)
    (hrise : 0 < l.lastUpdates.index trigger.guid 0 →
      l.lastUpdates.index trigger.guid 0 ≤ now + trigger.ttl) :
    ∃ l' m' ok, l.insert now trigger = some (l', ok) ∧ m.insert now trigger = some (m', ok) ∧
      Twins c b now l' m' ∧
      l'.lastUpdates = if ok then recorded l.lastUpdates now trigger else l.lastUpdates := by
  have hends : ∀ {t : Quadtree}, WF c b t →
      ∃ t' lu' ok, t.insert now trigger l.lastUpdates = some (t', lu', ok) := by
    intro t hwf
    rcases insert_spec hc now trigger l.lastUpdates hwf with ⟨t', hrun, -⟩ | ⟨t', hrun, -⟩
    · exact ⟨t', _, _, hrun⟩
    · exact ⟨t', _, _, hrun⟩
  obtain ⟨t₁, lu₁, ok, hrun₁⟩ := hends h.wf.1
  obtain ⟨t₂, lu₂, ok₂, hrun₂⟩ := hends h.wf.2
  obtain ⟨rfl, rfl, -, halike⟩ := insertFuel_alike hc h.wf.1 h.wf.2 h.alike hrun₁ hrun₂
  obtain ⟨hwf₁, htimely₁, hlu⟩ := timely_insert hc h.wf.1 hd hrun₁ h.timely.1
  obtain ⟨hwf₂, htimely₂, -⟩ := timely_insert hc h.wf.2 hd hrun₂ h.timely.2
  have hraised : Raised l.lastUpdates lu₁ := by
    rw [hlu]
    cases ok with
    | false => exact Raised.refl _
    | true => exact raised_recorded hrise
  refine ⟨⟨t₁, lu₁, l.servers⟩, ⟨t₂, lu₁, m.servers⟩, ok, ?_, ?_, ⟨⟨hwf₁, hwf₂⟩, rfl, ?_,
    htimely₁, htimely₂⟩, hlu⟩
  · rw [Locator.insert, hrun₁]; rfl
  · rw [Locator.insert, h.lastUpdates, hrun₂]; rfl
  · exact halike.later htimely₁ htimely₂ (Int64.le_refl _) hraised

/-- A `Query` or `Cleanup` at one of the two. -/
theorem twins_passive (h : Twins c b t l m) {op : Op} (hop : op.passive = true) (hle : t ≤ op.now) :
    ∃ l' a, l.answer op = some (l', a) ∧ l'.lastUpdates = l.lastUpdates ∧ Twins c b op.now l' m := by
  cases op with
  | insert now trigger => simp [Op.passive] at hop
  | query now q =>
    obtain ⟨t', hrun, hwf, hpr⟩ := locator_query_spec h.wf.1 now q
    exact ⟨{ l with root := t' }, .found (reported now q l.lastUpdates l.root),
      by rw [Locator.answer, hrun]; rfl, rfl, (h.later hle).pruned hwf hpr⟩
  | cleanup now =>
    obtain ⟨t', hrun, hwf, hpr⟩ := locator_cleanup_spec h.wf.1 now
    exact ⟨{ l with root := t' }, .cleaned, by rw [Locator.answer, hrun]; rfl, rfl,
      (h.later hle).pruned hwf hpr⟩

/-- A common operation: the same answer, and twins again. -/
theorem twins_common (hc : 1 ≤ c) (h : Twins c b t l m) {op : Op} (hle : t ≤ op.now)
    (hd : ∀ now trigger, op = .insert now trigger → 0 < trigger.ttl)
    (hrise : ∀ e ∈ op.expiry, 0 < l.lastUpdates.index e.1 0 → l.lastUpdates.index e.1 0 ≤ e.2) :
    ∃ l' m' a, l.answer op = some (l', a) ∧ m.answer op = some (m', a) ∧ Twins c b op.now l' m' ∧
      ∀ guid, l'.lastUpdates.index guid 0 = l.lastUpdates.index guid 0 ∨
        op.expiry = some (guid, l'.lastUpdates.index guid 0) := by
  have hnow := h.later hle
  cases op with
  | insert now trigger =>
    replace hnow : Twins c b now l m := hnow
    have hrecord := hrise (trigger.guid, now + trigger.ttl) rfl
    obtain ⟨l', m', ok, hl, hm, htwins, hlu⟩ := twins_insert hc hnow (hd now trigger rfl) hrecord
    refine ⟨l', m', .inserted ok, by rw [Locator.answer, hl]; rfl, by rw [Locator.answer, hm]; rfl,
      htwins, fun guid => ?_⟩
    rw [hlu]
    split
    · rw [recorded, GoMap.index_insert]
      split
      · subst guid; exact .inr rfl
      · exact .inl rfl
    · exact .inl rfl
  | query now q =>
    replace hnow : Twins c b now l m := hnow
    obtain ⟨t₁, hrun₁, hwf₁, hpr₁⟩ := locator_query_spec h.wf.1 now q
    obtain ⟨t₂, hrun₂, hwf₂, hpr₂⟩ := locator_query_spec h.wf.2 now q
    have hfound : reported now q m.lastUpdates m.root = reported now q l.lastUpdates l.root := by
      rw [h.lastUpdates]
      exact (reported_congr q h.wf.1 h.wf.2 fun p => congrArg _ (hnow.alike p)).symm
    rw [hfound] at hrun₂
    exact ⟨{ l with root := t₁ }, { m with root := t₂ },
      .found (reported now q l.lastUpdates l.root), by rw [Locator.answer, hrun₁]; rfl,
      by rw [Locator.answer, hrun₂]; rfl,
      ((hnow.pruned hwf₁ hpr₁).symm.pruned hwf₂ hpr₂).symm, fun _ => .inl rfl⟩
  | cleanup now =>
    obtain ⟨t₁, hrun₁, hwf₁, hpr₁⟩ := locator_cleanup_spec h.wf.1 now
    obtain ⟨t₂, hrun₂, hwf₂, hpr₂⟩ := locator_cleanup_spec h.wf.2 now
    exact ⟨{ l with root := t₁ }, { m with root := t₂ }, .cleaned, by rw [Locator.answer, hrun₁]; rfl,
      by rw [Locator.answer, hrun₂]; rfl,
      ((hnow.pruned hwf₁ hpr₁).symm.pruned hwf₂ hpr₂).symm, fun _ => .inl rfl⟩

/-- No recorded expiry exceeds those that later operations record for the same guid. -/
def Ahead (lu : LastUpdates) (ops : List Op) : Prop :=
  ∀ e ∈ ops.filterMap Op.expiry, 0 < lu.index e.1 0 → lu.index e.1 0 ≤ e.2

/-- A run answers the operations it has in common with another as the run of these alone. -/
theorem transcript_filter (hc : 1 ≤ c) :
    ∀ {turns : List Turn} {l m : Locator} {t t' : Int64}, Twins c b t l m →
      (∀ turn ∈ turns, turn.common = false → turn.op.passive = true) →
      Clocked t (turns.map Turn.op) t' → Rising ((turns.filter Turn.common).map Turn.op) →
      Ahead l.lastUpdates ((turns.filter Turn.common).map Turn.op) →
      ∃ answers, l.transcript turns = some answers ∧
        m.transcript (turns.filter Turn.common) = some answers
  | [], _, _, _, _, _, _, _, _, _ => ⟨[], rfl, rfl⟩
  | turn :: turns, l, m, t, t', h, hpassive, hclk, hrise, hahead => by
    obtain ⟨hle, hclk⟩ := hclk
    have hpassive' : ∀ turn ∈ turns, turn.common = false → turn.op.passive = true := fun x hx =>
      hpassive x (List.mem_cons_of_mem _ hx)
    cases hcom : turn.common with
    | false =>
      obtain ⟨l', a, hl, hlu, htwins⟩ :=
        twins_passive h (hpassive turn List.mem_cons_self hcom) hle
      rw [List.filter_cons_of_neg (by simp [hcom])] at hrise hahead ⊢
      obtain ⟨answers, hl', hm⟩ := transcript_filter hc htwins hpassive' hclk hrise (hlu ▸ hahead)
      exact ⟨answers, by simp [Locator.transcript, hl, hl', hcom], hm⟩
    | true =>
      rw [List.filter_cons_of_pos hcom, List.map_cons] at hrise hahead
      rw [List.filter_cons_of_pos hcom]
      obtain ⟨hpos, hexp⟩ := hrise
      have hhead : ∀ e ∈ turn.op.expiry, 0 < l.lastUpdates.index e.1 0 →
          l.lastUpdates.index e.1 0 ≤ e.2 := by
        intro e he
        exact hahead e (List.mem_filterMap.mpr ⟨turn.op, List.mem_cons_self, he⟩)
      obtain ⟨l', m', a, hl, hm, htwins, hlu⟩ := twins_common hc h hle
        (fun now trigger hop => hpos now trigger (by rw [hop]; exact List.mem_cons_self)) hhead
      have hrest : ∀ e ∈ ((turns.filter Turn.common).map Turn.op).filterMap Op.expiry,
          e ∈ (turn.op :: (turns.filter Turn.common).map Turn.op).filterMap Op.expiry := by
        intro e he
        obtain ⟨op, hop, he⟩ := List.mem_filterMap.mp he
        exact List.mem_filterMap.mpr ⟨op, List.mem_cons_of_mem _ hop, he⟩
      have hahead' : Ahead l'.lastUpdates ((turns.filter Turn.common).map Turn.op) := by
        intro e he hlast
        rcases hlu e.1 with heq | heq
        · rw [heq] at hlast ⊢
          exact hahead e (hrest e he) hlast
        · rw [List.filterMap_cons_some heq] at hexp
          exact List.rel_of_pairwise_cons hexp he rfl
      have hexp' : (((turns.filter Turn.common).map Turn.op).filterMap Op.expiry).Pairwise
          fun e e' => e.1 = e'.1 → e.2 ≤ e'.2 := by
        cases hop : turn.op.expiry with
        | none => rwa [List.filterMap_cons_none hop] at hexp
        | some e => rw [List.filterMap_cons_some hop] at hexp; exact hexp.of_cons
      obtain ⟨answers, hl', hm'⟩ := transcript_filter hc htwins hpassive' hclk
        ⟨fun now trigger hop => hpos now trigger (List.mem_cons_of_mem _ hop), hexp'⟩ hahead'
      exact ⟨a :: answers, by simp [Locator.transcript, hl, hl', hcom],
        by simp [Locator.transcript, hm, hm', hcom]⟩

/-- Two runs over a fresh tree that differ only by passes of `Cleanup` and `Query` answer their
    common operations alike. -/
theorem pruning_invisible (hc : 1 ≤ c) {xs ys : List Turn} {t₀ t t₀' t' : Int64}
    (hxs : ∀ turn ∈ xs, turn.common = false → turn.op.passive = true)
    (hys : ∀ turn ∈ ys, turn.common = false → turn.op.passive = true)
    (hsame : xs.filter Turn.common = ys.filter Turn.common)
    (hclk : Clocked t₀ (xs.map Turn.op) t) (hclk' : Clocked t₀' (ys.map Turn.op) t')
    (hrise : Rising ((xs.filter Turn.common).map Turn.op)) :
    ∃ answers, (Locator.start b c).transcript xs = some answers ∧
      (Locator.start b c).transcript ys = some answers := by
  have hahead : ∀ ops, Ahead (Locator.start b c).lastUpdates ops := by
    intro ops e _ hpos
    exact absurd hpos (by simp [Locator.start, GoMap.index])
  obtain ⟨answers, hx, hcommon⟩ :=
    transcript_filter hc (twins_refl hc b t₀) hxs hclk hrise (hahead _)
  rw [hsame] at hrise hcommon
  obtain ⟨answers', hy, hcommon'⟩ :=
    transcript_filter hc (twins_refl hc b t₀') hys hclk' hrise (hahead _)
  rw [hcommon] at hcommon'
  cases hcommon'
  exact ⟨answers, hx, hy⟩

end

/-- A subscription of server 2 that sees the whole world. -/
def spectator : Storable := ⟨⟨0, 0, 100, 100⟩, 2, 9, 500, true⟩

/-- Two publications, the second of which finds the first stale, and a query. -/
def twoPublications : List Turn :=
  [⟨.insert 10 ⟨⟨60, 60, 1, 1⟩, 1, 1, 5, false⟩, true⟩,
    ⟨.insert 20 ⟨⟨60, 60, 1, 1⟩, 1, 2, 5, false⟩, true⟩, ⟨.query 21 spectator, true⟩]

/-- The same with a `Cleanup` and a `Query` between the two. -/
def withCleanup : List Turn :=
  [⟨.insert 10 ⟨⟨60, 60, 1, 1⟩, 1, 1, 5, false⟩, true⟩, ⟨.cleanup 16, false⟩,
    ⟨.query 18 spectator, false⟩, ⟨.insert 20 ⟨⟨60, 60, 1, 1⟩, 1, 2, 5, false⟩, true⟩,
    ⟨.query 21 spectator, true⟩]

/-- A tree of capacity 1 answers the two runs alike. -/
theorem pruning_invisible_twoPublications :
    ∃ answers, (Locator.start ⟨0, 0, 100, 100⟩ 1).transcript twoPublications = some answers ∧
      (Locator.start ⟨0, 0, 100, 100⟩ 1).transcript withCleanup = some answers := by
  have hrise : Rising ((twoPublications.filter Turn.common).map Turn.op) := by
    refine ⟨fun now trigger h => ?_, by decide⟩
    simp only [twoPublications, List.filter_cons_of_pos, List.filter_nil, List.map_cons,
      List.map_nil, List.mem_cons, Op.insert.injEq, reduceCtorEq, List.not_mem_nil, or_false] at h
    rcases h with ⟨rfl, rfl⟩ | ⟨rfl, rfl⟩ <;> decide
  have hclk : Clocked 0 (twoPublications.map Turn.op) 30 := by decide
  have hclk' : Clocked 0 (withCleanup.map Turn.op) 30 := by decide
  exact pruning_invisible (by decide) (by simp [twoPublications])
    (by simp [withCleanup, Op.passive]) rfl hclk hclk' hrise

end DistGame
