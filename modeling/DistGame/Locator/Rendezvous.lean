import DistGame.Locator.Search
import DistGame.Locator.Lifetime
import DistGame.Locator.Service

/-! Whether a publication and a subscription that intersect find each other. Each handler queries an
    item before it inserts it, so when both queries run before both inserts neither request sees the
    other's entry. A match is reported in every schedule that hands one entry to the other request's
    query: its `Insert` comes first, nothing evicts it in between, and the query meets the node it
    was put in. -/

namespace DistGame
open QTree Quadtree

/-- The schedule `pre, m₁, mid, m₂` from `s₀` hands `entry`, inserted by the move `m₁`, to the query
    `q` of the move `m₂`. -/
structure Handoff (b : Rectangle) (s₀ : Service) (entry q : Storable) (pre : List Move) (m₁ : Move)
    (mid : List Move) (m₂ : Move) : Prop where
  /-- `Insert` answers true. -/
  accepted : ∀ s₁, run Service.step s₀ pre = some s₁ →
    ∃ l, s₁.locator.insert m₁.now entry = some (l, true)
  /-- The entry's expiry has not passed at any clock reading up to the query. -/
  unexpired : ∀ m ∈ mid ++ [m₂], expired m.now (entry.stored m₁.now) = false
  /-- No step in between records a later positive expiry for the entry's guid. -/
  spared : ∀ s₂, run Service.step s₀ (pre ++ [m₁]) = some s₂ →
    Meets Service.step (fun s m => ∀ op, s.op m = some op →
      SparesLive b (entry.stored m₁.now) s.locator op) s₂ mid
  /-- Before the query, the entry is in nodes whose boundaries meet the query. -/
  meets : ∀ s₃, run Service.step s₀ (pre ++ m₁ :: mid) = some s₃ →
    ∀ n ∈ s₃.locator.root.toList, entry.stored m₁.now ∈ n.store →
      n.boundary.intersects q.rect = true

/-- Item `i` of the Publish request is inserted before item `j` of the Subscribe request is queried,
    and handed to it. -/
def PublishedFirst (b : Rectangle) (s₀ : Service) (i j : ℕ) (P S : Storable) (moves : List Move) :
    Prop :=
  ∃ pre t₁ mid t₂ post, moves = pre ++ .publish t₁ :: (mid ++ .subscribe t₂ :: post) ∧
    pre.countP Move.isPublish = 2 * i + 1 ∧ (pre ++ mid).countP Move.isSubscribe = 2 * j ∧
    Handoff b s₀ P S pre (.publish t₁) mid (.subscribe t₂)

/-- Item `j` of the Subscribe request is inserted before item `i` of the Publish request is queried,
    and handed to it. -/
def SubscribedFirst (b : Rectangle) (s₀ : Service) (i j : ℕ) (P S : Storable) (moves : List Move) :
    Prop :=
  ∃ pre t₁ mid t₂ post, moves = pre ++ .subscribe t₁ :: (mid ++ .publish t₂ :: post) ∧
    pre.countP Move.isSubscribe = 2 * j + 1 ∧ (pre ++ mid).countP Move.isPublish = 2 * i ∧
    Handoff b s₀ S P pre (.subscribe t₁) mid (.publish t₂)

/-- The match is in the SubscribeResponse or in the list for the subscriber's server. -/
def Reported (P S : Storable) (s : Service) : Prop :=
  ⟨P.guid, P.sid⟩ ∈ subscribeResponse s.subscribe.collected ∨
    ⟨P.guid, P.sid⟩ ∈ s.publish.collected.index S.sid []

theorem intersects_comm (r other : Rectangle) : r.intersects other = other.intersects r := by
  rw [Bool.eq_iff_iff, Rectangle.intersects_iff, Rectangle.intersects_iff]
  constructor
  · rintro ⟨h₁, h₂, h₃, h₄⟩
    exact ⟨h₂, h₁, h₄, h₃⟩
  · rintro ⟨h₁, h₂, h₃, h₄⟩
    exact ⟨h₂, h₁, h₄, h₃⟩

section
variable {c : ℤ} {b : Rectangle} {s₀ s₁ s₂ s₃ : Service} {entry q : Storable} {pre mid : List Move}
  {m₁ m₂ : Move}

/-- An entry that is handed over is reported by the query. -/
theorem handoff_reported (hb : b.Nonneg) (hc : 1 ≤ c) (hwf₁ : WF c b s₁.locator.root)
    (h : Handoff b s₀ entry q pre m₁ mid m₂) (hpre : run Service.step s₀ pre = some s₁)
    (hstep : s₁.step m₁ = some s₂) (hop : s₁.op m₁ = some (.insert m₁.now entry))
    (hmid : run Service.step s₂ mid = some s₃) (hans : answers q (entry.stored m₁.now) = true) :
    WF c b s₃.locator.root ∧
      entry.stored m₁.now ∈ reported m₂.now q s₃.locator.lastUpdates s₃.locator.root := by
  obtain ⟨l, hins⟩ := h.accepted s₁ hpre
  obtain ⟨op, hop', -, hl⟩ := service_step_op hwf₁ hstep
  rw [hop] at hop'
  cases hop'
  rw [Locator.step, hins] at hl
  have hl : l = s₂.locator := Option.some.inj hl
  subst hl
  obtain ⟨hwf₂, hsup, p, -, hin⟩ := insert_stored hc hwf₁ hins
  have hone : run Service.step s₀ (pre ++ [m₁]) = some s₂ :=
    run_append_eq_some.mpr ⟨s₁, hpre, run_cons_eq_some.mpr ⟨s₂, hstep, rfl⟩⟩
  have hall : run Service.step s₀ (pre ++ m₁ :: mid) = some s₃ :=
    run_append_eq_some.mpr ⟨s₁, hpre, run_cons_eq_some.mpr ⟨s₂, hstep, hmid⟩⟩
  obtain ⟨ops, hops, hmeets, htimes⟩ := service_run hc hwf₂ (h.spared s₂ hone) hmid
  have hexp : ∀ op ∈ ops, expired op.now (entry.stored m₁.now) = false := by
    intro op hop
    obtain ⟨m, hm, hnow⟩ := List.mem_map.mp (htimes ▸ List.mem_map_of_mem hop)
    rw [← hnow]
    exact h.unexpired m (List.mem_append_left _ hm)
  obtain ⟨hin₃, hsup₃⟩ := mem_run hc hwf₂ hexp hmeets hops hin hsup
  have hwf₃ : WF c b s₃.locator.root := run_keeps_wf hc hwf₂ hops
  have hlive := stale_eq_false.mpr
    ⟨h.unexpired m₂ (List.mem_append_right _ (List.mem_singleton.mpr rfl)), hsup₃⟩
  refine ⟨hwf₃, ?_⟩
  cases hn : labelAt s₃.locator.root p with
  | none => simp [storeAt, hn] at hin₃
  | some n =>
    have hin₃ : entry.stored m₁.now ∈ n.store := by simpa [storeAt, hn] using hin₃
    have hnode := h.meets s₃ hall n ((mem_toList_iff _).mpr ⟨p, hn⟩) hin₃
    exact mem_reported hb hwf₃ hn hin₃ hlive hans hnode

/-- The Subscribe request's query of item `j` collects what it reports. -/
theorem subscribe_collects {items : List StorableMsg} {j : ℕ} {x : List Storable} {S e : Storable}
    {t : Int64} (hwf : WF c b s₃.locator.root)
    (hturn : s₃.subscribe = Call.turn items (2 * j) x)
    (hS : (items[j]?).bind (StorableMsg.storable true) = some S) {s₄ : Service}
    (h : s₃.step (.subscribe t) = some s₄)
    (he : e ∈ reported t S s₃.locator.lastUpdates s₃.locator.root) :
    e ∈ s₄.subscribe.collected := by
  obtain ⟨⟨l', call'⟩, hcall, rfl⟩ := Option.map_eq_some_iff.mp h
  rw [hturn] at hcall
  obtain ⟨item, trigger, x', hitem, htrig, rfl, hcase⟩ := call_step_turn hcall
  rw [Nat.mul_div_cancel_left j Nat.two_pos] at hitem
  rw [hitem, Option.bind_some, htrig] at hS
  cases hS
  rcases hcase with ⟨-, hq⟩ | ⟨hodd, -⟩
  · obtain ⟨t', hq', -, -⟩ := locator_query_spec hwf t S
    rw [Locator.subscribeQuery, hq' x] at hq
    cases hq
    exact List.mem_append_right _ he
  · omega

/-- The Publish request's query of item `i` collects a match for the server of each reported
    entry. -/
theorem publish_collects {items : List StorableMsg} {i : ℕ} {x : GoMap Int32 (List MatchMsg)}
    {P e : Storable} {t : Int64} (hwf : WF c b s₃.locator.root)
    (hturn : s₃.publish = Call.turn items (2 * i) x)
    (hP : (items[i]?).bind (StorableMsg.storable false) = some P) {s₄ : Service}
    (h : s₃.step (.publish t) = some s₄)
    (he : e ∈ reported t P s₃.locator.lastUpdates s₃.locator.root) :
    ⟨P.guid, P.sid⟩ ∈ s₄.publish.collected.index e.sid [] := by
  obtain ⟨⟨l', call'⟩, hcall, rfl⟩ := Option.map_eq_some_iff.mp h
  rw [hturn] at hcall
  obtain ⟨item, trigger, x', hitem, htrig, rfl, hcase⟩ := call_step_turn hcall
  rw [Nat.mul_div_cancel_left i Nat.two_pos] at hitem
  rw [hitem, Option.bind_some, htrig] at hP
  cases hP
  rcases hcase with ⟨-, hq⟩ | ⟨hodd, -⟩
  · obtain ⟨t', hq', -, -⟩ := locator_query_spec hwf t P
    rw [Locator.publishQuery, hq' []] at hq
    cases hq
    show _ ∈ (addMatches P _ x).index e.sid []
    rw [index_addMatches]
    have hpos : 0 < (([] : List Storable) ++
        reported t P s₃.locator.lastUpdates s₃.locator.root).countP (fun f => f.sid == e.sid) :=
      List.countP_pos_iff.mpr ⟨e, he, beq_self_eq_true _⟩
    exact List.mem_append_right _ (List.mem_replicate.mpr ⟨by omega, rfl⟩)
  · omega

/-- A run up to, through, between and after two of its moves. -/
theorem run_two_moves {s : Service} {post : List Move}
    (h : run Service.step s₀ (pre ++ m₁ :: (mid ++ m₂ :: post)) = some s) :
    ∃ s₁ s₂ s₃ s₄, run Service.step s₀ pre = some s₁ ∧ s₁.step m₁ = some s₂ ∧
      run Service.step s₂ mid = some s₃ ∧ s₃.step m₂ = some s₄ ∧
      run Service.step s₄ post = some s := by
  obtain ⟨s₁, hpre, h⟩ := run_append_eq_some.mp h
  obtain ⟨s₂, hstep, h⟩ := run_cons_eq_some.mp h
  obtain ⟨s₃, hmid, h⟩ := run_append_eq_some.mp h
  obtain ⟨s₄, hquery, hpost⟩ := run_cons_eq_some.mp h
  exact ⟨s₁, s₂, s₃, s₄, hpre, hstep, hmid, hquery, hpost⟩

end

/-- A publication and a subscription of different servers that intersect answer each other's
    query. -/
theorem answers_of_items {publications subscriptions : List StorableMsg} {i j : ℕ} {P S : Storable}
    (hP : (publications[i]?).bind (StorableMsg.storable false) = some P)
    (hS : (subscriptions[j]?).bind (StorableMsg.storable true) = some S) (hsid : P.sid ≠ S.sid)
    (hmeet : P.rect.intersects S.rect = true) : answers S P = true ∧ answers P S = true := by
  obtain ⟨p, -, hp⟩ := Option.bind_eq_some_iff.mp hP
  obtain ⟨_, -, rfl⟩ := Option.map_eq_some_iff.mp hp
  obtain ⟨s, -, hs⟩ := Option.bind_eq_some_iff.mp hS
  obtain ⟨_, -, rfl⟩ := Option.map_eq_some_iff.mp hs
  have hmeet' := hmeet
  rw [intersects_comm] at hmeet'
  constructor <;> simp [answers, hmeet, hmeet', hsid, Ne.symm hsid]

/-- In every schedule of a Publish and a Subscribe request, at every reachable locator and among any
    other operations, the match of two intersecting items of different servers is reported if one
    of the two entries is handed to the query of the other. -/
theorem match_reported {c : ℤ} {b : Rectangle} (hb : b.Nonneg) (hc : 1 ≤ c) {ops₀ : List Op}
    {l₀ : Locator} (hreach : run Locator.step (Locator.start b c) ops₀ = some l₀)
    {publications subscriptions : List StorableMsg} {moves : List Move} {s : Service}
    (hrun : run Service.step (Service.start l₀ publications subscriptions) moves = some s)
    {i j : ℕ} {P S : Storable} (hP : (publications[i]?).bind (StorableMsg.storable false) = some P)
    (hS : (subscriptions[j]?).bind (StorableMsg.storable true) = some S) (hsid : P.sid ≠ S.sid)
    (hmeet : P.rect.intersects S.rect = true)
    (hfirst : PublishedFirst b (Service.start l₀ publications subscriptions) i j P S moves ∨
      SubscribedFirst b (Service.start l₀ publications subscriptions) i j P S moves) :
    Reported P S s := by
  have hwf₀ : WF c b (Service.start l₀ publications subscriptions).locator.root := run_wf hc hreach
  have hpub : (Service.start l₀ publications subscriptions).publish =
      Call.turn publications 0 ∅ := rfl
  have hsub : (Service.start l₀ publications subscriptions).subscribe =
      Call.turn subscriptions 0 [] := rfl
  obtain ⟨hans, hans'⟩ := answers_of_items hP hS hsid hmeet
  rcases hfirst with ⟨pre, t₁, mid, t₂, post, rfl, hi, hj, hand⟩ |
    ⟨pre, t₁, mid, t₂, post, rfl, hj, hi, hand⟩
  · obtain ⟨s₁, s₂, s₃, s₄, hpre, hstep, hmid, hquery, hpost⟩ := run_two_moves hrun
    have hwf₁ := service_run_wf hc hwf₀ hpre
    obtain ⟨⟨x, hx⟩, y, hy⟩ := service_run_turns hpub hsub hpre
    have hP' : (publications[(0 + pre.countP Move.isPublish) / 2]?).bind
        (StorableMsg.storable false) = some P := by
      rw [hi, show (0 + (2 * i + 1)) / 2 = i by omega]
      exact hP
    have hop : s₁.op (.publish t₁) = some (.insert t₁ P) := by
      rw [Service.op, hx, call_op_turn x hP', hi, if_pos (by omega)]
    obtain ⟨hwf₃, hrep⟩ := handoff_reported hb hc hwf₁ hand hpre hstep hop hmid hans
    obtain ⟨-, z, hz⟩ := service_run_turns hx hy (run_cons_eq_some.mpr ⟨s₂, hstep, hmid⟩)
    have hturn : s₃.subscribe = Call.turn subscriptions (2 * j) z := by
      rw [hz, ← hj, List.countP_append, List.countP_cons]
      simp [Move.isSubscribe]
    have hin := subscribe_collects hwf₃ hturn hS hquery hrep
    have hone : run Service.step s₃ [.subscribe t₂] = some s₄ :=
      run_cons_eq_some.mpr ⟨s₄, hquery, rfl⟩
    obtain ⟨-, hkeep⟩ := service_run_collected hc (service_run_wf hc hwf₃ hone) hpost
    exact .inl (List.mem_map.mpr ⟨P.stored t₁, hkeep _ hin, rfl⟩)
  · obtain ⟨s₁, s₂, s₃, s₄, hpre, hstep, hmid, hquery, hpost⟩ := run_two_moves hrun
    have hwf₁ := service_run_wf hc hwf₀ hpre
    obtain ⟨⟨x, hx⟩, y, hy⟩ := service_run_turns hpub hsub hpre
    have hS' : (subscriptions[(0 + pre.countP Move.isSubscribe) / 2]?).bind
        (StorableMsg.storable true) = some S := by
      rw [hj, show (0 + (2 * j + 1)) / 2 = j by omega]
      exact hS
    have hop : s₁.op (.subscribe t₁) = some (.insert t₁ S) := by
      rw [Service.op, hy, call_op_turn y hS', hj, if_pos (by omega)]
    obtain ⟨hwf₃, hrep⟩ := handoff_reported hb hc hwf₁ hand hpre hstep hop hmid hans'
    obtain ⟨⟨z, hz⟩, -⟩ := service_run_turns hx hy (run_cons_eq_some.mpr ⟨s₂, hstep, hmid⟩)
    have hturn : s₃.publish = Call.turn publications (2 * i) z := by
      rw [hz, ← hi, List.countP_append, List.countP_cons]
      simp [Move.isPublish]
    have hin := publish_collects hwf₃ hturn hP hquery hrep
    have hone : run Service.step s₃ [.publish t₂] = some s₄ :=
      run_cons_eq_some.mpr ⟨s₄, hquery, rfl⟩
    obtain ⟨hkeep, -⟩ := service_run_collected hc (service_run_wf hc hwf₃ hone) hpost
    exact .inr (hkeep _ _ hin)

/-! ### Both queries first -/

/-- A publication of server 1 and a subscription of server 2 over the same place. -/
def pubItem : StorableMsg := ⟨some ⟨7, 1, 10, 10, 2, 2⟩, 500⟩

def subItem : StorableMsg := ⟨some ⟨9, 2, 5, 5, 20, 20⟩, 500⟩

/-- Publish queries, Subscribe queries, Publish inserts, Subscribe inserts, all in one millisecond:
    both requests complete, both entries are stored and live, and neither request has collected
    anything. -/
theorem both_queries_first_miss :
    ∃ s, run Service.step (Service.start (Locator.start ⟨0, 0, 100, 100⟩ 4) [pubItem] [subItem])
        [.publish 1000, .subscribe 1000, .publish 1000, .subscribe 1000] = some s ∧
      s.publish.pending = [] ∧ s.subscribe.pending = [] ∧
      ((entries s.locator.root).filter fun e => !stale 1000 s.locator.lastUpdates e) =
        [⟨⟨10, 10, 2, 2⟩, 1, 7, 1500, false⟩, ⟨⟨5, 5, 20, 20⟩, 2, 9, 1500, true⟩] ∧
      s.subscribe.collected = [] ∧ s.publish.collected.index 2 [] = [] :=
  exists_of_map_decide (by decide +kernel)

/-- The match is reported when Publish runs to its end first. -/
theorem match_reported_publish_first :
    ∃ s, run Service.step (Service.start (Locator.start ⟨0, 0, 100, 100⟩ 4) [pubItem] [subItem])
        [.publish 1000, .publish 1000, .subscribe 1000, .subscribe 1000] = some s ∧
      Reported ⟨⟨10, 10, 2, 2⟩, 1, 7, 500, false⟩ ⟨⟨5, 5, 20, 20⟩, 2, 9, 500, true⟩ s := by
  let s₀ := Service.start (Locator.start ⟨0, 0, 100, 100⟩ 4) [pubItem] [subItem]
  obtain ⟨s₁, hs₁, hok⟩ := exists_of_map_decide (o := run Service.step s₀ [.publish 1000])
    (P := fun s => ((s.locator.insert 1000 ⟨⟨10, 10, 2, 2⟩, 1, 7, 500, false⟩).map Prod.snd) =
      some true) (by decide +kernel)
  obtain ⟨s₃, hs₃, hnode⟩ := exists_of_map_decide
    (o := run Service.step s₀ [.publish 1000, .publish 1000])
    (P := fun s => ∀ n ∈ s.locator.root.toList,
      n.boundary.intersects ⟨5, 5, 20, 20⟩ = true) (by decide +kernel)
  obtain ⟨s, hrun, -⟩ := exists_of_map_decide (P := fun _ => True)
    (o := run Service.step s₀ [.publish 1000, .publish 1000, .subscribe 1000, .subscribe 1000])
    (by decide +kernel)
  have hreach : run Locator.step (Locator.start ⟨0, 0, 100, 100⟩ 4) [] =
      some (Locator.start ⟨0, 0, 100, 100⟩ 4) := rfl
  refine ⟨s, hrun, match_reported (c := 4) (b := ⟨0, 0, 100, 100⟩) (i := 0) (j := 0)
    (by decide +kernel) (by decide) hreach hrun rfl rfl (by decide) (by decide +kernel)
    (.inl ⟨[.publish 1000], 1000, [], 1000, [.subscribe 1000], rfl, rfl, rfl, ?_⟩)⟩
  refine ⟨fun s' hs' => ?_, fun m hm => ?_, fun s' _ => trivial, fun s' hs' n hn _ => ?_⟩
  · cases hs₁.symm.trans hs'
    obtain ⟨⟨l, ok⟩, hins, rfl⟩ := Option.map_eq_some_iff.mp hok
    exact ⟨l, hins⟩
  · cases List.mem_singleton.mp hm
    decide
  · cases hs₃.symm.trans hs'
    exact hnode n hn

end DistGame
