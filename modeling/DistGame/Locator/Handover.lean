import DistGame.Locator.Rendezvous
import DistGame.Locator.Requests

/-! Requests with a single item, each handled on its own, in a locator that two servers use. A
    subscription that the root still has room for is found by every publication it meets for as long
    as it has not expired. -/

namespace DistGame
open QTree Quadtree

/-! ### One item -/

/-- `Publish` with one publication, up to its notifications, at the clock readings of its two steps. -/
def Locator.publishOne (l : Locator) (item : StorableMsg) (query insert : Int64) :
    Option (Locator × GoMap Int32 (List MatchMsg)) := do
  let (l, call) ← (Call.start [item] ∅).step false Locator.publishQuery l query
  let (l, call) ← call.step false Locator.publishQuery l insert
  some (l, call.collected)

/-- `Subscribe` with one subscription. -/
def Locator.subscribeOne (l : Locator) (item : StorableMsg) (query insert : Int64) :
    Option (Locator × List MatchMsg) := do
  let (l, call) ← (Call.start [item] []).step true Locator.subscribeQuery l query
  let (l, call) ← call.step true Locator.subscribeQuery l insert
  some (l, subscribeResponse call.collected)

/-- A live subscription that answers the publication is stored in a node that the query reaches. -/
def Finds (l : Locator) (now : Int64) (pub : Storable) : Prop :=
  ∃ n ∈ l.root.toList, n.boundary.intersects pub.rect = true ∧
    ∃ e ∈ n.store, stale now l.lastUpdates e = false ∧ answers pub e = true

instance (l : Locator) (now : Int64) (pub : Storable) : Decidable (Finds l now pub) := by
  delta Finds
  infer_instance

/-- A subscription that answers the publication, stored where its query reaches, is live and outlasts
    the `Subscribe` of `sub` before: its query, its insertion at the root and the expiry it records. -/
def Outlasts (l : Locator) (sub : Storable) (query insert now : Int64) (pub : Storable) : Prop :=
  ∃ p n, l.root.labelAt p = some n ∧ n.boundary.intersects pub.rect = true ∧
    ∃ e ∈ n.store, answers pub e = true ∧ stale now (recorded l.lastUpdates insert sub) e = false ∧
      (n.boundary.intersects sub.rect = true → stale query l.lastUpdates e = false) ∧
      (p = [] → stale insert l.lastUpdates e = false)

/-- The root can store one more entry. -/
def HasRoom (l : Locator) : Prop := ∃ n ∈ l.root.root, (n.store.length : ℤ) < n.capacity

instance (l : Locator) : Decidable (HasRoom l) :=
  inferInstanceAs (Decidable (∃ n ∈ l.root.root, (n.store.length : ℤ) < n.capacity))

section
variable {c : ℤ} {b : Rectangle} {l l' : Locator} {item : StorableMsg} {trigger : Storable}
  {now query insert : Int64}

theorem finds_iff (hb : b.Nonneg) (hwf : WF c b l.root) (pub : Storable) :
    Finds l now pub ↔ reported now pub l.lastUpdates l.root ≠ [] := by
  constructor
  · rintro ⟨n, hn, hmeet, e, he, hlive, hans⟩
    obtain ⟨p, hp⟩ := (mem_toList_iff l.root).mp hn
    exact List.ne_nil_of_mem (mem_reported hb hwf hp he hlive hans hmeet)
  · intro hne
    obtain ⟨e, he⟩ := List.exists_mem_of_ne_nil _ hne
    obtain ⟨n, hn, hmeet, hin⟩ := of_mem_reported he
    exact ⟨n, hn, hmeet, e, hin⟩

theorem hasRoom_iff (hwf : WF c b l.root) :
    HasRoom l ↔ ((storeAt l.root []).length : ℤ) < c := by
  cases ht : l.root with
  | nil =>
    rw [ht] at hwf
    exact hwf.elim
  | node n child =>
    rw [ht] at hwf
    simp [HasRoom, ht, QTree.root, hwf.2.1]

theorem publishOne_eq (l : Locator) (hitem : item.storable false = some trigger) :
    l.publishOne item query insert = (l.query query trigger []).bind fun r =>
      (r.1.insert insert trigger).map fun r' => (r'.1, addMatches trigger r.2 ∅) := by
  cases hquery : l.query query trigger [] with
  | none => simp [Locator.publishOne, Call.start, Call.step, hitem, Locator.publishQuery, hquery]
  | some r =>
    cases hinsert : r.1.insert insert trigger <;>
      simp [Locator.publishOne, Call.start, Call.step, hitem, Locator.publishQuery, hquery, hinsert]

theorem subscribeOne_eq (l : Locator) (hitem : item.storable true = some trigger) :
    l.subscribeOne item query insert = (l.query query trigger []).bind fun r =>
      (r.1.insert insert trigger).map fun r' => (r'.1, subscribeResponse r.2) := by
  cases hquery : l.query query trigger [] with
  | none => simp [Locator.subscribeOne, Call.start, Call.step, hitem, Locator.subscribeQuery, hquery]
  | some r =>
    cases hinsert : r.1.insert insert trigger <;>
      simp [Locator.subscribeOne, Call.start, Call.step, hitem, Locator.subscribeQuery, hquery, hinsert]

/-- A publication is queried and inserted; what its query reports is noted for the servers. -/
theorem publishOne_spec (hc : 1 ≤ c) (hwf : WF c b l.root)
    (hitem : item.storable false = some trigger) (query insert : Int64) :
    ∃ l', l.publishOne item query insert =
        some (l', addMatches trigger (reported query trigger l.lastUpdates l.root) ∅) ∧
      WF c b l'.root ∧ l'.servers = l.servers := by
  obtain ⟨t, hquery, hwf', -⟩ := locator_query_spec hwf query trigger
  rw [publishOne_eq l hitem, hquery, Option.bind_some]
  rcases locator_insert_spec (l := { l with root := t }) hc hwf' insert trigger with
    ⟨t', hinsert, hno⟩ | ⟨t', hinsert, hyes⟩
  · rw [hinsert]
    exact ⟨_, rfl, hno.wf, rfl⟩
  · rw [hinsert]
    exact ⟨_, rfl, hyes.wf, rfl⟩

/-- A root with room takes the entry. -/
theorem insert_room (now : Int64) (hwf : WF c b l.root) (hroom : HasRoom l)
    (hmeet : b.intersects trigger.rect = true) :
    ∃ n child, l.root = .node n child ∧
      l.insert now trigger = some ({ l with
        root := .node { n with
          store := prune now l.lastUpdates n.store ++ [trigger.stored now] } child
        lastUpdates := recorded l.lastUpdates now trigger }, true) := by
  rw [hasRoom_iff hwf] at hroom
  cases ht : l.root with
  | nil =>
    rw [ht] at hwf
    exact hwf.elim
  | node n child =>
    rw [ht] at hwf hroom
    obtain ⟨hbd, hcap, -⟩ := hwf
    refine ⟨n, child, rfl, ?_⟩
    have hfits : ((prune now l.lastUpdates n.store).length : ℤ) < n.capacity := by
      have hprune := length_prune_le now l.lastUpdates n.store
      simp only [storeAt_node_nil] at hroom
      omega
    simp [Locator.insert, insert_eq, ht, insertFuel_node, hbd, hmeet, hfits, recorded,
      Storable.stored]

/-- An entry just inserted is live until it expires. -/
theorem stale_inserted (lu : LastUpdates) (now insert : Int64) (trigger : Storable) :
    stale now (recorded lu insert trigger) (trigger.stored insert) =
      expired now (trigger.stored insert) := by
  rw [stale_eq, superseded_recorded]
  simp [Storable.stored]

/-- What is found after a query and an insertion at the root: the new entry, or an older one that both
    of them leave. -/
theorem finds_inserted {t : Quadtree} {n : Node} {child : Quadrant → Quadtree} {pub : Storable}
    (ht : l.root.map (queried query trigger l.lastUpdates) = .node n child)
    (hmeet : n.boundary.intersects pub.rect = true)
    (hans : answers pub (trigger.stored insert) = true)
    (hroot : t = .node { n with
      store := prune insert l.lastUpdates n.store ++ [trigger.stored insert] } child) :
    Finds { l with root := t, lastUpdates := recorded l.lastUpdates insert trigger } now pub ↔
      expired now (trigger.stored insert) = false ∨ Outlasts l trigger query insert now pub := by
  -- the node at a path before the insertion is one of `l`, pruned by the query
  have hlabel : ∀ {p m}, (QTree.node n child).labelAt p = some m ↔
      ∃ m₀, l.root.labelAt p = some m₀ ∧ queried query trigger l.lastUpdates m₀ = m := by
    intro p m
    rw [← ht, labelAt_map, Option.map_eq_some_iff]
  subst hroot
  constructor
  · rintro ⟨m, hm, hreach, e, he, hlive, hans'⟩
    obtain ⟨p, hp⟩ := (mem_toList_iff _).mp hm
    cases p with
    | nil =>
      obtain rfl := Option.some.inj hp
      rcases List.mem_append.mp he with he | he
      · obtain ⟨hin, hkept⟩ := mem_prune.mp he
        obtain ⟨m₀, hm₀, rfl⟩ := hlabel.mp (labelAt_node_nil n child)
        obtain ⟨hin, hqueried⟩ := mem_queried.mp hin
        rw [queried_boundary] at hmeet
        exact .inr ⟨[], m₀, hm₀, hmeet, e, hin, hans', hlive, hqueried, fun _ => hkept⟩
      · obtain rfl := List.mem_singleton.mp he
        exact .inl ((stale_inserted _ _ _ _).symm.trans hlive)
    | cons q p =>
      have hbelow : (QTree.node n child).labelAt (q :: p) = some m := hp
      obtain ⟨m₀, hm₀, rfl⟩ := hlabel.mp hbelow
      obtain ⟨hin, hqueried⟩ := mem_queried.mp he
      rw [queried_boundary] at hreach
      exact .inr ⟨q :: p, m₀, hm₀, hreach, e, hin, hans', hlive, hqueried, nofun⟩
  · rintro (hlive | ⟨p, m₀, hm₀, hreach, e, hin, hans', hlive, hqueried, hkept⟩)
    · exact ⟨_, mem_toList_node.mpr (.inl rfl), hmeet, trigger.stored insert,
        List.mem_append_right _ (List.mem_singleton_self _), (stale_inserted _ _ _ _).trans hlive, hans⟩
    · have hp := hlabel.mpr ⟨m₀, hm₀, rfl⟩
      have he := mem_queried.mpr ⟨hin, hqueried⟩
      cases p with
      | nil =>
        obtain rfl := Option.some.inj hp
        exact ⟨_, mem_toList_node.mpr (.inl rfl), hmeet, e,
          List.mem_append_left _ (mem_prune.mpr ⟨he, hkept rfl⟩), hlive, hans'⟩
      | cons q p =>
        refine ⟨_, (mem_toList_iff _).mpr ⟨q :: p, hp⟩, ?_, e, he, hlive, hans'⟩
        rw [queried_boundary]
        exact hreach

/-- A subscription is queried and inserted; nothing but its entry is added to the tree, and it is what
    publications find next to older subscriptions. -/
theorem subscribeOne_spec (hb : b.Nonneg) (hc : 1 ≤ c) (hwf : WF c b l.root)
    (hitem : item.storable true = some trigger) (query insert : Int64) :
    ∃ l' response, l.subscribeOne item query insert = some (l', response) ∧ WF c b l'.root ∧
      l'.servers = l.servers ∧
      (∀ e ∈ entries l'.root, e ∈ entries l.root ∨ e = trigger.stored insert) ∧
      (HasRoom l → b.intersects trigger.rect = true → ∀ now pub, b.intersects pub.rect = true →
        answers pub (trigger.stored insert) = true → (Finds l' now pub ↔
          expired now (trigger.stored insert) = false ∨ Outlasts l trigger query insert now pub)) := by
  obtain ⟨t, hquery, hwf', hpruned⟩ := locator_query_spec hwf query trigger
  have htree : t = l.root.map (queried query trigger l.lastUpdates) := by
    obtain ⟨⟨t₁, found⟩, hrun, h⟩ := Option.map_eq_some_iff.mp (hquery [])
    cases h
    exact query_tree query trigger l.lastUpdates hb hwf hrun
  have hold : ∀ e ∈ entries t, e ∈ entries l.root := hpruned.entries.sublist.subset
  have hrun : ∀ l' ok, ({ l with root := t } : Locator).insert insert trigger = some (l', ok) →
      ∃ response, l.subscribeOne item query insert = some (l', response) := by
    intro l' ok hinsert
    rw [subscribeOne_eq l hitem, hquery, Option.bind_some, hinsert]
    exact ⟨_, rfl⟩
  have hfinds : HasRoom l → b.intersects trigger.rect = true → ∃ l',
      ({ l with root := t } : Locator).insert insert trigger = some (l', true) ∧
      ∀ now pub, b.intersects pub.rect = true → answers pub (trigger.stored insert) = true →
        (Finds l' now pub ↔ expired now (trigger.stored insert) = false ∨
          Outlasts l trigger query insert now pub) := by
    intro hroom hmeet
    have hroom' : HasRoom { l with root := t } := by
      rw [hasRoom_iff hwf] at hroom
      rw [hasRoom_iff (l := { l with root := t }) hwf']
      have := (hpruned []).sublist.length_le
      simp only
      omega
    obtain ⟨n, child, ht, hinsert⟩ := insert_room insert hwf' hroom' hmeet
    simp only at ht
    have hbd : n.boundary = b := by
      rw [ht] at hwf'
      exact hwf'.1
    exact ⟨_, hinsert, fun now pub hpub hans =>
      finds_inserted (htree.symm.trans ht) (by rw [hbd]; exact hpub) hans rfl⟩
  rcases locator_insert_spec (l := { l with root := t }) hc hwf' insert trigger with
    ⟨t', hinsert, hno⟩ | ⟨t', hinsert, hyes⟩
  · obtain ⟨response, hsubscribe⟩ := hrun _ _ hinsert
    refine ⟨_, response, hsubscribe, hno.wf, rfl, fun e he => ?_, fun hroom hmeet => ?_⟩
    · exact .inl (hold e (hno.mem_entries he))
    · obtain ⟨l', hinsert', -⟩ := hfinds hroom hmeet
      rw [hinsert] at hinsert'
      cases hinsert'
  · obtain ⟨response, hsubscribe⟩ := hrun _ _ hinsert
    refine ⟨_, response, hsubscribe, hyes.wf, rfl, fun e he => ?_, fun hroom hmeet => ?_⟩
    · exact (hyes.mem_entries he).symm.imp_left (hold e)
    · obtain ⟨l', hinsert', hfinds'⟩ := hfinds hroom hmeet
      rw [hinsert] at hinsert'
      cases hinsert'
      exact hfinds'

end

/-! ### Two servers -/

/-- The items that arrive come from the servers `x` and `y`. -/
def Between (x y : Int32) (a : Activity) : Prop :=
  ∀ item ∈ a.items, ∀ o ∈ item.gameObject, o.sid = x ∨ o.sid = y

instance (x y : Int32) (a : Activity) : Decidable (Between x y a) := by
  delta Between
  have : ∀ item : StorableMsg, Decidable (∀ o ∈ item.gameObject, o.sid = x ∨ o.sid = y) :=
    fun item => Option.decidableForallMem item.gameObject
  infer_instance

/-- Every item still to be handled and every entry comes from the servers `x` and `y`. -/
structure Shared (c : ℤ) (b : Rectangle) (x y : Int32) (s : LocatorServer) : Prop where
  wf : WF c b s.locator.root
  pending : ∀ r ∈ s.requests, ∀ item ∈ r.pending, ∀ o ∈ item.gameObject, o.sid = x ∨ o.sid = y
  stored : ∀ e ∈ entries s.locator.root, e.sid = x ∨ e.sid = y

section
variable {c : ℤ} {b : Rectangle} {x y : Int32} {s s' : LocatorServer}

theorem shared_start (hc : 1 ≤ c) (b : Rectangle) (x y : Int32) :
    Shared c b x y (LocatorServer.start b c) where
  wf := start_wf hc b
  pending := by simp [LocatorServer.start]
  stored := by
    intro e he
    obtain ⟨p, hp⟩ := (mem_entries_iff _ e).mp he
    simp [LocatorServer.start, Locator.start] at hp

theorem Shared.received (h : Shared c b x y s) {r : Handling}
    (hr : ∀ item ∈ r.pending, ∀ o ∈ item.gameObject, o.sid = x ∨ o.sid = y) :
    Shared c b x y { s with requests := s.requests ++ [r] } where
  wf := h.wf
  pending := by
    intro r' hr'
    rcases List.mem_append.mp hr' with hr' | hr'
    · exact h.pending r' hr'
    · rw [List.mem_singleton.mp hr']
      exact hr
  stored := h.stored

/-- An activity that brings in items of the two servers only keeps the tree to them. -/
theorem Shared.step (hc : 1 ≤ c) (h : Shared c b x y s) {a : Activity} (ha : Between x y a)
    (hstep : s.step a = some s') : Shared c b x y s' := by
  cases a with
  | connectToServer sid server =>
    cases hstep
    exact ⟨h.wf, h.pending, h.stored⟩
  | receivePublish publications =>
    cases hstep
    exact h.received ha
  | receiveSubscribe subscriptions =>
    cases hstep
    exact h.received ha
  | cleanup now =>
    obtain ⟨t', hrun, hwf, hpruned⟩ := locator_cleanup_spec h.wf now
    rw [LocatorServer.step, hrun] at hstep
    cases hstep
    exact ⟨hwf, h.pending, fun e he => h.stored e (hpruned.entries.sublist.subset he)⟩
  | handle i now =>
    simp only [LocatorServer.step, Option.bind_eq_bind, Option.bind_eq_some_iff] at hstep
    obtain ⟨r, hr, ⟨l', r'⟩, hrun, hstep⟩ := hstep
    cases hstep
    obtain ⟨item, trigger, hitem, htrig, -, -, hpend, hcase⟩ := handling_step_cases h.wf hrun
    have hold := h.pending r (List.mem_of_getElem? hr)
    have hsid : trigger.sid = x ∨ trigger.sid = y := by
      obtain ⟨o, ho, rfl⟩ := Option.map_eq_some_iff.mp htrig
      exact hold item hitem o ho
    refine ⟨(handling_step_frame hc h.wf hrun).1, fun r₁ hr₁ item' hitem' => ?_, fun e he => ?_⟩
    · rcases List.mem_or_eq_of_mem_set hr₁ with hr₁ | rfl
      · exact h.pending r₁ hr₁ item' hitem'
      · exact hold item' (hpend hitem')
    · rcases hcase with ⟨-, -, -, hpruned, -⟩ | ⟨-, ⟨ok, hins⟩, -⟩
      · exact h.stored e (hpruned.entries.sublist.subset he)
      · rcases locator_insert_spec hc h.wf now trigger with ⟨t', hrun', hno⟩ | ⟨t', hrun', hyes⟩ <;>
          rw [hins] at hrun' <;> cases hrun'
        · exact h.stored e (hno.mem_entries he)
        · rcases hyes.mem_entries he with rfl | he
          · exact hsid
          · exact h.stored e he

theorem shared_run (hc : 1 ≤ c) {acts : List Activity} (hacts : ∀ a ∈ acts, Between x y a)
    (hrun : run LocatorServer.step (LocatorServer.start b c) acts = some s) : Shared c b x y s :=
  run_invariant (fun _ _ _ h ha hs => Shared.step hc h ha hs) acts _ _ (shared_start hc b x y)
    (meets_of_forall acts _ fun a ha _ => hacts a ha) hrun

end

/-! ### Notifications to one server -/

/-- A publication that finds entries of one connected server notifies that server, and no other. -/
theorem notifications_same {l : Locator} (pub : Storable) {x server : Int32} {found : List Storable}
    (hall : ∀ e ∈ found, e.sid = x) (hclient : l.servers.lookup x = some server) :
    l.notifications (addMatches pub found ∅) = some (if found = [] then [] else
      [(server, List.replicate found.length ⟨pub.guid, pub.sid⟩)]) := by
  by_cases hne : found = []
  · subst hne
    rfl
  · rw [addMatches_eq, GoMap.pushAll_same Storable.sid _ hall hne, if_neg hne, Locator.notifications,
      AList.entries_insert_of_notMem (AList.notMem_empty x)]
    simp [hclient, GoMap.index]

end DistGame
