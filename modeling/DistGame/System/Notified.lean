import DistGame.Locator.Batch
import DistGame.Server.Interest
import DistGame.System.Discovery

/-! How often a server registers for an object that is published once. `Publish` notes a match for
    every subscription of the server that it finds. The notified server looks for a replica before it
    has fetched any, so it asks for the object once for each match, and `RegisterInterest` adds a
    marker each time that the object is named. -/

namespace DistGame
open QTree Quadtree

/-- What a query asks for. -/
def Op.queried : Op → Option Storable
  | .query _ q => some q
  | _ => none

/-- The live subscriptions of server `d` that answer a publication, in the nodes that its query
    reaches. -/
def subscriptionsOf (l : Locator) (d : Int32) (now : Int64) (pub : Storable) : List Storable :=
  (l.root.toList.filter fun n => n.boundary.intersects pub.rect).flatMap fun n =>
    n.store.filter fun e => (!stale now l.lastUpdates e && answers pub e) && e.sid == d

/-- If the next step is a query, it finds at most one subscription of server `d`. -/
def Single (d : Int32) (x : Locator × Handling) (now : Int64) : Prop :=
  ∀ pub ∈ (x.2.op now).bind Op.queried, (subscriptionsOf x.1 d now pub).length ≤ 1

instance (d : Int32) (x : Locator × Handling) (now : Int64) : Decidable (Single d x now) :=
  Option.decidableForallMem _

/-! ### The matches -/

section
variable {c : ℤ} {b : Rectangle} {l : Locator} {now : Int64} {d : Int32}

/-- A query finds them and no other entry of the server. -/
theorem countP_reported (hb : b.Nonneg) (hwf : WF c b l.root) (pub : Storable) :
    (reported now pub l.lastUpdates l.root).countP (fun e => e.sid == d) =
      (subscriptionsOf l d now pub).length := by
  rw [reported, search_eq_filter (hereditary_intersects pub.rect hb hwf).1, List.countP_eq_length_filter,
    List.filter_flatMap, subscriptionsOf]
  congr 1
  refine List.flatMap_congr fun n _ => ?_
  rw [prune_eq, List.filter_filter, List.filter_filter]
  refine List.filter_congr fun e _ => ?_
  grind

/-- The matches for a server are the publications, each repeated for the subscriptions found. -/
theorem handle_found (hb : b.Nonneg) (hc : 1 ≤ c) (d : Int32) :
    ∀ {items : List StorableMsg} {nows : List Int64} {l : Locator} {r : Handling}, WF c b l.root →
      r.isSubscription = false → r.pending = items → r.queried = false →
      (∀ item ∈ items, item.gameObject.isSome) → nows.length = 2 * items.length →
      ∃ (l' : Locator) (r' : Handling) (found : List (Storable × ℕ)),
        l.handle r nows = some (l', r') ∧ r'.pending = [] ∧
        found.map Prod.fst = triggers false items ∧
        (r'.notices d = r.notices d ++ found.flatMap fun x =>
          List.replicate x.2 ⟨x.1.guid, x.1.sid⟩) ∧
        (Meets Handling.advance (Single d) (l, r) nows ↔ ∀ x ∈ found, x.2 ≤ 1)
  | [], nows, l, r, _, _, hp, _, _, hlen => by
    obtain rfl : nows = [] := List.length_eq_zero_iff.mp hlen
    exact ⟨l, r, [], rfl, hp, rfl, by simp, by simp [Meets]⟩
  | item :: items, [], _, _, _, _, _, _, _, hlen => by simp at hlen
  | item :: items, [_], _, _, _, _, _, _, _, hlen => by simp at hlen; omega
  | item :: items, t₁ :: t₂ :: nows, l, r, hwf, hkind, hp, hq, hobj, hlen => by
    obtain ⟨pub, hpub⟩ := exists_storable r.isSubscription (hobj item List.mem_cons_self)
    obtain ⟨t, hquery, hwf₁, -⟩ := locator_query_spec hwf t₁ pub
    obtain ⟨l₂, ok, hins, hwf₂⟩ : ∃ l₂ ok, ({ l with root := t } : Locator).insert t₂ pub =
        some (l₂, ok) ∧ WF c b l₂.root := by
      rcases locator_insert_spec (l := { l with root := t }) hc hwf₁ t₂ pub with
        ⟨t', h, hno⟩ | ⟨t', h, hyes⟩
      · exact ⟨_, _, h, hno.wf⟩
      · exact ⟨_, _, h, hyes.wf⟩
    obtain ⟨r₁, r₂, hop, hstep, hop', hstep', hp₂, hq₂, hkind₂, hnotices, -⟩ :=
      handling_item hp hq hpub hquery hins
    have hpub' : pub.isSubscription = false := (storable_isSubscription hpub).trans hkind
    have hlen' : nows.length = 2 * items.length := by
      simp only [List.length_cons] at hlen
      omega
    obtain ⟨l', r', found, hrun, hend, hfound, hnotices', hmeets⟩ := handle_found hb hc d hwf₂
      (hkind₂.trans hkind) hp₂ hq₂ (fun item hi => hobj item (List.mem_cons_of_mem _ hi)) hlen'
    refine ⟨l', r', (pub, (subscriptionsOf l d t₁ pub).length) :: found, ?_, hend, ?_, ?_, ?_⟩
    · exact run_cons_eq_some.mpr ⟨_, hstep, run_cons_eq_some.mpr ⟨_, hstep', hrun⟩⟩
    · rw [hkind] at hpub
      rw [List.map_cons, hfound, triggers, triggers, List.filterMap_cons_some hpub]
    · rw [hnotices', hnotices, noticesOf, hpub', countP_reported hb hwf]
      simp
    · have hfirst : Single d (l, r) t₁ ↔ (subscriptionsOf l d t₁ pub).length ≤ 1 := by
        simp [Single, hop, Op.queried]
      have hsecond : Single d ({ l with root := t }, r₁) t₂ := by
        simp [Single, hop', Op.queried]
      have hquery₁ : Handling.advance (l, r) t₁ = some ({ l with root := t }, r₁) := hstep
      rw [meets_cons_iff hquery₁, meets_cons_iff hstep', hfirst, hmeets, List.forall_mem_cons]
      exact and_congr_right fun _ => and_iff_right hsecond

/-- Publications of distinct objects are noted for a server without repetition exactly when each is
    found at most once. -/
theorem nodup_notices_iff {found : List (Storable × ℕ)}
    (h : (found.map fun x => x.1.guid).Nodup) :
    (((found.flatMap fun x => List.replicate x.2 (⟨x.1.guid, x.1.sid⟩ : MatchMsg)).map
        MatchMsg.guid).Nodup ↔ ∀ x ∈ found, x.2 ≤ 1) ∧
      ((found.flatMap fun x => List.replicate x.2 (⟨x.1.guid, x.1.sid⟩ : MatchMsg)).Nodup →
        ∀ x ∈ found, x.2 ≤ 1) := by
  have hdisjoint : found.Pairwise (Function.onFun List.Disjoint fun x =>
      List.replicate x.2 x.1.guid) := by
    refine (List.pairwise_map.mp h).imp fun hne => ?_
    intro g hg hg'
    rw [List.mem_replicate] at hg hg'
    exact hne (hg.2.symm.trans hg'.2)
  refine ⟨?_, fun hnodup x hx => List.nodup_replicate.mp ((List.nodup_flatMap.mp hnodup).1 x hx)⟩
  rw [List.map_flatMap]
  simp only [List.map_replicate, List.nodup_flatMap, List.nodup_replicate]
  exact and_iff_left hdisjoint

end

/-- For a request of one server at one clock reading, the condition is one on the tree before it, if no
    other server's entry has a guid of the request. -/
theorem Shows.single_iff {c : ℤ} {b : Rectangle} (hb : b.Nonneg) (hc : 1 ≤ c) {now : Int64}
    {sid : Int32} {own : List Storable} {l₀ : Locator} (d : Int32) :
    ∀ {items : List StorableMsg} {l : Locator} {r : Handling}, Shows c b now sid own l₀ l →
      r.isSubscription = false → r.pending = items → r.queried = false →
      (∀ item ∈ items, item.gameObject.isSome) → triggers false items ⊆ own →
      (Meets Handling.advance (Single d) (l, r) (List.replicate (2 * items.length) now) ↔
        ∀ pub ∈ triggers false items, (subscriptionsOf l₀ d now pub).length ≤ 1)
  | [], _, _, _, _, _, _, _, _ => by simp [Meets, triggers]
  | item :: items, l, r, h, hkind, hp, hq, hobj, hown => by
    obtain ⟨pub, hpub⟩ := exists_storable false (hobj item List.mem_cons_self)
    have hcons : triggers false (item :: items) = pub :: triggers false items :=
      List.filterMap_cons_some hpub
    rw [hcons] at hown ⊢
    have hmem : pub ∈ own := hown List.mem_cons_self
    obtain ⟨t, hquery, hwf, hpr⟩ := locator_query_spec h.wf.2 now pub
    obtain ⟨l₁, ok, hins, h₁⟩ := (h.pruned hwf hpr).inserted hc hmem
    rw [← hkind] at hpub
    obtain ⟨r₁, r₂, hop, hstep, hop', hstep', hp₂, hq₂, hkind₂, -⟩ :=
      handling_item hp hq hpub hquery hins
    have hfirst : Single d (l, r) now ↔ (subscriptionsOf l₀ d now pub).length ≤ 1 := by
      simp [Single, hop, Op.queried, ← countP_reported hb h.wf.2, ← countP_reported hb h.wf.1,
        h.reported_eq hmem]
    have hsecond : Single d ({ l with root := t }, r₁) now := by
      simp [Single, hop', Op.queried]
    have hquery₁ : Handling.advance (l, r) now = some ({ l with root := t }, r₁) := hstep
    rw [List.length_cons, Nat.mul_succ, List.replicate_succ, List.replicate_succ,
      meets_cons_iff hquery₁, meets_cons_iff hstep', hfirst, List.forall_mem_cons,
      h₁.single_iff hb hc d (hkind₂.trans hkind) hp₂ hq₂
        (fun item hi => hobj item (List.mem_cons_of_mem _ hi)) (List.subset_of_cons_subset hown)]
    exact and_congr_right fun _ => and_iff_right hsecond

/-! ### The calls -/

namespace Colyseus
variable (A : Colyseus)

/-- The guids of a server that are needed. -/
theorem neededObjects_index (sid : Int32) (publications : List MatchMsg) :
    (A.neededObjectsBySid publications).index sid [] =
      (publications.filter fun m => m.sid == sid && m.sid != A.sid &&
        !(A.replicas.lookup m.guid).isSome).map MatchMsg.guid := by
  rw [neededObjects_eq, GoMap.pushAll_index, List.filter_filter]
  simp only [Bool.and_assoc]
  rfl

/-- When no object is named twice, none is needed twice, from the same server or from two. -/
theorem neededObjects_nodup {publications : List MatchMsg}
    (h : (publications.map MatchMsg.guid).Nodup) :
    ((A.neededObjectsBySid publications).entries.flatMap Sigma.snd).Nodup := by
  have hentry : ∀ e ∈ (A.neededObjectsBySid publications).entries, e.2 =
      (publications.filter fun m => m.sid == e.1 && m.sid != A.sid &&
        !(A.replicas.lookup m.guid).isSome).map MatchMsg.guid := by
    intro e he
    have hlookup := (GoMap.mem_entries_iff _ _ _).mp he
    rw [← neededObjects_index, GoMap.index, hlookup]
    rfl
  refine List.nodup_flatMap.mpr ⟨fun e he => ?_, ?_⟩
  · rw [hentry e he]
    exact h.sublist (List.filter_sublist.map _)
  · have hkeys := List.pairwise_map.mp (A.neededObjectsBySid publications).nodupKeys
    refine hkeys.imp_of_mem fun {e e'} he he' hne => ?_
    intro g hg hg'
    rw [hentry e he] at hg
    rw [hentry e' he'] at hg'
    obtain ⟨m, hm, rfl⟩ := List.mem_map.mp hg
    obtain ⟨m', hm', hguid⟩ := List.mem_map.mp hg'
    simp only [List.mem_filter, Bool.and_eq_true, beq_iff_eq] at hm hm'
    obtain rfl := List.inj_on_of_nodup_map h hm'.1 hm.1 hguid
    exact hne (hm.2.1.1.symm.trans hm'.2.1.1)

/-- The objects named in the calls are needed. -/
theorem interestCalls_sublist (needed : GoMap Int32 (List UInt32)) :
    ((A.interestCalls needed).flatMap fun call => call.request.targetGuids).Sublist
      (needed.entries.flatMap Sigma.snd) := by
  rw [interestCalls]
  induction needed.entries with
  | nil => exact List.Sublist.refl _
  | cons e entries ih =>
    obtain ⟨sid, guids⟩ := e
    rw [List.flatMap_cons]
    cases hpeer : A.peerEndpoints.lookup sid with
    | none =>
      rw [List.filterMap_cons_none (by simp [hpeer])]
      exact ih.trans (List.sublist_append_right _ _)
    | some peer =>
      rw [List.filterMap_cons_some (b := ⟨sid, peer, ⟨guids, A.sid, false⟩⟩) (by simp [hpeer])]
      exact (List.Sublist.refl guids).append ih

/-- An object gets at most as many markers as it is named in the requests. -/
theorem receive_length (g : UInt32) : ∀ (requests : List (RegisterInterestRequest × Int64))
    (B : Colyseus), ((B.receive requests).primaryInterest.index g []).length ≤
      (B.primaryInterest.index g []).length +
        ((requests.map Prod.fst).flatMap RegisterInterestRequest.targetGuids).count g
  | [], _ => Nat.le_refl _
  | r :: requests, B => by
    have hcons : B.receive (r :: requests) = (B.registerInterest r.1 r.2).1.receive requests := rfl
    have hrest := receive_length g requests (B.registerInterest r.1 r.2).1
    rw [registerInterest_index, List.length_append] at hrest
    rw [hcons, List.map_cons, List.flatMap_cons, List.count_append]
    split at hrest
    · rw [List.length_replicate] at hrest
      omega
    · rw [List.length_nil] at hrest
      omega

end Colyseus

/-! ### One publication, one registration -/

/-- What server `A`, when it handles a notification, calls the server `y` with. -/
def Colyseus.callsTo (A : Colyseus) (y : Int32) (publications : List MatchMsg) :
    List RegisterInterestRequest :=
  ((A.interestCalls (A.neededObjectsBySid publications)).filter fun call => call.peer == y).map
    PeerCall.request

/-- Whatever server is notified, its calls add at most one marker for an object at its owner. -/
def RegistersOnce (d : Int32) (publications : List MatchMsg) : Prop :=
  ∀ (A B : Colyseus) (y : Int32) (requests : List (RegisterInterestRequest × Int64)), A.sid = d →
    requests.map Prod.fst = A.callsTo y publications → ∀ g,
      ((B.receive requests).primaryInterest.index g []).length ≤
        (B.primaryInterest.index g []).length + 1

theorem registersOnce {publications : List MatchMsg}
    (h : (publications.map MatchMsg.guid).Nodup) (d : Int32) : RegistersOnce d publications := by
  intro A B y requests _ hrequests g
  have hcalls : ((requests.map Prod.fst).flatMap RegisterInterestRequest.targetGuids).Sublist
      ((A.neededObjectsBySid publications).entries.flatMap Sigma.snd) := by
    rw [hrequests, Colyseus.callsTo, List.flatMap_map]
    exact (List.filter_sublist.flatMap _).trans (A.interestCalls_sublist _)
  have hcount := List.nodup_iff_count_le_one.mp ((A.neededObjects_nodup h).sublist hcalls) g
  have hlength := Colyseus.receive_length g requests B
  omega

/-- A Publish request of distinct objects, handled to its end, notes no match twice for server `d` and
    makes it register at most once for each object, if and only if each query finds at most one
    subscription of `d`. -/
theorem registers_once_iff {c : ℤ} {b : Rectangle} (hb : b.Nonneg) (hc : 1 ≤ c)
    {acts : List Activity} {s : LocatorServer}
    (hrun : run LocatorServer.step (LocatorServer.start b c) acts = some s)
    {items : List StorableMsg} (hobj : ∀ item ∈ items, item.gameObject.isSome)
    (hguids : ((triggers false items).map Storable.guid).Nodup) {nows : List Int64}
    (hlen : nows.length = 2 * items.length) (d : Int32) :
    ∃ l r, s.locator.handle (.arrive false items) nows = some (l, r) ∧ r.pending = [] ∧
      ((r.notices d).Nodup ∧ RegistersOnce d (r.notices d) ↔
        Meets Handling.advance (Single d) (s.locator, .arrive false items) nows) := by
  obtain ⟨l, r, found, hhandle, hend, hfound, hnotices, hmeets⟩ := handle_found hb hc d
    (requests_run_wf hc hrun) (arrive_isSubscription false items) (arrive_pending false items)
    (arrive_queried false items) hobj hlen
  refine ⟨l, r, hhandle, hend, ?_⟩
  have hdistinct : (found.map fun x => x.1.guid).Nodup := by
    rw [← hfound, List.map_map] at hguids
    exact hguids
  rw [arrive_notices, List.nil_append] at hnotices
  rw [hmeets, hnotices]
  obtain ⟨hiff, hsingle⟩ := nodup_notices_iff hdistinct
  constructor
  · rintro ⟨hnodup, -⟩
    exact hsingle hnodup
  · intro hle
    have hnodup := hiff.mpr hle
    exact ⟨hnodup.of_map _, registersOnce hnodup d⟩

/-- Two subscriptions of server 2 that meet the player of server 1. -/
def watchedTwice : List Activity :=
  bothConnected ++ [.receiveSubscribe [⟨some ⟨201, 2, 5, 5, 20, 20⟩, 500⟩,
    ⟨some ⟨202, 2, 8, 8, 20, 20⟩, 500⟩], .handle 0 900, .handle 0 900, .handle 0 900, .handle 0 900]

/-- The player is noted twice for server 2, which asks server 1 for it twice in one request, and
    server 1 registers it twice. -/
theorem registered_twice :
    ∃ s l r, run LocatorServer.step (LocatorServer.start world 4) watchedTwice = some s ∧
      s.locator.handle (.arrive false [playerItem]) [1000, 1000] = some (l, r) ∧
      r.notices 2 = [⟨100, 1⟩, ⟨100, 1⟩] ∧
      watching.callsTo 1 (r.notices 2) = [⟨[100, 100], 2, false⟩] ∧
      hosting.primaryInterest.index 100 [] = [] ∧
      ((hosting.receive [(⟨[100, 100], 2, false⟩, 1001)]).primaryInterest.index 100 []).map
        Interest.sid = [2, 2] := by
  obtain ⟨⟨s, l, r⟩, heval, hnotices⟩ := exists_of_map_decide
    (o := (run LocatorServer.step (LocatorServer.start world 4) watchedTwice).bind fun s =>
      (s.locator.handle (.arrive false [playerItem]) [1000, 1000]).map fun x => (s, x))
    (P := fun x => x.2.2.notices 2 = [⟨100, 1⟩, ⟨100, 1⟩]) (by decide +kernel)
  obtain ⟨s', hrun, hhandle⟩ := Option.bind_eq_some_iff.mp heval
  obtain ⟨x, hhandle, hx⟩ := Option.map_eq_some_iff.mp hhandle
  cases hx
  have hasks : watching.callsTo 1 [⟨100, 1⟩, ⟨100, 1⟩] = [⟨[100, 100], 2, false⟩] := rfl
  exact ⟨s, l, r, hrun, hhandle, hnotices, by rw [hnotices, hasks], rfl, rfl⟩

/-- With one subscription of server 2 the player is noted and registered once. -/
theorem registers_once_iff_watched :
    ∃ s l r, run LocatorServer.step (LocatorServer.start world 4) watched = some s ∧
      s.locator.handle (.arrive false [playerItem]) [1000, 1000] = some (l, r) ∧
      (r.notices 2).Nodup ∧ RegistersOnce 2 (r.notices 2) := by
  obtain ⟨s, hrun, hmeets⟩ := exists_of_map_decide
    (o := run LocatorServer.step (LocatorServer.start world 4) watched)
    (P := fun s => Meets Handling.advance (Single 2) (s.locator, .arrive false [playerItem])
      [1000, 1000]) (by decide +kernel)
  have hobj : ∀ item ∈ [playerItem], item.gameObject.isSome := by simp [playerItem]
  have hlen : [(1000 : Int64), 1000].length = 2 * [playerItem].length := rfl
  obtain ⟨l, r, hhandle, -, hiff⟩ := registers_once_iff (by decide +kernel) (by decide) hrun hobj
    (by decide) hlen 2
  exact ⟨s, l, r, hrun, hhandle, hiff.mpr hmeets⟩

end DistGame
