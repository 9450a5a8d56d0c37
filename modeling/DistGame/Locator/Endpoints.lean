import DistGame.Locator.Requests

/-! The notifications of `Publish`. The server to notify is named by the `sid` of a stored
    subscription, which no handler checks: a Subscribe request may carry any `sid`, and looking it up
    in `servers` gives a nil client when nothing is connected under it. The loop reaches all servers
    in every run in which each publication finds only subscriptions of connected servers. -/

namespace DistGame
open QTree Quadtree

/-- The query that an operation makes. -/
def Op.querying : Op → Option Storable
  | .query _ q => some q
  | _ => none

/-- `servers` has a client for the server. -/
def Locator.connected (l : Locator) (sid : Int32) : Bool := (l.servers.lookup sid).isSome

/-- The calls at the end of a handler; Subscribe makes none. -/
def Handling.notify (l : Locator) : Handling → Option (List (Int32 × List MatchMsg))
  | .publish _ call => l.notifications call.collected
  | .subscribe _ _ => some []

/-- The publication that a Publish request queries in this activity. -/
def LocatorServer.publishing (s : LocatorServer) : Activity → Option Storable
  | .handle i now => do
    let r ← s.requests[i]?
    let op ← r.op now
    if r.isSubscription then none else op.querying
  | _ => none

/-- Every live subscription that answers the publication, in a node that its query reaches, belongs
    to a connected server. -/
def FindsConnected (l : Locator) (now : Int64) (pub : Storable) : Prop :=
  ∀ n ∈ l.root.toList, n.boundary.intersects pub.rect = true →
    ∀ e ∈ n.store, stale now l.lastUpdates e = false → answers pub e = true → l.connected e.sid = true

instance (l : Locator) (now : Int64) (pub : Storable) : Decidable (FindsConnected l now pub) := by
  delta FindsConnected
  infer_instance

/-- A publication that is queried finds only subscriptions of connected servers. -/
def PublishesToConnected (s : LocatorServer) (a : Activity) : Prop :=
  ∀ pub ∈ s.publishing a, ∀ now ∈ a.time, FindsConnected s.locator now pub

instance (s : LocatorServer) (a : Activity) : Decidable (PublishesToConnected s a) := by
  delta PublishesToConnected
  have : ∀ pub, Decidable (∀ now ∈ a.time, FindsConnected s.locator now pub) := fun pub =>
    Option.decidableForallMem a.time
  exact Option.decidableForallMem (s.publishing a)

/-- When every server with matches is connected, the loop reaches all of them. -/
theorem notifications_total (l : Locator) (matches' : GoMap Int32 (List MatchMsg))
    (h : ∀ d ∈ matches', l.connected d = true) :
    ∃ sent, l.notifications matches' = some sent ∧ ∀ d ms, matches'.lookup d = some ms →
      ∃ server, l.servers.lookup d = some server ∧ (server, ms) ∈ sent := by
  let client := fun e : Sigma fun _ : Int32 => List MatchMsg =>
    ((l.servers.lookup e.1).getD 0, e.2)
  have hloop : ∀ es : List (Sigma fun _ : Int32 => List MatchMsg),
      (∀ e ∈ es, l.connected e.1 = true) →
      (es.mapM fun e => (l.servers.lookup e.1).map fun server => (server, e.2)) =
        some (es.map client) := by
    intro es hes
    induction es with
    | nil => rfl
    | cons e es ih =>
      obtain ⟨server, hserver⟩ := Option.isSome_iff_exists.mp (hes e List.mem_cons_self)
      rw [List.mapM_cons, ih fun e he => hes e (List.mem_cons_of_mem _ he)]
      simp [hserver, client]
  refine ⟨matches'.entries.map client, hloop matches'.entries fun e he => ?_, fun d ms hd => ?_⟩
  · exact h e.1 (AList.lookup_isSome.mp (by rw [(GoMap.mem_entries_iff _ _ _).mp he]; rfl))
  · obtain ⟨server, hserver⟩ := Option.isSome_iff_exists.mp
      (h d (AList.lookup_isSome.mp (by rw [hd]; rfl)))
    refine ⟨server, hserver, List.mem_map.mpr ⟨⟨d, ms⟩, (GoMap.mem_entries_iff _ _ _).mpr hd, ?_⟩⟩
    simp [client, hserver]

/-- The tree is well formed and every server that a handler has matches for is connected. -/
structure Endpoints (c : ℤ) (b : Rectangle) (s : LocatorServer) : Prop where
  wf : WF c b s.locator.root
  matched : ∀ r ∈ s.requests, ∀ d ∈ r.matched, s.locator.connected d = true

section
variable {c : ℤ} {b : Rectangle} {s s' : LocatorServer}

theorem connected_connectToServer {l : Locator} {d : Int32} (h : l.connected d = true)
    (sid server : Int32) : (l.connectToServer sid server).connected d = true := by
  rw [Locator.connected, Locator.connectToServer, GoMap.lookup_insert_ite]
  split
  · rfl
  · exact h

/-- A request that arrives has no matches yet. -/
theorem Endpoints.received (h : Endpoints c b s) {r : Handling} (hr : r.matched = []) :
    Endpoints c b { s with requests := s.requests ++ [r] } := by
  refine ⟨h.wf, fun r' hr' d hd => ?_⟩
  rcases List.mem_append.mp hr' with hr' | hr'
  · exact h.matched r' hr' d hd
  · rw [List.mem_singleton.mp hr', hr] at hd
    exact absurd hd List.not_mem_nil

/-- A query whose publication finds only connected servers keeps the invariant, and so does every
    other activity. -/
theorem Endpoints.step (hc : 1 ≤ c) (h : Endpoints c b s) {a : Activity}
    (hfinds : PublishesToConnected s a) (hstep : s.step a = some s') : Endpoints c b s' := by
  cases a with
  | connectToServer sid server =>
    cases hstep
    exact ⟨h.wf, fun r hr d hd => connected_connectToServer (h.matched r hr d hd) sid server⟩
  | receivePublish publications =>
    cases hstep
    exact h.received rfl
  | receiveSubscribe subscriptions =>
    cases hstep
    exact h.received rfl
  | cleanup now =>
    obtain ⟨t', hrun, hwf, -⟩ := locator_cleanup_spec h.wf now
    rw [LocatorServer.step, hrun] at hstep
    cases hstep
    exact ⟨hwf, h.matched⟩
  | handle i now =>
    simp only [LocatorServer.step, Option.bind_eq_bind, Option.bind_eq_some_iff] at hstep
    obtain ⟨r, hr, ⟨l', r'⟩, hrun, hstep⟩ := hstep
    cases hstep
    have hold := h.matched r (List.mem_of_getElem? hr)
    obtain ⟨item, trigger, -, -, -, hkind, -, hcase⟩ := handling_step_cases h.wf hrun
    have hwf := handling_step_frame hc h.wf hrun
    have hconn : ∀ d, l'.connected d = s.locator.connected d := fun d => by
      rw [Locator.connected, Locator.connected, hwf.2]
    refine ⟨hwf.1, fun r₁ hr₁ d hd => ?_⟩
    rw [hconn]
    rcases List.mem_or_eq_of_mem_set hr₁ with hr₁ | rfl
    · exact h.matched r₁ hr₁ d hd
    · rcases hcase with ⟨hop, -, -, -, hmatched, -⟩ | ⟨-, -, hmatched, -⟩
      · rcases hmatched d hd with hd | ⟨e, he, rfl⟩
        · exact hold d hd
        · -- the entry was found in a node that the query reaches
          obtain ⟨n, hn, hmeet, hin, hlive, hans⟩ := of_mem_reported he
          have hpub : r.isSubscription = false := by
            cases r₁ with
            | publish items call => exact hkind.symm
            | subscribe items call => exact absurd hd List.not_mem_nil
          refine hfinds trigger ?_ now rfl n hn hmeet e hin hlive hans
          simp [LocatorServer.publishing, hr, hop, hpub, Op.querying]
      · rw [hmatched] at hd
        exact hold d hd

/-- In every run whose publications find only subscriptions of connected servers, the loop of each
    Publish reaches all the servers with matches. -/
theorem publish_notifies_all (hc : 1 ≤ c) {acts : List Activity}
    (hfinds : Meets LocatorServer.step PublishesToConnected (LocatorServer.start b c) acts)
    (hrun : run LocatorServer.step (LocatorServer.start b c) acts = some s) (i : ℕ)
    (items : List StorableMsg) (call : Call (GoMap Int32 (List MatchMsg)))
    (hr : s.requests[i]? = some (.publish items call)) :
    (∀ d ∈ call.collected, d ∈ s.locator.servers) ∧
    ∃ sent, s.locator.notifications call.collected = some sent ∧
      ∀ d ms, call.collected.lookup d = some ms →
        ∃ server, s.locator.servers.lookup d = some server ∧ (server, ms) ∈ sent := by
  have hstart : Endpoints c b (LocatorServer.start b c) :=
    ⟨start_wf hc b, by simp [LocatorServer.start]⟩
  have h := run_invariant (fun _ _ _ h hf hs => Endpoints.step hc h hf hs) acts _ _ hstart hfinds hrun
  have hall : ∀ d ∈ call.collected, s.locator.connected d = true := fun d hd =>
    h.matched _ (List.mem_of_getElem? hr) d (AList.mem_keys.mp hd)
  exact ⟨fun d hd => AList.lookup_isSome.mp (hall d hd), notifications_total _ _ hall⟩

end

/-- Server 1 is connected; a Subscribe request names server 9, which is not, and server 1 publishes
    into its rectangle. -/
def subscribeUnconnected : List Activity :=
  [.connectToServer 1 1, .receiveSubscribe [⟨some ⟨9, 9, 0, 0, 20, 20⟩, 500⟩], .handle 0 1000,
    .handle 0 1000, .receivePublish onePublication, .handle 1 1001, .handle 1 1001]

/-- The loop of that Publish calls a nil client. -/
theorem publish_calls_nil_client :
    ∃ s, run LocatorServer.step (LocatorServer.start world 4) subscribeUnconnected = some s ∧
      s.requests[1]?.map Handling.pending = some [] ∧
      s.requests[1]?.map Handling.matched = some [9] ∧ s.locator.connected 9 = false ∧
      s.requests[1]?.map (Handling.notify s.locator) = some none :=
  exists_of_map_decide (by decide +kernel)

/-- With server 2 connected, the match for it is sent. -/
theorem publish_notifies_all_connected :
    ∃ s items call sent, run LocatorServer.step (LocatorServer.start world 4)
        (.connectToServer 2 2 :: subscribeThenPublish) = some s ∧
      s.requests[1]? = some (.publish items call) ∧ call.collected.keys = [2] ∧
      s.locator.notifications call.collected = some sent := by
  obtain ⟨s, hrun, hr⟩ := exists_of_map_decide
    (P := fun s : LocatorServer => s.requests[1]?.map Handling.matched = some [2])
    (o := run LocatorServer.step (LocatorServer.start world 4)
      (.connectToServer 2 2 :: subscribeThenPublish)) (by decide +kernel)
  obtain ⟨r, hr, hkeys⟩ := Option.map_eq_some_iff.mp hr
  cases r with
  | subscribe items call => cases hkeys
  | publish items call =>
    obtain ⟨-, sent, hsent, -⟩ :=
      publish_notifies_all (by decide) (by decide +kernel) hrun 1 items call hr
    exact ⟨s, items, call, sent, hrun, hr, hkeys, hsent⟩

end DistGame
