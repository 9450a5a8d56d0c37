import DistGame.Locator.Handover
import DistGame.System.Alone

/-! How a server learns of another server's object through the locator: by a notification of `Publish`,
    which makes it fetch the object and register, or by the response to its own `Subscribe`, which it
    drops. Which of the two reports a match depends on the order of the requests. -/

namespace DistGame
open QTree Quadtree

/-- What `PublishLoop` does with a SubscribeResponse: it looks at the error only. -/
def Colyseus.subscribed (s : Colyseus) (_ : List MatchMsg) : Colyseus := s

/-- The locator, and the servers by their sids. -/
structure Realm where
  locator : Locator
  servers : GoMap Int32 Colyseus

namespace Realm

/-- A `RegisterInterest` call that server `sid` makes, and the installation of the response. -/
def registerInterest (sid : Int32) (now : Int64) (servers : GoMap Int32 Colyseus)
    (call : PeerCall RegisterInterestRequest) : Option (GoMap Int32 Colyseus) := do
  let peer ← servers.lookup call.peer
  let (peer, response) := peer.registerInterest call.request now
  let servers := servers.insert call.peer peer
  let s ← servers.lookup sid
  let s ← s.installResponse call.sid response
  some (servers.insert sid s)

/-- `NotifySubscriber` at the server of a notification, with the calls it makes. -/
def notifySubscriber (now : Int64) (servers : GoMap Int32 Colyseus)
    (notification : Int32 × List MatchMsg) : Option (GoMap Int32 Colyseus) := do
  let s ← servers.lookup notification.1
  (s.interestCalls (s.neededObjectsBySid notification.2)).foldlM
    (registerInterest notification.1 now) servers

/-- `Publish` of one publication with everything it triggers: the locator reads its clock twice, and
    a server at which interest is registered reads its own. -/
def publish (s : Realm) (item : StorableMsg) (query insert register : Int64) : Option Realm := do
  let (locator, matches') ← s.locator.publishOne item query insert
  let sent ← locator.notifications matches'
  let servers ← sent.foldlM (notifySubscriber register) s.servers
  some ⟨locator, servers⟩

/-- `Subscribe` of one subscription of server `sid`, whose `PublishLoop` gets the response. -/
def subscribe (s : Realm) (sid : Int32) (item : StorableMsg) (query insert : Int64) :
    Option Realm := do
  let (locator, response) ← s.locator.subscribeOne item query insert
  let subscriber ← s.servers.lookup sid
  some ⟨locator, s.servers.insert sid (subscriber.subscribed response)⟩

/-- Server `x` has a replica of `g` and, at `t`, an unexpired registration for it at server `y`. -/
def Discovered (s : Realm) (x y : Int32) (g : UInt32) (t : Int64) : Prop :=
  (∃ subscriber ∈ s.servers.lookup x, (subscriber.replicas.lookup g).isSome) ∧
    ∃ owner ∈ s.servers.lookup y, 0 < owner.unexpired g x t

instance (s : Realm) (x y : Int32) (g : UInt32) (t : Int64) : Decidable (s.Discovered x y g t) :=
  have : Decidable (∃ subscriber ∈ s.servers.lookup x, (subscriber.replicas.lookup g).isSome) :=
    Option.decidableExistsMem _
  have : Decidable (∃ owner ∈ s.servers.lookup y, 0 < owner.unexpired g x t) :=
    Option.decidableExistsMem _
  inferInstanceAs (Decidable (_ ∧ _))

end Realm

/-! ### The notified server -/

namespace Colyseus
variable {A B : Colyseus} {g : UInt32} {y : Int32} {n : ℕ}

/-- A server with a replica of the object needs nothing. -/
theorem needed_present (h : (A.replicas.lookup g).isSome) (n : ℕ) :
    A.neededObjectsBySid (List.replicate n ⟨g, y⟩) = ∅ := by
  rw [neededObjects_eq, List.filter_replicate_of_neg (by simp [h])]
  rfl

/-- A server without one needs it as often as it is named. -/
theorem needed_absent (h : A.replicas.lookup g = none) (hy : y ≠ A.sid) (n : ℕ) :
    A.neededObjectsBySid (List.replicate (n + 1) ⟨g, y⟩) =
      (∅ : GoMap Int32 (List UInt32)).insert y (List.replicate (n + 1) g) := by
  have hsid : ∀ m ∈ List.replicate (n + 1) (⟨g, y⟩ : MatchMsg), m.sid = y := fun m hm =>
    congrArg MatchMsg.sid (List.eq_of_mem_replicate hm)
  rw [neededObjects_eq, List.filter_replicate_of_pos (by simp [h, hy]),
    GoMap.pushAll_same MatchMsg.sid MatchMsg.guid hsid (by simp), List.map_replicate]
  rfl

/-- It calls the owner once. -/
theorem interestCalls_one (hpeer : A.peerEndpoints.lookup y = some y) (guids : List UInt32) :
    A.interestCalls ((∅ : GoMap Int32 (List UInt32)).insert y guids) =
      [⟨y, y, ⟨guids, A.sid, false⟩⟩] := by
  rw [interestCalls, AList.entries_insert_of_notMem (AList.notMem_empty y)]
  simp [hpeer]

/-- The response installs a replica of each primary it names. -/
theorem installResponse_present (hkeyed : B.Keyed) (hp : (B.primaries.lookup g).isSome)
    {request : RegisterInterestRequest} (hg : g ∈ request.targetGuids) (sid : Int32) (now : Int64) :
    ∃ A', A.installResponse sid (B.registerInterest request now).2 = some A' ∧
      (A'.replicas.lookup g).isSome ∧ A'.sid = A.sid := by
  obtain ⟨o, ho⟩ := Option.isSome_iff_exists.mp hp
  obtain ⟨A', hA', hframe, hreplica⟩ := installResponse_named (A := A) hkeyed ho hg sid now
  exact ⟨A', hA', by rw [hreplica]; rfl, by rw [hframe]⟩

/-- A registration that names a primary adds an unexpired marker for as long as it lasts. -/
theorem registered_iff (hp : (B.primaries.lookup g).isSome) (x : Int32) (now t : Int64) :
    0 < (B.registerInterest ⟨List.replicate (n + 1) g, x, false⟩ now).1.unexpired g x t ↔
      0 < B.unexpired g x t ∨ ¬ now + B.interestTTLMs < t := by
  rw [unexpired, registerInterest_index, if_pos hp, List.countP_append, List.countP_replicate,
    ← unexpired, List.count_replicate_self]
  by_cases hlasts : now + B.interestTTLMs < t <;> simp [hlasts]

end Colyseus

/-! ### One request -/

/-- Server `x`, which is `A`, and server `y`, which is `B` and owns `g`, share the locator; `x` has a
    client at the locator and an endpoint for `y`. -/
structure Ready (c : ℤ) (b : Rectangle) (x y : Int32) (g : UInt32) (A B : Colyseus) (s : Realm) :
    Prop where
  wf : WF c b s.locator.root
  stored : ∀ e ∈ entries s.locator.root, e.sid = x ∨ e.sid = y
  client : s.locator.servers.lookup x = some x
  subscriber : s.servers.lookup x = some A
  owner : s.servers.lookup y = some B
  sid : A.sid = x
  ne : x ≠ y
  peer : A.peerEndpoints.lookup y = some y
  keyed : B.Keyed
  primary : (B.primaries.lookup g).isSome

section
variable {c : ℤ} {b : Rectangle} {x y : Int32} {g : UInt32} {A B : Colyseus} {s : Realm}

theorem Ready.discovered_iff (h : Ready c b x y g A B s) (t : Int64) :
    s.Discovered x y g t ↔ (A.replicas.lookup g).isSome ∧ 0 < B.unexpired g x t := by
  simp [Realm.Discovered, h.subscriber, h.owner]

/-- A notification of `g` makes a server without a replica fetch it and register. -/
theorem Ready.notified (h : Ready c b x y g A B s) (n : ℕ) (register t : Int64) :
    ∃ servers, Realm.notifySubscriber register s.servers (x, List.replicate (n + 1) ⟨g, y⟩) =
        some servers ∧ (servers.lookup x).isSome ∧
      ∀ locator, (⟨locator, servers⟩ : Realm).Discovered x y g t ↔ s.Discovered x y g t ∨
        (A.replicas.lookup g = none ∧
          (0 < B.unexpired g x t ∨ ¬ register + B.interestTTLMs < t)) := by
  have hx := h.sid
  subst hx
  have hy : y ≠ A.sid := h.ne.symm
  rw [h.discovered_iff]
  cases hr : A.replicas.lookup g with
  | some r =>
    have hneeded := Colyseus.needed_present (A := A) (y := y) (by rw [hr]; rfl) (n + 1)
    refine ⟨s.servers, ?_, by rw [h.subscriber]; rfl, fun locator => ?_⟩
    · simp only [Realm.notifySubscriber, h.subscriber, Option.bind_eq_bind, Option.bind_some, hneeded]
      rfl
    · simp [Realm.Discovered, h.subscriber, h.owner, hr]
  | none =>
    have hneeded := Colyseus.needed_absent hr hy n
    have hcalls := Colyseus.interestCalls_one h.peer (List.replicate (n + 1) g)
    have hmem : g ∈ (⟨List.replicate (n + 1) g, A.sid, false⟩ : RegisterInterestRequest).targetGuids :=
      List.mem_replicate.mpr ⟨Nat.succ_ne_zero n, rfl⟩
    obtain ⟨A', hA', hpresent, hsid'⟩ :=
      Colyseus.installResponse_present (A := A) h.keyed h.primary hmem y register
    let B' := (B.registerInterest ⟨List.replicate (n + 1) g, A.sid, false⟩ register).1
    have hx : (s.servers.insert y B').lookup A.sid = some A := by
      rw [AList.lookup_insert_ne h.ne]
      exact h.subscriber
    refine ⟨(s.servers.insert y B').insert A.sid A', ?_, ?_, fun locator => ?_⟩
    · simp only [Realm.notifySubscriber, h.subscriber, Option.bind_eq_bind, Option.bind_some, hneeded,
        hcalls, List.foldlM_cons, List.foldlM_nil, Realm.registerInterest, h.owner]
      rw [hx, Option.bind_some, hA']
      rfl
    · rw [AList.lookup_insert]
      rfl
    · have hregistered := Colyseus.registered_iff (n := n) h.primary A.sid register t
      simp [Realm.Discovered, AList.lookup_insert_ne h.ne.symm, hpresent, B', hregistered]

/-- A publication of `g`, with everything it triggers: it is discovered if it was, or if a live
    subscription is found while there is no replica and the registration lasts. -/
theorem Ready.published (hb : b.Nonneg) (hc : 1 ≤ c) (h : Ready c b x y g A B s) {item : StorableMsg}
    {pub : Storable} (hitem : item.storable false = some pub) (hguid : pub.guid = g)
    (hsid : pub.sid = y) (query insert register t : Int64) :
    ∃ s', s.publish item query insert register = some s' ∧ WF c b s'.locator.root ∧
      (s'.servers.lookup x).isSome ∧
      (s'.Discovered x y g t ↔ s.Discovered x y g t ∨
        (A.replicas.lookup g = none ∧ Finds s.locator query pub ∧
          (0 < B.unexpired g x t ∨ ¬ register + B.interestTTLMs < t))) := by
  obtain ⟨l', hpublish, hwf', hservers⟩ := publishOne_spec hc h.wf hitem query insert
  -- an entry that answers a publication of `y` is one of `x`
  have hall : ∀ e ∈ reported query pub s.locator.lastUpdates s.locator.root, e.sid = x := by
    intro e he
    have hans := (reported_sublist query pub _ _).subset he
    simp only [answersIn, List.mem_filter, answers, Bool.and_eq_true, bne_iff_ne, ne_eq] at hans
    rcases h.stored e hans.1 with hx | hy
    · exact hx
    · exact absurd (hsid.trans hy.symm) hans.2.2.2
  have hclient : l'.servers.lookup x = some x := by
    rw [hservers]
    exact h.client
  have hsent := notifications_same pub hall hclient
  rw [finds_iff hb h.wf]
  by_cases hnone : reported query pub s.locator.lastUpdates s.locator.root = []
  · refine ⟨⟨l', s.servers⟩, ?_, hwf', by rw [h.subscriber]; rfl, ?_⟩
    · simp only [Realm.publish, hpublish, Option.bind_eq_bind, Option.bind_some, hsent, if_pos hnone]
      rfl
    · simp [hnone, Realm.Discovered]
  · obtain ⟨n, hn⟩ : ∃ n, (reported query pub s.locator.lastUpdates s.locator.root).length = n + 1 :=
      Nat.exists_eq_succ_of_ne_zero (mt List.length_eq_zero_iff.mp hnone)
    obtain ⟨servers, hnotified, hx, hdiscovered⟩ := h.notified n register t
    refine ⟨⟨l', servers⟩, ?_, hwf', hx, ?_⟩
    · simp only [Realm.publish, hpublish, Option.bind_eq_bind, Option.bind_some, hsent, if_neg hnone,
        hn, hguid, hsid, List.foldlM_cons, List.foldlM_nil, hnotified]
      rfl
    · rw [hdiscovered l']
      simp [hnone]

/-- A subscription changes the tree only: no server learns of a match. -/
theorem subscribed_spec (hb : b.Nonneg) (hc : 1 ≤ c) (hwf : WF c b s.locator.root) (hx : (s.servers.lookup x).isSome)
    {item : StorableMsg} {sub : Storable} (hitem : item.storable true = some sub)
    (query insert : Int64) :
    ∃ s' response, s.subscribe x item query insert = some s' ∧
      s.locator.subscribeOne item query insert = some (s'.locator, response) ∧
      ∀ k, s'.servers.lookup k = s.servers.lookup k := by
  obtain ⟨l', response, hsubscribe, -⟩ := subscribeOne_spec hb hc hwf hitem query insert
  obtain ⟨A, hA⟩ := Option.isSome_iff_exists.mp hx
  refine ⟨⟨l', s.servers.insert x A⟩, response, ?_, hsubscribe, fun k => ?_⟩
  · simp only [Realm.subscribe, hsubscribe, hA, Option.bind_eq_bind, Option.bind_some]
    rfl
  · rw [GoMap.lookup_insert_ite]
    split
    · rename_i hk
      rw [hk, hA]
    · rfl

/-- The entry of a subscription of server `x` is all that its `Subscribe` adds for the publications
    to come. -/
theorem Ready.subscribed (hb : b.Nonneg) (hc : 1 ≤ c) (h : Ready c b x y g A B s)
    {item : StorableMsg} {sub : Storable} (hitem : item.storable true = some sub) (hsid : sub.sid = x)
    (query insert : Int64) :
    ∃ s', s.subscribe x item query insert = some s' ∧ Ready c b x y g A B s' ∧
      (HasRoom s.locator → b.intersects sub.rect = true → ∀ now pub, b.intersects pub.rect = true →
        answers pub (sub.stored insert) = true → (Finds s'.locator now pub ↔
          expired now (sub.stored insert) = false ∨
            Outlasts s.locator sub query insert now pub)) := by
  obtain ⟨s', response, hsubscribe, hone, hsame⟩ := subscribed_spec hb hc h.wf
    (by rw [h.subscriber]; rfl) hitem query insert
  obtain ⟨l', response', hone', hwf', hservers, hentries, hfinds⟩ :=
    subscribeOne_spec hb hc h.wf hitem query insert
  rw [hone] at hone'
  cases hone'
  refine ⟨s', hsubscribe, ⟨hwf', fun e he => ?_, ?_, ?_, ?_, h.sid, h.ne, h.peer, h.keyed,
    h.primary⟩, hfinds⟩
  · rcases hentries e he with he | rfl
    · exact h.stored e he
    · exact .inl hsid
  · rw [hservers]
    exact h.client
  · rw [hsame]
    exact h.subscriber
  · rw [hsame]
    exact h.owner

/-! ### Two requests -/

/-- The clock readings of the two requests: those of the publication, at the locator and at the server
    that registers interest, and those of the subscription. -/
structure Readings where
  query : Int64
  insert : Int64
  register : Int64
  query' : Int64
  insert' : Int64

/-- Both requests, the publication first. -/
def Realm.publishThenSubscribe (s : Realm) (x : Int32) (pub sub : StorableMsg) (r : Readings) :
    Option Realm :=
  (s.publish pub r.query r.insert r.register).bind fun s => s.subscribe x sub r.query' r.insert'

/-- Both requests, the subscription first. -/
def Realm.subscribeThenPublish (s : Realm) (x : Int32) (pub sub : StorableMsg) (r : Readings) :
    Option Realm :=
  (s.subscribe x sub r.query' r.insert').bind fun s => s.publish pub r.query r.insert r.register

theorem Ready.publishThenSubscribe_iff (hb : b.Nonneg) (hc : 1 ≤ c) (h : Ready c b x y g A B s)
    {pub sub : StorableMsg} {P S : Storable} (hP : pub.storable false = some P)
    (hS : sub.storable true = some S) (hguid : P.guid = g) (hsid : P.sid = y) (r : Readings)
    (t : Int64) :
    (∃ s', s.publishThenSubscribe x pub sub r = some s' ∧ s'.Discovered x y g t) ↔
    s.Discovered x y g t ∨ (A.replicas.lookup g = none ∧ Finds s.locator r.query P ∧
      (0 < B.unexpired g x t ∨ ¬ r.register + B.interestTTLMs < t)) := by
  obtain ⟨s₁, hpublish, hwf₁, hx₁, hiff⟩ :=
    h.published hb hc hP hguid hsid r.query r.insert r.register t
  obtain ⟨s₂, response, hsubscribe, -, hsame⟩ := subscribed_spec hb hc hwf₁ hx₁ hS r.query' r.insert'
  have hrun : s.publishThenSubscribe x pub sub r = some s₂ := by
    rw [Realm.publishThenSubscribe, hpublish, Option.bind_some, hsubscribe]
  have hkeeps : s₂.Discovered x y g t ↔ s₁.Discovered x y g t := by
    simp only [Realm.Discovered, hsame]
  rw [← hiff, ← hkeeps, hrun]
  simp

theorem Ready.subscribeThenPublish_iff (hb : b.Nonneg) (hc : 1 ≤ c) (h : Ready c b x y g A B s)
    {pub sub : StorableMsg} {P S : Storable} (hP : pub.storable false = some P)
    (hS : sub.storable true = some S) (hguid : P.guid = g) (hsid : P.sid = y) (hsid' : S.sid = x)
    (hroom : HasRoom s.locator) (hPb : b.intersects P.rect = true)
    (hSb : b.intersects S.rect = true) (hmeet : P.rect.intersects S.rect = true) (r : Readings)
    (t : Int64) :
    (∃ s', s.subscribeThenPublish x pub sub r = some s' ∧ s'.Discovered x y g t) ↔
    s.Discovered x y g t ∨ (A.replicas.lookup g = none ∧
      (expired r.query (S.stored r.insert') = false ∨
        Outlasts s.locator S r.query' r.insert' r.query P) ∧
      (0 < B.unexpired g x t ∨ ¬ r.register + B.interestTTLMs < t)) := by
  obtain ⟨s₁, hsubscribe, h₁, hfinds⟩ := h.subscribed hb hc hS hsid' r.query' r.insert'
  obtain ⟨s₂, hpublish, -, -, hiff⟩ :=
    h₁.published hb hc hP hguid hsid r.query r.insert r.register t
  have hrun : s.subscribeThenPublish x pub sub r = some s₂ := by
    rw [Realm.subscribeThenPublish, hsubscribe, Option.bind_some, hpublish]
  have hans : answers P (S.stored r.insert') = true := by
    have hkindP : P.isSubscription = false := by
      obtain ⟨o, -, rfl⟩ := Option.map_eq_some_iff.mp hP
      rfl
    have hkindS : S.isSubscription = true := by
      obtain ⟨o, -, rfl⟩ := Option.map_eq_some_iff.mp hS
      rfl
    simp [answers, Storable.stored, hmeet, hkindP, hkindS, hsid, hsid', h.ne.symm]
  have hkeeps : s₁.Discovered x y g t ↔ s.Discovered x y g t := by
    rw [h.discovered_iff, h₁.discovered_iff]
  rw [hrun, ← hkeeps, ← hfinds hroom hSb r.query P hPb hans]
  simp [hiff]

end

/-- A server discovers the published object in both orders if and only if it already has a replica and
    is registered, or has no replica, an older subscription of it is found, it or the new one is found
    after the `Subscribe`, and both registrations last: a match that only its own `Subscribe` reports is
    lost, and so is any match for an object that it has an unregistered replica of. -/
theorem discovered_in_both_orders_iff {c : ℤ} {b : Rectangle} (hb : b.Nonneg) (hc : 1 ≤ c)
    {acts : List Activity} {L : LocatorServer} {B₀ A B : Colyseus} {inputs : List Input}
    {servers : GoMap Int32 Colyseus} {pub sub : StorableMsg} {P S : Storable}
    (hL : run LocatorServer.step (LocatorServer.start b c) acts = some L)
    (hacts : ∀ a ∈ acts, Between A.sid B.sid a) (hB₀ : B₀.Fresh)
    (hB : run Colyseus.step B₀ inputs = some B) (hne : A.sid ≠ B.sid)
    (hclient : L.locator.servers.lookup A.sid = some A.sid)
    (hpeer : A.peerEndpoints.lookup B.sid = some B.sid) (hx : servers.lookup A.sid = some A)
    (hy : servers.lookup B.sid = some B) (hP : pub.storable false = some P) (hsid : P.sid = B.sid)
    (hprimary : (B.primaries.lookup P.guid).isSome) (hS : sub.storable true = some S)
    (hsid' : S.sid = A.sid) (hmeet : P.rect.intersects S.rect = true)
    (hPb : b.intersects P.rect = true) (hSb : b.intersects S.rect = true) (hroom : HasRoom L.locator)
    (r r' : Readings) (t : Int64) :
    ((∃ s, (⟨L.locator, servers⟩ : Realm).publishThenSubscribe A.sid pub sub r = some s ∧
        s.Discovered A.sid B.sid P.guid t) ∧
      ∃ s, (⟨L.locator, servers⟩ : Realm).subscribeThenPublish A.sid pub sub r' = some s ∧
        s.Discovered A.sid B.sid P.guid t) ↔
    ((A.replicas.lookup P.guid).isSome ∧ 0 < B.unexpired P.guid A.sid t) ∨
      (A.replicas.lookup P.guid = none ∧ Finds L.locator r.query P ∧
        (expired r'.query (S.stored r'.insert') = false ∨
          Outlasts L.locator S r'.query' r'.insert' r'.query P) ∧
        (0 < B.unexpired P.guid A.sid t ∨
          (¬ r.register + B.interestTTLMs < t ∧ ¬ r'.register + B.interestTTLMs < t))) := by
  have hshared := shared_run hc hacts hL
  have hready : Ready c b A.sid B.sid P.guid A B ⟨L.locator, servers⟩ :=
    ⟨hshared.wf, hshared.stored, hclient, hx, hy, rfl, hne, hpeer,
      (Colyseus.run_inStep hB₀.inStep hB).1.keyed, hprimary⟩
  rw [hready.publishThenSubscribe_iff hb hc hP hS rfl hsid r t,
    hready.subscribeThenPublish_iff hb hc hP hS rfl hsid hsid' hroom hPb hSb hmeet r' t,
    hready.discovered_iff, ← or_and_left]
  refine or_congr_right ?_
  rw [or_and_left]
  constructor
  · rintro ⟨⟨hnone, hfinds, hlasts⟩, -, hstays, hlasts'⟩
    exact ⟨hnone, hfinds, hstays, hlasts, hlasts'⟩
  · rintro ⟨hnone, hfinds, hstays, hlasts, hlasts'⟩
    exact ⟨⟨hnone, hfinds, hlasts⟩, hnone, hstays, hlasts'⟩

/-! ### A player and a watcher -/

/-- Server 1 with a player under 100, and server 2 without objects, which knows server 1. -/
def hosting : Colyseus :=
  ((newServer 1 100).spawnObject ⟨0, 1, ⟨10, 10, 2, 2⟩, player, ⟨0, 0⟩⟩).2

def watching : Colyseus :=
  { newServer 2 200 with peerEndpoints := (∅ : GoMap Int32 Int32).insert 1 1 }

def pair (A : Colyseus) : GoMap Int32 Colyseus :=
  ((∅ : GoMap Int32 Colyseus).insert 1 hosting).insert 2 A

def playerItem : StorableMsg := ⟨some ⟨100, 1, 10, 10, 2, 2⟩, 500⟩

def watchItem : StorableMsg := ⟨some ⟨200, 2, 5, 5, 20, 20⟩, 500⟩

def bothConnected : List Activity := [.connectToServer 1 1, .connectToServer 2 2]

def readings : Readings := ⟨1000, 1000, 1001, 1002, 1002⟩

def readings' : Readings := ⟨1002, 1002, 1003, 1000, 1000⟩

/-- Server 2 after an update of another object has told it of the player. -/
def told : Colyseus :=
  { watching with
    replicas := (∅ : GoMap UInt32 GameObject).insert 100 ⟨100, 1, ⟨10, 10, 2, 2⟩, player, ⟨0, 0⟩⟩ }

/-- In an empty tree the player is discovered if the subscription comes first and not if the
    publication does; with an unregistered replica of it server 2 is registered in neither order. -/
theorem discovery_depends_on_order :
    ∃ L, run LocatorServer.step (LocatorServer.start world 4) bothConnected = some L ∧
      HasRoom L.locator ∧ (hosting.primaries.lookup 100).isSome ∧
      (∃ s, (⟨L.locator, pair watching⟩ : Realm).publishThenSubscribe 2 playerItem watchItem readings =
        some s ∧ ¬ s.Discovered 2 1 100 1010) ∧
      (∃ s, (⟨L.locator, pair watching⟩ : Realm).subscribeThenPublish 2 playerItem watchItem readings' =
        some s ∧ s.Discovered 2 1 100 1010) ∧
      run Colyseus.step watching [.install 1 ⟨[⟨100, 10, 10, 2, 2, player⟩], [⟨0, 0⟩]⟩] = some told ∧
      ∃ s, (⟨L.locator, pair told⟩ : Realm).subscribeThenPublish 2 playerItem watchItem readings' =
        some s ∧ ¬ s.Discovered 2 1 100 1010 := by
  obtain ⟨L, hL, hroom, hfirst, hsecond, hthird⟩ := exists_of_map_decide
    (o := run LocatorServer.step (LocatorServer.start world 4) bothConnected)
    (P := fun L => HasRoom L.locator ∧
      ((⟨L.locator, pair watching⟩ : Realm).publishThenSubscribe 2 playerItem watchItem readings).any
        (fun s => ¬ s.Discovered 2 1 100 1010) ∧
      ((⟨L.locator, pair watching⟩ : Realm).subscribeThenPublish 2 playerItem watchItem readings').any
        (fun s => s.Discovered 2 1 100 1010) ∧
      ((⟨L.locator, pair told⟩ : Realm).subscribeThenPublish 2 playerItem watchItem readings').any
        (fun s => ¬ s.Discovered 2 1 100 1010)) (by decide +kernel)
  obtain ⟨s₁, hs₁, h₁⟩ := (Option.any_eq_true _ _).mp hfirst
  obtain ⟨s₂, hs₂, h₂⟩ := (Option.any_eq_true _ _).mp hsecond
  obtain ⟨s₃, hs₃, h₃⟩ := (Option.any_eq_true _ _).mp hthird
  exact ⟨L, hL, hroom, rfl, ⟨s₁, hs₁, of_decide_eq_true h₁⟩, ⟨s₂, hs₂, of_decide_eq_true h₂⟩, rfl,
    s₃, hs₃, of_decide_eq_true h₃⟩

/-- An older subscription of server 2 is in the tree. -/
def watched : List Activity :=
  bothConnected ++ [.receiveSubscribe [⟨some ⟨201, 2, 5, 5, 20, 20⟩, 500⟩], .handle 0 900,
    .handle 0 900]

theorem discovered_in_both_orders_iff_watched :
    ∃ L s s', run LocatorServer.step (LocatorServer.start world 4) watched = some L ∧
      (⟨L.locator, pair watching⟩ : Realm).publishThenSubscribe 2 playerItem watchItem readings =
        some s ∧ s.Discovered 2 1 100 1010 ∧
      (⟨L.locator, pair watching⟩ : Realm).subscribeThenPublish 2 playerItem watchItem readings' =
        some s' ∧ s'.Discovered 2 1 100 1010 := by
  obtain ⟨L, hL, hclient, hroom, hfinds⟩ := exists_of_map_decide
    (o := run LocatorServer.step (LocatorServer.start world 4) watched)
    (P := fun L => L.locator.servers.lookup 2 = some 2 ∧ HasRoom L.locator ∧
      Finds L.locator 1000 ⟨⟨10, 10, 2, 2⟩, 1, 100, 500, false⟩) (by decide +kernel)
  have hB : run Colyseus.step (newServer 1 100) [.spawn ⟨some ⟨0, 10, 10, 2, 2, player⟩⟩ 0] =
      some hosting := rfl
  have hP : playerItem.storable false = some ⟨⟨10, 10, 2, 2⟩, 1, 100, 500, false⟩ := rfl
  have hS : watchItem.storable true = some ⟨⟨5, 5, 20, 20⟩, 2, 200, 500, true⟩ := rfl
  have hx : (pair watching).lookup watching.sid = some watching := rfl
  have hy : (pair watching).lookup hosting.sid = some hosting := rfl
  obtain ⟨⟨s, hs, hd⟩, s', hs', hd'⟩ := (discovered_in_both_orders_iff (A := watching) (by decide +kernel)
    (by decide) hL (by decide) (Colyseus.fresh_newServer 1 100) hB (by decide) hclient rfl hx hy hP
    rfl rfl hS rfl (by decide +kernel) (by decide +kernel) (by decide +kernel) hroom readings readings'
    1010).mpr (.inr ⟨rfl, hfinds, .inl (by decide), .inr (by decide)⟩)
  exact ⟨L, s, s', hL, hs, hd, hs', hd'⟩

end DistGame
