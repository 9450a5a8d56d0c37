import DistGame.Locator.Requests
import DistGame.Server.Publishing
import DistGame.System.Alone

/-! The whole system: the servers and the messages between them, the requests of their `PublishLoop`s on
    the way to the locator, and the locator, which notifies a server of what it matches. All of it runs
    concurrently; requests to the locator may be lost and overtake each other. `Mesh.observed` also notes
    what the locator has done and from which state of a server each request was made. -/

namespace DistGame

/-- The servers, the requests to the locator in flight, and the locator. -/
structure Mesh where
  system : System
  requests : List Activity
  locator : LocatorServer

/-- What can happen next: something among the servers, an iteration of a server's `PublishLoop` over its
    primaries in some order, the arrival or the loss of a request, something at the locator, or the call
    by which the `i`-th request notifies the server under `sid`. -/
inductive Happening where
  | system (action : Action)
  | publishLoop (sid : Int32) (primaries : List GameObject) (now : Int64)
  | arrive (i : ℕ)
  | lose (i : ℕ)
  | locator (activity : Activity)
  | notify (i : ℕ) (sid : Int32)

/-- The locator's clock reading of a happening. -/
def Happening.time : Happening → Option Int64
  | .locator activity => activity.time
  | _ => none

/-- An iteration of `PublishLoop`: the server as it was, and its clock reading. -/
structure Report where
  server : Colyseus
  now : Int64

namespace Mesh

/-- The notification of a server comes from the locator only, and so does the arrival of a request. -/
def step (m : Mesh) : Happening → Option Mesh
  | .system (.notify _ _) => none
  | .system action => (m.system.step action).map fun system => { m with system }
  | .publishLoop sid primaries now => (m.system.servers.lookup sid).bind fun s =>
    if primaries.Perm s.primaries.values then
      some { m with requests := m.requests ++
        [.receivePublish (s.locations primaries now), .receiveSubscribe (s.areaOfInterest primaries now)] }
    else none
  | .arrive i => m.requests[i]?.bind fun request => (m.locator.step request).map fun locator =>
    { m with requests := m.requests.eraseIdx i, locator }
  | .lose i => m.requests[i]?.map fun _ => { m with requests := m.requests.eraseIdx i }
  | .locator (.receivePublish _) => none
  | .locator (.receiveSubscribe _) => none
  | .locator activity => (m.locator.step activity).map fun locator => { m with locator }
  | .notify i sid => m.locator.requests[i]?.bind fun r =>
    if r.pending = [] then
      (m.locator.locator.servers.lookup sid).bind fun server =>
        (m.system.step (.notify server (r.notices sid))).map fun system => { m with system }
    else none

/-- The activity of the locator in a happening. -/
def activity (m : Mesh) : Happening → Option Activity
  | .arrive i => m.requests[i]?
  | .locator activity => some activity
  | _ => none

/-- The report of a happening. -/
def report (m : Mesh) : Happening → Option Report
  | .publishLoop sid _ now => (m.system.servers.lookup sid).map fun server => ⟨server, now⟩
  | _ => none

/-- A step with the history of the locator's events and of the reports. -/
def observed : Mesh × List Event × List Report → Happening →
    Option (Mesh × List Event × List Report)
  | (m, log, reports), h => (m.step h).map fun m' =>
    (m', ((m.activity h).bind m.locator.event).toList ++ log, (m.report h).toList ++ reports)

/-- Fresh servers under their own sids, which publish for a time that is not negative, and a locator over
    an empty tree. -/
structure Initial (c : ℤ) (b : Rectangle) (m : Mesh) : Prop where
  system : m.system.Initial
  requests : m.requests = []
  locator : m.locator = LocatorServer.start b c
  lifetime : ∀ k s, m.system.servers.lookup k = some s → 0 ≤ s.predTimeMs

end Mesh

/-! ### One happening -/

section
variable {m m' : Mesh} {h : Happening}

/-- Everything a happening can do. -/
inductive Happens (m : Mesh) : Happening → Mesh → Prop where
  | system {action : Action} {system : System} (hnot : ∀ sid publications, action ≠ .notify sid publications)
      (hstep : m.system.step action = some system) : Happens m (.system action) { m with system }
  | publishLoop {sid : Int32} {primaries : List GameObject} {now : Int64} {s : Colyseus}
      (hs : m.system.servers.lookup sid = some s) (horder : primaries.Perm s.primaries.values) :
      Happens m (.publishLoop sid primaries now) { m with requests := m.requests ++
        [.receivePublish (s.locations primaries now),
          .receiveSubscribe (s.areaOfInterest primaries now)] }
  | arrive {i : ℕ} {request : Activity} {locator : LocatorServer}
      (hrequest : m.requests[i]? = some request) (hstep : m.locator.step request = some locator) :
      Happens m (.arrive i) { m with requests := m.requests.eraseIdx i, locator }
  | lose {i : ℕ} : Happens m (.lose i) { m with requests := m.requests.eraseIdx i }
  | locator {activity : Activity} {locator : LocatorServer} (hitems : activity.items = [])
      (hstep : m.locator.step activity = some locator) : Happens m (.locator activity) { m with locator }
  | notify {i : ℕ} {sid server : Int32} {r : Handling} {system : System}
      (hr : m.locator.requests[i]? = some r)
      (hstep : m.system.step (.notify server (r.notices sid)) = some system) :
      Happens m (.notify i sid) { m with system }

theorem mesh_cases (hstep : m.step h = some m') : Happens m h m' := by
  cases h with
  | system action =>
    cases action with
    | notify sid publications => cases hstep
    | _ =>
      obtain ⟨system, hsystem, rfl⟩ := Option.map_eq_some_iff.mp hstep
      exact .system (by simp) hsystem
  | publishLoop sid primaries now =>
    obtain ⟨s, hs, hstep⟩ := Option.bind_eq_some_iff.mp hstep
    split at hstep
    · cases hstep
      exact .publishLoop hs ‹_›
    · cases hstep
  | arrive i =>
    obtain ⟨request, hrequest, hstep⟩ := Option.bind_eq_some_iff.mp hstep
    obtain ⟨locator, hlocator, rfl⟩ := Option.map_eq_some_iff.mp hstep
    exact .arrive hrequest hlocator
  | lose i =>
    obtain ⟨request, -, rfl⟩ := Option.map_eq_some_iff.mp hstep
    exact .lose
  | locator activity =>
    cases activity with
    | receivePublish publications => cases hstep
    | receiveSubscribe subscriptions => cases hstep
    | connectToServer sid server =>
      cases hstep
      exact .locator rfl rfl
    | _ =>
      obtain ⟨locator, hlocator, rfl⟩ := Option.map_eq_some_iff.mp hstep
      exact .locator rfl hlocator
  | notify i sid =>
    obtain ⟨r, hr, hstep⟩ := Option.bind_eq_some_iff.mp hstep
    split at hstep
    · obtain ⟨server, -, hstep⟩ := Option.bind_eq_some_iff.mp hstep
      obtain ⟨system, hsystem, rfl⟩ := Option.map_eq_some_iff.mp hstep
      exact .notify hr hsystem
    · cases hstep

end

/-- The requests at the locator were there before, with the same items, or have just arrived. -/
theorem locator_requests {s s' : LocatorServer} {a : Activity} (hstep : s.step a = some s')
    {r' : Handling} (hr' : r' ∈ s'.requests) :
    (∃ r ∈ s.requests, r'.items = r.items ∧ r'.isSubscription = r.isSubscription) ∨
      (a = .receivePublish r'.items ∧ r'.isSubscription = false) ∨
      (a = .receiveSubscribe r'.items ∧ r'.isSubscription = true) := by
  cases a with
  | connectToServer sid server =>
    cases hstep
    exact .inl ⟨r', hr', rfl, rfl⟩
  | receivePublish publications =>
    cases hstep
    rcases List.mem_append.mp hr' with hr' | hr'
    · exact .inl ⟨r', hr', rfl, rfl⟩
    · rw [List.mem_singleton.mp hr']
      exact .inr (.inl ⟨rfl, rfl⟩)
  | receiveSubscribe subscriptions =>
    cases hstep
    rcases List.mem_append.mp hr' with hr' | hr'
    · exact .inl ⟨r', hr', rfl, rfl⟩
    · rw [List.mem_singleton.mp hr']
      exact .inr (.inr ⟨rfl, rfl⟩)
  | handle i now =>
    simp only [LocatorServer.step, Option.bind_eq_bind, Option.bind_eq_some_iff] at hstep
    obtain ⟨r, hr, ⟨l', r₁⟩, hrun, hstep⟩ := hstep
    cases hstep
    rcases List.mem_or_eq_of_mem_set hr' with hr' | rfl
    · exact .inl ⟨r', hr', rfl, rfl⟩
    · refine .inl ⟨r, List.mem_of_getElem? hr, ?_⟩
      cases r with
      | publish items call =>
        obtain ⟨x, -, heq⟩ := Option.map_eq_some_iff.mp hrun
        cases heq
        exact ⟨rfl, rfl⟩
      | subscribe items call =>
        obtain ⟨x, -, heq⟩ := Option.map_eq_some_iff.mp hrun
        cases heq
        exact ⟨rfl, rfl⟩
  | cleanup now =>
    obtain ⟨l', -, rfl⟩ := Option.map_eq_some_iff.mp hstep
    exact .inl ⟨r', hr', rfl, rfl⟩

/-! ### The invariant -/

/-- An iteration of some `PublishLoop` made the item: it is about a primary that the server had. -/
def Announced (reports : List Report) (isSubscription : Bool) (item : StorableMsg) : Prop :=
  ∃ report ∈ reports, ∃ k o, report.server.primaries.lookup k = some o ∧
    item = report.server.storableMsg o.guid
      (if isSubscription then o.getInterest report.server.predTimeMs report.server.pubTimeMs report.now
        else o.getLocation report.now)

/-- The kind of the items of a request. -/
def Activity.isSubscription : Activity → Bool
  | .receiveSubscribe _ => true
  | _ => false

/-- What `H` says of the owners, the locator's history and the reports explain all that there is: the
    servers are sound, what the locator stores and matches comes from its requests, these come from
    reports, reports are of servers that own their primaries, and servers ask owners only. -/
structure Justified (c : ℤ) (b : Rectangle) (H : Int32 → UInt32 → Prop) (now : Int64)
    (x : Mesh × List Event × List Report) : Prop where
  filed : Filed x.1.system
  owned : Owned H x.1.system
  lifetime : ∀ k s, x.1.system.servers.lookup k = some s → 0 ≤ s.predTimeMs
  explained : Explained c b now x.1.locator x.2.1
  sent : ∀ request ∈ x.1.requests, request.time = none ∧ ∀ item ∈ request.items,
    Announced x.2.2 request.isSubscription item
  received : ∀ r ∈ x.1.locator.requests, ∀ item ∈ r.items, Announced x.2.2 r.isSubscription item
  reports : ∀ report ∈ x.2.2, 0 ≤ report.server.predTimeMs ∧ report.server.Keyed ∧
    ∀ g, (report.server.primaries.lookup g).isSome → H report.server.sid g
  asked : ∀ dest key request, .register dest key request ∈ x.1.system.network →
    ∀ g ∈ request.targetGuids, H dest g

theorem Announced.mono {reports reports' : List Report} {isSubscription : Bool} {item : StorableMsg}
    (h : Announced reports isSubscription item) (hsub : reports ⊆ reports') :
    Announced reports' isSubscription item := by
  obtain ⟨report, hreport, rest⟩ := h
  exact ⟨report, hsub hreport, rest⟩

section
variable {c : ℤ} {b : Rectangle} {H H' : Int32 → UInt32 → Prop} {now : Int64} {m m' : Mesh}
  {log : List Event} {reports : List Report}

/-- An announced item names an object that its server has owned. -/
theorem Justified.announced (h : Justified c b H now (m, log, reports)) {isSubscription : Bool}
    {item : StorableMsg} (hitem : Announced reports isSubscription item) :
    0 ≤ item.ttl ∧ ∃ msg, item.gameObject = some msg ∧ H msg.sid msg.guid := by
  obtain ⟨report, hreport, k, o, ho, rfl⟩ := hitem
  obtain ⟨httl, hkeyed, howns⟩ := h.reports report hreport
  refine ⟨httl, _, rfl, ?_⟩
  rw [hkeyed k o ho]
  exact howns k (by rw [ho]; rfl)

/-- What a request asked about was reported by the server it names. -/
theorem Justified.asker (h : Justified c b H now (m, log, reports)) {i : ℕ} {q : Storable}
    (hq : Asked m.locator.requests i q) :
    ∃ report ∈ reports, ∃ o, report.server.primaries.lookup q.guid = some o ∧
      q = ⟨if q.isSubscription then
          o.getInterest report.server.predTimeMs report.server.pubTimeMs report.now
        else o.getLocation report.now, report.server.sid, q.guid, report.server.predTimeMs,
        q.isSubscription⟩ := by
  obtain ⟨r, item, hr, hitem, hkind, hstorable⟩ := hq
  obtain ⟨report, hreport, k, o, ho, rfl⟩ := h.received r (List.mem_of_getElem? hr) item hitem
  obtain ⟨-, hkeyed, -⟩ := h.reports report hreport
  rw [Colyseus.storable_storableMsg, hkind, hkeyed k o ho] at hstorable
  have heq := Option.some.inj hstorable
  have hguid : k = q.guid := congrArg Storable.guid heq
  subst hguid
  exact ⟨report, hreport, o, ho, heq.symm⟩

/-- A notice names an object that its server has owned. -/
theorem Justified.noticed (h : Justified c b H now (m, log, reports)) {i : ℕ} {r : Handling}
    (hr : m.locator.requests[i]? = some r) {d : Int32} {notice : MatchMsg} (hm : notice ∈ r.notices d) :
    H notice.sid notice.guid := by
  have hcoll := h.explained.collected i r hr
  cases r with
  | publish items call =>
    obtain ⟨q, e, rfl, -, entry, t₀, -, -, hmatched⟩ := hcoll d notice hm
    obtain ⟨j, t, t', later, earlier, -, -, hasked, -⟩ := hmatched
    obtain ⟨report, hreport, o, ho, heq⟩ := h.asker hasked
    obtain ⟨-, -, howns⟩ := h.reports report hreport
    have hsid : q.sid = report.server.sid := congrArg Storable.sid heq
    rw [hsid]
    exact howns _ (by rw [ho]; rfl)
  | subscribe items call => exact absurd hm List.not_mem_nil

end

/-! ### One step of the servers -/

section
variable {H : Int32 → UInt32 → Prop} {s s' : System}

/-- A server that is asked keeps what it is set to, and asks owners only. -/
theorem ask_owners {sid : Int32} {input : Input} (hf : Filed s) (hown : Owned H s)
    (hnotices : ∀ publications, input = .notify publications → ∀ n ∈ publications, H n.sid n.guid)
    (hasked : ∀ dest key request, .register dest key request ∈ s.network →
      ∀ g ∈ request.targetGuids, H dest g) (hask : s.ask sid input = some s') :
    (∀ dest key request, .register dest key request ∈ s'.network →
      ∀ g ∈ request.targetGuids, H dest g) ∧
    ∀ k d', s'.servers.lookup k = some d' →
      ∃ d, s.servers.lookup k = some d ∧ d'.predTimeMs = d.predTimeMs := by
  obtain ⟨c, c', packets, hreacts⟩ := ask_reacts hf hask
  have hc := hreacts.before
  have hsound := hown.servers sid c hc
  have hreplicas := hf.replicas sid c hc
  refine ⟨fun dest key request hp g hg => ?_, fun k d' hd' => ?_⟩
  · rw [hreacts.network] at hp
    rcases List.mem_append.mp hp with hp | hp
    · exact hasked dest key request hp g hg
    · obtain ⟨hpeer, -, -⟩ := hreacts.reaction.sends _ hp
      obtain rfl := hsound.peers key dest hpeer
      rcases Colyseus.react_registers hreplicas hreacts.react hp hg with
        ⟨publications, hinput, hmem⟩ | ⟨r, hr, hsid⟩
      · exact hnotices publications hinput _ hmem
      · rw [← hsid]
        exact (hsound.replicas g r hr).2
  · rcases hreacts.cases hd' with ⟨rfl, rfl⟩ | ⟨-, hd⟩
    · refine ⟨c, hc, ?_⟩
      rw [Colyseus.react_frame hreplicas hreacts.react]
    · exact ⟨d', hd, rfl⟩

theorem step_owners {a : Action} (hf : Filed s) (hown : Owned H s)
    (hnotices : ∀ sid publications, a = .notify sid publications → ∀ n ∈ publications, H n.sid n.guid)
    (hasked : ∀ dest key request, .register dest key request ∈ s.network →
      ∀ g ∈ request.targetGuids, H dest g) (hstep : s.step a = some s') :
    (∀ dest key request, .register dest key request ∈ s'.network →
      ∀ g ∈ request.targetGuids, H dest g) ∧
    ∀ k d', s'.servers.lookup k = some d' →
      ∃ d, s.servers.lookup k = some d ∧ d'.predTimeMs = d.predTimeMs := by
  rcases System.step_cases hstep with ⟨sid, input, hext, hask⟩ | ⟨i, now, packet, -, hi, hask⟩ |
    ⟨i, packet, -, hi, rfl⟩ | ⟨i, packet, -, hi, rfl⟩
  · refine ask_owners hf hown (fun publications hinput => ?_) hasked hask
    subst hinput
    cases a with
    | notify sid' publications' =>
      cases hext
      exact hnotices _ _ rfl
    | _ => cases hext
  · have hsub : ∀ p ∈ s.network.eraseIdx i, p ∈ s.network := fun p => List.mem_of_mem_eraseIdx
    refine ask_owners (s := { s with network := s.network.eraseIdx i }) (hf.congr rfl)
      (hown.network_sub hsub) (fun publications hinput => ?_)
      (fun dest key request hp => hasked dest key request (hsub _ hp)) hask
    cases packet <;> cases hinput
  · exact ⟨fun dest key request hp => hasked dest key request (mem_duplicated hi hp),
      fun k d' hd' => ⟨d', hd', rfl⟩⟩
  · exact ⟨fun dest key request hp => hasked dest key request (List.mem_of_mem_eraseIdx hp),
      fun k d' hd' => ⟨d', hd', rfl⟩⟩

end

/-! ### One step of everything -/

section
variable {c : ℤ} {b : Rectangle} {H : Int32 → UInt32 → Prop} {now : Int64} {m m' : Mesh}
  {log : List Event} {reports : List Report}

/-- A step among the servers, which may be a justified notification. -/
theorem Justified.system (h : Justified c b H now (m, log, reports)) (hdraws : m.system.NoRepeat)
    {action : Action} {system : System} (hstep : m.system.step action = some system)
    (hnotices : ∀ sid publications, action = .notify sid publications →
      ∀ n ∈ publications, H n.sid n.guid) :
    Justified c b (Extended H system) now ({ m with system }, log, reports) ∧
      Grows m.system system := by
  obtain ⟨hfiled, hgrows⟩ := filed_step h.filed hstep
  obtain ⟨hasked, hlifetime⟩ := step_owners h.filed h.owned hnotices h.asked hstep
  refine ⟨⟨hfiled, owned_step h.filed h.owned hdraws hstep, fun k s hs => ?_, h.explained, h.sent,
    h.received, fun report hreport => ?_, fun dest key request hp g hg =>
      .inl (hasked dest key request hp g hg)⟩, hgrows⟩
  · obtain ⟨d, hd, hpred⟩ := hlifetime k s hs
    rw [hpred]
    exact h.lifetime k d hd
  · obtain ⟨hpred, hkeyed, howns⟩ := h.reports report hreport
    exact ⟨hpred, hkeyed, fun g hg => .inl (howns g hg)⟩

/-- A step at the locator, which may be the arrival of a reported request. -/
theorem Justified.locator (hc : 1 ≤ c) (h : Justified c b H now (m, log, reports)) {a : Activity}
    {locator : LocatorServer} (hle : now ≤ a.time.getD now)
    (hitems : ∀ item ∈ a.items, Announced reports a.isSubscription item)
    (hstep : m.locator.step a = some locator) {requests : List Activity}
    (hrequests : ∀ request ∈ requests, request ∈ m.requests) :
    Justified c b H (a.time.getD now)
      ({ m with requests, locator }, (m.locator.event a).toList ++ log, reports) := by
  have hlogged : LocatorServer.logged (m.locator, log) a =
      some (locator, (m.locator.event a).toList ++ log) := by
    rw [LocatorServer.logged, hstep]
    rfl
  refine ⟨h.filed, h.owned, h.lifetime, ?_, fun request hreq => h.sent request (hrequests request hreq),
    fun r hr item hitem => ?_, h.reports, h.asked⟩
  · exact h.explained.step hc hle (fun item hitem => (h.announced (hitems item hitem)).1) hlogged
  · rcases locator_requests hstep hr with ⟨r₀, hr₀, hsame, hkind⟩ | ⟨rfl, hkind⟩ | ⟨rfl, hkind⟩
    · rw [hkind]
      exact h.received r₀ hr₀ item (hsame ▸ hitem)
    · rw [hkind]
      exact hitems item hitem
    · rw [hkind]
      exact hitems item hitem

/-- The requests of a `PublishLoop` are reported with it. -/
theorem Justified.published (h : Justified c b H now (m, log, reports)) {sid : Int32}
    {primaries : List GameObject} {s : Colyseus} (hs : m.system.servers.lookup sid = some s)
    (horder : primaries.Perm s.primaries.values) (t : Int64) :
    Justified c b H now ({ m with requests := m.requests ++
      [.receivePublish (s.locations primaries t), .receiveSubscribe (s.areaOfInterest primaries t)] },
      log, ⟨s, t⟩ :: reports) := by
  have hsub : reports ⊆ ⟨s, t⟩ :: reports := List.subset_cons_self _ _
  have hprimary : ∀ o ∈ primaries, ∃ k, s.primaries.lookup k = some o := fun o ho =>
    (GoMap.mem_values_iff _ _).mp (horder.mem_iff.mp ho)
  refine ⟨h.filed, h.owned, h.lifetime, h.explained, fun request hreq => ?_,
    fun r hr item hitem => (h.received r hr item hitem).mono hsub, ?_, h.asked⟩
  · rcases List.mem_append.mp hreq with hreq | hreq
    · obtain ⟨htime, hitems⟩ := h.sent request hreq
      exact ⟨htime, fun item hitem => (hitems item hitem).mono hsub⟩
    · rcases List.mem_pair.mp hreq with rfl | rfl <;> refine ⟨rfl, fun item hitem => ?_⟩
      · obtain ⟨o, ho, rfl⟩ := Colyseus.mem_locations.mp hitem
        obtain ⟨k, hk⟩ := hprimary o ho
        exact ⟨_, List.mem_cons_self, k, o, hk, rfl⟩
      · obtain ⟨o, ho, rfl⟩ := Colyseus.mem_areaOfInterest.mp hitem
        obtain ⟨k, hk⟩ := hprimary o ho
        exact ⟨_, List.mem_cons_self, k, o, hk, rfl⟩
  · rw [List.forall_mem_cons]
    exact ⟨⟨h.lifetime sid s hs, h.filed.keyed sid s hs, (h.owned.servers sid s hs).owns⟩, h.reports⟩

/-- What the servers own now may be added to `H`. -/
theorem Justified.extend (h : Justified c b H now (m, log, reports)) :
    Justified c b (Extended H m.system) now (m, log, reports) where
  filed := h.filed
  owned := h.owned.extend h.filed
  lifetime := h.lifetime
  explained := h.explained
  sent := h.sent
  received := h.received
  reports report hreport := by
    obtain ⟨hpred, hkeyed, howns⟩ := h.reports report hreport
    exact ⟨hpred, hkeyed, fun g hg => .inl (howns g hg)⟩
  asked dest key request hp g hg := .inl (h.asked dest key request hp g hg)

/-- Whatever happens keeps all that there is justified. -/
theorem justified_step (hc : 1 ≤ c) (h : Justified c b H now (m, log, reports))
    (hdraws : m.system.NoRepeat) {happening : Happening} (hle : now ≤ happening.time.getD now)
    {x : Mesh × List Event × List Report}
    (hstep : Mesh.observed (m, log, reports) happening = some x) :
    (∃ now', Justified c b (Extended H x.1.system) now' x ∧ now' = happening.time.getD now) ∧
      Grows m.system x.1.system := by
  obtain ⟨m', hm', rfl⟩ := Option.map_eq_some_iff.mp hstep
  cases mesh_cases hm' with
  | system hnot hsystem =>
    obtain ⟨hjust, hgrows⟩ :=
      h.system hdraws hsystem fun sid publications heq => absurd heq (hnot _ _)
    exact ⟨⟨now, hjust, rfl⟩, hgrows⟩
  | @publishLoop sid primaries t s hs horder =>
    have hreport : m.report (.publishLoop sid primaries t) = some ⟨s, t⟩ := by
      rw [Mesh.report, hs]
      rfl
    rw [hreport]
    exact ⟨⟨now, (h.published hs horder t).extend, rfl⟩, Grows.refl _⟩
  | @arrive i request locator hrequest hlocator =>
    have hactivity : m.activity (.arrive i) = some request := hrequest
    obtain ⟨htime, hitems⟩ := h.sent request (List.mem_of_getElem? hrequest)
    have hrest : ∀ p ∈ m.requests.eraseIdx i, p ∈ m.requests := fun p => List.mem_of_mem_eraseIdx
    have hjust := h.locator hc (by rw [htime]; exact Int64.le_refl now) hitems hlocator hrest
    rw [hactivity]
    rw [htime] at hjust
    exact ⟨⟨now, hjust.extend, rfl⟩, Grows.refl _⟩
  | @lose i =>
    have hlost : Justified c b H now ({ m with requests := m.requests.eraseIdx i }, log, reports) :=
      { h with sent := fun request hreq => h.sent request (List.mem_of_mem_eraseIdx hreq) }
    exact ⟨⟨now, hlost.extend, rfl⟩, Grows.refl _⟩
  | @locator a locator hitems hlocator =>
    have hjust := h.locator hc hle (by rw [hitems]; simp) hlocator fun p hp => hp
    exact ⟨⟨_, hjust.extend, rfl⟩, Grows.refl _⟩
  | notify hr hsystem =>
    obtain ⟨hjust, hgrows⟩ := h.system hdraws hsystem fun sid publications heq n hn => by
      cases heq
      exact h.noticed hr hn
    exact ⟨⟨now, hjust, rfl⟩, hgrows⟩

end

/-! ### Whole runs -/

/-- Server `k` has a primary of `g` at some point of the run from `m`. -/
def Mesh.HasOwned (m : Mesh) (happenings : List Happening) (k : Int32) (g : UInt32) : Prop :=
  ∃ before m', before <+: happenings ∧ run Mesh.step m before = some m' ∧ m'.system.Owns k g

section
variable {c : ℤ} {b : Rectangle} {m m' : Mesh} {happenings : List Happening}

theorem mesh_grows_step {happening : Happening} (hf : Filed m.system)
    (hstep : m.step happening = some m') : Filed m'.system ∧ Grows m.system m'.system := by
  cases mesh_cases hstep with
  | system _ hsystem => exact filed_step hf hsystem
  | notify _ hsystem => exact filed_step hf hsystem
  | publishLoop => exact ⟨hf, Grows.refl _⟩
  | arrive => exact ⟨hf, Grows.refl _⟩
  | lose => exact ⟨hf, Grows.refl _⟩
  | locator => exact ⟨hf, Grows.refl _⟩

theorem mesh_grows (hf : Filed m.system) (hrun : run Mesh.step m happenings = some m') :
    Grows m.system m'.system :=
  (run_preserves (P := fun u : Mesh => Filed u.system ∧ Grows m.system u.system)
    (fun u happening u' hu hstep => by
      obtain ⟨hfiled, hgrows⟩ := mesh_grows_step hu.1 hstep
      exact ⟨hfiled, hu.2.trans hgrows⟩) ⟨hf, Grows.refl _⟩ hrun).2

/-- Every run can be observed. -/
theorem observed_of_run (log : List Event) (reports : List Report)
    (hrun : run Mesh.step m happenings = some m') :
    ∃ log' reports', run Mesh.observed (m, log, reports) happenings = some (m', log', reports') := by
  induction happenings generalizing m log reports with
  | nil =>
    cases hrun
    exact ⟨log, reports, rfl⟩
  | cons happening happenings ih =>
    obtain ⟨m₁, hstep, hrun⟩ := run_cons_eq_some.mp hrun
    obtain ⟨log', reports', hrest⟩ := ih _ _ hrun
    refine ⟨log', reports', run_cons_eq_some.mpr ⟨_, ?_, hrest⟩⟩
    rw [Mesh.observed, hstep]
    rfl

/-- What is observed of a run is a run. -/
theorem run_of_observed {x x' : Mesh × List Event × List Report}
    (hrun : run Mesh.observed x happenings = some x') :
    run Mesh.step x.1 happenings = some x'.1 := by
  induction happenings generalizing x with
  | nil =>
    cases hrun
    rfl
  | cons happening happenings ih =>
    obtain ⟨x₁, hstep, hrun⟩ := run_cons_eq_some.mp hrun
    obtain ⟨m₁, hm₁, rfl⟩ := Option.map_eq_some_iff.mp hstep
    exact run_cons_eq_some.mpr ⟨m₁, hm₁, ih hrun⟩

/-- Runs keep all that there is justified by what the servers have owned in them. -/
theorem justified_run (hc : 1 ≤ c) {H : Int32 → UInt32 → Prop} {now : Int64}
    {x x' : Mesh × List Event × List Report} (h : Justified c b H now x)
    (hfrom : ∀ t ∈ happenings.filterMap Happening.time, now ≤ t)
    (hclock : (happenings.filterMap Happening.time).Pairwise (· ≤ ·))
    (hrun : run Mesh.observed x happenings = some x') (hdraws : x'.1.system.NoRepeat) :
    ∃ H' now', Justified c b H' now' x' ∧
      ∀ k g, H' k g → H k g ∨ x.1.HasOwned happenings k g := by
  induction happenings generalizing H now x with
  | nil =>
    cases hrun
    exact ⟨H, now, h, fun _ _ => .inl⟩
  | cons happening happenings ih =>
    obtain ⟨x₁, hstep, hrest⟩ := run_cons_eq_some.mp hrun
    obtain ⟨m, log, reports⟩ := x
    obtain ⟨m₁, hm₁, -⟩ := Option.map_eq_some_iff.mp hstep
    have hgrows := mesh_grows h.filed (run_of_observed hrun)
    have htime : now ≤ happening.time.getD now := by
      cases ht : happening.time with
      | none => exact Int64.le_refl now
      | some t => exact hfrom t (by simp [ht])
    obtain ⟨⟨now₁, h₁, rfl⟩, -⟩ := justified_step hc h (hgrows.noRepeat hdraws) htime hstep
    have hlater : ∀ t ∈ happenings.filterMap Happening.time, happening.time.getD now ≤ t := by
      cases ht : happening.time with
      | none => exact fun t hmem => hfrom t (by simpa [ht] using hmem)
      | some u =>
        rw [List.filterMap_cons_some ht] at hclock
        exact fun t => List.rel_of_pairwise_cons hclock
    have hclock₁ : (happenings.filterMap Happening.time).Pairwise (· ≤ ·) :=
      hclock.sublist ((List.sublist_cons_self _ _).filterMap _)
    obtain ⟨H', now', h', hback⟩ := ih h₁ hlater hclock₁ hrest
    refine ⟨H', now', h', fun k g hg => ?_⟩
    have hstep₁ : m.step happening = some x₁.1 := by
      obtain ⟨m₂, hm₂, rfl⟩ := Option.map_eq_some_iff.mp hstep
      exact hm₂
    rcases hback k g hg with (hg | hg) | ⟨before, m', hbefore, hrun', hg⟩
    · exact .inl hg
    · exact .inr ⟨[happening], x₁.1, by simp, run_cons_eq_some.mpr ⟨_, hstep₁, rfl⟩, hg⟩
    · exact .inr ⟨happening :: before, m', List.cons_prefix_cons.mpr ⟨rfl, hbefore⟩,
        run_cons_eq_some.mpr ⟨_, hstep₁, hrun'⟩, hg⟩

theorem Mesh.Initial.justified (hc : 1 ≤ c) (h : m.Initial c b) :
    Justified c b (fun _ _ => False) Int64.minValue (m, [], []) where
  filed := initial_filed h.system
  owned := initial_owned h.system
  lifetime := h.lifetime
  explained := by
    rw [h.locator]
    exact explained_start hc b _
  sent := by simp [h.requests]
  received := by simp [h.locator, LocatorServer.start]
  reports := by simp
  asked := by simp [h.system.network]

/-- In every run of the whole system, a server asks another one to register its interest, or to renew it,
    only for objects that the other one has owned. -/
theorem asked_only_of_owners (hc : 1 ≤ c) (h : m.Initial c b)
    (hclock : (happenings.filterMap Happening.time).Pairwise (· ≤ ·))
    (hrun : run Mesh.step m happenings = some m') (hdraws : m'.system.NoRepeat)
    {dest key : Int32} {request : RegisterInterestRequest}
    (hp : .register dest key request ∈ m'.system.network) :
    ∀ g ∈ request.targetGuids, m.HasOwned happenings dest g := by
  obtain ⟨log, reports, hobserved⟩ := observed_of_run [] [] hrun
  obtain ⟨H', now', h', hback⟩ := justified_run hc (h.justified hc)
    (fun t _ => Int64.minValue_le t) hclock hobserved hdraws
  exact fun g hg => (hback dest g (h'.asked dest key request hp g hg)).resolve_left id

end

/-! ### A player near another -/

/-- Two servers and a locator over the world. -/
def twoAndLocator : Mesh := ⟨twoServers, [], LocatorServer.start world 4⟩

theorem initial_twoAndLocator : twoAndLocator.Initial 4 world where
  system := initial_twoServers
  requests := rfl
  locator := rfl
  lifetime := by
    intro k s hs
    obtain ⟨first, rfl⟩ := twoServers_lookup hs
    show (0 : Int64) ≤ 500
    decide

/-- The players of the two servers. -/
def playerAt (guid : UInt32) (sid : Int32) (x : ℚ) : GameObject :=
  ⟨guid, sid, ⟨x, 10, 2, 2⟩, player, ⟨0, 0⟩⟩

/-- Each server spawns a player, and the locator gets the subscription of server 2 and then the
    publication of server 1. -/
def twoPublish : List Happening :=
  [.system (.connect 2 1), .system (.spawn 1 ⟨some (playerAt 0 0 10).proto⟩ 0),
    .system (.spawn 2 ⟨some (playerAt 0 0 13).proto⟩ 0), .locator (.connectToServer 2 2),
    .publishLoop 2 [playerAt 200 2 13] 1000, .publishLoop 1 [playerAt 100 1 10] 1000, .arrive 1,
    .locator (.handle 0 1001), .locator (.handle 0 1001), .arrive 1, .locator (.handle 1 1002),
    .locator (.handle 1 1002)]

/-- Server 2 is notified of the player of server 1 and asks for it. -/
theorem asked_only_of_owners_twoPublish :
    ∃ m, run Mesh.step twoAndLocator (twoPublish ++ [.notify 1 2]) = some m ∧
      .register 1 1 ⟨[100], 2, false⟩ ∈ m.system.network ∧
      twoAndLocator.HasOwned (twoPublish ++ [.notify 1 2]) 1 100 := by
  obtain ⟨m, hrun, hdraws, hp⟩ := exists_of_map_decide
    (o := run Mesh.step twoAndLocator (twoPublish ++ [.notify 1 2]))
    (P := fun m => m.system.NoRepeat ∧ .register 1 1 ⟨[100], 2, false⟩ ∈ m.system.network)
    (by decide +kernel)
  exact ⟨m, hrun, hp, asked_only_of_owners (by decide) initial_twoAndLocator (by decide) hrun hdraws hp
    100 (by decide)⟩

end DistGame
