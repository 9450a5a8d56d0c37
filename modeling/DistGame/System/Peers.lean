import DistGame.System.Ownership

/-! Whom a server can reach. Events on replicas and renewals go to `peerEndpoints[replica.Sid]` and are
    silently dropped if there is no endpoint. There always is one: a replica comes with a response of a
    server that was asked through its endpoint, or with an update of another replica of that server,
    and no endpoint is ever forgotten. -/

namespace DistGame

/-- Server `k` has an endpoint under `i`. -/
def System.HasPeer (s : System) (k i : Int32) : Prop :=
  ∃ c, s.servers.lookup k = some c ∧ (c.peerEndpoints.lookup i).isSome

/-- The server that asks for objects, and the key of the one it asks, as long as it waits for them. -/
def Packet.asks : Packet → Option (Int32 × Int32)
  | .update _ _ => none
  | .register _ key request => some (request.sid, key)
  | .reply dest key _ => some (dest, key)

/-- The same for what the server `sid` reacts to. -/
def Input.asks (sid : Int32) : Input → Option (Int32 × Int32)
  | .register key request _ => some (request.sid, key)
  | .install key _ => some (sid, key)
  | _ => none

/-- Owners of replicas are peers, and so are the servers that are asked for objects. -/
structure Known (s : System) : Prop where
  replicas : ∀ k c g r, s.servers.lookup k = some c → c.replicas.lookup g = some r →
    (c.peerEndpoints.lookup r.sid).isSome
  asked : ∀ p ∈ s.network, ∀ k i, p.asks = some (k, i) → s.HasPeer k i

namespace Colyseus
variable {c c' : Colyseus} {packets : List Packet}

/-- No endpoint is forgotten. -/
theorem react_peers {input : Input} (hreplicas : c.ReplicasKeyed)
    (h : c.react input = some (c', packets)) {i : Int32} (hi : (c.peerEndpoints.lookup i).isSome) :
    (c'.peerEndpoints.lookup i).isSome := by
  have hsame : c'.peerEndpoints = c.peerEndpoints → (c'.peerEndpoints.lookup i).isSome :=
    fun heq => by rwa [heq]
  cases input with
  | connect peer =>
    cases h
    dsimp only
    rw [GoMap.lookup_insert_ite]
    split
    · rfl
    · exact hi
  | spawn request now =>
    obtain ⟨⟨k, c₁⟩, hspawn, h⟩ := Option.map_eq_some_iff.mp h
    cases h
    obtain ⟨state, -, hspawn⟩ := Option.map_eq_some_iff.mp hspawn
    cases hspawn
    exact hi
  | event guid bits now =>
    obtain rfl : (c.handleUpdate guid bits now).1 = c' := congrArg Prod.fst (Option.some.inj h)
    exact hsame (by rw [handleUpdate_frame])
  | update request now =>
    obtain ⟨⟨c₁, calls⟩, hupdate, h⟩ := Option.map_eq_some_iff.mp h
    cases h
    exact hsame (by rw [update_frame hupdate])
  | notify publications =>
    cases h
    exact hi
  | cleanup now =>
    obtain rfl : (c.cleanup now).1 = c' := congrArg Prod.fst (Option.some.inj h)
    exact hsame (by rw [(cleanup_spec hreplicas now).1])
  | register key request now =>
    obtain rfl : (c.registerInterest request now).1 = c' := congrArg Prod.fst (Option.some.inj h)
    exact hsame (by rw [registerInterest_frame])
  | install key response =>
    obtain ⟨c₁, hinstall, h⟩ := Option.map_eq_some_iff.mp h
    cases h
    exact hsame (by rw [installReplicas_frame hinstall])

end Colyseus

section
variable {s s' : System} {sid : Int32} {input : Input} {c c' : Colyseus} {packets : List Packet}

theorem Reacts.hasPeer (h : Reacts s sid input s' c c' packets) (hf : Filed s) {k i : Int32}
    (hk : s.HasPeer k i) : s'.HasPeer k i := by
  obtain ⟨d, hd, hi⟩ := hk
  by_cases hks : k = sid
  · subst hks
    obtain rfl := Option.some.inj (h.before.symm.trans hd)
    exact ⟨c', h.after, Colyseus.react_peers (hf.replicas k c h.before) h.react hi⟩
  · exact ⟨d, (h.others k hks).trans hd, hi⟩

/-- A message of a server waits for the answer of a peer, or hands on a wait that it reacts to. -/
theorem Reacts.asks (h : Reacts s sid input s' c c' packets) (hf : Filed s) {p : Packet}
    (hp : p ∈ packets) {k i : Int32} (hask : p.asks = some (k, i)) :
    input.asks sid = some (k, i) ∨ s.HasPeer k i := by
  have hsends := h.reaction.sends p hp
  cases p with
  | update dest request => cases hask
  | register dest key request =>
    cases hask
    obtain ⟨hpeer, hsid, -⟩ := hsends
    rw [hsid, hf.sid sid c h.before]
    exact .inr ⟨c, h.before, by rw [hpeer]; rfl⟩
  | reply dest key response =>
    cases hask
    obtain ⟨⟨request, now, rfl, -, rfl⟩, -⟩ := hsends
    exact .inl rfl

/-- Whoever a replica is of after a reaction had an endpoint before it. -/
theorem Reacts.owners (h : Reacts s sid input s' c c' packets) (hknown : Known s)
    (hin : ∀ k i, input.asks sid = some (k, i) → s.HasPeer k i) {g : UInt32} {r : GameObject}
    (hr : c'.replicas.lookup g = some r) : s.HasPeer sid r.sid := by
  rcases h.reaction.replicas g r hr with ⟨r₀, hr₀, -, hsid⟩ | ⟨-, htells⟩
  · rw [hsid]
    exact ⟨c, h.before, hknown.replicas sid c g r₀ h.before hr₀⟩
  · cases input with
    | update request now =>
      obtain ⟨-, r₀, hr₀, hsid⟩ := htells
      rw [← hsid]
      exact ⟨c, h.before, hknown.replicas sid c _ r₀ h.before hr₀⟩
    | install key response =>
      obtain ⟨-, rfl⟩ := htells
      exact hin sid _ rfl
    | _ => exact htells.elim

theorem known_ask (hf : Filed s) (h : Known s)
    (hin : ∀ k i, input.asks sid = some (k, i) → s.HasPeer k i) (hask : s.ask sid input = some s') :
    Known s' := by
  obtain ⟨c, c', packets, hreacts⟩ := ask_reacts hf hask
  refine ⟨fun k d g r hd hr => ?_, fun p hp k i hpeer => ?_⟩
  · rcases hreacts.cases hd with ⟨rfl, rfl⟩ | ⟨-, hd⟩
    · obtain ⟨d', hd', hi⟩ := hreacts.hasPeer hf (hreacts.owners h hin hr)
      obtain rfl := Option.some.inj (hd.symm.trans hd')
      exact hi
    · exact h.replicas k d g r hd hr
  · rw [hreacts.network] at hp
    rcases List.mem_append.mp hp with hp | hp
    · exact hreacts.hasPeer hf (h.asked p hp k i hpeer)
    · rcases hreacts.asks hf hp hpeer with hwaits | hk
      · exact hreacts.hasPeer hf (hin k i hwaits)
      · exact hreacts.hasPeer hf hk

theorem Known.network_sub {network : List Packet} (h : Known s) (hsub : ∀ p ∈ network, p ∈ s.network) :
    Known { s with network } :=
  ⟨h.replicas, fun p hp => h.asked p (hsub p hp)⟩

/-- From outside nobody waits for objects. -/
theorem external_asks {a : Action} (h : System.external a = some (sid, input)) :
    input.asks sid = none := by
  rcases System.external_cases h with ⟨guid, event, now, -, rfl⟩ | hlocal
  · rfl
  · cases input with
    | register key request now => exact hlocal.elim
    | install key response => exact hlocal.elim
    | _ => rfl

theorem delivered_asks (p : Packet) (now : Int64) : (p.input now).asks p.dest = p.asks := by
  cases p <;> rfl

theorem known_step {a : Action} (hf : Filed s) (h : Known s) (hstep : s.step a = some s') :
    Known s' := by
  rcases System.step_cases hstep with ⟨sid, input, hext, hask⟩ | ⟨i, now, packet, -, hi, hask⟩ |
    ⟨i, packet, -, hi, rfl⟩ | ⟨i, packet, -, -, rfl⟩
  · refine known_ask hf h (fun k i hwaits => ?_) hask
    rw [external_asks hext] at hwaits
    cases hwaits
  · refine known_ask (s := { s with network := s.network.eraseIdx i }) (hf.congr rfl)
      (h.network_sub fun p => List.mem_of_mem_eraseIdx) (fun k j hwaits => ?_) hask
    rw [delivered_asks] at hwaits
    exact h.asked packet (List.mem_of_getElem? hi) k j hwaits
  · exact h.network_sub fun p => mem_duplicated hi
  · exact h.network_sub fun p => List.mem_of_mem_eraseIdx

theorem known_run {actions : List Action} {u : System} (hf : Filed s) (h : Known s)
    (hrun : run System.step s actions = some u) : Filed u ∧ Known u :=
  run_preserves (P := fun s => Filed s ∧ Known s)
    (fun _ _ _ h hstep => ⟨(filed_step h.1 hstep).1, known_step h.1 h.2 hstep⟩) ⟨hf, h⟩ hrun

theorem initial_known (h : s.Initial) : Known s where
  replicas := by
    intro k c g r hc hr
    rw [h.replicas k c g hc] at hr
    cases hr
  asked := by
    intro p hp
    rw [h.network] at hp
    exact absurd hp List.not_mem_nil

/-- An event on a replica is forwarded to the server that the replica is of. -/
theorem Known.forwards {H : Int32 → UInt32 → Prop} (h : Known s) (hown : Owned H s)
    (hdraws : s.NoRepeat) {k : Int32} {g : UInt32} {r : GameObject} (hc : s.servers.lookup k = some c)
    (hr : c.replicas.lookup g = some r) (bits : Int32) (now : Int64) :
    c.peerEndpoints.lookup r.sid = some r.sid ∧ c.handleUpdate g bits now =
      (c, [⟨r.sid, r.sid, ⟨g, some ⟨bits, 0⟩, [], [], []⟩⟩]) := by
  have hsound := hown.servers k c hc
  obtain ⟨peer, hpeer⟩ := Option.isSome_iff_exists.mp (h.replicas k c g r hc hr)
  obtain rfl := hsound.peers r.sid peer hpeer
  have hnone := hown.not_primary hdraws hc (by rw [hr]; rfl)
  exact ⟨hpeer, by simp [Colyseus.handleUpdate, hnone, hr, hpeer]⟩

/-- In every run of the system a server can reach the owner of each of its replicas: an event on the
    replica is forwarded in exactly one call, to the server that owned the object, and a cleanup that
    keeps the replica has to make a renewal call there that names it. -/
theorem owners_reached {u : System} {actions : List Action} (h : s.Initial)
    (hrun : run System.step s actions = some u) (hdraws : u.NoRepeat) {k : Int32} {g : UInt32}
    {r : GameObject} (hc : u.servers.lookup k = some c) (hr : c.replicas.lookup g = some r) :
    System.EverOwns r.sid g s actions ∧
      (∀ bits now, c.handleUpdate g bits now =
        (c, [⟨r.sid, r.sid, ⟨g, some ⟨bits, 0⟩, [], [], []⟩⟩])) ∧
      ∀ now, c.isInterestedIn r now = true →
        ∃ call ∈ (c.cleanup now).1.renewals (c.cleanup now).2, call.peer = r.sid ∧
          g ∈ call.request.targetGuids ∧ call.request.sid = k ∧ call.request.isRenewal = true := by
  obtain ⟨H, hown, -, -, hback⟩ := owned_run (initial_filed h) (initial_owned h) hrun hdraws
  obtain ⟨hf, hknown⟩ := known_run (initial_filed h) (initial_known h) hrun
  obtain ⟨-, hH⟩ := (hown.servers k c hc).replicas g r hr
  refine ⟨(hback r.sid g hH).resolve_left id,
    fun bits now => (hknown.forwards hown hdraws hc hr bits now).2, fun now hint => ?_⟩
  obtain ⟨hpeer, -⟩ := hknown.forwards hown hdraws hc hr 0 now
  obtain ⟨hframe, -, hnoted, -⟩ := Colyseus.cleanup_spec (hf.replicas k c hc) now
  have hindex := (hnoted r.sid g).mpr ⟨r, ⟨hr, hint⟩, rfl⟩
  cases hguids : (c.cleanup now).2.lookup r.sid with
  | none => simp [GoMap.index, hguids] at hindex
  | some guids =>
    have hg : g ∈ guids := by simpa [GoMap.index, hguids] using hindex
    have hsid : (c.cleanup now).1.sid = k := by
      rw [hframe]
      exact hf.sid k c hc
    refine ⟨⟨r.sid, r.sid, ⟨guids, (c.cleanup now).1.sid, true⟩⟩,
      Colyseus.mem_renewals.mpr ⟨guids, hguids, ?_, rfl⟩, rfl, hg, hsid, rfl⟩
    rw [hframe]
    exact hpeer

end

/-- Server 2 forwards an event on the player of server 1 there. -/
theorem owners_reached_meet : ∃ u c r, run System.step twoServers meet = some u ∧
    u.servers.lookup 2 = some c ∧ c.replicas.lookup 100 = some r ∧
    (c.handleUpdate 100 die 2000).2 = [⟨r.sid, r.sid, ⟨100, some ⟨die, 0⟩, [], [], []⟩⟩] := by
  obtain ⟨u, hrun, hdraws, hrep⟩ := exists_of_map_decide (o := run System.step twoServers meet)
    (P := fun u => u.NoRepeat ∧ u.Replicates 2 100) (by decide +kernel)
  obtain ⟨c, hc, hr⟩ := hrep
  obtain ⟨r, hr⟩ := Option.isSome_iff_exists.mp hr
  obtain ⟨-, hforward, -⟩ := owners_reached initial_twoServers hrun hdraws hc hr
  exact ⟨u, c, r, hrun, hc, hr, by rw [hforward]⟩

end DistGame
