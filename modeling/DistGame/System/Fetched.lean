import DistGame.System.Fatal
import DistGame.System.Notified

/-! Every match is followed up. A server that is notified of another server's object has a replica of it,
    or its call is on the way to the owner or still to be made by the handler, or the answer is on the way
    back, for as long as the owner owns the object. This needs that neither message is lost and that the
    server stays interested whenever it cleans up. -/

namespace DistGame

/-- The message asks the owner `k` for `g` on behalf of server `d`, or brings `d` a state of it. -/
def Packet.fetches (d k : Int32) (g : UInt32) : Packet → Bool
  | .update _ _ => false
  | .register dest _ request =>
    dest == k && request.sid == d && !request.isRenewal && request.targetGuids.contains g
  | .reply dest _ response =>
    dest == d && (response.initialStates.map ProtoGameObject.guid).contains g

namespace System

/-- Server `d` has a replica of `g`, or is about to get one from the owner `k`: its call, which a handler
    may still have to make, or the answer is in the network. -/
def Coming (s : System) (d k : Int32) (g : UInt32) : Prop :=
  s.Replicates d g ∨ ∃ p ∈ s.network, p.fetches d k g = true

/-- Messages that fetch `g` are not lost, and `d` is interested in `g` when it cleans up. -/
def Fosters (d k : Int32) (g : UInt32) (s : System) : Action → Prop
  | .lose i => ∀ packet ∈ s.network[i]?, packet.fetches d k g = false
  | .cleanup sid now => sid = d → ∀ c ∈ s.servers.lookup d, ∀ r ∈ c.replicas.lookup g,
    c.isInterestedIn r now = true
  | _ => True

instance (d k : Int32) (g : UInt32) (s : System) : DecidablePred (s.Fosters d k g)
  | .lose _ => Option.decidableForallMem _
  | .cleanup _ _ =>
    have (c : Colyseus) (now : Int64) :
        Decidable (∀ r ∈ c.replicas.lookup g, c.isInterestedIn r now = true) :=
      Option.decidableForallMem _
    have (now : Int64) : Decidable (∀ c ∈ s.servers.lookup d, ∀ r ∈ c.replicas.lookup g,
        c.isInterestedIn r now = true) := Option.decidableForallMem _
    inferInstanceAs (Decidable (_ → _))
  | .connect _ _ | .spawn _ _ _ | .clientUpdate _ _ _ _ | .event _ _ _ _ | .notify _ _
  | .deliver _ _ | .duplicate _ => isTrue trivial

end System

/-! ### One reaction -/

namespace Colyseus
variable {c c' : Colyseus} {packets : List Packet} {g : UInt32}

/-- The call for an object of which a server is notified, unless it has a replica. -/
theorem notify_fetches {publications : List MatchMsg} {k : Int32}
    (h : c.react (.notify publications) = some (c', packets))
    (hpeer : c.peerEndpoints.lookup k = some k) (hnotice : ⟨g, k⟩ ∈ publications) (hne : k ≠ c.sid) :
    (c'.replicas.lookup g).isSome ∨ ∃ p ∈ packets, p.fetches c.sid k g = true := by
  cases h
  by_cases hr : (c.replicas.lookup g).isSome
  · exact .inl hr
  · right
    have hneeded : g ∈ (c.neededObjectsBySid publications).index k [] := by
      rw [neededObjects_index, List.mem_map]
      refine ⟨⟨g, k⟩, List.mem_filter.mpr ⟨hnotice, ?_⟩, rfl⟩
      simp [hne, hr]
    cases hguids : (c.neededObjectsBySid publications).lookup k with
    | none =>
      rw [GoMap.index, hguids] at hneeded
      exact absurd hneeded List.not_mem_nil
    | some guids =>
      rw [GoMap.index, hguids] at hneeded
      refine ⟨.register k k ⟨guids, c.sid, false⟩, List.mem_map.mpr ⟨⟨k, k, ⟨guids, c.sid, false⟩⟩,
        mem_interestCalls.mpr ⟨guids, hguids, hpeer, rfl⟩, rfl⟩, ?_⟩
      have hg : g ∈ guids := hneeded
      simp [Packet.fetches, hg]

/-- The owner answers with a state of its primary. -/
theorem register_fetches {key d k : Int32} {request : RegisterInterestRequest} {now : Int64}
    (hkeyed : c.Keyed) (h : c.react (.register key request now) = some (c', packets))
    (hfetches : (Packet.register k key request).fetches d k g = true)
    (hg : (c.primaries.lookup g).isSome) : ∃ p ∈ packets, p.fetches d k g = true := by
  simp only [Packet.fetches, beq_self_eq_true, Bool.true_and, Bool.and_eq_true, beq_iff_eq,
    Bool.not_eq_true', List.contains_iff_mem] at hfetches
  obtain ⟨⟨hsid, hnew⟩, hmem⟩ := hfetches
  obtain ⟨o, ho⟩ := Option.isSome_iff_exists.mp hg
  obtain rfl := hkeyed g o ho
  have hpackets : (if request.isRenewal = true then [] else
      [Packet.reply request.sid key (c.registerInterest request now).2]) = packets :=
    congrArg Prod.snd (Option.some.inj h)
  rw [hnew, if_neg Bool.false_ne_true] at hpackets
  subst hpackets
  refine ⟨_, List.mem_singleton_self _, ?_⟩
  have hstate : o.guid ∈ ((c.registerInterest request now).2.initialStates.map
      ProtoGameObject.guid) := by
    rw [registerInterest_response, List.map_map]
    exact List.mem_map.mpr ⟨o, (mem_named hkeyed).mpr ⟨hmem, ho⟩, rfl⟩
  rw [Packet.fetches, hsid, beq_self_eq_true, Bool.true_and]
  exact List.contains_iff_mem.mpr hstate

/-- A cleanup keeps a replica of interest. -/
theorem cleanup_keeps {r : GameObject} {now : Int64} (hkeyed : c.ReplicasKeyed)
    (hr : c.replicas.lookup g = some r) (hint : c.isInterestedIn r now = true) :
    ((c.cleanup now).1.replicas.lookup g).isSome := by
  rw [((cleanup_spec hkeyed now).2.1 g r).mpr ⟨hr, hint⟩]
  rfl

end Colyseus

/-! ### What is coming stays coming -/

section
variable {H : Int32 → UInt32 → Prop} {s s' u : System} {d k sid : Int32} {g : UInt32} {input : Input}

/-- A reaction keeps a replica that is not deleted, also in a cleanup if it is of interest. -/
theorem Reacts.keeps {c c' : Colyseus} {packets : List Packet}
    (h : Reacts s sid input s' c c' packets) (hf : Filed s) (hown : Owned H s) (hnow : s.NoRepeat)
    (hclean : sid = d → ∀ now, input = .cleanup now → ∀ r ∈ c.replicas.lookup g,
      c.isInterestedIn r now = true)
    (hdel : ∀ request now, input = .update request now → g ∉ request.deletedGuids)
    (hrep : s.Replicates d g) : s'.Replicates d g := by
  by_cases hcleanup : sid = d ∧ ∃ now, input = .cleanup now
  · obtain ⟨rfl, now, rfl⟩ := hcleanup
    obtain ⟨e, he, hr⟩ := hrep
    obtain rfl := Option.some.inj (h.before.symm.trans he)
    obtain ⟨r, hr⟩ := Option.isSome_iff_exists.mp hr
    have hafter : (c.cleanup now).1 = c' := congrArg Prod.fst (Option.some.inj h.react)
    refine ⟨c', h.after, ?_⟩
    rw [← hafter]
    exact Colyseus.cleanup_keeps (hf.replicas sid c h.before) hr (hclean rfl now rfl r hr)
  · refine h.replicates hf hown hnow (fun hd now hinput => ?_) hdel hrep
    exact hcleanup ⟨hd.symm, now, hinput⟩

/-- A server reacts; the messages that are left are those of `network`, and what has been taken off is
    the input. -/
theorem System.Coming.asked {network : List Packet} (h : s.Coming d k g)
    (hwatched : Watched H { s with network }) (hnow : s.NoRepeat)
    (hask : { s with network }.ask sid input = some s')
    (hpackets : ∀ p ∈ s.network, p.fetches d k g = true →
      p ∈ network ∨ (sid = p.dest ∧ ∃ now, input = p.input now))
    (hclean : sid = d → ∀ now, input = .cleanup now → ∀ c ∈ s.servers.lookup d,
      ∀ r ∈ c.replicas.lookup g, c.isInterestedIn r now = true)
    (hdel : ∀ request now, input = .update request now → g ∉ request.deletedGuids)
    (howns : s.Owns k g) : s'.Coming d k g := by
  obtain ⟨c, c', packets, hreacts⟩ := ask_reacts hwatched.filed hask
  have hc : s.servers.lookup sid = some c := hreacts.before
  rcases h with hrep | ⟨p, hp, hfetches⟩
  · refine .inl (hreacts.keeps hwatched.filed hwatched.owned hnow (fun hd now hinput => ?_) hdel hrep)
    exact hclean hd now hinput c (hd ▸ hc)
  · rcases hpackets p hp hfetches with hleft | ⟨rfl, now, rfl⟩
    · refine .inr ⟨p, ?_, hfetches⟩
      rw [hreacts.network]
      exact List.mem_append_left _ hleft
    · cases p with
      | update dest request => cases hfetches
      | register dest key request =>
        -- the call has arrived at the owner, which answers
        obtain rfl : dest = k := by
          simp only [Packet.fetches, Bool.and_eq_true, beq_iff_eq] at hfetches
          exact hfetches.1.1.1
        obtain ⟨e, he, hg⟩ := howns
        obtain rfl := Option.some.inj (hc.symm.trans he)
        obtain ⟨answer, hanswer, hfetches'⟩ := Colyseus.register_fetches
          (hwatched.filed.keyed dest c hc) hreacts.react hfetches hg
        refine .inr ⟨answer, ?_, hfetches'⟩
        rw [hreacts.network]
        exact List.mem_append_right _ hanswer
      | reply dest key response =>
        -- the answer has arrived
        simp only [Packet.fetches, Bool.and_eq_true, beq_iff_eq, List.contains_iff_mem] at hfetches
        obtain ⟨rfl, hmem⟩ := hfetches
        obtain ⟨c₁, hinstall, heq⟩ := Option.map_eq_some_iff.mp hreacts.react
        cases heq
        exact .inl ⟨_, hreacts.after, Colyseus.installReplicas_described hinstall hmem⟩

/-- More messages, at the same servers. -/
theorem System.Coming.mono {network : List Packet} (h : s.Coming d k g)
    (hsub : ∀ p ∈ s.network, p.fetches d k g = true → p ∈ network) :
    System.Coming { s with network } d k g := by
  rcases h with hrep | ⟨p, hp, hfetches⟩
  · exact .inl hrep
  · exact .inr ⟨p, hsub p hp hfetches, hfetches⟩

theorem System.Coming.step {action : Action} (h : s.Coming d k g) (hwatched : Watched H s)
    (hnow : s.NoRepeat) (hfosters : s.Fosters d k g action) (hstep : s.step action = some s')
    (howns : s.Owns k g) : s'.Coming d k g := by
  rcases System.step_cases hstep with ⟨sid, input, hext, hask⟩ | ⟨i, now, packet, -, hi, hask⟩ |
    ⟨i, packet, -, hi, rfl⟩ | ⟨i, packet, rfl, hi, rfl⟩
  · refine h.asked hwatched hnow hask (fun p hp _ => .inl hp) (fun hd now hinput => ?_)
      (fun request now hupdate => ?_) howns
    · cases action with
      | cleanup sid' t =>
        cases hext
        cases hinput
        exact hfosters hd
      | deliver i t => cases hext
      | duplicate i => cases hext
      | lose i => cases hext
      | _ =>
        cases hext
        cases hinput
    · rw [external_deletes hext request now hupdate]
      exact List.not_mem_nil
  · have hsub : ∀ p ∈ s.network.eraseIdx i, p ∈ s.network := fun p => List.mem_of_mem_eraseIdx
    refine h.asked (hwatched.network_sub hsub) hnow hask (fun p hp _ => ?_)
      (fun _ t hinput => ?_) (fun request t hupdate hg => ?_) howns
    · rcases mem_eraseIdx_or hi hp with rfl | hp
      · exact .inr ⟨rfl, now, rfl⟩
      · exact .inl hp
    · cases packet <;> cases hinput
    · -- a deletion is under way only when no server owns the object
      cases packet with
      | update dest request' =>
        cases hupdate
        exact (hwatched.gone _ (List.mem_of_getElem? hi) g hg).2 k howns
      | register dest key request' => cases hupdate
      | reply dest key response => cases hupdate
  · exact h.mono fun p hp _ => List.mem_append_left _ hp
  · refine h.mono fun p hp hfetches => ?_
    rcases mem_eraseIdx_or hi hp with rfl | hp
    · rw [hfosters p hi] at hfetches
      cases hfetches
    · exact hp

/-- The invariant of the servers and messages, and that `d` gets what `k` owns. -/
structure Awaited (d k : Int32) (g : UInt32) (H : Int32 → UInt32 → Prop) (s : System) : Prop where
  watched : Watched H s
  drew : s.Drew k g
  coming : s.Owns k g → s.Coming d k g

theorem Awaited.step {action : Action} (h : Awaited d k g H s) (hdraws : s'.NoRepeat)
    (hfosters : s.Fosters d k g action) (hstep : s.step action = some s') :
    Awaited d k g (Extended H s') s' := by
  obtain ⟨-, hgrows⟩ := filed_step h.watched.filed hstep
  refine ⟨h.watched.step hdraws hstep, hgrows.drew h.drew, fun howns' => ?_⟩
  have howns := System.owns_before h.watched.filed hdraws h.drew hstep howns'
  exact (h.coming howns).step h.watched (hgrows.noRepeat hdraws) hfosters hstep howns

theorem Awaited.stays {actions : List Action} (h : Awaited d k g H s) (hdraws : u.NoRepeat)
    (hfosters : Meets System.step (System.Fosters d k g) s actions)
    (hrun : run System.step s actions = some u) : ∃ H', Awaited d k g H' u := by
  refine run_invariant_good (P := fun v => ∃ H', Awaited d k g H' v) filed_back ?_ h.watched.filed
    ⟨H, h⟩ hfosters hrun hdraws
  rintro v action w - ⟨H', hv⟩ hdraws hfosters hstep
  exact ⟨_, hv.step hdraws hfosters hstep⟩

/-- In every run, a server that is notified of an object while its owner has it, and that can reach the
    owner, has a replica of it from then on, or its call (made or still to be made) or the answer is in
    the network, as long as the owner has the object, if neither of the two is lost and the server cleans
    up only when it is interested. -/
theorem notices_fetched {v w : System} {before after : List Action} {publications : List MatchMsg}
    {c : Colyseus} (h : s.Initial) (hbefore : run System.step s before = some v)
    (hc : v.servers.lookup d = some c) (hpeer : (c.peerEndpoints.lookup k).isSome)
    (hnotice : ⟨g, k⟩ ∈ publications) (hne : k ≠ d) (howns : v.Owns k g)
    (hnotify : v.step (.notify d publications) = some w)
    (hafter : run System.step w after = some u) (hdraws : u.NoRepeat)
    (hfosters : Meets System.step (System.Fosters d k g) w after) (hstill : u.Owns k g) :
    u.Coming d k g := by
  have hf := (filed_run (initial_filed h) hbefore).1
  obtain ⟨hfw, hgrows⟩ := filed_step hf hnotify
  have hdraws' := (filed_run hfw hafter).2.noRepeat hdraws
  obtain ⟨H, hwatched⟩ := (initial_watched h).runs (hgrows.noRepeat hdraws') hbefore
  obtain ⟨c₀, c', packets, hreacts⟩ := ask_reacts hf hnotify
  obtain rfl := Option.some.inj (hc.symm.trans hreacts.before)
  obtain ⟨peer, hpeer⟩ := Option.isSome_iff_exists.mp hpeer
  obtain rfl := (hwatched.owned.servers d c hc).peers k peer hpeer
  have hsid := hf.sid d c hc
  have hdrew := hwatched.owned.drew _ g (hwatched.owned.owns hf howns)
  have hstart : Awaited d peer g (Extended H w) w := by
    refine ⟨hwatched.step hdraws' hnotify, hgrows.drew hdrew, fun _ => ?_⟩
    rcases Colyseus.notify_fetches hreacts.react hpeer hnotice (hsid ▸ hne) with hr | ⟨p, hp, hfetches⟩
    · exact .inl ⟨c', hreacts.after, hr⟩
    · refine .inr ⟨p, ?_, hsid ▸ hfetches⟩
      rw [hreacts.network]
      exact List.mem_append_right _ hp
  obtain ⟨H', hend⟩ := hstart.stays hdraws hfosters hafter
  exact hend.coming hstill

end

/-- Server 1 has a player, and server 2 another one next to it. -/
def beside : List Action :=
  [.connect 2 1, .spawn 1 ⟨some ⟨0, 10, 10, 2, 2, player⟩⟩ 0,
    .spawn 2 ⟨some ⟨0, 13, 10, 2, 2, player⟩⟩ 0]

/-- The player of server 1 turns before the call arrives, and server 2 cleans up before it has the
    answer and after. -/
def follows : List Action :=
  [.event 1 100 right 900, .deliver 0 1000, .cleanup 2 1005, .deliver 0 1010, .cleanup 2 1500]

/-- Server 2 is notified and gets its replica. -/
theorem notices_fetched_beside : ∃ v w u, run System.step twoServers beside = some v ∧
    v.step (.notify 2 [⟨100, 1⟩]) = some w ∧ run System.step w follows = some u ∧ u.Owns 1 100 ∧
    u.Replicates 2 100 := by
  obtain ⟨⟨v, w, u⟩, heval, hserver, howns, hdraws, hfosters, hstill, hquiet⟩ := exists_of_map_decide
    (o := (run System.step twoServers beside).bind fun v =>
      (v.step (.notify 2 [⟨100, 1⟩])).bind fun w => (run System.step w follows).map fun u => (v, w, u))
    (P := fun x => ((x.1.servers.lookup 2).any fun c => (c.peerEndpoints.lookup 1).isSome) ∧
      x.1.Owns 1 100 ∧ x.2.2.NoRepeat ∧ Meets System.step (System.Fosters 2 1 100) x.2.1 follows ∧
      x.2.2.Owns 1 100 ∧ ∀ p ∈ x.2.2.network, p.fetches 2 1 100 = false) (by decide +kernel)
  obtain ⟨v', hbefore, heval⟩ := Option.bind_eq_some_iff.mp heval
  obtain ⟨w', hnotify, heval⟩ := Option.bind_eq_some_iff.mp heval
  obtain ⟨u', hafter, heq⟩ := Option.map_eq_some_iff.mp heval
  cases heq
  obtain ⟨c, hc, hpeer⟩ := (Option.any_eq_true _ _).mp hserver
  have hcoming := notices_fetched initial_twoServers hbefore hc hpeer (List.mem_singleton_self _)
    (by decide) howns hnotify hafter hdraws hfosters hstill
  refine ⟨v, w, u, hbefore, hnotify, hafter, hstill, hcoming.resolve_right ?_⟩
  rintro ⟨p, hp, hfetches⟩
  rw [hquiet p hp] at hfetches
  cases hfetches

end DistGame
