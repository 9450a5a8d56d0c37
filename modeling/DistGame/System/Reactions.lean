import DistGame.Server.Cleanup
import DistGame.System.Network

/-! What a server may do when it reacts: one summary that covers every input, so that the invariants of
    the system are proved from it and not from the handlers. -/

namespace DistGame

/-- The inputs that are no spawn, no event and no update. -/
def Input.Quiet : Input → Prop
  | .spawn _ _ | .event _ _ _ | .update _ _ => False
  | _ => True

/-- The input tells the server of `g`, as an object that the server `sid` owns. -/
def Tells (c : Colyseus) (g : UInt32) (sid : Int32) : Input → Prop
  | .update request _ => g ∈ request.initialStates.map ProtoGameObject.guid ∧
    ∃ r, c.replicas.lookup request.targetGuid = some r ∧ r.sid = sid
  | .install key response => g ∈ response.initialStates.map ProtoGameObject.guid ∧ key = sid
  | _ => False

/-- A message that a server sends when it reacts to `input` by going from `c` to `c'`. -/
def Sends (c : Colyseus) (input : Input) (c' : Colyseus) : Packet → Prop
  | .update _ request =>
    (∀ st ∈ request.initialStates, (c.primaries.lookup request.targetGuid).isSome ∧
      ((c'.primaries.lookup st.guid).isSome ∨ st.guid = request.targetGuid) ∧
      ∃ n, c.drawn ≤ n ∧ n < c'.drawn ∧ c.guids n = st.guid) ∧
    ∀ g ∈ request.deletedGuids, g = request.targetGuid ∧ (c.primaries.lookup g).isSome
  | .register dest key request => c.peerEndpoints.lookup key = some dest ∧ request.sid = c.sid ∧
    (key = c.sid → ∃ g r, c.replicas.lookup g = some r ∧ r.sid = key)
  | .reply dest key response => (∃ request now, input = .register key request now ∧
      request.isRenewal = false ∧ dest = request.sid) ∧
    ∀ st ∈ response.initialStates, (c.primaries.lookup st.guid).isSome

/-- A server with keyed maps goes from `c` to `c'` and sends `packets`: it keeps its sid and its
    source of guids, owns what it owned or has just drawn, and has replicas of what it had or was
    told of. -/
structure Reaction (c : Colyseus) (input : Input) (c' : Colyseus) (packets : List Packet) : Prop where
  sid : c'.sid = c.sid
  guids : c'.guids = c.guids
  drawn : c.drawn ≤ c'.drawn
  keyed : c'.Keyed
  primaries : ∀ g, (c'.primaries.lookup g).isSome → (c.primaries.lookup g).isSome ∨
    ∃ n, c.drawn ≤ n ∧ n < c'.drawn ∧ c.guids n = g
  replicas : ∀ g r, c'.replicas.lookup g = some r →
    (∃ r₀, c.replicas.lookup g = some r₀ ∧ r.guid = r₀.guid ∧ r.sid = r₀.sid) ∨
      (r.guid = g ∧ Tells c g r.sid input)
  peers : ∀ i peer, c'.peerEndpoints.lookup i = some peer →
    c.peerEndpoints.lookup i = some peer ∨ peer = i
  sends : ∀ p ∈ packets, Sends c input c' p

namespace Colyseus
variable {c c' : Colyseus} {packets : List Packet}

/-- Replicas that are still there are still what they were. -/
theorem replicas_kept {c c' : Colyseus} {input : Input}
    (h : ∀ g r, c'.replicas.lookup g = some r → c.replicas.lookup g = some r) :
    ∀ g r, c'.replicas.lookup g = some r →
      (∃ r₀, c.replicas.lookup g = some r₀ ∧ r.guid = r₀.guid ∧ r.sid = r₀.sid) ∨
        (r.guid = g ∧ Tells c g r.sid input) :=
  fun g r hr => .inl ⟨r, h g r hr, rfl, rfl⟩

/-- The messages of an update. -/
theorem handleUpdate_sends {g : UInt32} {input : Int32} {now : Int64} {i : Input} (hkeyed : c.Keyed) :
    ∀ p ∈ updates (c.handleUpdate g input now).2, Sends c i (c.handleUpdate g input now).1 p := by
  intro p hp
  obtain ⟨call, hcall, rfl⟩ := List.mem_map.mp hp
  cases ho : c.primaries.lookup g with
  | none =>
    obtain ⟨hreq, -⟩ := (handleUpdate_no_primary ho input now).2 call hcall
    rw [hreq]
    exact ⟨fun _ h => absurd h List.not_mem_nil, fun _ h => absurd h List.not_mem_nil⟩
  | some o =>
    have hguid := hkeyed g o ho
    rw [handleUpdate_primary ho] at hcall ⊢
    rw [(mem_pushes hcall).1]
    refine ⟨fun st hst => ⟨?_, ?_, ?_⟩, fun k hk => ?_⟩
    · show (c.primaries.lookup g).isSome
      rw [ho]
      rfl
    · by_cases hst' : st.guid = g
      · exact .inr hst'
      · refine .inl ?_
        rw [deleteAll_primaries, if_neg ?_]
        · exact createObjects_owned st _ _ hst
        · rw [GameObject.deleted, hguid]
          split
          · simpa using hst'
          · exact List.not_mem_nil
    · obtain ⟨n, hn, hst⟩ := createObjects_states _ _ hst
      refine ⟨_, ?_, ?_, hst⟩
      · dsimp only
        omega
      · rw [deleteAll_frame]
        dsimp only
        rw [applied_drawn]
        omega
    · have hk' : k ∈ o.deleted ⟨input, now⟩ := hk
      rw [GameObject.deleted, hguid] at hk'
      split at hk'
      · obtain rfl := List.mem_singleton.mp hk'
        refine ⟨rfl, ?_⟩
        rw [ho]
        rfl
      · exact absurd hk' List.not_mem_nil

theorem handleUpdate_reaction {g : UInt32} {input : Int32} {now : Int64} (i : Input)
    (hkeyed : c.Keyed) :
    Reaction c i (c.handleUpdate g input now).1 (updates (c.handleUpdate g input now).2) where
  sid := by rw [handleUpdate_frame]
  guids := by rw [handleUpdate_frame]
  drawn := handleUpdate_drawn_le c g input now
  keyed := handleUpdate_keyed hkeyed
  primaries := by
    intro k hk
    obtain ⟨x, hx⟩ := Option.isSome_iff_exists.mp hk
    rcases handleUpdate_cases hx with ⟨rfl, o, ho, -⟩ | hx | ⟨n, hle, hlt, hn, -⟩
    · rw [ho]
      exact .inl rfl
    · rw [hx]
      exact .inl rfl
    · exact .inr ⟨n, hle, hlt, hn⟩
  replicas := replicas_kept fun k r hr => handleUpdate_replicas hr
  peers := by
    intro i peer h
    rw [handleUpdate_frame] at h
    exact .inl h
  sends := handleUpdate_sends hkeyed

/-- A reaction that only touches fields no invariant is about. -/
theorem quiet_reaction {input : Input} (hkeyed : c.Keyed) (hsid : c'.sid = c.sid)
    (hguids : c'.guids = c.guids) (hdrawn : c'.drawn = c.drawn) (hp : c'.primaries = c.primaries)
    (hr : ∀ g r, c'.replicas.lookup g = some r → c.replicas.lookup g = some r)
    (hpeers : ∀ i peer, c'.peerEndpoints.lookup i = some peer →
      c.peerEndpoints.lookup i = some peer ∨ peer = i)
    (hsends : ∀ p ∈ packets, Sends c input c' p) : Reaction c input c' packets where
  sid := hsid
  guids := hguids
  drawn := hdrawn.ge
  keyed := by
    rw [Keyed, hp]
    exact hkeyed
  primaries := by
    rw [hp]
    exact fun _ h => .inl h
  replicas := replicas_kept hr
  peers := hpeers
  sends := hsends

theorem spawn_reaction {request : SpawnRequest} {now : Int64} {g : UInt32} (hkeyed : c.Keyed)
    (h : c.spawn request now = some (g, c')) : Reaction c (.spawn request now) c' [] := by
  obtain ⟨state, -, h⟩ := Option.map_eq_some_iff.mp h
  obtain ⟨rfl, rfl⟩ := Prod.mk.inj h
  refine ⟨rfl, rfl, Nat.le_succ _, ?_, ?_, replicas_kept fun _ _ h => h, fun _ _ h => .inl h, ?_⟩
  · intro k o ho
    dsimp only at ho
    rw [GoMap.lookup_insert_ite] at ho
    split at ho
    · rename_i hk
      cases ho
      exact hk.symm
    · exact hkeyed k o ho
  · intro k hk
    dsimp only at hk
    rw [GoMap.lookup_insert_ite] at hk
    split at hk
    · rename_i hdrawn
      exact .inr ⟨c.drawn, Nat.le_refl _, Nat.lt_succ_self _, hdrawn.symm⟩
    · exact .inl hk
  · intro p hp
    exact absurd hp List.not_mem_nil

theorem update_reaction {request : UpdateRequest} {now : Int64}
    {calls : List (PeerCall UpdateRequest)} (hkeyed : c.Keyed)
    (h : c.update request now = some (c', calls)) :
    Reaction c (.update request now) c' (updates calls) := by
  rcases update_cases h with ⟨_, event, -, -, h⟩ | ⟨-, rfl, ⟨rfl, -⟩ | ⟨r, event, c₁, hr, hc₁, rfl⟩⟩
  · obtain ⟨rfl, rfl⟩ := Prod.mk.inj h
    exact handleUpdate_reaction _ hkeyed
  · exact quiet_reaction hkeyed rfl rfl rfl rfl (fun _ _ h => h) (fun _ _ h => .inl h)
      fun _ h => absurd h List.not_mem_nil
  · obtain ⟨hframe, hstored⟩ := replicateNew_spec hc₁
    refine ⟨?_, ?_, ?_, update_keyed h hkeyed, fun k hk => ?_, fun k x hx => ?_, fun i peer hp => ?_,
      fun _ h => absurd h List.not_mem_nil⟩
    · rw [deleteAll_frame, hframe]
    · rw [deleteAll_frame, hframe]
    · rw [deleteAll_frame, hframe]
    · rw [deleteAll_primaries, hframe] at hk
      split at hk
      · cases hk
      · exact .inl hk
    · rw [deleteAll_replicas] at hx
      split at hx
      · cases hx
      · rcases hstored hx with hx | ⟨st, hst, event', rfl, rfl⟩
        · rw [GoMap.lookup_insert_ite] at hx
          split at hx
          · rename_i hk
            cases hx
            subst hk
            exact .inl ⟨r, hr, GameObject.advance_guid _ _, GameObject.advance_sid _ _⟩
          · exact .inl ⟨x, hx, rfl, rfl⟩
        · exact .inr ⟨rfl, List.mem_map_of_mem hst, r, hr, rfl⟩
    · rw [deleteAll_frame, hframe] at hp
      exact .inl hp

/-- A notification asks other servers only. -/
theorem notify_reaction (hkeyed : c.Keyed) (publications : List MatchMsg) :
    Reaction c (.notify publications) c
      (registers (c.interestCalls (c.neededObjectsBySid publications))) := by
  refine quiet_reaction hkeyed rfl rfl rfl rfl (fun _ _ h => h) (fun _ _ h => .inl h) ?_
  intro p hp
  obtain ⟨call, hcall, rfl⟩ := List.mem_map.mp hp
  obtain ⟨guids, hguids, hpeer, hrequest⟩ := mem_interestCalls.mp hcall
  refine ⟨hpeer, by rw [hrequest], fun hsid => ?_⟩
  have hneeded : call.sid ∈ c.neededObjectsBySid publications := by
    rw [← AList.lookup_isSome, hguids]
    rfl
  rw [neededObjects_eq, GoMap.mem_pushAll] at hneeded
  rcases hneeded with h | ⟨m, hm, hm'⟩
  · exact absurd h (AList.notMem_empty call.sid)
  · have hother := (Bool.and_eq_true_iff.mp (List.mem_filter.mp hm).2).1
    exact absurd (hm'.trans hsid) (bne_iff_ne.mp hother)

theorem cleanup_reaction (hkeyed : c.Keyed) (hreplicas : c.ReplicasKeyed) (now : Int64) :
    Reaction c (.cleanup now) (c.cleanup now).1
      (registers ((c.cleanup now).1.renewals (c.cleanup now).2)) := by
  obtain ⟨hframe, hkept, -, howners⟩ := cleanup_spec hreplicas now
  have hsid : (c.cleanup now).1.sid = c.sid := by rw [hframe]
  have hpeers : (c.cleanup now).1.peerEndpoints = c.peerEndpoints := by rw [hframe]
  refine quiet_reaction hkeyed hsid (by rw [hframe]) (by rw [hframe]) (by rw [hframe])
    (fun k r hr => ((hkept k r).mp hr).1) (fun i peer h => .inl (hpeers ▸ h)) ?_
  intro p hp
  obtain ⟨call, hcall, rfl⟩ := List.mem_map.mp hp
  obtain ⟨guids, hguids, hpeer, hrequest⟩ := mem_renewals.mp hcall
  exact ⟨hpeers ▸ hpeer, by rw [hrequest, hsid], fun _ => howners call.sid (by rw [hguids]; rfl)⟩

theorem register_reaction (hkeyed : c.Keyed) (key : Int32) (request : RegisterInterestRequest)
    (now : Int64) : Reaction c (.register key request now) (c.registerInterest request now).1
      (if request.isRenewal then []
        else [.reply request.sid key (c.registerInterest request now).2]) := by
  have hframe := registerInterest_frame c request now
  refine quiet_reaction hkeyed (by rw [hframe]) (by rw [hframe]) (by rw [hframe]) (by rw [hframe])
    (fun k r h => ?_) (fun i peer h => ?_) ?_
  · rw [hframe] at h
    exact h
  · rw [hframe] at h
    exact .inl h
  · intro p hp
    split at hp
    · exact absurd hp List.not_mem_nil
    · rename_i hrenewal
      rw [List.mem_singleton.mp hp]
      refine ⟨⟨request, now, rfl, by simpa using hrenewal, rfl⟩, fun st hst => ?_⟩
      rw [registerInterest_response] at hst
      obtain ⟨o, ho, rfl⟩ := List.mem_map.mp hst
      show (c.primaries.lookup o.guid).isSome
      rw [((mem_named hkeyed).mp ho).2]
      rfl

theorem install_reaction {key : Int32} {response : RegisterInterestResponse} (hkeyed : c.Keyed)
    (h : c.installResponse key response = some c') : Reaction c (.install key response) c' [] := by
  obtain ⟨hframe, hstored⟩ := installReplicas_spec h
  refine ⟨by rw [hframe], by rw [hframe], by rw [hframe], ?_, fun k hk => ?_, fun k x hx => ?_,
    fun i peer hp => ?_, fun _ h => absurd h List.not_mem_nil⟩
  · intro k o ho
    rw [hframe] at ho
    exact hkeyed k o ho
  · rw [hframe] at hk
    exact .inl hk
  · rcases hstored hx with hx | ⟨st, hst, event, rfl, rfl⟩
    · exact .inl ⟨x, hx, rfl, rfl⟩
    · exact .inr ⟨rfl, List.mem_map_of_mem hst, rfl⟩
  · rw [hframe] at hp
    exact .inl hp

theorem connect_reaction (hkeyed : c.Keyed) (peer : Int32) : Reaction c (.connect peer)
    { c with peerEndpoints := c.peerEndpoints.insert peer peer } [] := by
  refine quiet_reaction hkeyed rfl rfl rfl rfl (fun _ _ h => h) (fun i p hp => ?_)
    fun _ h => absurd h List.not_mem_nil
  dsimp only at hp
  rw [GoMap.lookup_insert_ite] at hp
  split at hp
  · rename_i hi
    cases hp
    exact .inr hi.symm
  · exact .inl hp

/-- Without an event and a spawn the primaries stay, and interests are only registered. -/
theorem react_quiet {input : Input} (hreplicas : c.ReplicasKeyed)
    (h : c.react input = some (c', packets)) (hquiet : input.Quiet) : c'.primaries = c.primaries ∧
      ∀ g, c.primaryInterest.index g [] <+: c'.primaryInterest.index g [] := by
  have hsame : c'.primaries = c.primaries → c'.primaryInterest = c.primaryInterest →
      c'.primaries = c.primaries ∧
        ∀ g, c.primaryInterest.index g [] <+: c'.primaryInterest.index g [] := by
    intro hp hi
    rw [hi]
    exact ⟨hp, fun _ => List.prefix_rfl⟩
  cases input with
  | connect peer => cases h; exact hsame rfl rfl
  | notify publications => cases h; exact hsame rfl rfl
  | cleanup now =>
    cases h
    have hp : (c.cleanup now).1.primaries = c.primaries := by rw [(cleanup_spec hreplicas now).1]
    have hi : (c.cleanup now).1.primaryInterest = c.primaryInterest := by
      rw [(cleanup_spec hreplicas now).1]
    exact hsame hp hi
  | install key response =>
    obtain ⟨c₁, hinstall, h⟩ := Option.map_eq_some_iff.mp h
    cases h
    have hframe := (installReplicas_spec hinstall).1
    exact hsame (by rw [hframe]) (by rw [hframe])
  | register key request now =>
    obtain rfl : (c.registerInterest request now).1 = c' := congrArg Prod.fst (Option.some.inj h)
    refine ⟨by rw [registerInterest_frame], fun g => ?_⟩
    rw [registerInterest_index]
    exact List.prefix_append _ _
  | spawn request now => exact hquiet.elim
  | event guid bits now => exact hquiet.elim
  | update request now => exact hquiet.elim

/-- Every reaction of a server with keyed maps. -/
theorem react_reaction {input : Input} (hkeyed : c.Keyed) (hreplicas : c.ReplicasKeyed)
    (h : c.react input = some (c', packets)) : Reaction c input c' packets := by
  cases input with
  | connect peer =>
    cases h
    exact connect_reaction hkeyed peer
  | spawn request now =>
    obtain ⟨⟨g, c₁⟩, hspawn, h⟩ := Option.map_eq_some_iff.mp h
    cases h
    exact spawn_reaction hkeyed hspawn
  | event guid input now =>
    cases h
    exact handleUpdate_reaction _ hkeyed
  | update request now =>
    obtain ⟨⟨c₁, calls⟩, hupdate, h⟩ := Option.map_eq_some_iff.mp h
    cases h
    exact update_reaction hkeyed hupdate
  | notify publications =>
    cases h
    exact notify_reaction hkeyed publications
  | cleanup now =>
    cases h
    exact cleanup_reaction hkeyed hreplicas now
  | register key request now =>
    cases h
    exact register_reaction hkeyed key request now
  | install key response =>
    obtain ⟨c₁, hinstall, h⟩ := Option.map_eq_some_iff.mp h
    cases h
    exact install_reaction hkeyed hinstall

/-- Reactions write the peers and the maps and draw guids; the rest of the server stays. -/
theorem react_frame {input : Input} (hreplicas : c.ReplicasKeyed)
    (h : c.react input = some (c', packets)) : c' = { c with
      peerEndpoints := c'.peerEndpoints
      primaries := c'.primaries
      replicas := c'.replicas
      primaryInterest := c'.primaryInterest
      drawn := c'.drawn } := by
  cases input with
  | connect peer =>
    cases h
    rfl
  | spawn request now =>
    obtain ⟨⟨g, c₁⟩, hspawn, h⟩ := Option.map_eq_some_iff.mp h
    cases h
    obtain ⟨state, -, hspawn⟩ := Option.map_eq_some_iff.mp hspawn
    cases hspawn
    rfl
  | event guid input now =>
    obtain rfl : (c.handleUpdate guid input now).1 = c' := congrArg Prod.fst (Option.some.inj h)
    rw [handleUpdate_frame]
  | update request now =>
    obtain ⟨⟨c₁, calls⟩, hupdate, h⟩ := Option.map_eq_some_iff.mp h
    cases h
    rw [update_frame hupdate]
  | notify publications =>
    cases h
    rfl
  | cleanup now =>
    obtain rfl : (c.cleanup now).1 = c' := congrArg Prod.fst (Option.some.inj h)
    rw [(cleanup_spec hreplicas now).1]
  | register key request now =>
    obtain rfl : (c.registerInterest request now).1 = c' := congrArg Prod.fst (Option.some.inj h)
    rw [registerInterest_frame]
  | install key response =>
    obtain ⟨c₁, hinstall, h⟩ := Option.map_eq_some_iff.mp h
    cases h
    rw [installReplicas_frame hinstall]

/-- A server asks the server under `key` for objects that the locator says it owns, and renews its
    interest in those that its replicas say it owns. -/
theorem react_registers {input : Input} (hreplicas : c.ReplicasKeyed)
    (h : c.react input = some (c', packets)) {dest key : Int32} {request : RegisterInterestRequest}
    (hp : .register dest key request ∈ packets) {g : UInt32} (hg : g ∈ request.targetGuids) :
    (∃ publications, input = .notify publications ∧ ⟨g, key⟩ ∈ publications) ∨
      ∃ r, c.replicas.lookup g = some r ∧ r.sid = key := by
  cases input with
  | connect peer =>
    cases h
    exact absurd hp List.not_mem_nil
  | spawn request now =>
    obtain ⟨⟨k, c₁⟩, hspawn, h⟩ := Option.map_eq_some_iff.mp h
    cases h
    exact absurd hp List.not_mem_nil
  | event guid input now =>
    cases h
    simp [updates] at hp
  | update request now =>
    obtain ⟨⟨c₁, calls⟩, hupdate, h⟩ := Option.map_eq_some_iff.mp h
    cases h
    simp [updates] at hp
  | notify publications =>
    cases h
    obtain ⟨call, hcall, heq⟩ := List.mem_map.mp hp
    cases heq
    obtain ⟨guids, hguids, -, hrequest⟩ := mem_interestCalls.mp hcall
    have hindex : g ∈ (c.neededObjectsBySid publications).index call.sid [] := by
      rw [GoMap.index, hguids]
      rw [hrequest] at hg
      exact hg
    rw [neededObjects_eq, GoMap.pushAll_index] at hindex
    simp only [GoMap.index, AList.lookup_empty, Option.getD_none, List.nil_append, List.mem_map,
      List.mem_filter, decide_eq_true_eq] at hindex
    obtain ⟨m, ⟨⟨hm, -⟩, hsid⟩, rfl⟩ := hindex
    exact .inl ⟨publications, rfl, hsid ▸ hm⟩
  | cleanup now =>
    obtain rfl : registers ((c.cleanup now).1.renewals (c.cleanup now).2) = packets :=
      congrArg Prod.snd (Option.some.inj h)
    obtain ⟨call, hcall, heq⟩ := List.mem_map.mp hp
    cases heq
    obtain ⟨guids, hguids, -, hrequest⟩ := mem_renewals.mp hcall
    obtain ⟨-, -, hnoted, -⟩ := cleanup_spec hreplicas now
    have hindex : g ∈ (c.cleanup now).2.index call.sid [] := by
      rw [GoMap.index, hguids]
      rw [hrequest] at hg
      exact hg
    obtain ⟨r, hkeeps, hsid⟩ := (hnoted call.sid g).mp hindex
    exact .inr ⟨r, hkeeps.1, hsid⟩
  | register key request now =>
    cases h
    split at hp
    · exact absurd hp List.not_mem_nil
    · simp at hp
  | install key response =>
    obtain ⟨c₁, hinstall, h⟩ := Option.map_eq_some_iff.mp h
    cases h
    exact absurd hp List.not_mem_nil

end Colyseus

end DistGame
