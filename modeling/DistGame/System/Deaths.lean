import DistGame.Server.Replay
import DistGame.System.Reactions

/-! How an object goes away: its owner loses the primary only by an event that lets it die, and then
    sends the deletion to every peer with an unexpired registration; a server that is sent the deletion
    drops its replica. -/

namespace DistGame

/-- The object that an input is an event on, with what is held and the clock reading. -/
def Input.eventOn : Input → Option (UInt32 × Int32 × Int64)
  | .event guid input now => some (guid, input, now)
  | .update request now => request.update.map fun event => (request.targetGuid, event.input, now)
  | _ => none

/-- An update deletes at most its target. -/
def DeletesTarget (request : UpdateRequest) : Prop :=
  ∀ g ∈ request.deletedGuids, g = request.targetGuid

namespace Colyseus
variable {c c' : Colyseus} {packets : List Packet} {g : UInt32}

/-- A server with the primary handles the event. -/
theorem react_handles {input : Input} {bits : Int32} {now : Int64}
    (h : c.react input = some (c', packets)) (hon : input.eventOn = some (g, bits, now))
    (hg : (c.primaries.lookup g).isSome) :
    c' = (c.handleUpdate g bits now).1 ∧ packets = updates (c.handleUpdate g bits now).2 := by
  cases input with
  | event guid bits' t =>
    cases hon
    cases h
    exact ⟨rfl, rfl⟩
  | update request t =>
    obtain ⟨⟨c₁, calls⟩, hupdate, h⟩ := Option.map_eq_some_iff.mp h
    cases h
    obtain ⟨event, hevent, heq⟩ := Option.map_eq_some_iff.mp hon
    cases heq
    rcases update_cases hupdate with ⟨o, event', -, hevent', hrun⟩ | ⟨hnone, -, -⟩
    · obtain rfl := Option.some.inj (hevent.symm.trans hevent')
      obtain ⟨rfl, rfl⟩ := Prod.mk.inj hrun
      exact ⟨rfl, rfl⟩
    · rw [hnone] at hg
      cases hg
  | _ => cases hon

/-- The `Update` calls of a server are those of the event that it handles. -/
theorem react_calls {input : Input} (h : c.react input = some (c', packets)) {dest : Int32}
    {request : UpdateRequest} (hp : .update dest request ∈ packets) :
    ∃ k bits now, input.eventOn = some (k, bits, now) ∧
      (input = .event k bits now ∨ (c.primaries.lookup k).isSome) ∧
      c' = (c.handleUpdate k bits now).1 ∧
      ∃ call ∈ (c.handleUpdate k bits now).2, call.peer = dest ∧ call.request = request := by
  cases input with
  | event guid bits now =>
    cases h
    obtain ⟨call, hcall, heq⟩ := List.mem_map.mp hp
    cases heq
    exact ⟨guid, bits, now, rfl, .inl rfl, rfl, call, hcall, rfl, rfl⟩
  | update request' now =>
    obtain ⟨⟨c₁, calls⟩, hupdate, h⟩ := Option.map_eq_some_iff.mp h
    cases h
    obtain ⟨call, hcall, heq⟩ := List.mem_map.mp hp
    cases heq
    rcases update_cases hupdate with ⟨o, event, ho, hevent, hrun⟩ | ⟨-, rfl, -⟩
    · obtain ⟨rfl, rfl⟩ := Prod.mk.inj hrun
      refine ⟨request'.targetGuid, event.input, now, ?_, .inr ?_, rfl, call, hcall, rfl, rfl⟩
      · rw [Input.eventOn, hevent]
        rfl
      · rw [ho]
        rfl
    · exact absurd hcall List.not_mem_nil
  | spawn request' now =>
    obtain ⟨⟨k, c₁⟩, -, h⟩ := Option.map_eq_some_iff.mp h
    cases h
    exact absurd hp List.not_mem_nil
  | connect peer =>
    cases h
    exact absurd hp List.not_mem_nil
  | notify publications =>
    cases h
    simp [registers] at hp
  | cleanup now =>
    cases h
    simp [registers] at hp
  | register key request' now =>
    cases h
    split at hp
    · exact absurd hp List.not_mem_nil
    · simp at hp
  | install key response =>
    obtain ⟨c₁, -, h⟩ := Option.map_eq_some_iff.mp h
    cases h
    exact absurd hp List.not_mem_nil

/-- An update loses a primary only if it dies. -/
theorem handleUpdate_lost {k : UInt32} {input : Int32} {now : Int64} (hkeyed : c.Keyed)
    (hg : (c.primaries.lookup g).isSome)
    (hlost : (c.handleUpdate k input now).1.primaries.lookup g = none) :
    g = k ∧ held input die = true := by
  cases ho : c.primaries.lookup k with
  | none =>
    rw [(handleUpdate_no_primary ho input now).1] at hlost
    rw [hlost] at hg
    cases hg
  | some o =>
    have happlied : ((c.applied k o ⟨input, now⟩).1.primaries.lookup g).isSome := by
      refine createObjects_isSome _ _ ?_
      rw [GoMap.lookup_insert_ite]
      split
      · rfl
      · exact hg
    rw [handleUpdate_primary ho, deleteAll_primaries] at hlost
    split at hlost
    · rename_i hmem
      rw [GameObject.deleted, hkeyed k o ho] at hmem
      split at hmem
      · exact ⟨List.mem_singleton.mp hmem, ‹_›⟩
      · exact absurd hmem List.not_mem_nil
    · rw [hlost] at happlied
      cases happlied

/-- A peer with an unexpired registration is called. -/
theorem handleUpdate_calls_peer {o : GameObject} {input : Int32} {now : Int64} {sid : Int32}
    (ho : c.primaries.lookup g = some o) (hover : ¬ c.Overwrites g o ⟨input, now⟩)
    (hpeer : c.IsPeer sid) (hlive : 0 < c.unexpired g sid now) :
    ∃ call ∈ (c.handleUpdate g input now).2, c.peerEndpoints.lookup sid = some call.peer ∧
      call.request = c.pushed g o ⟨input, now⟩ := by
  have hcount := handleUpdate_countP ho input now sid
  rw [if_pos ⟨hpeer, hover⟩] at hcount
  obtain ⟨call, hcall, hsid⟩ := List.countP_pos_iff.mp (hcount ▸ hlive)
  refine ⟨call, hcall, ?_⟩
  rw [handleUpdate_primary ho] at hcall
  obtain ⟨hreq, hlookup⟩ := mem_pushes hcall
  have hframe : (c.applied g o ⟨input, now⟩).1.peerEndpoints = c.peerEndpoints := by
    rw [applied_frame]
  rw [hframe, eq_of_beq hsid] at hlookup
  exact ⟨hlookup, hreq⟩

/-- The deletion is sent to a peer with an unexpired registration. -/
theorem handleUpdate_announces {o : GameObject} {input : Int32} {now : Int64} {sid : Int32}
    (hkeyed : c.Keyed) (ho : c.primaries.lookup g = some o) (hdies : held input die = true)
    (hfresh : ∀ n, c.drawn ≤ n → n < (c.handleUpdate g input now).1.drawn → c.guids n ≠ g)
    (hpeer : c.IsPeer sid) (hlive : 0 < c.unexpired g sid now) :
    ∃ call ∈ (c.handleUpdate g input now).2, c.peerEndpoints.lookup sid = some call.peer ∧
      g ∈ call.request.deletedGuids := by
  have hover : ¬ c.Overwrites g o ⟨input, now⟩ := not_overwrites ho (Nat.le_refl _) hfresh
  obtain ⟨call, hcall, hlookup, hreq⟩ := handleUpdate_calls_peer ho hover hpeer hlive
  refine ⟨call, hcall, hlookup, ?_⟩
  rw [hreq, (pushed_isPush (hkeyed g o ho) hover).deleted, if_pos hdies]
  exact List.mem_singleton_self g

/-- An update that loses a primary is the event by which it dies, and announces it. -/
theorem lost_announced (hkeyed : c.Keyed)
    (hfresh : ∀ n, c.drawn ≤ n → n < c'.drawn → c.guids n ≠ g)
    (hg : (c.primaries.lookup g).isSome) (hlost : c'.primaries.lookup g = none) {k : UInt32}
    {bits : Int32} {now : Int64} {calls : List (PeerCall UpdateRequest)}
    (hrun : (c', calls) = c.handleUpdate k bits now) :
    g = k ∧ held bits die = true ∧ ∀ sid, c.IsPeer sid → 0 < c.unexpired g sid now →
      ∃ dest request, Packet.update dest request ∈ updates calls ∧
        c.peerEndpoints.lookup sid = some dest ∧ g ∈ request.deletedGuids := by
  obtain ⟨rfl, rfl⟩ := Prod.mk.inj hrun
  obtain ⟨rfl, hdies⟩ := handleUpdate_lost hkeyed hg hlost
  obtain ⟨o, ho⟩ := Option.isSome_iff_exists.mp hg
  refine ⟨rfl, hdies, fun sid hpeer hlive => ?_⟩
  obtain ⟨call, hcall, hlookup, hmem⟩ := handleUpdate_announces hkeyed ho hdies hfresh hpeer hlive
  exact ⟨call.peer, call.request, List.mem_map_of_mem hcall, hlookup, hmem⟩

/-- A server that loses a primary has handled the event by which it dies, and announces it. -/
theorem react_lost {input : Input} (hkeyed : c.Keyed) (hreplicas : c.ReplicasKeyed)
    (h : c.react input = some (c', packets))
    (hdel : ∀ request now, input = .update request now → DeletesTarget request)
    (hfresh : ∀ n, c.drawn ≤ n → n < c'.drawn → c.guids n ≠ g)
    (hg : (c.primaries.lookup g).isSome) (hlost : c'.primaries.lookup g = none) :
    ∃ bits now, input.eventOn = some (g, bits, now) ∧ held bits die = true ∧
      ∀ sid, c.IsPeer sid → 0 < c.unexpired g sid now →
        ∃ dest request, Packet.update dest request ∈ packets ∧
          c.peerEndpoints.lookup sid = some dest ∧ g ∈ request.deletedGuids := by
  have hsame : c'.primaries = c.primaries → False := fun hp => by
    rw [← hp, hlost] at hg
    cases hg
  cases input with
  | event guid bits now =>
    cases h
    obtain ⟨rfl, hdies, hsent⟩ := lost_announced hkeyed hfresh hg hlost rfl
    exact ⟨bits, now, rfl, hdies, hsent⟩
  | update request now =>
    obtain ⟨⟨c₁, calls⟩, hupdate, h⟩ := Option.map_eq_some_iff.mp h
    cases h
    rcases update_cases hupdate with ⟨_, event, -, hevent, hrun⟩ | ⟨hp, -, ⟨rfl, -⟩ |
      ⟨r, event, c₂, -, hc₂, rfl⟩⟩
    · obtain ⟨rfl, hdies, hsent⟩ := lost_announced hkeyed hfresh hg hlost hrun
      exact ⟨event.input, now, by rw [Input.eventOn, hevent]; rfl, hdies, hsent⟩
    · exact (hsame rfl).elim
    · rw [deleteAll_primaries, (replicateNew_spec hc₂).1] at hlost
      split at hlost
      · rename_i hmem
        rw [hdel request now rfl g hmem, hp] at hg
        cases hg
      · rw [hlost] at hg
        cases hg
  | spawn request now =>
    obtain ⟨⟨k, c₁⟩, hspawn, h⟩ := Option.map_eq_some_iff.mp h
    cases h
    obtain ⟨state, -, hspawn⟩ := Option.map_eq_some_iff.mp hspawn
    obtain ⟨-, rfl⟩ := Prod.mk.inj hspawn
    dsimp only at hlost
    rw [GoMap.lookup_insert_ite] at hlost
    split at hlost
    · cases hlost
    · rw [hlost] at hg
      cases hg
  | _ => exact (hsame (react_quiet hreplicas h trivial).1).elim

/-- A server that is sent a deletion has no replica of the object afterwards. -/
theorem update_drops {request : UpdateRequest} {now : Int64} {calls : List (PeerCall UpdateRequest)}
    (h : c.update request now = some (c', calls)) (hdel : DeletesTarget request)
    (hdisjoint : (c.primaries.lookup g).isSome → c.replicas.lookup g = none)
    (hg : g ∈ request.deletedGuids) : c'.replicas.lookup g = none := by
  have htarget := hdel g hg
  rcases update_cases h with ⟨o, event, ho, -, hrun⟩ | ⟨-, -, ⟨rfl, hnone⟩ | ⟨r, event, c₁, -, -, rfl⟩⟩
  · have hc' : c' = (c.handleUpdate request.targetGuid event.input now).1 := congrArg Prod.fst hrun
    cases hr : c'.replicas.lookup g with
    | none => rfl
    | some r =>
      have hnone := hdisjoint (by rw [htarget, ho]; rfl)
      rw [hc'] at hr
      rw [handleUpdate_replicas hr] at hnone
      cases hnone
  · rw [htarget]
    exact hnone
  · rw [deleteAll_replicas, if_pos hg]

end Colyseus

end DistGame
