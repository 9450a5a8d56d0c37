import Mathlib.Data.Multiset.AddSub
import DistGame.System.Holders
import DistGame.System.Traffic

/-! Every event counts once. An event is issued at the owner of its object or at a server with a
    replica, which forwards it; the owner applies it and pushes it to the others. As long as no
    forwarded event is lost or repeated, the owner applies each event that is issued once, and nothing
    else changes its copy. -/

namespace DistGame

/-- The events on `g` among what a server reacts to. -/
def Input.eventsOn (g : UInt32) (input : Input) : List GameEvent :=
  match input.eventOn with
  | some (guid, bits, now) => if guid = g then [⟨bits, now⟩] else []
  | none => []

/-- What the message passes on to server `k` as an event on `g`. -/
def Packet.forwards (k : Int32) (g : UInt32) : Packet → List Int32
  | .update dest request =>
    if dest = k ∧ request.targetGuid = g then (request.update.map GameEvent.input).toList else []
  | .register _ _ _ | .reply _ _ _ => []

namespace System

/-- The copy of `g` that server `k` owns. -/
def primary (s : System) (k : Int32) (g : UInt32) : Option GameObject :=
  (s.servers.lookup k).bind fun c => c.primaries.lookup g

/-- The events on `g` that server `k` handles in the step. -/
def handled (k : Int32) (g : UInt32) (s : System) (a : Action) : List GameEvent :=
  match s.asked a with
  | some (sid, input) => if sid = k then input.eventsOn g else []
  | none => []

/-- What the application of server `sid` does to its replica of `g`. -/
def replicaEvents (s : System) (sid : Int32) (g : UInt32) : Input → List Int32
  | .event guid bits _ => if guid = g ∧ s.Replicates sid g then [bits] else []
  | _ => []

/-- What is issued on `g` in the step: what its owner `k` is asked from outside, and what the
    application of another server does to its replica. -/
def issued (k : Int32) (g : UInt32) (s : System) (a : Action) : List Int32 :=
  match external a with
  | some (sid, input) =>
    if sid = k then (input.eventsOn g).map GameEvent.input else s.replicaEvents sid g input
  | none => []

/-- The events on `g` that are on the way to server `k`. -/
def forwarded (s : System) (k : Int32) (g : UInt32) : Multiset Int32 :=
  (s.network.flatMap (Packet.forwards k g) : List Int32)

/-- No event on `g` that is forwarded to server `k` is lost or repeated. -/
def Carries (k : Int32) (g : UInt32) (s : System) : Action → Prop
  | .lose i | .duplicate i => ∀ packet ∈ s.network[i]?, packet.forwards k g = []
  | _ => True

instance (k : Int32) (g : UInt32) (s : System) : DecidablePred (s.Carries k g)
  | .lose _ | .duplicate _ => Option.decidableForallMem _
  | .connect _ _ | .spawn _ _ _ | .clientUpdate _ _ _ _ | .event _ _ _ _ | .notify _ _
  | .cleanup _ _ | .deliver _ _ => isTrue trivial

end System

/-! ### One reaction -/

/-- An update is an event on its target, at the clock reading of the server. -/
theorem eventsOn_update (request : UpdateRequest) (now : Int64) (g : UInt32) :
    (Input.update request now).eventsOn g = if request.targetGuid = g then
      (request.update.map fun event => (⟨event.input, now⟩ : GameEvent)).toList else [] := by
  rw [Input.eventsOn, Input.eventOn]
  cases request.update with
  | none => exact (ite_self _).symm
  | some event => rfl

theorem foldl_replay_none : ∀ events : List GameEvent, events.foldl replay none = none
  | [] => rfl
  | _ :: events => foldl_replay_none events

namespace Colyseus
variable {c c' : Colyseus} {packets : List Packet} {input : Input} {g : UInt32}

/-- An event replays the primary. -/
theorem handleUpdate_replays {k : UInt32} {bits : Int32} {now : Int64} (hkeyed : c.Keyed)
    (h : c' = (c.handleUpdate k bits now).1)
    (hfresh : ∀ n, c.drawn ≤ n → n < c'.drawn → c.guids n ≠ g) :
    c'.primaries.lookup g =
      (if k = g then [⟨bits, now⟩] else ([] : List GameEvent)).foldl replay (c.primaries.lookup g) := by
  subst h
  split
  · rename_i hk
    subst hk
    cases ho : c.primaries.lookup k with
    | none =>
      rw [(handleUpdate_no_primary ho bits now).1, ho]
      rfl
    | some o =>
      have hover := not_overwrites ho (Nat.le_refl _) hfresh
      exact (handleUpdate_event ho (hkeyed k o ho) hover).1
  · rename_i hk
    exact (handleUpdate_ne (Ne.symm hk) hkeyed hfresh).1

/-- A reaction replays the events on the primary, and does nothing else to it. -/
theorem react_replays (hkeyed : c.Keyed) (hreplicas : c.ReplicasKeyed)
    (h : c.react input = some (c', packets))
    (hfresh : ∀ n, c.drawn ≤ n → n < c'.drawn → c.guids n ≠ g)
    (hdel : ∀ request now, input = .update request now → g ∈ request.deletedGuids →
      c.primaries.lookup g = none) :
    c'.primaries.lookup g = (input.eventsOn g).foldl replay (c.primaries.lookup g) := by
  cases input with
  | event k bits now =>
    exact handleUpdate_replays hkeyed (congrArg Prod.fst (Option.some.inj h)).symm hfresh
  | update request now =>
    obtain ⟨⟨c₁, calls⟩, hupdate, h⟩ := Option.map_eq_some_iff.mp h
    cases h
    rcases update_cases hupdate with ⟨o, event, -, hevent, hrun⟩ | ⟨hnone, -, hother⟩
    · have hon : (Input.update request now).eventsOn g =
          if request.targetGuid = g then [⟨event.input, now⟩] else [] := by
        rw [eventsOn_update, hevent]
        rfl
      rw [hon]
      exact handleUpdate_replays hkeyed (congrArg Prod.fst hrun) hfresh
    · have hsame : ((Input.update request now).eventsOn g).foldl replay (c.primaries.lookup g) =
          c.primaries.lookup g := by
        by_cases hg : request.targetGuid = g
        · rw [← hg, hnone, foldl_replay_none]
        · rw [eventsOn_update, if_neg hg]
          rfl
      rw [hsame]
      rcases hother with ⟨rfl, -⟩ | ⟨r, event, c₂, -, hc₂, rfl⟩
      · rfl
      · rw [deleteAll_primaries, (replicateNew_spec hc₂).1]
        split
        · exact (hdel request now rfl ‹_›).symm
        · rfl
  | spawn request now =>
    obtain ⟨⟨k, c₁⟩, hspawn, h⟩ := Option.map_eq_some_iff.mp h
    cases h
    exact (spawn_ne hspawn hfresh).1
  | _ => exact congrArg (AList.lookup g) (react_quiet hreplicas h trivial).1

end Colyseus

section
variable {H : Int32 → UInt32 → Prop} {s s' u : System} {sid k : Int32} {g : UInt32} {input : Input}
  {network : List Packet} {c c' : Colyseus} {packets : List Packet}

/-- No server calls itself. -/
theorem Sound.calls_others (h : Sound H c) (hreact : c.react input = some (c', packets)) {dest : Int32}
    {request : UpdateRequest} (hp : .update dest request ∈ packets) : dest ≠ c.sid := by
  obtain ⟨t, bits, now, -, -, -, call, hcall, rfl, -⟩ := Colyseus.react_calls hreact hp
  cases ho : c.primaries.lookup t with
  | none =>
    obtain ⟨-, r, hr, -, hpeer⟩ := (Colyseus.handleUpdate_no_primary ho bits now).2 call hcall
    rw [h.peers r.sid call.peer hpeer]
    exact (h.replicas t r hr).1
  | some o =>
    obtain ⟨-, hother, hpeer⟩ := (Colyseus.handleUpdate_pushes ho bits now).2 call hcall
    rw [h.peers call.sid call.peer hpeer]
    exact hother

/-- The owner forwards none of its events to itself. -/
theorem Sound.forwards_owner (h : Sound H c) (hreact : c.react input = some (c', packets)) :
    packets.flatMap (Packet.forwards c.sid g) = [] := by
  rw [List.flatMap_eq_nil_iff]
  intro p hp
  cases p with
  | update dest request => exact if_neg fun hto => h.calls_others hreact hp hto.1
  | register dest key request => rfl
  | reply dest key response => rfl

/-- A server without the primary forwards to the owner what its application does to a replica. -/
theorem Reacts.forwards_replica (h : Reacts { s with network } sid input s' c c' packets) (hw : Watched H s)
    (hnow : s.NoRepeat) (hH : H k g) (hne : sid ≠ k) :
    packets.flatMap (Packet.forwards k g) = s.replicaEvents sid g input := by
  have hc : s.servers.lookup sid = some c := h.before
  have hnone : c.primaries.lookup g = none := by
    cases ho : c.primaries.lookup g with
    | none => rfl
    | some o =>
      have hmine := hw.owned.owns hw.filed ⟨c, hc, by rw [ho]; rfl⟩
      exact absurd (owner_unique hw.owned.drew hnow hmine hH) hne
  by_cases hevent : ∃ bits now, input = .event g bits now
  · obtain ⟨bits, now, rfl⟩ := hevent
    obtain rfl : updates (c.handleUpdate g bits now).2 = packets :=
      congrArg Prod.snd (Option.some.inj h.react)
    cases hr : c.replicas.lookup g with
    | none =>
      have hnot : ¬ s.Replicates sid g := by
        rintro ⟨e, he, hg⟩
        obtain rfl := Option.some.inj (hc.symm.trans he)
        rw [hr] at hg
        cases hg
      have hquiet : c.handleUpdate g bits now = (c, []) := by
        simp only [Colyseus.handleUpdate, hnone, hr]
      rw [hquiet, System.replicaEvents, if_neg fun hb => hnot hb.2]
      rfl
    | some r =>
      have hrep : s.Replicates sid g := ⟨c, hc, by rw [hr]; rfl⟩
      obtain ⟨-, hforward⟩ := hw.known.forwards hw.owned hnow hc hr bits now
      obtain rfl := owner_unique hw.owned.drew hnow ((hw.owned.servers sid c hc).replicas g r hr).2 hH
      rw [hforward, System.replicaEvents, if_pos ⟨rfl, hrep⟩]
      simp [updates, Packet.forwards]
  · have hnothing : s.replicaEvents sid g input = [] := by
      cases input with
      | event guid bits now => exact if_neg fun hb => hevent ⟨bits, now, by rw [hb.1]⟩
      | _ => rfl
    rw [hnothing, List.flatMap_eq_nil_iff]
    intro p hp
    cases p with
    | update dest request =>
      obtain ⟨t, bits, now, -, hcase, -, call, hcall, -, rfl⟩ := Colyseus.react_calls h.react hp
      refine if_neg fun hto => ?_
      obtain rfl := (Colyseus.handleUpdate_passes hcall).1.symm.trans hto.2
      rcases hcase with heq | hsome
      · exact hevent ⟨bits, now, heq⟩
      · rw [hnone] at hsome
        cases hsome
    | register dest key request => rfl
    | reply dest key response => rfl

/-- The primary replays what its owner is asked. -/
theorem Reacts.primary (h : Reacts { s with network } sid input s' c c' packets) (hw : Watched H s)
    (hin : input.From s sid) (hdraws : s'.NoRepeat) (hH : H k g) : s'.primary k g =
      (if sid = k then input.eventsOn g else []).foldl replay (s.primary k g) := by
  have hc : s.servers.lookup sid = some c := h.before
  split
  · rename_i hk
    subst hk
    rw [System.primary, System.primary, h.after, hc]
    refine Colyseus.react_replays (hw.filed.keyed sid c hc) (hw.filed.replicas sid c hc) h.react
      (h.not_redrawn hdraws (hw.owned.drew sid g hH)) fun request now hupdate hg => ?_
    cases ho : c.primaries.lookup g with
    | none => rfl
    | some o => exact absurd hg (hin.keeps hw.gone ⟨c, hc, by rw [ho]; rfl⟩ request now hupdate)
  · rename_i hk
    rw [System.primary, h.others k (Ne.symm hk)]
    rfl

/-- What a reaction does to the primary and to the events on the way to its owner. -/
theorem ask_once (hw : Watched H s) (hin : input.From s sid) (hdraws : s'.NoRepeat) (hH : H k g)
    (hask : { s with network }.ask sid input = some s') :
    s'.primary k g = (if sid = k then input.eventsOn g else []).foldl replay (s.primary k g) ∧
      s'.forwarded k g = (network.flatMap (Packet.forwards k g) : List Int32) +
        ((if sid = k then [] else s.replicaEvents sid g input : List Int32) : Multiset Int32) := by
  obtain ⟨c, c', packets, hreacts⟩ := ask_reacts (s := { s with network }) (hw.filed.congr rfl) hask
  have hnow : s.NoRepeat := hreacts.grows.noRepeat hdraws
  refine ⟨hreacts.primary hw hin hdraws hH, ?_⟩
  rw [System.forwarded, hreacts.network, List.flatMap_append, ← Multiset.coe_add]
  congr 2
  split
  · rename_i hk
    subst hk
    have hc : s.servers.lookup sid = some c := hreacts.before
    rw [← hw.filed.sid sid c hc]
    exact (hw.owned.servers sid c hc).forwards_owner hreacts.react
  · rename_i hk
    exact hreacts.forwards_replica hw hnow hH hk

/-! ### Steps and runs -/

/-- What is taken off the network is what its receiver handles, if that is the owner. -/
theorem delivered_forwards (packet : Packet) (now : Int64) :
    (if packet.dest = k then (packet.input now).eventsOn g else []).map GameEvent.input =
      packet.forwards k g := by
  cases packet with
  | update dest request =>
    rw [Packet.dest, Packet.input, Packet.forwards, eventsOn_update]
    by_cases hd : dest = k <;> by_cases ht : request.targetGuid = g <;> cases request.update <;>
      simp [hd, ht]
  | register dest key request => exact congrArg (List.map GameEvent.input) (ite_self [])
  | reply dest key response => exact congrArg (List.map GameEvent.input) (ite_self [])

/-- A message that is taken off the network, and the others. -/
theorem System.forwarded_taken {i : ℕ} {packet : Packet} (hi : s.network[i]? = some packet) :
    (packet.forwards k g : Multiset Int32) +
      ((s.network.eraseIdx i).flatMap (Packet.forwards k g) : List Int32) = s.forwarded k g := by
  rw [Multiset.coe_add, ← List.flatMap_cons]
  exact Multiset.coe_eq_coe.mpr ((delivered_perm hi).flatMap_right _).symm

/-- In a step the primary replays what its owner handles, and this comes from what is on the way or
    issued. -/
theorem step_once {a : Action} (hw : Watched H s) (hdraws : s'.NoRepeat) (hH : H k g)
    (hcarries : s.Carries k g a) (hstep : s.step a = some s') :
    s'.primary k g = (System.handled k g s a).foldl replay (s.primary k g) ∧
      ((System.handled k g s a).map GameEvent.input : Multiset Int32) + s'.forwarded k g =
        (System.issued k g s a : Multiset Int32) + s.forwarded k g := by
  rcases System.step_cases hstep with ⟨sid, input, hext, hask⟩ | ⟨i, now, packet, rfl, hi, hask⟩ |
    ⟨i, packet, rfl, hi, rfl⟩ | ⟨i, packet, rfl, hi, rfl⟩
  · obtain ⟨hprimary, hforwarded⟩ := ask_once hw
      (.inl ⟨external_states hext, external_deletes hext⟩) hdraws hH hask
    rw [System.handled, System.asked_external hext, System.issued, hext, hforwarded]
    refine ⟨hprimary, ?_⟩
    dsimp only
    split
    · rw [Multiset.coe_nil, add_zero]
      rfl
    · rw [List.map_nil, Multiset.coe_nil, zero_add]
      exact add_comm _ _
  · obtain ⟨hprimary, hforwarded⟩ := ask_once hw
      (.inr ⟨packet, List.mem_of_getElem? hi, rfl, now, rfl⟩) hdraws hH hask
    rw [System.handled, System.asked_deliver hi now, hforwarded]
    refine ⟨hprimary, ?_⟩
    have hnothing : s.replicaEvents packet.dest g (packet.input now) = [] := by
      cases packet <;> rfl
    rw [hnothing, ite_self, delivered_forwards, Multiset.coe_nil, add_zero, System.forwarded_taken hi]
    exact (zero_add _).symm
  · have hnone : packet.forwards k g = [] := hcarries packet hi
    refine ⟨rfl, congrArg _ ?_⟩
    rw [System.forwarded, List.flatMap_append, List.flatMap_cons, hnone]
    exact congrArg _ (List.append_nil _)
  · have hnone : packet.forwards k g = [] := hcarries packet hi
    have htaken := System.forwarded_taken (k := k) (g := g) hi
    rw [hnone, Multiset.coe_nil, zero_add] at htaken
    exact ⟨rfl, congrArg _ htaken⟩

/-- From every reachable state in which server `k` owns `g`, in every run in which no event on `g` that
    is forwarded to it is lost or repeated: its copy has replayed the events that it has handled, in
    this order, and nothing else has changed it; and these events and those still on the way are, each
    as often, those that were issued and those on the way at the start. -/
theorem events_applied_once {s₀ : System} {before actions : List Action} (h : s₀.Initial)
    (hbefore : run System.step s₀ before = some s) (howns : s.Owns k g)
    (hrun : run System.step s actions = some u) (hdraws : u.NoRepeat)
    (hcarries : Meets System.step (System.Carries k g) s actions) :
    u.primary k g =
        (gathered System.step (System.handled k g) s actions).foldl replay (s.primary k g) ∧
      ((gathered System.step (System.handled k g) s actions).map GameEvent.input : Multiset Int32) +
          u.forwarded k g =
        (gathered System.step (System.issued k g) s actions : Multiset Int32) + s.forwarded k g := by
  have hf := (filed_run (initial_filed h) hbefore).1
  obtain ⟨H, hw⟩ := (initial_watched h).runs ((filed_run hf hrun).2.noRepeat hdraws) hbefore
  refine run_relates_good (P := fun v => ∃ H, Watched H v ∧ H k g) (C := System.Carries k g)
    (T := fun v actions w =>
      w.primary k g =
          (gathered System.step (System.handled k g) v actions).foldl replay (v.primary k g) ∧
        ((gathered System.step (System.handled k g) v actions).map GameEvent.input : Multiset Int32) +
            w.forwarded k g =
          (gathered System.step (System.issued k g) v actions : Multiset Int32) + v.forwarded k g)
    filed_back ?_ (fun _ => ⟨rfl, rfl⟩) ?_ hf ⟨H, hw, hw.owned.owns hf howns⟩ hcarries hrun hdraws
  · rintro v a v' - ⟨H, hv, hH⟩ hdraws - hstep
    exact ⟨_, hv.step hdraws hstep, .inl hH⟩
  · rintro v a v' actions w ⟨H, hv, hH⟩ hdraws hcarries hstep ⟨hprimary, hcount⟩
    obtain ⟨hreplays, hbalance⟩ := step_once hv hdraws hH hcarries hstep
    rw [gathered_cons hstep, gathered_cons hstep]
    refine ⟨by rw [List.foldl_append, ← hreplays, hprimary], ?_⟩
    rw [List.map_append, ← Multiset.coe_add, ← Multiset.coe_add, add_assoc, hcount, add_left_comm,
      hbalance, add_left_comm, add_assoc]

end

/-- The applications of both servers and a client of the owner move the player; the push to server 2 is
    lost. -/
def allMove : List Action :=
  [.event 1 100 right 1400, .event 2 100 up 1450, .clientUpdate 1 100 ⟨left, 77⟩ 1500, .lose 0,
    .deliver 0 1600]

theorem events_applied_once_allMove : ∃ s u, run System.step twoServers meet = some s ∧
    run System.step s allMove = some u ∧
    u.primary 1 100 =
      [⟨right, 1400⟩, ⟨left, 1500⟩, ⟨up, 1600⟩].foldl replay (s.primary 1 100) ∧
    ([right, left, up] : Multiset Int32) + u.forwarded 1 100 =
      ([right, up, left] : Multiset Int32) + s.forwarded 1 100 := by
  obtain ⟨⟨s, u⟩, heval, howns, hdraws, hcarries, hhandled, hissued⟩ := exists_of_map_decide
    (o := (run System.step twoServers meet).bind fun s =>
      (run System.step s allMove).map fun u => (s, u))
    (P := fun x => x.1.Owns 1 100 ∧ x.2.NoRepeat ∧
      Meets System.step (System.Carries 1 100) x.1 allMove ∧
      gathered System.step (System.handled 1 100) x.1 allMove =
        [⟨right, 1400⟩, ⟨left, 1500⟩, ⟨up, 1600⟩] ∧
      gathered System.step (System.issued 1 100) x.1 allMove = [right, up, left]) (by decide +kernel)
  obtain ⟨s', hbefore, heq⟩ := Option.bind_eq_some_iff.mp heval
  obtain ⟨u', hrun, heq⟩ := Option.map_eq_some_iff.mp heq
  cases heq
  obtain ⟨hprimary, hcount⟩ :=
    events_applied_once initial_twoServers hbefore howns hrun hdraws hcarries
  rw [hhandled] at hprimary hcount
  rw [hissued] at hcount
  exact ⟨s, u, hbefore, hrun, hprimary, hcount⟩

end DistGame
