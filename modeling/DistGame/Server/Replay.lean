import DistGame.Server.Interest
import DistGame.Server.Push

/-! Whether a replica keeps up with its primary. The receiver applies every push at once and compares
    no timestamps, so two events that arrive in the wrong order leave a different state behind.
    Delivered in the order in which the owner serialised them, each exactly once, the pushes make the
    replica equal to the primary. -/

namespace DistGame
namespace Colyseus

/-- What an owner handles: a registration or renewal, or an event on one of its objects. -/
inductive OwnerAction where
  | register (request : RegisterInterestRequest) (now : Int64)
  | event (guid : UInt32) (input : Int32) (now : Int64)

/-- The owner after one action, and the `Update` calls that it makes. -/
def handle (s : Colyseus) : OwnerAction → Colyseus × List (PeerCall UpdateRequest)
  | .register request now => ((s.registerInterest request now).1, [])
  | .event guid input now => s.handleUpdate guid input now

/-- The owner handles a sequence of actions. -/
def serialise : Colyseus → List OwnerAction → Colyseus × List (PeerCall UpdateRequest)
  | s, [] => (s, [])
  | s, action :: actions =>
    let (s, calls) := s.handle action
    let (s, rest) := serialise s actions
    (s, calls ++ rest)

/-- The requests of the calls to one peer. -/
def requestsTo (sid : Int32) (calls : List (PeerCall UpdateRequest)) : List UpdateRequest :=
  (calls.filter fun call => call.sid == sid).map PeerCall.request

/-- The requests about `g` of the calls to one peer. -/
def pushesTo (g : UInt32) (sid : Int32) (calls : List (PeerCall UpdateRequest)) :
    List UpdateRequest :=
  (requestsTo sid calls).filter fun request => request.targetGuid == g

/-- A server handles a sequence of updates, each at its clock reading. -/
def deliver : Colyseus → List (UpdateRequest × Int64) → Option Colyseus
  | s, [] => some s
  | s, (request, now) :: deliveries => (s.update request now).bind fun r => r.1.deliver deliveries

/-- At an event on the primary of `g`, server `sid` has an unexpired registration, and only one unless
    the object, if a player, is in the world and not ahead of the clock. -/
def Heard (g : UInt32) (sid : Int32) (s : Colyseus) : OwnerAction → Prop
  | .register _ _ => True
  | .event guid _ now => guid = g → ∀ o ∈ s.primaries.lookup g,
    s.unexpired g sid now = 1 ∨ (1 ≤ s.unexpired g sid now ∧ 0 ≤ now ∧ Settled now o)

instance (g : UInt32) (sid : Int32) (s : Colyseus) : DecidablePred (Heard g sid s)
  | .register _ _ => isTrue trivial
  | .event _ _ _ => inferInstanceAs (Decidable (_ → ∀ o ∈ _, _ ∨ _))

/-- Every event on the primary of `g` is heard. -/
def Heeded (g : UInt32) (sid : Int32) (s : Colyseus) (actions : List OwnerAction) : Prop :=
  Meets (fun s action => some (handle s action).1) (Heard g sid) s actions

instance (g : UInt32) (sid : Int32) (s : Colyseus) (actions : List OwnerAction) :
    Decidable (Heeded g sid s actions) := inferInstanceAs (Decidable (Meets _ _ _ _))

/-- `B` owns `g`, has a peer endpoint for `A`, and what `A` holds of `g` is an equal replica. -/
structure Paired (g : UInt32) (A B : Colyseus) : Prop where
  same : Option.Rel SameState (B.primaries.lookup g) (A.replicas.lookup g)
  keyed : B.Keyed
  noReplica : B.replicas.lookup g = none
  noPrimary : A.primaries.lookup g = none
  peer : B.IsPeer A.sid

/-- An action changes no configuration, and the number of draws only grows. -/
theorem handle_frame (s : Colyseus) (action : OwnerAction) :
    (s.handle action).1.sid = s.sid ∧ (s.handle action).1.peerEndpoints = s.peerEndpoints ∧
      (s.handle action).1.guids = s.guids ∧ s.drawn ≤ (s.handle action).1.drawn := by
  cases action with
  | register request now =>
    rw [handle, registerInterest_frame]
    exact ⟨rfl, rfl, rfl, Nat.le_refl _⟩
  | event guid input now =>
    refine ⟨?_, ?_, ?_, handleUpdate_drawn_le s guid input now⟩
    all_goals rw [handle, handleUpdate_frame]

theorem serialise_draws : ∀ (actions : List OwnerAction) (s : Colyseus),
    s.drawn ≤ (s.serialise actions).1.drawn
  | [], _ => Nat.le_refl _
  | action :: actions, s => (handle_frame s action).2.2.2.trans (serialise_draws actions _)

/-- A drawn guid that differs from the object's own overwrites nothing. -/
theorem not_overwrites {s : Colyseus} {g : UInt32} {o : GameObject} {input : Int32} {now : Int64}
    {N : ℕ} (h : s.primaries.lookup g = some o) (hle : (s.handleUpdate g input now).1.drawn ≤ N)
    (hfresh : ∀ n, s.drawn ≤ n → n < N → s.guids n ≠ g) : ¬ s.Overwrites g o ⟨input, now⟩ := by
  rintro ⟨hp, hs, hg⟩
  have hlen : (o.created ⟨input, now⟩ (s.guids s.drawn)).length = 1 := by
    rw [GameObject.created, if_pos ⟨hp, hs⟩]; rfl
  rw [handleUpdate_primary h, deleteAll_frame] at hle
  dsimp only at hle
  rw [applied_drawn, hlen] at hle
  exact hfresh (s.drawn + 1) (by omega) (by omega) hg

/-- Some copies of one push, delivered one after the other. -/
theorem deliver_pushes {g : UInt32} {event : GameEvent} :
    ∀ {deliveries : List (UpdateRequest × Int64)} {s : Colyseus}, s.primaries.lookup g = none →
      (∀ d ∈ deliveries, IsPush g event d.1) →
      ∃ s', s.deliver deliveries = some s' ∧ s'.sid = s.sid ∧ s'.primaries.lookup g = none ∧
        s'.replicas.lookup g =
          (List.replicate deliveries.length event).foldl replay (s.replicas.lookup g) := by
  intro deliveries
  induction deliveries with
  | nil => intro s hp _; exact ⟨s, rfl, rfl, hp, rfl⟩
  | cons d deliveries ih =>
    intro s hp hpush
    obtain ⟨s₁, hrun, hsid, -, hp₁, hr₁⟩ := update_push hp (hpush d List.mem_cons_self) d.2
    obtain ⟨s₂, hrest, hsid₂, hp₂, hr₂⟩ :=
      ih hp₁ fun d' hd' => hpush d' (List.mem_cons_of_mem _ hd')
    refine ⟨s₂, ?_, hsid₂.trans hsid, hp₂, ?_⟩
    · rw [deliver, hrun]; exact hrest
    · rw [hr₂, hr₁]; rfl

theorem deliver_append {s s' : Colyseus} {ds ds' : List (UpdateRequest × Int64)}
    (h : s.deliver ds = some s') : s.deliver (ds ++ ds') = s'.deliver ds' := by
  induction ds generalizing s with
  | nil => cases h; rfl
  | cons d ds ih =>
    rw [deliver] at h
    obtain ⟨r, hrun, h⟩ := Option.bind_eq_some_iff.mp h
    rw [List.cons_append, deliver, hrun]
    exact ih h

theorem pushesTo_append (g : UInt32) (sid : Int32) (calls rest : List (PeerCall UpdateRequest)) :
    pushesTo g sid (calls ++ rest) = pushesTo g sid calls ++ pushesTo g sid rest := by
  simp only [pushesTo, requestsTo, List.filter_append, List.map_append]

/-- The calls of an event are about the object of the event. -/
theorem handleUpdate_target {s : Colyseus} {k : UInt32} {input : Int32} {now : Int64} :
    ∀ call ∈ (s.handleUpdate k input now).2, call.request.targetGuid = k := by
  intro call hcall
  cases hp : s.primaries.lookup k with
  | none => rw [((handleUpdate_no_primary hp input now).2 call hcall).1]
  | some o =>
    rw [handleUpdate_primary hp] at hcall
    rw [(mem_pushes hcall).1]
    rfl

/-- An event on another object pushes nothing about `g`. -/
theorem pushesTo_elsewhere {s : Colyseus} {g k : UInt32} {sid : Int32} {input : Int32} {now : Int64}
    (hk : k ≠ g) : pushesTo g sid (s.handleUpdate k input now).2 = [] := by
  refine List.filter_eq_nil_iff.mpr fun request hrequest => ?_
  obtain ⟨call, hcall, rfl⟩ := List.mem_map.mp hrequest
  rw [handleUpdate_target call (List.mem_filter.mp hcall).1]
  simpa using hk

/-! ### One action at the owner -/

namespace Paired
variable {g : UInt32} {A B : Colyseus} {deliveries : List (UpdateRequest × Int64)}

/-- An action that leaves the primary alone. -/
theorem aside {B' : Colyseus} (h : Paired g A B) (hkeyed : B'.Keyed)
    (hprim : B'.primaries.lookup g = B.primaries.lookup g)
    (hrep : B'.replicas.lookup g = B.replicas.lookup g) (hsid : B'.sid = B.sid)
    (hpeers : B'.peerEndpoints = B.peerEndpoints) : Paired g A B' where
  same := by
    rw [hprim]
    exact h.same
  keyed := hkeyed
  noReplica := hrep.trans h.noReplica
  noPrimary := h.noPrimary
  peer := by
    rw [IsPeer, hsid, hpeers]
    exact h.peer

/-- One event on the primary and the delivery of its pushes keep the replica equal. -/
theorem event {o : GameObject} {input : Int32} {now : Int64} (hpair : Paired g A B)
    (hB : B.primaries.lookup g = some o) (hover : ¬ B.Overwrites g o ⟨input, now⟩)
    (hheard : B.unexpired g A.sid now = 1 ∨
      (1 ≤ B.unexpired g A.sid now ∧ 0 ≤ now ∧ Settled now o))
    (hdel : deliveries.map Prod.fst = pushesTo g A.sid (B.handleUpdate g input now).2) :
    ∃ A', A.deliver deliveries = some A' ∧ A'.sid = A.sid ∧
      Paired g A' (B.handleUpdate g input now).1 := by
  have hguid := hpair.keyed g o hB
  obtain ⟨hprim, hrep, -, hsid, hpeers, -⟩ := handleUpdate_event hB hguid hover
  have hcopies : deliveries.map Prod.fst =
      List.replicate (B.unexpired g A.sid now) (B.pushed g o ⟨input, now⟩) := by
    rw [hdel, pushesTo, requestsTo, handleUpdate_requests hB hover hpair.peer,
      List.filter_replicate_of_pos (by simp [pushed])]
  have hlen : deliveries.length = B.unexpired g A.sid now := by
    have := congrArg List.length hcopies
    rwa [List.length_map, List.length_replicate] at this
  have hpush : ∀ d ∈ deliveries, IsPush g ⟨input, now⟩ d.1 := by
    intro d hd
    have hmem : d.1 ∈ deliveries.map Prod.fst := List.mem_map_of_mem hd
    rw [hcopies] at hmem
    rw [(List.mem_replicate.mp hmem).2]
    exact pushed_isPush hguid hover
  obtain ⟨A', hA', hAsid, hAprim, hArep⟩ := deliver_pushes hpair.noPrimary hpush
  have hsame := hpair.same
  rw [hB] at hsame
  have hdup : B.unexpired g A.sid now = 1 ∨
      (1 ≤ B.unexpired g A.sid now ∧ Settled now o ∧ 0 ≤ now ∧ now ≤ now) := by
    rcases hheard with hone | ⟨hpos, h0, hset⟩
    · exact .inl hone
    · exact .inr ⟨hpos, hset, h0, Int64.le_refl now⟩
  refine ⟨A', hA', hAsid, ?_, handleUpdate_keyed hpair.keyed, ?_, hAprim, ?_⟩
  · rw [hprim, hArep, hlen, replay_copies ⟨input, now⟩ hsame hdup]
    exact rel_replay hsame _
  · rcases hrep with hrep | hrep
    · exact hrep
    · rw [hrep]; exact hpair.noReplica
  · obtain ⟨hne, hsome⟩ := hpair.peer
    exact ⟨by rw [hAsid, hsid]; exact hne, by rw [hAsid, hpeers]; exact hsome⟩

/-- One action at the owner and the delivery of its pushes about `g` keep the replica equal. -/
theorem step {action : OwnerAction} (hpair : Paired g A B)
    (hfresh : ∀ n, B.drawn ≤ n → n < (B.handle action).1.drawn → B.guids n ≠ g)
    (hheard : Heard g A.sid B action)
    (hdel : deliveries.map Prod.fst = pushesTo g A.sid (B.handle action).2) :
    ∃ A', A.deliver deliveries = some A' ∧ A'.sid = A.sid ∧ Paired g A' (B.handle action).1 := by
  have hnone (h : deliveries.map Prod.fst = []) : A.deliver deliveries = some A := by
    rw [List.map_eq_nil_iff.mp h]
    rfl
  obtain ⟨hsid, hpeers, -⟩ := handle_frame B action
  cases action with
  | register request now =>
    have hprim : (B.registerInterest request now).1.primaries = B.primaries := by
      rw [registerInterest_frame]
    have hrep : (B.registerInterest request now).1.replicas = B.replicas := by
      rw [registerInterest_frame]
    refine ⟨A, hnone hdel, rfl, hpair.aside ?_ (by rw [handle, hprim]) (by rw [handle, hrep]) hsid
      hpeers⟩
    rw [handle, Keyed, hprim]
    exact hpair.keyed
  | event guid input now =>
    by_cases hg : guid = g
    · subst hg
      cases hB : B.primaries.lookup guid with
      | none =>
        -- nothing is left of the object on either side
        have hstop : B.handle (.event guid input now) = (B, []) := by
          simp only [handle, handleUpdate, hB, hpair.noReplica]
        rw [hstop] at hdel ⊢
        exact ⟨A, hnone hdel, rfl, hpair⟩
      | some o =>
        exact hpair.event hB (not_overwrites hB (Nat.le_refl _) hfresh) (hheard rfl o hB) hdel
    · obtain ⟨hprim, hrep, -⟩ := handleUpdate_ne (Ne.symm hg) hpair.keyed hfresh
      rw [handle, pushesTo_elsewhere hg] at hdel
      exact ⟨A, hnone hdel, rfl, hpair.aside (handleUpdate_keyed hpair.keyed) hprim hrep hsid hpeers⟩

end Paired

/-- Whatever else the owner handles in between, the pushes of the events on its primary, delivered in
    order, keep the replica equal to it. -/
theorem converges_in_order {g : UInt32} {actions : List OwnerAction} {A B : Colyseus}
    {deliveries : List (UpdateRequest × Int64)} (hpair : Paired g A B)
    (hfresh : ∀ n, B.drawn ≤ n → n < (B.serialise actions).1.drawn → B.guids n ≠ g)
    (hheeded : Heeded g A.sid B actions)
    (hdel : deliveries.map Prod.fst = pushesTo g A.sid (B.serialise actions).2) :
    ∃ A', A.deliver deliveries = some A' ∧
      Option.Rel SameState ((B.serialise actions).1.primaries.lookup g) (A'.replicas.lookup g) := by
  induction actions generalizing A B deliveries with
  | nil =>
    have : deliveries = [] := List.map_eq_nil_iff.mp hdel
    subst this
    exact ⟨A, rfl, hpair.same⟩
  | cons action actions ih =>
    obtain ⟨-, -, hguids, hdraws⟩ := handle_frame B action
    have hlater := serialise_draws actions (B.handle action).1
    obtain ⟨hheard, hrest⟩ := hheeded
    rw [serialise, pushesTo_append] at hdel
    obtain ⟨first, later, rfl, hfirst, hlast⟩ := List.map_eq_append_iff.mp hdel
    obtain ⟨A₁, hA₁, hsid, hpair₁⟩ := hpair.step
      (fun n hn hlt => hfresh n hn (hlt.trans_le hlater)) hheard hfirst
    rw [deliver_append hA₁]
    rw [← hsid] at hlast
    refine ih (B := (B.handle action).1) hpair₁ (fun n hn hlt => ?_) ?_ hlast
    · rw [hguids]
      exact hfresh n (hdraws.trans hn) hlt
    · rw [hsid]
      exact hrest _ rfl

/-! ### Runs on the player of `owner` -/

/-- Every update call made for `A` is delivered once, and the replica ends where the primary is
    not. -/
def Diverges (g : UInt32) (A B : Colyseus) (actions : List OwnerAction)
    (deliveries : List (UpdateRequest × Int64)) : Prop :=
  (deliveries.map Prod.fst).Perm (pushesTo g A.sid (B.serialise actions).2) ∧
    ∃ A', A.deliver deliveries = some A' ∧ (A'.replicas.lookup g).map GameObject.rect ≠
      ((B.serialise actions).1.primaries.lookup g).map GameObject.rect

/-- Server 2 with a replica of the player of `owner`. -/
def subscriber : Colyseus :=
  { owner with
    sid := 2
    peerEndpoints := (∅ : GoMap Int32 Int32).insert 1 1
    primaries := ∅
    replicas := owner.primaries
    primaryInterest := ∅
    guids := fun n => UInt32.ofNat (200 + n) }

/-- The owner when server 2 has registered once, until 3000. -/
def registered : Colyseus := owner.receive [(⟨[7], 2, false⟩, 1000)]

/-- A player that was spawned left of the world. -/
def outside : GoMap UInt32 GameObject :=
  (∅ : GoMap UInt32 GameObject).insert 7 ⟨7, 1, ⟨-5, 10, 2, 2⟩, player, ⟨0, 0⟩⟩

/-- The owner of that player when server 2 has registered and renewed. -/
def outsideRenewed : Colyseus := { owner with primaries := outside }.receive registerAndRenew

/-- The player turns right, then up. -/
def turnUp : List OwnerAction := [.event 7 right 2000, .event 7 up 2500]

/-- Server 2 renews its registration before the first one expires, and the player turns up after
    that. -/
def renewAndTurn : List OwnerAction :=
  [.event 7 right 2000, .register ⟨[7], 2, true⟩ 2500, .event 7 up 4000]

theorem keyed_registered : registered.Keyed :=
  (GoMap.forall_entries_iff registered.primaries fun k o => o.guid = k).mp (by decide)

theorem paired_registered : Paired 7 subscriber registered where
  same := .some ⟨rfl, rfl, rfl⟩
  keyed := keyed_registered
  noReplica := rfl
  noPrimary := rfl
  peer := ⟨by decide, rfl⟩

theorem paired_outsideRenewed :
    Paired 7 { subscriber with replicas := outside } outsideRenewed where
  same := .some ⟨rfl, rfl, rfl⟩
  keyed := (GoMap.forall_entries_iff outside fun k o => o.guid = k).mp (by decide)
  noReplica := rfl
  noPrimary := rfl
  peer := ⟨by decide, rfl⟩

/-- The replica ends up elsewhere when two pushes arrive in reverse order; when the registration
    expires before the events; and when a player outside the world is pushed one event twice. -/
theorem pushes_diverge :
    Paired 7 subscriber registered ∧
      Diverges 7 subscriber registered turnUp
        ((pushesTo 7 2 (registered.serialise turnUp).2).reverse.map fun r => (r, 3000)) ∧
      Diverges 7 subscriber registered [.event 7 right 3500, .event 7 up 4000] [] ∧
      Paired 7 { subscriber with replicas := outside } outsideRenewed ∧
      Diverges 7 { subscriber with replicas := outside } outsideRenewed [.event 7 left 2500]
        ((pushesTo 7 2 (outsideRenewed.serialise [.event 7 left 2500]).2).map fun r => (r, 3000)) := by
  refine ⟨paired_registered, ⟨?_, ?_⟩, ⟨?_, ?_⟩, paired_outsideRenewed, ⟨?_, ?_⟩⟩
  · rw [List.map_map]
    exact (List.map_id _).symm ▸ List.reverse_perm _
  · exact exists_of_map_decide (by decide +kernel)
  · decide +kernel
  · exact exists_of_map_decide (by decide +kernel)
  · rw [List.map_map]
    exact (List.map_id _).symm ▸ List.Perm.refl _
  · exact exists_of_map_decide (by decide +kernel)

/-- In order, the two pushes keep the replica equal, the second by the renewal. -/
theorem converges_in_order_renewAndTurn :
    (pushesTo 7 2 (registered.serialise renewAndTurn).2).length = 2 ∧
    ∃ A', subscriber.deliver
        ((pushesTo 7 2 (registered.serialise renewAndTurn).2).map fun r => (r, 5000)) = some A' ∧
      Option.Rel SameState ((registered.serialise renewAndTurn).1.primaries.lookup 7)
        (A'.replicas.lookup 7) := by
  have hdrawn : (registered.serialise renewAndTurn).1.drawn = 0 := by decide +kernel
  refine ⟨by decide +kernel, converges_in_order paired_registered ?_ (by decide +kernel) ?_⟩
  · intro n _ hn
    rw [hdrawn] at hn
    exact absurd hn (Nat.not_lt_zero n)
  · rw [List.map_map]
    exact List.map_id _

end Colyseus

end DistGame
