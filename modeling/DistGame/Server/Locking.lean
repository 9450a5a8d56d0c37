import DistGame.Lib.Mutex
import DistGame.Locator.Progress
import DistGame.Server.Replicas

/-! The RPC handlers with their lock (`lib/server/server.go`). `Spawn` and `RegisterInterest` defer
    the `Unlock`; `Update` and `NotifySubscriber` unlock at the end of each branch, so a panic in
    between leaves the server locked. Which messages make a handler panic depends on what the server
    holds: `Update` reads its sub-message only for an object that it has, and the list of latest
    updates only under proactive replication. The locator's handlers read a sub-message before they
    take a lock. -/

namespace DistGame
namespace Colyseus

/-- `Spawn`, whose log entry reads the sub-message before the lock. -/
def spawnLocking (request : SpawnRequest) (now : Int64) : Proc Colyseus UInt32 := do
  let _ ← Proc.deref request.gameObject
  Proc.lockedDefer (Proc.act fun s => s.spawn request now)

/-- `RegisterInterest`. -/
def registerInterestLocking (request : RegisterInterestRequest) (now : Int64) :
    Proc Colyseus RegisterInterestResponse :=
  Proc.lockedDefer (Proc.act fun s => some (s.registerInterest request now).swap)

/-- The loop that stores replicas, entry by entry: it reads `latestUpdates` before it stores the
    entry. -/
def installHolding (sid : Int32) :
    List ProtoGameObject → List GameEvent → Proc Colyseus Unit
  | [], _ => pure ()
  | state :: initialStates, latestUpdates => do
    let event ← Proc.deref latestUpdates.head?
    Proc.act fun s =>
      some ((), { s with replicas := s.replicas.insert state.guid (state.object sid event) })
    installHolding sid initialStates latestUpdates.tail

/-- The part of `Update` that stores replicas of new objects. -/
def replicateHolding (sid : Int32) (request : UpdateRequest) : Proc Colyseus Unit := do
  match ← Proc.act fun s => some (s.proactiveReplication, s) with
  | true => installHolding sid request.initialStates request.latestUpdates
  | false => pure ()

/-- `Update` of a primary, between `Lock` and `Unlock`. -/
def updatePrimary (request : UpdateRequest) (now : Int64) :
    Proc Colyseus (List (PeerCall UpdateRequest)) := do
  let update ← Proc.deref request.update
  Proc.act fun s => some (s.handleUpdate request.targetGuid update.input now).swap

/-- `Update` of a replica: the event is applied in place before the lists are read. -/
def updateReplica (request : UpdateRequest) (replica : GameObject) :
    Proc Colyseus (List (PeerCall UpdateRequest)) := do
  let update ← Proc.deref request.update
  let replica := (replica.applyEvent ⟨update.input, update.timestamp⟩ 0 none none).1
  Proc.act fun s => some ((), { s with replicas := s.replicas.insert request.targetGuid replica })
  replicateHolding replica.sid request
  Proc.act fun s => some ([], request.deletedGuids.foldl deleteObject s)

/-- `Update` between `Lock` and `Unlock`. -/
def updateHolding (request : UpdateRequest) (now : Int64) :
    Proc Colyseus (List (PeerCall UpdateRequest)) := do
  match ← Proc.act fun s => some (s.primaries.lookup request.targetGuid, s) with
  | some _ => updatePrimary request now
  | none =>
    match ← Proc.act fun s => some (s.replicas.lookup request.targetGuid, s) with
    | some replica => updateReplica request replica
    | none => pure []

/-- `Update`. -/
def updateLocking (request : UpdateRequest) (now : Int64) :
    Proc Colyseus (List (PeerCall UpdateRequest)) :=
  Proc.locked (updateHolding request now)

/-- The maps that other handlers may have changed while the lock was free. -/
structure Maps where
  primaries : GoMap UInt32 GameObject
  replicas : GoMap UInt32 GameObject
  primaryInterest : GoMap UInt32 (List Interest)
  drawn : ℕ

/-- The server with its maps changed. -/
def withMaps (s : Colyseus) (maps : Maps) : Colyseus :=
  { s with
    primaries := maps.primaries
    replicas := maps.replicas
    primaryInterest := maps.primaryInterest
    drawn := maps.drawn }

/-- The calls of `NotifySubscriber`, one peer after the other. `answer` is the peer's response, if
    the call succeeds, and `others` what the other handlers have done until it arrives. -/
def registerLocking (answer : Int32 → Option RegisterInterestResponse) (others : Int32 → Maps) :
    List (Sigma fun _ : Int32 => List UInt32) → Proc Colyseus Unit
  | [] => pure ()
  | ⟨sid, _⟩ :: needed => do
    let peer ← Proc.act fun s => some (s.peerEndpoints.lookup sid, s)
    match peer, answer sid with
    | some _, some response => do
      Proc.act fun s => some ((), s.withMaps (others sid))
      Proc.locked (installHolding sid response.initialStates response.latestUpdates)
      registerLocking answer others needed
    | _, _ => registerLocking answer others needed

/-- `NotifySubscriber`. -/
def notifySubscriberLocking (publications : List MatchMsg)
    (answer : Int32 → Option RegisterInterestResponse) (others : Int32 → Maps) :
    Proc Colyseus Unit := do
  let needed ← Proc.locked (Proc.act fun s => some (s.neededObjectsBySid publications, s))
  registerLocking answer others needed.entries

/-! ### What the handlers do under the lock -/

/-- The loop panics where it runs out of latest updates. -/
theorem gives_installHolding (sid : Int32) :
    ∀ (states : List ProtoGameObject) (events : List GameEvent) (s : Colyseus),
      (installHolding sid states events).Gives s
        ((s.installReplicas sid states events).map fun s => ((), s))
  | [], _, s => Proc.gives_pure () s
  | _ :: _, [], s => (Proc.gives_deref none s).stop
  | _ :: states, event :: events, s =>
    (Proc.gives_deref (some event) s).next <| (Proc.gives_act _ s).next <|
      gives_installHolding sid states events _

theorem gives_replicateHolding (sid : Int32) (request : UpdateRequest) (s : Colyseus) :
    (replicateHolding sid request).Gives s ((s.replicateNew sid request).map fun s => ((), s)) := by
  refine (Proc.gives_act _ s).next ?_
  rw [replicateNew]
  cases s.proactiveReplication with
  | true => exact gives_installHolding sid request.initialStates request.latestUpdates s
  | false => exact Proc.gives_pure () s

theorem gives_updatePrimary (request : UpdateRequest) (now : Int64) (s : Colyseus) :
    (updatePrimary request now).Gives s (request.update.map fun update =>
      (s.handleUpdate request.targetGuid update.input now).swap) := by
  rw [Option.map_eq_bind]
  exact Proc.gives_deref_bind fun _ => Proc.gives_act _ s

theorem gives_updateReplica (request : UpdateRequest) (replica : GameObject) (s : Colyseus) :
    (updateReplica request replica).Gives s (request.update.bind fun event => (replicateNew { s with
      replicas := s.replicas.insert request.targetGuid (replica.advance event) }
        replica.sid request).map fun s => ([], request.deletedGuids.foldl deleteObject s)) := by
  refine Proc.gives_deref_bind fun event => (Proc.gives_act _ s).next ?_
  have hreplicate := gives_replicateHolding (replica.advance event).sid request { s with
    replicas := s.replicas.insert request.targetGuid (replica.advance event) }
  have hdelete (s : Colyseus) := Proc.gives_act (fun s => some (([] : List (PeerCall UpdateRequest)),
    request.deletedGuids.foldl deleteObject s)) s
  have hboth := hreplicate.map_next fun _ s' => hdelete s'
  rw [Option.map_map] at hboth
  rw [← GameObject.advance_sid replica event]
  exact hboth

/-- Under the lock, `Update` does what it does at once, or panics. -/
theorem gives_updateHolding (request : UpdateRequest) (now : Int64) (s : Colyseus) :
    (updateHolding request now).Gives s ((s.update request now).map Prod.swap) := by
  refine (Proc.gives_act _ s).next ?_
  cases hp : s.primaries.lookup request.targetGuid with
  | some primary =>
    have hupdate : s.update request now = request.update.map fun update =>
        s.handleUpdate request.targetGuid update.input now := by simp only [update, hp]
    rw [hupdate, Option.map_map]
    exact gives_updatePrimary request now s
  | none =>
    refine (Proc.gives_act _ s).next ?_
    cases hr : s.replicas.lookup request.targetGuid with
    | none =>
      have hupdate : s.update request now = some (s, []) := by simp only [update, hp, hr]
      rw [hupdate]
      exact Proc.gives_pure [] s
    | some replica =>
      have hgives := gives_updateReplica request replica s
      cases hu : request.update with
      | none =>
        rw [hu] at hgives
        have hupdate : s.update request now = none := by simp [update, hp, hr, hu]
        rw [hupdate]
        exact hgives
      | some event =>
        rw [hu] at hgives
        rw [update_replica hp hr hu, Option.map_map]
        exact hgives

/-! ### Which requests are handled to the end -/

/-- The request has the sub-messages and list items that `Update` reads in this state. -/
def Updatable (s : Colyseus) (request : UpdateRequest) : Prop :=
  ((s.primaries.lookup request.targetGuid).isSome ∨
    (s.replicas.lookup request.targetGuid).isSome → request.update.isSome) ∧
  ((s.primaries.lookup request.targetGuid).isNone → (s.replicas.lookup request.targetGuid).isSome →
    s.proactiveReplication = true → request.initialStates.length ≤ request.latestUpdates.length)

instance (s : Colyseus) (request : UpdateRequest) : Decidable (Updatable s request) :=
  inferInstanceAs (Decidable (_ ∧ _))

/-- Every initial state of the response has its latest update. -/
def Installable (response : RegisterInterestResponse) : Prop :=
  response.initialStates.length ≤ response.latestUpdates.length

theorem spawn_completes_iff (s : Colyseus) (request : SpawnRequest) (now : Int64) :
    (spawnLocking request now).Completes s ↔ request.gameObject.isSome := by
  rw [spawnLocking, Proc.completes_deref_bind_iff]
  simp only [Proc.completes_lockedDefer_iff (Proc.gives_act _ _), spawn, Option.isSome_map]
  cases request.gameObject <;> simp

theorem registerInterest_completes (s : Colyseus) (request : RegisterInterestRequest)
    (now : Int64) : (registerInterestLocking request now).Completes s :=
  (Proc.completes_lockedDefer_iff (Proc.gives_act _ s)).mpr rfl

theorem update_completes_iff (s : Colyseus) (request : UpdateRequest) (now : Int64) :
    (updateLocking request now).Completes s ↔ Updatable s request := by
  rw [updateLocking, Proc.completes_locked_iff (gives_updateHolding request now s),
    Option.isSome_map, Updatable]
  cases hp : s.primaries.lookup request.targetGuid with
  | some primary => cases hu : request.update <;> simp [update, hp, hu]
  | none =>
    cases hr : s.replicas.lookup request.targetGuid with
    | none => simp [update, hp, hr]
    | some replica =>
      cases hu : request.update with
      | none => simp [update, hp, hr, hu]
      | some event =>
        rw [update_replica hp hr hu, Option.isSome_map, replicateNew_isSome_iff]
        simp

/-- The peers that `NotifySubscriber` calls answer with an update for each state. -/
def Answered (s : Colyseus) (answer : Int32 → Option RegisterInterestResponse)
    (needed : List (Sigma fun _ : Int32 => List UInt32)) : Prop :=
  ∀ e ∈ needed, (s.peerEndpoints.lookup e.1).isSome → ∀ response ∈ answer e.1, Installable response

theorem registerLocking_completes_iff (answer : Int32 → Option RegisterInterestResponse)
    (others : Int32 → Maps) :
    ∀ (needed : List (Sigma fun _ : Int32 => List UInt32)) (s : Colyseus),
      (registerLocking answer others needed).Completes s ↔ Answered s answer needed
  | [], s => by
    simp [registerLocking, Answered, Proc.Completes]
  | ⟨sid, guids⟩ :: needed, s => by
    have ih := registerLocking_completes_iff answer others needed
    rw [registerLocking, Proc.completes_act_bind_iff]
    have hcons : Answered s answer (⟨sid, guids⟩ :: needed) ↔
        ((s.peerEndpoints.lookup sid).isSome → ∀ response ∈ answer sid, Installable response) ∧
          Answered s answer needed := List.forall_mem_cons
    rw [hcons]
    cases hpeer : s.peerEndpoints.lookup sid with
    | none => simp [ih]
    | some peer =>
      cases hans : answer sid with
      | none => simp [ih]
      | some response =>
        have hkeeps : ∀ s', (s.withMaps (others sid)).installResponse sid response = some s' →
            (Answered s' answer needed ↔ Answered s answer needed) := by
          intro s' hs'
          rw [Answered, Answered, (installReplicas_spec hs').1]
          rfl
        have hinstall := gives_installHolding sid response.initialStates response.latestUpdates
          (s.withMaps (others sid))
        simp only [Option.some.injEq, Prod.mk.injEq, and_assoc, exists_and_left, exists_eq_left',
          Proc.completes_act_bind_iff, Proc.completes_locked_bind_iff hinstall]
        constructor
        · rintro ⟨-, _, _, s', hs', hrest⟩
          obtain ⟨s₁, hs₁, heq⟩ := Option.map_eq_some_iff.mp hs'
          cases heq
          refine ⟨fun _ r hr => ?_, (hkeeps s' hs₁).mp ((ih s').mp hrest)⟩
          cases hr
          exact (installReplicas_isSome_iff _ _ _ _).mp (Option.isSome_iff_exists.mpr ⟨s', hs₁⟩)
        · rintro ⟨hlen, hrest⟩
          obtain ⟨s', hs'⟩ := Option.isSome_iff_exists.mp ((installReplicas_isSome_iff sid _ _
            (s.withMaps (others sid))).mpr (hlen rfl response rfl))
          refine ⟨trivial, (), (), s', ?_, (ih s').mpr ((hkeeps s' hs').mpr hrest)⟩
          exact Option.map_eq_some_iff.mpr ⟨s', hs', rfl⟩

theorem notifySubscriber_completes_iff (s : Colyseus) (publications : List MatchMsg)
    (answer : Int32 → Option RegisterInterestResponse) (others : Int32 → Maps) :
    (notifySubscriberLocking publications answer others).Completes s ↔
      Answered s answer (s.neededObjectsBySid publications).entries := by
  rw [notifySubscriberLocking, Proc.completes_locked_bind_iff (Proc.gives_act _ s)]
  simp only [Option.some.injEq, Prod.mk.injEq, and_assoc, exists_and_left, exists_eq_left']
  exact registerLocking_completes_iff answer others _ s

end Colyseus

open QTree Quadtree Colyseus

/-- Which requests are handled to the end, with the lock free afterwards: at a server in any state,
    and at a locator in any reachable state with any other requests in progress. -/
theorem handled_to_end_iff {c : ℤ} (hc : 1 ≤ c) (b : Rectangle) :
    (∀ (s : Colyseus) request now, (spawnLocking request now).Completes s ↔
      request.gameObject.isSome) ∧
    (∀ (s : Colyseus) request now, (registerInterestLocking request now).Completes s) ∧
    (∀ (s : Colyseus) request now, (updateLocking request now).Completes s ↔
      s.Updatable request) ∧
    (∀ (s : Colyseus) publications answer others,
      (notifySubscriberLocking publications answer others).Completes s ↔
        s.Answered answer (s.neededObjectsBySid publications).entries) ∧
    ∀ (acts : List Activity) (s : LocatorServer) (i : ℕ) (r : Handling) (nows : List Int64),
      run LocatorServer.step (LocatorServer.start b c) acts = some s → s.requests[i]? = some r →
      nows.length = r.turns →
      ((∃ s', run LocatorServer.step s (nows.map (Activity.handle i)) = some s' ∧
          s'.requests[i]?.map Handling.pending = some []) ↔
        ∀ item ∈ r.pending, item.gameObject.isSome) := by
  refine ⟨spawn_completes_iff, registerInterest_completes, update_completes_iff,
    notifySubscriber_completes_iff, fun acts s i r nows hrun hr hlen => ?_⟩
  exact handling_ends_iff hc nows (requests_run_wf hc hrun) hr hlen

/-- A server with proactive replication, connected to server 1. -/
def listener : Colyseus :=
  { sid := 2, peerEndpoints := (∅ : GoMap Int32 Int32).insert 1 1, primaries := ∅, replicas := ∅
    primaryInterest := ∅, proactiveReplication := true, predTimeMs := 0, pubTimeMs := 0
    interestTTLMs := 0, guids := fun _ => 0, drawn := 0 }

/-- Server 1 describes its object 7. -/
def describes : RegisterInterestResponse := ⟨[⟨7, 0, 0, 1, 1, player⟩], [⟨0, 0⟩]⟩

/-- An update of that object with an initial state but no latest update. -/
def unevenUpdate : UpdateRequest :=
  ⟨7, some ⟨0, 1⟩, [⟨8, 0, 0, 1, 1, projectile⟩], [], []⟩

/-- At a server that holds a replica of the object, `Update` applies the event, indexes past the end of
    the list and leaves the server locked; without its sub-message the same request does so too.
    `Spawn` panics on an empty request. -/
theorem update_panics_locked :
    ∃ s s', listener.installResponse 1 describes = some s ∧
      (updateLocking unevenUpdate 5).exec ⟨s, false⟩ = (.error .panic, ⟨s', true⟩) ∧
      (s'.replicas.lookup 7).map GameObject.latestEvent = some ⟨0, 1⟩ ∧
      (updateLocking { unevenUpdate with update := none } 5).exec ⟨s, false⟩ =
        (.error .panic, ⟨s, true⟩) ∧
      (spawnLocking ⟨none⟩ 5).exec ⟨s, false⟩ = (.error .panic, ⟨s, false⟩) :=
  ⟨_, _, rfl, rfl, by decide +kernel, rfl, rfl⟩

/-- A complete request is handled to its end there, and `NotifySubscriber` installs the response. -/
theorem handled_to_end_iff_listener :
    (spawnLocking ⟨some ⟨0, 0, 0, 1, 1, player⟩⟩ 5).Completes listener ∧
      (notifySubscriberLocking [⟨7, 1⟩] (fun _ => some describes) fun _ => ⟨∅, ∅, ∅, 0⟩).Completes
        listener := by
  obtain ⟨hspawn, -, -, hnotify, -⟩ := handled_to_end_iff (c := 4) (by decide) ⟨0, 0, 100, 100⟩
  refine ⟨(hspawn _ _ _).mpr rfl, (hnotify _ _ _ _).mpr fun e _ _ response hr => ?_⟩
  cases hr
  exact Nat.le_refl 1

end DistGame
