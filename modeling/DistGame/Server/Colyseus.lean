import DistGame.Lib.GoMap
import DistGame.Server.Messages

/-! A Colyseus server (`lib/server/server.go`): its maps of primaries, replicas and registered
    interests, and its handlers. Every handler runs under the server's lock and reads the clock as
    one value `now`; where the code calls a peer, the call is returned as a `PeerCall`. `none` is a
    panic: a nil sub-message or an index past the end of a list. -/

namespace DistGame

/-- `Interest`: a registered server and when its registration expires. -/
structure Interest where
  sid : Int32
  ttl : Int64
  deriving DecidableEq

/-- `Colyseus`. A peer endpoint is given by the sid of the server it is connected to. `guids` is the
    sequence of values that `uuid.New` returns at this server and `drawn` how many it has returned. -/
structure Colyseus where
  sid : Int32
  peerEndpoints : GoMap Int32 Int32
  primaries : GoMap UInt32 GameObject
  replicas : GoMap UInt32 GameObject
  primaryInterest : GoMap UInt32 (List Interest)
  proactiveReplication : Bool
  predTimeMs : Int64
  pubTimeMs : Int64
  interestTTLMs : Int64
  guids : ℕ → UInt32
  drawn : ℕ

/-- A call of the peer stored under `sid`, which is the server `peer`. -/
structure PeerCall (α : Type) where
  sid : Int32
  peer : Int32
  request : α
  deriving DecidableEq

namespace Colyseus

/-! ### Spawning and deleting -/

/-- `SpawnObject`. -/
def spawnObject (s : Colyseus) (gameObject : GameObject) : UInt32 × Colyseus :=
  let guid := s.guids s.drawn
  (guid, { s with
    drawn := s.drawn + 1
    primaries := s.primaries.insert guid { gameObject with guid }
    primaryInterest := s.primaryInterest.insert guid [] })

/-- `DeleteObject`. -/
def deleteObject (s : Colyseus) (guid : UInt32) : Colyseus :=
  { s with
    primaries := s.primaries.erase guid
    replicas := s.replicas.erase guid
    primaryInterest := s.primaryInterest.erase guid }

/-- `Spawn`. -/
def spawn (s : Colyseus) (request : SpawnRequest) (now : Int64) : Option (UInt32 × Colyseus) :=
  request.gameObject.map fun gameObject => s.spawnObject (gameObject.object s.sid ⟨0, now⟩)

/-! ### RegisterInterest -/

/-- The loop over the targets: each primary among them is described in the response and marked. -/
def registerTargets (s : Colyseus) (sid : Int32) (now : Int64) : List UInt32 →
    Colyseus × List ProtoGameObject × List GameEvent
  | [] => (s, [], [])
  | guid :: targetGuids =>
    match s.primaries.lookup guid with
    | some primary =>
      let interest := s.primaryInterest.index guid [] ++ [⟨sid, now + s.interestTTLMs⟩]
      let s := { s with primaryInterest := s.primaryInterest.insert guid interest }
      let (s, initialStates, latestUpdates) := s.registerTargets sid now targetGuids
      (s, primary.proto :: initialStates, primary.latestEvent :: latestUpdates)
    | none => s.registerTargets sid now targetGuids

/-- `RegisterInterest`; it does not look at `IsRenewal`. -/
def registerInterest (s : Colyseus) (request : RegisterInterestRequest) (now : Int64) :
    Colyseus × RegisterInterestResponse :=
  let (s, initialStates, latestUpdates) := s.registerTargets request.sid now request.targetGuids
  (s, ⟨initialStates, latestUpdates⟩)

/-! ### HandleUpdate -/

/-- The loop that spawns the created objects and, under proactive replication, describes them. -/
def createObjects (s : Colyseus) : List GameObject →
    Colyseus × List ProtoGameObject × List GameEvent
  | [] => (s, [], [])
  | createdObject :: createdObjects =>
    let (guid, s) := s.spawnObject createdObject
    let (s, initialStates, latestUpdates) := s.createObjects createdObjects
    if s.proactiveReplication then
      (s, { createdObject with guid }.proto :: initialStates,
        createdObject.latestEvent :: latestUpdates)
    else (s, initialStates, latestUpdates)

/-- The loop that sends an update to every interested server, once for each registration that has
    not expired. -/
def pushes (s : Colyseus) (guid : UInt32) (now : Int64) (request : UpdateRequest) :
    List (PeerCall UpdateRequest) :=
  (s.primaryInterest.index guid []).filterMap fun interestedServer =>
    if interestedServer.sid = s.sid ∨ interestedServer.ttl < now then none
    else (s.peerEndpoints.lookup interestedServer.sid).map fun peer =>
      ⟨interestedServer.sid, peer, request⟩

/-- `HandleUpdate` and the `Update` calls it makes. `ApplyEvent` draws a guid for each object it
    creates, which `SpawnObject` replaces; there are no reactions to handle. -/
def handleUpdate (s : Colyseus) (guid : UInt32) (input : Int32) (now : Int64) :
    Colyseus × List (PeerCall UpdateRequest) :=
  match s.primaries.lookup guid with
  | some primary =>
    let event : GameEvent := ⟨input, now⟩
    let (primary, createdObjects, deletedObjects) :=
      primary.applyEvent event (s.guids s.drawn) (some []) (some [])
    let createdObjects := createdObjects.getD []
    let deletedObjects := deletedObjects.getD []
    let s := { s with
      primaries := s.primaries.insert guid primary
      drawn := s.drawn + createdObjects.length }
    let (s, initialStates, latestUpdates) := s.createObjects createdObjects
    let calls := s.pushes guid now ⟨guid, some event, initialStates, latestUpdates, deletedObjects⟩
    (deletedObjects.foldl deleteObject s, calls)
  | none =>
    match s.replicas.lookup guid with
    | some replica =>
      -- the owner serialises the event: the request carries no timestamp
      (s, ((s.peerEndpoints.lookup replica.sid).map fun peer =>
        (⟨replica.sid, peer, ⟨guid, some ⟨input, 0⟩, [], [], []⟩⟩ : PeerCall UpdateRequest)).toList)
    | none => (s, [])

/-! ### Replicas -/

/-- The loop that stores a replica for each described state; `latestUpdates` is read at the same
    index. -/
def installReplicas (s : Colyseus) (sid : Int32) :
    List ProtoGameObject → List GameEvent → Option Colyseus
  | [], _ => some s
  | _ :: _, [] => none
  | state :: initialStates, event :: latestUpdates =>
    { s with replicas := s.replicas.insert state.guid (state.object sid event) }.installReplicas sid
      initialStates latestUpdates

/-- The part of `Update` that stores replicas of new objects, when proactive replication is on. -/
def replicateNew (s : Colyseus) (sid : Int32) (request : UpdateRequest) : Option Colyseus :=
  if s.proactiveReplication then
    s.installReplicas sid request.initialStates request.latestUpdates
  else some s

/-- `Update`. -/
def update (s : Colyseus) (request : UpdateRequest) (now : Int64) :
    Option (Colyseus × List (PeerCall UpdateRequest)) :=
  match s.primaries.lookup request.targetGuid with
  | some _ => request.update.map fun update => s.handleUpdate request.targetGuid update.input now
  | none =>
    match s.replicas.lookup request.targetGuid with
    | some replica => do
      let update ← request.update
      let (replica, _, _) := replica.applyEvent ⟨update.input, update.timestamp⟩ 0 none none
      let s := { s with replicas := s.replicas.insert request.targetGuid replica }
      let s ← s.replicateNew replica.sid request
      some (request.deletedGuids.foldl deleteObject s, [])
    | none => some (s, [])

/-! ### NotifySubscriber -/

/-- The first part of `NotifySubscriber`: the guids of other servers without a replica, by server. -/
def neededObjectsBySid (s : Colyseus) (publications : List MatchMsg) : GoMap Int32 (List UInt32) :=
  publications.foldl (fun needed m =>
    if m.sid = s.sid then needed
    else if (s.replicas.lookup m.guid).isSome then needed
    else needed.insert m.sid (needed.index m.sid [] ++ [m.guid])) ∅

/-- The `RegisterInterest` calls of `NotifySubscriber`, each made after the response to the one
    before it was stored. -/
def interestCalls (s : Colyseus) (needed : GoMap Int32 (List UInt32)) :
    List (PeerCall RegisterInterestRequest) :=
  needed.entries.filterMap fun ⟨sid, neededObjects⟩ =>
    (s.peerEndpoints.lookup sid).map fun peer => ⟨sid, peer, ⟨neededObjects, s.sid, false⟩⟩

/-- The last part of `NotifySubscriber`: the response of the peer stored under `sid` is installed. -/
def installResponse (s : Colyseus) (sid : Int32) (response : RegisterInterestResponse) :
    Option Colyseus :=
  s.installReplicas sid response.initialStates response.latestUpdates

/-! ### CleanupLoop -/

/-- `isInterestedIn`. -/
def isInterestedIn (s : Colyseus) (gameObject : GameObject) (now : Int64) : Bool :=
  s.primaries.entries.any fun ⟨_, primary⟩ =>
    (gameObject.getLocation now).intersects (primary.getInterest s.predTimeMs s.pubTimeMs now)

/-- One replica in an iteration of `CleanupLoop`; a replica deleted earlier in the iteration is not
    visited. -/
def cleanupReplica (now : Int64) (s : Colyseus × GoMap Int32 (List UInt32)) (key : UInt32) :
    Colyseus × GoMap Int32 (List UInt32) :=
  match s.1.replicas.lookup key with
  | none => s
  | some replica =>
    if !s.1.isInterestedIn replica now then
      ({ s.1 with replicas := s.1.replicas.erase replica.guid }, s.2)
    else (s.1, s.2.insert replica.sid (s.2.index replica.sid [] ++ [replica.guid]))

/-- The locked part of an iteration of `CleanupLoop`: replicas without interest are deleted, and the
    guids of the others are collected by owner. -/
def cleanup (s : Colyseus) (now : Int64) : Colyseus × GoMap Int32 (List UInt32) :=
  s.replicas.keys.foldl (cleanupReplica now) (s, ∅)

/-- The renewals sent after the locked part. -/
def renewals (s : Colyseus) (stillInterested : GoMap Int32 (List UInt32)) :
    List (PeerCall RegisterInterestRequest) :=
  stillInterested.entries.filterMap fun ⟨sid, stillInterestedGuids⟩ =>
    (s.peerEndpoints.lookup sid).map fun peer => ⟨sid, peer, ⟨stillInterestedGuids, s.sid, true⟩⟩

end Colyseus

end DistGame
