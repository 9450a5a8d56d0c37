import DistGame.Game.Object

/-! The messages of the server's RPC interface (`lib/server/proto/server.proto`). A sub-message may
    be absent; `proto.GameEvent` has the fields of `game.GameEvent`. -/

namespace DistGame

/-- `proto.GameObject`. -/
structure ProtoGameObject where
  guid : UInt32
  x : ℚ
  y : ℚ
  w : ℚ
  h : ℚ
  objectType : Int32
  deriving DecidableEq

/-- `proto.MatchMsg`. -/
structure MatchMsg where
  guid : UInt32
  sid : Int32
  deriving DecidableEq

/-- `proto.SpawnRequest`. -/
structure SpawnRequest where
  gameObject : Option ProtoGameObject
  deriving DecidableEq

/-- `proto.RegisterInterestRequest`. -/
structure RegisterInterestRequest where
  targetGuids : List UInt32
  sid : Int32
  isRenewal : Bool
  deriving DecidableEq

/-- `proto.RegisterInterestResponse`. -/
structure RegisterInterestResponse where
  initialStates : List ProtoGameObject
  latestUpdates : List GameEvent
  deriving DecidableEq

/-- `proto.UpdateRequest`. -/
structure UpdateRequest where
  targetGuid : UInt32
  update : Option GameEvent
  initialStates : List ProtoGameObject
  latestUpdates : List GameEvent
  deletedGuids : List UInt32
  deriving DecidableEq

/-- The message that describes an object's state. -/
def GameObject.proto (o : GameObject) : ProtoGameObject :=
  ⟨o.guid, o.rect.x, o.rect.y, o.rect.width, o.rect.height, o.type⟩

/-- The object that a state message and an event message describe, owned by server `sid`. -/
def ProtoGameObject.object (state : ProtoGameObject) (sid : Int32) (latestEvent : GameEvent) :
    GameObject :=
  { guid := state.guid
    sid
    rect := ⟨state.x, state.y, state.w, state.h⟩
    type := state.objectType
    latestEvent }

end DistGame
