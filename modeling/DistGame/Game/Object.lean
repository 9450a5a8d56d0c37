import Mathlib.Data.Int.Cast.Basic
import Mathlib.Data.Rat.Cast.Defs
import DistGame.Game.Rectangle

/-! Game objects (`lib/game/game.go`): where an object is at a time, what area it is interested in,
    and how an event advances it. Coordinates and speeds are exact rationals, times are 64-bit
    milliseconds whose differences wrap around as in Go. -/

namespace DistGame

/-! ### Constants -/

def player : Int32 := 1
def projectile : Int32 := 2
def shield : Int32 := 4

def up : Int32 := 1
def down : Int32 := 2
def left : Int32 := 4
def right : Int32 := 8
def shoot : Int32 := 16
def die : Int32 := 64

def playerSpeed : ℚ := 1 / 1000
def projectileSpeed : ℚ := 1 / 100

def maxX : ℚ := 100
def maxY : ℚ := 100
def minX : ℚ := 0
def minY : ℚ := 0

/-- `input&bit != 0`. -/
def held (input bit : Int32) : Bool := input &&& bit != 0

/-- `game.GameEvent`. -/
structure GameEvent where
  input : Int32
  timestamp : Int64
  deriving DecidableEq

/-- `game.GameObject`. -/
structure GameObject where
  guid : UInt32
  sid : Int32
  rect : Rectangle
  type : Int32
  latestEvent : GameEvent
  deriving DecidableEq

namespace GameObject

/-- The rectangle after `d` of motion with the held directions, each clamped at its wall. -/
def moved (rect : Rectangle) (input : Int32) (d : ℚ) : Rectangle :=
  let rect := if held input left then { rect with x := max minX (rect.x - d) } else rect
  let rect := if held input right then
    { rect with x := min (maxX - rect.width) (rect.x + d) } else rect
  let rect := if held input up then { rect with y := max minY (rect.y - d) } else rect
  if held input down then { rect with y := min (maxY - rect.height) (rect.y + d) } else rect

/-- `GetAdjustedRect`. -/
def getAdjustedRect (o : GameObject) (timeDelta : Int64) : Rectangle :=
  if o.type = player then moved o.rect o.latestEvent.input (playerSpeed * timeDelta.toInt)
  else if o.type = projectile then
    moved o.rect o.latestEvent.input (projectileSpeed * timeDelta.toInt)
  else o.rect

/-- `GetLocation` at clock reading `now`. -/
def getLocation (o : GameObject) (now : Int64) : Rectangle :=
  o.getAdjustedRect (now - o.latestEvent.timestamp)

/-- The interest margin of each type. -/
def expansion (type : Int32) : ℚ :=
  if type = player then 3 else if type = projectile then 2 else if type = shield then 2 else 1

/-- The rectangle extended by `d` in the held directions. -/
def swept (bb : Rectangle) (input : Int32) (d : ℚ) : Rectangle :=
  let bb := if held input left then { bb with x := bb.x - d, width := bb.width + d } else bb
  let bb := if held input right then { bb with width := bb.width + d } else bb
  let bb := if held input up then { bb with y := bb.y - d, height := bb.height + d } else bb
  if held input down then { bb with height := bb.height + d } else bb

/-- `GetInterest` at clock reading `now`. -/
def getInterest (o : GameObject) (predTimeMs pubTimeMs now : Int64) : Rectangle :=
  let expansion := expansion o.type
  let bb := o.getLocation now
  let bb : Rectangle := { x := bb.x - expansion, y := bb.y - expansion,
                          width := bb.width + 2 * expansion, height := bb.height + 2 * expansion }
  if o.type = player then swept bb o.latestEvent.input (playerSpeed * (pubTimeMs + predTimeMs).toInt)
  else if o.type = projectile then
    swept bb o.latestEvent.input (projectileSpeed * (pubTimeMs + predTimeMs).toInt)
  else bb

/-- The projectile a shooting player creates; `id` is drawn by `uuid.New`. -/
def shot (o : GameObject) (event : GameEvent) (id : UInt32) : GameObject :=
  { guid := id
    sid := o.sid
    rect := ⟨o.rect.x, o.rect.y + o.rect.height + 1, 1, 1⟩
    type := projectile
    latestEvent := ⟨down, event.timestamp⟩ }

/-- The motion of a projectile up to an event: not clamped, and at the speed of a player. -/
def drifted (rect : Rectangle) (input : Int32) (d : ℚ) : Rectangle :=
  let rect := if held input left then { rect with x := rect.x - d } else rect
  let rect := if held input right then { rect with x := rect.x + d } else rect
  let rect := if held input up then { rect with y := rect.y - d } else rect
  if held input down then { rect with y := rect.y + d } else rect

/-- The object after an event: the switch over the types in `ApplyEvent`. -/
def advance (o : GameObject) (event : GameEvent) : GameObject :=
  let timeDelta := event.timestamp - o.latestEvent.timestamp
  if o.type = player then { o with rect := o.getAdjustedRect timeDelta, latestEvent := event }
  else if o.type = projectile then
    { o with rect := drifted o.rect o.latestEvent.input (playerSpeed * timeDelta.toInt)
             latestEvent := event }
  else o

/-- What a player's event creates, at the place the event has moved it to. -/
def created (o : GameObject) (event : GameEvent) (id : UInt32) : List GameObject :=
  if o.type = player ∧ held event.input shoot = true then [(o.advance event).shot event id] else []

/-- What an event deletes. -/
def deleted (o : GameObject) (event : GameEvent) : List UInt32 :=
  if held event.input die then [o.guid] else []

/-- `ApplyEvent`: the object after the event, and the lists of created and deleted objects with what
    the event appends to them; `none` is a nil pointer. `ApplyEvent` never appends to its third list,
    the reactions. -/
def applyEvent (o : GameObject) (event : GameEvent) (id : UInt32)
    (createdObjects : Option (List GameObject)) (deletedObjects : Option (List UInt32)) :
    GameObject × Option (List GameObject) × Option (List UInt32) :=
  (o.advance event, createdObjects.map (· ++ o.created event id),
    deletedObjects.map (· ++ o.deleted event))

section
variable (o : GameObject) (event : GameEvent) (id : UInt32)

@[simp] theorem advance_guid : (o.advance event).guid = o.guid := by
  rw [advance]
  split
  · rfl
  · split <;> rfl

@[simp] theorem advance_sid : (o.advance event).sid = o.sid := by
  rw [advance]
  split
  · rfl
  · split <;> rfl

@[simp] theorem advance_type : (o.advance event).type = o.type := by
  rw [advance]
  split
  · rfl
  · split <;> rfl

end

end GameObject

end DistGame
