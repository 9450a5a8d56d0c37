import DistGame.Locator.Service
import DistGame.Server.Colyseus

/-! What `PublishLoop` tells the locator (`lib/server/server.go`): for each primary a publication of its
    location and a subscription to its area of interest, both under its guid, for `predTimeMs`. The
    primaries are iterated in any order and the clock is read as one value `now`. -/

namespace DistGame
namespace Colyseus

/-- The message about a primary of the server and a rectangle. -/
def storableMsg (s : Colyseus) (guid : UInt32) (rect : Rectangle) : StorableMsg :=
  ⟨some ⟨guid, s.sid, rect.x, rect.y, rect.width, rect.height⟩, s.predTimeMs⟩

/-- `locations` of an iteration of `PublishLoop`. -/
def locations (s : Colyseus) (primaries : List GameObject) (now : Int64) : List StorableMsg :=
  primaries.map fun primary => s.storableMsg primary.guid (primary.getLocation now)

/-- `areaOfInterest` of an iteration of `PublishLoop`. -/
def areaOfInterest (s : Colyseus) (primaries : List GameObject) (now : Int64) : List StorableMsg :=
  primaries.map fun primary =>
    s.storableMsg primary.guid (primary.getInterest s.predTimeMs s.pubTimeMs now)

section
variable {s : Colyseus} {primaries : List GameObject} {now : Int64} {item : StorableMsg}

/-- What the locator makes of the message. -/
@[simp] theorem storable_storableMsg (guid : UInt32) (rect : Rectangle) (isSubscription : Bool) :
    (s.storableMsg guid rect).storable isSubscription =
      some ⟨rect, s.sid, guid, s.predTimeMs, isSubscription⟩ := rfl

theorem mem_locations : item ∈ s.locations primaries now ↔
    ∃ o ∈ primaries, item = s.storableMsg o.guid (o.getLocation now) := by
  simp only [locations, List.mem_map, @eq_comm _ item]

theorem mem_areaOfInterest : item ∈ s.areaOfInterest primaries now ↔
    ∃ o ∈ primaries, item =
      s.storableMsg o.guid (o.getInterest s.predTimeMs s.pubTimeMs now) := by
  simp only [areaOfInterest, List.mem_map, @eq_comm _ item]

/-- Every primary is in every order of the primaries. -/
theorem mem_of_primary {k : UInt32} {o : GameObject} (horder : primaries.Perm s.primaries.values)
    (ho : s.primaries.lookup k = some o) : o ∈ primaries :=
  horder.mem_iff.mpr ((GoMap.mem_values_iff _ _).mpr ⟨k, ho⟩)

end

end Colyseus

end DistGame
