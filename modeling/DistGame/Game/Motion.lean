import Mathlib.Tactic.Linarith
import Mathlib.Tactic.Positivity
import Mathlib.Algebra.Order.Field.Rat
import DistGame.Lib.Clamp
import DistGame.Game.Object

/-! The motion of an object inside the world: a player stays inside for as long as time does not run
    backwards, and an event applied a second time changes nothing. -/

namespace DistGame

/-- The rectangle lies inside the world. -/
structure InWorld (rect : Rectangle) : Prop where
  left : minX ≤ rect.x
  right : rect.x + rect.width ≤ maxX
  up : minY ≤ rect.y
  down : rect.y + rect.height ≤ maxY

instance (rect : Rectangle) : Decidable (InWorld rect) :=
  decidable_of_iff (minX ≤ rect.x ∧ rect.x + rect.width ≤ maxX ∧ minY ≤ rect.y ∧
      rect.y + rect.height ≤ maxY)
    ⟨fun ⟨hl, hr, hu, hd⟩ => ⟨hl, hr, hu, hd⟩, fun h => ⟨h.left, h.right, h.up, h.down⟩⟩

/-- If the object is a player, it is inside the world and its last event lies between 1970 and
    `now`. -/
def Settled (now : Int64) (o : GameObject) : Prop :=
  o.type = player → InWorld o.rect ∧ 0 ≤ o.latestEvent.timestamp ∧ o.latestEvent.timestamp ≤ now

instance (now : Int64) (o : GameObject) : Decidable (Settled now o) :=
  inferInstanceAs (Decidable (_ → _ ∧ _ ∧ _))

theorem Settled.mono {prev now : Int64} {o : GameObject} (h : Settled prev o) (hle : prev ≤ now) :
    Settled now o := by
  intro hp
  obtain ⟨hin, h1970, hlast⟩ := h hp
  exact ⟨hin, h1970, Int64.le_trans hlast hle⟩

theorem projectile_ne_player : projectile ≠ player := by decide

namespace GameObject

/-- The two axes move independently, and the size stays. -/
theorem moved_eq (rect : Rectangle) (input : Int32) (d : ℚ) : moved rect input d =
    ⟨clampedMove minX (maxX - rect.width) (held input left) (held input right) d rect.x,
      clampedMove minY (maxY - rect.height) (held input up) (held input down) d rect.y,
      rect.width, rect.height⟩ := by
  unfold moved clampedMove
  cases held input left <;> cases held input right <;> cases held input up <;>
    cases held input down <;> rfl

/-- No time, no motion, inside the world. -/
theorem moved_zero {rect : Rectangle} (h : InWorld rect) (input : Int32) :
    moved rect input 0 = rect := by
  have hx : rect.x ≤ maxX - rect.width := by have := h.right; linarith
  have hy : rect.y ≤ maxY - rect.height := by have := h.down; linarith
  rw [moved_eq, clampedMove_zero _ _ h.left hx, clampedMove_zero _ _ h.up hy]

/-- A move by a non-negative distance stays in the world. -/
theorem inWorld_moved {rect : Rectangle} (h : InWorld rect) (input : Int32) {d : ℚ} (hd : 0 ≤ d) :
    InWorld (moved rect input d) := by
  have hx : rect.x ≤ maxX - rect.width := by have := h.right; linarith
  have hy : rect.y ≤ maxY - rect.height := by have := h.down; linarith
  obtain ⟨hx₁, hx₂⟩ := clampedMove_mem (held input left) (held input right) hd h.left hx
  obtain ⟨hy₁, hy₂⟩ := clampedMove_mem (held input up) (held input down) hd h.up hy
  rw [moved_eq]
  exact ⟨hx₁, by dsimp only; linarith, hy₁, by dsimp only; linarith⟩

theorem drifted_zero (rect : Rectangle) (input : Int32) : drifted rect input 0 = rect := by
  unfold drifted
  cases held input left <;> cases held input right <;> cases held input up <;>
    cases held input down <;> simp

/-- A difference of clock readings in order is not negative. -/
theorem sub_nonneg_of_le {t t' : Int64} (h0 : 0 ≤ t) (h : t ≤ t') : 0 ≤ (t' - t).toInt := by
  have : (0 : Int64) ≤ t' - t := by grind
  exact Int64.le_iff_toInt_le.mp this

/-- A clock reading a while later, without wrapping around. -/
theorem toInt_add_of_lt {t delta : Int64} (hd : 0 ≤ delta) (hfits : t.toInt + delta.toInt < 2 ^ 63) :
    (t + delta).toInt = t.toInt + delta.toInt := by
  have hle := t.le_toInt
  have hpos : 0 ≤ delta.toInt := Int64.le_iff_toInt_le.mp hd
  rw [Int64.toInt_add, Int.bmod_def]
  omega

/-- A player inside the world moves forwards in time to a place inside the world. -/
theorem inWorld_getAdjustedRect {o : GameObject} (hp : o.type = player) (h : InWorld o.rect)
    {timeDelta : Int64} (hd : 0 ≤ timeDelta.toInt) : InWorld (o.getAdjustedRect timeDelta) := by
  have hspeed : (0 : ℚ) ≤ playerSpeed := by norm_num [playerSpeed]
  have htime : (0 : ℚ) ≤ (timeDelta.toInt : ℚ) := by exact_mod_cast hd
  rw [getAdjustedRect, if_pos hp]
  exact inWorld_moved h _ (mul_nonneg hspeed htime)

/-- An event at or after the last one keeps a player in the world. -/
theorem settled_advance {o : GameObject} (input : Int32) {now : Int64} (h : Settled now o)
    (h0 : 0 ≤ now) : Settled now (o.advance ⟨input, now⟩) := by
  intro hp
  rw [advance_type] at hp
  obtain ⟨hin, hpos, hle⟩ := h hp
  rw [advance, if_pos hp]
  exact ⟨inWorld_getAdjustedRect hp hin (sub_nonneg_of_le hpos hle), h0, Int64.le_refl now⟩

theorem advance_player {o : GameObject} (h : o.type = player) (event : GameEvent) :
    o.advance event =
      { o with
        rect := o.getAdjustedRect (event.timestamp - o.latestEvent.timestamp)
        latestEvent := event } := by
  rw [advance, if_pos h]

theorem advance_projectile {o : GameObject} (h : o.type = projectile) (event : GameEvent) :
    o.advance event =
      { o with
        rect := drifted o.rect o.latestEvent.input
          (playerSpeed * (event.timestamp - o.latestEvent.timestamp).toInt)
        latestEvent := event } := by
  rw [advance, if_neg (by rw [h]; exact projectile_ne_player), if_pos h]

theorem advance_other {o : GameObject} (hp : o.type ≠ player) (hq : o.type ≠ projectile)
    (event : GameEvent) : o.advance event = o := by
  rw [advance, if_neg hp, if_neg hq]

/-- Writing the rectangle and the event that are there already. -/
theorem eq_of_same {o : GameObject} {rect : Rectangle} {event : GameEvent} (hr : rect = o.rect)
    (he : event = o.latestEvent) : { o with rect, latestEvent := event } = o := by
  subst hr he
  rfl

/-- An event applied a second time changes nothing. -/
theorem advance_advance {o : GameObject} {event : GameEvent}
    (h : o.type = player → InWorld (o.advance event).rect) :
    (o.advance event).advance event = o.advance event := by
  have hzero : (event.timestamp - event.timestamp).toInt = 0 := by
    rw [Int64.sub_self]; rfl
  have htype := advance_type o event
  by_cases hp : o.type = player
  · have hlatest : (o.advance event).latestEvent = event := by rw [advance_player hp]
    rw [advance_player (htype.trans hp)]
    refine eq_of_same ?_ hlatest.symm
    rw [hlatest, getAdjustedRect, if_pos (htype.trans hp), hzero, Int.cast_zero, mul_zero]
    exact moved_zero (h hp) _
  · by_cases hq : o.type = projectile
    · have hlatest : (o.advance event).latestEvent = event := by rw [advance_projectile hq]
      rw [advance_projectile (htype.trans hq)]
      refine eq_of_same ?_ hlatest.symm
      rw [hlatest, hzero, Int.cast_zero, mul_zero]
      exact drifted_zero _ _
    · rw [advance_other hp hq, advance_other hp hq]

end GameObject

end DistGame
