import Mathlib.Tactic.Ring
import DistGame.Game.Motion

/-! The area of interest over the prediction window. `GetInterest` stretches the location of an object
    by what it can move until the window ends, in the directions it holds. Stopping at a wall makes the
    true motion shorter, never longer, so the area covers the object with its margin throughout. -/

namespace DistGame
namespace GameObject

/-- The two axes are stretched independently. -/
theorem swept_eq (bb : Rectangle) (input : Int32) (d : ℚ) : swept bb input d =
    ⟨bb.x - (if held input left then d else 0), bb.y - (if held input up then d else 0),
      bb.width + (if held input left then d else 0) + (if held input right then d else 0),
      bb.height + (if held input up then d else 0) + (if held input down then d else 0)⟩ := by
  unfold swept
  cases held input left <;> cases held input right <;> cases held input up <;>
    cases held input down <;> simp

/-- The stretched location covers every move that is longer by at most the stretch. -/
theorem swept_contains (rect : Rectangle) (input : Int32) (margin d : ℚ) {e stretch : ℚ} (he : 0 ≤ e)
    (hle : e ≤ stretch) :
    (swept ((moved rect input d).grown margin) input stretch).Contains
      ((moved rect input (d + e)).grown margin) := by
  have hreach : ∀ bit : Bool, (if bit then e else 0) ≤ (if bit then stretch else 0 : ℚ) := by
    intro bit
    cases bit
    · exact le_refl 0
    · exact hle
  obtain ⟨hx, hx'⟩ := clampedMove_add_mem minX (maxX - rect.width) (held input left)
    (held input right) d rect.x he
  obtain ⟨hy, hy'⟩ := clampedMove_add_mem minY (maxY - rect.height) (held input up)
    (held input down) d rect.y he
  have hleft := hreach (held input left)
  have hright := hreach (held input right)
  have hup := hreach (held input up)
  have hdown := hreach (held input down)
  rw [swept_eq, moved_eq, moved_eq]
  constructor <;> simp only [Rectangle.grown] <;> linarith

/-- At a clock reading `t` the area of interest covers where the object is, with its margin, at every
    moment of the window up to which its age can be computed without wrapping around. -/
theorem interest_covers_window (o : GameObject) {predTimeMs pubTimeMs t delta : Int64}
    (hpos : 0 ≤ delta) (hle : delta ≤ pubTimeMs + predTimeMs)
    (hfits : (t - o.latestEvent.timestamp).toInt + delta.toInt < 2 ^ 63) :
    (o.getInterest predTimeMs pubTimeMs t).Contains
      ((o.getLocation (t + delta)).grown (expansion o.type)) := by
  have hage : t + delta - o.latestEvent.timestamp = t - o.latestEvent.timestamp + delta := by grind
  have hdelta : (0 : ℚ) ≤ delta.toInt := by exact_mod_cast Int64.le_iff_toInt_le.mp hpos
  have hwindow : (delta.toInt : ℚ) ≤ (pubTimeMs + predTimeMs).toInt := by
    exact_mod_cast Int64.le_iff_toInt_le.mp hle
  have hcast : ((t - o.latestEvent.timestamp + delta).toInt : ℚ) =
      (t - o.latestEvent.timestamp).toInt + delta.toInt := by
    rw [toInt_add_of_lt hpos hfits, Int.cast_add]
  rw [getInterest, getLocation, getLocation, hage]
  by_cases hp : o.type = player
  · have hspeed : (0 : ℚ) ≤ playerSpeed := by norm_num [playerSpeed]
    simp only [getAdjustedRect, if_pos hp, hcast, mul_add]
    exact swept_contains o.rect o.latestEvent.input _ _ (mul_nonneg hspeed hdelta)
      (mul_le_mul_of_nonneg_left hwindow hspeed)
  · by_cases hq : o.type = projectile
    · have hspeed : (0 : ℚ) ≤ projectileSpeed := by norm_num [projectileSpeed]
      simp only [getAdjustedRect, if_neg hp, if_pos hq, hcast, mul_add]
      exact swept_contains o.rect o.latestEvent.input _ _ (mul_nonneg hspeed hdelta)
        (mul_le_mul_of_nonneg_left hwindow hspeed)
    · simp only [getAdjustedRect, if_neg hp, if_neg hq]
      exact ⟨le_refl _, le_refl _, le_refl _, le_refl _⟩

/-- A player that has held left since -1. -/
def longHeld : GameObject := ⟨7, 1, ⟨50, 10, 2, 2⟩, player, ⟨left, -1⟩⟩

/-- When the age of its event wraps around within the window, its location jumps out of the area. -/
theorem interest_misses_wrapped :
    (0 : Int64) ≤ 1 ∧ (1 : Int64) ≤ 0 + 1 ∧
      ¬ (longHeld.getInterest 1 0 (Int64.maxValue - 1)).Contains
        ((longHeld.getLocation (Int64.maxValue - 1 + 1)).grown (expansion longHeld.type)) := by
  decide +kernel

/-- A second after the event, half a second ahead. -/
theorem interest_covers_window_second :
    (longHeld.getInterest 500 100 999).Contains ((longHeld.getLocation (999 + 500)).grown 3) := by
  have hfits : (1000 : ℤ) + 500 < 2 ^ 63 := by norm_num
  exact interest_covers_window longHeld (by decide) (by decide) hfits

end GameObject

end DistGame
