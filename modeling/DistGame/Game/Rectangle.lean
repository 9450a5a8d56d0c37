import Mathlib.Tactic.Linarith
import Mathlib.Data.Rat.Defs
import Mathlib.Algebra.Order.Ring.Rat
import DistGame.Lib.QTree

/-! Rectangles of the game world (`lib/game/game.go`), with exact rational coordinates in place of
    `float32`. A rectangle is the closed box `[x, x+width] × [y, y+height]` in screen coordinates, so
    two boxes that only share an edge intersect; the four quadrants of a box are closed and overlap
    on their shared edges. -/

namespace DistGame

/-- `game.Rectangle`. -/
structure Rectangle where
  x : ℚ
  y : ℚ
  width : ℚ
  height : ℚ
  deriving DecidableEq, Repr

namespace Rectangle

/-- `Rectangle.Intersects`. -/
def intersects (r other : Rectangle) : Bool :=
  !(decide (other.x > r.x + r.width) || decide (other.x + other.width < r.x) ||
    decide (other.y > r.y + r.height) || decide (other.y + other.height < r.y))

/-- Width and height are not negative. -/
def Nonneg (r : Rectangle) : Prop := 0 ≤ r.width ∧ 0 ≤ r.height

instance (r : Rectangle) : Decidable r.Nonneg := inferInstanceAs (Decidable (_ ∧ _))

/-- The rectangle with a margin of `e` on all four sides. -/
def grown (r : Rectangle) (e : ℚ) : Rectangle :=
  ⟨r.x - e, r.y - e, r.width + 2 * e, r.height + 2 * e⟩

/-- `inner` lies in the rectangle. -/
structure Contains (r inner : Rectangle) : Prop where
  left : r.x ≤ inner.x
  right : inner.x + inner.width ≤ r.x + r.width
  up : r.y ≤ inner.y
  down : inner.y + inner.height ≤ r.y + r.height

instance (r inner : Rectangle) : Decidable (r.Contains inner) :=
  decidable_of_iff (r.x ≤ inner.x ∧ inner.x + inner.width ≤ r.x + r.width ∧ r.y ≤ inner.y ∧
      inner.y + inner.height ≤ r.y + r.height)
    ⟨fun ⟨hl, hr, hu, hd⟩ => ⟨hl, hr, hu, hd⟩, fun h => ⟨h.left, h.right, h.up, h.down⟩⟩

/-- The boundary `Subdivide` gives to each child. -/
def quadrant (r : Rectangle) : Quadrant → Rectangle
  | .nw => ⟨r.x, r.y, r.width / 2, r.height / 2⟩
  | .ne => ⟨r.x + r.width / 2, r.y, r.width / 2, r.height / 2⟩
  | .sw => ⟨r.x, r.y + r.height / 2, r.width / 2, r.height / 2⟩
  | .se => ⟨r.x + r.width / 2, r.y + r.height / 2, r.width / 2, r.height / 2⟩

theorem intersects_iff (r other : Rectangle) :
    r.intersects other = true ↔ other.x ≤ r.x + r.width ∧ r.x ≤ other.x + other.width ∧
      other.y ≤ r.y + r.height ∧ r.y ≤ other.y + other.height := by
  simp only [intersects, Bool.not_eq_true', Bool.or_eq_false_iff, decide_eq_false_iff_not, gt_iff_lt,
    not_lt, and_assoc]

theorem nonneg_quadrant {r : Rectangle} (h : r.Nonneg) (q : Quadrant) : (r.quadrant q).Nonneg := by
  obtain ⟨hw, hh⟩ := h
  cases q <;> exact ⟨by simp only [quadrant]; linarith, by simp only [quadrant]; linarith⟩

/-- What meets a quadrant meets the whole box. -/
theorem intersects_of_quadrant {r other : Rectangle} (h : r.Nonneg) (q : Quadrant)
    (hq : (r.quadrant q).intersects other = true) : r.intersects other = true := by
  obtain ⟨hw, hh⟩ := h
  rw [intersects_iff] at hq ⊢
  obtain ⟨h₁, h₂, h₃, h₄⟩ := hq
  cases q <;> simp only [quadrant] at h₁ h₂ h₃ h₄ <;> refine ⟨?_, ?_, ?_, ?_⟩ <;> linarith

/-- What meets a box meets one of its quadrants. -/
theorem exists_quadrant_intersects {r other : Rectangle} (ho : other.Nonneg)
    (h : r.intersects other = true) : ∃ q, (r.quadrant q).intersects other = true := by
  obtain ⟨ow, oh⟩ := ho
  rw [intersects_iff] at h
  obtain ⟨h₁, h₂, h₃, h₄⟩ := h
  rcases le_total other.x (r.x + r.width / 2) with hx | hx <;>
    rcases le_total other.y (r.y + r.height / 2) with hy | hy
  · exact ⟨.nw, (intersects_iff _ _).mpr ⟨hx, h₂, hy, h₄⟩⟩
  · exact ⟨.sw, (intersects_iff _ _).mpr
      ⟨hx, h₂, by simp only [quadrant]; linarith, by simp only [quadrant]; linarith⟩⟩
  · exact ⟨.ne, (intersects_iff _ _).mpr
      ⟨by simp only [quadrant]; linarith, by simp only [quadrant]; linarith, hy, h₄⟩⟩
  · exact ⟨.se, (intersects_iff _ _).mpr
      ⟨by simp only [quadrant]; linarith, by simp only [quadrant]; linarith,
        by simp only [quadrant]; linarith, by simp only [quadrant]; linarith⟩⟩

end Rectangle

end DistGame
