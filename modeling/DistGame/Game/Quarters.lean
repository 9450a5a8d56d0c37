import Mathlib.Data.Set.Lattice
import Mathlib.Data.Set.Prod
import Mathlib.Order.Interval.Set.Basic
import DistGame.Game.Rectangle

/-! The quadrants of a rectangle as sets of points: they are closed, together they are the rectangle,
    and no two of them share a point that is not on an edge of both. -/

namespace DistGame.Rectangle

/-- The points of a rectangle, its edges included. -/
def points (r : Rectangle) : Set (ℚ × ℚ) :=
  Set.Icc r.x (r.x + r.width) ×ˢ Set.Icc r.y (r.y + r.height)

/-- The points strictly inside. -/
def inside (r : Rectangle) : Set (ℚ × ℚ) :=
  Set.Ioo r.x (r.x + r.width) ×ˢ Set.Ioo r.y (r.y + r.height)

/-- The points on the four edges. -/
def edges (r : Rectangle) : Set (ℚ × ℚ) := r.points \ r.inside

/-- The parts are four closed quarters of a rectangle. -/
structure Quartered (r : Rectangle) (part : Quadrant → Rectangle) : Prop where
  halved : ∀ q, (part q).width = r.width / 2 ∧ (part q).height = r.height / 2
  union : r.points = ⋃ q, (part q).points
  overlap : ∀ q q', q ≠ q' → (part q).points ∩ (part q').points ⊆ (part q).edges ∩ (part q').edges

section
variable {r : Rectangle} {q q' : Quadrant}

theorem points_quadrant_subset (h : r.Nonneg) (q : Quadrant) :
    (r.quadrant q).points ⊆ r.points := by
  obtain ⟨hw, hh⟩ := h
  rintro ⟨a, b⟩ ⟨⟨h₁, h₂⟩, h₃, h₄⟩
  cases q <;> simp only [quadrant] at h₁ h₂ h₃ h₄ <;>
    exact ⟨⟨by linarith, by linarith⟩, by linarith, by linarith⟩

/-- Each point is in the quadrant on its side of both middle lines. -/
theorem exists_mem_quadrant {p : ℚ × ℚ} (hp : p ∈ r.points) : ∃ q, p ∈ (r.quadrant q).points := by
  obtain ⟨⟨h₁, h₂⟩, h₃, h₄⟩ := hp
  have hright : p.1 ≤ r.x + r.width / 2 + r.width / 2 := by linarith
  have hdown : p.2 ≤ r.y + r.height / 2 + r.height / 2 := by linarith
  rcases le_total p.1 (r.x + r.width / 2) with hx | hx <;>
    rcases le_total p.2 (r.y + r.height / 2) with hy | hy
  · exact ⟨.nw, ⟨h₁, hx⟩, h₃, hy⟩
  · exact ⟨.sw, ⟨h₁, hx⟩, hy, hdown⟩
  · exact ⟨.ne, ⟨hx, hright⟩, h₃, hy⟩
  · exact ⟨.se, ⟨hx, hright⟩, hy, hdown⟩

/-- What is strictly inside a quadrant is in no other. -/
theorem not_mem_of_inside (hne : q ≠ q') {p : ℚ × ℚ} (hp : p ∈ (r.quadrant q).inside) :
    p ∉ (r.quadrant q').points := by
  obtain ⟨⟨h₁, h₂⟩, h₃, h₄⟩ := hp
  rintro ⟨⟨h₁', h₂'⟩, h₃', h₄'⟩
  cases q <;> cases q' <;>
    simp only [quadrant] at h₁ h₂ h₃ h₄ h₁' h₂' h₃' h₄' <;>
    first
      | exact hne rfl
      | linarith

theorem quartered (h : r.Nonneg) : Quartered r r.quadrant where
  halved q := by cases q <;> exact ⟨rfl, rfl⟩
  union := by
    ext p
    rw [Set.mem_iUnion]
    constructor
    · exact exists_mem_quadrant
    · rintro ⟨q, hq⟩
      exact points_quadrant_subset h q hq
  overlap q q' hne := by
    rintro p ⟨hp, hp'⟩
    exact ⟨⟨hp, fun hin => not_mem_of_inside hne hin hp'⟩,
      hp', fun hin => not_mem_of_inside hne.symm hin hp⟩

end

/-! ### Quadrants of quadrants -/

/-- The rectangle at a path: the quadrant of a quadrant, and so on. -/
def region (r : Rectangle) (p : Path) : Rectangle := p.foldl quadrant r

theorem nonneg_region {r : Rectangle} (h : r.Nonneg) (p : Path) : (r.region p).Nonneg := by
  induction p generalizing r with
  | nil => exact h
  | cons q p ih => exact ih (nonneg_quadrant h q)

theorem region_append (r : Rectangle) (p p' : Path) :
    r.region (p ++ p') = (r.region p).region p' := List.foldl_append

/-- What meets a region meets the whole rectangle. -/
theorem intersects_of_region {r other : Rectangle} (h : r.Nonneg) {p : Path}
    (hmeet : (r.region p).intersects other = true) : r.intersects other = true := by
  induction p generalizing r with
  | nil => exact hmeet
  | cons q p ih => exact intersects_of_quadrant h q (ih (nonneg_quadrant h q) hmeet)

end DistGame.Rectangle
