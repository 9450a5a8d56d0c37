import Mathlib.Algebra.Order.Group.Unbundled.Abs
import DistGame.Game.Window

/-! How fast objects move. Between two clock readings a location moves by at most the speed of its
    object on each axis, whatever is held and whichever walls it meets. So an object that is close
    enough to meet another one within the prediction window is in that one's area of interest already,
    and two objects pass through each other only in a time in which they can cover both their sizes. -/

namespace DistGame

namespace Rectangle

/-- `r'` has the size of `r` and is at most `e` away from it on each axis. -/
structure Near (e : ℚ) (r r' : Rectangle) : Prop where
  width : r'.width = r.width
  height : r'.height = r.height
  x : |r'.x - r.x| ≤ e
  y : |r'.y - r.y| ≤ e

section
variable {e e' : ℚ} {r r' r'' s s' : Rectangle}

theorem Near.refl (r : Rectangle) : Near 0 r r where
  width := rfl
  height := rfl
  x := by simp
  y := by simp

theorem Near.trans (h : Near e r r') (h' : Near e' r' r'') : Near (e + e') r r'' where
  width := h'.width.trans h.width
  height := h'.height.trans h.height
  x := by
    have h₁ := abs_le.mp h.x
    have h₂ := abs_le.mp h'.x
    exact abs_le.mpr ⟨by linarith, by linarith⟩
  y := by
    have h₁ := abs_le.mp h.y
    have h₂ := abs_le.mp h'.y
    exact abs_le.mpr ⟨by linarith, by linarith⟩

theorem Near.symm (h : Near e r r') : Near e r' r where
  width := h.width.symm
  height := h.height.symm
  x := by
    rw [abs_sub_comm]
    exact h.x
  y := by
    rw [abs_sub_comm]
    exact h.y

theorem Near.mono (h : Near e r r') (hle : e ≤ e') : Near e' r r' :=
  ⟨h.width, h.height, h.x.trans hle, h.y.trans hle⟩

/-- What meets a rectangle at some place meets it with a margin wherever it is near that place. -/
theorem Near.intersects_grown {margin : ℚ} (h : Near e r r') (h' : Near e' s s')
    (hle : e + e' ≤ margin) (hmeet : s'.intersects r' = true) :
    s.intersects (r.grown margin) = true := by
  obtain ⟨hw, hh, hx, hy⟩ := h
  obtain ⟨hw', hh', hx', hy'⟩ := h'
  have h₁ := abs_le.mp hx
  have h₂ := abs_le.mp hy
  have h₃ := abs_le.mp hx'
  have h₄ := abs_le.mp hy'
  rw [intersects_iff] at hmeet ⊢
  obtain ⟨hl, hr, hu, hd⟩ := hmeet
  simp only [grown]
  refine ⟨?_, ?_, ?_, ?_⟩ <;> linarith

/-- Shrunk by what it may be away from a rectangle, the other one lies in it. -/
theorem Near.contains_shrunk (h : Near e r r') : r'.Contains (r.grown (-e)) := by
  obtain ⟨hw, hh, hx, hy⟩ := h
  have h₁ := abs_le.mp hx
  have h₂ := abs_le.mp hy
  constructor <;> simp only [grown] <;> linarith

/-- What meets a part of a rectangle meets the rectangle. -/
theorem Contains.intersects (h : r.Contains r') (hmeet : s.intersects r' = true) :
    s.intersects r = true := by
  obtain ⟨hl, hr, hu, hd⟩ := h
  rw [intersects_iff] at hmeet ⊢
  obtain ⟨h₁, h₂, h₃, h₄⟩ := hmeet
  exact ⟨by linarith, by linarith, by linarith, by linarith⟩

theorem grown_contains {margin : ℚ} (r : Rectangle) (h : 0 ≤ margin) : (r.grown margin).Contains r := by
  constructor <;> simp only [grown] <;> linarith

/-- `s` is strictly on one side of `r`, and `s'` strictly on the other side of `r'`. -/
def Passes (r s r' s' : Rectangle) : Prop :=
  (s.x + s.width < r.x ∧ r'.x + r'.width < s'.x) ∨ (r.x + r.width < s.x ∧ s'.x + s'.width < r'.x) ∨
    (s.y + s.height < r.y ∧ r'.y + r'.height < s'.y) ∨
    (r.y + r.height < s.y ∧ s'.y + s'.height < r'.y)

instance (r s r' s' : Rectangle) : Decidable (Passes r s r' s') :=
  inferInstanceAs (Decidable (_ ∨ _ ∨ _ ∨ _))

/-- To get from one side to the other, the two have to move by more than both their widths, or both
    their heights. -/
theorem Near.not_passes (h : Near e r r') (h' : Near e' s s')
    (hwidth : e + e' ≤ r.width + s.width) (hheight : e + e' ≤ r.height + s.height) :
    ¬ Passes r s r' s' := by
  obtain ⟨hw, hh, hx, hy⟩ := h
  obtain ⟨hw', hh', hx', hy'⟩ := h'
  have h₁ := abs_le.mp hx
  have h₂ := abs_le.mp hy
  have h₃ := abs_le.mp hx'
  have h₄ := abs_le.mp hy'
  rintro (⟨ha, hb⟩ | ⟨ha, hb⟩ | ⟨ha, hb⟩ | ⟨ha, hb⟩) <;> linarith

end

end Rectangle

namespace GameObject
open Rectangle

/-- The speed at which `GetAdjustedRect` moves an object of a type. -/
def speed (type : Int32) : ℚ :=
  if type = player then playerSpeed else if type = projectile then projectileSpeed else 0

theorem speed_nonneg (type : Int32) : 0 ≤ speed type := by
  rw [speed]
  split
  · norm_num [playerSpeed]
  · split
    · norm_num [projectileSpeed]
    · exact le_refl 0

theorem speed_player : speed player = playerSpeed := if_pos rfl

/-- A move keeps the size. -/
theorem moved_size (rect : Rectangle) (input : Int32) (d : ℚ) :
    (moved rect input d).width = rect.width ∧ (moved rect input d).height = rect.height := by
  rw [moved_eq]
  exact ⟨rfl, rfl⟩

theorem drifted_size (rect : Rectangle) (input : Int32) (d : ℚ) :
    (drifted rect input d).width = rect.width ∧ (drifted rect input d).height = rect.height := by
  simp only [drifted]
  split <;> split <;> split <;> split <;> exact ⟨rfl, rfl⟩

theorem getAdjustedRect_size (o : GameObject) (timeDelta : Int64) :
    (o.getAdjustedRect timeDelta).width = o.rect.width ∧
      (o.getAdjustedRect timeDelta).height = o.rect.height := by
  rw [getAdjustedRect]
  split
  · exact moved_size _ _ _
  · split
    · exact moved_size _ _ _
    · exact ⟨rfl, rfl⟩

theorem getLocation_size (o : GameObject) (now : Int64) :
    (o.getLocation now).width = o.rect.width ∧ (o.getLocation now).height = o.rect.height :=
  o.getAdjustedRect_size _

/-- A move that is longer by `e` ends at most `e` away. -/
theorem moved_near (rect : Rectangle) (input : Int32) (d : ℚ) {e : ℚ} (he : 0 ≤ e) :
    Near e (moved rect input d) (moved rect input (d + e)) := by
  have hreach : ∀ bit : Bool, (if bit then e else 0) ≤ e := by
    intro bit
    cases bit
    · exact he
    · exact le_refl e
  obtain ⟨hx, hx'⟩ := clampedMove_add_mem minX (maxX - rect.width) (held input left)
    (held input right) d rect.x he
  obtain ⟨hy, hy'⟩ := clampedMove_add_mem minY (maxY - rect.height) (held input up)
    (held input down) d rect.y he
  have hleft := hreach (held input left)
  have hright := hreach (held input right)
  have hup := hreach (held input up)
  have hdown := hreach (held input down)
  rw [moved_eq, moved_eq]
  exact ⟨rfl, rfl, abs_le.mpr ⟨by linarith, by linarith⟩, abs_le.mpr ⟨by linarith, by linarith⟩⟩

/-- Without an event in between, an object moves at most at its speed. -/
theorem getLocation_near (o : GameObject) {t delta : Int64} (hpos : 0 ≤ delta)
    (hfits : (t - o.latestEvent.timestamp).toInt + delta.toInt < 2 ^ 63) :
    Near (speed o.type * delta.toInt) (o.getLocation t) (o.getLocation (t + delta)) := by
  have hage : t + delta - o.latestEvent.timestamp = t - o.latestEvent.timestamp + delta := by grind
  have hdelta : (0 : ℚ) ≤ delta.toInt := by exact_mod_cast Int64.le_iff_toInt_le.mp hpos
  have hreach : 0 ≤ speed o.type * delta.toInt := mul_nonneg (speed_nonneg o.type) hdelta
  have hcast : ((t - o.latestEvent.timestamp + delta).toInt : ℚ) =
      (t - o.latestEvent.timestamp).toInt + delta.toInt := by
    rw [toInt_add_of_lt hpos hfits, Int.cast_add]
  rw [getLocation, getLocation, hage]
  by_cases hp : o.type = player
  · rw [speed, if_pos hp] at hreach ⊢
    simp only [getAdjustedRect, if_pos hp, hcast, mul_add]
    exact moved_near o.rect o.latestEvent.input _ hreach
  · by_cases hq : o.type = projectile
    · rw [speed, if_neg hp, if_pos hq] at hreach ⊢
      simp only [getAdjustedRect, if_neg hp, if_pos hq, hcast, mul_add]
      exact moved_near o.rect o.latestEvent.input _ hreach
    · simp only [getAdjustedRect, if_neg hp, if_neg hq]
      exact (Near.refl o.rect).mono hreach

/-- Stretching a rectangle does not uncover any of it. -/
theorem swept_contains_self (bb : Rectangle) (input : Int32) {d : ℚ} (hd : 0 ≤ d) :
    (swept bb input d).Contains bb := by
  have hstretch : ∀ bit : Bool, (0 : ℚ) ≤ if bit then d else 0 := by
    intro bit
    cases bit
    · exact le_refl 0
    · exact hd
  have hleft := hstretch (held input left)
  have hright := hstretch (held input right)
  have hup := hstretch (held input up)
  have hdown := hstretch (held input down)
  rw [swept_eq]
  constructor <;> simp only <;> linarith

/-- The area of interest covers the location of the object with its margin. -/
theorem interest_covers_margin (o : GameObject) {predTimeMs pubTimeMs : Int64}
    (hwindow : 0 ≤ pubTimeMs + predTimeMs) (t : Int64) :
    (o.getInterest predTimeMs pubTimeMs t).Contains ((o.getLocation t).grown (expansion o.type)) := by
  have hahead : (0 : ℚ) ≤ (pubTimeMs + predTimeMs).toInt := by
    exact_mod_cast Int64.le_iff_toInt_le.mp hwindow
  rw [getInterest]
  split
  · exact swept_contains_self _ _ (mul_nonneg (by norm_num [playerSpeed]) hahead)
  · split
    · exact swept_contains_self _ _ (mul_nonneg (by norm_num [projectileSpeed]) hahead)
    · exact ⟨le_refl _, le_refl _, le_refl _, le_refl _⟩

end GameObject

end DistGame
