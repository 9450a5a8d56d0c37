import Mathlib.Tactic.Ring
import DistGame.Game.Motion

/-! The game object of the demo server (`demo/server/game.go`), which moves at a velocity of its own
    and past the walls. Its rectangles and events are those of `lib/game/game.go`. -/

namespace DistGame.Demo

/-- `GameObject` of the demo server. -/
structure GameObject where
  rect : Rectangle
  latestEvent : GameEvent
  expansion : ℚ
  speedX : ℚ
  speedY : ℚ
  deriving DecidableEq

namespace GameObject

/-- `GetAdjustedRect`. -/
def getAdjustedRect (o : GameObject) (timeDelta : Int64) : Rectangle :=
  { o.rect with
    x := o.rect.x + o.speedX * timeDelta.toInt
    y := o.rect.y + o.speedY * timeDelta.toInt }

/-- `GetLocation` at clock reading `now`. -/
def getLocation (o : GameObject) (now : Int64) : Rectangle :=
  o.getAdjustedRect (now - o.latestEvent.timestamp)

/-- `GetInterest` at clock reading `now`. Upwards the height changes by what is added to `y`, with the
    same sign, while the width loses what is added to `x`. -/
def getInterest (o : GameObject) (predTimeMs pubTimeMs now : Int64) : Rectangle :=
  let bb := o.getLocation now
  let bb : Rectangle := { x := bb.x - o.expansion, y := bb.y - o.expansion,
                          width := bb.width + 2 * o.expansion, height := bb.height + 2 * o.expansion }
  let time : ℚ := (pubTimeMs + predTimeMs).toInt
  let bb := if o.speedX < 0 then
    { bb with x := bb.x + o.speedX * time, width := bb.width - o.speedX * time }
  else { bb with width := bb.width + o.speedX * time }
  if o.speedY < 0 then { bb with y := bb.y + o.speedY * time, height := bb.height + o.speedY * time }
  else { bb with height := bb.height + o.speedY * time }

/-- At `t` the area of interest is no smaller than nothing if the object is, and covers the object with
    its margin throughout the window. -/
def Covers (o : GameObject) (predTimeMs pubTimeMs t : Int64) : Prop :=
  (o.rect.Nonneg → (o.getInterest predTimeMs pubTimeMs t).Nonneg) ∧
    ∀ delta, 0 ≤ delta → delta ≤ pubTimeMs + predTimeMs →
      (o.getInterest predTimeMs pubTimeMs t).Contains
        ((o.getAdjustedRect (t + delta - o.latestEvent.timestamp)).grown o.expansion)

/-- The area, side by side. -/
theorem getInterest_eq (o : GameObject) (predTimeMs pubTimeMs t : Int64) :
    o.getInterest predTimeMs pubTimeMs t =
      ⟨(o.getLocation t).x - o.expansion +
          (if o.speedX < 0 then o.speedX * (pubTimeMs + predTimeMs).toInt else 0),
        (o.getLocation t).y - o.expansion +
          (if o.speedY < 0 then o.speedY * (pubTimeMs + predTimeMs).toInt else 0),
        o.rect.width + 2 * o.expansion + |o.speedX| * (pubTimeMs + predTimeMs).toInt,
        o.rect.height + 2 * o.expansion + o.speedY * (pubTimeMs + predTimeMs).toInt⟩ := by
  rw [getInterest]
  by_cases hx : o.speedX < 0
  · by_cases hy : o.speedY < 0 <;> simp [hx, hy, abs_of_neg, getLocation, getAdjustedRect, sub_eq_add_neg]
  · have habs := abs_of_nonneg (not_lt.mp hx)
    by_cases hy : o.speedY < 0 <;> simp [hx, hy, habs, getLocation, getAdjustedRect]

/-- On one axis: a stretch by the motion of a window covers the motion of `k` exactly if `k` lies in
    the window. -/
theorem stretch_iff (v : ℚ) (k window : ℤ) :
    ((if v < 0 then v * window else 0) ≤ v * k ∧
      v * k ≤ (if v < 0 then v * window else 0) + |v| * window) ↔ v = 0 ∨ 0 ≤ k ∧ k ≤ window := by
  rcases lt_trichotomy v 0 with hv | rfl | hv
  · have hback : v * k ≤ 0 ↔ 0 ≤ k := by
      rw [mul_nonpos_iff_neg_imp_nonneg]
      simp [hv, hv.le]
    rw [if_pos hv, abs_of_neg hv, neg_mul, add_neg_cancel, mul_le_mul_left_of_neg hv, Int.cast_le,
      hback]
    simp [hv.ne, and_comm]
  · simp
  · rw [if_neg hv.not_gt, abs_of_pos hv, zero_add, mul_le_mul_iff_of_pos_left hv, Int.cast_le,
      mul_nonneg_iff_of_pos_left hv]
    simp [hv.ne']

/-- Upwards the stretch covers what is at least twice the window later. -/
theorem upward_iff {v : ℚ} (hv : v < 0) (k window : ℤ) :
    (v * window ≤ v * k ∧ v * k ≤ v * window + v * window) ↔ 2 * window ≤ k ∧ k ≤ window := by
  rw [← two_mul, mul_left_comm, mul_le_mul_left_of_neg hv, mul_le_mul_left_of_neg hv, Int.cast_le]
  norm_cast
  exact and_comm

/-- What the area of interest at `t` covers: the object at an age that is later by at most the window;
    if it moves up, what is also later by twice the window. -/
theorem contains_iff (o : GameObject) (predTimeMs pubTimeMs t age : Int64) {k : ℤ}
    (hk : age.toInt = (t - o.latestEvent.timestamp).toInt + k) :
    (o.getInterest predTimeMs pubTimeMs t).Contains ((o.getAdjustedRect age).grown o.expansion) ↔
      (o.speedX = 0 ∨ 0 ≤ k ∧ k ≤ (pubTimeMs + predTimeMs).toInt) ∧
      if o.speedY < 0 then 2 * (pubTimeMs + predTimeMs).toInt ≤ k ∧ k ≤ (pubTimeMs + predTimeMs).toInt
      else o.speedY = 0 ∨ 0 ≤ k ∧ k ≤ (pubTimeMs + predTimeMs).toInt := by
  have hmove : ∀ v : ℚ, v * (age.toInt : ℚ) =
      v * (t - o.latestEvent.timestamp).toInt + v * k := by
    intro v
    rw [hk, Int.cast_add, mul_add]
  have hy : (if o.speedY < 0 then 2 * (pubTimeMs + predTimeMs).toInt ≤ k ∧
        k ≤ (pubTimeMs + predTimeMs).toInt
      else o.speedY = 0 ∨ 0 ≤ k ∧ k ≤ (pubTimeMs + predTimeMs).toInt) ↔
      (if o.speedY < 0 then o.speedY * (pubTimeMs + predTimeMs).toInt else 0) ≤ o.speedY * k ∧
        o.speedY * k ≤ (if o.speedY < 0 then o.speedY * (pubTimeMs + predTimeMs).toInt else 0) +
          o.speedY * (pubTimeMs + predTimeMs).toInt := by
    by_cases hv : o.speedY < 0
    · simp only [if_pos hv]
      exact (upward_iff hv _ _).symm
    · rw [if_neg hv, ← stretch_iff, abs_of_nonneg (not_lt.mp hv)]
  rw [hy, ← stretch_iff, getInterest_eq]
  simp only [getAdjustedRect, getLocation, hmove, Rectangle.grown]
  constructor
  · rintro ⟨hl, hr, hu, hd⟩
    simp only at hl hr hu hd
    exact ⟨⟨by linarith, by linarith⟩, by linarith, by linarith⟩
  · rintro ⟨⟨hl, hr⟩, hu, hd⟩
    exact ⟨by simp only; linarith, by simp only; linarith, by simp only; linarith,
      by simp only; linarith⟩

section
variable {o : GameObject} {predTimeMs pubTimeMs t : Int64}

/-- Where the object is now is left out if it moves up and the window is not empty. -/
theorem Covers.not_upward (h : o.Covers predTimeMs pubTimeMs t) (hw : 0 ≤ pubTimeMs + predTimeMs) :
    0 ≤ o.speedY ∨ pubTimeMs + predTimeMs = 0 := by
  have hwindow : 0 ≤ (pubTimeMs + predTimeMs).toInt := Int64.le_iff_toInt_le.mp hw
  by_contra hnot
  rw [not_or, not_le] at hnot
  have hnow := (contains_iff o predTimeMs pubTimeMs t (t - o.latestEvent.timestamp) (k := 0)
    (by omega)).mp (by simpa using h.2 0 (Int64.le_refl 0) hw)
  rw [if_pos hnot.1] at hnow
  exact hnot.2 (Int64.toInt_inj.mp (by rw [Int64.toInt_zero]; omega))

/-- An object that moves is left out at the moment at which its age wraps around. -/
theorem Covers.not_wrapped (h : o.Covers predTimeMs pubTimeMs t) :
    (t - o.latestEvent.timestamp).toInt + (pubTimeMs + predTimeMs).toInt < 2 ^ 63 ∨
      o.speedX = 0 ∧ o.speedY = 0 := by
  by_contra hnot
  rw [not_or, not_lt] at hnot
  obtain ⟨hwraps, hmoves⟩ := hnot
  have hlt := (t - o.latestEvent.timestamp).toInt_lt
  have hfits := (pubTimeMs + predTimeMs).toInt_lt
  have hmin : Int64.minValue.toInt = -2 ^ 63 := by decide
  have hdelta : (Int64.minValue - (t - o.latestEvent.timestamp)).toInt =
      2 ^ 63 - (t - o.latestEvent.timestamp).toInt := by
    rw [Int64.toInt_sub, hmin, Int.bmod_def]
    omega
  have hcovered := h.2 (Int64.minValue - (t - o.latestEvent.timestamp))
    (Int64.le_iff_toInt_le.mpr (by rw [hdelta, Int64.toInt_zero]; omega))
    (Int64.le_iff_toInt_le.mpr (by rw [hdelta]; omega))
  have hwrapped : t + (Int64.minValue - (t - o.latestEvent.timestamp)) - o.latestEvent.timestamp =
      Int64.minValue := by grind
  rw [hwrapped, contains_iff o predTimeMs pubTimeMs t Int64.minValue
    (k := -2 ^ 63 - (t - o.latestEvent.timestamp).toInt) (by omega)] at hcovered
  obtain ⟨hx, hy⟩ := hcovered
  refine hmoves ⟨hx.resolve_right fun h => by omega, ?_⟩
  split_ifs at hy with hv
  · omega
  · exact hy.resolve_right fun h => by omega

theorem nonneg_getInterest (he : 0 ≤ o.expansion) (hw : 0 ≤ pubTimeMs + predTimeMs)
    (hup : 0 ≤ o.speedY ∨ pubTimeMs + predTimeMs = 0) (hn : o.rect.Nonneg) :
    (o.getInterest predTimeMs pubTimeMs t).Nonneg := by
  obtain ⟨hwidth, hheight⟩ := hn
  have htime : (0 : ℚ) ≤ (pubTimeMs + predTimeMs).toInt := by
    exact_mod_cast Int64.le_iff_toInt_le.mp hw
  have hstretch : 0 ≤ |o.speedX| * ((pubTimeMs + predTimeMs).toInt : ℚ) :=
    mul_nonneg (abs_nonneg _) htime
  have hdown : 0 ≤ o.speedY * ((pubTimeMs + predTimeMs).toInt : ℚ) := by
    rcases hup with hup | hup
    · exact mul_nonneg hup htime
    · rw [hup, Int64.toInt_zero, Int.cast_zero, mul_zero]
  rw [getInterest_eq]
  exact ⟨by simp only; linarith, by simp only; linarith⟩

/-- Otherwise the object is covered throughout the window. -/
theorem contains_later (hup : 0 ≤ o.speedY ∨ pubTimeMs + predTimeMs = 0)
    (hfits : (t - o.latestEvent.timestamp).toInt + (pubTimeMs + predTimeMs).toInt < 2 ^ 63 ∨
      o.speedX = 0 ∧ o.speedY = 0) {delta : Int64} (hpos : 0 ≤ delta)
    (hle : delta ≤ pubTimeMs + predTimeMs) :
    (o.getInterest predTimeMs pubTimeMs t).Contains
      ((o.getAdjustedRect (t + delta - o.latestEvent.timestamp)).grown o.expansion) := by
  have hdelta : 0 ≤ delta.toInt := Int64.le_iff_toInt_le.mp hpos
  have hlast : delta.toInt ≤ (pubTimeMs + predTimeMs).toInt := Int64.le_iff_toInt_le.mp hle
  have hage : t + delta - o.latestEvent.timestamp = t - o.latestEvent.timestamp + delta := by grind
  rw [hage]
  rcases hfits with hfits | ⟨hx, hy⟩
  · rw [contains_iff o predTimeMs pubTimeMs t _
      (GameObject.toInt_add_of_lt hpos (lt_of_le_of_lt (by omega) hfits))]
    refine ⟨.inr ⟨hdelta, hlast⟩, ?_⟩
    split_ifs with hv
    · have hempty := hup.resolve_left (not_le.mpr hv)
      rw [hempty, Int64.toInt_zero] at hlast ⊢
      omega
    · exact .inr ⟨hdelta, hlast⟩
  · rw [contains_iff o predTimeMs pubTimeMs t _ (add_sub_cancel _ _).symm, if_neg hy.not_lt]
    exact ⟨.inl hx, .inl hy⟩

end

/-- For a window that is not negative: the area of interest is right exactly if the object does not
    move up, or the window is empty, and its age does not wrap around within the window, or it stands
    still. -/
theorem covers_iff {o : GameObject} (he : 0 ≤ o.expansion) {predTimeMs pubTimeMs : Int64} (t : Int64)
    (hw : 0 ≤ pubTimeMs + predTimeMs) :
    o.Covers predTimeMs pubTimeMs t ↔
      (0 ≤ o.speedY ∨ pubTimeMs + predTimeMs = 0) ∧
        ((t - o.latestEvent.timestamp).toInt + (pubTimeMs + predTimeMs).toInt < 2 ^ 63 ∨
          o.speedX = 0 ∧ o.speedY = 0) := by
  constructor
  · intro h
    exact ⟨h.not_upward hw, h.not_wrapped⟩
  · rintro ⟨hup, hfits⟩
    refine ⟨nonneg_getInterest he hw hup, fun delta hpos hle => ?_⟩
    exact contains_later hup hfits hpos hle

/-- An object that moves up at one unit a second. -/
def rising : GameObject := ⟨⟨50, 50, 2, 2⟩, ⟨0, 0⟩, 3, 0, -1 / 1000⟩

/-- Its area of interest for half a second ahead ends above its own margin, already for where it is. -/
theorem interest_shrinks_upward :
    (0 : Int64) ≤ 0 + 500 ∧ 0 ≤ rising.expansion ∧ rising.getLocation 0 = ⟨50, 50, 2, 2⟩ ∧
      (rising.getLocation 0).grown rising.expansion = ⟨47, 47, 8, 8⟩ ∧
      rising.getInterest 500 0 0 = ⟨47, 47 - 1 / 2, 8, 8 - 1 / 2⟩ ∧
      ¬ (rising.getInterest 500 0 0).Contains
        ((rising.getAdjustedRect (0 + 0 - rising.latestEvent.timestamp)).grown rising.expansion) := by
  decide +kernel

/-- Moving down it is covered. -/
theorem covers_iff_falling : { rising with speedY := 1 / 1000 }.Covers 500 0 0 := by
  have hfits : (0 : ℤ) + 500 < 2 ^ 63 := by norm_num
  exact (covers_iff (o := { rising with speedY := 1 / 1000 }) (by decide +kernel) 0 (by decide)).mpr
    ⟨.inl (by decide +kernel), .inl hfits⟩

end GameObject

end DistGame.Demo
