import Mathlib.Algebra.Order.BigOperators.Group.List
import Mathlib.Algebra.Order.Group.MinMax
import Mathlib.Algebra.Order.Group.Unbundled.Basic
import Mathlib.Tactic.Linarith

/-! Motion along a line between two walls: a move by `d` towards the lower wall, the upper wall, or
    both in turn, each stopped at its wall. Several moves come out as one by their sum, except where
    both directions are wanted and the lower wall is hit: each move then starts from the wall again,
    and only the longest of them counts. -/

namespace DistGame
variable {K : Type*} [AddCommGroup K] [LinearOrder K]

/-- Move `x` by `d` down and up, as far as each is wanted, stopping at the walls `lo` and `hi`. -/
def clampedMove (lo hi : K) (neg pos : Bool) (d x : K) : K :=
  let x := if neg then max lo (x - d) else x
  if pos then min hi (x + d) else x

/-- No distance, no motion, between the walls. -/
theorem clampedMove_zero {lo hi x : K} (neg pos : Bool) (hlo : lo ≤ x) (hhi : x ≤ hi) :
    clampedMove lo hi neg pos 0 x = x := by
  have hneg : (if neg then max lo (x - 0) else x) = x := by
    rw [sub_zero, max_eq_right hlo]
    exact ite_self x
  rw [clampedMove, hneg, add_zero, min_eq_right hhi]
  exact ite_self x

/-- A move by a non-negative distance stays between the walls. -/
theorem clampedMove_mem [IsOrderedAddMonoid K] {lo hi d x : K} (neg pos : Bool) (hd : 0 ≤ d)
    (hlo : lo ≤ x) (hhi : x ≤ hi) :
    lo ≤ clampedMove lo hi neg pos d x ∧ clampedMove lo hi neg pos d x ≤ hi := by
  have hneg : ∃ y, (if neg then max lo (x - d) else x) = y ∧ lo ≤ y ∧ y ≤ hi := by
    refine ⟨_, rfl, ?_⟩
    split
    · exact ⟨le_max_left _ _, max_le (hlo.trans hhi) ((sub_le_self x hd).trans hhi)⟩
    · exact ⟨hlo, hhi⟩
  obtain ⟨y, hy, hlo', hhi'⟩ := hneg
  rw [clampedMove, hy]
  split
  · exact ⟨le_min (hlo'.trans hhi') (hlo'.trans (le_add_of_nonneg_right hd)), min_le_left _ _⟩
  · exact ⟨hlo', hhi'⟩

/-! ### Moving on -/

section
variable {K : Type*} [Field K] [LinearOrder K] [IsStrictOrderedRing K] {lo hi x : K} {ds : List K}

/-- A move that is longer by `e` ends at most `e` further down if that is wanted, and at most `e`
    further up. -/
theorem clampedMove_add_mem (lo hi : K) (neg pos : Bool) (d x : K) {e : K} (he : 0 ≤ e) :
    clampedMove lo hi neg pos d x - (if neg then e else 0) ≤ clampedMove lo hi neg pos (d + e) x ∧
      clampedMove lo hi neg pos (d + e) x ≤
        clampedMove lo hi neg pos d x + if pos then e else 0 := by
  cases neg with
  | false =>
    cases pos with
    | false => simp [clampedMove]
    | true =>
      simp only [clampedMove, Bool.false_eq_true, if_true, if_false, min_def]
      constructor <;> split_ifs <;> linarith
  | true =>
    cases pos with
    | false =>
      simp only [clampedMove, Bool.false_eq_true, if_true, if_false, max_def]
      constructor <;> split_ifs <;> linarith
    | true =>
      simp only [clampedMove, if_true, max_def, min_def]
      constructor <;> split_ifs <;> linarith

/-! ### Several moves -/

/-- The place after moves by the distances `ds`, one after the other. -/
def clampedMoves (lo hi : K) (neg pos : Bool) (ds : List K) (x : K) : K :=
  ds.foldl (fun x d => clampedMove lo hi neg pos d x) x

/-- The longest of some moves. -/
def longest (ds : List K) : K := ds.foldr max 0

omit [IsStrictOrderedRing K] in
theorem clampedMoves_cons (lo hi : K) (neg pos : Bool) (d : K) (ds : List K) (x : K) :
    clampedMoves lo hi neg pos (d :: ds) x =
      clampedMoves lo hi neg pos ds (clampedMove lo hi neg pos d x) := rfl

/-- Towards the lower wall alone. -/
theorem clampedMoves_neg (hds : ∀ d ∈ ds, 0 ≤ d) (hlo : lo ≤ x) :
    clampedMoves lo hi true false ds x = max lo (x - ds.sum) := by
  induction ds generalizing x with
  | nil => simp [clampedMoves, max_eq_right hlo]
  | cons d ds ih =>
    obtain ⟨hd, hds⟩ := List.forall_mem_cons.mp hds
    have hsum := List.sum_nonneg hds
    have hone : clampedMove lo hi true false d x = max lo (x - d) := rfl
    rw [clampedMoves_cons, hone, ih hds (le_max_left _ _), List.sum_cons]
    simp only [max_def]
    split_ifs <;> linarith

/-- Towards the upper wall alone. -/
theorem clampedMoves_pos (hds : ∀ d ∈ ds, 0 ≤ d) (hhi : x ≤ hi) :
    clampedMoves lo hi false true ds x = min hi (x + ds.sum) := by
  induction ds generalizing x with
  | nil => simp [clampedMoves, min_eq_right hhi]
  | cons d ds ih =>
    obtain ⟨hd, hds⟩ := List.forall_mem_cons.mp hds
    have hsum := List.sum_nonneg hds
    have hone : clampedMove lo hi false true d x = min hi (x + d) := rfl
    rw [clampedMoves_cons, hone, ih hds (min_le_left _ _), List.sum_cons]
    simp only [min_def]
    split_ifs <;> linarith

/-- A move down and up again: back to where it started, or up from the lower wall. -/
theorem clampedMove_both (lo d : K) (hhi : x ≤ hi) :
    clampedMove lo hi true true d x = max x (min hi (lo + d)) := by
  rw [clampedMove, if_pos rfl, if_pos rfl]
  rw [← max_add_add_right, sub_add_cancel, min_max_distrib_left, min_eq_right hhi, max_comm]

/-- Where a move ends below `k`, which is not above the upper wall. -/
theorem clampedMove_lt_iff {k : K} (lo d : K) (neg pos : Bool) (hk : k ≤ hi) (hhi : x ≤ hi) :
    clampedMove lo hi neg pos d x < k ↔
      match neg, pos with
      | false, false => x < k
      | false, true => x + d < k
      | true, false => lo < k ∧ x - d < k
      | true, true => x < k ∧ lo + d < k := by
  have hwall : ∀ y, min hi y < k ↔ y < k := fun y =>
    min_lt_iff.trans (or_iff_right (not_lt.mpr hk))
  cases neg <;> cases pos
  · rfl
  · exact hwall _
  · exact max_lt_iff
  · rw [clampedMove_both lo d hhi, max_lt_iff, hwall]

/-- Only a move away from the upper wall can end above it, by a negative distance. -/
theorem lt_clampedMove_iff {k : K} (lo d : K) (neg pos : Bool) (hk : hi ≤ k) (hhi : x ≤ hi) :
    k < clampedMove lo hi neg pos d x ↔ neg = true ∧ pos = false ∧ (k < lo ∨ k < x - d) := by
  have hwall : ∀ y, ¬ k < min hi y := fun y => not_lt.mpr ((min_le_left hi y).trans hk)
  have hstart : ¬ k < x := not_lt.mpr (hhi.trans hk)
  cases neg <;> cases pos
  · simpa [clampedMove] using hhi.trans hk
  · simpa [clampedMove] using hwall (x + d)
  · simp [clampedMove]
  · rw [clampedMove_both lo d hhi]
    simp [hwall, hstart, -lt_inf_iff]

/-- In both directions only the longest move counts. -/
theorem clampedMoves_both (hds : ∀ d ∈ ds, 0 ≤ d) (hlo : lo ≤ x) (hhi : x ≤ hi) :
    clampedMoves lo hi true true ds x = max x (min hi (lo + longest ds)) := by
  induction ds generalizing x with
  | nil => simp [clampedMoves, longest, hlo]
  | cons d ds ih =>
    obtain ⟨hd, hds⟩ := List.forall_mem_cons.mp hds
    obtain ⟨hlo', hhi'⟩ := clampedMove_mem true true hd hlo hhi
    have hlongest : longest (d :: ds) = max d (longest ds) := rfl
    rw [clampedMoves_cons, ih hds hlo' hhi', clampedMove_both lo d hhi, hlongest, ← max_add_add_left,
      min_max_distrib_left, max_assoc]

/-- Some moves in both directions come out as one: it starts at the upper wall, it does not reach the
    lower wall, one of the moves reaches the upper wall from the lower, or all the others are none. -/
def Resumes (lo hi x : K) (ds : List K) : Prop :=
  x = hi ∨ ds.sum ≤ x - lo ∨ hi - lo ≤ longest ds ∨ longest ds = ds.sum

theorem longest_le_sum (hds : ∀ d ∈ ds, 0 ≤ d) : longest ds ≤ ds.sum := by
  induction ds with
  | nil => exact le_refl _
  | cons d ds ih =>
    obtain ⟨hd, hds⟩ := List.forall_mem_cons.mp hds
    have hle := ih hds
    have hsum := List.sum_nonneg hds
    rw [List.sum_cons]
    have hd' : d ≤ d + ds.sum := by linarith
    have hrest : longest ds ≤ d + ds.sum := by linarith
    exact max_le hd' hrest

/-- Some moves come out as one by their sum, unless both directions are wanted and they do not
    resume. -/
theorem clampedMoves_eq_iff (neg pos : Bool) (hds : ∀ d ∈ ds, 0 ≤ d) (hlo : lo ≤ x) (hhi : x ≤ hi) :
    clampedMoves lo hi neg pos ds x = clampedMove lo hi neg pos ds.sum x ↔
      (neg = true → pos = true → Resumes lo hi x ds) := by
  have hsum := List.sum_nonneg hds
  cases neg with
  | false =>
    cases pos with
    | false =>
      have hstay : clampedMoves lo hi false false ds x = x := by
        induction ds with
        | nil => rfl
        | cons d ds ih =>
          obtain ⟨-, hds⟩ := List.forall_mem_cons.mp hds
          exact ih hds (List.sum_nonneg hds)
      simp [hstay, clampedMove]
    | true => simp [clampedMoves_pos hds hhi, clampedMove]
  | true =>
    cases pos with
    | false => simp [clampedMoves_neg hds hlo, clampedMove]
    | true =>
      have hle := longest_le_sum hds
      rw [clampedMoves_both hds hlo hhi, clampedMove_both lo _ hhi, Resumes]
      simp only [forall_const]
      constructor
      · intro h
        by_contra hnot
        simp only [not_or, not_le] at hnot
        obtain ⟨hne, hreach, hshort, hmore⟩ := hnot
        have hlt : x < hi := lt_of_le_of_ne hhi hne
        have hless : longest ds < ds.sum := lt_of_le_of_ne hle hmore
        simp only [max_def, min_def] at h
        split_ifs at h <;> linarith
      · rintro (rfl | hreach | hshort | hmore)
        · simp
        · have h₁ : min hi (lo + longest ds) ≤ x := (min_le_right _ _).trans (by linarith)
          have h₂ : min hi (lo + ds.sum) ≤ x := (min_le_right _ _).trans (by linarith)
          rw [max_eq_left h₁, max_eq_left h₂]
        · rw [min_eq_left (by linarith), min_eq_left (by linarith)]
        · rw [hmore]

end

end DistGame
