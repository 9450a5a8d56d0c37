import Mathlib.Tactic.Ring
import DistGame.Game.Motion

/-! What an event commits. `ApplyEvent` advances a player to where `GetAdjustedRect` saw it, and a
    projectile by a motion of its own, at the speed of a player and past the walls. Between events a
    player is extrapolated from the last one, so an event with the inputs it already holds should
    change nothing that follows. -/

namespace DistGame
namespace GameObject

/-! ### The rectangle an event starts from -/

/-- On one axis a drift by `slow` ends where a move by `fast` between the walls does. -/
def DriftAgrees (lo hi : ℚ) (neg pos : Bool) (slow fast x : ℚ) : Prop :=
  match neg, pos with
  | false, false => True
  | true, false => slow = 0 ∨ x - slow = lo
  | false, true => slow = 0 ∨ x + slow = hi
  | true, true => x = hi ∨ fast ≤ x - lo

/-- The motion of a projectile up to an event is the motion shown up to then: on each axis it stands
    still, no time has passed, or the one that is too slow has just got to the wall. -/
def Lands (o : GameObject) (timeDelta : Int64) : Prop :=
  DriftAgrees minX (maxX - o.rect.width) (held o.latestEvent.input left)
      (held o.latestEvent.input right) (playerSpeed * timeDelta.toInt)
      (projectileSpeed * timeDelta.toInt) o.rect.x ∧
    DriftAgrees minY (maxY - o.rect.height) (held o.latestEvent.input up)
      (held o.latestEvent.input down) (playerSpeed * timeDelta.toInt)
      (projectileSpeed * timeDelta.toInt) o.rect.y

/-- The two axes drift independently, and the size stays. -/
theorem drifted_eq (rect : Rectangle) (input : Int32) (d : ℚ) : drifted rect input d =
    ⟨rect.x - (if held input left then d else 0) + (if held input right then d else 0),
      rect.y - (if held input up then d else 0) + (if held input down then d else 0),
      rect.width, rect.height⟩ := by
  unfold drifted
  cases held input left <;> cases held input right <;> cases held input up <;>
    cases held input down <;> simp

/-- A drift is ten times slower than the move that is shown. -/
theorem drift_eq_iff {lo hi x : ℚ} (neg pos : Bool) (t : ℚ) (hlo : lo ≤ x) (hhi : x ≤ hi) :
    x - (if neg then playerSpeed * t else 0) + (if pos then playerSpeed * t else 0) =
        clampedMove lo hi neg pos (projectileSpeed * t) x ↔
      DriftAgrees lo hi neg pos (playerSpeed * t) (projectileSpeed * t) x := by
  have hfast : projectileSpeed * t = 10 * (playerSpeed * t) := by
    rw [projectileSpeed, playerSpeed]
    ring
  rw [hfast]
  generalize playerSpeed * t = slow
  cases neg with
  | false =>
    cases pos with
    | false => simp [clampedMove, DriftAgrees]
    | true =>
      simp only [clampedMove, DriftAgrees, Bool.false_eq_true, if_true, if_false, min_def]
      constructor
      · intro h
        split_ifs at h
        · exact .inr (by linarith)
        · exact .inl (by linarith)
      · rintro (rfl | hwall) <;> split_ifs <;> linarith
  | true =>
    cases pos with
    | false =>
      simp only [clampedMove, DriftAgrees, Bool.false_eq_true, if_true, if_false, max_def]
      constructor
      · intro h
        split_ifs at h
        · exact .inl (by linarith)
        · exact .inr (by linarith)
      · rintro (rfl | hwall) <;> split_ifs <;> linarith
    | true =>
      rw [clampedMove_both lo _ hhi, DriftAgrees, if_pos rfl, sub_add_cancel]
      constructor
      · intro h
        have hle : min hi (lo + 10 * slow) ≤ x := max_eq_left_iff.mp h.symm
        rcases min_le_iff.mp hle with hwall | hreach
        · exact .inl (le_antisymm hhi hwall)
        · exact .inr (by linarith)
      · rintro (rfl | hreach)
        · exact (max_eq_left (min_le_left _ _)).symm
        · exact (max_eq_left ((min_le_right _ _).trans (by linarith))).symm

/-- An event starts from the rectangle that was shown for its instant, except for a projectile that
    does not happen to land there. -/
theorem commits_location_iff {o : GameObject} (h : InWorld o.rect) (event : GameEvent) (id : UInt32)
    (createdObjects : Option (List GameObject)) (deletedObjects : Option (List UInt32)) :
    (o.applyEvent event id createdObjects deletedObjects).1.rect = o.getLocation event.timestamp ↔
      (o.type = projectile → o.Lands (event.timestamp - o.latestEvent.timestamp)) := by
  show (o.advance event).rect = o.getAdjustedRect _ ↔ _
  by_cases hp : o.type = player
  · simp [advance_player hp, hp, projectile_ne_player.symm]
  · by_cases hq : o.type = projectile
    · have hx : o.rect.x ≤ maxX - o.rect.width := by have := h.right; linarith
      have hy : o.rect.y ≤ maxY - o.rect.height := by have := h.down; linarith
      rw [advance_projectile hq, getAdjustedRect, if_neg hp, if_pos hq, moved_eq, drifted_eq,
        Rectangle.mk.injEq, drift_eq_iff _ _ _ h.left hx, drift_eq_iff _ _ _ h.up hy]
      simp [Lands, hq]
    · simp [advance_other hp hq, getAdjustedRect, hp, hq]

/-- A falling projectile. -/
def falling (y : ℚ) : GameObject := ⟨7, 1, ⟨50, y, 1, 1⟩, projectile, ⟨down, 0⟩⟩

/-- A projectile that has fallen for 100 ms is shown one unit further down and committed a tenth of a
    unit further down. -/
theorem projectile_teleports :
    InWorld (falling 50).rect ∧ (falling 50).getLocation 100 = ⟨50, 51, 1, 1⟩ ∧
      ((falling 50).applyEvent ⟨right, 100⟩ 0 (some []) (some [])).1.rect = ⟨50, 50 + 1 / 10, 1, 1⟩ := by
  decide +kernel

/-- Just above the lower edge both have got there. -/
theorem commits_location_iff_edge :
    ((falling (989 / 10)).applyEvent ⟨right, 100⟩ 0 (some []) (some [])).1.rect =
      (falling (989 / 10)).getLocation 100 := by
  refine (commits_location_iff (by decide +kernel) _ _ _ _).mpr fun _ => ⟨trivial, .inr ?_⟩
  decide +kernel

/-! ### An input that is sent again -/

/-- The two inputs hold the same directions. -/
def SameMoves (i j : Int32) : Prop :=
  held i left = held j left ∧ held i right = held j right ∧ held i up = held j up ∧
    held i down = held j down

instance (i j : Int32) : Decidable (SameMoves i j) := inferInstanceAs (Decidable (_ ∧ _ ∧ _ ∧ _))

/-- The object after some updates, each an input and the time since the last one. -/
def updated (o : GameObject) (updates : List (Int32 × Int64)) : GameObject :=
  updates.foldl (fun o u => o.advance ⟨u.1, o.latestEvent.timestamp + u.2⟩) o

/-- How far a player moves in each of some times. -/
def distances (times : List Int64) : List ℚ := times.map fun t => playerSpeed * t.toInt

/-- The moves of a player come out as one: on each axis on which both directions are held they
    resume. -/
def ResumesMoves (o : GameObject) (times : List Int64) : Prop :=
  (held o.latestEvent.input left = true → held o.latestEvent.input right = true →
    Resumes minX (maxX - o.rect.width) o.rect.x (distances times)) ∧
  (held o.latestEvent.input up = true → held o.latestEvent.input down = true →
    Resumes minY (maxY - o.rect.height) o.rect.y (distances times))

theorem moved_congr {i j : Int32} (h : SameMoves i j) (rect : Rectangle) (d : ℚ) :
    moved rect i d = moved rect j d := by
  obtain ⟨hl, hr, hu, hd⟩ := h
  rw [moved_eq, moved_eq, hl, hr, hu, hd]

/-- Several motions with one input, axis by axis. -/
theorem moved_foldl (input : Int32) (ds : List ℚ) (rect : Rectangle) :
    ds.foldl (fun rect d => moved rect input d) rect =
      ⟨clampedMoves minX (maxX - rect.width) (held input left) (held input right) ds rect.x,
        clampedMoves minY (maxY - rect.height) (held input up) (held input down) ds rect.y,
        rect.width, rect.height⟩ := by
  induction ds generalizing rect with
  | nil => rfl
  | cons d ds ih =>
    rw [List.foldl_cons, ih, moved_eq]
    rfl

/-- Updates with the directions that a player already holds. -/
theorem updated_player {input : Int32} (updates : List (Int32 × Int64)) {o : GameObject}
    (hp : o.type = player) (ho : SameMoves o.latestEvent.input input)
    (hsame : ∀ u ∈ updates, SameMoves u.1 input) :
    (o.updated updates).type = player ∧ SameMoves (o.updated updates).latestEvent.input input ∧
      (o.updated updates).rect =
        (distances (updates.map Prod.snd)).foldl (fun rect d => moved rect input d) o.rect := by
  induction updates generalizing o with
  | nil => exact ⟨hp, ho, rfl⟩
  | cons u updates ih =>
    have hadvance := advance_player hp ⟨u.1, o.latestEvent.timestamp + u.2⟩
    have helapsed : o.latestEvent.timestamp + u.2 - o.latestEvent.timestamp = u.2 := by grind
    have hrect : (o.advance ⟨u.1, o.latestEvent.timestamp + u.2⟩).rect =
        moved o.rect input (playerSpeed * u.2.toInt) := by
      rw [hadvance]
      simp only [helapsed, getAdjustedRect, if_pos hp]
      exact moved_congr ho _ _
    have hlatest : (o.advance ⟨u.1, o.latestEvent.timestamp + u.2⟩).latestEvent.input = u.1 := by
      rw [hadvance]
    obtain ⟨htype, hinput, hall⟩ := ih (o := o.advance ⟨u.1, o.latestEvent.timestamp + u.2⟩)
      ((advance_type o _).trans hp) (by rw [hlatest]; exact hsame u List.mem_cons_self)
      fun v hv => hsame v (List.mem_cons_of_mem u hv)
    refine ⟨htype, hinput, hall.trans ?_⟩
    rw [hrect]
    rfl

/-- Times that add up within 64 bits add up without wrapping around. -/
theorem toInt_sum {times : List Int64} (hpos : ∀ t ∈ times, 0 ≤ t)
    (hfits : (times.map Int64.toInt).sum < 2 ^ 63) :
    times.sum.toInt = (times.map Int64.toInt).sum ∧ 0 ≤ (times.map Int64.toInt).sum := by
  induction times with
  | nil => exact ⟨rfl, le_refl _⟩
  | cons t times ih =>
    simp only [List.map_cons, List.sum_cons] at hfits ⊢
    have ht : 0 ≤ t.toInt := Int64.le_iff_toInt_le.mp (hpos t List.mem_cons_self)
    have hrest : 0 ≤ (times.map Int64.toInt).sum := by
      refine List.sum_nonneg fun n hn => ?_
      obtain ⟨t', ht', rfl⟩ := List.mem_map.mp hn
      exact Int64.le_iff_toInt_le.mp (hpos t' (List.mem_cons_of_mem t ht'))
    obtain ⟨hsum, -⟩ := ih (fun t' ht' => hpos t' (List.mem_cons_of_mem t ht')) (by omega)
    have hle : 0 ≤ times.sum := Int64.le_iff_toInt_le.mpr (by rw [hsum]; exact hrest)
    refine ⟨?_, by omega⟩
    rw [toInt_add_of_lt hle (by omega), hsum]

theorem distances_sum (times : List Int64) :
    (distances times).sum = playerSpeed * ((times.map Int64.toInt).sum : ℤ) := by
  induction times with
  | nil => simp [distances]
  | cons t times ih =>
    rw [distances, List.map_cons, List.sum_cons, ← distances, ih, List.map_cons, List.sum_cons]
    push_cast
    ring

theorem distances_nonneg {times : List Int64} (hpos : ∀ t ∈ times, 0 ≤ t) :
    ∀ d ∈ distances times, 0 ≤ d := by
  intro d hd
  obtain ⟨t, ht, rfl⟩ := List.mem_map.mp hd
  have htime : (0 : ℚ) ≤ t.toInt := by exact_mod_cast Int64.le_iff_toInt_le.mp (hpos t ht)
  have hspeed : (0 : ℚ) ≤ playerSpeed := by norm_num [playerSpeed]
  exact mul_nonneg hspeed htime

/-- A player in the world that is sent the directions it holds again and again, and is then
    extrapolated by `d`, is where it is extrapolated to at once, exactly if its moves come out as
    one. -/
theorem resent_iff {o : GameObject} (hp : o.type = player) (hw : InWorld o.rect)
    (updates : List (Int32 × Int64)) {d : Int64}
    (hsame : ∀ u ∈ updates, SameMoves u.1 o.latestEvent.input)
    (hpos : ∀ t ∈ updates.map Prod.snd ++ [d], 0 ≤ t)
    (hfits : ((updates.map Prod.snd ++ [d]).map Int64.toInt).sum < 2 ^ 63) :
    (o.updated updates).getAdjustedRect d =
        o.getAdjustedRect (updates.map Prod.snd ++ [d]).sum ↔
      o.ResumesMoves (updates.map Prod.snd ++ [d]) := by
  obtain ⟨htype, hinput, hrect⟩ := updated_player updates hp ⟨rfl, rfl, rfl, rfl⟩ hsame
  have hx : o.rect.x ≤ maxX - o.rect.width := by have := hw.right; linarith
  have hy : o.rect.y ≤ maxY - o.rect.height := by have := hw.down; linarith
  have hds := distances_nonneg hpos
  -- the last extrapolation is one more move
  have hlast : (o.updated updates).getAdjustedRect d =
      (distances (updates.map Prod.snd ++ [d])).foldl
        (fun rect d => moved rect o.latestEvent.input d) o.rect := by
    rw [getAdjustedRect, if_pos htype, moved_congr hinput, hrect]
    simp [distances]
  rw [hlast, moved_foldl, getAdjustedRect, if_pos hp, moved_eq, (toInt_sum hpos hfits).1,
    ← distances_sum, Rectangle.mk.injEq, clampedMoves_eq_iff _ _ hds hw.left hx,
    clampedMoves_eq_iff _ _ hds hw.up hy, ResumesMoves]
  simp

/-- A player that holds left and right, one unit from the left edge. -/
def torn : GameObject := ⟨7, 1, ⟨1, 10, 2, 2⟩, player, ⟨left ||| right, 0⟩⟩

/-- With one more update after 600 ms it stays for 1200 ms, without it moves to the right. -/
theorem resent_elsewhere :
    InWorld torn.rect ∧ SameMoves (left ||| right) torn.latestEvent.input ∧
      (torn.updated [(left ||| right, 600)]).getAdjustedRect 600 = ⟨1, 10, 2, 2⟩ ∧
      torn.getAdjustedRect (600 + 600) = ⟨1 + 1 / 5, 10, 2, 2⟩ := by
  decide +kernel

/-- Holding left alone it ends up at the edge either way. -/
theorem resent_iff_left :
    ({ torn with latestEvent := ⟨left, 0⟩ }.updated [(left ||| shoot, 600)]).getAdjustedRect 600 =
      { torn with latestEvent := ⟨left, 0⟩ }.getAdjustedRect ([600, 600] : List Int64).sum := by
  have hfits : (600 : ℤ) + (600 + 0) < 2 ^ 63 := by norm_num
  have hsame : ∀ u ∈ [((left ||| shoot, 600) : Int32 × Int64)], SameMoves u.1 left :=
    List.forall_mem_singleton.mpr (by decide)
  have hpos : ∀ t ∈ [(600 : Int64), 600], 0 ≤ t :=
    List.forall_mem_cons.mpr ⟨by decide, List.forall_mem_singleton.mpr (by decide)⟩
  exact (resent_iff (o := { torn with latestEvent := ⟨left, 0⟩ }) (d := 600) rfl (by decide +kernel)
    [(left ||| shoot, 600)] hsame hpos hfits).mpr
    ⟨fun _ hr => absurd hr (by decide), fun hu => absurd hu (by decide)⟩

end GameObject

end DistGame
