import DistGame.Game.Motion

/-! A player's shot. It starts one unit below the player and falls, and is held at the lower edge of
    the world like anything that moves down. So it stays clear of a player that is more than its own
    height above that edge, and is put inside any other. -/

namespace DistGame
namespace GameObject

/-- An event at `timeDelta` after the last one finds the player above the strip at the lower edge that
    a shot ends up in. Running away from the edge takes it out of the world only if the time comes out
    negative. -/
def ClearOfEdge (o : GameObject) (timeDelta : Int64) : Prop :=
  match held o.latestEvent.input up, held o.latestEvent.input down with
  | false, false => o.rect.y + o.rect.height < maxY - 1
  | false, true => o.rect.y + o.rect.height + playerSpeed * timeDelta.toInt < maxY - 1
  | true, false => (o.rect.height < maxY - 1 ∧
      o.rect.y + o.rect.height - playerSpeed * timeDelta.toInt < maxY - 1) ∨
        maxY < o.rect.y - playerSpeed * timeDelta.toInt
  | true, true => o.rect.y + o.rect.height < maxY - 1 ∧
      o.rect.height + playerSpeed * timeDelta.toInt < maxY - 1

/-- Where the shot of a player is seen. -/
theorem shot_location (o : GameObject) (event : GameEvent) (id : UInt32) (elapsed : Int64) :
    (o.shot event id).getAdjustedRect elapsed = ⟨o.rect.x,
      min (maxY - 1) (o.rect.y + o.rect.height + 1 + projectileSpeed * elapsed.toInt), 1, 1⟩ := by
  have htype : (o.shot event id).type = projectile := rfl
  rw [getAdjustedRect, htype, if_neg projectile_ne_player, if_pos rfl, moved_eq]
  obtain ⟨hl, hr, hu, hd⟩ : held down left = false ∧ held down right = false ∧
      held down up = false ∧ held down down = true := by decide
  simp [shot, clampedMove, hl, hr, hu, hd]

/-- A shot meets the one who fired it at some time exactly if that one reaches into the strip at the
    lower edge. -/
theorem shot_misses {o : GameObject} (hn : o.rect.Nonneg) (event : GameEvent) (id : UInt32) :
    (∀ elapsed : Int64, 0 ≤ elapsed →
      ((o.shot event id).getAdjustedRect elapsed).intersects o.rect = false) ↔
      o.rect.y + o.rect.height < maxY - 1 ∨ maxY < o.rect.y := by
  obtain ⟨hw, hh⟩ := hn
  have hmeets : ∀ elapsed : Int64,
      ((o.shot event id).getAdjustedRect elapsed).intersects o.rect = true ↔
        o.rect.y ≤ min (maxY - 1)
            (o.rect.y + o.rect.height + 1 + projectileSpeed * elapsed.toInt) + 1 ∧
          min (maxY - 1) (o.rect.y + o.rect.height + 1 + projectileSpeed * elapsed.toInt) ≤
            o.rect.y + o.rect.height := by
    intro elapsed
    rw [shot_location, Rectangle.intersects_iff]
    constructor
    · rintro ⟨-, -, hmeet⟩
      exact hmeet
    · exact fun hmeet => ⟨by simp only; linarith, by simp only; linarith, hmeet⟩
  constructor
  · -- at the edge the shot is in its way already when it is fired
    intro h
    by_contra hreach
    rw [not_or, not_lt, not_lt] at hreach
    have hzero : (0 : Int64).toInt = 0 := rfl
    refine Bool.eq_false_iff.mp (h 0 (Int64.le_refl 0)) ((hmeets 0).mpr ?_)
    rw [hzero, Int.cast_zero, mul_zero, add_zero, min_eq_left (by linarith)]
    exact ⟨by linarith, hreach.1⟩
  · rintro hclear elapsed helapsed
    rw [Bool.eq_false_iff, ne_eq, hmeets]
    rintro ⟨htop, hbottom⟩
    have hfall : 0 ≤ projectileSpeed * (elapsed.toInt : ℚ) := by
      have htime : (0 : ℚ) ≤ elapsed.toInt := by
        exact_mod_cast Int64.le_iff_toInt_le.mp helapsed
      have hspeed : (0 : ℚ) ≤ projectileSpeed := by norm_num [projectileSpeed]
      exact mul_nonneg hspeed htime
    rcases hclear with hclear | habove
    · rcases min_le_iff.mp hbottom with hedge | hbelow
      · linarith
      · linarith
    · have := min_le_left (maxY - 1)
        (o.rect.y + o.rect.height + 1 + projectileSpeed * (elapsed.toInt : ℚ))
      linarith

/-- Where the event finds the player, from where it was. -/
theorem clearOfEdge_iff {o : GameObject} (hp : o.type = player) (hw : InWorld o.rect)
    (hn : o.rect.Nonneg) (event : GameEvent) :
    ((o.advance event).rect.y + (o.advance event).rect.height < maxY - 1 ∨
      maxY < (o.advance event).rect.y) ↔
    o.ClearOfEdge (event.timestamp - o.latestEvent.timestamp) := by
  obtain ⟨-, hh⟩ := hn
  have hbottom := hw.down
  have hhi : o.rect.y ≤ maxY - o.rect.height := by linarith
  have hstrip : maxY - 1 - o.rect.height ≤ maxY - o.rect.height := by linarith
  have hedge : ¬ maxY < 0 := by norm_num [maxY]
  rw [advance_player hp, getAdjustedRect, if_pos hp, moved_eq, ClearOfEdge]
  dsimp only
  rw [← lt_sub_iff_add_lt, clampedMove_lt_iff _ _ _ _ hstrip hhi,
    lt_clampedMove_iff _ _ _ _ (sub_le_self maxY hh) hhi]
  have hzero : minY = 0 := rfl
  cases held o.latestEvent.input up <;> cases held o.latestEvent.input down <;>
    simp only [reduceCtorEq, false_and, or_false, true_and, hedge, false_or, hzero]
  · exact lt_sub_iff_add_lt
  · constructor <;> intro h <;> linarith
  · refine or_congr (and_congr ?_ ?_) Iff.rfl <;> constructor <;> intro h <;> linarith
  · refine and_congr ?_ ?_ <;> constructor <;> intro h <;> linarith

/-- A player of the world that shoots creates one projectile, and never meets it exactly if the event
    finds it above the strip at the lower edge. -/
theorem shot_misses_iff {o : GameObject} (hp : o.type = player) (hw : InWorld o.rect)
    (hn : o.rect.Nonneg) (event : GameEvent) (hs : held event.input shoot = true) (id : UInt32)
    (createdObjects : List GameObject) (deletedObjects : Option (List UInt32)) :
    (∃ p, (o.applyEvent event id (some createdObjects) deletedObjects).2.1 =
        some (createdObjects ++ [p]) ∧ p.type = projectile ∧
      ∀ elapsed : Int64, 0 ≤ elapsed → (p.getAdjustedRect elapsed).intersects
        (o.applyEvent event id (some createdObjects) deletedObjects).1.rect = false) ↔
    o.ClearOfEdge (event.timestamp - o.latestEvent.timestamp) := by
  have hcreated : (o.applyEvent event id (some createdObjects) deletedObjects).2.1 =
      some (createdObjects ++ [(o.advance event).shot event id]) := by
    simp [applyEvent, created, hp, hs]
  have hsize : (o.advance event).rect.Nonneg := by
    rw [advance_player hp, getAdjustedRect, if_pos hp, moved_eq]
    exact hn
  rw [← clearOfEdge_iff hp hw hn, ← shot_misses hsize event id, hcreated]
  constructor
  · rintro ⟨p, hlist, -, hmiss⟩
    obtain rfl := List.singleton_inj.mp (List.append_cancel_left (Option.some.inj hlist))
    exact hmiss
  · exact fun hmiss => ⟨_, rfl, rfl, hmiss⟩

/-- A player at the lower edge. -/
def atEdge : GameObject := ⟨7, 1, ⟨10, 90, 2, 10⟩, player, ⟨0, 0⟩⟩

/-- Its shot is inside it at once. -/
theorem shot_hits_shooter :
    InWorld atEdge.rect ∧ atEdge.rect.Nonneg ∧ held shoot shoot = true ∧
      (atEdge.applyEvent ⟨shoot, 100⟩ 8 (some []) (some [])).2.1 =
        some [⟨8, 1, ⟨10, 101, 1, 1⟩, projectile, ⟨down, 100⟩⟩] ∧
      ((⟨8, 1, ⟨10, 101, 1, 1⟩, projectile, ⟨down, 100⟩⟩ : GameObject).getAdjustedRect 0).intersects
        (atEdge.applyEvent ⟨shoot, 100⟩ 8 (some []) (some [])).1.rect = true := by
  decide +kernel

/-- Half way up it never is. -/
theorem shot_misses_iff_above :
    ∃ p, ({ atEdge with rect := ⟨10, 45, 2, 10⟩ }.applyEvent ⟨shoot, 100⟩ 8 (some []) none).2.1 =
        some [p] ∧ ∀ elapsed : Int64, 0 ≤ elapsed → (p.getAdjustedRect elapsed).intersects
          ⟨10, 45, 2, 10⟩ = false := by
  obtain ⟨p, hp, -, hmiss⟩ := (shot_misses_iff (o := { atEdge with rect := ⟨10, 45, 2, 10⟩ })
    rfl (by decide +kernel) (by decide +kernel) ⟨shoot, 100⟩ (by decide) 8 [] none).mpr
    (by show (45 : ℚ) + 10 < maxY - 1; decide +kernel)
  exact ⟨p, hp, hmiss⟩

end GameObject

end DistGame
