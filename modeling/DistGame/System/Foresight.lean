import DistGame.Game.Speed
import DistGame.Locator.Rendezvous
import DistGame.Server.Publishing
import DistGame.System.Confined

/-! How far ahead a server has to look. Whatever events a player gets, it moves at most at the speed of a
    player, since an event starts from where the player was shown. So two players that meet within 1500
    ms match at the locator now, whatever is sent to them in between, and between two frames that are
    not too far apart no projectile passes through a player. -/

namespace DistGame

theorem Later.refl (t : Int64) : Later t t :=
  ⟨Int64.le_refl t, by rw [Int64.sub_self]; exact Int64.le_refl 0⟩

/-- The time between two readings in order. -/
theorem Later.toInt_sub {t u : Int64} (h : Later t u) : (u - t).toInt = u.toInt - t.toInt := by
  have hle := Int64.le_iff_toInt_le.mp h.1
  have hpos := Int64.le_iff_toInt_le.mp h.2
  have h₁ := t.le_toInt
  have h₂ := u.toInt_lt
  rw [Int64.toInt_sub, Int64.toInt_zero, Int.bmod_def] at hpos
  rw [Int64.toInt_sub, Int.bmod_def]
  omega

namespace Colyseus
open Rectangle GameObject Quadtree

/-- Server `c` at reading `t` and the same server as `c'` at reading `t'`. It was started as `c₀`, its
    inputs up to `t` and then up to `t'` only spawn players inside the world, their readings are in order
    and never 2^63 ms apart, and no guid of a primary at `t` is drawn again. -/
structure Course (c₀ c c' : Colyseus) (before after : List Input) (t t' : Int64) : Prop where
  fresh : c₀.Fresh
  inside : ∀ request now, Input.spawn request now ∈ before ++ after → ∀ state ∈ request.gameObject,
    state.objectType = player → state.Inside
  clock : (before.filterMap Input.time ++ t :: after.filterMap Input.time ++ [t']).Pairwise Later
  reach : run step c₀ before = some c
  onward : run step c after = some c'
  redraws : ∀ n, c.drawn ≤ n → n < c'.drawn → c.primaries.lookup (c.guids n) = none

/-- Steps only draw more of the same guids. -/
theorem step_draws {c c' : Colyseus} {input : Input} (h : c.InStep) (hstep : c.step input = some c') :
    c'.guids = c.guids ∧ c.drawn ≤ c'.drawn := by
  obtain ⟨⟨_, packets⟩, hreact, rfl⟩ := Option.map_eq_some_iff.mp hstep
  have hreaction := react_reaction h.keyed h.replicas hreact
  exact ⟨hreaction.guids, hreaction.drawn⟩

/-- So do runs. -/
theorem run_draws {c c' : Colyseus} {inputs : List Input} (h : c.InStep)
    (hrun : run step c inputs = some c') : c'.guids = c.guids ∧ c.drawn ≤ c'.drawn := by
  have hinv := run_preserves (P := fun d => d.InStep ∧ d.guids = c.guids ∧ c.drawn ≤ d.drawn)
    (fun d input d' hd hstep => by
      obtain ⟨hin, hguids, hdrawn⟩ := hd
      obtain ⟨hguids', hdrawn'⟩ := step_draws hin hstep
      exact ⟨(step_inStep hin hstep).1, hguids'.trans hguids, hdrawn.trans hdrawn'⟩)
    ⟨h, rfl, le_refl _⟩ hrun
  exact hinv.2

/-- An object extrapolated from one reading to a later one. -/
theorem extrapolated_near {o : GameObject} {t t' : Int64} (hlast : Later o.latestEvent.timestamp t)
    (h : Later t t') (hall : Later o.latestEvent.timestamp t') :
    Near (speed o.type * (t' - t).toInt) (o.getLocation t) (o.getLocation t') := by
  have hfits : (t - o.latestEvent.timestamp).toInt + (t' - t).toInt < 2 ^ 63 := by
    have hlt := (t' - o.latestEvent.timestamp).toInt_lt
    rw [hall.toInt_sub] at hlt
    rw [hlast.toInt_sub, h.toInt_sub]
    omega
  have hnear := getLocation_near o h.2 hfits
  have heq : t + (t' - t) = t' := by grind
  rwa [heq] at hnear

/-- At its reading an event leaves a player where it was shown. -/
theorem advance_location {o : GameObject} (bits : Int32) {now : Int64} (hp : o.type = player)
    (hin : InWorld o.rect) (hlast : Later o.latestEvent.timestamp now) :
    (o.advance ⟨bits, now⟩).getLocation now = o.getLocation now := by
  have hmoved : InWorld (o.getLocation now) := (inWorld_location hp hin hlast).1
  have hzero : (now - now).toInt = 0 := by
    rw [Int64.sub_self]
    rfl
  rw [advance_player hp, getLocation, getAdjustedRect, if_pos hp]
  simp only [hzero, Int.cast_zero, mul_zero]
  exact moved_zero hmoved bits

section
variable {c₀ c c' : Colyseus} {before after : List Input} {t t' : Int64} {k : UInt32}
  {x x' : GameObject}

/-- The course up to the reading of its last input. -/
theorem Course.init {c₁ : Colyseus} {input : Input} {now : Int64} (hc₁ : run step c after = some c₁)
    (hnow : input.time = some now) (h : Course c₀ c c' before (after ++ [input]) t t')
    (hdrawn : c₁.drawn ≤ c'.drawn) : Course c₀ c c₁ before after t now ∧ Later now t' ∧ Later t t' := by
  have hclock := h.clock
  rw [List.filterMap_append, List.filterMap_cons_some hnow, List.filterMap_nil, ← List.cons_append,
    ← List.append_assoc] at hclock
  obtain ⟨hfirst, -, hlast⟩ := List.pairwise_append.mp hclock
  refine ⟨⟨h.fresh, fun request u hmem => h.inside request u ?_, by simpa using hfirst, h.reach, hc₁,
    fun n hn hlt => h.redraws n hn (hlt.trans_le hdrawn)⟩, ?_, ?_⟩
  · rw [← List.append_assoc]
    exact List.mem_append_left _ hmem
  · exact hlast now (by simp) t' List.mem_cons_self
  · exact hlast t (by simp) t' List.mem_cons_self

/-- The course without its last input, which does not move the clock. -/
theorem Course.shorter {c₁ : Colyseus} {input : Input} (hc₁ : run step c after = some c₁)
    (h : Course c₀ c c' before (after ++ [input]) t t') (hdrawn : c₁.drawn ≤ c'.drawn) :
    Course c₀ c c₁ before after t t' := by
  have hclock := h.clock
  rw [List.filterMap_append] at hclock
  refine ⟨h.fresh, fun request u hmem => h.inside request u ?_, hclock.sublist ?_, h.reach, hc₁,
    fun n hn hlt => h.redraws n hn (hlt.trans_le hdrawn)⟩
  · rw [← List.append_assoc]
    exact List.mem_append_left _ hmem
  · simp

/-- A player of a run has had its last event before the next reading. -/
theorem settled_run {inputs : List Input} (h₀ : c₀.Fresh)
    (hspawn : ∀ request now, Input.spawn request now ∈ inputs → ∀ state ∈ request.gameObject,
      state.objectType = player → state.Inside)
    (hclock : (inputs.filterMap Input.time ++ [t]).Pairwise Later) (hrun : run step c₀ inputs = some c)
    (hx : c.primaries.lookup k = some x) (hp : x.type = player) :
    InWorld x.rect ∧ x.rect.Nonneg ∧ Later x.latestEvent.timestamp t := by
  obtain ⟨hreadings, -, hlast⟩ := List.pairwise_append.mp hclock
  have hconfined := run_confined h₀ hspawn hreadings hrun hx hp
  exact ⟨hconfined.inWorld, hconfined.nonneg, hlast _ hconfined.last t List.mem_cons_self⟩

/-- A player at the first reading of a course. -/
theorem Course.settled (h : Course c₀ c c' before after t t') (hx : c.primaries.lookup k = some x)
    (hp : x.type = player) :
    InWorld x.rect ∧ x.rect.Nonneg ∧ Later x.latestEvent.timestamp t := by
  have hspawn : ∀ request now, Input.spawn request now ∈ before → ∀ state ∈ request.gameObject,
      state.objectType = player → state.Inside :=
    fun request now hmem => h.inside request now (List.mem_append_left _ hmem)
  exact settled_run h.fresh hspawn (h.clock.sublist (by simp)) h.reach hx hp

/-- A player at the last reading of a course. -/
theorem Course.settled' (h : Course c₀ c c' before after t t')
    (hx' : c'.primaries.lookup k = some x') (hp : x'.type = player) :
    InWorld x'.rect ∧ x'.rect.Nonneg ∧ Later x'.latestEvent.timestamp t' := by
  have hrun : run step c₀ (before ++ after) = some c' :=
    run_append_eq_some.mpr ⟨c, h.reach, h.onward⟩
  exact settled_run h.fresh h.inside (h.clock.sublist (by simp)) hrun hx' hp

/-- An event leaves a player where it was shown, so a run moves it no faster than the clock does. -/
theorem Course.near (h : Course c₀ c c' before after t t')
    (hx : c.primaries.lookup k = some x) (hx' : c'.primaries.lookup k = some x')
    (hp : x'.type = player) :
    x.type = player ∧
      Near (playerSpeed * (t' - t).toInt) (x.getLocation t) (x'.getLocation t') := by
  induction after using List.reverseRecOn generalizing c' x' t' with
  | nil =>
    obtain rfl : c = c' := Option.some.inj h.onward
    obtain rfl : x = x' := Option.some.inj (hx.symm.trans hx')
    have hlater : Later t t' := (List.pairwise_append.mp h.clock).2.2 t (by simp) t' (by simp)
    refine ⟨hp, ?_⟩
    rw [← speed_player, ← hp]
    exact extrapolated_near (h.settled hx hp).2.2 hlater (h.settled' hx hp).2.2
  | append_singleton after input ih =>
    obtain ⟨c₁, hc₁, hlast⟩ := run_append_eq_some.mp h.onward
    obtain ⟨c₂, hstep, hend⟩ := run_cons_eq_some.mp hlast
    cases hend
    have hin := (run_inStep (run_inStep h.fresh.inStep h.reach).1 hc₁).1
    obtain ⟨hguids, hdrawn⟩ := step_draws hin hstep
    rcases step_player hin hstep hp hx' with hold | ⟨o, bits, now, hon, ho, rfl⟩ |
      ⟨request, now, state, rfl, -, hspawned, -⟩
    · exact ih (h.shorter hc₁ hdrawn) hold hp
    · have hop : o.type = player := (o.advance_type _).symm.trans hp
      obtain ⟨hupto, hafter, hall⟩ := h.init hc₁ (Input.time_eventOn hon) hdrawn
      obtain ⟨hino, -, hlast⟩ := hupto.settled' ho hop
      obtain ⟨hxp, hbefore⟩ := ih hupto ho hop
      -- the event leaves the player in place, and from there it is extrapolated
      have hthen : Near (playerSpeed * (t' - now).toInt) (o.getLocation now)
          ((o.advance ⟨bits, now⟩).getLocation t') := by
        have hlatest : (o.advance ⟨bits, now⟩).latestEvent.timestamp = now := by
          rw [advance_player hop]
        rw [← advance_location bits hop hino hlast, ← speed_player, ← hp]
        refine extrapolated_near ?_ hafter ?_
        · rw [hlatest]
          exact Later.refl now
        · rw [hlatest]
          exact hafter
      have hlater : Later t now := (List.pairwise_append.mp hupto.clock).2.2 t (by simp) now (by simp)
      have hsum : ((t' - t).toInt : ℚ) = (now - t).toInt + (t' - now).toInt := by
        rw [hall.toInt_sub, hlater.toInt_sub, hafter.toInt_sub]
        push_cast
        ring
      rw [hsum, mul_add]
      exact ⟨hxp, hbefore.trans hthen⟩
    · obtain ⟨d, -, heq⟩ := Option.map_eq_some_iff.mp hspawned
      have hk : k = c₁.guids c₁.drawn := (congrArg Prod.fst heq).symm
      have hmore : c'.drawn = c₁.drawn + 1 := (congrArg (·.2.drawn) heq).symm
      obtain ⟨hsame, hfrom⟩ := run_draws (run_inStep h.fresh.inStep h.reach).1 hc₁
      have hnone := h.redraws c₁.drawn hfrom (by omega)
      rw [← hsame, ← hk, hx] at hnone
      cases hnone

/-- Whatever events it gets, a player stays one and moves at most at the speed of a player. -/
theorem players_speed_limit (h : Course c₀ c c' before after t t')
    (hx : c.primaries.lookup k = some x) (hx' : c'.primaries.lookup k = some x')
    (hp : x'.type = player) :
    x.type = player ∧
      Near (playerSpeed * (t' - t).toInt) (x.getLocation t) (x'.getLocation t') :=
  h.near hx hx' hp

/-- A course and a player of it, by evaluation. -/
theorem course_of_decide (t t' : Int64) {g : UInt32} {P : Colyseus → GameObject → GameObject → Prop}
    [∀ c x x', Decidable (P c x x')] (hfresh : c₀.Fresh)
    (hinside : ∀ request now, Input.spawn request now ∈ before ++ after →
      ∀ state ∈ request.gameObject, state.objectType = player → state.Inside)
    (hclock : (before.filterMap Input.time ++ t :: after.filterMap Input.time ++ [t']).Pairwise Later)
    (heval : ((run step c₀ before).bind fun c => (run step c after).bind fun c' =>
      (c.primaries.lookup g).bind fun x => (c'.primaries.lookup g).map fun x' =>
        decide (c'.drawn = c.drawn ∧ P c x x')) = some true) :
    ∃ c c' x x', Course c₀ c c' before after t t' ∧ c.primaries.lookup g = some x ∧
      c'.primaries.lookup g = some x' ∧ P c x x' := by
  obtain ⟨c, hreach, heval⟩ := Option.bind_eq_some_iff.mp heval
  obtain ⟨c', honward, heval⟩ := Option.bind_eq_some_iff.mp heval
  obtain ⟨x, hx, heval⟩ := Option.bind_eq_some_iff.mp heval
  obtain ⟨x', hx', heval⟩ := Option.map_eq_some_iff.mp heval
  obtain ⟨hdrawn, hP⟩ := of_decide_eq_true heval
  refine ⟨c, c', x, x', ⟨hfresh, hinside, hclock, hreach, honward, fun n hn hlt => ?_⟩, hx, hx', hP⟩
  omega

end

/-- A player at (10, 10) that is told to go right at 100. -/
def strolls : List Input := [.event 100 right 100]

def atTen : List Input := [.spawn ⟨some ⟨0, 10, 10, 2, 2, player⟩⟩ 0]

theorem atTen_inside {inputs : List Input} (hinputs : inputs = strolls) : ∀ request now,
    Input.spawn request now ∈ atTen ++ inputs → ∀ state ∈ request.gameObject,
      state.objectType = player → state.Inside := by
  intro request now hmem state hstate _
  subst hinputs
  simp only [atTen, strolls, List.mem_append, List.mem_cons, Input.spawn.injEq, reduceCtorEq,
    List.not_mem_nil, or_false] at hmem
  obtain ⟨rfl, -⟩ := hmem
  cases hstate
  decide +kernel

/-- In 1500 ms it has gone one and a half units. -/
theorem players_speed_limit_strolls : ∃ c c' x x',
    Course (newServer 1 100) c c' atTen strolls 100 1600 ∧ c.primaries.lookup 100 = some x ∧
      c'.primaries.lookup 100 = some x' ∧ x'.getLocation 1600 = ⟨10 + 3 / 2, 10, 2, 2⟩ ∧
      Near (3 / 2) (x.getLocation 100) (x'.getLocation 1600) := by
  obtain ⟨c, c', x, x', hcourse, hx, hx', hp, hplace⟩ := course_of_decide 100 1600 (g := 100)
    (P := fun _ _ x' => x'.type = player ∧ x'.getLocation 1600 = ⟨10 + 3 / 2, 10, 2, 2⟩)
    (fresh_newServer 1 100) (atTen_inside rfl) (by decide) (by decide +kernel)
  obtain ⟨-, hnear⟩ := players_speed_limit hcourse hx hx' hp
  refine ⟨c, c', x, x', hcourse, hx, hx', hplace, hnear.mono ?_⟩
  decide +kernel

/-! ### Two players that meet -/

section
variable {c₀ c c' : Colyseus} {before after : List Input} {t t' : Int64} {k : UInt32}
  {x x' : GameObject}

/-- A settled player is shown where the locator accepts it. -/
theorem location_meets_world (hp : x.type = player) (hin : InWorld x.rect) (hnonneg : x.rect.Nonneg)
    (hlast : Later x.latestEvent.timestamp t) : world.intersects (x.getLocation t) = true := by
  obtain ⟨⟨hl, hr, hu, hd⟩, hwidth, hheight⟩ := inWorld_location hp hin hlast
  obtain ⟨hw, hh⟩ := hnonneg
  rw [intersects_iff]
  simp only [minX, maxX, minY, maxY] at hl hr hu hd
  rw [hwidth] at hr
  rw [hheight] at hd
  simp only [world]
  rw [hwidth, hheight]
  refine ⟨?_, ?_, ?_, ?_⟩ <;> linarith

/-- Two players of different servers that meet at `t'`, at most 1500 ms after `t`, match at `t`, whatever
    events they get until then: the location that the owner of the one publishes meets the area that the
    owner of the other subscribes to, the locator accepts both, and a replica that shows the one where
    it is would be kept. -/
theorem meeting_foreseen {d₀ d d' : Colyseus} {before' after' : List Input} {g : UInt32}
    {y y' : GameObject} {primaries primaries' : List GameObject}
    (h : Course c₀ c c' before after t t') (h' : Course d₀ d d' before' after' t t')
    (hx : c.primaries.lookup k = some x) (hx' : c'.primaries.lookup k = some x')
    (hp : x'.type = player) (hy : d.primaries.lookup g = some y)
    (hy' : d'.primaries.lookup g = some y') (hq : y'.type = player) (hne : c.sid ≠ d.sid)
    (hwindow : 0 ≤ c.pubTimeMs + c.predTimeMs) (hsoon : (t' - t).toInt ≤ 1500)
    (hmeet : (y'.getLocation t').intersects (x'.getLocation t') = true)
    (horder : primaries.Perm c.primaries.values) (horder' : primaries'.Perm d.primaries.values) :
    c.isInterestedIn y t = true ∧
    ∃ pub ∈ d.locations primaries' t, ∃ sub ∈ c.areaOfInterest primaries t, ∃ P S : Storable,
      pub.storable false = some P ∧ sub.storable true = some S ∧ P.guid = g ∧ S.guid = k ∧
      world.intersects P.rect = true ∧ world.intersects S.rect = true ∧
      answers P S = true ∧ answers S P = true := by
  obtain ⟨hxp, hnear⟩ := h.near hx hx' hp
  obtain ⟨hyq, hnear'⟩ := h'.near hy hy' hq
  obtain ⟨hin, hnonneg, hlast⟩ := h.settled hx hxp
  obtain ⟨hin', hnonneg', hlast'⟩ := h'.settled hy hyq
  have hmargin : playerSpeed * (t' - t).toInt + playerSpeed * (t' - t).toInt ≤ expansion x.type := by
    have hcast : ((t' - t).toInt : ℚ) ≤ 1500 := by exact_mod_cast hsoon
    rw [hxp, expansion, if_pos rfl, playerSpeed]
    linarith
  have hcover := interest_covers_margin x hwindow t
  have hfound := hcover.intersects (hnear.intersects_grown hnear' hmargin hmeet)
  have hkeyed := (run_inStep h.fresh.inStep h.reach).1.keyed
  have hkeyed' := (run_inStep h'.fresh.inStep h'.reach).1.keyed
  refine ⟨?_, _, mem_locations.mpr ⟨y, mem_of_primary horder' hy, rfl⟩, _,
    mem_areaOfInterest.mpr ⟨x, mem_of_primary horder hx, rfl⟩, _, _, rfl, rfl, hkeyed' g y hy,
    hkeyed k x hx, ?_, ?_, ?_, ?_⟩
  · exact List.any_eq_true.mpr ⟨⟨k, x⟩, (GoMap.mem_entries_iff _ _ _).mpr hx, hfound⟩
  · exact location_meets_world hyq hin' hnonneg' hlast'
  · have hpos : (0 : ℚ) ≤ expansion x.type := by
      rw [hxp, expansion, if_pos rfl]
      norm_num
    exact hcover.intersects
      ((grown_contains _ hpos).intersects (location_meets_world hxp hin hnonneg hlast))
  · simp [answers, hfound, hne.symm]
  · rw [intersects_comm] at hfound
    simp [answers, hfound, hne]

end

/-- A player at (15, 10) that is told to go left at 100. -/
def atFifteen : List Input := [.spawn ⟨some ⟨0, 15, 10, 2, 2, player⟩⟩ 0]

def strollsBack : List Input := [.event 200 left 100]

theorem atFifteen_inside : ∀ request now, Input.spawn request now ∈ atFifteen ++ strollsBack →
    ∀ state ∈ request.gameObject, state.objectType = player → state.Inside := by
  intro request now hmem state hstate _
  simp only [atFifteen, strollsBack, List.mem_append, List.mem_cons, Input.spawn.injEq, reduceCtorEq,
    List.not_mem_nil, or_false] at hmem
  obtain ⟨rfl, -⟩ := hmem
  cases hstate
  decide +kernel

/-- The two players stand still three units apart at 100 and meet at 1600. -/
theorem meeting_foreseen_strolls : ∃ c d y, (c : Colyseus).primaries.lookup 100 ≠ none ∧
    (d : Colyseus).primaries.lookup 200 = some y ∧ c.isInterestedIn y 100 = true ∧
    ∃ pub ∈ d.locations d.primaries.values 100, ∃ sub ∈ c.areaOfInterest c.primaries.values 100,
      ∃ P S : Storable, pub.storable false = some P ∧ sub.storable true = some S ∧ P.guid = 200 ∧
        S.guid = 100 ∧ answers P S = true := by
  obtain ⟨c, c', x, x', hcourse, hx, hx', hp, hplace, hsid, hwindow⟩ :=
    course_of_decide 100 1600 (g := 100)
      (P := fun c _ x' => x'.type = player ∧ x'.getLocation 1600 = ⟨10 + 3 / 2, 10, 2, 2⟩ ∧
        c.sid = 1 ∧ 0 ≤ c.pubTimeMs + c.predTimeMs)
      (fresh_newServer 1 100) (atTen_inside rfl) (by decide) (by decide +kernel)
  obtain ⟨d, d', y, y', hcourse', hy, hy', hq, hplace', hsid'⟩ :=
    course_of_decide 100 1600 (g := 200)
      (P := fun d _ y' => y'.type = player ∧ y'.getLocation 1600 = ⟨15 - 3 / 2, 10, 2, 2⟩ ∧ d.sid = 2)
      (fresh_newServer 2 200) atFifteen_inside (by decide) (by decide +kernel)
  have hne : c.sid ≠ d.sid := by
    rw [hsid, hsid']
    decide
  have hmeet : (y'.getLocation 1600).intersects (x'.getLocation 1600) = true := by
    rw [hplace, hplace']
    decide +kernel
  obtain ⟨hint, pub, hpub, sub, hsub, P, S, hP, hS, hguid, hguid', -, -, hans, -⟩ :=
    meeting_foreseen hcourse hcourse' hx hx' hp hy hy' hq hne hwindow (by decide) hmeet
      (List.Perm.refl _) (List.Perm.refl _)
  exact ⟨c, d, y, by simp [hx], hy, hint, pub, hpub, sub, hsub, P, S, hP, hS, hguid, hguid', hans⟩

/-! ### Two frames -/

section
variable {c₀ c c' : Colyseus} {before after : List Input} {t t' : Int64} {k : UInt32}
  {x x' : GameObject}

/-- An event on an object is its last one from then on, or the object has none. -/
theorem advance_last (o : GameObject) (event : GameEvent) :
    (o.advance event).latestEvent.timestamp = o.latestEvent.timestamp ∨
      (o.advance event).latestEvent.timestamp = event.timestamp := by
  by_cases hp : o.type = player
  · rw [advance_player hp]
    exact .inr rfl
  · by_cases hq : o.type = projectile
    · rw [advance_projectile hq]
      exact .inr rfl
    · rw [advance_other hp hq]
      exact .inl rfl

theorem handleUpdate_last {g : UInt32} {bits : Int32} {now : Int64}
    (h : (c.handleUpdate g bits now).1.primaries.lookup k = some x) :
    (∃ j o, c.primaries.lookup j = some o ∧ x.latestEvent.timestamp = o.latestEvent.timestamp) ∨
      x.latestEvent.timestamp = now := by
  cases hg : c.primaries.lookup g with
  | none =>
    rw [(handleUpdate_no_primary hg bits now).1] at h
    exact .inl ⟨k, x, h, rfl⟩
  | some o =>
    rw [handleUpdate_primary hg, deleteAll_primaries] at h
    split at h
    · cases h
    · rcases applied_cases h with ⟨rfl, rfl⟩ | h | ⟨i, -, -, -, y, hy, rfl⟩
      · rcases advance_last o ⟨bits, now⟩ with hlast | hlast
        · exact .inl ⟨k, o, hg, hlast⟩
        · exact .inr hlast
      · exact .inl ⟨k, x, h, rfl⟩
      · -- what a player shoots has the event's timestamp
        rw [created] at hy
        split at hy
        · rw [List.mem_singleton.mp hy]
          exact .inr rfl
        · exact absurd hy List.not_mem_nil

/-- The last event of a primary was there before, or is of the reading of the input. -/
theorem step_last {input : Input} (hin : c.InStep) (hstep : c.step input = some c')
    (h : c'.primaries.lookup k = some x) :
    (∃ g o, c.primaries.lookup g = some o ∧ x.latestEvent.timestamp = o.latestEvent.timestamp) ∨
      input.time = some x.latestEvent.timestamp := by
  obtain ⟨⟨_, packets⟩, hreact, rfl⟩ := Option.map_eq_some_iff.mp hstep
  cases input with
  | spawn request now =>
    obtain ⟨⟨g, c₁⟩, hspawn, hreact⟩ := Option.map_eq_some_iff.mp hreact
    cases hreact
    obtain ⟨state, -, heq⟩ := Option.map_eq_some_iff.mp hspawn
    cases heq
    simp only [GoMap.lookup_insert_ite] at h
    split at h
    · cases h
      exact .inr rfl
    · exact .inl ⟨k, x, h, rfl⟩
  | event g bits now =>
    cases hreact
    rcases handleUpdate_last h with hold | hnow
    · exact .inl hold
    · exact .inr (congrArg some hnow.symm)
  | update request now =>
    obtain ⟨⟨c₁, calls⟩, hupdate, hreact⟩ := Option.map_eq_some_iff.mp hreact
    cases hreact
    rcases update_cases hupdate with ⟨y, event, -, -, hrun⟩ | ⟨-, -, hother⟩
    · obtain ⟨rfl, -⟩ := Prod.mk.inj hrun
      rcases handleUpdate_last h with hold | hnow
      · exact .inl hold
      · exact .inr (congrArg some hnow.symm)
    · rcases hother with ⟨rfl, -⟩ | ⟨r, event, c₁, hr, hc₁, rfl⟩
      · exact .inl ⟨k, x, h, rfl⟩
      · rw [deleteAll_primaries, (replicateNew_spec hc₁).1] at h
        split at h
        · cases h
        · exact .inl ⟨k, x, h, rfl⟩
  | _ =>
    rw [(react_quiet hin.replicas hreact trivial).1] at h
    exact .inl ⟨k, x, h, rfl⟩

/-- The last event of every primary of a run is of one of its readings. -/
theorem run_last {inputs : List Input} (h₀ : c₀.Fresh) (hrun : run step c₀ inputs = some c)
    (h : c.primaries.lookup k = some x) :
    x.latestEvent.timestamp ∈ inputs.filterMap Input.time := by
  induction inputs using List.reverseRecOn generalizing c k x with
  | nil =>
    cases hrun
    simp [h₀.primaries] at h
  | append_singleton inputs input ih =>
    obtain ⟨c₁, hrun₁, hlast⟩ := run_append_eq_some.mp hrun
    obtain ⟨c₂, hstep, hend⟩ := run_cons_eq_some.mp hlast
    cases hend
    rw [List.filterMap_append]
    rcases step_last (run_inStep h₀.inStep hrun₁).1 hstep h with ⟨g, o, ho, heq⟩ | hnow
    · rw [heq]
      exact List.mem_append_left _ (ih hrun₁ ho)
    · exact List.mem_append_right _ (by simp [hnow])

/-- Between two readings a projectile without an event does not pass through a player, whatever events
    the player gets, if the time is too short for the two to cover both their widths or heights. -/
theorem no_tunnelling {j : UInt32} {q : GameObject} (h : Course c₀ c c' before after t t')
    (hx : c.primaries.lookup k = some x) (hx' : c'.primaries.lookup k = some x')
    (hp : x'.type = player) (hq : c.primaries.lookup j = some q) (hprojectile : q.type = projectile)
    (hwidth : (playerSpeed + projectileSpeed) * (t' - t).toInt ≤ x.rect.width + q.rect.width)
    (hheight : (playerSpeed + projectileSpeed) * (t' - t).toInt ≤ x.rect.height + q.rect.height) :
    ¬ Passes (x.getLocation t) (q.getLocation t) (x'.getLocation t') (q.getLocation t') := by
  obtain ⟨-, hnear⟩ := h.near hx hx' hp
  have hlater : Later t t' := (List.pairwise_append.mp h.clock).2.2 t (by simp) t' (by simp)
  have hmem := run_last h.fresh h.reach hq
  have hreadings : (before.filterMap Input.time ++ [t]).Pairwise Later := h.clock.sublist (by simp)
  have hreadings' : (before.filterMap Input.time ++ [t']).Pairwise Later :=
    h.clock.sublist (by simp)
  have hlast := (List.pairwise_append.mp hreadings).2.2 _ hmem t (by simp)
  have hlast' := (List.pairwise_append.mp hreadings').2.2 _ hmem t' (by simp)
  have hnear' : Near (projectileSpeed * (t' - t).toInt) (q.getLocation t) (q.getLocation t') := by
    have hspeed : speed q.type = projectileSpeed := by
      rw [speed, hprojectile, if_neg projectile_ne_player, if_pos rfl]
    rw [← hspeed]
    exact extrapolated_near hlast hlater hlast'
  obtain ⟨hw, hh⟩ := x.getLocation_size t
  obtain ⟨hw', hh'⟩ := q.getLocation_size t
  refine hnear.not_passes hnear' ?_ ?_
  · rw [hw, hw', ← add_mul]
    exact hwidth
  · rw [hh, hh', ← add_mul]
    exact hheight

end

/-- A player at (10, 10) that walks right, and a projectile it has shot down from there. -/
def shoots : List Input := atTen ++ [.event 100 shoot 50]

theorem shoots_inside : ∀ request now, Input.spawn request now ∈ shoots ++ strolls →
    ∀ state ∈ request.gameObject, state.objectType = player → state.Inside := by
  intro request now hmem state hstate _
  simp only [shoots, atTen, strolls, List.mem_append, List.mem_cons, Input.spawn.injEq, reduceCtorEq,
    List.not_mem_nil, or_false] at hmem
  obtain ⟨rfl, -⟩ := hmem
  cases hstate
  decide +kernel

/-- Between two frames 272 ms apart the projectile does not pass through the player. -/
theorem no_tunnelling_shoots : ∃ c c', ∃ x x' q : GameObject,
    Course (newServer 1 100) c c' shoots strolls 100 372 ∧ c.primaries.lookup 102 = some q ∧
      c'.primaries.lookup 100 = some x' ∧
      ¬ Passes (x.getLocation 100) (q.getLocation 100) (x'.getLocation 372) (q.getLocation 372) := by
  obtain ⟨c, c', x, x', hcourse, hx, hx', hp, hw, hh, hq⟩ := course_of_decide 100 372 (g := 100)
    (P := fun c x x' => x'.type = player ∧ x.rect.width = 2 ∧ x.rect.height = 2 ∧
      (c.primaries.lookup 102).any fun q =>
        q.type = projectile ∧ q.rect.width = 1 ∧ q.rect.height = 1)
    (fresh_newServer 1 100) shoots_inside (by decide) (by decide +kernel)
  obtain ⟨q, hlookup, hq⟩ := (Option.any_eq_true _ _).mp hq
  obtain ⟨hprojectile, hw', hh'⟩ := of_decide_eq_true hq
  refine ⟨c, c', x, x', q, hcourse, hlookup, hx',
    no_tunnelling hcourse hx hx' hp hlookup hprojectile ?_ ?_⟩
  · rw [hw, hw']
    decide +kernel
  · rw [hh, hh']
    decide +kernel

end Colyseus

end DistGame
