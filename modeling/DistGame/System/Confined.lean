import DistGame.Locator.Requests
import DistGame.System.Snapshot

/-! Players never leave the world. An event moves a player from where it was to where it is shown at
    the reading of the event, and both moves stay in the world as long as no time between two readings
    is negative. So every location that a server publishes for a player meets the root of the locator's
    tree. -/

namespace DistGame
open QTree Quadtree

/-- The clock reading of an input that reads the clock. -/
def Input.time : Input → Option Int64
  | .spawn _ now | .event _ _ now | .update _ now | .cleanup now | .register _ _ now => some now
  | _ => none

theorem Input.time_eventOn {input : Input} {k : UInt32} {bits : Int32} {now : Int64}
    (h : input.eventOn = some (k, bits, now)) : input.time = some now := by
  cases input with
  | event guid bits' now' => cases h; rfl
  | update request now' =>
    obtain ⟨event, -, heq⟩ := Option.map_eq_some_iff.mp h
    cases heq
    rfl
  | _ => cases h

/-- A state that describes a player inside the world, of a size that is not negative. -/
def ProtoGameObject.Inside (state : ProtoGameObject) : Prop :=
  InWorld ⟨state.x, state.y, state.w, state.h⟩ ∧ 0 ≤ state.w ∧ 0 ≤ state.h

instance (state : ProtoGameObject) : Decidable state.Inside := inferInstanceAs (Decidable (_ ∧ _))

namespace GameObject

theorem created_type {o y : GameObject} {event : GameEvent} {id : UInt32}
    (h : y ∈ o.created event id) : y.type = projectile := by
  rw [created] at h
  split at h
  · rw [List.mem_singleton.mp h]
    rfl
  · exact absurd h List.not_mem_nil

/-- A location a while after the last event is in the world, and the player has its size. -/
theorem inWorld_location {o : GameObject} (hp : o.type = player) (h : InWorld o.rect) {t : Int64}
    (ht : Later o.latestEvent.timestamp t) : InWorld (o.getLocation t) ∧
      (o.getLocation t).width = o.rect.width ∧ (o.getLocation t).height = o.rect.height := by
  refine ⟨inWorld_getAdjustedRect hp h (Int64.le_iff_toInt_le.mp ht.2), ?_, ?_⟩
  · rw [getLocation, getAdjustedRect, if_pos hp, moved_eq]
  · rw [getLocation, getAdjustedRect, if_pos hp, moved_eq]

end GameObject

namespace Colyseus
variable {c c' c₀ : Colyseus} {k : UInt32} {x : GameObject}

/-! ### Where players come from -/

/-- A player after an update was there before, or is the one that the event advanced: what an event
    creates is no player. -/
theorem handleUpdate_player {g : UInt32} {bits : Int32} {now : Int64} (hp : x.type = player)
    (h : (c.handleUpdate g bits now).1.primaries.lookup k = some x) :
    (k = g ∧ ∃ o, c.primaries.lookup g = some o ∧ x = o.advance ⟨bits, now⟩) ∨
      c.primaries.lookup k = some x := by
  cases hg : c.primaries.lookup g with
  | none =>
    rw [(handleUpdate_no_primary hg bits now).1] at h
    exact .inr h
  | some o =>
    rw [handleUpdate_primary hg, deleteAll_primaries] at h
    split at h
    · cases h
    · rcases applied_cases h with ⟨rfl, rfl⟩ | h | ⟨i, -, -, -, y, hy, rfl⟩
      · exact .inl ⟨rfl, o, rfl, rfl⟩
      · exact .inr h
      · have hproj : y.type = projectile := GameObject.created_type hy
        exact absurd (hproj.symm.trans hp) projectile_ne_player

/-- Every player was there before, was advanced by an event on it, or has just been spawned. -/
theorem step_player {input : Input} (hin : c.InStep) (hstep : c.step input = some c')
    (hp : x.type = player) (h : c'.primaries.lookup k = some x) :
    c.primaries.lookup k = some x ∨
    (∃ o bits now, input.eventOn = some (k, bits, now) ∧ c.primaries.lookup k = some o ∧
      x = o.advance ⟨bits, now⟩) ∨
    ∃ request now state, input = .spawn request now ∧ request.gameObject = some state ∧
      c.spawn request now = some (k, c') ∧
      x = { state.object c.sid ⟨0, now⟩ with guid := k } := by
  obtain ⟨⟨_, packets⟩, hreact, rfl⟩ := Option.map_eq_some_iff.mp hstep
  cases input with
  | spawn request now =>
    obtain ⟨⟨g, c₁⟩, hspawn, hreact⟩ := Option.map_eq_some_iff.mp hreact
    cases hreact
    obtain ⟨state, hstate, heq⟩ := Option.map_eq_some_iff.mp hspawn
    cases heq
    simp only [GoMap.lookup_insert_ite] at h
    split at h
    · rename_i hk
      cases h
      subst hk
      exact .inr (.inr ⟨request, now, state, rfl, hstate, hspawn, rfl⟩)
    · exact .inl h
  | event g bits now =>
    cases hreact
    rcases handleUpdate_player hp h with ⟨rfl, o, ho, hx⟩ | h
    · exact .inr (.inl ⟨o, bits, now, rfl, ho, hx⟩)
    · exact .inl h
  | update request now =>
    obtain ⟨⟨c₁, calls⟩, hupdate, hreact⟩ := Option.map_eq_some_iff.mp hreact
    cases hreact
    rcases update_cases hupdate with ⟨y, event, hy, hevent, hrun⟩ | ⟨-, -, hother⟩
    · obtain ⟨rfl, -⟩ := Prod.mk.inj hrun
      rcases handleUpdate_player hp h with ⟨rfl, o, ho, hx⟩ | h
      · exact .inr (.inl ⟨o, event.input, now, by simp [Input.eventOn, hevent], ho, hx⟩)
      · exact .inl h
    · rcases hother with ⟨rfl, -⟩ | ⟨r, event, c₁, hr, hc₁, rfl⟩
      · exact .inl h
      · rw [deleteAll_primaries, (replicateNew_spec hc₁).1] at h
        split at h
        · cases h
        · exact .inl h
  | _ =>
    rw [(react_quiet hin.replicas hreact trivial).1] at h
    exact .inl h

/-! ### Every player of a run -/

/-- Some `Spawn` of the run answered with `g` and asked for a player of the size of `o`. -/
def SpawnedAs (c₀ : Colyseus) (inputs : List Input) (g : UInt32) (o : GameObject) : Prop :=
  ∃ (before after : List Input) (request : SpawnRequest) (now : Int64) (state : ProtoGameObject)
    (c₁ c₂ : Colyseus), inputs = before ++ .spawn request now :: after ∧
    run step c₀ before = some c₁ ∧ c₁.spawn request now = some (g, c₂) ∧
    request.gameObject = some state ∧ state.objectType = player ∧
    o.rect.width = state.w ∧ o.rect.height = state.h

theorem SpawnedAs.mono {inputs : List Input} {g : UInt32} {o o' : GameObject}
    (h : SpawnedAs c₀ inputs g o) (hw : o'.rect.width = o.rect.width)
    (hh : o'.rect.height = o.rect.height) (rest : List Input) :
    SpawnedAs c₀ (inputs ++ rest) g o' := by
  obtain ⟨before, after, request, now, state, c₁, c₂, rfl, hrun, hspawn, hstate, hp, hw', hh'⟩ := h
  exact ⟨before, after ++ rest, request, now, state, c₁, c₂, by simp, hrun, hspawn, hstate, hp,
    hw.trans hw', hh.trans hh'⟩

/-- A player of a run: inside the world, last moved at a reading of the run, and of the size with which
    it was spawned. -/
structure Confined (c₀ : Colyseus) (inputs : List Input) (g : UInt32) (o : GameObject) : Prop where
  inWorld : InWorld o.rect
  nonneg : o.rect.Nonneg
  last : o.latestEvent.timestamp ∈ inputs.filterMap Input.time
  spawned : SpawnedAs c₀ inputs g o

/-- The players of every run that only spawns players inside the world, at readings that are never 2^63
    ms apart. -/
theorem run_confined (h₀ : c₀.Fresh) {inputs : List Input}
    (hspawn : ∀ request now, Input.spawn request now ∈ inputs → ∀ state ∈ request.gameObject,
      state.objectType = player → state.Inside)
    (hclock : (inputs.filterMap Input.time).Pairwise Later) (hrun : run step c₀ inputs = some c)
    (h : c.primaries.lookup k = some x) (hp : x.type = player) : Confined c₀ inputs k x := by
  induction inputs using List.reverseRecOn generalizing c k x with
  | nil =>
    cases hrun
    simp [h₀.primaries] at h
  | append_singleton inputs input ih =>
    obtain ⟨c₁, hrun₁, hrun⟩ := run_append_eq_some.mp hrun
    obtain ⟨c₂, hstep, hrun⟩ := run_cons_eq_some.mp hrun
    cases hrun
    rw [List.filterMap_append] at hclock
    obtain ⟨hclock₁, -, hlater⟩ := List.pairwise_append.mp hclock
    have hspawn₁ : ∀ request now, Input.spawn request now ∈ inputs → ∀ state ∈ request.gameObject,
        state.objectType = player → state.Inside :=
      fun request now hmem => hspawn request now (List.mem_append_left _ hmem)
    rcases step_player (run_inStep h₀.inStep hrun₁).1 hstep hp h with
      hold | ⟨o, bits, now, hon, ho, rfl⟩ | ⟨request, now, state, rfl, hstate, hspawned, rfl⟩
    · obtain ⟨hin, hnonneg, hlast, hsize⟩ := ih hspawn₁ hclock₁ hrun₁ hold hp
      exact ⟨hin, hnonneg, by rw [List.filterMap_append]; exact List.mem_append_left _ hlast,
        hsize.mono rfl rfl _⟩
    · have hop : o.type = player := (o.advance_type _).symm.trans hp
      obtain ⟨hin, hnonneg, hlast, hsize⟩ := ih hspawn₁ hclock₁ hrun₁ ho hop
      have hnow : now ∈ [input].filterMap Input.time := by simp [Input.time_eventOn hon]
      obtain ⟨hin', hwidth, hheight⟩ :=
        GameObject.inWorld_location hop hin (hlater _ hlast now hnow)
      rw [GameObject.advance_player hop]
      refine ⟨hin', ?_, ?_, hsize.mono hwidth hheight _⟩
      · rw [Rectangle.Nonneg] at hnonneg ⊢
        rwa [← hwidth, ← hheight] at hnonneg
      · rw [List.filterMap_append]
        exact List.mem_append_right _ hnow
    · obtain ⟨hin, hw, hh⟩ := hspawn request now (by simp) state hstate hp
      exact ⟨hin, ⟨hw, hh⟩, by simp [Input.time, ProtoGameObject.object],
        inputs, [], request, now, state, c₁, _, rfl, hrun₁, hspawned, hstate, hp, rfl, rfl⟩

/-- A rectangle inside the world is accepted by every locator over the world. -/
theorem accepted_inWorld {capacity : ℤ} (hc : 1 ≤ capacity) {acts : List Activity}
    {L : LocatorServer}
    (hrun : run LocatorServer.step (LocatorServer.start world capacity) acts = some L)
    {trigger : Storable} (h : InWorld trigger.rect) (hn : trigger.rect.Nonneg) (now : Int64) :
    ∃ l, L.locator.insert now trigger = some (l, true) := by
  have hmeets : world.intersects trigger.rect = true := by
    obtain ⟨hl, hr, hu, hd⟩ := h
    obtain ⟨hw, hh⟩ := hn
    rw [Rectangle.intersects_iff]
    simp only [minX, maxX, minY, maxY] at hl hr hu hd
    refine ⟨?_, ?_, ?_, ?_⟩ <;> simp only [world] <;> linarith
  rcases locator_insert_spec hc (requests_run_wf hc hrun) now trigger with
    ⟨t, -, hno⟩ | ⟨t, hins, -⟩
  · rw [hno.misses hn] at hmeets
    exact absurd hmeets Bool.false_ne_true
  · exact ⟨_, hins⟩

/-- In every run that only spawns players inside the world, at nondecreasing readings less than 2^63 ms
    apart, every player and its location at a reading from then on are inside the world and of the size
    with which it was spawned, and the locator accepts the location. -/
theorem players_stay_inside (h₀ : c₀.Fresh) {inputs : List Input}
    (hspawn : ∀ request now, Input.spawn request now ∈ inputs → ∀ state ∈ request.gameObject,
      state.objectType = player → state.Inside) {t : Int64}
    (hclock : (inputs.filterMap Input.time ++ [t]).Pairwise Later)
    (hrun : run step c₀ inputs = some c) (h : c.primaries.lookup k = some x)
    (hp : x.type = player) :
    InWorld x.rect ∧ InWorld (x.getLocation t) ∧
      (x.getLocation t).width = x.rect.width ∧ (x.getLocation t).height = x.rect.height ∧
      SpawnedAs c₀ inputs k x ∧
      ∀ (capacity : ℤ) (acts : List Activity) (L : LocatorServer), 1 ≤ capacity →
        run LocatorServer.step (LocatorServer.start world capacity) acts = some L →
        ∀ (pub : Storable) (now : Int64), pub.rect = x.getLocation t →
          ∃ l, L.locator.insert now pub = some (l, true) := by
  obtain ⟨hclock, -, hlater⟩ := List.pairwise_append.mp hclock
  obtain ⟨hin, hnonneg, hlast, hsize⟩ := run_confined h₀ hspawn hclock hrun h hp
  obtain ⟨hin', hw, hh⟩ :=
    GameObject.inWorld_location hp hin (hlater _ hlast t List.mem_cons_self)
  refine ⟨hin, hin', hw, hh, hsize, fun capacity acts L hc hL pub now hpub => ?_⟩
  refine accepted_inWorld hc hL (by rw [hpub]; exact hin') ?_ now
  rw [hpub, Rectangle.Nonneg, hw, hh]
  exact hnonneg

/-- A player at (10, 10) that moves left. -/
def leftAt (spawned started : Int64) : List Input :=
  [.spawn ⟨some ⟨0, 10, 10, 2, 2, player⟩⟩ spawned, .event 100 left started]

theorem leftAt_inside (spawned started : Int64) : ∀ request now,
    Input.spawn request now ∈ leftAt spawned started → ∀ state ∈ request.gameObject,
      state.objectType = player → state.Inside := by
  intro request now hmem state hstate _
  simp only [leftAt, List.mem_cons, Input.spawn.injEq, reduceCtorEq, List.not_mem_nil, or_false]
    at hmem
  obtain ⟨rfl, -⟩ := hmem
  cases hstate
  decide +kernel

/-- It is shown outside the world when 2^63 ms have passed, as their difference wraps around. -/
theorem player_leaves :
    (∀ request now, Input.spawn request now ∈ leftAt (-1) (-1) → ∀ state ∈ request.gameObject,
      state.objectType = player → state.Inside) ∧
    ((leftAt (-1) (-1)).filterMap Input.time ++ [Int64.maxValue]).Pairwise (· ≤ ·) ∧
    ∃ c x, run step (newServer 1 100) (leftAt (-1) (-1)) = some c ∧
      c.primaries.lookup 100 = some x ∧ x.type = player ∧
      ¬ InWorld (x.getLocation Int64.maxValue) ∧
      world.intersects (x.getLocation Int64.maxValue) = false := by
  refine ⟨leftAt_inside _ _, by decide, ?_⟩
  obtain ⟨⟨c, x⟩, heval, hout⟩ := exists_of_map_decide
    (o := (run step (newServer 1 100) (leftAt (-1) (-1))).bind fun c =>
      (c.primaries.lookup 100).map fun x => (c, x))
    (P := fun r => r.2.type = player ∧ ¬ InWorld (r.2.getLocation Int64.maxValue) ∧
      world.intersects (r.2.getLocation Int64.maxValue) = false) (by decide +kernel)
  obtain ⟨c', hrun, heval⟩ := Option.bind_eq_some_iff.mp heval
  obtain ⟨x', hx, heq⟩ := Option.map_eq_some_iff.mp heval
  cases heq
  exact ⟨c, x, hrun, hx, hout⟩

/-- It stays inside for as long as it moves to the wall and stands there. -/
theorem players_stay_inside_leftAt :
    ∃ c x, run step (newServer 1 100) (leftAt 0 20) = some c ∧ c.primaries.lookup 100 = some x ∧
      InWorld x.rect ∧ InWorld (x.getLocation 30000) ∧ x.getLocation 30000 = ⟨0, 10, 2, 2⟩ := by
  obtain ⟨⟨c, x⟩, heval, hp, hwall⟩ := exists_of_map_decide
    (o := (run step (newServer 1 100) (leftAt 0 20)).bind fun c =>
      (c.primaries.lookup 100).map fun x => (c, x))
    (P := fun r => r.2.type = player ∧ r.2.getLocation 30000 = ⟨0, 10, 2, 2⟩) (by decide +kernel)
  obtain ⟨c', hrun, heval⟩ := Option.bind_eq_some_iff.mp heval
  obtain ⟨x', hx, heq⟩ := Option.map_eq_some_iff.mp heval
  cases heq
  have hclock : ((leftAt 0 20).filterMap Input.time ++ [30000]).Pairwise Later := by decide
  obtain ⟨hin, hin', -⟩ := players_stay_inside (fresh_newServer 1 100) (leftAt_inside 0 20) hclock
    hrun hx hp
  exact ⟨c, x, hrun, hx, hin, hin', hwall⟩

end Colyseus

end DistGame
