import DistGame.Lib.Run
import DistGame.Game.Motion
import DistGame.Server.Replicas

/-! An event at the owner of an object, the updates it pushes, and what a push does to a replica. Both
    sides apply one and the same function to their copy (`replay`), so a replica that is pushed the
    events in the order in which the owner serialised them keeps up with the primary. -/

namespace DistGame

/-- What an event makes of an object; `none` is an object that is gone. -/
def replay (o : Option GameObject) (event : GameEvent) : Option GameObject :=
  o.bind fun o => if held event.input die then none else some (o.advance event)

/-- Two copies of an object that agree on everything an event reads or writes. -/
structure SameState (o r : GameObject) : Prop where
  rect : o.rect = r.rect
  type : o.type = r.type
  latestEvent : o.latestEvent = r.latestEvent

namespace SameState
variable {o r : GameObject}

theorem getAdjustedRect (h : SameState o r) (timeDelta : Int64) :
    o.getAdjustedRect timeDelta = r.getAdjustedRect timeDelta := by
  rw [GameObject.getAdjustedRect, GameObject.getAdjustedRect, h.rect, h.type, h.latestEvent]

theorem advance (h : SameState o r) (event : GameEvent) :
    SameState (o.advance event) (r.advance event) := by
  by_cases hp : o.type = player
  · rw [GameObject.advance_player hp, GameObject.advance_player (h.type ▸ hp)]
    refine ⟨?_, h.type, rfl⟩
    rw [h.getAdjustedRect, h.latestEvent]
  · by_cases hq : o.type = projectile
    · rw [GameObject.advance_projectile hq, GameObject.advance_projectile (h.type ▸ hq)]
      refine ⟨?_, h.type, rfl⟩
      rw [h.rect, h.latestEvent]
    · rw [GameObject.advance_other hp hq, GameObject.advance_other (h.type ▸ hp) (h.type ▸ hq)]
      exact h

end SameState

/-- Copies that agree still agree after an event. -/
theorem rel_replay {p r : Option GameObject} (h : Option.Rel SameState p r) (event : GameEvent) :
    Option.Rel SameState (replay p event) (replay r event) := by
  cases h with
  | none => exact .none
  | some h =>
    rw [replay, replay, Option.bind_some, Option.bind_some]
    split
    · exact .none
    · exact .some (h.advance event)

/-- An event replayed on a copy of a player in the world a second time changes nothing. -/
theorem replay_replay {p : Option GameObject} {event : GameEvent}
    (h : ∀ o, p = some o → o.type = player → InWorld (o.advance event).rect) :
    replay (replay p event) event = replay p event := by
  cases p with
  | none => rfl
  | some o =>
    by_cases hd : held event.input die = true
    · simp [replay, hd]
    · simp [replay, hd, GameObject.advance_advance (h o rfl)]

/-- Copies of one event replay it once on a copy of `o`, if there is one of them, or if `o` is a
    player in the world. -/
theorem replay_copies {o : GameObject} {r : Option GameObject} (event : GameEvent) {prev : Int64}
    {k : ℕ} (hsame : Option.Rel SameState (some o) r)
    (hdup : k = 1 ∨ (1 ≤ k ∧ Settled prev o ∧ 0 ≤ prev ∧ prev ≤ event.timestamp)) :
    (List.replicate k event).foldl replay r = replay r event := by
  rcases hdup with hone | ⟨hpos, hset, h0, hle⟩
  · exact foldl_replicate (.inl hone)
  · have hidem : replay (replay r event) event = replay r event := by
      cases hsame with
      | some hs =>
        refine replay_replay fun r' hr' hp => ?_
        cases hr'
        have hp' : o.type = player := hs.type.trans hp
        have hmove := GameObject.settled_advance event.input (hset.mono hle) (Int64.le_trans h0 hle)
        obtain ⟨hin', -, -⟩ := hmove (by rw [GameObject.advance_type]; exact hp')
        rwa [(hs.advance _).rect] at hin'
    exact foldl_replicate (.inr ⟨hpos, hidem⟩)

/-- `request` pushes `event` to the replicas of `g`. -/
structure IsPush (g : UInt32) (event : GameEvent) (request : UpdateRequest) : Prop where
  target : request.targetGuid = g
  update : request.update = some event
  states : ∀ st ∈ request.initialStates, st.guid ≠ g
  events : request.initialStates.length = request.latestUpdates.length
  deleted : request.deletedGuids = if held event.input die then [g] else []

namespace Colyseus

/-! ### At the owner -/

section
variable {s : Colyseus} {g : UInt32} {o : GameObject} {input : Int32} {now : Int64}

/-- An event on a primary replays it, keeps its markers unless it dies, and touches no
    configuration. -/
theorem handleUpdate_event (h : s.primaries.lookup g = some o) (hg : o.guid = g)
    (hover : ¬ s.Overwrites g o ⟨input, now⟩) :
    (s.handleUpdate g input now).1.primaries.lookup g = replay (some o) ⟨input, now⟩ ∧
      ((s.handleUpdate g input now).1.replicas.lookup g = none ∨
        (s.handleUpdate g input now).1.replicas.lookup g = s.replicas.lookup g) ∧
      (held input die = false → (s.handleUpdate g input now).1.primaryInterest.index g [] =
        s.primaryInterest.index g []) ∧
      (s.handleUpdate g input now).1.sid = s.sid ∧
      (s.handleUpdate g input now).1.peerEndpoints = s.peerEndpoints ∧
      (s.handleUpdate g input now).1.interestTTLMs = s.interestTTLMs ∧
      (s.handleUpdate g input now).1.guids = s.guids ∧
      (s.handleUpdate g input now).1.drawn = (s.applied g o ⟨input, now⟩).1.drawn := by
  have hframe := applied_frame (s := s) (g := g) (o := o) ⟨input, now⟩
  rw [handleUpdate_primary h]
  refine ⟨?_, ?_, fun hd => ?_, ?_, ?_, ?_, ?_, ?_⟩
  · rw [deleteAll_primaries, applied_primary hover, replay, Option.bind_some, GameObject.deleted, hg]
    by_cases hd : held input die <;> simp [hd]
  · rw [deleteAll_replicas, hframe]
    split
    · exact .inl rfl
    · exact .inr rfl
  · rw [deleteAll_index, applied_index, if_neg hover, GameObject.deleted]
    simp [hd]
  all_goals rw [deleteAll_frame, hframe]

/-- The update an event sends is a push. -/
theorem pushed_isPush (hg : o.guid = g) (hover : ¬ s.Overwrites g o ⟨input, now⟩) :
    IsPush g ⟨input, now⟩ (s.pushed g o ⟨input, now⟩) where
  target := rfl
  update := rfl
  states := by
    intro st hst
    obtain ⟨i, hi, hdrawn⟩ := createObjects_states _ _ hst
    rw [← hdrawn]
    exact (not_overwrites_iff ⟨input, now⟩).mp hover i hi
  events := createObjects_length _ _
  deleted := by
    show o.deleted ⟨input, now⟩ = _
    rw [GameObject.deleted, hg]

/-- What an event sends to one peer: the push, once for each unexpired marker. -/
theorem handleUpdate_requests (h : s.primaries.lookup g = some o)
    (hover : ¬ s.Overwrites g o ⟨input, now⟩) {sid : Int32} (hpeer : s.IsPeer sid) :
    ((s.handleUpdate g input now).2.filter fun call => call.sid == sid).map PeerCall.request =
      List.replicate (s.unexpired g sid now) (s.pushed g o ⟨input, now⟩) := by
  rw [List.eq_replicate_iff]
  constructor
  · rw [List.length_map, ← List.countP_eq_length_filter, handleUpdate_countP h, if_pos ⟨hpeer, hover⟩]
  · intro request hmem
    obtain ⟨call, hcall, rfl⟩ := List.mem_map.mp hmem
    rw [handleUpdate_primary h] at hcall
    exact (mem_pushes (List.mem_filter.mp hcall).1).1

end

/-! ### At a replica -/

/-- A push replays the replica. -/
theorem update_push {s : Colyseus} {g : UInt32} {event : GameEvent} {request : UpdateRequest}
    (hp : s.primaries.lookup g = none) (h : IsPush g event request) (now : Int64) :
    ∃ s', s.update request now = some (s', []) ∧ s'.sid = s.sid ∧
      s'.peerEndpoints = s.peerEndpoints ∧ s'.primaries.lookup g = none ∧
      s'.replicas.lookup g = replay (s.replicas.lookup g) event := by
  obtain ⟨rfl, hupd, hstates, hlen, hdel⟩ := h
  cases hr : s.replicas.lookup request.targetGuid with
  | none => exact ⟨s, by simp only [update, hp, hr], rfl, rfl, hp, by rw [hr]; rfl⟩
  | some r =>
    let s₁ := { s with replicas := s.replicas.insert request.targetGuid (r.advance event) }
    obtain ⟨s₂, hs₂⟩ := Option.isSome_iff_exists.mp
      ((replicateNew_isSome_iff s₁ r.sid _).mpr fun _ => hlen.le)
    obtain ⟨hframe, -⟩ := replicateNew_spec hs₂
    have hlookup : s₂.replicas.lookup request.targetGuid = some (r.advance event) := by
      rw [replicateNew_ne hs₂ hstates, AList.lookup_insert]
    have hrun : s.update request now = some (request.deletedGuids.foldl deleteObject s₂, []) := by
      rw [update_replica hp hr hupd, hs₂]
      rfl
    refine ⟨_, hrun, ?_, ?_, ?_, ?_⟩
    · rw [deleteAll_frame, hframe]
    · rw [deleteAll_frame, hframe]
    · rw [deleteAll_primaries, hframe]
      split
      · rfl
      · exact hp
    · rw [deleteAll_replicas, hlookup, hdel, replay, Option.bind_some]
      by_cases hd : held event.input die <;> simp [hd]

end Colyseus

end DistGame
