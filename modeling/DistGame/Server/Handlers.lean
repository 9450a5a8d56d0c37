import DistGame.Server.Colyseus

/-! What each handler does to the maps of a server: one lemma for the fields it leaves alone, and one
    for each map it writes, key by key. -/

namespace DistGame
namespace Colyseus

/-! ### RegisterInterest -/

section
variable (sid : Int32) (now : Int64)

/-- Only the interest map changes. -/
theorem registerTargets_frame : ∀ (targets : List UInt32) (s : Colyseus),
    (s.registerTargets sid now targets).1 =
      { s with primaryInterest := (s.registerTargets sid now targets).1.primaryInterest }
  | [], _ => rfl
  | guid :: targets, s => by
    rw [registerTargets]
    cases h : s.primaries.lookup guid with
    | none => exact registerTargets_frame targets s
    | some primary =>
      dsimp only
      rw [registerTargets_frame targets]

/-- The response describes the primaries among the targets. -/
theorem registerTargets_response : ∀ (targets : List UInt32) (s : Colyseus),
    (s.registerTargets sid now targets).2 =
      ((targets.filterMap s.primaries.lookup).map GameObject.proto,
        (targets.filterMap s.primaries.lookup).map GameObject.latestEvent)
  | [], _ => rfl
  | guid :: targets, s => by
    rw [registerTargets, List.filterMap_cons]
    cases h : s.primaries.lookup guid with
    | none => exact registerTargets_response targets s
    | some primary =>
      exact congrArg (fun r : List ProtoGameObject × List GameEvent =>
        (primary.proto :: r.1, primary.latestEvent :: r.2)) (registerTargets_response targets _)

/-- A primary gets one marker for each time it is named. -/
theorem registerTargets_index (g : UInt32) : ∀ (targets : List UInt32) (s : Colyseus),
    (s.registerTargets sid now targets).1.primaryInterest.index g [] =
      s.primaryInterest.index g [] ++ if (s.primaries.lookup g).isSome then
        List.replicate (targets.count g) ⟨sid, now + s.interestTTLMs⟩ else []
  | [], s => by simp [registerTargets]
  | guid :: targets, s => by
    rw [registerTargets, List.count_cons]
    cases h : s.primaries.lookup guid with
    | none =>
      dsimp only
      rw [registerTargets_index g targets]
      by_cases hg : guid = g
      · subst hg; simp [h]
      · simp [hg]
    | some primary =>
      dsimp only
      rw [registerTargets_index g targets, GoMap.index_insert]
      by_cases hg : guid = g
      · subst hg
        simp [h, List.replicate_succ]
      · rw [if_neg (Ne.symm hg)]
        simp [hg]

end

theorem registerInterest_frame (s : Colyseus) (request : RegisterInterestRequest) (now : Int64) :
    (s.registerInterest request now).1 =
      { s with primaryInterest := (s.registerInterest request now).1.primaryInterest } :=
  registerTargets_frame request.sid now request.targetGuids s

theorem registerInterest_response (s : Colyseus) (request : RegisterInterestRequest) (now : Int64) :
    (s.registerInterest request now).2 =
      ⟨(request.targetGuids.filterMap s.primaries.lookup).map GameObject.proto,
        (request.targetGuids.filterMap s.primaries.lookup).map GameObject.latestEvent⟩ :=
  congrArg (fun r : List ProtoGameObject × List GameEvent => RegisterInterestResponse.mk r.1 r.2)
    (registerTargets_response request.sid now request.targetGuids s)

theorem registerInterest_index (s : Colyseus) (request : RegisterInterestRequest) (now : Int64)
    (g : UInt32) :
    (s.registerInterest request now).1.primaryInterest.index g [] =
      s.primaryInterest.index g [] ++ if (s.primaries.lookup g).isSome then
        List.replicate (request.targetGuids.count g) ⟨request.sid, now + s.interestTTLMs⟩ else [] :=
  registerTargets_index request.sid now g request.targetGuids s

/-! ### The loops of HandleUpdate -/

/-- After a spawn, the draws to come are those after the next one. -/
theorem spawned_guids (s : Colyseus) (o : GameObject) (i : ℕ) :
    (s.spawnObject o).2.guids ((s.spawnObject o).2.drawn + i) = s.guids (s.drawn + (i + 1)) :=
  congrArg s.guids (by dsimp only [spawnObject]; omega)

theorem createObjects_cons (s : Colyseus) (o : GameObject) (objects : List GameObject) :
    (s.createObjects (o :: objects)).1 = ((s.spawnObject o).2.createObjects objects).1 := by
  simp only [createObjects]
  split <;> rfl

/-- Under proactive replication the created object is described first. -/
theorem createObjects_states_cons (s : Colyseus) (o : GameObject) (objects : List GameObject) :
    (s.createObjects (o :: objects)).2.1 =
      (if ((s.spawnObject o).2.createObjects objects).1.proactiveReplication then
        [{ o with guid := s.guids s.drawn }.proto] else []) ++
        ((s.spawnObject o).2.createObjects objects).2.1 := by
  simp only [createObjects]
  split <;> rfl

/-- Creating objects draws one guid for each and writes the two maps of primaries. -/
theorem createObjects_frame (objects : List GameObject) (s : Colyseus) :
    (s.createObjects objects).1 =
      { s with
        primaries := (s.createObjects objects).1.primaries
        primaryInterest := (s.createObjects objects).1.primaryInterest
        drawn := s.drawn + objects.length } := by
  induction objects generalizing s with
  | nil => rfl
  | cons o objects ih =>
    have hlen : s.drawn + 1 + objects.length = s.drawn + (o :: objects).length := by
      rw [List.length_cons]
      omega
    rw [createObjects_cons, ih]
    simp only [spawnObject, hlen]

/-- A key that is not drawn keeps its object. -/
theorem createObjects_primaries {g : UInt32} (objects : List GameObject) (s : Colyseus)
    (h : ∀ i < objects.length, s.guids (s.drawn + i) ≠ g) :
    (s.createObjects objects).1.primaries.lookup g = s.primaries.lookup g := by
  induction objects generalizing s with
  | nil => rfl
  | cons o objects ih =>
    have h0 : g ≠ s.guids s.drawn := (h 0 (by simp)).symm
    rw [createObjects_cons, ih]
    · rw [spawnObject, GoMap.lookup_insert_ite, if_neg h0]
    · intro i hi
      rw [spawned_guids]
      exact h (i + 1) (Nat.succ_lt_succ hi)

/-- What is under a key afterwards was there before or is a created object under a drawn guid. -/
theorem createObjects_cases {g : UInt32} {x : GameObject} (objects : List GameObject) (s : Colyseus)
    (h : (s.createObjects objects).1.primaries.lookup g = some x) :
    s.primaries.lookup g = some x ∨
      ∃ i < objects.length, s.guids (s.drawn + i) = g ∧ ∃ o ∈ objects, x = { o with guid := g } := by
  induction objects generalizing s with
  | nil => exact .inl h
  | cons o objects ih =>
    rw [createObjects_cons] at h
    rcases ih _ h with h | ⟨i, hi, hg, o', ho', hx⟩
    · rw [spawnObject, GoMap.lookup_insert_ite] at h
      split at h
      · rename_i hg
        refine .inr ⟨0, by simp, hg.symm, o, List.mem_cons_self, ?_⟩
        rw [← Option.some.inj h, hg]
      · exact .inl h
    · rw [spawned_guids] at hg
      exact .inr ⟨i + 1, Nat.succ_lt_succ hi, hg, o', List.mem_cons_of_mem _ ho', hx⟩

/-- A drawn key has no markers; the other keys keep theirs. -/
theorem createObjects_index (g : UInt32) (objects : List GameObject) (s : Colyseus) :
    (s.createObjects objects).1.primaryInterest.index g [] =
      if ∀ i < objects.length, s.guids (s.drawn + i) ≠ g then s.primaryInterest.index g [] else [] := by
  induction objects generalizing s with
  | nil => simp [createObjects]
  | cons o objects ih =>
    have hsp : (s.spawnObject o).2.primaryInterest.index g [] =
        if g = s.guids s.drawn then [] else s.primaryInterest.index g [] := by
      rw [spawnObject, GoMap.index_insert]
    have hall : (∀ i < (o :: objects).length, s.guids (s.drawn + i) ≠ g) ↔
        s.guids s.drawn ≠ g ∧ ∀ i < objects.length, s.guids (s.drawn + (i + 1)) ≠ g := by
      constructor
      · intro h
        exact ⟨h 0 (by simp), fun i hi => h (i + 1) (Nat.succ_lt_succ hi)⟩
      · rintro ⟨h0, h⟩ (_ | i) hi
        · exact h0
        · exact h i (Nat.lt_of_succ_lt_succ hi)
    rw [createObjects_cons, ih, hsp, if_congr hall rfl rfl]
    simp only [spawned_guids]
    by_cases h0 : g = s.guids s.drawn
    · simp [← h0]
    · simp only [if_neg h0, ne_eq, Ne.symm h0, not_false_eq_true, true_and]

/-- The states and the events sent along have the same length. -/
theorem createObjects_length (objects : List GameObject) (s : Colyseus) :
    (s.createObjects objects).2.1.length = (s.createObjects objects).2.2.length := by
  induction objects generalizing s with
  | nil => rfl
  | cons o objects ih =>
    simp only [createObjects]
    split
    · simp only [List.length_cons, ih]
    · exact ih _

/-- Every state sent along is that of a drawn guid. -/
theorem createObjects_states {st : ProtoGameObject} (objects : List GameObject) (s : Colyseus)
    (h : st ∈ (s.createObjects objects).2.1) :
    ∃ i < objects.length, s.guids (s.drawn + i) = st.guid := by
  induction objects generalizing s with
  | nil => exact absurd h List.not_mem_nil
  | cons o objects ih =>
    rw [createObjects_states_cons] at h
    rcases List.mem_append.mp h with h | h
    · split at h
      · rw [List.mem_singleton.mp h]
        exact ⟨0, Nat.succ_pos _, rfl⟩
      · exact absurd h List.not_mem_nil
    · obtain ⟨i, hi, hg⟩ := ih _ h
      rw [spawned_guids] at hg
      exact ⟨i + 1, Nat.succ_lt_succ hi, hg⟩

/-- Creating objects takes no primary away. -/
theorem createObjects_isSome {g : UInt32} (objects : List GameObject) (s : Colyseus)
    (h : (s.primaries.lookup g).isSome) :
    ((s.createObjects objects).1.primaries.lookup g).isSome := by
  induction objects generalizing s with
  | nil => exact h
  | cons o objects ih =>
    rw [createObjects_cons]
    refine ih _ ?_
    rw [spawnObject, GoMap.lookup_insert_ite]
    split
    · rfl
    · exact h

/-- A state sent along is that of a primary. -/
theorem createObjects_owned (st : ProtoGameObject) (objects : List GameObject) (s : Colyseus)
    (h : st ∈ (s.createObjects objects).2.1) :
    ((s.createObjects objects).1.primaries.lookup st.guid).isSome := by
  induction objects generalizing s with
  | nil => exact absurd h List.not_mem_nil
  | cons o objects ih =>
    have hnew : ((s.spawnObject o).2.primaries.lookup (s.guids s.drawn)).isSome := by
      rw [spawnObject, AList.lookup_insert]
      rfl
    rw [createObjects_cons]
    rw [createObjects_states_cons] at h
    rcases List.mem_append.mp h with h | h
    · split at h
      · rw [List.mem_singleton.mp h]
        exact createObjects_isSome objects _ hnew
      · exact absurd h List.not_mem_nil
    · exact ih _ h

/-- Deleting some guids clears them from all three maps. -/
theorem deleteAll_frame : ∀ (guids : List UInt32) (s : Colyseus),
    guids.foldl deleteObject s =
      { s with
        primaries := (guids.foldl deleteObject s).primaries
        replicas := (guids.foldl deleteObject s).replicas
        primaryInterest := (guids.foldl deleteObject s).primaryInterest }
  | [], _ => rfl
  | g :: guids, s => by
    rw [List.foldl_cons, deleteAll_frame guids]
    rfl

theorem deleteAll_primaries (g : UInt32) : ∀ (guids : List UInt32) (s : Colyseus),
    (guids.foldl deleteObject s).primaries.lookup g =
      if g ∈ guids then none else s.primaries.lookup g
  | [], _ => by simp
  | g' :: guids, s => by
    rw [List.foldl_cons, deleteAll_primaries g guids, deleteObject, GoMap.lookup_erase_ite]
    by_cases h : g = g' <;> simp [h]

theorem deleteAll_replicas (g : UInt32) : ∀ (guids : List UInt32) (s : Colyseus),
    (guids.foldl deleteObject s).replicas.lookup g =
      if g ∈ guids then none else s.replicas.lookup g
  | [], _ => by simp
  | g' :: guids, s => by
    rw [List.foldl_cons, deleteAll_replicas g guids, deleteObject, GoMap.lookup_erase_ite]
    by_cases h : g = g' <;> simp [h]

theorem deleteAll_index (g : UInt32) : ∀ (guids : List UInt32) (s : Colyseus),
    (guids.foldl deleteObject s).primaryInterest.index g [] =
      if g ∈ guids then [] else s.primaryInterest.index g []
  | [], _ => by simp
  | g' :: guids, s => by
    have herase : (s.deleteObject g').primaryInterest.index g [] =
        if g = g' then [] else s.primaryInterest.index g [] := by
      rw [deleteObject, GoMap.index, GoMap.lookup_erase_ite]
      split <;> rfl
    rw [List.foldl_cons, deleteAll_index g guids, herase]
    by_cases h : g = g' <;> simp [h]

/-! ### HandleUpdate on a primary -/

/-- The server, and the states and events sent along, when an event has been applied to a primary and
    the objects it creates have been spawned. -/
def applied (s : Colyseus) (g : UInt32) (o : GameObject) (event : GameEvent) :
    Colyseus × List ProtoGameObject × List GameEvent :=
  { s with
    primaries := s.primaries.insert g (o.advance event)
    drawn := s.drawn + (o.created event (s.guids s.drawn)).length }.createObjects
      (o.created event (s.guids s.drawn))

/-- The update that an event on a primary sends to the interested servers. -/
def pushed (s : Colyseus) (g : UInt32) (o : GameObject) (event : GameEvent) : UpdateRequest :=
  ⟨g, some event, (s.applied g o event).2.1, (s.applied g o event).2.2, o.deleted event⟩

/-- The event makes the object shoot and the guid drawn for the projectile is the object's own. -/
def Overwrites (s : Colyseus) (g : UInt32) (o : GameObject) (event : GameEvent) : Prop :=
  o.type = player ∧ held event.input shoot = true ∧ s.guids (s.drawn + 1) = g

instance (s : Colyseus) (g : UInt32) (o : GameObject) (event : GameEvent) :
    Decidable (s.Overwrites g o event) := inferInstanceAs (Decidable (_ ∧ _))

section
variable {s : Colyseus} {g : UInt32} {o : GameObject}

theorem handleUpdate_primary (h : s.primaries.lookup g = some o) (input : Int32) (now : Int64) :
    s.handleUpdate g input now =
      ((o.deleted ⟨input, now⟩).foldl deleteObject (s.applied g o ⟨input, now⟩).1,
        (s.applied g o ⟨input, now⟩).1.pushes g now (s.pushed g o ⟨input, now⟩)) := by
  simp only [handleUpdate, h, GameObject.applyEvent, Option.map_some, Option.getD_some,
    List.nil_append, applied, pushed]

/-- A server without the primary makes at most a call without states. -/
theorem handleUpdate_no_primary (h : s.primaries.lookup g = none) (input : Int32) (now : Int64) :
    (s.handleUpdate g input now).1 = s ∧ ∀ call ∈ (s.handleUpdate g input now).2,
      call.request = ⟨g, some ⟨input, 0⟩, [], [], []⟩ ∧
        ∃ replica, s.replicas.lookup g = some replica ∧ call.sid = replica.sid ∧
          s.peerEndpoints.lookup replica.sid = some call.peer := by
  cases hr : s.replicas.lookup g with
  | none => simp [handleUpdate, h, hr]
  | some replica =>
    refine ⟨by simp [handleUpdate, h, hr], fun call hcall => ?_⟩
    simp only [handleUpdate, h, hr, Option.mem_toList, Option.map_eq_some_iff] at hcall
    obtain ⟨peer, hpeer, rfl⟩ := hcall
    exact ⟨rfl, replica, rfl, rfl, hpeer⟩

/-- The guids drawn for the created objects are not the object's own. -/
theorem not_overwrites_iff (event : GameEvent) : ¬ s.Overwrites g o event ↔
    ∀ i < (o.created event (s.guids s.drawn)).length,
      s.guids (s.drawn + (o.created event (s.guids s.drawn)).length + i) ≠ g := by
  unfold Overwrites GameObject.created
  split
  · rename_i h
    obtain ⟨hp, hs⟩ := h
    simp [hp, hs]
  · rename_i h
    rw [not_and] at h
    constructor
    · intro _ i hi
      simp at hi
    · rintro - ⟨hp, hs, -⟩
      exact h hp hs

theorem applied_drawn (event : GameEvent) : (s.applied g o event).1.drawn = s.drawn +
    (o.created event (s.guids s.drawn)).length + (o.created event (s.guids s.drawn)).length := by
  rw [applied, createObjects_frame]

theorem applied_frame (event : GameEvent) : (s.applied g o event).1 =
    { s with
      primaries := (s.applied g o event).1.primaries
      primaryInterest := (s.applied g o event).1.primaryInterest
      drawn := (s.applied g o event).1.drawn } := by
  rw [applied, createObjects_frame]

/-- The primary has advanced, unless its guid was drawn for the projectile. -/
theorem applied_primary {event : GameEvent} (h : ¬ s.Overwrites g o event) :
    (s.applied g o event).1.primaries.lookup g = some (o.advance event) := by
  rw [applied, createObjects_primaries _ _ ((not_overwrites_iff event).mp h), AList.lookup_insert]

/-- Every primary afterwards was there before, is the advanced one, or is a created object under a
    guid just drawn. -/
theorem applied_cases {event : GameEvent} {k : UInt32} {x : GameObject}
    (h : (s.applied g o event).1.primaries.lookup k = some x) :
    (k = g ∧ x = o.advance event) ∨ s.primaries.lookup k = some x ∨
      ∃ i, s.drawn ≤ i ∧ i < (s.applied g o event).1.drawn ∧ s.guids i = k ∧
        ∃ y ∈ o.created event (s.guids s.drawn), x = { y with guid := k } := by
  rcases createObjects_cases _ _ h with h | ⟨i, hi, hk, hx⟩
  · rw [GoMap.lookup_insert_ite] at h
    split at h
    · exact .inl ⟨‹_›, (Option.some.inj h).symm⟩
    · exact .inr (.inl h)
  · refine .inr (.inr ⟨s.drawn + (o.created event (s.guids s.drawn)).length + i, ?_, ?_, hk, hx⟩)
    · omega
    · rw [applied_drawn]; omega

theorem applied_index (event : GameEvent) : (s.applied g o event).1.primaryInterest.index g [] =
    if s.Overwrites g o event then [] else s.primaryInterest.index g [] := by
  rw [applied, createObjects_index]
  by_cases h : s.Overwrites g o event
  · rw [if_pos h, if_neg (mt (not_overwrites_iff event).mpr (not_not.mpr h))]
  · rw [if_neg h, if_pos ((not_overwrites_iff event).mp h)]

end

/-! ### HandleUpdate at every key -/

/-- Every primary is stored under its own guid. -/
def Keyed (s : Colyseus) : Prop := ∀ k o, s.primaries.lookup k = some o → o.guid = k

/-- The objects that a response describes. -/
theorem mem_named {s : Colyseus} (hkeyed : s.Keyed) {targets : List UInt32} {o : GameObject} :
    o ∈ targets.filterMap s.primaries.lookup ↔
      o.guid ∈ targets ∧ s.primaries.lookup o.guid = some o := by
  rw [List.mem_filterMap]
  constructor
  · rintro ⟨k, hk, ho⟩
    obtain rfl := hkeyed k o ho
    exact ⟨hk, ho⟩
  · rintro ⟨hk, ho⟩
    exact ⟨o.guid, hk, ho⟩

section
variable (s : Colyseus) (g : UInt32) (input : Int32) (now : Int64)

/-- An update writes the three maps and draws guids. -/
theorem handleUpdate_frame : (s.handleUpdate g input now).1 =
    { s with
      primaries := (s.handleUpdate g input now).1.primaries
      replicas := (s.handleUpdate g input now).1.replicas
      primaryInterest := (s.handleUpdate g input now).1.primaryInterest
      drawn := (s.handleUpdate g input now).1.drawn } := by
  cases h : s.primaries.lookup g with
  | none => rw [(handleUpdate_no_primary h input now).1]
  | some o => rw [handleUpdate_primary h, deleteAll_frame, applied_frame]

theorem handleUpdate_drawn_le : s.drawn ≤ (s.handleUpdate g input now).1.drawn := by
  cases h : s.primaries.lookup g with
  | none => rw [(handleUpdate_no_primary h input now).1]
  | some o =>
    rw [handleUpdate_primary h, deleteAll_frame]
    dsimp only
    rw [applied_drawn]
    omega

variable {s g input now}

/-- Every primary after an update was there before, is the one the event advanced, or is a created
    object under a guid just drawn. -/
theorem handleUpdate_cases {k : UInt32} {x : GameObject}
    (h : (s.handleUpdate g input now).1.primaries.lookup k = some x) :
    (k = g ∧ ∃ o, s.primaries.lookup g = some o ∧ x = o.advance ⟨input, now⟩) ∨
      s.primaries.lookup k = some x ∨
      ∃ i, s.drawn ≤ i ∧ i < (s.handleUpdate g input now).1.drawn ∧ s.guids i = k ∧ x.guid = k := by
  cases hg : s.primaries.lookup g with
  | none =>
    rw [(handleUpdate_no_primary hg input now).1] at h
    exact .inr (.inl h)
  | some o =>
    have hdrawn : (s.handleUpdate g input now).1.drawn = (s.applied g o ⟨input, now⟩).1.drawn := by
      rw [handleUpdate_primary hg, deleteAll_frame]
    rw [handleUpdate_primary hg, deleteAll_primaries] at h
    split at h
    · simp at h
    · rcases applied_cases h with ⟨rfl, rfl⟩ | h | ⟨i, hle, hlt, rfl, y, -, rfl⟩
      · exact .inl ⟨rfl, o, rfl, rfl⟩
      · exact .inr (.inl h)
      · exact .inr (.inr ⟨i, hle, hdrawn ▸ hlt, rfl, rfl⟩)

theorem handleUpdate_replicas {k : UInt32} {x : GameObject}
    (h : (s.handleUpdate g input now).1.replicas.lookup k = some x) :
    s.replicas.lookup k = some x := by
  cases hg : s.primaries.lookup g with
  | none => rwa [(handleUpdate_no_primary hg input now).1] at h
  | some o =>
    rw [handleUpdate_primary hg, deleteAll_replicas, applied_frame] at h
    split at h
    · simp at h
    · exact h

theorem handleUpdate_keyed (h : s.Keyed) : (s.handleUpdate g input now).1.Keyed := by
  intro k x hx
  rcases handleUpdate_cases hx with ⟨rfl, o, ho, rfl⟩ | hx | ⟨i, -, -, -, hx⟩
  · rw [GameObject.advance_guid]
    exact h _ o ho
  · exact h k x hx
  · exact hx

/-- An update of `g` leaves every other key alone that it does not draw. -/
theorem handleUpdate_ne {k : UInt32} (hk : k ≠ g) (hkeyed : s.Keyed)
    (hdraw : ∀ n, s.drawn ≤ n → n < (s.handleUpdate g input now).1.drawn → s.guids n ≠ k) :
    (s.handleUpdate g input now).1.primaries.lookup k = s.primaries.lookup k ∧
      (s.handleUpdate g input now).1.replicas.lookup k = s.replicas.lookup k ∧
      (s.handleUpdate g input now).1.primaryInterest.index k [] = s.primaryInterest.index k [] := by
  cases hg : s.primaries.lookup g with
  | none => rw [(handleUpdate_no_primary hg input now).1]; exact ⟨rfl, rfl, rfl⟩
  | some o =>
    have hdrawn : (s.handleUpdate g input now).1.drawn = (s.applied g o ⟨input, now⟩).1.drawn := by
      rw [handleUpdate_primary hg, deleteAll_frame]
    rw [hdrawn, applied_drawn] at hdraw
    have hcreated : ∀ i < (o.created ⟨input, now⟩ (s.guids s.drawn)).length,
        s.guids (s.drawn + (o.created ⟨input, now⟩ (s.guids s.drawn)).length + i) ≠ k :=
      fun i hi => hdraw _ (by omega) (by omega)
    have hdel : k ∉ o.deleted ⟨input, now⟩ := by
      rw [GameObject.deleted, hkeyed g o hg]
      split
      · simpa using hk
      · exact List.not_mem_nil
    rw [handleUpdate_primary hg, deleteAll_primaries, deleteAll_replicas, deleteAll_index,
      if_neg hdel, if_neg hdel, if_neg hdel]
    refine ⟨?_, ?_, ?_⟩
    · rw [applied, createObjects_primaries _ _ hcreated, AList.lookup_insert_ne hk]
    · rw [applied_frame]
    · rw [applied, createObjects_index, if_pos hcreated]

end

/-! ### The calls of HandleUpdate -/

/-- How many markers of server `sid` for `g` have not expired at `t`. -/
def unexpired (s : Colyseus) (g : UInt32) (sid : Int32) (t : Int64) : ℕ :=
  (s.primaryInterest.index g []).countP fun i => i.sid == sid && !decide (i.ttl < t)

/-- Another server with a peer endpoint. -/
def IsPeer (s : Colyseus) (sid : Int32) : Prop := sid ≠ s.sid ∧ (s.peerEndpoints.lookup sid).isSome

instance (s : Colyseus) (sid : Int32) : Decidable (s.IsPeer sid) :=
  inferInstanceAs (Decidable (_ ∧ _))

/-- A server is called once for each of its registrations that has not expired. -/
theorem pushes_countP (s : Colyseus) (g : UInt32) (now : Int64) (request : UpdateRequest)
    (sid : Int32) :
    ((s.pushes g now request).countP fun call => call.sid == sid) =
      if s.IsPeer sid then s.unexpired g sid now else 0 := by
  rw [pushes, List.countP_filterMap, unexpired]
  split
  · rename_i h
    refine List.countP_congr fun i _ => ?_
    by_cases hi : i.sid = sid
    · subst hi
      obtain ⟨hne, hpeer⟩ := h
      obtain ⟨peer, hpeer⟩ := Option.isSome_iff_exists.mp hpeer
      by_cases ht : i.ttl < now <;> simp [hne, ht, hpeer]
    · by_cases hs : i.sid = s.sid ∨ i.ttl < now
      · simp [hs, hi]
      · cases s.peerEndpoints.lookup i.sid <;> simp [hs, hi]
  · rename_i h
    refine List.countP_eq_zero.mpr fun i _ => ?_
    by_cases hs : i.sid = s.sid ∨ i.ttl < now
    · simp [hs]
    · cases hp : s.peerEndpoints.lookup i.sid with
      | none => simp [hs]
      | some peer =>
        have hne : i.sid ≠ sid := by
          rintro rfl
          exact h ⟨fun heq => hs (.inl heq), by rw [hp]; rfl⟩
        simp [hs, hne]

/-- The calls of an update to a server, counted. -/
theorem handleUpdate_countP {s : Colyseus} {g : UInt32} {o : GameObject}
    (h : s.primaries.lookup g = some o) (input : Int32) (t : Int64) (sid : Int32) :
    ((s.handleUpdate g input t).2.countP fun call => call.sid == sid) =
      if s.IsPeer sid ∧ ¬ s.Overwrites g o ⟨input, t⟩ then s.unexpired g sid t else 0 := by
  have hpeer : (s.applied g o ⟨input, t⟩).1.IsPeer sid ↔ s.IsPeer sid := by
    rw [applied_frame]; exact Iff.rfl
  rw [handleUpdate_primary h, pushes_countP, unexpired, applied_index, if_congr hpeer rfl rfl]
  by_cases ho : s.Overwrites g o ⟨input, t⟩ <;> simp [ho, unexpired]

/-- Every push carries the update, to the endpoint stored for the registered server. -/
theorem mem_pushes {s : Colyseus} {g : UInt32} {now : Int64} {request : UpdateRequest}
    {call : PeerCall UpdateRequest} (h : call ∈ s.pushes g now request) :
    call.request = request ∧ s.peerEndpoints.lookup call.sid = some call.peer := by
  obtain ⟨i, -, hi⟩ := List.mem_filterMap.mp h
  split at hi
  · simp at hi
  · obtain ⟨peer, hpeer, rfl⟩ := Option.map_eq_some_iff.mp hi
    exact ⟨rfl, hpeer⟩

/-! ### NotifySubscriber -/

/-- The needed objects are those of other servers without a replica, each under its server. -/
theorem neededObjects_eq (s : Colyseus) (publications : List MatchMsg) :
    s.neededObjectsBySid publications = GoMap.pushAll MatchMsg.sid MatchMsg.guid ∅
      (publications.filter fun m => m.sid != s.sid && !(s.replicas.lookup m.guid).isSome) := by
  rw [neededObjectsBySid, GoMap.pushAll, List.foldl_filter]
  congr 1
  funext needed m
  by_cases hown : m.sid = s.sid
  · simp [hown]
  · by_cases hreplica : (s.replicas.lookup m.guid).isSome <;> simp [hown, hreplica]

section
variable {s : Colyseus} {collected : GoMap Int32 (List UInt32)}
  {call : PeerCall RegisterInterestRequest}

/-- A `RegisterInterest` call is for the guids collected under a sid, to the peer stored under it. -/
theorem mem_calls {isRenewal : Bool} :
    call ∈ (collected.entries.filterMap fun ⟨sid, guids⟩ =>
        (s.peerEndpoints.lookup sid).map fun peer =>
          (⟨sid, peer, ⟨guids, s.sid, isRenewal⟩⟩ : PeerCall RegisterInterestRequest)) ↔
      ∃ guids, collected.lookup call.sid = some guids ∧
        s.peerEndpoints.lookup call.sid = some call.peer ∧ call.request = ⟨guids, s.sid, isRenewal⟩ := by
  obtain ⟨sid, peer, request⟩ := call
  constructor
  · intro h
    obtain ⟨⟨sid', guids⟩, hmem, h⟩ := List.mem_filterMap.mp h
    obtain ⟨peer', hpeer, heq⟩ := Option.map_eq_some_iff.mp h
    cases heq
    exact ⟨guids, (GoMap.mem_entries_iff _ _ _).mp hmem, hpeer, rfl⟩
  · rintro ⟨guids, hguids, hpeer, rfl⟩
    refine List.mem_filterMap.mpr ⟨⟨sid, guids⟩, (GoMap.mem_entries_iff _ _ _).mpr hguids, ?_⟩
    exact Option.map_eq_some_iff.mpr ⟨peer, hpeer, rfl⟩

theorem mem_interestCalls : call ∈ s.interestCalls collected ↔
    ∃ guids, collected.lookup call.sid = some guids ∧
      s.peerEndpoints.lookup call.sid = some call.peer ∧ call.request = ⟨guids, s.sid, false⟩ :=
  mem_calls

theorem mem_renewals : call ∈ s.renewals collected ↔
    ∃ guids, collected.lookup call.sid = some guids ∧
      s.peerEndpoints.lookup call.sid = some call.peer ∧ call.request = ⟨guids, s.sid, true⟩ :=
  mem_calls

end

end Colyseus

end DistGame
