import DistGame.Server.Handlers

/-! What a server does with the states that others send it: the responses it installs as replicas, and
    the updates it receives for its primaries and its replicas. -/

namespace DistGame
namespace Colyseus

/-- Installing replicas changes the replica map only. -/
theorem installReplicas_frame {sid : Int32} {states : List ProtoGameObject} {events : List GameEvent}
    {s s' : Colyseus} (h : s.installReplicas sid states events = some s') :
    s' = { s with replicas := s'.replicas } := by
  induction states generalizing events s with
  | nil =>
    cases h
    rfl
  | cons st states ih =>
    cases events with
    | nil => simp [installReplicas] at h
    | cons event events =>
      rw [installReplicas] at h
      have hrest := ih h
      exact hrest

/-- A replica was there before, or it is described together with the event that it carries. -/
theorem installReplicas_cases {sid : Int32} {states : List ProtoGameObject} {events : List GameEvent}
    {s s' : Colyseus} {k : UInt32} {x : GameObject}
    (h : s.installReplicas sid states events = some s') (hx : s'.replicas.lookup k = some x) :
    s.replicas.lookup k = some x ∨ ∃ d ∈ states.zip events, d.1.guid = k ∧
      x = d.1.object sid d.2 := by
  induction states generalizing events s with
  | nil =>
    cases h
    exact .inl hx
  | cons st states ih =>
    cases events with
    | nil => simp [installReplicas] at h
    | cons event events =>
      rw [installReplicas] at h
      rw [List.zip_cons_cons]
      rcases ih h with hold | ⟨d, hd, hk, hx⟩
      · rw [GoMap.lookup_insert_ite] at hold
        split at hold
        · rename_i hk
          exact .inr ⟨(st, event), List.mem_cons_self, hk.symm, (Option.some.inj hold).symm⟩
        · exact .inl hold
      · exact .inr ⟨d, List.mem_cons_of_mem _ hd, hk, hx⟩

/-- Installing replicas changes the replica map only, and puts there only described states. -/
theorem installReplicas_spec {sid : Int32} {states : List ProtoGameObject} {events : List GameEvent}
    {s s' : Colyseus} (h : s.installReplicas sid states events = some s') :
    s' = { s with replicas := s'.replicas } ∧
      ∀ {k : UInt32} {x : GameObject}, s'.replicas.lookup k = some x →
        s.replicas.lookup k = some x ∨
          ∃ st ∈ states, ∃ event, k = st.guid ∧ x = st.object sid event := by
  refine ⟨installReplicas_frame h, fun {k x} hx => ?_⟩
  rcases installReplicas_cases h hx with hold | ⟨d, hd, hk, hx⟩
  · exact .inl hold
  · exact .inr ⟨d.1, (List.of_mem_zip hd).1, d.2, hk.symm, hx⟩

/-- A key with a replica keeps one. -/
theorem installReplicas_kept {sid : Int32} {k : UInt32} {states : List ProtoGameObject}
    {events : List GameEvent} {s s' : Colyseus} (h : s.installReplicas sid states events = some s')
    (hk : (s.replicas.lookup k).isSome) : (s'.replicas.lookup k).isSome := by
  induction states generalizing events s with
  | nil =>
    cases h
    exact hk
  | cons st states ih =>
    cases events with
    | nil => simp [installReplicas] at h
    | cons event events =>
      rw [installReplicas] at h
      refine ih h ?_
      rw [GoMap.lookup_insert_ite]
      split
      · rfl
      · exact hk

/-- A described state leaves a replica. -/
theorem installReplicas_described {sid : Int32} {k : UInt32} {states : List ProtoGameObject}
    {events : List GameEvent} {s s' : Colyseus} (h : s.installReplicas sid states events = some s')
    (hk : k ∈ states.map ProtoGameObject.guid) : (s'.replicas.lookup k).isSome := by
  induction states generalizing events s with
  | nil => exact absurd hk List.not_mem_nil
  | cons state states ih =>
    cases events with
    | nil => simp [installReplicas] at h
    | cons event events =>
      rw [installReplicas] at h
      rcases List.mem_cons.mp hk with rfl | hk
      · refine installReplicas_kept h ?_
        rw [AList.lookup_insert]
        rfl
      · exact ih h hk

/-- A key that is not described keeps its replica. -/
theorem installReplicas_ne {sid : Int32} {k : UInt32} {states : List ProtoGameObject}
    {events : List GameEvent} {s s' : Colyseus} (h : s.installReplicas sid states events = some s')
    (hne : ∀ st ∈ states, st.guid ≠ k) : s'.replicas.lookup k = s.replicas.lookup k := by
  induction states generalizing events s with
  | nil =>
    cases h
    rfl
  | cons st states ih =>
    cases events with
    | nil => simp [installReplicas] at h
    | cons event events =>
      rw [installReplicas] at h
      rw [ih h fun st' hst' => hne st' (List.mem_cons_of_mem _ hst'), GoMap.lookup_insert_ite,
        if_neg (hne st List.mem_cons_self).symm]

/-- States are installed exactly when each has an event at its index. -/
theorem installReplicas_isSome_iff (sid : Int32) (states : List ProtoGameObject)
    (events : List GameEvent) (s : Colyseus) :
    (s.installReplicas sid states events).isSome ↔ states.length ≤ events.length := by
  induction states generalizing events s with
  | nil => simp [installReplicas]
  | cons st states ih =>
    cases events with
    | nil => simp [installReplicas]
    | cons event events => simp [installReplicas, ih]

/-- A snapshot of some objects is installed: what is under a key afterwards is one of them under its
    own guid, if there is one, and else what was there. -/
theorem installReplicas_objects (sid : Int32) (k : UInt32) :
    ∀ (objects : List GameObject) (s : Colyseus), ∃ s',
      s.installReplicas sid (objects.map GameObject.proto) (objects.map GameObject.latestEvent) =
        some s' ∧
      ((∃ o ∈ objects, o.guid = k ∧ s'.replicas.lookup k = some { o with sid }) ∨
        ((∀ o ∈ objects, o.guid ≠ k) ∧ s'.replicas.lookup k = s.replicas.lookup k))
  | [], s => ⟨s, rfl, .inr ⟨fun _ h => absurd h List.not_mem_nil, rfl⟩⟩
  | o :: objects, s => by
    obtain ⟨s', hs', hk⟩ := installReplicas_objects sid k objects
      { s with replicas := s.replicas.insert o.guid { o with sid } }
    refine ⟨s', hs', ?_⟩
    rcases hk with ⟨o', ho', hg, hk⟩ | ⟨hne, hk⟩
    · exact .inl ⟨o', List.mem_cons_of_mem _ ho', hg, hk⟩
    · rw [GoMap.lookup_insert_ite] at hk
      split at hk
      · exact .inl ⟨o, List.mem_cons_self, Eq.symm ‹_›, hk⟩
      · refine .inr ⟨fun o' ho' => ?_, hk⟩
        rcases List.mem_cons.mp ho' with rfl | ho'
        · exact Ne.symm ‹_›
        · exact hne o' ho'

/-- The response to a registration that names a primary makes a replica of it. -/
theorem installResponse_named {A B : Colyseus} {g : UInt32} {o : GameObject}
    {request : RegisterInterestRequest} (hkeyed : B.Keyed) (ho : B.primaries.lookup g = some o)
    (hg : g ∈ request.targetGuids) (sid : Int32) (now : Int64) :
    ∃ A', A.installResponse sid (B.registerInterest request now).2 = some A' ∧
      A' = { A with replicas := A'.replicas } ∧ A'.replicas.lookup g = some { o with sid } := by
  obtain ⟨A', hA', hk⟩ := installReplicas_objects sid g
    (request.targetGuids.filterMap B.primaries.lookup) A
  refine ⟨A', by rw [registerInterest_response]; exact hA', installReplicas_frame hA', ?_⟩
  obtain rfl := hkeyed g o ho
  rcases hk with ⟨x, hx, hguid, hk⟩ | ⟨hne, -⟩
  · have hown := ((mem_named hkeyed).mp hx).2
    rw [hguid, ho] at hown
    rw [hk, Option.some.inj hown]
  · exact absurd rfl (hne o ((mem_named hkeyed).mpr ⟨hg, ho⟩))

/-- What `Update` does to a replica, before it deletes: the event is applied, and the states sent
    along may be installed. -/
theorem update_replica {s : Colyseus} {request : UpdateRequest} {replica : GameObject}
    {event : GameEvent} (hp : s.primaries.lookup request.targetGuid = none)
    (hr : s.replicas.lookup request.targetGuid = some replica) (hu : request.update = some event)
    (now : Int64) :
    s.update request now =
      ({ s with replicas := s.replicas.insert request.targetGuid (replica.advance event)
        }.replicateNew replica.sid request).map fun s =>
          (request.deletedGuids.foldl deleteObject s, []) := by
  simp only [update, hp, hr, hu, GameObject.applyEvent, Option.bind_eq_bind, Option.bind_some,
    GameObject.advance_sid, Option.map_eq_bind]
  rfl

/-- Storing replicas of new objects changes the replica map only, and puts there only described
    states. -/
theorem replicateNew_spec {sid : Int32} {request : UpdateRequest} {s s' : Colyseus}
    (h : s.replicateNew sid request = some s') :
    s' = { s with replicas := s'.replicas } ∧
      ∀ {k : UInt32} {x : GameObject}, s'.replicas.lookup k = some x →
        s.replicas.lookup k = some x ∨
          ∃ st ∈ request.initialStates, ∃ event, k = st.guid ∧ x = st.object sid event := by
  rw [replicateNew] at h
  split at h
  · exact installReplicas_spec h
  · cases h
    exact ⟨rfl, .inl⟩

theorem replicateNew_ne {sid : Int32} {request : UpdateRequest} {s s' : Colyseus} {k : UInt32}
    (h : s.replicateNew sid request = some s') (hne : ∀ st ∈ request.initialStates, st.guid ≠ k) :
    s'.replicas.lookup k = s.replicas.lookup k := by
  rw [replicateNew] at h
  split at h
  · exact installReplicas_ne h hne
  · cases h
    rfl

theorem replicateNew_isSome_iff (s : Colyseus) (sid : Int32) (request : UpdateRequest) :
    (s.replicateNew sid request).isSome ↔ (s.proactiveReplication = true →
      request.initialStates.length ≤ request.latestUpdates.length) := by
  rw [replicateNew]
  split
  · simp [installReplicas_isSome_iff, *]
  · simp [*]

/-- `Update` runs `HandleUpdate` at the owner; elsewhere it applies the event to a replica, stores the
    states sent along and deletes, or does nothing. -/
theorem update_cases {s s' : Colyseus} {request : UpdateRequest} {now : Int64}
    {calls : List (PeerCall UpdateRequest)} (h : s.update request now = some (s', calls)) :
    (∃ o event, s.primaries.lookup request.targetGuid = some o ∧ request.update = some event ∧
        (s', calls) = s.handleUpdate request.targetGuid event.input now) ∨
      (s.primaries.lookup request.targetGuid = none ∧ calls = [] ∧
        ((s' = s ∧ s.replicas.lookup request.targetGuid = none) ∨
          ∃ replica event s₁, s.replicas.lookup request.targetGuid = some replica ∧
          { s with replicas := s.replicas.insert request.targetGuid (replica.advance event)
            }.replicateNew replica.sid request = some s₁ ∧
          s' = request.deletedGuids.foldl deleteObject s₁)) := by
  cases hp : s.primaries.lookup request.targetGuid with
  | some o =>
    simp only [update, hp, Option.map_eq_some_iff] at h
    obtain ⟨event, hevent, h⟩ := h
    exact .inl ⟨o, event, rfl, hevent, h.symm⟩
  | none =>
    refine .inr ⟨rfl, ?_⟩
    cases hr : s.replicas.lookup request.targetGuid with
    | none =>
      simp only [update, hp, hr, Option.some.injEq, Prod.mk.injEq] at h
      exact ⟨h.2.symm, .inl ⟨h.1.symm, rfl⟩⟩
    | some replica =>
      cases hu : request.update with
      | none => simp [update, hp, hr, hu] at h
      | some event =>
        rw [update_replica hp hr hu, Option.map_eq_some_iff] at h
        obtain ⟨s₁, hs₁, h⟩ := h
        obtain ⟨rfl, rfl⟩ := Prod.mk.inj h
        exact ⟨rfl, .inr ⟨replica, event, s₁, rfl, hs₁, rfl⟩⟩

/-- `Update` writes the three maps and draws guids. -/
theorem update_frame {s s' : Colyseus} {request : UpdateRequest} {now : Int64}
    {calls : List (PeerCall UpdateRequest)} (h : s.update request now = some (s', calls)) :
    s' = { s with
      primaries := s'.primaries
      replicas := s'.replicas
      primaryInterest := s'.primaryInterest
      drawn := s'.drawn } := by
  rcases update_cases h with ⟨_, event, -, -, h⟩ | ⟨-, -, ⟨rfl, -⟩ | ⟨replica, event, s₁, -, hs₁, rfl⟩⟩
  · obtain ⟨rfl, -⟩ := Prod.mk.inj h
    exact handleUpdate_frame _ _ _ _
  · rfl
  · rw [deleteAll_frame, (replicateNew_spec hs₁).1]

theorem update_drawn_le {s s' : Colyseus} {request : UpdateRequest} {now : Int64}
    {calls : List (PeerCall UpdateRequest)} (h : s.update request now = some (s', calls)) :
    s.drawn ≤ s'.drawn := by
  rcases update_cases h with ⟨_, event, -, -, h⟩ | ⟨-, -, ⟨rfl, -⟩ | ⟨replica, event, s₁, -, hs₁, rfl⟩⟩
  · obtain ⟨rfl, -⟩ := Prod.mk.inj h
    exact handleUpdate_drawn_le _ _ _ _
  · exact Nat.le_refl _
  · rw [deleteAll_frame, (replicateNew_spec hs₁).1]

theorem update_keyed {s s' : Colyseus} {request : UpdateRequest} {now : Int64}
    {calls : List (PeerCall UpdateRequest)} (h : s.update request now = some (s', calls))
    (hkeyed : s.Keyed) : s'.Keyed := by
  rcases update_cases h with ⟨_, event, -, -, h⟩ | ⟨-, -, ⟨rfl, -⟩ | ⟨replica, event, s₁, -, hs₁, rfl⟩⟩
  · obtain ⟨rfl, -⟩ := Prod.mk.inj h
    exact handleUpdate_keyed hkeyed
  · exact hkeyed
  · intro k x hx
    rw [deleteAll_primaries, (replicateNew_spec hs₁).1] at hx
    split at hx
    · simp at hx
    · exact hkeyed k x hx

/-- An `Update` of `g` leaves every other key alone that it does not draw, describe or delete. -/
theorem update_ne {s s' : Colyseus} {request : UpdateRequest} {now : Int64} {k : UInt32}
    {calls : List (PeerCall UpdateRequest)} (h : s.update request now = some (s', calls))
    (hk : k ≠ request.targetGuid) (hkeyed : s.Keyed)
    (hdraw : ∀ n, s.drawn ≤ n → n < s'.drawn → s.guids n ≠ k)
    (hstates : ∀ st ∈ request.initialStates, st.guid ≠ k) (hdel : k ∉ request.deletedGuids) :
    s'.primaries.lookup k = s.primaries.lookup k ∧ s'.replicas.lookup k = s.replicas.lookup k := by
  rcases update_cases h with ⟨_, event, -, -, h⟩ | ⟨-, -, ⟨rfl, -⟩ | ⟨replica, event, s₁, -, hs₁, rfl⟩⟩
  · obtain ⟨rfl, -⟩ := Prod.mk.inj h
    obtain ⟨hp, hr, -⟩ := handleUpdate_ne hk hkeyed hdraw
    exact ⟨hp, hr⟩
  · exact ⟨rfl, rfl⟩
  · rw [deleteAll_primaries, deleteAll_replicas, if_neg hdel, if_neg hdel, replicateNew_ne hs₁ hstates,
      (replicateNew_spec hs₁).1, AList.lookup_insert_ne hk]
    exact ⟨rfl, rfl⟩

end Colyseus

end DistGame
