import DistGame.Server.Fetch

/-! What one action does to the copies of an object: every action keeps the replica and the answers
    still to be installed following the primary. -/

namespace DistGame
namespace Colyseus
namespace Link

section
variable {g : UInt32} {s : Link}

/-- A new call changes no copy. -/
theorem Good.notify (h : Good g s) (publications : List MatchMsg) :
    ∀ s', s.step (.notify publications) = some s' → Good g s' := by
  intro s' hstep
  cases hstep
  have hnew : ∀ fetch ∈ s.fetches ++ ((s.A.interestCalls
      (s.A.neededObjectsBySid publications)).filter fun call => call.peer == s.B.sid).map
        (fun call => (⟨call, .checked⟩ : Fetch)),
      fetch ∈ s.fetches ∨ (fetch.phase = .checked ∧ fetch.call.request.sid = s.A.sid) := by
    intro fetch hfetch
    rcases List.mem_append.mp hfetch with hfetch | hfetch
    · exact .inl hfetch
    · obtain ⟨call, hcall, rfl⟩ := List.mem_map.mp hfetch
      obtain ⟨guids, -, -, hrequest⟩ := mem_interestCalls.mp (List.mem_filter.mp hcall).1
      exact .inr ⟨rfl, by rw [hrequest]⟩
  refine { h with callers := ?_, marked := ?_, replica := ?_, answers := ?_ }
  · intro fetch hfetch
    rcases hnew fetch hfetch with hfetch | ⟨-, hsid⟩
    · exact h.callers fetch hfetch
    · exact hsid
  · rintro (hr | ⟨fetch, hfetch, hg, hphase⟩)
    · exact h.marked (.inl hr)
    · rcases hnew fetch hfetch with hfetch | ⟨hchecked, -⟩
      · exact h.marked (.inr ⟨fetch, hfetch, hg, hphase⟩)
      · exact absurd hchecked hphase
  · rintro (hr | ⟨fetch, hfetch, hg, hphase⟩)
    · exact h.replica (.inl hr)
    · rcases hnew fetch hfetch with hfetch | ⟨hchecked, -⟩
      · exact h.replica (.inr ⟨fetch, hfetch, hg, hphase⟩)
      · rw [hchecked] at hphase
        cases hphase
  · intro fetch hfetch response seen hphase
    rcases hnew fetch hfetch with hfetch | ⟨hchecked, -⟩
    · exact h.answers fetch hfetch response seen hphase
    · rw [hchecked] at hphase
      cases hphase

theorem Installed.registered (h : s.Installed g) : s.Registered g := by
  rcases h with hr | ⟨fetch, hfetch, hg, hphase⟩
  · exact .inl hr
  · refine .inr ⟨fetch, hfetch, hg, ?_⟩
    rw [hphase]
    exact Phase.noConfusion

/-- A member of the list after one entry was replaced. -/
theorem mem_set_cases {fetches : List Fetch} {i : ℕ} {old new fetch : Fetch}
    (hi : fetches[i]? = some old) (h : fetch ∈ fetches.set i new) :
    fetch ∈ fetches ∨ (fetch = new ∧ old ∈ fetches) := by
  rcases List.mem_or_eq_of_mem_set h with h | h
  · exact .inl h
  · exact .inr ⟨h, List.mem_of_getElem? hi⟩

/-- The answer to a registration is a snapshot after all the pushes so far. -/
theorem Good.answer (h : Good g s) (call : PeerCall RegisterInterestRequest) (now : Int64) :
    Snapshot g s.pushes (s.B.primaries.lookup g) call (s.B.registerInterest call.request now).2
      s.pushes.length (call.request.targetGuids.filterMap s.B.primaries.lookup) where
  states := registerInterest_response s.B call.request now
  follows := by
    intro o ho hg
    obtain ⟨hk, hlookup⟩ := (mem_named h.keyedB).mp ho
    subst hg
    refine ⟨hk, Trails.snapshot _ ?_⟩
    rw [hlookup]
    exact .some ⟨rfl, rfl, rfl⟩
  gone := by
    intro hg hne
    cases hlookup : s.B.primaries.lookup g with
    | none => rfl
    | some o =>
      obtain rfl := h.keyedB g o hlookup
      exact absurd rfl (hne o ((mem_named h.keyedB).mpr ⟨hg, hlookup⟩))

/-- After a registration `A` has a marker if it had one or has just named `g`. -/
theorem Good.marks (h : Good g s) {request : RegisterInterestRequest} (now : Int64)
    (hcaller : request.sid = s.A.sid) (hsome : s.B.primaries.lookup g ≠ none)
    (hcase : s.Registered g ∨ g ∈ request.targetGuids) :
    ∃ m ∈ (s.B.registerInterest request now).1.primaryInterest.index g [], m.sid = s.A.sid := by
  rw [registerInterest_index]
  rcases hcase with hreg | hg
  · obtain ⟨m, hm, hsid⟩ := h.marked hreg hsome
    exact ⟨m, List.mem_append_left _ hm, hsid⟩
  · refine ⟨⟨request.sid, now + s.B.interestTTLMs⟩, List.mem_append_right _ ?_, hcaller⟩
    rw [if_pos (Option.isSome_iff_ne_none.mpr hsome), List.mem_replicate]
    exact ⟨(List.count_pos_iff.mpr hg).ne', rfl⟩

/-- The owner's answer is a copy of its primary. -/
theorem Good.register (h : Good g s) (i : ℕ) (now : Int64) :
    ∀ s', s.step (.register i now) = some s' → Good g s' := by
  intro s' hstep
  rw [step] at hstep
  split at hstep
  · rename_i call hi
    cases hB : s.B.registerInterest call.request now with
    | mk B response =>
      rw [hB] at hstep
      cases hstep
      have hcaller := h.callers _ (List.mem_of_getElem? hi)
      have hframe := registerInterest_frame s.B call.request now
      have hanswer := h.answer call now
      rw [hB] at hframe hanswer
      dsimp only at hframe
      have hprim : B.primaries = s.B.primaries := by rw [hframe]
      have hkeyed : B.Keyed := by
        rw [Keyed, hprim]
        exact h.keyedB
      have hdraws : ∀ n, B.drawn ≤ n → B.guids n ≠ g := by
        rw [hframe]
        exact h.drawsB
      have hreplica : B.replicas.lookup g = none := by
        rw [hframe]
        exact h.noReplica
      have hpeer : B.IsPeer s.A.sid := by
        rw [hframe]
        exact h.peer
      refine { h with keyedB := hkeyed, drawsB := hdraws, noReplica := hreplica, peer := hpeer
                      callers := ?_, marked := ?_, replica := ?_, answers := ?_ }
      · intro fetch hfetch
        rcases mem_set_cases hi hfetch with hfetch | ⟨rfl, -⟩
        · exact h.callers fetch hfetch
        · exact hcaller
      · intro hreg hsome
        have hmarks := h.marks now hcaller (by rwa [← hprim])
        rw [hB] at hmarks
        refine hmarks ?_
        rcases hreg with hr | ⟨fetch, hfetch, hg, hphase⟩
        · exact .inl (.inl hr)
        · rcases mem_set_cases hi hfetch with hfetch | ⟨rfl, -⟩
          · exact .inl (.inr ⟨fetch, hfetch, hg, hphase⟩)
          · exact .inr hg
      · intro hinst
        dsimp only
        rw [hprim]
        rcases hinst with hr | ⟨fetch, hfetch, hg, hphase⟩
        · exact h.replica (.inl hr)
        · rcases mem_set_cases hi hfetch with hfetch | ⟨rfl, -⟩
          · exact h.replica (.inr ⟨fetch, hfetch, hg, hphase⟩)
          · cases hphase
      · intro fetch hfetch response' seen hphase
        dsimp only
        rw [hprim]
        rcases mem_set_cases hi hfetch with hfetch | ⟨rfl, -⟩
        · exact h.answers fetch hfetch response' seen hphase
        · cases hphase
          exact ⟨_, hanswer⟩
  · cases hstep

/-- A copy that follows the primary from one push on does so from another one, if as many pushes about
    `g` come before. -/
theorem Good.follows_moved (h : Good g s) {n : ℕ} {primary copy : Option GameObject}
    (hfollows : Follows g s.pushes n primary copy) (hcount : s.about g n = s.about g s.delivered) :
    Follows g s.pushes s.delivered primary copy := by
  refine hfollows.moved h.inTime hcount fun request _ hother c => ?_
  rw [received, if_neg (by simpa using hother)]

/-- The installed answer is what the replica follows from now on. -/
theorem Good.install (h : Good g s) (i : ℕ) (hturn : InTurn g s (.install i)) :
    ∀ s', s.step (.install i) = some s' → Good g s' := by
  intro s' hstep
  rw [step] at hstep
  split at hstep
  · rename_i call response seen hi
    obtain ⟨A, hA, hstep⟩ := Option.map_eq_some_iff.mp hstep
    subst hstep
    have hold : (⟨call, .answered response seen⟩ : Fetch) ∈ s.fetches := List.mem_of_getElem? hi
    have hcaller := h.callers _ hold
    obtain ⟨objects, hsnap⟩ := h.answers _ hold response seen rfl
    have hdue : ∀ o ∈ objects, o.guid = g → s.about g seen = s.about g s.delivered := by
      intro o ho hg
      refine hturn _ hi _ rfl ?_
      rw [hsnap.states, List.map_map]
      exact List.mem_map.mpr ⟨o, ho, hg⟩
    rw [installResponse, hsnap.states] at hA
    have hframe := (installReplicas_spec hA).1
    obtain ⟨A', hA', hlookup⟩ := installReplicas_objects call.sid g objects s.A
    obtain rfl : A = A' := Option.some.inj (hA.symm.trans hA')
    have hsid : A.sid = s.A.sid := by rw [hframe]
    have hkeyed : A.Keyed := by
      rw [hframe]
      exact h.keyedA
    have hdraws : ∀ n, A.drawn ≤ n → A.guids n ≠ g := by
      rw [hframe]
      exact h.drawsA
    have hprim : A.primaries.lookup g = none := by
      rw [hframe]
      exact h.noPrimary
    have hpeer : s.B.IsPeer A.sid := by
      rw [hsid]
      exact h.peer
    refine { h with keyedA := hkeyed, drawsA := hdraws, noPrimary := hprim, peer := hpeer
                    callers := ?_, marked := ?_, replica := ?_, answers := ?_ }
    · intro fetch hfetch
      dsimp only
      rw [hsid]
      rcases mem_set_cases hi hfetch with hfetch | ⟨rfl, -⟩
      · exact h.callers fetch hfetch
      · exact hcaller
    · intro hreg hsome
      dsimp only
      rw [hsid]
      refine h.marked ?_ hsome
      rcases hreg with hr | ⟨fetch, hfetch, hg, hphase⟩
      · rcases hlookup with ⟨o, ho, hg, -⟩ | ⟨-, hsame⟩
        · exact .inr ⟨_, hold, (hsnap.follows o ho hg).1, fun h => by cases h⟩
        · exact .inl (hsame ▸ hr)
      · rcases mem_set_cases hi hfetch with hfetch | ⟨rfl, -⟩
        · exact .inr ⟨fetch, hfetch, hg, hphase⟩
        · exact .inr ⟨_, hold, hg, fun h => by cases h⟩
    · intro hinst
      dsimp only
      rcases hlookup with ⟨o, ho, hg, hnew⟩ | ⟨hne, hsame⟩
      · rw [hnew]
        exact h.follows_moved (hsnap.follows o ho hg).2 (hdue o ho hg)
      · rw [hsame]
        rcases hinst with hr | ⟨fetch, hfetch, hg, hphase⟩
        · exact h.replica (.inl (hsame ▸ hr))
        · rcases mem_set_cases hi hfetch with hfetch | ⟨rfl, -⟩
          · exact h.replica (.inr ⟨fetch, hfetch, hg, hphase⟩)
          · -- the answer says that the object is gone
            by_cases hr : s.A.replicas.lookup g = none
            · refine ⟨h.inTime, ?_⟩
              rw [hr, received_none, hsnap.gone hg hne]
              exact .none
            · exact h.replica (.inl hr)
    · intro fetch hfetch response' seen' hphase
      rcases mem_set_cases hi hfetch with hfetch | ⟨rfl, -⟩
      · exact h.answers fetch hfetch response' seen' hphase
      · cases hphase
  · cases hstep

/-- The owner draws no guid that it would put over `g`. -/
theorem Good.not_overwrites (h : Good g s) (o : GameObject) (event : GameEvent) :
    ¬ s.B.Overwrites g o event := by
  rintro ⟨-, -, hdrawn⟩
  exact h.drawsB _ (Nat.le_succ _) hdrawn

/-- Without the object, an event on it changes nothing and is not pushed. -/
theorem Good.event_gone (h : Good g s) (hP : s.B.primaries.lookup g = none) (input : Int32)
    (now : Int64) : s.B.handleUpdate g input now = (s.B, []) := by
  simp only [handleUpdate, hP, h.noReplica]

/-- While `A` is registered and the registration has not expired, an event on `g` is pushed to it. -/
theorem Good.pushed (h : Good g s) (hreg : s.Registered g) {input : Int32} {now : Int64}
    (hlive : Live g s (.event g input now)) (hP : s.B.primaries.lookup g ≠ none) :
    1 ≤ s.B.unexpired g s.A.sid now := by
  obtain ⟨m, hm, hsid⟩ := h.marked hreg hP
  have hexpires := hlive rfl m hm hsid
  exact List.countP_pos_iff.mpr ⟨m, hm, by simp [hsid, hexpires]⟩

/-- The primary after an event, and what the event's pushes do to a copy that had caught up. -/
theorem Good.event_source (h : Good g s) (guid : UInt32) (input : Int32) (now : Int64)
    (hlive : Live g s (.event guid input now)) (hturn : InTurn g s (.event guid input now))
    (hreg : s.Registered g) (copy : Option GameObject)
    (hcopy : Option.Rel SameState (s.B.primaries.lookup g) copy) :
    Option.Rel SameState ((s.B.handleUpdate guid input now).1.primaries.lookup g)
      ((requestsTo s.A.sid (s.B.handleUpdate guid input now).2).foldl (received g) copy) := by
  by_cases hg : guid = g
  · subst hg
    cases hP : s.B.primaries.lookup guid with
    | none =>
      rw [hP] at hcopy
      rw [h.event_gone hP]
      dsimp only
      rw [hP]
      exact hcopy
    | some o =>
      rw [hP] at hcopy
      have hguid := h.keyedB guid o hP
      have hover := h.not_overwrites o ⟨input, now⟩
      have hpos := h.pushed hreg hlive (by rw [hP]; exact Option.some_ne_none o)
      have hdup : s.B.unexpired guid s.A.sid now = 1 ∨
          (1 ≤ s.B.unexpired guid s.A.sid now ∧ Settled now o ∧ 0 ≤ now ∧ now ≤ now) := by
        rcases hturn rfl o hP with hle | ⟨h0, hset⟩
        · exact .inl (by omega)
        · exact .inr ⟨hpos, hset, h0, Int64.le_refl now⟩
      have hpush := pushed_isPush hguid hover
      rw [requestsTo, handleUpdate_requests hP hover h.peer, received_copies hpush,
        replay_copies ⟨input, now⟩ hcopy hdup, (handleUpdate_event hP hguid hover).1]
      exact rel_replay hcopy _
  · have hdraw : ∀ n, s.B.drawn ≤ n → n < (s.B.handleUpdate guid input now).1.drawn →
        s.B.guids n ≠ g := fun n hn _ => h.drawsB n hn
    rw [(handleUpdate_ne (Ne.symm hg) h.keyedB hdraw).1]
    rw [received_elsewhere ?_]
    · exact hcopy
    · intro r hr
      obtain ⟨call, hcall, rfl⟩ := List.mem_map.mp hr
      exact handleUpdate_elsewhere hg h.keyedB h.drawsB call (List.mem_filter.mp hcall).1

/-- A primary that survives an event was there before, and its markers stay. -/
theorem Good.event_marks (h : Good g s) (guid : UInt32) (input : Int32) (now : Int64)
    (hsome : (s.B.handleUpdate guid input now).1.primaries.lookup g ≠ none) :
    s.B.primaries.lookup g ≠ none ∧
      (s.B.handleUpdate guid input now).1.primaryInterest.index g [] =
        s.B.primaryInterest.index g [] := by
  by_cases hg : guid = g
  · subst hg
    cases hP : s.B.primaries.lookup guid with
    | none =>
      rw [(handleUpdate_no_primary hP input now).1] at hsome
      exact absurd hP hsome
    | some o =>
      have hover := h.not_overwrites o ⟨input, now⟩
      obtain ⟨hprim, -, hindex, -⟩ := handleUpdate_event hP (h.keyedB guid o hP) hover
      refine ⟨Option.some_ne_none o, hindex ?_⟩
      rw [hprim, replay, Option.bind_some] at hsome
      split at hsome
      · exact absurd rfl hsome
      · rename_i hd
        simpa using hd
  · have hdraw : ∀ n, s.B.drawn ≤ n → n < (s.B.handleUpdate guid input now).1.drawn →
        s.B.guids n ≠ g := fun n hn _ => h.drawsB n hn
    obtain ⟨hprim, -, hindex⟩ := handleUpdate_ne (Ne.symm hg) h.keyedB hdraw
    exact ⟨hprim ▸ hsome, hindex⟩

/-- An event's pushes are about the object of the event. -/
theorem Good.event_sent (h : Good g s) (guid : UInt32) (input : Int32) (now : Int64) :
    ∀ request ∈ requestsTo s.A.sid (s.B.handleUpdate guid input now).2,
      (∃ event, IsPush g event request) ∨ Elsewhere g request := by
  intro request hrequest
  by_cases hg : guid = g
  · subst hg
    cases hP : s.B.primaries.lookup guid with
    | none =>
      rw [h.event_gone hP] at hrequest
      exact absurd hrequest List.not_mem_nil
    | some o =>
      have hover := h.not_overwrites o ⟨input, now⟩
      rw [requestsTo, handleUpdate_requests hP hover h.peer] at hrequest
      rw [(List.mem_replicate.mp hrequest).2]
      exact .inl ⟨_, pushed_isPush (h.keyedB guid o hP) hover⟩
  · obtain ⟨call, hcall, rfl⟩ := List.mem_map.mp hrequest
    exact .inr (handleUpdate_elsewhere hg h.keyedB h.drawsB call (List.mem_filter.mp hcall).1)

/-- An event moves the primary, and every copy still follows it. -/
theorem Good.event (h : Good g s) (guid : UInt32) (input : Int32) (now : Int64)
    (hlive : Live g s (.event guid input now)) (hturn : InTurn g s (.event guid input now)) :
    ∀ s', s.step (.event guid input now) = some s' → Good g s' := by
  intro s' hstep
  have hsource := h.event_source guid input now hlive hturn
  have hmarks := h.event_marks guid input now
  have hsent := h.event_sent guid input now
  have hkeyed : (s.B.handleUpdate guid input now).1.Keyed := handleUpdate_keyed h.keyedB
  have hle := handleUpdate_drawn_le s.B guid input now
  have hframe := handleUpdate_frame s.B guid input now
  have hreps : (s.B.handleUpdate guid input now).1.replicas.lookup g = none := by
    cases hr : (s.B.handleUpdate guid input now).1.replicas.lookup g with
    | none => rfl
    | some r => exact absurd (handleUpdate_replicas hr) (by rw [h.noReplica]; simp)
  rw [step] at hstep
  cases hB : s.B.handleUpdate guid input now with
  | mk B calls =>
    rw [hB] at hstep hsource hmarks hsent hkeyed hle hframe hreps
    cases hstep
    dsimp only at hsource hmarks hsent hkeyed hle hframe hreps
    have hpeer : B.IsPeer s.A.sid := by
      rw [hframe]
      exact h.peer
    refine { h with keyedB := hkeyed, drawsB := ?_, noReplica := hreps, peer := hpeer, inTime := ?_
                    sent := ?_, marked := ?_, replica := ?_, answers := ?_ }
    · intro n hn
      dsimp only at hn ⊢
      rw [hframe]
      exact h.drawsB n (hle.trans hn)
    · dsimp only
      rw [List.length_append]
      exact h.inTime.trans (Nat.le_add_right _ _)
    · intro request hrequest
      rcases List.mem_append.mp hrequest with hrequest | hrequest
      · exact h.sent request hrequest
      · exact hsent request hrequest
    · intro hreg hsome
      obtain ⟨hsome, hindex⟩ := hmarks hsome
      dsimp only
      rw [hindex]
      exact h.marked hreg hsome
    · intro hinst
      exact (h.replica hinst).append (hsource hinst.registered)
    · intro fetch hfetch response seen hphase
      obtain ⟨objects, hsnap⟩ := h.answers fetch hfetch response seen hphase
      have hreg : g ∈ fetch.call.request.targetGuids → s.Registered g := fun hg =>
        .inr ⟨fetch, hfetch, hg, fun hc => by rw [hphase] at hc; cases hc⟩
      refine ⟨objects, hsnap.states, fun o ho hg => ?_, fun hg hne => ?_⟩
      · obtain ⟨htarget, hfollows⟩ := hsnap.follows o ho hg
        exact ⟨htarget, hfollows.append (hsource (hreg htarget))⟩
      · by_contra hsome
        exact (hmarks hsome).1 (hsnap.gone hg hne)

/-- What the next push leaves of `g` at the receiver. -/
theorem Good.handled (h : Good g s) {request : UpdateRequest} (hsent : request ∈ s.pushes)
    {now : Int64} {A : Colyseus} {calls : List (PeerCall UpdateRequest)}
    (hA : s.A.update request now = some (A, calls)) : A.primaries.lookup g = none ∧
      A.replicas.lookup g = received g (s.A.replicas.lookup g) request := by
  rcases h.sent request hsent with ⟨event, hpush⟩ | helse
  · obtain ⟨A', hA', -, -, hp, hr⟩ := update_push h.noPrimary hpush now
    obtain ⟨rfl, -⟩ := Prod.mk.inj (Option.some.inj (hA.symm.trans hA'))
    exact ⟨hp, by rw [hr, received_push hpush]⟩
  · have hdraw : ∀ n, s.A.drawn ≤ n → n < A.drawn → s.A.guids n ≠ g :=
      fun n hn _ => h.drawsA n hn
    obtain ⟨hp, hr⟩ := update_ne hA helse.target.symm h.keyedA hdraw helse.states helse.deleted
    exact ⟨hp.trans h.noPrimary, by rw [hr, received, if_neg helse.target]⟩

/-- The next push moves the replica along, if there is one. -/
theorem Good.deliver (h : Good g s) (now : Int64) :
    ∀ s', s.step (.deliver now) = some s' → Good g s' := by
  intro s' hstep
  obtain ⟨request, hnext, hstep⟩ := Option.bind_eq_some_iff.mp hstep
  obtain ⟨⟨A, calls⟩, hA, rfl⟩ := Option.map_eq_some_iff.mp hstep
  have hframe := update_frame hA
  have hle := update_drawn_le hA
  have hsid : A.sid = s.A.sid := by rw [hframe]
  obtain ⟨hprim, hrep⟩ := h.handled (List.mem_of_getElem? hnext) hA
  have hback : A.replicas.lookup g ≠ none → s.A.replicas.lookup g ≠ none := by
    intro hne hr
    have hnone := received_none g [request]
    rw [List.foldl_cons, List.foldl_nil] at hnone
    rw [hrep, hr, hnone] at hne
    exact hne rfl
  have hpeer : s.B.IsPeer A.sid := by
    rw [hsid]
    exact h.peer
  refine { h with keyedA := update_keyed hA h.keyedA, drawsA := ?_, noPrimary := hprim, peer := hpeer
                  callers := ?_, inTime := ?_, marked := ?_, replica := ?_ }
  · intro n hn
    dsimp only at hn ⊢
    rw [hframe]
    exact h.drawsA n (hle.trans hn)
  · intro fetch hfetch
    dsimp only
    rw [hsid]
    exact h.callers fetch hfetch
  · exact (List.getElem?_eq_some_iff.mp hnext).1
  · rintro (hr | hfetched) hsome
    · dsimp only
      rw [hsid]
      exact h.marked (.inl (hback hr)) hsome
    · dsimp only
      rw [hsid]
      exact h.marked (.inr hfetched) hsome
  · intro hinst
    dsimp only
    rw [hrep]
    refine (h.replica ?_).next hnext
    rcases hinst with hr | hfetched
    · exact .inl (hback hr)
    · exact .inr hfetched

theorem Good.step (h : Good g s) (action : LinkAction) {s' : Link} (hlive : Live g s action)
    (hturn : InTurn g s action) (hstep : s.step action = some s') : Good g s' := by
  cases action with
  | notify publications => exact h.notify publications s' hstep
  | register i now => exact h.register i now s' hstep
  | install i => exact h.install i hturn s' hstep
  | event guid input now => exact h.event guid input now hlive hturn s' hstep
  | deliver now => exact h.deliver now s' hstep

end

end Link

end Colyseus

end DistGame
