import DistGame.Server.FetchRuns
import DistGame.Server.Frame
import DistGame.System.Foresight

/-! How far a replica can be from its primary. A replica goes on in the direction of the last event that
    it has received, the primary has turned at the events that are still under way. Both leave from the
    same place at the first of these, at most at the speed of a player. -/

namespace DistGame
open Rectangle GameObject Colyseus

/-! ### Replaying events on one object -/

/-- A player inside the world whose last event is followed by the readings in order. -/
structure Punctual (readings : List Int64) (o : GameObject) : Prop where
  type : o.type = player
  inWorld : InWorld o.rect
  clock : (o.latestEvent.timestamp :: readings).Pairwise Later

namespace Punctual
variable {readings rest : List Int64} {o : GameObject} {events : List GameEvent} {s t t₀ : Int64}

theorem sublist (h : Punctual readings o) (hsub : rest.Sublist readings) : Punctual rest o :=
  ⟨h.type, h.inWorld, h.clock.sublist (hsub.cons_cons _)⟩

/-- The event at the next reading. -/
theorem advance {event : GameEvent} (h : Punctual (event.timestamp :: rest) o) :
    Punctual rest (o.advance event) := by
  obtain ⟨hlast, hrest⟩ := List.pairwise_cons.mp h.clock
  have hnow : Later o.latestEvent.timestamp event.timestamp := hlast _ List.mem_cons_self
  refine ⟨(o.advance_type event).trans h.type, ?_, ?_⟩
  · rw [advance_player h.type]
    exact inWorld_getAdjustedRect h.type h.inWorld (Int64.le_iff_toInt_le.mp hnow.2)
  · rw [advance_player h.type]
    exact hrest

/-- A reading may come several times in a row. -/
theorem copies (before : List Int64) {now : Int64} (h : Punctual (before ++ now :: rest) o) (k : ℕ) :
    Punctual (before ++ (List.replicate k now ++ rest)) o :=
  ⟨h.type, h.inWorld, pairwise_copies (_ :: before) (Later.refl now) h.clock k⟩

/-- From one reading to a later one a player moves at most at its speed, whatever events come in
    between. -/
theorem replayed_near (h : Punctual (s :: (events.map GameEvent.timestamp ++ [t])) o) :
    Near (playerSpeed * (t - s).toInt) (o.getLocation s)
      ((events.foldl GameObject.advance o).getLocation t) := by
  induction events generalizing o s with
  | nil =>
    obtain ⟨hlast, hrest⟩ := List.pairwise_cons.mp h.clock
    rw [← speed_player, ← h.type]
    exact extrapolated_near (hlast s List.mem_cons_self)
      ((List.pairwise_cons.mp hrest).1 t (by simp)) (hlast t (by simp))
  | cons event events ih =>
    obtain ⟨hlast, hrest⟩ := List.pairwise_cons.mp h.clock
    obtain ⟨hs, hlater⟩ := List.pairwise_cons.mp hrest
    obtain ⟨hevent, -⟩ := List.pairwise_cons.mp hlater
    have hnow : Later s event.timestamp := hs _ (by simp)
    have hage : Later o.latestEvent.timestamp event.timestamp := hlast _ (by simp)
    have hfirst : Near (playerSpeed * (event.timestamp - s).toInt) (o.getLocation s)
        (o.getLocation event.timestamp) := by
      rw [← speed_player, ← h.type]
      exact extrapolated_near (hlast s List.mem_cons_self) hnow hage
    -- the event leaves the player in place, and the rest starts from there
    have hthen := ih (o := o.advance event) (s := event.timestamp) ?_
    · rw [advance_location event.input h.type h.inWorld hage] at hthen
      have hsum : ((t - s).toInt : ℚ) =
          (event.timestamp - s).toInt + (t - event.timestamp).toInt := by
        rw [(hs t (by simp)).toInt_sub, hnow.toInt_sub, (hevent t (by simp)).toInt_sub]
        push_cast
        ring
      rw [hsum, mul_add]
      exact hfirst.trans hthen
    · have hafter : Punctual (event.timestamp :: (events.map GameEvent.timestamp ++ [t])) o :=
        h.sublist (List.sublist_cons_self _ _)
      have htwice := (copies [] hafter 2).advance
      exact htwice

/-- An object that has not had some events yet is twice as far away as it can get since the first of
    them. -/
theorem lag_near (h : Punctual (events.map GameEvent.timestamp ++ [t]) o)
    (hevents : ∀ event ∈ events, Later t₀ event.timestamp) (ht : Later t₀ t) :
    Near (2 * playerSpeed * (t - t₀).toInt) (o.getLocation t)
      ((events.foldl GameObject.advance o).getLocation t) := by
  have hspeed : (0 : ℚ) ≤ playerSpeed := by norm_num [playerSpeed]
  cases events with
  | nil =>
    have hpos : (0 : ℚ) ≤ (t - t₀).toInt := by exact_mod_cast Int64.le_iff_toInt_le.mp ht.2
    exact (Near.refl _).mono (by positivity)
  | cons event events =>
    have htwice : Punctual (event.timestamp ::
        ((event :: events).map GameEvent.timestamp ++ [t])) o :=
      copies [] h 2
    have hhere : Punctual (event.timestamp :: ([].map GameEvent.timestamp ++ [t])) o :=
      h.sublist (by simp)
    have hafter : Later event.timestamp t :=
      (List.pairwise_cons.mp (List.pairwise_cons.mp h.clock).2).1 t (by simp)
    have hfirst := hevents event List.mem_cons_self
    have hle : ((t - event.timestamp).toInt : ℚ) ≤ (t - t₀).toInt := by
      rw [hafter.toInt_sub, ht.toInt_sub]
      have := Int64.le_iff_toInt_le.mp hfirst.1
      push_cast
      exact sub_le_sub_left (by exact_mod_cast this) _
    refine (hhere.replayed_near.symm.trans htwice.replayed_near).mono ?_
    calc playerSpeed * (t - event.timestamp).toInt + playerSpeed * (t - event.timestamp).toInt
        = 2 * playerSpeed * (t - event.timestamp).toInt := by ring
      _ ≤ 2 * playerSpeed * (t - t₀).toInt := mul_le_mul_of_nonneg_left hle (by positivity)

end Punctual

namespace Colyseus

/-! ### The events that are still under way -/

/-- The event on `g` that a request carries. -/
def eventOf (g : UInt32) (request : UpdateRequest) : Option GameEvent :=
  if request.targetGuid = g then request.update else none

/-- The events on `g` of some pushes. -/
def due (g : UInt32) (pushes : List UpdateRequest) : List GameEvent := pushes.filterMap (eventOf g)

section
variable {g : UInt32} {request : UpdateRequest} {pushes : List UpdateRequest} {r r' : GameObject}

/-- A replica that is still there has had the event of the request, if there was one. -/
theorem received_some (h : received g (some r) request = some r') :
    r' = (eventOf g request).elim r r.advance := by
  rw [received] at h
  rw [eventOf]
  split at h
  · rename_i hg
    rw [if_pos hg]
    cases hu : request.update with
    | none =>
      rw [hu] at h
      exact (Option.some.inj h).symm
    | some event =>
      rw [hu, Option.elim_some, replay, Option.bind_some] at h
      split at h
      · cases h
      · exact (Option.some.inj h).symm
  · rename_i hg
    rw [if_neg hg]
    exact (Option.some.inj h).symm

/-- A replica that outlives some pushes has had their events. -/
theorem replayed_some (h : pushes.foldl (received g) (some r) = some r') :
    r' = (due g pushes).foldl GameObject.advance r := by
  induction pushes generalizing r with
  | nil => exact (Option.some.inj h).symm
  | cons request pushes ih =>
    rw [List.foldl_cons] at h
    cases hnext : received g (some r) request with
    | none =>
      rw [hnext, received_none] at h
      cases h
    | some r₁ =>
      rw [hnext] at h
      rw [ih h, received_some hnext]
      cases hevent : eventOf g request with
      | none => rw [due, due, List.filterMap_cons_none hevent, Option.elim_none]
      | some event =>
        rw [due, due, List.filterMap_cons_some hevent, List.foldl_cons, Option.elim_some]

end

/-- The reading of an action that is an event on `g`. -/
def LinkAction.reading (g : UInt32) : LinkAction → Option Int64
  | .event guid _ now => if guid = g then some now else none
  | _ => none

namespace Link

/-- The readings of the events on `g` that a copy at position `n` of the pushes has not had. -/
def missing (g : UInt32) (s : Link) (n : ℕ) : List Int64 :=
  (due g (s.pushes.drop n)).map GameEvent.timestamp

/-- After two positions that as many pushes about `g` precede, the same events are missing. -/
theorem missing_eq {g : UInt32} {s : Link} {n m : ℕ} (hcount : s.about g n = s.about g m) :
    s.missing g n = s.missing g m := by
  have hdue (pushes : List UpdateRequest) :
      due g (pushes.filter fun request => request.targetGuid == g) = due g pushes := by
    rw [due, due, List.filterMap_filter]
    refine List.filterMap_congr fun request _ => ?_
    rw [eventOf]
    split <;> simp_all
  rw [missing, missing, ← hdue, filter_drop_eq hcount, hdue]

/-- Every copy of `g` is a player whose last event comes before those that it has not had, and these
    before the readings that follow. -/
structure Lags (g : UInt32) (rest : List Int64) (s : Link) : Prop where
  primary : ∀ o ∈ s.B.primaries.lookup g, Punctual rest o
  replica : ∀ r ∈ s.A.replicas.lookup g, Punctual (s.missing g s.delivered ++ rest) r
  answers : ∀ fetch ∈ s.fetches, ∀ response seen, fetch.phase = .answered response seen →
    seen ≤ s.pushes.length ∧
      ∀ d ∈ response.initialStates.zip response.latestUpdates, d.1.guid = g →
        ∀ sid, Punctual (s.missing g seen ++ rest) (d.1.object sid d.2)

section
variable {g : UInt32} {s s' u : Link} {rest : List Int64} {t t₀ : Int64}

theorem Start.lags (h : Start g s) (hplayer : ∀ o ∈ s.B.primaries.lookup g, Punctual rest o) :
    Lags g rest s where
  primary := hplayer
  replica := by
    intro r hr
    rw [h.noCopy.2] at hr
    cases hr
  answers := by
    intro fetch hfetch
    rw [h.idle.2.2] at hfetch
    exact absurd hfetch List.not_mem_nil

theorem Lags.notify (h : Lags g rest s) (publications : List MatchMsg)
    (hstep : s.step (.notify publications) = some s') : Lags g rest s' := by
  cases hstep
  refine { h with answers := ?_ }
  intro fetch hfetch response seen hphase
  rcases List.mem_append.mp hfetch with hfetch | hfetch
  · exact h.answers fetch hfetch response seen hphase
  · obtain ⟨call, -, rfl⟩ := List.mem_map.mp hfetch
    cases hphase

/-- An answer describes the primary as it is. -/
theorem Lags.register (h : Lags g rest s) (hkeyed : s.B.Keyed) (i : ℕ) (now : Int64)
    (hstep : s.step (.register i now) = some s') : Lags g rest s' := by
  rw [step] at hstep
  split at hstep
  · rename_i call hi
    have hframe := registerInterest_frame s.B call.request now
    have hresponse := registerInterest_response s.B call.request now
    cases hB : s.B.registerInterest call.request now with
    | mk B response =>
      rw [hB] at hstep hframe hresponse
      cases hstep
      dsimp only at hframe hresponse
      refine { h with primary := ?_, answers := ?_ }
      · rw [hframe]
        exact h.primary
      · intro fetch hfetch response' seen hphase
        rcases mem_set_cases hi hfetch with hfetch | ⟨rfl, -⟩
        · exact h.answers fetch hfetch response' seen hphase
        · cases hphase
          refine ⟨Nat.le_refl _, ?_⟩
          rw [hresponse, List.zip_map']
          intro d hd hguid sid
          obtain ⟨o, ho, rfl⟩ := List.mem_map.mp hd
          obtain ⟨-, hlookup⟩ := (mem_named hkeyed).mp ho
          obtain rfl : o.guid = g := hguid
          have hown := h.primary o hlookup
          rw [missing, List.drop_length]
          exact ⟨hown.type, hown.inWorld, hown.clock⟩
  · cases hstep

/-- An answer that is installed in its turn misses what is still to be delivered. -/
theorem Lags.install (h : Lags g rest s) (i : ℕ) (hturn : InTurn g s (.install i))
    (hstep : s.step (.install i) = some s') : Lags g rest s' := by
  rw [step] at hstep
  split at hstep
  · rename_i call response seen hi
    obtain ⟨A, hA, rfl⟩ := Option.map_eq_some_iff.mp hstep
    obtain ⟨-, hanswer⟩ := h.answers _ (List.mem_of_getElem? hi) response seen rfl
    refine { h with replica := ?_, answers := ?_ }
    · intro r hr
      rcases installReplicas_cases hA hr with hold | ⟨d, hd, hguid, rfl⟩
      · exact h.replica r hold
      · have hdescribed : g ∈ response.initialStates.map ProtoGameObject.guid :=
          List.mem_map.mpr ⟨d.1, (List.of_mem_zip hd).1, hguid⟩
        have hnow := hanswer d hd hguid call.sid
        rw [missing_eq (hturn _ hi _ rfl hdescribed)] at hnow
        exact hnow
    · intro fetch hfetch response' seen' hphase
      rcases mem_set_cases hi hfetch with hfetch | ⟨rfl, -⟩
      · exact h.answers fetch hfetch response' seen' hphase
      · cases hphase
  · cases hstep

/-- An event is pushed some number of times, if it is on `g`, and else not at all. -/
theorem Good.event_due (h : Good g s) (guid : UInt32) (input : Int32) (now : Int64) :
    ∃ k, due g (requestsTo s.A.sid (s.B.handleUpdate guid input now).2) =
      List.replicate k ⟨input, now⟩ ∧ (guid ≠ g → k = 0) := by
  by_cases hg : guid = g
  · subst hg
    cases hP : s.B.primaries.lookup guid with
    | none =>
      rw [h.event_gone hP]
      exact ⟨0, rfl, fun _ => rfl⟩
    | some o =>
      have hover := h.not_overwrites o ⟨input, now⟩
      obtain ⟨htarget, hupdate, -⟩ := pushed_isPush (h.keyedB guid o hP) hover
      have hevent : eventOf guid (s.B.pushed guid o ⟨input, now⟩) = some ⟨input, now⟩ := by
        rw [eventOf, if_pos htarget, hupdate]
      refine ⟨s.B.unexpired guid s.A.sid now, ?_, fun hne => absurd rfl hne⟩
      rw [requestsTo, handleUpdate_requests hP hover h.peer, due, List.filterMap_replicate_of_some hevent]
  · refine ⟨0, List.filterMap_eq_nil_iff.mpr fun request hrequest => ?_, fun _ => rfl⟩
    obtain ⟨call, hcall, rfl⟩ := List.mem_map.mp hrequest
    have helse := handleUpdate_elsewhere hg h.keyedB h.drawsB call (List.mem_filter.mp hcall).1
    exact if_neg helse.target

theorem step_event (s : Link) (guid : UInt32) (input : Int32) (now : Int64) :
    s.step (.event guid input now) = some { s with
      B := (s.B.handleUpdate guid input now).1
      pushes := s.pushes ++ requestsTo s.A.sid (s.B.handleUpdate guid input now).2 } := rfl

/-- What a copy misses after an event is what it missed before and the event, as often as it is
    pushed. -/
theorem Good.missing_event (h : Good g s) {guid : UInt32} {input : Int32} {now : Int64} {n : ℕ}
    {o : GameObject} (hn : n ≤ s.pushes.length)
    (ho : Punctual (s.missing g n ++
      (((LinkAction.event guid input now).reading g).toList ++ rest)) o)
    (hstep : s.step (.event guid input now) = some s') : Punctual (s'.missing g n ++ rest) o := by
  obtain ⟨k, hdue, hnone⟩ := h.event_due guid input now
  rw [step_event] at hstep
  cases hstep
  have hmissing : ((due g ((s.pushes ++ requestsTo s.A.sid
      (s.B.handleUpdate guid input now).2).drop n)).map GameEvent.timestamp) =
      s.missing g n ++ List.replicate k now := by
    rw [List.drop_append_of_le_length hn, due, List.filterMap_append, List.map_append]
    refine congrArg (s.missing g n ++ ·) ?_
    rw [← due, hdue, List.map_replicate]
  rw [missing, hmissing, List.append_assoc]
  by_cases hg : guid = g
  · rw [LinkAction.reading, if_pos hg] at ho
    exact ho.copies _ k
  · rw [LinkAction.reading, if_neg hg] at ho
    rw [hnone hg]
    exact ho

/-- What an event leaves of the primary. -/
theorem Good.primary_event (h : Good g s) {guid : UInt32} {input : Int32} {now : Int64}
    (hprimary : ∀ o ∈ s.B.primaries.lookup g,
      Punctual (((LinkAction.event guid input now).reading g).toList ++ rest) o)
    {o : GameObject} (ho : (s.B.handleUpdate guid input now).1.primaries.lookup g = some o) :
    Punctual rest o := by
  by_cases hg : guid = g
  · subst hg
    obtain ⟨x, hx⟩ := Option.ne_none_iff_exists'.mp
      (h.event_marks guid input now (by rw [ho]; exact Option.some_ne_none o)).1
    have hpunctual : Punctual (now :: rest) x := by
      have := hprimary x hx
      rwa [LinkAction.reading, if_pos rfl] at this
    rw [(handleUpdate_event hx (h.keyedB guid x hx) (h.not_overwrites x _)).1, replay,
      Option.bind_some] at ho
    split at ho
    · cases ho
    · cases ho
      exact hpunctual.advance
  · rw [LinkAction.reading, if_neg hg] at hprimary
    rw [(handleUpdate_ne (Ne.symm hg) h.keyedB fun n hn _ => h.drawsB n hn).1] at ho
    exact hprimary o ho

/-- An event moves the primary, and the copies have one more to come. -/
theorem Lags.event {guid : UInt32} {input : Int32} {now : Int64}
    (h : Lags g (((LinkAction.event guid input now).reading g).toList ++ rest) s) (hgood : Good g s)
    (hstep : s.step (.event guid input now) = some s') : Lags g rest s' := by
  have hmissing {n : ℕ} {o : GameObject} (hn : n ≤ s.pushes.length) (ho : Punctual (s.missing g n ++
      (((LinkAction.event guid input now).reading g).toList ++ rest)) o) :
      Punctual (s'.missing g n ++ rest) o := hgood.missing_event hn ho hstep
  rw [step_event] at hstep
  cases hstep
  refine ⟨?_, ?_, ?_⟩
  · exact fun o ho => hgood.primary_event h.primary ho
  · exact fun r hr => hmissing hgood.inTime (h.replica r hr)
  · intro fetch hfetch response seen hphase
    obtain ⟨hseen, hanswer⟩ := h.answers fetch hfetch response seen hphase
    refine ⟨hseen.trans (by rw [List.length_append]; exact Nat.le_add_right _ _), ?_⟩
    exact fun d hd hguid sid => hmissing hseen (hanswer d hd hguid sid)

/-- A push that is delivered is no longer missing. -/
theorem Lags.deliver (h : Lags g rest s) (hgood : Good g s) (now : Int64)
    (hstep : s.step (.deliver now) = some s') : Lags g rest s' := by
  obtain ⟨request, hnext, hstep⟩ := Option.bind_eq_some_iff.mp hstep
  obtain ⟨⟨A, calls⟩, hA, rfl⟩ := Option.map_eq_some_iff.mp hstep
  refine { h with replica := ?_ }
  intro r hr
  have hreceived := (hgood.handled (List.mem_of_getElem? hnext) hA).2
  obtain ⟨hn, hget⟩ := List.getElem?_eq_some_iff.mp hnext
  cases hold : s.A.replicas.lookup g with
  | none =>
    have hnone := received_none g [request]
    rw [List.foldl_cons, List.foldl_nil] at hnone
    rw [hold, hnone] at hreceived
    rw [hreceived] at hr
    cases hr
  | some o =>
    rw [hold] at hreceived
    have hpunctual := h.replica o hold
    rw [missing, List.drop_eq_getElem_cons hn, hget] at hpunctual
    rw [received_some (hreceived.symm.trans hr)]
    cases hevent : eventOf g request with
    | none =>
      rw [due, List.filterMap_cons_none hevent] at hpunctual
      exact hpunctual
    | some event =>
      rw [due, List.filterMap_cons_some hevent] at hpunctual
      exact hpunctual.advance

theorem Lags.step {action : LinkAction} (h : Lags g ((action.reading g).toList ++ rest) s)
    (hgood : Good g s) (hturn : InTurn g s action) (hstep : s.step action = some s') :
    Lags g rest s' := by
  cases action with
  | notify publications => exact h.notify publications hstep
  | register i now => exact h.register hgood.keyedB i now hstep
  | install i => exact h.install i hturn hstep
  | event guid input now => exact h.event hgood hstep
  | deliver now => exact h.deliver hgood now hstep

/-- Step by step the readings of a run are used up. -/
theorem Lags.run {actions : List LinkAction} (hgood : Good g s)
    (h : Lags g (actions.filterMap (LinkAction.reading g) ++ rest) s)
    (hlive : Meets Link.step (Live g) s actions) (hturn : Meets Link.step (InTurn g) s actions)
    (hrun : DistGame.run Link.step s actions = some u) : Good g u ∧ Lags g rest u := by
  induction actions generalizing s with
  | nil =>
    cases hrun
    exact ⟨hgood, h⟩
  | cons action actions ih =>
    obtain ⟨s₁, hstep, hrest⟩ := run_cons_eq_some.mp hrun
    have hfirst : Lags g ((action.reading g).toList ++
        (actions.filterMap (LinkAction.reading g) ++ rest)) s := by
      cases hreading : action.reading g with
      | none => rwa [List.filterMap_cons_none hreading] at h
      | some now => rwa [List.filterMap_cons_some hreading] at h
    exact ih (hgood.step action hlive.1 hturn.1 hstep) (hfirst.step hgood hturn.1 hstep)
      (hlive.2 s₁ hstep) (hturn.2 s₁ hstep) hrest

end

/-- A run of the protocol from before any fetch of `g`, a player inside the world, to a state in which
    the receiver has a replica of it. No registration expires and each answer is installed in its turn,
    the events on `g` have their readings in order before `t`, and those that have not reached the
    replica come after `t₀`. -/
structure Sighting (g : UInt32) (s u : Link) (actions : List LinkAction) (t₀ t : Int64)
    (r x : GameObject) : Prop where
  start : Start g s
  player : ∀ o ∈ s.B.primaries.lookup g,
    Punctual (actions.filterMap (LinkAction.reading g) ++ [t]) o
  live : Meets Link.step (Live g) s actions
  turn : Meets Link.step (InTurn g) s actions
  run : DistGame.run Link.step s actions = some u
  replica : u.A.replicas.lookup g = some r
  primary : u.B.primaries.lookup g = some x
  due : ∀ event ∈ due g (u.pushes.drop u.delivered), Later t₀ event.timestamp
  clock : Later t₀ t

section
variable {g : UInt32} {s u : Link} {actions : List LinkAction} {t₀ t : Int64} {r x : GameObject}

/-- The replica is a player, and as far from the primary as both can have moved since `t₀`. -/
theorem Sighting.near (h : Sighting g s u actions t₀ t r x) : u.A.Keyed ∧ r.type = DistGame.player ∧
    Near (2 * playerSpeed * (t - t₀).toInt) (r.getLocation t) (x.getLocation t) := by
  obtain ⟨hgood, hlags⟩ := (h.start.lags h.player).run h.start.good h.live h.turn h.run
  have hpunctual := hlags.replica r h.replica
  have hfollows :=
    (hgood.replica (.inl (by rw [h.replica]; exact Option.some_ne_none r))).replayed
  refine ⟨hgood.keyedA, hpunctual.type, ?_⟩
  rw [h.primary, h.replica] at hfollows
  cases hy : (u.pushes.drop u.delivered).foldl (received g) (some r) with
  | none =>
    rw [hy] at hfollows
    cases hfollows
  | some y =>
    rw [hy] at hfollows
    cases hfollows with
    | some hsame =>
      have hlag := hpunctual.lag_near h.due h.clock
      rw [← replayed_some hy] at hlag
      have hplace : x.getLocation t = y.getLocation t := by
        rw [GameObject.getLocation, GameObject.getLocation, hsame.latestEvent]
        exact hsame.getAdjustedRect _
      rwa [hplace]

/-- A replica is shown no further from its primary than both can have moved since the first event that
    has not reached it; with nothing under way, it is shown in the same place. -/
theorem replicas_lag_bounded (h : Sighting g s u actions t₀ t r x) :
    Near (2 * playerSpeed * (t - t₀).toInt) (r.getLocation t) (x.getLocation t) :=
  h.near.2.2

/-- A frame at the receiver errs by no more than that: what hits the replica would hit the primary if
    the primary were larger by the lag on each side, and a projectile that would hit the primary if it
    were smaller by the lag hits some player. -/
theorem hits_within_lag {i : Iteration} {p : GameObject} (h : Sighting g s u actions t₀ t r x)
    (hi : i.Of u.A) (hp : p ∈ u.A.primaries.values) (hprojectile : p.type = projectile) :
    ((p, r) ∈ i.hits t → (p.getLocation t).intersects
        ((x.getLocation t).grown (2 * playerSpeed * (t - t₀).toInt)) = true) ∧
      ((p.getLocation t).intersects
          ((x.getLocation t).grown (-(2 * playerSpeed * (t - t₀).toInt))) = true →
        ∃ o, (p, o) ∈ i.hits t) := by
  obtain ⟨hkeyed, hplayer, hnear⟩ := h.near
  have hspec : u.A.Hits t (i.hits t) := hits_spec hkeyed hi
  constructor
  · intro hhit
    obtain ⟨-, -, hmeet⟩ := hspec.collide _ hhit
    exact hnear.symm.intersects_grown (Near.refl _) (by rw [add_zero]) hmeet
  · intro hmeet
    have hcollides : u.A.Collides t p r := by
      refine ⟨.inr ((GoMap.mem_values_iff _ _).mpr ⟨g, h.replica⟩), hplayer, ?_⟩
      exact hnear.symm.contains_shrunk.intersects hmeet
    obtain ⟨hit, hhit, rfl⟩ := hspec.complete p hp hprojectile r hcollides
    exact ⟨hit.2, hhit⟩

end

/-- Server 2 also owns a projectile that stands still. -/
def armed : Link := { unfetched with
  A := { unfetched.A with
    primaries := (∅ : GoMap UInt32 GameObject).insert 300
      ⟨300, 2, ⟨10 + 14 / 5, 10, 1, 1⟩, projectile, ⟨0, 0⟩⟩ } }

theorem start_armed : Start 7 armed := { start_unfetched with
  keyedA := (GoMap.forall_entries_iff armed.A.primaries fun k o => o.guid = k).mp (by decide)
  noCopy := ⟨by decide, rfl⟩ }

/-- The player turns right and then up; the second push is still under way. -/
def pushedOnce : List LinkAction :=
  [.notify [⟨7, 1⟩], .register 0 1000, .event 7 right 1500, .event 7 up 2000, .install 0,
    .deliver 2010]

/-- The objects of a server in the order of its maps. -/
def inOrder (s : Colyseus) : Iteration :=
  ⟨s.primaries.values, fun _ => s.primaries.values, fun _ => s.replicas.values⟩

/-- Half a second after the player turned, the projectile hits its replica. -/
theorem sighting_pushedOnce : ∃ u r x, Sighting 7 armed u pushedOnce 2000 2500 r x ∧
    ((r.getLocation 2500).x = (x.getLocation 2500).x + 1 / 2 ∧
      (r.getLocation 2500).y = (x.getLocation 2500).y + 1 / 2) ∧
    ∃ p, u.A.primaries.lookup 300 = some p ∧ p.type = projectile ∧
      (p, r) ∈ (inOrder u.A).hits 2500 ∧
      (p.getLocation 2500).intersects (x.getLocation 2500) = false := by
  obtain ⟨u, hrun, hsome, hdue⟩ := exists_of_map_decide (o := DistGame.run step armed pushedOnce)
    (P := fun u => ((u.A.replicas.lookup 7).bind fun r => (u.B.primaries.lookup 7).bind fun x =>
        (u.A.primaries.lookup 300).map fun p =>
          decide (((r.getLocation 2500).x = (x.getLocation 2500).x + 1 / 2 ∧
            (r.getLocation 2500).y = (x.getLocation 2500).y + 1 / 2) ∧ p.type = projectile ∧
            (p, r) ∈ (inOrder u.A).hits 2500 ∧
            (p.getLocation 2500).intersects (x.getLocation 2500) = false)) = some true ∧
      ∀ event ∈ due 7 (u.pushes.drop u.delivered), Later 2000 event.timestamp)
    (by decide +kernel)
  obtain ⟨r, hr, hsome⟩ := Option.bind_eq_some_iff.mp hsome
  obtain ⟨x, hx, hsome⟩ := Option.bind_eq_some_iff.mp hsome
  obtain ⟨p, hp, hplace⟩ := Option.map_eq_some_iff.mp hsome
  obtain ⟨happart, hprojectile, hhit, hmiss⟩ := of_decide_eq_true hplace
  have hplayer : ∀ o ∈ armed.B.primaries.lookup 7,
      Punctual (pushedOnce.filterMap (LinkAction.reading 7) ++ [2500]) o := by
    intro o ho
    cases ho
    exact ⟨rfl, by decide +kernel, by decide +kernel⟩
  exact ⟨u, r, x, ⟨start_armed, hplayer, by decide +kernel, by decide +kernel, hrun, hr, hx, hdue,
    by decide⟩, happart, p, hp, hprojectile, hhit, hmiss⟩

/-- The player is half a unit away from its replica on both axes. -/
theorem replicas_lag_bounded_pushedOnce : ∃ u r x,
    DistGame.run step armed pushedOnce = some u ∧ u.A.replicas.lookup 7 = some r ∧
    u.B.primaries.lookup 7 = some x ∧ (r.getLocation 2500).x = (x.getLocation 2500).x + 1 / 2 ∧
    (r.getLocation 2500).y = (x.getLocation 2500).y + 1 / 2 ∧
    Near 1 (r.getLocation 2500) (x.getLocation 2500) := by
  obtain ⟨u, r, x, h, ⟨hplacex, hplacey⟩, -⟩ := sighting_pushedOnce
  refine ⟨u, r, x, h.run, h.replica, h.primary, hplacex, hplacey,
    (replicas_lag_bounded h).mono ?_⟩
  decide +kernel

/-- The projectile hits the replica and not the player, which it misses by less than the lag. -/
theorem hits_within_lag_pushedOnce : ∃ u r x p, DistGame.run step armed pushedOnce = some u ∧
    u.A.replicas.lookup 7 = some r ∧ u.B.primaries.lookup 7 = some x ∧
    (p, r) ∈ (inOrder u.A).hits 2500 ∧
    (p.getLocation 2500).intersects (x.getLocation 2500) = false ∧
    (p.getLocation 2500).intersects
      ((x.getLocation 2500).grown (2 * playerSpeed * (2500 - 2000 : Int64).toInt)) = true := by
  obtain ⟨u, r, x, h, -, p, hp, hprojectile, hhit, hmiss⟩ := sighting_pushedOnce
  have hmem : p ∈ u.A.primaries.values := (GoMap.mem_values_iff _ _).mpr ⟨300, hp⟩
  have hin : (inOrder u.A).Of u.A :=
    ⟨List.Perm.refl _, fun _ => List.Perm.refl _, fun _ => List.Perm.refl _⟩
  exact ⟨u, r, x, p, h.run, h.replica, h.primary, hhit, hmiss,
    (hits_within_lag h hin hmem hprojectile).1 hhit⟩

end Link

end Colyseus

end DistGame
