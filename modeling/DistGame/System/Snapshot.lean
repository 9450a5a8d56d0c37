import Mathlib.Data.List.Chain
import DistGame.Server.Replay
import DistGame.System.Alone

/-! A replica that starts from a snapshot and follows its primary: the state is installed from the
    response to a registration, and each later push of the owner is delivered one or more times in a
    row. Delivered again, a push changes nothing, because a player that moves forwards in time stays in
    the world. -/

namespace DistGame

/-- The clock has not gone back, and the time that has passed is a 64-bit number. -/
def Later (prev now : Int64) : Prop := prev ≤ now ∧ 0 ≤ now - prev

instance (prev now : Int64) : Decidable (Later prev now) := inferInstanceAs (Decidable (_ ∧ _))

/-- If the object is a player, it is inside the world, and it stands still or moves forwards in time
    up to `now`. -/
def Steady (now : Int64) (o : GameObject) : Prop :=
  o.type = player → InWorld o.rect ∧ (o.latestEvent.input = 0 ∨ 0 ≤ now - o.latestEvent.timestamp)

namespace GameObject

theorem held_zero (bit : Int32) : held 0 bit = false := by simp [held]

theorem moved_still (rect : Rectangle) (d : ℚ) : moved rect 0 d = rect := by
  simp [moved, held_zero]

/-- An event leaves a steady player in the world. -/
theorem inWorld_advance {o : GameObject} {now : Int64} (h : Steady now o) (input : Int32)
    (hp : o.type = player) : InWorld (o.advance ⟨input, now⟩).rect := by
  obtain ⟨hin, hmove⟩ := h hp
  rw [advance_player hp]
  rcases hmove with hstill | hforwards
  · simp only [getAdjustedRect, if_pos hp, hstill, moved_still]
    exact hin
  · exact inWorld_getAdjustedRect hp hin (Int64.le_iff_toInt_le.mp hforwards)

theorem steady_advance {o : GameObject} {now t : Int64} (h : Steady now o) (input : Int32)
    (hlater : Later now t) : Steady t (o.advance ⟨input, now⟩) := by
  intro hp
  rw [advance_type] at hp
  refine ⟨inWorld_advance h input hp, .inr ?_⟩
  rw [advance_player hp]
  exact hlater.2

end GameObject

namespace Colyseus

/-! ### The objects that an event creates -/

/-- The objects under the guids drawn from the `n`th on. -/
def named (guids : ℕ → UInt32) : ℕ → List GameObject → List GameObject
  | _, [] => []
  | n, o :: objects => { o with guid := guids n } :: named guids (n + 1) objects

/-- The entries under which objects are stored. -/
def stored (objects : List GameObject) : List (UInt32 × GameObject) :=
  objects.map fun o => (o.guid, o)

/-- What an event on `o` creates, under the guids it is stored under. -/
def newcomers (s : Colyseus) (o : GameObject) (event : GameEvent) : List GameObject :=
  named s.guids (s.drawn + (o.created event (s.guids s.drawn)).length)
    (o.created event (s.guids s.drawn))

theorem createObjects_stored (objects : List GameObject) (s : Colyseus) :
    (s.createObjects objects).1.primaries =
      s.primaries.writeAll (stored (named s.guids s.drawn objects)) := by
  induction objects generalizing s with
  | nil => rfl
  | cons o objects ih =>
    rw [createObjects_cons, ih]
    rfl

/-- Under proactive replication the created objects are described as they are stored. -/
theorem createObjects_described (objects : List GameObject) (s : Colyseus)
    (h : s.proactiveReplication = true) : (s.createObjects objects).2 =
      ((named s.guids s.drawn objects).map GameObject.proto,
        (named s.guids s.drawn objects).map GameObject.latestEvent) := by
  induction objects generalizing s with
  | nil => rfl
  | cons o objects ih =>
    have hproactive : ((s.spawnObject o).2.createObjects objects).1.proactiveReplication = true := by
      rw [createObjects_frame]
      exact h
    have hrest := ih (s.spawnObject o).2 h
    simp only [createObjects, hproactive, if_true, hrest]
    rfl

theorem named_sid {guids : ℕ → UInt32} {x : GameObject} {sid : Int32} (objects : List GameObject)
    (n : ℕ) (h : ∀ o ∈ objects, o.sid = sid) (hx : x ∈ named guids n objects) : x.sid = sid := by
  induction objects generalizing n with
  | nil => exact absurd hx List.not_mem_nil
  | cons o objects ih =>
    rcases List.mem_cons.mp hx with rfl | hx
    · exact h o List.mem_cons_self
    · exact ih (n + 1) (fun y hy => h y (List.mem_cons_of_mem _ hy)) hx

/-- What is created belongs to the owner of the object that created it. -/
theorem newcomers_sid {s : Colyseus} {o x : GameObject} {event : GameEvent}
    (hx : x ∈ s.newcomers o event) : x.sid = o.sid := by
  refine named_sid _ _ ?_ hx
  intro y hy
  rw [GameObject.created] at hy
  split at hy
  · rw [List.mem_singleton.mp hy]
    simp [GameObject.shot]
  · exact absurd hy List.not_mem_nil

/-- Installing the described objects of a server stores them. -/
theorem installReplicas_stored {sid : Int32} (objects : List GameObject) (s : Colyseus)
    (h : ∀ o ∈ objects, o.sid = sid) :
    s.installReplicas sid (objects.map GameObject.proto) (objects.map GameObject.latestEvent) =
      some { s with replicas := s.replicas.writeAll (stored objects) } := by
  induction objects generalizing s with
  | nil => rfl
  | cons o objects ih =>
    have ho : o.proto.object sid o.latestEvent = o := by
      rw [← h o List.mem_cons_self]
      rfl
    simp only [List.map_cons, installReplicas, ho]
    rw [ih _ fun y hy => h y (List.mem_cons_of_mem _ hy)]
    rfl

section
variable {s : Colyseus} {g : UInt32} {o : GameObject} {event : GameEvent}

theorem applied_stored : (s.applied g o event).1.primaries =
    GoMap.writeAll (s.primaries.insert g (o.advance event)) (stored (s.newcomers o event)) := by
  rw [applied, createObjects_stored]
  rfl

theorem pushed_described (e : GameEvent) (h : s.proactiveReplication = true) :
    (s.pushed g o e).initialStates = (s.newcomers o e).map GameObject.proto ∧
      (s.pushed g o e).latestUpdates = (s.newcomers o e).map GameObject.latestEvent := by
  have hdescribed : (s.applied g o e).2 = ((s.newcomers o e).map GameObject.proto,
      (s.newcomers o e).map GameObject.latestEvent) := by
    rw [applied]
    exact createObjects_described _ _ h
  simp only [pushed, hdescribed, and_self]

/-- A primary that an event has added is one of those it created, whatever map they are written to. -/
theorem newcomer_written {k : UInt32} {x : GameObject} {input : Int32} {now : Int64}
    (ho : s.primaries.lookup g = some o) (hnone : s.primaries.lookup k = none)
    (hx : (s.handleUpdate g input now).1.primaries.lookup k = some x) (m : GoMap UInt32 GameObject) :
    (m.writeAll (stored (s.newcomers o ⟨input, now⟩))).lookup k = some x := by
  have hk : k ≠ g := by
    rintro rfl
    simp [hnone] at ho
  rw [handleUpdate_primary ho, deleteAll_primaries, applied_stored] at hx
  split at hx
  · cases hx
  · rcases GoMap.writeAll_lookup k (stored (s.newcomers o ⟨input, now⟩)) with hold | ⟨v, hnew⟩
    · rw [hold, AList.lookup_insert_ne hk, hnone] at hx
      cases hx
    · rw [hnew] at hx ⊢
      exact hx

end

/-! ### One event at the owner -/

/-- One event on an object: the registrations that its owner handles before, what is held and the
    clock reading. -/
structure Beat where
  requests : List (RegisterInterestRequest × Int64)
  input : Int32
  now : Int64

/-- The owner of `g` handles the registrations and then the event. -/
def beat (g : UInt32) (B : Colyseus) (b : Beat) : Colyseus × List (PeerCall UpdateRequest) :=
  (B.receive b.requests).handleUpdate g b.input b.now

/-- No guid that the owner draws for the event is `g`. -/
def Unrepeated (g : UInt32) (B : Colyseus) (b : Beat) : Prop :=
  ∀ n, B.drawn ≤ n → n < (beat g B b).1.drawn → B.guids n ≠ g

instance (g : UInt32) (B : Colyseus) (b : Beat) : Decidable (Unrepeated g B b) :=
  inferInstanceAs (Decidable (∀ n, B.drawn ≤ n → n < (beat g B b).1.drawn → B.guids n ≠ g))

/-- What `B` has of `g` is its own, and it keeps no replica when the primary is gone. -/
structure Own (g : UInt32) (B : Colyseus) : Prop where
  own : ∀ o, B.primaries.lookup g = some o → o.guid = g ∧ o.sid = B.sid
  gone : B.primaries.lookup g = none → B.replicas.lookup g = none

/-- The primary of `g`, if there is one, is steady up to `now`. -/
def SteadyAt (g : UInt32) (B : Colyseus) (now : Int64) : Prop :=
  ∀ o, B.primaries.lookup g = some o → Steady now o

section
variable {g : UInt32} {B : Colyseus} {b : Beat}

theorem receive_primaries (requests : List (RegisterInterestRequest × Int64)) (B : Colyseus) :
    (B.receive requests).primaries = B.primaries := by rw [receive_frame]

theorem receive_overwrites {o : GameObject} (h : B.primaries.lookup g = some o)
    (hdraw : Unrepeated g B b) : ¬ (B.receive b.requests).Overwrites g o ⟨b.input, b.now⟩ := by
  have hguids : (B.receive b.requests).guids = B.guids := by rw [receive_frame]
  have hdrawn : (B.receive b.requests).drawn = B.drawn := by rw [receive_frame]
  refine not_overwrites (by rw [receive_primaries]; exact h) (Nat.le_refl _) fun n hn hlt => ?_
  rw [hguids]
  exact hdraw n (hdrawn ▸ hn) hlt

/-- The owner replays the event and still owns what is left. -/
theorem beat_own (h : Own g B) (hdraw : Unrepeated g B b) :
    (beat g B b).1.primaries.lookup g = replay (B.primaries.lookup g) ⟨b.input, b.now⟩ ∧
      Own g (beat g B b).1 := by
  cases ho : B.primaries.lookup g with
  | none =>
    have hp : (B.receive b.requests).primaries.lookup g = none := by
      rw [receive_primaries]
      exact ho
    rw [beat, (handleUpdate_no_primary hp b.input b.now).1, hp]
    refine ⟨rfl, fun o hx => ?_, fun _ => ?_⟩
    · simp [hp] at hx
    · rw [receive_frame]
      exact h.gone ho
  | some o =>
    obtain ⟨hguid, hsid⟩ := h.own o ho
    have hp : (B.receive b.requests).primaries.lookup g = some o := by
      rw [receive_primaries]
      exact ho
    obtain ⟨hprimary, -, -, hsid', -⟩ := handleUpdate_event hp hguid (receive_overwrites ho hdraw)
    refine ⟨hprimary, fun x hx => ?_, fun hgone => ?_⟩
    · rw [beat, hprimary, replay, Option.bind_some] at hx
      split at hx
      · cases hx
      · cases hx
        rw [beat, hsid', receive_frame]
        simp [hguid, hsid]
    · rw [beat, hprimary, replay, Option.bind_some] at hgone
      split at hgone
      · rename_i hdies
        rw [beat, handleUpdate_primary hp, deleteAll_replicas, GameObject.deleted, if_pos hdies, hguid]
        simp
      · cases hgone

theorem beat_steady (h : Own g B) (hdraw : Unrepeated g B b) (hsteady : SteadyAt g B b.now)
    {t : Int64} (hlater : Later b.now t) : SteadyAt g (beat g B b).1 t := by
  intro x hx
  rw [(beat_own h hdraw).1] at hx
  obtain ⟨o, ho, hx⟩ := Option.bind_eq_some_iff.mp hx
  split at hx
  · cases hx
  · cases hx
    exact GameObject.steady_advance (hsteady o ho) b.input hlater

end

/-! ### The pushes at the replica -/

section
variable {s : Colyseus} {g k : UInt32} {event : GameEvent} {request : UpdateRequest}
  {objects : List GameObject} {x : GameObject} {sid : Int32}

/-- A push that reaches a replica also stores what it describes. -/
theorem update_push_stored (hp : s.primaries.lookup g = none) {r : GameObject}
    (hr : s.replicas.lookup g = some r) (hpush : IsPush g event request)
    (hproactive : s.proactiveReplication = true)
    (hstates : request.initialStates = objects.map GameObject.proto)
    (hevents : request.latestUpdates = objects.map GameObject.latestEvent)
    (hsids : ∀ o ∈ objects, o.sid = r.sid) (hk : k ≠ g)
    (hx : ∀ m : GoMap UInt32 GameObject, (m.writeAll (stored objects)).lookup k = some x)
    (now : Int64) : ∃ s', s.update request now = some (s', []) ∧ s'.replicas.lookup k = some x := by
  obtain ⟨rfl, hupd, -, -, hdel⟩ := hpush
  refine ⟨_, by
    rw [update_replica hp hr hupd, replicateNew, if_pos hproactive, hstates, hevents,
      installReplicas_stored _ _ hsids]
    rfl, ?_⟩
  rw [deleteAll_replicas, if_neg]
  · exact hx _
  · rw [hdel]
    split
    · simpa using hk
    · exact List.not_mem_nil

/-- An object that is stored stays when the push is delivered again. -/
theorem deliver_keeps (hpush : IsPush g event request)
    (hstates : request.initialStates = objects.map GameObject.proto)
    (hevents : request.latestUpdates = objects.map GameObject.latestEvent)
    (hsids : ∀ o ∈ objects, o.sid = sid) (hk : k ≠ g)
    (hx : ∀ m : GoMap UInt32 GameObject, (m.writeAll (stored objects)).lookup k = some x)
    (deliveries : List (UpdateRequest × Int64)) (hall : ∀ d ∈ deliveries, d.1 = request)
    (hp : s.primaries.lookup g = none) (hproactive : s.proactiveReplication = true)
    (hr : ∀ r, s.replicas.lookup g = some r → r.sid = sid)
    (hthere : s.replicas.lookup k = some x ∨
      (deliveries ≠ [] ∧ (s.replicas.lookup g).isSome)) :
    ∃ s', s.deliver deliveries = some s' ∧ s'.replicas.lookup k = some x := by
  induction deliveries generalizing s with
  | nil =>
    rcases hthere with hthere | ⟨hne, -⟩
    · exact ⟨s, rfl, hthere⟩
    · exact absurd rfl hne
  | cons d deliveries ih =>
    have hd : d.1 = request := hall d List.mem_cons_self
    obtain ⟨s₁, hs₁, -, -, hp₁, hr₁⟩ := update_push hp hpush d.2
    have hframe := update_frame hs₁
    have hstored : s₁.replicas.lookup k = some x := by
      cases hg : s.replicas.lookup g with
      | none =>
        have hsame : s.update request d.2 = some (s, []) := by
          have hp' : s.primaries.lookup request.targetGuid = none := hpush.target ▸ hp
          have hg' : s.replicas.lookup request.targetGuid = none := hpush.target ▸ hg
          simp only [update, hp', hg']
        rw [hsame] at hs₁
        cases hs₁
        rcases hthere with hthere | ⟨-, hsome⟩
        · exact hthere
        · simp [hg] at hsome
      | some r =>
        obtain ⟨s₂, hs₂, hstored⟩ := update_push_stored hp hg hpush hproactive hstates hevents
          (fun o ho => (hsids o ho).trans (hr r hg).symm) hk hx d.2
        rw [hs₁] at hs₂
        cases hs₂
        exact hstored
    have hr₁' : ∀ r, s₁.replicas.lookup g = some r → r.sid = sid := by
      intro r hsome
      rw [hr₁] at hsome
      obtain ⟨r₀, hr₀, hsome⟩ := Option.bind_eq_some_iff.mp hsome
      split at hsome
      · cases hsome
      · cases hsome
        simp [hr r₀ hr₀]
    obtain ⟨s', hs', hthere'⟩ := ih (fun d' hd' => hall d' (List.mem_cons_of_mem _ hd')) hp₁
      (by rw [hframe]; exact hproactive) hr₁' (.inl hstored)
    refine ⟨s', ?_, hthere'⟩
    rw [deliver, hd, hs₁]
    exact hs'

end

/-! ### Owner and replica together -/

/-- One event at the owner and the deliveries of what it pushed to the replica's server. -/
abbrev Round := Beat × List (UpdateRequest × Int64)

/-- The owner serialises the event of the round, and the replica's server handles the deliveries. -/
def exchange (g : UInt32) (s : Colyseus × Colyseus) (r : Round) : Option (Colyseus × Colyseus) :=
  (s.1.deliver r.2).map fun A => (A, (beat g s.2 r.1).1)

/-- The deliveries are copies, one or more, of the update that the event makes the owner send to the
    replica's server, and the owner does not draw `g`. -/
def Delivers (g : UInt32) (s : Colyseus × Colyseus) (r : Round) : Prop :=
  r.2 ≠ [] ∧ (∀ d ∈ r.2, d.1 ∈ requestsTo s.1.sid (beat g s.2 r.1).2) ∧ Unrepeated g s.2 r.1

instance (g : UInt32) (s : Colyseus × Colyseus) (r : Round) : Decidable (Delivers g s r) :=
  inferInstanceAs (Decidable (_ ∧ _))

/-- Every primary that the event has added at the owner has an equal replica. -/
def Mirrors (s s' : Colyseus × Colyseus) : Prop :=
  ∀ k x, s.2.primaries.lookup k = none → s'.2.primaries.lookup k = some x →
    s'.1.replicas.lookup k = some x

/-- The replica equals the primary after every round, also in that neither is there, and under
    proactive replication what an event creates has equal replicas. -/
def Follows (g : UInt32) : Colyseus × Colyseus → List Round → Prop
  | s, [] => s.1.replicas.lookup g = s.2.primaries.lookup g
  | s, r :: rounds => s.1.replicas.lookup g = s.2.primaries.lookup g ∧
    ∃ s', exchange g s r = some s' ∧
      (s.1.proactiveReplication = true → s.2.proactiveReplication = true → Mirrors s s') ∧
      Follows g s' rounds

section
variable {g : UInt32} {A B : Colyseus}

/-- What the owner of a primary sends for an event is one push. -/
theorem beat_requests {b : Beat} {o : GameObject} {sid : Int32} {request : UpdateRequest}
    (ho : B.primaries.lookup g = some o)
    (hmem : request ∈ requestsTo sid (beat g B b).2) :
    request = (B.receive b.requests).pushed g o ⟨b.input, b.now⟩ := by
  obtain ⟨call, hcall, rfl⟩ := List.mem_map.mp hmem
  have hp : (B.receive b.requests).primaries.lookup g = some o := by
    rw [receive_primaries]
    exact ho
  have hsent := (List.mem_filter.mp hcall).1
  rw [beat, handleUpdate_primary hp] at hsent
  exact (mem_pushes hsent).1

/-- An owner without the primary sends nothing. -/
theorem beat_gone {b : Beat} (hown : Own g B) (ho : B.primaries.lookup g = none) (sid : Int32) :
    requestsTo sid (beat g B b).2 = [] := by
  have hp : (B.receive b.requests).primaries.lookup g = none := by
    rw [receive_primaries]
    exact ho
  have hr : (B.receive b.requests).replicas.lookup g = none := by
    rw [receive_frame]
    exact hown.gone ho
  simp only [beat, handleUpdate, hp, hr]
  rfl

/-- Delivered copies of the push also store what the event has created. -/
theorem deliver_mirrors {A' : Colyseus} {b : Beat} {o : GameObject}
    {deliveries : List (UpdateRequest × Int64)} (hown : Own g B) (ho : B.primaries.lookup g = some o)
    (hsame : A.replicas.lookup g = B.primaries.lookup g) (hnone : A.primaries.lookup g = none)
    (hdraw : Unrepeated g B b) (hne : deliveries ≠ [])
    (hall : ∀ d ∈ deliveries, d.1 = (B.receive b.requests).pushed g o ⟨b.input, b.now⟩)
    (hA : A.proactiveReplication = true) (hB : B.proactiveReplication = true)
    (hdeliver : A.deliver deliveries = some A') : Mirrors (A, B) (A', (beat g B b).1) := by
  intro k x hk hx
  have hp : (B.receive b.requests).primaries.lookup g = some o := by
    rw [receive_primaries]
    exact ho
  have hk' : (B.receive b.requests).primaries.lookup k = none := by
    rw [receive_primaries]
    exact hk
  have hkg : k ≠ g := by
    rintro rfl
    simp [ho] at hk
  have hproactive : (B.receive b.requests).proactiveReplication = true := by
    rw [receive_frame]
    exact hB
  have hpush := pushed_isPush (hown.own o ho).1 (receive_overwrites ho hdraw)
  obtain ⟨hstates, hevents⟩ := pushed_described (g := g) (o := o) ⟨b.input, b.now⟩ hproactive
  obtain ⟨A₁, hA₁, hthere⟩ := deliver_keeps (s := A) hpush hstates hevents
    (fun y hy => newcomers_sid hy) hkg (newcomer_written hp hk' hx) deliveries hall hnone hA
    (fun r hr => by rw [hsame, ho] at hr; cases hr; rfl)
    (.inr ⟨hne, by rw [hsame, ho]; rfl⟩)
  rw [hdeliver] at hA₁
  cases hA₁
  exact hthere

/-- One round keeps replica and primary equal. -/
theorem exchange_follows {r : Round} (hown : Own g B) (hsame : A.replicas.lookup g = B.primaries.lookup g)
    (hnone : A.primaries.lookup g = none) (hsteady : SteadyAt g B r.1.now)
    (hdelivers : Delivers g (A, B) r) :
    ∃ s', exchange g (A, B) r = some s' ∧ s'.1.replicas.lookup g = s'.2.primaries.lookup g ∧
      s'.1.primaries.lookup g = none ∧ s'.2 = (beat g B r.1).1 ∧
      (A.proactiveReplication = true → B.proactiveReplication = true → Mirrors (A, B) s') := by
  obtain ⟨b, deliveries⟩ := r
  obtain ⟨hne, hcopies, hdraw⟩ := hdelivers
  obtain ⟨hprimary, -⟩ := beat_own hown hdraw
  cases ho : B.primaries.lookup g with
  | none =>
    -- without a primary and a replica the owner sends nothing that could be delivered
    obtain ⟨d, hd⟩ := List.exists_mem_of_ne_nil _ hne
    have hsent := hcopies d hd
    rw [beat_gone hown ho] at hsent
    exact absurd hsent List.not_mem_nil
  | some o =>
    have hrequest : ∀ d ∈ deliveries, d.1 = (B.receive b.requests).pushed g o ⟨b.input, b.now⟩ :=
      fun d hd => beat_requests ho (hcopies d hd)
    have hpush := pushed_isPush (hown.own o ho).1 (receive_overwrites ho hdraw)
    obtain ⟨A', hA', -, hnone', hreplica⟩ := deliver_pushes (s := A) hnone fun d hd => by
      rw [hrequest d hd]
      exact hpush
    have hidem : replay (replay (A.replicas.lookup g) ⟨b.input, b.now⟩) ⟨b.input, b.now⟩ =
        replay (A.replicas.lookup g) ⟨b.input, b.now⟩ := by
      rw [hsame]
      exact replay_replay fun x hx => GameObject.inWorld_advance (hsteady x hx) b.input
    have hlen : 1 ≤ deliveries.length := List.length_pos_of_ne_nil hne
    refine ⟨(A', (beat g B b).1), by simp [exchange, hA'], ?_, hnone', rfl, fun hA hB => ?_⟩
    · show A'.replicas.lookup g = (beat g B b).1.primaries.lookup g
      rw [hreplica, foldl_replicate (.inr ⟨hlen, hidem⟩), hprimary, hsame]
    · exact deliver_mirrors hown ho hsame hnone hdraw hne hrequest hA hB hA'

/-- A server that serialises events serves them one by one. -/
def serves (g : UInt32) (B : Colyseus) (b : Beat) : Option Colyseus := some (beat g B b).1

/-- Whatever events and registrations come first, the owner still owns its steady primary. -/
theorem serves_own {before : List Beat} {later : List Int64} {B B₁ : Colyseus} (hown : Own g B)
    (hsteady : ∀ t ∈ (before.map Beat.now ++ later).head?, SteadyAt g B t)
    (hclock : (before.map Beat.now ++ later).IsChain Later)
    (hdraws : Meets (serves g) (Unrepeated g) B before) (hrun : run (serves g) B before = some B₁) :
    Own g B₁ ∧ (∀ t ∈ later.head?, SteadyAt g B₁ t) ∧ later.IsChain Later := by
  induction before generalizing B with
  | nil =>
    cases hrun
    exact ⟨hown, hsteady, hclock⟩
  | cons b before ih =>
    obtain ⟨B', hserves, hrun⟩ := run_cons_eq_some.mp hrun
    obtain ⟨hdraw, hdraws⟩ := hdraws
    cases hserves
    obtain ⟨hnext, hclock⟩ := List.isChain_cons.mp hclock
    refine ih (beat_own hown hdraw).2 (fun t ht => ?_) hclock (hdraws _ rfl) hrun
    exact beat_steady hown hdraw (hsteady b.now rfl) (hnext t ht)

theorem exchange_run {rounds : List Round} (hown : Own g B)
    (hsame : A.replicas.lookup g = B.primaries.lookup g) (hnone : A.primaries.lookup g = none)
    (hsteady : ∀ t ∈ (rounds.map fun r => r.1.now).head?, SteadyAt g B t)
    (hclock : (rounds.map fun r => r.1.now).IsChain Later)
    (hdelivers : Meets (exchange g) (Delivers g) (A, B) rounds) : Follows g (A, B) rounds := by
  induction rounds generalizing A B with
  | nil => exact hsame
  | cons r rounds ih =>
    obtain ⟨hdeliver, hlater⟩ := hdelivers
    obtain ⟨hnext, hclock⟩ := List.isChain_cons.mp hclock
    have hready : SteadyAt g B r.1.now := hsteady r.1.now rfl
    obtain ⟨⟨A', B'⟩, hexchange, hsame', hnone', hbeat, hmirrors⟩ :=
      exchange_follows hown hsame hnone hready hdeliver
    obtain rfl : B' = (beat g B r.1).1 := hbeat
    have hown' := (beat_own hown hdeliver.2.2).2
    refine ⟨hsame, (A', _), hexchange, hmirrors, ?_⟩
    refine ih hown' hsame' hnone' (fun t ht => ?_) hclock (hlater _ hexchange)
    exact beat_steady hown hdeliver.2.2 hready (hnext t ht)

/-- At the end of the rounds the replica equals the primary. -/
theorem Follows.last {rounds : List Round} {s s' : Colyseus × Colyseus} (h : Follows g s rounds)
    (hrun : run (exchange g) s rounds = some s') :
    s'.1.replicas.lookup g = s'.2.primaries.lookup g := by
  induction rounds generalizing s with
  | nil =>
    cases hrun
    exact h
  | cons r rounds ih =>
    obtain ⟨s₁, hs₁, hrun⟩ := run_cons_eq_some.mp hrun
    obtain ⟨-, s₂, hs₂, -, hfollows⟩ := h
    rw [hs₁] at hs₂
    cases hs₂
    exact ih hfollows hrun

theorem serves_inStep {b : Beat} {B' : Colyseus} (h : B.InStep) (hserves : serves g B b = some B') :
    B'.InStep := by
  cases hserves
  refine InStep.handleUpdate ?_ _ _ _
  rw [receive]
  induction b.requests generalizing B with
  | nil => exact h
  | cons r requests ih => exact ih (h.registerTargets r.1.sid r.2 r.1.targetGuids)

theorem own_of_inStep (h : B.InStep)
    (hgone : B.primaries.lookup g = none → B.replicas.lookup g = none) : Own g B where
  own := fun o ho => ⟨h.keyed g o ho, h.sids g o ho⟩
  gone := hgone

/-- A spawned object stands still until the first event on it. -/
theorem spawn_stored {state : ProtoGameObject} {t : Int64} {B₀ : Colyseus}
    (h : B.spawn ⟨some state⟩ t = some (g, B₀)) :
    ∃ o, B₀.primaries.lookup g = some o ∧ o.rect = ⟨state.x, state.y, state.w, state.h⟩ ∧
      o.latestEvent.input = 0 := by
  cases h
  exact ⟨_, AList.lookup_insert _, rfl, rfl⟩

theorem spawn_steady {state : ProtoGameObject} {t : Int64} {B₀ : Colyseus} (hin : B.InStep)
    (h : B.spawn ⟨some state⟩ t = some (g, B₀))
    (hworld : InWorld ⟨state.x, state.y, state.w, state.h⟩) :
    B₀.InStep ∧ ∀ now, SteadyAt g B₀ now := by
  refine ⟨?_, fun now o ho _ => ?_⟩
  · cases h
    exact hin.spawnObject rfl
  · obtain ⟨o', ho', hrect, hinput⟩ := spawn_stored h
    rw [ho'] at ho
    cases ho
    exact ⟨hrect ▸ hworld, .inl hinput⟩

/-- A primary is described in the response to a registration that names it, and installed at another
    server the response makes an equal replica. -/
theorem snapshot_installed {request : RegisterInterestRequest} {o : GameObject} {t : Int64}
    (hkeyed : B.Keyed) (ho : B.primaries.lookup g = some o) (hsid : o.sid = B.sid)
    (hmem : g ∈ request.targetGuids) :
    ∃ A₁, A.installResponse B.sid (B.registerInterest request t).2 = some A₁ ∧
      A₁.replicas.lookup g = some o ∧ A₁.primaries = A.primaries := by
  obtain ⟨A₁, hA₁, hframe, hreplica⟩ := installResponse_named (A := A) hkeyed ho hmem B.sid t
  exact ⟨A₁, hA₁, by rw [hreplica, ← hsid], by rw [hframe]⟩

/-- Snapshot and replay. A reachable server spawns an object inside the world and serialises any events
    on it; a registration that names it is answered and the response installed at a server that has no
    such primary; after each later event, its push delivered in order and any number of times in a
    row, the replica is the primary. The clock does not go back, by less than 2^63 milliseconds from
    one event to the next. -/
theorem snapshot_replay {S B₀ B₁ : Colyseus} {inputs : List Input} {state : ProtoGameObject}
    {t₀ t : Int64} {before : List Beat} {request : RegisterInterestRequest} {rounds : List Round}
    (hfresh : S.Fresh) (hreach : run step S inputs = some B)
    (hspawn : B.spawn ⟨some state⟩ t₀ = some (g, B₀))
    (hworld : InWorld ⟨state.x, state.y, state.w, state.h⟩)
    (hserved : run (serves g) B₀ before = some B₁)
    (hdraws : Meets (serves g) (Unrepeated g) B₀ before)
    (hthere : (B₁.primaries.lookup g).isSome) (hmem : g ∈ request.targetGuids)
    (hnone : A.primaries.lookup g = none)
    (hclock : (before.map Beat.now ++ rounds.map fun r => r.1.now).IsChain Later) :
    ∃ A₁, A.installResponse B₁.sid (B₁.registerInterest request t).2 = some A₁ ∧
      (Meets (exchange g) (Delivers g) (A₁, (B₁.registerInterest request t).1) rounds →
        Follows g (A₁, (B₁.registerInterest request t).1) rounds) := by
  obtain ⟨hin₀, hsteady₀⟩ := spawn_steady (run_inStep hfresh.inStep hreach).1 hspawn hworld
  have hin₁ := run_preserves (fun _ _ _ => serves_inStep) hin₀ hserved
  obtain ⟨o₀, ho₀, -⟩ := spawn_stored hspawn
  have hown₀ : Own g B₀ := own_of_inStep hin₀ fun hgone => by simp [ho₀] at hgone
  obtain ⟨hown₁, hsteady₁, hclock₁⟩ := serves_own hown₀ (fun t _ => hsteady₀ t) hclock hdraws hserved
  obtain ⟨o, ho⟩ := Option.isSome_iff_exists.mp hthere
  obtain ⟨A₁, hA₁, hreplica, hprimaries⟩ :=
    snapshot_installed (A := A) (t := t) hin₁.keyed ho (hin₁.sids g o ho) hmem
  refine ⟨A₁, hA₁, fun hdelivers => ?_⟩
  have hframe : (B₁.registerInterest request t).1.primaries = B₁.primaries := by
    rw [registerInterest_frame]
  refine exchange_run ?_ ?_ ?_ ?_ hclock₁ hdelivers
  · rw [registerInterest_frame]
    exact ⟨hown₁.own, hown₁.gone⟩
  · rw [hframe, hreplica, ho]
  · rw [hprimaries]
    exact hnone
  · intro u hu x hx
    exact hsteady₁ u hu x (hframe ▸ hx)

end

/-! ### A player and its pushes, each delivered twice -/

/-- Server 1, connected to server 2, before and after it spawns a player at `t`. -/
def lead : Colyseus :=
  { newServer 1 100 with peerEndpoints := (∅ : GoMap Int32 Int32).insert 2 2 }

def launched (t : Int64) : Colyseus := (lead.spawnObject ⟨0, 1, ⟨10, 10, 2, 2⟩, player, ⟨0, t⟩⟩).2

/-- The first registration of server 2. -/
def enrol : RegisterInterestRequest := ⟨[100], 2, false⟩

/-- The rounds in which each push to server 2 is delivered twice. -/
def doubled (g : UInt32) : Colyseus → List Beat → List Round
  | _, [] => []
  | B, b :: beats =>
    let requests := requestsTo 2 (beat g B b).2
    (b, (requests ++ requests).map fun request => (request, b.now)) :: doubled g (beat g B b).1 beats

theorem reach_lead : run step (newServer 1 100) [.connect 2] = some lead := rfl

theorem spawn_launched (t : Int64) :
    lead.spawn ⟨some ⟨0, 10, 10, 2, 2, player⟩⟩ t = some (100, launched t) := rfl

/-- The player turns left as soon as it is there, and right 2^63 milliseconds later, after server 2 has
    renewed its registration. -/
def aeons : List Beat :=
  [⟨[], left, Int64.minValue⟩, ⟨[(⟨[100], 2, true⟩, 0)], right, 0⟩]

/-- The time between the two events is negative as a 64-bit number, so the player leaves the world; the
    push of the second event, delivered again, puts the replica at the wall. -/
theorem replica_departs :
    InWorld ⟨10, 10, 2, 2⟩ ∧ (aeons.map Beat.now).IsChain (· ≤ ·) ∧
      ∃ A₁, (newServer 2 200).installResponse 1
          ((launched Int64.minValue).registerInterest enrol Int64.minValue).2 = some A₁ ∧
        Meets (exchange 100) (Delivers 100)
          (A₁, ((launched Int64.minValue).registerInterest enrol Int64.minValue).1)
          (doubled 100 ((launched Int64.minValue).registerInterest enrol Int64.minValue).1 aeons) ∧
        ¬ Follows 100 (A₁, ((launched Int64.minValue).registerInterest enrol Int64.minValue).1)
          (doubled 100 ((launched Int64.minValue).registerInterest enrol Int64.minValue).1 aeons) := by
  refine ⟨by decide +kernel, by decide, ?_⟩
  obtain ⟨A₁, hA₁, hdelivers, hdiffer⟩ := exists_of_map_decide
    (o := (newServer 2 200).installResponse 1
      ((launched Int64.minValue).registerInterest enrol Int64.minValue).2)
    (P := fun A₁ => Meets (exchange 100) (Delivers 100)
        (A₁, ((launched Int64.minValue).registerInterest enrol Int64.minValue).1)
        (doubled 100 ((launched Int64.minValue).registerInterest enrol Int64.minValue).1 aeons) ∧
      ((run (exchange 100) (A₁, ((launched Int64.minValue).registerInterest enrol Int64.minValue).1)
        (doubled 100 ((launched Int64.minValue).registerInterest enrol Int64.minValue).1 aeons)).any
          fun s => s.1.replicas.lookup 100 ≠ s.2.primaries.lookup 100)) (by decide +kernel)
  obtain ⟨s, hrun, hne⟩ := (Option.any_eq_true _ _).mp hdiffer
  exact ⟨A₁, hA₁, hdelivers, fun hfollows => of_decide_eq_true hne (hfollows.last hrun)⟩

/-- The player goes right; registered, it goes up, and then shoots and dies. -/
def lastShot : List Beat := [⟨[], up, 1500⟩, ⟨[], shoot ||| die, 2000⟩]

theorem snapshot_replay_lastShot : ∃ B₁ A₁, run (serves 100) (launched 0) [⟨[], right, 1000⟩] = some B₁ ∧
    (newServer 2 200).installResponse 1 (B₁.registerInterest enrol 1000).2 = some A₁ ∧
    Follows 100 (A₁, (B₁.registerInterest enrol 1000).1)
      (doubled 100 (B₁.registerInterest enrol 1000).1 lastShot) := by
  have hclock : ([(⟨[], right, 1000⟩ : Beat)].map Beat.now ++
      (doubled 100 ((beat 100 (launched 0) ⟨[], right, 1000⟩).1.registerInterest enrol 1000).1
        lastShot).map fun r => r.1.now).IsChain Later := by decide +kernel
  have hmem : 100 ∈ enrol.targetGuids := by decide
  obtain ⟨A₁, hA₁, hfollows⟩ := snapshot_replay (t := 1000) (A := newServer 2 200)
    (fresh_newServer 1 100) reach_lead (spawn_launched 0) (by decide +kernel) rfl (by decide +kernel)
    (by decide +kernel) hmem rfl hclock
  obtain ⟨A₂, hA₂, hdelivers⟩ := exists_of_map_decide
    (o := (newServer 2 200).installResponse 1
      ((beat 100 (launched 0) ⟨[], right, 1000⟩).1.registerInterest enrol 1000).2)
    (P := fun A₂ => Meets (exchange 100) (Delivers 100)
      (A₂, ((beat 100 (launched 0) ⟨[], right, 1000⟩).1.registerInterest enrol 1000).1)
      (doubled 100 ((beat 100 (launched 0) ⟨[], right, 1000⟩).1.registerInterest enrol 1000).1
        lastShot)) (by decide +kernel)
  obtain rfl : A₁ = A₂ := Option.some.inj (hA₁.symm.trans hA₂)
  exact ⟨_, A₁, rfl, hA₁, hfollows hdelivers⟩

end Colyseus

end DistGame
