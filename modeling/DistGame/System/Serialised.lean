import DistGame.System.Orphans

/-! Who serialises the events. A server assigns an event to its own objects only, at its own clock
    reading; as long as no client's `Update` reaches a replica that it would advance, every event held
    anywhere is one that the owner of the object assigned. -/

namespace DistGame

/-! ### What a server assigns -/

namespace Colyseus

/-- What an event on `target` assigns at a server with the primary: the event itself to the target,
    and to the projectile of a player that shoots the event it starts with. -/
def AssignsAt (c : Colyseus) (target : UInt32) (bits : Int32) (now : Int64) (g : UInt32)
    (event : GameEvent) : Prop :=
  ∃ o ∈ c.primaries.lookup target, (g = target ∧ event = ⟨bits, now⟩) ∨
    (o.type = player ∧ held bits shoot = true ∧ g = c.guids (c.drawn + 1) ∧ event = ⟨down, now⟩)

/-- The server assigns `event` to its object `g` when it reacts. -/
def Assigns (c : Colyseus) (g : UInt32) (event : GameEvent) : Input → Prop
  | .spawn _ now => g = c.guids c.drawn ∧ event = ⟨0, now⟩
  | input => ∃ e ∈ input.eventOn, c.AssignsAt e.1 e.2.1 e.2.2 g event

instance (c : Colyseus) (target : UInt32) (bits : Int32) (now : Int64) (g : UInt32)
    (event : GameEvent) : Decidable (c.AssignsAt target bits now g event) :=
  Option.decidableExistsMem _

instance (c : Colyseus) (g : UInt32) (event : GameEvent) : DecidablePred (c.Assigns g event)
  | .spawn _ now => inferInstanceAs (Decidable (g = c.guids c.drawn ∧ event = ⟨0, now⟩))
  | .event guid bits now => Option.decidableExistsMem (Input.eventOn (.event guid bits now))
  | .update request now => Option.decidableExistsMem (Input.eventOn (.update request now))
  | .connect _ | .notify _ | .cleanup _ | .register _ _ _ | .install _ _ =>
    Option.decidableExistsMem none

end Colyseus

/-- Server `k` assigns `event` to its object `g` in the step. -/
def System.Assigns (k : Int32) (g : UInt32) (event : GameEvent) (s : System) (a : Action) : Prop :=
  ∃ r ∈ s.asked a, r.1 = k ∧ ∃ c ∈ s.servers.lookup k, c.Assigns g event r.2

instance (k : Int32) (g : UInt32) (event : GameEvent) (s : System) (a : Action) :
    Decidable (System.Assigns k g event s a) :=
  have (r : Int32 × Input) : Decidable (∃ c ∈ s.servers.lookup k, c.Assigns g event r.2) :=
    Option.decidableExistsMem _
  Option.decidableExistsMem _

/-- Server `k` assigns `event` to its object `g` at some step of the run from `s`. -/
def EverAssigned (k : Int32) (g : UInt32) (event : GameEvent) (s : System) (as : List Action) :
    Prop :=
  Ever System.step (System.Assigns k g event) s as

instance (k : Int32) (g : UInt32) (event : GameEvent) (s : System) (as : List Action) :
    Decidable (EverAssigned k g event s as) :=
  inferInstanceAs (Decidable (Ever System.step (System.Assigns k g event) s as))

/-- No client's `Update` reaches a server that has a replica of a player or projectile as its
    target. -/
def System.Routed (s : System) : Action → Prop
  | .clientUpdate sid guid _ _ => ∀ c ∈ s.servers.lookup sid, ∀ r ∈ c.replicas.lookup guid,
    r.type ≠ player ∧ r.type ≠ projectile
  | _ => True

instance (s : System) : DecidablePred s.Routed
  | .clientUpdate sid guid _ _ =>
    have (c : Colyseus) : Decidable (∀ r ∈ c.replicas.lookup guid,
        r.type ≠ player ∧ r.type ≠ projectile) := Option.decidableForallMem _
    Option.decidableForallMem (s.servers.lookup sid)
  | .connect _ _ | .spawn _ _ _ | .event _ _ _ _ | .notify _ _ | .cleanup _ _ | .deliver _ _
  | .duplicate _ | .lose _ => isTrue trivial

/-! ### What an event writes and describes -/

/-- An object carries the last event it was advanced by, if its type has a motion. -/
theorem GameObject.advance_latest (o : GameObject) (event : GameEvent) :
    (o.advance event).latestEvent = event ∨ (o.advance event).latestEvent = o.latestEvent := by
  rw [advance]
  split
  · exact .inl rfl
  · split
    · exact .inl rfl
    · exact .inr rfl

/-- Only a shooting player creates, and what it creates moves down from the event on. -/
theorem GameObject.mem_created {o y : GameObject} {event : GameEvent} {id : UInt32}
    (h : y ∈ o.created event id) : o.type = player ∧ held event.input shoot = true ∧
      (o.created event id).length = 1 ∧ y.latestEvent = ⟨down, event.timestamp⟩ := by
  rw [created] at h ⊢
  split at h
  · rename_i hshoots
    rw [if_pos hshoots, List.mem_singleton.mp h]
    exact ⟨hshoots.1, hshoots.2, rfl, rfl⟩
  · exact absurd h List.not_mem_nil

namespace Colyseus
variable {c : Colyseus} {g : UInt32} {o : GameObject} {bits : Int32} {now : Int64}

/-- An event on a primary assigns itself. -/
theorem assignsAt_target (ho : c.primaries.lookup g = some o) :
    c.AssignsAt g bits now g ⟨bits, now⟩ := ⟨o, ho, .inl ⟨rfl, rfl⟩⟩

/-- An event on a primary assigns to what it creates the event that this starts with. -/
theorem assignsAt_created (ho : c.primaries.lookup g = some o) {y : GameObject}
    (hy : y ∈ o.created ⟨bits, now⟩ (c.guids c.drawn)) {i : ℕ}
    (hi : i < (o.created ⟨bits, now⟩ (c.guids c.drawn)).length) {k : UInt32}
    (hk : c.guids (c.drawn + (o.created ⟨bits, now⟩ (c.guids c.drawn)).length + i) = k) :
    c.AssignsAt g bits now k y.latestEvent := by
  obtain ⟨hp, hs, hlen, hlatest⟩ := GameObject.mem_created hy
  obtain rfl : i = 0 := by omega
  rw [hlen] at hk
  exact ⟨o, ho, .inr ⟨hp, hs, hk.symm, hlatest⟩⟩

/-- After an event every primary has the event it had before or one just assigned. -/
theorem handleUpdate_latest {k : UInt32} {x : GameObject}
    (h : (c.handleUpdate g bits now).1.primaries.lookup k = some x) :
    (∃ o, c.primaries.lookup k = some o ∧ x.latestEvent = o.latestEvent) ∨
      c.AssignsAt g bits now k x.latestEvent := by
  cases hg : c.primaries.lookup g with
  | none =>
    rw [(handleUpdate_no_primary hg bits now).1] at h
    exact .inl ⟨x, h, rfl⟩
  | some o =>
    rw [handleUpdate_primary hg, deleteAll_primaries] at h
    split at h
    · cases h
    · rcases createObjects_cases _ _ h with h | ⟨i, hi, hk, y, hy, rfl⟩
      · rw [GoMap.lookup_insert_ite] at h
        split at h
        · rename_i hk
          cases h
          subst hk
          rcases o.advance_latest ⟨bits, now⟩ with hnew | hold
          · rw [hnew]
            exact .inr (assignsAt_target hg)
          · exact .inl ⟨o, hg, hold⟩
        · exact .inl ⟨x, h, rfl⟩
      · exact .inr (assignsAt_created hg hy hi hk)

/-- What is described of the created objects is one of them under a guid just drawn. -/
theorem createObjects_zip {d : ProtoGameObject × GameEvent} (objects : List GameObject)
    (s : Colyseus) (h : d ∈ (s.createObjects objects).2.1.zip (s.createObjects objects).2.2) :
    ∃ i < objects.length, s.guids (s.drawn + i) = d.1.guid ∧ ∃ y ∈ objects, d.2 = y.latestEvent := by
  induction objects generalizing s with
  | nil => exact absurd h List.not_mem_nil
  | cons o objects ih =>
    have hrest : d ∈ ((s.spawnObject o).2.createObjects objects).2.1.zip
        ((s.spawnObject o).2.createObjects objects).2.2 → ∃ i < (o :: objects).length,
          s.guids (s.drawn + i) = d.1.guid ∧ ∃ y ∈ o :: objects, d.2 = y.latestEvent := by
      intro h
      obtain ⟨i, hi, hg, y, hy, hd⟩ := ih _ h
      rw [spawned_guids] at hg
      exact ⟨i + 1, Nat.succ_lt_succ hi, hg, y, List.mem_cons_of_mem _ hy, hd⟩
    simp only [createObjects] at h
    split at h
    · rw [List.zip_cons_cons] at h
      rcases List.mem_cons.mp h with rfl | h
      · exact ⟨0, Nat.succ_pos _, rfl, o, List.mem_cons_self, rfl⟩
      · exact hrest h
    · exact hrest h

/-- What an event describes to the interested servers carries an event just assigned. -/
theorem pushed_latest (ho : c.primaries.lookup g = some o) {d : ProtoGameObject × GameEvent}
    (hd : d ∈ (c.pushed g o ⟨bits, now⟩).initialStates.zip (c.pushed g o ⟨bits, now⟩).latestUpdates) :
    c.AssignsAt g bits now d.1.guid d.2 := by
  obtain ⟨i, hi, hg, y, hy, hlatest⟩ := createObjects_zip _ _ hd
  rw [hlatest]
  exact assignsAt_created ho hy hi hg

end Colyseus

/-! ### Events that are held or in flight -/

section
variable (H : Int32 → UInt32 → Prop) (A : Int32 → UInt32 → GameEvent → Prop)

/-- The objects carry events that their owners assigned, as `A` says. -/
structure Colyseus.Dated (c : Colyseus) : Prop where
  primaries : ∀ g o, c.primaries.lookup g = some o → A c.sid g o.latestEvent
  replicas : ∀ g r, c.replicas.lookup g = some r → A r.sid g r.latestEvent

/-- Server `k` assigned the events that states are sent with. -/
def DatedBy (k : Int32) (states : List ProtoGameObject) (events : List GameEvent) : Prop :=
  ∀ d ∈ states.zip events, A k d.1.guid d.2

/-- A message brings events that the owner assigned, or is for the owner. -/
def Packet.Dated : Packet → Prop
  | .update dest request => ∃ k, H k request.targetGuid ∧
    (k = dest ∨ ∀ event ∈ request.update, A k request.targetGuid event) ∧
    DatedBy A k request.initialStates request.latestUpdates
  | .register _ _ _ => True
  | .reply _ key response => DatedBy A key response.initialStates response.latestUpdates

/-- What the input brings to a replica are events that the owner assigned. -/
def Input.Dated (c : Colyseus) : Input → Prop
  | .update request _ => ∀ r, c.replicas.lookup request.targetGuid = some r →
    (∀ event ∈ request.update, A r.sid request.targetGuid (r.advance event).latestEvent) ∧
      DatedBy A r.sid request.initialStates request.latestUpdates
  | .install key response => DatedBy A key response.initialStates response.latestUpdates
  | _ => True

/-- Every event at a server or in flight was assigned by the owner, unless it is on its way there. -/
structure Serialised (s : System) : Prop where
  servers : ∀ k c, s.servers.lookup k = some c → c.Dated A
  network : ∀ p ∈ s.network, p.Dated H A

end

section
variable {H H' : Int32 → UInt32 → Prop} {A A' : Int32 → UInt32 → GameEvent → Prop}

theorem Colyseus.Dated.mono {c : Colyseus} (h : c.Dated A) (hA : ∀ k g e, A k g e → A' k g e) :
    c.Dated A' where
  primaries := fun g o ho => hA _ _ _ (h.primaries g o ho)
  replicas := fun g r hr => hA _ _ _ (h.replicas g r hr)

theorem Packet.Dated.mono {p : Packet} (h : p.Dated H A) (hH : ∀ k g, H k g → H' k g)
    (hA : ∀ k g e, A k g e → A' k g e) : p.Dated H' A' := by
  cases p with
  | update dest request =>
    obtain ⟨k, hk, hevent, hstates⟩ := h
    exact ⟨k, hH _ _ hk, hevent.imp_right fun h e he => hA _ _ _ (h e he),
      fun d hd => hA _ _ _ (hstates d hd)⟩
  | register dest key request => trivial
  | reply dest key response => exact fun d hd => hA _ _ _ (h d hd)

theorem Serialised.mono {s : System} (h : Serialised H A s) (hH : ∀ k g, H k g → H' k g)
    (hA : ∀ k g e, A k g e → A' k g e) : Serialised H' A' s where
  servers := fun k c hc => (h.servers k c hc).mono hA
  network := fun p hp => (h.network p hp).mono hH hA

/-- A message from the owner is applied to a replica, a message for the owner is not. -/
theorem delivered_dated {p : Packet} {c : Colyseus} (h : p.Dated H A) (hsound : Sound H c)
    (hsid : c.sid = p.dest) (hunique : ∀ {k k' g}, H k g → H k' g → k = k')
    (hc : c.Dated A) (now : Int64) : (p.input now).Dated A c := by
  cases p with
  | update dest request =>
    intro r hr
    obtain ⟨k, hk, hevent, hstates⟩ := h
    obtain ⟨hne, hH⟩ := hsound.replicas _ r hr
    obtain rfl := hunique hH hk
    refine ⟨fun event hupd => ?_, hstates⟩
    rcases r.advance_latest event with hnew | hold
    · rw [hnew]
      rcases hevent with hdest | hevent
      · exact absurd (hdest.trans hsid.symm) hne
      · exact hevent event hupd
    · rw [hold]
      exact hc.replicas _ r hr
  | register dest key request => trivial
  | reply dest key response => exact h

/-- A client's `Update` that is routed past the replicas, or any other input from outside. -/
theorem external_dated {s : System} {a : Action} {sid : Int32} {input : Input} {c : Colyseus}
    (hc : s.servers.lookup sid = some c) (hdated : c.Dated A) (hrouted : s.Routed a)
    (h : System.external a = some (sid, input)) : input.Dated A c := by
  rcases System.external_cases h with ⟨guid, event, now, rfl, rfl⟩ | hlocal
  · intro r hr
    obtain ⟨hp, hq⟩ := hrouted c hc r hr
    refine ⟨fun e _ => ?_, fun d hd => absurd hd List.not_mem_nil⟩
    rw [GameObject.advance_other hp hq]
    exact hdated.replicas _ r hr
  · cases input <;> trivial

namespace Colyseus
variable {c c' : Colyseus} {packets : List Packet}

/-- Objects that stay or go carry what they carried. -/
theorem Dated.fewer (h : c.Dated A) (hsid : c'.sid = c.sid)
    (hp : ∀ g o, c'.primaries.lookup g = some o → c.primaries.lookup g = some o)
    (hr : ∀ g r, c'.replicas.lookup g = some r → c.replicas.lookup g = some r) : c'.Dated A where
  primaries := by
    intro g o ho
    rw [hsid]
    exact h.primaries g o (hp g o ho)
  replicas := fun g r hr' => h.replicas g r (hr g r hr')

/-- An event keeps the server dated, and what it sends is dated. -/
theorem Dated.handleUpdate {g : UInt32} {bits : Int32} {now : Int64} (h : c.Dated A)
    (hsound : Sound H c) (hnew : ∀ k e, c.AssignsAt g bits now k e → A c.sid k e) :
    (c.handleUpdate g bits now).1.Dated A ∧
      ∀ p ∈ updates (c.handleUpdate g bits now).2, p.Dated H A := by
  have hsid : (c.handleUpdate g bits now).1.sid = c.sid := by rw [handleUpdate_frame]
  refine ⟨⟨fun k x hx => ?_, fun k r hr => h.replicas k r (handleUpdate_replicas hr)⟩, fun p hp => ?_⟩
  · rw [hsid]
    rcases handleUpdate_latest hx with ⟨o, ho, hlatest⟩ | hassigned
    · rw [hlatest]
      exact h.primaries k o ho
    · exact hnew k _ hassigned
  · obtain ⟨call, hcall, rfl⟩ := List.mem_map.mp hp
    cases ho : c.primaries.lookup g with
    | none =>
      obtain ⟨hrequest, r, hr, -, hpeer⟩ := (handleUpdate_no_primary ho bits now).2 call hcall
      rw [hrequest]
      exact ⟨r.sid, (hsound.replicas g r hr).2, .inl (hsound.peers _ _ hpeer).symm,
        fun d hd => absurd hd List.not_mem_nil⟩
    | some o =>
      rw [handleUpdate_primary ho] at hcall
      rw [(mem_pushes hcall).1]
      refine ⟨c.sid, hsound.owns g (by rw [ho]; rfl), .inr fun e he => ?_, fun d hd => ?_⟩
      · obtain rfl := Option.some.inj he
        exact hnew g _ (assignsAt_target ho)
      · exact hnew _ _ (pushed_latest ho hd)

/-- Installing states with the events of their owner keeps the server dated. -/
theorem Dated.install {sid : Int32} {states : List ProtoGameObject} {events : List GameEvent}
    (h : c.Dated A) (hstates : DatedBy A sid states events)
    (hinstall : c.installReplicas sid states events = some c') : c'.Dated A := by
  have hframe := (installReplicas_spec hinstall).1
  refine ⟨fun g o ho => ?_, fun g r hr => ?_⟩
  · rw [hframe] at ho ⊢
    exact h.primaries g o ho
  · rcases installReplicas_cases hinstall hr with hr | ⟨d, hd, rfl, rfl⟩
    · exact h.replicas g r hr
    · exact hstates d hd

/-- What `Update` writes is what `HandleUpdate` assigns, or comes from the owner. -/
theorem Dated.update {request : UpdateRequest} {now : Int64} {calls : List (PeerCall UpdateRequest)}
    (h : c.Dated A) (hsound : Sound H c) (hin : (Input.update request now).Dated A c)
    (hnew : ∀ k e, c.Assigns k e (.update request now) → A c.sid k e)
    (hupdate : c.update request now = some (c', calls)) :
    c'.Dated A ∧ ∀ p ∈ updates calls, p.Dated H A := by
  rcases update_cases hupdate with ⟨o, event, -, hevent, hrun⟩ | ⟨hp, rfl, ⟨rfl, -⟩ | ⟨r, -, -, hr, -, -⟩⟩
  · obtain ⟨rfl, rfl⟩ := Prod.mk.inj hrun
    refine h.handleUpdate hsound fun k e hassigns => hnew k e ?_
    exact ⟨(request.targetGuid, event.input, now), by rw [Input.eventOn, hevent]; rfl, hassigns⟩
  · exact ⟨h, fun p hp => absurd hp List.not_mem_nil⟩
  · refine ⟨?_, fun p hp => absurd hp List.not_mem_nil⟩
    obtain ⟨hadvanced, hstates⟩ := hin r hr
    cases hevent : request.update with
    | none => simp [Colyseus.update, hp, hr, hevent] at hupdate
    | some event =>
      rw [update_replica hp hr hevent, Option.map_eq_some_iff] at hupdate
      obtain ⟨c₁, hc₁, hupdate⟩ := hupdate
      obtain ⟨rfl, -⟩ := Prod.mk.inj hupdate
      have hadvance : Colyseus.Dated A
          { c with replicas := c.replicas.insert request.targetGuid (r.advance event) } := by
        refine ⟨h.primaries, fun g x hx => ?_⟩
        rw [GoMap.lookup_insert_ite] at hx
        split at hx
        · rename_i hg
          cases hx
          rw [hg, GameObject.advance_sid]
          exact hadvanced event hevent
        · exact h.replicas g x hx
      have hstored : c₁.Dated A := by
        rw [replicateNew] at hc₁
        split at hc₁
        · exact hadvance.install hstates hc₁
        · cases hc₁
          exact hadvance
      refine hstored.fewer (by rw [deleteAll_frame]) (fun g o ho => ?_) fun g x hx => ?_
      · rw [deleteAll_primaries] at ho
        split at ho
        · cases ho
        · exact ho
      · rw [deleteAll_replicas] at hx
        split at hx
        · cases hx
        · exact hx

theorem Dated.cleanup (h : c.Dated A) (hreplicas : c.ReplicasKeyed) (now : Int64) :
    (c.cleanup now).1.Dated A := by
  obtain ⟨hframe, hkept, -⟩ := cleanup_spec hreplicas now
  refine h.fewer (by rw [hframe]) (fun g o ho => ?_) fun g r hr => ((hkept g r).mp hr).1
  rw [hframe] at ho
  exact ho

theorem Dated.registerInterest (h : c.Dated A) (request : RegisterInterestRequest) (now : Int64) :
    (c.registerInterest request now).1.Dated A := by
  rw [registerInterest_frame]
  exact h.fewer rfl (fun _ _ => id) fun _ _ => id

/-- A response brings the events that the primaries carry. -/
theorem Dated.response (h : c.Dated A) (hkeyed : c.Keyed) (request : RegisterInterestRequest)
    (now : Int64) : DatedBy A c.sid (c.registerInterest request now).2.initialStates
      (c.registerInterest request now).2.latestUpdates := by
  rw [registerInterest_response]
  intro d hd
  rw [List.zip_map'] at hd
  obtain ⟨o, ho, rfl⟩ := List.mem_map.mp hd
  exact h.primaries o.guid o ((mem_named hkeyed).mp ho).2

/-- A reaction to a dated input keeps the server dated and sends dated messages. -/
theorem Dated.react {input : Input} (h : c.Dated A) (hsound : Sound H c) (hkeyed : c.Keyed)
    (hreplicas : c.ReplicasKeyed) (hin' : input.Sound H c.sid) (hin : input.Dated A c)
    (hnew : ∀ g e, c.Assigns g e input → A c.sid g e) (hreact : c.react input = some (c', packets)) :
    c'.Dated A ∧ ∀ p ∈ packets, p.Dated H A := by
  cases input with
  | connect peer =>
    cases hreact
    exact ⟨h.fewer rfl (fun _ _ => id) fun _ _ => id, fun p hp => absurd hp List.not_mem_nil⟩
  | spawn request now =>
    obtain ⟨⟨guid, c₁⟩, hspawn, hreact⟩ := Option.map_eq_some_iff.mp hreact
    cases hreact
    obtain ⟨state, -, hspawn⟩ := Option.map_eq_some_iff.mp hspawn
    obtain ⟨rfl, rfl⟩ := Prod.mk.inj hspawn
    refine ⟨⟨fun g o ho => ?_, h.replicas⟩, fun p hp => absurd hp List.not_mem_nil⟩
    dsimp only at ho
    rw [GoMap.lookup_insert_ite] at ho
    split at ho
    · rename_i hg
      cases ho
      exact hnew g _ ⟨hg, rfl⟩
    · exact h.primaries g o ho
  | event guid bits now =>
    cases hreact
    exact h.handleUpdate hsound fun k e hassigns => hnew k e ⟨(guid, bits, now), rfl, hassigns⟩
  | update request now =>
    obtain ⟨⟨c₁, calls⟩, hupdate, hreact⟩ := Option.map_eq_some_iff.mp hreact
    cases hreact
    exact h.update hsound hin hnew hupdate
  | notify publications =>
    cases hreact
    refine ⟨h, fun p hp => ?_⟩
    obtain ⟨call, -, rfl⟩ := List.mem_map.mp hp
    trivial
  | cleanup now =>
    cases hreact
    refine ⟨h.cleanup hreplicas now, fun p hp => ?_⟩
    obtain ⟨call, -, rfl⟩ := List.mem_map.mp hp
    trivial
  | register key request now =>
    cases hreact
    refine ⟨h.registerInterest request now, fun p hp => ?_⟩
    split at hp
    · exact absurd hp List.not_mem_nil
    · rw [List.mem_singleton.mp hp]
      obtain rfl : key = c.sid := hin'.1
      exact h.response hkeyed request now
  | install key response =>
    obtain ⟨c₁, hinstall, hreact⟩ := Option.map_eq_some_iff.mp hreact
    cases hreact
    exact ⟨h.install hin hinstall, fun p hp => absurd hp List.not_mem_nil⟩

end Colyseus

/-! ### Steps and runs -/

theorem serialised_ask {s s' : System} {sid : Int32} {input : Input} (hf : Filed s) (hown : Owned H s)
    (h : Serialised H A s) (hin' : input.Sound H sid)
    (hin : ∀ c, s.servers.lookup sid = some c → input.Dated A c)
    (hnew : ∀ c, s.servers.lookup sid = some c → ∀ g e, c.Assigns g e input → A sid g e)
    (hask : s.ask sid input = some s') : Serialised H A s' := by
  obtain ⟨c, c', packets, hreacts⟩ := ask_reacts hf hask
  have hc := hreacts.before
  obtain rfl := hf.sid sid c hc
  obtain ⟨hdated, hsends⟩ := (h.servers _ c hc).react (hown.servers _ c hc) (hf.keyed _ c hc)
    (hf.replicas _ c hc) hin' (hin c hc) (hnew c hc) hreacts.react
  refine ⟨fun k d hd => ?_, fun p hp => ?_⟩
  · rcases hreacts.cases hd with ⟨-, rfl⟩ | ⟨-, hd⟩
    · exact hdated
    · exact h.servers k d hd
  · rw [hreacts.network] at hp
    rcases List.mem_append.mp hp with hp | hp
    · exact h.network p hp
    · exact hsends p hp

/-- A step whose client updates are routed past the replicas adds what is assigned in it. -/
theorem serialised_step {s s' : System} {a : Action} (hf : Filed s) (hown : Owned H s)
    (hdraws : s.NoRepeat) (h : Serialised H A s) (hrouted : s.Routed a)
    (hstep : s.step a = some s') :
    Serialised H (fun k g e => A k g e ∨ System.Assigns k g e s a) s' := by
  have hnow : Serialised H (fun k g e => A k g e ∨ System.Assigns k g e s a) s :=
    h.mono (fun _ _ => id) fun _ _ _ => .inl
  rcases System.step_cases hstep with ⟨sid, input, hext, hask⟩ | ⟨i, now, packet, rfl, hi, hask⟩ |
    ⟨i, packet, -, hi, rfl⟩ | ⟨i, packet, -, -, rfl⟩
  · refine serialised_ask hf hown hnow (external_sound hext)
      (fun c hc => external_dated hc (hnow.servers sid c hc) hrouted hext) (fun c hc g e he => ?_) hask
    exact .inr ⟨(sid, input), System.asked_external hext, rfl, c, hc, he⟩
  · have hsub : ∀ p ∈ s.network.eraseIdx i, p ∈ s.network := fun p => List.mem_of_mem_eraseIdx
    have hmem := List.mem_of_getElem? hi
    refine serialised_ask (s := { s with network := s.network.eraseIdx i }) (hf.congr rfl)
      (hown.network_sub hsub) ⟨hnow.servers, fun p hp => hnow.network p (hsub p hp)⟩
      ((hown.network packet hmem).input now) (fun c hc => ?_) (fun c hc g e he => ?_) hask
    · exact delivered_dated (hnow.network packet hmem) (hown.servers _ c hc) (hf.sid _ c hc)
        (owner_unique hown.drew hdraws) (hnow.servers _ c hc) now
    · exact .inr ⟨_, System.asked_deliver hi now, rfl, c, hc, he⟩
  · exact ⟨hnow.servers, fun p hp => hnow.network p (mem_duplicated hi hp)⟩
  · exact ⟨hnow.servers, fun p hp => hnow.network p (List.mem_of_mem_eraseIdx hp)⟩

/-- After a run every event was assigned by its owner before the run or at some step of it. -/
theorem serialised_run {as : List Action} {s u : System} {H : Int32 → UInt32 → Prop}
    {A : Int32 → UInt32 → GameEvent → Prop} (hf : Filed s) (hown : Owned H s) (h : Serialised H A s)
    (hrun : run System.step s as = some u) (hdraws : u.NoRepeat)
    (hrouted : Meets System.step System.Routed s as) :
    ∃ H', Owned H' u ∧ Serialised H' (fun k g e => A k g e ∨ EverAssigned k g e s as) u := by
  induction as generalizing s H A with
  | nil =>
    cases hrun
    exact ⟨H, hown, h.mono (fun _ _ => id) fun _ _ _ => .inl⟩
  | cons a as ih =>
    obtain ⟨s', hs', hrest⟩ := run_cons_eq_some.mp hrun
    obtain ⟨hnow, hlater⟩ := hrouted
    obtain ⟨hf', hgrows⟩ := filed_step hf hs'
    have hdraws' := hgrows.noRepeat ((filed_run hf' hrest).2.noRepeat hdraws)
    have hown' := owned_step hf hown hdraws' hs'
    have h' : Serialised (Extended H s') _ s' :=
      (serialised_step hf hown hdraws' h hnow hs').mono (fun _ _ => .inl) fun _ _ _ => id
    obtain ⟨H', hu, hser⟩ := ih hf' hown' h' hrest (hlater s' hs')
    refine ⟨H', hu, hser.mono (fun _ _ => id) ?_⟩
    rintro k g e ((hA | hassigns) | hever)
    · exact .inl hA
    · exact .inr (.inl hassigns)
    · exact .inr (.inr ⟨s', hs', hever⟩)

theorem initial_serialised {s : System} (h : s.Initial) :
    Serialised (fun _ _ => False) (fun _ _ _ => False) s where
  servers := by
    intro k c hc
    refine ⟨fun g o ho => ?_, fun g r hr => ?_⟩
    · rw [h.primaries k c g hc] at ho
      cases ho
    · rw [h.replicas k c g hc] at hr
      cases hr
  network := by
    intro p hp
    rw [h.network] at hp
    exact absurd hp List.not_mem_nil

/-- A client's `Update` of a replica that it does not advance leaves the replica as it is. -/
theorem routed_update {s : System} {k : Int32} {c : Colyseus} {g : UInt32} {r : GameObject}
    (hc : s.servers.lookup k = some c) (hp : c.primaries.lookup g = none)
    (hr : c.replicas.lookup g = some r) {event : GameEvent} {now : Int64}
    (hrouted : s.Routed (.clientUpdate k g event now)) :
    ∃ s' c', s.step (.clientUpdate k g event now) = some s' ∧ s'.servers.lookup k = some c' ∧
      c'.replicas.lookup g = some r := by
  obtain ⟨hplayer, hprojectile⟩ := hrouted c hc r hr
  have hupdate : c.update ⟨g, some event, [], [], []⟩ now =
      some ({ c with replicas := c.replicas.insert g r }, []) := by
    rw [Colyseus.update_replica hp hr rfl, GameObject.advance_other hplayer hprojectile,
      Colyseus.replicateNew]
    split <;> rfl
  have hstep : s.step (.clientUpdate k g event now) = some
      { servers := s.servers.insert k { c with replicas := c.replicas.insert g r }
        network := s.network ++ [] } := by
    simp [System.step, System.external, System.ask, hc, Colyseus.react, hupdate, updates]
  exact ⟨_, _, hstep, AList.lookup_insert _, AList.lookup_insert _⟩

/-- In a run whose client updates are all routed past the replicas of players and projectiles, every
    event held by a primary or a replica was assigned by the server that owns the object, and a
    client's `Update` of a replica leaves it as the owner's events have made it. -/
theorem serialised_by_owner {s u : System} {actions : List Action} (h : s.Initial)
    (hrun : run System.step s actions = some u) (hdraws : u.NoRepeat)
    (hrouted : Meets System.step System.Routed s actions) :
    (∀ k c g o, u.servers.lookup k = some c → c.primaries.lookup g = some o →
      EverAssigned k g o.latestEvent s actions) ∧
    ∀ k c g r, u.servers.lookup k = some c → c.replicas.lookup g = some r →
      System.EverOwns r.sid g s actions ∧ EverAssigned r.sid g r.latestEvent s actions ∧
      ∀ event now, u.Routed (.clientUpdate k g event now) →
        ∃ u' c', u.step (.clientUpdate k g event now) = some u' ∧ u'.servers.lookup k = some c' ∧
          c'.replicas.lookup g = some r := by
  have hf := initial_filed h
  have hfu := (filed_run hf hrun).1
  obtain ⟨H, hown, hser⟩ := serialised_run hf (initial_owned h) (initial_serialised h) hrun hdraws
    hrouted
  obtain ⟨H', hown', -, -, hback⟩ := owned_run hf (initial_owned h) hrun hdraws
  refine ⟨fun k c g o hc ho => ?_, fun k c g r hc hr => ⟨?_, ?_, fun event now hnext => ?_⟩⟩
  · have hassigned := ((hser.servers k c hc).primaries g o ho).resolve_left id
    rw [hfu.sid k c hc] at hassigned
    exact hassigned
  · exact (hback r.sid g ((hown'.servers k c hc).replicas g r hr).2).resolve_left id
  · exact ((hser.servers k c hc).replicas g r hr).resolve_left id
  · refine routed_update hc ?_ hr hnext
    cases hp : c.primaries.lookup g with
    | none => rfl
    | some o =>
      obtain ⟨hne, hH⟩ := (hown.servers k c hc).replicas g r hr
      have hHc := (hown.servers k c hc).owns g (by rw [hp]; rfl)
      exact absurd (owner_unique hown.drew hdraws hH hHc) hne

end

/-! ### A client of the replica's server -/

/-- A client of server 2 updates the player that server 1 owns. -/
def updateReplica : List Action := meet ++ [.clientUpdate 2 100 ⟨right, 123456⟩ 2000]

/-- The replica takes the client's timestamp, and the owner has serialised nothing. -/
theorem client_serialises :
    ∃ u c o c' r, run System.step twoServers updateReplica = some u ∧ u.NoRepeat ∧
      u.servers.lookup 1 = some c ∧ c.primaries.lookup 100 = some o ∧ o.latestEvent = ⟨0, 0⟩ ∧
      u.servers.lookup 2 = some c' ∧ c'.replicas.lookup 100 = some r ∧ r.sid = 1 ∧
      r.latestEvent = ⟨right, 123456⟩ ∧ u.network = [] ∧
      ¬ EverAssigned 1 100 ⟨right, 123456⟩ twoServers updateReplica := by
  obtain ⟨u, hu, hdraws, hquiet, hprimary, hreplica, hnever⟩ := exists_of_map_decide
    (o := run System.step twoServers updateReplica)
    (P := fun u => u.NoRepeat ∧ u.network = [] ∧
      (u.servers.lookup 1).any (fun c => (c.primaries.lookup 100).any fun o =>
        o.latestEvent = ⟨0, 0⟩) ∧
      (u.servers.lookup 2).any (fun c => (c.replicas.lookup 100).any fun r =>
        r.sid = 1 ∧ r.latestEvent = ⟨right, 123456⟩) ∧
      ¬ EverAssigned 1 100 ⟨right, 123456⟩ twoServers updateReplica) (by decide +kernel)
  obtain ⟨c, hc, hprimary⟩ := (Option.any_eq_true _ _).mp hprimary
  obtain ⟨o, ho, hlatest⟩ := (Option.any_eq_true _ _).mp hprimary
  obtain ⟨c', hc', hreplica⟩ := (Option.any_eq_true _ _).mp hreplica
  obtain ⟨r, hr, htaken⟩ := (Option.any_eq_true _ _).mp hreplica
  obtain ⟨hsid, htaken⟩ := of_decide_eq_true htaken
  exact ⟨u, c, o, c', r, hu, hdraws, hc, ho, of_decide_eq_true hlatest, hc', hr, hsid, htaken, hquiet,
    hnever⟩

/-- The same update, sent to the owner, and its push. -/
def updateOwner : List Action :=
  meet ++ [.clientUpdate 1 100 ⟨right, 123456⟩ 2000, .deliver 0 2010]

theorem serialised_by_owner_updateOwner :
    ∃ u c r, run System.step twoServers updateOwner = some u ∧ u.servers.lookup 2 = some c ∧
      c.replicas.lookup 100 = some r ∧ r.sid = 1 ∧ r.latestEvent = ⟨right, 2000⟩ ∧
      EverAssigned r.sid 100 r.latestEvent twoServers updateOwner := by
  obtain ⟨u, hu, hdraws, hreplica⟩ := exists_of_map_decide
    (o := run System.step twoServers updateOwner)
    (P := fun u => u.NoRepeat ∧ (u.servers.lookup 2).any (fun c => (c.replicas.lookup 100).any fun r =>
      r.sid = 1 ∧ r.latestEvent = ⟨right, 2000⟩)) (by decide +kernel)
  obtain ⟨c, hc, hreplica⟩ := (Option.any_eq_true _ _).mp hreplica
  obtain ⟨r, hr, htaken⟩ := (Option.any_eq_true _ _).mp hreplica
  obtain ⟨hsid, htaken⟩ := of_decide_eq_true htaken
  obtain ⟨-, hassigned⟩ := serialised_by_owner initial_twoServers hu hdraws (by decide +kernel)
  exact ⟨u, c, r, hu, hc, hr, hsid, htaken, (hassigned 2 c 100 r hc hr).2.1⟩

end DistGame
