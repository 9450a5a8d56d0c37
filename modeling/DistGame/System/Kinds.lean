import DistGame.Game.Speed
import DistGame.System.Ownership

/-! What all copies of an object agree on. Pushes arrive late, twice, out of order or never, so the
    copies of an object may differ in where they are and in their latest event; but its type and its
    size are fixed when its guid is drawn, and no handler and no message changes them. -/

namespace DistGame

/-- The type and the size of an object. -/
structure Kind where
  type : Int32
  width : ℚ
  height : ℚ
  deriving DecidableEq

def GameObject.kind (o : GameObject) : Kind := ⟨o.type, o.rect.width, o.rect.height⟩

def ProtoGameObject.kind (state : ProtoGameObject) : Kind :=
  ⟨state.objectType, state.w, state.h⟩

/-- The kind of what a player shoots. -/
def shotKind : Kind := ⟨projectile, 1, 1⟩

namespace GameObject

/-- An event leaves the kind of an object alone. -/
theorem advance_kind (o : GameObject) (event : GameEvent) : (o.advance event).kind = o.kind := by
  have hadjusted := o.getAdjustedRect_size (event.timestamp - o.latestEvent.timestamp)
  have hdrifted := drifted_size o.rect o.latestEvent.input
    (playerSpeed * (event.timestamp - o.latestEvent.timestamp).toInt)
  rw [advance]
  split
  · simp only [kind, hadjusted]
  · split
    · simp only [kind, hdrifted]
    · rfl

theorem created_kind {o y : GameObject} {event : GameEvent} {id : UInt32}
    (h : y ∈ o.created event id) : y.kind = shotKind := by
  rw [created] at h
  split at h
  · rw [List.mem_singleton.mp h]
    rfl
  · exact absurd h List.not_mem_nil

end GameObject

/-- The states that a message describes. -/
def Packet.states : Packet → List ProtoGameObject
  | .update _ request => request.initialStates
  | .reply _ _ response => response.initialStates
  | .register _ _ _ => []

/-- The states that an input brings. -/
def Input.states : Input → List ProtoGameObject
  | .update request _ => request.initialStates
  | .install _ response => response.initialStates
  | _ => []

/-- The kind of what is created in reaction to an input. -/
def Input.newKind : Input → Kind
  | .spawn ⟨some state⟩ _ => state.kind
  | _ => shotKind

namespace Colyseus

/-- The guids drawn on the way from `c` to `c'`. -/
def Draws (c c' : Colyseus) (g : UInt32) : Prop := ∃ n, c.drawn ≤ n ∧ n < c'.drawn ∧ c.guids n = g

/-- All copies are of the kinds that `K` allows for their guids. -/
structure OfKinds (K : UInt32 → Kind → Prop) (c : Colyseus) : Prop where
  primaries : ∀ g o, c.primaries.lookup g = some o → K g o.kind
  replicas : ∀ g r, c.replicas.lookup g = some r → K g r.kind

section
variable {K K' : UInt32 → Kind → Prop} {c c' : Colyseus} {g : UInt32}

theorem OfKinds.mono (h : c.OfKinds K) (hK : ∀ g kind, K g kind → K' g kind) : c.OfKinds K' where
  primaries g o ho := hK _ _ (h.primaries g o ho)
  replicas g r hr := hK _ _ (h.replicas g r hr)

/-! ### An event -/

/-- The states described for the interested servers are of what was created. -/
theorem createObjects_kinds {st : ProtoGameObject} {kind : Kind} (objects : List GameObject)
    (s : Colyseus) (hkind : ∀ o ∈ objects, o.kind = kind) (h : st ∈ (s.createObjects objects).2.1) :
    st.kind = kind := by
  induction objects generalizing s with
  | nil => exact absurd h List.not_mem_nil
  | cons o objects ih =>
    rw [createObjects_states_cons] at h
    rcases List.mem_append.mp h with h | h
    · split at h
      · rw [List.mem_singleton.mp h]
        exact hkind o List.mem_cons_self
      · exact absurd h List.not_mem_nil
    · exact ih _ (fun o' ho' => hkind o' (List.mem_cons_of_mem _ ho')) h

theorem handleUpdate_drawn {o : GameObject} (h : c.primaries.lookup g = some o) (bits : Int32)
    (now : Int64) : (c.handleUpdate g bits now).1.drawn = (c.applied g o ⟨bits, now⟩).1.drawn := by
  rw [handleUpdate_primary h, deleteAll_frame]

/-- After an event every primary is of the kind it had before or has just been shot. -/
theorem handleUpdate_kind {bits : Int32} {now : Int64} {k : UInt32} {x : GameObject}
    (h : (c.handleUpdate g bits now).1.primaries.lookup k = some x) :
    (∃ o, c.primaries.lookup k = some o ∧ x.kind = o.kind) ∨
      (c.Draws (c.handleUpdate g bits now).1 k ∧ x.kind = shotKind) := by
  cases hg : c.primaries.lookup g with
  | none =>
    rw [(handleUpdate_no_primary hg bits now).1] at h
    exact .inl ⟨x, h, rfl⟩
  | some o =>
    have hdrawn := handleUpdate_drawn hg bits now
    rw [handleUpdate_primary hg, deleteAll_primaries] at h
    split at h
    · cases h
    · rcases applied_cases h with ⟨rfl, rfl⟩ | h | ⟨n, hle, hlt, hk, y, hy, rfl⟩
      · exact .inl ⟨o, hg, o.advance_kind _⟩
      · exact .inl ⟨x, h, rfl⟩
      · have hkind : y.kind = shotKind := GameObject.created_kind hy
        exact .inr ⟨⟨n, hle, by rw [hdrawn]; exact hlt, hk⟩, hkind⟩

/-- What an event on a primary describes has just been shot. -/
theorem pushed_kind {o : GameObject} {bits : Int32} {now : Int64} (h : c.primaries.lookup g = some o)
    {st : ProtoGameObject} (hst : st ∈ (c.pushed g o ⟨bits, now⟩).initialStates) :
    c.Draws (c.handleUpdate g bits now).1 st.guid ∧ st.kind = shotKind := by
  refine ⟨?_, createObjects_kinds _ _ (fun y hy => GameObject.created_kind hy) hst⟩
  obtain ⟨i, hi, hguid⟩ := createObjects_states _ _ hst
  refine ⟨_, ?_, ?_, hguid⟩
  · dsimp only
    omega
  · rw [handleUpdate_drawn h, applied_drawn]
    dsimp only
    omega

/-- What the calls of an event describe has just been shot. -/
theorem handleUpdate_shots {bits : Int32} {now : Int64} {call : PeerCall UpdateRequest}
    (hcall : call ∈ (c.handleUpdate g bits now).2) {st : ProtoGameObject}
    (hst : st ∈ call.request.initialStates) :
    c.Draws (c.handleUpdate g bits now).1 st.guid ∧ st.kind = shotKind := by
  cases ho : c.primaries.lookup g with
  | none =>
    rw [((handleUpdate_no_primary ho bits now).2 call hcall).1] at hst
    exact absurd hst List.not_mem_nil
  | some o =>
    have hpushed := hcall
    rw [handleUpdate_primary ho] at hpushed
    rw [(mem_pushes hpushed).1] at hst
    exact pushed_kind ho hst

theorem OfKinds.handleUpdate {bits : Int32} {now : Int64} (h : c.OfKinds K)
    (hK : ∀ k kind, K k kind → K' k kind)
    (hnew : ∀ k, c.Draws (c.handleUpdate g bits now).1 k → K' k shotKind) :
    (c.handleUpdate g bits now).1.OfKinds K' ∧
      ∀ p ∈ updates (c.handleUpdate g bits now).2, ∀ st ∈ p.states, K' st.guid st.kind := by
  refine ⟨⟨fun k x hx => ?_, fun k r hr => hK _ _ (h.replicas k r (handleUpdate_replicas hr))⟩,
    fun p hp st hst => ?_⟩
  · rcases handleUpdate_kind hx with ⟨o, ho, hkind⟩ | ⟨hdraws, hkind⟩
    · rw [hkind]
      exact hK _ _ (h.primaries k o ho)
    · rw [hkind]
      exact hnew k hdraws
  · obtain ⟨call, hcall, rfl⟩ := List.mem_map.mp hp
    obtain ⟨hdraws, hkind⟩ := handleUpdate_shots hcall hst
    rw [hkind]
    exact hnew _ hdraws

/-! ### The other reactions -/

/-- Copies that stay or go are of the kinds they were. -/
theorem OfKinds.fewer (h : c.OfKinds K)
    (hp : ∀ g o, c'.primaries.lookup g = some o → c.primaries.lookup g = some o)
    (hr : ∀ g r, c'.replicas.lookup g = some r → c.replicas.lookup g = some r) : c'.OfKinds K where
  primaries g o ho := h.primaries g o (hp g o ho)
  replicas g r hr' := h.replicas g r (hr g r hr')

theorem OfKinds.install {sid : Int32} {states : List ProtoGameObject} {events : List GameEvent}
    (h : c.OfKinds K) (hstates : ∀ st ∈ states, K st.guid st.kind)
    (hinstall : c.installReplicas sid states events = some c') : c'.OfKinds K := by
  obtain ⟨hframe, hstored⟩ := installReplicas_spec hinstall
  refine ⟨fun g o ho => ?_, fun g r hr => ?_⟩
  · rw [hframe] at ho
    exact h.primaries g o ho
  · rcases hstored hr with hr | ⟨st, hst, event, rfl, rfl⟩
    · exact h.replicas g r hr
    · exact hstates st hst

theorem OfKinds.update {request : UpdateRequest} {now : Int64} {calls : List (PeerCall UpdateRequest)}
    (h : c.OfKinds K) (hin : ∀ st ∈ request.initialStates, K st.guid st.kind)
    (hK : ∀ k kind, K k kind → K' k kind) (hnew : ∀ k, c.Draws c' k → K' k shotKind)
    (hupdate : c.update request now = some (c', calls)) :
    c'.OfKinds K' ∧ ∀ p ∈ updates calls, ∀ st ∈ p.states, K' st.guid st.kind := by
  rcases update_cases hupdate with ⟨o, event, -, -, hrun⟩ |
    ⟨-, rfl, ⟨rfl, -⟩ | ⟨r, event, c₁, hr, hc₁, rfl⟩⟩
  · obtain ⟨rfl, rfl⟩ := Prod.mk.inj hrun
    exact h.handleUpdate hK hnew
  · exact ⟨h.mono hK, fun p hp => absurd hp List.not_mem_nil⟩
  · refine ⟨?_, fun p hp => absurd hp List.not_mem_nil⟩
    have hadvance : OfKinds K
        { c with replicas := c.replicas.insert request.targetGuid (r.advance event) } := by
      refine ⟨h.primaries, fun g x hx => ?_⟩
      rw [GoMap.lookup_insert_ite] at hx
      split at hx
      · rename_i hg
        cases hx
        rw [hg, GameObject.advance_kind]
        exact h.replicas _ r hr
      · exact h.replicas g x hx
    have hstored : c₁.OfKinds K := by
      rw [replicateNew] at hc₁
      split at hc₁
      · exact hadvance.install hin hc₁
      · cases hc₁
        exact hadvance
    refine (hstored.fewer (fun g o ho => ?_) fun g x hx => ?_).mono hK
    · rw [deleteAll_primaries] at ho
      split at ho
      · cases ho
      · exact ho
    · rw [deleteAll_replicas] at hx
      split at hx
      · cases hx
      · exact hx

/-- The states of a response are those of the primaries. -/
theorem OfKinds.response (h : c.OfKinds K) (hkeyed : c.Keyed) (request : RegisterInterestRequest)
    (now : Int64) : ∀ st ∈ (c.registerInterest request now).2.initialStates, K st.guid st.kind := by
  rw [registerInterest_response]
  intro st hst
  obtain ⟨o, ho, rfl⟩ := List.mem_map.mp hst
  exact h.primaries o.guid o ((mem_named hkeyed).mp ho).2

/-- A reaction to states of known kinds keeps the kinds, and gives what it creates the new one. -/
theorem OfKinds.react {input : Input} {packets : List Packet} (h : c.OfKinds K) (hkeyed : c.Keyed)
    (hreplicas : c.ReplicasKeyed) (hin : ∀ st ∈ input.states, K st.guid st.kind)
    (hK : ∀ k kind, K k kind → K' k kind) (hnew : ∀ k, c.Draws c' k → K' k input.newKind)
    (hreact : c.react input = some (c', packets)) :
    c'.OfKinds K' ∧ ∀ p ∈ packets, ∀ st ∈ p.states, K' st.guid st.kind := by
  cases input with
  | connect peer =>
    cases hreact
    exact ⟨(h.mono hK).fewer (fun _ _ => id) fun _ _ => id, fun p hp => absurd hp List.not_mem_nil⟩
  | spawn request now =>
    obtain ⟨⟨guid, c₁⟩, hspawn, heq⟩ := Option.map_eq_some_iff.mp hreact
    cases heq
    obtain ⟨state, hstate, hspawned⟩ := Option.map_eq_some_iff.mp hspawn
    obtain ⟨rfl, rfl⟩ := Prod.mk.inj hspawned
    have hkind : (Input.spawn request now).newKind = state.kind := by
      obtain ⟨_⟩ := request
      cases hstate
      rfl
    rw [hkind] at hnew
    refine ⟨⟨fun g o ho => ?_, fun g r hr => hK _ _ (h.replicas g r hr)⟩,
      fun p hp => absurd hp List.not_mem_nil⟩
    dsimp only at ho
    rw [GoMap.lookup_insert_ite] at ho
    split at ho
    · rename_i hg
      cases ho
      exact hnew g ⟨c.drawn, Nat.le_refl _, Nat.lt_succ_self _, hg.symm⟩
    · exact hK _ _ (h.primaries g o ho)
  | event guid bits now =>
    obtain rfl : (c.handleUpdate guid bits now).1 = c' := congrArg Prod.fst (Option.some.inj hreact)
    obtain rfl : updates (c.handleUpdate guid bits now).2 = packets :=
      congrArg Prod.snd (Option.some.inj hreact)
    exact h.handleUpdate hK hnew
  | update request now =>
    obtain ⟨⟨c₁, calls⟩, hupdate, heq⟩ := Option.map_eq_some_iff.mp hreact
    cases heq
    exact h.update hin hK hnew hupdate
  | notify publications =>
    cases hreact
    refine ⟨h.mono hK, fun p hp st hst => ?_⟩
    obtain ⟨call, -, rfl⟩ := List.mem_map.mp hp
    exact absurd hst List.not_mem_nil
  | cleanup now =>
    obtain rfl : (c.cleanup now).1 = c' := congrArg Prod.fst (Option.some.inj hreact)
    obtain rfl : registers ((c.cleanup now).1.renewals (c.cleanup now).2) = packets :=
      congrArg Prod.snd (Option.some.inj hreact)
    obtain ⟨hframe, hkept, -⟩ := cleanup_spec hreplicas now
    refine ⟨(h.fewer (fun g o ho => ?_) fun g r hr => ((hkept g r).mp hr).1).mono hK,
      fun p hp st hst => ?_⟩
    · rw [hframe] at ho
      exact ho
    · obtain ⟨call, -, rfl⟩ := List.mem_map.mp hp
      exact absurd hst List.not_mem_nil
  | register key request now =>
    obtain rfl : (c.registerInterest request now).1 = c' := congrArg Prod.fst (Option.some.inj hreact)
    obtain rfl : (if request.isRenewal then [] else
        [Packet.reply request.sid key (c.registerInterest request now).2]) = packets :=
      congrArg Prod.snd (Option.some.inj hreact)
    refine ⟨?_, fun p hp st hst => ?_⟩
    · rw [registerInterest_frame]
      exact (h.mono hK).fewer (fun _ _ => id) fun _ _ => id
    · split at hp
      · exact absurd hp List.not_mem_nil
      · rw [List.mem_singleton.mp hp] at hst
        exact hK _ _ (h.response hkeyed request now st hst)
  | install key response =>
    obtain ⟨c₁, hinstall, heq⟩ := Option.map_eq_some_iff.mp hreact
    cases heq
    exact ⟨(h.install hin hinstall).mono hK, fun p hp => absurd hp List.not_mem_nil⟩

end

end Colyseus

/-! ### The system -/

/-- All copies at all servers and all states in flight are of kinds that `K` allows for their guids. -/
structure System.OfKinds (K : UInt32 → Kind → Prop) (s : System) : Prop where
  servers : ∀ k c, s.servers.lookup k = some c → c.OfKinds K
  network : ∀ p ∈ s.network, ∀ st ∈ p.states, K st.guid st.kind

/-- `K` knows one kind for each guid, of guids that have been drawn, and all copies are of these. -/
structure Kinds (K : UInt32 → Kind → Prop) (s : System) : Prop where
  copies : s.OfKinds K
  drew : ∀ g kind, K g kind → ∃ k, s.Drew k g
  single : ∀ g kind kind', K g kind → K g kind' → kind = kind'

section
variable {K K' : UInt32 → Kind → Prop} {s s' : System}

theorem System.OfKinds.mono (h : s.OfKinds K) (hK : ∀ g kind, K g kind → K' g kind) :
    s.OfKinds K' where
  servers k c hc := (h.servers k c hc).mono hK
  network p hp st hst := hK _ _ (h.network p hp st hst)

/-- From outside come no states. -/
theorem external_states {a : Action} {sid : Int32} {input : Input}
    (h : System.external a = some (sid, input)) : input.states = [] := by
  rcases System.external_cases h with ⟨guid, event, now, -, rfl⟩ | hlocal
  · rfl
  · cases input with
    | update request now => exact hlocal.elim
    | install key response => exact hlocal.elim
    | _ => rfl

theorem delivered_states (p : Packet) (now : Int64) : (p.input now).states = p.states := by
  cases p <;> rfl

theorem kinds_ask {sid : Int32} {input : Input} (hf : Filed s) (h : Kinds K s)
    (hin : ∀ st ∈ input.states, K st.guid st.kind) (hdraws : s'.NoRepeat)
    (hask : s.ask sid input = some s') : ∃ K', Kinds K' s' ∧ ∀ g kind, K g kind → K' g kind := by
  obtain ⟨c, c', packets, hreacts⟩ := ask_reacts hf hask
  have hc := hreacts.before
  let K' : UInt32 → Kind → Prop := fun g kind => K g kind ∨ (c.Draws c' g ∧ kind = input.newKind)
  have hK : ∀ g kind, K g kind → K' g kind := fun _ _ => .inl
  obtain ⟨hcopies, hsends⟩ := (h.copies.servers sid c hc).react (hf.keyed sid c hc)
    (hf.replicas sid c hc) hin hK (fun g hg => .inr ⟨hg, rfl⟩) hreacts.react
  -- a guid that is drawn now has not been drawn before
  have hfresh : ∀ g kind, K g kind → ¬ c.Draws c' g := by
    rintro g kind hold ⟨n, hle, hlt, hn⟩
    obtain ⟨k, hk⟩ := h.drew g kind hold
    exact hreacts.not_redrawn hdraws hk n hle hlt hn
  refine ⟨K', ⟨⟨fun k d hd => ?_, fun p hp st hst => ?_⟩, fun g kind hg => ?_,
    fun g kind kind' hg hg' => ?_⟩, hK⟩
  · rcases hreacts.cases hd with ⟨-, rfl⟩ | ⟨-, hd⟩
    · exact hcopies
    · exact (h.copies.servers k d hd).mono hK
  · rw [hreacts.network] at hp
    rcases List.mem_append.mp hp with hp | hp
    · exact hK _ _ (h.copies.network p hp st hst)
    · exact hsends p hp st hst
  · rcases hg with hg | ⟨⟨n, -, hlt, hn⟩, -⟩
    · obtain ⟨k, hk⟩ := h.drew g kind hg
      exact ⟨k, hreacts.grows.drew hk⟩
    · exact ⟨sid, c', hreacts.after, n, hlt, by rw [hreacts.reaction.guids, hn]⟩
  · rcases hg with hg | ⟨hnew, rfl⟩ <;> rcases hg' with hg' | ⟨hnew', rfl⟩
    · exact h.single g kind kind' hg hg'
    · exact absurd hnew' (hfresh g kind hg)
    · exact absurd hnew (hfresh g kind' hg')
    · rfl

theorem Kinds.network_sub {network : List Packet} (h : Kinds K s)
    (hsub : ∀ p ∈ network, p ∈ s.network) : Kinds K { s with network } :=
  ⟨⟨h.copies.servers, fun p hp => h.copies.network p (hsub p hp)⟩, h.drew, h.single⟩

theorem kinds_step {a : Action} (hf : Filed s) (h : Kinds K s) (hdraws : s'.NoRepeat)
    (hstep : s.step a = some s') : ∃ K', Kinds K' s' ∧ ∀ g kind, K g kind → K' g kind := by
  rcases System.step_cases hstep with ⟨sid, input, hext, hask⟩ | ⟨i, now, packet, -, hi, hask⟩ |
    ⟨i, packet, -, hi, rfl⟩ | ⟨i, packet, -, -, rfl⟩
  · refine kinds_ask hf h (fun st hst => ?_) hdraws hask
    rw [external_states hext] at hst
    exact absurd hst List.not_mem_nil
  · refine kinds_ask (s := { s with network := s.network.eraseIdx i }) (hf.congr rfl)
      (h.network_sub fun p => List.mem_of_mem_eraseIdx) (fun st hst => ?_) hdraws hask
    rw [delivered_states] at hst
    exact h.copies.network packet (List.mem_of_getElem? hi) st hst
  · exact ⟨K, h.network_sub fun p => mem_duplicated hi, fun _ _ => id⟩
  · exact ⟨K, h.network_sub fun p => List.mem_of_mem_eraseIdx, fun _ _ => id⟩

/-- The kinds known at the end of a run are those of all copies at every point of it. -/
theorem kinds_run {actions : List Action} {u : System} (hf : Filed s) (h : Kinds K s)
    (hrun : run System.step s actions = some u) (hdraws : u.NoRepeat) :
    ∃ K', Kinds K' u ∧ (∀ g kind, K g kind → K' g kind) ∧ ∀ before v, before <+: actions →
      run System.step s before = some v → v.OfKinds K' := by
  induction actions generalizing s K with
  | nil =>
    cases hrun
    refine ⟨K, h, fun _ _ => id, fun before v hbefore hv => ?_⟩
    obtain rfl := List.prefix_nil.mp hbefore
    cases hv
    exact h.copies
  | cons a actions ih =>
    obtain ⟨s', hstep, hrest⟩ := run_cons_eq_some.mp hrun
    obtain ⟨hf', -⟩ := filed_step hf hstep
    obtain ⟨K₁, h₁, hK₁⟩ := kinds_step hf h ((filed_run hf' hrest).2.noRepeat hdraws) hstep
    obtain ⟨K', hu, hK', hall⟩ := ih hf' h₁ hrest
    have hK : ∀ g kind, K g kind → K' g kind := fun g kind hg => hK' g kind (hK₁ g kind hg)
    refine ⟨K', hu, hK, fun before v hbefore hv => ?_⟩
    rcases List.prefix_cons_iff.mp hbefore with rfl | ⟨later, rfl, hlater⟩
    · cases hv
      exact h.copies.mono hK
    · obtain ⟨s₁, hs₁, hv⟩ := run_cons_eq_some.mp hv
      obtain rfl := Option.some.inj (hstep.symm.trans hs₁)
      exact hall later v hlater hv

theorem initial_kinds (h : s.Initial) : Kinds (fun _ _ => False) s where
  copies := by
    refine ⟨fun k c hc => ⟨fun g o ho => ?_, fun g r hr => ?_⟩, fun p hp => ?_⟩
    · rw [h.primaries k c g hc] at ho
      cases ho
    · rw [h.replicas k c g hc] at hr
      cases hr
    · rw [h.network] at hp
      exact absurd hp List.not_mem_nil
  drew := fun _ _ hfalse => hfalse.elim
  single := fun _ _ _ hfalse => hfalse.elim

/-- In every run of the system, with loss, repetition and any order of the messages, each guid has one
    type and one size: those of its primary and of its replicas, at every server and at every point of
    the run, and those of every state of it in a message. -/
theorem one_kind_each {u : System} {actions : List Action} (h : s.Initial)
    (hrun : run System.step s actions = some u) (hdraws : u.NoRepeat) :
    ∃ kind : UInt32 → Kind, ∀ before v, before <+: actions → run System.step s before = some v →
      (∀ k c g o, v.servers.lookup k = some c →
        c.primaries.lookup g = some o ∨ c.replicas.lookup g = some o → o.kind = kind g) ∧
      ∀ p ∈ v.network, ∀ st ∈ p.states, st.kind = kind st.guid := by
  obtain ⟨K, hkinds, -, hall⟩ := kinds_run (initial_filed h) (initial_kinds h) hrun hdraws
  have hone : ∀ g, ∃ kind, ∀ kind', K g kind' → kind' = kind := by
    intro g
    by_cases hg : ∃ kind, K g kind
    · obtain ⟨kind, hkind⟩ := hg
      exact ⟨kind, fun kind' hkind' => hkinds.single g kind' kind hkind' hkind⟩
    · exact ⟨shotKind, fun kind hkind => absurd ⟨kind, hkind⟩ hg⟩
  choose kind hkind using hone
  refine ⟨kind, fun before v hbefore hv => ?_⟩
  obtain ⟨hservers, hnetwork⟩ := hall before v hbefore hv
  refine ⟨fun k c g o hc ho => hkind g _ ?_, fun p hp st hst => hkind _ _ (hnetwork p hp st hst)⟩
  rcases ho with ho | ho
  · exact (hservers k c hc).primaries g o ho
  · exact (hservers k c hc).replicas g o ho

end

/-- A shot of the player that server 2 has a replica of, and its push delivered twice. -/
def meetAndShoot : List Action :=
  meet ++ [.event 1 100 shoot 2000, .duplicate 0, .deliver 0 2010, .deliver 0 2020]

/-- The replica of the shot is of the kind of its primary. -/
theorem one_kind_each_meetAndShoot : ∃ u c c' o r, run System.step twoServers meetAndShoot = some u ∧
    u.servers.lookup 1 = some c ∧ u.servers.lookup 2 = some c' ∧
    c.primaries.lookup 102 = some o ∧ c'.replicas.lookup 102 = some r ∧ r.kind = o.kind := by
  obtain ⟨u, hrun, hdraws, hown, hrep⟩ := exists_of_map_decide
    (o := run System.step twoServers meetAndShoot)
    (P := fun u => u.NoRepeat ∧ u.Owns 1 102 ∧ u.Replicates 2 102) (by decide +kernel)
  obtain ⟨c, hc, ho⟩ := hown
  obtain ⟨c', hc', hr⟩ := hrep
  obtain ⟨o, ho⟩ := Option.isSome_iff_exists.mp ho
  obtain ⟨r, hr⟩ := Option.isSome_iff_exists.mp hr
  obtain ⟨kind, hall⟩ := one_kind_each initial_twoServers hrun hdraws
  obtain ⟨hcopies, -⟩ := hall meetAndShoot u List.prefix_rfl hrun
  refine ⟨u, c, c', o, r, hrun, hc, hc', ho, hr, ?_⟩
  rw [hcopies 1 c 102 o hc (.inl ho), hcopies 2 c' 102 r hc' (.inr hr)]

end DistGame
