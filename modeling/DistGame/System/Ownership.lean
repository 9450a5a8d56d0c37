import DistGame.Lib.Run
import DistGame.System.Reactions

/-! Who owns what. The guids drawn anywhere do not repeat, so a guid has at most one owner; replicas and
    the messages that describe them always name the server that owned the object first. -/

namespace DistGame

/-! ### The servers and their guids -/

/-- Every server is stored under its sid, and its objects under their guids. -/
structure Filed (s : System) : Prop where
  sid : ∀ k c, s.servers.lookup k = some c → c.sid = k
  keyed : ∀ k c, s.servers.lookup k = some c → c.Keyed
  replicas : ∀ k c, s.servers.lookup k = some c → c.ReplicasKeyed

/-- No server is gone, and each has only drawn more of its guids. -/
def Grows (s s' : System) : Prop :=
  ∀ k c, s.servers.lookup k = some c →
    ∃ c', s'.servers.lookup k = some c' ∧ c'.guids = c.guids ∧ c.drawn ≤ c'.drawn

theorem Grows.refl (s : System) : Grows s s := fun _ c hc => ⟨c, hc, rfl, Nat.le_refl _⟩

theorem Grows.trans {s₁ s₂ s₃ : System} (h : Grows s₁ s₂) (h' : Grows s₂ s₃) : Grows s₁ s₃ := by
  intro k c hc
  obtain ⟨c₂, hc₂, hg, hd⟩ := h k c hc
  obtain ⟨c₃, hc₃, hg', hd'⟩ := h' k c₂ hc₂
  exact ⟨c₃, hc₃, hg'.trans hg, hd.trans hd'⟩

/-- Draws that do not repeat have not repeated before. -/
theorem Grows.noRepeat {s s' : System} (h : Grows s s') (hdraws : s'.NoRepeat) : s.NoRepeat := by
  intro k k' c c' n n' hc hc' hn hn' heq
  obtain ⟨d, hd, hg, hle⟩ := h k c hc
  obtain ⟨d', hd', hg', hle'⟩ := h k' c' hc'
  refine hdraws k k' d d' n n' hd hd' (hn.trans_le hle) (hn'.trans_le hle') ?_
  rw [hg, hg', heq]

theorem Grows.drew {s s' : System} (h : Grows s s') {k : Int32} {g : UInt32} (hg : s.Drew k g) :
    s'.Drew k g := by
  obtain ⟨c, hc, n, hn, hcg⟩ := hg
  obtain ⟨c', hc', hguids, hle⟩ := h k c hc
  exact ⟨c', hc', n, hn.trans_le hle, by rw [hguids, hcg]⟩

/-- Server `sid` reacts to an input and becomes `c'`; the other servers stay. -/
structure Reacts (s : System) (sid : Int32) (input : Input) (s' : System) (c c' : Colyseus)
    (packets : List Packet) : Prop where
  before : s.servers.lookup sid = some c
  after : s'.servers.lookup sid = some c'
  others : ∀ k, k ≠ sid → s'.servers.lookup k = s.servers.lookup k
  network : s'.network = s.network ++ packets
  react : c.react input = some (c', packets)
  reaction : Reaction c input c' packets

theorem ask_reacts {s s' : System} {sid : Int32} {input : Input} (hf : Filed s)
    (h : s.ask sid input = some s') : ∃ c c' packets, Reacts s sid input s' c c' packets := by
  obtain ⟨c, c', packets, hc, hreact, rfl⟩ := System.ask_eq_some h
  exact ⟨c, c', packets, hc, AList.lookup_insert _, fun k hk => AList.lookup_insert_ne hk, rfl, hreact,
    Colyseus.react_reaction (hf.keyed sid c hc) (hf.replicas sid c hc) hreact⟩

section
variable {s s' : System} {sid : Int32} {input : Input} {c c' : Colyseus} {packets : List Packet}

/-- A server is the one that reacted or was there before. -/
theorem Reacts.cases (h : Reacts s sid input s' c c' packets) {k : Int32} {d : Colyseus}
    (hd : s'.servers.lookup k = some d) :
    (k = sid ∧ d = c') ∨ (k ≠ sid ∧ s.servers.lookup k = some d) := by
  by_cases hk : k = sid
  · subst hk
    exact .inl ⟨rfl, Option.some.inj (hd.symm.trans h.after)⟩
  · exact .inr ⟨hk, h.others k hk ▸ hd⟩

theorem Reacts.grows (h : Reacts s sid input s' c c' packets) : Grows s s' := by
  intro k d hd
  by_cases hk : k = sid
  · subst hk
    obtain rfl := Option.some.inj (h.before.symm.trans hd)
    exact ⟨c', h.after, h.reaction.guids, h.reaction.drawn⟩
  · exact ⟨d, (h.others k hk).trans hd, rfl, Nat.le_refl _⟩

/-- What has been drawn is not drawn again. -/
theorem Reacts.not_redrawn (h : Reacts s sid input s' c c' packets) (hdraws : s'.NoRepeat) {k : Int32}
    {g : UInt32} (hdrew : s.Drew k g) : ∀ n, c.drawn ≤ n → n < c'.drawn → c.guids n ≠ g := by
  intro n hle hlt hn
  obtain ⟨d, hd, n', hn', hg⟩ := hdrew
  obtain ⟨d', hd', hguids, hdrawn⟩ := h.grows k d hd
  have hsame : d'.guids n' = c'.guids n := by rw [hguids, hg, h.reaction.guids, hn]
  obtain ⟨rfl, rfl⟩ := hdraws k sid d' c' n' n hd' h.after (hn'.trans_le hdrawn) hlt hsame
  obtain rfl := Option.some.inj (hd.symm.trans h.before)
  omega

theorem Reacts.filed (h : Reacts s sid input s' c c' packets) (hf : Filed s) : Filed s' := by
  refine ⟨fun k d hd => ?_, fun k d hd => ?_, fun k d hd => ?_⟩
  · rcases h.cases hd with ⟨rfl, rfl⟩ | ⟨-, hd⟩
    · exact h.reaction.sid.trans (hf.sid k c h.before)
    · exact hf.sid k d hd
  · rcases h.cases hd with ⟨rfl, rfl⟩ | ⟨-, hd⟩
    · exact h.reaction.keyed
    · exact hf.keyed k d hd
  · rcases h.cases hd with ⟨rfl, rfl⟩ | ⟨-, hd⟩
    · intro g r hr
      rcases h.reaction.replicas g r hr with ⟨r₀, hr₀, hguid, -⟩ | ⟨hguid, -⟩
      · exact hguid.trans (hf.replicas k c h.before g r₀ hr₀)
      · exact hguid
    · exact hf.replicas k d hd

end

theorem filed_ask {s s' : System} {sid : Int32} {input : Input} (hf : Filed s)
    (h : s.ask sid input = some s') : Filed s' ∧ Grows s s' := by
  obtain ⟨c, c', packets, hreacts⟩ := ask_reacts hf h
  exact ⟨hreacts.filed hf, hreacts.grows⟩

/-- Filing only looks at the servers. -/
theorem Filed.congr {s s' : System} (hf : Filed s) (h : s'.servers = s.servers) : Filed s' := by
  refine ⟨?_, ?_, ?_⟩
  · rw [h]
    exact hf.sid
  · rw [h]
    exact hf.keyed
  · rw [h]
    exact hf.replicas

theorem filed_step {s s' : System} {a : Action} (hf : Filed s) (h : s.step a = some s') :
    Filed s' ∧ Grows s s' := by
  rcases System.step_cases h with ⟨sid, input, -, h⟩ | ⟨i, now, packet, -, -, h⟩ |
    ⟨i, packet, -, -, rfl⟩ | ⟨i, packet, -, -, rfl⟩
  · exact filed_ask hf h
  · exact filed_ask (s := { s with network := s.network.eraseIdx i }) (hf.congr rfl) h
  · exact ⟨hf.congr rfl, Grows.refl s⟩
  · exact ⟨hf.congr rfl, Grows.refl s⟩

theorem filed_run : ∀ {as : List Action} {s u : System}, Filed s → run System.step s as = some u →
    Filed u ∧ Grows s u := by
  intro as
  induction as with
  | nil =>
    intro s u hf h
    cases h
    exact ⟨hf, Grows.refl s⟩
  | cons a as ih =>
    intro s u hf h
    obtain ⟨s', hs', h⟩ := run_cons_eq_some.mp h
    obtain ⟨hf', hgrows⟩ := filed_step hf hs'
    obtain ⟨hu, hgrows'⟩ := ih hf' h
    exact ⟨hu, hgrows.trans hgrows'⟩

/-- Filing is carried forward, and draws that do not repeat have not repeated before. -/
theorem filed_back (s : System) (a : Action) (s' : System) (hf : Filed s) (h : s.step a = some s') :
    Filed s' ∧ (s'.NoRepeat → s.NoRepeat) :=
  (filed_step hf h).imp_right Grows.noRepeat

/-! ### The invariant -/

section
variable (H : Int32 → UInt32 → Prop)

/-- A message names only what `H` says of the owners: an update describes objects of the owner of its
    target, a response objects of the server that answers, which is not the caller. -/
def Packet.Sound : Packet → Prop
  | .update _ request => ∀ st ∈ request.initialStates, ∃ k, H k request.targetGuid ∧ H k st.guid
  | .register dest key request => key = dest ∧ request.sid ≠ dest
  | .reply dest key response => key ≠ dest ∧ ∀ st ∈ response.initialStates, H key st.guid

/-- The messages among the inputs are sound. -/
def Input.Sound (sid : Int32) : Input → Prop
  | .update request _ => (Packet.update sid request).Sound H
  | .register key request _ => (Packet.register sid key request).Sound H
  | .install key response => (Packet.reply sid key response).Sound H
  | _ => True

/-- A server owns its primaries, and its replicas are of other servers' objects. -/
structure Sound (c : Colyseus) : Prop where
  owns : ∀ g, (c.primaries.lookup g).isSome → H c.sid g
  replicas : ∀ g r, c.replicas.lookup g = some r → r.sid ≠ c.sid ∧ H r.sid g
  peers : ∀ i peer, c.peerEndpoints.lookup i = some peer → peer = i

/-- All servers and messages are sound, and owners have drawn what they own. -/
structure Owned (s : System) : Prop where
  servers : ∀ k c, s.servers.lookup k = some c → Sound H c
  network : ∀ p ∈ s.network, p.Sound H
  drew : ∀ k g, H k g → s.Drew k g

end

section
variable {H H' : Int32 → UInt32 → Prop}

theorem Packet.Sound.mono {p : Packet} (h : p.Sound H) (hH : ∀ k g, H k g → H' k g) : p.Sound H' := by
  cases p with
  | update dest request =>
    intro st hst
    obtain ⟨k, ht, hg⟩ := h st hst
    exact ⟨k, hH k _ ht, hH k _ hg⟩
  | register dest key request => exact h
  | reply dest key response => exact ⟨h.1, fun st hst => hH _ _ (h.2 st hst)⟩

theorem Sound.mono {c : Colyseus} (h : Sound H c) (hH : ∀ k g, H k g → H' k g) : Sound H' c where
  owns := fun g hg => hH _ _ (h.owns g hg)
  replicas := fun g r hr => ⟨(h.replicas g r hr).1, hH _ _ (h.replicas g r hr).2⟩
  peers := h.peers

theorem Packet.Sound.input {p : Packet} (h : p.Sound H) (now : Int64) :
    (p.input now).Sound H p.dest := by
  cases p <;> exact h

theorem external_sound {a : Action} {sid : Int32} {input : Input}
    (h : System.external a = some (sid, input)) : input.Sound H sid := by
  rcases System.external_cases h with ⟨guid, event, now, -, rfl⟩ | hlocal
  · intro st hst
    exact absurd hst List.not_mem_nil
  · cases input <;> trivial

/-- Two owners of one guid have both drawn it. -/
theorem owner_unique {s : System} (hdrew : ∀ k g, H k g → s.Drew k g) (hdraws : s.NoRepeat)
    {k k' : Int32} {g : UInt32} (h : H k g) (h' : H k' g) : k = k' := by
  obtain ⟨c, hc, n, hn, hg⟩ := hdrew k g h
  obtain ⟨c', hc', n', hn', hg'⟩ := hdrew k' g h'
  exact (hdraws k k' c c' n n' hc hc' hn hn' (hg.trans hg'.symm)).1

/-- A server has no primary of what it has a replica of. -/
theorem Owned.not_primary {s : System} (h : Owned H s) (hdraws : s.NoRepeat) {k : Int32} {c : Colyseus}
    {g : UInt32} (hc : s.servers.lookup k = some c) (hr : (c.replicas.lookup g).isSome) :
    c.primaries.lookup g = none := by
  obtain ⟨r, hr⟩ := Option.isSome_iff_exists.mp hr
  obtain ⟨hne, hH⟩ := (h.servers k c hc).replicas g r hr
  cases ho : c.primaries.lookup g with
  | none => rfl
  | some o =>
    have hmine := (h.servers k c hc).owns g (by rw [ho]; rfl)
    exact absurd (owner_unique h.drew hdraws hH hmine) hne

/-- A sound server that reacts to a sound input stays sound and sends sound messages. -/
theorem Sound.react {c c' : Colyseus} {input : Input} {packets : List Packet} (h : Sound H c)
    (hunique : ∀ {k k' g}, H k g → H k' g → k = k') (hin : input.Sound H c.sid)
    (hreact : Reaction c input c' packets) (hH : ∀ k g, H k g → H' k g)
    (howns : ∀ g, (c'.primaries.lookup g).isSome → H' c.sid g) :
    Sound H' c' ∧ ∀ p ∈ packets, p.Sound H' := by
  refine ⟨⟨?_, ?_, ?_⟩, ?_⟩
  · rw [hreact.sid]
    exact howns
  · intro g r hr
    rw [hreact.sid]
    rcases hreact.replicas g r hr with ⟨r₀, hr₀, -, hsid⟩ | ⟨-, htells⟩
    · rw [hsid]
      exact ⟨(h.replicas g r₀ hr₀).1, hH _ _ (h.replicas g r₀ hr₀).2⟩
    · cases input with
      | update request now =>
        obtain ⟨hg, r₀, hr₀, hsid⟩ := htells
        obtain ⟨st, hst, rfl⟩ := List.mem_map.mp hg
        obtain ⟨k, htarget, hk⟩ := hin st hst
        obtain ⟨hne, hr₀H⟩ := h.replicas _ r₀ hr₀
        rw [← hsid, ← hunique htarget hr₀H]
        exact ⟨hunique htarget hr₀H ▸ hne, hH _ _ hk⟩
      | install key response =>
        obtain ⟨hg, rfl⟩ := htells
        obtain ⟨st, hst, rfl⟩ := List.mem_map.mp hg
        exact ⟨hin.1, hH _ _ (hin.2 st hst)⟩
      | _ => cases htells
  · intro i peer hp
    rcases hreact.peers i peer hp with hp | rfl
    · exact h.peers i peer hp
    · rfl
  · intro p hp
    have hsends := hreact.sends p hp
    cases p with
    | update dest request =>
      intro st hst
      obtain ⟨htarget, howned, -⟩ := hsends.1 st hst
      refine ⟨c.sid, hH _ _ (h.owns _ htarget), ?_⟩
      rcases howned with howned | hst
      · exact howns _ howned
      · rw [hst]
        exact hH _ _ (h.owns _ htarget)
    | register dest key request =>
      obtain ⟨hpeer, hsid, hkey⟩ := hsends
      obtain rfl := h.peers key dest hpeer
      refine ⟨rfl, fun heq => ?_⟩
      obtain ⟨g, r, hr, hrsid⟩ := hkey (heq.symm.trans hsid)
      exact (h.replicas g r hr).1 (hrsid.trans (heq.symm.trans hsid))
    | reply dest key response =>
      obtain ⟨⟨request, now, rfl, -, rfl⟩, hstates⟩ := hsends
      obtain ⟨rfl, hne⟩ := hin
      exact ⟨hne.symm, fun st hst => hH _ _ (h.owns _ (hstates st hst))⟩

/-- What `H` says and what the servers own now. -/
def Extended (H : Int32 → UInt32 → Prop) (s : System) (k : Int32) (g : UInt32) : Prop :=
  H k g ∨ s.Owns k g

theorem owned_ask {s s' : System} {sid : Int32} {input : Input} (hf : Filed s) (h : Owned H s)
    (hdraws : s.NoRepeat) (hin : input.Sound H sid) (hask : s.ask sid input = some s') :
    Owned (Extended H s') s' := by
  obtain ⟨c, c', packets, hreacts⟩ := ask_reacts hf hask
  have hc := hreacts.before
  have hsid := hf.sid sid c hc
  have hmono : ∀ k g, H k g → Extended H s' k g := fun _ _ => .inl
  have howns : ∀ g, (c'.primaries.lookup g).isSome → Extended H s' c.sid g := fun g hg =>
    .inr ⟨c', hsid ▸ hreacts.after, hg⟩
  obtain ⟨hsound, hsends⟩ := (h.servers sid c hc).react (owner_unique h.drew hdraws) (hsid ▸ hin)
    hreacts.reaction hmono howns
  refine ⟨fun k d hd => ?_, fun p hp => ?_, fun k g hg => ?_⟩
  · rcases hreacts.cases hd with ⟨-, rfl⟩ | ⟨-, hd⟩
    · exact hsound
    · exact (h.servers k d hd).mono hmono
  · rw [hreacts.network] at hp
    rcases List.mem_append.mp hp with hp | hp
    · exact (h.network p hp).mono hmono
    · exact hsends p hp
  · have hdrew : ∀ {k d}, s.servers.lookup k = some d → (d.primaries.lookup g).isSome →
        s'.Drew k g := fun {k d} hd hg =>
      hreacts.grows.drew (h.drew k g (hf.sid k d hd ▸ (h.servers k d hd).owns g hg))
    rcases hg with hg | ⟨d, hd, hg⟩
    · exact hreacts.grows.drew (h.drew k g hg)
    · rcases hreacts.cases hd with ⟨rfl, rfl⟩ | ⟨-, hd⟩
      · rcases hreacts.reaction.primaries g hg with hg | ⟨n, -, hn, hg⟩
        · exact hdrew hc hg
        · exact ⟨d, hreacts.after, n, hn, by rw [hreacts.reaction.guids, hg]⟩
      · exact hdrew hd hg

/-- The network may lose and duplicate messages. -/
theorem Owned.network_sub {s : System} {network : List Packet} (h : Owned H s)
    (hsub : ∀ p ∈ network, p ∈ s.network) : Owned H { s with network } :=
  ⟨h.servers, fun p hp => h.network p (hsub p hp), h.drew⟩

theorem Owned.extend {s : System} (hf : Filed s) (h : Owned H s) : Owned (Extended H s) s where
  servers := fun k c hc => (h.servers k c hc).mono fun _ _ => .inl
  network := fun p hp => (h.network p hp).mono fun _ _ => .inl
  drew := by
    rintro k g (hg | ⟨c, hc, hg⟩)
    · exact h.drew k g hg
    · exact h.drew k g (hf.sid k c hc ▸ (h.servers k c hc).owns g hg)

theorem owned_step {s s' : System} {a : Action} (hf : Filed s) (h : Owned H s)
    (hdraws : s.NoRepeat) (hstep : s.step a = some s') : Owned (Extended H s') s' := by
  rcases System.step_cases hstep with ⟨sid, input, hext, hask⟩ | ⟨i, now, packet, -, hi, hask⟩ |
    ⟨i, packet, -, hi, rfl⟩ | ⟨i, packet, -, -, rfl⟩
  · exact owned_ask hf h hdraws (external_sound hext) hask
  · have hsub : ∀ p ∈ s.network.eraseIdx i, p ∈ s.network := fun p => List.mem_of_mem_eraseIdx
    have hpacket := h.network packet (List.mem_of_getElem? hi)
    exact owned_ask (s := { s with network := s.network.eraseIdx i }) (hf.congr rfl)
      (h.network_sub hsub) hdraws (hpacket.input now) hask
  · exact Owned.extend (hf.congr rfl) (h.network_sub fun p => mem_duplicated hi)
  · exact Owned.extend (hf.congr rfl) (h.network_sub fun p => List.mem_of_mem_eraseIdx)

/-- Whatever has been owned at any point of a run has been owned by its owner alone. -/
theorem owned_run : ∀ {as : List Action} {s u : System} {H : Int32 → UInt32 → Prop}, Filed s →
    Owned H s → run System.step s as = some u → u.NoRepeat →
    ∃ H', Owned H' u ∧ (∀ k g, H k g → H' k g) ∧ (∀ k g, System.EverOwns k g s as → H' k g) ∧
      ∀ k g, H' k g → H k g ∨ System.EverOwns k g s as := by
  intro as
  induction as with
  | nil =>
    intro s u H hf h hrun _
    cases hrun
    exact ⟨Extended H s, h.extend hf, fun _ _ => .inl, fun _ _ => .inr, fun _ _ => id⟩
  | cons a as ih =>
    intro s u H hf h hrun hdraws
    obtain ⟨s', hs', hrest⟩ := run_cons_eq_some.mp hrun
    obtain ⟨hf', hgrows⟩ := filed_step hf hs'
    obtain ⟨-, hgrows'⟩ := filed_run hf' hrest
    have hnow := (hgrows.trans hgrows').noRepeat hdraws
    have hs := owned_step hf (h.extend hf) hnow hs'
    obtain ⟨H', hu, hH, hever, hback⟩ := ih hf' hs hrest hdraws
    refine ⟨H', hu, fun k g hg => hH k g (.inl (.inl hg)), fun k g hg => ?_, fun k g hg => ?_⟩
    · rcases hg with hg | ⟨s₁, hs₁, hg⟩
      · exact hH k g (.inl (.inr hg))
      · obtain rfl := Option.some.inj (hs'.symm.trans hs₁)
        exact hever k g hg
    · rcases hback k g hg with ((hg | hg) | hg) | hg
      · exact .inl hg
      · exact .inr (.inl hg)
      · refine .inr (.inr ⟨s', hs', ?_⟩)
        cases as with
        | nil => exact hg
        | cons b as => exact .inl hg
      · exact .inr (.inr ⟨s', hs', hg⟩)

theorem initial_filed {s : System} (h : s.Initial) : Filed s where
  sid := h.sid
  keyed := by
    intro k c hc g o ho
    rw [h.primaries k c g hc] at ho
    cases ho
  replicas := by
    intro k c hc g r hr
    rw [h.replicas k c g hc] at hr
    cases hr

theorem initial_owned {s : System} (h : s.Initial) : Owned (fun _ _ => False) s where
  servers := by
    intro k c hc
    refine ⟨fun g hg => ?_, fun g r hr => ?_, fun i peer => h.peers k c i peer hc⟩
    · rw [h.primaries k c g hc] at hg
      cases hg
    · rw [h.replicas k c g hc] at hr
      cases hr
  network := by
    intro p hp
    rw [h.network] at hp
    exact absurd hp List.not_mem_nil
  drew := fun _ _ h => h.elim

/-- In every reachable state, a guid is a primary of at most one server and of no server that has a
    replica of it, and a replica names the one server that ever owned the object, to which updates of
    it are forwarded. -/
theorem ownership_unique {s u : System} {actions : List Action} (h : s.Initial)
    (hrun : run System.step s actions = some u) (hdraws : u.NoRepeat) :
    (∀ k k' g, u.Owns k g → u.Owns k' g → k = k') ∧
      (∀ k g, u.Owns k g → ¬ u.Replicates k g) ∧
      ∀ k c g r, u.servers.lookup k = some c → c.replicas.lookup g = some r →
        System.EverOwns r.sid g s actions ∧
        (∀ k', System.EverOwns k' g s actions → k' = r.sid) ∧
        ∀ input now, ∀ call ∈ (c.handleUpdate g input now).2, call.peer = r.sid := by
  have hf := initial_filed h
  obtain ⟨hfu, -⟩ := filed_run hf hrun
  obtain ⟨H', hu, -, hever, hback⟩ := owned_run hf (initial_owned h) hrun hdraws
  have hunique : ∀ {k k' g}, H' k g → H' k' g → k = k' := owner_unique hu.drew hdraws
  have howns : ∀ {k g}, u.Owns k g → H' k g := fun {k g} ⟨c, hc, hg⟩ =>
    hfu.sid k c hc ▸ (hu.servers k c hc).owns g hg
  have hdisjoint : ∀ k g, u.Owns k g → ¬ u.Replicates k g := by
    rintro k g hown ⟨c, hc, hr⟩
    obtain ⟨r, hr⟩ := Option.isSome_iff_exists.mp hr
    obtain ⟨hne, hH⟩ := (hu.servers k c hc).replicas g r hr
    rw [hfu.sid k c hc] at hne
    exact hne (hunique hH (howns hown))
  refine ⟨fun k k' g hk hk' => hunique (howns hk) (howns hk'), hdisjoint, ?_⟩
  intro k c g r hc hr
  obtain ⟨-, hH⟩ := (hu.servers k c hc).replicas g r hr
  refine ⟨(hback r.sid g hH).resolve_left id, fun k' hk' => hunique (hever k' g hk') hH, ?_⟩
  intro input now call hcall
  have hp : c.primaries.lookup g = none := by
    cases hp : c.primaries.lookup g with
    | none => rfl
    | some o =>
      refine absurd ⟨c, hc, ?_⟩ (hdisjoint k g ⟨c, hc, ?_⟩)
      · rw [hp]
        rfl
      · rw [hr]
        rfl
  obtain ⟨-, r', hr', -, hpeer⟩ := (Colyseus.handleUpdate_no_primary hp input now).2 call hcall
  obtain rfl := Option.some.inj (hr.symm.trans hr')
  exact (hu.servers k c hc).peers r.sid call.peer hpeer

end

/-! ### Two servers meet -/

/-- A server without objects that draws the guids from `first` on. -/
def newServer (sid : Int32) (first : ℕ) : Colyseus where
  sid := sid
  peerEndpoints := ∅
  primaries := ∅
  replicas := ∅
  primaryInterest := ∅
  proactiveReplication := true
  predTimeMs := 500
  pubTimeMs := 100
  interestTTLMs := 2000
  guids := fun n => UInt32.ofNat (first + n)
  drawn := 0

def twoServers : System where
  servers := ((∅ : GoMap Int32 Colyseus).insert 1 (newServer 1 100)).insert 2 (newServer 2 200)
  network := []

theorem twoServers_lookup {k : Int32} {c : Colyseus} (h : twoServers.servers.lookup k = some c) :
    ∃ first, c = newServer k first := by
  rw [twoServers, GoMap.lookup_insert_ite] at h
  split at h
  · rename_i hk
    cases h
    exact ⟨200, by rw [hk]⟩
  · rw [GoMap.lookup_insert_ite] at h
    split at h
    · rename_i hk
      cases h
      exact ⟨100, by rw [hk]⟩
    · cases h

theorem initial_twoServers : twoServers.Initial where
  sid := by
    intro k c hc
    obtain ⟨first, rfl⟩ := twoServers_lookup hc
    rfl
  primaries := by
    intro k c g hc
    obtain ⟨first, rfl⟩ := twoServers_lookup hc
    rfl
  replicas := by
    intro k c g hc
    obtain ⟨first, rfl⟩ := twoServers_lookup hc
    rfl
  peers := by
    intro k c i peer hc hpeer
    obtain ⟨first, rfl⟩ := twoServers_lookup hc
    cases hpeer
  network := rfl

/-- Server 1 spawns a player, and server 2 is notified and fetches it. -/
def meet : List Action :=
  [.connect 1 2, .connect 2 1, .spawn 1 ⟨some ⟨0, 10, 10, 2, 2, player⟩⟩ 0, .notify 2 [⟨100, 1⟩],
    .deliver 0 1000, .deliver 0 1010]

/-- The replica at server 2 names the server that spawned the player. -/
theorem ownership_unique_meet : ∃ u c r, run System.step twoServers meet = some u ∧
    u.servers.lookup 2 = some c ∧ c.replicas.lookup 100 = some r ∧
    System.EverOwns r.sid 100 twoServers meet ∧ ¬ u.Owns 2 100 := by
  obtain ⟨u, hrun, hdraws, hrep⟩ := exists_of_map_decide (o := run System.step twoServers meet)
    (P := fun u => u.NoRepeat ∧ u.Replicates 2 100) (by decide +kernel)
  obtain ⟨-, hdisjoint, hreplica⟩ := ownership_unique initial_twoServers hrun hdraws
  obtain ⟨c, hc, hr⟩ := id hrep
  obtain ⟨r, hr⟩ := Option.isSome_iff_exists.mp hr
  exact ⟨u, c, r, hrun, hc, hr, (hreplica 2 c 100 r hc hr).1, fun hown => hdisjoint 2 100 hown hrep⟩

end DistGame
