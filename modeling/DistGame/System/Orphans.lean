import DistGame.System.Deaths
import DistGame.System.Ownership

/-! Replicas of deleted objects. A copy of an object, as a replica or in a message in flight, has its
    primary at some server or a deletion on its way, as long as every death is announced to all who
    have a copy, and deletions are neither lost nor overtake a copy. -/

namespace DistGame

/-- The objects a message describes to its receiver. -/
def Packet.describes : Packet → List UInt32
  | .update _ request => request.initialStates.map ProtoGameObject.guid
  | .register _ _ _ => []
  | .reply _ _ response => response.initialStates.map ProtoGameObject.guid

/-- The objects a message deletes at its receiver. -/
def Packet.deletes : Packet → List UInt32
  | .update _ request => request.deletedGuids
  | .register _ _ _ | .reply _ _ _ => []

namespace System

/-- The servers that have a replica of `g` or are about to be told of it. -/
def holders (s : System) (g : UInt32) : List Int32 :=
  (s.servers.entries.filter fun e => (e.2.replicas.lookup g).isSome).map Sigma.fst ++
    (s.network.filter fun p => g ∈ p.describes).map Packet.dest

theorem mem_holders {s : System} {k : Int32} {g : UInt32} : k ∈ s.holders g ↔
    s.Replicates k g ∨ ∃ p ∈ s.network, p.dest = k ∧ g ∈ p.describes := by
  rw [holders, List.mem_append]
  refine or_congr ?_ ?_
  · constructor
    · intro h
      obtain ⟨⟨k', c⟩, hmem, rfl⟩ := List.mem_map.mp h
      obtain ⟨hmem, hr⟩ := List.mem_filter.mp hmem
      exact ⟨c, (GoMap.mem_entries_iff _ _ _).mp hmem, hr⟩
    · rintro ⟨c, hc, hr⟩
      exact List.mem_map.mpr
        ⟨⟨k, c⟩, List.mem_filter.mpr ⟨(GoMap.mem_entries_iff _ _ _).mpr hc, hr⟩, rfl⟩
  · constructor
    · intro h
      obtain ⟨p, hmem, rfl⟩ := List.mem_map.mp h
      obtain ⟨hmem, hg⟩ := List.mem_filter.mp hmem
      exact ⟨p, hmem, rfl, by simpa using hg⟩
    · rintro ⟨p, hp, rfl, hg⟩
      exact List.mem_map.mpr ⟨p, List.mem_filter.mpr ⟨hp, by simpa using hg⟩, rfl⟩

/-- The server an action asks, and its input. -/
def asked (s : System) : Action → Option (Int32 × Input)
  | .deliver i now => s.network[i]?.map fun packet => (packet.dest, packet.input now)
  | action => external action

theorem asked_external {s : System} {a : Action} {r : Int32 × Input} (h : external a = some r) :
    s.asked a = some r := by
  cases a <;> first | exact h | cases h

theorem asked_deliver {s : System} {i : ℕ} {packet : Packet} (h : s.network[i]? = some packet)
    (now : Int64) : s.asked (.deliver i now) = some (packet.dest, packet.input now) := by
  rw [asked, h]
  rfl

/-- If an object dies by the input, every other server that holds it is a peer with an unexpired
    registration for it. -/
def AnnouncedAt (s : System) (sid : Int32) (input : Input) : Prop :=
  ∀ e ∈ input.eventOn, held e.2.1 die = true → ∀ c ∈ s.servers.lookup sid,
    (c.primaries.lookup e.1).isSome → ∀ k ∈ s.holders e.1, k ≠ sid →
      c.IsPeer k ∧ 0 < c.unexpired e.1 k e.2.2

/-- If an object dies, its death is announced to all who hold it. -/
def Announced (s : System) (a : Action) : Prop :=
  ∀ r ∈ s.asked a, s.AnnouncedAt r.1 r.2

/-- A deletion is handled when nothing else in flight describes the object to its receiver, and it is
    not lost. -/
def DeletesLast (s : System) : Action → Prop
  | .deliver i _ => ∀ packet ∈ s.network[i]?, ∀ g ∈ packet.deletes,
    ∀ other ∈ s.network.eraseIdx i, other.dest = packet.dest → g ∉ other.describes
  | .lose i => ∀ packet ∈ s.network[i]?, packet.deletes = []
  | _ => True

-- A quantifier over the members of a list is decided along the list, not over all guids.

instance (s : System) (sid : Int32) (input : Input) : Decidable (s.AnnouncedAt sid input) :=
  have (c : Colyseus) (e : UInt32 × Int32 × Int64) : Decidable (∀ k ∈ s.holders e.1, k ≠ sid →
      c.IsPeer k ∧ 0 < c.unexpired e.1 k e.2.2) := List.decidableBAll _ _
  Option.decidableForallMem _

instance (s : System) (a : Action) : Decidable (s.Announced a) :=
  Option.decidableForallMem _

instance (s : System) : DecidablePred s.DeletesLast
  | .deliver i _ =>
    have (packet : Packet) : Decidable (∀ g ∈ packet.deletes, ∀ other ∈ s.network.eraseIdx i,
        other.dest = packet.dest → g ∉ other.describes) := List.decidableBAll _ _
    Option.decidableForallMem _
  | .lose i => inferInstanceAs (Decidable (∀ packet ∈ s.network[i]?, packet.deletes = []))
  | .connect _ _ | .spawn _ _ _ | .clientUpdate _ _ _ _ | .event _ _ _ _ | .notify _ _
  | .cleanup _ _ | .duplicate _ => isTrue trivial

end System

/-- Updates delete their target only, and whoever holds an object that it never owned finds the
    primary at some server or has a deletion on its way. -/
structure Backing (H : Int32 → UInt32 → Prop) (s : System) : Prop where
  deletions : ∀ dest request, Packet.update dest request ∈ s.network → DeletesTarget request
  noOrphan : ∀ k g, ¬ H k g → k ∈ s.holders g →
    (∃ owner, s.Owns owner g) ∨ ∃ p ∈ s.network, p.dest = k ∧ g ∈ p.deletes

variable {H H' : Int32 → UInt32 → Prop}

/-! ### One reaction -/

/-- What a server takes off the network to react to: `network` is what remains of `s.network`. -/
structure Taken (s : System) (sid : Int32) (input : Input) (network : List Packet) : Prop where
  remains : ∀ p ∈ network, p ∈ s.network
  told : ∀ c g owner, Tells c g owner input → ∃ p ∈ s.network, p.dest = sid ∧ g ∈ p.describes
  taken : ∀ p ∈ s.network, ∀ g ∈ p.deletes, p ∈ network ∨ (p.dest = sid ∧
    (∃ request now, input = .update request now ∧ g ∈ request.deletedGuids) ∧
    ∀ other ∈ network, other.dest = sid → g ∉ other.describes)
  update : ∀ request now, input = .update request now → DeletesTarget request

section
variable {s s' : System} {sid : Int32} {input : Input} {network : List Packet} {c c' : Colyseus}
  {packets : List Packet}

/-- A guid that the server owns is not among those it draws next. -/
theorem Reacts.fresh (h : Reacts { s with network } sid input s' c c' packets) (hf : Filed s)
    (hown : Owned H s) (hdraws : s'.NoRepeat) {g : UInt32} (hg : (c.primaries.lookup g).isSome) :
    ∀ n, c.drawn ≤ n → n < c'.drawn → c.guids n ≠ g := by
  intro n hn hlt heq
  obtain ⟨d, hd, n₀, hn₀, hg₀⟩ :=
    hown.drew sid g (hf.sid sid c h.before ▸ (hown.servers sid c h.before).owns g hg)
  obtain rfl := Option.some.inj (h.before.symm.trans hd)
  have heq' : c'.guids n = c'.guids n₀ := by rw [h.reaction.guids, heq, hg₀]
  have hlt₀ := hn₀.trans_le h.reaction.drawn
  have hn₀' := (hdraws sid sid c' c' n n₀ h.after h.after hlt hlt₀ heq').2
  omega

/-- A message that a server sends describes objects that it owns. -/
theorem describes_owned {g : UInt32} (hkeyed : c.Keyed) (hreplicas : c.ReplicasKeyed)
    (hreact : Reaction c input c' packets) (h : c.react input = some (c', packets))
    (hfresh : ∀ k, (c.primaries.lookup k).isSome →
      ∀ n, c.drawn ≤ n → n < c'.drawn → c.guids n ≠ k)
    {p : Packet} (hp : p ∈ packets) (hg : g ∈ p.describes) : (c'.primaries.lookup g).isSome := by
  have hsends := hreact.sends p hp
  cases p with
  | update dest request =>
    obtain ⟨st, hst, rfl⟩ := List.mem_map.mp hg
    obtain ⟨htarget, howned | htg, n, hle, hlt, hn⟩ := hsends.1 st hst
    · exact howned
    · exact absurd (hn.trans htg) (hfresh _ htarget n hle hlt)
  | register dest key request => exact absurd hg List.not_mem_nil
  | reply dest key response =>
    obtain ⟨st, hst, rfl⟩ := List.mem_map.mp hg
    obtain ⟨⟨request, now, rfl, -, -⟩, hstates⟩ := hsends
    have howned := hstates st hst
    cases hlost : c'.primaries.lookup st.guid with
    | some o => rfl
    | none =>
      have hdel : ∀ request' now', Input.register key request now = .update request' now' →
          DeletesTarget request' := fun _ _ h => by cases h
      obtain ⟨bits, t, hevent, -⟩ := Colyseus.react_lost hkeyed hreplicas h hdel
        (hfresh _ howned) howned hlost
      cases hevent

/-- A copy after the reaction was there before, unless the server has just told of its own
    object. -/
theorem copy_before (h : Reacts { s with network } sid input s' c c' packets) (hf : Filed s)
    (hown : Owned H s) (hdraws : s'.NoRepeat) (htaken : Taken s sid input network) {k : Int32}
    {g : UInt32} (hk : k ∈ s'.holders g) :
    (∃ owner, s'.Owns owner g) ∨ (k ∈ s.holders g ∧ ((k = sid ∧ (c'.replicas.lookup g).isSome) ∨
      k ≠ sid ∨ ∃ p ∈ network, p.dest = k ∧ g ∈ p.describes)) := by
  rcases System.mem_holders.mp hk with ⟨d, hd, hr⟩ | ⟨p, hp, hdest, hg⟩
  · rcases h.cases hd with ⟨rfl, rfl⟩ | ⟨hks, hd⟩
    · refine .inr ⟨System.mem_holders.mpr ?_, .inl ⟨rfl, hr⟩⟩
      obtain ⟨r, hr⟩ := Option.isSome_iff_exists.mp hr
      rcases h.reaction.replicas g r hr with ⟨r₀, hr₀, -⟩ | ⟨-, htells⟩
      · exact .inl ⟨c, h.before, by rw [hr₀]; rfl⟩
      · exact .inr (htaken.told c g r.sid htells)
    · exact .inr ⟨System.mem_holders.mpr (.inl ⟨d, hd, hr⟩), .inr (.inl hks)⟩
  · rw [h.network] at hp
    rcases List.mem_append.mp hp with hp | hp
    · exact .inr ⟨System.mem_holders.mpr (.inr ⟨p, htaken.remains p hp, hdest, hg⟩),
        .inr (.inr ⟨p, hp, hdest, hg⟩)⟩
    · have howned := describes_owned (hf.keyed sid c h.before) (hf.replicas sid c h.before)
        h.reaction h.react (fun k => h.fresh hf hown hdraws) hp hg
      exact .inl ⟨sid, c', h.after, howned⟩

/-- An object that had a primary keeps it, or it dies now and its death is announced to whoever has
    a copy. -/
theorem owned_or_announced (h : Reacts { s with network } sid input s' c c' packets) (hf : Filed s)
    (hown : Owned H s) (hdraws : s'.NoRepeat) (htaken : Taken s sid input network)
    (hann : s.AnnouncedAt sid input) {k owner : Int32} {g : UInt32} (howns : s.Owns owner g)
    (hk : k ∈ s.holders g) (hnot : ¬ H k g) :
    (∃ owner, s'.Owns owner g) ∨ ∃ p ∈ s'.network, p.dest = k ∧ g ∈ p.deletes := by
  obtain ⟨d, hd, hg⟩ := howns
  by_cases hos : owner = sid
  · subst hos
    obtain rfl := Option.some.inj (h.before.symm.trans hd)
    cases hlost : c'.primaries.lookup g with
    | some o => exact .inl ⟨owner, c', h.after, by rw [hlost]; rfl⟩
    | none =>
      have hsound := hown.servers owner c hd
      have hsid := hf.sid owner c hd
      obtain ⟨bits, now, hevent, hdies, hsent⟩ :=
        Colyseus.react_lost (hf.keyed owner c hd) (hf.replicas owner c hd) h.react htaken.update
          (h.fresh hf hown hdraws hg) hg hlost
      have hne : k ≠ owner := by
        rintro rfl
        exact hnot (hsid ▸ hsound.owns g hg)
      obtain ⟨hpeer, hlive⟩ := hann _ hevent hdies c hd hg k hk hne
      obtain ⟨dest, request, hmem, hlookup, hdel⟩ := hsent k hpeer hlive
      refine .inr ⟨.update dest request, ?_, hsound.peers k dest hlookup, hdel⟩
      rw [h.network]
      exact List.mem_append_right _ hmem
  · exact .inl ⟨owner, d, (h.others owner hos).trans hd, hg⟩

/-- The server that handles a deletion has no replica of the object any more. -/
theorem deletion_handled (h : Reacts { s with network } sid input s' c c' packets) (hf : Filed s)
    (hown : Owned H s) (htaken : Taken s sid input network) {g : UInt32} (hnot : ¬ H sid g)
    {request : UpdateRequest} {now : Int64} (hinput : input = .update request now)
    (hdel : g ∈ request.deletedGuids) : c'.replicas.lookup g = none := by
  subst hinput
  obtain ⟨⟨c₁, calls⟩, hupdate, hreact⟩ := Option.map_eq_some_iff.mp h.react
  cases hreact
  refine Colyseus.update_drops hupdate (htaken.update request now rfl) (fun hg => ?_) hdel
  have howns := (hown.servers sid c h.before).owns g hg
  rw [hf.sid sid c h.before] at howns
  exact absurd howns hnot

/-- A reaction to what was taken off the network leaves every copy with a primary or a deletion. -/
theorem backing_ask (hf : Filed s) (hown : Owned H s) (hback : Backing H s) (hdraws : s'.NoRepeat)
    (htaken : Taken s sid input network) (hann : s.AnnouncedAt sid input)
    (hask : { s with network }.ask sid input = some s') (hH : ∀ k g, H k g → H' k g) :
    Backing H' s' := by
  obtain ⟨c, c', packets, hreacts⟩ := ask_reacts (s := { s with network }) (hf.congr rfl) hask
  refine ⟨fun dest request hp => ?_, fun k g hnot hk => ?_⟩
  · rw [hreacts.network] at hp
    rcases List.mem_append.mp hp with hp | hp
    · exact hback.deletions dest request (htaken.remains _ hp)
    · exact fun g hg => ((hreacts.reaction.sends _ hp).2 g hg).1
  · have hnot' : ¬ H k g := fun hkg => hnot (hH k g hkg)
    rcases copy_before hreacts hf hown hdraws htaken hk with howned | ⟨hbefore, hcopy⟩
    · exact .inl howned
    · rcases hback.noOrphan k g hnot' hbefore with ⟨owner, howns⟩ | ⟨p, hp, hdest, hg⟩
      · exact owned_or_announced hreacts hf hown hdraws htaken hann howns hbefore hnot'
      · rcases htaken.taken p hp g hg with hp | ⟨hds, ⟨request, now, hinput, hdel⟩, hlast⟩
        · refine .inr ⟨p, ?_, hdest, hg⟩
          rw [hreacts.network]
          exact List.mem_append_left _ hp
        · -- the deletion was handled just now, and no copy is left
          obtain rfl := hdest.symm.trans hds
          rcases hcopy with ⟨-, hr⟩ | hne | ⟨q, hq, hqdest, hqg⟩
          · rw [deletion_handled hreacts hf hown htaken hnot' hinput hdel] at hr
            cases hr
          · exact absurd rfl hne
          · exact absurd hqg (hlast q hq hqdest)

end

/-! ### Steps and runs -/

/-- Nothing is taken off the network by what comes from outside. -/
theorem taken_external {s : System} {a : Action} {sid : Int32} {input : Input}
    (h : System.external a = some (sid, input)) : Taken s sid input s.network := by
  have hquiet : (∀ c g owner, ¬ Tells c g owner input) ∧
      ∀ request now, input = .update request now → request.deletedGuids = [] := by
    rcases System.external_cases h with ⟨guid, event, now, -, rfl⟩ | hlocal
    · refine ⟨fun c g owner htells => absurd htells.1 List.not_mem_nil, ?_⟩
      rintro request t ⟨rfl, rfl⟩
      rfl
    · refine ⟨fun c g owner htells => ?_, ?_⟩
      · cases input <;> first | exact htells | exact hlocal
      · rintro request now rfl
        exact hlocal.elim
  refine ⟨fun _ => id, fun c g owner htells => absurd htells (hquiet.1 c g owner),
    fun p hp _ _ => .inl hp, fun request now hupdate g hg => ?_⟩
  rw [hquiet.2 request now hupdate] at hg
  exact absurd hg List.not_mem_nil

/-- A message is the one at an index or stays when that one is taken. -/
theorem mem_eraseIdx_or {α : Type*} {network : List α} {i : ℕ} {packet p : α}
    (hi : network[i]? = some packet) (hp : p ∈ network) : p = packet ∨ p ∈ network.eraseIdx i := by
  obtain ⟨j, hj⟩ := List.mem_iff_getElem?.mp hp
  by_cases hji : j = i
  · subst hji
    exact .inl (Option.some.inj (hj.symm.trans hi))
  · exact .inr (List.mem_eraseIdx_iff_getElem?.mpr ⟨j, hji, hj⟩)

theorem taken_deliver {s : System} (hback : Backing H s) {i : ℕ} {now : Int64} {packet : Packet}
    (hi : s.network[i]? = some packet) (hlast : s.DeletesLast (.deliver i now)) :
    Taken s packet.dest (packet.input now) (s.network.eraseIdx i) := by
  have hmem := List.mem_of_getElem? hi
  refine ⟨fun p => List.mem_of_mem_eraseIdx, fun c g owner htells => ⟨packet, hmem, rfl, ?_⟩,
    fun p hp g hg => ?_, fun request t hupdate => ?_⟩
  · cases packet with
    | update dest request => exact htells.1
    | register dest key request => exact htells.elim
    | reply dest key response => exact htells.1
  · rcases mem_eraseIdx_or hi hp with rfl | hp
    · refine .inr ⟨rfl, ?_, fun other hother hdest => hlast p hi g hg other hother hdest⟩
      cases p with
      | update dest request => exact ⟨request, now, rfl, hg⟩
      | register dest key request => exact absurd hg List.not_mem_nil
      | reply dest key response => exact absurd hg List.not_mem_nil
    · exact .inl hp
  · cases packet with
    | update dest request' =>
      cases hupdate
      exact hback.deletions dest request hmem
    | register dest key request => cases hupdate
    | reply dest key response => cases hupdate

/-- Messages may be repeated, and those that delete nothing lost. -/
theorem Backing.network_sub {s : System} (hback : Backing H s) {network : List Packet}
    (hsub : ∀ p ∈ network, p ∈ s.network)
    (hkept : ∀ p ∈ s.network, ∀ g ∈ p.deletes, p ∈ network) (hH : ∀ k g, H k g → H' k g) :
    Backing H' { s with network } := by
  refine ⟨fun dest request hp => hback.deletions dest request (hsub _ hp), fun k g hnot hk => ?_⟩
  have hbefore : k ∈ s.holders g := by
    rw [System.mem_holders] at hk ⊢
    rcases hk with hr | ⟨p, hp, hg⟩
    · exact .inl hr
    · exact .inr ⟨p, hsub p hp, hg⟩
  rcases hback.noOrphan k g (fun hkg => hnot (hH k g hkg)) hbefore with howned | ⟨p, hp, hdest, hg⟩
  · exact .inl howned
  · exact .inr ⟨p, hkept p hp g hg, hdest, hg⟩

/-- Every action keeps all copies backed. -/
theorem backing_step {s s' : System} {a : Action} (hf : Filed s) (hown : Owned H s)
    (hback : Backing H s) (hdraws : s'.NoRepeat) (hann : s.Announced a) (hlast : s.DeletesLast a)
    (hstep : s.step a = some s') (hH : ∀ k g, H k g → H' k g) : Backing H' s' := by
  rcases System.step_cases hstep with ⟨sid, input, hext, hask⟩ | ⟨i, now, packet, rfl, hi, hask⟩ |
    ⟨i, packet, -, hi, rfl⟩ | ⟨i, packet, rfl, hi, rfl⟩
  · exact backing_ask hf hown hback hdraws (taken_external hext)
      (hann _ (System.asked_external hext)) hask hH
  · exact backing_ask hf hown hback hdraws (taken_deliver hback hi hlast)
      (hann _ (System.asked_deliver hi now)) hask hH
  · exact hback.network_sub (fun p => mem_duplicated hi)
      (fun p hp _ _ => List.mem_append_left _ hp) hH
  · refine hback.network_sub (fun p => List.mem_of_mem_eraseIdx) (fun p hp g hg => ?_) hH
    rcases mem_eraseIdx_or hi hp with rfl | hp
    · rw [hlast p hi] at hg
      exact absurd hg List.not_mem_nil
    · exact hp

theorem initial_backing {s : System} (h : s.Initial) : Backing (fun _ _ => False) s where
  deletions := by
    intro dest request hp
    rw [h.network] at hp
    exact absurd hp List.not_mem_nil
  noOrphan := by
    intro k g _ hk
    rcases System.mem_holders.mp hk with ⟨c, hc, hr⟩ | ⟨p, hp, -⟩
    · rw [h.replicas k c g hc] at hr
      cases hr
    · rw [h.network] at hp
      exact absurd hp List.not_mem_nil

theorem backing_run : ∀ {as : List Action} {s u : System} {H : Int32 → UInt32 → Prop}, Filed s →
    Owned H s → Backing H s → run System.step s as = some u → u.NoRepeat →
    Meets System.step (fun s a => s.Announced a ∧ s.DeletesLast a) s as →
    ∃ H', Owned H' u ∧ Backing H' u := by
  intro as
  induction as with
  | nil =>
    intro s u H hf hown hback hrun _ _
    cases hrun
    exact ⟨H, hown, hback⟩
  | cons a as ih =>
    intro s u H hf hown hback hrun hdraws hmeets
    obtain ⟨s', hs', hrest⟩ := run_cons_eq_some.mp hrun
    obtain ⟨⟨hann, hlast⟩, hmeets⟩ := hmeets
    obtain ⟨hf', hgrows⟩ := filed_step hf hs'
    have hdraws' := (filed_run hf' hrest).2.noRepeat hdraws
    have hown' := owned_step hf hown (hgrows.noRepeat hdraws') hs'
    have hback' : Backing (Extended H s') s' :=
      backing_step hf hown hback hdraws' hann hlast hs' fun _ _ => .inl
    exact ih hf' hown' hback' hrest hdraws (hmeets s' hs')

/-- With nothing in flight, every replica has its primary at the server it names. -/
theorem quiet_replica_owned {s : System} (hf : Filed s) (hown : Owned H s) (hback : Backing H s)
    (hdraws : s.NoRepeat) (hquiet : s.network = []) {k : Int32} {c : Colyseus} {g : UInt32}
    {r : GameObject} (hc : s.servers.lookup k = some c) (hr : c.replicas.lookup g = some r) :
    s.Owns r.sid g := by
  obtain ⟨hne, hHr⟩ := (hown.servers k c hc).replicas g r hr
  have hunique : ∀ {k k' g}, H k g → H k' g → k = k' := owner_unique hown.drew hdraws
  have hnot : ¬ H k g := fun hk => hne ((hunique hHr hk).trans (hf.sid k c hc).symm)
  have hhold : k ∈ s.holders g := System.mem_holders.mpr (.inl ⟨c, hc, by rw [hr]; rfl⟩)
  rcases hback.noOrphan k g hnot hhold with ⟨owner, d, hd, hg⟩ | ⟨p, hp, -⟩
  · have hHo := (hown.servers owner d hd).owns g hg
    rw [hf.sid owner d hd] at hHo
    exact hunique hHr hHo ▸ ⟨d, hd, hg⟩
  · rw [hquiet] at hp
    exact absurd hp List.not_mem_nil

end DistGame
