import DistGame.System.Fatal
import DistGame.System.Kinds

/-! Who is told of an event. A server gets its replica of an object from the owner when it registers
    for it, except that a shot comes along with the event of its shooter. So whoever has a copy of an
    object that is no shot is on the list of its owner, and stays there. -/

namespace DistGame

namespace System

/-- Server `d` has a replica of `g`, or the answer that brings it one is in flight. -/
def Holds (s : System) (d : Int32) (g : UInt32) : Prop :=
  s.Replicates d g ∨ ∃ key response, Packet.reply d key response ∈ s.network ∧
    g ∈ response.initialStates.map ProtoGameObject.guid

/-- Server `k` has a registration of server `d` for `g`. -/
def Lists (s : System) (k d : Int32) (g : UInt32) : Prop :=
  ∃ c, s.servers.lookup k = some c ∧ ∃ i ∈ c.primaryInterest.index g [], i.sid = d

end System

/-! ### One reaction -/

namespace Colyseus
variable {c c' : Colyseus} {packets : List Packet} {input : Input} {g : UInt32}

/-- An event keeps the registrations for a primary that stays. -/
theorem handleUpdate_marks {k : UInt32} {bits : Int32} {now : Int64} (hkeyed : c.Keyed)
    (h : c' = (c.handleUpdate k bits now).1)
    (hfresh : ∀ n, c.drawn ≤ n → n < c'.drawn → c.guids n ≠ g)
    (hg : (c'.primaries.lookup g).isSome) :
    c'.primaryInterest.index g [] = c.primaryInterest.index g [] := by
  subst h
  by_cases hk : g = k
  · subst hk
    cases ho : c.primaries.lookup g with
    | none => rw [(handleUpdate_no_primary ho bits now).1]
    | some o =>
      have hover := not_overwrites ho (Nat.le_refl _) hfresh
      rw [handleUpdate_primary ho, deleteAll_primaries] at hg
      rw [handleUpdate_primary ho, deleteAll_index, applied_index, if_neg hover]
      split at hg
      · cases hg
      · rename_i hdel
        rw [if_neg hdel]
  · exact (handleUpdate_ne hk hkeyed hfresh).2.2

/-- A spawn leaves alone what is under the guids that it does not draw. -/
theorem spawn_ne {request : SpawnRequest} {now : Int64} {k : UInt32}
    (h : c.spawn request now = some (k, c'))
    (hfresh : ∀ n, c.drawn ≤ n → n < c'.drawn → c.guids n ≠ g) :
    c'.primaries.lookup g = c.primaries.lookup g ∧
      c'.primaryInterest.index g [] = c.primaryInterest.index g [] := by
  obtain ⟨state, -, hspawn⟩ := Option.map_eq_some_iff.mp h
  cases hspawn
  have hne : g ≠ c.guids c.drawn := (hfresh _ (Nat.le_refl _) (Nat.lt_succ_self _)).symm
  dsimp only
  rw [GoMap.lookup_insert_ite, GoMap.index_insert, if_neg hne, if_neg hne]
  exact ⟨rfl, rfl⟩

/-- No reaction takes off a registration for a primary that stays. -/
theorem react_marks (hkeyed : c.Keyed) (hreplicas : c.ReplicasKeyed)
    (h : c.react input = some (c', packets))
    (hfresh : ∀ n, c.drawn ≤ n → n < c'.drawn → c.guids n ≠ g)
    (hdel : ∀ request now, input = .update request now → g ∉ request.deletedGuids)
    (hg : (c'.primaries.lookup g).isSome) :
    c.primaryInterest.index g [] <+: c'.primaryInterest.index g [] := by
  cases input with
  | event k bits now =>
    have hc' : c' = (c.handleUpdate k bits now).1 := (congrArg Prod.fst (Option.some.inj h)).symm
    rw [handleUpdate_marks hkeyed hc' hfresh hg]
  | update request now =>
    obtain ⟨⟨c₁, calls⟩, hupdate, h⟩ := Option.map_eq_some_iff.mp h
    cases h
    rcases update_cases hupdate with ⟨o, event, -, -, hrun⟩ |
      ⟨-, -, ⟨rfl, -⟩ | ⟨r, event, c₂, -, hc₂, rfl⟩⟩
    · rw [handleUpdate_marks hkeyed (congrArg Prod.fst hrun) hfresh hg]
    · exact List.prefix_rfl
    · rw [deleteAll_index, if_neg (hdel request now rfl), (replicateNew_spec hc₂).1]
  | spawn request now =>
    obtain ⟨⟨k, c₁⟩, hspawn, h⟩ := Option.map_eq_some_iff.mp h
    cases h
    rw [(spawn_ne hspawn hfresh).2]
  | _ => exact (react_quiet hreplicas h trivial).2 g

/-- What the `Update` calls of a server describe has just been shot. -/
theorem react_shots (h : c.react input = some (c', packets)) {dest : Int32} {request : UpdateRequest}
    (hp : .update dest request ∈ packets) : ∀ st ∈ request.initialStates, st.kind = shotKind := by
  obtain ⟨k, bits, now, -, -, -, call, hcall, -, rfl⟩ := react_calls h hp
  exact fun st hst => (handleUpdate_shots hcall hst).2

/-- Who is answered with a state of a primary has been registered for it. -/
theorem react_answers (hkeyed : c.Keyed) (hreact : Reaction c input c' packets)
    (h : c.react input = some (c', packets)) {d key : Int32} {response : RegisterInterestResponse}
    (hp : .reply d key response ∈ packets)
    (hg : g ∈ response.initialStates.map ProtoGameObject.guid) :
    (c.primaries.lookup g).isSome ∧ ∃ i ∈ c'.primaryInterest.index g [], i.sid = d := by
  obtain ⟨⟨request, now, rfl, hnew, rfl⟩, -⟩ := hreact.sends _ hp
  obtain rfl : (c.registerInterest request now).1 = c' := congrArg Prod.fst (Option.some.inj h)
  have hpackets : (if request.isRenewal = true then [] else
      [Packet.reply request.sid key (c.registerInterest request now).2]) = packets :=
    congrArg Prod.snd (Option.some.inj h)
  rw [hnew, if_neg Bool.false_ne_true] at hpackets
  rw [← hpackets] at hp
  cases List.mem_singleton.mp hp
  rw [registerInterest_response, List.map_map] at hg
  obtain ⟨o, ho, rfl⟩ := List.mem_map.mp hg
  obtain ⟨htarget, hlookup⟩ := (mem_named hkeyed).mp ho
  have hsome : (c.primaries.lookup o.guid).isSome := by
    rw [hlookup]
    rfl
  refine ⟨hsome, ⟨request.sid, now + c.interestTTLMs⟩, ?_, rfl⟩
  show _ ∈ (c.registerInterest request now).1.primaryInterest.index o.guid []
  rw [registerInterest_index, if_pos hsome]
  exact List.mem_append_right _
    (List.mem_replicate.mpr ⟨(List.count_pos_iff.mpr htarget).ne', rfl⟩)

end Colyseus

/-! ### The list of the owner -/

/-- The updates in flight describe shots only. -/
def Shots (s : System) : Prop :=
  ∀ dest request, Packet.update dest request ∈ s.network →
    ∀ st ∈ request.initialStates, st.kind = shotKind

/-- Whoever holds an object that is no shot is on the list of its owner. -/
def Listed (K : UInt32 → Kind → Prop) (s : System) : Prop :=
  ∀ k d g, ¬ K g shotKind → s.Owns k g → s.Holds d g → s.Lists k d g

/-- The invariant of the servers and messages, with the kinds of the copies and the lists of the
    owners. -/
structure Registered (H : Int32 → UInt32 → Prop) (K : UInt32 → Kind → Prop) (s : System) : Prop where
  watched : Watched H s
  kinds : Kinds K s
  shots : Shots s
  listed : Listed K s

/-- What a server reacts to comes from the network, or it describes and deletes nothing. -/
def Input.From (s : System) (sid : Int32) (input : Input) : Prop :=
  (input.states = [] ∧ ∀ request now, input = .update request now → request.deletedGuids = []) ∨
    ∃ p ∈ s.network, p.dest = sid ∧ ∃ now, input = p.input now

section
variable {H : Int32 → UInt32 → Prop} {K K' : UInt32 → Kind → Prop} {s s' u : System}
  {sid d k : Int32} {g : UInt32} {input : Input} {network : List Packet}
  {c c' : Colyseus} {packets : List Packet}

/-- What is held has been drawn. -/
theorem Owned.drew_held (h : Owned H s) (hholds : s.Holds d g) : ∃ j, s.Drew j g := by
  rcases hholds with ⟨e, he, hr⟩ | ⟨key, response, hp, hmem⟩
  · obtain ⟨r, hr⟩ := Option.isSome_iff_exists.mp hr
    exact ⟨r.sid, h.drew r.sid g ((h.servers d e he).replicas g r hr).2⟩
  · obtain ⟨st, hst, rfl⟩ := List.mem_map.mp hmem
    exact ⟨key, h.drew key st.guid ((h.network _ hp).2 st hst)⟩

/-- A holder of what is no shot was one before, or it has just been answered. -/
theorem Reacts.held_before (h : Reacts { s with network } sid input s' c c' packets)
    (hkeyed : c.Keyed) (hsub : ∀ p ∈ network, p ∈ s.network) (hin : input.From s sid)
    (hkinds : Kinds K s) (hshots : Shots s) (hnot : ¬ K g shotKind) (hholds : s'.Holds d g) :
    s.Holds d g ∨ (s.Owns sid g ∧ s'.Lists sid d g) := by
  rcases hholds with ⟨e, he, hr⟩ | ⟨key, response, hp, hmem⟩
  · rcases h.cases he with ⟨rfl, rfl⟩ | ⟨-, he⟩
    · obtain ⟨r, hr⟩ := Option.isSome_iff_exists.mp hr
      rcases h.reaction.replicas g r hr with ⟨r₀, hr₀, -⟩ | ⟨-, htells⟩
      · exact .inl (.inl ⟨c, h.before, by rw [hr₀]; rfl⟩)
      · rcases hin with ⟨hnone, -⟩ | ⟨packet, hmem, hdest, now, rfl⟩
        · cases input with
          | update request now =>
            obtain ⟨hg, -⟩ := htells
            rw [show request.initialStates = [] from hnone] at hg
            exact absurd hg List.not_mem_nil
          | install key response =>
            obtain ⟨hg, -⟩ := htells
            rw [show response.initialStates = [] from hnone] at hg
            exact absurd hg List.not_mem_nil
          | _ => exact htells.elim
        · cases packet with
          | update dest request =>
            -- only a shot comes with an update
            obtain ⟨st, hst, rfl⟩ := List.mem_map.mp htells.1
            have hkind := hkinds.copies.network _ hmem st hst
            rw [hshots dest request hmem st hst] at hkind
            exact absurd hkind hnot
          | register dest key request => exact htells.elim
          | reply dest key response =>
            obtain rfl : dest = d := hdest
            exact .inl (.inr ⟨key, response, hmem, htells.1⟩)
    · exact .inl (.inl ⟨e, he, hr⟩)
  · rw [h.network] at hp
    rcases List.mem_append.mp hp with hp | hp
    · exact .inl (.inr ⟨key, response, hsub _ hp, hmem⟩)
    · obtain ⟨hsome, hmarked⟩ := Colyseus.react_answers hkeyed h.reaction h.react hp hmem
      exact .inr ⟨⟨c, h.before, hsome⟩, c', h.after, hmarked⟩

/-- No deletion is handled of what is owned. -/
theorem Input.From.keeps (hin : input.From s sid) (hgone : Gone s) (howns : s.Owns k g)
    (request : UpdateRequest) (now : Int64) (hupdate : input = .update request now) :
    g ∉ request.deletedGuids := by
  intro hg
  rcases hin with ⟨-, hnone⟩ | ⟨packet, hmem, -, t, rfl⟩
  · rw [hnone request now hupdate] at hg
    exact absurd hg List.not_mem_nil
  · cases packet with
    | update dest request' =>
      cases hupdate
      exact (hgone _ hmem g hg).2 k howns
    | register dest key request' => cases hupdate
    | reply dest key response => cases hupdate

/-- A server stays on the list of an owner that keeps the object. -/
theorem Reacts.lists (h : Reacts { s with network } sid input s' c c' packets) (hf : Filed s)
    (hgone : Gone s) (hin : input.From s sid) (hdraws : s'.NoRepeat) {j : Int32} (hdrew : s.Drew j g)
    (howns : s.Owns k g) (howns' : s'.Owns k g) (hlists : s.Lists k d g) : s'.Lists k d g := by
  obtain ⟨e, he, i, hi, hid⟩ := hlists
  by_cases hk : k = sid
  · subst hk
    obtain rfl := Option.some.inj (h.before.symm.trans he)
    obtain ⟨e', he', hg⟩ := howns'
    obtain rfl := Option.some.inj (h.after.symm.trans he')
    have hprefix := Colyseus.react_marks (hf.keyed k c he) (hf.replicas k c he) h.react
      (h.not_redrawn hdraws hdrew) (hin.keeps hgone howns) hg
    exact ⟨c', h.after, i, hprefix.subset hi, hid⟩
  · exact ⟨e, (h.others k hk).trans he, i, hi, hid⟩

theorem listed_ask (h : Registered H K s) (hsub : ∀ p ∈ network, p ∈ s.network)
    (hin : input.From s sid) (hdraws : s'.NoRepeat) (hK : ∀ g kind, K g kind → K' g kind)
    (hask : { s with network }.ask sid input = some s') : Shots s' ∧ Listed K' s' := by
  have hf := h.watched.filed
  obtain ⟨c, c', packets, hreacts⟩ := ask_reacts (s := { s with network }) (hf.congr rfl) hask
  have hc : s.servers.lookup sid = some c := hreacts.before
  have hnow : s.NoRepeat := hreacts.grows.noRepeat hdraws
  refine ⟨fun dest request hp => ?_, fun k d g hnot howns' hholds' => ?_⟩
  · rw [hreacts.network] at hp
    rcases List.mem_append.mp hp with hp | hp
    · exact h.shots dest request (hsub _ hp)
    · exact Colyseus.react_shots hreacts.react hp
  · have hnotK : ¬ K g shotKind := fun hK' => hnot (hK g shotKind hK')
    rcases hreacts.held_before (hf.keyed sid c hc) hsub hin h.kinds h.shots hnotK hholds' with
      hholds | ⟨howns, hlists⟩
    · obtain ⟨j, hdrew⟩ := h.watched.owned.drew_held hholds
      have howns : s.Owns k g := hreacts.owns_before hdraws hdrew howns'
      exact hreacts.lists hf h.watched.gone hin hdraws hdrew howns howns'
        (h.listed k d g hnotK howns hholds)
    · have hH := h.watched.owned.owns hf howns
      have hbefore : s.Owns k g := hreacts.owns_before hdraws (h.watched.owned.drew sid g hH) howns'
      obtain rfl := owner_unique h.watched.owned.drew hnow hH (h.watched.owned.owns hf hbefore)
      exact hlists

/-- Fewer messages, at the same servers. -/
theorem Listed.network_sub (h : Listed K s) (hsub : ∀ p ∈ network, p ∈ s.network) :
    Listed K { s with network } := by
  intro k d g hnot howns hholds
  refine h k d g hnot howns (hholds.imp_right ?_)
  rintro ⟨key, response, hp, hmem⟩
  exact ⟨key, response, hsub _ hp, hmem⟩

theorem Listed.mono (h : Listed K s) (hK : ∀ g kind, K g kind → K' g kind) : Listed K' s :=
  fun k d g hnot => h k d g fun hshot => hnot (hK g shotKind hshot)

theorem Registered.step {a : Action} (h : Registered H K s) (hdraws : s'.NoRepeat)
    (hstep : s.step a = some s') : ∃ H' K', Registered H' K' s' := by
  obtain ⟨K', hkinds, hK⟩ := kinds_step h.watched.filed h.kinds hdraws hstep
  suffices hlists : Shots s' ∧ Listed K' s' from
    ⟨Extended H s', K', h.watched.step hdraws hstep, hkinds, hlists.1, hlists.2⟩
  rcases System.step_cases hstep with ⟨sid, input, hext, hask⟩ | ⟨i, now, packet, -, hi, hask⟩ |
    ⟨i, packet, -, hi, rfl⟩ | ⟨i, packet, -, -, rfl⟩
  · refine listed_ask h (fun _ => id) (.inl ⟨external_states hext, ?_⟩) hdraws hK hask
    exact external_deletes hext
  · refine listed_ask h (fun p => List.mem_of_mem_eraseIdx) (.inr ⟨packet, ?_, rfl, now, rfl⟩) hdraws
      hK hask
    exact List.mem_of_getElem? hi
  · have hsub : ∀ p ∈ s.network ++ [packet], p ∈ s.network := fun p => mem_duplicated hi
    exact ⟨fun dest request hp => h.shots dest request (hsub _ hp), (h.listed.mono hK).network_sub hsub⟩
  · have hsub : ∀ p ∈ s.network.eraseIdx i, p ∈ s.network := fun p => List.mem_of_mem_eraseIdx
    exact ⟨fun dest request hp => h.shots dest request (hsub _ hp), (h.listed.mono hK).network_sub hsub⟩

end

end DistGame
