import DistGame.System.Arena
import DistGame.System.Peers

/-! Every hit is fatal. Once a frame has listed an object, its death is under way until its owner has no
    primary of it: a goroutine waits at the owner or at a server with a replica, or a message that lets
    it die is on its way to the owner. This needs that such messages are not lost, and that no cleanup
    of a server takes away the replica for which one of its goroutines waits. -/

namespace DistGame
open GameObject

/-- The message lets its target die. -/
def Packet.kills : Packet → Bool
  | .update _ request => request.update.any fun event => held event.input die
  | _ => false

/-- The death of `g` is on its way to its owner `k`. -/
def Arena.Underway (a : Arena) (k : Int32) (g : UInt32) : Prop :=
  (∃ turn ∈ a.pending, turn.2 = (g, die) ∧ (turn.1 = k ∨ a.system.Replicates turn.1 g)) ∨
    ∃ request, Packet.update k request ∈ a.system.network ∧ request.targetGuid = g ∧
      (Packet.update k request).kills = true

/-- Messages that let an object die are not lost, and no server with a waiting goroutine cleans up. -/
def Arena.Settles (a : Arena) : Play → Prop
  | .system (.lose i) => ∀ packet ∈ a.system.network[i]?, packet.kills = false
  | .system (.cleanup sid _) => ∀ turn ∈ a.pending, turn.1 ≠ sid
  | _ => True

instance (a : Arena) : DecidablePred a.Settles
  | .system action => match action with
    | .lose _ => Option.decidableForallMem _
    | .cleanup _ _ => List.decidableBAll _ _
    | .connect _ _ | .spawn _ _ _ | .clientUpdate _ _ _ _ | .event _ _ _ _ | .notify _ _
    | .deliver _ _ | .duplicate _ => isTrue trivial
  | .frame _ _ _ | .advance _ _ => isTrue trivial

/-! ### One reaction -/

namespace Colyseus
variable {c c' : Colyseus} {packets : List Packet} {g : UInt32}

/-- An event that holds `die` leaves no primary. -/
theorem handleUpdate_dies {bits : Int32} (hkeyed : c.Keyed) (hdies : held bits die = true)
    (now : Int64) : (c.handleUpdate g bits now).1.primaries.lookup g = none := by
  cases ho : c.primaries.lookup g with
  | none => rw [(handleUpdate_no_primary ho bits now).1, ho]
  | some o =>
    have hmem : g ∈ o.deleted ⟨bits, now⟩ := by
      rw [GameObject.deleted, if_pos hdies, hkeyed g o ho]
      exact List.mem_singleton_self g
    rw [handleUpdate_primary ho, deleteAll_primaries, if_pos hmem]

/-- So does a reaction to it at the owner. -/
theorem react_dies {input : Input} {bits : Int32} {now : Int64} (hkeyed : c.Keyed)
    (h : c.react input = some (c', packets)) (hon : input.eventOn = some (g, bits, now))
    (hdies : held bits die = true) (hg : (c.primaries.lookup g).isSome) :
    c'.primaries.lookup g = none := by
  rw [(react_handles h hon hg).1]
  exact handleUpdate_dies hkeyed hdies now

/-- A server that announces a deletion has no primary of the object. -/
theorem react_deletes {input : Input} (hkeyed : c.Keyed) (h : c.react input = some (c', packets))
    {p : Packet} (hp : p ∈ packets) (hg : g ∈ p.deletes) :
    (c.primaries.lookup g).isSome ∧ c'.primaries.lookup g = none := by
  cases p with
  | register dest key request => exact absurd hg List.not_mem_nil
  | reply dest key response => exact absurd hg List.not_mem_nil
  | update dest request =>
    obtain ⟨k, bits, now, -, -, rfl, call, hcall, -, rfl⟩ := react_calls h hp
    have hmem : g ∈ call.request.deletedGuids := hg
    cases ho : c.primaries.lookup k with
    | none =>
      rw [((handleUpdate_no_primary ho bits now).2 call hcall).1] at hmem
      exact absurd hmem List.not_mem_nil
    | some o =>
      rw [handleUpdate_primary ho] at hcall ⊢
      rw [(mem_pushes hcall).1] at hmem
      have hdeleted : g ∈ o.deleted ⟨bits, now⟩ := hmem
      rw [deleteAll_primaries, if_pos hdeleted]
      rw [GameObject.deleted, hkeyed k o ho] at hdeleted
      split at hdeleted
      · rw [List.mem_singleton.mp hdeleted, ho]
        exact ⟨rfl, rfl⟩
      · exact absurd hdeleted List.not_mem_nil

/-- A replica of another server's object stays, except when it is cleaned up or deleted. -/
theorem react_keeps_replica {input : Input} (h : c.react input = some (c', packets))
    (hkeyed : c.Keyed) (hnone : c.primaries.lookup g = none) (hclean : ∀ now, input ≠ .cleanup now)
    (hdel : ∀ request now, input = .update request now → g ∉ request.deletedGuids)
    (hg : (c.replicas.lookup g).isSome) : (c'.replicas.lookup g).isSome := by
  have hevent : ∀ k bits now, ((c.handleUpdate k bits now).1.replicas.lookup g).isSome := by
    intro k bits now
    cases ho : c.primaries.lookup k with
    | none => rwa [(handleUpdate_no_primary ho bits now).1]
    | some o =>
      rw [handleUpdate_primary ho, deleteAll_replicas, applied_frame, if_neg]
      · exact hg
      · rw [GameObject.deleted, hkeyed k o ho]
        split
        · intro hmem
          rw [List.mem_singleton.mp hmem, ho] at hnone
          cases hnone
        · exact List.not_mem_nil
  cases input with
  | event guid bits now =>
    obtain rfl : (c.handleUpdate guid bits now).1 = c' := congrArg Prod.fst (Option.some.inj h)
    exact hevent guid bits now
  | update request now =>
    obtain ⟨⟨c₁, calls⟩, hupdate, h⟩ := Option.map_eq_some_iff.mp h
    cases h
    rcases update_cases hupdate with ⟨o, event, -, -, hrun⟩ |
      ⟨-, -, ⟨rfl, -⟩ | ⟨r, event, c₂, -, hc₂, rfl⟩⟩
    · obtain ⟨rfl, -⟩ := Prod.mk.inj hrun
      exact hevent _ _ _
    · exact hg
    · rw [deleteAll_replicas, if_neg (hdel request now rfl)]
      have hadvance : ((c.replicas.insert request.targetGuid (r.advance event)).lookup g).isSome := by
        rw [GoMap.lookup_insert_ite]
        split
        · rfl
        · exact hg
      rw [replicateNew] at hc₂
      split at hc₂
      · exact installReplicas_kept hc₂ hadvance
      · cases hc₂
        exact hadvance
  | cleanup now => exact absurd rfl (hclean now)
  | install key response =>
    obtain ⟨c₁, hinstall, h⟩ := Option.map_eq_some_iff.mp h
    cases h
    exact installReplicas_kept hinstall hg
  | spawn request now =>
    obtain ⟨⟨k, c₁⟩, hspawn, h⟩ := Option.map_eq_some_iff.mp h
    cases h
    obtain ⟨state, -, hspawn⟩ := Option.map_eq_some_iff.mp hspawn
    cases hspawn
    exact hg
  | register key request now =>
    obtain rfl : (c.registerInterest request now).1 = c' := congrArg Prod.fst (Option.some.inj h)
    rw [registerInterest_frame]
    exact hg
  | connect peer =>
    cases h
    exact hg
  | notify publications =>
    cases h
    exact hg

end Colyseus

/-! ### The invariant -/

/-- What is deleted by a message in flight has been drawn, and no server owns it. -/
def Gone (s : System) : Prop :=
  ∀ p ∈ s.network, ∀ g ∈ p.deletes, (∃ k, s.Drew k g) ∧ ∀ k, ¬ s.Owns k g

/-- Everything that holds of the servers and messages in every run. -/
structure Watched (H : Int32 → UInt32 → Prop) (s : System) : Prop where
  filed : Filed s
  owned : Owned H s
  known : Known s
  gone : Gone s

section
variable {H : Int32 → UInt32 → Prop} {s s' : System} {sid k j : Int32} {input : Input}
  {c c' : Colyseus} {packets : List Packet} {g : UInt32}

/-- Whoever owns an object that has been drawn owned it before. -/
theorem Reacts.owns_before (h : Reacts s sid input s' c c' packets) (hdraws : s'.NoRepeat)
    (hdrew : s.Drew j g) (howns : s'.Owns k g) : s.Owns k g := by
  obtain ⟨d, hd, hg⟩ := howns
  rcases h.cases hd with ⟨rfl, rfl⟩ | ⟨-, hd⟩
  · rcases h.reaction.primaries g hg with hg | ⟨n, hle, hlt, hn⟩
    · exact ⟨c, h.before, hg⟩
    · exact absurd hn (h.not_redrawn hdraws hdrew n hle hlt)
  · exact ⟨d, hd, hg⟩

theorem Owned.owns (h : Owned H s) (hf : Filed s) (howns : s.Owns k g) : H k g := by
  obtain ⟨c, hc, hg⟩ := howns
  exact hf.sid k c hc ▸ (h.servers k c hc).owns g hg

theorem gone_ask (hf : Filed s) (hown : Owned H s) (h : Gone s) (hnow : s.NoRepeat)
    (hdraws : s'.NoRepeat) (hask : s.ask sid input = some s') : Gone s' := by
  obtain ⟨c, c', packets, hreacts⟩ := ask_reacts hf hask
  have hc := hreacts.before
  intro p hp g hg
  rw [hreacts.network] at hp
  rcases List.mem_append.mp hp with hp | hp
  · obtain ⟨⟨j, hdrew⟩, hnot⟩ := h p hp g hg
    exact ⟨⟨j, hreacts.grows.drew hdrew⟩,
      fun k howns => hnot k (hreacts.owns_before hdraws hdrew howns)⟩
  · obtain ⟨hsome, hnone⟩ := Colyseus.react_deletes (hf.keyed sid c hc) hreacts.react hp hg
    have hH := hown.owns hf ⟨c, hc, hsome⟩
    have hdrew := hown.drew sid g hH
    refine ⟨⟨sid, hreacts.grows.drew hdrew⟩, fun k howns => ?_⟩
    obtain rfl := owner_unique hown.drew hnow hH
      (hown.owns hf (hreacts.owns_before hdraws hdrew howns))
    obtain ⟨d, hd, hgd⟩ := howns
    obtain rfl := Option.some.inj (hreacts.after.symm.trans hd)
    rw [hnone] at hgd
    cases hgd

theorem Gone.network_sub {network : List Packet} (h : Gone s) (hsub : ∀ p ∈ network, p ∈ s.network) :
    Gone { s with network } :=
  fun p hp => h p (hsub p hp)

theorem Watched.network_sub {network : List Packet} (h : Watched H s)
    (hsub : ∀ p ∈ network, p ∈ s.network) : Watched H { s with network } :=
  ⟨h.filed.congr rfl, h.owned.network_sub hsub, h.known.network_sub hsub, h.gone.network_sub hsub⟩

theorem gone_step {a : Action} (hf : Filed s) (hown : Owned H s) (h : Gone s) (hnow : s.NoRepeat)
    (hdraws : s'.NoRepeat) (hstep : s.step a = some s') : Gone s' := by
  rcases System.step_cases hstep with ⟨sid, input, -, hask⟩ | ⟨i, now, packet, -, -, hask⟩ |
    ⟨i, packet, -, hi, rfl⟩ | ⟨i, packet, -, -, rfl⟩
  · exact gone_ask hf hown h hnow hdraws hask
  · have hsub : ∀ p ∈ s.network.eraseIdx i, p ∈ s.network := fun p => List.mem_of_mem_eraseIdx
    exact gone_ask (s := { s with network := s.network.eraseIdx i }) (hf.congr rfl)
      (hown.network_sub hsub) (h.network_sub hsub) hnow hdraws hask
  · exact h.network_sub fun p => mem_duplicated hi
  · exact h.network_sub fun p => List.mem_of_mem_eraseIdx

theorem Watched.step {a : Action} (h : Watched H s) (hdraws : s'.NoRepeat)
    (hstep : s.step a = some s') : Watched (Extended H s') s' := by
  obtain ⟨hf, hgrows⟩ := filed_step h.filed hstep
  have hnow := hgrows.noRepeat hdraws
  exact ⟨hf, owned_step h.filed h.owned hnow hstep, known_step h.filed h.known hstep,
    gone_step h.filed h.owned h.gone hnow hdraws hstep⟩

theorem Watched.runs {u : System} {actions : List Action} (h : Watched H s) (hdraws : u.NoRepeat)
    (hrun : run System.step s actions = some u) : ∃ H', Watched H' u := by
  refine run_preserves_good (P := fun v => ∃ H', Watched H' v) filed_back ?_ h.filed ⟨H, h⟩ hrun hdraws
  rintro v action w - ⟨H', hv⟩ hdraws hstep
  exact ⟨_, hv.step hdraws hstep⟩

/-- A reaction keeps the replicas of objects that are not deleted, except in a cleanup. -/
theorem Reacts.replicates (h : Reacts s sid input s' c c' packets) (hf : Filed s) (hown : Owned H s)
    (hnow : s.NoRepeat) (hclean : j = sid → ∀ now, input ≠ .cleanup now)
    (hdel : ∀ request now, input = .update request now → g ∉ request.deletedGuids)
    (hrep : s.Replicates j g) : s'.Replicates j g := by
  obtain ⟨d, hd, hr⟩ := hrep
  by_cases hj : j = sid
  · subst hj
    obtain rfl := Option.some.inj (h.before.symm.trans hd)
    exact ⟨c', h.after, Colyseus.react_keeps_replica h.react (hf.keyed j c h.before)
      (hown.not_primary hnow h.before hr) (hclean rfl) hdel hr⟩
  · exact ⟨d, (h.others j hj).trans hd, hr⟩

/-- An owner that reacts to an event that holds `die` does not own the object any more. -/
theorem Reacts.dies (h : Reacts s sid input s' c c' packets) (hf : Filed s) {bits : Int32} {now : Int64}
    (hon : input.eventOn = some (g, bits, now)) (hdies : held bits die = true)
    (howns : s.Owns sid g) : ¬ s'.Owns sid g := by
  obtain ⟨d, hd, hg⟩ := howns
  obtain rfl := Option.some.inj (h.before.symm.trans hd)
  rintro ⟨d', hd', hg'⟩
  obtain rfl := Option.some.inj (h.after.symm.trans hd')
  rw [Colyseus.react_dies (hf.keyed sid c h.before) h.react hon hdies hg] at hg'
  cases hg'

/-- A server with a replica sends the event to the owner. -/
theorem Reacts.forwards {bits : Int32} {now : Int64}
    (h : Reacts s sid (.event g bits now) s' c c' packets) (hwatched : Watched H s) (hnow : s.NoRepeat)
    (hrep : s.Replicates sid g) (howns : s.Owns k g) :
    Packet.update k ⟨g, some ⟨bits, 0⟩, [], [], []⟩ ∈ s'.network := by
  obtain ⟨d, hd, hr⟩ := hrep
  obtain rfl := Option.some.inj (h.before.symm.trans hd)
  obtain ⟨r, hr⟩ := Option.isSome_iff_exists.mp hr
  obtain ⟨-, hforward⟩ := hwatched.known.forwards hwatched.owned hnow hd hr bits now
  obtain ⟨-, hH⟩ := (hwatched.owned.servers sid c hd).replicas g r hr
  obtain rfl := owner_unique hwatched.owned.drew hnow hH (hwatched.owned.owns hwatched.filed howns)
  have hpackets : updates (c.handleUpdate g bits now).2 = packets :=
    congrArg Prod.snd (Option.some.inj h.react)
  rw [h.network, ← hpackets, hforward]
  exact List.mem_append_right _ (List.mem_singleton_self _)

end

/-! ### What is under way stays under way -/

section
variable {H : Int32 → UInt32 → Prop} {a b v w : Arena} {k : Int32} {g : UInt32}

/-- A server reacts; the goroutines that are left are those of `pending`, the messages those of
    `network`, and what has been taken from either is the input. -/
theorem Arena.Underway.asked {s' : System} {sid : Int32} {input : Input} {network : List Packet}
    {pending : List (Int32 × UInt32 × Int32)} (h : a.Underway k g)
    (hwatched : Watched H { a.system with network }) (hnow : a.system.NoRepeat)
    (hask : { a.system with network }.ask sid input = some s')
    (hturns : ∀ turn ∈ a.pending, turn.2 = (g, die) →
      turn ∈ pending ∨ (turn.1 = sid ∧ ∃ now, input = .event g die now))
    (hpackets : ∀ request, Packet.update k request ∈ a.system.network →
      Packet.update k request ∈ network ∨ (sid = k ∧ ∃ now, input = .update request now))
    (hclean : ∀ turn ∈ pending, turn.1 = sid → ∀ now, input ≠ .cleanup now)
    (hdel : ∀ request now, input = .update request now → g ∉ request.deletedGuids)
    (howns : a.system.Owns k g) (howns' : s'.Owns k g) : Arena.Underway ⟨s', pending⟩ k g := by
  obtain ⟨c, c', packets, hreacts⟩ := ask_reacts hwatched.filed hask
  rcases h with ⟨turn, hturn, hdies, hat⟩ | ⟨request, hp, rfl, hkills⟩
  · rcases hturns turn hturn hdies with hleft | ⟨rfl, now, rfl⟩
    · refine .inl ⟨turn, hleft, hdies, hat.imp_right fun hrep => ?_⟩
      exact hreacts.replicates hwatched.filed hwatched.owned hnow (hclean turn hleft) hdel hrep
    · -- the goroutine that waited for the object has run
      rcases hat with rfl | hrep
      · have hheld : held die die = true := by decide
        exact absurd howns' (hreacts.dies hwatched.filed rfl hheld howns)
      · have hheld : held die die = true := by decide
        exact .inr ⟨_, hreacts.forwards hwatched hnow hrep howns, rfl, hheld⟩
  · rcases hpackets request hp with hleft | ⟨rfl, now, rfl⟩
    · refine .inr ⟨request, ?_, rfl, hkills⟩
      show Packet.update k request ∈ s'.network
      rw [hreacts.network]
      exact List.mem_append_left _ hleft
    · -- the message has arrived
      obtain ⟨event, hevent, hheld⟩ := (Option.any_eq_true _ _).mp hkills
      have hon : (Input.update request now).eventOn = some (request.targetGuid, event.input, now) := by
        rw [Input.eventOn, hevent]
        rfl
      exact absurd howns' (hreacts.dies hwatched.filed hon hheld howns)

/-- More goroutines and messages, at the same servers. -/
theorem Arena.Underway.mono {network : List Packet} {pending : List (Int32 × UInt32 × Int32)}
    (h : a.Underway k g) (hpending : ∀ turn ∈ a.pending, turn ∈ pending)
    (hnetwork : ∀ p ∈ a.system.network, p.kills = true → p ∈ network) :
    Arena.Underway ⟨{ a.system with network }, pending⟩ k g := by
  rcases h with ⟨turn, hturn, hdies, hat⟩ | ⟨request, hp, htarget, hkills⟩
  · exact .inl ⟨turn, hpending turn hturn, hdies, hat⟩
  · exact .inr ⟨request, hnetwork _ hp hkills, htarget, hkills⟩

/-- An action of the system other than an event of the application. -/
theorem Arena.Underway.system {s' : System} {action : Action} (h : a.Underway k g)
    (hwatched : Watched H a.system) (hnow : a.system.NoRepeat)
    (hsettles : a.Settles (.system action)) (hstep : a.system.step action = some s')
    (howns : a.system.Owns k g) (howns' : s'.Owns k g) : Arena.Underway ⟨s', a.pending⟩ k g := by
  rcases System.step_cases hstep with ⟨sid, input, hext, hask⟩ | ⟨i, now, packet, -, hi, hask⟩ |
    ⟨i, packet, -, hi, rfl⟩ | ⟨i, packet, rfl, hi, rfl⟩
  · refine h.asked hwatched hnow hask (fun turn ht _ => .inl ht) (fun request hp => .inl hp)
      (fun turn ht hat now hinput => ?_) (fun request now hupdate => ?_) howns howns'
    · cases action with
      | cleanup sid' t =>
        cases hext
        exact hsettles turn ht hat
      | deliver i t => cases hext
      | duplicate i => cases hext
      | lose i => cases hext
      | _ =>
        cases hext
        cases hinput
    · rw [external_deletes hext request now hupdate]
      exact List.not_mem_nil
  · have hsub : ∀ p ∈ a.system.network.eraseIdx i, p ∈ a.system.network :=
      fun p => List.mem_of_mem_eraseIdx
    refine h.asked (hwatched.network_sub hsub) hnow hask (fun turn ht _ => .inl ht)
      (fun request hp => ?_) (fun turn ht hat t hinput => ?_) (fun request t hupdate hg => ?_)
      howns howns'
    · rcases mem_eraseIdx_or hi hp with rfl | hp
      · exact .inr ⟨rfl, now, rfl⟩
      · exact .inl hp
    · cases packet <;> cases hinput
    · cases packet with
      | update dest request' =>
        cases hupdate
        exact (hwatched.gone _ (List.mem_of_getElem? hi) g hg).2 k howns
      | register dest key request' => cases hupdate
      | reply dest key response => cases hupdate
  · exact h.mono (fun turn => id) fun p hp _ => List.mem_append_left _ hp
  · refine h.mono (fun turn => id) fun p hp hkills => ?_
    rcases mem_eraseIdx_or hi hp with rfl | hp
    · rw [hsettles p hi] at hkills
      cases hkills
    · exact hp

/-- The invariant of the servers and messages, and what is known of the death of `g`. -/
structure Doomed (g : UInt32) (H : Int32 → UInt32 → Prop) (a : Arena) : Prop where
  watched : Watched H a.system
  drew : ∃ k, a.system.Drew k g
  underway : ∀ k, a.system.Owns k g → a.Underway k g

/-- Whoever owns an object that has been drawn owned it before. -/
theorem System.owns_before {s s' : System} {action : Action} {j : Int32} (hf : Filed s)
    (hdraws : s'.NoRepeat) (hdrew : s.Drew j g) (hstep : s.step action = some s')
    (howns : s'.Owns k g) : s.Owns k g := by
  rcases System.step_cases hstep with ⟨sid, input, -, hask⟩ | ⟨i, now, packet, -, -, hask⟩ |
    ⟨i, packet, -, -, rfl⟩ | ⟨i, packet, -, -, rfl⟩
  · obtain ⟨c, c', packets, hreacts⟩ := ask_reacts hf hask
    exact hreacts.owns_before hdraws hdrew howns
  · obtain ⟨c, c', packets, hreacts⟩ :=
      ask_reacts (s := { s with network := s.network.eraseIdx i }) (hf.congr rfl) hask
    exact hreacts.owns_before hdraws hdrew howns
  · exact howns
  · exact howns

theorem Doomed.step {play : Play} (h : Doomed g H a) (hdraws : b.system.NoRepeat)
    (hsettles : a.Settles play) (hstep : a.step play = some b) : ∃ H', Doomed g H' b := by
  obtain ⟨-, hgrows⟩ := Arena.step_filed h.watched.filed hstep
  have hnow := hgrows.noRepeat hdraws
  obtain ⟨j, hdrew⟩ := h.drew
  obtain ⟨s', pending⟩ := b
  rcases Arena.step_cases hstep with ⟨action, rfl, -, hs, hpending⟩ |
    ⟨sid, i, now, c, rfl, -, -, hb⟩ | ⟨i, now, turn, rfl, hturn, hs, hpending⟩
  · obtain rfl : pending = a.pending := hpending
    refine ⟨_, h.watched.step hdraws hs, ⟨j, hgrows.drew hdrew⟩, fun k howns' => ?_⟩
    have howns := System.owns_before h.watched.filed hdraws hdrew hs howns'
    exact (h.underway k howns).system h.watched hnow hsettles hs howns howns'
  · cases hb
    refine ⟨H, h.watched, h.drew, fun k howns => ?_⟩
    exact (h.underway k howns).mono (fun turn => List.mem_append_left _) fun p hp _ => hp
  · obtain rfl : pending = a.pending.eraseIdx i := hpending
    refine ⟨_, h.watched.step hdraws hs, ⟨j, hgrows.drew hdrew⟩, fun k howns' => ?_⟩
    have howns := System.owns_before h.watched.filed hdraws hdrew hs howns'
    refine (h.underway k howns).asked h.watched hnow hs (fun turn' ht hdies => ?_)
      (fun request hp => .inl hp) (fun _ _ _ _ hinput => ?_) (fun _ _ hupdate => ?_) howns howns'
    · rcases mem_eraseIdx_or hturn ht with rfl | ht
      · refine .inr ⟨rfl, now, ?_⟩
        rw [hdies]
      · exact .inl ht
    · cases hinput
    · cases hupdate

theorem Doomed.stays {plays : List Play} (h : Doomed g H a) (hdraws : b.system.NoRepeat)
    (hsettles : Meets Arena.step Arena.Settles a plays) (hrun : run Arena.step a plays = some b) :
    ∃ H', Doomed g H' b := by
  refine run_invariant_good (P := fun v => ∃ H', Doomed g H' v) Arena.filed_back ?_ h.watched.filed
    ⟨H, h⟩ hsettles hrun hdraws
  rintro v play w - ⟨H', hv⟩ hdraws hsettles hstep
  exact hv.step hdraws hsettles hstep

/-- The invariant of the servers and messages, in a run of the arena. -/
theorem Watched.stays {plays : List Play} (h : Watched H a.system) (hdraws : b.system.NoRepeat)
    (hrun : run Arena.step a plays = some b) : ∃ H', Watched H' b.system := by
  refine run_preserves_good (P := fun v => ∃ H', Watched H' v.system) Arena.filed_back ?_ h.filed
    ⟨H, h⟩ hrun hdraws
  rintro v play w - ⟨H', hv⟩ hdraws hstep
  rcases Arena.step_cases hstep with ⟨action, rfl, -, hs, -⟩ | ⟨sid, i, now, c, rfl, -, -, rfl⟩ |
    ⟨i, now, turn, rfl, -, hs, -⟩
  · exact ⟨_, hv.step hdraws hs⟩
  · exact ⟨H', hv⟩
  · exact ⟨_, hv.step hdraws hs⟩

theorem initial_watched {s : System} (h : s.Initial) : Watched (fun _ _ => False) s where
  filed := initial_filed h
  owned := initial_owned h
  known := initial_known h
  gone := by
    intro p hp
    rw [h.network] at hp
    exact absurd hp List.not_mem_nil

/-- What a frame lists of its server is doomed. -/
theorem listed_doomed {sid : Int32} {i : Iteration} {now : Int64} {c : Colyseus} {x : GameObject}
    (hwatched : Watched H v.system) (hdraws : v.system.NoRepeat)
    (hc : v.system.servers.lookup sid = some c)
    (hx : x ∈ c.primaries.values ∨ x ∈ c.replicas.values) (hlisted : (x.guid, die) ∈ i.gameLoop now) :
    Doomed x.guid H
      { v with pending := v.pending ++ (i.gameLoop now).map fun update => (sid, update) } := by
  have hturn : (sid, (x.guid, die)) ∈
      v.pending ++ (i.gameLoop now).map fun update => (sid, update) :=
    List.mem_append_right _ (List.mem_map_of_mem hlisted)
  have hf := hwatched.filed
  have hown := hwatched.owned
  rcases hx with hx | hx
  · obtain ⟨g, hg⟩ := (GoMap.mem_values_iff _ _).mp hx
    obtain rfl := hf.keyed sid c hc g x hg
    have hH := hown.owns hf ⟨c, hc, by rw [hg]; rfl⟩
    refine ⟨hwatched, ⟨sid, hown.drew sid _ hH⟩, fun k howns => ?_⟩
    obtain rfl := owner_unique hown.drew hdraws hH (hown.owns hf howns)
    exact .inl ⟨_, hturn, rfl, .inl rfl⟩
  · obtain ⟨g, hg⟩ := (GoMap.mem_values_iff _ _).mp hx
    obtain rfl := hf.replicas sid c hc g x hg
    obtain ⟨-, hH⟩ := (hown.servers sid c hc).replicas _ x hg
    refine ⟨hwatched, ⟨x.sid, hown.drew _ _ hH⟩, fun k howns => ?_⟩
    exact .inl ⟨_, hturn, rfl, .inr ⟨c, hc, by rw [hg]; rfl⟩⟩

/-- Every hit is fatal: a projectile that meets a player in a frame of its server takes one with it.
    From then on, in every run that loses no message that lets an object die and cleans up no server
    with a waiting goroutine, the deaths of both are under way as long as they are owned, and once no
    goroutine waits and nothing is in flight, no server owns either. -/
theorem hits_are_fatal {sid : Int32} {i : Iteration} {now : Int64} {c : Colyseus} {p o : GameObject}
    {before after : List Play} (h : a.Initial) (hbefore : run Arena.step a before = some v)
    (hc : v.system.servers.lookup sid = some c) (hframe : v.step (.frame sid i now) = some w)
    (hafter : run Arena.step w after = some b) (hdraws : b.system.NoRepeat)
    (hsettles : Meets Arena.step Arena.Settles w after) (hp : p ∈ c.primaries.values)
    (htype : p.type = projectile) (hmeet : c.Collides now p o) :
    ∃ o', c.Collides now p o' ∧ ∀ g, g = p.guid ∨ g = o'.guid →
      (∀ k, b.system.Owns k g → b.Underway k g) ∧
      (b.pending = [] → b.system.network = [] → ∀ k, ¬ b.system.Owns k g) := by
  obtain ⟨hf, hgrows⟩ := Arena.step_filed (Arena.run_filed (initial_filed h.system) hbefore).1 hframe
  have hnow := (hgrows.trans (Arena.run_filed hf hafter).2).noRepeat hdraws
  obtain ⟨H, hwatched⟩ := (initial_watched h.system).stays hnow hbefore
  obtain ⟨c', hc', hlisted⟩ := Option.bind_eq_some_iff.mp hframe
  obtain rfl := Option.some.inj (hc.symm.trans hc')
  split at hlisted
  case isFalse => cases hlisted
  rename_i hi
  cases hlisted
  have hpi : p ∈ i.primaries := hi.1.mem_iff.mpr hp
  obtain ⟨o', ho'⟩ := Option.isSome_iff_exists.mp (hi.target_isSome hpi hmeet)
  have hcollides := hi.collides hpi ho'
  have hboth : ∀ g, g = p.guid ∨ g = o'.guid → ∃ H', Doomed g H' b := by
    have hbatch : [(o'.guid, die), (p.guid, die)] ⊆ i.gameLoop now := by
      intro update hmem
      rw [Colyseus.gameLoop_eq]
      refine List.mem_flatMap.mpr ⟨(p, o'), ?_, hmem⟩
      refine List.mem_filterMap.mpr ⟨p, hpi, ?_⟩
      rw [if_pos htype, ho']
      rfl
    rintro g (rfl | rfl)
    · have hlisted : (p.guid, die) ∈ i.gameLoop now := hbatch (by simp)
      exact (listed_doomed hwatched hnow hc (.inl hp) hlisted).stays hdraws hsettles hafter
    · have hlisted : (o'.guid, die) ∈ i.gameLoop now := hbatch (by simp)
      exact (listed_doomed hwatched hnow hc hcollides.1 hlisted).stays hdraws hsettles hafter
  refine ⟨o', hcollides, fun g hg => ?_⟩
  obtain ⟨H', hdoomed⟩ := hboth g hg
  refine ⟨hdoomed.underway, fun hpending hnetwork k howns => ?_⟩
  rcases hdoomed.underway k howns with ⟨turn, hturn, -⟩ | ⟨request, hrequest, -⟩
  · rw [hpending] at hturn
    exact absurd hturn List.not_mem_nil
  · rw [hnetwork] at hrequest
    exact absurd hrequest List.not_mem_nil

end

/-- Server 2 spawns the projectile, and then sees it hit the replica. -/
def spawned : List Play :=
  meet.map .system ++ [.system (.spawn 2 ⟨some ⟨0, 10, 10, 1, 1, projectile⟩⟩ 2000)]

/-- The goroutines run, the death is forwarded, and its push arrives. -/
def quiets : List Play := strikes ++ [.system (.deliver 0 2050)]

/-- The player of server 1 is gone, as the projectile of server 2 met its replica. -/
theorem hits_are_fatal_quiets : ∃ v w b c o, run Arena.step twoIdle spawned = some v ∧
    v.step (.frame 2 oneEach 2010) = some w ∧ run Arena.step w quiets = some b ∧
    v.system.servers.lookup 2 = some c ∧ c.Collides 2010 falling o ∧ v.system.Owns 1 100 ∧
    ∀ k, ¬ b.system.Owns k falling.guid ∧ ¬ b.system.Owns k o.guid := by
  obtain ⟨⟨v, w, b⟩, heval, ⟨hdraws, hsettles, hpending, hnetwork⟩, howns, hserver⟩ :=
    exists_of_map_decide
      (o := (run Arena.step twoIdle spawned).bind fun v => (v.step (.frame 2 oneEach 2010)).bind
        fun w => (run Arena.step w quiets).map fun b => (v, w, b))
      (P := fun x => (x.2.2.system.NoRepeat ∧ Meets Arena.step Arena.Settles x.2.1 quiets ∧
        x.2.2.pending = [] ∧ x.2.2.system.network = []) ∧ x.1.system.Owns 1 100 ∧
        (x.1.system.servers.lookup 2).any fun c =>
          falling ∈ c.primaries.values ∧ standing ∈ c.replicas.values) (by decide +kernel)
  obtain ⟨v', hbefore, heval⟩ := Option.bind_eq_some_iff.mp heval
  obtain ⟨w', hframe, heval⟩ := Option.bind_eq_some_iff.mp heval
  obtain ⟨b', hafter, heq⟩ := Option.map_eq_some_iff.mp heval
  cases heq
  obtain ⟨c, hc, hobjects⟩ := (Option.any_eq_true _ _).mp hserver
  obtain ⟨hfalling, hstanding⟩ := of_decide_eq_true hobjects
  have hmeet : c.Collides 2010 falling standing := ⟨.inr hstanding, by decide, by decide +kernel⟩
  have hinit : twoIdle.Initial := ⟨initial_twoServers, rfl⟩
  obtain ⟨o, ho, hgone⟩ := hits_are_fatal hinit hbefore hc hframe hafter hdraws hsettles hfalling
    (by decide) hmeet
  refine ⟨v, w, b, c, o, hbefore, hframe, hafter, hc, ho, howns, fun k => ⟨?_, ?_⟩⟩
  · exact (hgone _ (.inl rfl)).2 hpending hnetwork k
  · exact (hgone _ (.inr rfl)).2 hpending hnetwork k

end DistGame
