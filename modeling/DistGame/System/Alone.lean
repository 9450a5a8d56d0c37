import DistGame.Lib.Run
import DistGame.System.Deaths
import DistGame.System.Ownership

/-! One server on its own, whoever calls it and with whatever contents: its maps stay in step, and a
    primary stays what it is until it dies, unless a guid of another object gets in its way. -/

namespace DistGame
namespace Colyseus
variable {c c' : Colyseus}

/-- The server after its reaction to an input, whatever it sends. -/
def step (c : Colyseus) (input : Input) : Option Colyseus := (c.react input).map Prod.fst

/-- A server that has just been started. -/
structure Fresh (c : Colyseus) : Prop where
  primaries : c.primaries = ∅
  replicas : c.replicas = ∅
  primaryInterest : c.primaryInterest = ∅

/-! ### The maps stay in step -/

/-- Every primary has an interest list and no other guid has one, objects are stored under their own
    guids, and the server owns its primaries. -/
structure InStep (c : Colyseus) : Prop where
  keys : ∀ g, g ∈ c.primaries ↔ g ∈ c.primaryInterest
  keyed : c.Keyed
  replicas : c.ReplicasKeyed
  sids : ∀ g o, c.primaries.lookup g = some o → o.sid = c.sid

theorem Fresh.inStep (h : c.Fresh) : c.InStep where
  keys := by simp [h.primaries, h.primaryInterest]
  keyed := by simp [Keyed, h.primaries]
  replicas := by simp [ReplicasKeyed, h.replicas]
  sids := by simp [h.primaries]

namespace InStep

/-- Only the replicas have changed. -/
theorem of_replicas (h : c.InStep) (hframe : c' = { c with replicas := c'.replicas })
    (hkeyed : c'.ReplicasKeyed) : c'.InStep := by
  rw [hframe] at hkeyed ⊢
  exact ⟨h.keys, h.keyed, hkeyed, h.sids⟩

theorem spawnObject (h : c.InStep) {o : GameObject} (ho : o.sid = c.sid) :
    (c.spawnObject o).2.InStep where
  keys := by
    intro g
    simp only [Colyseus.spawnObject, AList.mem_insert, h.keys]
  keyed := by
    intro g x hx
    simp only [Colyseus.spawnObject, GoMap.lookup_insert_ite] at hx
    split at hx
    · rename_i hg
      cases hx
      exact hg.symm
    · exact h.keyed g x hx
  replicas := h.replicas
  sids := by
    intro g x hx
    simp only [Colyseus.spawnObject, GoMap.lookup_insert_ite] at hx
    split at hx
    · cases hx
      exact ho
    · exact h.sids g x hx

theorem deleteObject (h : c.InStep) (g : UInt32) : (c.deleteObject g).InStep where
  keys := by
    intro k
    simp only [Colyseus.deleteObject, AList.mem_erase, h.keys]
  keyed := by
    intro k x hx
    simp only [Colyseus.deleteObject, GoMap.lookup_erase_ite] at hx
    split at hx
    · cases hx
    · exact h.keyed k x hx
  replicas := by
    intro k x hx
    simp only [Colyseus.deleteObject, GoMap.lookup_erase_ite] at hx
    split at hx
    · cases hx
    · exact h.replicas k x hx
  sids := by
    intro k x hx
    simp only [Colyseus.deleteObject, GoMap.lookup_erase_ite] at hx
    split at hx
    · cases hx
    · exact h.sids k x hx

theorem deleteAll (guids : List UInt32) (h : c.InStep) :
    (guids.foldl Colyseus.deleteObject c).InStep := by
  induction guids generalizing c with
  | nil => exact h
  | cons g guids ih => exact ih (h.deleteObject g)

/-- The created objects have the sid of the server whose event created them. -/
theorem createObjects (objects : List GameObject) (h : c.InStep)
    (hsids : ∀ o ∈ objects, o.sid = c.sid) : (c.createObjects objects).1.InStep := by
  induction objects generalizing c with
  | nil => exact h
  | cons o objects ih =>
    rw [createObjects_cons]
    refine ih (h.spawnObject (hsids o List.mem_cons_self)) ?_
    intro x hx
    exact hsids x (List.mem_cons_of_mem _ hx)

/-- An event on a primary: it advances, and what it creates is owned by its owner. -/
theorem applied (h : c.InStep) {g : UInt32} {o : GameObject} (ho : c.primaries.lookup g = some o)
    (event : GameEvent) : (c.applied g o event).1.InStep := by
  rw [Colyseus.applied]
  refine createObjects _ ⟨?_, ?_, h.replicas, ?_⟩ ?_
  · intro k
    have hg : g ∈ c.primaryInterest := (h.keys g).mp (AList.lookup_isSome.mp (by simp [ho]))
    simp only [AList.mem_insert, h.keys]
    constructor
    · rintro (rfl | hk)
      · exact hg
      · exact hk
    · exact .inr
  · intro k x hx
    simp only [GoMap.lookup_insert_ite] at hx
    split at hx
    · rename_i hk
      cases hx
      simp [hk, h.keyed g o ho]
    · exact h.keyed k x hx
  · intro k x hx
    simp only [GoMap.lookup_insert_ite] at hx
    split at hx
    · cases hx
      simp [h.sids g o ho]
    · exact h.sids k x hx
  · intro x hx
    rw [GameObject.created] at hx
    split at hx
    · rw [List.mem_singleton.mp hx]
      simp [GameObject.shot, h.sids g o ho]
    · exact absurd hx List.not_mem_nil

theorem handleUpdate (h : c.InStep) (g : UInt32) (input : Int32) (now : Int64) :
    (c.handleUpdate g input now).1.InStep := by
  cases ho : c.primaries.lookup g with
  | none =>
    rw [(handleUpdate_no_primary ho input now).1]
    exact h
  | some o =>
    rw [handleUpdate_primary ho]
    exact (h.applied ho _).deleteAll _

/-- Markers are only put on primaries. -/
theorem registerTargets (sid : Int32) (now : Int64) (targets : List UInt32) (h : c.InStep) :
    (c.registerTargets sid now targets).1.InStep := by
  induction targets generalizing c with
  | nil => exact h
  | cons g targets ih =>
    rw [Colyseus.registerTargets]
    cases ho : c.primaries.lookup g with
    | none => exact ih h
    | some o =>
      refine ih ⟨fun k => ?_, h.keyed, h.replicas, h.sids⟩
      have hg : g ∈ c.primaries := AList.lookup_isSome.mp (by simp [ho])
      simp only [AList.mem_insert, ← h.keys]
      constructor
      · exact .inr
      · rintro (rfl | hk)
        · exact hg
        · exact hk

/-- Described states are stored under the guids they carry. -/
theorem installReplicas (h : c.InStep) {sid : Int32} {states : List ProtoGameObject}
    {events : List GameEvent} (hinstall : c.installReplicas sid states events = some c') :
    c'.InStep := by
  obtain ⟨hframe, hstored⟩ := installReplicas_spec hinstall
  refine h.of_replicas hframe fun k x hx => ?_
  rcases hstored hx with hx | ⟨st, -, event, rfl, rfl⟩
  · exact h.replicas k x hx
  · rfl

theorem update (h : c.InStep) {request : UpdateRequest} {now : Int64}
    {calls : List (PeerCall UpdateRequest)} (hupdate : c.update request now = some (c', calls)) :
    c'.InStep := by
  rcases update_cases hupdate with ⟨_, event, -, -, hrun⟩ | ⟨-, -, ⟨rfl, -⟩ |
    ⟨r, event, c₁, hr, hc₁, rfl⟩⟩
  · obtain ⟨rfl, -⟩ := Prod.mk.inj hrun
    exact h.handleUpdate _ _ _
  · exact h
  · have hadvanced : { c with replicas := c.replicas.insert request.targetGuid (r.advance event)
        }.InStep := by
      refine h.of_replicas rfl fun k x hx => ?_
      simp only [GoMap.lookup_insert_ite] at hx
      split at hx
      · rename_i hk
        cases hx
        simp [hk, h.replicas _ r hr]
      · exact h.replicas k x hx
    rw [replicateNew] at hc₁
    split at hc₁
    · exact (hadvanced.installReplicas hc₁).deleteAll _
    · cases hc₁
      exact hadvanced.deleteAll _

end InStep

/-- Whatever a server reacts to, its maps stay in step and its sid stays. -/
theorem step_inStep {input : Input} (h : c.InStep) (hstep : c.step input = some c') :
    c'.InStep ∧ c'.sid = c.sid := by
  obtain ⟨⟨_, packets⟩, hreact, rfl⟩ := Option.map_eq_some_iff.mp hstep
  refine ⟨?_, (react_reaction h.keyed h.replicas hreact).sid⟩
  cases input with
  | connect peer =>
    cases hreact
    exact ⟨h.keys, h.keyed, h.replicas, h.sids⟩
  | spawn request now =>
    obtain ⟨⟨g, c₁⟩, hspawn, hreact⟩ := Option.map_eq_some_iff.mp hreact
    cases hreact
    obtain ⟨state, -, hspawn⟩ := Option.map_eq_some_iff.mp hspawn
    cases hspawn
    exact h.spawnObject rfl
  | event guid bits now =>
    cases hreact
    exact h.handleUpdate _ _ _
  | update request now =>
    obtain ⟨⟨c₁, calls⟩, hupdate, hreact⟩ := Option.map_eq_some_iff.mp hreact
    cases hreact
    exact h.update hupdate
  | notify publications =>
    cases hreact
    exact h
  | cleanup now =>
    cases hreact
    obtain ⟨hframe, hkept, -⟩ := cleanup_spec h.replicas now
    exact h.of_replicas hframe fun k r hr => h.replicas k r ((hkept k r).mp hr).1
  | register key request now =>
    cases hreact
    exact h.registerTargets _ _ _
  | install key response =>
    obtain ⟨c₁, hinstall, hreact⟩ := Option.map_eq_some_iff.mp hreact
    cases hreact
    exact h.installReplicas hinstall

theorem run_inStep {inputs : List Input} (h : c.InStep) (hrun : run step c inputs = some c') :
    c'.InStep ∧ c'.sid = c.sid :=
  run_preserves (P := fun d => d.InStep ∧ d.sid = c.sid)
    (fun _ _ _ hd hstep => by
      obtain ⟨hin, hsid⟩ := step_inStep hd.1 hstep
      exact ⟨hin, hsid.trans hd.2⟩) ⟨h, rfl⟩ hrun

/-- Whoever calls a server and with whatever contents, its primaries and their interest lists have the
    same guids, its objects are stored under their own guids, and its primaries carry its sid. -/
theorem maps_in_step {inputs : List Input} (h : c.Fresh) (hrun : run step c inputs = some c') :
    (∀ g, g ∈ c'.primaries ↔ g ∈ c'.primaryInterest) ∧
      (∀ g o, c'.primaries.lookup g = some o → o.guid = g) ∧
      (∀ g r, c'.replicas.lookup g = some r → r.guid = g) ∧
      c'.sid = c.sid ∧ ∀ g o, c'.primaries.lookup g = some o → o.sid = c'.sid := by
  obtain ⟨hin, hsid⟩ := run_inStep h.inStep hrun
  exact ⟨hin.keys, hin.keyed, hin.replicas, hsid, hin.sids⟩

/-- A player spawns and shoots; a peer answers with a state under the player's guid and deletes the
    projectile by an update of another replica; a registration names guids that do not exist. -/
def hostileCalls : List Input :=
  [.spawn ⟨some ⟨0, 10, 10, 2, 2, player⟩⟩ 0,
    .install 7 ⟨[⟨99, 0, 0, 1, 1, shield⟩, ⟨100, 0, 0, 1, 1, shield⟩], [⟨0, 5⟩, ⟨0, 5⟩]⟩,
    .event 100 shoot 10, .update ⟨99, some ⟨0, 20⟩, [], [], [102]⟩ 20,
    .register 1 ⟨[100, 102, 3], -5, false⟩ 30, .cleanup 40]

theorem fresh_newServer (sid : Int32) (first : ℕ) : (newServer sid first).Fresh := ⟨rfl, rfl, rfl⟩

/-- After the hostile calls only the player is left, with an interest list, its guid and its sid. -/
theorem maps_in_step_hostile : ∃ c o, run step (newServer 1 100) hostileCalls = some c ∧
    c.primaries.keys = [100] ∧ c.primaries.lookup 100 = some o ∧ 100 ∈ c.primaryInterest ∧
    o.guid = 100 ∧ o.sid = 1 := by
  obtain ⟨c, hrun, hkeys⟩ := exists_of_map_decide
    (o := run step (newServer 1 100) hostileCalls) (P := fun c => c.primaries.keys = [100])
    (by decide +kernel)
  obtain ⟨hkeysets, hkeyed, -, hsid, hsids⟩ := maps_in_step (fresh_newServer 1 100) hrun
  have hmem : (100 : UInt32) ∈ c.primaries := by simp [AList.mem_keys, hkeys]
  obtain ⟨o, ho⟩ := Option.isSome_iff_exists.mp (AList.lookup_isSome.mpr hmem)
  exact ⟨c, o, hrun, hkeys, ho, (hkeysets 100).mp hmem, hkeyed 100 o ho, (hsids 100 o ho).trans hsid⟩

/-! ### A primary lives until its own death -/

/-- The events on `g` among some inputs, in their order. -/
def eventsOn (g : UInt32) (inputs : List Input) : List GameEvent :=
  inputs.filterMap fun input => (input.eventOn.filter fun e => e.1 = g).map fun e => ⟨e.2.1, e.2.2⟩

/-- The input creates no object under the guid `g`, and is no update of a replica that deletes `g`. -/
def Spares (g : UInt32) (c : Colyseus) : Input → Prop
  | .spawn _ _ => c.guids c.drawn ≠ g
  | .event k bits now => ∀ o ∈ c.primaries.lookup k, ¬ c.Overwrites g o ⟨bits, now⟩
  | .update request now =>
    (∀ o ∈ c.primaries.lookup request.targetGuid, ∀ event ∈ request.update,
      ¬ c.Overwrites g o ⟨event.input, now⟩) ∧
    (c.primaries.lookup request.targetGuid = none →
      (c.replicas.lookup request.targetGuid).isSome → g ∉ request.deletedGuids)
  | _ => True

instance (g : UInt32) (c : Colyseus) : ∀ input, Decidable (Spares g c input)
  | .spawn _ _ => inferInstanceAs (Decidable (_ ≠ _))
  | .event _ _ _ => inferInstanceAs (Decidable (∀ _ ∈ _, ¬ _))
  | .update _ _ => inferInstanceAs (Decidable (_ ∧ _))
  | .connect _ => isTrue trivial
  | .notify _ => isTrue trivial
  | .cleanup _ => isTrue trivial
  | .register _ _ _ => isTrue trivial
  | .install _ _ => isTrue trivial

theorem eventsOn_cons (g : UInt32) (input : Input) (inputs : List Input) :
    eventsOn g (input :: inputs) = eventsOn g [input] ++ eventsOn g inputs := by
  rw [eventsOn, ← List.singleton_append, List.filterMap_append]
  rfl

theorem eventsOn_none {input : Input} (h : input.eventOn = none) (g : UInt32) :
    eventsOn g [input] = [] := by
  simp [eventsOn, h]

theorem eventsOn_some {input : Input} {k : UInt32} {bits : Int32} {now : Int64}
    (h : input.eventOn = some (k, bits, now)) (g : UInt32) :
    eventsOn g [input] = if k = g then [⟨bits, now⟩] else [] := by
  by_cases hk : k = g <;> simp [eventsOn, h, hk]

section
variable {g : UInt32} {o : GameObject}

/-- An update of `k` that does not create `g` advances it if `k` is `g`, and else leaves it. -/
theorem handleUpdate_spares {k : UInt32} {bits : Int32} {now : Int64} (hkeyed : c.Keyed)
    (ho : c.primaries.lookup g = some o)
    (hspares : ∀ x ∈ c.primaries.lookup k, ¬ c.Overwrites g x ⟨bits, now⟩)
    (halive : ∀ e ∈ if k = g then [(⟨bits, now⟩ : GameEvent)] else [], held e.input die = false) :
    (c.handleUpdate k bits now).1.primaries.lookup g =
        some ((if k = g then [⟨bits, now⟩] else []).foldl GameObject.advance o) ∧
      c.primaryInterest.index g [] <+: (c.handleUpdate k bits now).1.primaryInterest.index g [] := by
  cases hx : c.primaries.lookup k with
  | none =>
    have hk : k ≠ g := by
      rintro rfl
      simp [hx] at ho
    rw [(handleUpdate_no_primary hx bits now).1, if_neg hk]
    exact ⟨ho, List.prefix_rfl⟩
  | some x =>
    have hdraw := (not_overwrites_iff _).mp (hspares x hx)
    have hdel : g ∉ x.deleted ⟨bits, now⟩ := by
      rw [GameObject.deleted, hkeyed k x hx]
      split
      · rename_i hdies
        rintro hg
        simp [(List.mem_singleton.mp hg).symm] at halive
        simp [halive] at hdies
      · exact List.not_mem_nil
    rw [handleUpdate_primary hx, deleteAll_primaries, deleteAll_index, if_neg hdel, if_neg hdel,
      applied, createObjects_primaries _ _ hdraw, createObjects_index, if_pos hdraw,
      GoMap.lookup_insert_ite]
    refine ⟨?_, List.prefix_rfl⟩
    by_cases hk : k = g
    · subst hk
      obtain rfl := Option.some.inj (ho.symm.trans hx)
      simp
    · simp [hk, Ne.symm hk, ho]

/-- One input that spares `g` and does not let it die: the events on `g` advance it, and its interest
    list grows at the end. -/
theorem step_spares {input : Input} (hin : c.InStep) (ho : c.primaries.lookup g = some o)
    (hspares : Spares g c input) (halive : ∀ e ∈ eventsOn g [input], held e.input die = false)
    (hstep : c.step input = some c') :
    c'.primaries.lookup g = some ((eventsOn g [input]).foldl GameObject.advance o) ∧
      c.primaryInterest.index g [] <+: c'.primaryInterest.index g [] := by
  obtain ⟨⟨_, packets⟩, hreact, rfl⟩ := Option.map_eq_some_iff.mp hstep
  cases input with
  | spawn request now =>
    obtain ⟨⟨k, c₁⟩, hspawn, hreact⟩ := Option.map_eq_some_iff.mp hreact
    cases hreact
    obtain ⟨state, -, hspawn⟩ := Option.map_eq_some_iff.mp hspawn
    cases hspawn
    have hne : g ≠ c.guids c.drawn := Ne.symm hspares
    rw [eventsOn_none rfl]
    simp [GoMap.index_insert, hne, ho]
  | event k bits now =>
    cases hreact
    rw [eventsOn_some rfl] at halive ⊢
    exact handleUpdate_spares hin.keyed ho hspares halive
  | update request now =>
    obtain ⟨⟨c₁, calls⟩, hupdate, hreact⟩ := Option.map_eq_some_iff.mp hreact
    cases hreact
    rcases update_cases hupdate with ⟨x, event, hx, hevent, hrun⟩ | ⟨hnone, -, hother⟩
    · obtain ⟨rfl, -⟩ := Prod.mk.inj hrun
      have hon : Input.eventOn (.update request now) =
          some (request.targetGuid, event.input, now) := by simp [Input.eventOn, hevent]
      rw [eventsOn_some hon] at halive ⊢
      exact handleUpdate_spares hin.keyed ho (fun y hy => hspares.1 y hy event hevent) halive
    · have hk : request.targetGuid ≠ g := by
        rintro rfl
        simp [ho] at hnone
      have hnil : eventsOn g [.update request now] = [] := by
        cases hu : request.update <;> simp [eventsOn, Input.eventOn, hu, hk]
      rw [hnil]
      rcases hother with ⟨rfl, -⟩ | ⟨r, event, c₁, hr, hc₁, rfl⟩
      · exact ⟨ho, List.prefix_rfl⟩
      · have hdel : g ∉ request.deletedGuids := hspares.2 hnone (by simp [hr])
        rw [deleteAll_primaries, deleteAll_index, if_neg hdel, if_neg hdel, (replicateNew_spec hc₁).1]
        exact ⟨ho, List.prefix_rfl⟩
  | _ =>
    obtain ⟨hp, hlist⟩ := react_quiet hin.replicas hreact trivial
    rw [eventsOn_none rfl, hp]
    exact ⟨ho, hlist g⟩

theorem run_spares {inputs : List Input} (hin : c.InStep) (ho : c.primaries.lookup g = some o)
    (hspares : Meets step (Spares g) c inputs)
    (halive : ∀ e ∈ eventsOn g inputs, held e.input die = false)
    (hrun : run step c inputs = some c') :
    c'.primaries.lookup g = some ((eventsOn g inputs).foldl GameObject.advance o) ∧
      c.primaryInterest.index g [] <+: c'.primaryInterest.index g [] := by
  induction inputs generalizing c o with
  | nil =>
    cases hrun
    exact ⟨ho, List.prefix_rfl⟩
  | cons input inputs ih =>
    obtain ⟨c₁, hstep, hrun⟩ := run_cons_eq_some.mp hrun
    rw [eventsOn_cons] at halive ⊢
    rw [List.foldl_append]
    obtain ⟨hnow, hlist⟩ := step_spares hin ho hspares.1
      (fun e he => halive e (List.mem_append_left _ he)) hstep
    obtain ⟨hlater, hlist'⟩ := ih (step_inStep hin hstep).1 hnow (hspares.2 c₁ hstep)
      (fun e he => halive e (List.mem_append_right _ he)) hrun
    exact ⟨hlater, hlist.trans hlist'⟩

/-- From any reachable state on, a primary stays and is advanced by the events on it alone, and its
    interest list only grows at the end, as long as no event on it lets it die and every input spares
    it. -/
theorem primary_lives {s : Colyseus} {before inputs : List Input} (hfresh : s.Fresh)
    (hreach : run step s before = some c) (ho : c.primaries.lookup g = some o)
    (hspares : Meets step (Spares g) c inputs)
    (halive : ∀ e ∈ eventsOn g inputs, held e.input die = false)
    (hrun : run step c inputs = some c') :
    c'.primaries.lookup g = some ((eventsOn g inputs).foldl GameObject.advance o) ∧
      c.primaryInterest.index g [] <+: c'.primaryInterest.index g [] :=
  run_spares (run_inStep hfresh.inStep hreach).1 ho hspares halive hrun

end

/-- A player under 100 on a server that also replicates the shield 99 of a peer. -/
def besideReplica : List Input :=
  [.spawn ⟨some ⟨0, 10, 10, 2, 2, player⟩⟩ 0, .install 7 ⟨[⟨99, 0, 0, 1, 1, shield⟩], [⟨0, 5⟩]⟩]

/-- An update of the replica 99 that lists 100 among the deleted guids removes the player; and on a
    server whose draws repeat, the next spawn puts its object in the player's place. -/
theorem primary_lost :
    (∃ c c', run step (newServer 1 100) besideReplica = some c ∧
      (c.primaries.lookup 100).isSome ∧
      c.step (.update ⟨99, some ⟨0, 20⟩, [], [], [100]⟩ 20) = some c' ∧
      eventsOn 100 [.update ⟨99, some ⟨0, 20⟩, [], [], [100]⟩ 20] = [] ∧
      c'.primaries.lookup 100 = none) ∧
    ∃ c c', run step { newServer 1 100 with guids := fun _ => 100 } besideReplica = some c ∧
      c.primaries.lookup 100 = some ⟨100, 1, ⟨10, 10, 2, 2⟩, player, ⟨0, 0⟩⟩ ∧
      c.step (.spawn ⟨some ⟨0, 50, 50, 1, 1, shield⟩⟩ 20) = some c' ∧
      eventsOn 100 [.spawn ⟨some ⟨0, 50, 50, 1, 1, shield⟩⟩ 20] = [] ∧
      c'.primaries.lookup 100 = some ⟨100, 1, ⟨50, 50, 1, 1⟩, shield, ⟨0, 20⟩⟩ := by
  constructor
  · obtain ⟨c, hrun, hp, hlost⟩ := exists_of_map_decide
      (o := run step (newServer 1 100) besideReplica)
      (P := fun c => (c.primaries.lookup 100).isSome ∧
        (c.step (.update ⟨99, some ⟨0, 20⟩, [], [], [100]⟩ 20)).any fun c' =>
          c'.primaries.lookup 100 = none) (by decide +kernel)
    obtain ⟨c', hstep, hlost⟩ := (Option.any_eq_true _ _).mp hlost
    exact ⟨c, c', hrun, hp, hstep, by decide, of_decide_eq_true hlost⟩
  · obtain ⟨c, hrun, hp, hlost⟩ := exists_of_map_decide
      (o := run step { newServer 1 100 with guids := fun _ => 100 } besideReplica)
      (P := fun c => c.primaries.lookup 100 = some ⟨100, 1, ⟨10, 10, 2, 2⟩, player, ⟨0, 0⟩⟩ ∧
        (c.step (.spawn ⟨some ⟨0, 50, 50, 1, 1, shield⟩⟩ 20)).any fun c' =>
          c'.primaries.lookup 100 = some ⟨100, 1, ⟨50, 50, 1, 1⟩, shield, ⟨0, 20⟩⟩)
      (by decide +kernel)
    obtain ⟨c', hstep, hlost⟩ := (Option.any_eq_true _ _).mp hlost
    exact ⟨c, c', hrun, hp, hstep, by decide, of_decide_eq_true hlost⟩

/-- The player moves right for a second, with a registration and an honest update of the replica in
    between. -/
def spared : List Input :=
  [.register 1 ⟨[100], 2, false⟩ 30, .event 100 right 50,
    .update ⟨99, some ⟨die, 60⟩, [], [], [99]⟩ 60, .update ⟨100, some ⟨0, 0⟩, [], [], []⟩ 1050]

theorem primary_lives_spared : ∃ c c', run step (newServer 1 100) besideReplica = some c ∧
    run step c spared = some c' ∧
    c'.primaries.lookup 100 = some ⟨100, 1, ⟨11, 10, 2, 2⟩, player, ⟨0, 1050⟩⟩ ∧
    c.primaryInterest.index 100 [] <+: c'.primaryInterest.index 100 [] := by
  obtain ⟨c, hreach, ho, hspares, hrun⟩ := exists_of_map_decide
    (o := run step (newServer 1 100) besideReplica)
    (P := fun c => c.primaries.lookup 100 = some ⟨100, 1, ⟨10, 10, 2, 2⟩, player, ⟨0, 0⟩⟩ ∧
      Meets step (Spares 100) c spared ∧ (run step c spared).isSome) (by decide +kernel)
  obtain ⟨c', hrun⟩ := Option.isSome_iff_exists.mp hrun
  obtain ⟨hlives, hlist⟩ := primary_lives (fresh_newServer 1 100) hreach ho hspares (by decide) hrun
  refine ⟨c, c', hreach, hrun, ?_, hlist⟩
  rw [hlives]
  decide +kernel

end Colyseus

end DistGame
