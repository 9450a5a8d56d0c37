import DistGame.Server.Frame
import DistGame.System.Orphans

/-! The whole game: frames of `GameLoop` at the servers, the goroutines that `AdvanceGameState` starts for
    them, each of which waits for the lock of its server, and the system of servers with its messages.
    A death goes from a frame to a goroutine, from there in a message to the owner if only a replica
    was hit, and from the owner to all who have a copy. Whatever the order, nobody dies without it. -/

namespace DistGame
open GameObject

/-- The servers, and the goroutines that wait for a lock: the server, the guid and the input of each. -/
structure Arena where
  system : System
  pending : List (Int32 × UInt32 × Int32)

/-- What can happen next: something in the system other than an event of the application, a frame at a
    server, or a goroutine that gets the lock. -/
inductive Play where
  | system (a : Action)
  | frame (sid : Int32) (i : Iteration) (now : Int64)
  | advance (i : ℕ) (now : Int64)

/-- The maps of the server are iterated in the orders that a frame looks at. -/
def Iteration.Orders (i : Iteration) (c : Colyseus) : Prop :=
  i.primaries.Perm c.primaries.values ∧ ∀ p ∈ i.primaries,
    (i.players p.guid).Perm c.primaries.values ∧ (i.replicas p.guid).Perm c.replicas.values

instance (i : Iteration) (c : Colyseus) : Decidable (i.Orders c) :=
  have : Decidable (∀ p ∈ i.primaries, (i.players p.guid).Perm c.primaries.values ∧
    (i.replicas p.guid).Perm c.replicas.values) := List.decidableBAll _ _
  inferInstanceAs (Decidable (_ ∧ _))

section
variable {i : Iteration} {c : Colyseus} {now : Int64} {p o : GameObject}

/-- A frame looks at no more of the orders. -/
theorem Iteration.Orders.extend (h : i.Orders c) (now : Int64) :
    ∃ i' : Iteration, i'.Of c ∧ ∀ p ∈ i.primaries, i'.target now p = i.target now p := by
  let visited (g : UInt32) : Prop := ∃ p ∈ i.primaries, p.guid = g
  classical
  refine ⟨⟨i.primaries, fun g => if visited g then i.players g else c.primaries.values,
    fun g => if visited g then i.replicas g else c.replicas.values⟩, ⟨h.1, fun g => ?_, fun g => ?_⟩,
    fun p hp => ?_⟩
  · dsimp only
    split
    · rename_i hg
      obtain ⟨p, hp, rfl⟩ := hg
      exact (h.2 p hp).1
    · exact .refl _
  · dsimp only
    split
    · rename_i hg
      obtain ⟨p, hp, rfl⟩ := hg
      exact (h.2 p hp).2
    · exact .refl _
  · have hvisited : visited p.guid := ⟨p, hp, rfl⟩
    simp only [Iteration.target, if_pos hvisited]

theorem Iteration.Orders.collides (h : i.Orders c) (hp : p ∈ i.primaries)
    (ht : i.target now p = some o) : c.Collides now p o := by
  obtain ⟨i', hi', htarget⟩ := h.extend now
  exact Colyseus.target_collides hi' ((htarget p hp).trans ht)

theorem Iteration.Orders.target_isSome (h : i.Orders c) (hp : p ∈ i.primaries)
    (hmeet : c.Collides now p o) : (i.target now p).isSome := by
  obtain ⟨i', hi', htarget⟩ := h.extend now
  exact htarget p hp ▸ Colyseus.target_isSome hi' hmeet

end

namespace Arena

/-- One step; `none` is a step that is not possible or a panic. -/
def step (a : Arena) : Play → Option Arena
  | .system (.event _ _ _ _) => none
  | .system action => (a.system.step action).map fun s => { a with system := s }
  | .frame sid i now => (a.system.servers.lookup sid).bind fun c =>
    if i.Orders c then
      some { a with pending := a.pending ++ (i.gameLoop now).map fun update => (sid, update) }
    else none
  | .advance i now => a.pending[i]?.bind fun turn =>
    (a.system.step (.event turn.1 turn.2.1 turn.2.2 now)).map fun s =>
      { system := s, pending := a.pending.eraseIdx i }

/-- The system moves without the application, a frame lists its batch, or a goroutine runs. -/
theorem step_cases {a b : Arena} {play : Play} (h : a.step play = some b) :
    (∃ action, play = .system action ∧ (∀ sid g bits now, action ≠ .event sid g bits now) ∧
      a.system.step action = some b.system ∧ b.pending = a.pending) ∨
      (∃ sid i now c, play = .frame sid i now ∧ a.system.servers.lookup sid = some c ∧ i.Orders c ∧
        b = { a with pending := a.pending ++ (i.gameLoop now).map fun update => (sid, update) }) ∨
      ∃ i now turn, play = .advance i now ∧ a.pending[i]? = some turn ∧
        a.system.step (.event turn.1 turn.2.1 turn.2.2 now) = some b.system ∧
        b.pending = a.pending.eraseIdx i := by
  cases play with
  | system action =>
    cases action with
    | event sid g bits now => cases h
    | _ =>
      obtain ⟨s, hs, rfl⟩ := Option.map_eq_some_iff.mp h
      exact .inl ⟨_, rfl, (fun _ _ _ _ hne => by cases hne), hs, rfl⟩
  | frame sid i now =>
    obtain ⟨c, hc, h⟩ := Option.bind_eq_some_iff.mp h
    split at h
    · exact .inr (.inl ⟨sid, i, now, c, rfl, hc, ‹_›, (Option.some.inj h).symm⟩)
    · cases h
  | advance i now =>
    obtain ⟨turn, hturn, h⟩ := Option.bind_eq_some_iff.mp h
    obtain ⟨s, hs, rfl⟩ := Option.map_eq_some_iff.mp h
    exact .inr (.inr ⟨i, now, turn, rfl, hturn, hs, rfl⟩)

/-- Before anything happens. -/
structure Initial (a : Arena) : Prop where
  system : a.system.Initial
  pending : a.pending = []

/-- A frame finds that `g` is a projectile that meets a player or the player that it meets, or a client
    sends `g` an event that holds `die`. -/
def Condemns (g : UInt32) (a : Arena) : Play → Prop
  | .system (.clientUpdate _ guid event _) => guid = g ∧ held event.input die = true
  | .frame sid _ now => ∃ c p o, a.system.servers.lookup sid = some c ∧ p ∈ c.primaries.values ∧
    p.type = projectile ∧ c.Collides now p o ∧ (g = p.guid ∨ g = o.guid)
  | _ => False

end Arena

/-! ### One reaction -/

namespace Colyseus
variable {c c' : Colyseus} {packets : List Packet} {g : UInt32}

/-- The messages of an update pass the event on. -/
theorem handleUpdate_passes {bits : Int32} {now : Int64} {call : PeerCall UpdateRequest}
    (h : call ∈ (c.handleUpdate g bits now).2) :
    call.request.targetGuid = g ∧ ∃ time, call.request.update = some ⟨bits, time⟩ := by
  cases ho : c.primaries.lookup g with
  | none =>
    rw [((handleUpdate_no_primary ho bits now).2 call h).1]
    exact ⟨rfl, 0, rfl⟩
  | some o =>
    rw [handleUpdate_primary ho] at h
    rw [(mem_pushes h).1]
    exact ⟨rfl, now, rfl⟩

/-- A server only passes on the event that it reacts to. -/
theorem react_passes {input : Input} (h : c.react input = some (c', packets)) {dest : Int32}
    {request : UpdateRequest} (hp : .update dest request ∈ packets) : ∃ bits now time,
      input.eventOn = some (request.targetGuid, bits, now) ∧ request.update = some ⟨bits, time⟩ := by
  obtain ⟨k, bits, now, hon, -, -, call, hcall, -, rfl⟩ := react_calls h hp
  obtain ⟨htarget, time, hevent⟩ := handleUpdate_passes hcall
  exact ⟨bits, now, time, by rw [htarget]; exact hon, hevent⟩

end Colyseus

/-! ### The invariant -/

/-- Updates delete their target only, and those that let it die are for the condemned `D`. -/
structure Judged (D : UInt32 → Prop) (s : System) : Prop where
  deletions : ∀ dest request, Packet.update dest request ∈ s.network → DeletesTarget request
  deaths : ∀ dest request event, Packet.update dest request ∈ s.network →
    request.update = some event → held event.input die = true → D request.targetGuid

/-- An event that holds `die` is for one of the condemned. -/
def Input.Judged (D : UInt32 → Prop) (input : Input) : Prop :=
  ∀ g bits now, input.eventOn = some (g, bits, now) → held bits die = true → D g

section
variable {D : UInt32 → Prop} {H : Int32 → UInt32 → Prop} {s s' : System} {g : UInt32}

/-- A reaction lets only the condemned die, and its messages do. -/
theorem judged_ask {sid : Int32} {input : Input} (hf : Filed s) (hown : Owned H s) (h : Judged D s)
    (hdraws : s'.NoRepeat) (hdel : ∀ request now, input = .update request now → DeletesTarget request)
    (hin : input.Judged D) (hask : s.ask sid input = some s') :
    Judged D s' ∧ ∀ k g, s.Owns k g → s'.Owns k g ∨ D g := by
  obtain ⟨c, c', packets, hreacts⟩ := ask_reacts hf hask
  have hc := hreacts.before
  refine ⟨⟨fun dest request hp => ?_, fun dest request event hp hevent hdies => ?_⟩, fun k g howns => ?_⟩
  · rw [hreacts.network] at hp
    rcases List.mem_append.mp hp with hp | hp
    · exact h.deletions dest request hp
    · exact fun g hg => ((hreacts.reaction.sends _ hp).2 g hg).1
  · rw [hreacts.network] at hp
    rcases List.mem_append.mp hp with hp | hp
    · exact h.deaths dest request event hp hevent hdies
    · obtain ⟨bits, now, time, hon, hpassed⟩ := Colyseus.react_passes hreacts.react hp
      obtain rfl := Option.some.inj (hevent.symm.trans hpassed)
      exact hin _ bits now hon hdies
  · obtain ⟨d, hd, hg⟩ := howns
    by_cases hk : k = sid
    · subst hk
      obtain rfl := Option.some.inj (hc.symm.trans hd)
      cases hlost : c'.primaries.lookup g with
      | some o => exact .inl ⟨c', hreacts.after, by rw [hlost]; rfl⟩
      | none =>
        obtain ⟨bits, now, hon, hdies, -⟩ := Colyseus.react_lost (hf.keyed k c hc)
          (hf.replicas k c hc) hreacts.react hdel (hreacts.fresh hf hown hdraws hg) hg hlost
        exact .inr (hin g bits now hon hdies)
    · exact .inl ⟨d, (hreacts.others k hk).trans hd, hg⟩

theorem Judged.network_sub {network : List Packet} (h : Judged D s)
    (hsub : ∀ p ∈ network, p ∈ s.network) : Judged D { s with network } :=
  ⟨fun dest request hp => h.deletions dest request (hsub _ hp),
    fun dest request event hp => h.deaths dest request event (hsub _ hp)⟩

/-- A message that is delivered brings an event for one of the condemned. -/
theorem Judged.delivered {p : Packet} (h : Judged D s) (hp : p ∈ s.network) (now : Int64) :
    (p.input now).Judged D := by
  intro g bits t hon hdies
  cases p with
  | update dest request =>
    obtain ⟨event, hevent, heq⟩ := Option.map_eq_some_iff.mp hon
    cases heq
    exact h.deaths dest request event hp hevent hdies
  | register dest key request => cases hon
  | reply dest key response => cases hon

theorem Judged.delivered_deletes {p : Packet} (h : Judged D s) (hp : p ∈ s.network) (now : Int64) :
    ∀ request t, p.input now = .update request t → DeletesTarget request := by
  intro request t heq
  cases p with
  | update dest request' =>
    cases heq
    exact h.deletions dest _ hp
  | register dest key request' => cases heq
  | reply dest key response => cases heq

/-- From outside comes no deletion. -/
theorem external_deletes {a : Action} {sid : Int32} {input : Input}
    (h : System.external a = some (sid, input)) :
    ∀ request now, input = .update request now → request.deletedGuids = [] := by
  rintro request now rfl
  rcases System.external_cases h with ⟨guid, event, t, -, heq⟩ | hlocal
  · cases heq
    rfl
  · exact hlocal.elim

theorem judged_step {a : Action} (hf : Filed s) (hown : Owned H s) (h : Judged D s)
    (hdraws : s'.NoRepeat)
    (hin : ∀ sid input, System.external a = some (sid, input) → input.Judged D)
    (hstep : s.step a = some s') : Judged D s' ∧ ∀ k g, s.Owns k g → s'.Owns k g ∨ D g := by
  rcases System.step_cases hstep with ⟨sid, input, hext, hask⟩ | ⟨i, now, packet, -, hi, hask⟩ |
    ⟨i, packet, -, hi, rfl⟩ | ⟨i, packet, -, -, rfl⟩
  · refine judged_ask hf hown h hdraws (fun request now hupdate g hg => ?_) (hin sid input hext) hask
    rw [external_deletes hext request now hupdate] at hg
    exact absurd hg List.not_mem_nil
  · have hsub : ∀ p ∈ s.network.eraseIdx i, p ∈ s.network := fun p => List.mem_of_mem_eraseIdx
    have hmem := List.mem_of_getElem? hi
    exact judged_ask (s := { s with network := s.network.eraseIdx i }) (hf.congr rfl)
      (hown.network_sub hsub) (h.network_sub hsub) hdraws (h.delivered_deletes hmem now)
      (h.delivered hmem now) hask
  · exact ⟨h.network_sub fun p => mem_duplicated hi, fun k g => .inl⟩
  · exact ⟨h.network_sub fun p => List.mem_of_mem_eraseIdx, fun k g => .inl⟩

end

/-! ### The arena -/

section
variable {D : UInt32 → Prop} {H : Int32 → UInt32 → Prop} {a b v : Arena} {g : UInt32}

/-- The invariant of the system, and the goroutines that let an object die do so to the condemned. -/
structure Tried (D : UInt32 → Prop) (H : Int32 → UInt32 → Prop) (a : Arena) : Prop where
  filed : Filed a.system
  owned : Owned H a.system
  judged : Judged D a.system
  pending : ∀ turn ∈ a.pending, held turn.2.2 die = true → D turn.2.1

/-- What a frame lists is a projectile that meets a player, or the player. -/
theorem listed_condemned {c : Colyseus} {i : Iteration} {sid : Int32} {now : Int64}
    (hc : a.system.servers.lookup sid = some c) (hi : i.Orders c) {update : UInt32 × Int32}
    (h : update ∈ i.gameLoop now) : a.Condemns update.1 (.frame sid i now) := by
  rw [Colyseus.gameLoop_eq, List.mem_flatMap] at h
  obtain ⟨hit, hhit, hmem⟩ := h
  obtain ⟨hp, htype, htarget⟩ := Colyseus.mem_hits hhit
  refine ⟨c, hit.1, hit.2, hc, hi.1.mem_iff.mp hp, htype, hi.collides hp htarget, ?_⟩
  simp only [List.mem_cons, List.not_mem_nil, or_false] at hmem
  rcases hmem with rfl | rfl
  · exact .inr rfl
  · exact .inl rfl

theorem Arena.step_filed {play : Play} (hf : Filed a.system) (hstep : a.step play = some b) :
    Filed b.system ∧ Grows a.system b.system := by
  rcases Arena.step_cases hstep with ⟨action, -, -, hs, -⟩ | ⟨sid, i, now, c, -, -, -, rfl⟩ |
    ⟨i, now, turn, -, -, hs, -⟩
  · exact filed_step hf hs
  · exact ⟨hf, Grows.refl _⟩
  · exact filed_step hf hs

theorem Arena.run_filed {plays : List Play} (hf : Filed a.system)
    (hrun : run Arena.step a plays = some b) : Filed b.system ∧ Grows a.system b.system :=
  run_preserves (P := fun v => Filed v.system ∧ Grows a.system v.system)
    (fun v play w hv hstep => by
      obtain ⟨hw, hgrows⟩ := Arena.step_filed hv.1 hstep
      exact ⟨hw, hv.2.trans hgrows⟩) ⟨hf, Grows.refl _⟩ hrun

theorem Arena.filed_back (a : Arena) (play : Play) (b : Arena) (hf : Filed a.system)
    (hstep : a.step play = some b) :
    Filed b.system ∧ (b.system.NoRepeat → a.system.NoRepeat) :=
  (Arena.step_filed hf hstep).imp_right Grows.noRepeat

/-- From outside come the events of clients only. -/
theorem Play.judged {action : Action} (hne : ∀ sid g bits now, action ≠ .event sid g bits now)
    (hD : ∀ g, a.Condemns g (.system action) → D g) {sid : Int32} {input : Input}
    (hext : System.external action = some (sid, input)) : input.Judged D := by
  intro g bits now hon hdies
  cases action with
  | clientUpdate sid' guid event t =>
    cases hext
    cases hon
    exact hD guid ⟨rfl, hdies⟩
  | event sid' guid bits' t => exact absurd rfl (hne sid' guid bits' t)
  | deliver i t => cases hext
  | duplicate i => cases hext
  | lose i => cases hext
  | _ =>
    cases hext
    cases hon

theorem Tried.step {play : Play} (h : Tried D H a) (hD : ∀ g, a.Condemns g play → D g)
    (hdraws : b.system.NoRepeat) (hstep : a.step play = some b) :
    (∃ H', Tried D H' b) ∧ ∀ k g, a.system.Owns k g → b.system.Owns k g ∨ D g := by
  obtain ⟨hf, hgrows⟩ := Arena.step_filed h.filed hstep
  have hnow := hgrows.noRepeat hdraws
  rcases Arena.step_cases hstep with ⟨action, rfl, hne, hs, hpending⟩ |
    ⟨sid, i, now, c, rfl, hc, hi, rfl⟩ | ⟨i, now, turn, rfl, hturn, hs, hpending⟩
  · obtain ⟨hjudged, hkept⟩ := judged_step h.filed h.owned h.judged hdraws
      (fun sid input hext => Play.judged hne hD hext) hs
    refine ⟨⟨_, hf, owned_step h.filed h.owned hnow hs, hjudged, ?_⟩, hkept⟩
    rw [hpending]
    exact h.pending
  · refine ⟨⟨H, h.filed, h.owned, h.judged, fun turn ht hdies => ?_⟩, fun k g => .inl⟩
    rcases List.mem_append.mp ht with ht | ht
    · exact h.pending turn ht hdies
    · obtain ⟨update, hupdate, rfl⟩ := List.mem_map.mp ht
      exact hD _ (listed_condemned hc hi hupdate)
  · have hin : ∀ sid input, System.external (.event turn.1 turn.2.1 turn.2.2 now) =
        some (sid, input) → input.Judged D := by
      intro sid input hext g bits t hon hdies
      cases hext
      cases hon
      exact h.pending turn (List.mem_of_getElem? hturn) hdies
    obtain ⟨hjudged, hkept⟩ := judged_step h.filed h.owned h.judged hdraws hin hs
    refine ⟨⟨_, hf, owned_step h.filed h.owned hnow hs, hjudged, fun turn' ht => ?_⟩, hkept⟩
    rw [hpending] at ht
    exact h.pending turn' (List.mem_of_mem_eraseIdx ht)

/-- A run keeps what is owned, except for those whom it condemns. -/
theorem Tried.keeps {plays : List Play} (h : Tried D H a)
    (hD : ∀ g, Ever Arena.step (Arena.Condemns g) a plays → D g) (hdraws : b.system.NoRepeat)
    (hrun : run Arena.step a plays = some b) :
    (∃ H', Tried D H' b) ∧ ∀ k g, a.system.Owns k g → b.system.Owns k g ∨ D g := by
  induction plays generalizing a H with
  | nil =>
    cases hrun
    exact ⟨⟨H, h⟩, fun k g => .inl⟩
  | cons play plays ih =>
    obtain ⟨a', hstep, hrest⟩ := run_cons_eq_some.mp hrun
    have hgrows := (Arena.run_filed (Arena.step_filed h.filed hstep).1 hrest).2
    obtain ⟨⟨H', h'⟩, hkept⟩ := h.step (fun g hg => hD g (.inl hg)) (hgrows.noRepeat hdraws) hstep
    obtain ⟨hend, hkept'⟩ := ih h' (fun g hg => hD g (.inr ⟨a', hstep, hg⟩)) hrest
    refine ⟨hend, fun k g howns => ?_⟩
    rcases hkept k g howns with howns | hg
    · exact hkept' k g howns
    · exact .inr hg

theorem Arena.Initial.tried (h : a.Initial) : Tried D (fun _ _ => False) a where
  filed := initial_filed h.system
  owned := initial_owned h.system
  judged := by
    refine ⟨fun dest request hp => ?_, fun dest request event hp => ?_⟩
    all_goals
      rw [h.system.network] at hp
      exact absurd hp List.not_mem_nil
  pending := by simp [h.pending]

/-- Nobody dies unhit: in every run of the game, with frames at any time and in any iteration order,
    goroutines that get the lock in any order, and messages that are lost, repeated and delivered in any
    order, an object that a server owns at some point is still there at the end, or until then a frame
    at some server found a projectile that met a player and the object is one of the two, or a client
    sent the object an event that holds `die`. -/
theorem only_condemned_die {k : Int32} {before after : List Play} (h : a.Initial)
    (hbefore : run Arena.step a before = some v)
    (hafter : run Arena.step v after = some b) (hdraws : b.system.NoRepeat)
    (howns : v.system.Owns k g) :
    b.system.Owns k g ∨ Ever Arena.step (Arena.Condemns g) a (before ++ after) := by
  have hmid := (Arena.run_filed (initial_filed h.system) hbefore).1
  have hgrows := (Arena.run_filed hmid hafter).2
  obtain ⟨⟨H, hv⟩, -⟩ := (h.tried (D := fun g => Ever Arena.step (Arena.Condemns g) a (before ++ after))).keeps
    (fun g hg => hg.append_right after) (hgrows.noRepeat hdraws) hbefore
  exact (hv.keeps (fun g hg => hg.append_left hbefore) hdraws hafter).2 k g howns

end

/-! ### A shot across servers -/

/-- The replica of the player 100 at server 2, and a projectile of server 2 where it stands. -/
def standing : GameObject := ⟨100, 1, ⟨10, 10, 2, 2⟩, player, ⟨0, 0⟩⟩

def falling : GameObject := ⟨200, 2, ⟨10, 10, 1, 1⟩, projectile, ⟨0, 2000⟩⟩

/-- The only orders in which server 2 can iterate its maps. -/
def oneEach : Iteration where
  primaries := [falling]
  players _ := [falling]
  replicas _ := [standing]

/-- Server 2 spawns the projectile and sees it hit the replica. -/
def aims : List Play :=
  meet.map .system ++ [.system (.spawn 2 ⟨some ⟨0, 10, 10, 1, 1, projectile⟩⟩ 2000), .frame 2 oneEach 2010]

/-- The goroutine for the replica forwards the death, and its owner handles it. -/
def strikes : List Play :=
  [.advance 0 2020, .advance 0 2030, .system (.deliver 0 2040)]

def twoIdle : Arena := ⟨twoServers, []⟩

/-- The player of server 1 is dead, since a frame of server 2 saw it hit. -/
theorem only_condemned_die_strikes : ∃ v b, run Arena.step twoIdle aims = some v ∧
    run Arena.step v strikes = some b ∧ v.system.Owns 1 100 ∧ ¬ b.system.Owns 1 100 ∧
    Ever Arena.step (Arena.Condemns 100) twoIdle (aims ++ strikes) := by
  obtain ⟨⟨v, b⟩, heval, hdraws, howns, hdead⟩ := exists_of_map_decide
    (o := (run Arena.step twoIdle aims).bind fun v =>
      (run Arena.step v strikes).map fun b => (v, b))
    (P := fun x => x.2.system.NoRepeat ∧ x.1.system.Owns 1 100 ∧ ¬ x.2.system.Owns 1 100)
    (by decide +kernel)
  obtain ⟨v', hbefore, hrest⟩ := Option.bind_eq_some_iff.mp heval
  obtain ⟨b', hafter, heq⟩ := Option.map_eq_some_iff.mp hrest
  cases heq
  have hinit : twoIdle.Initial := ⟨initial_twoServers, rfl⟩
  have hever := (only_condemned_die hinit hbefore hafter hdraws howns).resolve_left hdead
  exact ⟨v, b, hbefore, hafter, howns, hdead, hever⟩

end DistGame
