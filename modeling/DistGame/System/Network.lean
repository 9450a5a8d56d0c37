import DistGame.Server.Colyseus

/-! A system of servers and the messages in flight between them. A server reacts to a client, to the
    locator, to its own loops and to the messages of its peers, and sends messages; the network
    delivers them in any order and may lose and duplicate them. -/

namespace DistGame

/-- A message to the server `dest`. A `RegisterInterest` call carries the key under which the caller
    stores the peer, and its response brings it back. -/
inductive Packet where
  | update (dest : Int32) (request : UpdateRequest)
  | register (dest key : Int32) (request : RegisterInterestRequest)
  | reply (dest key : Int32) (response : RegisterInterestResponse)
  deriving DecidableEq

/-- What a server reacts to. -/
inductive Input where
  | connect (peer : Int32)
  | spawn (request : SpawnRequest) (now : Int64)
  | event (guid : UInt32) (input : Int32) (now : Int64)
  | update (request : UpdateRequest) (now : Int64)
  | notify (publications : List MatchMsg)
  | cleanup (now : Int64)
  | register (key : Int32) (request : RegisterInterestRequest) (now : Int64)
  | install (key : Int32) (response : RegisterInterestResponse)

/-- The messages of some `Update` calls. -/
def updates (calls : List (PeerCall UpdateRequest)) : List Packet :=
  calls.map fun call => .update call.peer call.request

/-- The messages of some `RegisterInterest` calls. -/
def registers (calls : List (PeerCall RegisterInterestRequest)) : List Packet :=
  calls.map fun call => .register call.peer call.sid call.request

/-- What a server does and sends. `NotifySubscriber` and `CleanupLoop` make their `RegisterInterest`
    calls one after the other, each when the call before it has ended; here all of them are sent at once,
    and one that is still to be made is one that has not been delivered yet. `CleanupLoop` drops the
    response to a renewal. -/
def Colyseus.react (c : Colyseus) : Input → Option (Colyseus × List Packet)
  | .connect peer => some ({ c with peerEndpoints := c.peerEndpoints.insert peer peer }, [])
  | .spawn request now => (c.spawn request now).map fun r => (r.2, [])
  | .event guid input now =>
    let (c, calls) := c.handleUpdate guid input now
    some (c, updates calls)
  | .update request now => (c.update request now).map fun r => (r.1, updates r.2)
  | .notify publications => some (c, registers (c.interestCalls (c.neededObjectsBySid publications)))
  | .cleanup now =>
    let (c, stillInterested) := c.cleanup now
    some (c, registers (c.renewals stillInterested))
  | .register key request now =>
    let (c, response) := c.registerInterest request now
    some (c, if request.isRenewal then [] else [.reply request.sid key response])
  | .install key response => (c.installResponse key response).map fun c => (c, [])

/-- The servers by their sid, and the messages in flight or still to be sent by a running handler. -/
structure System where
  servers : GoMap Int32 Colyseus
  network : List Packet

/-- What can happen next: a peer is connected under its own sid, a client spawns or updates an
    object, the application updates one, the locator notifies, a cleanup runs, or the network moves. -/
inductive Action where
  | connect (sid peer : Int32)
  | spawn (sid : Int32) (request : SpawnRequest) (now : Int64)
  | clientUpdate (sid : Int32) (guid : UInt32) (event : GameEvent) (now : Int64)
  | event (sid : Int32) (guid : UInt32) (input : Int32) (now : Int64)
  | notify (sid : Int32) (publications : List MatchMsg)
  | cleanup (sid : Int32) (now : Int64)
  | deliver (i : ℕ) (now : Int64)
  | duplicate (i : ℕ)
  | lose (i : ℕ)

/-- The server a message is for. -/
def Packet.dest : Packet → Int32
  | .update dest _ | .register dest _ _ | .reply dest _ _ => dest

/-- What the server reacts to when it handles the message. -/
def Packet.input (now : Int64) : Packet → Input
  | .update _ request => .update request now
  | .register _ key request => .register key request now
  | .reply _ key response => .install key response

/-- The inputs that come with no message of a client or peer. -/
def Input.Local : Input → Prop
  | .update _ _ | .register _ _ _ | .install _ _ => False
  | _ => True

/-- A repeated message is one of those in flight. -/
theorem mem_duplicated {network : List Packet} {i : ℕ} {packet p : Packet}
    (hi : network[i]? = some packet) (hp : p ∈ network ++ [packet]) : p ∈ network := by
  rcases List.mem_append.mp hp with hp | hp
  · exact hp
  · rw [List.mem_singleton.mp hp]
    exact List.mem_of_getElem? hi

/-- A message that is taken off, and the others. -/
theorem delivered_perm {network : List Packet} {i : ℕ} {packet : Packet}
    (hi : network[i]? = some packet) : network.Perm (packet :: network.eraseIdx i) := by
  obtain ⟨hlt, rfl⟩ := List.getElem?_eq_some_iff.mp hi
  exact (List.getElem_cons_eraseIdx_perm hlt).symm

namespace System

/-- A server reacts and its messages enter the network. -/
def ask (s : System) (sid : Int32) (input : Input) : Option System :=
  (s.servers.lookup sid).bind fun c => (c.react input).map fun r =>
    { servers := s.servers.insert sid r.1, network := s.network ++ r.2 }

/-- The server and the input of an action that is not the network's. -/
def external : Action → Option (Int32 × Input)
  | .connect sid peer => some (sid, .connect peer)
  | .spawn sid request now => some (sid, .spawn request now)
  | .clientUpdate sid guid event now => some (sid, .update ⟨guid, some event, [], [], []⟩ now)
  | .event sid guid input now => some (sid, .event guid input now)
  | .notify sid publications => some (sid, .notify publications)
  | .cleanup sid now => some (sid, .cleanup now)
  | _ => none

/-- One action; `none` is an action that is not possible or a panic. -/
def step (s : System) : Action → Option System
  | .deliver i now => s.network[i]?.bind fun packet =>
    { s with network := s.network.eraseIdx i }.ask packet.dest (packet.input now)
  | .duplicate i => s.network[i]?.map fun packet => { s with network := s.network ++ [packet] }
  | .lose i => s.network[i]?.map fun _ => { s with network := s.network.eraseIdx i }
  | action => (external action).bind fun r => s.ask r.1 r.2

/-- The only ways the system moves: a server is asked by the outside or by a message it takes off the
    network, or the network loses or duplicates a message. -/
theorem step_cases {s s' : System} {a : Action} (h : s.step a = some s') :
    (∃ sid input, external a = some (sid, input) ∧ s.ask sid input = some s') ∨
      (∃ i now packet, a = .deliver i now ∧ s.network[i]? = some packet ∧
        { s with network := s.network.eraseIdx i }.ask packet.dest (packet.input now) = some s') ∨
      (∃ i packet, a = .duplicate i ∧ s.network[i]? = some packet ∧
        s' = { s with network := s.network ++ [packet] }) ∨
      ∃ i packet, a = .lose i ∧ s.network[i]? = some packet ∧
        s' = { s with network := s.network.eraseIdx i } := by
  cases a with
  | deliver i now =>
    obtain ⟨packet, hp, h⟩ := Option.bind_eq_some_iff.mp h
    exact .inr (.inl ⟨i, now, packet, rfl, hp, h⟩)
  | duplicate i =>
    obtain ⟨packet, hp, rfl⟩ := Option.map_eq_some_iff.mp h
    exact .inr (.inr (.inl ⟨i, packet, rfl, hp, rfl⟩))
  | lose i =>
    obtain ⟨packet, hp, rfl⟩ := Option.map_eq_some_iff.mp h
    exact .inr (.inr (.inr ⟨i, packet, rfl, hp, rfl⟩))
  | connect sid peer => exact .inl ⟨_, _, rfl, h⟩
  | spawn sid req now => exact .inl ⟨_, _, rfl, h⟩
  | clientUpdate sid guid event now => exact .inl ⟨_, _, rfl, h⟩
  | event sid guid input now => exact .inl ⟨_, _, rfl, h⟩
  | notify sid publications => exact .inl ⟨_, _, rfl, h⟩
  | cleanup sid now => exact .inl ⟨_, _, rfl, h⟩

/-- From outside comes an `Update` of a client, with an event alone, or something local. -/
theorem external_cases {a : Action} {sid : Int32} {input : Input}
    (h : external a = some (sid, input)) :
    (∃ guid event now, a = .clientUpdate sid guid event now ∧
      input = .update ⟨guid, some event, [], [], []⟩ now) ∨ input.Local := by
  cases a with
  | clientUpdate sid' guid event now => cases h; exact .inl ⟨guid, event, now, rfl, rfl⟩
  | deliver i now => cases h
  | duplicate i => cases h
  | lose i => cases h
  | _ => cases h; exact .inr trivial

theorem ask_eq_some {s s' : System} {sid : Int32} {input : Input} (h : s.ask sid input = some s') :
    ∃ c c' packets, s.servers.lookup sid = some c ∧ c.react input = some (c', packets) ∧
      s' = { servers := s.servers.insert sid c', network := s.network ++ packets } := by
  obtain ⟨c, hc, h⟩ := Option.bind_eq_some_iff.mp h
  obtain ⟨⟨c', packets⟩, hr, rfl⟩ := Option.map_eq_some_iff.mp h
  exact ⟨c, c', packets, hc, hr, rfl⟩

/-- Before anything happens: every server under its own sid, without objects, its peers under their
    own sids, and nothing in flight. -/
structure Initial (s : System) : Prop where
  sid : ∀ k c, s.servers.lookup k = some c → c.sid = k
  primaries : ∀ k c g, s.servers.lookup k = some c → c.primaries.lookup g = none
  replicas : ∀ k c g, s.servers.lookup k = some c → c.replicas.lookup g = none
  peers : ∀ k c i peer, s.servers.lookup k = some c → c.peerEndpoints.lookup i = some peer → peer = i
  network : s.network = []

/-- Server `k` has a primary of `g`. -/
def Owns (s : System) (k : Int32) (g : UInt32) : Prop :=
  ∃ c, s.servers.lookup k = some c ∧ (c.primaries.lookup g).isSome

/-- Server `k` has a replica of `g`. -/
def Replicates (s : System) (k : Int32) (g : UInt32) : Prop :=
  ∃ c, s.servers.lookup k = some c ∧ (c.replicas.lookup g).isSome

/-- Server `k` has a primary of `g` at some point of the run from `s`. -/
def EverOwns (k : Int32) (g : UInt32) : System → List Action → Prop
  | s, [] => s.Owns k g
  | s, a :: as => s.Owns k g ∨ ∃ s', s.step a = some s' ∧ EverOwns k g s' as

/-- Server `k` has drawn `g`. -/
def Drew (s : System) (k : Int32) (g : UInt32) : Prop :=
  ∃ c, s.servers.lookup k = some c ∧ ∃ n < c.drawn, c.guids n = g

/-- The guids drawn so far do not repeat. -/
def NoRepeat (s : System) : Prop :=
  ∀ k k' c c' n n', s.servers.lookup k = some c → s.servers.lookup k' = some c' → n < c.drawn →
    n' < c'.drawn → c.guids n = c'.guids n' → k = k' ∧ n = n'

instance (s : System) (k : Int32) (g : UInt32) : Decidable (s.Owns k g) :=
  decidable_of_iff ((s.servers.lookup k).any fun c => (c.primaries.lookup g).isSome)
    (Option.any_eq_true _ _)

instance (s : System) (k : Int32) (g : UInt32) : Decidable (s.Replicates k g) :=
  decidable_of_iff ((s.servers.lookup k).any fun c => (c.replicas.lookup g).isSome)
    (Option.any_eq_true _ _)

/-- The guids drawn so far do not repeat, server by server. -/
theorem noRepeat_iff {s : System} : s.NoRepeat ↔
    ∀ e ∈ s.servers.entries, ∀ e' ∈ s.servers.entries, ∀ n < e.2.drawn, ∀ n' < e'.2.drawn,
      e.2.guids n = e'.2.guids n' → e.1 = e'.1 ∧ n = n' := by
  constructor
  · rintro h ⟨k, c⟩ hmem ⟨k', c'⟩ hmem' n hn n' hn' heq
    exact h k k' c c' n n' ((GoMap.mem_entries_iff _ _ _).mp hmem)
      ((GoMap.mem_entries_iff _ _ _).mp hmem') hn hn' heq
  · intro h k k' c c' n n' hc hc' hn hn' heq
    exact h ⟨k, c⟩ ((GoMap.mem_entries_iff _ _ _).mpr hc) ⟨k', c'⟩
      ((GoMap.mem_entries_iff _ _ _).mpr hc') n hn n' hn' heq

instance (s : System) : Decidable s.NoRepeat := decidable_of_iff _ noRepeat_iff.symm

end System

end DistGame
