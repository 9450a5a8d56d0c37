import DistGame.Lib.Log
import DistGame.Server.Replay

/-! Fetching an object from its owner. `NotifySubscriber` looks the object up under the lock, asks the
    owner, and installs the answer under the lock again; the owner serialises events and pushes them
    in between. A push that arrives before the answer is installed finds no replica and is lost, and
    an answer that is installed late reverts what was pushed before it. -/

namespace DistGame
namespace Colyseus

/-! ### A server and the owner it fetches from -/

/-- How far a `RegisterInterest` call has come: the replicas were checked, the owner has answered
    when it had made `seen` pushes to the caller, or the answer was installed. -/
inductive Phase where
  | checked
  | answered (response : RegisterInterestResponse) (seen : ℕ)
  | installed
  deriving DecidableEq

/-- The owner's answer, and how many pushes it had made when it gave it. -/
def Phase.answer : Phase → Option (RegisterInterestResponse × ℕ)
  | .answered response seen => some (response, seen)
  | _ => none

/-- A call that `NotifySubscriber` makes to the owner. -/
structure Fetch where
  call : PeerCall RegisterInterestRequest
  phase : Phase

/-- A server `A` that fetches from a server `B`. `pushes` are the updates that `B` has sent to `A`, in
    the order in which it serialised them; the first `delivered` of them have been handled. -/
structure Link where
  A : Colyseus
  B : Colyseus
  pushes : List UpdateRequest
  delivered : ℕ
  fetches : List Fetch

/-- What the two servers do: the first part of a `NotifySubscriber` at `A`, the handling of a fetch at
    `B`, the installation of its answer at `A`, an update at `B`, and the delivery of the next push. -/
inductive LinkAction where
  | notify (publications : List MatchMsg)
  | register (i : ℕ) (now : Int64)
  | install (i : ℕ)
  | event (guid : UInt32) (input : Int32) (now : Int64)
  | deliver (now : Int64)

/-- One action; `none` is an action that is not possible or a panic. -/
def Link.step (s : Link) : LinkAction → Option Link
  | .notify publications =>
    let calls := (s.A.interestCalls (s.A.neededObjectsBySid publications)).filter fun call =>
      call.peer == s.B.sid
    some { s with fetches := s.fetches ++ calls.map fun call => ⟨call, .checked⟩ }
  | .register i now =>
    match s.fetches[i]? with
    | some ⟨call, .checked⟩ =>
      let (B, response) := s.B.registerInterest call.request now
      some { s with B, fetches := s.fetches.set i ⟨call, .answered response s.pushes.length⟩ }
    | _ => none
  | .install i =>
    match s.fetches[i]? with
    | some ⟨call, .answered response _⟩ =>
      (s.A.installResponse call.sid response).map fun A =>
        { s with A, fetches := s.fetches.set i ⟨call, .installed⟩ }
    | _ => none
  | .event guid input now =>
    let (B, calls) := s.B.handleUpdate guid input now
    some { s with B, pushes := s.pushes ++ requestsTo s.A.sid calls }
  | .deliver now =>
    s.pushes[s.delivered]?.bind fun request =>
      (s.A.update request now).map fun r => { s with A := r.1, delivered := s.delivered + 1 }

/-! ### What a push does to a replica of `g` -/

/-- The replica of `g` after an update has been received. -/
def received (g : UInt32) (r : Option GameObject) (request : UpdateRequest) : Option GameObject :=
  if request.targetGuid = g then request.update.elim r (replay r) else r

/-- `request` is about other objects than `g`. -/
structure Elsewhere (g : UInt32) (request : UpdateRequest) : Prop where
  target : request.targetGuid ≠ g
  states : ∀ st ∈ request.initialStates, st.guid ≠ g
  deleted : g ∉ request.deletedGuids

theorem received_push {g : UInt32} {event : GameEvent} {request : UpdateRequest}
    (h : IsPush g event request) (r : Option GameObject) :
    received g r request = replay r event := by
  rw [received, if_pos h.target, h.update, Option.elim_some]

/-- Copies of a push replay its event as often. -/
theorem received_copies {g : UInt32} {event : GameEvent} {request : UpdateRequest}
    (h : IsPush g event request) (k : ℕ) (r : Option GameObject) :
    (List.replicate k request).foldl (received g) r = (List.replicate k event).foldl replay r := by
  induction k generalizing r with
  | zero => rfl
  | succ k ih =>
    rw [List.replicate_succ, List.replicate_succ, List.foldl_cons, List.foldl_cons, received_push h, ih]

/-- Updates of other objects leave the replica alone. -/
theorem received_elsewhere {g : UInt32} {r : Option GameObject} {requests : List UpdateRequest}
    (h : ∀ request ∈ requests, Elsewhere g request) : requests.foldl (received g) r = r := by
  induction requests with
  | nil => rfl
  | cons request requests ih =>
    have hfirst := h request List.mem_cons_self
    rw [List.foldl_cons, received, if_neg hfirst.target]
    exact ih fun request' hmem => h request' (List.mem_cons_of_mem _ hmem)

theorem received_none (g : UInt32) : ∀ requests : List UpdateRequest,
    requests.foldl (received g) none = none
  | [] => rfl
  | request :: requests => by
    have h : received g none request = none := by
      rw [received]
      split
      · cases request.update <;> rfl
      · rfl
    rw [List.foldl_cons, h]
    exact received_none g requests

/-- The calls of an update of another object are about other objects. -/
theorem handleUpdate_elsewhere {s : Colyseus} {g k : UInt32} {input : Int32} {now : Int64}
    (hk : k ≠ g) (hkeyed : s.Keyed) (hdraw : ∀ n, s.drawn ≤ n → s.guids n ≠ g) :
    ∀ call ∈ (s.handleUpdate k input now).2, Elsewhere g call.request := by
  intro call hcall
  cases hp : s.primaries.lookup k with
  | none =>
    obtain ⟨hreq, -⟩ := (handleUpdate_no_primary hp input now).2 call hcall
    rw [hreq]
    exact ⟨hk, fun _ h => absurd h List.not_mem_nil, List.not_mem_nil⟩
  | some o =>
    rw [handleUpdate_primary hp] at hcall
    rw [(mem_pushes hcall).1]
    refine ⟨hk, fun st hst => ?_, ?_⟩
    · obtain ⟨i, -, hg⟩ := createObjects_states _ _ hst
      rw [← hg]
      exact hdraw _ (by dsimp only; omega)
    · show g ∉ o.deleted ⟨input, now⟩
      rw [GameObject.deleted, hkeyed k o hp]
      split
      · simpa using hk.symm
      · exact List.not_mem_nil

/-! ### The invariant -/

namespace Link

/-- A copy of `g` becomes the primary by receiving the pushes from the `n`-th on. -/
abbrev Follows (g : UInt32) (pushes : List UpdateRequest) (n : ℕ)
    (primary copy : Option GameObject) : Prop :=
  Trails (received g) (Option.Rel SameState) pushes n primary copy

/-- `A` has a replica of `g`, or has installed an answer to a fetch of it. -/
def Installed (s : Link) (g : UInt32) : Prop :=
  s.A.replicas.lookup g ≠ none ∨
    ∃ fetch ∈ s.fetches, g ∈ fetch.call.request.targetGuids ∧ fetch.phase = .installed

/-- `A` has a replica of `g`, or the owner has handled a fetch of it. -/
def Registered (s : Link) (g : UInt32) : Prop :=
  s.A.replicas.lookup g ≠ none ∨
    ∃ fetch ∈ s.fetches, g ∈ fetch.call.request.targetGuids ∧ fetch.phase ≠ .checked

/-- The answer describes some of the targets; what it says of `g` follows the primary from the
    `seen`-th push on, and if it says nothing of `g`, the primary is gone. -/
structure Snapshot (g : UInt32) (pushes : List UpdateRequest) (primary : Option GameObject)
    (call : PeerCall RegisterInterestRequest) (response : RegisterInterestResponse) (seen : ℕ)
    (objects : List GameObject) : Prop where
  states : response = ⟨objects.map GameObject.proto, objects.map GameObject.latestEvent⟩
  follows : ∀ o ∈ objects, o.guid = g → g ∈ call.request.targetGuids ∧
    Follows g pushes seen primary (some { o with sid := call.sid })
  gone : g ∈ call.request.targetGuids → (∀ o ∈ objects, o.guid ≠ g) → primary = none

/-- `B` is the only one that may own `g`, no guid still to be drawn is `g`, and all copies of `g`, in
    `A`'s replicas or in answers, follow the primary. -/
structure Good (g : UInt32) (s : Link) : Prop where
  keyedA : s.A.Keyed
  keyedB : s.B.Keyed
  drawsA : ∀ n, s.A.drawn ≤ n → s.A.guids n ≠ g
  drawsB : ∀ n, s.B.drawn ≤ n → s.B.guids n ≠ g
  noPrimary : s.A.primaries.lookup g = none
  noReplica : s.B.replicas.lookup g = none
  peer : s.B.IsPeer s.A.sid
  callers : ∀ fetch ∈ s.fetches, fetch.call.request.sid = s.A.sid
  inTime : s.delivered ≤ s.pushes.length
  sent : ∀ request ∈ s.pushes, (∃ event, IsPush g event request) ∨ Elsewhere g request
  marked : s.Registered g → s.B.primaries.lookup g ≠ none →
    ∃ i ∈ s.B.primaryInterest.index g [], i.sid = s.A.sid
  replica : s.Installed g →
    Follows g s.pushes s.delivered (s.B.primaries.lookup g) (s.A.replicas.lookup g)
  answers : ∀ fetch ∈ s.fetches, ∀ response seen, fetch.phase = .answered response seen →
    ∃ objects, Snapshot g s.pushes (s.B.primaries.lookup g) fetch.call response seen objects

/-- Before any fetch: `A` has nothing of `g`, and nothing is in flight. -/
structure Start (g : UInt32) (s : Link) : Prop where
  keyedA : s.A.Keyed
  keyedB : s.B.Keyed
  drawsA : ∀ n, s.A.drawn ≤ n → s.A.guids n ≠ g
  drawsB : ∀ n, s.B.drawn ≤ n → s.B.guids n ≠ g
  noCopy : s.A.primaries.lookup g = none ∧ s.A.replicas.lookup g = none
  noReplica : s.B.replicas.lookup g = none
  peer : s.B.IsPeer s.A.sid
  idle : s.pushes = [] ∧ s.delivered = 0 ∧ s.fetches = []

/-- No registration of `A` for `g` has expired at an event on `g`. -/
def Live (g : UInt32) (s : Link) : LinkAction → Prop
  | .event guid _ now => guid = g →
    ∀ i ∈ s.B.primaryInterest.index g [], i.sid = s.A.sid → ¬ i.ttl < now
  | _ => True

/-- How many of the first `n` pushes are about `g`. -/
def about (g : UInt32) (s : Link) (n : ℕ) : ℕ :=
  (s.pushes.take n).countP fun request => request.targetGuid == g

/-- An answer that describes `g` is installed when, of the pushes about `g`, exactly those that were sent
    before it have been delivered, and an event that is pushed more than once finds the object, if a player,
    in the world and not ahead of the clock. -/
def InTurn (g : UInt32) (s : Link) : LinkAction → Prop
  | .install i => ∀ fetch ∈ s.fetches[i]?, ∀ answer ∈ fetch.phase.answer,
    g ∈ answer.1.initialStates.map ProtoGameObject.guid → s.about g answer.2 = s.about g s.delivered
  | .event guid _ now => guid = g →
    ∀ o ∈ s.B.primaries.lookup g, s.B.unexpired g s.A.sid now ≤ 1 ∨ (0 ≤ now ∧ Settled now o)
  | _ => True

instance (g : UInt32) (s : Link) : DecidablePred (Live g s)
  | .notify _ | .register _ _ | .install _ | .deliver _ => isTrue trivial
  | .event _ _ _ => inferInstanceAs (Decidable (_ → ∀ i ∈ _, _ → _))

instance (g : UInt32) (s : Link) : DecidablePred (InTurn g s)
  | .notify _ | .register _ _ | .deliver _ => isTrue trivial
  | .install i => inferInstanceAs (Decidable (∀ fetch ∈ s.fetches[i]?, ∀ answer ∈ fetch.phase.answer,
    _ → s.about g answer.2 = s.about g s.delivered))
  | .event _ _ _ => inferInstanceAs (Decidable (_ → ∀ o ∈ _, _ ∨ _))

theorem Start.good {g : UInt32} {s : Link} (h : Start g s) : Good g s where
  keyedA := h.keyedA
  keyedB := h.keyedB
  drawsA := h.drawsA
  drawsB := h.drawsB
  noPrimary := h.noCopy.1
  noReplica := h.noReplica
  peer := h.peer
  callers := by
    intro fetch hfetch
    rw [h.idle.2.2] at hfetch
    exact absurd hfetch List.not_mem_nil
  inTime := by
    rw [h.idle.2.1]
    exact Nat.zero_le _
  sent := by
    intro request hrequest
    rw [h.idle.1] at hrequest
    exact absurd hrequest List.not_mem_nil
  marked := by
    rintro (hr | ⟨fetch, hfetch, -⟩)
    · exact absurd h.noCopy.2 hr
    · rw [h.idle.2.2] at hfetch
      exact absurd hfetch List.not_mem_nil
  replica := by
    rintro (hr | ⟨fetch, hfetch, -⟩)
    · exact absurd h.noCopy.2 hr
    · rw [h.idle.2.2] at hfetch
      exact absurd hfetch List.not_mem_nil
  answers := by
    intro fetch hfetch
    rw [h.idle.2.2] at hfetch
    exact absurd hfetch List.not_mem_nil

end Link

end Colyseus

end DistGame
