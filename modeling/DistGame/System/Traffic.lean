import Mathlib.Algebra.Order.BigOperators.Group.List
import DistGame.System.Ownership

/-! How much traffic there can be. A server answers the messages of its peers with messages, but none
    of these is answered in the same way again: the owner of an object pushes its events to servers
    that are not the owner, and a response ends the exchange. So without anything new from outside the
    messages in flight die out, after a number of deliveries that can be read off the state. -/

namespace DistGame

/-- How many guids a message asks a server to mark. -/
def Packet.targets : Packet → ℕ
  | .register _ _ request => request.targetGuids.length
  | _ => 0

namespace Colyseus
variable {s s' : Colyseus} {g : UInt32}

/-- How many markers there are for `g`, expired ones included. -/
def markers (s : Colyseus) (g : UInt32) : ℕ := (s.primaryInterest.index g []).length

/-- At most one push for each marker, and none to the server itself. -/
theorem pushes_length_le (s : Colyseus) (g : UInt32) (now : Int64) (request : UpdateRequest) :
    (s.pushes g now request).length ≤ s.markers g := List.length_filterMap_le _ _

theorem pushes_other {now : Int64} {request : UpdateRequest} {call : PeerCall UpdateRequest}
    (h : call ∈ s.pushes g now request) : call.sid ≠ s.sid := by
  obtain ⟨i, -, hi⟩ := List.mem_filterMap.mp h
  split at hi
  · cases hi
  · rename_i hlive
    obtain ⟨peer, -, rfl⟩ := Option.map_eq_some_iff.mp hi
    exact fun heq => hlive (.inl heq)

/-- What an event on a primary sends. -/
theorem handleUpdate_pushes {o : GameObject} (h : s.primaries.lookup g = some o) (input : Int32)
    (now : Int64) : (s.handleUpdate g input now).2.length ≤ s.markers g ∧
      ∀ call ∈ (s.handleUpdate g input now).2, call.request.targetGuid = g ∧ call.sid ≠ s.sid ∧
        s.peerEndpoints.lookup call.sid = some call.peer := by
  have hframe := applied_frame (s := s) (g := g) (o := o) ⟨input, now⟩
  rw [handleUpdate_primary h]
  refine ⟨(pushes_length_le _ _ _ _).trans ?_, fun call hcall => ?_⟩
  · rw [markers, applied_index]
    split
    · exact Nat.zero_le _
    · exact Nat.le_refl _
  · obtain ⟨hrequest, hpeer⟩ := mem_pushes hcall
    have hother := pushes_other hcall
    rw [hframe] at hpeer hother
    exact ⟨by rw [hrequest]; rfl, hother, hpeer⟩

end Colyseus

/-! ### The weight of what is in flight -/

instance (s : System) (k : Int32) (g : UInt32) : Decidable (s.Drew k g) :=
  decidable_of_iff ((s.servers.lookup k).any fun c => decide (∃ n < c.drawn, c.guids n = g)) (by
    simp only [Option.any_eq_true, decide_eq_true_eq]
    rfl)

/-- How many guids the messages in flight ask servers to mark. -/
def targets (network : List Packet) : ℕ := (network.map Packet.targets).sum

/-- How many deliveries a message can cause, itself included, when no object has more than `W` markers:
    an update that reaches the owner is pushed once for each marker, and a request is answered. -/
def Packet.weight (s : System) (W : ℕ) : Packet → ℕ
  | .update dest request => if s.Drew dest request.targetGuid then W + 1 else 1
  | .register _ _ _ => 2
  | .reply _ _ _ => 1

namespace System

/-- How many deliveries the messages in flight can cause. -/
def weight (W : ℕ) (s : System) : ℕ := (s.network.map (Packet.weight s W)).sum

/-- How many markers there are, and will be when all requests in flight have arrived. -/
def markers (s : System) : ℕ :=
  (s.servers.entries.map fun e => (e.2.primaryInterest.entries.map fun m => m.2.length).sum).sum +
    targets s.network

end System

/-- An update message is about an object that has an owner. -/
def Packet.Aimed (H : Int32 → UInt32 → Prop) : Packet → Prop
  | .update _ request => ∃ k, H k request.targetGuid
  | _ => True

theorem Packet.Aimed.mono {H H' : Int32 → UInt32 → Prop} {p : Packet} (h : p.Aimed H)
    (hH : ∀ k g, H k g → H' k g) : p.Aimed H' := by
  cases p with
  | update dest request =>
    obtain ⟨k, hk⟩ := h
    exact ⟨k, hH k _ hk⟩
  | register dest key request => trivial
  | reply dest key response => trivial

section
variable {H : Int32 → UInt32 → Prop} {W : ℕ} {s s' : System}

end

/-! ### An event at both servers -/

end DistGame
