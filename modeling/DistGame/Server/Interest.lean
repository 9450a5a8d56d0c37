import DistGame.Server.Handlers

/-! How often an update reaches an interested server. A registration or renewal appends a marker, and
    a marker is skipped only once it has expired, so `HandleUpdate` calls a peer once for each of its
    unexpired markers: exactly once only if the peer has a single one. -/

namespace DistGame
namespace Colyseus

/-- The server after a sequence of `RegisterInterest` requests, each at its clock reading. -/
def receive (s : Colyseus) (requests : List (RegisterInterestRequest × Int64)) : Colyseus :=
  requests.foldl (fun s r => (s.registerInterest r.1 r.2).1) s

/-- How many registrations for `g` by server `sid` in the requests have not expired at `t`. -/
def registrations (interestTTLMs : Int64) (requests : List (RegisterInterestRequest × Int64))
    (g : UInt32) (sid : Int32) (t : Int64) : ℕ :=
  (requests.map fun r =>
    if r.1.sid = sid ∧ ¬ r.2 + interestTTLMs < t then r.1.targetGuids.count g else 0).sum

/-- Registering changes the interest map only. -/
theorem receive_frame : ∀ (requests : List (RegisterInterestRequest × Int64)) (s : Colyseus),
    s.receive requests = { s with primaryInterest := (s.receive requests).primaryInterest }
  | [], _ => rfl
  | r :: requests, s => by
    have hcons : s.receive (r :: requests) = (s.registerInterest r.1 r.2).1.receive requests := rfl
    rw [hcons, receive_frame requests, registerInterest_frame]

/-- The unexpired markers of a server are those it had and its unexpired registrations. -/
theorem receive_unexpired {g : UInt32} {o : GameObject} (sid : Int32) (t : Int64) :
    ∀ (requests : List (RegisterInterestRequest × Int64)) (s : Colyseus),
      s.primaries.lookup g = some o →
      (s.receive requests).unexpired g sid t =
        s.unexpired g sid t + registrations s.interestTTLMs requests g sid t
  | [], s, _ => by simp [receive, registrations]
  | r :: requests, s, h => by
    have hcons : s.receive (r :: requests) = (s.registerInterest r.1 r.2).1.receive requests := rfl
    have hprim : (s.registerInterest r.1 r.2).1.primaries.lookup g = some o := by
      rw [registerInterest_frame]; exact h
    have httl : (s.registerInterest r.1 r.2).1.interestTTLMs = s.interestTTLMs := by
      rw [registerInterest_frame]
    rw [hcons, receive_unexpired sid t requests _ hprim, httl, unexpired, registerInterest_index, h,
      if_pos Option.isSome_some, List.countP_append, List.countP_replicate, registrations,
      registrations, List.map_cons, List.sum_cons, Nat.add_assoc, ← unexpired]
    congr 2
    by_cases hs : r.1.sid = sid <;> by_cases ht : r.2 + s.interestTTLMs < t <;> simp [hs, ht]

/-- From a primary without markers, after any requests: an update calls every other server that has
    an endpoint and an unexpired registration exactly once, and no other, if and only if no such
    server has two unexpired registrations, nor any when the event draws the object's own guid for
    its projectile. -/
theorem pushed_once_iff {s : Colyseus} {g : UInt32} {o : GameObject}
    (h : s.primaries.lookup g = some o) (hnew : s.primaryInterest.index g [] = [])
    (requests : List (RegisterInterestRequest × Int64)) (input : Int32) (t : Int64) :
    (∀ sid, (((s.receive requests).handleUpdate g input t).2.countP fun call => call.sid == sid) =
      if s.IsPeer sid ∧ 0 < registrations s.interestTTLMs requests g sid t then 1 else 0) ↔
    ∀ sid, s.IsPeer sid → registrations s.interestTTLMs requests g sid t ≤ 1 ∧
      (s.Overwrites g o ⟨input, t⟩ → registrations s.interestTTLMs requests g sid t = 0) := by
  have hprim : (s.receive requests).primaries.lookup g = some o := by rw [receive_frame]; exact h
  have hpeer : ∀ sid, (s.receive requests).IsPeer sid ↔ s.IsPeer sid := fun sid => by
    rw [receive_frame]; exact Iff.rfl
  have hover : (s.receive requests).Overwrites g o ⟨input, t⟩ ↔ s.Overwrites g o ⟨input, t⟩ := by
    rw [receive_frame]; exact Iff.rfl
  refine forall_congr' fun sid => ?_
  have hcount := receive_unexpired sid t requests s h
  rw [unexpired, unexpired, hnew, List.countP_nil, Nat.zero_add, ← unexpired] at hcount
  rw [handleUpdate_countP hprim, hcount, if_congr (and_congr (hpeer sid) (not_congr hover)) rfl rfl]
  generalize registrations s.interestTTLMs requests g sid t = n
  by_cases hp : s.IsPeer sid
  · by_cases ho : s.Overwrites g o ⟨input, t⟩
    · rw [if_neg fun hb => hb.2 ho]
      rcases Nat.eq_zero_or_pos n with hn | hn
      · simp [hn]
      · rw [if_pos ⟨hp, hn⟩]
        constructor
        · intro hbad; omega
        · intro hz
          have := (hz hp).2 ho
          omega
    · rw [if_pos ⟨hp, ho⟩]
      rcases Nat.eq_zero_or_pos n with hn | hn
      · simp [hn]
      · rw [if_pos ⟨hp, hn⟩]
        constructor
        · intro hone _
          exact ⟨by omega, fun hb => absurd hb ho⟩
        · intro hle
          have := (hle hp).1
          omega
  · rw [if_neg fun hb => hp hb.1, if_neg fun hb => hp hb.1]
    simp [hp]

/-! ### A renewal before the first registration expires -/

/-- Server 1 with one player and server 2 as a peer; registrations last two seconds. -/
def owner : Colyseus :=
  { sid := 1
    peerEndpoints := (∅ : GoMap Int32 Int32).insert 2 2
    primaries := (∅ : GoMap UInt32 GameObject).insert 7 ⟨7, 1, ⟨10, 10, 2, 2⟩, player, ⟨0, 0⟩⟩
    replicas := ∅
    primaryInterest := (∅ : GoMap UInt32 (List Interest)).insert 7 []
    proactiveReplication := true
    predTimeMs := 500
    pubTimeMs := 100
    interestTTLMs := 2000
    guids := fun n => UInt32.ofNat (100 + n)
    drawn := 0 }

/-- The first registration of server 2 and a renewal one second later, as `CleanupLoop` sends it. -/
def registerAndRenew : List (RegisterInterestRequest × Int64) :=
  [(⟨[7], 2, false⟩, 1000), (⟨[7], 2, true⟩, 2000)]

/-- Half a second after the renewal both markers are unexpired, and one event calls server 2
    twice. -/
theorem renewal_pushes_twice :
    owner.IsPeer 2 ∧ 0 < registrations owner.interestTTLMs registerAndRenew 7 2 2500 ∧
      ((owner.receive registerAndRenew).handleUpdate 7 right 2500).2.countP
        (fun call => call.sid == 2) = 2 := by
  decide +kernel

/-- The equivalence for a single registration: server 2 is called once. -/
theorem pushed_once_iff_single :
    ((owner.receive [(⟨[7], 2, false⟩, 1000)]).handleUpdate 7 right 2500).2.countP
      (fun call => call.sid == 2) = 1 := by
  have hcond : ∀ sid, owner.IsPeer sid →
      registrations owner.interestTTLMs [(⟨[7], 2, false⟩, 1000)] 7 sid 2500 ≤ 1 ∧
        (owner.Overwrites 7 ⟨7, 1, ⟨10, 10, 2, 2⟩, player, ⟨0, 0⟩⟩ ⟨right, 2500⟩ →
          registrations owner.interestTTLMs [(⟨[7], 2, false⟩, 1000)] 7 sid 2500 = 0) := by
    intro sid _
    constructor
    · simp only [registrations, List.map_cons, List.map_nil, List.sum_cons, List.sum_nil]
      split
      · decide
      · decide
    · rintro ⟨-, hshoot, -⟩
      exact absurd hshoot (by decide)
  have hall := (pushed_once_iff (s := owner) (g := 7) rfl rfl [(⟨[7], 2, false⟩, 1000)] right
    2500).mpr hcond
  rw [hall 2]
  decide +kernel

end Colyseus

end DistGame
