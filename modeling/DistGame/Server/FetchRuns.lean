import DistGame.Server.FetchSteps

/-! Whole runs of a server and the owner it fetches from. -/

namespace DistGame
namespace Colyseus
namespace Link

/-- In every run in which no registration expires and each answer is installed in its turn among the
    pushes: once all calls and pushes have been handled and a fetch of `g` was among them, the replica
    of `g` equals the primary, or both are gone. -/
theorem fetched_equal {g : UInt32} {s u : Link} {actions : List LinkAction} (hstart : Start g s)
    (hlive : Meets step (Live g) s actions) (hturn : Meets step (InTurn g) s actions)
    (hrun : run step s actions = some u)
    (hcalls : ∀ fetch ∈ u.fetches, fetch.phase = .installed)
    (hpushes : u.delivered = u.pushes.length)
    (hfetched : ∃ fetch ∈ u.fetches, g ∈ fetch.call.request.targetGuids) :
    Option.Rel SameState (u.B.primaries.lookup g) (u.A.replicas.lookup g) := by
  have hgood : Good g u := by
    refine run_invariant (P := Good g) ?_ actions s u hstart.good (meets_and hlive hturn) hrun
    intro s action s' hs hcond hstep
    exact hs.step action hcond.1 hcond.2 hstep
  obtain ⟨fetch, hfetch, hg⟩ := hfetched
  have hfollows := hgood.replica (.inr ⟨fetch, hfetch, hg, hcalls fetch hfetch⟩)
  rw [hpushes] at hfollows
  exact hfollows.caughtUp

/-! ### Server 2 fetches the player of server 1 -/

/-- Server 2 without a replica, and the owner without a registration for its player 7; server 2 is
    registered for another player. -/
def unfetched : Link where
  A := { subscriber with replicas := ∅, guids := fun _ => 200 }
  B := { owner with
    primaries := owner.primaries.insert 8 ⟨8, 1, ⟨50, 50, 2, 2⟩, player, ⟨0, 0⟩⟩
    primaryInterest := owner.primaryInterest.insert 8 [⟨2, 9000⟩]
    guids := fun _ => 100 }
  pushes := []
  delivered := 0
  fetches := []

/-- The player turns right and then up after the owner has answered; both pushes arrive before the
    answer is installed. -/
def pushedEarly : List LinkAction :=
  [.notify [⟨7, 1⟩], .register 0 1000, .event 7 right 1500, .event 7 up 2000, .deliver 2010,
    .deliver 2020, .install 0]

/-- The same with a player that dies. -/
def diedEarly : List LinkAction :=
  [.notify [⟨7, 1⟩], .register 0 1000, .event 7 die 1500, .deliver 1510, .install 0]

/-- The answer is installed after a push about the other player and before the first one about 7. -/
def pushedLater : List LinkAction :=
  [.notify [⟨7, 1⟩], .register 0 1000, .event 8 left 1200, .event 7 right 1500, .event 7 up 2000,
    .deliver 2005, .install 0, .deliver 2010, .deliver 2020]

theorem start_unfetched : Start 7 unfetched where
  keyedA := by
    intro k o h
    cases h
  keyedB := (GoMap.forall_entries_iff unfetched.B.primaries fun k o => o.guid = k).mp (by decide)
  drawsA := by
    intro n _
    show (200 : UInt32) ≠ 7
    decide
  drawsB := by
    intro n _
    show (100 : UInt32) ≠ 7
    decide
  noCopy := ⟨rfl, rfl⟩
  noReplica := rfl
  peer := ⟨by decide, rfl⟩
  idle := ⟨rfl, rfl, rfl⟩

/-- All calls and pushes are handled and no registration has expired, but the replica is not where
    the primary is; or the primary is gone and the replica stays. -/
theorem pushes_lost_before_install : Start 7 unfetched ∧
    (Meets step (Live 7) unfetched pushedEarly ∧
      ∃ u, run step unfetched pushedEarly = some u ∧
        (∀ fetch ∈ u.fetches, fetch.phase = .installed) ∧ u.delivered = u.pushes.length ∧
        (u.A.replicas.lookup 7).map GameObject.rect ≠ (u.B.primaries.lookup 7).map GameObject.rect) ∧
    Meets step (Live 7) unfetched diedEarly ∧
      ∃ u, run step unfetched diedEarly = some u ∧
        (∀ fetch ∈ u.fetches, fetch.phase = .installed) ∧ u.delivered = u.pushes.length ∧
        u.B.primaries.lookup 7 = none ∧ u.A.replicas.lookup 7 ≠ none :=
  ⟨start_unfetched, ⟨by decide +kernel, exists_of_map_decide (by decide +kernel)⟩,
    by decide +kernel, exists_of_map_decide (by decide +kernel)⟩

/-- With the answer installed first, the two pushes make the replica equal. -/
theorem fetched_equal_pushedLater : ∃ u, run step unfetched pushedLater = some u ∧
    Option.Rel SameState (u.B.primaries.lookup 7) (u.A.replicas.lookup 7) := by
  obtain ⟨u, hrun, hcalls, hpushes, hfetched⟩ := exists_of_map_decide
    (o := run step unfetched pushedLater)
    (P := fun u => (∀ fetch ∈ u.fetches, fetch.phase = .installed) ∧
      u.delivered = u.pushes.length ∧ ∃ fetch ∈ u.fetches, 7 ∈ fetch.call.request.targetGuids)
    (by decide +kernel)
  exact ⟨u, hrun, fetched_equal start_unfetched (by decide +kernel) (by decide +kernel) hrun hcalls
    hpushes hfetched⟩

end Link

end Colyseus

end DistGame
