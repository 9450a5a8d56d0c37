import DistGame.Server.Cleanup

/-! One frame of the game: `GameLoop` (`demo/server/server.go`) looks for projectiles that hit players
    and lists updates with `Die`, and `AdvanceGameState` handles each of them in a goroutine of its own.
    The maps are iterated and the goroutines run in any order; the clock is read as one value `now`. -/

namespace DistGame

/-- The orders in which one frame iterates the maps: the loop over the primaries, and for the projectile
    under each guid the two loops that look for a player it hits. -/
structure Iteration where
  primaries : List GameObject
  players : UInt32 → List GameObject
  replicas : UInt32 → List GameObject

namespace Iteration

/-- They are orders of the objects of the server. -/
structure Of (i : Iteration) (s : Colyseus) : Prop where
  primaries : i.primaries.Perm s.primaries.values
  players : ∀ g, (i.players g).Perm s.primaries.values
  replicas : ∀ g, (i.replicas g).Perm s.replicas.values

/-- The first player in a loop over some objects that intersects `loc`. -/
def firstHit (now : Int64) (loc : Rectangle) (objects : List GameObject) : Option GameObject :=
  objects.find? fun o => decide (o.type = player) && loc.intersects (o.getLocation now)

/-- The player that a projectile hits: a primary, or a replica if no primary is hit. -/
def target (i : Iteration) (now : Int64) (projectile : GameObject) : Option GameObject :=
  let loc := projectile.getLocation now
  (firstHit now loc (i.players projectile.guid)).or (firstHit now loc (i.replicas projectile.guid))

/-- The batch of one frame of `GameLoop`: `updateGuids` with `updates`. -/
def gameLoop (i : Iteration) (now : Int64) : List (UInt32 × Int32) :=
  i.primaries.flatMap fun primary =>
    if primary.type = projectile then
      match i.target now primary with
      | some player => [(player.guid, die), (primary.guid, die)]
      | none => []
    else []

/-- The projectiles that hit a player, each with the player. -/
def hits (i : Iteration) (now : Int64) : List (GameObject × GameObject) :=
  i.primaries.filterMap fun primary =>
    if primary.type = projectile then (i.target now primary).map fun player => (primary, player)
    else none

end Iteration

namespace Colyseus

/-- `AdvanceGameState`, its goroutines in the order in which they take the lock. -/
def advanceGameState (now : Int64) : Colyseus → List (UInt32 × Int32) →
    Colyseus × List (PeerCall UpdateRequest)
  | s, [] => (s, [])
  | s, (guid, update) :: turns =>
    let (s, calls) := s.handleUpdate guid update now
    let (s, calls') := s.advanceGameState now turns
    (s, calls ++ calls')

/-- A player of the server, primary or replica, that intersects the projectile. -/
def Collides (s : Colyseus) (now : Int64) (projectile o : GameObject) : Prop :=
  (o ∈ s.primaries.values ∨ o ∈ s.replicas.values) ∧ o.type = player ∧
    (projectile.getLocation now).intersects (o.getLocation now) = true

/-! ### One death -/

/-- The pushes of an update with `Die` of a primary. -/
def deathPushes (s : Colyseus) (now : Int64) (g : UInt32) : List (PeerCall UpdateRequest) :=
  match s.primaries.lookup g with
  | some o => s.pushes g now ⟨g, some ⟨die, now⟩, [], [], [o.guid]⟩
  | none => []

/-- The call that forwards an update with `Die` of a replica to its owner. -/
def deathForwards (s : Colyseus) (g : UInt32) : List (PeerCall UpdateRequest) :=
  match s.primaries.lookup g with
  | some _ => []
  | none => (s.replicas.lookup g).toList.flatMap fun replica =>
      ((s.peerEndpoints.lookup replica.sid).map fun peer =>
        (⟨replica.sid, peer, ⟨g, some ⟨die, 0⟩, [], [], []⟩⟩ : PeerCall UpdateRequest)).toList

/-- Objects are stored under their own guids, and no guid is both of a primary and of a replica. -/
structure Separate (s : Colyseus) : Prop where
  keyed : s.Keyed
  replicas : s.ReplicasKeyed
  disjoint : ∀ g, (s.primaries.lookup g).isSome → s.replicas.lookup g = none

/-- The entries decide it. -/
theorem separate_iff {s : Colyseus} : s.Separate ↔ (∀ e ∈ s.primaries.entries, e.2.guid = e.1) ∧
    (∀ e ∈ s.replicas.entries, e.2.guid = e.1) ∧
    ∀ e ∈ s.primaries.entries, s.replicas.lookup e.1 = none := by
  have hdisjoint := GoMap.forall_entries_iff s.primaries fun k _ => s.replicas.lookup k = none
  rw [GoMap.forall_entries_iff s.primaries fun k o => o.guid = k,
    GoMap.forall_entries_iff s.replicas fun k o => o.guid = k, hdisjoint]
  constructor
  · rintro ⟨hp, hr, hd⟩
    exact ⟨hp, hr, fun k o ho => hd k (by rw [ho]; rfl)⟩
  · rintro ⟨hp, hr, hd⟩
    refine ⟨hp, hr, fun k hk => ?_⟩
    obtain ⟨o, ho⟩ := Option.isSome_iff_exists.mp hk
    exact hd k o ho

instance (s : Colyseus) : Decidable s.Separate := decidable_of_iff _ separate_iff.symm

section
variable {s s' : Colyseus} {now : Int64} {g : UInt32} {o : GameObject}

theorem created_die (o : GameObject) (now : Int64) (id : UInt32) :
    o.created ⟨die, now⟩ id = [] := by
  have hshoot : held die shoot = false := by decide
  rw [GameObject.created, if_neg]
  simp [hshoot]

theorem deleted_die (o : GameObject) (now : Int64) : o.deleted ⟨die, now⟩ = [o.guid] := by
  have hdie : held die die = true := by decide
  rw [GameObject.deleted, if_pos hdie]

theorem handleUpdate_die (ho : s.primaries.lookup g = some o) (hg : o.guid = g) :
    s.handleUpdate g die now =
      ({ s with primaries := s.primaries.insert g (o.advance ⟨die, now⟩) }.deleteObject g,
        s.deathPushes now g) := by
  rw [handleUpdate_primary ho, pushed, applied, created_die, deleted_die, deathPushes, ho]
  dsimp only
  rw [hg]
  rfl

theorem handleUpdate_die_none (h : s.primaries.lookup g = none) :
    s.handleUpdate g die now = (s, s.deathForwards g) := by
  rw [deathForwards, h]
  cases hr : s.replicas.lookup g with
  | none => simp [handleUpdate, h, hr]
  | some replica => simp [handleUpdate, h, hr]

end

/-! ### Any number of deaths -/

/-- What updates with `Die` for the guids `dies` leave of a server and make it send. -/
structure Reaped (s : Colyseus) (now : Int64) (dies : List UInt32)
    (r : Colyseus × List (PeerCall UpdateRequest)) : Prop where
  frame : r.1 = { s with
    primaries := r.1.primaries
    replicas := r.1.replicas
    primaryInterest := r.1.primaryInterest }
  primaries : ∀ k, r.1.primaries.lookup k = if k ∈ dies then none else s.primaries.lookup k
  replicas : ∀ k, r.1.replicas.lookup k = s.replicas.lookup k
  primaryInterest : ∀ k, r.1.primaryInterest.lookup k =
    if k ∈ dies ∧ (s.primaries.lookup k).isSome then none else s.primaryInterest.lookup k
  calls : r.2.Perm ((s.primaries.keys.filter (· ∈ dies)).flatMap (s.deathPushes now) ++
    dies.flatMap s.deathForwards)

section
variable {s : Colyseus} {now : Int64} {g : UInt32} {dies dies' : List UInt32}
  {r r' : Colyseus × List (PeerCall UpdateRequest)}

/-- The server on which the first death has been handled is still separate. -/
theorem Reaped.separate (h : Reaped s now dies r) (hs : s.Separate) : r.1.Separate where
  keyed k o ho := by
    rw [h.primaries] at ho
    split at ho
    · cases ho
    · exact hs.keyed k o ho
  replicas k o ho := by
    rw [h.replicas] at ho
    exact hs.replicas k o ho
  disjoint k hk := by
    rw [h.replicas]
    rw [h.primaries] at hk
    split at hk
    · cases hk
    · exact hs.disjoint k hk

/-- A primary that is left is pushed as before. -/
theorem Reaped.deathPushes (h : Reaped s now dies r) {k : UInt32} (hk : k ∉ dies) :
    r.1.deathPushes now k = s.deathPushes now k := by
  have hindex : r.1.primaryInterest.index k [] = s.primaryInterest.index k [] := by
    rw [GoMap.index, GoMap.index, h.primaryInterest, if_neg fun hdead => hk hdead.1]
  rw [Colyseus.deathPushes, Colyseus.deathPushes, h.primaries, if_neg hk]
  simp only [pushes, hindex]
  rw [h.frame]

/-- Forwards do not depend on what has died. -/
theorem Reaped.deathForwards (h : Reaped s now dies r) (hs : s.Separate) (k : UInt32) :
    r.1.deathForwards k = s.deathForwards k := by
  rw [Colyseus.deathForwards, Colyseus.deathForwards, h.replicas, h.primaries]
  split_ifs
  · cases hp : s.primaries.lookup k with
    | none => rw [h.frame]
    | some o => simp [hs.disjoint k (by rw [hp]; rfl)]
  · rw [h.frame]

theorem reaped_nil (s : Colyseus) (now : Int64) : Reaped s now [] (s, []) where
  frame := rfl
  primaries _ := by simp
  replicas _ := rfl
  primaryInterest _ := by simp
  calls := by simp

/-- One update with `Die`: a primary is deleted, and a replica is left alone. -/
theorem reaped_one (hs : s.Separate) (now : Int64) (g : UInt32) :
    Reaped s now [g] (s.handleUpdate g die now) := by
  cases ho : s.primaries.lookup g with
  | none =>
    have hkeys : s.primaries.keys.filter (· ∈ [g]) = [] := by
      refine List.filter_eq_nil_iff.mpr fun k hk hmem => ?_
      rw [List.mem_singleton.mp (of_decide_eq_true hmem), GoMap.mem_keys_iff, ho] at hk
      cases hk
    rw [handleUpdate_die_none ho]
    refine ⟨rfl, fun k => ?_, fun k => rfl, fun k => ?_, by rw [hkeys]; simp⟩
    · split_ifs with hk
      · rw [List.mem_singleton.mp hk, ho]
      · rfl
    · rw [if_neg]
      rintro ⟨hk, hsome⟩
      rw [List.mem_singleton.mp hk, ho] at hsome
      cases hsome
  | some o =>
    have hkeys : (s.primaries.keys.filter (· ∈ [g])).Perm [g] := by
      refine (List.perm_ext_iff_of_nodup (s.primaries.keys_nodup.filter _)
        (List.nodup_singleton g)).mpr fun k => ?_
      simp only [List.mem_filter, GoMap.mem_keys_iff, decide_eq_true_eq, and_iff_right_iff_imp]
      intro hk
      rw [List.mem_singleton.mp hk, ho]
      rfl
    rw [handleUpdate_die ho (hs.keyed g o ho)]
    refine ⟨rfl, fun k => ?_, fun k => ?_, fun k => ?_, ?_⟩
    · rw [deleteObject, GoMap.lookup_erase_ite, GoMap.lookup_insert_ite]
      by_cases hk : k = g <;> simp [hk]
    · rw [deleteObject, GoMap.lookup_erase_ite]
      split_ifs with hk
      · rw [hk, hs.disjoint g (by rw [ho]; rfl)]
      · rfl
    · rw [deleteObject, GoMap.lookup_erase_ite]
      by_cases hk : k = g
      · subst hk
        simp [ho]
      · simp [hk]
    · have hforwards : s.deathForwards g = [] := by rw [Colyseus.deathForwards, ho]
      have hpushes := hkeys.flatMap_right (s.deathPushes now)
      simp only [List.flatMap_cons, List.flatMap_nil, List.append_nil, hforwards] at hpushes ⊢
      exact hpushes.symm

/-- Two batches, one after the other. -/
theorem Reaped.append (hs : s.Separate) (h : Reaped s now dies r) (h' : Reaped r.1 now dies' r') :
    Reaped s now (dies ++ dies') (r'.1, r.2 ++ r'.2) where
  frame := by
    rw [h'.frame, h.frame]
  primaries k := by
    rw [h'.primaries, h.primaries]
    by_cases hk : k ∈ dies <;> by_cases hk' : k ∈ dies' <;> simp [hk, hk']
  replicas k := by
    rw [h'.replicas, h.replicas]
  primaryInterest k := by
    rw [h'.primaryInterest, h.primaryInterest, h.primaries]
    by_cases hk : k ∈ dies <;> by_cases hk' : k ∈ dies' <;> simp [hk, hk']
  calls := by
    have hleft : ∀ k, k ∈ r.1.primaries.keys ↔ k ∈ s.primaries.keys ∧ k ∉ dies := by
      intro k
      rw [GoMap.mem_keys_iff, GoMap.mem_keys_iff, h.primaries]
      by_cases hk : k ∈ dies <;> simp [hk]
    have hkeys : (s.primaries.keys.filter (· ∈ dies ++ dies')).Perm
        (s.primaries.keys.filter (· ∈ dies) ++ r.1.primaries.keys.filter (· ∈ dies')) := by
      refine (List.perm_ext_iff_of_nodup (s.primaries.keys_nodup.filter _) ?_).mpr fun k => ?_
      · refine (s.primaries.keys_nodup.filter _).append (r.1.primaries.keys_nodup.filter _) ?_
        intro k hk hk'
        simp only [List.mem_filter, decide_eq_true_eq, hleft] at hk hk'
        exact hk'.1.2 hk.2
      · simp only [List.mem_filter, List.mem_append, decide_eq_true_eq, hleft]
        tauto
    have hpushes : (r.1.primaries.keys.filter (· ∈ dies')).flatMap (r.1.deathPushes now) =
        (r.1.primaries.keys.filter (· ∈ dies')).flatMap (s.deathPushes now) := by
      refine List.flatMap_congr fun k hk => ?_
      simp only [List.mem_filter, hleft] at hk
      exact h.deathPushes hk.1.2
    have hforwards : dies'.flatMap r.1.deathForwards = dies'.flatMap s.deathForwards :=
      List.flatMap_congr fun k _ => h.deathForwards hs k
    have hcalls := h.calls.append h'.calls
    rw [hpushes, hforwards] at hcalls
    refine hcalls.trans ?_
    rw [List.flatMap_append]
    refine List.Perm.trans ?_ ((hkeys.flatMap_right _).symm.append_right _)
    rw [List.flatMap_append, List.append_assoc, List.append_assoc]
    refine List.Perm.append_left _ ?_
    rw [← List.append_assoc, ← List.append_assoc]
    exact List.perm_append_comm.append_right _

/-- The goroutines, in the order in which they take the lock. -/
theorem reaped_advance : ∀ {turns : List (UInt32 × Int32)} {s : Colyseus}, s.Separate →
    (∀ turn ∈ turns, turn.2 = die) →
    Reaped s now (turns.map Prod.fst) (s.advanceGameState now turns)
  | [], s, _, _ => reaped_nil s now
  | (g, update) :: turns, s, hs, hdie => by
    obtain rfl : update = die := hdie (g, update) List.mem_cons_self
    have hone := reaped_one hs now g
    have hrest : Reaped (s.handleUpdate g die now).1 now (turns.map Prod.fst)
        ((s.handleUpdate g die now).1.advanceGameState now turns) :=
      reaped_advance (hone.separate hs) fun turn ht => hdie turn (List.mem_cons_of_mem _ ht)
    exact hone.append hs hrest

/-- Two servers with the same maps, and the same calls in another order. -/
structure Alike (r r' : Colyseus × List (PeerCall UpdateRequest)) : Prop where
  frame : r.1 = { r'.1 with
    primaries := r.1.primaries
    replicas := r.1.replicas
    primaryInterest := r.1.primaryInterest }
  primaries : ∀ k, r.1.primaries.lookup k = r'.1.primaries.lookup k
  replicas : ∀ k, r.1.replicas.lookup k = r'.1.replicas.lookup k
  primaryInterest : ∀ k, r.1.primaryInterest.lookup k = r'.1.primaryInterest.lookup k
  calls : r.2.Perm r'.2

/-- What has died does not depend on the order of the deaths. -/
theorem Reaped.alike (h : Reaped s now dies r) (h' : Reaped s now dies' r')
    (hperm : dies.Perm dies') : Alike r r' where
  frame := by
    rw [h.frame, h'.frame]
  primaries k := by
    rw [h.primaries, h'.primaries]
    simp only [hperm.mem_iff]
  replicas k := by
    rw [h.replicas, h'.replicas]
  primaryInterest k := by
    rw [h.primaryInterest, h'.primaryInterest]
    simp only [hperm.mem_iff]
  calls := by
    refine h.calls.trans (List.Perm.trans ?_ h'.calls.symm)
    simp only [hperm.mem_iff]
    exact (hperm.flatMap_right _).append_left _

end

/-! ### The collisions of a frame -/

section
variable {s : Colyseus} {now : Int64} {i : Iteration} {p o : GameObject}

theorem firstHit_some {loc : Rectangle} {objects : List GameObject}
    (h : Iteration.firstHit now loc objects = some o) :
    o ∈ objects ∧ o.type = player ∧ loc.intersects (o.getLocation now) = true := by
  have hfound := List.find?_some h
  rw [Bool.and_eq_true, decide_eq_true_eq] at hfound
  exact ⟨List.mem_of_find?_eq_some h, hfound⟩

theorem firstHit_isSome {loc : Rectangle} {objects : List GameObject} (ho : o ∈ objects)
    (htype : o.type = player) (hmeet : loc.intersects (o.getLocation now) = true) :
    (Iteration.firstHit now loc objects).isSome := by
  refine List.find?_isSome.mpr ⟨o, ho, ?_⟩
  rw [hmeet, htype]
  rfl

/-- What the two loops find collides with the projectile. -/
theorem target_collides (hi : i.Of s) (h : i.target now p = some o) : s.Collides now p o := by
  rw [Iteration.target, Option.or_eq_some_iff] at h
  rcases h with h | ⟨-, h⟩
  · obtain ⟨ho, htype, hmeet⟩ := firstHit_some h
    exact ⟨.inl ((hi.players _).mem_iff.mp ho), htype, hmeet⟩
  · obtain ⟨ho, htype, hmeet⟩ := firstHit_some h
    exact ⟨.inr ((hi.replicas _).mem_iff.mp ho), htype, hmeet⟩

/-- They find a player if there is one. -/
theorem target_isSome (hi : i.Of s) (h : s.Collides now p o) : (i.target now p).isSome := by
  obtain ⟨ho, htype, hmeet⟩ := h
  rw [Iteration.target, Option.isSome_or, Bool.or_eq_true]
  rcases ho with ho | ho
  · exact .inl (firstHit_isSome ((hi.players _).mem_iff.mpr ho) htype hmeet)
  · exact .inr (firstHit_isSome ((hi.replicas _).mem_iff.mpr ho) htype hmeet)

/-- The batch lists for each hit the player and then the projectile. -/
theorem gameLoop_eq (i : Iteration) (now : Int64) :
    i.gameLoop now =
      (i.hits now).flatMap fun hit => [(hit.2.guid, die), (hit.1.guid, die)] := by
  rw [Iteration.gameLoop, Iteration.hits]
  induction i.primaries with
  | nil => rfl
  | cons primary primaries ih =>
    rw [List.flatMap_cons, List.filterMap_cons, ih]
    split_ifs
    · cases i.target now primary <;> rfl
    · rfl

/-- One hit for each projectile with a target. -/
theorem hits_projectiles (i : Iteration) (now : Int64) :
    (i.hits now).map Prod.fst =
      i.primaries.filter fun p => decide (p.type = projectile) && (i.target now p).isSome := by
  rw [Iteration.hits, List.map_filterMap, ← List.filterMap_eq_filter]
  congr 1
  funext p
  by_cases hp : p.type = projectile
  · cases ht : i.target now p <;> simp [hp, ht, Option.guard]
  · simp [hp, Option.guard]

/-- What holds of the hits that a frame finds. -/
structure Hits (s : Colyseus) (now : Int64) (hits : List (GameObject × GameObject)) : Prop where
  once : (hits.map Prod.fst).Nodup
  projectiles : ∀ hit ∈ hits, hit.1 ∈ s.primaries.values ∧ hit.1.type = projectile
  collide : ∀ hit ∈ hits, s.Collides now hit.1 hit.2
  complete : ∀ p ∈ s.primaries.values, p.type = projectile → ∀ o, s.Collides now p o →
    ∃ hit ∈ hits, hit.1 = p

theorem mem_hits {hit : GameObject × GameObject} (hh : hit ∈ i.hits now) :
    hit.1 ∈ i.primaries ∧ hit.1.type = projectile ∧ i.target now hit.1 = some hit.2 := by
  obtain ⟨p, hp, hfound⟩ := List.mem_filterMap.mp hh
  split_ifs at hfound with htype
  obtain ⟨o, ho, rfl⟩ := Option.map_eq_some_iff.mp hfound
  exact ⟨hp, htype, ho⟩

theorem hits_spec (hkeyed : s.Keyed) (hi : i.Of s) : s.Hits now (i.hits now) where
  once := by
    have hvalues : s.primaries.values.Nodup :=
      GoMap.values_nodup GameObject.guid
        ((GoMap.forall_entries_iff s.primaries fun k o => o.guid = k).mpr hkeyed)
    rw [hits_projectiles]
    exact (hi.primaries.nodup_iff.mpr hvalues).filter _
  projectiles hit hh := by
    obtain ⟨hp, htype, -⟩ := mem_hits hh
    exact ⟨hi.primaries.mem_iff.mp hp, htype⟩
  collide hit hh := target_collides hi (mem_hits hh).2.2
  complete p hp htype o hmeet := by
    have hmem : p ∈ (i.hits now).map Prod.fst := by
      rw [hits_projectiles, List.mem_filter]
      refine ⟨hi.primaries.mem_iff.mpr hp, ?_⟩
      rw [htype, target_isSome hi hmeet]
      rfl
    exact List.mem_map.mp hmem

end

/-- What a frame with the given hits leaves of a server. -/
structure Resolved (s : Colyseus) (now : Int64) (hits : List (GameObject × GameObject))
    (s' : Colyseus) : Prop where
  frame : s' = { s with
    primaries := s'.primaries
    replicas := s'.replicas
    primaryInterest := s'.primaryInterest }
  projectiles : ∀ p ∈ s.primaries.values, p.type = projectile →
    (s'.primaries.lookup p.guid = none ↔ ∃ o, s.Collides now p o)
  victims : ∀ p ∈ s.primaries.values, p.type = projectile → s'.primaries.lookup p.guid = none →
    ∃! o, (p, o) ∈ hits
  players : ∀ o ∈ s.primaries.values, o.type = player →
    (s'.primaries.lookup o.guid = none ↔ ∃ p, (p, o) ∈ hits)
  others : ∀ o ∈ s.primaries.values, o.type ≠ projectile → o.type ≠ player →
    s'.primaries.lookup o.guid = some o
  kept : ∀ k o, s'.primaries.lookup k = some o → s.primaries.lookup k = some o
  replicas : ∀ k, s'.replicas.lookup k = s.replicas.lookup k
  primaryInterest : ∀ k, s'.primaryInterest.lookup k =
    if (s.primaries.lookup k).isSome ∧ s'.primaries.lookup k = none then none
    else s.primaryInterest.lookup k

section
variable {s : Colyseus} {now : Int64} {i : Iteration}

theorem Separate.lookup {o : GameObject} (hs : s.Separate) (ho : o ∈ s.primaries.values) :
    s.primaries.lookup o.guid = some o := by
  obtain ⟨k, hk⟩ := (GoMap.mem_values_iff _ _).mp ho
  rw [hs.keyed k o hk, hk]

/-- The primaries that the batch names are those that hit or are hit. -/
theorem mem_batch_iff (hs : s.Separate) (hi : i.Of s) {o : GameObject}
    (ho : o ∈ s.primaries.values) :
    o.guid ∈ (i.gameLoop now).map Prod.fst ↔
      ∃ hit ∈ i.hits now, hit.1 = o ∨ hit.2 = o := by
  have hspec : s.Hits now (i.hits now) := hits_spec hs.keyed hi
  have hown := hs.lookup ho
  constructor
  · intro hmem
    rw [gameLoop_eq, List.map_flatMap, List.mem_flatMap] at hmem
    obtain ⟨hit, hh, hguid⟩ := hmem
    refine ⟨hit, hh, ?_⟩
    simp only [List.map_cons, List.map_nil, List.mem_cons, List.not_mem_nil, or_false] at hguid
    rcases hguid with hguid | hguid
    · rcases (hspec.collide hit hh).1 with hprimary | hreplica
      · rw [hguid, hs.lookup hprimary] at hown
        exact .inr (Option.some.inj hown)
      · -- a replica has no guid of a primary
        obtain ⟨k, hk⟩ := (GoMap.mem_values_iff _ _).mp hreplica
        have hnone := hs.disjoint o.guid (by rw [hown]; rfl)
        rw [hguid, hs.replicas k _ hk, hk] at hnone
        cases hnone
    · rw [hguid, hs.lookup (hspec.projectiles hit hh).1] at hown
      exact .inl (Option.some.inj hown)
  · rintro ⟨hit, hh, rfl | rfl⟩
    all_goals
      rw [gameLoop_eq, List.map_flatMap, List.mem_flatMap]
      exact ⟨hit, hh, by simp⟩

/-- A projectile is not the player of a hit. -/
theorem Hits.snd_ne {hits : List (GameObject × GameObject)} {p : GameObject} (h : s.Hits now hits)
    (htype : p.type = projectile) : ∀ hit ∈ hits, hit.2 ≠ p := by
  rintro hit hh rfl
  have hplayer := (h.collide hit hh).2.1
  rw [htype] at hplayer
  exact absurd hplayer (by decide)

/-- Only a projectile hits. -/
theorem Hits.fst_ne {hits : List (GameObject × GameObject)} {o : GameObject} (h : s.Hits now hits)
    (htype : o.type ≠ projectile) : ∀ hit ∈ hits, hit.1 ≠ o := by
  rintro hit hh rfl
  exact htype (h.projectiles hit hh).2

section
variable {dies : List UInt32} {r : Colyseus × List (PeerCall UpdateRequest)}

/-- Once the batch is handled, the primaries that hit or are hit are gone. -/
theorem Reaped.removed_iff (hs : s.Separate) (hi : i.Of s) (h : Reaped s now dies r)
    (hdies : dies.Perm ((i.gameLoop now).map Prod.fst)) {o : GameObject}
    (ho : o ∈ s.primaries.values) :
    r.1.primaries.lookup o.guid = none ↔ ∃ hit ∈ i.hits now, hit.1 = o ∨ hit.2 = o := by
  rw [← mem_batch_iff hs hi ho, ← hdies.mem_iff, h.primaries, hs.lookup ho]
  simp

theorem Reaped.projectile_iff (hs : s.Separate) (hi : i.Of s) (h : Reaped s now dies r)
    (hdies : dies.Perm ((i.gameLoop now).map Prod.fst)) {p : GameObject}
    (hp : p ∈ s.primaries.values) (htype : p.type = projectile) :
    r.1.primaries.lookup p.guid = none ↔ ∃ o, (p, o) ∈ i.hits now := by
  rw [h.removed_iff hs hi hdies hp]
  constructor
  · rintro ⟨hit, hh, rfl | heq⟩
    · exact ⟨hit.2, hh⟩
    · exact absurd heq ((hits_spec hs.keyed hi).snd_ne htype hit hh)
  · rintro ⟨o, ho⟩
    exact ⟨(p, o), ho, .inl rfl⟩

theorem Reaped.player_iff (hs : s.Separate) (hi : i.Of s) (h : Reaped s now dies r)
    (hdies : dies.Perm ((i.gameLoop now).map Prod.fst)) {o : GameObject}
    (ho : o ∈ s.primaries.values) (htype : o.type = player) :
    r.1.primaries.lookup o.guid = none ↔ ∃ p, (p, o) ∈ i.hits now := by
  have hne : o.type ≠ projectile := by rw [htype]; decide
  rw [h.removed_iff hs hi hdies ho]
  constructor
  · rintro ⟨hit, hh, heq | rfl⟩
    · exact absurd heq ((hits_spec hs.keyed hi).fst_ne hne hit hh)
    · exact ⟨hit.1, hh⟩
  · rintro ⟨p, hp⟩
    exact ⟨(p, o), hp, .inr rfl⟩

/-- The server on which a batch is handled has resolved the hits of the frame. -/
theorem Reaped.resolved (hs : s.Separate) (hi : i.Of s) (h : Reaped s now dies r)
    (hdies : dies.Perm ((i.gameLoop now).map Prod.fst)) :
    s.Resolved now (i.hits now) r.1 where
  frame := h.frame
  projectiles p hp htype := by
    have hspec : s.Hits now (i.hits now) := hits_spec hs.keyed hi
    rw [h.projectile_iff hs hi hdies hp htype]
    constructor
    · rintro ⟨o, ho⟩
      exact ⟨o, hspec.collide _ ho⟩
    · rintro ⟨o, ho⟩
      obtain ⟨hit, hh, rfl⟩ := hspec.complete p hp htype o ho
      exact ⟨hit.2, hh⟩
  victims p hp htype hnone := by
    have hspec : s.Hits now (i.hits now) := hits_spec hs.keyed hi
    obtain ⟨o, ho⟩ := (h.projectile_iff hs hi hdies hp htype).mp hnone
    refine ⟨o, ho, fun o' ho' => ?_⟩
    exact congrArg Prod.snd (List.inj_on_of_nodup_map hspec.once ho' ho rfl)
  players o ho htype := h.player_iff hs hi hdies ho htype
  others o ho hprojectile hplayer := by
    have hspec : s.Hits now (i.hits now) := hits_spec hs.keyed hi
    have hleft : o.guid ∉ dies := by
      rw [hdies.mem_iff, mem_batch_iff hs hi ho]
      rintro ⟨hit, hh, heq | rfl⟩
      · exact hspec.fst_ne hprojectile hit hh heq
      · exact hplayer (hspec.collide hit hh).2.1
    rw [h.primaries, if_neg hleft, hs.lookup ho]
  kept k o hk := by
    rw [h.primaries] at hk
    split_ifs at hk
    exact hk
  replicas := h.replicas
  primaryInterest k := by
    rw [h.primaryInterest, h.primaries]
    cases s.primaries.lookup k <;> simp

end

/-- Every schedule resolves the collisions of a frame in the same way. -/
theorem frame_resolves (hs : s.Separate) (hi : i.Of s) :
    i.gameLoop now =
        (i.hits now).flatMap (fun hit => [(hit.2.guid, die), (hit.1.guid, die)]) ∧
      s.Hits now (i.hits now) ∧
      ∀ turns, turns.Perm (i.gameLoop now) →
        s.Resolved now (i.hits now) (s.advanceGameState now turns).1 ∧
        ∀ turns', turns'.Perm turns →
          Alike (s.advanceGameState now turns') (s.advanceGameState now turns) := by
  have hreaped : ∀ turns, turns.Perm (i.gameLoop now) →
      Reaped s now (turns.map Prod.fst) (s.advanceGameState now turns) := by
    intro turns hperm
    refine reaped_advance hs fun turn ht => ?_
    rw [hperm.mem_iff, gameLoop_eq, List.mem_flatMap] at ht
    obtain ⟨hit, -, ht⟩ := ht
    rcases List.mem_cons.mp ht with rfl | ht
    · rfl
    · rw [List.mem_singleton.mp ht]
  refine ⟨gameLoop_eq i now, hits_spec hs.keyed hi, fun turns hperm => ⟨?_, ?_⟩⟩
  · exact (hreaped turns hperm).resolved hs hi (hperm.map _)
  · intro turns' hperm'
    exact (hreaped turns' (hperm'.trans hperm)).alike (hreaped turns hperm) (hperm'.map _)

/-- A server with the player 1 and some projectiles, and a replica of the player 5 of server 2. -/
def arena : Colyseus where
  sid := 1
  peerEndpoints := (∅ : GoMap Int32 Int32).insert 2 2
  primaries := (∅ : GoMap UInt32 GameObject).writeAll
    [(1, ⟨1, 1, ⟨5, 5, 2, 2⟩, player, ⟨0, 1000⟩⟩), (2, ⟨2, 1, ⟨5, 5, 1, 1⟩, projectile, ⟨0, 1000⟩⟩),
      (3, ⟨3, 1, ⟨6, 6, 1, 1⟩, projectile, ⟨0, 1000⟩⟩),
      (4, ⟨4, 1, ⟨50, 50, 1, 1⟩, projectile, ⟨0, 1000⟩⟩),
      (6, ⟨6, 1, ⟨80, 80, 1, 1⟩, projectile, ⟨0, 1000⟩⟩)]
  replicas := (∅ : GoMap UInt32 GameObject).insert 5 ⟨5, 2, ⟨50, 50, 2, 2⟩, player, ⟨0, 1000⟩⟩
  primaryInterest := (∅ : GoMap UInt32 (List Interest)).insert 1 [⟨2, 3000⟩]
  proactiveReplication := true
  predTimeMs := 500
  pubTimeMs := 100
  interestTTLMs := 2000
  guids := fun n => UInt32.ofNat (100 + n)
  drawn := 0

def arenaOrders : Iteration where
  primaries := arena.primaries.values
  players _ := arena.primaries.values.reverse
  replicas _ := arena.replicas.values

/-- Two projectiles hit the player 1 and one the replica, and the goroutines run in reverse. -/
theorem frame_resolves_arena :
    (arenaOrders.hits 1000).map (fun hit => (hit.1.guid, hit.2.guid)) = [(4, 5), (3, 1), (2, 1)] ∧
      (arena.advanceGameState 1000 (arenaOrders.gameLoop 1000)).2.map PeerCall.request =
        [⟨5, some ⟨die, 0⟩, [], [], []⟩, ⟨1, some ⟨die, 1000⟩, [], [], [1]⟩] ∧
      arena.Resolved 1000 (arenaOrders.hits 1000)
        (arena.advanceGameState 1000 (arenaOrders.gameLoop 1000)).1 ∧
      Alike (arena.advanceGameState 1000 (arenaOrders.gameLoop 1000).reverse)
        (arena.advanceGameState 1000 (arenaOrders.gameLoop 1000)) := by
  have hs : arena.Separate := by decide +kernel
  have hi : arenaOrders.Of arena :=
    ⟨.refl _, fun _ => List.reverse_perm _, fun _ => .refl _⟩
  have hperm : (arenaOrders.gameLoop 1000).Perm (arenaOrders.gameLoop 1000) := .refl _
  obtain ⟨-, -, hframe⟩ := frame_resolves hs hi
  obtain ⟨hresolved, halike⟩ := hframe _ hperm
  exact ⟨by decide +kernel, by decide +kernel, hresolved, halike _ (List.reverse_perm _)⟩

end

end Colyseus

end DistGame
