import DistGame.System.Orphans

/-! A cleanup round: a server runs one iteration of `CleanupLoop`, and the owners handle the renewals it
    sends. Every replica it keeps is then backed by a primary and an unexpired registration at its
    owner, provided no replica was orphaned before. -/

namespace DistGame

variable {H : Int32 → UInt32 → Prop}

/-- The messages in flight are handled in some order, each at its receiver's clock reading. -/
def System.handleAll (clock : Int32 → Int64) : System → List ℕ → Option System
  | s, [] => some s
  | s, i :: order => s.network[i]?.bind fun packet =>
    (s.step (.deliver i (clock packet.dest))).bind fun s => s.handleAll clock order

/-- One iteration of `CleanupLoop` at server `k`, and the handling of its renewals. -/
def System.round (s : System) (k : Int32) (now : Int64) (clock : Int32 → Int64) (order : List ℕ) :
    Option System :=
  (s.step (.cleanup k now)).bind fun s => s.handleAll clock order

/-- Server `k` has an endpoint for the owner of each of its replicas. -/
def System.Connected (s : System) (k : Int32) : Prop :=
  ∀ c ∈ s.servers.lookup k, ∀ e ∈ c.replicas.entries, (c.peerEndpoints.lookup e.2.sid).isSome

/-- A registration at the clock reading of its server does not expire at once. -/
def System.Lasting (s : System) (clock : Int32 → Int64) : Prop :=
  ∀ e ∈ s.servers.entries, ¬ clock e.1 + e.2.interestTTLMs < clock e.1

instance (s : System) (k : Int32) : Decidable (s.Connected k) :=
  inferInstanceAs (Decidable (∀ c ∈ s.servers.lookup k, ∀ e ∈ c.replicas.entries, _ = true))

instance (s : System) (clock : Int32 → Int64) : Decidable (s.Lasting clock) :=
  inferInstanceAs (Decidable (∀ e ∈ s.servers.entries, ¬ clock e.1 + e.2.interestTTLMs < clock e.1))

/-- The primary of `g` is at server `owner`, with a registration of `k` that is unexpired at `t`. -/
def Backed (s : System) (owner k : Int32) (g : UInt32) (t : Int64) : Prop :=
  ∃ c, s.servers.lookup owner = some c ∧ (c.primaries.lookup g).isSome ∧
    ∃ i ∈ c.primaryInterest.index g [], i.sid = k ∧ ¬ i.ttl < t

/-- A renewal from server `k`. -/
def Packet.IsRenewal (k : Int32) (p : Packet) : Prop :=
  ∃ dest guids, p = .register dest dest ⟨guids, k, true⟩

/-- A renewal of `g` from server `k` to `owner` is in flight. -/
def Renewing (s : System) (owner k : Int32) (g : UInt32) : Prop :=
  ∃ guids, Packet.register owner owner ⟨guids, k, true⟩ ∈ s.network ∧ g ∈ guids

/-- Handling a renewal only adds registrations at its receiver. -/
theorem step_renewal {s s' : System} {i : ℕ} {t : Int64} {dest k : Int32} {guids : List UInt32}
    (hi : s.network[i]? = some (.register dest dest ⟨guids, k, true⟩))
    (h : s.step (.deliver i t) = some s') :
    ∃ c, s.servers.lookup dest = some c ∧
      s' = { servers := s.servers.insert dest (c.registerInterest ⟨guids, k, true⟩ t).1
             network := s.network.eraseIdx i } := by
  rw [System.step, hi, Option.bind_some] at h
  obtain ⟨c, c', packets, hc, hreact, rfl⟩ := System.ask_eq_some h
  cases hreact
  refine ⟨c, hc, ?_⟩
  rw [if_pos rfl, List.append_nil]
  rfl

/-- Handling the renewals keeps all primaries and replicas. -/
structure Same (s s' : System) : Prop where
  back : ∀ {k c'}, s'.servers.lookup k = some c' → ∃ c, s.servers.lookup k = some c ∧
    c'.primaries = c.primaries ∧ c'.replicas = c.replicas
  forth : ∀ {k c}, s.servers.lookup k = some c → ∃ c', s'.servers.lookup k = some c' ∧
    c'.primaries = c.primaries ∧ c'.interestTTLMs = c.interestTTLMs ∧
    ∀ g, ∀ i ∈ c.primaryInterest.index g [], i ∈ c'.primaryInterest.index g []

theorem Same.refl (s : System) : Same s s :=
  ⟨fun hc => ⟨_, hc, rfl, rfl⟩, fun hc => ⟨_, hc, rfl, rfl, fun _ _ => id⟩⟩

theorem Same.trans {s₁ s₂ s₃ : System} (h : Same s₁ s₂) (h' : Same s₂ s₃) : Same s₁ s₃ := by
  refine ⟨fun hc => ?_, fun hc => ?_⟩
  · obtain ⟨c₂, hc₂, hp, hr⟩ := h'.back hc
    obtain ⟨c₁, hc₁, hp', hr'⟩ := h.back hc₂
    exact ⟨c₁, hc₁, hp.trans hp', hr.trans hr'⟩
  · obtain ⟨c₂, hc₂, hp, ht, hm⟩ := h.forth hc
    obtain ⟨c₃, hc₃, hp', ht', hm'⟩ := h'.forth hc₂
    exact ⟨c₃, hc₃, hp'.trans hp, ht'.trans ht, fun g i hi => hm' g i (hm g i hi)⟩

theorem same_renewal {s s' : System} {i : ℕ} {t : Int64} {dest k : Int32} {guids : List UInt32}
    (hi : s.network[i]? = some (.register dest dest ⟨guids, k, true⟩))
    (h : s.step (.deliver i t) = some s') : Same s s' := by
  obtain ⟨c, hc, rfl⟩ := step_renewal hi h
  have hframe := Colyseus.registerInterest_frame c ⟨guids, k, true⟩ t
  refine ⟨fun {j c'} hc' => ?_, fun {j d} hd => ?_⟩
  · dsimp only at hc'
    rw [GoMap.lookup_insert_ite] at hc'
    split at hc'
    · rename_i hj
      cases hc'
      exact ⟨c, hj ▸ hc, by rw [hframe], by rw [hframe]⟩
    · exact ⟨c', hc', rfl, rfl⟩
  · dsimp only
    by_cases hj : j = dest
    · subst hj
      obtain rfl := Option.some.inj (hc.symm.trans hd)
      refine ⟨_, AList.lookup_insert _, by rw [hframe], by rw [hframe], fun g m hm => ?_⟩
      rw [Colyseus.registerInterest_index]
      exact List.mem_append_left _ hm
    · exact ⟨d, (AList.lookup_insert_ne hj).trans hd, rfl, rfl, fun _ _ => id⟩

/-- The owner that handles a renewal of its primary has an unexpired registration. -/
theorem backed_renewal {s s' : System} {i : ℕ} {t : Int64} {dest k : Int32} {guids : List UInt32}
    {c : Colyseus} {g : UInt32} (hi : s.network[i]? = some (.register dest dest ⟨guids, k, true⟩))
    (h : s.step (.deliver i t) = some s') (hc : s.servers.lookup dest = some c)
    (hg : (c.primaries.lookup g).isSome) (hmem : g ∈ guids) (httl : ¬ t + c.interestTTLMs < t) :
    Backed s' dest k g t := by
  obtain ⟨d, hd, rfl⟩ := step_renewal hi h
  obtain rfl := Option.some.inj (hc.symm.trans hd)
  refine ⟨_, AList.lookup_insert _, ?_, ⟨k, t + c.interestTTLMs⟩, ?_, rfl, httl⟩
  · rw [Colyseus.registerInterest_frame]
    exact hg
  · rw [Colyseus.registerInterest_index, if_pos hg]
    refine List.mem_append_right _ (List.mem_replicate.mpr ⟨?_, rfl⟩)
    exact (List.count_pos_iff.mpr hmem).ne'

theorem Backed.same {s s' : System} {owner k : Int32} {g : UInt32} {t : Int64}
    (h : Backed s owner k g t) (hsame : Same s s') : Backed s' owner k g t := by
  obtain ⟨c, hc, hg, i, hi, hsid, httl⟩ := h
  obtain ⟨c', hc', hp, -, hm⟩ := hsame.forth hc
  exact ⟨c', hc', by rw [hp]; exact hg, i, hm g i hi, hsid, httl⟩

/-- When all renewals of server `k` have been handled, what was in them is registered. -/
theorem handleAll_backed {clock : Int32 → Int64} {k : Int32} : ∀ {order : List ℕ} {s v : System},
    (∀ p ∈ s.network, p.IsRenewal k) → s.handleAll clock order = some v → v.network = [] →
    Same s v ∧ ∀ owner g c, s.servers.lookup owner = some c → (c.primaries.lookup g).isSome →
      ¬ clock owner + c.interestTTLMs < clock owner →
      Backed s owner k g (clock owner) ∨ Renewing s owner k g → Backed v owner k g (clock owner) := by
  intro order
  induction order with
  | nil =>
    intro s v _ h hempty
    cases h
    refine ⟨Same.refl s, fun owner g c _ _ _ hor => ?_⟩
    rcases hor with hbacked | ⟨guids, hmem, -⟩
    · exact hbacked
    · rw [hempty] at hmem
      exact absurd hmem List.not_mem_nil
  | cons i order ih =>
    intro s v hren h hempty
    obtain ⟨packet, hi, h⟩ := Option.bind_eq_some_iff.mp h
    obtain ⟨s₁, hs₁, hrun⟩ := Option.bind_eq_some_iff.mp h
    obtain ⟨dest, guids, rfl⟩ := hren packet (List.mem_of_getElem? hi)
    have hnet : s₁.network = s.network.eraseIdx i := by
      obtain ⟨d, -, rfl⟩ := step_renewal hi hs₁
      rfl
    have hren₁ : ∀ p ∈ s₁.network, p.IsRenewal k := fun p hp =>
      hren p (List.mem_of_mem_eraseIdx (hnet ▸ hp))
    have hsame := same_renewal hi hs₁
    obtain ⟨hrest, hall⟩ := ih hren₁ hrun hempty
    refine ⟨hsame.trans hrest, fun owner g c hc hg httl hor => ?_⟩
    obtain ⟨c₁, hc₁, hp, ht, -⟩ := hsame.forth hc
    refine hall owner g c₁ hc₁ (by rw [hp]; exact hg) (by rw [ht]; exact httl) ?_
    rcases hor with hbacked | ⟨guids', hmem, hgmem⟩
    · exact .inl (hbacked.same hsame)
    · rcases mem_eraseIdx_or hi hmem with heq | hmem
      · cases heq
        exact .inl (backed_renewal hi hs₁ hc hg hgmem httl)
      · exact .inr ⟨guids', hnet ▸ hmem, hgmem⟩

/-- The locked part of the iteration, with nothing in flight before: the replicas of interest are kept,
    and a renewal for each of them is on its way to the server it names. -/
theorem step_cleanup {s s' : System} {k : Int32} {now : Int64} {c : Colyseus} (hf : Filed s)
    (hown : Owned H s) (hquiet : s.network = []) (hc : s.servers.lookup k = some c)
    (hpeers : s.Connected k) (h : s.step (.cleanup k now) = some s') :
    (∃ c', s'.servers.lookup k = some c' ∧ c'.primaries = c.primaries ∧
      ∀ g r, c'.replicas.lookup g = some r ↔ c.Keeps now g r) ∧
    (∀ j, j ≠ k → s'.servers.lookup j = s.servers.lookup j) ∧
    (∀ p ∈ s'.network, p.IsRenewal k) ∧
    ∀ g r, c.Keeps now g r → Renewing s' r.sid k g := by
  have hsid := hf.sid k c hc
  have hpeer := (hown.servers k c hc).peers
  obtain ⟨hframe, hkept, hnoted, -⟩ := Colyseus.cleanup_spec (hf.replicas k c hc) now
  have hsid' : (c.cleanup now).1.sid = k := by rw [hframe]; exact hsid
  have hends : (c.cleanup now).1.peerEndpoints = c.peerEndpoints := by rw [hframe]
  have hprim : (c.cleanup now).1.primaries = c.primaries := by rw [hframe]
  have hs' : s' = { servers := s.servers.insert k (c.cleanup now).1
                    network := registers ((c.cleanup now).1.renewals (c.cleanup now).2) } := by
    have hask : s.ask k (.cleanup now) = some s' := h
    rw [System.ask, hc, hquiet] at hask
    exact (Option.some.inj hask).symm
  subst hs'
  refine ⟨⟨_, AList.lookup_insert _, hprim, hkept⟩, fun j hj => AList.lookup_insert_ne hj, ?_, ?_⟩
  · intro p hp
    obtain ⟨call, hcall, rfl⟩ := List.mem_map.mp hp
    obtain ⟨guids, -, hlookup, hrequest⟩ := Colyseus.mem_renewals.mp hcall
    rw [hends] at hlookup
    have hp := hpeer call.sid call.peer hlookup
    exact ⟨call.sid, guids, by rw [hp, hrequest, hsid']⟩
  · intro g r hkeep
    have hmem := (hnoted r.sid g).mpr ⟨r, hkeep, rfl⟩
    obtain ⟨peer, hlookup⟩ := Option.isSome_iff_exists.mp
      (hpeers c hc ⟨g, r⟩ ((GoMap.mem_entries_iff _ _ _).mpr hkeep.1))
    have hp := hpeer r.sid peer hlookup
    rw [GoMap.index] at hmem
    cases hguids : (c.cleanup now).2.lookup r.sid with
    | none =>
      rw [hguids] at hmem
      exact absurd hmem List.not_mem_nil
    | some guids =>
      rw [hguids] at hmem
      refine ⟨guids, List.mem_map.mpr ⟨⟨r.sid, peer, ⟨guids, k, true⟩⟩, ?_, by rw [hp]⟩, hmem⟩
      refine Colyseus.mem_renewals.mpr ⟨guids, hguids, ?_, by rw [hsid']⟩
      rw [hends, hlookup]

/-- With nothing in flight and registrations that do not expire at once: a round leaves only backed
    replicas if and only if every replica of interest has its primary at the server it names. -/
theorem round_backed_iff {s v : System} {k : Int32} {now : Int64} {clock : Int32 → Int64}
    {order : List ℕ} {c : Colyseus} (hf : Filed s) (hown : Owned H s) (hquiet : s.network = [])
    (hc : s.servers.lookup k = some c) (hpeers : s.Connected k) (httl : s.Lasting clock)
    (h : s.round k now clock order = some v) (hempty : v.network = []) :
    (∀ d g r, v.servers.lookup k = some d → d.replicas.lookup g = some r →
      Backed v r.sid k g (clock r.sid)) ↔
    ∀ g r, c.Keeps now g r → s.Owns r.sid g := by
  obtain ⟨s₁, hs₁, hall⟩ := Option.bind_eq_some_iff.mp h
  obtain ⟨⟨c₁, hc₁, hprim, hkept⟩, hothers, hren, hrenewing⟩ :=
    step_cleanup hf hown hquiet hc hpeers hs₁
  obtain ⟨hsame, hbacked⟩ := handleAll_backed hren hall hempty
  have hne : ∀ {g r}, c.Keeps now g r → r.sid ≠ k := fun {g r} hkeep =>
    hf.sid k c hc ▸ ((hown.servers k c hc).replicas g r hkeep.1).1
  constructor
  · intro hall g r hkeep
    obtain ⟨d, hd, hp, hr⟩ : ∃ d, v.servers.lookup k = some d ∧ d.primaries = c₁.primaries ∧
        d.replicas = c₁.replicas := by
      obtain ⟨d, hd, -⟩ := hsame.forth hc₁
      obtain ⟨d', hd', hp, hr⟩ := hsame.back hd
      obtain rfl := Option.some.inj (hc₁.symm.trans hd')
      exact ⟨d, hd, hp, hr⟩
    obtain ⟨e, he, hg, -⟩ := hall d g r hd (by rw [hr]; exact (hkept g r).mpr hkeep)
    obtain ⟨e', he', hp, -⟩ := hsame.back he
    exact ⟨e', (hothers _ (hne hkeep)) ▸ he', by rw [← hp]; exact hg⟩
  · intro howned d g r hd hr
    obtain ⟨d', hd', -, hrep⟩ := hsame.back hd
    obtain rfl := Option.some.inj (hc₁.symm.trans hd')
    rw [hrep] at hr
    have hkeep := (hkept g r).mp hr
    obtain ⟨e, he, hg⟩ := howned g r hkeep
    have he' : s₁.servers.lookup r.sid = some e := (hothers _ (hne hkeep)).trans he
    have hlasts := httl ⟨r.sid, e⟩ ((GoMap.mem_entries_iff _ _ _).mpr he)
    exact hbacked r.sid g e he' hg hlasts (.inr (hrenewing g r hkeep))

/-- In every run in which each death is announced to all who hold the object and its deletions are
    handled after everything that describes it: with nothing in flight and every owner connected, a
    cleanup round leaves only backed replicas. -/
theorem round_leaves_backed {s u v : System} {actions : List Action} {k : Int32} {now : Int64}
    {clock : Int32 → Int64} {order : List ℕ} (h : s.Initial)
    (hrun : run System.step s actions = some u) (hdraws : u.NoRepeat)
    (hann : Meets System.step System.Announced s actions)
    (hlast : Meets System.step System.DeletesLast s actions) (hquiet : u.network = [])
    (hpeers : u.Connected k) (httl : u.Lasting clock)
    (hround : u.round k now clock order = some v) (hempty : v.network = []) :
    ∀ d g r, v.servers.lookup k = some d → d.replicas.lookup g = some r →
      Backed v r.sid k g (clock r.sid) := by
  have hf := initial_filed h
  have hfu := (filed_run hf hrun).1
  obtain ⟨H, hown, hback⟩ := backing_run hf (initial_owned h) (initial_backing h) hrun hdraws
    (meets_and hann hlast)
  obtain ⟨s₁, hs₁, -⟩ := Option.bind_eq_some_iff.mp hround
  obtain ⟨c, -, -, hc, -⟩ := System.ask_eq_some hs₁
  refine (round_backed_iff hfu hown hquiet hc hpeers httl hround hempty).mpr ?_
  intro g r hkeep
  exact quiet_replica_owned hfu hown hback hdraws hquiet hc hkeep.1

/-! ### A death that is not announced, and one that is -/

/-- Server 1 has two players and server 2 one; server 2 is notified of the others and fetches them. -/
def gather : List Action :=
  [.connect 1 2, .connect 2 1, .spawn 1 ⟨some ⟨0, 10, 10, 2, 2, player⟩⟩ 0,
    .spawn 1 ⟨some ⟨0, 14, 10, 2, 2, player⟩⟩ 0, .spawn 2 ⟨some ⟨0, 12, 12, 2, 2, player⟩⟩ 0,
    .notify 2 [⟨100, 1⟩, ⟨101, 1⟩], .deliver 0 1000, .deliver 0 1010]

/-- The registration of server 2 expires at 3000; at 4000 a player of server 1 dies. Nothing is in
    flight and the owner is connected, but after the round server 2 still has the replica. -/
theorem orphan_survives_round : twoServers.Initial ∧
    ∃ u, run System.step twoServers (gather ++ [.event 1 101 die 4000]) = some u ∧ u.network = [] ∧
      u.Connected 2 ∧ ∃ v, u.round 2 4500 (fun _ => 4510) [0] = some v ∧ v.network = [] ∧
        v.Replicates 2 101 ∧ ¬ v.Owns 1 101 := by
  obtain ⟨u, hrun, hquiet, hpeers, hround⟩ := exists_of_map_decide
    (o := run System.step twoServers (gather ++ [.event 1 101 die 4000]))
    (P := fun u => u.network = [] ∧
      u.Connected 2 ∧ ((u.round 2 4500 (fun _ => 4510) [0]).map fun v =>
        decide (v.network = [] ∧ v.Replicates 2 101 ∧ ¬ v.Owns 1 101)) = some true)
    (by decide +kernel)
  exact ⟨initial_twoServers, u, hrun, hquiet, hpeers, exists_of_map_decide hround⟩

/-- The player dies while server 2 is registered; the deletion is handled, and after the round the
    other replica is backed. -/
theorem round_leaves_backed_gather : ∃ u v d r,
    run System.step twoServers (gather ++ [.event 1 101 die 1500, .deliver 0 1510]) = some u ∧
      u.round 2 1600 (fun _ => 1610) [0] = some v ∧ v.servers.lookup 2 = some d ∧
      d.replicas.lookup 100 = some r ∧ Backed v r.sid 2 100 1610 := by
  obtain ⟨u, hrun, hdraws, hquiet, hpeers, httl, hround⟩ := exists_of_map_decide
    (o := run System.step twoServers (gather ++ [.event 1 101 die 1500, .deliver 0 1510]))
    (P := fun u => u.NoRepeat ∧ u.network = [] ∧
      u.Connected 2 ∧ u.Lasting (fun _ => 1610) ∧ ((u.round 2 1600 (fun _ => 1610) [0]).map fun v =>
        decide (v.network = [] ∧ v.Replicates 2 100)) = some true)
    (by decide +kernel)
  obtain ⟨v, hv, hempty, d, hd, hr⟩ := exists_of_map_decide hround
  obtain ⟨r, hr⟩ := Option.isSome_iff_exists.mp hr
  refine ⟨u, v, d, r, hrun, hv, hd, hr, ?_⟩
  exact round_leaves_backed initial_twoServers hrun hdraws (by decide +kernel) (by decide +kernel)
    hquiet hpeers httl hv hempty d 100 r hd hr

end DistGame
