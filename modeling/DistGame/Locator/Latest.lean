import DistGame.Locator.Contents
import DistGame.Locator.Lifetime
import DistGame.Locator.Search

/-! Which version of an object a `Query` returns. Earlier entries of a guid and kind are not removed
    by an `Insert`; they are hidden by the strict comparison with `lastUpdates`, which is overwritten
    by every insertion of either kind. The latest entry wins in every run in which each `Insert`
    records an expiry that hides all the outdated entries of its guid. -/

namespace DistGame
open QTree Quadtree

/-- The last accepted entry of a guid and kind. -/
def latest (log : List Storable) (guid : UInt32) (isSubscription : Bool) : Option Storable :=
  log.find? fun e => e.guid == guid && e.isSubscription == isSubscription

/-- The expiry time lies in the past. -/
def Passed (now : Int64) (e : Storable) : Prop := 0 < e.ttl ∧ e.ttl < now

/-- The live entries of a guid and kind, in the whole tree. -/
def versions (now : Int64) (l : Locator) (guid : UInt32) (isSubscription : Bool) : List Storable :=
  (entries l.root).filter fun e =>
    e.guid == guid && e.isSubscription == isSubscription && !stale now l.lastUpdates e

/-- An `Insert` records a positive expiry, later than that of every stored entry of its guid whose
    time has not passed and which it outdates or finds outdated: those of its own kind, and those of
    the other kind that are not the last of their kind. -/
def Hides (b : Rectangle) : Locator × List Storable → Op → Prop
  | (l, log), .insert now trigger => b.intersects trigger.rect = true →
      ∀ e ∈ entries l.root, e.guid = trigger.guid → ¬ Passed now e →
        (e.isSubscription = trigger.isSubscription ∨
          latest log e.guid e.isSubscription ≠ some e) →
        0 < now + trigger.ttl ∧ e.ttl < now + trigger.ttl
  | _, _ => True

/-- Every entry that a query could still see is the last of its guid and kind, and the last one is
    stored at most once. -/
structure LatestOnly (now : Int64) (s : Locator × List Storable) : Prop where
  latest_of_seen : ∀ e ∈ entries s.1.root, ¬ Passed now e → superseded s.1.lastUpdates e = false →
    latest s.2 e.guid e.isSubscription = some e
  single : ∀ e, ¬ Passed now e → latest s.2 e.guid e.isSubscription = some e →
    (entries s.1.root).count e ≤ 1

theorem latest_cons (e : Storable) (log : List Storable) (guid : UInt32) (isSubscription : Bool) :
    latest (e :: log) guid isSubscription =
      if e.guid = guid ∧ e.isSubscription = isSubscription then some e
      else latest log guid isSubscription := by
  rw [latest, List.find?_cons]
  by_cases h : e.guid = guid ∧ e.isSubscription = isSubscription
  · rw [if_pos h, h.1, h.2]; simp
  · rw [if_neg h]
    have : (e.guid == guid && e.isSubscription == isSubscription) = false := by
      simpa using h
    rw [this]
    rfl

theorem Passed.mono {t t' : Int64} {e : Storable} (h : t ≤ t') (he : Passed t e) : Passed t' e :=
  ⟨he.1, Int64.lt_of_lt_of_le he.2 h⟩

theorem expired_of_passed {now : Int64} {e : Storable} (h : Passed now e) : expired now e = true := by
  obtain ⟨hpos, hlt⟩ := h
  exact (expired_iff (by grind) e).mpr ⟨hpos, hlt⟩

section
variable {c : ℤ} {b : Rectangle}

theorem latestOnly_start (b : Rectangle) (c : ℤ) (now : Int64) :
    LatestOnly now (Locator.start b c, []) where
  latest_of_seen e he := by
    obtain ⟨p, hp⟩ := (mem_entries_iff _ e).mp he
    simp [Locator.start] at hp
  single e _ h := by simp [latest] at h

/-- A step that drops entries keeps the invariant. -/
theorem latestOnly_drops {t₀ now : Int64} (hle : t₀ ≤ now) {l l' : Locator} {log : List Storable}
    {dead : Storable → Prop} (hs : LatestOnly t₀ (l, log))
    (hdrop : Drops dead (entries l.root) (entries l'.root)) (hlu : l'.lastUpdates = l.lastUpdates) :
    LatestOnly now (l', log) where
  latest_of_seen e he hnow hsup := by
    rw [hlu] at hsup
    exact hs.latest_of_seen e (hdrop.sublist.subset he) (fun h => hnow (h.mono hle)) hsup
  single e hnow hlast :=
    (hdrop.sublist.count_le e).trans (hs.single e (fun h => hnow (h.mono hle)) hlast)

/-- An accepted `Insert` that hides the outdated entries keeps the invariant. -/
theorem latestOnly_insert {t₀ now : Int64} (hle : t₀ ≤ now) {l l' : Locator}
    {log kept : List Storable} {trigger : Storable} {dead : Storable → Prop}
    (hs : LatestOnly t₀ (l, log)) (hmeet : b.intersects trigger.rect = true)
    (hhide : Hides b (l, log) (.insert now trigger))
    (hdrop : Drops dead (entries l.root) kept)
    (hperm : (entries l'.root).Perm (trigger.stored now :: kept))
    (hlu : l'.lastUpdates = recorded l.lastUpdates now trigger) :
    LatestOnly now (l', trigger.stored now :: log) := by
  have hold : ∀ e ∈ kept, e ∈ entries l.root := fun e he => hdrop.sublist.subset he
  -- a kept entry of the new one's guid and kind would have to expire before itself
  have hfresh : ∀ e ∈ kept, e.guid = trigger.guid → e.isSubscription = trigger.isSubscription →
      ¬ Passed now e → e.ttl < now + trigger.ttl := fun e he hg hk hnow =>
    (hhide hmeet e (hold e he) hg hnow (.inl hk)).2
  refine ⟨fun e he hnow hsup => ?_, fun e hnow hlast => ?_⟩
  · have hlast₀ := fun h => hs.latest_of_seen e h fun hp => hnow (hp.mono hle)
    simp only [hlu, superseded_recorded] at hsup
    rcases List.mem_cons.mp (hperm.mem_iff.mp he) with rfl | hk
    · rw [latest_cons, if_pos ⟨rfl, rfl⟩]
    · rw [latest_cons]
      by_cases hg : e.guid = trigger.guid
      · rw [if_pos hg] at hsup
        have hnot : ¬ (0 < now + trigger.ttl ∧ e.ttl < now + trigger.ttl) := by simpa using hsup
        have hout := fun h => hnot (hhide hmeet e (hold e hk) hg hnow h)
        obtain ⟨hkind, hlast⟩ := not_or.mp hout
        rw [if_neg fun h => hkind h.2.symm]
        exact not_not.mp hlast
      · rw [if_neg hg] at hsup
        rw [if_neg fun h => hg h.1.symm]
        exact hlast₀ (hold e hk) hsup
  · rw [hperm.count_eq, List.count_cons]
    rw [latest_cons] at hlast
    by_cases hnew : trigger.stored now = e
    · have hzero : kept.count e = 0 := by
        refine List.count_eq_zero.mpr fun hm => ?_
        have hlt := hfresh e hm (by rw [← hnew, stored_guid]) (by rw [← hnew, stored_isSubscription])
          hnow
        rw [← hnew, stored_ttl] at hlt
        exact Int64.lt_irrefl hlt
      rw [hzero, if_pos (by simpa using hnew)]
    · rw [if_neg (by simpa using hnew)]
      split at hlast
      · exact absurd (Option.some.inj hlast) hnew
      · exact (hdrop.sublist.count_le e).trans (hs.single e (fun h => hnow (h.mono hle)) hlast)

/-- Along a run whose insertions hide the outdated entries, the invariant holds. -/
theorem latestOnly_run (hc : 1 ≤ c) :
    ∀ {ops : List Op} {s s' : Locator × List Storable} {t₀ t : Int64}, WF c b s.1.root →
      LatestOnly t₀ s → Clocked t₀ ops t → Meets Locator.logged (Hides b) s ops →
      run Locator.logged s ops = some s' → WF c b s'.1.root ∧ LatestOnly t s'
  | [], s, _, _, t, hwf, hs, hclk, _, hrun => by
    cases hrun
    exact ⟨hwf, latestOnly_drops hclk hs (Drops.refl (fun _ => False) _) rfl⟩
  | op :: ops, (l, log), s', t₀, t, hwf, hs, ⟨hle, hclk⟩, hhide, hrun => by
    obtain ⟨⟨l₁, log₁⟩, hstep, hrun⟩ := run_cons_eq_some.mp hrun
    obtain ⟨hwf₁, hcase⟩ := logged_cases hc hwf hstep
    have hs₁ : LatestOnly op.now (l₁, log₁) := by
      rcases hcase with ⟨trigger, kept, hop, hmeet, hdrop, hperm, hlu, rfl⟩ | ⟨hdrop, hlu, rfl⟩
      · have hhide₁ := hhide.1
        rw [hop] at hhide₁
        exact latestOnly_insert hle hs hmeet hhide₁ hdrop hperm hlu
      · exact latestOnly_drops hle hs hdrop hlu
    exact latestOnly_run hc hwf₁ hs₁ hclk (hhide.2 _ hstep) hrun

/-- What is live is the last of its guid and kind. -/
theorem latest_of_live {t : Int64} {l : Locator} {log : List Storable} (hs : LatestOnly t (l, log))
    {e : Storable} (he : e ∈ entries l.root) (hlive : stale t l.lastUpdates e = false) :
    ¬ Passed t e ∧ latest log e.guid e.isSubscription = some e := by
  obtain ⟨hexp, hsup⟩ := stale_eq_false.mp hlive
  have hnow : ¬ Passed t e := fun h => by
    rw [expired_of_passed h] at hexp; simp at hexp
  exact ⟨hnow, hs.latest_of_seen e he hnow hsup⟩

/-- One live entry at most for each guid and kind. -/
theorem versions_length_le {t : Int64} {l : Locator} {log : List Storable}
    (hs : LatestOnly t (l, log)) (guid : UInt32) (isSubscription : Bool) :
    (versions t l guid isSubscription).length ≤ 1 := by
  have hmem : ∀ e ∈ versions t l guid isSubscription,
      ¬ Passed t e ∧ latest log guid isSubscription = some e := by
    intro e he
    simp only [versions, List.mem_filter, Bool.and_eq_true, beq_iff_eq, Bool.not_eq_true'] at he
    obtain ⟨hin, ⟨rfl, rfl⟩, hlive⟩ := he
    exact latest_of_live hs hin hlive
  cases hv : versions t l guid isSubscription with
  | nil => exact Nat.zero_le 1
  | cons v rest =>
    rw [← hv]
    obtain ⟨hnow, hlast⟩ := hmem v (by rw [hv]; exact List.mem_cons_self)
    have hsame : ∀ e ∈ versions t l guid isSubscription, e = v := fun e he =>
      Option.some.inj ((hmem e he).2.symm.trans hlast)
    have hkey : latest log v.guid v.isSubscription = some v := by
      have hin : v ∈ versions t l guid isSubscription := by rw [hv]; exact List.mem_cons_self
      simp only [versions, List.mem_filter, Bool.and_eq_true, beq_iff_eq] at hin
      rw [hin.2.1.1, hin.2.1.2]
      exact hlast
    calc (versions t l guid isSubscription).length
        = (versions t l guid isSubscription).count v :=
          (List.count_eq_length.mpr fun e he => (hsame e he).symm).symm
      _ ≤ (entries l.root).count v := List.filter_sublist.count_le v
      _ ≤ 1 := hs.single v hnow hkey

/-- In every state reached by a run whose insertions hide the outdated entries, a `Query` returns
    only the last accepted entry of a guid and kind, and at most one entry of each is live in the
    whole tree. -/
theorem latest_entry_wins (hc : 1 ≤ c) {ops : List Op} {l : Locator} {log : List Storable}
    {t₀ t : Int64} (hclk : Clocked t₀ ops t)
    (hhide : Meets Locator.logged (Hides b) (Locator.start b c, []) ops)
    (hrun : run Locator.logged (Locator.start b c, []) ops = some (l, log)) :
    (∀ q l' found, l.query t q [] = some (l', found) →
      ∀ e ∈ found, latest log e.guid e.isSubscription = some e) ∧
    ∀ guid isSubscription, (versions t l guid isSubscription).length ≤ 1 := by
  obtain ⟨hwf, hs⟩ := latestOnly_run hc (start_wf hc b) (latestOnly_start b c t₀) hclk hhide hrun
  refine ⟨fun q l' found hq e he => ?_, versions_length_le hs⟩
  obtain ⟨t', hq', -, -⟩ := locator_query_spec hwf t q
  rw [hq' []] at hq
  cases hq
  have hans := (reported_sublist t q l.lastUpdates l.root).subset he
  simp only [answersIn, List.mem_filter, Bool.and_eq_true, Bool.not_eq_true'] at hans
  exact (latest_of_live hs hans.1 hans.2.1).2

end

/-! ### Two versions in one millisecond -/

/-- A publication of server 1, first at x = 10 and then at x = 12. -/
def before : Storable := ⟨⟨10, 10, 2, 2⟩, 1, 7, 500, false⟩

def after : Storable := ⟨⟨12, 10, 2, 2⟩, 1, 7, 500, false⟩

/-- A subscription of server 2 that meets both. -/
def observer : Storable := ⟨⟨5, 5, 20, 20⟩, 2, 9, 500, true⟩

/-- Both versions arrive in millisecond 1000, so neither expiry is later than the other: the later
    `Query` returns the earlier version too, and two versions are live. -/
theorem query_returns_earlier_entry :
    ∃ s, run Locator.logged (Locator.start ⟨0, 0, 100, 100⟩ 4, [])
        [.insert 1000 before, .insert 1000 after] = some s ∧
      (s.1.query 1001 observer []).map Prod.snd = some [before.stored 1000, after.stored 1000] ∧
      latest s.2 7 false = some (after.stored 1000) ∧
      (versions 1001 s.1 7 false).length = 2 :=
  exists_of_map_decide (by decide +kernel)

/-- One millisecond later the second version hides the first. -/
theorem latest_entry_wins_next_millisecond :
    ∃ l log, run Locator.logged (Locator.start ⟨0, 0, 100, 100⟩ 4, [])
        [.insert 1000 before, .insert 1001 after] = some (l, log) ∧
      ∀ guid isSubscription, (versions 1001 l guid isSubscription).length ≤ 1 := by
  obtain ⟨⟨l₁, log₁⟩, hstep, httl⟩ := exists_of_map_decide
    (o := Locator.logged (Locator.start ⟨0, 0, 100, 100⟩ 4, []) (.insert 1000 before))
    (P := fun s => ∀ e ∈ entries s.1.root, e.ttl = 1500) (by decide +kernel)
  obtain ⟨⟨l, log⟩, hstep', -⟩ := exists_of_map_decide (P := fun _ => True)
    (o := (Locator.logged (Locator.start ⟨0, 0, 100, 100⟩ 4, []) (.insert 1000 before)).bind fun s =>
      Locator.logged s (.insert 1001 after)) (by decide +kernel)
  rw [hstep, Option.bind_some] at hstep'
  have hrun : run Locator.logged (Locator.start ⟨0, 0, 100, 100⟩ 4, [])
      [.insert 1000 before, .insert 1001 after] = some (l, log) := by
    rw [run, hstep, Option.bind_some, run, hstep', Option.bind_some, run]
  have hhide : Meets Locator.logged (Hides ⟨0, 0, 100, 100⟩)
      (Locator.start ⟨0, 0, 100, 100⟩ 4, []) [.insert 1000 before, .insert 1001 after] := by
    refine ⟨fun _ e he => ?_, fun s' hs' => ⟨fun _ e he _ _ _ => ?_, fun _ _ => trivial⟩⟩
    · obtain ⟨p, hp⟩ := (mem_entries_iff _ e).mp he
      simp [Locator.start] at hp
    · rw [hstep] at hs'
      cases hs'
      rw [httl e he]
      decide
  have hclk : Clocked 1000 [.insert 1000 before, .insert 1001 after] 1001 := by decide
  exact ⟨l, log, hrun, (latest_entry_wins (by decide) hclk hhide hrun).2⟩

end DistGame
