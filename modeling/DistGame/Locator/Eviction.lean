import DistGame.Locator.Lifetime

/-! Publications and subscriptions of one object share the single `lastUpdates` slot of its guid. An
    `Insert` of one kind leaves the live entries of the other kind alone exactly when the expiry it
    records is not positive or not later than theirs; the requests of one publish round carry the
    same TTL, so the one handled in a later millisecond evicts what the other has just stored. -/

namespace DistGame
open QTree Quadtree

/-- The live entries of the other kind that share the guid of `trigger`. -/
def Opposite (now : Int64) (trigger : Storable) (l : Locator) (e : Storable) : Prop :=
  e ∈ entries l.root ∧ e.guid = trigger.guid ∧ e.isSubscription ≠ trigger.isSubscription ∧
    stale now l.lastUpdates e = false

/-- An `Insert` records no later positive expiry than those of the live entries of the other kind. -/
def SparesOpposite (b : Rectangle) (l : Locator) : Op → Prop
  | .insert now trigger => ∀ e, Opposite now trigger l e → Spares b e (.insert now trigger)
  | _ => True

/-- The operation is no `Insert` of the guid and kind of `e`. -/
def NotRenewed (e : Storable) (op : Op) : Prop :=
  ∀ now trigger, op = .insert now trigger → trigger.guid = e.guid →
    trigger.isSubscription ≠ e.isSubscription

section
variable {c : ℤ} {b : Rectangle} {l l' : Locator} {now : Int64} {trigger : Storable}

/-- An `Insert` that records no later expiry keeps the live entries of the other kind. -/
theorem opposite_kept (hc : 1 ≤ c) (hwf : WF c b l.root) (h : l.step (.insert now trigger) = some l')
    (hsp : SparesOpposite b l (.insert now trigger)) {e : Storable} (he : Opposite now trigger l e) :
    e ∈ entries l'.root ∧ stale now l'.lastUpdates e = false := by
  have hspare := hsp e he
  obtain ⟨hmem, -, -, hlive⟩ := he
  obtain ⟨p, hp⟩ := (mem_entries_iff _ _).mp hmem
  obtain ⟨hexp, hsup⟩ := stale_eq_false.mp hlive
  exact ⟨(mem_entries_iff _ _).mpr ⟨p, mem_step hc hwf h hlive hp⟩,
    stale_eq_false.mpr ⟨hexp, superseded_step hc hwf h hspare hsup⟩⟩

/-- An `Insert` that keeps the live entries of the other kind has recorded no later expiry. -/
theorem spares_of_opposite_kept (hc : 1 ≤ c) (hwf : WF c b l.root) (hr : trigger.rect.Nonneg)
    (h : l.step (.insert now trigger) = some l')
    (hkept : ∀ e, Opposite now trigger l e →
      e ∈ entries l'.root ∧ stale now l'.lastUpdates e = false) :
    SparesOpposite b l (.insert now trigger) := by
  intro e he _ hmeet hpos
  rcases (step_cases hc hwf h).2 with ⟨trigger', hop, -, hlu⟩ | ⟨-, -, hmiss⟩
  · cases hop
    have hlive := (stale_eq_false.mp (hkept e he).2).2
    rw [hlu, superseded_recorded, if_pos he.2.1] at hlive
    simp only [Op.now, Bool.and_eq_false_iff] at hlive
    grind
  · rw [hmiss now trigger rfl hr] at hmeet; simp at hmeet

/-- For every reachable locator: an `Insert` keeps every live entry of the other kind of its guid
    exactly when it records no later positive expiry than theirs (a rectangle of negative size may
    also be refused and then records nothing); and along every run whose steps all do so, an
    accepted entry is stored and live until it expires or an entry of its own kind follows. -/
theorem opposite_kept_iff (hc : 1 ≤ c) {ops₀ : List Op} {l : Locator}
    (hrun₀ : run Locator.step (Locator.start b c) ops₀ = some l) :
    (∀ now trigger l', l.step (.insert now trigger) = some l' →
      (SparesOpposite b l (.insert now trigger) → ∀ e, Opposite now trigger l e →
        e ∈ entries l'.root ∧ stale now l'.lastUpdates e = false) ∧
      (trigger.rect.Nonneg → (∀ e, Opposite now trigger l e →
          e ∈ entries l'.root ∧ stale now l'.lastUpdates e = false) →
        SparesOpposite b l (.insert now trigger))) ∧
    ∀ t₀ trigger l₁ ops l₂ t, l.insert t₀ trigger = some (l₁, true) →
      Meets Locator.step (SparesOpposite b) l₁ ops → (∀ op ∈ ops, NotRenewed trigger op) →
      (∀ op ∈ ops, expired op.now (trigger.stored t₀) = false) →
      run Locator.step l₁ ops = some l₂ → expired t (trigger.stored t₀) = false →
      trigger.stored t₀ ∈ entries l₂.root ∧ stale t l₂.lastUpdates (trigger.stored t₀) = false := by
  have hwf := run_wf hc hrun₀
  refine ⟨fun now trigger l' h => ⟨fun hsp e he => opposite_kept hc hwf h hsp he,
    fun hr hkept => spares_of_opposite_kept hc hwf hr h hkept⟩, ?_⟩
  intro t₀ trigger l₁ ops l₂ t hins hsp hnew hexps hrun hexp
  obtain ⟨hwf₁, hsup, p, -, hin⟩ := insert_stored hc hwf hins
  have hspare : Meets Locator.step (SparesLive b (trigger.stored t₀)) l₁ ops :=
    meets_imp hsp fun op hop s hs hmem hlive => by
      cases op with
      | query now q => trivial
      | cleanup now => trivial
      | insert now trigger' =>
        by_cases hg : trigger'.guid = trigger.guid
        · exact hs _ ⟨hmem, hg.symm, (hnew _ hop now trigger' rfl hg).symm, hlive⟩
        · exact spares_of_ne fun _ _ h => by cases h; exact hg
  obtain ⟨hmem, hsup'⟩ := mem_run hc hwf₁ hexps hspare hrun hin hsup
  exact ⟨(mem_entries_iff _ _).mpr ⟨p, hmem⟩, stale_eq_false.mpr ⟨hexp, hsup'⟩⟩

end

/-! ### One publish round -/

/-- A publication and a subscription of one object, with the TTL of one publish round. -/
def ownPublication : Storable := ⟨⟨10, 10, 2, 2⟩, 1, 7, 500, false⟩

def ownSubscription : Storable := ⟨⟨6, 6, 10, 10⟩, 1, 7, 500, true⟩

/-- Publish handled at millisecond 1000, Subscribe at 1001: the publication, due to live until 1500,
    is stale at once. -/
theorem subscription_evicts_publication :
    ∃ l, run Locator.step (Locator.start ⟨0, 0, 100, 100⟩ 4)
        [.insert 1000 ownPublication, .insert 1001 ownSubscription] = some l ∧
      expired 1001 (ownPublication.stored 1000) = false ∧
      stale 1001 l.lastUpdates (ownPublication.stored 1000) = true :=
  exists_of_map_decide (by decide +kernel)

/-- In the same millisecond both survive: the equivalence and the run rule on that round. -/
theorem opposite_kept_iff_same_millisecond :
    ∃ l l₁ l₂, run Locator.step (Locator.start ⟨0, 0, 100, 100⟩ 4) [] = some l ∧
      l.insert 1000 ownPublication = some (l₁, true) ∧
      run Locator.step l₁ [.insert 1000 ownSubscription] = some l₂ ∧
      ownPublication.stored 1000 ∈ entries l₂.root ∧
      stale 1500 l₂.lastUpdates (ownPublication.stored 1000) = false := by
  obtain ⟨⟨l₁, ok⟩, hins, hok, httl⟩ := exists_of_map_decide
    (o := (Locator.start ⟨0, 0, 100, 100⟩ 4).insert 1000 ownPublication)
    (P := fun r => r.2 = true ∧ ∀ e ∈ entries r.1.root, e.ttl = 1500) (by decide +kernel)
  subst hok
  have hwf := (insert_stored (by decide) (start_wf (by decide) _) hins).1
  obtain ⟨l₂, hrun⟩ := run_total (by decide) hwf [.insert 1000 ownSubscription]
  have hsp : Meets Locator.step (SparesOpposite ⟨0, 0, 100, 100⟩) l₁
      [.insert 1000 ownSubscription] := by
    refine ⟨fun e he _ _ _ => ?_, fun _ _ => trivial⟩
    rw [httl e he.1]
    decide
  have hnew : ∀ op ∈ [Op.insert 1000 ownSubscription], NotRenewed ownPublication op := by
    rintro op hop now trigger rfl -
    cases List.mem_singleton.mp hop
    decide
  have hstart : run Locator.step (Locator.start ⟨0, 0, 100, 100⟩ 4) [] =
      some (Locator.start ⟨0, 0, 100, 100⟩ 4) := rfl
  obtain ⟨-, hlives⟩ := opposite_kept_iff (by decide) hstart
  have hexp : ∀ op ∈ [Op.insert 1000 ownSubscription],
      expired op.now (ownPublication.stored 1000) = false := by
    intro op hop
    rw [List.mem_singleton.mp hop]
    decide
  obtain ⟨hmem, hlive⟩ := hlives 1000 ownPublication l₁ _ l₂ 1500 hins hsp hnew hexp hrun (by decide)
  exact ⟨_, l₁, l₂, hstart, hins, hrun, hmem, hlive⟩

end DistGame
