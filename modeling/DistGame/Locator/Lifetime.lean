import DistGame.Locator.Steps

/-! How long an entry lives. An entry that no later expiry for its guid supersedes stays in its node,
    live, for as long as it has not expired (`mem_run`). With no further `Insert` for its guid this
    is exactly until `t₀ + ttl`, also when that sum wraps around in 64 bits: the stored expiry is then
    negative, the entry never expires, and no clock reading lies past the mathematical sum. -/

namespace DistGame
open QTree Quadtree

/-- The clock does not go back from `t₀` through the operations to `t`. -/
def Clocked : Int64 → List Op → Int64 → Prop
  | t₀, [], t => t₀ ≤ t
  | t₀, op :: ops, t => t₀ ≤ op.now ∧ Clocked op.now ops t

instance decidableClocked : ∀ (t₀ : Int64) (ops : List Op) (t : Int64), Decidable (Clocked t₀ ops t)
  | t₀, [], t => inferInstanceAs (Decidable (t₀ ≤ t))
  | t₀, op :: ops, t =>
    have := decidableClocked op.now ops t
    inferInstanceAs (Decidable (t₀ ≤ op.now ∧ Clocked op.now ops t))

theorem Clocked.le : ∀ {t₀ : Int64} {ops : List Op} {t : Int64}, Clocked t₀ ops t → t₀ ≤ t
  | _, [], _, h => h
  | _, _ :: _, _, ⟨h, hs⟩ => Int64.le_trans h hs.le

/-- What has not expired at the end of a clocked run has not expired at any of its readings. -/
theorem Clocked.expired_eq_false {e : Storable} :
    ∀ {t₀ : Int64} {ops : List Op} {t : Int64}, 0 ≤ t₀ → Clocked t₀ ops t → expired t e = false →
      ∀ op ∈ ops, expired op.now e = false
  | _, [], _, _, _, _ => by simp
  | t₀, op :: ops, t, h0, ⟨h, hs⟩, hexp => by
    have hnow : 0 ≤ op.now := Int64.le_trans h0 h
    have hhead : expired op.now e = false := by
      by_contra hbad
      have := expired_mono hnow hs.le (by simpa using hbad)
      rw [hexp] at this; simp at this
    intro op' hop'
    rcases List.mem_cons.mp hop' with rfl | hop'
    · exact hhead
    · exact hs.expired_eq_false hnow hexp op' hop'

/-- The operation records no later positive expiry for the guid of `e`. -/
def Spares (b : Rectangle) (e : Storable) : Op → Prop
  | .insert now trigger => trigger.guid = e.guid → b.intersects trigger.rect = true →
      0 < now + trigger.ttl → now + trigger.ttl ≤ e.ttl
  | _ => True

/-- The operation spares `e` if `e` is stored and live. -/
def SparesLive (b : Rectangle) (e : Storable) (l : Locator) (op : Op) : Prop :=
  e ∈ entries l.root → stale op.now l.lastUpdates e = false → Spares b e op

/-- An `Insert` for another guid spares the entry. -/
theorem spares_of_ne {b : Rectangle} {e : Storable} {op : Op}
    (h : ∀ now trigger, op = .insert now trigger → trigger.guid ≠ e.guid) : Spares b e op := by
  cases op with
  | insert now trigger => exact fun hg => absurd hg (h now trigger rfl)
  | query now q => trivial
  | cleanup now => trivial

section
variable {c : ℤ} {b : Rectangle} {l l' : Locator} {e : Storable}

/-- A live entry is still in its node after the step. -/
theorem mem_step (hc : 1 ≤ c) {op : Op} (hwf : WF c b l.root) (h : l.step op = some l')
    (hlive : stale op.now l.lastUpdates e = false) {p : Path} (he : e ∈ storeAt l.root p) :
    e ∈ storeAt l'.root p := by
  have hnot : ¬ stale op.now l.lastUpdates e = true := by simp [hlive]
  rcases (step_cases hc hwf h).2 with ⟨trigger, -, hacc, -⟩ | ⟨-, hpr, -⟩
  · obtain ⟨p₀, hp₀⟩ := hacc.placed
    obtain ⟨kept, hdrop, heq⟩ := hp₀ p
    rw [heq]
    exact List.mem_append_left _ (hdrop.mem_of_not_dead he hnot)
  · exact (hpr p).mem_of_not_dead he hnot

/-- A step that spares an entry does not make it superseded. -/
theorem superseded_step (hc : 1 ≤ c) {op : Op} (hwf : WF c b l.root) (h : l.step op = some l')
    (hsp : Spares b e op) (hsup : superseded l.lastUpdates e = false) :
    superseded l'.lastUpdates e = false := by
  rcases (step_cases hc hwf h).2 with ⟨trigger, hop, hacc, hlu⟩ | ⟨hlu, -, -⟩
  · rw [hlu, superseded_recorded]
    split
    · rw [hop] at hsp
      have hle := hsp (Eq.symm ‹_›) hacc.meets
      simp only [Bool.and_eq_false_iff, decide_eq_false_iff_not]
      grind
    · exact hsup
  · rw [hlu]; exact hsup

/-- Along a run that spares it and at none of whose readings it has expired, an entry stays in its
    node and is not superseded. -/
theorem mem_run (hc : 1 ≤ c) {p : Path} :
    ∀ {ops : List Op} {l : Locator}, WF c b l.root → (∀ op ∈ ops, expired op.now e = false) →
      Meets Locator.step (SparesLive b e) l ops → run Locator.step l ops = some l' →
      e ∈ storeAt l.root p → superseded l.lastUpdates e = false →
      e ∈ storeAt l'.root p ∧ superseded l'.lastUpdates e = false
  | [], _, _, _, _, hrun, he, hsup => by cases hrun; exact ⟨he, hsup⟩
  | op :: ops, l, hwf, hexp, hsp, hrun, he, hsup => by
    obtain ⟨l₁, hstep, hrun⟩ := run_cons_eq_some.mp hrun
    have hlive := stale_eq_false.mpr ⟨hexp op List.mem_cons_self, hsup⟩
    have hspare := hsp.1 ((mem_entries_iff _ _).mpr ⟨p, he⟩) hlive
    have hexp' : ∀ op ∈ ops, expired op.now e = false := fun op hop =>
      hexp op (List.mem_cons_of_mem _ hop)
    exact mem_run hc (step_cases hc hwf hstep).1 hexp' (hsp.2 l₁ hstep) hrun
      (mem_step hc hwf hstep hlive he) (superseded_step hc hwf hstep hspare hsup)

/-- Along a run without an `Insert` for its guid, an entry that expires at none of its readings
    keeps its number of copies in every node. -/
theorem count_run (hc : 1 ≤ c) {p : Path} :
    ∀ {ops : List Op} {l : Locator}, WF c b l.root → (∀ op ∈ ops, expired op.now e = false) →
      (∀ now trigger, Op.insert now trigger ∈ ops → trigger.guid ≠ e.guid) →
      run Locator.step l ops = some l' → superseded l.lastUpdates e = false →
      (storeAt l'.root p).count e = (storeAt l.root p).count e
  | [], _, _, _, _, hrun, _ => by cases hrun; rfl
  | op :: ops, l, hwf, hexp, hne, hrun, hsup => by
    obtain ⟨l₁, hstep, hrun⟩ := run_cons_eq_some.mp hrun
    have hlive := stale_eq_false.mpr ⟨hexp op List.mem_cons_self, hsup⟩
    have hsp : Spares b e op := spares_of_ne fun now trigger h => hne now trigger (by simp [h])
    have hcopy : ∀ now trigger, op = .insert now trigger → trigger.stored now ≠ e := by
      rintro now trigger rfl rfl
      exact hne now trigger List.mem_cons_self rfl
    have hexp' : ∀ op ∈ ops, expired op.now e = false := fun op hop =>
      hexp op (List.mem_cons_of_mem _ hop)
    have hne' : ∀ now trigger, Op.insert now trigger ∈ ops → trigger.guid ≠ e.guid :=
      fun now trigger hm => hne now trigger (List.mem_cons_of_mem _ hm)
    rw [count_run hc (step_cases hc hwf hstep).1 hexp' hne' hrun
      (superseded_step hc hwf hstep hsp hsup), count_step hc hwf hstep hlive hcopy p]

end

/-- The stored expiry has not passed exactly while the clock is within the mathematical `t₀ + ttl`. -/
theorem expired_stored_iff {t₀ t : Int64} {trigger : Storable} (h0 : 0 < t₀) (hd : 0 ≤ trigger.ttl)
    (ht : t₀ ≤ t) :
    expired t (trigger.stored t₀) = false ↔ t.toInt ≤ t₀.toInt + trigger.ttl.toInt := by
  have hpos : 0 ≤ t := Int64.le_trans (Int64.le_of_lt h0) ht
  rw [← Bool.not_eq_true, expired_iff hpos, Storable.stored]
  have h₁ := t₀.toInt_lt
  have h₂ := trigger.ttl.toInt_lt
  have h₃ := t.toInt_lt
  simp only [Int64.lt_iff_toInt_lt, Int64.le_iff_toInt_le, Int64.toInt_add, Int64.toInt_zero] at *
  rw [Int.bmod_def]
  omega

/-- An accepted `Insert` stores its entry, which no later expiry supersedes at that moment. -/
theorem insert_stored {c : ℤ} {b : Rectangle} (hc : 1 ≤ c) {l l₁ : Locator} {now : Int64}
    {trigger : Storable} (hwf : WF c b l.root) (h : l.insert now trigger = some (l₁, true)) :
    WF c b l₁.root ∧ superseded l₁.lastUpdates (trigger.stored now) = false ∧
      ∃ p, Placed (fun e => stale now l.lastUpdates e = true) (trigger.stored now) p l.root l₁.root ∧
        trigger.stored now ∈ storeAt l₁.root p := by
  rcases locator_insert_spec hc hwf now trigger with ⟨t', hrun, -⟩ | ⟨t', hrun, hacc⟩ <;>
    rw [h] at hrun <;> cases hrun
  obtain ⟨p, hp⟩ := hacc.placed
  refine ⟨hacc.wf, ?_, p, hp, ?_⟩
  · rw [superseded_recorded, if_pos (show (trigger.stored now).guid = trigger.guid from rfl)]
    simp only [Bool.and_eq_false_iff, decide_eq_false_iff_not]
    exact .inr Int64.lt_irrefl
  · obtain ⟨kept, -, heq⟩ := hp p
    rw [heq, if_pos rfl]
    exact List.mem_append_right _ (List.mem_singleton.mpr rfl)

/-- An accepted entry is stored and live exactly until `t₀ + ttl`, and meanwhile it stays in the one
    node where it was put, whatever happens to other guids. -/
theorem entry_lives_until_ttl {c : ℤ} {b : Rectangle} (hc : 1 ≤ c) {ops₀ ops : List Op}
    {l₀ l₁ l : Locator} {t₀ t : Int64} {trigger : Storable}
    (hrun₀ : run Locator.step (Locator.start b c) ops₀ = some l₀)
    (ht₀ : 0 < t₀) (hd : 0 ≤ trigger.ttl) (hins : l₀.insert t₀ trigger = some (l₁, true))
    (hclk : Clocked t₀ ops t)
    (hother : ∀ now trigger', Op.insert now trigger' ∈ ops → trigger'.guid ≠ trigger.guid)
    (hrun : run Locator.step l₁ ops = some l) :
    ((trigger.stored t₀ ∈ entries l.root ∧ stale t l.lastUpdates (trigger.stored t₀) = false) ↔
      t.toInt ≤ t₀.toInt + trigger.ttl.toInt) ∧
    ∃ p, Placed (fun e => stale t₀ l₀.lastUpdates e = true) (trigger.stored t₀) p l₀.root l₁.root ∧
      (t.toInt ≤ t₀.toInt + trigger.ttl.toInt → ∀ p',
        (storeAt l.root p').count (trigger.stored t₀) =
          (storeAt l₁.root p').count (trigger.stored t₀)) ∧
      (t.toInt ≤ t₀.toInt + trigger.ttl.toInt → trigger.stored t₀ ∉ entries l₀.root → ∀ p',
        (storeAt l.root p').count (trigger.stored t₀) = if p' = p then 1 else 0) := by
  obtain ⟨hwf, hsup, p, hp, hin⟩ := insert_stored hc (run_wf hc hrun₀) hins
  rw [← expired_stored_iff ht₀ hd hclk.le]
  set e := trigger.stored t₀
  have hexps : expired t e = false → ∀ op ∈ ops, expired op.now e = false :=
    hclk.expired_eq_false (Int64.le_of_lt ht₀)
  have hcount : expired t e = false → ∀ p', (storeAt l.root p').count e =
      (storeAt l₁.root p').count e := fun hexp p' =>
    count_run hc hwf (hexps hexp) hother hrun hsup
  have hspare : Meets Locator.step (SparesLive b e) l₁ ops :=
    meets_of_forall ops _ fun op hop _ _ _ =>
      spares_of_ne fun now trigger' h => hother now trigger' (h ▸ hop)
  have hlive : expired t e = false → e ∈ storeAt l.root p ∧ superseded l.lastUpdates e = false :=
    fun hexp => mem_run hc hwf (hexps hexp) hspare hrun hin hsup
  refine ⟨⟨fun h => (stale_eq_false.mp h.2).1, fun hexp => ⟨?_, ?_⟩⟩, p, hp, hcount,
    fun hexp hnew p' => ?_⟩
  · exact (mem_entries_iff _ _).mpr ⟨p, (hlive hexp).1⟩
  · exact stale_eq_false.mpr ⟨hexp, (hlive hexp).2⟩
  · obtain ⟨kept, hdrop, heq⟩ := hp p'
    have hzero : kept.count e = 0 := List.count_eq_zero.mpr fun hm =>
      hnew ((mem_entries_iff _ _).mpr ⟨p', hdrop.sublist.subset hm⟩)
    rw [hcount hexp p', heq, List.count_append, hzero, Nat.zero_add]
    split
    · exact List.count_singleton_self
    · rfl

/-- An entry put in a child of a full root is live until its own expiry, past a `Cleanup` and an
    `Insert` for another guid. -/
theorem entry_lives_until_ttl_below_root :
    ∃ l₀ l₁ l, run Locator.step (Locator.start ⟨0, 0, 100, 100⟩ 1)
        [.insert 1 ⟨⟨60, 60, 1, 1⟩, 1, 1, 5, false⟩] = some l₀ ∧
      l₀.insert 2 ⟨⟨10, 10, 1, 1⟩, 1, 2, 50, false⟩ = some (l₁, true) ∧
      run Locator.step l₁ [.cleanup 20, .insert 30 ⟨⟨70, 10, 1, 1⟩, 2, 3, 5, true⟩] = some l ∧
      Storable.stored ⟨⟨10, 10, 1, 1⟩, 1, 2, 50, false⟩ 2 ∈ entries l.root ∧
      stale 52 l.lastUpdates (Storable.stored ⟨⟨10, 10, 1, 1⟩, 1, 2, 50, false⟩ 2) = false := by
  obtain ⟨⟨l₀, l₁, ok⟩, heval, hok⟩ := exists_of_map_decide
    (o := (run Locator.step (Locator.start ⟨0, 0, 100, 100⟩ 1)
      [.insert 1 ⟨⟨60, 60, 1, 1⟩, 1, 1, 5, false⟩]).bind fun l₀ =>
        (l₀.insert 2 ⟨⟨10, 10, 1, 1⟩, 1, 2, 50, false⟩).map fun r => (l₀, r))
    (P := fun x => x.2.2 = true) (by decide +kernel)
  obtain ⟨l₀', hrun₀, hins⟩ := Option.bind_eq_some_iff.mp heval
  obtain ⟨r, hins, hr⟩ := Option.map_eq_some_iff.mp hins
  cases hr
  subst hok
  have hwf := (insert_stored (by decide) (run_wf (by decide) hrun₀) hins).1
  obtain ⟨l, hrun⟩ := run_total (by decide) hwf
    [.cleanup 20, .insert 30 ⟨⟨70, 10, 1, 1⟩, 2, 3, 5, true⟩]
  obtain ⟨hiff, -⟩ := entry_lives_until_ttl (c := 1) (t := 52) (by decide) hrun₀ (by decide)
    (by decide) hins (by decide) (by simp) hrun
  exact ⟨l₀, l₁, l, hrun₀, hins, hrun, hiff.mpr (by decide)⟩

end DistGame
