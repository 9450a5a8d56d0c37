import DistGame.Game.Speed
import DistGame.Lib.Board
import DistGame.Locator.Pruning
import DistGame.Locator.Search

/-! What the locator is for, without the tree: a board of publications and subscriptions, on which a
    new entry takes down the entries of its guid that expire before it, of either kind. The quadtree,
    which prunes its stores when it happens to visit them, shows the same entries as the board; an
    `Insert` answers as the board does, and a `Query` reports nothing that does not answer it on the
    board and everything there that lies inside its rectangle. -/

namespace DistGame
open QTree Quadtree

/-- The new entry takes the other one down. -/
def Storable.outdates (new e : Storable) : Bool :=
  decide (e.guid = new.guid) && (decide (0 < new.ttl) && decide (e.ttl < new.ttl))

namespace Board

/-- One operation on the board of a world with the boundary `b`. -/
def step (b : Rectangle) (board : List Storable) : Op → List Storable
  | .insert now trigger =>
    if b.intersects trigger.rect then post Storable.outdates board (trigger.stored now) else board
  | _ => board

theorem step_insert (b : Rectangle) (board : List Storable) (now : Int64) {trigger : Storable}
    (h : b.intersects trigger.rect = true) :
    step b board (.insert now trigger) = post Storable.outdates board (trigger.stored now) := by
  rw [step, if_pos h]

/-- The board after some operations. -/
def after (b : Rectangle) (ops : List Op) : List Storable := ops.foldl (step b) []

/-- The entries on the board that have not expired. -/
def live (now : Int64) (board : List Storable) : List Storable :=
  board.filter fun e => !expired now e

end Board

/-- The tree shows what is on the board, from which the recorded expiries hide nothing. -/
structure Mirrors (c : ℤ) (b : Rectangle) (now : Int64) (l : Locator) (board : List Storable) :
    Prop where
  wf : WF c b l.root
  stored : ∀ e ∈ entries l.root, Timely now e
  posted : ∀ e ∈ board, Timely now e ∧ superseded l.lastUpdates e = false
  shows : Agree (stale now l.lastUpdates) (entries l.root) board

section
variable {c : ℤ} {b : Rectangle} {t now : Int64} {l l' : Locator} {board : List Storable}

theorem entries_start (b : Rectangle) (c : ℤ) : entries (Locator.start b c).root = [] := by
  refine List.eq_nil_iff_forall_not_mem.mpr fun e he => ?_
  obtain ⟨p, hp⟩ := (mem_entries_iff _ e).mp he
  simp [Locator.start] at hp

theorem mirrors_start (hc : 1 ≤ c) (b : Rectangle) (now : Int64) :
    Mirrors c b now (Locator.start b c) [] where
  wf := start_wf hc b
  stored := by simp [entries_start]
  posted := by simp
  shows := by
    rw [entries_start]
    exact Agree.refl _ _

theorem Mirrors.later (h : Mirrors c b t l board) (hle : t ≤ now) : Mirrors c b now l board where
  wf := h.wf
  stored e he := (h.stored e he).mono hle
  posted e he := ⟨(h.posted e he).1.mono hle, (h.posted e he).2⟩
  shows := h.shows.later (fun e he => stale_later (h.stored e he) hle (Raised.refl _))
    fun e he => stale_later (h.posted e he).1 hle (Raised.refl _)

/-- A step that only drops stale entries. -/
theorem Mirrors.drops (h : Mirrors c b now l board) (hwf : WF c b l'.root)
    (hdrop : Drops (fun e => stale now l.lastUpdates e = true) (entries l.root) (entries l'.root))
    (hlu : l'.lastUpdates = l.lastUpdates) : Mirrors c b now l' board where
  wf := hwf
  stored e he := h.stored e (hdrop.sublist.subset he)
  posted := by
    rw [hlu]
    exact h.posted
  shows := by
    rw [hlu]
    exact h.shows.drops hdrop

/-- An accepted `Insert` whose expiry does not go back is a post. -/
theorem Mirrors.insert (h : Mirrors c b now l board) {trigger : Storable} {kept : List Storable}
    (hd : 0 < trigger.ttl) (hrise : 0 < l.lastUpdates.index trigger.guid 0 →
      l.lastUpdates.index trigger.guid 0 ≤ now + trigger.ttl) (hwf : WF c b l'.root)
    (hdrop : Drops (fun e => stale now l.lastUpdates e = true) (entries l.root) kept)
    (hperm : (entries l'.root).Perm (trigger.stored now :: kept))
    (hlu : l'.lastUpdates = recorded l.lastUpdates now trigger) :
    Mirrors c b now l' (post Storable.outdates board (trigger.stored now)) := by
  have hraised : Raised l.lastUpdates l'.lastUpdates := by
    rw [hlu]
    exact raised_recorded hrise
  have hkept : ∀ e ∈ kept, Timely now e := fun e he => h.stored e (hdrop.sublist.subset he)
  have hsup : ∀ e : Storable, superseded l'.lastUpdates e =
      if e.guid = trigger.guid then
        decide (0 < now + trigger.ttl) && decide (e.ttl < now + trigger.ttl)
      else superseded l.lastUpdates e := by
    intro e
    rw [hlu, superseded_recorded]
  refine ⟨hwf, fun e he => ?_, fun e he => ?_, ?_⟩
  · rcases List.mem_cons.mp (hperm.subset he) with rfl | he
    · exact timely_stored now hd
    · exact hkept e he
  · rw [hsup]
    rcases mem_post.mp he with rfl | ⟨he, hout⟩
    · refine ⟨timely_stored now hd, ?_⟩
      rw [if_pos (stored_guid _ _), stored_ttl]
      simp
    · obtain ⟨htimely, hold⟩ := h.posted e he
      refine ⟨htimely, ?_⟩
      split
      · rename_i hg
        rw [Storable.outdates, stored_guid, stored_ttl, decide_eq_true hg, Bool.true_and] at hout
        exact hout
      · exact hold
  · have hnow : Agree (stale now l'.lastUpdates) kept board :=
      (h.shows.drops hdrop).later (fun e he => stale_later (hkept e he) (Int64.le_refl _) hraised)
        fun e he => stale_later (h.posted e he).1 (Int64.le_refl _) hraised
    refine hnow.post hperm fun e he hout => ?_
    rw [Storable.outdates, stored_guid, stored_ttl, Bool.and_eq_true] at hout
    rw [stale_eq, hsup, if_pos (of_decide_eq_true hout.1), hout.2, Bool.or_true]

/-- One operation, at the tree and on the board. -/
theorem mirrors_step (hc : 1 ≤ c) (h : Mirrors c b t l board) {op : Op} (hle : t ≤ op.now)
    (hd : ∀ now trigger, op = .insert now trigger → 0 < trigger.ttl ∧ trigger.rect.Nonneg)
    (hrise : ∀ e ∈ op.expiry, 0 < l.lastUpdates.index e.1 0 → l.lastUpdates.index e.1 0 ≤ e.2)
    (hstep : l.step op = some l') :
    Mirrors c b op.now l' (Board.step b board op) ∧
      ∀ guid, l'.lastUpdates.index guid 0 = l.lastUpdates.index guid 0 ∨
        op.expiry = some (guid, l'.lastUpdates.index guid 0) := by
  have hnow := h.later hle
  obtain ⟨hwf, hcase⟩ := step_cases hc h.wf hstep
  rcases hcase with ⟨trigger, hop, hyes, hlu⟩ | ⟨hlu, hpr, hmiss⟩
  · have hexpiry : op.expiry = some (trigger.guid, op.now + trigger.ttl) := by
      rw [hop]
      rfl
    have hboard : Board.step b board op =
        post Storable.outdates board (trigger.stored op.now) :=
      (congrArg (Board.step b board) hop).trans (Board.step_insert b board op.now hyes.meets)
    obtain ⟨p, hp⟩ := hyes.placed
    obtain ⟨kept, hdrop, hperm⟩ := hp.entries
    have hrecord := hrise (trigger.guid, op.now + trigger.ttl) hexpiry
    rw [hboard]
    refine ⟨hnow.insert (hd _ _ hop).1 hrecord hwf hdrop hperm hlu, fun guid => ?_⟩
    rw [hlu, recorded, GoMap.index_insert]
    split
    · subst guid
      exact .inr hexpiry
    · exact .inl rfl
  · have hboard : Board.step b board op = board := by
      cases op with
      | insert now trigger =>
        rw [Board.step, hmiss now trigger rfl (hd now trigger rfl).2]
        rfl
      | query now q => rfl
      | cleanup now => rfl
    rw [hboard]
    exact ⟨hnow.drops hwf hpr.entries hlu, fun guid => .inl (by rw [hlu])⟩

/-- The tree mirrors the board along every run in which expiries do not go back. -/
theorem mirrors_run (hc : 1 ≤ c) {ops : List Op} (h : Mirrors c b t l board)
    (hclk : Clocked t ops now) (hrise : Rising ops) (hahead : Ahead l.lastUpdates ops)
    (hrect : ∀ now trigger, .insert now trigger ∈ ops → trigger.rect.Nonneg)
    (hrun : run Locator.step l ops = some l') :
    Mirrors c b now l' (ops.foldl (Board.step b) board) := by
  induction ops generalizing l board t with
  | nil =>
    cases hrun
    exact h.later hclk
  | cons op ops ih =>
    obtain ⟨l₁, hstep, hrun⟩ := run_cons_eq_some.mp hrun
    obtain ⟨hpos, hexp⟩ := hrise
    obtain ⟨h₁, hlu⟩ := mirrors_step hc h hclk.1
      (fun now trigger hop => by
        have hmem : Op.insert now trigger ∈ op :: ops := by rw [hop]; exact List.mem_cons_self
        exact ⟨hpos now trigger hmem, hrect now trigger hmem⟩)
      (fun e he => hahead e (List.mem_filterMap.mpr ⟨op, List.mem_cons_self, he⟩)) hstep
    have hahead₁ : Ahead l₁.lastUpdates ops := by
      intro e he hlast
      obtain ⟨op', hop', heq⟩ := List.mem_filterMap.mp he
      rcases hlu e.1 with hsame | hnew
      · rw [hsame] at hlast ⊢
        exact hahead e (List.mem_filterMap.mpr ⟨op', List.mem_cons_of_mem _ hop', heq⟩) hlast
      · rw [List.filterMap_cons_some hnew] at hexp
        exact List.rel_of_pairwise_cons hexp he rfl
    have hexp₁ : (ops.filterMap Op.expiry).Pairwise fun e e' => e.1 = e'.1 → e.2 ≤ e'.2 :=
      hexp.sublist ((List.sublist_cons_self _ _).filterMap _)
    exact ih h₁ hclk.2 ⟨fun now trigger hop => hpos now trigger (List.mem_cons_of_mem _ hop), hexp₁⟩
      hahead₁ (fun now trigger hop => hrect now trigger (List.mem_cons_of_mem _ hop)) hrun

/-! ### What the tree answers -/

/-- The tree shows the entries of the board that have not expired. -/
theorem Mirrors.perm (h : Mirrors c b now l board) :
    ((entries l.root).filter fun e => !stale now l.lastUpdates e).Perm (Board.live now board) := by
  refine h.shows.trans ?_
  rw [Board.live, List.filter_congr fun e he => ?_]
  rw [stale_eq, (h.posted e he).2, Bool.or_false]

/-- A live answer inside the query's rectangle is reported, wherever in the tree it is. -/
theorem inside_reported (hb : b.Nonneg) (hwf : WF c b l.root) (q : Storable) :
    (((entries l.root).filter fun e => !stale now l.lastUpdates e).filter fun e =>
        answers q e && decide (q.rect.Contains e.rect)).Sublist
      (reported now q l.lastUpdates l.root) := by
  have hnode : ∀ n ∈ l.root.toList, n.boundary.intersects q.rect = false →
      ((prune now l.lastUpdates n.store).filter fun e =>
        answers q e && decide (q.rect.Contains e.rect)) = [] := by
    intro n hn hmiss
    refine List.filter_eq_nil_iff.mpr fun e he hin => ?_
    obtain ⟨p, hp⟩ := (mem_toList_iff l.root).mp hn
    have hstore : e ∈ storeAt l.root p := by
      rw [storeAt, hp]
      exact (mem_prune.mp he).1
    obtain ⟨n', hn', hmeet⟩ := (along_of_mem hb hwf hstore).2 p List.prefix_rfl
    obtain rfl : n = n' := Option.some.inj (hp.symm.trans hn')
    have hcontains : q.rect.Contains e.rect := by
      simp only [Bool.and_eq_true, decide_eq_true_eq] at hin
      exact hin.2
    rw [hcontains.intersects hmeet] at hmiss
    cases hmiss
  have hlive : ((entries l.root).filter fun e => !stale now l.lastUpdates e) =
      l.root.toList.flatMap fun n => prune now l.lastUpdates n.store := by
    simp only [entries, List.filter_flatMap, prune_eq]
  rw [hlive, List.filter_flatMap, reported, search_eq_filter (hereditary_intersects q.rect hb hwf).1,
    ← (flatMap_filter_eq_iff (fun n => n.boundary.intersects q.rect) _ _).mpr hnode]
  refine List.Sublist.flatMap_right _ fun n _ => List.monotone_filter_right _ fun e he => ?_
  exact (Bool.and_eq_true _ _ ▸ he).1

/-- In every run of the locator with a clock and expiries that do not go back, the quadtree holds the
    entries of the board that have not expired, each as often as the board does; the next `Insert` is
    accepted exactly if it would be posted; and the next `Query` reports, of the live answers on the
    board, none twice, none that is not there, and all those inside its rectangle. -/
theorem locator_refines_board (hb : b.Nonneg) (hc : 1 ≤ c) {ops : List Op} {t₀ : Int64}
    (hclk : Clocked t₀ ops t) (hrise : Rising ops)
    (hrect : ∀ now trigger, .insert now trigger ∈ ops → trigger.rect.Nonneg)
    (hrun : run Locator.step (Locator.start b c) ops = some l) :
    ((entries l.root).filter fun e => !stale t l.lastUpdates e).Perm
      (Board.live t (Board.after b ops)) ∧
    (∀ trigger : Storable, trigger.rect.Nonneg →
      ∃ l', l.insert t trigger = some (l', b.intersects trigger.rect)) ∧
    ∀ q : Storable, ∃ l' found, l.query t q [] = some (l', found) ∧
      found.Subperm ((Board.live t (Board.after b ops)).filter (answers q)) ∧
      ((Board.live t (Board.after b ops)).filter fun e =>
        answers q e && decide (q.rect.Contains e.rect)).Subperm found := by
  have hahead : Ahead (Locator.start b c).lastUpdates ops := by
    intro e _ hpos
    exact absurd hpos (by simp [Locator.start, GoMap.index])
  have h := mirrors_run hc (mirrors_start hc b t₀) hclk hrise hahead hrect hrun
  have hperm := h.perm
  refine ⟨hperm, fun trigger hnonneg => ?_, fun q => ?_⟩
  · rcases locator_insert_spec hc h.wf t trigger with ⟨t', hins, hno⟩ | ⟨t', hins, hyes⟩
    · exact ⟨_, by rw [hins, hno.misses hnonneg]⟩
    · exact ⟨_, by rw [hins, hyes.meets]⟩
  · obtain ⟨t', hquery, -, -⟩ := locator_query_spec h.wf t q
    refine ⟨_, _, hquery [], ?_, ?_⟩
    · have hfound : (reported t q l.lastUpdates l.root).Sublist
          (((entries l.root).filter fun e => !stale t l.lastUpdates e).filter (answers q)) := by
        rw [List.filter_filter]
        simp only [Bool.and_comm (answers q _)]
        exact reported_sublist t q l.lastUpdates l.root
      exact hfound.subperm.trans (hperm.filter _).subperm
    · exact (hperm.filter _).symm.subperm.trans (inside_reported hb h.wf q).subperm

end

/-- A subscription around the entry that reaches over the middle line. -/
def aroundMiddle : Storable := ⟨⟨40, 5, 20, 15⟩, 2, 9, 1000, true⟩

/-- It finds that entry, which is stored below the root. -/
theorem locator_refines_board_fiveInserts :
    ∃ l l' found, run Locator.step (Locator.start world 4) fiveInserts = some l ∧
      l.query 2 aroundMiddle [] = some (l', found) ∧
      (publication 5 ⟨45, 10, 10, 5⟩).stored 1 ∈ found := by
  obtain ⟨l, hrun⟩ := run_total (c := 4) (by decide) (start_wf (by decide) world) fiveInserts
  have hrise : Rising fiveInserts := by
    refine ⟨fun now trigger h => ?_, by decide⟩
    simp only [fiveInserts, List.map_cons, List.map_nil, List.cons_append, List.nil_append,
      List.mem_cons, Op.insert.injEq, List.not_mem_nil, or_false] at h
    rcases h with ⟨-, rfl⟩ | ⟨-, rfl⟩ | ⟨-, rfl⟩ | ⟨-, rfl⟩ | ⟨-, rfl⟩ <;> decide
  have hrect : ∀ now trigger, .insert now trigger ∈ fiveInserts → trigger.rect.Nonneg := by
    intro now trigger h
    simp only [fiveInserts, List.map_cons, List.map_nil, List.cons_append, List.nil_append,
      List.mem_cons, Op.insert.injEq, List.not_mem_nil, or_false] at h
    rcases h with ⟨-, rfl⟩ | ⟨-, rfl⟩ | ⟨-, rfl⟩ | ⟨-, rfl⟩ | ⟨-, rfl⟩ <;> decide +kernel
  have hclk : Clocked 0 fiveInserts 2 := by decide
  obtain ⟨-, -, hquery⟩ :=
    locator_refines_board (by decide +kernel) (by decide) hclk hrise hrect hrun
  obtain ⟨l', found, hfound, -, hall⟩ := hquery aroundMiddle
  refine ⟨l, l', found, hrun, hfound, hall.subset ?_⟩
  decide +kernel

end DistGame
