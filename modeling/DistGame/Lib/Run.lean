import Mathlib.Data.List.Basic

/-! Runs of a partial step function `step : σ → α → Option σ`. A run over a list of actions ends in
    a state, or in `none` as soon as one step has no result. The rules here turn a fact about one
    step into a fact about every run, also when only the steps that meet a condition on the state
    they start from preserve it. -/

namespace DistGame
variable {σ α : Type*}

/-- The run of `step` from `s` over the actions `as`. -/
def run (step : σ → α → Option σ) : σ → List α → Option σ
  | s, [] => some s
  | s, a :: as => (step s a).bind fun s' => run step s' as

/-- Every step of the run from `s` over `as` meets the condition `C` on the state it starts from. -/
def Meets (step : σ → α → Option σ) (C : σ → α → Prop) : σ → List α → Prop
  | _, [] => True
  | s, a :: as => C s a ∧ ∀ s', step s a = some s' → Meets step C s' as

/-- Some step of the run from `s` over `as` meets the condition `C` on the state it starts from. -/
def Ever (step : σ → α → Option σ) (C : σ → α → Prop) : σ → List α → Prop
  | _, [] => False
  | s, a :: as => C s a ∨ ∃ s', step s a = some s' ∧ Ever step C s' as

/-- The actions of the run from `s` over `as` that meet the condition `C` on the state they start
    from. -/
def picked (step : σ → α → Option σ) (C : σ → α → Prop) [∀ s a, Decidable (C s a)] :
    σ → List α → List α
  | _, [] => []
  | s, a :: as =>
    match step s a with
    | none => []
    | some s' => if C s a then a :: picked step C s' as else picked step C s' as

/-- What the steps of the run from `s` over `as` put out, one after the other. -/
def gathered {β : Type*} (step : σ → α → Option σ) (out : σ → α → List β) : σ → List α → List β
  | _, [] => []
  | s, a :: as =>
    match step s a with
    | none => []
    | some s' => out s a ++ gathered step out s' as

variable {step : σ → α → Option σ}

instance decidableEver {C : σ → α → Prop} [∀ s a, Decidable (C s a)] :
    ∀ (s : σ) (as : List α), Decidable (Ever step C s as)
  | _, [] => isFalse id
  | s, a :: as =>
    have : Decidable (∃ s', step s a = some s' ∧ Ever step C s' as) :=
      match h : step s a with
      | none => isFalse fun ⟨_, h', _⟩ => by cases h'
      | some s₁ =>
        have := decidableEver (C := C) s₁ as
        decidable_of_iff (Ever step C s₁ as) (by simp)
    inferInstanceAs (Decidable (_ ∨ _))

instance decidableMeets {C : σ → α → Prop} [∀ s a, Decidable (C s a)] :
    ∀ (s : σ) (as : List α), Decidable (Meets step C s as)
  | _, [] => isTrue trivial
  | s, a :: as =>
    have : Decidable (∀ s', step s a = some s' → Meets step C s' as) :=
      match h : step s a with
      | none => isTrue fun _ h' => by cases h'
      | some s₁ =>
        have := decidableMeets (C := C) s₁ as
        decidable_of_iff (Meets step C s₁ as) (by simp)
    inferInstanceAs (Decidable (_ ∧ _))

theorem run_cons_eq_some {s : σ} {a : α} {as : List α} {u : σ} :
    run step s (a :: as) = some u ↔ ∃ s', step s a = some s' ∧ run step s' as = some u := by
  simp only [run, Option.bind_eq_some_iff]

theorem run_append (s : σ) (as bs : List α) :
    run step s (as ++ bs) = (run step s as).bind fun s' => run step s' bs := by
  induction as generalizing s with
  | nil => rfl
  | cons a as ih =>
    simp only [List.cons_append, run, Option.bind_assoc]
    exact congrArg _ (funext fun s' => ih s')

theorem run_append_eq_some {s : σ} {as bs : List α} {u : σ} :
    run step s (as ++ bs) = some u ↔ ∃ s', run step s as = some s' ∧ run step s' bs = some u := by
  rw [run_append, Option.bind_eq_some_iff]

/-- Invariant rule: what each step preserves under `C` holds after every run that meets `C`. -/
theorem run_invariant {P : σ → Prop} {C : σ → α → Prop}
    (hstep : ∀ s a s', P s → C s a → step s a = some s' → P s') :
    ∀ (as : List α) (s u : σ), P s → Meets step C s as → run step s as = some u → P u
  | [], s, u, hP, _, hrun => by cases hrun; exact hP
  | a :: as, s, u, hP, hC, hrun => by
    obtain ⟨s', hs', hrun⟩ := run_cons_eq_some.mp hrun
    exact run_invariant hstep as s' u (hstep s a s' hP hC.1 hs') (hC.2 s' hs') hrun

/-- What is good at the end of a run was good before, if along `F` each step takes it back. -/
theorem run_back {F G : σ → Prop}
    (hback : ∀ s a s', F s → step s a = some s' → F s' ∧ (G s' → G s)) :
    ∀ {as : List α} {s u : σ}, F s → run step s as = some u → G u → G s
  | [], _, _, _, hrun, hG => by cases hrun; exact hG
  | _ :: _, s, _, hF, hrun, hG => by
    obtain ⟨s', hs', hrun⟩ := run_cons_eq_some.mp hrun
    obtain ⟨hF', hGs⟩ := hback s _ s' hF hs'
    exact hGs (run_back hback hF' hrun hG)

/-- Invariant rule for a run with a good end: what each step to a good state preserves under `C` holds
    after every run that meets `C`. -/
theorem run_invariant_good {F G P : σ → Prop} {C : σ → α → Prop}
    (hback : ∀ s a s', F s → step s a = some s' → F s' ∧ (G s' → G s))
    (hstep : ∀ s a s', F s → P s → G s' → C s a → step s a = some s' → P s') :
    ∀ {as : List α} {s u : σ}, F s → P s → Meets step C s as → run step s as = some u → G u → P u
  | [], _, _, _, hP, _, hrun, _ => by cases hrun; exact hP
  | a :: _, s, _, hF, hP, hC, hrun, hG => by
    obtain ⟨s', hs', hrun⟩ := run_cons_eq_some.mp hrun
    have hF' := (hback s a s' hF hs').1
    have hP' := hstep s a s' hF hP (run_back hback hF' hrun hG) hC.1 hs'
    exact run_invariant_good hback hstep hF' hP' (hC.2 s' hs') hrun hG

/-- Relation rule for a run with a good end: what relates a state to itself over no actions, and is
    carried back over each step to a good state, relates the start of a run to its end. -/
theorem run_relates_good {F G P : σ → Prop} {C : σ → α → Prop} {T : σ → List α → σ → Prop}
    (hback : ∀ s a s', F s → step s a = some s' → F s' ∧ (G s' → G s))
    (hstep : ∀ s a s', F s → P s → G s' → C s a → step s a = some s' → P s')
    (hnil : ∀ s, T s [] s)
    (hcons : ∀ s a s' as u, P s → G s' → C s a → step s a = some s' → T s' as u → T s (a :: as) u) :
    ∀ {as : List α} {s u : σ}, F s → P s → Meets step C s as → run step s as = some u → G u → T s as u
  | [], _, _, _, _, _, hrun, _ => by
    cases hrun
    exact hnil _
  | a :: _, s, _, hF, hP, hC, hrun, hG => by
    obtain ⟨s', hs', hrun⟩ := run_cons_eq_some.mp hrun
    have hF' := (hback s a s' hF hs').1
    have hG' := run_back hback hF' hrun hG
    refine hcons s a s' _ _ hP hG' hC.1 hs' ?_
    exact run_relates_good hback hstep hnil hcons hF' (hstep s a s' hF hP hG' hC.1 hs') (hC.2 s' hs')
      hrun hG

theorem gathered_cons {β : Type*} {out : σ → α → List β} {s s' : σ} {a : α} {as : List α}
    (h : step s a = some s') :
    gathered step out s (a :: as) = out s a ++ gathered step out s' as := by
  rw [gathered, h]

/-- A condition that every step meets is met by every run. -/
theorem meets_of_forall {C : σ → α → Prop} :
    ∀ (as : List α) (s : σ), (∀ a ∈ as, ∀ s, C s a) → Meets step C s as
  | [], _, _ => trivial
  | a :: as, s, h =>
    ⟨h a List.mem_cons_self s, fun s' _ =>
      meets_of_forall as s' fun b hb => h b (List.mem_cons_of_mem _ hb)⟩

/-- What each step preserves holds after every run. -/
theorem run_preserves {P : σ → Prop} (hstep : ∀ s a s', P s → step s a = some s' → P s')
    {as : List α} {s u : σ} (hP : P s) (hrun : run step s as = some u) : P u :=
  run_invariant (C := fun _ _ => True) (fun s a s' hP _ => hstep s a s' hP) as s u hP
    (meets_of_forall as s fun _ _ _ => trivial) hrun

/-- What each step to a good state preserves holds after every run with a good end. -/
theorem run_preserves_good {F G P : σ → Prop}
    (hback : ∀ s a s', F s → step s a = some s' → F s' ∧ (G s' → G s))
    (hstep : ∀ s a s', F s → P s → G s' → step s a = some s' → P s') {as : List α} {s u : σ}
    (hF : F s) (hP : P s) (hrun : run step s as = some u) (hG : G u) : P u :=
  run_invariant_good (C := fun _ _ => True) hback (fun s a s' hF hP hG _ => hstep s a s' hF hP hG)
    hF hP (meets_of_forall as s fun _ _ _ => trivial) hrun hG

/-- A run whose first step has a result. -/
theorem meets_cons_iff {C : σ → α → Prop} {s s' : σ} {a : α} {as : List α}
    (h : step s a = some s') : Meets step C s (a :: as) ↔ C s a ∧ Meets step C s' as := by
  constructor
  · rintro ⟨hC, hrest⟩
    exact ⟨hC, hrest s' h⟩
  · rintro ⟨hC, hrest⟩
    refine ⟨hC, fun u hu => ?_⟩
    rw [h] at hu
    cases hu
    exact hrest

theorem meets_imp {C C' : σ → α → Prop} :
    ∀ {as : List α} {s : σ}, Meets step C s as → (∀ a ∈ as, ∀ s, C s a → C' s a) →
      Meets step C' s as
  | [], _, _, _ => trivial
  | a :: _, s, h, hi =>
    ⟨hi a List.mem_cons_self s h.1, fun s' hs' =>
      meets_imp (h.2 s' hs') fun b hb => hi b (List.mem_cons_of_mem _ hb)⟩

theorem meets_and {C C' : σ → α → Prop} :
    ∀ {as : List α} {s : σ}, Meets step C s as → Meets step C' s as →
      Meets step (fun s a => C s a ∧ C' s a) s as
  | [], _, _, _ => trivial
  | _ :: _, _, h, h' => ⟨⟨h.1, h'.1⟩, fun s' hs' => meets_and (h.2 s' hs') (h'.2 s' hs')⟩

/-- What the first part of a run does, the run does. -/
theorem Ever.append_right {C : σ → α → Prop} (bs : List α) :
    ∀ {as : List α} {s : σ}, Ever step C s as → Ever step C s (as ++ bs)
  | _ :: _, _, .inl h => .inl h
  | _ :: _, _, .inr ⟨s', hs', h⟩ => .inr ⟨s', hs', h.append_right bs⟩

/-- What the second part of a run does, the run does. -/
theorem Ever.append_left {C : σ → α → Prop} {bs : List α} {v : σ} :
    ∀ {as : List α} {s : σ}, run step s as = some v → Ever step C v bs → Ever step C s (as ++ bs)
  | [], _, hrun, h => by
    cases hrun
    exact h
  | _ :: _, _, hrun, h => by
    obtain ⟨s', hs', hrest⟩ := run_cons_eq_some.mp hrun
    exact .inr ⟨s', hs', h.append_left hrest⟩

/-- Progress rule: if an invariant makes every step possible, no run gets stuck. -/
theorem run_progress {P : σ → Prop} (hstep : ∀ s a, P s → ∃ s', step s a = some s' ∧ P s') :
    ∀ (as : List α) (s : σ), P s → ∃ u, run step s as = some u ∧ P u
  | [], s, hP => ⟨s, rfl, hP⟩
  | a :: as, s, hP => by
    obtain ⟨s', hs', hP'⟩ := hstep s a hP
    obtain ⟨u, hu, hPu⟩ := run_progress hstep as s' hP'
    exact ⟨u, run_cons_eq_some.mpr ⟨s', hs', hu⟩, hPu⟩

/-- Simulation rule: if the picked steps of a run are matched by steps of another machine, and the
    other steps keep the relation, then the picked actions are a run of that machine. -/
theorem run_picked {τ : Type*} {step' : τ → α → Option τ} {C : σ → α → Prop}
    [∀ s a, Decidable (C s a)] {R : σ → τ → Prop}
    (hpick : ∀ s t a s', R s t → step s a = some s' → C s a → ∃ t', step' t a = some t' ∧ R s' t')
    (hskip : ∀ s t a s', R s t → step s a = some s' → ¬C s a → R s' t)
    {as : List α} {s u : σ} {t : τ} (hR : R s t) (hrun : run step s as = some u) :
    ∃ v, run step' t (picked step C s as) = some v ∧ R u v := by
  induction as generalizing s t with
  | nil =>
    cases hrun
    exact ⟨t, rfl, hR⟩
  | cons a as ih =>
    obtain ⟨s', hs', hrest⟩ := run_cons_eq_some.mp hrun
    simp only [picked, hs']
    split
    · rename_i hC
      obtain ⟨t', ht', hR'⟩ := hpick s t a s' hR hs' hC
      obtain ⟨v, hv, hRv⟩ := ih hR' hrest
      exact ⟨v, run_cons_eq_some.mpr ⟨t', ht', hv⟩, hRv⟩
    · rename_i hC
      exact ih (hskip s t a s' hR hs' hC) hrest

/-- Repeating a step on the same input is a single step if there is no repetition or the step is
    idempotent there. -/
theorem foldl_replicate {f : σ → α → σ} {s : σ} {a : α} :
    ∀ {k : ℕ}, k = 1 ∨ (1 ≤ k ∧ f (f s a) a = f s a) → (List.replicate k a).foldl f s = f s a
  | 0, h => by omega
  | 1, _ => rfl
  | k + 2, h => by
    have hidem : f (f s a) a = f s a := by
      rcases h with h | ⟨-, h⟩
      · omega
      · exact h
    have ih : (List.replicate (k + 1) a).foldl f s = f s a :=
      foldl_replicate (.inr ⟨by omega, hidem⟩)
    rw [List.replicate_succ', List.foldl_append, ih]
    exact hidem

/-- A property of the result of a computed run, checked by evaluation. -/
theorem exists_of_map_decide {β : Type*} {o : Option β} {P : β → Prop} [DecidablePred P]
    (h : (o.map fun b => decide (P b)) = some true) : ∃ b, o = some b ∧ P b := by
  obtain ⟨b, hb, hP⟩ := Option.map_eq_some_iff.mp h
  exact ⟨b, hb, of_decide_eq_true hP⟩

end DistGame
