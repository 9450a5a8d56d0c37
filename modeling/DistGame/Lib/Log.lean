import Mathlib.Data.List.Basic

/-! Copies that are kept up by replaying a log. A source appends what it does to a log; a copy that was
    taken at some position of the log catches up by replaying the entries from there on. -/

namespace DistGame
variable {σ ε : Type*}

/-- After two positions that as many marked entries precede come the same marked entries. -/
theorem filter_drop_eq {p : ε → Bool} {log : List ε} {n m : ℕ}
    (hcount : (log.take n).countP p = (log.take m).countP p) :
    (log.drop n).filter p = (log.drop m).filter p := by
  have hwhole : (log.take n).filter p ++ (log.drop n).filter p =
      (log.take m).filter p ++ (log.drop m).filter p := by
    rw [← List.filter_append, ← List.filter_append, List.take_append_drop, List.take_append_drop]
  rw [List.countP_eq_length_filter, List.countP_eq_length_filter] at hcount
  exact List.append_inj_right hwhole hcount

/-- Only the marked entries matter to a replay in which the others do nothing. -/
theorem foldl_filter_eq {f : σ → ε → σ} {p : ε → Bool} {copy : σ} :
    ∀ {log : List ε}, (∀ e ∈ log, p e = false → ∀ c, f c e = c) →
      (log.filter p).foldl f copy = log.foldl f copy := by
  intro log hidle
  induction log generalizing copy with
  | nil => rfl
  | cons e log ih =>
    have hrest : ∀ e' ∈ log, p e' = false → ∀ c, f c e' = c := fun e' he' =>
      hidle e' (List.mem_cons_of_mem _ he')
    cases hp : p e with
    | true => rw [List.filter_cons_of_pos hp, List.foldl_cons, List.foldl_cons, ih hrest]
    | false =>
      rw [List.filter_cons_of_neg (by simp [hp]), List.foldl_cons,
        hidle e List.mem_cons_self hp, ih hrest]

/-- Replaying the log from position `n` on brings the copy to the source, up to `R`. -/
structure Trails (f : σ → ε → σ) (R : σ → σ → Prop) (log : List ε) (n : ℕ) (source copy : σ) :
    Prop where
  le : n ≤ log.length
  replayed : R source ((log.drop n).foldl f copy)

namespace Trails
variable {f : σ → ε → σ} {R : σ → σ → Prop} {log es : List ε} {n : ℕ} {source source' copy : σ}

/-- A copy of the source trails nothing. -/
theorem snapshot (log : List ε) (h : R source copy) : Trails f R log log.length source copy := by
  refine ⟨Nat.le_refl _, ?_⟩
  rwa [List.drop_length]

/-- A copy that has replayed the whole log is what the source is. -/
theorem caughtUp (h : Trails f R log log.length source copy) : R source copy := by
  have := h.replayed
  rwa [List.drop_length] at this

/-- Replaying the next entry. -/
theorem next {e : ε} (h : Trails f R log n source copy) (he : log[n]? = some e) :
    Trails f R log (n + 1) source (f copy e) := by
  obtain ⟨hn, hget⟩ := List.getElem?_eq_some_iff.mp he
  refine ⟨hn, ?_⟩
  have hrep := h.replayed
  rwa [List.drop_eq_getElem_cons hn, List.foldl_cons, hget] at hrep

/-- The source moves on and appends what a copy has to replay. -/
theorem append (h : Trails f R log n source copy)
    (hsource : ∀ c, R source c → R source' (es.foldl f c)) :
    Trails f R (log ++ es) n source' copy := by
  refine ⟨by rw [List.length_append]; have := h.le; omega, ?_⟩
  rw [List.drop_append_of_le_length h.le, List.foldl_append]
  exact hsource _ h.replayed

/-- A copy may as well start at a position that as many of the entries that matter precede. -/
theorem moved {p : ε → Bool} {m : ℕ} (h : Trails f R log n source copy) (hm : m ≤ log.length)
    (hcount : (log.take n).countP p = (log.take m).countP p)
    (hidle : ∀ e ∈ log, p e = false → ∀ c, f c e = c) : Trails f R log m source copy := by
  have hdrop (k : ℕ) : ∀ e ∈ log.drop k, p e = false → ∀ c, f c e = c := fun e he =>
    hidle e (List.mem_of_mem_drop he)
  refine ⟨hm, ?_⟩
  rw [← foldl_filter_eq (hdrop m), ← filter_drop_eq hcount, foldl_filter_eq (hdrop n)]
  exact h.replayed

end Trails

/-- An entry of an ordered list may come any number of times in a row. -/
theorem pairwise_copies {R : ε → ε → Prop} (before : List ε) {after : List ε} {e : ε} (hrefl : R e e)
    (h : (before ++ e :: after).Pairwise R) (k : ℕ) :
    (before ++ (List.replicate k e ++ after)).Pairwise R := by
  obtain ⟨hbefore, hrest, hcross⟩ := List.pairwise_append.mp h
  obtain ⟨he, hafter⟩ := List.pairwise_cons.mp hrest
  have hcopies : (List.replicate k e).Pairwise R := List.pairwise_replicate.mpr (.inr hrefl)
  refine List.pairwise_append.mpr ⟨hbefore, List.pairwise_append.mpr ⟨hcopies, hafter, ?_⟩, ?_⟩
  · intro a ha b hb
    rw [(List.mem_replicate.mp ha).2]
    exact he b hb
  · intro a ha b hb
    rcases List.mem_append.mp hb with hb | hb
    · rw [(List.mem_replicate.mp hb).2]
      exact hcross a ha e List.mem_cons_self
    · exact hcross a ha b (List.mem_cons_of_mem _ hb)

end DistGame
