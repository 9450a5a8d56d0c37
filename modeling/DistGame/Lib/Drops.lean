import Mathlib.Data.List.Basic
import Mathlib.Data.List.Count

/-! Lists from which only dead elements were removed. `Drops dead l l'` says that `l'` is `l` with
    some of its dead elements left out and everything else kept in order; it is how a store that
    prunes lazily relates to the store it started from. -/

namespace DistGame
variable {α : Type*}

/-- `l'` is `l` without some of its `dead` elements. -/
inductive Drops (dead : α → Prop) : List α → List α → Prop
  | nil : Drops dead [] []
  | keep {l l' : List α} (a : α) : Drops dead l l' → Drops dead (a :: l) (a :: l')
  | drop {l l' : List α} {a : α} : dead a → Drops dead l l' → Drops dead (a :: l) l'

namespace Drops
variable {dead dead' : α → Prop} {l l' m : List α}

theorem refl (dead : α → Prop) : ∀ l : List α, Drops dead l l
  | [] => .nil
  | a :: l => .keep a (refl dead l)

theorem mono (h : ∀ a, dead a → dead' a) (hd : Drops dead l l') : Drops dead' l l' := by
  induction hd with
  | nil => exact .nil
  | keep a _ ih => exact .keep a ih
  | drop ha _ ih => exact .drop (h _ ha) ih

theorem append {k k' : List α} (h₁ : Drops dead l l') (h₂ : Drops dead k k') :
    Drops dead (l ++ k) (l' ++ k') := by
  induction h₁ with
  | nil => exact h₂
  | keep a _ ih => exact .keep a ih
  | drop ha _ ih => exact .drop ha ih

/-- A list of dead elements may be dropped whole. -/
theorem to_nil : ∀ {l : List α}, (∀ a ∈ l, dead a) → Drops dead l []
  | [], _ => .nil
  | a :: _, h =>
    .drop (h a List.mem_cons_self) (to_nil fun b hb => h b (List.mem_cons_of_mem _ hb))

theorem flatMap {β : Type*} {f g : β → List α} (h : ∀ b, Drops dead (f b) (g b)) :
    ∀ L : List β, Drops dead (L.flatMap f) (L.flatMap g)
  | [] => .nil
  | b :: L => by
    rw [List.flatMap_cons, List.flatMap_cons]
    exact (h b).append (flatMap h L)

/-- Filtering out only dead elements. -/
theorem filter (p : α → Bool) : ∀ l : List α, (∀ a ∈ l, p a = false → dead a) →
    Drops dead l (l.filter p)
  | [], _ => .nil
  | a :: l, h => by
    have ih := filter p l fun b hb => h b (List.mem_cons_of_mem _ hb)
    cases hp : p a with
    | true => rw [List.filter_cons_of_pos hp]; exact .keep a ih
    | false =>
      rw [List.filter_cons_of_neg (by simp [hp])]
      exact .drop (h a List.mem_cons_self hp) ih

/-- What is left without the dead elements is the same. -/
theorem filter_eq {p : α → Bool} (h : Drops (fun a => p a = true) l l') :
    (l.filter fun a => !p a) = l'.filter fun a => !p a := by
  induction h with
  | nil => rfl
  | keep a _ ih => simp only [List.filter_cons, ih]
  | drop ha _ ih => rw [List.filter_cons_of_neg (by simp [ha]), ih]

theorem sublist (h : Drops dead l l') : l'.Sublist l := by
  induction h with
  | nil => exact .slnil
  | keep a _ ih => exact ih.cons_cons a
  | drop _ _ ih => exact ih.cons _

/-- An element that is not dead is still there. -/
theorem mem_of_not_dead (h : Drops dead l l') {a : α} (ha : a ∈ l) (hlive : ¬ dead a) : a ∈ l' := by
  induction h with
  | nil => exact ha
  | keep b _ ih =>
    rcases List.mem_cons.mp ha with rfl | ha
    · exact List.mem_cons_self
    · exact List.mem_cons_of_mem _ (ih ha)
  | drop hb _ ih =>
    rcases List.mem_cons.mp ha with rfl | ha
    · exact absurd hb hlive
    · exact ih ha

/-- Live elements keep their number of occurrences. -/
theorem count_eq [DecidableEq α] (h : Drops dead l l') {a : α} (hlive : ¬ dead a) :
    l'.count a = l.count a := by
  induction h with
  | nil => rfl
  | keep b _ ih => rw [List.count_cons, List.count_cons, ih]
  | @drop _ _ b hb _ ih =>
    have hne : b ≠ a := by rintro rfl; exact hlive hb
    rw [ih, List.count_cons_of_ne hne]

end Drops

end DistGame
