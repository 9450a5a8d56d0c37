import Mathlib.Data.List.Perm.Subperm
import DistGame.Lib.Drops

/-! A board on which each new post takes down at once the posts that it outdates, and a store that
    drops its dead elements when it happens to come across them. As long as what is dead stays dead,
    the store agrees with the board. -/

namespace DistGame
variable {α : Type*}

/-- The board after a new post. -/
def post (outdates : α → α → Bool) (board : List α) (a : α) : List α :=
  a :: board.filter fun e => !outdates a e

/-- The store and the board hold the same elements, dead ones aside. -/
def Agree (dead : α → Bool) (store board : List α) : Prop :=
  (store.filter fun a => !dead a).Perm (board.filter fun a => !dead a)

namespace Agree
variable {dead dead' : α → Bool} {store store' kept board : List α}

theorem refl (dead : α → Bool) (l : List α) : Agree dead l l := List.Perm.refl _

/-- A dead element of the store may be dropped. -/
theorem drops (h : Agree dead store board) (hdrop : Drops (fun a => dead a = true) store store') :
    Agree dead store' board := by
  rw [Agree, ← hdrop.filter_eq]
  exact h

theorem filter_later {l : List α} (hdead : ∀ a ∈ l, dead a = true → dead' a = true) :
    (l.filter fun a => !dead a).filter (fun a => !dead' a) = l.filter fun a => !dead' a := by
  rw [List.filter_filter]
  refine List.filter_congr fun a ha => ?_
  cases hd : dead a with
  | false => simp
  | true => simp [hdead a ha hd]

/-- More elements may die, on both sides. -/
theorem later (h : Agree dead store board) (hstore : ∀ a ∈ store, dead a = true → dead' a = true)
    (hboard : ∀ a ∈ board, dead a = true → dead' a = true) : Agree dead' store board := by
  rw [Agree, ← filter_later hstore, ← filter_later hboard]
  exact h.filter _

/-- A post that outdates only what is dead from then on. -/
theorem post {outdates : α → α → Bool} {a : α} (h : Agree dead kept board)
    (hperm : store.Perm (a :: kept)) (hout : ∀ e ∈ board, outdates a e = true → dead e = true) :
    Agree dead store (DistGame.post outdates board a) := by
  have htaken : (board.filter fun e => !outdates a e).filter (fun e => !dead e) =
      board.filter fun e => !dead e := filter_later hout
  refine (hperm.filter _).trans ?_
  rw [DistGame.post, List.filter_cons, List.filter_cons, htaken]
  split
  · exact h.cons a
  · exact h

end Agree

theorem mem_post {outdates : α → α → Bool} {board : List α} {a e : α} :
    e ∈ post outdates board a ↔ e = a ∨ e ∈ board ∧ outdates a e = false := by
  simp [post]

end DistGame
