import Mathlib.Data.List.Basic
import Mathlib.Data.List.Perm.Subperm
import Mathlib.Data.List.Flatten
import Mathlib.Logic.Function.Basic
import Mathlib.Order.MinMax

/-! Trees with four named children and possibly missing (`nil`) subtrees, over any label type: their
    nodes in preorder, the node at a path of quadrants, and the search that skips a subtree whose
    root fails a test. The one fact the search needs is that the test is hereditary: a node below
    passes only if every node above it does. -/

namespace DistGame

/-- The four children of a node, in the order in which they are visited. -/
inductive Quadrant where | nw | ne | sw | se
  deriving DecidableEq, Repr

/-- A tree with labelled nodes; `nil` is a missing subtree. -/
inductive QTree (α : Type) where
  | nil : QTree α
  | node : α → (Quadrant → QTree α) → QTree α

/-- A path from the root: which child to take at each level. -/
abbrev Path := List Quadrant

/-- The order in which the four children are visited. -/
def quadrants : List Quadrant := [.nw, .ne, .sw, .se]

theorem mem_quadrants (q : Quadrant) : q ∈ quadrants := by cases q <;> decide

theorem nodup_quadrants : quadrants.Nodup := by decide

/-- One more item in one part of a concatenation is one more item in the whole. -/
theorem perm_flatMap_cons {ι β : Type} {f g : ι → List β} {i : ι} {e : β}
    (hi : (f i).Perm (e :: g i)) (hne : ∀ j, j ≠ i → f j = g j) :
    ∀ L : List ι, L.Nodup → i ∈ L → (L.flatMap f).Perm (e :: L.flatMap g)
  | [], _, hmem => absurd hmem List.not_mem_nil
  | j :: L, hnd, hmem => by
    obtain ⟨hj, hnd⟩ := List.nodup_cons.mp hnd
    rw [List.flatMap_cons, List.flatMap_cons]
    rcases List.mem_cons.mp hmem with rfl | hmem
    · have hrest : L.flatMap f = L.flatMap g :=
        List.flatMap_congr fun k hk => hne k (by rintro rfl; exact hj hk)
      rw [hrest]
      exact hi.append_right _
    · have hji : j ≠ i := by rintro rfl; exact hj hmem
      rw [hne j hji]
      exact ((perm_flatMap_cons hi hne L hnd hmem).append_left (g j)).trans List.perm_middle

namespace QTree
variable {α : Type}

/-- Four subtrees as a family. -/
def quad (nw ne sw se : QTree α) : Quadrant → QTree α
  | .nw => nw
  | .ne => ne
  | .sw => sw
  | .se => se

theorem quad_eta (child : Quadrant → QTree α) :
    quad (child .nw) (child .ne) (child .sw) (child .se) = child := by
  funext q; cases q <;> rfl

/-- The labels in preorder. -/
def toList : QTree α → List α
  | .nil => []
  | .node a child =>
    a :: (toList (child .nw) ++ toList (child .ne) ++ toList (child .sw) ++ toList (child .se))

/-- The label of the root, if there is one. -/
def root : QTree α → Option α
  | .nil => none
  | .node a _ => some a

/-- The subtree in a quadrant; a missing tree has missing subtrees. -/
def subtree : QTree α → Quadrant → QTree α
  | .nil, _ => .nil
  | .node _ child, q => child q

theorem toList_eq : ∀ t : QTree α,
    t.toList = t.root.toList ++ quadrants.flatMap fun q => (t.subtree q).toList
  | .nil => rfl
  | .node a child => by simp [toList, root, subtree, quadrants]

/-- The number of levels. -/
def depth : QTree α → ℕ
  | .nil => 0
  | .node _ child =>
    1 + max (max (depth (child .nw)) (depth (child .ne))) (max (depth (child .sw)) (depth (child .se)))

/-- The label at a path. -/
def labelAt : QTree α → Path → Option α
  | .nil, _ => none
  | .node a _, [] => some a
  | .node _ child, q :: p => labelAt (child q) p

@[simp] theorem labelAt_nil (p : Path) : labelAt (.nil : QTree α) p = none := by cases p <;> rfl

@[simp] theorem labelAt_node_nil (a : α) (child : Quadrant → QTree α) :
    labelAt (.node a child) [] = some a := rfl

@[simp] theorem labelAt_node_cons (a : α) (child : Quadrant → QTree α) (q : Quadrant) (p : Path) :
    labelAt (.node a child) (q :: p) = labelAt (child q) p := rfl

theorem labelAt_eq_root (t : QTree α) : labelAt t [] = t.root := by cases t <;> rfl

/-- The subtree at a path. -/
def subtreeAt (t : QTree α) (p : Path) : QTree α := p.foldl subtree t

/-- The labels below a path are those of the subtree there. -/
theorem labelAt_append (t : QTree α) (p p' : Path) :
    labelAt t (p ++ p') = labelAt (t.subtreeAt p) p' := by
  induction p generalizing t with
  | nil => rfl
  | cons q p ih =>
    have hcons : labelAt t (q :: (p ++ p')) = labelAt (t.subtree q) (p ++ p') := by
      cases t with
      | nil => rw [labelAt_nil, subtree, labelAt_nil]
      | node a child => rfl
    rw [List.cons_append, hcons, ih]
    rfl

/-- The tree with the subtree at a path changed; below a missing tree there is nothing to change. -/
def updateAt (f : QTree α → QTree α) : Path → QTree α → QTree α
  | [], t => f t
  | _ :: _, .nil => .nil
  | q :: p, .node a child => .node a (Function.update child q (updateAt f p (child q)))

theorem subtreeAt_updateAt (f : QTree α → QTree α) :
    ∀ (p : Path) (t : QTree α), t.subtreeAt p ≠ .nil →
      (updateAt f p t).subtreeAt p = f (t.subtreeAt p)
  | [], _, _ => rfl
  | q :: p, .nil, h => by
    have hnil : ∀ p : Path, subtreeAt (.nil : QTree α) p = .nil := fun p => by
      induction p with
      | nil => rfl
      | cons q p ih => exact ih
    exact absurd (hnil (q :: p)) h
  | q :: p, .node a child, h => by
    have ih := subtreeAt_updateAt f p (child q) h
    show subtreeAt (Function.update child q (updateAt f p (child q)) q) p = _
    rw [Function.update_self]
    exact ih

/-- A change depends on the subtree that it changes only. -/
theorem updateAt_congr {f g : QTree α → QTree α} :
    ∀ {p : Path} {t : QTree α}, f (t.subtreeAt p) = g (t.subtreeAt p) →
      updateAt f p t = updateAt g p t
  | [], _, h => h
  | _ :: _, .nil, _ => rfl
  | q :: p, .node a child, h => by
    have ih : updateAt f p (child q) = updateAt g p (child q) := updateAt_congr h
    rw [updateAt, updateAt, ih]

theorem updateAt_append (f : QTree α → QTree α) (p' : Path) :
    ∀ (p : Path) (t : QTree α), updateAt f (p ++ p') t = updateAt (updateAt f p') p t
  | [], _ => rfl
  | _ :: _, .nil => rfl
  | q :: p, .node a child => by
    rw [List.cons_append, updateAt, updateAt, updateAt_append f p' p]

theorem updateAt_updateAt (f g : QTree α → QTree α) :
    ∀ (p : Path) (t : QTree α), updateAt g p (updateAt f p t) = updateAt (fun t => g (f t)) p t
  | [], _ => rfl
  | _ :: _, .nil => rfl
  | q :: p, .node a child => by
    rw [updateAt, updateAt, updateAt, Function.update_self, Function.update_idem,
      updateAt_updateAt f g p]

theorem updateAt_id : ∀ (p : Path) (t : QTree α), updateAt id p t = t
  | [], _ => rfl
  | _ :: _, .nil => rfl
  | q :: p, .node a child => by rw [updateAt, updateAt_id p, Function.update_eq_self]

theorem depth_child_lt (a : α) (child : Quadrant → QTree α) (q : Quadrant) :
    depth (child q) < depth (.node a child) := by
  cases q <;> simp only [depth] <;> omega

/-- The deepest child. -/
theorem exists_depth_child (a : α) (child : Quadrant → QTree α) :
    ∃ q, depth (.node a child) = 1 + depth (child q) := by
  rw [depth]
  rcases max_choice (max (depth (child .nw)) (depth (child .ne)))
    (max (depth (child .sw)) (depth (child .se))) with h | h
  · rcases max_choice (depth (child .nw)) (depth (child .ne)) with h' | h'
    · exact ⟨.nw, by rw [h, h']⟩
    · exact ⟨.ne, by rw [h, h']⟩
  · rcases max_choice (depth (child .sw)) (depth (child .se)) with h' | h'
    · exact ⟨.sw, by rw [h, h']⟩
    · exact ⟨.se, by rw [h, h']⟩

theorem mem_toList_node {a b : α} {child : Quadrant → QTree α} :
    b ∈ toList (.node a child) ↔ b = a ∨ ∃ q, b ∈ toList (child q) := by
  simp only [toList, List.mem_cons, List.mem_append]
  constructor
  · rintro (h | ((h | h) | h) | h)
    · exact .inl h
    all_goals exact .inr ⟨_, h⟩
  · rintro (h | ⟨q, h⟩)
    · exact .inl h
    · cases q <;> simp [h]

/-- The preorder lists exactly the labels found at some path. -/
theorem mem_toList_iff {b : α} : ∀ t : QTree α, b ∈ toList t ↔ ∃ p, labelAt t p = some b
  | .nil => by simp [toList]
  | .node a child => by
    rw [mem_toList_node]
    constructor
    · rintro (rfl | ⟨q, hq⟩)
      · exact ⟨[], rfl⟩
      · obtain ⟨p, hp⟩ := (mem_toList_iff (child q)).mp hq
        exact ⟨q :: p, hp⟩
    · rintro ⟨_ | ⟨q, p⟩, hp⟩
      · exact .inl (Option.some.inj hp).symm
      · exact .inr ⟨q, (mem_toList_iff (child q)).mpr ⟨p, hp⟩⟩

/-- The tree with changed labels. -/
def map {β : Type} (f : α → β) : QTree α → QTree β
  | .nil => .nil
  | .node a child => .node (f a) fun q => map f (child q)

theorem labelAt_map {β : Type} (f : α → β) (t : QTree α) (p : Path) :
    labelAt (map f t) p = (labelAt t p).map f := by
  induction p generalizing t with
  | nil => cases t <;> rfl
  | cons q p ih =>
    cases t with
    | nil => rfl
    | node a child => exact ih (child q)

/-- A map that changes no label changes nothing. -/
theorem map_eq_self {f : α → α} : ∀ {t : QTree α}, (∀ a ∈ t.toList, f a = a) → map f t = t
  | .nil, _ => rfl
  | .node a child, h => by
    have hchild : ∀ q, map f (child q) = child q := fun q =>
      map_eq_self fun b hb => h b (mem_toList_node.mpr (.inr ⟨q, hb⟩))
    rw [map, h a (mem_toList_node.mpr (.inl rfl)), funext hchild]

/-! ### Search that skips subtrees -/

/-- The labels reached when a subtree is skipped as soon as its root fails `p`. -/
def search (p : α → Bool) : QTree α → List α
  | .nil => []
  | .node a child =>
    if p a then
      a :: (search p (child .nw) ++ search p (child .ne) ++ search p (child .sw) ++
        search p (child .se))
    else []

/-- The search visits each node of the tree at most once. -/
theorem search_sublist (p : α → Bool) : ∀ t : QTree α, (search p t).Sublist t.toList
  | .nil => .slnil
  | .node a child => by
    rw [search]
    split
    · exact ((((search_sublist p _).append (search_sublist p _)).append
        (search_sublist p _)).append (search_sublist p _)).cons_cons a
    · exact List.nil_sublist _

/-- What the search visits passes the test. -/
theorem of_mem_search {p : α → Bool} {a : α} : ∀ {t : QTree α}, a ∈ search p t → p a = true
  | .nil, h => absurd h List.not_mem_nil
  | .node n child, h => by
    rw [search] at h
    split at h
    · simp only [List.mem_cons, List.mem_append] at h
      rcases h with rfl | ((h | h) | h) | h
      · assumption
      all_goals exact of_mem_search h
    · exact absurd h List.not_mem_nil

/-- `p` holds at a node only if it holds at every node above it. -/
def Hereditary (p : α → Bool) : QTree α → Prop
  | .nil => True
  | .node a child =>
    (∀ q, ∀ b ∈ toList (child q), p b = true → p a = true) ∧ ∀ q, Hereditary p (child q)

/-- Skipping subtrees on a hereditary test loses nothing that passes the test itself. -/
theorem search_eq_filter {p : α → Bool} :
    ∀ {t : QTree α}, Hereditary p t → search p t = (toList t).filter p
  | .nil, _ => rfl
  | .node a child, h => by
    obtain ⟨hroot, hsub⟩ := h
    have ih := fun q => search_eq_filter (hsub q)
    by_cases hpa : p a = true
    · simp only [search, toList, if_pos hpa, List.filter_cons_of_pos hpa, List.filter_append, ih]
    · have hempty : ∀ q, (toList (child q)).filter p = [] := fun q =>
        List.filter_eq_nil_iff.mpr fun b hb hpb => hpa (hroot q b hb hpb)
      simp only [search, toList, if_neg hpa, List.filter_cons_of_neg hpa, List.filter_append,
        hempty, List.append_nil]

/-- Dropping the nodes that fail `p` loses no item exactly when those nodes have none. -/
theorem flatMap_filter_eq_iff {β : Type} (p : α → Bool) (g : α → List β) :
    ∀ L : List α, (L.filter p).flatMap g = L.flatMap g ↔ ∀ a ∈ L, p a = false → g a = []
  | [] => by simp
  | a :: L => by
    cases hp : p a with
    | true =>
      rw [List.filter_cons_of_pos hp, List.flatMap_cons, List.flatMap_cons, List.append_cancel_left_eq,
        flatMap_filter_eq_iff p g L]
      simp [hp]
    | false =>
      have hsub : ((L.filter p).flatMap g).length ≤ (L.flatMap g).length :=
        (List.filter_sublist.flatMap g).length_le
      rw [List.filter_cons_of_neg (by simp [hp]), List.flatMap_cons, List.forall_mem_cons]
      constructor
      · intro h
        have hlen := congrArg List.length h
        rw [List.length_append] at hlen
        have hnil : g a = [] := List.length_eq_zero_iff.mp (by omega)
        rw [hnil, List.nil_append] at h
        exact ⟨fun _ => hnil, (flatMap_filter_eq_iff p g L).mp h⟩
      · rintro ⟨hnil, hL⟩
        rw [hnil hp, List.nil_append]
        exact (flatMap_filter_eq_iff p g L).mpr hL

/-- The search finds every item of the tree exactly when no item sits in a node that fails the
    test. -/
theorem search_complete_iff {β : Type} {p : α → Bool} {t : QTree α} (h : Hereditary p t)
    (g : α → List β) :
    (t.toList.flatMap g).Subperm ((search p t).flatMap g) ↔
      ∀ a ∈ t.toList, g a ≠ [] → p a = true := by
  have hsub : ((t.toList.filter p).flatMap g).Sublist (t.toList.flatMap g) :=
    List.filter_sublist.flatMap g
  have hcontra : (∀ a ∈ t.toList, g a ≠ [] → p a = true) ↔
      ∀ a ∈ t.toList, p a = false → g a = [] := by
    refine forall₂_congr fun a _ => ?_
    rw [← not_imp_not, Bool.not_eq_true, not_not]
  rw [search_eq_filter h, hcontra, ← flatMap_filter_eq_iff]
  constructor
  · intro hperm
    exact hsub.eq_of_length_le hperm.length_le
  · intro heq
    rw [heq]

end QTree

end DistGame
