import Mathlib.Data.List.AList

/-! Go maps: finite key-value maps read with a zero value for a missing key, written and deleted by
    key, and iterated in no fixed order. A map is an association list without duplicate keys, so
    `entries` is one possible iteration order; two maps with the same lookups are the same Go map. -/

namespace DistGame

/-- A Go `map[K]V`. -/
abbrev GoMap (K V : Type) := AList fun _ : K => V

namespace GoMap
variable {K V : Type} [DecidableEq K]

/-- `m[k]` in a value position: the stored value, or the zero value of `V`. -/
def index (m : GoMap K V) (k : K) (zero : V) : V := (m.lookup k).getD zero

theorem lookup_insert_ite (m : GoMap K V) (k k' : K) (v : V) :
    (m.insert k v).lookup k' = if k' = k then some v else m.lookup k' := by
  by_cases h : k' = k
  · subst h; rw [AList.lookup_insert, if_pos rfl]
  · rw [AList.lookup_insert_ne h, if_neg h]

theorem lookup_erase_ite (m : GoMap K V) (k k' : K) :
    (m.erase k).lookup k' = if k' = k then none else m.lookup k' := by
  by_cases h : k' = k
  · subst h; rw [AList.lookup_erase, if_pos rfl]
  · rw [AList.lookup_erase_ne h, if_neg h]

theorem index_insert (m : GoMap K V) (k k' : K) (v zero : V) :
    index (m.insert k v) k' zero = if k' = k then v else index m k' zero := by
  rw [index, lookup_insert_ite]
  split <;> rfl

/-- The entries of a list, written one after the other. -/
def writeAll (m : GoMap K V) (entries : List (K × V)) : GoMap K V :=
  entries.foldl (fun m e => m.insert e.1 e.2) m

@[simp] theorem writeAll_nil (m : GoMap K V) : m.writeAll [] = m := rfl

@[simp] theorem writeAll_cons (m : GoMap K V) (e : K × V) (entries : List (K × V)) :
    m.writeAll (e :: entries) = writeAll (m.insert e.1 e.2) entries := rfl

/-- What some writes leave under a key does not depend on the map, or is what was there. -/
theorem writeAll_lookup (k : K) (entries : List (K × V)) :
    (∀ m : GoMap K V, (m.writeAll entries).lookup k = m.lookup k) ∨
      ∃ v, ∀ m : GoMap K V, (m.writeAll entries).lookup k = some v := by
  induction entries with
  | nil => exact .inl fun _ => rfl
  | cons e entries ih =>
    rcases ih with ih | ⟨v, ih⟩
    · by_cases hk : k = e.1
      · refine .inr ⟨e.2, fun m => ?_⟩
        rw [writeAll_cons, ih, hk, AList.lookup_insert]
      · refine .inl fun m => ?_
        simp [ih, AList.lookup_insert_ne hk]
    · exact .inr ⟨v, fun m => by simp [ih]⟩

/-! ### Lists under keys -/

section
variable {α : Type} (key : α → K) (value : α → V)

/-- The elements of a list, each appended to what is stored under its key. -/
def pushAll (m : GoMap K (List V)) (as : List α) : GoMap K (List V) :=
  as.foldl (fun m a => m.insert (key a) (m.index (key a) [] ++ [value a])) m

@[simp] theorem pushAll_nil (m : GoMap K (List V)) : pushAll key value m [] = m := rfl

@[simp] theorem pushAll_cons (m : GoMap K (List V)) (a : α) (as : List α) :
    pushAll key value m (a :: as) =
      pushAll key value (m.insert (key a) (m.index (key a) [] ++ [value a])) as := rfl

/-- Under a key stands what was there, and then the elements with that key. -/
theorem pushAll_index (k : K) (as : List α) (m : GoMap K (List V)) :
    (pushAll key value m as).index k [] =
      m.index k [] ++ (as.filter fun a => key a = k).map value := by
  induction as generalizing m with
  | nil => simp
  | cons a as ih =>
    rw [pushAll_cons, ih, index_insert]
    by_cases hk : key a = k
    · simp [hk]
    · simp [hk, Ne.symm hk]

theorem mem_pushAll {k : K} {as : List α} {m : GoMap K (List V)} :
    k ∈ pushAll key value m as ↔ k ∈ m ∨ ∃ a ∈ as, key a = k := by
  induction as generalizing m with
  | nil => simp
  | cons a as ih =>
    rw [pushAll_cons, ih, AList.mem_insert, List.exists_mem_cons_iff, @eq_comm K k]
    tauto

/-- When all keys are the same, one list is stored. -/
theorem pushAll_same {k : K} {as : List α} (hkey : ∀ a ∈ as, key a = k) (hne : as ≠ [])
    (m : GoMap K (List V)) :
    pushAll key value m as = m.insert k (m.index k [] ++ as.map value) := by
  induction as generalizing m with
  | nil => exact absurd rfl hne
  | cons a as ih =>
    obtain ⟨rfl, hkey⟩ := List.forall_mem_cons.mp hkey
    cases as with
    | nil => rfl
    | cons a' as =>
      rw [pushAll_cons, ih hkey (List.cons_ne_nil a' as), AList.insert_insert, index_insert,
        if_pos rfl, List.append_assoc]
      rfl

end

/-! ### Entries -/

theorem mem_entries_iff (m : GoMap K V) (k : K) (v : V) :
    (⟨k, v⟩ : Sigma fun _ : K => V) ∈ m.entries ↔ m.lookup k = some v :=
  AList.mem_lookup_iff.symm

/-- What holds of all entries holds of all lookups. -/
theorem forall_entries_iff (m : GoMap K V) (P : K → V → Prop) :
    (∀ e ∈ m.entries, P e.1 e.2) ↔ ∀ k v, m.lookup k = some v → P k v := by
  constructor
  · intro h k v hv
    exact h ⟨k, v⟩ ((mem_entries_iff m k v).mpr hv)
  · rintro h ⟨k, v⟩ he
    exact h k v ((mem_entries_iff m k v).mp he)

theorem mem_keys_iff {m : GoMap K V} {k : K} : k ∈ m.keys ↔ (m.lookup k).isSome := by
  rw [← AList.mem_keys, AList.lookup_isSome]

/-- The values, in one of the orders in which the map may be iterated. -/
def values (m : GoMap K V) : List V := m.entries.map Sigma.snd

omit [DecidableEq K] in
theorem values_nodup {m : GoMap K V} (key : V → K) (h : ∀ e ∈ m.entries, key e.2 = e.1) :
    m.values.Nodup := by
  have hkeys : m.values.map key = m.keys := by
    rw [values, List.map_map]
    exact List.map_congr_left h
  exact List.Nodup.of_map key (hkeys ▸ m.keys_nodup)

theorem mem_values_iff (m : GoMap K V) (v : V) : v ∈ m.values ↔ ∃ k, m.lookup k = some v := by
  simp only [values, List.mem_map, ← mem_entries_iff]
  constructor
  · rintro ⟨⟨k, v'⟩, he, rfl⟩
    exact ⟨k, he⟩
  · rintro ⟨k, he⟩
    exact ⟨⟨k, v⟩, he, rfl⟩

end GoMap

end DistGame
