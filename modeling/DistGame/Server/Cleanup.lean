import DistGame.Server.Replicas

/-! What an iteration of `CleanupLoop` keeps, and whom it sends a renewal for it. -/

namespace DistGame
namespace Colyseus

/-- Every replica is stored under its own guid. -/
def ReplicasKeyed (s : Colyseus) : Prop := ∀ k r, s.replicas.lookup k = some r → r.guid = k

/-- The server has a replica under `k` that it is interested in. -/
def Keeps (s : Colyseus) (now : Int64) (k : UInt32) (r : GameObject) : Prop :=
  s.replicas.lookup k = some r ∧ s.isInterestedIn r now = true

/-- What the loop has done when it has visited `keys`: the replicas under them are those the server
    is interested in, noted for their owners; nothing else has changed. -/
structure Swept (now : Int64) (keys : List UInt32) (s s' : Colyseus)
    (still still' : GoMap Int32 (List UInt32)) : Prop where
  frame : s' = { s with replicas := s'.replicas }
  visited : ∀ k ∈ keys, ∀ r, s'.replicas.lookup k = some r ↔ s.Keeps now k r
  others : ∀ k, k ∉ keys → s'.replicas.lookup k = s.replicas.lookup k
  noted : ∀ sid k, k ∈ still'.index sid [] ↔ k ∈ still.index sid [] ∨
    (k ∈ keys ∧ ∃ r, s.Keeps now k r ∧ r.sid = sid)
  owners : ∀ sid, (still'.lookup sid).isSome → (still.lookup sid).isSome ∨
    ∃ k r, s.replicas.lookup k = some r ∧ r.sid = sid

theorem swept_nil (now : Int64) (s : Colyseus) (still : GoMap Int32 (List UInt32)) :
    Swept now [] s s still still where
  frame := rfl
  visited := fun _ h => absurd h List.not_mem_nil
  others := fun _ _ => rfl
  noted := by simp
  owners := fun _ h => .inl h

section
variable {s : Colyseus} {now : Int64} {key : UInt32} {r : GameObject}
  (still : GoMap Int32 (List UInt32))

/-- A replica that is no longer there is skipped. -/
theorem swept_absent (hr : s.replicas.lookup key = none) : Swept now [key] s s still still := by
  have hkeeps : ∀ k ∈ [key], ∀ r, ¬ s.Keeps now k r := by
    rintro k hk r ⟨h, -⟩
    rw [List.mem_singleton.mp hk, hr] at h
    cases h
  refine ⟨rfl, fun k hk r => ?_, fun _ _ => rfl, fun sid k => ?_, fun _ h => .inl h⟩
  · rw [List.mem_singleton.mp hk, hr]
    exact iff_of_false (by simp) (hkeeps key (List.mem_singleton_self _) r)
  · constructor
    · exact .inl
    · rintro (h | ⟨hk, r, h, -⟩)
      · exact h
      · exact absurd h (hkeeps k hk r)

/-- A replica of interest is kept and noted for its owner. -/
theorem swept_kept (hr : s.replicas.lookup key = some r) (hint : s.isInterestedIn r now = true) :
    Swept now [key] s s still (still.insert r.sid (still.index r.sid [] ++ [key])) := by
  refine ⟨rfl, fun k hk x => ?_, fun _ _ => rfl, fun sid k => ?_, fun sid h => ?_⟩
  · rw [List.mem_singleton.mp hk, Keeps, hr]
    constructor
    · intro h
      cases h
      exact ⟨rfl, hint⟩
    · exact And.left
  · rw [GoMap.index_insert]
    constructor
    · intro h
      split at h
      · rename_i hsid
        rcases List.mem_append.mp h with h | h
        · exact .inl (hsid ▸ h)
        · rw [List.mem_singleton.mp h]
          exact .inr ⟨List.mem_singleton_self _, r, ⟨hr, hint⟩, hsid.symm⟩
      · exact .inl h
    · rintro (h | ⟨hk, x, ⟨hx, -⟩, hsid⟩)
      · split
        · rename_i hsid
          exact List.mem_append_left _ (hsid ▸ h)
        · exact h
      · rw [List.mem_singleton.mp hk] at hx ⊢
        rw [hr] at hx
        cases hx
        rw [if_pos hsid.symm]
        exact List.mem_append_right _ (List.mem_singleton_self _)
  · rw [GoMap.lookup_insert_ite] at h
    split at h
    · rename_i hsid
      exact .inr ⟨key, r, hr, hsid.symm⟩
    · exact .inl h

/-- Any other replica is deleted. -/
theorem swept_dropped (hr : s.replicas.lookup key = some r) (hint : s.isInterestedIn r now ≠ true) :
    Swept now [key] s { s with replicas := s.replicas.erase key } still still := by
  have hkeeps : ∀ k ∈ [key], ∀ x, ¬ s.Keeps now k x := by
    rintro k hk x ⟨hx, hxint⟩
    rw [List.mem_singleton.mp hk, hr] at hx
    cases hx
    exact hint hxint
  refine ⟨rfl, fun k hk x => ?_, fun k hk => ?_, fun sid k => ?_, fun _ h => .inl h⟩
  · rw [List.mem_singleton.mp hk, AList.lookup_erase]
    exact iff_of_false (by simp) (hkeeps key (List.mem_singleton_self _) x)
  · exact AList.lookup_erase_ne (by simpa using hk)
  · constructor
    · exact .inl
    · rintro (h | ⟨hk, x, h, -⟩)
      · exact h
      · exact absurd h (hkeeps k hk x)

/-- One replica: it is kept and noted for its owner, or deleted. -/
theorem swept_one (hkeyed : s.ReplicasKeyed) :
    Swept now [key] s (cleanupReplica now (s, still) key).1 still
      (cleanupReplica now (s, still) key).2 := by
  rw [cleanupReplica]
  cases hr : s.replicas.lookup key with
  | none => exact swept_absent still hr
  | some r =>
    dsimp only
    rw [hkeyed key r hr]
    by_cases hint : s.isInterestedIn r now = true
    · rw [if_neg (by simp [hint])]
      exact swept_kept still hr hint
    · rw [if_pos (by simp [hint])]
      exact swept_dropped still hr hint

end

/-- The first replica, then the others. -/
theorem Swept.cons {now : Int64} {key : UInt32} {keys : List UInt32} {s s₁ s' : Colyseus}
    {still still₁ still' : GoMap Int32 (List UInt32)} (hone : Swept now [key] s s₁ still still₁)
    (hrest : Swept now keys s₁ s' still₁ still') (hnotin : key ∉ keys) :
    Swept now (key :: keys) s s' still still' := by
  have hsame : ∀ k ∈ keys, ∀ r, s₁.Keeps now k r ↔ s.Keeps now k r := by
    intro k hk r
    have hne : k ∉ [key] := fun h => hnotin (List.mem_singleton.mp h ▸ hk)
    have hint : s₁.isInterestedIn r now = s.isInterestedIn r now := by
      rw [hone.frame]
      rfl
    rw [Keeps, Keeps, hone.others k hne, hint]
  refine ⟨?_, fun k hk r => ?_, fun k hk => ?_, fun sid k => ?_, fun sid h => ?_⟩
  · rw [hrest.frame, hone.frame]
  · rcases List.mem_cons.mp hk with rfl | hk
    · rw [hrest.others k hnotin]
      exact hone.visited k (List.mem_singleton_self _) r
    · rw [hrest.visited k hk r]
      exact hsame k hk r
  · rw [List.mem_cons, not_or] at hk
    rw [hrest.others k hk.2, hone.others k (by simpa using hk.1)]
  · rw [hrest.noted, hone.noted, or_assoc, List.mem_singleton, List.mem_cons, or_and_right]
    refine or_congr_right (or_congr_right (and_congr_right fun hk => ?_))
    exact exists_congr fun r => and_congr_left fun _ => hsame k hk r
  · rcases hrest.owners sid h with h | ⟨k, r, hr, hsid⟩
    · exact hone.owners sid h
    · by_cases hk : k ∈ [key]
      · obtain ⟨hr, -⟩ := (hone.visited k hk r).mp hr
        exact .inr ⟨k, r, hr, hsid⟩
      · exact .inr ⟨k, r, hone.others k hk ▸ hr, hsid⟩

theorem cleanup_fold (now : Int64) : ∀ (keys : List UInt32) (s : Colyseus)
    (still : GoMap Int32 (List UInt32)), keys.Nodup → s.ReplicasKeyed →
    Swept now keys s (keys.foldl (cleanupReplica now) (s, still)).1 still
      (keys.foldl (cleanupReplica now) (s, still)).2 := by
  intro keys
  induction keys with
  | nil => intro s still _ _; exact swept_nil now s still
  | cons key keys ih =>
    intro s still hnd hkeyed
    obtain ⟨hnotin, hnd⟩ := List.nodup_cons.mp hnd
    have hone : Swept now [key] s _ still _ := swept_one still hkeyed
    have hkeyed₁ : (cleanupReplica now (s, still) key).1.ReplicasKeyed := by
      intro k r hr
      by_cases hk : k ∈ [key]
      · exact hkeyed k r ((hone.visited k hk r).mp hr).1
      · exact hkeyed k r (hone.others k hk ▸ hr)
    exact hone.cons (ih _ _ hnd hkeyed₁) hnotin

/-- An iteration visits every replica. -/
theorem cleanup_spec {s : Colyseus} (hkeyed : s.ReplicasKeyed) (now : Int64) :
    (s.cleanup now).1 = { s with replicas := (s.cleanup now).1.replicas } ∧
      (∀ k r, (s.cleanup now).1.replicas.lookup k = some r ↔ s.Keeps now k r) ∧
      (∀ sid k, k ∈ (s.cleanup now).2.index sid [] ↔ ∃ r, s.Keeps now k r ∧ r.sid = sid) ∧
      ∀ sid, ((s.cleanup now).2.lookup sid).isSome →
        ∃ k r, s.replicas.lookup k = some r ∧ r.sid = sid := by
  have hswept := cleanup_fold now s.replicas.keys s ∅ s.replicas.keys_nodup hkeyed
  rw [← cleanup] at hswept
  have hkeys : ∀ {k r}, s.replicas.lookup k = some r → k ∈ s.replicas.keys := fun {k r} h =>
    GoMap.mem_keys_iff.mpr (by rw [h]; rfl)
  refine ⟨hswept.frame, fun k r => ?_, fun sid k => ?_, fun sid h => ?_⟩
  · by_cases hk : k ∈ s.replicas.keys
    · exact hswept.visited k hk r
    · rw [hswept.others k hk]
      exact ⟨fun h => absurd (hkeys h) hk, fun h => absurd (hkeys h.1) hk⟩
  · rw [hswept.noted]
    constructor
    · rintro (h | ⟨-, h⟩)
      · exact absurd h List.not_mem_nil
      · exact h
    · rintro ⟨r, hr, hsid⟩
      exact .inr ⟨hkeys hr.1, r, hr, hsid⟩
  · rcases hswept.owners sid h with h | h
    · cases h
    · exact h

end Colyseus

end DistGame
