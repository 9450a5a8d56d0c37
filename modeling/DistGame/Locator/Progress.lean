import DistGame.Locator.Requests

/-! When a Publish or Subscribe request is handled to its end. A handler reads the sub-message of an
    item before each of its two operations on the tree, outside the locks, and those operations
    never fail: it gets stuck on an item without a `GameObject`, and on nothing else. -/

namespace DistGame
open QTree Quadtree

/-- The steps that a request still has to make: two for each item, less the query made already. -/
def Call.turns {α : Type} (call : Call α) : ℕ :=
  2 * call.pending.length - call.queried.toNat

def Handling.turns : Handling → ℕ
  | .publish _ call => call.turns
  | .subscribe _ call => call.turns

/-- An item with its sub-message makes a trigger. -/
theorem exists_storable {item : StorableMsg} (isSubscription : Bool) (h : item.gameObject.isSome) :
    ∃ trigger, item.storable isSubscription = some trigger := by
  obtain ⟨gameObject, hobj⟩ := Option.isSome_iff_exists.mp h
  exact ⟨_, by rw [StorableMsg.storable, hobj]; rfl⟩

section
variable {α : Type} {c : ℤ} {b : Rectangle} (isSubscription : Bool)
  {matching : Locator → Int64 → Storable → α → Option (Locator × α)} {l : Locator} {now : Int64}

/-- An item without its sub-message stops the handler. -/
theorem call_step_absent {call : Call α} {item : StorableMsg} {rest : List StorableMsg}
    (hp : call.pending = item :: rest) (h : item.gameObject = none) :
    call.step isSubscription matching l now = none := by
  simp [Call.step, hp, StorableMsg.storable, h]

/-- Any other item brings it one step further. -/
theorem call_step_present (hc : 1 ≤ c) (hwf : WF c b l.root)
    (hm : ∀ trigger x, ∃ l' x', matching l now trigger x = some (l', x') ∧ WF c b l'.root)
    {call : Call α} {item : StorableMsg} {rest : List StorableMsg}
    (hp : call.pending = item :: rest) (h : item.gameObject.isSome) :
    ∃ l' call', call.step isSubscription matching l now = some (l', call') ∧ WF c b l'.root ∧
      call'.turns + 1 = call.turns ∧ (call'.pending = item :: rest ∨ call'.pending = rest) := by
  obtain ⟨trigger, htrig⟩ := exists_storable isSubscription h
  obtain ⟨pending, queried, collected⟩ := call
  cases hp
  cases queried with
  | false =>
    obtain ⟨l', x', hrun, hwf'⟩ := hm trigger collected
    refine ⟨l', ⟨item :: rest, true, x'⟩, by simp [Call.step, htrig, hrun], hwf', ?_, .inl rfl⟩
    simp only [Call.turns, List.length_cons, Bool.toNat_true, Bool.toNat_false]
    omega
  | true =>
    obtain ⟨l₁, hstep, hwf'⟩ := step_total hc (.insert now trigger) hwf
    obtain ⟨⟨l', ok⟩, hins, rfl⟩ := Option.map_eq_some_iff.mp hstep
    refine ⟨l', ⟨rest, false, collected⟩, ?_, hwf', ?_, .inr rfl⟩
    · rw [Call.step]
      simp only [htrig, hins, Option.bind_eq_bind, Option.bind_some, if_true]
    · simp only [Call.turns, List.length_cons, Bool.toNat_true, Bool.toNat_false]
      omega

end

section
variable {c : ℤ} {b : Rectangle} {l : Locator} {now : Int64}

theorem handling_step_absent {r : Handling} {item : StorableMsg} {rest : List StorableMsg}
    (hp : r.pending = item :: rest) (h : item.gameObject = none) : r.step l now = none := by
  cases r with
  | publish items call => simp [Handling.step, call_step_absent _ hp h]
  | subscribe items call => simp [Handling.step, call_step_absent _ hp h]

theorem handling_step_present (hc : 1 ≤ c) (hwf : WF c b l.root) (now : Int64) {r : Handling}
    {item : StorableMsg} {rest : List StorableMsg} (hp : r.pending = item :: rest)
    (h : item.gameObject.isSome) :
    ∃ l' r', r.step l now = some (l', r') ∧ WF c b l'.root ∧ r'.turns + 1 = r.turns ∧
      (r'.pending = item :: rest ∨ r'.pending = rest) := by
  cases r with
  | publish items call =>
    have hm : ∀ trigger x, ∃ l' x', l.publishQuery now trigger x = some (l', x') ∧
        WF c b l'.root := by
      intro trigger x
      obtain ⟨t', hrun, hwf', -⟩ := locator_query_spec hwf now trigger
      exact ⟨_, _, by rw [Locator.publishQuery, hrun]; rfl, hwf'⟩
    obtain ⟨l', call', hstep, hcall⟩ := call_step_present false hc hwf hm hp h
    exact ⟨l', .publish items call', by simp [Handling.step, hstep], hcall⟩
  | subscribe items call =>
    have hm : ∀ trigger x, ∃ l' x', l.subscribeQuery now trigger x = some (l', x') ∧
        WF c b l'.root := by
      intro trigger x
      obtain ⟨t', hrun, hwf', -⟩ := locator_query_spec hwf now trigger
      exact ⟨_, _, hrun x, hwf'⟩
    obtain ⟨l', call', hstep, hcall⟩ := call_step_present true hc hwf hm hp h
    exact ⟨l', .subscribe items call', by simp [Handling.step, hstep], hcall⟩

theorem turns_of_pending {r : Handling} {item : StorableMsg} {rest : List StorableMsg}
    (hp : r.pending = item :: rest) : 0 < r.turns := by
  have hcall : ∀ {α : Type} (call : Call α), call.pending = item :: rest → 0 < call.turns := by
    intro α call h
    rw [Call.turns, h, List.length_cons]
    cases call.queried <;> simp only [Bool.toNat_true, Bool.toNat_false] <;> omega
  cases r with
  | publish items call => exact hcall call hp
  | subscribe items call => exact hcall call hp

/-- Its own steps bring a request to its end exactly when each item left has its sub-message. -/
theorem handling_ends_iff (hc : 1 ≤ c) {i : ℕ} :
    ∀ (nows : List Int64) {s : LocatorServer} {r : Handling}, WF c b s.locator.root →
      s.requests[i]? = some r → nows.length = r.turns →
      ((∃ s', run LocatorServer.step s (nows.map (Activity.handle i)) = some s' ∧
          s'.requests[i]?.map Handling.pending = some []) ↔
        ∀ item ∈ r.pending, item.gameObject.isSome)
  | [], s, r, _, hr, hlen => by
    have hp : r.pending = [] := by
      cases hp : r.pending with
      | nil => rfl
      | cons item rest => have := turns_of_pending hp; simp at hlen; omega
    simp [run, hr, hp]
  | now :: nows, s, r, hwf, hr, hlen => by
    obtain ⟨hlt, -⟩ := List.getElem?_eq_some_iff.mp hr
    cases hp : r.pending with
    | nil =>
      have : r.turns = 0 := by
        cases r with
        | publish items call => simp [Handling.turns, Call.turns, show call.pending = [] from hp]
        | subscribe items call => simp [Handling.turns, Call.turns, show call.pending = [] from hp]
      simp at hlen
      omega
    | cons item rest =>
      cases hobj : item.gameObject with
      | none =>
        have hstuck : s.step (.handle i now) = none := by
          simp [LocatorServer.step, hr, handling_step_absent hp hobj]
        simp [run, hstuck, hobj]
      | some gameObject =>
        obtain ⟨l', r', hstep, hwf', hturns, hpend⟩ := handling_step_present hc hwf now hp
          (by rw [hobj]; rfl)
        have hserver : s.step (.handle i now) = some ⟨l', s.requests.set i r'⟩ := by
          simp [LocatorServer.step, hr, hstep]
        have ih := handling_ends_iff hc nows (s := ⟨l', s.requests.set i r'⟩) hwf'
          (List.getElem?_set_self hlt) (by simp at hlen; omega)
        have hitem : item.gameObject.isSome := by rw [hobj]; rfl
        rw [List.map_cons]
        simp only [run, hserver, Option.bind_some]
        rw [ih]
        rcases hpend with hpend | hpend <;> simp [hpend, hitem]

end

end DistGame
