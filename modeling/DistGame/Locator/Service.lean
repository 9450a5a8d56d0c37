import DistGame.Server.Messages
import DistGame.Locator.Steps

/-! The handlers of the locator service (`demo/locator/locator.go`). `Publish` and `Subscribe` go
    through the items of a request; each item is first queried and then inserted, each under the
    root lock, which is free in between. A handler is therefore a process (`Call`) whose atomic steps
    are quadtree operations, and handlers run concurrently with each other and with `CleanupLoop`. -/

namespace DistGame

/-- `proto.GameObjectMsg` of the locator. -/
structure GameObjectMsg where
  guid : UInt32
  sid : Int32
  x : ℚ
  y : ℚ
  w : ℚ
  h : ℚ
  deriving DecidableEq

/-- `proto.StorableMsg`; the sub-message may be absent. -/
structure StorableMsg where
  gameObject : Option GameObjectMsg
  ttl : Int64
  deriving DecidableEq

/-- The `Storable` a handler builds from an item; an absent sub-message is a nil dereference. -/
def StorableMsg.storable (isSubscription : Bool) (item : StorableMsg) : Option Storable :=
  item.gameObject.map fun gameObject =>
    { rect := ⟨gameObject.x, gameObject.y, gameObject.w, gameObject.h⟩
      sid := gameObject.sid
      guid := gameObject.guid
      ttl := item.ttl
      isSubscription }

/-! ### One request -/

/-- A request in progress: the items left, whether the first of them has been queried, and what was
    collected so far. -/
structure Call (α : Type) where
  pending : List StorableMsg
  queried : Bool
  collected : α

namespace Call
variable {α : Type}

/-- A request before its first step. -/
def start (items : List StorableMsg) (collected : α) : Call α := ⟨items, false, collected⟩

/-- The next atomic step of a request: `Query` with what `matching` does to the collection, or
    `Insert`, whose answer is ignored. -/
def step (isSubscription : Bool)
    (matching : Locator → Int64 → Storable → α → Option (Locator × α))
    (l : Locator) (call : Call α) (now : Int64) : Option (Locator × Call α) :=
  match call.pending with
  | [] => none
  | item :: rest => do
    let trigger ← item.storable isSubscription
    if call.queried then
      let (l, _) ← l.insert now trigger
      some (l, { call with pending := rest, queried := false })
    else
      let (l, collected) ← matching l now trigger call.collected
      some (l, { call with queried := true, collected })

/-- The quadtree operation of the next step. -/
def op (isSubscription : Bool) (call : Call α) (now : Int64) : Option Op :=
  match call.pending with
  | [] => none
  | item :: _ => (item.storable isSubscription).map fun trigger =>
      if call.queried then .insert now trigger else .query now trigger

/-- The request on its `k`-th turn: item `k / 2` is next, to be inserted on an odd turn. -/
def turn (items : List StorableMsg) (k : ℕ) (collected : α) : Call α :=
  ⟨items.drop (k / 2), k % 2 == 1, collected⟩

end Call

/-! ### Publish and Subscribe -/

/-- The inner loop of `Publish`: one match for the server of each entry found. -/
def addMatches (pub : Storable) (found : List Storable) (matches' : GoMap Int32 (List MatchMsg)) :
    GoMap Int32 (List MatchMsg) :=
  found.foldl (fun matches' f =>
    matches'.insert f.sid (matches'.index f.sid [] ++ [⟨pub.guid, pub.sid⟩])) matches'

/-- The query of `Publish` and the collection of its matches. -/
def Locator.publishQuery (l : Locator) (now : Int64) (pub : Storable)
    (matches' : GoMap Int32 (List MatchMsg)) : Option (Locator × GoMap Int32 (List MatchMsg)) := do
  let (l, found) ← l.query now pub []
  some (l, addMatches pub found matches')

/-- The calls at the end of `Publish`: each server with matches is notified through its client; a
    missing client is a nil interface. -/
def Locator.notifications (l : Locator) (matches' : GoMap Int32 (List MatchMsg)) :
    Option (List (Int32 × List MatchMsg)) :=
  matches'.entries.mapM fun ⟨sid, sMatches⟩ => (l.servers.lookup sid).map fun server =>
    (server, sMatches)

/-- The query of `Subscribe`, which appends to the entries found for earlier items. -/
def Locator.subscribeQuery (l : Locator) (now : Int64) (sub : Storable) (found : List Storable) :
    Option (Locator × List Storable) :=
  l.query now sub found

/-- The `SubscribeResponse`. -/
def subscribeResponse (found : List Storable) : List MatchMsg := found.map fun f => ⟨f.guid, f.sid⟩

/-- One Publish and one Subscribe request at a locator. -/
structure Service where
  locator : Locator
  publish : Call (GoMap Int32 (List MatchMsg))
  subscribe : Call (List Storable)

/-- Who runs next, at which clock reading: one of the two requests, or a quadtree operation of
    another request or of `CleanupLoop`. -/
inductive Move where
  | publish (now : Int64)
  | subscribe (now : Int64)
  | other (op : Op)

def Move.now : Move → Int64
  | .publish now => now
  | .subscribe now => now
  | .other op => op.now

/-- The Publish request's turn. -/
def Move.isPublish : Move → Bool
  | .publish _ => true
  | _ => false

/-- The Subscribe request's turn. -/
def Move.isSubscribe : Move → Bool
  | .subscribe _ => true
  | _ => false

namespace Service

/-- Two requests that have just arrived. -/
def start (l : Locator) (publications subscriptions : List StorableMsg) : Service :=
  ⟨l, .start publications ∅, .start subscriptions []⟩

def step (s : Service) : Move → Option Service
  | .publish now => (s.publish.step false Locator.publishQuery s.locator now).map
      fun (locator, publish) => { s with locator, publish }
  | .subscribe now => (s.subscribe.step true Locator.subscribeQuery s.locator now).map
      fun (locator, subscribe) => { s with locator, subscribe }
  | .other op => (s.locator.step op).map fun locator => { s with locator }

/-- The quadtree operation of a move. -/
def op (s : Service) : Move → Option Op
  | .publish now => s.publish.op false now
  | .subscribe now => s.subscribe.op true now
  | .other op => some op

end Service

/-! ### What a step does -/

section
variable {α : Type} {c : ℤ} {b : Rectangle} {isSubscription : Bool}
  {matching : Locator → Int64 → Storable → α → Option (Locator × α)} {l l' : Locator} {now : Int64}

/-- A step queries the first item or inserts it. -/
theorem call_step_cases {call call' : Call α}
    (h : call.step isSubscription matching l now = some (l', call')) :
    ∃ item rest trigger, call.pending = item :: rest ∧
      item.storable isSubscription = some trigger ∧
      ((call.queried = false ∧ ∃ x', matching l now trigger call.collected = some (l', x') ∧
          call' = ⟨item :: rest, true, x'⟩) ∨
        (call.queried = true ∧ (∃ ok, l.insert now trigger = some (l', ok)) ∧
          call' = ⟨rest, false, call.collected⟩)) := by
  obtain ⟨pending, queried, collected⟩ := call
  cases pending with
  | nil => simp [Call.step] at h
  | cons item rest =>
    simp only [Call.step, Option.bind_eq_bind, Option.bind_eq_some_iff] at h
    obtain ⟨trigger, htrig, h⟩ := h
    refine ⟨item, rest, trigger, rfl, htrig, ?_⟩
    cases queried with
    | false =>
      rw [if_neg (by simp)] at h
      obtain ⟨⟨l₁, x'⟩, hm, h⟩ := Option.bind_eq_some_iff.mp h
      cases h
      exact .inl ⟨rfl, x', hm, rfl⟩
    | true =>
      rw [if_pos rfl] at h
      obtain ⟨⟨l₁, ok⟩, hins, h⟩ := Option.bind_eq_some_iff.mp h
      cases h
      exact .inr ⟨rfl, ⟨ok, hins⟩, rfl⟩

/-- A step is the operation on the next item, which stays pending until it is inserted. -/
theorem call_step_pending {call call' : Call α}
    (h : call.step isSubscription matching l now = some (l', call')) :
    ∃ item trigger, item ∈ call.pending ∧ item.storable isSubscription = some trigger ∧
      call'.pending ⊆ call.pending ∧
      ((call.op isSubscription now = some (.query now trigger) ∧
          matching l now trigger call.collected = some (l', call'.collected)) ∨
        (call.op isSubscription now = some (.insert now trigger) ∧
          (∃ ok, l.insert now trigger = some (l', ok)) ∧ call'.collected = call.collected)) := by
  obtain ⟨item, rest, trigger, hp, htrig, hcase⟩ := call_step_cases h
  refine ⟨item, trigger, by simp [hp], htrig, ?_⟩
  rcases hcase with ⟨hq, x', hrun, rfl⟩ | ⟨hq, hins, rfl⟩
  · exact ⟨by simp [hp], .inl ⟨by simp [Call.op, hp, htrig, hq], hrun⟩⟩
  · exact ⟨by simp [hp], .inr ⟨by simp [Call.op, hp, htrig, hq], hins, rfl⟩⟩

/-- A step of a request is one quadtree operation. -/
theorem call_step_op {call call' : Call α}
    (hm : ∀ trigger x x', matching l now trigger x = some (l', x') →
      l.step (.query now trigger) = some l')
    (h : call.step isSubscription matching l now = some (l', call')) :
    ∃ op, call.op isSubscription now = some op ∧ op.now = now ∧ l.step op = some l' := by
  obtain ⟨item, trigger, -, -, -, hcase⟩ := call_step_pending h
  rcases hcase with ⟨hop, hrun⟩ | ⟨hop, ⟨ok, hins⟩, -⟩
  · exact ⟨.query now trigger, hop, rfl, hm _ _ _ hrun⟩
  · refine ⟨.insert now trigger, hop, rfl, ?_⟩
    rw [Locator.step, hins]
    rfl

/-- The `k`-th turn of a request is about item `k / 2`: an even turn queries it, an odd turn inserts
    it. -/
theorem call_step_turn {items : List StorableMsg} {k : ℕ} {x : α} {call' : Call α}
    (h : (Call.turn items k x).step isSubscription matching l now = some (l', call')) :
    ∃ item trigger x', items[k / 2]? = some item ∧ item.storable isSubscription = some trigger ∧
      call' = Call.turn items (k + 1) x' ∧
      ((k % 2 = 0 ∧ matching l now trigger x = some (l', x')) ∨
        (k % 2 = 1 ∧ x' = x ∧ ∃ ok, l.insert now trigger = some (l', ok))) := by
  obtain ⟨item, rest, trigger, hdrop, htrig, hcase⟩ := call_step_cases h
  have hitem : items[k / 2]? = some item := by
    rw [← List.head?_drop, show items.drop (k / 2) = item :: rest from hdrop]; rfl
  have hrest : items.drop (k / 2 + 1) = rest := by
    rw [← List.tail_drop, show items.drop (k / 2) = item :: rest from hdrop]; rfl
  rcases hcase with ⟨hq, x', hrun, rfl⟩ | ⟨hq, hins, rfl⟩
  · have hk : k % 2 = 0 := by simpa [Call.turn] using hq
    have hhalf : (k + 1) / 2 = k / 2 := by omega
    have hodd : (k + 1) % 2 = 1 := by omega
    refine ⟨item, trigger, x', hitem, htrig, ?_, .inl ⟨hk, hrun⟩⟩
    show (⟨item :: rest, true, x'⟩ : Call α) = Call.turn items (k + 1) x'
    rw [Call.turn, hhalf, hodd, show items.drop (k / 2) = item :: rest from hdrop]
    rfl
  · have hk : k % 2 = 1 := by simpa [Call.turn] using hq
    have hhalf : (k + 1) / 2 = k / 2 + 1 := by omega
    have heven : (k + 1) % 2 = 0 := by omega
    refine ⟨item, trigger, x, hitem, htrig, ?_, .inr ⟨hk, rfl, hins⟩⟩
    show (⟨rest, false, x⟩ : Call α) = Call.turn items (k + 1) x
    rw [Call.turn, hhalf, heven, hrest]
    rfl

/-- The operation of the `k`-th turn. -/
theorem call_op_turn {items : List StorableMsg} {k : ℕ} (x : α) {trigger : Storable}
    (h : (items[k / 2]?).bind (StorableMsg.storable isSubscription) = some trigger) :
    (Call.turn items k x).op isSubscription now =
      some (if k % 2 = 1 then .insert now trigger else .query now trigger) := by
  obtain ⟨item, hitem, htrig⟩ := Option.bind_eq_some_iff.mp h
  obtain ⟨hlt, hget⟩ := List.getElem?_eq_some_iff.mp hitem
  have hdrop : items.drop (k / 2) = item :: items.drop (k / 2 + 1) := by
    rw [List.drop_eq_getElem_cons hlt, hget]
  simp [Call.op, Call.turn, hdrop, htrig]

theorem addMatches_eq (pub : Storable) (found : List Storable)
    (matches' : GoMap Int32 (List MatchMsg)) : addMatches pub found matches' =
      GoMap.pushAll Storable.sid (fun _ => ⟨pub.guid, pub.sid⟩) matches' found := rfl

/-- A server gets one match for each entry of its own that was found. -/
theorem index_addMatches (pub : Storable) (sid : Int32) (found : List Storable)
    (matches' : GoMap Int32 (List MatchMsg)) :
    (addMatches pub found matches').index sid [] = matches'.index sid [] ++
      List.replicate (found.countP fun f => f.sid == sid) ⟨pub.guid, pub.sid⟩ := by
  rw [addMatches_eq, GoMap.pushAll_index, List.map_const', List.countP_eq_length_filter]
  rfl

/-- The queries of both handlers are quadtree queries. -/
theorem publishQuery_step {pub : Storable} {x x' : GoMap Int32 (List MatchMsg)}
    (h : l.publishQuery now pub x = some (l', x')) : l.step (.query now pub) = some l' := by
  obtain ⟨⟨l₁, found⟩, hq, h⟩ := Option.bind_eq_some_iff.mp h
  cases h
  rw [Locator.step, hq]
  rfl

theorem subscribeQuery_step (hwf : WF c b l.root) {sub : Storable} {x x' : List Storable}
    (h : l.subscribeQuery now sub x = some (l', x')) : l.step (.query now sub) = some l' := by
  obtain ⟨t', hq, -, -⟩ := locator_query_spec hwf now sub
  rw [Locator.subscribeQuery, hq x] at h
  cases h
  rw [Locator.step, hq []]
  rfl

/-- Every move is one quadtree operation at the clock reading of the move. -/
theorem service_step_op {s s' : Service} {m : Move} (hwf : WF c b s.locator.root)
    (h : s.step m = some s') :
    ∃ op, s.op m = some op ∧ op.now = m.now ∧ s.locator.step op = some s'.locator := by
  cases m with
  | publish now =>
    obtain ⟨⟨l', call'⟩, hstep, rfl⟩ := Option.map_eq_some_iff.mp h
    exact call_step_op (fun _ _ _ => publishQuery_step) hstep
  | subscribe now =>
    obtain ⟨⟨l', call'⟩, hstep, rfl⟩ := Option.map_eq_some_iff.mp h
    exact call_step_op (fun _ _ _ => subscribeQuery_step hwf) hstep
  | other op =>
    obtain ⟨l', hstep, rfl⟩ := Option.map_eq_some_iff.mp h
    exact ⟨op, rfl, rfl, hstep⟩

/-- A run of moves is a run of quadtree operations; what the moves meet, the operations meet. -/
theorem service_run (hc : 1 ≤ c) {C : Locator → Op → Prop} :
    ∀ {moves : List Move} {s s' : Service}, WF c b s.locator.root →
      Meets Service.step (fun s m => ∀ op, s.op m = some op → C s.locator op) s moves →
      run Service.step s moves = some s' →
      ∃ ops, run Locator.step s.locator ops = some s'.locator ∧
        Meets Locator.step C s.locator ops ∧ ops.map Op.now = moves.map Move.now
  | [], _, _, _, _, hrun => by cases hrun; exact ⟨[], rfl, trivial, rfl⟩
  | m :: moves, s, s', hwf, hC, hrun => by
    obtain ⟨s₁, hstep, hrun⟩ := run_cons_eq_some.mp hrun
    obtain ⟨op, hop, hnow, hl⟩ := service_step_op hwf hstep
    obtain ⟨ops, hops, hmeets, htimes⟩ := service_run hc (step_cases hc hwf hl).1
      (hC.2 s₁ hstep) hrun
    refine ⟨op :: ops, run_cons_eq_some.mpr ⟨_, hl, hops⟩, ⟨hC.1 op hop, fun l' hl' => ?_⟩, ?_⟩
    · rw [hl] at hl'
      cases hl'
      exact hmeets
    · rw [List.map_cons, List.map_cons, hnow, htimes]

/-- Moves keep the tree well formed. -/
theorem service_run_wf (hc : 1 ≤ c) {moves : List Move} {s s' : Service}
    (hwf : WF c b s.locator.root) (hrun : run Service.step s moves = some s') :
    WF c b s'.locator.root := by
  refine run_preserves (P := fun s : Service => WF c b s.locator.root) (fun s m s' hP hs => ?_) hwf hrun
  obtain ⟨op, -, -, hl⟩ := service_step_op hP hs
  exact (step_cases hc hP hl).1

/-- After some moves each request is on the turn that its own moves have brought it to. -/
theorem service_run_turns {items items' : List StorableMsg} :
    ∀ {moves : List Move} {s s' : Service} {k k' : ℕ} {x : GoMap Int32 (List MatchMsg)}
      {x' : List Storable},
      s.publish = Call.turn items k x → s.subscribe = Call.turn items' k' x' →
      run Service.step s moves = some s' →
      (∃ y, s'.publish = Call.turn items (k + moves.countP Move.isPublish) y) ∧
        ∃ y', s'.subscribe = Call.turn items' (k' + moves.countP Move.isSubscribe) y'
  | [], _, _, _, _, x, x', hp, hs, hrun => by cases hrun; exact ⟨⟨x, hp⟩, x', hs⟩
  | m :: moves, s, s', k, k', x, x', hp, hs, hrun => by
    obtain ⟨s₁, hstep, hrun⟩ := run_cons_eq_some.mp hrun
    rw [List.countP_cons, List.countP_cons]
    cases m with
    | publish now =>
      obtain ⟨⟨l', call'⟩, hcall, rfl⟩ := Option.map_eq_some_iff.mp hstep
      rw [hp] at hcall
      obtain ⟨_, _, y, _, _, hturn, _⟩ := call_step_turn hcall
      have := service_run_turns (s := { s with locator := l', publish := call' }) hturn hs hrun
      simpa [Move.isPublish, Move.isSubscribe, Nat.add_comm, Nat.add_left_comm] using this
    | subscribe now =>
      obtain ⟨⟨l', call'⟩, hcall, rfl⟩ := Option.map_eq_some_iff.mp hstep
      rw [hs] at hcall
      obtain ⟨_, _, y, _, _, hturn, _⟩ := call_step_turn hcall
      have := service_run_turns (s := { s with locator := l', subscribe := call' }) hp hturn hrun
      simpa [Move.isPublish, Move.isSubscribe, Nat.add_comm, Nat.add_left_comm] using this
    | other op =>
      obtain ⟨l', hl, rfl⟩ := Option.map_eq_some_iff.mp hstep
      have := service_run_turns (s := { s with locator := l' }) hp hs hrun
      simpa [Move.isPublish, Move.isSubscribe] using this

/-- What a request has collected stays collected. -/
theorem service_run_collected (hc : 1 ≤ c) :
    ∀ {moves : List Move} {s s' : Service}, WF c b s.locator.root →
      run Service.step s moves = some s' →
      (∀ sid, ∀ m ∈ s.publish.collected.index sid [], m ∈ s'.publish.collected.index sid []) ∧
        ∀ e ∈ s.subscribe.collected, e ∈ s'.subscribe.collected
  | [], _, _, _, hrun => by cases hrun; exact ⟨fun _ _ h => h, fun _ h => h⟩
  | m :: moves, s, s', hwf, hrun => by
    obtain ⟨s₁, hstep, hrun⟩ := run_cons_eq_some.mp hrun
    obtain ⟨op, -, -, hl⟩ := service_step_op hwf hstep
    obtain ⟨hpub, hsub⟩ := service_run_collected hc (step_cases hc hwf hl).1 hrun
    suffices (∀ sid, ∀ m ∈ s.publish.collected.index sid [],
        m ∈ s₁.publish.collected.index sid []) ∧
        ∀ e ∈ s.subscribe.collected, e ∈ s₁.subscribe.collected from
      ⟨fun sid m h => hpub sid m (this.1 sid m h), fun e h => hsub e (this.2 e h)⟩
    cases m with
    | publish now =>
      obtain ⟨⟨l', call'⟩, hcall, rfl⟩ := Option.map_eq_some_iff.mp hstep
      refine ⟨fun sid m h => ?_, fun _ h => h⟩
      obtain ⟨_, _, pub, _, _, hcase⟩ := call_step_cases hcall
      rcases hcase with ⟨-, x', hq, rfl⟩ | ⟨-, -, rfl⟩
      · obtain ⟨⟨l₁, found⟩, -, hq⟩ := Option.bind_eq_some_iff.mp hq
        cases hq
        show m ∈ (addMatches pub found s.publish.collected).index sid []
        rw [index_addMatches]
        exact List.mem_append_left _ h
      · exact h
    | subscribe now =>
      obtain ⟨⟨l', call'⟩, hcall, rfl⟩ := Option.map_eq_some_iff.mp hstep
      refine ⟨fun _ _ h => h, fun e h => ?_⟩
      obtain ⟨_, _, sub, _, _, hcase⟩ := call_step_cases hcall
      rcases hcase with ⟨-, x', hq, rfl⟩ | ⟨-, -, rfl⟩
      · obtain ⟨t', hq', -, -⟩ := locator_query_spec hwf now sub
        rw [Locator.subscribeQuery, hq'] at hq
        cases hq
        exact List.mem_append_left _ h
      · exact h
    | other op =>
      obtain ⟨l', -, rfl⟩ := Option.map_eq_some_iff.mp hstep
      exact ⟨fun _ _ h => h, fun _ h => h⟩

end

end DistGame
