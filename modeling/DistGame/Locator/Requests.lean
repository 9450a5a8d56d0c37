import DistGame.Locator.Contents
import DistGame.Locator.Lifetime
import DistGame.Locator.Search
import DistGame.Locator.Service

/-! The locator as a server: any number of Publish and Subscribe requests in progress, connections
    made by `ConnectToServer`, and the passes of `CleanupLoop`. `LocatorServer.logged` is the step
    together with the history of queries and accepted insertions, the newest first. It ties every
    stored entry, and through it every reported match, to the request that it came from. -/

namespace DistGame
open QTree Quadtree

/-- A Publish or Subscribe request being handled: its items and the state of its handler. -/
inductive Handling where
  | publish (items : List StorableMsg) (call : Call (GoMap Int32 (List MatchMsg)))
  | subscribe (items : List StorableMsg) (call : Call (List Storable))

namespace Handling

def items : Handling → List StorableMsg
  | .publish items _ => items
  | .subscribe items _ => items

/-- The items that are not yet inserted. -/
def pending : Handling → List StorableMsg
  | .publish _ call => call.pending
  | .subscribe _ call => call.pending

def isSubscription : Handling → Bool
  | .publish _ _ => false
  | .subscribe _ _ => true

/-- The matches in the response; a PublishResponse is empty. -/
def response : Handling → List MatchMsg
  | .publish _ _ => []
  | .subscribe _ call => subscribeResponse call.collected

/-- The matches for a server, which Publish sends once it is through its items. -/
def notices : Handling → Int32 → List MatchMsg
  | .publish _ call, d => call.collected.index d []
  | .subscribe _ _, _ => []

/-- The servers that a handler has matches for. -/
def matched : Handling → List Int32
  | .publish _ call => call.collected.keys
  | .subscribe _ _ => []

/-- The next atomic step of the handler. -/
def step (r : Handling) (l : Locator) (now : Int64) : Option (Locator × Handling) :=
  match r with
  | .publish items call => (call.step false Locator.publishQuery l now).map
      fun (l, call) => (l, .publish items call)
  | .subscribe items call => (call.step true Locator.subscribeQuery l now).map
      fun (l, call) => (l, .subscribe items call)

/-- The quadtree operation of the next step. -/
def op (r : Handling) (now : Int64) : Option Op :=
  match r with
  | .publish _ call => call.op false now
  | .subscribe _ call => call.op true now

end Handling

/-- The locator and the requests it has received, in the order of their arrival. -/
structure LocatorServer where
  locator : Locator
  requests : List Handling

/-- What happens next: a connection, the arrival of a request, a step of the `i`-th request, or a
    pass of `CleanupLoop`. -/
inductive Activity where
  | connectToServer (sid server : Int32)
  | receivePublish (publications : List StorableMsg)
  | receiveSubscribe (subscriptions : List StorableMsg)
  | handle (i : ℕ) (now : Int64)
  | cleanup (now : Int64)

/-- The clock reading of an activity that reads the clock. -/
def Activity.time : Activity → Option Int64
  | .handle _ now => some now
  | .cleanup now => some now
  | _ => none

/-- The items of a request that arrives. -/
def Activity.items : Activity → List StorableMsg
  | .receivePublish publications => publications
  | .receiveSubscribe subscriptions => subscriptions
  | _ => []

/-- `ConnectToServer`, once the client is made. -/
def Locator.connectToServer (l : Locator) (sid server : Int32) : Locator :=
  { l with servers := l.servers.insert sid server }

/-- What a request did to the tree. -/
inductive Event where
  | queried (request : ℕ) (now : Int64) (query : Storable)
  | inserted (request : ℕ) (now : Int64) (trigger : Storable)

/-- The event of a quadtree operation; a refused `Insert` is none. -/
def Locator.event (l : Locator) (request : ℕ) : Op → Option Event
  | .query now q => some (.queried request now q)
  | .insert now trigger => (l.insert now trigger).bind fun (_, ok) =>
      if ok then some (.inserted request now trigger) else none
  | .cleanup _ => none

namespace LocatorServer

/-- A locator over an empty tree, without requests. -/
def start (boundary : Rectangle) (capacity : ℤ) : LocatorServer := ⟨.start boundary capacity, []⟩

def step (s : LocatorServer) : Activity → Option LocatorServer
  | .connectToServer sid server => some { s with locator := s.locator.connectToServer sid server }
  | .receivePublish publications =>
    some { s with requests := s.requests ++ [.publish publications (.start publications ∅)] }
  | .receiveSubscribe subscriptions =>
    some { s with requests := s.requests ++ [.subscribe subscriptions (.start subscriptions [])] }
  | .handle i now => do
    let r ← s.requests[i]?
    let (locator, r) ← r.step s.locator now
    some ⟨locator, s.requests.set i r⟩
  | .cleanup now => (s.locator.cleanup now).map fun locator => { s with locator }

/-- The event of an activity. -/
def event (s : LocatorServer) : Activity → Option Event
  | .handle i now => do
    let r ← s.requests[i]?
    let op ← r.op now
    s.locator.event i op
  | _ => none

/-- A step with the history of events. -/
def logged : LocatorServer × List Event → Activity → Option (LocatorServer × List Event)
  | (s, log), a => (s.step a).map fun s' => (s', (s.event a).toList ++ log)

end LocatorServer

/-! ### One step of a handler -/

/-- What a handler has collected comes from pairs of a query and an entry it found that satisfy `P`:
    Publish notes its own publication for the entry's server, Subscribe the entry. -/
def Handling.Collected (P : Storable → Storable → Prop) : Handling → Prop
  | .publish _ call => ∀ d, ∀ m ∈ call.collected.index d [],
      ∃ q e, m = ⟨q.guid, q.sid⟩ ∧ e.sid = d ∧ P q e
  | .subscribe _ call => ∀ e ∈ call.collected, ∃ q, P q e

theorem mem_addMatches {pub : Storable} {d : Int32} {found : List Storable}
    {matches' : GoMap Int32 (List MatchMsg)} :
    d ∈ addMatches pub found matches' ↔ d ∈ matches' ∨ ∃ e ∈ found, e.sid = d :=
  GoMap.mem_pushAll Storable.sid _

section
variable {c : ℤ} {b : Rectangle} {l l' : Locator} {r r' : Handling} {now : Int64}
  {P Q : Storable → Storable → Prop}

theorem Handling.Collected.mono (h : ∀ q e, P q e → Q q e) (hr : r.Collected P) :
    r.Collected Q := by
  cases r with
  | publish items call =>
    intro d m hm
    obtain ⟨q, e, heq, hd, hp⟩ := hr d m hm
    exact ⟨q, e, heq, hd, h q e hp⟩
  | subscribe items call =>
    intro e he
    obtain ⟨q, hp⟩ := hr e he
    exact ⟨q, h q e hp⟩

/-- Everything a step of a handler can do: it queries its next item and collects what is found, or
    it inserts the item. -/
theorem handling_step_cases (hwf : WF c b l.root) (h : r.step l now = some (l', r')) :
    ∃ item trigger, item ∈ r.pending ∧ item.storable r.isSubscription = some trigger ∧
      r'.items = r.items ∧ r'.isSubscription = r.isSubscription ∧ r'.pending ⊆ r.pending ∧
      ((r.op now = some (.query now trigger) ∧ (∃ root, l' = { l with root }) ∧ WF c b l'.root ∧
          Pruned (fun e => stale now l.lastUpdates e = true) l.root l'.root ∧
          (∀ d ∈ r'.matched, d ∈ r.matched ∨
            ∃ e ∈ reported now trigger l.lastUpdates l.root, e.sid = d) ∧
          ∀ P, r.Collected P → (∀ e ∈ reported now trigger l.lastUpdates l.root, P trigger e) →
            r'.Collected P) ∨
        (r.op now = some (.insert now trigger) ∧ (∃ ok, l.insert now trigger = some (l', ok)) ∧
          r'.matched = r.matched ∧ ∀ P, r.Collected P → r'.Collected P)) := by
  cases r with
  | publish items call =>
    obtain ⟨⟨l₁, call'⟩, hcall, h⟩ := Option.map_eq_some_iff.mp h
    cases h
    obtain ⟨item, trigger, hitem, htrig, hpend, hcase⟩ := call_step_pending hcall
    refine ⟨item, trigger, hitem, htrig, rfl, rfl, hpend, ?_⟩
    rcases hcase with ⟨hop, hrun⟩ | ⟨hop, hins, hsame⟩
    · obtain ⟨t', hrun', hwf', hpruned⟩ := locator_query_spec hwf now trigger
      rw [Locator.publishQuery, hrun'] at hrun
      obtain ⟨rfl, hcollected⟩ := Prod.mk.inj (Option.some.inj hrun)
      rw [List.nil_append] at hcollected
      refine .inl ⟨hop, ⟨t', rfl⟩, hwf', hpruned, fun d hd => ?_, fun P hP hnew d m hm => ?_⟩
      · rw [Handling.matched, ← hcollected] at hd
        exact mem_addMatches.mp (AList.mem_keys.mpr hd)
      · rw [← hcollected, index_addMatches] at hm
        rcases List.mem_append.mp hm with hm | hm
        · exact hP d m hm
        · obtain ⟨hcount, rfl⟩ := List.mem_replicate.mp hm
          obtain ⟨e, he, hd⟩ := List.countP_pos_iff.mp (Nat.pos_of_ne_zero hcount)
          exact ⟨trigger, e, rfl, by simpa using hd, hnew e he⟩
    · refine .inr ⟨hop, hins, congrArg AList.keys hsame, fun P hP => ?_⟩
      rw [Handling.Collected, hsame]
      exact hP
  | subscribe items call =>
    obtain ⟨⟨l₁, call'⟩, hcall, h⟩ := Option.map_eq_some_iff.mp h
    cases h
    obtain ⟨item, trigger, hitem, htrig, hpend, hcase⟩ := call_step_pending hcall
    refine ⟨item, trigger, hitem, htrig, rfl, rfl, hpend, ?_⟩
    rcases hcase with ⟨hop, hrun⟩ | ⟨hop, hins, hsame⟩
    · obtain ⟨t', hrun', hwf', hpruned⟩ := locator_query_spec hwf now trigger
      rw [Locator.subscribeQuery, hrun'] at hrun
      obtain ⟨rfl, hcollected⟩ := Prod.mk.inj (Option.some.inj hrun)
      refine .inl ⟨hop, ⟨t', rfl⟩, hwf', hpruned, fun d hd => .inl hd, fun P hP hnew e he => ?_⟩
      rw [← hcollected] at he
      rcases List.mem_append.mp he with he | he
      · exact hP e he
      · exact ⟨trigger, hnew e he⟩
    · refine .inr ⟨hop, hins, rfl, fun P hP => ?_⟩
      rw [Handling.Collected, hsame]
      exact hP

/-- A step of a handler is one operation on the tree. -/
theorem handling_step_frame (hc : 1 ≤ c) (hwf : WF c b l.root) (h : r.step l now = some (l', r')) :
    WF c b l'.root ∧ l'.servers = l.servers := by
  obtain ⟨item, trigger, -, -, -, -, -, hcase⟩ := handling_step_cases hwf h
  rcases hcase with ⟨-, ⟨root, rfl⟩, hwf', -⟩ | ⟨-, ⟨ok, hins⟩, -⟩
  · exact ⟨hwf', rfl⟩
  · rcases locator_insert_spec hc hwf now trigger with ⟨t', hrun, hno⟩ | ⟨t', hrun, hyes⟩ <;>
      rw [hins] at hrun <;> cases hrun
    · exact ⟨hno.wf, rfl⟩
    · exact ⟨hyes.wf, rfl⟩

theorem requests_step_wf (hc : 1 ≤ c) {s s' : LocatorServer} {a : Activity}
    (hwf : WF c b s.locator.root) (h : s.step a = some s') : WF c b s'.locator.root := by
  cases a with
  | connectToServer sid server => cases h; exact hwf
  | receivePublish publications => cases h; exact hwf
  | receiveSubscribe subscriptions => cases h; exact hwf
  | handle i now =>
    simp only [LocatorServer.step, Option.bind_eq_bind, Option.bind_eq_some_iff] at h
    obtain ⟨r, -, ⟨l', r'⟩, hrun, h⟩ := h
    cases h
    exact (handling_step_frame hc hwf hrun).1
  | cleanup now =>
    obtain ⟨t', hrun, hwf', -⟩ := locator_cleanup_spec hwf now
    rw [LocatorServer.step, hrun] at h
    cases h
    exact hwf'

/-- Every tree that requests can reach is well formed. -/
theorem requests_run_wf (hc : 1 ≤ c) {acts : List Activity} {s : LocatorServer}
    (hrun : run LocatorServer.step (LocatorServer.start b c) acts = some s) :
    WF c b s.locator.root :=
  run_preserves (P := fun s : LocatorServer => WF c b s.locator.root)
    (fun _ _ _ hwf hs => requests_step_wf hc hwf hs) (start_wf hc b) hrun

end

/-! ### From a match back to the requests -/

/-- The trigger is made from an item of the `i`-th request. -/
def Asked (requests : List Handling) (i : ℕ) (trigger : Storable) : Prop :=
  ∃ (r : Handling) (item : StorableMsg), requests[i]? = some r ∧ item ∈ r.items ∧ r.isSubscription = trigger.isSubscription ∧
    item.storable trigger.isSubscription = some trigger

/-- A query of the `i`-th request met an entry of the other kind and of another server, which a
    request had inserted before and which had not expired. -/
def Matched (requests : List Handling) (log : List Event) (i : ℕ) (q entry : Storable) : Prop :=
  ∃ j t₀ t later earlier, log = later ++ .queried i t q :: earlier ∧
    .inserted j t₀ entry ∈ earlier ∧ Asked requests i q ∧ Asked requests j entry ∧
    q.isSubscription ≠ entry.isSubscription ∧ q.sid ≠ entry.sid ∧
    q.rect.intersects entry.rect = true ∧ t₀ ≤ t ∧ expired t (entry.stored t₀) = false ∧
    (0 < t₀ → t.toInt ≤ t₀.toInt + entry.ttl.toInt)

/-- The requests are those from before, a new one perhaps added; each keeps its items. -/
def Kept (requests requests' : List Handling) : Prop :=
  ∀ (i : ℕ) (r : Handling), requests[i]? = some r → ∃ r' : Handling, requests'[i]? = some r' ∧
    r'.items = r.items ∧ r'.isSubscription = r.isSubscription

theorem kept_append (requests rest : List Handling) : Kept requests (requests ++ rest) := by
  intro i r h
  obtain ⟨hlt, hr⟩ := List.getElem?_eq_some_iff.mp h
  exact ⟨r, by rw [List.getElem?_append_left hlt, h], rfl, rfl⟩

theorem kept_set {requests : List Handling} {i : ℕ} {r r' : Handling} (h : requests[i]? = some r)
    (hitems : r'.items = r.items) (hkind : r'.isSubscription = r.isSubscription) :
    Kept requests (requests.set i r') := by
  intro j r₁ hj
  obtain ⟨hlt, -⟩ := List.getElem?_eq_some_iff.mp h
  by_cases hij : i = j
  · subst hij
    rw [h] at hj
    cases hj
    exact ⟨r', List.getElem?_set_self hlt, hitems, hkind⟩
  · exact ⟨r₁, by rw [List.getElem?_set_ne hij, hj], rfl, rfl⟩

theorem Asked.kept {requests requests' : List Handling} {i : ℕ} {trigger : Storable}
    (h : Asked requests i trigger) (hk : Kept requests requests') : Asked requests' i trigger := by
  obtain ⟨r, item, hr, hitem, hkind, htrig⟩ := h
  obtain ⟨r', hr', hitems, hkind'⟩ := hk i r hr
  exact ⟨r', item, hr', hitems ▸ hitem, hkind'.trans hkind, htrig⟩

theorem Matched.kinds {requests : List Handling} {log : List Event} {i : ℕ} {q entry : Storable}
    (h : Matched requests log i q entry) : entry.isSubscription = !q.isSubscription := by
  obtain ⟨-, -, -, -, -, -, -, -, -, hkind, -⟩ := h
  exact (Bool.eq_not_of_ne hkind.symm)

theorem Matched.kept {requests requests' : List Handling} {log : List Event} {i : ℕ}
    {q entry : Storable} (h : Matched requests log i q entry) (hk : Kept requests requests')
    (new : List Event) : Matched requests' (new ++ log) i q entry := by
  obtain ⟨j, t₀, t, later, earlier, rfl, hins, hq, hentry, hrest⟩ := h
  exact ⟨j, t₀, t, new ++ later, earlier, (List.append_assoc _ _ _).symm, hins, hq.kept hk,
    hentry.kept hk, hrest⟩

/-- A collected entry is one that a request inserted and a query of the `i`-th request matched. -/
def Explains (requests : List Handling) (log : List Event) (i : ℕ) (isSubscription : Bool)
    (q e : Storable) : Prop :=
  ∃ entry t₀, e = Storable.stored entry t₀ ∧ q.isSubscription = isSubscription ∧
    Matched requests log i q entry

theorem Explains.kept {requests requests' : List Handling} {log : List Event} {i : ℕ}
    {isSubscription : Bool} (hk : Kept requests requests') (new : List Event) (q e : Storable)
    (h : Explains requests log i isSubscription q e) :
    Explains requests' (new ++ log) i isSubscription q e := by
  obtain ⟨entry, t₀, heq, hkind, hm⟩ := h
  exact ⟨entry, t₀, heq, hkind, hm.kept hk new⟩

/-- The history explains what is stored and what was collected, at a clock reading. -/
structure Explained (c : ℤ) (b : Rectangle) (now : Int64) (s : LocatorServer) (log : List Event) :
    Prop where
  wf : WF c b s.locator.root
  requests : ∀ r ∈ s.requests, r.pending ⊆ r.items ∧ ∀ item ∈ r.items, 0 ≤ item.ttl
  inserted : ∀ j t₀ trigger, .inserted j t₀ trigger ∈ log →
    t₀ ≤ now ∧ 0 ≤ trigger.ttl ∧ Asked s.requests j trigger
  stored : ∀ e ∈ entries s.locator.root, ∃ j t₀ trigger,
    .inserted j t₀ trigger ∈ log ∧ e = trigger.stored t₀
  collected : ∀ (i : ℕ) (r : Handling), s.requests[i]? = some r →
    r.Collected (Explains s.requests log i r.isSubscription)

section
variable {c : ℤ} {b : Rectangle} {now t : Int64} {s s' : LocatorServer} {log : List Event}

theorem explained_start (hc : 1 ≤ c) (b : Rectangle) (now : Int64) :
    Explained c b now (LocatorServer.start b c) [] where
  wf := start_wf hc b
  requests := by simp [LocatorServer.start]
  inserted := by simp
  stored e he := by
    obtain ⟨p, hp⟩ := (mem_entries_iff _ e).mp he
    simp [LocatorServer.start, Locator.start] at hp
  collected := by simp [LocatorServer.start]

/-- A later state with the same or fewer entries and no new event. -/
theorem Explained.later (h : Explained c b t s log) (hle : t ≤ now)
    (hwf : WF c b s'.locator.root)
    (hsub : ∀ e ∈ entries s'.locator.root, e ∈ entries s.locator.root)
    (hreq : s'.requests = s.requests) : Explained c b now s' log where
  wf := hwf
  requests := hreq ▸ h.requests
  inserted j t₀ trigger hin := by
    obtain ⟨ht, hd, hasked⟩ := h.inserted j t₀ trigger hin
    exact ⟨Int64.le_trans ht hle, hd, hreq ▸ hasked⟩
  stored e he := h.stored e (hsub e he)
  collected := hreq ▸ h.collected

/-- The arrival of a request. -/
theorem Explained.received (h : Explained c b now s log) {r : Handling}
    (hr : r.pending ⊆ r.items ∧ ∀ item ∈ r.items, 0 ≤ item.ttl) (hnone : ∀ P, r.Collected P) :
    Explained c b now { s with requests := s.requests ++ [r] } log where
  wf := h.wf
  requests r' hr' := by
    rcases List.mem_append.mp hr' with hr' | hr'
    · exact h.requests r' hr'
    · rw [List.mem_singleton.mp hr']; exact hr
  inserted j t₀ trigger hin := by
    obtain ⟨ht, hd, hasked⟩ := h.inserted j t₀ trigger hin
    exact ⟨ht, hd, hasked.kept (kept_append _ _)⟩
  stored := h.stored
  collected i r' hr' := by
    rcases Nat.lt_or_ge i s.requests.length with hlt | hge
    · rw [List.getElem?_append_left hlt] at hr'
      exact (h.collected i r' hr').mono (Explains.kept (kept_append _ _) [])
    · rw [List.getElem?_append_right hge] at hr'
      have hmem := List.mem_of_getElem? hr'
      rw [List.mem_singleton.mp hmem]
      exact hnone _

/-- What a step of request `i` has to keep for the invariant to hold again. -/
theorem Explained.set {i : ℕ} {r r' : Handling} {l' : Locator} {new : List Event}
    (h : Explained c b t s log) (hle : t ≤ now) (hr : s.requests[i]? = some r)
    (hitems : r'.items = r.items) (hkind : r'.isSubscription = r.isSubscription)
    (hpend : r'.pending ⊆ r.pending) (hwf : WF c b l'.root)
    (hnew : ∀ j t₀ trigger, .inserted j t₀ trigger ∈ new →
      t₀ ≤ now ∧ 0 ≤ trigger.ttl ∧ Asked s.requests j trigger)
    (hstored : ∀ e ∈ entries l'.root, e ∈ entries s.locator.root ∨
      ∃ j t₀ trigger, .inserted j t₀ trigger ∈ new ∧ e = trigger.stored t₀)
    (hcoll : r'.Collected (Explains (s.requests.set i r') (new ++ log) i r.isSubscription)) :
    Explained c b now ⟨l', s.requests.set i r'⟩ (new ++ log) where
  wf := hwf
  requests r₁ hr₁ := by
    rcases List.mem_or_eq_of_mem_set hr₁ with hr₁ | rfl
    · exact h.requests r₁ hr₁
    · obtain ⟨hsub, httl⟩ := h.requests r (List.mem_of_getElem? hr)
      rw [hitems]
      exact ⟨fun _ hi => hsub (hpend hi), httl⟩
  inserted j t₀ trigger hin := by
    have hkept := kept_set hr hitems hkind
    rcases List.mem_append.mp hin with hin | hin
    · obtain ⟨ht, hd, hasked⟩ := hnew j t₀ trigger hin
      exact ⟨ht, hd, hasked.kept hkept⟩
    · obtain ⟨ht, hd, hasked⟩ := h.inserted j t₀ trigger hin
      exact ⟨Int64.le_trans ht hle, hd, hasked.kept hkept⟩
  stored e he := by
    rcases hstored e he with he | ⟨j, t₀, trigger, hin, heq⟩
    · obtain ⟨j, t₀, trigger, hin, heq⟩ := h.stored e he
      exact ⟨j, t₀, trigger, List.mem_append_right _ hin, heq⟩
    · exact ⟨j, t₀, trigger, List.mem_append_left _ hin, heq⟩
  collected j r₁ hr₁ := by
    by_cases hij : i = j
    · subst hij
      obtain ⟨hlt, -⟩ := List.getElem?_eq_some_iff.mp hr
      rw [List.getElem?_set_self hlt] at hr₁
      cases hr₁
      rw [hkind]
      exact hcoll
    · rw [List.getElem?_set_ne hij] at hr₁
      exact (h.collected j r₁ hr₁).mono (Explains.kept (kept_set hr hitems hkind) new)

/-- An entry that a query finds is explained by the history before the query. -/
theorem Explained.found (h : Explained c b t s log) (hle : t ≤ now) {i : ℕ} {q e : Storable}
    {requests : List Handling} (hkept : Kept s.requests requests) (hq : Asked s.requests i q)
    (he : e ∈ reported now q s.locator.lastUpdates s.locator.root) :
    Explains requests (.queried i now q :: log) i q.isSubscription q e := by
  have hans := (reported_sublist now q _ _).subset he
  simp only [answersIn, List.mem_filter, Bool.and_eq_true, Bool.not_eq_true'] at hans
  obtain ⟨hin, hlive, hans⟩ := hans
  obtain ⟨j, t₀, entry, hlog, rfl⟩ := h.stored e hin
  obtain ⟨ht, hd, hasked⟩ := h.inserted j t₀ entry hlog
  simp only [answers, Bool.and_eq_true, bne_iff_ne, ne_eq] at hans
  obtain ⟨⟨hmeet, hkind⟩, hsid⟩ := hans
  have hexp := (stale_eq_false.mp hlive).1
  have hle' := Int64.le_trans ht hle
  exact ⟨entry, t₀, rfl, rfl, j, t₀, now, [], log, rfl, hlog, hq.kept hkept, hasked.kept hkept,
    hkind, hsid, hmeet, hle', hexp, fun h0 => (expired_stored_iff h0 hd hle').mp hexp⟩

/-- A step of a request keeps the invariant. -/
theorem Explained.handled (hc : 1 ≤ c) (h : Explained c b t s log) (hle : t ≤ now) {i : ℕ}
    {r r' : Handling} {l' : Locator} (hr : s.requests[i]? = some r)
    (hstep : r.step s.locator now = some (l', r')) :
    Explained c b now ⟨l', s.requests.set i r'⟩ ((s.event (.handle i now)).toList ++ log) := by
  obtain ⟨item, trigger, hitem, htrig, hitems, hkind, hpend, hcase⟩ :=
    handling_step_cases h.wf hstep
  have hkept : Kept s.requests (s.requests.set i r') := kept_set hr hitems hkind
  obtain ⟨hsub, httl⟩ := h.requests r (List.mem_of_getElem? hr)
  have hd : 0 ≤ trigger.ttl ∧ trigger.isSubscription = r.isSubscription := by
    obtain ⟨gameObject, -, rfl⟩ := Option.map_eq_some_iff.mp htrig
    exact ⟨httl item (hsub hitem), rfl⟩
  have hasked : Asked s.requests i trigger :=
    ⟨r, item, hr, hsub hitem, hd.2.symm, by rw [hd.2]; exact htrig⟩
  have hold := h.collected i r hr
  rcases hcase with ⟨hop, -, hwf, hpr, -, hcoll⟩ | ⟨hop, ⟨ok, hins⟩, -, hcoll⟩
  · have hevent : s.event (.handle i now) = some (.queried i now trigger) := by
      simp [LocatorServer.event, hr, hop, Locator.event]
    rw [hevent]
    refine h.set hle hr hitems hkind hpend hwf (by simp)
      (fun e he => .inl (hpr.entries.sublist.subset he)) (hcoll _ ?_ fun e he => ?_)
    · exact hold.mono (Explains.kept hkept _)
    · rw [← hd.2]
      exact h.found hle hkept hasked he
  · have hevent : s.event (.handle i now) =
        if ok then some (.inserted i now trigger) else none := by
      simp [LocatorServer.event, hr, hop, Locator.event, hins]
    rw [hevent]
    have hcoll' := hcoll _ (hold.mono (Explains.kept hkept
      (if ok then some (Event.inserted i now trigger) else none).toList))
    rcases locator_insert_spec hc h.wf now trigger with ⟨t', hrun, hno⟩ | ⟨t', hrun, hyes⟩ <;>
      rw [hins] at hrun <;> cases hrun
    · exact h.set hle hr hitems hkind hpend hno.wf (by simp)
        (fun e he => .inl (hno.mem_entries he)) hcoll'
    · refine h.set hle hr hitems hkind hpend hyes.wf (fun j t₀ trigger' hin => ?_) (fun e he => ?_)
        hcoll'
      · rw [if_pos rfl, Option.toList_some, List.mem_singleton] at hin
        cases hin
        exact ⟨Int64.le_refl _, hd.1, hasked⟩
      · rcases hyes.mem_entries he with rfl | he
        · exact .inr ⟨i, now, trigger, by simp, rfl⟩
        · exact .inl he

/-- Every activity keeps the invariant. -/
theorem Explained.step (hc : 1 ≤ c) (h : Explained c b t s log) {a : Activity} {log' : List Event}
    (hle : t ≤ a.time.getD t) (httl : ∀ item ∈ a.items, 0 ≤ item.ttl)
    (hstep : LocatorServer.logged (s, log) a = some (s', log')) :
    Explained c b (a.time.getD t) s' log' := by
  obtain ⟨s₁, hs, heq⟩ := Option.map_eq_some_iff.mp hstep
  cases heq
  cases a with
  | connectToServer sid server =>
    cases hs
    exact h.later (Int64.le_refl _) h.wf (fun _ he => he) rfl
  | receivePublish publications =>
    cases hs
    refine h.received ⟨fun _ hi => hi, httl⟩ fun P d m hm => ?_
    simp [Call.start, GoMap.index] at hm
  | receiveSubscribe subscriptions =>
    cases hs
    refine h.received ⟨fun _ hi => hi, httl⟩ fun P e he => ?_
    simp [Call.start] at he
  | handle i now =>
    simp only [LocatorServer.step, Option.bind_eq_bind, Option.bind_eq_some_iff] at hs
    obtain ⟨r, hr, ⟨l', r'⟩, hrun, hs⟩ := hs
    cases hs
    exact h.handled hc hle hr hrun
  | cleanup now =>
    obtain ⟨l', hrun, rfl⟩ := Option.map_eq_some_iff.mp hs
    obtain ⟨t', hrun', hwf, hpr⟩ := locator_cleanup_spec h.wf now
    rw [hrun'] at hrun
    cases hrun
    exact h.later hle hwf (fun e he => hpr.entries.sublist.subset he) rfl

/-- Every run with a clock that does not go back keeps the invariant. -/
theorem explained_run (hc : 1 ≤ c) :
    ∀ {acts : List Activity} {s s' : LocatorServer} {log log' : List Event} {t : Int64},
      Explained c b t s log → (∀ now ∈ acts.filterMap Activity.time, t ≤ now) →
      (acts.filterMap Activity.time).Pairwise (· ≤ ·) →
      (∀ a ∈ acts, ∀ item ∈ a.items, 0 ≤ item.ttl) →
      run LocatorServer.logged (s, log) acts = some (s', log') → ∃ t', Explained c b t' s' log'
  | [], _, _, _, _, t, h, _, _, _, hrun => by cases hrun; exact ⟨t, h⟩
  | a :: acts, s, s', log, log', t, h, hfrom, hclk, httl, hrun => by
    obtain ⟨⟨s₁, log₁⟩, hstep, hrun⟩ := run_cons_eq_some.mp hrun
    have httl' : ∀ a ∈ acts, ∀ item ∈ a.items, 0 ≤ item.ttl := fun x hx =>
      httl x (List.mem_cons_of_mem _ hx)
    cases ha : a.time with
    | none =>
      rw [List.filterMap_cons_none ha] at hfrom hclk
      have h₁ := h.step hc (by rw [ha]; exact Int64.le_refl _) (httl a List.mem_cons_self) hstep
      rw [ha] at h₁
      exact explained_run hc h₁ hfrom hclk httl' hrun
    | some now =>
      rw [List.filterMap_cons_some ha] at hfrom hclk
      have h₁ := h.step hc (by rw [ha]; exact hfrom now List.mem_cons_self)
        (httl a List.mem_cons_self) hstep
      rw [ha] at h₁
      exact explained_run hc h₁ (fun _ => List.rel_of_pairwise_cons hclk) hclk.of_cons httl' hrun

/-- In every state that a run reaches, each match of a SubscribeResponse and each match for a server
    has its query, its entry and their requests in the history, and no query reports a stored entry
    twice. -/
theorem no_false_match (hc : 1 ≤ c) {acts : List Activity}
    (hclk : (acts.filterMap Activity.time).Pairwise (· ≤ ·))
    (httl : ∀ a ∈ acts, ∀ item ∈ a.items, 0 ≤ item.ttl)
    (hrun : run LocatorServer.logged (LocatorServer.start b c, []) acts = some (s, log)) :
    (∀ (i : ℕ) (r : Handling), s.requests[i]? = some r →
      (∀ m ∈ r.response, ∃ sub pub : Storable, sub.isSubscription = true ∧
        pub.isSubscription = false ∧ m = ⟨pub.guid, pub.sid⟩ ∧ Matched s.requests log i sub pub) ∧
      ∀ d, ∀ m ∈ r.notices d, ∃ pub sub : Storable, pub.isSubscription = false ∧
        sub.isSubscription = true ∧ m = ⟨pub.guid, pub.sid⟩ ∧ sub.sid = d ∧
        Matched s.requests log i pub sub) ∧
    ∀ now q l' found, s.locator.query now q [] = some (l', found) →
      found.Sublist (entries s.locator.root) := by
  obtain ⟨t, h⟩ := explained_run hc (explained_start hc b Int64.minValue)
    (fun now _ => Int64.minValue_le now) hclk httl hrun
  refine ⟨fun i r hr => ?_, fun now q l' found hq => ?_⟩
  · have hcoll := h.collected i r hr
    cases r with
    | publish items call =>
      refine ⟨fun m hm => absurd hm List.not_mem_nil, fun d m hm => ?_⟩
      obtain ⟨pub, e, rfl, rfl, sub, t₀, rfl, hkind, hmatched⟩ := hcoll d m hm
      have hpub : pub.isSubscription = false := hkind
      exact ⟨pub, sub, hpub, by rw [hmatched.kinds, hpub]; rfl, rfl, rfl, hmatched⟩
    | subscribe items call =>
      refine ⟨fun m hm => ?_, fun d m hm => absurd hm List.not_mem_nil⟩
      obtain ⟨e, he, rfl⟩ := List.mem_map.mp hm
      obtain ⟨sub, pub, t₀, rfl, hkind, hmatched⟩ := hcoll e he
      have hsub : sub.isSubscription = true := hkind
      exact ⟨sub, pub, hsub, by rw [hmatched.kinds, hsub]; rfl, rfl, hmatched⟩
  · obtain ⟨t', hrun', -, -⟩ := locator_query_spec h.wf now q
    rw [hrun'] at hq
    cases hq
    exact (reported_sublist now q _ _).trans List.filter_sublist

end

/-- A publication of server 1 for half a second. -/
def onePublication : List StorableMsg := [⟨some ⟨7, 1, 10, 10, 2, 2⟩, 500⟩]

/-- Server 2 subscribes to the corner of the world in which server 1 then publishes. -/
def subscribeThenPublish : List Activity :=
  [.receiveSubscribe [⟨some ⟨9, 2, 0, 0, 20, 20⟩, 500⟩], .handle 0 1000, .handle 0 1000,
    .receivePublish onePublication, .handle 1 1001, .handle 1 1001]

/-- The match for server 2 in that run goes back to the two requests. -/
theorem no_false_match_subscribeThenPublish :
    ∃ s log r, run LocatorServer.logged (LocatorServer.start world 4, []) subscribeThenPublish =
        some (s, log) ∧ s.requests[1]? = some r ∧ r.notices 2 = [⟨7, 1⟩] ∧
      ∃ pub sub : Storable, sub.sid = 2 ∧ Matched s.requests log 1 pub sub := by
  obtain ⟨⟨s, log⟩, hrun, hr⟩ := exists_of_map_decide
    (P := fun x => x.1.requests[1]?.map (fun r => r.notices 2) = some [⟨7, 1⟩])
    (o := run LocatorServer.logged (LocatorServer.start world 4, []) subscribeThenPublish)
    (by decide +kernel)
  obtain ⟨r, hr, hnotices⟩ := Option.map_eq_some_iff.mp hr
  obtain ⟨hmatch, -⟩ := no_false_match (by decide) (by decide) (by decide) hrun
  obtain ⟨pub, sub, -, -, -, hsid, hmatched⟩ := (hmatch 1 r hr).2 2 ⟨7, 1⟩ (by simp [hnotices])
  exact ⟨s, log, r, hrun, hr, hnotices, pub, sub, hsid, hmatched⟩

end DistGame
