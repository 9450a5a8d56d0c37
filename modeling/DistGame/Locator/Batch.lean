import DistGame.Locator.Progress
import DistGame.Locator.Pruning

/-! One request, handled to its end. Its items are inserted one after the other while it is handled,
    but what it inserts is its own server's, which its queries skip, and it makes no entry of another
    server stale as long as every guid is used by one server. So the whole batch is matched against
    the tree as it was before. -/

namespace DistGame
open QTree Quadtree

namespace Handling

/-- A request that has just arrived. -/
def arrive (isSubscription : Bool) (items : List StorableMsg) : Handling :=
  if isSubscription then .subscribe items (.start items []) else .publish items (.start items ∅)

/-- The first of the pending items has been queried. -/
def queried : Handling → Bool
  | .publish _ call => call.queried
  | .subscribe _ call => call.queried

/-- A step of the request, with the locator it works on. -/
def advance (x : Locator × Handling) (now : Int64) : Option (Locator × Handling) := x.2.step x.1 now

end Handling

/-- Steps of one request with nothing in between, at these clock readings. -/
def Locator.handle (l : Locator) (r : Handling) (nows : List Int64) : Option (Locator × Handling) :=
  run Handling.advance (l, r) nows

/-- Several requests, each handled to its end before the next arrives, at one clock reading. -/
def Locator.handleEach (isSubscription : Bool) (now : Int64) :
    Locator → List (List StorableMsg) → Option (Locator × List Handling)
  | l, [] => some (l, [])
  | l, items :: parts => do
    let (l, r) ← l.handle (.arrive isSubscription items) (List.replicate (2 * items.length) now)
    let (l, rs) ← l.handleEach isSubscription now parts
    some (l, r :: rs)

/-- What the items of a request query for and insert. -/
def triggers (isSubscription : Bool) (items : List StorableMsg) : List Storable :=
  items.filterMap (StorableMsg.storable isSubscription)

/-- The matches for server `d` from the entries that the query of one item found. -/
def noticesOf (q : Storable) (found : List Storable) (d : Int32) : List MatchMsg :=
  if q.isSubscription then []
  else List.replicate (found.countP fun f => f.sid == d) ⟨q.guid, q.sid⟩

/-- The matches for the response. -/
def responseOf (q : Storable) (found : List Storable) : List MatchMsg :=
  if q.isSubscription then subscribeResponse found else []

/-! ### One item -/

section
variable {c : ℤ} {b : Rectangle} {l l₁ l₂ : Locator} {r : Handling} {item : StorableMsg}
  {rest : List StorableMsg} {trigger : Storable} {t t' : Int64} {new : List Storable} {ok : Bool}

@[simp] theorem arrive_pending (isSubscription : Bool) (items : List StorableMsg) :
    (Handling.arrive isSubscription items).pending = items := by
  cases isSubscription <;> rfl

@[simp] theorem arrive_queried (isSubscription : Bool) (items : List StorableMsg) :
    (Handling.arrive isSubscription items).queried = false := by
  cases isSubscription <;> rfl

@[simp] theorem arrive_isSubscription (isSubscription : Bool) (items : List StorableMsg) :
    (Handling.arrive isSubscription items).isSubscription = isSubscription := by
  cases isSubscription <;> rfl

@[simp] theorem arrive_notices (isSubscription : Bool) (items : List StorableMsg) (d : Int32) :
    (Handling.arrive isSubscription items).notices d = [] := by
  cases isSubscription <;> rfl

@[simp] theorem arrive_response (isSubscription : Bool) (items : List StorableMsg) :
    (Handling.arrive isSubscription items).response = [] := by
  cases isSubscription <;> rfl

theorem storable_isSubscription {isSubscription : Bool}
    (h : item.storable isSubscription = some trigger) : trigger.isSubscription = isSubscription := by
  obtain ⟨gameObject, -, rfl⟩ := Option.map_eq_some_iff.mp h
  rfl

/-- The two steps on an item: its query, of which the matches are noted, and its insertion. -/
theorem call_item {α : Type} {isSubscription : Bool}
    {matching : Locator → Int64 → Storable → α → Option (Locator × α)} {call : Call α} {x : α}
    (hp : call.pending = item :: rest) (hq : call.queried = false)
    (htrig : item.storable isSubscription = some trigger)
    (hm : matching l t trigger call.collected = some (l₁, x))
    (hins : l₁.insert t' trigger = some (l₂, ok)) :
    call.op isSubscription t = some (.query t trigger) ∧
      call.step isSubscription matching l t = some (l₁, ⟨item :: rest, true, x⟩) ∧
      (⟨item :: rest, true, x⟩ : Call α).op isSubscription t' = some (.insert t' trigger) ∧
      (⟨item :: rest, true, x⟩ : Call α).step isSubscription matching l₁ t' =
        some (l₂, ⟨rest, false, x⟩) := by
  refine ⟨by simp [Call.op, hp, hq, htrig], by simp [Call.step, hp, hq, htrig, hm],
    by simp [Call.op, htrig], ?_⟩
  simp only [Call.step, htrig, hins, if_true, Option.bind_eq_bind, Option.bind_some]

theorem handling_item (hp : r.pending = item :: rest) (hq : r.queried = false)
    (htrig : item.storable r.isSubscription = some trigger)
    (hquery : ∀ found, l.query t trigger found = some (l₁, found ++ new))
    (hins : l₁.insert t' trigger = some (l₂, ok)) :
    ∃ r₁ r₂, r.op t = some (.query t trigger) ∧ r.step l t = some (l₁, r₁) ∧
      r₁.op t' = some (.insert t' trigger) ∧ r₁.step l₁ t' = some (l₂, r₂) ∧
      r₂.pending = rest ∧ r₂.queried = false ∧ r₂.isSubscription = r.isSubscription ∧
      (∀ d, r₂.notices d = r.notices d ++ noticesOf trigger new d) ∧
      r₂.response = r.response ++ responseOf trigger new := by
  have hkind := storable_isSubscription htrig
  cases r with
  | publish items call =>
    have hm : l.publishQuery t trigger call.collected =
        some (l₁, addMatches trigger new call.collected) := by
      rw [Locator.publishQuery, hquery]
      rfl
    obtain ⟨hop, hstep, hop', hstep'⟩ := call_item hp hq htrig hm hins
    simp only [Handling.isSubscription] at hstep hstep'
    refine ⟨.publish items ⟨item :: rest, true, addMatches trigger new call.collected⟩,
      .publish items ⟨rest, false, addMatches trigger new call.collected⟩, hop,
      by rw [Handling.step, hstep]; rfl, hop', by rw [Handling.step, hstep']; rfl, rfl, rfl, rfl,
      fun d => ?_, ?_⟩
    · rw [noticesOf, hkind]
      exact index_addMatches trigger d new call.collected
    · rw [responseOf, hkind]
      rfl
  | subscribe items call =>
    have hm : l.subscribeQuery t trigger call.collected = some (l₁, call.collected ++ new) :=
      hquery call.collected
    obtain ⟨hop, hstep, hop', hstep'⟩ := call_item hp hq htrig hm hins
    simp only [Handling.isSubscription] at hstep hstep'
    refine ⟨.subscribe items ⟨item :: rest, true, call.collected ++ new⟩,
      .subscribe items ⟨rest, false, call.collected ++ new⟩, hop,
      by rw [Handling.step, hstep]; rfl, hop', by rw [Handling.step, hstep']; rfl, rfl, rfl, rfl,
      fun d => ?_, ?_⟩
    · rw [noticesOf, hkind]
      exact (List.append_nil _).symm
    · rw [responseOf, hkind]
      exact List.map_append

end

/-! ### What a server sees of the others -/

/-- The live entries of other servers in a store. -/
def foreign (now : Int64) (sid : Int32) (lu : LastUpdates) (store : List Storable) :
    List Storable :=
  (prune now lu store).filter fun e => e.sid != sid

/-- `l` has the same live entries of other servers as `l₀` in every node, and none of the others'
    guids among those of the server's own items `own`. -/
structure Shows (c : ℤ) (b : Rectangle) (now : Int64) (sid : Int32) (own : List Storable)
    (l₀ l : Locator) : Prop where
  wf : WF c b l₀.root ∧ WF c b l.root
  same : ∀ p, foreign now sid l.lastUpdates (storeAt l.root p) =
    foreign now sid l₀.lastUpdates (storeAt l₀.root p)
  guids : ∀ e ∈ entries l.root, ∀ q ∈ own, e.guid = q.guid → e.sid = sid
  sids : ∀ q ∈ own, q.sid = sid

section
variable {c : ℤ} {b : Rectangle} {now : Int64} {sid : Int32} {own : List Storable}
  {l₀ l l' : Locator} {q : Storable}

theorem foreign_append (lu : LastUpdates) (store new : List Storable) :
    foreign now sid lu (store ++ new) = foreign now sid lu store ++ foreign now sid lu new := by
  simp only [foreign, prune_eq, List.filter_append]

/-- A server's queries skip its own entries. -/
theorem filter_foreign (hq : q.sid = sid) (lu : LastUpdates) (store : List Storable) :
    (foreign now sid lu store).filter (answers q) = (prune now lu store).filter (answers q) := by
  rw [foreign, List.filter_filter]
  refine List.filter_congr fun e _ => ?_
  by_cases he : e.sid = sid
  · simp [answers, hq, he]
  · simp [he]

/-- An expiry recorded for a guid that no other server uses. -/
theorem foreign_recorded {lu : LastUpdates} {store : List Storable}
    (h : ∀ e ∈ store, e.guid = q.guid → e.sid = sid) :
    foreign now sid (recorded lu now q) store = foreign now sid lu store := by
  rw [foreign, foreign, prune_eq, prune_eq, List.filter_filter, List.filter_filter]
  refine List.filter_congr fun e he => ?_
  by_cases hsid : e.sid = sid
  · simp [hsid]
  · have hguid : e.guid ≠ q.guid := mt (h e he) hsid
    rw [stale_eq, stale_eq, superseded_recorded, if_neg hguid]

/-- What the server's queries report is what they would have reported at first. -/
theorem Shows.reported_eq (h : Shows c b now sid own l₀ l) (hq : q ∈ own) :
    reported now q l.lastUpdates l.root = reported now q l₀.lastUpdates l₀.root := by
  refine reported_congr q h.wf.2 h.wf.1 fun p => ?_
  rw [← filter_foreign (h.sids q hq), ← filter_foreign (h.sids q hq), h.same p]

/-- Pruning leaves the live entries. -/
theorem Shows.pruned (h : Shows c b now sid own l₀ l) {t : Quadtree} (hwf : WF c b t)
    (hpr : Pruned (fun e => stale now l.lastUpdates e = true) l.root t) :
    Shows c b now sid own l₀ { l with root := t } where
  wf := ⟨h.wf.1, hwf⟩
  same p := by
    rw [← h.same p, foreign, foreign, prune_eq, prune_eq, (hpr p).filter_eq]
  guids e he := h.guids e (hpr.entries.sublist.subset he)
  sids := h.sids

/-- An own item makes an own entry, and entries of other servers have other guids. -/
theorem Shows.inserted (hc : 1 ≤ c) (h : Shows c b now sid own l₀ l) (hq : q ∈ own) :
    ∃ l' ok, l.insert now q = some (l', ok) ∧ Shows c b now sid own l₀ l' := by
  rcases locator_insert_spec hc h.wf.2 now q with ⟨t, hrun, hno⟩ | ⟨t, hrun, hyes⟩
  · exact ⟨_, _, hrun, h.pruned hno.wf hno.pruned⟩
  · refine ⟨_, _, hrun, ⟨⟨h.wf.1, hyes.wf⟩, fun p => ?_, fun e he x hx hguid => ?_, h.sids⟩⟩
    · obtain ⟨p₀, hp₀⟩ := hyes.placed
      obtain ⟨kept, hdrop, heq⟩ := hp₀ p
      have hkept : foreign now sid (recorded l.lastUpdates now q) kept =
          foreign now sid l.lastUpdates kept := by
        refine foreign_recorded fun e he hguid => ?_
        have hin := (mem_entries_iff l.root e).mpr ⟨p, hdrop.sublist.subset he⟩
        exact h.guids e hin q hq hguid
      have hnew : foreign now sid (recorded l.lastUpdates now q)
          (if p = p₀ then [q.stored now] else []) = [] := by
        refine List.filter_eq_nil_iff.mpr fun e he => ?_
        have hin := (mem_prune.mp he).1
        split at hin
        · rw [List.mem_singleton.mp hin]
          simp [Storable.stored, h.sids q hq]
        · exact absurd hin List.not_mem_nil
      calc foreign now sid (recorded l.lastUpdates now q) (storeAt t p)
          = foreign now sid (recorded l.lastUpdates now q) kept := by
            rw [heq, foreign_append, hnew, List.append_nil]
        _ = foreign now sid l.lastUpdates (storeAt l.root p) := by
            rw [hkept, foreign, foreign, prune_eq, prune_eq, hdrop.filter_eq]
        _ = _ := h.same p
    · rcases hyes.mem_entries he with rfl | he
      · exact h.sids q hq
      · exact h.guids e he x hx hguid

/-! ### The whole request -/

theorem triggers_append (isSubscription : Bool) (items items' : List StorableMsg) :
    triggers isSubscription (items ++ items') =
      triggers isSubscription items ++ triggers isSubscription items' := List.filterMap_append

/-- Any number of items, one after the other. -/
theorem Shows.handled (hc : 1 ≤ c) : ∀ {items rest : List StorableMsg} {l : Locator} {r : Handling},
    Shows c b now sid own l₀ l → r.pending = items ++ rest → r.queried = false →
    (∀ item ∈ items, item.gameObject.isSome) → triggers r.isSubscription items ⊆ own →
    ∃ l' r', l.handle r (List.replicate (2 * items.length) now) = some (l', r') ∧
      Shows c b now sid own l₀ l' ∧ r'.pending = rest ∧
      (∀ d, r'.notices d = r.notices d ++ (triggers r.isSubscription items).flatMap fun q =>
        noticesOf q (reported now q l₀.lastUpdates l₀.root) d) ∧
      r'.response = r.response ++ (triggers r.isSubscription items).flatMap fun q =>
        responseOf q (reported now q l₀.lastUpdates l₀.root)
  | [], rest, l, r, h, hp, _, _, _ =>
    ⟨l, r, rfl, h, hp, fun d => by simp [triggers], by simp [triggers]⟩
  | item :: items, rest, l, r, h, hp, hq, hobj, hown => by
    obtain ⟨trigger, htrig⟩ := exists_storable r.isSubscription (hobj item List.mem_cons_self)
    have hcons : triggers r.isSubscription (item :: items) =
        trigger :: triggers r.isSubscription items := List.filterMap_cons_some htrig
    rw [hcons] at hown ⊢
    have hmem : trigger ∈ own := hown List.mem_cons_self
    obtain ⟨t, hquery, hwf, hpr⟩ := locator_query_spec h.wf.2 now trigger
    rw [h.reported_eq hmem] at hquery
    obtain ⟨l₁, ok, hins, h₁⟩ := (h.pruned hwf hpr).inserted hc hmem
    obtain ⟨r', r₁, -, hstep, -, hstep', hp₁, hq₁, hkind, hnotices, hresponse⟩ :=
      handling_item hp hq htrig hquery hins
    rw [← hkind] at hown
    obtain ⟨l', r₂, hrun, h', hp', hnotices', hresponse'⟩ := h₁.handled hc hp₁ hq₁
      (fun item hi => hobj item (List.mem_cons_of_mem _ hi)) (List.subset_of_cons_subset hown)
    refine ⟨l', r₂, ?_, h', hp', fun d => ?_, ?_⟩
    · rw [List.length_cons, Nat.mul_succ]
      exact run_cons_eq_some.mpr ⟨_, hstep, run_cons_eq_some.mpr ⟨_, hstep', hrun⟩⟩
    · rw [hnotices', hnotices, hkind, List.flatMap_cons, List.append_assoc]
    · rw [hresponse', hresponse, hkind, List.flatMap_cons, List.append_assoc]

/-- The first `k` items of a request. -/
theorem Shows.taken (hc : 1 ≤ c) {isSubscription : Bool} {items : List StorableMsg}
    (h : Shows c b now sid own l₀ l) (hobj : ∀ item ∈ items, item.gameObject.isSome)
    (hown : triggers isSubscription items ⊆ own) {k : ℕ} (hk : k ≤ items.length) :
    ∃ l' r', l.handle (.arrive isSubscription items) (List.replicate (2 * k) now) = some (l', r') ∧
      Shows c b now sid own l₀ l' ∧ r'.pending = items.drop k ∧
      (∀ d, r'.notices d = (triggers isSubscription (items.take k)).flatMap fun q =>
        noticesOf q (reported now q l₀.lastUpdates l₀.root) d) ∧
      r'.response = (triggers isSubscription (items.take k)).flatMap fun q =>
        responseOf q (reported now q l₀.lastUpdates l₀.root) := by
  have hp : (Handling.arrive isSubscription items).pending = items.take k ++ items.drop k := by
    rw [arrive_pending, List.take_append_drop]
  have hsub : triggers (Handling.arrive isSubscription items).isSubscription (items.take k) ⊆ own := by
    rw [arrive_isSubscription]
    exact fun q hq => hown (((List.take_sublist k items).filterMap _).subset hq)
  obtain ⟨l', r', hhandle, h', hpend, hnotices, hresponse⟩ := h.handled hc hp
    (arrive_queried _ _) (fun item hi => hobj item (List.mem_of_mem_take hi)) hsub
  rw [List.length_take_of_le hk] at hhandle
  refine ⟨l', r', hhandle, h', hpend, fun d => ?_, ?_⟩
  · rw [hnotices]
    simp
  · rw [hresponse]
    simp

/-- Any number of requests, one after the other. -/
theorem Shows.handledEach (hc : 1 ≤ c) {isSubscription : Bool} :
    ∀ {parts : List (List StorableMsg)} {l : Locator}, Shows c b now sid own l₀ l →
      (∀ item ∈ parts.flatten, item.gameObject.isSome) →
      triggers isSubscription parts.flatten ⊆ own →
      ∃ l' rs, l.handleEach isSubscription now parts = some (l', rs) ∧
        (∀ r ∈ rs, r.pending = []) ∧
        (∀ d, (rs.flatMap fun r => r.notices d) =
          (triggers isSubscription parts.flatten).flatMap fun q =>
            noticesOf q (reported now q l₀.lastUpdates l₀.root) d) ∧
        rs.flatMap Handling.response = (triggers isSubscription parts.flatten).flatMap fun q =>
          responseOf q (reported now q l₀.lastUpdates l₀.root)
  | [], l, _, _, _ => ⟨l, [], rfl, by simp, fun d => by simp [triggers], by simp [triggers]⟩
  | items :: parts, l, h, hobj, hown => by
    rw [List.flatten_cons] at hobj
    rw [List.flatten_cons, triggers_append] at hown ⊢
    obtain ⟨l₁, r, hrun, h₁, hp, hnotices, hresponse⟩ := h.taken hc
      (fun item hi => hobj item (List.mem_append_left _ hi))
      (fun q hq => hown (List.mem_append_left _ hq)) (Nat.le_refl items.length)
    rw [List.drop_length] at hp
    rw [List.take_length] at hnotices hresponse
    obtain ⟨l', rs, hrun', hends, hnotices', hresponse'⟩ := h₁.handledEach hc
      (fun item hi => hobj item (List.mem_append_right _ hi))
      (fun q hq => hown (List.mem_append_right _ hq))
    refine ⟨l', r :: rs, ?_, ?_, fun d => ?_, ?_⟩
    · simp [Locator.handleEach, hrun, hrun']
    · exact List.forall_mem_cons.mpr ⟨hp, hends⟩
    · rw [List.flatMap_cons, hnotices', hnotices, List.flatMap_append]
    · rw [List.flatMap_cons, hresponse', hresponse, List.flatMap_append]

/-- After `k` items of a request of one server, at one clock reading, the matches noted for each item
    are those of its query on the tree before the request, if no other server's entry has a guid of the
    request. So the same items in another order or in several requests report the same matches. -/
theorem batch_matches (hc : 1 ≤ c) {acts : List Activity} {s : LocatorServer}
    (hrun : run LocatorServer.step (LocatorServer.start b c) acts = some s) (isSubscription : Bool)
    {items : List StorableMsg}
    (hsid : ∀ item ∈ items, ∃ gameObject ∈ item.gameObject, gameObject.sid = sid)
    (hguid : ∀ e ∈ entries s.locator.root, ∀ q ∈ triggers isSubscription items,
      e.guid = q.guid → e.sid = sid) (now : Int64) :
    ∃ found : Storable → List Storable,
      (∀ q ∈ triggers isSubscription items, ∃ l', s.locator.query now q [] = some (l', found q)) ∧
      (∀ k ≤ items.length, ∃ l' r', s.locator.handle (.arrive isSubscription items)
          (List.replicate (2 * k) now) = some (l', r') ∧ r'.pending = items.drop k ∧
        (∀ d, r'.notices d = (triggers isSubscription (items.take k)).flatMap fun q =>
          noticesOf q (found q) d) ∧
        r'.response = (triggers isSubscription (items.take k)).flatMap fun q =>
          responseOf q (found q)) ∧
      ∀ parts : List (List StorableMsg), parts.flatten.Perm items →
        ∃ l' r l'' rs, s.locator.handle (.arrive isSubscription items)
            (List.replicate (2 * items.length) now) = some (l', r) ∧
          s.locator.handleEach isSubscription now parts = some (l'', rs) ∧
          (∀ r ∈ rs, r.pending = []) ∧
          (∀ d, (rs.flatMap fun r => r.notices d).Perm (r.notices d)) ∧
          (rs.flatMap Handling.response).Perm r.response := by
  have hwf := requests_run_wf hc hrun
  have hobj : ∀ item ∈ items, item.gameObject.isSome := by
    intro item hitem
    obtain ⟨gameObject, hobj, -⟩ := hsid item hitem
    exact Option.isSome_of_mem hobj
  have hshows : Shows c b now sid (triggers isSubscription items) s.locator s.locator := by
    refine ⟨⟨hwf, hwf⟩, fun _ => rfl, hguid, fun q hq => ?_⟩
    obtain ⟨item, hitem, htrig⟩ := List.mem_filterMap.mp hq
    obtain ⟨gameObject, hobj, heq⟩ := hsid item hitem
    obtain ⟨gameObject', hobj', rfl⟩ := Option.map_eq_some_iff.mp htrig
    cases hobj.symm.trans hobj'
    exact heq
  refine ⟨fun q => reported now q s.locator.lastUpdates s.locator.root, fun q _ => ?_,
    fun k hk => ?_, fun parts hperm => ?_⟩
  · obtain ⟨t, hquery, -⟩ := locator_query_spec hwf now q
    exact ⟨_, hquery []⟩
  · obtain ⟨l', r', hhandle, -, hresults⟩ := hshows.taken hc hobj (List.Subset.refl _) hk
    exact ⟨l', r', hhandle, hresults⟩
  · obtain ⟨l', r, hhandle, -, -, hnotices, hresponse⟩ :=
      hshows.taken hc hobj (List.Subset.refl _) (Nat.le_refl items.length)
    rw [List.take_length] at hnotices hresponse
    have hsame : (triggers isSubscription parts.flatten).Perm (triggers isSubscription items) :=
      hperm.filterMap _
    obtain ⟨l'', rs, heach, hends, hnotices', hresponse'⟩ := hshows.handledEach hc
      (fun item hi => hobj item (hperm.subset hi)) hsame.subset
    refine ⟨l', r, l'', rs, hhandle, heach, hends, fun d => ?_, ?_⟩
    · rw [hnotices, hnotices']
      exact hsame.flatMap_right _
    · rw [hresponse, hresponse']
      exact hsame.flatMap_right _

end

/-- A subscription of server 2 in a tree of capacity 1. -/
def oneSubscription : List Activity :=
  [.receiveSubscribe [⟨some ⟨9, 2, 0, 0, 20, 20⟩, 500⟩], .handle 0 1000, .handle 0 1000]

/-- Publications of server 1 for two objects, one of which it names twice. -/
def threePublications : List StorableMsg :=
  [⟨some ⟨7, 1, 10, 10, 2, 2⟩, 500⟩, ⟨some ⟨8, 1, 12, 12, 2, 2⟩, 500⟩,
    ⟨some ⟨7, 1, 14, 14, 2, 2⟩, 900⟩]

/-- The same three, each in a request of its own and the last of them first. -/
theorem batch_matches_threePublications :
    ∃ s l' r l'' rs, run LocatorServer.step (LocatorServer.start world 1) oneSubscription = some s ∧
      s.locator.handle (.arrive false threePublications) (List.replicate 6 1001) = some (l', r) ∧
      r.notices 2 = [⟨7, 1⟩, ⟨8, 1⟩, ⟨7, 1⟩] ∧
      s.locator.handleEach false 1001 (threePublications.reverse.map fun item => [item]) =
        some (l'', rs) ∧ (rs.flatMap fun r => r.notices 2).Perm (r.notices 2) := by
  obtain ⟨s, hrun, hguid, hnotices⟩ := exists_of_map_decide
    (o := run LocatorServer.step (LocatorServer.start world 1) oneSubscription)
    (P := fun s => (∀ e ∈ entries s.locator.root, ∀ q ∈ triggers false threePublications,
        e.guid = q.guid → e.sid = 1) ∧
      (s.locator.handle (.arrive false threePublications) (List.replicate 6 1001)).map
        (fun x => x.2.notices 2) = some [⟨7, 1⟩, ⟨8, 1⟩, ⟨7, 1⟩]) (by decide +kernel)
  have hsid : ∀ item ∈ threePublications, ∃ gameObject ∈ item.gameObject, gameObject.sid = 1 := by
    simp [threePublications]
  obtain ⟨found, -, -, hparts⟩ := batch_matches (by decide) hrun false hsid hguid 1001
  obtain ⟨l', r, l'', rs, hhandle, heach, -, hperm, -⟩ :=
    hparts (threePublications.reverse.map fun item => [item]) (by decide)
  refine ⟨s, l', r, l'', rs, hrun, hhandle, ?_, heach, hperm 2⟩
  have hsix : s.locator.handle (.arrive false threePublications) (List.replicate 6 1001) =
      some (l', r) := hhandle
  rw [hsix] at hnotices
  exact Option.some.inj hnotices

end DistGame
