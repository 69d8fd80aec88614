import LogQuery.Proofs.Cache.Steps

/-!
# The cache as a list in the order of use

What a cache is meant to be, without digests and without a search for the entry to remove: a list of
results, the one touched last first, which is cut off at the capacity. A look-up within the
time-to-live brings the result to the front; a look-up after it removes the result.

As long as the clock ascends and no two queries have the same digest, a cache answers and counts as
this list does:

* `evict_of_descending`: among entries in the order of use, the one to remove is the last;
* `follows_get`, `follows_set`, `follows_step`: what one operation does to both;
* `run_follows`: what a run does to both.
-/

namespace LogQuery.Cache

variable {α : Type}

/-! ## The list -/

/-- A list of results and its counters. -/
structure Recency (α : Type) where
  capacity : Nat
  ttl : Nat
  /-- The results with the times at which they were last touched, the latest first. -/
  entries : List (Entry α)
  requests : Nat
  hits : Nat

namespace Recency

def empty (capacity ttl : Nat) : Recency α := ⟨capacity, ttl, [], 0, 0⟩

/-- Is the entry the one for this query and version? -/
def isFor (query version : String) (e : Entry α) : Bool := e.query == query && e.version == version

/-- The entries for other queries and versions. -/
def others (query version : String) (entries : List (Entry α)) : List (Entry α) :=
  entries.filter (!isFor query version ·)

/-- A look-up brings the entry to the front, or removes it if it was touched too long ago. -/
def get (query : String) (version : Option String) (now : Int) (r : Recency α) :
    Option α × Recency α :=
  let version := version.getD "default"
  let others := others query version r.entries
  match r.entries.find? (isFor query version) with
  | none => (none, { r with requests := r.requests + 1 })
  | some e =>
    if now - e.lastAccess ≤ r.ttl then
      (some e.value,
        { r with
          entries := { e with lastAccess := now } :: others
          requests := r.requests + 1
          hits := r.hits + 1 })
    else (none, { r with entries := others, requests := r.requests + 1 })

/-- A result is put in front, and the list is cut off at the capacity. -/
def set (query : String) (version : Option String) (value : α) (now : Int) (r : Recency α) :
    Recency α :=
  let version := version.getD "default"
  { r with
    entries := (⟨query, version, value, now⟩ :: others query version r.entries).take r.capacity }

/-- Only the results of one version stay. -/
def invalidate (keep : String) (r : Recency α) : Nat × Recency α :=
  (r.entries.countP (·.version != keep),
    { r with entries := r.entries.filter (·.version == keep) })

def clear (r : Recency α) : Recency α := empty r.capacity r.ttl

def stats (r : Recency α) : Stats :=
  ⟨r.entries.length, r.requests, r.hits,
    if r.requests = 0 then .ofNat 0 else .ofRatio false r.hits r.requests⟩

def step (r : Recency α) : Operation α → Answer α × Recency α
  | .get query version now =>
    let (value, r) := r.get query version now
    (.found value, r)
  | .set query version value now => (.none, r.set query version value now)
  | .invalidate keep =>
    let (count, r) := r.invalidate keep
    (.removed count, r)
  | .clear => (.none, r.clear)
  | .stats => (.none, r)

def run (r : Recency α) : List (Operation α) → List (Answer α) × Recency α
  | [] => ([], r)
  | op :: rest =>
    let (answer, r) := r.step op
    let (answers, r) := run r rest
    (answer :: answers, r)

end Recency

/-! ## Runs on an ascending clock -/

/-- When the operation happens, if that matters. -/
def Operation.time? : Operation α → Option Int
  | .get _ _ now => some now
  | .set _ _ _ now => some now
  | _ => none

/-- The query that the operation is about. -/
def Operation.query? : Operation α → Option String
  | .get query _ _ => some query
  | .set query _ _ _ => some query
  | _ => none

/-- No two of the queries have the same digest. -/
def Distinguishes (digest : String → UInt64) (queries : List String) : Prop :=
  ∀ q ∈ queries, ∀ q' ∈ queries, digest q = digest q' → q = q'

instance (digest : String → UInt64) (queries : List String) :
    Decidable (Distinguishes digest queries) :=
  inferInstanceAs (Decidable (∀ q ∈ queries, ∀ q' ∈ queries, digest q = digest q' → q = q'))

/-- An entry under the key of a query is one for that query. -/
theorem Distinguishes.isUnder_iff {digest : String → UInt64} {queries : List String}
    (h : Distinguishes digest queries) {query : String} (hquery : query ∈ queries)
    (version : Option String) {e : Entry α} (he : e.query ∈ queries) :
    e.isUnder digest (keyOf digest query version) = true ↔
      e.query = query ∧ e.version = versionOf version := by
  rw [Cache.isUnder_iff]
  exact and_congr_left fun _ => ⟨h _ he _ hquery, congrArg digest⟩

/-- The entries are in the order of use, the latest first. -/
def Descending (entries : List (Entry α)) : Prop :=
  entries.Pairwise fun a b => b.lastAccess < a.lastAccess

/-- Entries of some queries in the order of use, no more than a cache may hold. -/
structure InOrder (queries : List String) (capacity : Nat) (entries : List (Entry α)) : Prop where
  query_mem : ∀ e ∈ entries, e.query ∈ queries
  length_le : entries.length ≤ capacity
  descending : Descending entries

/-- A cache that holds what a list holds. -/
structure Follows (queries : List String) (c : Cache α) (r : Recency α) : Prop where
  capacity_eq : c.capacity = r.capacity
  ttl_eq : c.ttl = r.ttl
  entries_eq : c.entries = r.entries
  requests_eq : c.requests = r.requests
  hits_eq : c.hits = r.hits
  distinguishes : Distinguishes c.digest queries
  inOrder : InOrder queries c.capacity c.entries

namespace InOrder

variable {queries : List String} {capacity : Nat} {entries : List (Entry α)}

/-- Entries may be removed. -/
theorem sublist (h : InOrder queries capacity entries) {fewer : List (Entry α)}
    (hfewer : fewer.Sublist entries) : InOrder queries capacity fewer :=
  ⟨fun e he => h.query_mem e (hfewer.mem he), Nat.le_trans hfewer.length_le h.length_le,
    h.descending.sublist hfewer⟩

/-- An entry may be put in front, at a later time, where there is room. -/
theorem cons (h : InOrder queries capacity entries) {e : Entry α} (he : e.query ∈ queries)
    (hroom : entries.length < capacity) (hlater : ∀ a ∈ entries, a.lastAccess < e.lastAccess) :
    InOrder queries capacity (e :: entries) :=
  ⟨List.forall_mem_cons.mpr ⟨he, h.query_mem⟩, hroom, List.pairwise_cons.mpr ⟨hlater, h.descending⟩⟩

end InOrder

/-! ## The entry to remove -/

theorem eraseNth_last {test : Entry α → Bool} {entries : List (Entry α)} {e : Entry α}
    (h : ∀ a ∈ entries, test a = false) (he : test e = true) :
    eraseNth test 0 (entries ++ [e]) = entries := by
  induction entries with
  | nil => simp [eraseNth, he]
  | cons a entries ih =>
    rw [List.cons_append, eraseNth, if_neg (by simp [h a List.mem_cons_self]),
      ih fun b hb => h b (List.mem_cons_of_mem _ hb)]

/-- Among entries in the order of use, the one to remove is the last. -/
theorem evict_of_descending (tie : Nat) {entries : List (Entry α)} (h : Descending entries) :
    evict tie entries = entries.dropLast := by
  obtain rfl | ⟨init, e, rfl⟩ := List.eq_nil_or_concat entries
  · rfl
  rw [List.concat_eq_append] at h ⊢
  have hlater : ∀ a ∈ init, e.lastAccess < a.lastAccess := fun a ha =>
    (List.pairwise_append.mp h).2.2 a ha e List.mem_cons_self
  have hmin : ((init ++ [e]).map Entry.lastAccess).min? = some e.lastAccess := by
    rw [List.min?_eq_some_iff]
    refine ⟨by simp, fun t ht => ?_⟩
    obtain ⟨a, ha, rfl⟩ := List.mem_map.mp ht
    rcases List.mem_append.mp ha with ha | ha
    · exact Int.le_of_lt (hlater a ha)
    · exact Int.le_of_eq (congrArg Entry.lastAccess (List.mem_singleton.mp ha).symm)
  have hfalse : ∀ a ∈ init, (a.lastAccess == e.lastAccess) = false := fun a ha =>
    beq_eq_false_iff_ne.mpr (Int.ne_of_gt (hlater a ha))
  -- No other entry was touched at that time, so there is no tie to break.
  have hcount : (init ++ [e]).countP (·.lastAccess == e.lastAccess) = 1 := by
    rw [List.countP_append, List.countP_eq_zero.mpr fun a ha => by simp [hfalse a ha]]
    simp
  rw [evict, hmin]
  dsimp only
  rw [hcount, Nat.mod_one, eraseNth_last hfalse (by simp), List.dropLast_concat]

/-! ## One operation -/

section

variable {queries : List String} {c : Cache α} {r : Recency α}

/-- An entry under the key of a query is one for that query. -/
theorem Follows.isUnder_eq (h : Follows queries c r) {query : String} (hquery : query ∈ queries)
    (version : Option String) {e : Entry α} (he : e ∈ c.entries) :
    e.isUnder c.digest (keyOf c.digest query version) =
      Recency.isFor query (versionOf version) e := by
  rw [Bool.eq_iff_iff, h.distinguishes.isUnder_iff hquery version (h.inOrder.query_mem e he),
    Recency.isFor, Bool.and_eq_true, beq_iff_eq, beq_iff_eq]

theorem Follows.rest_eq (h : Follows queries c r) {query : String} (hquery : query ∈ queries)
    (version : Option String) :
    c.rest query version = Recency.others query (versionOf version) r.entries := by
  rw [rest, others, Recency.others, ← h.entries_eq]
  exact List.filter_congr fun e he => by rw [h.isUnder_eq hquery version he]

theorem Follows.stored?_eq (h : Follows queries c r) {query : String} (hquery : query ∈ queries)
    (version : Option String) :
    c.stored? query version = r.entries.find? (Recency.isFor query (versionOf version)) := by
  rw [stored?, ← h.entries_eq, ← List.head?_filter, ← List.head?_filter]
  exact congrArg _ (List.filter_congr fun e he => h.isUnder_eq hquery version he)

/-- The entry under the key of a query is one for that query. -/
theorem Follows.query_eq_of_stored? (h : Follows queries c r) {query : String}
    (hquery : query ∈ queries) {version : Option String} {e : Entry α}
    (he : c.stored? query version = some e) : e.query = query := by
  have hfor : Recency.isFor query (versionOf version) e = true := by
    rw [h.stored?_eq hquery version] at he
    exact List.find?_some he
  rw [Recency.isFor, Bool.and_eq_true, beq_iff_eq] at hfor
  exact hfor.1

/-- An entry for the query is put in front of all others, where there is room for it. -/
theorem Follows.inOrder_front (h : Follows queries c r) {query : String} (hquery : query ∈ queries)
    {version : Option String} (hstored : (c.stored? query version).isSome) (version' : String)
    (value : α) {now : Int} (hnow : ∀ e ∈ c.entries, e.lastAccess < now) :
    InOrder queries c.capacity (⟨query, version', value, now⟩ :: c.rest query version) := by
  have hany : c.entries.any (·.isUnder c.digest (keyOf c.digest query version)) = true :=
    List.isSome_find?.symm.trans hstored
  have hlt : (c.rest query version).length < c.entries.length := length_others_lt hany
  refine (h.inOrder.sublist List.filter_sublist).cons hquery
    (Nat.lt_of_lt_of_le hlt h.inOrder.length_le) fun e he => hnow e (mem_of_mem_rest he)

theorem getD_default (version : Option String) : version.getD "default" = versionOf version := rfl

/-- A look-up at a later time. -/
theorem follows_get (h : Follows queries c r) {query : String} (hquery : query ∈ queries)
    (version : Option String) {now : Int} (hnow : ∀ e ∈ c.entries, e.lastAccess < now) :
    (c.get query version now).1 = (r.get query version now).1 ∧
      Follows queries (c.get query version now).2 (r.get query version now).2 := by
  have hstored := h.stored?_eq hquery version
  have hrest := h.rest_eq hquery version
  have hrequests := congrArg (· + 1) h.requests_eq
  have hhits := congrArg (· + 1) h.hits_eq
  obtain ⟨hnone, hget⟩ | ⟨e, hsome, -, hexpired, hget⟩ | ⟨e, hsome, hq, hexpired, hget⟩ :=
    get_cases query version now c
  · -- An entry under the key would be one for the query, so there is none.
    have hfind : r.entries.find? (Recency.isFor query (versionOf version)) = none := by
      rw [← hstored, Option.eq_none_iff_forall_ne_some]
      exact fun e he => hnone e he (h.query_eq_of_stored? hquery he)
    rw [hget]
    simp only [Recency.get, getD_default, hfind]
    exact ⟨trivial, { h with requests_eq := hrequests }⟩
  · have hlate : ¬ now - e.lastAccess ≤ r.ttl := by
      rw [← h.ttl_eq, ← isExpired_eq_false_iff, hexpired]
      exact Bool.noConfusion
    rw [hget]
    simp only [Recency.get, getD_default, ← hstored, hsome, if_neg hlate]
    exact ⟨trivial, { h with
      entries_eq := hrest
      requests_eq := hrequests
      inOrder := h.inOrder.sublist List.filter_sublist }⟩
  · have hlate : now - e.lastAccess ≤ r.ttl := h.ttl_eq ▸ isExpired_eq_false_iff.mp hexpired
    rw [hget]
    simp only [Recency.get, getD_default, ← hstored, hsome, if_pos hlate]
    refine ⟨trivial, { h with
      entries_eq := congrArg _ hrest
      requests_eq := hrequests
      hits_eq := hhits
      inOrder := ?_ }⟩
    obtain ⟨q, v, value, t⟩ := e
    cases hq
    exact h.inOrder_front hquery (by rw [hsome]; rfl) v value hnow

/-- A list that is put behind a new entry is cut off by one place. -/
theorem take_front {capacity : Nat} (hcapacity : capacity ≠ 0) (e : Entry α)
    (entries : List (Entry α)) :
    (e :: entries).take capacity = e :: entries.take (capacity - 1) := by
  obtain ⟨n, rfl⟩ := Nat.exists_eq_succ_of_ne_zero hcapacity
  rfl

/-- Without an entry for the query, all entries are for others. -/
theorem Follows.others_eq_self (h : Follows queries c r) {query : String}
    (hquery : query ∈ queries) {version : Option String} (hnone : c.stored? query version = none) :
    Recency.others query (versionOf version) r.entries = c.entries := by
  rw [← h.rest_eq hquery version]
  refine List.filter_eq_self.mpr fun e he => ?_
  simpa using List.find?_eq_none.mp hnone e he

/-- A result stored at a later time. -/
theorem follows_set (h : Follows queries c r) {query : String} (hquery : query ∈ queries)
    (version : Option String) (value : α) {now : Int} (hnow : ∀ e ∈ c.entries, e.lastAccess < now) :
    Follows queries (c.set query version value now) (r.set query version value now) := by
  have hlength := h.inOrder.length_le
  obtain ⟨hcapacity, hset⟩ | ⟨hcapacity, hsome, hset⟩ | ⟨hcapacity, hnone, hroom, hset⟩ |
      ⟨hcapacity, hnone, hfull, hset⟩ := set_cases query version value now c
  · have hnil : c.entries = [] := by
      rw [hcapacity, Nat.le_zero, List.length_eq_zero_iff] at hlength
      exact hlength
    rw [hset]
    refine { h with entries_eq := ?_ }
    rw [Recency.set, ← h.capacity_eq, hcapacity, List.take_zero, hnil]
  · have hinOrder := h.inOrder_front hquery hsome (versionOf version) value hnow
    rw [hset]
    refine { h with entries_eq := ?_, inOrder := hinOrder }
    simp only [Recency.set, getD_default]
    rw [← h.capacity_eq, ← h.rest_eq hquery, List.take_of_length_le hinOrder.length_le]
  · have hinOrder : InOrder queries c.capacity
        (⟨query, versionOf version, value, now⟩ :: c.entries) := h.inOrder.cons hquery hroom hnow
    rw [hset]
    refine { h with entries_eq := ?_, inOrder := hinOrder }
    simp only [Recency.set, getD_default]
    rw [← h.capacity_eq, h.others_eq_self hquery hnone, List.take_of_length_le hinOrder.length_le]
  · have hlast := evict_of_descending (c.ties 0) h.inOrder.descending
    have hshorter : (evict (c.ties 0) c.entries).length < c.capacity := by
      rw [length_entries_evict]
      omega
    have hinOrder : InOrder queries c.capacity
        (⟨query, versionOf version, value, now⟩ :: evict (c.ties 0) c.entries) :=
      (h.inOrder.sublist (evict_sublist _ _)).cons hquery hshorter fun e he =>
        hnow e ((evict_sublist _ _).mem he)
    rw [hset]
    refine { h with entries_eq := ?_, inOrder := hinOrder }
    simp only [Recency.set, getD_default]
    rw [← h.capacity_eq, h.others_eq_self hquery hnone, take_front hcapacity, hlast,
      List.dropLast_eq_take, Nat.le_antisymm hlength hfull]

theorem follows_invalidate (h : Follows queries c r) (keep : String) :
    (c.invalidate keep).1 = (r.invalidate keep).1 ∧
      Follows queries (c.invalidate keep).2 (r.invalidate keep).2 := by
  refine ⟨?_, { h with entries_eq := ?_, inOrder := h.inOrder.sublist List.filter_sublist }⟩
  · rw [invalidate, Recency.invalidate, ← h.entries_eq]
    have hsum := List.length_eq_countP_add_countP (·.version == keep) (l := c.entries)
    have hother : c.entries.countP (fun e => decide ¬ (e.version == keep) = true) =
        c.entries.countP (·.version != keep) := List.countP_congr fun e _ => by simp
    simp only [← List.countP_eq_length_filter]
    omega
  · rw [Recency.invalidate, ← h.entries_eq]
    rfl

/-- What one operation at a later time does to a cache and to the list that it follows. -/
theorem follows_step (h : Follows queries c r) {op : Operation α}
    (hquery : ∀ query ∈ op.query?, query ∈ queries)
    (hnow : ∀ e ∈ c.entries, ∀ now ∈ op.time?, e.lastAccess < now) :
    (c.step op).1 = (r.step op).1 ∧ Follows queries (c.step op).2 (r.step op).2 := by
  cases op with
  | get query version now =>
    obtain ⟨hanswer, hfollows⟩ :=
      follows_get h (hquery query rfl) version fun e he => hnow e he now rfl
    exact ⟨congrArg Answer.found hanswer, hfollows⟩
  | set query version value now =>
    exact ⟨rfl, follows_set h (hquery query rfl) version value fun e he => hnow e he now rfl⟩
  | invalidate keep =>
    obtain ⟨hanswer, hfollows⟩ := follows_invalidate h keep
    exact ⟨congrArg Answer.removed hanswer, hfollows⟩
  | clear =>
    exact ⟨rfl, ⟨h.capacity_eq, h.ttl_eq, rfl, rfl, rfl, h.distinguishes,
      ⟨fun _ he => (List.not_mem_nil he).elim, Nat.zero_le _, List.Pairwise.nil⟩⟩⟩
  | stats => exact ⟨rfl, h⟩

/-- An operation touches entries at its own time. -/
theorem lastAccess_of_mem_step {op : Operation α} {e : Entry α} (h : e ∈ (c.step op).2.entries) :
    e ∈ c.entries ∨ op.time? = some e.lastAccess := by
  rcases mem_step h with h | ⟨e', -, query, version, now, rfl, rfl⟩ |
    ⟨query, version, value, now, rfl, rfl⟩
  · exact .inl h
  · exact .inr rfl
  · exact .inr rfl

/-- What a run on an ascending clock does to a cache and to the list that it follows. -/
theorem run_follows (h : Follows queries c r) {ops : List (Operation α)}
    (hquery : ∀ query ∈ ops.filterMap Operation.query?, query ∈ queries)
    (htimes : (ops.filterMap Operation.time?).Pairwise (· < ·))
    (hnow : ∀ e ∈ c.entries, ∀ now ∈ ops.filterMap Operation.time?, e.lastAccess < now) :
    (c.run ops).1 = (r.run ops).1 ∧ Follows queries (c.run ops).2 (r.run ops).2 := by
  induction ops generalizing c r with
  | nil => exact ⟨rfl, h⟩
  | cons op ops ih =>
    have htime : ∀ now ∈ op.time?, now ∈ (op :: ops).filterMap Operation.time? := fun now hop =>
      List.mem_filterMap.mpr ⟨op, List.mem_cons_self, hop⟩
    have hlater : ∀ now ∈ op.time?, ∀ t ∈ ops.filterMap Operation.time?, now < t := by
      intro now hop
      rw [List.filterMap_cons_some hop] at htimes
      exact (List.pairwise_cons.mp htimes).1
    have htail : (ops.filterMap Operation.time?).Sublist ((op :: ops).filterMap Operation.time?) :=
      (List.sublist_cons_self op ops).filterMap _
    obtain ⟨hanswer, hfollows⟩ := follows_step h
      (fun query hop => hquery query (List.mem_filterMap.mpr ⟨op, List.mem_cons_self, hop⟩))
      fun e he now hop => hnow e he now (htime now hop)
    obtain ⟨hanswers, hfollows'⟩ := ih hfollows
      (fun query hq => hquery query (((List.sublist_cons_self op ops).filterMap _).mem hq))
      (htimes.sublist htail) fun e he t ht => by
        rcases lastAccess_of_mem_step he with he | hop
        · exact hnow e he t (htail.mem ht)
        · exact hlater _ hop t ht
    refine ⟨?_, hfollows'⟩
    show (c.step op).1 :: ((c.step op).2.run ops).1 = (r.step op).1 :: ((r.step op).2.run ops).1
    rw [hanswer, hanswers]

end

/-- On an ascending clock, and if no two of its queries have the same digest, a run gives the
answers, the size and the counters that it gives on the list in the order of use. -/
theorem run_recency (capacity ttl : Nat) {digest : String → UInt64} (ties : Nat → Nat)
    {ops : List (Operation α)} (htimes : (ops.filterMap Operation.time?).Pairwise (· < ·))
    (hdigest : Distinguishes digest (ops.filterMap Operation.query?)) :
    ((empty capacity ttl digest ties).run ops).1 = ((Recency.empty capacity ttl).run ops).1 ∧
    ((empty capacity ttl digest ties).run ops).2.size =
      ((Recency.empty capacity ttl).run ops).2.entries.length ∧
    ((empty capacity ttl digest ties).run ops).2.stats =
      ((Recency.empty capacity ttl).run ops).2.stats := by
  have hstart : Follows (ops.filterMap Operation.query?) (empty capacity ttl digest ties)
      (Recency.empty capacity ttl : Recency α) :=
    ⟨rfl, rfl, rfl, rfl, rfl, hdigest, ⟨by simp [empty], Nat.zero_le _, List.Pairwise.nil⟩⟩
  obtain ⟨hanswers, hfollows⟩ := run_follows hstart (fun _ h => h) htimes (by simp [empty])
  refine ⟨hanswers, congrArg List.length hfollows.entries_eq, ?_⟩
  rw [stats, Recency.stats, hitRate, size, hfollows.entries_eq, hfollows.requests_eq,
    hfollows.hits_eq]

/-- A full cache makes room, one version is another's default, and a look-up comes too late. -/
theorem run_recency_full :
    let ops : List (Operation Nat) :=
      [.set "a = 1" none 1 0, .set "b = 2" (some "v2") 2 1, .get "a = 1" (some "default") 2,
        .set "c = 3" none 3 3, .get "b = 2" (some "v2") 4, .set "c = 3" none 4 5,
        .get "a = 1" none 13, .get "c = 3" none 15, .invalidate "v2", .get "c = 3" none 16]
    (ops.filterMap Operation.time?).Pairwise (· < ·) ∧
    Distinguishes Text.digest (ops.filterMap Operation.query?) ∧
    ((empty 2 10).run ops).1 =
      [.none, .none, .found (some 1), .none, .found none, .none, .found none, .found (some 4),
        .removed 1, .found none] ∧
    ((empty 2 10).run ops).2.size = 0 := by
  intro ops
  have htimes : (ops.filterMap Operation.time?).Pairwise (· < ·) := by decide +kernel
  have hdigest : Distinguishes Text.digest (ops.filterMap Operation.query?) := by decide +kernel
  obtain ⟨hanswers, hsize, -⟩ := run_recency 2 10 (fun _ => 0) htimes hdigest
  exact ⟨htimes, hdigest, hanswers.trans rfl, hsize.trans rfl⟩

end LogQuery.Cache
