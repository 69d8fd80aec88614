import LogQuery.Proofs.Cache.History

/-!
# What an operation leaves as it is

The size of a cache, its counters, and what one operation after any run may change. Nothing is asked
of the clock, which may stand still or go backwards, nor of the way ties are broken, so no entry is
known to be the one touched last. That no two queries have the same digest is asked for only where
entries are told apart.

* `tallies_step`, `tallies_run`: the size stays within the capacity, and the counters are those of
  the look-ups since the cache was last cleared;
* `exists_evict_eq`: what makes room is one entry, and none was touched before it;
* `looksUp_get`, `stores_set`, `invalidates`, `frame_step`: what each operation changes;
* `run_frame`: the size and the counters after a run, and what the next operation changes.
-/

namespace LogQuery.Cache

variable {α : Type}

/-! ## The size and the counters -/

/-- Was the cache cleared? -/
def Event.isClear : Event α → Bool
  | (.clear, _) => true
  | _ => false

/-- Was a result looked up? -/
def Event.isGet : Event α → Bool
  | (.get .., _) => true
  | _ => false

/-- Was a result found? -/
def Event.isHit : Event α → Bool
  | (.get .., .found (some _)) => true
  | _ => false

/-- What happened since the cache was last cleared, the latest event first. -/
def sinceClear (past : List (Event α)) : List (Event α) := past.reverse.takeWhile (!·.isClear)

theorem sinceClear_snoc (past : List (Event α)) {event : Event α} (h : event.isClear = false) :
    sinceClear (past ++ [event]) = event :: sinceClear past := by
  rw [sinceClear, List.reverse_concat, List.takeWhile_cons_of_pos (by simp [h]), sinceClear]

theorem sinceClear_snoc_clear (past : List (Event α)) (answer : Answer α) :
    sinceClear (past ++ [(.clear, answer)]) = [] := by
  rw [sinceClear, List.reverse_concat, List.takeWhile_cons_of_neg (by simp [Event.isClear])]

/-- The cache is no larger than it may be, and has counted the look-ups since it was cleared and those
that found a result. -/
structure Tallies (past : List (Event α)) (c : Cache α) : Prop where
  size_le : c.size ≤ c.capacity
  requests_eq : c.requests = (sinceClear past).countP Event.isGet
  hits_eq : c.hits = (sinceClear past).countP Event.isHit

section

variable {past : List (Event α)} {c : Cache α}

/-- An event that is no look-up leaves the counters as they are. -/
theorem Tallies.snoc (h : Tallies past c) {event : Event α} (hclear : event.isClear = false)
    (hget : event.isGet = false) (hhit : event.isHit = false) {entries : List (Entry α)}
    (hlength : entries.length ≤ c.capacity) (ties : Nat → Nat) :
    Tallies (past ++ [event]) { c with entries, ties } := by
  refine ⟨hlength, ?_, ?_⟩
  · rw [sinceClear_snoc past hclear, List.countP_cons_of_neg (by simp [hget])]
    exact h.requests_eq
  · rw [sinceClear_snoc past hclear, List.countP_cons_of_neg (by simp [hhit])]
    exact h.hits_eq

/-- A look-up without a result is counted as such. -/
theorem Tallies.snoc_miss (h : Tallies past c) {entries : List (Entry α)}
    (hlength : entries.length ≤ c.capacity) (query : String) (version : Option String) (now : Int) :
    Tallies (past ++ [(.get query version now, .found none)])
      { c with entries, requests := c.requests + 1 } := by
  refine ⟨hlength, ?_, ?_⟩
  · rw [sinceClear_snoc past rfl, List.countP_cons_of_pos rfl, ← h.requests_eq]
  · rw [sinceClear_snoc past rfl, List.countP_cons_of_neg (by simp [Event.isHit])]
    exact h.hits_eq

/-- A look-up with a result is counted twice. -/
theorem Tallies.snoc_hit (h : Tallies past c) {entries : List (Entry α)}
    (hlength : entries.length ≤ c.capacity) (query : String) (version : Option String) (now : Int)
    (value : α) :
    Tallies (past ++ [(.get query version now, .found (some value))])
      { c with entries, requests := c.requests + 1, hits := c.hits + 1 } := by
  refine ⟨hlength, ?_, ?_⟩
  · rw [sinceClear_snoc past rfl, List.countP_cons_of_pos rfl, ← h.requests_eq]
  · rw [sinceClear_snoc past rfl, List.countP_cons_of_pos rfl, ← h.hits_eq]

theorem tallies_get (h : Tallies past c) (query : String) (version : Option String) (now : Int) :
    Tallies (past ++ [(.get query version now, .found (c.get query version now).1)])
      (c.get query version now).2 := by
  obtain ⟨-, hget⟩ | ⟨e, -, -, -, hget⟩ | ⟨e, hstored, -, -, hget⟩ :=
    Cache.get_cases query version now c
  · rw [hget]
    exact h.snoc_miss h.size_le query version now
  · rw [hget]
    exact h.snoc_miss (Nat.le_trans (List.length_filter_le _ _) h.size_le) query version now
  · have hany : c.entries.any (·.isUnder c.digest (keyOf c.digest query version)) = true :=
      List.any_eq_true.mpr ⟨e, (mem_of_stored? hstored).1, List.find?_some hstored⟩
    rw [hget]
    have hlength : ({ e with lastAccess := now } :: c.rest query version).length ≤ c.capacity :=
      Nat.lt_of_lt_of_le (length_others_lt hany) h.size_le
    exact h.snoc_hit hlength query version now e.value

theorem tallies_set (h : Tallies past c) (query : String) (version : Option String) (value : α)
    (now : Int) :
    Tallies (past ++ [(.set query version value now, .none)]) (c.set query version value now) := by
  have hlength : (c.set query version value now).entries.length ≤ c.capacity :=
    entries_length_set_le h.size_le
  obtain ⟨-, hset⟩ | ⟨-, -, hset⟩ | ⟨-, -, -, hset⟩ | ⟨-, -, -, hset⟩ :=
    set_cases query version value now c
  all_goals
    rw [hset] at hlength ⊢
    exact h.snoc rfl rfl rfl hlength _

/-- What one operation does to the size and the counters. -/
theorem tallies_step (h : Tallies past c) (op : Operation α) :
    Tallies (past ++ [(op, (c.step op).1)]) (c.step op).2 := by
  cases op with
  | get query version now => exact tallies_get h query version now
  | set query version value now => exact tallies_set h query version value now
  | invalidate keep =>
    exact h.snoc rfl rfl rfl (Nat.le_trans (List.length_filter_le _ _) h.size_le) c.ties
  | clear =>
    refine ⟨Nat.zero_le _, ?_, ?_⟩
    all_goals
      rw [sinceClear_snoc_clear]
      rfl
  | stats => exact h.snoc rfl rfl rfl h.size_le c.ties

/-- What a run does to the size and the counters. -/
theorem tallies_run (h : Tallies past c) (ops : List (Operation α)) :
    Tallies (past ++ ops.zip (c.run ops).1) (c.run ops).2 := by
  induction ops generalizing past c with
  | nil =>
    rw [List.zip_nil_left, List.append_nil]
    exact h
  | cons op ops ih =>
    have hrest := ih (tallies_step h op)
    rw [List.append_assoc] at hrest
    exact hrest

end

/-! ## The entry that makes room -/

theorem exists_eraseNth_eq {test : Entry α → Bool} {n : Nat} {entries : List (Entry α)}
    (h : n < entries.countP test) :
    ∃ front victim back, entries = front ++ victim :: back ∧ test victim = true ∧
      eraseNth test n entries = front ++ back := by
  induction entries generalizing n with
  | nil => simp at h
  | cons e entries ih =>
    rw [eraseNth]
    cases he : test e with
    | true =>
      rw [List.countP_cons_of_pos he] at h
      rw [if_pos rfl]
      split
      · exact ⟨[], e, entries, rfl, he, rfl⟩
      · obtain ⟨front, victim, back, rfl, hvictim, herase⟩ := ih (n := n - 1) (by omega)
        exact ⟨e :: front, victim, back, rfl, hvictim, by rw [herase, List.cons_append]⟩
    | false =>
      rw [List.countP_cons_of_neg (by simp [he])] at h
      obtain ⟨front, victim, back, rfl, hvictim, herase⟩ := ih h
      rw [if_neg Bool.false_ne_true]
      exact ⟨e :: front, victim, back, rfl, hvictim, by rw [herase, List.cons_append]⟩

/-- What makes room is one entry, and none was touched before it. -/
theorem exists_evict_eq (tie : Nat) {entries : List (Entry α)} (h : entries ≠ []) :
    ∃ front victim back, entries = front ++ victim :: back ∧
      (∀ e ∈ entries, victim.lastAccess ≤ e.lastAccess) ∧ evict tie entries = front ++ back := by
  cases hmin : (entries.map Entry.lastAccess).min? with
  | none => exact absurd (List.map_eq_nil_iff.mp (List.min?_eq_none_iff.mp hmin)) h
  | some oldest =>
    obtain ⟨hmem, hle⟩ := List.min?_eq_some_iff.mp hmin
    obtain ⟨e, he, holdest⟩ := List.mem_map.mp hmem
    have hpos : 0 < entries.countP (·.lastAccess == oldest) :=
      List.countP_pos_iff.mpr ⟨e, he, beq_iff_eq.mpr holdest⟩
    obtain ⟨front, victim, back, hentries, hvictim, herase⟩ :=
      exists_eraseNth_eq (Nat.mod_lt tie hpos)
    refine ⟨front, victim, back, hentries, fun e he => ?_, ?_⟩
    · rw [beq_iff_eq.mp hvictim]
      exact hle _ (List.mem_map_of_mem he)
    · rw [evict, hmin]
      exact herase

/-- Among entries that are all different, those on both sides of one are the others. -/
theorem mem_sides_iff {front back : List (Entry α)} {victim : Entry α}
    (h : ((front ++ victim :: back).map Entry.name).Nodup) {e : Entry α} :
    e ∈ front ++ back ↔ e ∈ front ++ victim :: back ∧ e ≠ victim := by
  have hnodup : (victim :: (front ++ back)).Nodup :=
    List.perm_middle.nodup_iff.mp
      (List.Pairwise.of_map Entry.name (fun _ _ hne heq => hne (congrArg Entry.name heq)) h)
  rw [List.perm_middle.mem_iff, List.mem_cons]
  refine ⟨fun he => ⟨.inr he, ?_⟩, fun he => he.1.resolve_left he.2⟩
  rintro rfl
  exact (List.nodup_cons.mp hnodup).1 he

/-! ## What each operation changes -/

/-- The entries for other queries and versions are the same in both. -/
def AgreeBut (name : String × String) (c c' : Cache α) : Prop :=
  ∀ e : Entry α, e.name ≠ name → (e ∈ c'.entries ↔ e ∈ c.entries)

/-- What a look-up at `now` may change: the entry that it asks for is renewed if it is found, and is
not there otherwise. -/
structure LooksUp (query : String) (version : Option String) (now : Int) (found : Option α)
    (c c' : Cache α) : Prop where
  others : AgreeBut (query, versionOf version) c c'
  asked : ∀ e ∈ c'.entries, e.name = (query, versionOf version) →
    ∃ old ∈ c.entries, e = { old with lastAccess := now } ∧ found = some old.value

/-- What storing a result at `now` changes. -/
structure Stores (query : String) (version : Option String) (value : α) (now : Int)
    (c c' : Cache α) : Prop where
  counters : c'.requests = c.requests ∧ c'.hits = c.hits
  dropped : c.capacity = 0 → c' = c
  /-- The result is the only one for its query and version. -/
  stored : c.capacity ≠ 0 → ∀ e : Entry α, e.name = (query, versionOf version) →
    (e ∈ c'.entries ↔ e = ⟨query, versionOf version, value, now⟩)
  /-- In place of another result, or in a free place. -/
  placed : (∃ e ∈ c.entries, e.name = (query, versionOf version)) ∨ c.size < c.capacity →
    AgreeBut (query, versionOf version) c c'
  /-- In the place of one of the entries that were touched longest ago. -/
  evicted : (∀ e ∈ c.entries, e.name ≠ (query, versionOf version)) → c.size = c.capacity →
    c.capacity ≠ 0 →
    c'.size = c.size ∧
    ∃ victim ∈ c.entries, (∀ e ∈ c.entries, victim.lastAccess ≤ e.lastAccess) ∧
      ∀ e : Entry α, e.name ≠ (query, versionOf version) →
        (e ∈ c'.entries ↔ e ∈ c.entries ∧ e ≠ victim)

/-- What removing the entries of all versions but one changes; `count` of them are removed. -/
structure Invalidates (keep : String) (count : Nat) (c c' : Cache α) : Prop where
  counters : c'.requests = c.requests ∧ c'.hits = c.hits
  kept : ∀ e : Entry α, e ∈ c'.entries ↔ e ∈ c.entries ∧ e.version = keep
  count_eq : c'.size + count = c.size

/-- What an operation with its answer changes. -/
def Frame (c : Cache α) : Operation α → Answer α → Cache α → Prop
  | .get query version now, answer, c' =>
    ∃ found, answer = .found found ∧ LooksUp query version now found c c'
  | .set query version value now, _, c' => Stores query version value now c c'
  | .invalidate keep, answer, c' => ∃ count, answer = .removed count ∧ Invalidates keep count c c'
  | .clear, _, c' => c'.entries = [] ∧ c'.requests = 0 ∧ c'.hits = 0
  | .stats, _, c' => c' = c

section

variable {queries : List String} {past : List (Event α)} {c : Cache α}

/-- An entry that is put in front of others is not met under another name. -/
theorem mem_cons_iff_of_ne_name {e a : Entry α} (hne : a.name ≠ e.name) {entries : List (Entry α)} :
    a ∈ e :: entries ↔ a ∈ entries := by
  rw [List.mem_cons, or_iff_right]
  rintro rfl
  exact hne rfl

/-- It is the only one under its name, if the others have other names. -/
theorem mem_cons_iff_of_name {e a : Entry α} (ha : a.name = e.name) {entries : List (Entry α)}
    (hothers : ∀ b ∈ entries, b.name ≠ e.name) : a ∈ e :: entries ↔ a = e := by
  rw [List.mem_cons, or_iff_left fun hmem => hothers a hmem ha]

theorem looksUp_get (hdigest : Distinguishes c.digest queries)
    (h : Records queries c.capacity past c.entries) {query : String} (hquery : query ∈ queries)
    (version : Option String) (now : Int) :
    LooksUp query version now (c.get query version now).1 c (c.get query version now).2 := by
  have hrest : ∀ a : Entry α,
      a ∈ c.rest query version ↔ a ∈ c.entries ∧ a.name ≠ (query, versionOf version) :=
    fun _ => mem_rest_iff hdigest h hquery
  obtain ⟨hnone, hget⟩ | ⟨e, -, -, -, hget⟩ | ⟨e, he, hname, -, hget⟩ :=
    h.get_cases hdigest hquery version now
  · rw [hget]
    exact ⟨fun _ _ => Iff.rfl, fun e he hname => absurd hname (hnone e he)⟩
  · rw [hget]
    exact ⟨fun a hne => (hrest a).trans (and_iff_left hne),
      fun a ha hname => absurd hname ((hrest a).mp ha).2⟩
  · rw [hget]
    refine ⟨fun a hne => ?_, fun a ha hasked => ?_⟩
    · have hother : a.name ≠ Entry.name { e with lastAccess := now } := fun heq =>
        hne (heq.trans hname)
      exact (mem_cons_iff_of_ne_name hother).trans ((hrest a).trans (and_iff_left hne))
    rcases List.mem_cons.mp ha with rfl | ha
    · exact ⟨e, he, rfl, rfl⟩
    · exact absurd hasked ((hrest a).mp ha).2

/-- A result that takes the place of another one, or a free place, leaves the other entries. -/
theorem stores_placed {query : String} {version : Option String} (value : α) (now : Int)
    (hcapacity : c.capacity ≠ 0)
    (hplace : (∃ e ∈ c.entries, e.name = (query, versionOf version)) ∨ c.size < c.capacity)
    {kept : List (Entry α)}
    (hkept : ∀ e : Entry α, e ∈ kept ↔ e ∈ c.entries ∧ e.name ≠ (query, versionOf version)) :
    Stores query version value now c
      { c with entries := ⟨query, versionOf version, value, now⟩ :: kept } where
  counters := ⟨rfl, rfl⟩
  dropped hzero := absurd hzero hcapacity
  stored _ _ hname := mem_cons_iff_of_name hname fun e he => ((hkept e).mp he).2
  placed _ e hne := (mem_cons_iff_of_ne_name hne).trans ((hkept e).trans (and_iff_left hne))
  evicted hnew hfull _ := by
    rcases hplace with ⟨e, he, hname⟩ | hroom
    · exact absurd hname (hnew e he)
    · exact absurd hfull (Nat.ne_of_lt hroom)

/-- A result that is made room for takes the place of one entry. -/
theorem stores_evicted {query : String} {version : Option String} (value : α) (now : Int)
    (hcapacity : c.capacity ≠ 0) (hnodup : (c.entries.map Entry.name).Nodup)
    (hnew : ∀ e ∈ c.entries, e.name ≠ (query, versionOf version)) (hfull : c.capacity ≤ c.size)
    (tie : Nat) (ties : Nat → Nat) :
    Stores query version value now c
      { c with entries := ⟨query, versionOf version, value, now⟩ :: evict tie c.entries, ties } := by
  have hpos : 0 < c.entries.length := Nat.lt_of_lt_of_le (Nat.pos_of_ne_zero hcapacity) hfull
  obtain ⟨front, victim, back, hentries, hleast, hevict⟩ :=
    exists_evict_eq tie (List.ne_nil_of_length_pos hpos)
  have hstays : ∀ e : Entry α, e ∈ evict tie c.entries ↔ e ∈ c.entries ∧ e ≠ victim := by
    intro e
    rw [hentries] at hnodup
    rw [hevict, hentries]
    exact mem_sides_iff hnodup
  refine ⟨⟨rfl, rfl⟩, fun hzero => absurd hzero hcapacity, ?_, ?_, fun _ _ _ => ⟨?_, ?_⟩⟩
  · exact fun _ e hname => mem_cons_iff_of_name hname fun a ha => hnew a ((hstays a).mp ha).1
  · rintro (⟨e, he, hname⟩ | hroom)
    · exact absurd hname (hnew e he)
    · exact absurd hroom (Nat.not_lt.mpr hfull)
  · show (evict tie c.entries).length + 1 = c.entries.length
    rw [length_entries_evict, Nat.sub_add_cancel hpos]
  · refine ⟨victim, by rw [hentries]; simp, hleast, fun e hne => ?_⟩
    rw [mem_cons_iff_of_ne_name hne, hstays e]

theorem stores_set (hdigest : Distinguishes c.digest queries)
    (h : Records queries c.capacity past c.entries) {query : String} (hquery : query ∈ queries)
    (version : Option String) (value : α) (now : Int) :
    Stores query version value now c (c.set query version value now) := by
  obtain ⟨hzero, hset⟩ | ⟨hcapacity, hsome, hset⟩ | ⟨hcapacity, hnone, hroom, hset⟩ |
      ⟨hcapacity, hnone, hfull, hset⟩ := set_cases query version value now c
  · rw [hset]
    exact ⟨⟨rfl, rfl⟩, fun _ => rfl, fun hne => absurd hzero hne, fun _ _ _ => Iff.rfl,
      fun _ _ hne => absurd hzero hne⟩
  · obtain ⟨e, hstored⟩ := Option.isSome_iff_exists.mp hsome
    have hplace := name_of_stored? hdigest h hquery hstored
    rw [hset]
    exact stores_placed value now hcapacity (.inl ⟨e, hplace⟩) fun e =>
      mem_rest_iff hdigest h hquery
  · have hnew := ne_name_of_stored?_eq_none hdigest h hquery hnone
    rw [hset]
    exact stores_placed value now hcapacity (.inr hroom) fun e =>
      (and_iff_left_of_imp (hnew e)).symm
  · rw [hset]
    exact stores_evicted value now hcapacity h.nodup
      (ne_name_of_stored?_eq_none hdigest h hquery hnone) hfull _ _

theorem invalidates (keep : String) (c : Cache α) :
    Invalidates keep (c.invalidate keep).1 c (c.invalidate keep).2 := by
  refine ⟨⟨rfl, rfl⟩, fun e => ?_, ?_⟩
  · rw [← beq_iff_eq]
    exact List.mem_filter
  · exact Nat.add_sub_cancel' (List.length_filter_le _ _)

/-- What one operation changes, if no two queries have the same digest. -/
theorem frame_step (hdigest : Distinguishes c.digest queries)
    (h : Records queries c.capacity past c.entries) {op : Operation α}
    (hquery : ∀ query ∈ op.query?, query ∈ queries) : Frame c op (c.step op).1 (c.step op).2 := by
  cases op with
  | get query version now => exact ⟨_, rfl, looksUp_get hdigest h (hquery query rfl) version now⟩
  | set query version value now => exact stores_set hdigest h (hquery query rfl) version value now
  | invalidate keep => exact ⟨_, rfl, invalidates keep c⟩
  | clear => exact ⟨rfl, rfl, rfl⟩
  | stats => rfl

/-! ## Runs -/

/-- No run changes how the cache was set up. -/
theorem config_run (c : Cache α) (ops : List (Operation α)) :
    (c.run ops).2.capacity = c.capacity ∧ (c.run ops).2.digest = c.digest := by
  induction ops generalizing c with
  | nil => exact ⟨rfl, rfl⟩
  | cons op ops ih =>
    obtain ⟨hcapacity, -, hdigest⟩ := config_step c op
    obtain ⟨hcapacity', hdigest'⟩ := ih (c.step op).2
    exact ⟨hcapacity'.trans hcapacity, hdigest'.trans hdigest⟩

/-- Every entry of a cache after a run is one that the past keeps. -/
theorem records_run (hdigest : Distinguishes c.digest queries)
    (h : Records queries c.capacity past c.entries) (ops : List (Operation α))
    (hquery : ∀ query ∈ ops.filterMap Operation.query?, query ∈ queries) :
    Records queries c.capacity (past ++ ops.zip (c.run ops).1) (c.run ops).2.entries := by
  induction ops generalizing past c with
  | nil =>
    rw [List.zip_nil_left, List.append_nil]
    exact h
  | cons op ops ih =>
    have hstep := records_step hdigest h fun query hq =>
      hquery query (List.mem_filterMap.mpr ⟨op, List.mem_cons_self, hq⟩)
    obtain ⟨hcapacity, -, hsame⟩ := config_step c op
    rw [← hsame] at hdigest
    rw [← hcapacity] at hstep
    have hrest := ih hdigest hstep fun query hq =>
      hquery query (((List.sublist_cons_self op ops).filterMap _).mem hq)
    rw [hcapacity, List.append_assoc] at hrest
    exact hrest

end

/-- After every run, on any clock and however ties are broken, a cache is no larger than it may be,
and its counters are the look-ups since it was last cleared and those that found a result. If no two
queries have the same digest, then its entries are told apart by query and version, and the next
operation changes only what it is about: a look-up the entry that it asks for, a store that entry and
one of those touched longest ago if there is no other place for it, and an invalidation removes the
entries of other versions and counts them. -/
theorem run_frame (capacity ttl : Nat) (digest : String → UInt64) (ties : Nat → Nat)
    (ops : List (Operation α)) :
    let c := ((empty capacity ttl digest ties).run ops).2
    let past := ops.zip ((empty capacity ttl digest ties).run ops).1
    c.capacity = capacity ∧ c.size ≤ capacity ∧
    c.stats.requests = (sinceClear past).countP Event.isGet ∧
    c.stats.hits = (sinceClear past).countP Event.isHit ∧
    ∀ op : Operation α, Distinguishes digest ((ops ++ [op]).filterMap Operation.query?) →
      (c.entries.map Entry.name).Nodup ∧ Frame c op (c.step op).1 (c.step op).2 := by
  intro c past
  have htallies : Tallies ([] ++ past) c :=
    tallies_run (c := empty capacity ttl digest ties) ⟨Nat.zero_le _, rfl, rfl⟩ ops
  rw [List.nil_append] at htallies
  obtain ⟨hcapacity, hsame⟩ := config_run (empty capacity ttl digest ties : Cache α) ops
  replace hcapacity : c.capacity = capacity := hcapacity
  replace hsame : c.digest = digest := hsame
  refine ⟨hcapacity, hcapacity ▸ htallies.size_le, htallies.requests_eq, htallies.hits_eq, ?_⟩
  intro op hdigest
  have hstart : Records ((ops ++ [op]).filterMap Operation.query?) capacity []
      ([] : List (Entry α)) := ⟨by simp, Nat.zero_le _, List.nodup_nil, by simp⟩
  have hrecords := records_run (c := empty capacity ttl digest ties) hdigest hstart ops
    fun query hq => ((List.sublist_append_left ops [op]).filterMap _).mem hq
  replace hrecords : Records ((ops ++ [op]).filterMap Operation.query?) capacity ([] ++ past)
      c.entries := hrecords
  rw [← hcapacity] at hrecords
  rw [← hsame] at hdigest
  refine ⟨hrecords.nodup, frame_step hdigest hrecords fun query hq => ?_⟩
  exact List.mem_filterMap.mpr ⟨op, by simp, hq⟩

/-- A full cache whose entries were touched at the same time makes room, on a clock that goes
backwards; the look-up before it was cleared is not counted any more. -/
theorem run_frame_full :
    let ops : List (Operation Nat) :=
      [.get "c = 3" none 1, .clear, .set "a = 1" none 1 5, .set "b = 2" (some "v2") 2 5,
        .get "b = 2" (some "v2") 5, .get "c = 3" none 4]
    let c := ((empty 2 10 Text.digest fun _ => 1).run ops).2
    Distinguishes Text.digest
      ((ops ++ [Operation.set "c = 3" none 3 1]).filterMap Operation.query?) ∧
    c.size = 2 ∧ c.stats.requests = 2 ∧ c.stats.hits = 1 ∧
    Stores "c = 3" none 3 1 c (c.set "c = 3" none 3 1) ∧
    (c.set "c = 3" none 3 1).entries =
      [⟨"c = 3", "default", 3, 1⟩, ⟨"b = 2", "v2", 2, 5⟩] := by
  intro ops c
  have hdigest : Distinguishes Text.digest
      ((ops ++ [Operation.set "c = 3" none 3 1]).filterMap Operation.query?) := by decide +kernel
  obtain ⟨-, -, hrequests, hhits, hframe⟩ := run_frame 2 10 Text.digest (fun _ => 1) ops
  have hstores := (hframe (.set "c = 3" none 3 1) hdigest).2
  exact ⟨hdigest, rfl, hrequests.trans rfl, hhits.trans rfl, hstores, rfl⟩

end LogQuery.Cache
