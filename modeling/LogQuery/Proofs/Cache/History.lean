import LogQuery.Proofs.Cache.Recency

/-!
# A look-up and what came before it

What a look-up finds is told from the operations before it and their answers alone, without the
entries of the cache: the result that was stored last for its query and version, if nothing has
removed it since and it was touched last within the time-to-live. Times may be equal or go
backwards; that no two queries have the same digest is all that is asked of them.

* `keeps_snoc`: how one more operation changes what the past keeps;
* `records_step`: every entry of a cache is one that the past keeps;
* `retains_step`: where there is room for all keys, everything that the past keeps is an entry;
* `exists_records`: both hold before every operation of a run.
-/

namespace LogQuery.Cache

variable {α : Type}

/-! ## The past -/

/-- An operation with its answer. -/
abbrev Event (α : Type) := Operation α × Answer α

/-- The event leaves a result for the query and version in place: it neither stores another nor
removes any of that version, and if it looks the result up it finds it. -/
def Event.Spares (query version : String) (value : α) : Event α → Prop
  | (.get q v _, answer) => q = query ∧ versionOf v = version → answer = .found (some value)
  | (.set q v _ _, _) => ¬ (q = query ∧ versionOf v = version)
  | (.invalidate keep, _) => keep = version
  | (.clear, _) => False
  | (.stats, _) => True

/-- When the result for the query and version was last touched, if that was at `time` before the
event: a look-up touches it. -/
def Event.touch (query version : String) (time : Int) : Event α → Int
  | (.get q v now, _) => if q = query ∧ versionOf v = version then now else time
  | _ => time

/-- The past stored the value for the query and version, has left it in place since, and touched it
last at `time`. -/
def Keeps (past : List (Event α)) (query version : String) (value : α) (time : Int) : Prop :=
  ∃ before v stored answer since,
    past = before ++ (.set query v value stored, answer) :: since ∧ versionOf v = version ∧
    (∀ event ∈ since, Event.Spares query version value event) ∧
    time = since.foldl (Event.touch query version) stored

theorem not_keeps_nil {query version : String} {value : α} {time : Int} :
    ¬ Keeps [] query version value time := by
  rintro ⟨before, v, stored, answer, since, hpast, -⟩
  simp at hpast

/-- A result that is stored is kept. -/
theorem keeps_set (past : List (Event α)) (query : String) (v : Option String) (value : α)
    (now : Int) (answer : Answer α) :
    Keeps (past ++ [(.set query v value now, answer)]) query (versionOf v) value now :=
  ⟨past, v, now, answer, [], rfl, rfl, by simp, rfl⟩

/-- A result that is left in place is kept. -/
theorem Keeps.snoc {past : List (Event α)} {query version : String} {value : α} {time : Int}
    (h : Keeps past query version value time) {event : Event α}
    (hspares : event.Spares query version value) :
    Keeps (past ++ [event]) query version value (event.touch query version time) := by
  obtain ⟨before, v, stored, answer, since, rfl, hv, hsince, rfl⟩ := h
  refine ⟨before, v, stored, answer, since ++ [event], by simp, hv, ?_, by simp⟩
  exact List.forall_mem_append.mpr ⟨hsince, List.forall_mem_singleton.mpr hspares⟩

/-- What is kept after an event has just been stored, or was kept before and left in place. -/
theorem keeps_snoc {past : List (Event α)} {event : Event α} {query version : String} {value : α}
    {time : Int} (h : Keeps (past ++ [event]) query version value time) :
    (∃ v, event.1 = .set query v value time ∧ versionOf v = version) ∨
    (∃ before, Keeps past query version value before ∧ event.Spares query version value ∧
      time = event.touch query version before) := by
  obtain ⟨before, v, stored, answer, since, hpast, hv, hsince, rfl⟩ := h
  obtain rfl | ⟨since, last, rfl⟩ := List.eq_nil_or_concat since
  · obtain ⟨-, hevent⟩ := List.append_inj' hpast rfl
    cases hevent
    exact .inl ⟨v, rfl, hv⟩
  · rw [List.concat_eq_append] at hpast hsince ⊢
    rw [← List.cons_append, ← List.append_assoc] at hpast
    obtain ⟨rfl, hevent⟩ := List.append_inj' hpast rfl
    cases hevent
    obtain ⟨hsince, hlast⟩ := List.forall_mem_append.mp hsince
    refine .inr ⟨_, ⟨before, v, stored, answer, since, rfl, hv, hsince, rfl⟩,
      hlast _ List.mem_cons_self, by simp⟩

/-! ## Entries and the past -/

/-- The query and version that an operation stores a result for. -/
def Operation.storedKey? : Operation α → Option (String × String)
  | .set query version _ _ => some (query, versionOf version)
  | _ => none

/-- The query and version of an entry. -/
def Entry.name (e : Entry α) : String × String := (e.query, e.version)

/-- Entries that the past keeps, told apart by query and version, no more than a cache may hold. -/
structure Records (queries : List String) (capacity : Nat) (past : List (Event α))
    (entries : List (Entry α)) : Prop where
  query_mem : ∀ e ∈ entries, e.query ∈ queries
  length_le : entries.length ≤ capacity
  nodup : (entries.map Entry.name).Nodup
  keeps : ∀ e ∈ entries, Keeps past e.query e.version e.value e.lastAccess

/-- Everything that the past keeps is an entry. -/
def Retains (past : List (Event α)) (entries : List (Entry α)) : Prop :=
  ∀ e : Entry α, Keeps past e.query e.version e.value e.lastAccess → e ∈ entries

section

variable {queries : List String} {capacity : Nat} {past : List (Event α)} {entries : List (Entry α)}

/-- An event that leaves the entry as it is. -/
def Event.Passes (event : Event α) (e : Entry α) : Prop :=
  event.Spares e.query e.version e.value ∧ event.touch e.query e.version e.lastAccess = e.lastAccess

/-- Entries that the event leaves as they are stay, or some of them. -/
theorem Records.sublist (h : Records queries capacity past entries) {fewer : List (Entry α)}
    (hfewer : fewer.Sublist entries) {event : Event α} (hpasses : ∀ e ∈ fewer, event.Passes e) :
    Records queries capacity (past ++ [event]) fewer := by
  refine ⟨fun e he => h.query_mem e (hfewer.mem he), Nat.le_trans hfewer.length_le h.length_le,
    h.nodup.sublist (hfewer.map _), fun e he => ?_⟩
  have hkeeps := (h.keeps e (hfewer.mem he)).snoc (hpasses e he).1
  rw [(hpasses e he).2] at hkeeps
  exact hkeeps

/-- An entry for another query or version is put in front where there is room. -/
theorem Records.cons (h : Records queries capacity past entries) {e : Entry α}
    (hquery : e.query ∈ queries) (hroom : entries.length < capacity)
    (hnew : ∀ a ∈ entries, a.name ≠ e.name)
    (hkeeps : Keeps past e.query e.version e.value e.lastAccess) :
    Records queries capacity past (e :: entries) := by
  refine ⟨List.forall_mem_cons.mpr ⟨hquery, h.query_mem⟩, hroom, ?_,
    List.forall_mem_cons.mpr ⟨hkeeps, h.keeps⟩⟩
  rw [List.map_cons, List.nodup_cons]
  refine ⟨fun hmem => ?_, h.nodup⟩
  obtain ⟨a, ha, hname⟩ := List.mem_map.mp hmem
  exact hnew a ha hname

/-- Entries with the same query and version are the same. -/
theorem eq_of_name_eq (h : (entries.map Entry.name).Nodup) {a b : Entry α} (ha : a ∈ entries)
    (hb : b ∈ entries) (hname : a.name = b.name) : a = b := by
  induction entries with
  | nil => cases ha
  | cons e entries ih =>
    rw [List.map_cons, List.nodup_cons] at h
    rcases List.mem_cons.mp ha with rfl | ha'
    · rcases List.mem_cons.mp hb with rfl | hb'
      · rfl
      · exact absurd (List.mem_map.mpr ⟨b, hb', hname.symm⟩) h.1
    · rcases List.mem_cons.mp hb with rfl | hb'
      · exact absurd (List.mem_map.mpr ⟨a, ha', hname⟩) h.1
      · exact ih h.2 ha' hb'

/-- A look-up for another query or version leaves an entry as it is. -/
theorem passes_get {e : Entry α} {query : String} {version : Option String}
    (h : e.name ≠ (query, versionOf version)) (now : Int) (answer : Answer α) :
    Event.Passes (.get query version now, answer) e := by
  have hne : ¬ (query = e.query ∧ versionOf version = e.version) := by
    rintro ⟨rfl, hversion⟩
    exact h (by rw [hversion]; rfl)
  exact ⟨fun heq => absurd heq hne, if_neg hne⟩

theorem passes_set {e : Entry α} {query : String} {version : Option String}
    (h : e.name ≠ (query, versionOf version)) (value : α) (now : Int) (answer : Answer α) :
    Event.Passes (.set query version value now, answer) e := by
  refine ⟨?_, rfl⟩
  rintro ⟨rfl, hversion⟩
  exact h (by rw [hversion]; rfl)

end

/-! ## The entry for a query and a version -/

section

variable {queries : List String} {past : List (Event α)} {c : Cache α} {query : String}
  {version : Option String}

/-- The entry under the key of a query is one for that query and version. -/
theorem name_of_stored? (hdigest : Distinguishes c.digest queries)
    (h : Records queries c.capacity past c.entries) (hquery : query ∈ queries) {e : Entry α}
    (he : c.stored? query version = some e) : e ∈ c.entries ∧ e.name = (query, versionOf version) := by
  have hmem := (mem_of_stored? he).1
  obtain ⟨hq, hv⟩ := (hdigest.isUnder_iff hquery version (h.query_mem e hmem)).mp
    (List.find?_some he)
  exact ⟨hmem, by rw [Entry.name, hq, hv]⟩

theorem ne_name_of_stored?_eq_none (hdigest : Distinguishes c.digest queries)
    (h : Records queries c.capacity past c.entries) (hquery : query ∈ queries)
    (hnone : c.stored? query version = none) :
    ∀ e ∈ c.entries, e.name ≠ (query, versionOf version) := by
  intro e he hname
  refine List.find?_eq_none.mp hnone e he ?_
  rw [hdigest.isUnder_iff hquery version (h.query_mem e he)]
  exact Prod.mk.inj hname

/-- An entry for a query and version is the one under their key. -/
theorem stored?_of_name (hdigest : Distinguishes c.digest queries)
    (h : Records queries c.capacity past c.entries) (hquery : query ∈ queries) {e : Entry α}
    (he : e ∈ c.entries) (hname : e.name = (query, versionOf version)) :
    c.stored? query version = some e := by
  cases hstored : c.stored? query version with
  | none => exact absurd hname (ne_name_of_stored?_eq_none hdigest h hquery hstored e he)
  | some e' =>
    obtain ⟨he', hname'⟩ := name_of_stored? hdigest h hquery hstored
    rw [eq_of_name_eq h.nodup he' he (hname'.trans hname.symm)]

/-- The other entries are those for other queries or versions. -/
theorem mem_rest_iff (hdigest : Distinguishes c.digest queries)
    (h : Records queries c.capacity past c.entries) (hquery : query ∈ queries) {e : Entry α} :
    e ∈ c.rest query version ↔ e ∈ c.entries ∧ e.name ≠ (query, versionOf version) := by
  rw [rest, others, List.mem_filter]
  refine and_congr_right fun he => ?_
  rw [Bool.not_eq_true', ← Bool.not_eq_true, hdigest.isUnder_iff hquery version (h.query_mem e he)]
  refine not_congr ⟨fun hname => ?_, Prod.mk.inj⟩
  rw [Entry.name, hname.1, hname.2]

/-- What a look-up can do, if no two queries have the same digest. -/
theorem Records.get_cases (h : Records queries c.capacity past c.entries)
    (hdigest : Distinguishes c.digest queries) (hquery : query ∈ queries)
    (version : Option String) (now : Int) :
    ((∀ e ∈ c.entries, e.name ≠ (query, versionOf version)) ∧
      c.get query version now = (none, { c with requests := c.requests + 1 })) ∨
    (∃ e ∈ c.entries, e.name = (query, versionOf version) ∧ e.isExpired c.ttl now = true ∧
      c.get query version now =
        (none, { c with entries := c.rest query version, requests := c.requests + 1 })) ∨
    (∃ e ∈ c.entries, e.name = (query, versionOf version) ∧ e.isExpired c.ttl now = false ∧
      c.get query version now =
        (some e.value,
          { c with
            entries := { e with lastAccess := now } :: c.rest query version
            requests := c.requests + 1
            hits := c.hits + 1 })) := by
  obtain ⟨hnone, hget⟩ | ⟨e, hstored, -, hexpired, hget⟩ | ⟨e, hstored, -, hexpired, hget⟩ :=
    Cache.get_cases query version now c
  · refine .inl ⟨fun e he hname => ?_, hget⟩
    have hstored := stored?_of_name hdigest h hquery he hname
    exact hnone e hstored (Prod.mk.inj hname).1
  · obtain ⟨he, hname⟩ := name_of_stored? hdigest h hquery hstored
    exact .inr (.inl ⟨e, he, hname, hexpired, hget⟩)
  · obtain ⟨he, hname⟩ := name_of_stored? hdigest h hquery hstored
    exact .inr (.inr ⟨e, he, hname, hexpired, hget⟩)

end

/-! ## One operation -/

section

variable {queries : List String} {past : List (Event α)} {c : Cache α}

/-- The entries for other queries and versions, after a look-up or a store. -/
theorem Records.rest (h : Records queries c.capacity past c.entries)
    (hdigest : Distinguishes c.digest queries) {query : String} (hquery : query ∈ queries)
    (version : Option String) {event : Event α}
    (hpasses : ∀ e : Entry α, e.name ≠ (query, versionOf version) → event.Passes e) :
    Records queries c.capacity (past ++ [event]) (c.rest query version) :=
  h.sublist List.filter_sublist fun e he =>
    hpasses e ((mem_rest_iff hdigest h hquery).mp he).2

theorem length_rest_lt (hdigest : Distinguishes c.digest queries)
    (h : Records queries c.capacity past c.entries) {query : String} (hquery : query ∈ queries)
    {version : Option String} {e : Entry α} (he : e ∈ c.entries)
    (hname : e.name = (query, versionOf version)) :
    (c.rest query version).length < c.capacity := by
  have hstored := stored?_of_name hdigest h hquery he hname
  have hany : c.entries.any (·.isUnder c.digest (keyOf c.digest query version)) = true := by
    rw [← List.isSome_find?, ← stored?, hstored]
    rfl
  exact Nat.lt_of_lt_of_le (length_others_lt hany) h.length_le

theorem records_get (hdigest : Distinguishes c.digest queries)
    (h : Records queries c.capacity past c.entries) {query : String} (hquery : query ∈ queries)
    (version : Option String) (now : Int) :
    Records queries c.capacity
      (past ++ [(.get query version now, .found (c.get query version now).1)])
      (c.get query version now).2.entries := by
  obtain ⟨hnone, hget⟩ | ⟨e, -, -, -, hget⟩ | ⟨e, he, hname, -, hget⟩ :=
    h.get_cases hdigest hquery version now
  · rw [hget]
    exact h.sublist (.refl _) fun e he => passes_get (hnone e he) now _
  · rw [hget]
    exact h.rest hdigest hquery version fun e hne => passes_get hne now _
  · rw [hget]
    refine (h.rest hdigest hquery version fun e hne => passes_get hne now _).cons
      (h.query_mem e he) (length_rest_lt hdigest h hquery he hname) ?_ ?_
    · intro a ha heq
      exact ((mem_rest_iff hdigest h hquery).mp ha).2 (heq.trans hname)
    · obtain ⟨hq, hv⟩ := Prod.mk.inj hname
      have hspares : Event.Spares e.query e.version e.value
          (.get query version now, .found (some e.value)) := fun _ => rfl
      have hkeeps := (h.keeps e he).snoc hspares
      rw [Event.touch, if_pos ⟨hq.symm, hv.symm⟩] at hkeeps
      exact hkeeps

theorem records_set (hdigest : Distinguishes c.digest queries)
    (h : Records queries c.capacity past c.entries) {query : String} (hquery : query ∈ queries)
    (version : Option String) (value : α) (now : Int) (answer : Answer α) :
    Records queries c.capacity (past ++ [(.set query version value now, answer)])
      (c.set query version value now).entries := by
  have hkeeps := keeps_set past query version value now answer
  obtain ⟨hcapacity, hset⟩ | ⟨-, hsome, hset⟩ | ⟨-, hnone, hroom, hset⟩ |
      ⟨hcapacity, hnone, -, hset⟩ := set_cases query version value now c
  · have hnil : c.entries = [] := by
      have hlength := h.length_le
      rw [hcapacity, Nat.le_zero, List.length_eq_zero_iff] at hlength
      exact hlength
    rw [hset]
    refine h.sublist (.refl _) fun e he => ?_
    rw [hnil] at he
    cases he
  · obtain ⟨e, hstored⟩ := Option.isSome_iff_exists.mp hsome
    obtain ⟨he, hname⟩ := name_of_stored? hdigest h hquery hstored
    rw [hset]
    exact (h.rest hdigest hquery version fun e hne => passes_set hne value now _).cons hquery
      (length_rest_lt hdigest h hquery he hname)
      (fun a ha => ((mem_rest_iff hdigest h hquery).mp ha).2) hkeeps
  · have hne := ne_name_of_stored?_eq_none hdigest h hquery hnone
    rw [hset]
    exact (h.sublist (.refl _) fun e he => passes_set (hne e he) value now _).cons hquery hroom
      hne hkeeps
  · have hne := ne_name_of_stored?_eq_none hdigest h hquery hnone
    have hsub := evict_sublist (c.ties 0) c.entries
    have hlength : (evict (c.ties 0) c.entries).length < c.capacity := by
      have := h.length_le
      rw [length_entries_evict]
      omega
    rw [hset]
    exact (h.sublist hsub fun e he => passes_set (hne e (hsub.mem he)) value now _).cons hquery
      hlength (fun e he => hne e (hsub.mem he)) hkeeps

/-- Every entry of a cache is one that the past keeps. -/
theorem records_step (hdigest : Distinguishes c.digest queries)
    (h : Records queries c.capacity past c.entries) {op : Operation α}
    (hquery : ∀ query ∈ op.query?, query ∈ queries) :
    Records queries c.capacity (past ++ [(op, (c.step op).1)]) (c.step op).2.entries := by
  cases op with
  | get query version now => exact records_get hdigest h (hquery query rfl) version now
  | set query version value now =>
    exact records_set hdigest h (hquery query rfl) version value now .none
  | invalidate keep =>
    refine h.sublist List.filter_sublist fun e he => ⟨?_, rfl⟩
    exact (beq_iff_eq.mp (List.mem_filter.mp he).2).symm
  | clear => exact h.sublist (List.nil_sublist _) fun e he => nomatch he
  | stats => exact h.sublist (.refl _) fun e _ => ⟨trivial, rfl⟩

/-! ## Room for all keys -/

theorem mem_storedKeys_of_keeps {query version : String} {value : α} {time : Int}
    (h : Keeps past query version value time) :
    (query, version) ∈ (past.map Prod.fst).filterMap Operation.storedKey? := by
  obtain ⟨before, v, stored, answer, since, rfl, rfl, -, -⟩ := h
  refine List.mem_filterMap.mpr ⟨.set query v value stored, ?_, rfl⟩
  simp

/-- A result for a further key finds room, if there is room for all keys. -/
theorem length_lt_of_keys {capacity : Nat} {entries : List (Entry α)}
    (h : Records queries capacity past entries) {key : String × String}
    (hnew : ∀ e ∈ entries, e.name ≠ key) {keys : List (String × String)} (hmem : key ∈ keys)
    (hpast : ∀ k ∈ (past.map Prod.fst).filterMap Operation.storedKey?, k ∈ keys)
    (hroom : keys.length ≤ capacity) : entries.length < capacity := by
  have hnodup : (key :: entries.map Entry.name).Nodup := by
    refine List.nodup_cons.mpr ⟨fun hkey => ?_, h.nodup⟩
    obtain ⟨e, he, hname⟩ := List.mem_map.mp hkey
    exact hnew e he hname
  have hsubset : key :: entries.map Entry.name ⊆ keys := by
    refine List.cons_subset.mpr ⟨hmem, fun k hk => ?_⟩
    obtain ⟨e, he, rfl⟩ := List.mem_map.mp hk
    exact hpast _ (mem_storedKeys_of_keeps (h.keeps e he))
  have hlength := hnodup.length_le_of_subset hsubset
  rw [List.length_cons, List.length_map] at hlength
  omega

/-- A result for another query or version stays, if there is room for all keys. -/
theorem mem_set_of_mem (hdigest : Distinguishes c.digest queries)
    (h : Records queries c.capacity past c.entries) {query : String} (hquery : query ∈ queries)
    {version : Option String} {keys : List (String × String)}
    (hkey : (query, versionOf version) ∈ keys)
    (hpast : ∀ k ∈ (past.map Prod.fst).filterMap Operation.storedKey?, k ∈ keys)
    (hroom : keys.length ≤ c.capacity) (value : α) (now : Int) {e : Entry α} (he : e ∈ c.entries)
    (hne : e.name ≠ (query, versionOf version)) :
    e ∈ (c.set query version value now).entries := by
  obtain ⟨-, hset⟩ | ⟨-, -, hset⟩ | ⟨-, -, -, hset⟩ | ⟨-, hnone, hfull, hset⟩ :=
    set_cases query version value now c
  · rw [hset]
    exact he
  · rw [hset]
    exact List.mem_cons_of_mem _ ((mem_rest_iff hdigest h hquery).mpr ⟨he, hne⟩)
  · rw [hset]
    exact List.mem_cons_of_mem _ he
  · have hlt := length_lt_of_keys h (ne_name_of_stored?_eq_none hdigest h hquery hnone) hkey hpast
      hroom
    omega

/-- A look-up leaves what the past keeps among the entries, renewed if it was looked up. -/
theorem mem_get_of_keeps (hdigest : Distinguishes c.digest queries)
    (h : Records queries c.capacity past c.entries) {query : String} (hquery : query ∈ queries)
    (version : Option String) (now : Int) {e : Entry α} (he : e ∈ c.entries)
    (hspares : Event.Spares e.query e.version e.value
      (.get query version now, .found (c.get query version now).1)) :
    ⟨e.query, e.version, e.value, Event.touch e.query e.version e.lastAccess
        (.get query version now, .found (c.get query version now).1)⟩ ∈
      (c.get query version now).2.entries := by
  by_cases hname : e.name = (query, versionOf version)
  · obtain ⟨hq, hv⟩ := Prod.mk.inj hname
    have hfound := hspares ⟨hq.symm, hv.symm⟩
    rw [Event.touch, if_pos ⟨hq.symm, hv.symm⟩]
    obtain ⟨-, hget⟩ | ⟨_, -, -, -, hget⟩ | ⟨e', he', hname', -, hget⟩ :=
      h.get_cases hdigest hquery version now
    · rw [hget] at hfound
      cases hfound
    · rw [hget] at hfound
      cases hfound
    · rw [hget, eq_of_name_eq h.nodup he' he (hname'.trans hname.symm)]
      exact List.mem_cons_self
  · have hrest := (mem_rest_iff hdigest h hquery).mpr ⟨he, hname⟩
    rw [(passes_get hname now _).2]
    obtain ⟨-, hget⟩ | ⟨_, -, -, -, hget⟩ | ⟨_, -, -, -, hget⟩ :=
      h.get_cases hdigest hquery version now
    · rw [hget]
      exact he
    · rw [hget]
      exact hrest
    · rw [hget]
      exact List.mem_cons_of_mem _ hrest

/-- Where there is room for all keys, everything that the past keeps stays an entry. -/
theorem retains_step (hdigest : Distinguishes c.digest queries)
    (h : Records queries c.capacity past c.entries) (hretains : Retains past c.entries)
    {op : Operation α} (hquery : ∀ query ∈ op.query?, query ∈ queries)
    {keys : List (String × String)}
    (hpast : ∀ k ∈ (past.map Prod.fst).filterMap Operation.storedKey?, k ∈ keys)
    (hkey : ∀ k ∈ op.storedKey?, k ∈ keys) (hroom : keys.length ≤ c.capacity) :
    Retains (past ++ [(op, (c.step op).1)]) (c.step op).2.entries := by
  rintro ⟨name, tag, value, time⟩ hkeeps
  rcases keeps_snoc hkeeps with ⟨v, hop, rfl⟩ | ⟨before, hbefore, hspares, htime⟩
  · replace hop : op = .set name v value time := hop
    subst hop
    have hcapacity : c.capacity ≠ 0 := by
      have hpos := List.length_pos_of_mem (hkey _ rfl)
      omega
    exact List.mem_of_head? (head?_entries_set name v value time hcapacity)
  · have he : ⟨name, tag, value, before⟩ ∈ c.entries := hretains _ hbefore
    replace htime : time = Event.touch name tag before (op, (c.step op).1) := htime
    subst htime
    cases op with
    | get query version now =>
      exact mem_get_of_keeps hdigest h (hquery query rfl) version now he hspares
    | set query version value' now =>
      have hne : (name, tag) ≠ (query, versionOf version) := by
        intro hname
        obtain ⟨hq, hv⟩ := Prod.mk.inj hname
        exact hspares ⟨hq.symm, hv.symm⟩
      exact mem_set_of_mem hdigest h (hquery query rfl) (hkey _ rfl) hpast hroom value' now he hne
    | invalidate keep => exact List.mem_filter.mpr ⟨he, beq_iff_eq.mpr (Eq.symm hspares)⟩
    | clear => exact hspares.elim
    | stats => exact he

/-! ## Look-ups -/

/-- A look-up finds only what the past keeps. -/
theorem keeps_of_get (hdigest : Distinguishes c.digest queries)
    (h : Records queries c.capacity past c.entries) {query : String} (hquery : query ∈ queries)
    {version : Option String} {now : Int} {value : α}
    (hget : (c.get query version now).1 = some value) :
    ∃ time, Keeps past query (versionOf version) value time ∧ now - time ≤ c.ttl := by
  obtain ⟨-, hmiss⟩ | ⟨_, -, -, -, hmiss⟩ | ⟨e, he, hname, halive, hhit⟩ :=
    h.get_cases hdigest hquery version now
  · rw [hmiss] at hget
    cases hget
  · rw [hmiss] at hget
    cases hget
  · rw [hhit] at hget
    cases hget
    obtain ⟨hq, hv⟩ := Prod.mk.inj hname
    have hkeeps := h.keeps e he
    rw [hq, hv] at hkeeps
    exact ⟨e.lastAccess, hkeeps, isExpired_eq_false_iff.mp halive⟩

/-- A look-up finds what the past keeps, if that is among the entries and has not expired. -/
theorem get_of_keeps (hdigest : Distinguishes c.digest queries)
    (h : Records queries c.capacity past c.entries) (hretains : Retains past c.entries)
    {query : String} (hquery : query ∈ queries) {version : Option String} {now time : Int}
    {value : α} (hkeeps : Keeps past query (versionOf version) value time)
    (halive : now - time ≤ c.ttl) : (c.get query version now).1 = some value := by
  have he : ⟨query, versionOf version, value, time⟩ ∈ c.entries := hretains _ hkeeps
  obtain ⟨hnone, -⟩ | ⟨e, he', hname, hexpired, -⟩ | ⟨e, he', hname, -, hhit⟩ :=
    h.get_cases hdigest hquery version now
  · exact absurd rfl (hnone _ he)
  · rw [eq_of_name_eq h.nodup he' he hname, isExpired_eq_false_iff.mpr halive] at hexpired
    cases hexpired
  · rw [hhit, eq_of_name_eq h.nodup he' he hname]

/-! ## Runs -/

/-- Before every operation of a run, the cache records what came before; and where there is room for
all keys, it has all that is kept. -/
theorem exists_records (hdigest : Distinguishes c.digest queries)
    (h : Records queries c.capacity past c.entries) (keys : List (String × String))
    (hretains : keys.length ≤ c.capacity → Retains past c.entries) {ops : List (Operation α)}
    (hquery : ∀ query ∈ ops.filterMap Operation.query?, query ∈ queries)
    (hkeys : ∀ k ∈ (past.map Prod.fst ++ ops).filterMap Operation.storedKey?, k ∈ keys)
    {i : Nat} {op : Operation α} (hi : ops[i]? = some op) :
    ∃ now : Cache α, now.ttl = c.ttl ∧ Distinguishes now.digest queries ∧
      (c.run ops).1[i]? = some (now.step op).1 ∧
      Records queries now.capacity (past ++ (ops.zip (c.run ops).1).take i) now.entries ∧
      (keys.length ≤ c.capacity →
        Retains (past ++ (ops.zip (c.run ops).1).take i) now.entries) := by
  induction ops generalizing c past i with
  | nil => simp at hi
  | cons first ops ih =>
    cases i with
    | zero =>
      cases hi
      refine ⟨c, rfl, hdigest, rfl, ?_⟩
      rw [List.take_zero, List.append_nil]
      exact ⟨h, hretains⟩
    | succ i =>
      have hfirst : ∀ query ∈ first.query?, query ∈ queries := fun query hq =>
        hquery query (List.mem_filterMap.mpr ⟨first, List.mem_cons_self, hq⟩)
      have hpast : ∀ k ∈ (past.map Prod.fst).filterMap Operation.storedKey?, k ∈ keys := fun k hk =>
        hkeys k (((List.sublist_append_left _ _).filterMap _).mem hk)
      have hkey : ∀ k ∈ first.storedKey?, k ∈ keys := fun k hk =>
        hkeys k (List.mem_filterMap.mpr ⟨first, by simp, hk⟩)
      have hrecords := records_step hdigest h hfirst
      have hretained := fun hroom => retains_step hdigest h (hretains hroom) hfirst hpast hkey hroom
      obtain ⟨hcapacity, httl, hsame⟩ := config_step c first
      rw [← hsame] at hdigest
      rw [← hcapacity] at hrecords hretained
      obtain ⟨now, hnow, hdistinguishes, hanswer, hthen, hall⟩ := ih hdigest hrecords hretained
        (fun query hq => hquery query (((List.sublist_cons_self first ops).filterMap _).mem hq))
        (by simpa using hkeys) hi
      have hevents : past ++ ((first :: ops).zip (c.run (first :: ops)).1).take (i + 1) =
          past ++ [(first, (c.step first).1)] ++
            (ops.zip ((c.step first).2.run ops).1).take i := by
        rw [List.append_assoc]
        rfl
      rw [hevents, ← hcapacity]
      exact ⟨now, hnow.trans httl, hdistinguishes, hanswer, hthen, hall⟩

/-- The operations before the one at `i`, with their answers. -/
def pastOf (c : Cache α) (ops : List (Operation α)) (i : Nat) : List (Event α) :=
  (ops.zip (c.run ops).1).take i

end

/-- A look-up finds only the result that was stored last for its query and version, that nothing has
removed since, that every look-up since has found, and that was touched last within the
time-to-live; and it does find that result if the run stores results for no more keys than the cache
may hold. -/
theorem found_of_run (capacity ttl : Nat) {digest : String → UInt64} (ties : Nat → Nat)
    {ops : List (Operation α)} (hdigest : Distinguishes digest (ops.filterMap Operation.query?))
    {i : Nat} {query : String} {version : Option String} {now : Int}
    (hi : ops[i]? = some (.get query version now)) (value : α) :
    (((empty capacity ttl digest ties).run ops).1[i]? = some (.found (some value)) →
      ∃ time, Keeps ((empty capacity ttl digest ties).pastOf ops i) query (versionOf version) value
        time ∧ now - time ≤ ttl) ∧
    ((ops.filterMap Operation.storedKey?).eraseDups.length ≤ capacity →
      (∃ time, Keeps ((empty capacity ttl digest ties).pastOf ops i) query (versionOf version) value
        time ∧ now - time ≤ ttl) →
      ((empty capacity ttl digest ties).run ops).1[i]? = some (.found (some value))) := by
  have hquery : query ∈ ops.filterMap Operation.query? :=
    List.mem_filterMap.mpr ⟨_, List.mem_of_getElem? hi, rfl⟩
  have hstart : Records (ops.filterMap Operation.query?) capacity [] ([] : List (Entry α)) :=
    ⟨by simp, Nat.zero_le _, List.nodup_nil, by simp⟩
  obtain ⟨c, httl, hdistinguishes, hanswer, hrecords, hretains⟩ :=
    exists_records (c := empty capacity ttl digest ties) hdigest hstart
      (ops.filterMap Operation.storedKey?).eraseDups (fun _ e he => absurd he not_keeps_nil)
      (fun _ h => h) (fun k hk => List.mem_eraseDups.mpr hk) hi
  have hgot : (c.step (.get query version now)).1 = .found (c.get query version now).1 := rfl
  replace httl : c.ttl = ttl := httl
  subst httl
  rw [hanswer, hgot, Option.some.injEq, Answer.found.injEq]
  refine ⟨keeps_of_get hdistinguishes hrecords hquery, ?_⟩
  rintro hroom ⟨time, hkeeps, halive⟩
  exact get_of_keeps hdistinguishes hrecords (hretains hroom) hquery hkeeps halive

/-- A result that was stored twice and looked up once, by both names of its version, on a clock that
goes backwards; it is found at the last moment of its time. -/
theorem found_of_run_backwards :
    let ops : List (Operation Nat) :=
      [.set "a = 1" none 1 5, .set "a = 1" (some "default") 2 9, .set "b = 2" (some "v2") 3 9,
        .get "a = 1" none 4, .invalidate "default", .get "b = 2" (some "v2") 4,
        .get "a = 1" none 14]
    Distinguishes Text.digest (ops.filterMap Operation.query?) ∧
    (ops.filterMap Operation.storedKey?).eraseDups.length ≤ 2 ∧
    ((empty 2 10).run ops).1[6]? = some (.found (some 2)) ∧
    (∃ time, Keeps ((empty 2 10).pastOf ops 6) "a = 1" "default" 2 time ∧ 14 - time ≤ 10) ∧
    ∀ value, ¬ ∃ time, Keeps ((empty 2 10).pastOf ops 5) "b = 2" "v2" value time ∧
      4 - time ≤ 10 := by
  intro ops
  have hdigest : Distinguishes Text.digest (ops.filterMap Operation.query?) := by decide +kernel
  have hroom : (ops.filterMap Operation.storedKey?).eraseDups.length ≤ 2 := by decide +kernel
  have hanswers : ((empty 2 10).run ops).1 =
      [.none, .none, .none, .found (some 2), .removed 1, .found none, .found (some 2)] := rfl
  have hfound : ((empty 2 10).run ops).1[6]? = some (.found (some 2)) := by rw [hanswers]; rfl
  refine ⟨hdigest, hroom, hfound, (found_of_run 2 10 _ hdigest (i := 6) rfl 2).1 hfound, ?_⟩
  intro value hkeeps
  have hmissed := (found_of_run 2 10 _ hdigest (i := 5) rfl value).2 hroom hkeeps
  rw [hanswers] at hmissed
  cases hmissed

end LogQuery.Cache
