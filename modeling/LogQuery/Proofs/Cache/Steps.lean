import LogQuery.Cache.Operation

/-!
# What one operation does to a cache

What each operation can do to the entries of a cache, whatever the digest, the clock and the way
ties are broken. Proofs about runs use these statements and do not look into the operations again:

* `get_cases`: a look-up finds no entry, finds one that has expired, or hits;
* `set_cases`: a result is dropped, replaces another, finds room, or is made room for;
* `mem_set`, `mem_step`: an operation stores nothing but the result it is given;
* `get_of_head?`: what comes first is found;
* `config_step`: no operation changes how the cache was set up.
-/

namespace LogQuery.Cache

variable {α : Type}

/-- The entry under the key of a query and a version. -/
def stored? (c : Cache α) (query : String) (version : Option String) : Option (Entry α) :=
  c.entries.find? (·.isUnder c.digest (keyOf c.digest query version))

/-- The entries that are not under the key of a query and a version. -/
def rest (c : Cache α) (query : String) (version : Option String) : List (Entry α) :=
  others c.digest (keyOf c.digest query version) c.entries

theorem isUnder_iff {digest : String → UInt64} {key : Key} {e : Entry α} :
    e.isUnder digest key = true ↔ digest e.query = key.digest ∧ e.version = key.version := by
  obtain ⟨d, v⟩ := key
  simp [Entry.isUnder, Entry.key]

theorem mem_of_stored? {c : Cache α} {query : String} {version : Option String} {e : Entry α}
    (h : c.stored? query version = some e) : e ∈ c.entries ∧ e.version = versionOf version :=
  ⟨List.mem_of_find?_eq_some h, (isUnder_iff.mp (List.find?_some h)).2⟩

theorem mem_of_mem_rest {c : Cache α} {query : String} {version : Option String} {e : Entry α}
    (h : e ∈ c.rest query version) : e ∈ c.entries :=
  (List.mem_filter.mp h).1

/-- An entry lives as long as the time-to-live after it was last touched. -/
theorem isExpired_eq_false_iff {ttl : Nat} {now : Int} {e : Entry α} :
    e.isExpired ttl now = false ↔ now - e.lastAccess ≤ ttl := by
  rw [Entry.isExpired, decide_eq_false_iff_not, Int.not_lt]

/-- A look-up finds no entry for its query, an entry that has expired, or a result. -/
theorem get_cases (query : String) (version : Option String) (now : Int) (c : Cache α) :
    ((∀ e, c.stored? query version = some e → e.query ≠ query) ∧
      c.get query version now = (none, { c with requests := c.requests + 1 })) ∨
    (∃ e, c.stored? query version = some e ∧ e.query = query ∧ e.isExpired c.ttl now = true ∧
      c.get query version now =
        (none, { c with entries := c.rest query version, requests := c.requests + 1 })) ∨
    (∃ e, c.stored? query version = some e ∧ e.query = query ∧ e.isExpired c.ttl now = false ∧
      c.get query version now =
        (some e.value,
          { c with
            entries := { e with lastAccess := now } :: c.rest query version
            requests := c.requests + 1
            hits := c.hits + 1 })) := by
  cases hfind : c.stored? query version with
  | none =>
    refine .inl ⟨by simp, ?_⟩
    rw [stored?] at hfind
    simp only [get, hfind]
  | some e =>
    have hfind' := hfind
    rw [stored?] at hfind'
    by_cases hquery : e.query = query
    · cases hexpired : e.isExpired c.ttl now with
      | true =>
        refine .inr (.inl ⟨e, rfl, hquery, hexpired, ?_⟩)
        simp [get, hfind', hquery, hexpired, rest]
      | false =>
        refine .inr (.inr ⟨e, rfl, hquery, hexpired, ?_⟩)
        simp [get, hfind', hquery, hexpired, rest]
    · refine .inl ⟨?_, ?_⟩
      · rintro e' he'
        cases he'
        exact hquery
      · simp [get, hfind', hquery]

/-- A result is not stored at all, stored in place of another, stored where there is room, or stored
once there is room. -/
theorem set_cases (query : String) (version : Option String) (value : α) (now : Int)
    (c : Cache α) :
    (c.capacity = 0 ∧ c.set query version value now = c) ∨
    (c.capacity ≠ 0 ∧ (c.stored? query version).isSome ∧
      c.set query version value now =
        { c with entries := ⟨query, versionOf version, value, now⟩ :: c.rest query version }) ∨
    (c.capacity ≠ 0 ∧ c.stored? query version = none ∧ c.entries.length < c.capacity ∧
      c.set query version value now =
        { c with entries := ⟨query, versionOf version, value, now⟩ :: c.entries }) ∨
    (c.capacity ≠ 0 ∧ c.stored? query version = none ∧ c.capacity ≤ c.entries.length ∧
      c.set query version value now =
        { c with
          entries := ⟨query, versionOf version, value, now⟩ :: evict (c.ties 0) c.entries
          ties := fun n => c.ties (n + 1) }) := by
  by_cases hcapacity : c.capacity = 0
  · exact .inl ⟨hcapacity, if_pos hcapacity⟩
  have hany : c.entries.any (·.isUnder c.digest (keyOf c.digest query version)) =
      (c.stored? query version).isSome := List.isSome_find?.symm
  rw [set, if_neg hcapacity]
  dsimp only
  rw [makeRoom, hany]
  cases c.stored? query version with
  | some e => exact .inr (.inl ⟨hcapacity, rfl, rfl⟩)
  | none =>
    by_cases hroom : c.entries.length < c.capacity
    · rw [if_neg (by simp), if_pos hroom]
      exact .inr (.inr (.inl ⟨hcapacity, rfl, hroom, rfl⟩))
    · rw [if_neg (by simp), if_neg hroom]
      exact .inr (.inr (.inr ⟨hcapacity, rfl, Nat.le_of_not_lt hroom, rfl⟩))

theorem eraseNth_sublist (test : Entry α → Bool) (n : Nat) (entries : List (Entry α)) :
    (eraseNth test n entries).Sublist entries := by
  induction entries generalizing n with
  | nil => exact .refl _
  | cons e entries ih =>
    rw [eraseNth]
    split
    · split
      · exact List.sublist_cons_self e entries
      · exact (ih _).cons_cons e
    · exact (ih _).cons_cons e

theorem evict_sublist (tie : Nat) (entries : List (Entry α)) :
    (evict tie entries).Sublist entries := by
  unfold evict
  split
  · exact List.nil_sublist entries
  · exact eraseNth_sublist _ _ entries

/-- A result that is stored comes first. -/
theorem head?_entries_set (query : String) (version : Option String) (value : α) (now : Int)
    {c : Cache α} (h : c.capacity ≠ 0) :
    (c.set query version value now).entries.head? =
      some ⟨query, versionOf version, value, now⟩ := by
  obtain ⟨hzero, -⟩ | ⟨-, -, hset⟩ | ⟨-, -, -, hset⟩ | ⟨-, -, -, hset⟩ :=
    set_cases query version value now c
  · exact absurd hzero h
  all_goals
    rw [hset]
    rfl

/-- A result that is found comes first from then on. -/
theorem head?_entries_get {query : String} {version : Option String} {now : Int} {c : Cache α}
    {value : α} (h : (c.get query version now).1 = some value) :
    (c.get query version now).2.entries.head? =
      some ⟨query, versionOf version, value, now⟩ := by
  obtain ⟨-, hget⟩ | ⟨e, -, -, -, hget⟩ | ⟨e, hstored, hquery, -, hget⟩ :=
    get_cases query version now c
  · rw [hget] at h
    cases h
  · rw [hget] at h
    cases h
  · rw [hget] at h ⊢
    cases h
    rw [← (mem_of_stored? hstored).2, ← hquery]
    rfl

/-- A look-up finds the result that comes first, if it is the one asked for and has not expired. -/
theorem get_of_head? {c : Cache α} {query : String} {version : Option String} {value : α}
    {time now : Int} (hhead : c.entries.head? = some ⟨query, versionOf version, value, time⟩)
    (halive : now - time ≤ c.ttl) : (c.get query version now).1 = some value := by
  obtain ⟨rest, hentries⟩ := List.head?_eq_some_iff.mp hhead
  have hstored : c.stored? query version = some ⟨query, versionOf version, value, time⟩ := by
    rw [stored?, hentries]
    exact List.find?_cons_of_pos (isUnder_iff.mpr ⟨rfl, rfl⟩)
  obtain ⟨hnone, -⟩ | ⟨e, he, -, hexpired, -⟩ | ⟨e, he, -, -, hget⟩ :=
    get_cases query version now c
  · exact absurd rfl (hnone _ hstored)
  · rw [hstored] at he
    cases he
    rw [isExpired_eq_false_iff.mpr halive] at hexpired
    cases hexpired
  · rw [hstored] at he
    cases he
    rw [hget]

/-- What is in a cache after a result was stored is that result, or was there before. -/
theorem mem_set {query : String} {version : Option String} {value : α} {now : Int} {c : Cache α}
    {e : Entry α} (h : e ∈ (c.set query version value now).entries) :
    e = ⟨query, versionOf version, value, now⟩ ∨ e ∈ c.entries := by
  obtain ⟨-, hset⟩ | ⟨-, -, hset⟩ | ⟨-, -, -, hset⟩ | ⟨-, -, -, hset⟩ :=
    set_cases query version value now c
  · rw [hset] at h
    exact .inr h
  · rw [hset] at h
    exact (List.mem_cons.mp h).imp_right mem_of_mem_rest
  · rw [hset] at h
    exact List.mem_cons.mp h
  · rw [hset] at h
    exact (List.mem_cons.mp h).imp_right (evict_sublist _ _).mem

/-- What is in a cache after an operation was there before, was there and has been looked up, or has
been stored. -/
theorem mem_step {c : Cache α} {op : Operation α} {e : Entry α} (h : e ∈ (c.step op).2.entries) :
    e ∈ c.entries ∨
    (∃ e' ∈ c.entries, ∃ query version now, op = .get query version now ∧
      e = { e' with lastAccess := now }) ∨
    (∃ query version value now, op = .set query version value now ∧
      e = ⟨query, versionOf version, value, now⟩) := by
  cases op with
  | get query version now =>
    replace h : e ∈ (c.get query version now).2.entries := h
    obtain ⟨-, hget⟩ | ⟨e', hstored, -, -, hget⟩ | ⟨e', hstored, -, -, hget⟩ :=
      get_cases query version now c
    · rw [hget] at h
      exact .inl h
    · rw [hget] at h
      exact .inl (mem_of_mem_rest h)
    · rw [hget] at h
      rcases List.mem_cons.mp h with rfl | h
      · exact .inr (.inl ⟨e', (mem_of_stored? hstored).1, query, version, now, rfl, rfl⟩)
      · exact .inl (mem_of_mem_rest h)
  | set query version value now =>
    rcases mem_set h with rfl | h
    · exact .inr (.inr ⟨query, version, value, now, rfl, rfl⟩)
    · exact .inl h
  | invalidate keep => exact .inl (List.mem_filter.mp h).1
  | clear => cases h
  | stats => exact .inl h

/-- No operation changes how the cache was set up. -/
theorem config_step (c : Cache α) (op : Operation α) :
    (c.step op).2.capacity = c.capacity ∧ (c.step op).2.ttl = c.ttl ∧
      (c.step op).2.digest = c.digest := by
  cases op with
  | get query version now =>
    show (c.get query version now).2.capacity = _ ∧ (c.get query version now).2.ttl = _ ∧
      (c.get query version now).2.digest = _
    obtain ⟨-, hget⟩ | ⟨e, -, -, -, hget⟩ | ⟨e, -, -, -, hget⟩ := get_cases query version now c
    all_goals
      rw [hget]
      exact ⟨rfl, rfl, rfl⟩
  | set query version value now =>
    show (c.set query version value now).capacity = _ ∧ (c.set query version value now).ttl = _ ∧
      (c.set query version value now).digest = _
    obtain ⟨-, hset⟩ | ⟨-, -, hset⟩ | ⟨-, -, -, hset⟩ | ⟨-, -, -, hset⟩ :=
      set_cases query version value now c
    all_goals
      rw [hset]
      exact ⟨rfl, rfl, rfl⟩
  | invalidate keep => exact ⟨rfl, rfl, rfl⟩
  | clear => exact ⟨rfl, rfl, rfl⟩
  | stats => exact ⟨rfl, rfl, rfl⟩

end LogQuery.Cache
