import LogQuery.Proofs.Cache.Recency

/-!
# Caches of different capacities

A larger cache never does worse than a smaller one. Two caches that differ in their capacities only,
and break ties as they like, are run side by side; no two look-ups or stores happen at the same time,
but the clock may go backwards, and queries may have the same digest. Look-ups that only the larger
cache answers renew entries there, so the two drift apart. What stays is `Nested`: the entries of the
smaller cache are among those of the larger one, which has no more entries on top than its capacity
has places on top. So whenever the larger cache makes room, the smaller one does, too.

* `evict_eq_filter`: among entries touched at different times, the oldest goes;
* `evict_sublist_evict`: what the larger cache removes is gone from the smaller one;
* `within_get`, `within_set`, `within_step`: what one operation does to both caches;
* `within_run`: what a run does to both.
-/

namespace LogQuery.Cache

variable {α : Type}

/-! ## Entries of two caches -/

/-- The entries are told apart by their keys, and by the times at which they were last touched. -/
structure Apart (digest : String → UInt64) (entries : List (Entry α)) : Prop where
  keys : entries.Pairwise fun a b => a.key digest ≠ b.key digest
  times : entries.Pairwise fun a b => a.lastAccess ≠ b.lastAccess

/-- The entries of a cache are among those of a larger one, in the same order, and the larger cache has
at most as many entries more as it has places more. -/
structure Nested (digest : String → UInt64) (capacity capacity' : Nat)
    (small large : List (Entry α)) : Prop where
  sublist : small.Sublist large
  apart : Apart digest large
  length_le : small.length ≤ capacity
  spare : large.length + capacity ≤ small.length + capacity'

theorem Apart.sublist {digest : String → UInt64} {entries fewer : List (Entry α)}
    (h : Apart digest entries) (hfewer : fewer.Sublist entries) : Apart digest fewer :=
  ⟨h.keys.sublist hfewer, h.times.sublist hfewer⟩

theorem Apart.cons {digest : String → UInt64} {entries : List (Entry α)} (h : Apart digest entries)
    {e : Entry α} (hkey : ∀ a ∈ entries, a.key digest ≠ e.key digest)
    (htime : ∀ a ∈ entries, a.lastAccess ≠ e.lastAccess) : Apart digest (e :: entries) :=
  ⟨List.pairwise_cons.mpr ⟨fun a ha => (hkey a ha).symm, h.keys⟩,
    List.pairwise_cons.mpr ⟨fun a ha => (htime a ha).symm, h.times⟩⟩

/-- A row loses no more entries than one that it is part of. -/
theorem length_filter_add_le {small large : List (Entry α)} (h : small.Sublist large)
    (p : Entry α → Bool) :
    (large.filter p).length + small.length ≤ (small.filter p).length + large.length := by
  have hlost := h.countP_le (p := fun e => decide ¬ p e = true)
  have hsmall := List.length_eq_countP_add_countP p (l := small)
  have hlarge := List.length_eq_countP_add_countP p (l := large)
  rw [← List.countP_eq_length_filter, ← List.countP_eq_length_filter]
  omega

namespace Nested

variable {digest : String → UInt64} {capacity capacity' : Nat} {small large : List (Entry α)}

theorem capacity_le (h : Nested digest capacity capacity' small large) : capacity ≤ capacity' := by
  have hspare := h.spare
  have hlength := h.sublist.length_le
  omega

theorem length_large_le (h : Nested digest capacity capacity' small large) :
    large.length ≤ capacity' := by
  have hspare := h.spare
  have hlength := h.length_le
  omega

/-- The same entries may be removed from both caches. -/
theorem filter (h : Nested digest capacity capacity' small large) (p : Entry α → Bool) :
    Nested digest capacity capacity' (small.filter p) (large.filter p) := by
  have hspare := h.spare
  have hlost := length_filter_add_le h.sublist p
  refine ⟨h.sublist.filter p, h.apart.sublist List.filter_sublist, ?_, by omega⟩
  exact Nat.le_trans (List.length_filter_le p small) h.length_le

/-- Entries that only the larger cache has may be removed from it. -/
theorem filter_large (h : Nested digest capacity capacity' small large) {p : Entry α → Bool}
    (hp : ∀ e ∈ small, p e = true) : Nested digest capacity capacity' small (large.filter p) := by
  have hfilter := h.filter p
  rw [List.filter_eq_self.mpr hp] at hfilter
  exact hfilter

/-- An entry may be put in front of both, where there is room. -/
theorem cons (h : Nested digest capacity capacity' small large) {e : Entry α}
    (hroom : small.length < capacity) (hkey : ∀ a ∈ large, a.key digest ≠ e.key digest)
    (htime : ∀ a ∈ large, a.lastAccess ≠ e.lastAccess) :
    Nested digest capacity capacity' (e :: small) (e :: large) := by
  have hspare := h.spare
  refine ⟨h.sublist.cons_cons e, h.apart.cons hkey htime, hroom, ?_⟩
  rw [List.length_cons, List.length_cons]
  omega

/-- An entry may be put in front of the larger cache only, where it has a place to spare. -/
theorem cons_large (h : Nested digest capacity capacity' small large) {e : Entry α}
    (hspare : large.length + 1 + capacity ≤ small.length + capacity')
    (hkey : ∀ a ∈ large, a.key digest ≠ e.key digest)
    (htime : ∀ a ∈ large, a.lastAccess ≠ e.lastAccess) :
    Nested digest capacity capacity' small (e :: large) :=
  ⟨h.sublist.cons e, h.apart.cons hkey htime, h.length_le, hspare⟩

end Nested

/-! ## The entry to remove -/

theorem eraseNth_eq_filter {test : Entry α → Bool} {entries : List (Entry α)}
    (h : entries.countP test = 1) : eraseNth test 0 entries = entries.filter (!test ·) := by
  induction entries with
  | nil => rfl
  | cons e entries ih =>
    rw [eraseNth]
    cases he : test e with
    | true =>
      rw [List.countP_cons_of_pos he] at h
      have hnone : ∀ a ∈ entries, ¬ test a = true := List.countP_eq_zero.mp (by omega)
      rw [List.filter_cons_of_neg (by simp [he]), if_pos rfl, if_pos rfl]
      exact (List.filter_eq_self.mpr fun a ha => by simp [hnone a ha]).symm
    | false =>
      rw [List.countP_cons_of_neg (by simp [he])] at h
      rw [List.filter_cons_of_pos (by simp [he]), if_neg Bool.false_ne_true, ih h]

/-- Of entries that were touched at different times, one is the oldest, and it is the one to remove. -/
theorem evict_eq_filter (tie : Nat) {entries : List (Entry α)} (hne : entries ≠ [])
    (h : entries.Pairwise fun a b => a.lastAccess ≠ b.lastAccess) :
    ∃ oldest ∈ entries, (∀ e ∈ entries, oldest.lastAccess ≤ e.lastAccess) ∧
      evict tie entries = entries.filter (·.lastAccess != oldest.lastAccess) := by
  cases hmin : (entries.map Entry.lastAccess).min? with
  | none => exact absurd (List.map_eq_nil_iff.mp (List.min?_eq_none_iff.mp hmin)) hne
  | some time =>
    obtain ⟨hmem, hle⟩ := List.min?_eq_some_iff.mp hmin
    obtain ⟨oldest, holdest, rfl⟩ := List.mem_map.mp hmem
    refine ⟨oldest, holdest, fun e he => hle _ (List.mem_map_of_mem he), ?_⟩
    have hcount : entries.countP (·.lastAccess == oldest.lastAccess) = 1 := by
      have hnodup : (entries.map Entry.lastAccess).Nodup := List.pairwise_map.mpr h
      have := hnodup.count (a := oldest.lastAccess)
      rw [if_pos hmem, List.count, List.countP_map] at this
      exact this
    rw [evict, hmin]
    dsimp only
    rw [hcount, Nat.mod_one, eraseNth_eq_filter hcount]
    rfl

/-- If both caches make room, what the larger one removes is gone from the smaller one, too. -/
theorem evict_sublist_evict (tie tie' : Nat) {small large : List (Entry α)} (hne : small ≠ [])
    (h : small.Sublist large) (htimes : large.Pairwise fun a b => a.lastAccess ≠ b.lastAccess) :
    (evict tie small).Sublist (evict tie' large) := by
  have hne' : large ≠ [] := by
    rintro rfl
    exact hne (List.sublist_nil.mp h)
  obtain ⟨first, hfirst, hleast, hsmall⟩ := evict_eq_filter tie hne (htimes.sublist h)
  obtain ⟨oldest, -, holdest, hlarge⟩ := evict_eq_filter tie' hne' htimes
  -- If the oldest entry of all is in the smaller cache, then it is the oldest one there.
  have hkept : ∀ e ∈ evict tie small, (e.lastAccess != oldest.lastAccess) = true := by
    intro e he
    rw [hsmall, List.mem_filter, bne_iff_ne] at he
    have hafter := hleast e he.1
    have hbefore := holdest first (h.mem hfirst)
    rw [bne_iff_ne]
    intro heq
    exact he.2 (by omega)
  have hfilter := ((evict_sublist tie small).trans h).filter
    (·.lastAccess != oldest.lastAccess)
  rw [List.filter_eq_self.mpr hkept] at hfilter
  rw [hlarge]
  exact hfilter

/-! ## One operation -/

/-- A cache and a larger one with the same time-to-live and digest. -/
structure Within (small large : Cache α) : Prop where
  ttl_eq : small.ttl = large.ttl
  digest_eq : small.digest = large.digest
  nested : Nested large.digest small.capacity large.capacity small.entries large.entries
  hits_le : small.hits ≤ large.hits

theorem key_of_stored? {c : Cache α} {query : String} {version : Option String} {e : Entry α}
    (h : c.stored? query version = some e) : e.key c.digest = keyOf c.digest query version := by
  have hunder : e.isUnder c.digest (keyOf c.digest query version) = true := List.find?_some h
  exact of_decide_eq_true hunder

/-- An entry under the key of a query is the one that is found there. -/
theorem stored?_of_mem {c : Cache α} (h : Apart c.digest c.entries) {query : String}
    {version : Option String} {e : Entry α} (he : e ∈ c.entries)
    (hunder : e.isUnder c.digest (keyOf c.digest query version) = true) :
    c.stored? query version = some e := by
  have hsame : ∀ ⦃a⦄, a ∈ c.entries → ∀ ⦃b⦄, b ∈ c.entries → a.key c.digest = b.key c.digest → a = b :=
    List.Pairwise.forall_of_forall_of_flip (fun _ _ _ => rfl)
      (h.keys.imp fun hne heq => absurd heq hne) (h.keys.imp fun hne heq => absurd heq.symm hne)
  cases hstored : c.stored? query version with
  | none => exact absurd hunder (List.find?_eq_none.mp hstored e he)
  | some e' =>
    have hkey := (key_of_stored? hstored).trans (of_decide_eq_true hunder).symm
    rw [hsame (mem_of_stored? hstored).1 he hkey]

theorem get_of_expired {c : Cache α} {query : String} {version : Option String} {now : Int}
    {e : Entry α} (hstored : c.stored? query version = some e) (hquery : e.query = query)
    (hexpired : e.isExpired c.ttl now = true) :
    c.get query version now =
      (none, { c with entries := c.rest query version, requests := c.requests + 1 }) := by
  rw [stored?] at hstored
  simp [get, hstored, hquery, hexpired, rest]

theorem get_of_alive {c : Cache α} {query : String} {version : Option String} {now : Int}
    {e : Entry α} (hstored : c.stored? query version = some e) (hquery : e.query = query)
    (halive : e.isExpired c.ttl now = false) :
    c.get query version now =
      (some e.value,
        { c with
          entries := { e with lastAccess := now } :: c.rest query version
          requests := c.requests + 1
          hits := c.hits + 1 }) := by
  rw [stored?] at hstored
  simp [get, hstored, hquery, halive, rest]

theorem ne_key_of_mem_rest {c : Cache α} {query : String} {version : Option String} {e : Entry α}
    (he : e ∈ c.rest query version) : e.key c.digest ≠ keyOf c.digest query version := by
  have hunder := (List.mem_filter.mp he).2
  simpa [Entry.isUnder] using hunder

theorem ne_key_of_stored?_eq_none {c : Cache α} {query : String} {version : Option String}
    (h : c.stored? query version = none) :
    ∀ e ∈ c.entries, e.key c.digest ≠ keyOf c.digest query version := by
  intro e he
  have hunder := List.find?_eq_none.mp h e he
  simpa [Entry.isUnder] using hunder

namespace Within

variable {small large : Cache α} {query : String} {version : Option String}

/-- What the smaller cache finds under a key, the larger one finds. -/
theorem stored?_eq (h : Within small large) {e : Entry α}
    (he : small.stored? query version = some e) : large.stored? query version = some e := by
  have hunder := List.find?_some he
  rw [h.digest_eq] at hunder
  exact stored?_of_mem h.nested.apart (h.nested.sublist.mem (mem_of_stored? he).1) hunder

theorem rest (h : Within small large) (query : String) (version : Option String) :
    Nested large.digest small.capacity large.capacity (small.rest query version)
      (large.rest query version) := by
  rw [Cache.rest, Cache.rest, h.digest_eq]
  exact h.nested.filter _

/-- What is under a key in the larger cache only may be removed there. -/
theorem rest_large (h : Within small large) (hnone : small.stored? query version = none) :
    Nested large.digest small.capacity large.capacity small.entries (large.rest query version) := by
  refine h.nested.filter_large fun e he => ?_
  have hunder := List.find?_eq_none.mp hnone e he
  rw [h.digest_eq] at hunder
  simpa using hunder

end Within

section

variable {small large : Cache α} {query : String} {version : Option String} {now : Int}

/-- What the smaller cache does not answer for want of an entry, the larger one may answer. -/
theorem Within.stored?_eq_none (h : Within small large)
    (hmiss : ∀ e, small.stored? query version = some e → e.query ≠ query) {e : Entry α}
    (hstored : large.stored? query version = some e) (hquery : e.query = query) :
    small.stored? query version = none := by
  cases hsmall : small.stored? query version with
  | none => rfl
  | some e' =>
    have hlarge := h.stored?_eq hsmall
    rw [hstored] at hlarge
    cases hlarge
    exact absurd hquery (hmiss e hsmall)

theorem length_rest_lt_of_stored? {c : Cache α} (h : (c.stored? query version).isSome) :
    (c.rest query version).length < c.entries.length :=
  length_others_lt (List.isSome_find?.symm.trans h)

/-- A look-up that both caches answer renews the entry in both. -/
theorem Within.nested_renewed (h : Within small large) {e : Entry α}
    (hstored : small.stored? query version = some e)
    (hnow : ∀ a ∈ large.entries, a.lastAccess ≠ now) :
    Nested large.digest small.capacity large.capacity
      ({ e with lastAccess := now } :: small.rest query version)
      ({ e with lastAccess := now } :: large.rest query version) := by
  have hkey := key_of_stored? (h.stored?_eq hstored)
  refine (h.rest query version).cons ?_ (fun a ha => ?_) fun a ha => hnow a (mem_of_mem_rest ha)
  · have hlt := length_rest_lt_of_stored? (Option.isSome_of_eq_some hstored)
    exact Nat.lt_of_lt_of_le hlt h.nested.length_le
  · exact fun heq => ne_key_of_mem_rest ha (heq.trans hkey)

/-- A look-up that only the larger cache answers renews the entry there. -/
theorem Within.nested_renewed_large (h : Within small large)
    (hnone : small.stored? query version = none) {e : Entry α}
    (hstored : large.stored? query version = some e)
    (hnow : ∀ a ∈ large.entries, a.lastAccess ≠ now) :
    Nested large.digest small.capacity large.capacity small.entries
      ({ e with lastAccess := now } :: large.rest query version) := by
  have hkey := key_of_stored? hstored
  refine (h.rest_large hnone).cons_large ?_ (fun a ha => ?_) fun a ha => hnow a (mem_of_mem_rest ha)
  · have hspare := h.nested.spare
    have hlt := length_rest_lt_of_stored? (Option.isSome_of_eq_some hstored)
    omega
  · exact fun heq => ne_key_of_mem_rest ha (heq.trans hkey)

/-- A look-up at a time at which nothing was touched: what the smaller cache finds, the larger one
finds. -/
theorem within_get (h : Within small large) (query : String) (version : Option String)
    (hnow : ∀ e ∈ large.entries, e.lastAccess ≠ now) :
    (∀ value, (small.get query version now).1 = some value →
      (large.get query version now).1 = some value) ∧
      Within (small.get query version now).2 (large.get query version now).2 := by
  have hhits := h.hits_le
  obtain ⟨hmiss, hsmall⟩ | ⟨e, hstored, hquery, hexpired, hsmall⟩ |
      ⟨e, hstored, hquery, halive, hsmall⟩ := get_cases query version now small
  · obtain ⟨-, hlarge⟩ | ⟨e, hstored, hquery, -, hlarge⟩ | ⟨e, hstored, hquery, -, hlarge⟩ :=
      get_cases query version now large
    · rw [hsmall, hlarge]
      exact ⟨by simp, { h with }⟩
    · have hnone := h.stored?_eq_none hmiss hstored hquery
      rw [hsmall, hlarge]
      exact ⟨by simp, { h with nested := h.rest_large hnone }⟩
    · have hnone := h.stored?_eq_none hmiss hstored hquery
      rw [hsmall, hlarge]
      refine ⟨by simp, { h with nested := ?_, hits_le := Nat.le_succ_of_le hhits }⟩
      exact h.nested_renewed_large hnone hstored hnow
  · have hlarge := get_of_expired (h.stored?_eq hstored) hquery (h.ttl_eq ▸ hexpired)
    rw [hsmall, hlarge]
    exact ⟨by simp, { h with nested := h.rest query version }⟩
  · have hlarge := get_of_alive (h.stored?_eq hstored) hquery (h.ttl_eq ▸ halive)
    rw [hsmall, hlarge]
    refine ⟨fun _ hvalue => hvalue, { h with nested := ?_, hits_le := Nat.succ_le_succ hhits }⟩
    exact h.nested_renewed hstored hnow

/-- Where there is room for a result, a cache keeps the entries under other keys, but for the oldest
one if it is full and nothing is under the key. -/
theorem entries_makeRoom (c : Cache α) (query : String) (version : Option String) :
    (c.makeRoom (keyOf c.digest query version)).entries =
      if (c.stored? query version).isSome then c.rest query version
      else if c.entries.length < c.capacity then c.entries
      else evict (c.ties 0) c.entries := by
  have hany : c.entries.any (·.isUnder c.digest (keyOf c.digest query version)) =
      (c.stored? query version).isSome := List.isSome_find?.symm
  rw [makeRoom, hany]
  repeat' split
  all_goals rfl

theorem entries_makeRoom_sublist (c : Cache α) (query : String) (version : Option String) :
    (c.makeRoom (keyOf c.digest query version)).entries.Sublist c.entries := by
  rw [entries_makeRoom]
  repeat' split
  · exact List.filter_sublist
  · exact List.Sublist.refl _
  · exact evict_sublist _ _

theorem ne_key_of_mem_makeRoom {c : Cache α} {e : Entry α}
    (he : e ∈ (c.makeRoom (keyOf c.digest query version)).entries) :
    e.key c.digest ≠ keyOf c.digest query version := by
  have hmem := (entries_makeRoom_sublist c query version).mem he
  rw [entries_makeRoom] at he
  split at he
  · exact ne_key_of_mem_rest he
  · rename_i hnone
    exact ne_key_of_stored?_eq_none (Option.not_isSome_iff_eq_none.mp hnone) e hmem

/-- A full cache that removes its oldest entry still has its share of the entries of a larger one that
has room. -/
theorem Nested.evict_small {digest : String → UInt64} {capacity capacity' : Nat}
    {entries larger : List (Entry α)} {tie : Nat} (hfull : capacity = entries.length)
    (hsublist : (evict tie entries).Sublist larger) (hapart : Apart digest larger)
    (hroom : larger.length < capacity') :
    Nested digest capacity capacity' (evict tie entries) larger := by
  have hlength := length_entries_evict tie entries
  exact ⟨hsublist, hapart, by omega, by omega⟩

/-- Room for a result in both caches. -/
theorem Within.makeRoom (h : Within small large) (hcapacity : small.capacity ≠ 0) :
    Nested large.digest small.capacity large.capacity
      (small.makeRoom (keyOf small.digest query version)).entries
      (large.makeRoom (keyOf large.digest query version)).entries := by
  have hle := h.nested.capacity_le
  have hspare := h.nested.spare
  have hlength := h.nested.length_le
  have hroom' : (large.makeRoom (keyOf large.digest query version)).entries.length <
      large.capacity := length_entries_makeRoom_lt h.nested.length_large_le (by omega)
  have hapart := h.nested.apart.sublist (entries_makeRoom_sublist large query version)
  rw [entries_makeRoom small]
  cases hsmall : small.stored? query version with
  | some e =>
    have hlarge := h.stored?_eq hsmall
    rw [entries_makeRoom large, hlarge, if_pos Option.isSome_some, if_pos Option.isSome_some]
    exact h.rest query version
  | none =>
    rw [if_neg (by simp)]
    by_cases hroom : small.entries.length < small.capacity
    · rw [if_pos hroom, entries_makeRoom large]
      split
      · exact h.rest_large hsmall
      · rw [if_pos (by omega)]
        exact h.nested
    · rw [if_neg hroom]
      refine .evict_small (by omega) ?_ hapart hroom'
      rw [entries_makeRoom large]
      split
      · exact (evict_sublist _ _).trans (h.rest_large hsmall).sublist
      · split
        · exact (evict_sublist _ _).trans h.nested.sublist
        · exact evict_sublist_evict _ _ (List.ne_nil_of_length_pos (by omega)) h.nested.sublist
            h.nested.apart.times

/-- A result that is stored comes before what there was made room with. -/
theorem entries_set {c : Cache α} (h : c.capacity ≠ 0) (query : String) (version : Option String)
    (value : α) (now : Int) :
    (c.set query version value now).entries =
      ⟨query, versionOf version, value, now⟩ ::
        (c.makeRoom (keyOf c.digest query version)).entries := by
  rw [set, if_neg h]
  rfl

theorem apart_set {c : Cache α} (h : Apart c.digest c.entries) (value : α)
    (hnow : ∀ e ∈ c.entries, e.lastAccess ≠ now) :
    Apart c.digest (c.set query version value now).entries := by
  by_cases hcapacity : c.capacity = 0
  · rw [set, if_pos hcapacity]
    exact h
  · have hsublist := entries_makeRoom_sublist c query version
    rw [entries_set hcapacity]
    exact (h.sublist hsublist).cons (fun _ he => ne_key_of_mem_makeRoom he)
      fun e he => hnow e (hsublist.mem he)

theorem nested_set (h : Within small large) (query : String) (version : Option String) (value : α)
    (hnow : ∀ e ∈ large.entries, e.lastAccess ≠ now) :
    Nested large.digest small.capacity large.capacity
      (small.set query version value now).entries (large.set query version value now).entries := by
  by_cases hcapacity : small.capacity = 0
  · -- a cache without places stays empty
    have hnil : small.entries = [] := by
      have hlength := h.nested.length_le
      rw [hcapacity, Nat.le_zero, List.length_eq_zero_iff] at hlength
      exact hlength
    have hlength : (large.set query version value now).entries.length ≤ large.capacity :=
      entries_length_set_le h.nested.length_large_le
    rw [set, if_pos hcapacity, hnil]
    refine ⟨List.nil_sublist _, apart_set h.nested.apart value hnow, Nat.zero_le _, ?_⟩
    rw [List.length_nil]
    omega
  · have hle := h.nested.capacity_le
    rw [entries_set hcapacity, entries_set (by omega)]
    refine (h.makeRoom hcapacity).cons ?_ (fun _ he => ne_key_of_mem_makeRoom he) fun e he =>
      hnow e ((entries_makeRoom_sublist large query version).mem he)
    exact length_entries_makeRoom_lt h.nested.length_le hcapacity

theorem hits_set (c : Cache α) (query : String) (version : Option String) (value : α) (now : Int) :
    (c.set query version value now).hits = c.hits := by
  obtain ⟨-, hset⟩ | ⟨-, -, hset⟩ | ⟨-, -, -, hset⟩ | ⟨-, -, -, hset⟩ :=
    set_cases query version value now c
  all_goals rw [hset]

/-- A result stored at a time at which nothing was touched. -/
theorem within_set (h : Within small large) (query : String) (version : Option String) (value : α)
    (hnow : ∀ e ∈ large.entries, e.lastAccess ≠ now) :
    Within (small.set query version value now) (large.set query version value now) := by
  obtain ⟨hcapacity, httl, hdigest⟩ := config_step small (.set query version value now)
  obtain ⟨hcapacity', httl', hdigest'⟩ := config_step large (.set query version value now)
  refine ⟨httl.trans (h.ttl_eq.trans httl'.symm), hdigest.trans (h.digest_eq.trans hdigest'.symm),
    ?_, ?_⟩
  · have hnested := nested_set h query version value hnow
    rw [← hcapacity, ← hcapacity', ← hdigest'] at hnested
    exact hnested
  · rw [hits_set, hits_set]
    exact h.hits_le

/-- What one operation does to both caches: what the smaller one finds, the larger one finds, and the
entries of the smaller one stay among those of the larger one. -/
theorem within_step (h : Within small large) {op : Operation α}
    (hnow : ∀ e ∈ large.entries, ∀ now ∈ op.time?, e.lastAccess ≠ now) :
    (∀ value, (small.step op).1 = .found (some value) → (large.step op).1 = .found (some value)) ∧
      Within (small.step op).2 (large.step op).2 := by
  cases op with
  | get query version now =>
    obtain ⟨hfound, hwithin⟩ := within_get h query version fun e he => hnow e he now rfl
    refine ⟨fun value hvalue => ?_, hwithin⟩
    exact congrArg Answer.found (hfound value (Answer.found.inj hvalue))
  | set query version value now =>
    refine ⟨fun _ hvalue => (nomatch hvalue), ?_⟩
    exact within_set h query version value fun e he => hnow e he now rfl
  | invalidate keep =>
    exact ⟨fun _ hvalue => (nomatch hvalue), { h with nested := h.nested.filter _ }⟩
  | clear =>
    refine ⟨fun _ hvalue => (nomatch hvalue), h.ttl_eq, h.digest_eq, ?_, Nat.le_refl 0⟩
    have hle := h.nested.capacity_le
    exact ⟨.slnil, ⟨.nil, .nil⟩, Nat.zero_le _, Nat.add_le_add_left hle 0⟩
  | stats => exact ⟨fun _ hvalue => (nomatch hvalue), h⟩

/-- What a run in which no two operations happen at the same time does to both caches. -/
theorem within_run (h : Within small large) {ops : List (Operation α)}
    (htimes : (ops.filterMap Operation.time?).Nodup)
    (hnow : ∀ e ∈ large.entries, e.lastAccess ∉ ops.filterMap Operation.time?) :
    (∀ (i : Nat) (value : α), (small.run ops).1[i]? = some (.found (some value)) →
      (large.run ops).1[i]? = some (.found (some value))) ∧
      Within (small.run ops).2 (large.run ops).2 := by
  induction ops generalizing small large with
  | nil => exact ⟨fun _ _ hvalue => by simp [run] at hvalue, h⟩
  | cons op ops ih =>
    have htime : ∀ now ∈ op.time?, now ∈ (op :: ops).filterMap Operation.time? := fun now hop =>
      List.mem_filterMap.mpr ⟨op, List.mem_cons_self, hop⟩
    have htail : (ops.filterMap Operation.time?).Sublist ((op :: ops).filterMap Operation.time?) :=
      (List.sublist_cons_self op ops).filterMap _
    have hother : ∀ now ∈ op.time?, now ∉ ops.filterMap Operation.time? := by
      intro now hop
      rw [List.filterMap_cons_some hop] at htimes
      exact (List.nodup_cons.mp htimes).1
    obtain ⟨hfound, hwithin⟩ := within_step h fun e he now hop heq =>
      hnow e he (heq ▸ htime now hop)
    obtain ⟨hfounds, hwithin'⟩ := ih hwithin (htimes.sublist htail) fun e he => by
      rcases lastAccess_of_mem_step he with he | hop
      · exact fun hmem => hnow e he (htail.mem hmem)
      · exact hother _ hop
    refine ⟨fun i value hvalue => ?_, hwithin'⟩
    cases i with
    | zero => exact congrArg some (hfound value (Option.some.inj hvalue))
    | succ i => exact hfounds i value hvalue

end

/-- On a clock that never shows the same time twice, a larger cache does no worse than a smaller one,
however ties are broken: after every operation it has all entries of the smaller one, with their
values and times, and as many hits; and every look-up that the smaller one answers it answers with
the same result. -/
theorem run_of_capacity_le (ttl : Nat) {capacity capacity' : Nat} (hle : capacity ≤ capacity')
    (digest : String → UInt64) (ties ties' : Nat → Nat) {ops : List (Operation α)}
    (htimes : (ops.filterMap Operation.time?).Nodup) :
    let small := empty capacity ttl digest ties
    let large := empty capacity' ttl digest ties'
    (∀ n, (∀ e ∈ (small.run (ops.take n)).2.entries, e ∈ (large.run (ops.take n)).2.entries) ∧
      (small.run (ops.take n)).2.hits ≤ (large.run (ops.take n)).2.hits) ∧
    ∀ (i : Nat) (value : α), (small.run ops).1[i]? = some (.found (some value)) →
      (large.run ops).1[i]? = some (.found (some value)) := by
  intro small large
  have hstart : Within small large :=
    ⟨rfl, rfl, ⟨.slnil, ⟨.nil, .nil⟩, Nat.zero_le _, Nat.add_le_add_left hle 0⟩, Nat.le_refl 0⟩
  refine ⟨fun n => ?_, (within_run hstart htimes fun e he => nomatch he).1⟩
  have htaken := htimes.sublist ((List.take_sublist n ops).filterMap Operation.time?)
  obtain ⟨-, hwithin⟩ := within_run hstart htaken fun e he => nomatch he
  exact ⟨fun e he => hwithin.nested.sublist.mem he, hwithin.hits_le⟩

/-- Two look-ups that only the larger cache answers, the first of which renews an entry there on a
clock that goes backwards, and one that both answer. -/
theorem run_of_capacity_le_drifting :
    let ops : List (Operation Nat) :=
      [.set "a = 1" none 1 5, .set "b = 2" none 2 9, .get "a = 1" none 3,
        .set "c = 3" (some "v2") 3 7, .get "b = 2" none 8, .get "c = 3" (some "v2") 12]
    (ops.filterMap Operation.time?).Nodup ∧
    ((empty 1 10).run ops).1 =
      [.none, .none, .found none, .none, .found none, .found (some 3)] ∧
    ((empty 2 10).run ops).1[2]? = some (.found (some 1)) ∧
    ((empty 2 10).run ops).1[5]? = some (.found (some 3)) ∧
    ((empty 1 10).run (ops.take 4)).2.entries = [⟨"c = 3", "v2", 3, 7⟩] ∧
    ⟨"c = 3", "v2", 3, 7⟩ ∈ ((empty 2 10).run (ops.take 4)).2.entries := by
  intro ops
  have htimes : (ops.filterMap Operation.time?).Nodup := by decide +kernel
  have hanswers : ((empty 1 10).run ops).1 =
      [.none, .none, .found none, .none, .found none, .found (some 3)] := by rfl
  have hentries : ((empty 1 10).run (ops.take 4)).2.entries = [⟨"c = 3", "v2", 3, 7⟩] := by rfl
  obtain ⟨hafter, hfound⟩ :=
    run_of_capacity_le 10 (by decide : 1 ≤ 2) Text.digest (fun _ => 0) (fun _ => 0) htimes
  refine ⟨htimes, hanswers, by rfl, hfound 5 3 ?_, hentries, (hafter 4).1 _ ?_⟩
  · exact congrArg (·[5]?) hanswers
  · rw [hentries]
    exact List.mem_singleton_self _

end LogQuery.Cache
