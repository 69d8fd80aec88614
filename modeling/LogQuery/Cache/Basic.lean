import LogQuery.Number.Binary64
import LogQuery.Text.Digest

/-!
# A cache of results

Results are kept by query text and schema version. An entry is found by the digest of its query and
its version, and the query itself is compared afterwards, so that a query never gets the result of
another one with the same digest. An entry expires once it has not been looked up for longer than
the time-to-live, and when the cache is full the entry that was looked up longest ago makes room.
Times are integers in one unit, which the time-to-live shares; they need not ascend. Which of
several entries that were looked up at the same time makes room is left open: `Cache.ties` says it.

* `length_entries_evict`: making room removes one entry;
* `entries_length_set_le`: a cache never outgrows its capacity.
-/

namespace LogQuery

/-- The version of a schema that is given none. -/
def defaultVersion : String := "default"

/-- A stored result. -/
structure Cache.Entry (α : Type) where
  query : String
  version : String
  value : α
  /-- When the entry was stored or last looked up. -/
  lastAccess : Int
  deriving DecidableEq

/-- What an entry is found by: the digest of its query, and its version. -/
structure Cache.Key where
  digest : UInt64
  version : String
  deriving DecidableEq

/-- A cache and its counters. The entries touched last come first. -/
structure Cache (α : Type) where
  /-- How many entries there may be. -/
  capacity : Nat
  /-- How long an entry lives after it was last looked up. -/
  ttl : Nat
  /-- The digest of a query. -/
  digest : String → UInt64
  /-- How the next ties between entries to be removed are broken. -/
  ties : Nat → Nat
  entries : List (Cache.Entry α)
  /-- How often a result was looked up. -/
  requests : Nat
  /-- How often one was found. -/
  hits : Nat

/-- The counters of a cache. -/
structure Cache.Stats where
  size : Nat
  requests : Nat
  hits : Nat
  hitRate : Binary64
  deriving DecidableEq

namespace Cache

variable {α : Type}

/-- A cache without entries. -/
def empty (capacity ttl : Nat) (digest : String → UInt64 := Text.digest)
    (ties : Nat → Nat := fun _ => 0) : Cache α :=
  ⟨capacity, ttl, digest, ties, [], 0, 0⟩

/-- The version that an entry is stored under. -/
def versionOf (version : Option String) : String := version.getD defaultVersion

/-- The key of a query and a version. -/
def keyOf (digest : String → UInt64) (query : String) (version : Option String) : Key :=
  ⟨digest query, versionOf version⟩

/-- The key that an entry is stored under. -/
def Entry.key (digest : String → UInt64) (e : Entry α) : Key := ⟨digest e.query, e.version⟩

/-- Is the entry the one under this key? -/
def Entry.isUnder (digest : String → UInt64) (key : Key) (e : Entry α) : Bool :=
  e.key digest = key

/-- Has the entry outlived its time at `now`? -/
def Entry.isExpired (ttl : Nat) (now : Int) (e : Entry α) : Bool :=
  decide ((ttl : Int) < now - e.lastAccess)

/-- The entries other than the one under this key. -/
def others (digest : String → UInt64) (key : Key) (entries : List (Entry α)) : List (Entry α) :=
  entries.filter (!·.isUnder digest key)

/-- Looks a result up at `now`. A hit renews the entry; an expired entry is removed, and one of
another query with the same digest stays as it is. -/
def get (query : String) (version : Option String) (now : Int) (c : Cache α) :
    Option α × Cache α :=
  let key := keyOf c.digest query version
  let c := { c with requests := c.requests + 1 }
  match c.entries.find? (·.isUnder c.digest key) with
  | none => (none, c)
  | some e =>
    if e.query ≠ query then (none, c)
    else if e.isExpired c.ttl now then
      (none, { c with entries := others c.digest key c.entries })
    else
      (some e.value,
        { c with
          entries := { e with lastAccess := now } :: others c.digest key c.entries
          hits := c.hits + 1 })

/-- The entries without the one that comes after `n` others that pass the test. -/
def eraseNth (test : Entry α → Bool) : Nat → List (Entry α) → List (Entry α)
  | _, [] => []
  | n, e :: rest =>
    if test e then
      if n = 0 then rest else e :: eraseNth test (n - 1) rest
    else e :: eraseNth test n rest

/-- The entries without one of those that were looked up longest ago; `tie` says which. -/
def evict (tie : Nat) (entries : List (Entry α)) : List (Entry α) :=
  match (entries.map Entry.lastAccess).min? with
  | none => []
  | some oldest =>
    let isOldest := fun e : Entry α => e.lastAccess == oldest
    eraseNth isOldest (tie % entries.countP isOldest) entries

/-- Makes room for an entry under a key: it takes the place of the one that is there, or a free
place, or the place of one that was looked up longest ago. -/
def makeRoom (key : Key) (c : Cache α) : Cache α :=
  if c.entries.any (·.isUnder c.digest key) then
    { c with entries := others c.digest key c.entries }
  else if c.entries.length < c.capacity then c
  else
    { c with
      entries := evict (c.ties 0) c.entries
      ties := fun n => c.ties (n + 1) }

/-- Stores a result at `now`, if there may be entries at all. -/
def set (query : String) (version : Option String) (value : α) (now : Int) (c : Cache α) :
    Cache α :=
  if c.capacity = 0 then c
  else
    let key := keyOf c.digest query version
    let c := c.makeRoom key
    { c with entries := ⟨query, key.version, value, now⟩ :: c.entries }

/-- Removes the entries of all versions but one, and counts them. -/
def invalidate (keep : String) (c : Cache α) : Nat × Cache α :=
  let kept := c.entries.filter (·.version == keep)
  (c.entries.length - kept.length, { c with entries := kept })

/-- Removes all entries and resets the counters. -/
def clear (c : Cache α) : Cache α := empty c.capacity c.ttl c.digest c.ties

def size (c : Cache α) : Nat := c.entries.length

def isEmpty (c : Cache α) : Bool := c.entries.isEmpty

/-- The share of look-ups that found a result; without any it is zero. -/
def hitRate (c : Cache α) : Binary64 :=
  if c.requests = 0 then .ofNat 0 else .ofRatio false c.hits c.requests

def stats (c : Cache α) : Stats := ⟨c.size, c.requests, c.hits, c.hitRate⟩

theorem length_eraseNth {test : Entry α → Bool} {n : Nat} {entries : List (Entry α)}
    (h : n < entries.countP test) : (eraseNth test n entries).length = entries.length - 1 := by
  induction entries generalizing n with
  | nil => simp at h
  | cons e rest ih =>
    have hle := List.countP_le_length (p := test) (l := rest)
    rw [eraseNth]
    split
    · rename_i he
      rw [List.countP_cons_of_pos he] at h
      split
      · rfl
      · rw [List.length_cons, ih (by omega), List.length_cons]
        omega
    · rename_i he
      rw [List.countP_cons_of_neg he] at h
      rw [List.length_cons, ih h, List.length_cons]
      omega

/-- Making room removes one entry. -/
theorem length_entries_evict (tie : Nat) (entries : List (Entry α)) :
    (evict tie entries).length = entries.length - 1 := by
  unfold evict
  split
  · rename_i h
    cases entries <;> simp_all
  · rename_i oldest h
    obtain ⟨e, he, hoe⟩ := List.mem_map.mp (List.min?_mem h)
    refine length_eraseNth (Nat.mod_lt _ (List.countP_pos_iff.mpr ⟨e, he, ?_⟩))
    simp [hoe]

theorem length_others_lt {digest : String → UInt64} {key : Key} {entries : List (Entry α)}
    (h : entries.any (·.isUnder digest key) = true) :
    (others digest key entries).length < entries.length := by
  obtain ⟨e, he, hfor⟩ := List.any_eq_true.mp h
  exact List.length_filter_lt_length_iff_exists.mpr ⟨e, he, by simp [hfor]⟩

theorem length_entries_makeRoom_lt {key : Key} {c : Cache α} (h : c.entries.length ≤ c.capacity)
    (hcapacity : c.capacity ≠ 0) : (c.makeRoom key).entries.length < c.capacity := by
  unfold makeRoom
  split
  · rename_i hany
    exact Nat.lt_of_lt_of_le (length_others_lt hany) h
  · split
    · assumption
    · rw [length_entries_evict]
      omega

/-- A cache never outgrows its capacity. -/
theorem entries_length_set_le {query : String} {version : Option String} {value : α} {now : Int}
    {c : Cache α} (h : c.entries.length ≤ c.capacity) :
    (c.set query version value now).entries.length ≤ c.capacity := by
  unfold set
  split
  · exact h
  · exact length_entries_makeRoom_lt h (by assumption)

end Cache

end LogQuery
