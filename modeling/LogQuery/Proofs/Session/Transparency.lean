import LogQuery.Proofs.Session.Compiling

/-!
# A cache does not change what is compiled

A text is compiled to the same result in the middle of a session as on an empty cache, whatever the
session has stored, looked up, let expire and removed before: only whether the result came from the
cache may differ. Each version must stand for one schema, and no query text may contain the
character that sets modes apart in the cache.

* `cacheText_inj`: texts and modes are kept apart in the cache;
* `faithful_compileText`, `faithful_step`: every entry stays what compiling its text gives, whatever
  the clock, the digest and the way ties are broken.
-/

namespace LogQuery

/-- Results that differ at most in where they came from. -/
def Compilation.Agrees (c d : Compilation) : Prop := c = { d with cached := c.cached }

namespace Session

/-! ## Sessions -/

/-- Does the request compile a text without the character that sets modes apart, or ask the cache
without storing anything? -/
def Request.isOrdinary : Request → Bool
  | .compile _ _ query _ _ => !query.toList.contains '\x00'
  | .cache (.set ..) => false
  | .cache _ => true

theorem Request.not_mem_of_isOrdinary {schema : Option Schema} {o : Options} {query : String}
    {readAt storedAt : Int} (h : (compile schema o query readAt storedAt).isOrdinary = true) :
    '\x00' ∉ query.toList := by
  simpa [isOrdinary] using h

/-- The version and the schema that the request compiles a text for. -/
def Request.scope? : Request → Option (String × Option Schema)
  | .compile schema o _ _ _ => some (Cache.versionOf o.schemaVersion, schema)
  | .cache _ => none

/-- Texts that are compiled for one version are compiled for one schema. -/
def VersionsFixSchemas (requests : List Request) : Prop :=
  ∀ a ∈ requests.filterMap Request.scope?, ∀ b ∈ requests.filterMap Request.scope?,
    a.1 = b.1 → a.2 = b.2

instance (requests : List Request) : Decidable (VersionsFixSchemas requests) :=
  inferInstanceAs (Decidable (∀ a ∈ requests.filterMap Request.scope?,
    ∀ b ∈ requests.filterMap Request.scope?, a.1 = b.1 → a.2 = b.2))

/-! ## Entries -/

/-- Texts without the character that sets modes apart are kept apart by text and mode. -/
theorem cacheText_inj {o o' : Options} {query query' : String} (h : '\x00' ∉ query.toList)
    (h' : '\x00' ∉ query'.toList) (heq : o.cacheText query = o'.cacheText query') :
    query = query' ∧ o.mode = o'.mode := by
  have hmark : ∀ {a b : String}, '\x00' ∉ b.toList → a ++ "\x00parameterized" ≠ b := by
    rintro a b hb rfl
    exact hb (by simp)
  obtain ⟨version, parameterized, orderField⟩ := o
  obtain ⟨version', parameterized', orderField'⟩ := o'
  cases parameterized <;> cases parameterized'
  · exact ⟨heq, rfl⟩
  · exact absurd heq.symm (hmark h)
  · exact absurd heq (hmark h')
  · refine ⟨?_, rfl⟩
    simpa [Options.cacheText] using heq

/-- The entry holds what compiling some text for its version gives. -/
def Explained (schemaOf : String → Option Schema) (e : Cache.Entry Compiled) : Prop :=
  ∃ o query, '\x00' ∉ query.toList ∧ e.query = o.cacheText query ∧
    (Compilation.fresh (schemaOf e.version) o query).2 = some e.value

/-- Every entry of the cache holds what compiling its text gives. -/
def Faithful (schemaOf : String → Option Schema) (cache : Cache Compiled) : Prop :=
  ∀ e ∈ cache.entries, Explained schemaOf e

section

variable {schemaOf : String → Option Schema} {cache : Cache Compiled}

/-- An operation that stores nothing leaves entries as they are, or removes them. -/
theorem faithful_step (h : Faithful schemaOf cache) {op : Cache.Operation Compiled}
    (hop : (Request.cache op).isOrdinary = true) : Faithful schemaOf (cache.step op).2 := by
  intro e he
  rcases Cache.mem_step he with he | ⟨e', he', query, version, now, rfl, rfl⟩ |
    ⟨query, version, value, now, rfl, rfl⟩
  · exact h e he
  · exact h e' he'
  · cases hop

/-- The entry for a text and a version is what compiling the text gives. -/
theorem Explained.fresh_eq {e : Cache.Entry Compiled} (h : Explained schemaOf e) {o : Options}
    {query : String} (hquery : '\x00' ∉ query.toList) (htext : e.query = o.cacheText query) :
    (Compilation.fresh (schemaOf e.version) o query).2 = some e.value := by
  obtain ⟨o', query', hquery', htext', hfresh⟩ := h
  obtain ⟨rfl, hmode⟩ := cacheText_inj hquery hquery' (htext.symm.trans htext')
  rw [← hfresh, Compilation.fresh_snd_congr _ hmode]

/-- Compiling a text on a faithful cache gives what it gives without one, and leaves the cache
faithful. -/
theorem faithful_compileText (h : Faithful schemaOf cache) {o : Options} {query : String}
    (hquery : '\x00' ∉ query.toList) (readAt storedAt : Int) {schema : Option Schema}
    (hschema : schemaOf (Cache.versionOf o.schemaVersion) = schema) :
    (compileText schema o query readAt storedAt cache).1.Agrees
        (Compilation.fresh schema o query).1 ∧
      Faithful schemaOf (compileText schema o query readAt storedAt cache).2 := by
  subst hschema
  constructor
  · obtain ⟨e, he, htext, hversion, hcompile⟩ | ⟨-, hcompile⟩ :=
      compileText_cases (schemaOf (Cache.versionOf o.schemaVersion)) o query readAt storedAt cache
    · have hfresh := (h e he).fresh_eq hquery htext
      rw [hversion] at hfresh
      rw [hcompile, Compilation.fresh_fst_of_snd hfresh]
      rfl
    · rw [hcompile]
      obtain ⟨-, hfresh⟩ | ⟨q, -, hfresh⟩ :=
        Compilation.fresh_cases (schemaOf (Cache.versionOf o.schemaVersion)) o query
      · rw [hfresh]
        rfl
      · rw [hfresh]
        rfl
  · intro e he
    rcases mem_compileText he with ⟨e', he', htext, hversion, hvalue⟩ | ⟨htext, hversion, hfresh⟩
    · have hexplained := h e' he'
      rw [Explained, htext, hversion, hvalue] at hexplained
      exact hexplained
    · rw [← hversion] at hfresh
      exact ⟨o, query, hquery, htext, hfresh⟩

/-- What one ordinary request does on a faithful cache. -/
theorem faithful_serve (h : Faithful schemaOf cache) {request : Request}
    (hrequest : request.isOrdinary = true)
    (hschema : ∀ s ∈ request.scope?, schemaOf s.1 = s.2) :
    Faithful schemaOf (step cache request).2 := by
  cases request with
  | compile schema o query readAt storedAt =>
    have hquery := Request.not_mem_of_isOrdinary hrequest
    exact (faithful_compileText h hquery readAt storedAt (hschema _ rfl)).2
  | cache op => exact faithful_step h hrequest

/-- Every text of a session that starts on a faithful cache is compiled as without a cache. -/
theorem run_agrees (h : Faithful schemaOf cache) {requests : List Request}
    (hrequests : ∀ request ∈ requests, request.isOrdinary = true)
    (hschema : ∀ s ∈ requests.filterMap Request.scope?, schemaOf s.1 = s.2)
    {i : Nat} {schema : Option Schema} {o : Options} {query : String} {readAt storedAt : Int}
    (hi : requests[i]? = some (.compile schema o query readAt storedAt)) :
    ∃ c, (run cache requests).1[i]? = some (.compilation c) ∧
      c.Agrees (Compilation.fresh schema o query).1 := by
  induction requests generalizing cache i with
  | nil => simp at hi
  | cons request requests ih =>
    have hrequest := hrequests request List.mem_cons_self
    have hscope : ∀ s ∈ request.scope?, schemaOf s.1 = s.2 := fun s hs =>
      hschema s (List.mem_filterMap.mpr ⟨request, List.mem_cons_self, hs⟩)
    cases i with
    | zero =>
      cases hi
      have hquery := Request.not_mem_of_isOrdinary hrequest
      exact ⟨_, rfl, (faithful_compileText h hquery readAt storedAt (hscope _ rfl)).1⟩
    | succ i =>
      exact ih (faithful_serve h hrequest hscope)
        (fun r hr => hrequests r (List.mem_cons_of_mem _ hr))
        (fun s hs => hschema s (((List.sublist_cons_self request requests).filterMap _).mem hs)) hi

end

/-- If versions fix schemas, the schema is a function of the version. -/
theorem exists_schemaOf {requests : List Request} (h : VersionsFixSchemas requests) :
    ∃ schemaOf : String → Option Schema,
      ∀ s ∈ requests.filterMap Request.scope?, schemaOf s.1 = s.2 := by
  let scopes := requests.filterMap Request.scope?
  refine ⟨fun version => (scopes.find? (·.1 == version)).elim none Prod.snd, fun s hs => ?_⟩
  have hsome : (scopes.find? (·.1 == s.1)).isSome = true :=
    List.find?_isSome.mpr ⟨s, hs, beq_self_eq_true s.1⟩
  obtain ⟨a, ha⟩ := Option.isSome_iff_exists.mp hsome
  have hversion : a.1 = s.1 := by simpa using List.find?_some ha
  dsimp only
  rw [ha, Option.elim_some]
  exact h a (List.mem_of_find?_eq_some ha) s hs hversion

/-- In a session whose versions fix schemas, every text is compiled to what it is compiled to on an
empty cache, apart from where the result comes from. -/
theorem run_transparent (capacity ttl : Nat) (digest : String → UInt64) (ties : Nat → Nat)
    {requests : List Request} (hrequests : ∀ request ∈ requests, request.isOrdinary = true)
    (hschemas : VersionsFixSchemas requests) {i : Nat} {schema : Option Schema} {o : Options}
    {query : String} {readAt storedAt : Int}
    (hi : requests[i]? = some (.compile schema o query readAt storedAt)) {fresh : Cache Compiled}
    (hfresh : fresh.isEmpty = true) :
    ∃ c, (run (.empty capacity ttl digest ties) requests).1[i]? = some (.compilation c) ∧
      c.Agrees (compileText schema o query readAt storedAt fresh).1 := by
  obtain ⟨schemaOf, hschemaOf⟩ := exists_schemaOf hschemas
  have hempty : Faithful schemaOf (.empty capacity ttl digest ties) := fun e he => by cases he
  obtain ⟨c, hreply, hagrees⟩ := run_agrees hempty hrequests hschemaOf hi
  refine ⟨c, hreply, ?_⟩
  rw [compileText_of_isEmpty schema o query readAt storedAt hfresh]
  exact hagrees

/-- A text that is found in the cache under its version's other name, on a clock that goes back,
with another column to order by. -/
theorem run_transparent_hit :
    let requests : List Request :=
      [.compile none ⟨none, false, none⟩ "a = 1 | b" 7 7,
        .compile (some ⟨[⟨"m", "Map(String, String)"⟩]⟩) ⟨some "v2", true, none⟩ "m.k = 'v'" 8 9,
        .cache (.invalidate "default"),
        .compile none ⟨some "default", false, some "t"⟩ "a = 1 | b" 3 4]
    (∀ request ∈ requests, request.isOrdinary = true) ∧ VersionsFixSchemas requests ∧
    ∃ c, (run (.empty 2 10) requests).1[3]? = some (.compilation c) ∧ c.cached = true ∧
      c.Agrees
        (compileText none ⟨some "default", false, some "t"⟩ "a = 1 | b" 3 4 (.empty 2 10)).1 := by
  intro requests
  have hrequests : ∀ request ∈ requests, request.isOrdinary = true := by decide +kernel
  have hschemas : VersionsFixSchemas requests := by decide +kernel
  have hcached : ((run (.empty 2 10) requests).1[3]?.bind Reply.compilation?).any (·.cached) =
      true := by decide +kernel
  have hempty : (Cache.empty 2 10 : Cache Compiled).isEmpty = true := rfl
  obtain ⟨c, hreply, hagrees⟩ :=
    run_transparent 2 10 Text.digest (fun _ => 0) hrequests hschemas (i := 3) rfl hempty
  rw [hreply] at hcached
  exact ⟨hrequests, hschemas, c, hreply, hcached, hagrees⟩

end Session

end LogQuery
