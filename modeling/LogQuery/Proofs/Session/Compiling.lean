import LogQuery.Proofs.Cache.Steps
import LogQuery.Session

/-!
# What compiling a text does

What is compiled without a cache, and what becomes of the cache otherwise:

* `fresh_cases`: a text is rejected, or gives what its query is compiled to;
* `compileText_cases`: a result comes from the cache, or is compiled and perhaps stored;
* `mem_compileText`: nothing else is stored;
* `compileText_of_isEmpty`: an empty cache is of no use.
-/

namespace LogQuery

namespace Compilation

/-- A text without a query is rejected with its faults; any other gives what its query is compiled
to, which is kept if the text has no faults at all. -/
theorem fresh_cases (schema : Option Schema) (o : Options) (query : String) :
    ((analyse query).query? = none ∧ fresh schema o query = (rejected (validate query), none)) ∨
    (∃ q, (analyse query).query? = some q ∧
      fresh schema o query =
        (ofCompiled schema o (validate query) false (q.compile o.mode schema),
          if (validate query).isEmpty then some (q.compile o.mode schema) else none)) := by
  unfold fresh validate
  dsimp only
  cases (analyse query).query? with
  | none => exact .inl ⟨rfl, rfl⟩
  | some q => exact .inr ⟨q, rfl, rfl⟩

/-- What is kept of a text does not depend on how its fields are to be ordered. -/
theorem fresh_snd_congr (schema : Option Schema) {o o' : Options} (h : o.mode = o'.mode)
    (query : String) : (fresh schema o query).2 = (fresh schema o' query).2 := by
  unfold fresh
  dsimp only
  cases (analyse query).query? with
  | none => rfl
  | some q =>
    dsimp only
    rw [h]

/-- A result that is kept is all that a later compilation needs. -/
theorem fresh_fst_of_snd {schema : Option Schema} {o : Options} {query : String}
    {compiled : Compiled} (h : (fresh schema o query).2 = some compiled) :
    (fresh schema o query).1 = ofCompiled schema o [] false compiled := by
  obtain ⟨-, hfresh⟩ | ⟨q, -, hfresh⟩ := fresh_cases schema o query
  · rw [hfresh] at h
    cases h
  · rw [hfresh] at h ⊢
    dsimp only at h ⊢
    split at h
    · rename_i hempty
      cases h
      rw [List.isEmpty_iff.mp hempty]
    · cases h

end Compilation

/-- The cache after a text was compiled, if there is something to keep. -/
def Cache.keep (query : String) (version : Option String) (storedAt : Int) (c : Cache Compiled) :
    Option Compiled → Cache Compiled
  | none => c
  | some compiled => c.set query version compiled storedAt

theorem compileText_of_hit (schema : Option Schema) {o : Options} {query : String} {readAt : Int}
    (storedAt : Int) {cache : Cache Compiled} {compiled : Compiled}
    (h : (cache.get (o.cacheText query) o.schemaVersion readAt).1 = some compiled) :
    compileText schema o query readAt storedAt cache =
      (.ofCompiled schema o [] true compiled,
        (cache.get (o.cacheText query) o.schemaVersion readAt).2) := by
  rw [compileText]
  generalize cache.get (o.cacheText query) o.schemaVersion readAt = got at h ⊢
  obtain ⟨found, after⟩ := got
  cases h
  rfl

theorem compileText_of_miss (schema : Option Schema) {o : Options} {query : String} {readAt : Int}
    (storedAt : Int) {cache : Cache Compiled}
    (h : (cache.get (o.cacheText query) o.schemaVersion readAt).1 = none) :
    compileText schema o query readAt storedAt cache =
      ((Compilation.fresh schema o query).1,
        (cache.get (o.cacheText query) o.schemaVersion readAt).2.keep (o.cacheText query)
          o.schemaVersion storedAt (Compilation.fresh schema o query).2) := by
  rw [compileText]
  generalize cache.get (o.cacheText query) o.schemaVersion readAt = got at h ⊢
  obtain ⟨found, after⟩ := got
  cases h
  dsimp only
  obtain ⟨result, _ | compiled⟩ := Compilation.fresh schema o query
  · rfl
  · rfl

/-- A result comes from an entry for the text, the mode and the version, or the text is compiled. -/
theorem compileText_cases (schema : Option Schema) (o : Options) (query : String)
    (readAt storedAt : Int) (cache : Cache Compiled) :
    (∃ e ∈ cache.entries, e.query = o.cacheText query ∧
      e.version = Cache.versionOf o.schemaVersion ∧
      compileText schema o query readAt storedAt cache =
        (.ofCompiled schema o [] true e.value,
          (cache.get (o.cacheText query) o.schemaVersion readAt).2)) ∨
    ((cache.get (o.cacheText query) o.schemaVersion readAt).1 = none ∧
      compileText schema o query readAt storedAt cache =
        ((Compilation.fresh schema o query).1,
          (cache.get (o.cacheText query) o.schemaVersion readAt).2.keep (o.cacheText query)
            o.schemaVersion storedAt (Compilation.fresh schema o query).2)) := by
  obtain ⟨-, hget⟩ | ⟨e, -, -, -, hget⟩ | ⟨e, hstored, hquery, -, hget⟩ :=
    Cache.get_cases (o.cacheText query) o.schemaVersion readAt cache
  · have hnone := congrArg Prod.fst hget
    exact .inr ⟨hnone, compileText_of_miss schema storedAt hnone⟩
  · have hnone := congrArg Prod.fst hget
    exact .inr ⟨hnone, compileText_of_miss schema storedAt hnone⟩
  · obtain ⟨hmem, hversion⟩ := Cache.mem_of_stored? hstored
    exact .inl ⟨e, hmem, hquery, hversion,
      compileText_of_hit schema storedAt (congrArg Prod.fst hget)⟩

/-- An entry after a text was compiled was there before, but perhaps for its time, or holds what the
text is compiled to. -/
theorem mem_compileText {schema : Option Schema} {o : Options} {query : String}
    {readAt storedAt : Int} {cache : Cache Compiled} {e : Cache.Entry Compiled}
    (h : e ∈ (compileText schema o query readAt storedAt cache).2.entries) :
    (∃ e' ∈ cache.entries, e'.query = e.query ∧ e'.version = e.version ∧ e'.value = e.value) ∨
    (e.query = o.cacheText query ∧ e.version = Cache.versionOf o.schemaVersion ∧
      (Compilation.fresh schema o query).2 = some e.value) := by
  have hget : ∀ e ∈ (cache.get (o.cacheText query) o.schemaVersion readAt).2.entries,
      ∃ e' ∈ cache.entries, e'.query = e.query ∧ e'.version = e.version ∧
        e'.value = e.value := by
    intro e he
    have hstep : e ∈ (cache.step (.get (o.cacheText query) o.schemaVersion readAt)).2.entries := he
    rcases Cache.mem_step hstep with he | ⟨e', he', _, _, _, -, rfl⟩ | ⟨_, _, _, _, hop, -⟩
    · exact ⟨e, he, rfl, rfl, rfl⟩
    · exact ⟨e', he', rfl, rfl, rfl⟩
    · cases hop
  obtain ⟨_, -, -, -, hcompile⟩ | ⟨-, hcompile⟩ :=
    compileText_cases schema o query readAt storedAt cache
  · rw [hcompile] at h
    exact .inl (hget e h)
  · rw [hcompile] at h
    cases hkept : (Compilation.fresh schema o query).2 with
    | none =>
      rw [hkept] at h
      exact .inl (hget e h)
    | some compiled =>
      rw [hkept] at h
      rcases Cache.mem_set h with rfl | h
      · exact .inr ⟨rfl, rfl, rfl⟩
      · exact .inl (hget e h)

/-- An empty cache is of no use, and is left empty or with one result. -/
theorem compileText_of_isEmpty (schema : Option Schema) (o : Options) (query : String)
    (readAt storedAt : Int) {cache : Cache Compiled} (h : cache.isEmpty = true) :
    compileText schema o query readAt storedAt cache =
      ((Compilation.fresh schema o query).1,
        { cache with requests := cache.requests + 1 }.keep (o.cacheText query) o.schemaVersion
          storedAt (Compilation.fresh schema o query).2) := by
  have hnil : cache.entries = [] := List.isEmpty_iff.mp h
  have hnone : cache.stored? (o.cacheText query) o.schemaVersion = none := by
    rw [Cache.stored?, hnil]
    rfl
  obtain ⟨e, hmem, -⟩ | ⟨-, hcompile⟩ := compileText_cases schema o query readAt storedAt cache
  · rw [hnil] at hmem
    cases hmem
  obtain ⟨-, hget⟩ | ⟨e, hstored, -⟩ | ⟨e, hstored, -⟩ :=
    Cache.get_cases (o.cacheText query) o.schemaVersion readAt cache
  · rw [hcompile, hget]
  · rw [hnone] at hstored
    cases hstored
  · rw [hnone] at hstored
    cases hstored

/-- The compilation that a reply holds. -/
def Session.Reply.compilation? : Reply → Option Compilation
  | .compilation c => some c
  | .cache _ => none

end LogQuery
