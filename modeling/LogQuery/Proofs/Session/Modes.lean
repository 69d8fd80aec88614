import LogQuery.Proofs.Query.Verdict
import LogQuery.Proofs.Session.Compiling
import LogQuery.Proofs.Sql.Placeholders

/-!
# Modes that share a cache

A cache holds conditions of both modes, those with their values in place and those with placeholders.
The mode is kept as a mark behind the text, and nothing keeps a text from ending in that mark: then
two calls of different modes have one place in the cache (`Call.Clashes`). Nothing else makes modes
mix. In every session, each call is answered as its mode demands unless it clashes with an earlier
one; and a call right after one that it clashes with is given that one's condition.

* `Call.clashes_or_same`: calls with one place in the cache have one mode and one text, or clash;
* `holdsOf_step`, `holdsOf_run`: every entry is what an earlier call of the session compiled;
* `compileText_repeats`: what was just compiled or found is found again.
-/

namespace LogQuery

/-- Values stand in the text of an inline condition, and not beside it. -/
theorem Compilation.params_fresh {o : Options} (h : o.parameterized = false)
    (schema : Option Schema) (query : String) :
    (Compilation.fresh schema o query).1.params = [] := by
  obtain ⟨-, hfresh⟩ | ⟨q, -, hfresh⟩ := fresh_cases schema o query
  · rw [hfresh]
    rfl
  · have hmode : o.mode = .inline := by
      rw [Options.mode, h]
      rfl
    rw [hfresh, hmode]
    show (Sql.compile .inline schema q).params = []
    rw [Sql.compile_eq]
    exact Sql.params_inline _

/-- A result without diagnostics is kept. -/
theorem Compilation.exists_snd_fresh {schema : Option Schema} {o : Options} {query : String}
    (h : (Compilation.fresh schema o query).1.diagnostics = []) :
    ∃ compiled, (Compilation.fresh schema o query).2 = some compiled := by
  obtain ⟨hquery, hfresh⟩ | ⟨q, -, hfresh⟩ := fresh_cases schema o query
  · -- A text without a query has an error among its diagnostics.
    have herror := Analysis.isNone_query? query
    rw [hfresh] at h
    replace h : validate query = [] := h
    rw [hquery, h] at herror
    cases herror
  · rw [hfresh] at h ⊢
    replace h : validate query = [] := h
    exact ⟨q.compile o.mode schema, by rw [h]; rfl⟩

namespace Session

/-! ## Calls -/

/-- A text to be compiled, with what it is compiled for. -/
structure Call where
  schema : Option Schema
  options : Options
  query : String
  deriving DecidableEq

namespace Call

/-- The text and the version that the result is kept under. -/
def place (call : Call) : String × String :=
  (call.options.cacheText call.query, Cache.versionOf call.options.schemaVersion)

/-- Is the second text the first one with the mark of a parameterized one behind it, though the
second is inline and the first is parameterized? -/
def IsMarked (a b : Call) : Prop :=
  a.options.parameterized = true ∧ b.options.parameterized = false ∧
    b.query = a.query ++ "\x00parameterized"

instance (a b : Call) : Decidable (a.IsMarked b) :=
  inferInstanceAs (Decidable (_ ∧ _ ∧ _))

/-- Do two calls of different modes have one place in the cache? -/
def Clashes (a b : Call) : Prop :=
  Cache.versionOf a.options.schemaVersion = Cache.versionOf b.options.schemaVersion ∧
    (a.IsMarked b ∨ b.IsMarked a)

instance (a b : Call) : Decidable (a.Clashes b) :=
  inferInstanceAs (Decidable (_ ∧ (_ ∨ _)))

theorem IsMarked.cacheText_eq {a b : Call} (h : a.IsMarked b) :
    a.options.cacheText a.query = b.options.cacheText b.query := by
  obtain ⟨ha, hb, hquery⟩ := h
  rw [Options.cacheText, if_pos ha, Options.cacheText, if_neg (by simp [hb]), hquery]

theorem Clashes.place_eq {a b : Call} (h : a.Clashes b) : a.place = b.place := by
  obtain ⟨hversion, hmarked | hmarked⟩ := h
  · exact Prod.ext hmarked.cacheText_eq hversion
  · exact Prod.ext hmarked.cacheText_eq.symm hversion

/-- Calls with one place in the cache have one mode and one text, or clash. -/
theorem clashes_or_same {a b : Call} (h : a.place = b.place) :
    a.Clashes b ∨ (a.options.mode = b.options.mode ∧ a.query = b.query) := by
  obtain ⟨htext, hversion⟩ := Prod.mk.inj h
  rw [Options.cacheText, Options.cacheText] at htext
  rw [Clashes, IsMarked, IsMarked, Options.mode, Options.mode]
  cases ha : a.options.parameterized <;> cases hb : b.options.parameterized <;>
    simp only [ha, hb, Bool.false_eq_true, if_true, if_false] at htext
  · exact .inr ⟨rfl, htext⟩
  · exact .inl ⟨hversion, .inr ⟨rfl, rfl, htext⟩⟩
  · exact .inl ⟨hversion, .inl ⟨rfl, rfl, htext.symm⟩⟩
  · exact .inr ⟨rfl, by simpa using htext⟩

end Call

/-- The call that the request makes. -/
def Request.call? : Request → Option Call
  | .compile schema o query _ _ => some ⟨schema, o, query⟩
  | .cache _ => none

/-- Is nothing stored by the request but what it compiles? -/
def Request.storesCompiled : Request → Bool
  | .cache (.set ..) => false
  | _ => true

/-! ## Where entries come from -/

/-- The entry holds what one of the calls compiled. -/
def HoldsOf (calls : List Call) (e : Cache.Entry Compiled) : Prop :=
  ∃ call ∈ calls, (e.query, e.version) = call.place ∧
    (Compilation.fresh call.schema call.options call.query).2 = some e.value

theorem HoldsOf.mono {calls calls' : List Call} {e e' : Cache.Entry Compiled}
    (h : HoldsOf calls e) (hcalls : ∀ call ∈ calls, call ∈ calls') (hquery : e.query = e'.query)
    (hversion : e.version = e'.version) (hvalue : e.value = e'.value) : HoldsOf calls' e' := by
  obtain ⟨call, hcall, hplace, hfresh⟩ := h
  rw [hquery, hversion] at hplace
  rw [hvalue] at hfresh
  exact ⟨call, hcalls call hcall, hplace, hfresh⟩

section

variable {past : List Request} {cache : Cache Compiled}

/-- After one more request, every entry is what an earlier call or this one compiled. -/
theorem holdsOf_step (h : ∀ e ∈ cache.entries, HoldsOf (past.filterMap Request.call?) e)
    {request : Request} (hrequest : request.storesCompiled = true) :
    ∀ e ∈ (step cache request).2.entries,
      HoldsOf ((past ++ [request]).filterMap Request.call?) e := by
  intro e he
  have hpast : ∀ call ∈ past.filterMap Request.call?,
      call ∈ (past ++ [request]).filterMap Request.call? := fun _ hcall =>
    ((List.sublist_append_left past [request]).filterMap _).mem hcall
  cases request with
  | compile schema o query readAt storedAt =>
    replace he : e ∈ (compileText schema o query readAt storedAt cache).2.entries := he
    rcases mem_compileText he with ⟨e', he', hquery, hversion, hvalue⟩ | ⟨hquery, hversion, hfresh⟩
    · exact (h e' he').mono hpast hquery hversion hvalue
    · refine ⟨⟨schema, o, query⟩, ?_, Prod.ext hquery hversion, hfresh⟩
      exact List.mem_filterMap.mpr ⟨_, List.mem_append_right _ (List.mem_singleton_self _), rfl⟩
  | cache op =>
    replace he : e ∈ (cache.step op).2.entries := he
    rcases Cache.mem_step he with he | ⟨e', he', _, _, _, -, rfl⟩ | ⟨_, _, _, _, rfl, -⟩
    · exact (h e he).mono hpast rfl rfl rfl
    · exact (h e' he').mono hpast rfl rfl rfl
    · cases hrequest

/-- After a session, every entry is what one of its calls or an earlier one compiled. -/
theorem holdsOf_run (h : ∀ e ∈ cache.entries, HoldsOf (past.filterMap Request.call?) e)
    {requests : List Request} (hrequests : ∀ request ∈ requests, request.storesCompiled = true) :
    ∀ e ∈ (run cache requests).2.entries,
      HoldsOf ((past ++ requests).filterMap Request.call?) e := by
  induction requests generalizing cache past with
  | nil =>
    rw [List.append_nil]
    exact h
  | cons request requests ih =>
    have hstep := holdsOf_step h (hrequests request List.mem_cons_self)
    have hrest := ih hstep fun r hr => hrequests r (List.mem_cons_of_mem _ hr)
    rw [List.append_assoc] at hrest
    exact hrest

end

/-! ## The course of a session -/

/-- The cache that the request at `i` finds. -/
def before (cache : Cache Compiled) (requests : List Request) (i : Nat) : Cache Compiled :=
  (run cache (requests.take i)).2

section

variable {cache : Cache Compiled} {requests : List Request} {i : Nat} {request : Request}

theorem reply_eq (hi : requests[i]? = some request) :
    (run cache requests).1[i]? = some (step (before cache requests i) request).1 := by
  induction requests generalizing cache i with
  | nil => simp at hi
  | cons first requests ih =>
    cases i with
    | zero =>
      cases hi
      rfl
    | succ i => exact ih hi

theorem before_succ (hi : requests[i]? = some request) :
    before cache requests (i + 1) = (step (before cache requests i) request).2 := by
  induction requests generalizing cache i with
  | nil => simp at hi
  | cons first requests ih =>
    cases i with
    | zero =>
      cases hi
      rfl
    | succ i => exact ih hi

theorem config_compileText (schema : Option Schema) (o : Options) (query : String)
    (readAt storedAt : Int) (cache : Cache Compiled) :
    (compileText schema o query readAt storedAt cache).2.capacity = cache.capacity ∧
      (compileText schema o query readAt storedAt cache).2.ttl = cache.ttl := by
  obtain ⟨hcapacity, httl, -⟩ :=
    Cache.config_step cache (.get (o.cacheText query) o.schemaVersion readAt)
  obtain ⟨_, -, -, -, hcompile⟩ | ⟨-, hcompile⟩ :=
    compileText_cases schema o query readAt storedAt cache
  · rw [hcompile]
    exact ⟨hcapacity, httl⟩
  · rw [hcompile]
    cases (Compilation.fresh schema o query).2 with
    | none => exact ⟨hcapacity, httl⟩
    | some compiled =>
      obtain ⟨hcapacity', httl', -⟩ :=
        Cache.config_step (cache.get (o.cacheText query) o.schemaVersion readAt).2
          (.set (o.cacheText query) o.schemaVersion compiled storedAt)
      exact ⟨hcapacity'.trans hcapacity, httl'.trans httl⟩

/-- No session changes how its cache was set up. -/
theorem config_run (cache : Cache Compiled) (requests : List Request) :
    (run cache requests).2.capacity = cache.capacity ∧
      (run cache requests).2.ttl = cache.ttl := by
  induction requests generalizing cache with
  | nil => exact ⟨rfl, rfl⟩
  | cons request requests ih =>
    obtain ⟨hcapacity, httl⟩ := ih (step cache request).2
    have hstep : (step cache request).2.capacity = cache.capacity ∧
        (step cache request).2.ttl = cache.ttl := by
      cases request with
      | compile schema o query readAt storedAt =>
        exact config_compileText schema o query readAt storedAt cache
      | cache op =>
        obtain ⟨hcapacity, httl, -⟩ := Cache.config_step cache op
        exact ⟨hcapacity, httl⟩
    exact ⟨hcapacity.trans hstep.1, httl.trans hstep.2⟩

end

/-! ## A call after another -/

/-- What a call without diagnostics gives comes first in the cache from then on. -/
theorem head?_compileText {schema : Option Schema} {o : Options} {query : String}
    {readAt storedAt : Int} {cache : Cache Compiled} (hcapacity : cache.capacity ≠ 0)
    (hclean : (compileText schema o query readAt storedAt cache).1.diagnostics = []) :
    ∃ cached compiled time,
      (compileText schema o query readAt storedAt cache).1 =
        .ofCompiled schema o [] cached compiled ∧
      (compileText schema o query readAt storedAt cache).2.entries.head? =
        some ⟨o.cacheText query, Cache.versionOf o.schemaVersion, compiled, time⟩ ∧
      (time = readAt ∨ time = storedAt) := by
  cases hfound : (cache.get (o.cacheText query) o.schemaVersion readAt).1 with
  | some compiled =>
    rw [compileText_of_hit schema storedAt hfound]
    exact ⟨true, compiled, readAt, rfl, Cache.head?_entries_get hfound, .inl rfl⟩
  | none =>
    rw [compileText_of_miss schema storedAt hfound] at hclean ⊢
    obtain ⟨compiled, hkept⟩ := Compilation.exists_snd_fresh hclean
    have hconfig := Cache.config_step cache (.get (o.cacheText query) o.schemaVersion readAt)
    have hcapacity' : (cache.get (o.cacheText query) o.schemaVersion readAt).2.capacity ≠ 0 :=
      fun hzero => hcapacity (hconfig.1.symm.trans hzero)
    refine ⟨false, compiled, storedAt, Compilation.fresh_fst_of_snd hkept, ?_, .inr rfl⟩
    rw [hkept]
    exact Cache.head?_entries_set _ _ compiled storedAt hcapacity'

/-- A call with the place of the one before it is given the same condition, whatever the two are. -/
theorem compileText_repeats {a b : Call} (hplace : a.place = b.place) {readAt storedAt readAt' : Int}
    {cache : Cache Compiled} (hcapacity : cache.capacity ≠ 0)
    (hclean : (compileText a.schema a.options a.query readAt storedAt cache).1.diagnostics = [])
    (hread : readAt' - readAt ≤ cache.ttl) (hstored : readAt' - storedAt ≤ cache.ttl)
    (storedAt' : Int) :
    let first := compileText a.schema a.options a.query readAt storedAt cache
    let second := compileText b.schema b.options b.query readAt' storedAt' first.2
    second.1.sql = first.1.sql ∧ second.1.params = first.1.params := by
  intro first second
  obtain ⟨cached, compiled, time, hfirst, hhead, htime⟩ := head?_compileText hcapacity hclean
  obtain ⟨htext, hversion⟩ := Prod.mk.inj hplace
  rw [htext, hversion] at hhead
  have halive : readAt' - time ≤ first.2.ttl := by
    rw [(config_compileText a.schema a.options a.query readAt storedAt cache).2]
    rcases htime with rfl | rfl
    · exact hread
    · exact hstored
  have hsecond : second = _ :=
    compileText_of_hit b.schema storedAt' (Cache.get_of_head? hhead halive)
  rw [hsecond]
  replace hfirst : first.1 = .ofCompiled a.schema a.options [] cached compiled := hfirst
  rw [hfirst]
  exact ⟨rfl, rfl⟩

/-! ## Sessions -/

/-- What a call is answered with when all entries are those of calls that it does not clash with. -/
theorem compileText_of_holdsOf {calls : List Call} {cache : Cache Compiled}
    (h : ∀ e ∈ cache.entries, HoldsOf calls e) {call : Call}
    (hclash : ∀ a ∈ calls, ¬a.Clashes call) (readAt storedAt : Int) :
    let c := (compileText call.schema call.options call.query readAt storedAt cache).1
    let fresh := (Compilation.fresh call.schema call.options call.query).1
    (call.options.parameterized = false → c.params = []) ∧
    ((∀ a ∈ calls, a.schema = call.schema) → c.sql = fresh.sql ∧ c.params = fresh.params) := by
  intro c fresh
  obtain ⟨schema, o, query⟩ := call
  obtain ⟨e, he, htext, hversion, hcompile⟩ | ⟨-, hcompile⟩ :=
    compileText_cases schema o query readAt storedAt cache
  · have hc : c = .ofCompiled schema o [] true e.value := congrArg Prod.fst hcompile
    obtain ⟨⟨schema', o', query'⟩, ha, hplace, hfresh⟩ := h e he
    have hsame := Call.clashes_or_same (b := ⟨schema, o, query⟩)
      (hplace.symm.trans (Prod.ext htext hversion))
    obtain ⟨hmode, hquery⟩ := hsame.resolve_left (hclash _ ha)
    replace hquery : query' = query := hquery
    subst hquery
    rw [Compilation.fresh_snd_congr schema' hmode] at hfresh
    have hvalue := Compilation.fresh_fst_of_snd hfresh
    refine ⟨fun hinline => ?_, fun hschema => ?_⟩
    · have hparams := Compilation.params_fresh hinline schema' query'
      rw [hvalue] at hparams
      rw [hc]
      exact hparams
    · have hschema' : schema' = schema := hschema _ ha
      subst hschema'
      have hfresh' : fresh = .ofCompiled schema' o [] false e.value := hvalue
      rw [hc, hfresh']
      exact ⟨rfl, rfl⟩
  · have hc : c = fresh := congrArg Prod.fst hcompile
    rw [hc]
    exact ⟨fun hinline => Compilation.params_fresh hinline schema query, fun _ => ⟨rfl, rfl⟩⟩

/-- In every session, a call that clashes with no earlier one has no values beside its condition if
it is inline, and is given the condition and the values that it is given on an empty cache if all
calls are made for one schema. A call right after one that it clashes with, before that one's result
expires, is given that one's condition and values. -/
theorem run_modes (capacity ttl : Nat) (digest : String → UInt64) (ties : Nat → Nat)
    {requests : List Request} (hrequests : ∀ request ∈ requests, request.storesCompiled = true)
    {i : Nat} (call : Call) {readAt storedAt : Int}
    (hi : requests[i]? =
      some (.compile call.schema call.options call.query readAt storedAt)) :
    ∃ c, (run (.empty capacity ttl digest ties) requests).1[i]? = some (.compilation c) ∧
      ((∀ a ∈ (requests.take i).filterMap Request.call?, ¬a.Clashes call) →
        (call.options.parameterized = false → c.params = []) ∧
        ((∀ a ∈ requests.filterMap Request.call?, a.schema = call.schema) →
          ∀ cache : Cache Compiled, cache.isEmpty = true →
            let fresh := compileText call.schema call.options call.query readAt storedAt cache
            c.sql = fresh.1.sql ∧ c.params = fresh.1.params)) ∧
      (∀ (a : Call) (j : Nat) (readAt' storedAt' : Int) (d : Compilation),
        a.Clashes call → i = j + 1 →
        requests[j]? = some (.compile a.schema a.options a.query readAt' storedAt') →
        (run (.empty capacity ttl digest ties) requests).1[j]? = some (.compilation d) →
        d.diagnostics = [] → capacity ≠ 0 → readAt - readAt' ≤ ttl → readAt - storedAt' ≤ ttl →
        c.sql = d.sql ∧ c.params = d.params) := by
  let cache := before (.empty capacity ttl digest ties) requests i
  refine ⟨(compileText call.schema call.options call.query readAt storedAt cache).1, reply_eq hi,
    fun hclash => ?_, ?_⟩
  · have hbefore : ∀ e ∈ cache.entries,
        HoldsOf (([] ++ requests.take i).filterMap Request.call?) e :=
      holdsOf_run (fun e he => by cases he) fun r hr => hrequests r (List.mem_of_mem_take hr)
    obtain ⟨hinline, hsame⟩ := compileText_of_holdsOf hbefore hclash readAt storedAt
    refine ⟨hinline, fun hschema cache hempty => ?_⟩
    dsimp only
    rw [compileText_of_isEmpty call.schema call.options call.query readAt storedAt hempty]
    exact hsame fun a ha => hschema a (((List.take_sublist i requests).filterMap _).mem ha)
  · rintro a j readAt' storedAt' d hclash rfl hj hd hclean hcapacity hread hstored
    rw [reply_eq hj, Option.some.injEq] at hd
    cases hd
    have hcache : cache = _ := before_succ hj
    rw [hcache]
    obtain ⟨hcapacity', httl⟩ :=
      config_run (.empty capacity ttl digest ties) (requests.take j)
    refine compileText_repeats hclash.place_eq ?_ hclean ?_ ?_ storedAt
    · exact fun hzero => hcapacity (hcapacity'.symm.trans hzero)
    · exact httl ▸ hread
    · exact httl ▸ hstored

/-- One text in both modes, and a text that ends in the mark but is compiled for another version:
nothing clashes, and the last call is answered from the cache in its own mode. -/
theorem run_modes_apart :
    let requests : List Request :=
      [.compile none ⟨none, true, none⟩ "x = v" 0 0, .compile none ⟨none, false, none⟩ "x = v" 1 1,
        .compile none ⟨some "v2", false, none⟩ "x = v\x00parameterized" 2 2, .cache .stats,
        .compile none ⟨some "default", true, some "t"⟩ "x = v" 9 9]
    let call : Call := ⟨none, ⟨some "default", true, some "t"⟩, "x = v"⟩
    (∀ request ∈ requests, request.storesCompiled = true) ∧
    (∀ a ∈ (requests.take 4).filterMap Request.call?, ¬a.Clashes call) ∧
    (∀ a ∈ requests.filterMap Request.call?, a.schema = call.schema) ∧
    ∃ c, (run (.empty 3 10) requests).1[4]? = some (.compilation c) ∧ c.cached = true ∧
      c.sql = (compileText none call.options "x = v" 9 9 (.empty 3 10)).1.sql ∧
      c.params = (compileText none call.options "x = v" 9 9 (.empty 3 10)).1.params := by
  intro requests call
  have hrequests : ∀ request ∈ requests, request.storesCompiled = true := by decide +kernel
  have hclash : ∀ a ∈ (requests.take 4).filterMap Request.call?, ¬a.Clashes call := by
    decide +kernel
  have hschema : ∀ a ∈ requests.filterMap Request.call?, a.schema = call.schema := by
    decide +kernel
  have hcached : ((run (.empty 3 10) requests).1[4]?.bind Reply.compilation?).any (·.cached) =
      true := by decide +kernel
  have hempty : (Cache.empty 3 10 : Cache Compiled).isEmpty = true := rfl
  obtain ⟨c, hreply, happart, -⟩ :=
    run_modes 3 10 Text.digest (fun _ => 0) hrequests (i := 4) call rfl
  rw [hreply] at hcached
  exact ⟨hrequests, hclash, hschema, c, hreply, hcached,
    (happart hclash).2 hschema (.empty 3 10) hempty⟩

/-- The conditions that a session gives, with the values beside them. -/
def conditions (replies : List Reply) : List (String × List Literal) :=
  (replies.filterMap Reply.compilation?).map fun c => (c.sql, c.params)

/-- An inline call is given a placeholder and a value beside it, and a parameterized one a value in
its condition, though each is answered as its mode demands in a session of its own. -/
theorem run_modes_mixed :
    let parameterized : Request := .compile none ⟨none, true, none⟩ "x = v" 0 0
    let inline : Request := .compile none ⟨none, false, none⟩ "x = v\x00parameterized" 1 1
    let session := fun requests => conditions (run (.empty 10 10) requests).1
    session [parameterized] = [("`x` = ?", [.string "v"])] ∧
    session [inline] = [("`x` = 'v\x00parameterized'", [])] ∧
    session [parameterized, inline] =
      [("`x` = ?", [.string "v"]), ("`x` = ?", [.string "v"])] ∧
    session [inline, parameterized] =
      [("`x` = 'v\x00parameterized'", []), ("`x` = 'v\x00parameterized'", [])] := by
  decide +kernel

end Session

end LogQuery
