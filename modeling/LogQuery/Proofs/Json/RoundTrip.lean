import LogQuery.Json.Results
import LogQuery.Proofs.Filter.Truth

/-!
# Results written as JSON are read back

Queries, compiled queries and compilations are read back from the JSON value that they are written
as, whether the members of its objects keep the order in which they were written or are put in the
order of their names. A literal says of itself only what JSON says of a value: whether it is a
string, an integer, a floating-point number, a boolean or null.

* `lookup_arranged`: an object has the same members in both orders;
* `Filter.readsAs_toJson`: a filter is read back, wherever it stands;
* `ofJson?_arranged_toJson`: queries and what contains them are read back.
-/

namespace LogQuery

/-! ## Arrangements of a value -/

namespace Json

/-- The value with the members of its objects as they stand, or in the order of their names. -/
def arranged (byName : Bool) (j : Json) : Json := if byName then j.sorted else j

/-- The members of an object with their values arranged, as they stand or in the order of their
names. -/
def arrangedMembers (byName : Bool) (members : List (String × Json)) : List (String × Json) :=
  if byName then sortedMembers members else members

theorem arranged_object (byName : Bool) (members : List (String × Json)) :
    (object members).arranged byName = object (arrangedMembers byName members) := by
  cases byName
  · rfl
  · rw [arranged, if_pos rfl, sorted]
    rfl

theorem sortedItems_eq (items : List Json) : sortedItems items = items.map sorted := by
  induction items with
  | nil => rfl
  | cons item rest ih => rw [sortedItems, ih, List.map_cons]

theorem arranged_array (byName : Bool) (items : List Json) :
    (array items).arranged byName = array (items.map (arranged byName)) := by
  cases byName
  · show array items = array (items.map id)
    rw [List.map_id]
  · show (array items).sorted = array (items.map sorted)
    rw [sorted, sortedItems_eq]

theorem mem_insertMember {name : String} {member : String × Json} {members : List (String × Json)}
    (h : name ∈ (insertMember member members).map Prod.fst) :
    name = member.1 ∨ name ∈ members.map Prod.fst := by
  induction members with
  | nil => simpa [insertMember] using h
  | cons first rest ih =>
    rw [insertMember] at h
    split at h
    · simpa using h
    · rw [List.map_cons, List.mem_cons] at h
      rcases h with h | h
      · exact .inr (by rw [h]; exact List.mem_cons_self)
      · exact (ih h).imp_right (List.mem_cons_of_mem _)

theorem mem_sortedMembers {name : String} {members : List (String × Json)}
    (h : name ∈ (sortedMembers members).map Prod.fst) : name ∈ members.map Prod.fst := by
  induction members with
  | nil => exact h
  | cons first rest ih =>
    rw [sortedMembers] at h
    rcases mem_insertMember h with rfl | h
    · exact List.mem_cons_self
    · exact List.mem_cons_of_mem _ (ih h)

/-- A member is found wherever it was put, if no other has its name. -/
theorem lookup_insertMember {member : String × Json} {members : List (String × Json)}
    (h : member.1 ∉ members.map Prod.fst) (name : String) :
    (insertMember member members).lookup name = (member :: members).lookup name := by
  induction members with
  | nil => rfl
  | cons first rest ih =>
    obtain ⟨n, v⟩ := member
    obtain ⟨m, w⟩ := first
    rw [List.map_cons, List.mem_cons, not_or] at h
    rw [insertMember]
    split
    · rfl
    · rw [List.lookup_cons, ih h.2, List.lookup_cons, List.lookup_cons, List.lookup_cons]
      cases hm : name == m with
      | false => rfl
      | true =>
        have hn : (name == n) = false := by
          rw [beq_iff_eq.mp hm]
          exact beq_false_of_ne (Ne.symm h.1)
        rw [hn]

theorem lookup_sortedMembers {members : List (String × Json)} (h : (members.map Prod.fst).Nodup)
    (name : String) :
    (sortedMembers members).lookup name = (members.lookup name).map sorted := by
  induction members with
  | nil => rfl
  | cons first rest ih =>
    obtain ⟨n, v⟩ := first
    rw [List.map_cons, List.nodup_cons] at h
    have hnew : (n, v.sorted).1 ∉ (sortedMembers rest).map Prod.fst := fun hmem =>
      h.1 (mem_sortedMembers hmem)
    rw [sortedMembers, lookup_insertMember hnew, List.lookup_cons, List.lookup_cons, ih h.2]
    cases name == n <;> rfl

/-- An object has the same members in both orders. -/
theorem lookup_arranged {members : List (String × Json)} (h : (members.map Prod.fst).Nodup)
    (byName : Bool) (name : String) :
    (arrangedMembers byName members).lookup name =
      (members.lookup name).map (arranged byName) := by
  cases byName
  · show members.lookup name = (members.lookup name).map id
    rw [Option.map_id, id]
  · exact lookup_sortedMembers h name

/-! ## Reading parts back -/

/-- The value is read as `a`, whatever the order of its members. -/
def ReadsAs {α : Type} (f : Json → Option α) (j : Json) (a : α) : Prop :=
  ∀ byName, f (j.arranged byName) = some a

section

variable {α : Type} {f : Json → Option α} {g : α → Json}

theorem readsAs_string (s : String) : ReadsAs string? (string s) s := by
  intro byName
  cases byName <;> rfl

theorem readsAs_bool (b : Bool) : ReadsAs bool? (bool b) b := by
  intro byName
  cases byName <;> rfl

theorem readsAs_nat {n : Nat} (h : n < Nat.pow 2 64) : ReadsAs nat? (nat n) n := by
  have hread : nat? (nat n) = some n := by
    have hlt : (n : Int) < Int.pow 2 64 := Int.ofNat_lt.mpr h
    rw [nat, nat?, if_pos ⟨Int.natCast_nonneg n, hlt⟩]
    rfl
  intro byName
  cases byName
  · exact hread
  · exact hread

theorem mapM_readsAs {as : List α} (h : ∀ a ∈ as, ReadsAs f (g a) a) (byName : Bool) :
    ((as.map g).map (arranged byName)).mapM f = some as := by
  induction as with
  | nil => rfl
  | cons a as ih =>
    rw [List.map_cons, List.map_cons, List.mapM_cons, h a List.mem_cons_self byName,
      ih fun b hb => h b (List.mem_cons_of_mem _ hb)]
    rfl

theorem readsAs_list {as : List α} (h : ∀ a ∈ as, ReadsAs f (g a) a) :
    ReadsAs (list? f) (ofList g as) as := by
  intro byName
  rw [ofList, arranged_array]
  exact mapM_readsAs h byName

/-- A value that may be absent is told from an absent one if it is not written as null. -/
theorem readsAs_option {o : Option α}
    (h : ∀ a ∈ o, ReadsAs f (g a) a ∧ ∀ byName, (g a).arranged byName ≠ null) :
    ReadsAs (optional? f) (ofOption g o) o := by
  intro byName
  cases o with
  | none => cases byName <;> rfl
  | some a =>
    obtain ⟨hread, hnull⟩ := h a rfl
    show optional? f ((g a).arranged byName) = some (some a)
    rw [optional?, hread byName]
    · rfl
    · exact hnull byName

/-- A member of an enumeration is read by its name, if no earlier one has it. -/
theorem readsAs_oneOf {all : List α} {name : α → String} (place : Place) {a : α}
    (h : all.find? (name · = name a) = some a) :
    ReadsAs (oneOf? place all name) (string (name a)) a := by
  intro byName
  cases byName <;> exact h

/-- The kind of a value is read back. -/
theorem readsAs_kind {place : Place} {all : List α} {name : α → String} {kind : α}
    (h : kind? place all name (string (name kind)) = some kind) :
    ReadsAs (kind? place all name) (string (name kind)) kind := by
  intro byName
  cases byName <;> exact h

theorem arranged_object_ne_null (members : List (String × Json)) (byName : Bool) :
    (object members).arranged byName ≠ null := by
  rw [arranged_object]
  exact nofun

theorem arranged_string_ne_null (s : String) (byName : Bool) :
    (string s).arranged byName ≠ null := by
  cases byName <;> exact nofun

end

section

variable {α : Type} {f : Json → Option α} {members : List (String × Json)}
  {j : Json} {a : α}

/-- A field of a record is read back. -/
theorem require_arranged (name : String) (hnames : (members.map Prod.fst).Nodup)
    (hmember : members.lookup name = some j) (h : ReadsAs f j a) (byName : Bool) :
    require (arrangedMembers byName members) name f = some a := by
  rw [require, lookup_arranged hnames, hmember]
  exact h byName

theorem default_arranged (name : String) {b : α} (hnames : (members.map Prod.fst).Nodup)
    (hmember : members.lookup name = some j) (h : ReadsAs f j a) (byName : Bool) :
    default (arrangedMembers byName members) name f b = some a := by
  rw [default, lookup_arranged hnames, hmember]
  exact h byName

end

end Json

open Json

/-! ## Literals and fields -/

/-- Is the literal one that JSON has: an integer of 64 bits with a sign, and no infinity? -/
def Literal.isExpressible : Literal → Bool
  | integer i => decide (-Int.pow 2 63 ≤ i ∧ i < Int.pow 2 63)
  | float x => x.isFinite
  | _ => true

theorem Literal.readsAs_toJson {l : Literal} (h : l.isExpressible = true) :
    ReadsAs ofJson? l.toJson l := by
  have hread : ofJson? l.toJson = some l := by
    cases l with
    | integer i =>
      rw [isExpressible, decide_eq_true_eq] at h
      rw [toJson, ofJson?, if_pos h]
    | float x =>
      rw [isExpressible] at h
      rw [toJson, ofBinary64, if_pos h]
      rfl
    | string s => rfl
    | boolean b => rfl
    | null => rfl
  have harranged : l.toJson.sorted = l.toJson := by
    cases l with
    | float x =>
      rw [isExpressible] at h
      rw [toJson, ofBinary64, if_pos h]
      rfl
    | _ => rfl
  intro byName
  cases byName
  · exact hread
  · exact (congrArg ofJson? harranged).trans hread

theorem Field.readsAs_toJson (place : Place) (field : Field) :
    ReadsAs (ofJsonAt? place) field.toJson field := by
  intro byName
  cases field with
  | simple name =>
    have hnames : ([("type", Json.string Kind.simple.name), ("name", .string name)].map
        Prod.fst).Nodup := by simp
    have hkind := require_arranged "type" hnames rfl
      (readsAs_kind (Kind.kind?_name place .simple)) byName
    have hname := require_arranged "name" hnames rfl (readsAs_string name) byName
    rw [toJson, arranged_object, ofJsonAt?, tagged?, hkind]
    simp [fields?, hname]
  | nested base path =>
    have hnames : ([("type", Json.string Kind.nested.name), ("base", .string base),
        ("path", .ofList .string path)].map Prod.fst).Nodup := by simp
    have hkind := require_arranged "type" hnames rfl
      (readsAs_kind (Kind.kind?_name place .nested)) byName
    have hbase := require_arranged "base" hnames rfl (readsAs_string base) byName
    have hpath := require_arranged "path" hnames rfl
      (readsAs_list fun segment _ => readsAs_string segment) byName
    rw [toJson, arranged_object, ofJsonAt?, tagged?, hkind]
    simp [fields?, hbase, hpath]

/-! ## Filters -/

theorem Comparison.readsAs_name (place : Place) (comparison : Comparison) :
    ReadsAs (oneOf? place all name) (.string comparison.name) comparison :=
  readsAs_oneOf place (by cases comparison <;> decide)

theorem Connective.readsAs_name (place : Place) (op : Connective) :
    ReadsAs (oneOf? place all name) (.string op.name) op :=
  readsAs_oneOf place (by cases op <;> decide)

/-- The members of a condition are read back from among others. -/
theorem Condition.ofJsonAt?_tagged (place : Place) {c : Condition}
    (h : c.value.isExpressible = true) (tag : Json) (byName : Bool) :
    ofJsonAt? place (.object (arrangedMembers byName (("type", tag) :: c.toMembers))) = some c := by
  have hnames : ((("type", tag) :: c.toMembers).map Prod.fst).Nodup := by simp [toMembers]
  have hfield := require_arranged "field" hnames rfl (Field.readsAs_toJson place c.field) byName
  have hcomparison := require_arranged "operator" hnames rfl
    (Comparison.readsAs_name place c.comparison) byName
  have hvalue := require_arranged "value" hnames rfl (Literal.readsAs_toJson h) byName
  have hquoted := default_arranged "quoted" (b := false) hnames rfl (readsAs_bool c.quoted) byName
  simp [ofJsonAt?, fields?, hfield, hcomparison, hvalue, hquoted]

namespace Filter

theorem ofJsons?_eq (items : List Json) : ofJsons? items = items.mapM (ofJsonAt? .inner) := by
  induction items with
  | nil => simp [ofJsons?]
  | cons item rest ih =>
    rw [ofJsons?, ih, List.mapM_cons]
    cases ofJsonAt? .inner item with
    | none => rfl
    | some child => cases rest.mapM (ofJsonAt? .inner) <;> rfl

theorem ofChildren?_eq (members : List (String × Json)) :
    ofChildren? members = require members "children" (list? (ofJsonAt? .inner)) := by
  induction members with
  | nil => simp [ofChildren?, require]
  | cons member rest ih =>
    obtain ⟨name, value⟩ := member
    have hstep : ofChildren? ((name, value) :: rest) =
        if name = "children" then list? (ofJsonAt? .inner) value else ofChildren? rest := by
      cases value <;> simp [ofChildren?, list?, ofJsons?_eq]
    rw [hstep, require, List.lookup_cons]
    by_cases hname : name = "children"
    · rw [if_pos hname, hname]
      rfl
    · rw [if_neg hname, beq_false_of_ne (Ne.symm hname), ih]
      rfl

/-- The children of a node are read back. -/
theorem ofChildren?_arranged {members : List (String × Json)}
    (hnames : (members.map Prod.fst).Nodup) {children : List Filter}
    (hmember : members.lookup "children" = some (.array (toJsons children)))
    (h : ∀ child ∈ children, ReadsAs (ofJsonAt? .inner) child.toJson child) (byName : Bool) :
    ofChildren? (arrangedMembers byName members) = some children := by
  rw [toJsons_eq] at hmember
  rw [ofChildren?_eq]
  exact require_arranged "children" hnames hmember (readsAs_list h) byName

/-- A filter is read back, wherever it stands. -/
theorem readsAs_toJson {f : Filter} (h : ∀ c ∈ f.conditions, c.value.isExpressible = true)
    (place : Place) : ReadsAs (ofJsonAt? place) f.toJson f := by
  intro byName
  induction f using Filter.byChildren generalizing place byName with
  | condition c =>
    have hnames : ((("type", Json.string Kind.condition.name) :: c.toMembers).map
        Prod.fst).Nodup := by simp [Condition.toMembers]
    have hkind := require_arranged "type" hnames rfl
      (readsAs_kind (Kind.kind?_name place .condition)) byName
    rw [toJson, arranged_object, ofJsonAt?, hkind]
    dsimp only
    rw [Condition.ofJsonAt?_tagged .inner (h c List.mem_cons_self)]
    rfl
  | logical op children ih =>
    have hnames : ([("type", Json.string Kind.logical.name), ("operator", .string op.name),
        ("children", .array (toJsons children))].map Prod.fst).Nodup := by simp
    have hkind := require_arranged "type" hnames rfl
      (readsAs_kind (Kind.kind?_name place .logical)) byName
    have hop := require_arranged "operator" hnames rfl (Connective.readsAs_name .inner op) byName
    have hchildren := ofChildren?_arranged hnames rfl
      (fun child hmem => ih child hmem (fun c hc => h c (mem_conditionsOf hmem hc)) .inner) byName
    rw [toJson, arranged_object, ofJsonAt?, hkind]
    dsimp only
    rw [hop]
    dsimp only
    rw [hchildren]
    rfl
  | group children ih =>
    have hnames : ([("type", Json.string Kind.group.name),
        ("children", .array (toJsons children))].map Prod.fst).Nodup := by simp
    have hkind := require_arranged "type" hnames rfl
      (readsAs_kind (Kind.kind?_name place .group)) byName
    have hchildren := ofChildren?_arranged hnames rfl
      (fun child hmem => ih child hmem (fun c hc => h c (mem_conditionsOf hmem hc)) .inner) byName
    rw [toJson, arranged_object, ofJsonAt?, hkind]
    dsimp only
    rw [hchildren]
    rfl

theorem exists_toJson (f : Filter) : ∃ members, f.toJson = .object members := by
  cases f <;> exact ⟨_, by rw [toJson]⟩

end Filter

/-! ## Queries and results -/

/-- Are all values that the query compares with ones that JSON has? -/
def Query.isExpressible (q : Query) : Bool :=
  q.filter.all (·.conditions.all (·.value.isExpressible))

def Compiled.isExpressible (c : Compiled) : Bool :=
  c.query.isExpressible && c.params.all Literal.isExpressible

/-- Do line and column have at most 64 bits? -/
def Position.isExpressible (p : Position) : Bool :=
  decide (p.line < Nat.pow 2 64 ∧ p.column < Nat.pow 2 64)

def Compilation.isExpressible (c : Compilation) : Bool :=
  c.query.all Query.isExpressible && c.params.all Literal.isExpressible &&
    c.diagnostics.all (·.position.isExpressible)

theorem Query.readsAs_toJson {q : Query} (h : q.isExpressible = true) :
    ReadsAs ofJson? q.toJson q := by
  intro byName
  obtain ⟨filter, select⟩ := q
  have hnames : ([("where_clause", ofOption Filter.toJson filter),
      ("select", ofList Field.toJson select)].map Prod.fst).Nodup := by simp
  have hfilter : ReadsAs (optional? Filter.ofJson?) (ofOption Filter.toJson filter) filter := by
    refine readsAs_option fun f hf => ⟨Filter.readsAs_toJson ?_ .outer, ?_⟩
    · rw [Option.mem_def.mp hf] at h
      exact List.all_eq_true.mp h
    · obtain ⟨members, hmembers⟩ := f.exists_toJson
      rw [hmembers]
      exact arranged_object_ne_null members
  have hfields : ReadsAs (list? Field.ofJson?) (ofList Field.toJson select) select :=
    readsAs_list fun field _ => Field.readsAs_toJson .outer field
  have hwhere := default_arranged "where_clause" (b := none) hnames rfl hfilter byName
  have hselect := default_arranged "select" (b := []) hnames rfl hfields byName
  rw [toJson, arranged_object, ofJson?]
  simp [fields?, hwhere, hselect]

theorem Literal.readsAs_toJsons {ls : List Literal} (h : ls.all isExpressible = true) :
    ReadsAs (list? ofJson?) (ofList toJson ls) ls :=
  readsAs_list fun l hl => readsAs_toJson (List.all_eq_true.mp h l hl)

theorem Compiled.readsAs_toJson {c : Compiled} (h : c.isExpressible = true) :
    ReadsAs ofJson? c.toJson c := by
  intro byName
  rw [isExpressible, Bool.and_eq_true] at h
  have hnames : ([("ast", c.query.toJson), ("sql", .string c.sql),
      ("params", ofList Literal.toJson c.params)].map Prod.fst).Nodup := by simp
  have hquery := require_arranged "ast" hnames rfl (Query.readsAs_toJson h.1) byName
  have hsql := require_arranged "sql" hnames rfl (readsAs_string c.sql) byName
  have hparams := require_arranged "params" hnames rfl (Literal.readsAs_toJsons h.2) byName
  rw [toJson, arranged_object, ofJson?]
  simp [fields?, hquery, hsql, hparams]

theorem Position.readsAs_toJson {p : Position} (h : p.isExpressible = true) :
    ReadsAs ofJson? p.toJson p := by
  intro byName
  rw [isExpressible, decide_eq_true_eq] at h
  have hnames : ([("line", nat p.line), ("column", nat p.column)].map Prod.fst).Nodup := by simp
  have hline := require_arranged "line" hnames rfl (readsAs_nat h.1) byName
  have hcolumn := require_arranged "column" hnames rfl (readsAs_nat h.2) byName
  rw [toJson, arranged_object, ofJson?]
  simp [fields?, hline, hcolumn]

theorem Diagnostic.readsAs_toJson {d : Diagnostic} (h : d.position.isExpressible = true) :
    ReadsAs ofJson? d.toJson d := by
  intro byName
  have hnames : ([("code", Json.string d.code), ("message", .string d.message),
      ("position", d.position.toJson), ("severity", .string d.severity.name),
      ("suggestion", .string d.suggestion)].map Prod.fst).Nodup := by simp
  have hseverity : Severity.all.find? (Severity.name · = d.severity.name) = some d.severity := by
    cases d.severity <;> decide
  have hcode := require_arranged "code" hnames rfl (readsAs_string d.code) byName
  have hmessage := require_arranged "message" hnames rfl (readsAs_string d.message) byName
  have hposition := require_arranged "position" hnames rfl (Position.readsAs_toJson h) byName
  have hseverity := require_arranged "severity" hnames rfl (readsAs_oneOf .outer hseverity) byName
  have hsuggestion := require_arranged "suggestion" hnames rfl (readsAs_string d.suggestion) byName
  rw [toJson, arranged_object, ofJson?]
  simp [fields?, hcode, hmessage, hposition, hseverity, hsuggestion]

theorem Compilation.readsAs_toJson {c : Compilation} (h : c.isExpressible = true) :
    ReadsAs ofJson? c.toJson c := by
  intro byName
  rw [isExpressible, Bool.and_eq_true, Bool.and_eq_true] at h
  obtain ⟨⟨hquery, hparams⟩, hdiagnostics⟩ := h
  have hnames : (c.toMembers.map Prod.fst).Nodup := by simp [toMembers]
  have hast : ReadsAs (optional? Query.ofJson?) (ofOption Query.toJson c.query) c.query := by
    refine readsAs_option fun q hq => ⟨Query.readsAs_toJson ?_, arranged_object_ne_null _⟩
    rw [Option.mem_def.mp hq] at hquery
    exact hquery
  have hselect : ReadsAs (optional? string?) (ofOption .string c.selectClause) c.selectClause :=
    readsAs_option fun s _ => ⟨readsAs_string s, arranged_string_ne_null s⟩
  have hquery := default_arranged "ast" (b := none) hnames rfl hast byName
  have hsql := require_arranged "sql" hnames rfl (readsAs_string c.sql) byName
  have hparams := require_arranged "params" hnames rfl (Literal.readsAs_toJsons hparams) byName
  have hselect := default_arranged "select_clause" (b := none) hnames rfl hselect byName
  have hdiagnostics := require_arranged "diagnostics" hnames rfl
    (readsAs_list fun d hd => Diagnostic.readsAs_toJson (List.all_eq_true.mp hdiagnostics d hd))
    byName
  have hcached := require_arranged "cached" hnames rfl (readsAs_bool c.cached) byName
  rw [toJson, arranged_object, ofJson?]
  simp [fields?, hquery, hsql, hparams, hselect, hdiagnostics, hcached]

/-- Queries, compiled queries and compilations are read back from the JSON that they are written as,
whatever the order of its members. -/
theorem ofJson?_arranged_toJson (byName : Bool) :
    (∀ q : Query, q.isExpressible = true → Query.ofJson? (q.toJson.arranged byName) = some q) ∧
    (∀ c : Compiled, c.isExpressible = true →
      Compiled.ofJson? (c.toJson.arranged byName) = some c) ∧
    (∀ c : Compilation, c.isExpressible = true →
      Compilation.ofJson? (c.toJson.arranged byName) = some c) :=
  ⟨fun _ h => Query.readsAs_toJson h byName, fun _ h => Compiled.readsAs_toJson h byName,
    fun _ h => Compilation.readsAs_toJson h byName⟩

/-- Nodes without children, a field without a path, a number next to its text, the smallest integer,
and fields named like the members that hold them. -/
theorem ofJson?_arranged_toJson_odd :
    let q : Query := ⟨some (.group [.logical .or [], .group [],
        .condition ⟨.nested "type" [], .equal, .float (.ofNat 1), false⟩,
        .condition ⟨.simple "children", .less, .integer (-9223372036854775808), true⟩,
        .condition ⟨.simple "", .notContains, .string "null", false⟩,
        .condition ⟨.nested "a" ["", "b"], .contains, .null, true⟩]), [.nested "select" []]⟩
    let params : List Literal := [.integer 1, .float (.ofNat 1), .string "1", .boolean true, .null]
    let c : Compilation := ⟨some q, "", params, some "",
      [⟨"PARSE_ERROR", "", ⟨1, 18446744073709551615⟩, .warning, ""⟩], true⟩
    (c.isExpressible = true ∧ Compilation.ofJson? c.toJson.sorted = some c) ∧
    ((⟨q, "", params⟩ : Compiled).isExpressible = true ∧
      Compiled.ofJson? (Compiled.toJson ⟨q, "", params⟩) = some ⟨q, "", params⟩) ∧
    q.isExpressible = true ∧ Query.ofJson? q.toJson = some q := by
  intro q params c
  have hc : c.isExpressible = true := by decide +kernel
  have hcompiled : (⟨q, "", params⟩ : Compiled).isExpressible = true := by decide +kernel
  have hq : q.isExpressible = true := by decide +kernel
  obtain ⟨hquery, hcompiledRead, -⟩ := ofJson?_arranged_toJson false
  exact ⟨⟨hc, (ofJson?_arranged_toJson true).2.2 c hc⟩, ⟨hcompiled, hcompiledRead _ hcompiled⟩, hq,
    hquery q hq⟩

end LogQuery
