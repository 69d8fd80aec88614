import LogQuery.Proofs.Session.Compiling

/-!
# Which texts have a query

A row of tokens has no query exactly if one of its faults is fatal, so that the three ways to look
at a text, `Query.ofText`, `validate` and `compileText`, reject the same ones:

* `settled_readExpression` and its companions: every way to give up records a fatal fault, and
  whatever is read to its end records none;
* `isNone_ofTokens`: the same for whole queries, whatever is read after the first fatal fault;
* `isNone_query?`, `ofText_eq`: a text is rejected, with its diagnostics, exactly if one of these is
  an error.
-/

namespace LogQuery

theorem Outcome.isFatal_append (faults faults' : List (Located SyntaxFault)) :
    isFatal (faults ++ faults') = (isFatal faults || isFatal faults') :=
  List.any_append

/-! ## Readings -/

namespace Reading

variable {α β : Type}

/-- The reading gives up exactly if one of its faults is fatal. -/
def Settled (r : Reading α) : Prop := r.value.isNone = Outcome.isFatal r.faults

theorem settled_done (a : α) (rest : List Token) : (done a rest).Settled := rfl

theorem settled_fail {fault : SyntaxFault} (h : fault.isRecoverable = false) (position : Position)
    (rest : List Token) : (fail fault position rest : Reading α).Settled := by
  simp [Settled, fail, Outcome.isFatal, h]

theorem Settled.after {r : Reading α} {faults : List (Located SyntaxFault)} (hr : r.Settled)
    (h : Outcome.isFatal faults = false) : (r.after faults).Settled := by
  rw [Settled, Reading.after, Outcome.isFatal_append, h, Bool.false_or]
  exact hr

theorem Settled.bind {r : Reading α} {next : α → List Token → Reading β} (hr : r.Settled)
    (hnext : ∀ a, r.value = some a → (next a r.rest).Settled) : (r.bind next).Settled := by
  rw [Settled] at hr
  unfold Reading.bind
  split
  · rename_i hvalue
    rw [hvalue] at hr
    exact hr
  · rename_i a hvalue
    rw [hvalue] at hr
    exact (hnext a hvalue).after hr.symm

end Reading

open Reading (settled_done settled_fail)

theorem settled_readValue (field : Field) (comparison : Comparison) (operator : Token)
    (ts : List Token) : (readValue field comparison operator ts).Settled := by
  cases ts with
  | nil => exact settled_fail rfl _ _
  | cons t rest =>
    rw [readValue]
    split
    · exact settled_done _ _
    · exact settled_fail rfl _ _

theorem settled_readCondition (field : Field) (key : Token) (ts : List Token) :
    (readCondition field key ts).Settled := by
  cases ts with
  | nil => exact settled_fail rfl _ _
  | cons t rest =>
    rw [readCondition]
    split
    · split
      · exact settled_fail rfl _ _
      · exact settled_readValue ..
    · exact settled_fail rfl _ _

mutual

theorem settled_readExpression (last : Position) (depth : Nat) (ts : List Token) :
    (readExpression last depth ts).Settled := by
  rw [readExpression_eq]
  refine (settled_readPrimary last depth ts).bind fun left hvalue => ?_
  have hlength := (shorter_readPrimary last depth ts).2 (by rw [hvalue]; rfl)
  exact settled_readChain last depth left _
termination_by 5 * ts.length + 3
decreasing_by all_goals omega

theorem settled_readChain (last : Position) (depth : Nat) (left : Filter) (ts : List Token) :
    (readChain last depth left ts).Settled := by
  rw [readChain_eq]
  match ts with
  | [] => exact settled_done _ _
  | t :: rest =>
    dsimp only
    split
    · split
      · exact settled_fail rfl _ _
      · exact settled_readLink last depth left _ t.position rest
    · -- a key where a connective is missing: the one fault that is not fatal
      exact (settled_readLink last depth left .and t.position (t :: rest)).after rfl
    · exact settled_done _ _
termination_by 5 * ts.length + 2
decreasing_by
  all_goals
    simp only [List.length_cons]
    omega

theorem settled_readLink (last : Position) (depth : Nat) (left : Filter) (op : Connective)
    (position : Position) (ts : List Token) :
    (readLink last depth left op position ts).Settled := by
  have hlength : ∀ depth a, (readPrimary last depth ts).value = some a →
      (readPrimary last depth ts).rest.length < ts.length := fun depth a hvalue =>
    (shorter_readPrimary last depth ts).2 (by rw [hvalue]; rfl)
  rw [readLink_eq]
  split
  · refine (settled_readPrimary last depth ts).bind fun right hvalue => ?_
    have := hlength depth right hvalue
    exact settled_readChain last depth (.join op left right) _
  · split
    · exact settled_fail rfl _ _
    · refine (settled_readPrimary last (depth + 1) ts).bind fun right hvalue => ?_
      have := hlength (depth + 1) right hvalue
      exact settled_readChain last (depth + 1) (.join op left right) _
termination_by 5 * ts.length + 1
decreasing_by all_goals omega

theorem settled_readPrimary (last : Position) (depth : Nat) (ts : List Token) :
    (readPrimary last depth ts).Settled := by
  rw [readPrimary_eq]
  match ts with
  | [] => exact settled_fail rfl _ _
  | t :: rest =>
    dsimp only
    split
    · split
      · split
        · exact settled_fail rfl _ _
        · exact settled_readMembers last (depth + 1) t [] rest
      · exact settled_fail rfl _ _
    · exact settled_readCondition ..
    · split
      · exact settled_readCondition ..
      · exact settled_fail rfl _ _
    · exact settled_fail rfl _ _
termination_by 5 * ts.length
decreasing_by
  simp only [List.length_cons]
  omega

theorem settled_readMembers (last : Position) (depth : Nat) (opening : Token)
    (members : List Filter) (ts : List Token) :
    (readMembers last depth opening members ts).Settled := by
  rw [readMembers_eq]
  match ts with
  | [] => exact settled_fail rfl _ _
  | t :: rest =>
    dsimp only
    split
    · split
      · exact settled_fail rfl _ _
      · exact settled_done _ _
    · split
      · exact settled_fail rfl _ _
      · refine (settled_readExpression last depth (t :: rest)).bind fun member hvalue => ?_
        have hlength := (shorter_readExpression last depth (t :: rest)).2 (by rw [hvalue]; rfl)
        exact settled_readMembers last depth opening (members ++ [member]) _
termination_by 5 * ts.length + 4
decreasing_by
  all_goals
    simp only [List.length_cons] at *
    omega

end

/-! ## Queries -/

/-- A fault among selected fields is fatal. -/
theorem faults_of_readSelect {separator : Token} {ts : List Token}
    (h : Outcome.isFatal (readSelect separator ts).2 = false) :
    (readSelect separator ts).2 = [] := by
  fun_induction readSelect separator ts with
  | case1 => cases h
  | case2 => cases h
  | case3 => rfl
  | case4 => cases h
  | case5 _ t s rest field hfield hcomma r ih => exact ih h
  | case6 => cases h

/-- A fault in what follows a filter is fatal. -/
theorem faults_of_readTail {ts : List Token} (h : Outcome.isFatal (readTail ts).2 = false) :
    (readTail ts).2 = [] := by
  cases ts with
  | nil => rfl
  | cons t rest =>
    rw [readTail] at h ⊢
    split at h
    · rename_i hpipe
      rw [if_pos hpipe]
      exact faults_of_readSelect h
    · split at h <;> cases h

theorem Query.isNone_assemble (filter : Option Filter) (faults : List (Located SyntaxFault))
    (ts : List Token) :
    (assemble filter faults ts).query.isNone = (assemble filter faults ts).hasFatal := by
  unfold assemble Outcome.hasFatal
  dsimp only
  cases Outcome.isFatal (faults ++ (readTail ts).2) <;> rfl

/-- A row of tokens has no query exactly if one of its faults is fatal. -/
theorem Query.isNone_ofTokens (ts : List Token) :
    (ofTokens ts).query.isNone = (ofTokens ts).hasFatal := by
  unfold ofTokens
  split
  · exact isNone_assemble ..
  · dsimp only
    split
    · -- what is read to recover can only add to the faults
      rename_i hvalue
      have hsettled := settled_readExpression (lastPosition ts) 0 ts
      rw [Reading.Settled, hvalue] at hsettled
      rw [Outcome.hasFatal, Outcome.isFatal_append, ← hsettled]
      rfl
    · exact isNone_assemble ..

/-! ## Texts -/

/-- Of the syntactic faults, the fatal ones are errors. -/
theorem Outcome.any_isError (o : Outcome) : o.diagnostics.any Diagnostic.isError = o.hasFatal := by
  have hone : ∀ f, (Diagnostic.ofSyntax (SyntaxFault.report f)).isError =
      !f.value.isRecoverable := by
    intro f
    show decide ((if f.value.isRecoverable = true then Severity.warning else Severity.error) =
      Severity.error) = !f.value.isRecoverable
    cases f.value.isRecoverable <;> rfl
  rw [diagnostics, reports, List.any_map, List.any_map, hasFatal, isFatal]
  exact congrArg o.faults.any (funext hone)

/-- All lexical faults are errors. -/
theorem Tokenization.any_isError (t : Tokenization) :
    t.diagnostics.any Diagnostic.isError = !t.faults.isEmpty := by
  rw [diagnostics, reports]
  cases t.faults with
  | nil => rfl
  | cons f fs => rfl

theorem validate_any_isError (text : String) :
    (validate text).any Diagnostic.isError =
      (!(analyse text).tokenization.faults.isEmpty || (analyse text).outcome.hasFatal) := by
  rw [validate, Analysis.diagnostics, List.any_append, Tokenization.any_isError,
    Outcome.any_isError]

/-- A text has no query exactly if one of its diagnostics is an error. -/
theorem Analysis.isNone_query? (text : String) :
    (analyse text).query?.isNone = (validate text).any Diagnostic.isError := by
  have hquery : (analyse text).outcome.query.isNone = (analyse text).outcome.hasFatal :=
    Query.isNone_ofTokens _
  rw [validate_any_isError, query?]
  cases (analyse text).tokenization.faults.isEmpty with
  | true => exact hquery
  | false => rfl

/-- A text stands for its query; without one it is rejected with its diagnostics. -/
theorem Query.ofText_eq (text : String) :
    Query.ofText text =
      match (analyse text).query? with
      | none => .error (validate text)
      | some q => .ok q := by
  have hnone := Analysis.isNone_query? text
  rw [validate_any_isError] at hnone
  rw [Query.ofText, ← hnone]
  cases hquery : (analyse text).query? with
  | none => rfl
  | some q =>
    have houtcome : (analyse text).outcome.query = some q := by
      rw [Analysis.query?] at hquery
      split at hquery
      · exact hquery
      · cases hquery
    rw [houtcome]
    rfl

/-- A text without a query is compiled to nothing and not kept. -/
theorem compileText_of_rejected {text : String} (hquery : (analyse text).query? = none)
    (schema : Option Schema) (o : Options) (readAt storedAt : Int) {cache : Cache Compiled}
    (h : cache.isEmpty = true) :
    compileText schema o text readAt storedAt cache =
      (.rejected (validate text), { cache with requests := cache.requests + 1 }) := by
  obtain ⟨-, hfresh⟩ | ⟨q, hsome, -⟩ := Compilation.fresh_cases schema o text
  · rw [compileText_of_isEmpty schema o text readAt storedAt h, hfresh]
    rfl
  · rw [hquery] at hsome
    cases hsome

/-- A text with a query is compiled by it, and the result has the diagnostics of the text. -/
theorem compileText_of_accepted {text : String} {q : Query}
    (hquery : (analyse text).query? = some q) (schema : Option Schema) (o : Options)
    (readAt storedAt : Int) {cache : Cache Compiled} (h : cache.isEmpty = true) :
    (compileText schema o text readAt storedAt cache).1 =
      .ofCompiled schema o (validate text) false (q.compile o.mode schema) := by
  obtain ⟨hnone, -⟩ | ⟨q', hsome, hfresh⟩ := Compilation.fresh_cases schema o text
  · rw [hquery] at hnone
    cases hnone
  · rw [hquery] at hsome
    cases hsome
    rw [compileText_of_isEmpty schema o text readAt storedAt h, hfresh]

/-- A row of tokens has no query exactly if one of its faults is fatal. So a text is accepted
exactly if no diagnostic is an error, and then compiling it with an empty cache gives the same
query; the diagnostics are always the same, and a rejected text is compiled to nothing and leaves
the cache empty. -/
theorem verdicts_agree :
    (∀ ts, (Query.ofTokens ts).query = none ↔
      ∃ f ∈ (Query.ofTokens ts).faults, f.value.isRecoverable = false) ∧
    ∀ (text : String) (schema : Option Schema) (o : Options) (readAt storedAt : Int)
      (cache : Cache Compiled), cache.isEmpty = true →
      let result := compileText schema o text readAt storedAt cache
      ((∃ q, Query.ofText text = .ok q) ↔ ∀ d ∈ validate text, d.severity ≠ .error) ∧
      (∀ q, Query.ofText text = .ok q ↔ result.1.query = some q) ∧
      result.1.diagnostics = validate text ∧
      ∀ ds, Query.ofText text = .error ds →
        ds = validate text ∧ result.1.sql = "" ∧ result.1.params = [] ∧
          result.1.selectClause = none ∧ result.2.isEmpty = true := by
  constructor
  · intro ts
    rw [← Option.isNone_iff_eq_none, Query.isNone_ofTokens, Outcome.hasFatal, Outcome.isFatal]
    simp only [List.any_eq_true, Bool.not_eq_true']
  intro text schema o readAt storedAt cache hempty result
  have herror : (∀ d ∈ validate text, d.severity ≠ .error) ↔
      (analyse text).query?.isNone = false := by
    rw [Analysis.isNone_query?]
    simp only [List.any_eq_false, Diagnostic.isError, decide_eq_true_eq, ne_eq]
  rw [herror, Query.ofText_eq]
  cases hquery : (analyse text).query? with
  | none =>
    have hresult : result = _ := compileText_of_rejected hquery schema o readAt storedAt hempty
    rw [hresult]
    refine ⟨by simp, by simp [Compilation.rejected], rfl, ?_⟩
    intro ds h
    cases h
    exact ⟨rfl, rfl, rfl, rfl, hempty⟩
  | some q =>
    have hresult : result.1 = _ := compileText_of_accepted hquery schema o readAt storedAt hempty
    rw [hresult]
    refine ⟨by simp, by simp [Compilation.ofCompiled, Query.compile], rfl, ?_⟩
    intro ds h
    cases h

/-- An unfinished text is rejected, and a text that only lacks a connective is accepted. -/
theorem verdicts_agree_unfinished :
    let cache : Cache Compiled := .empty 2 10
    let unfinished := compileText none .default "a = 1 or" 0 0 cache
    let unlinked := compileText none .default "a = 1 b = 2" 0 0 cache
    cache.isEmpty = true ∧
    (Query.ofText "a = 1 or" = .error unfinished.1.diagnostics ∧ unfinished.1.sql = "" ∧
      unfinished.2.isEmpty = true) ∧
    (unlinked.1.diagnostics ≠ [] ∧ ∃ q, Query.ofText "a = 1 b = 2" = .ok q ∧
      unlinked.1.query = some q) := by
  intro cache unfinished unlinked
  have hempty : cache.isEmpty = true := rfl
  obtain ⟨hok, -, hdiagnostics, hrejected⟩ :=
    verdicts_agree.2 "a = 1 or" none .default 0 0 cache hempty
  obtain ⟨hok', hquery', hdiagnostics', -⟩ :=
    verdicts_agree.2 "a = 1 b = 2" none .default 0 0 cache hempty
  refine ⟨hempty, ?_, ?_, ?_⟩
  · have herror : ¬ ∀ d ∈ validate "a = 1 or", d.severity ≠ .error := by decide +kernel
    rw [← hok] at herror
    cases hread : Query.ofText "a = 1 or" with
    | ok q => exact absurd ⟨q, hread⟩ herror
    | error ds =>
      obtain ⟨hds, hsql, -, -, hcache⟩ := hrejected ds hread
      exact ⟨congrArg Except.error (hds.trans hdiagnostics.symm), hsql, hcache⟩
  · rw [show unlinked.1.diagnostics = validate "a = 1 b = 2" from hdiagnostics']
    decide +kernel
  · obtain ⟨q, hread⟩ := hok'.mpr (by decide +kernel)
    exact ⟨q, hread, (hquery' q).mp hread⟩

end LogQuery
