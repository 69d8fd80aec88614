import LogQuery.Proofs.Literal.Integers
import LogQuery.Proofs.Sql.Tokens

/-!
# Numerals in conditions

A numeral that a field is compared with is written into the condition as the canonical numeral of its
value, or as a string with the very digits of the query. No other number ever takes its place. A search
takes text, so it looks for the canonical numeral or the digits as a string in either case.

* `literal_numeral`: what is written for a numeral;
* `sql_compile_of_ne_null`, `sql_compile_search`: where it is written;
* `integers_exact`: both, and which values are numerals that are held exactly.
-/

namespace LogQuery.Sql

open Text

/-- Nothing in a numeral has to be escaped. -/
theorem quoteString_numeral (n : Numeral) : quoteString n.text = "'" ++ n.text ++ "'" := by
  have hplain : ∀ c ∈ n.source, escapedInString c = [c] := by
    intro c hc
    have hkey := n.isKeyChar_of_mem_source c hc
    rw [escapedInString, if_neg (ne_escaped_of_isKeyChar hkey).2, if_neg (ne_of_class hkey rfl)]
  have hescape : n.source.flatMap escapedInString = n.source := by
    rw [List.flatMap_def, List.map_congr_left hplain, ← List.flatMap_def, List.flatMap_singleton']
  rw [← String.toList_inj, toList_quoteString, n.toList_text, hescape]
  simp [n.toList_text]

/-- What is written for a numeral: the canonical one of its value if that is held exactly, else its
digits as a string. -/
theorem literal_numeral (n : Numeral) :
    literal (Literal.ofText n.text false) =
      if n.value.natAbs ≤ Literal.maxInteger then Decimal.integerText n.value
      else "'" ++ n.text ++ "'" := by
  rw [Literal.ofText_numeral]
  by_cases hle : n.value.natAbs ≤ Literal.maxInteger
  · rw [if_pos hle, if_pos hle]
    rfl
  · rw [if_neg hle, if_neg hle]
    exact quoteString_numeral n

/-- A value other than null stands behind the operator, unless the operator searches for it. -/
theorem sql_compile_of_ne_null {value : Literal} (hvalue : value ≠ .null)
    {comparison : Comparison} (hcomparison : comparison ∉ [.contains, .notContains])
    (schema : Option Schema) (field : Field) (quoted : Bool) (select : List Field) :
    (compile .inline schema ⟨some (.condition ⟨field, comparison, value, quoted⟩), select⟩).sql =
      accessText schema field ++ " " ++ comparison.symbol ++ " " ++ literal value := by
  have hoperand : (operand value).render .inline = literal value := by
    cases value with
    | null => exact absurd rfl hvalue
    | _ => rfl
  have hparts : condition schema ⟨field, comparison, value, quoted⟩ =
      compared (access schema field) comparison value := by
    cases comparison with
    | contains => exact absurd List.mem_cons_self hcomparison
    | notContains => exact absurd (List.mem_cons_of_mem _ List.mem_cons_self) hcomparison
    | _ =>
      cases value with
      | null => exact absurd rfl hvalue
      | _ => rfl
  rw [sql_compile_condition, hparts, render_compared, hoperand]

/-- What is searched for stands in quotes. -/
theorem sql_compile_search (value : Literal) {comparison : Comparison}
    (hcomparison : comparison ∈ [.contains, .notContains]) (schema : Option Schema) (field : Field)
    (quoted : Bool) (select : List Field) :
    (compile .inline schema ⟨some (.condition ⟨field, comparison, value, quoted⟩), select⟩).sql =
      "positionCaseInsensitive(" ++ accessText schema field ++ ", " ++ quoteString value.text ++
        (if comparison = .contains then ") > 0" else ") = 0") := by
  have hsearch : ∀ test, render .inline (search (access schema field) value test) =
      "positionCaseInsensitive(" ++ accessText schema field ++ ", " ++ quoteString value.text ++
        (")" ++ test) := by
    intro test
    rw [render_search, String.append_assoc]
    rfl
  rw [sql_compile_condition]
  rcases List.mem_cons.mp hcomparison with rfl | hother
  · exact hsearch " > 0"
  · rw [List.mem_singleton.mp hother]
    exact hsearch " = 0"

/-- What is searched for in place of a numeral. -/
theorem quoteString_text_numeral (n : Numeral) :
    quoteString (Literal.ofText n.text false).text =
      if n.value.natAbs ≤ Literal.maxInteger then "'" ++ Decimal.integerText n.value ++ "'"
      else "'" ++ n.text ++ "'" := by
  rw [Literal.ofText_numeral]
  by_cases hle : n.value.natAbs ≤ Literal.maxInteger
  · rw [if_pos hle, if_pos hle, ← Numeral.text_ofInt, ← quoteString_numeral, Numeral.text_ofInt]
    rfl
  · rw [if_neg hle, if_neg hle]
    exact quoteString_numeral n

end LogQuery.Sql

namespace LogQuery

/-- A numeral that stands without quotes is an integer if its value lies within `± (2 ^ 53 - 1)`, and
else a string with the digits as they stand; nothing but such a numeral is an integer. In a condition
stands, accordingly, the only canonical numeral of that value, or the very text in quotes. -/
theorem integers_exact :
    (∀ n : Numeral,
      Literal.ofText n.text false =
        (if n.value.natAbs ≤ Nat.pow 2 53 - 1 then .integer n.value else .string n.text) ∧
      Sql.literal (Literal.ofText n.text false) =
        (if n.value.natAbs ≤ Nat.pow 2 53 - 1 then Decimal.integerText n.value
          else "'" ++ n.text ++ "'") ∧
      (∃ c : Numeral, c.text = Decimal.integerText n.value ∧
        ∀ d : Numeral, d.isCanonical = true ∧ d.value = n.value ↔ d = c) ∧
      ∀ schema field comparison,
        let condition : Condition := ⟨field, comparison, Literal.ofText n.text false, false⟩
        (comparison ∉ [.contains, .notContains] →
          (Sql.compile .inline schema ⟨some (.condition condition), []⟩).sql =
            Sql.accessText schema field ++ " " ++ comparison.symbol ++ " " ++
              Sql.literal (Literal.ofText n.text false)) ∧
        (comparison ∈ [.contains, .notContains] →
          (Sql.compile .inline schema ⟨some (.condition condition), []⟩).sql =
            "positionCaseInsensitive(" ++ Sql.accessText schema field ++ ", " ++
              (if n.value.natAbs ≤ Nat.pow 2 53 - 1 then "'" ++ Decimal.integerText n.value ++ "'"
                else "'" ++ n.text ++ "'") ++
              (if comparison = .contains then ") > 0" else ") = 0"))) ∧
    ∀ text quoted v, Literal.ofText text quoted = .integer v ↔
      quoted = false ∧
        ∃ n : Numeral, n.text = text ∧ n.value = v ∧ v.natAbs ≤ Nat.pow 2 53 - 1 := by
  refine ⟨fun n => ⟨Literal.ofText_numeral n, Sql.literal_numeral n, ?_, ?_⟩,
    fun text quoted v => Literal.ofText_eq_integer_iff⟩
  · refine ⟨.ofInt n.value, Numeral.text_ofInt n.value, fun d => ⟨?_, ?_⟩⟩
    · rintro ⟨hcanonical, hvalue⟩
      rw [← hvalue]
      exact Numeral.eq_ofInt hcanonical
    · rintro rfl
      exact ⟨Numeral.isCanonical_ofInt n.value, Numeral.value_ofInt n.value⟩
  · intro schema field comparison condition
    have hvalue : Literal.ofText n.text false ≠ .null := by
      rw [Literal.ofText_numeral]
      split <;> simp
    refine ⟨fun hother => Sql.sql_compile_of_ne_null hvalue hother schema field false [],
      fun hsearch => ?_⟩
    rw [Sql.sql_compile_search _ hsearch, Sql.quoteString_text_numeral]
    rfl

/-- Numerals at the limits of the readers: the least integer that is held exactly, with zeros in front
of it; the one above the largest; the least of 64 bits; and one that 128 bits would wrap to 1. -/
theorem integers_exact_limits :
    let least : Numeral := ⟨true, "0009007199254740991".toList, by decide⟩
    let above : Numeral := ⟨false, "9007199254740992".toList, by decide⟩
    let word : Numeral := ⟨true, "9223372036854775808".toList, by decide⟩
    let wide : Numeral := ⟨false, "340282366920938463463374607431768211457".toList, by decide⟩
    Literal.ofText least.text false = .integer (-9007199254740991) ∧
    Sql.literal (Literal.ofText least.text false) = "-9007199254740991" ∧
    Comparison.lessOrEqual ∉ [.contains, .notContains] ∧
    (Sql.compile .inline none ⟨some (.condition
        ⟨.simple "x", .lessOrEqual, Literal.ofText least.text false, false⟩), []⟩).sql =
      "`x` <= -9007199254740991" ∧
    Comparison.notContains ∈ [.contains, .notContains] ∧
    (Sql.compile .inline none ⟨some (.condition
        ⟨.simple "x", .notContains, Literal.ofText above.text false, false⟩), []⟩).sql =
      "positionCaseInsensitive(`x`, '9007199254740992') = 0" ∧
    Literal.ofText above.text false = .string "9007199254740992" ∧
    Sql.literal (Literal.ofText word.text false) = "'-9223372036854775808'" ∧
    Sql.literal (Literal.ofText wide.text false) = "'340282366920938463463374607431768211457'" := by
  intro least above word wide
  have hother : Comparison.lessOrEqual ∉ [.contains, .notContains] := by decide
  have hsearch : Comparison.notContains ∈ [.contains, .notContains] := by decide
  obtain ⟨hvalue, hsql, -, hcondition⟩ := integers_exact.1 least
  have hleast : least.value = -9007199254740991 := by decide +kernel
  rw [hleast] at hvalue hsql
  have hrender := (hcondition none (.simple "x") .lessOrEqual).1 hother
  rw [hsql] at hrender
  refine ⟨hvalue, hsql, hother, hrender.trans (by decide +kernel), hsearch,
    (((integers_exact.1 above).2.2.2 none (.simple "x") .notContains).2 hsearch).trans
      (by decide +kernel),
    (integers_exact.1 above).1.trans (by decide +kernel),
    (integers_exact.1 word).2.1.trans (by decide +kernel),
    (integers_exact.1 wide).2.1.trans (by decide +kernel)⟩

end LogQuery
