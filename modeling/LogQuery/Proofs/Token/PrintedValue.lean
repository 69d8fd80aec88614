import LogQuery.Proofs.Literal.Integers
import LogQuery.Proofs.Query.Canonical
import LogQuery.Proofs.Token.Printed

/-!
# The tokens of printed literals

Right after an operator, a printed literal is one token, which stands for it (`reads_literal`). A
string is printed in quotes, with its quotes and backslashes escaped; every other literal that can be
printed exactly is a row of key characters.

* `reads_quoted`, `reads_bareChars`: what a value with and without quotes is cut from;
* `ofText_integerText`: the text of an integer stands for the integer.
-/

namespace LogQuery

open Text

/-- Does the character end a printed literal? -/
def endsValue (c : Char) : Bool := c == ' ' || c == ')'

/-- The token stands for the literal after an operator. -/
def IsValueOf (value : Literal) (quoted : Bool) (t : Token) : Prop :=
  t.kind = .value ∧ t.quoted = quoted ∧ Literal.ofText t.text t.quoted = value

/-- A printed string is a value in quotes, whatever follows it. -/
theorem reads_quoted (s : String) :
    Reads true (Literal.string s).print.toList false anything (IsToken .value s true) := by
  have hprint : (Literal.string s).print.toList = '"' :: (escape s.toList ++ ['"']) := by
    simp [Literal.print]
  have hcut : ∀ rest, nextPiece true '"' (escape s.toList ++ ['"'] ++ rest) =
      (.token ⟨.value, '"' :: (escape s.toList ++ ['"']), true⟩, rest) := by
    intro rest
    show cutQuotedValue '"' (escape s.toList ++ ['"'] ++ rest) = _
    rw [List.append_assoc, List.singleton_append, cutQuotedValue, readQuoted_escape]
    rfl
  have htext : Lexeme.text ⟨.value, '"' :: (escape s.toList ++ ['"']), true⟩ = s := by
    show String.ofList (unescape (escape s.toList ++ ['"']).dropLast) = s
    rw [List.dropLast_concat, unescape_escape, String.ofList_toList]
  have hread : Reads true _ false anything _ := reads_token fun rest _ => hcut rest
  rw [htext] at hread
  rw [hprint]
  exact hread

theorem isBareChar_of_isKeyChar {c : Char} (h : isKeyChar c = true) : isBareChar c = true := by
  rw [isBareChar, isBlank_of_isKeyChar h, isDelimiter_of_startsWord (startsWord_of_isKeyChar h)]
  rfl

theorem isBareChar_of_endsValue {c : Char} (h : endsValue c = true) : isBareChar c = false := by
  rw [endsValue, Bool.or_eq_true, beq_iff_eq, beq_iff_eq] at h
  rcases h with rfl | rfl <;> decide

/-- May `c` start a value without quotes? -/
def startsBare (c : Char) : Bool := isBareChar c && !isOperatorChar c && !isQuote c

/-- A value without quotes goes on up to a blank or a delimiter. -/
theorem reads_bareChars {c : Char} (hc : startsBare c = true) {cs : List Char}
    (hcs : ∀ d ∈ cs, isBareChar d = true) :
    Reads true (c :: cs) false (!isBareChar ·) (IsToken .value (String.ofList (c :: cs)) false) := by
  refine reads_token (l := ⟨.value, c :: cs, false⟩) fun rest hrest => ?_
  obtain ⟨htake, hdrop⟩ := takeWhile_run hcs fun d hd => by simpa using hrest d hd
  rw [startsBare, isBareChar, Bool.and_eq_true, Bool.and_eq_true, Bool.and_eq_true,
    Bool.not_eq_true', Bool.not_eq_true', Bool.not_eq_true', Bool.not_eq_true'] at hc
  obtain ⟨⟨⟨hblank, hdelimiter⟩, hoperator⟩, hquote⟩ := hc
  rw [nextPiece, hblank, hoperator, hdelimiter, hquote]
  show cutBareValue c (cs ++ rest) = _
  rw [cutBareValue, htake, hdrop]

theorem startsBare_of_isKeyChar {c : Char} (h : isKeyChar c = true) : startsBare c = true := by
  rw [startsBare, isBareChar_of_isKeyChar h, isQuote_of_isKeyChar h,
    isOperatorChar_of_startsWord (startsWord_of_isKeyChar h)]
  rfl

/-- A row of key characters is a value without quotes. -/
theorem reads_bare {text : String} (hne : text.toList ≠ [])
    (hkey : ∀ c ∈ text.toList, isKeyChar c = true) :
    Reads true text.toList false endsValue (IsToken .value text false) := by
  cases hcs : text.toList with
  | nil => exact absurd hcs hne
  | cons c cs =>
    rw [hcs] at hkey
    have hread := reads_bareChars (startsBare_of_isKeyChar (hkey c List.mem_cons_self))
      fun d hd => isBareChar_of_isKeyChar (hkey d (List.mem_cons_of_mem _ hd))
    rw [← hcs, String.ofList_toList, hcs] at hread
    exact hread.restrict fun d hd => by rw [isBareChar_of_endsValue hd]; rfl

/-! ## Integers -/

/-- The text of an integer that is held exactly stands for the integer. -/
theorem ofText_integerText {i : Int} (h : i.natAbs ≤ Literal.maxInteger) :
    Literal.ofText (Decimal.integerText i) false = .integer i := by
  rw [← Numeral.text_ofInt, Literal.ofText_numeral, Numeral.value_ofInt, if_pos h]

theorem toList_integerText (i : Int) : (Decimal.integerText i).toList = (Numeral.ofInt i).source := by
  rw [← Numeral.text_ofInt, Numeral.toList_text]

/-! ## Literals -/

/-- A literal that is printed as a row of key characters. -/
theorem reads_unquoted {value : Literal} (hne : value.print.toList ≠ [])
    (hkey : ∀ c ∈ value.print.toList, isKeyChar c = true)
    (hvalue : Literal.ofText value.print false = value) :
    Reads true value.print.toList false endsValue
      fun ts => ∃ t, ts = [t] ∧ IsValueOf value false t := by
  refine (reads_bare hne hkey).mono ?_
  rintro ts ⟨t, rfl, hkind, htext, hquoted⟩
  exact ⟨t, rfl, hkind, hquoted, by rw [htext, hquoted, hvalue]⟩

/-- A printed literal is one token, which stands for it. -/
theorem reads_literal {value : Literal} {quoted : Bool} (h : value.isCanonical quoted = true) :
    Reads true value.print.toList false endsValue
      fun ts => ∃ t, ts = [t] ∧ IsValueOf value quoted t := by
  cases value with
  | string s =>
    obtain rfl : quoted = true := h
    refine ((reads_quoted s).restrict fun _ _ => rfl).mono ?_
    rintro ts ⟨t, rfl, hkind, htext, hquoted⟩
    exact ⟨t, rfl, hkind, hquoted, by rw [htext, hquoted]; rfl⟩
  | integer i =>
    rw [Literal.isCanonical, Bool.and_eq_true, Bool.not_eq_true', decide_eq_true_eq] at h
    obtain ⟨rfl, hbound⟩ := h
    obtain ⟨c, cs, hcs, -⟩ := (Numeral.ofInt i).source_starts
    have hprint : (Literal.integer i).print.toList = (Numeral.ofInt i).source := toList_integerText i
    exact reads_unquoted (by rw [hprint, hcs]; exact List.cons_ne_nil c cs)
      (by rw [hprint]; exact Numeral.isKeyChar_of_mem_source) (ofText_integerText hbound)
  | boolean b =>
    obtain rfl : quoted = false := by simpa [Literal.isCanonical] using h
    cases b with
    | true => exact reads_unquoted (by decide) (List.all_eq_true.mp (by decide)) (by decide)
    | false => exact reads_unquoted (by decide) (List.all_eq_true.mp (by decide)) (by decide)
  | null =>
    obtain rfl : quoted = false := by simpa [Literal.isCanonical] using h
    exact reads_unquoted (by decide) (List.all_eq_true.mp (by decide)) (by decide)
  | float x => cases h

end LogQuery
