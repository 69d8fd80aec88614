/-!
# Quoted text

A quoted text runs from a quote character to the next occurrence of the same character that no
backslash escapes; a backslash escapes whatever follows it. `readQuoted` finds the raw body,
`unescape` takes the escaping backslashes out of it, and `escape` writes a body between double
quotes.

* `append_of_readQuoted`: reading loses nothing, so the rest is shorter than the text;
* `readQuoted_escape`, `unescape_escape`: what `escape` writes is read back.
-/

namespace LogQuery.Text

/-- Does `c` open a quoted text? -/
def isQuote (c : Char) : Bool := c == '"' || c == '\''

/-- The raw body of a quoted text whose opening quote is already taken, and what follows the closing
quote; `none` if it never closes. -/
def readQuoted (quote : Char) : List Char → Option (List Char × List Char)
  | [] => none
  | ['\\'] => none
  | '\\' :: c :: rest => (readQuoted quote rest).map fun r => ('\\' :: c :: r.1, r.2)
  | c :: rest =>
    if c = quote then some ([], rest)
    else (readQuoted quote rest).map fun r => (c :: r.1, r.2)

/-- The body that a raw body stands for: an escaping backslash goes, the character after it stays. -/
def unescape : List Char → List Char
  | [] => []
  | ['\\'] => []
  | '\\' :: c :: rest => c :: unescape rest
  | c :: rest => c :: unescape rest

/-- The raw body that stands for `cs` between double quotes. -/
def escape : List Char → List Char
  | [] => []
  | c :: rest => if c = '"' ∨ c = '\\' then '\\' :: c :: escape rest else c :: escape rest

theorem append_of_readQuoted {quote : Char} {cs body rest : List Char}
    (h : readQuoted quote cs = some (body, rest)) : cs = body ++ quote :: rest := by
  fun_induction readQuoted quote cs generalizing body rest with
  | case1 => simp at h
  | case2 => simp at h
  | case3 c tail ih =>
    obtain ⟨r, hr, heq⟩ := Option.map_eq_some_iff.mp h
    cases heq
    simp [@ih r.1 r.2 hr]
  | case4 => simp_all
  | case5 c tail _ _ _ ih =>
    obtain ⟨r, hr, heq⟩ := Option.map_eq_some_iff.mp h
    cases heq
    simp [@ih r.1 r.2 hr]

theorem length_lt_of_readQuoted {quote : Char} {cs body rest : List Char}
    (h : readQuoted quote cs = some (body, rest)) : rest.length < cs.length := by
  rw [append_of_readQuoted h]
  simp
  omega

theorem readQuoted_escape (cs rest : List Char) :
    readQuoted '"' (escape cs ++ '"' :: rest) = some (escape cs, rest) := by
  induction cs with
  | nil => simp [escape, readQuoted]
  | cons c cs ih =>
    by_cases hc : c = '"' ∨ c = '\\'
    · simp only [escape, hc, if_true, List.cons_append, readQuoted, ih, Option.map_some]
    · obtain ⟨hq, hb⟩ := not_or.mp hc
      simp only [escape, hc, if_false, List.cons_append]
      rw [readQuoted]
      · simp [hq, ih]
      · simp [hb]
      · simp [hb]

theorem unescape_escape (cs : List Char) : unescape (escape cs) = cs := by
  induction cs with
  | nil => rfl
  | cons c cs ih =>
    by_cases hc : c = '"' ∨ c = '\\'
    · simp only [escape, hc, if_true, unescape, ih]
    · obtain ⟨_, hb⟩ := not_or.mp hc
      simp only [escape, hc, if_false]
      rw [unescape]
      · rw [ih]
      · simp [hb]
      · simp [hb]

end LogQuery.Text
