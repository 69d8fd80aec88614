import LogQuery.Proofs.Sql.Lexeme
import LogQuery.Sql.Quoting

/-!
# Escapes

A text is escaped by replacing one character after the other in the whole of it. That comes to the same
as escaping every character on its own, since the second replacement finds nothing in what the first one
has put in. So a quoted text is read up to its last quote, whatever characters it holds, and gives back
the text it was made of.

* `toList_replaceChar_replaceChar`: two replacements, character by character;
* `toList_quoteString`, `toList_quoteIdentifier`: the quoted texts, character by character;
* `readString_escaped`, `readQuoted_escaped`: where they end;
* `decodeString_escaped`, `unescape_escaped`: what they hold.
-/

namespace LogQuery.Sql

/-! ## Character by character -/

/-- A character as it stands between single quotes. -/
def escapedInString (c : Char) : List Char :=
  if c = '\\' then ['\\', '\\'] else if c = '\'' then ['\'', '\''] else [c]

/-- A character as it stands between backquotes. -/
def escapedInName (c : Char) : List Char := if c = '\\' ∨ c = '`' then ['\\', c] else [c]

theorem toList_replaceChar (c : Char) (replacement text : String) :
    (replaceChar c replacement text).toList =
      text.toList.flatMap fun d => if d = c then replacement.toList else [d] :=
  String.toList_ofList

/-- The second of two replacements also goes over what the first one has put in. -/
theorem toList_replaceChar_replaceChar (c c' : Char) (replacement replacement' text : String) :
    (replaceChar c' replacement' (replaceChar c replacement text)).toList =
      text.toList.flatMap fun d =>
        if d = c then (replaceChar c' replacement' replacement).toList
        else if d = c' then replacement'.toList
        else [d] := by
  rw [toList_replaceChar, toList_replaceChar, List.flatMap_assoc]
  refine congrArg (List.flatMap · text.toList) (funext fun d => ?_)
  by_cases hd : d = c
  · rw [if_pos hd, if_pos hd, toList_replaceChar]
  · rw [if_neg hd, if_neg hd, List.flatMap_singleton]

/-- Doubling backslashes and then single quotes escapes every character on its own. -/
theorem toList_escapeString (s : String) :
    (escapeString s).toList = s.toList.flatMap escapedInString :=
  toList_replaceChar_replaceChar '\\' '\'' "\\\\" "''" s

theorem toList_quoteString (s : String) :
    (quoteString s).toList = '\'' :: (s.toList.flatMap escapedInString ++ ['\'']) := by
  rw [quoteString, String.toList_append, String.toList_append, toList_escapeString]
  rfl

theorem toList_quoteIdentifier (name : String) :
    (quoteIdentifier name).toList = '`' :: (name.toList.flatMap escapedInName ++ ['`']) := by
  have hescape : ∀ c, (if c = '\\' then (replaceChar '`' "\\`" "\\\\").toList
      else if c = '`' then "\\`".toList else [c]) = escapedInName c := by
    intro c
    by_cases hb : c = '\\'
    · rw [if_pos hb, escapedInName, if_pos (.inl hb), hb]
      rfl
    by_cases hq : c = '`'
    · rw [if_neg hb, if_pos hq, escapedInName, if_pos (.inr hq), hq]
      rfl
    · rw [if_neg hb, if_neg hq, escapedInName, if_neg (not_or.mpr ⟨hb, hq⟩)]
  rw [quoteIdentifier, String.toList_append, String.toList_append, toList_replaceChar_replaceChar,
    funext hescape]
  rfl

/-! ## Reading back -/

theorem readString_escaped (cs : List Char) {rest : List Char} (hrest : rest.head? ≠ some '\'') :
    readString (cs.flatMap escapedInString ++ '\'' :: rest) =
      some (cs.flatMap escapedInString, rest) := by
  induction cs with
  | nil => cases rest <;> simp_all [readString]
  | cons c cs ih =>
    simp only [List.flatMap_cons, List.append_assoc]
    by_cases hb : c = '\\'
    · simp [escapedInString, hb, readString, ih]
    by_cases hq : c = '\''
    · simp [escapedInString, hq, readString, ih]
    simp only [escapedInString, hb, hq, if_false, List.cons_append, List.nil_append]
    rw [readString]
    · simp [hq, ih]
    · simp [hb]
    · simp [hb]
    · simp [hq]

theorem decodeString_escaped (cs : List Char) : decodeString (cs.flatMap escapedInString) = cs := by
  induction cs with
  | nil => rfl
  | cons c cs ih =>
    simp only [List.flatMap_cons]
    by_cases hb : c = '\\'
    · simp [escapedInString, hb, decodeString, ih]
    by_cases hq : c = '\''
    · simp [escapedInString, hq, decodeString, ih]
    simp only [escapedInString, hb, hq, if_false, List.cons_append, List.nil_append]
    rw [decodeString, ih]
    · simp [hb]
    · simp [hb]
    · simp [hq]

theorem readQuoted_escaped (cs rest : List Char) :
    Text.readQuoted '`' (cs.flatMap escapedInName ++ '`' :: rest) =
      some (cs.flatMap escapedInName, rest) := by
  induction cs with
  | nil => simp [Text.readQuoted]
  | cons c cs ih =>
    simp only [List.flatMap_cons, List.append_assoc]
    by_cases hc : c = '\\' ∨ c = '`'
    · simp [escapedInName, hc, Text.readQuoted, ih]
    obtain ⟨hb, hq⟩ := not_or.mp hc
    simp only [escapedInName, hc, if_false, List.cons_append, List.nil_append]
    rw [Text.readQuoted]
    · simp [hq, ih]
    · simp [hb]
    · simp [hb]

theorem unescape_escaped (cs : List Char) : Text.unescape (cs.flatMap escapedInName) = cs := by
  induction cs with
  | nil => rfl
  | cons c cs ih =>
    simp only [List.flatMap_cons]
    by_cases hc : c = '\\' ∨ c = '`'
    · simp [escapedInName, hc, Text.unescape, ih]
    obtain ⟨hb, -⟩ := not_or.mp hc
    simp only [escapedInName, hc, if_false, List.cons_append, List.nil_append]
    rw [Text.unescape, ih]
    · simp [hb]
    · simp [hb]

end LogQuery.Sql
