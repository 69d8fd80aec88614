import LogQuery.Token.Basic

/-!
# Keys

A key is a row of key characters and quoted segments; a segment stands at the start of the key or
right after a dot. `readKey` takes the longest key off a text.

* `source_of_readKey`: the parts and the rest make up the text;
* `readKey_ne_nil`: a text that starts with a key character or a quote gives at least one part.
-/

namespace LogQuery

open Text

/-- A part of a key: one character outside quotes, or a quoted segment with its raw body. -/
inductive KeyPart where
  | plain (c : Char)
  | segment (quote : Char) (body : List Char)
  deriving DecidableEq

namespace KeyPart

/-- The characters that the part was written with. -/
def source : KeyPart → List Char
  | plain c => [c]
  | segment quote body => quote :: body ++ [quote]

def isSegment : KeyPart → Bool
  | plain _ => false
  | segment .. => true

end KeyPart

/-- The longest key at the start of a text, and the rest of the text; `none` if a quoted segment
never closes. A segment may start at once only if `opening`. -/
def readKey (opening : Bool) : List Char → Option (List KeyPart × List Char)
  | [] => some ([], [])
  | c :: rest =>
    if isKeyChar c then
      (readKey (c == '.') rest).map fun r => (.plain c :: r.1, r.2)
    else if isQuote c && opening then
      match _h : readQuoted c rest with
      | none => none
      | some (body, rest') =>
        (readKey false rest').map fun r => (.segment c body :: r.1, r.2)
    else some ([], c :: rest)
termination_by cs => cs.length
decreasing_by
  · simp
  · have := length_lt_of_readQuoted _h
    simp
    omega

theorem source_of_readKey {opening : Bool} {cs rest : List Char} {parts : List KeyPart}
    (h : readKey opening cs = some (parts, rest)) :
    parts.flatMap KeyPart.source ++ rest = cs := by
  fun_induction readKey opening cs generalizing parts rest with
  | case1 => simp_all
  | case2 opening c tail hc ih =>
    obtain ⟨r, hr, heq⟩ := Option.map_eq_some_iff.mp h
    cases heq
    simp [KeyPart.source, ih hr]
  | case3 => simp at h
  | case4 opening c tail hc hq body tail' hread ih =>
    obtain ⟨r, hr, heq⟩ := Option.map_eq_some_iff.mp h
    cases heq
    simp [KeyPart.source, ih hr, append_of_readQuoted hread]
  | case5 => simp_all

theorem readKey_ne_nil {c : Char} {cs rest : List Char} {parts : List KeyPart}
    (hc : (isQuote c || isKeyChar c) = true)
    (h : readKey true (c :: cs) = some (parts, rest)) : parts ≠ [] := by
  rw [readKey] at h
  split at h
  · obtain ⟨r, _, heq⟩ := Option.map_eq_some_iff.mp h
    cases heq
    simp
  · split at h
    · split at h
      · simp at h
      · obtain ⟨r, _, heq⟩ := Option.map_eq_some_iff.mp h
        cases heq
        simp
    · simp_all

end LogQuery
