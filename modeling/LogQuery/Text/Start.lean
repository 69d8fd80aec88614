/-!
# The start of a text

`afterStart?` takes a given start off a text; `append_of_afterStart?` says that nothing else is lost.
-/

namespace LogQuery.Text

/-- What follows `start` in a text that starts with it. -/
def afterStart? : (start text : List Char) → Option (List Char)
  | [], cs => some cs
  | _ :: _, [] => none
  | s :: start, c :: cs => if s = c then afterStart? start cs else none

theorem append_of_afterStart? {start text rest : List Char}
    (h : afterStart? start text = some rest) : start ++ rest = text := by
  fun_induction afterStart? start text with
  | case1 => simp_all
  | case2 => simp at h
  | case3 s start cs ih => simp [ih h]
  | case4 => simp at h

theorem afterStart?_append (start rest : List Char) :
    afterStart? start (start ++ rest) = some rest := by
  induction start with
  | nil => cases rest <;> rfl
  | cons s start ih => simp [afterStart?, ih]

/-- Does a text start with `start`? -/
def startsWith (start text : List Char) : Bool := (afterStart? start text).isSome

end LogQuery.Text
