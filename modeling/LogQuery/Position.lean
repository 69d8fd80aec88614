/-!
# Positions in a text

Lines and columns are counted from 1; a column counts characters and starts again after each
newline. `Position.after` moves over a stretch of text, one character at a time
(`after_append`).
-/

namespace LogQuery

/-- A place in a text. -/
structure Position where
  line : Nat
  column : Nat
  deriving DecidableEq

namespace Position

/-- Where a text starts. -/
def start : Position := ⟨1, 1⟩

instance : Inhabited Position := ⟨start⟩

/-- The place after the character `c`. -/
def next (p : Position) (c : Char) : Position :=
  if c = '\n' then ⟨p.line + 1, 1⟩ else ⟨p.line, p.column + 1⟩

/-- The place after the characters `cs`. -/
def after (p : Position) (cs : List Char) : Position := cs.foldl next p

theorem after_nil (p : Position) : p.after [] = p := rfl

theorem after_cons (p : Position) (c : Char) (cs : List Char) :
    p.after (c :: cs) = (p.next c).after cs := rfl

theorem after_append (p : Position) (as bs : List Char) :
    p.after (as ++ bs) = (p.after as).after bs := List.foldl_append

/-- The place in words, as messages give it. -/
def describe (p : Position) : String :=
  "line " ++ Nat.repr p.line ++ ", column " ++ Nat.repr p.column

end Position

/-- Something found at a place of a text. -/
structure Located (α : Type) where
  value : α
  position : Position
  deriving DecidableEq

end LogQuery
