import LogQuery.Text.CodeRange

/-!
# White space

The characters with the Unicode property `White_Space`, which separate tokens, and `trim`, which
takes them off both ends of a text.
-/

namespace LogQuery.Text

/-- The code points with the property `White_Space`. -/
def blank : List CodeRange :=
  [⟨0x9, 0xD⟩, ⟨0x20, 0x20⟩, ⟨0x85, 0x85⟩, ⟨0xA0, 0xA0⟩, ⟨0x1680, 0x1680⟩, ⟨0x2000, 0x200A⟩,
   ⟨0x2028, 0x2029⟩, ⟨0x202F, 0x202F⟩, ⟨0x205F, 0x205F⟩, ⟨0x3000, 0x3000⟩]

theorem ascending_blank : CodeRange.ascending blank = true := by
  decide +kernel

/-- Is `c` white space? -/
def isBlank (c : Char) : Bool := CodeRange.covers blank c.toNat

/-- The text without the white space at its start and end. -/
def trim (cs : List Char) : List Char :=
  ((cs.dropWhile isBlank).reverse.dropWhile isBlank).reverse

end LogQuery.Text
