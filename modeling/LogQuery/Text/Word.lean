/-!
# Words without regard to case

Keywords are recognised whatever the case of their ASCII letters; other letters must match as they
stand.
-/

namespace LogQuery.Text

/-- Do two texts agree once their ASCII capitals are made small? -/
def sameWord (a b : String) : Bool :=
  a.toList.map Char.toLower == b.toList.map Char.toLower

end LogQuery.Text
