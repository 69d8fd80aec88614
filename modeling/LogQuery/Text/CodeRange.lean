/-!
# Sets of characters as ranges of code points

A class of characters is given by an ascending list of ranges of code points. `covers` looks a
code point up and stops at the first range above it; `covers_iff` says that on an ascending list
this finds every range, so that the table alone decides the class.
-/

namespace LogQuery.Text

/-- The code points from `first` to `last`, both included. -/
structure CodeRange where
  first : Nat
  last : Nat
  deriving DecidableEq

namespace CodeRange

/-- Is `n` one of the code points of the range? -/
def Holds (r : CodeRange) (n : Nat) : Prop := r.first ≤ n ∧ n ≤ r.last

/-- Looks `n` up in an ascending list of ranges. -/
def covers : List CodeRange → Nat → Bool
  | [], _ => false
  | r :: rest, n => if n < r.first then false else decide (n ≤ r.last) || covers rest n

/-- Each range is in order and ends before the next one starts. -/
def ascending : List CodeRange → Bool
  | [] => true
  | [r] => decide (r.first ≤ r.last)
  | r :: s :: rest => decide (r.first ≤ r.last) && decide (r.last < s.first) && ascending (s :: rest)

/-- All ranges after the first of an ascending list lie above it. -/
theorem last_lt_first_of_ascending {r : CodeRange} {rest : List CodeRange}
    (h : ascending (r :: rest) = true) : ∀ s ∈ rest, r.last < s.first := by
  induction rest generalizing r with
  | nil => simp
  | cons t rest ih =>
    simp only [ascending, Bool.and_eq_true, decide_eq_true_eq] at h
    have hr := h.1.2
    have hrest := ih h.2
    have ht : t.first ≤ t.last := by
      cases rest <;> simp_all [ascending]
    intro s hs
    rcases List.mem_cons.mp hs with rfl | hs
    · exact hr
    · have := hrest s hs
      omega

theorem ascending_tail {r : CodeRange} {rest : List CodeRange}
    (h : ascending (r :: rest) = true) : ascending rest = true := by
  cases rest with
  | nil => rfl
  | cons s rest => simp_all [ascending]

/-- On an ascending list the look-up finds a code point exactly if some range holds it. -/
theorem covers_iff {ranges : List CodeRange} (h : ascending ranges = true) (n : Nat) :
    covers ranges n = true ↔ ∃ r ∈ ranges, r.Holds n := by
  induction ranges with
  | nil => simp [covers]
  | cons r rest ih =>
    have above := last_lt_first_of_ascending h
    have ordered : r.first ≤ r.last := by cases rest <;> simp_all [ascending]
    simp only [covers, List.mem_cons, exists_eq_or_imp]
    by_cases hn : n < r.first
    · simp only [hn, if_true, Bool.false_eq_true, false_iff, not_or, not_exists, not_and]
      refine ⟨fun hr => by have := hr.1; omega, fun s hs hh => ?_⟩
      have := above s hs
      have := hh.1
      omega
    · simp only [hn, if_false, Bool.or_eq_true, decide_eq_true_eq, ih (ascending_tail h), Holds]
      constructor
      · rintro (hl | hs)
        · exact .inl ⟨by omega, hl⟩
        · exact .inr hs
      · rintro (hl | hs)
        · exact .inl hl.2
        · exact .inr hs

end CodeRange

end LogQuery.Text
