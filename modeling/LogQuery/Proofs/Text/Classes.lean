import LogQuery.Token.Basic

/-!
# Classes of characters

How the classes of characters that tokens are made of stand to each other:

* `not_covers_of_apart`: two tables of code points without a common range share no code point;
* `isBlank_of_isKeyChar`: no key character is white space;
* `takeWhile_run`: a run of one class ends at the first character outside it.
-/

namespace LogQuery.Text

namespace CodeRange

/-- Do two tables have no overlapping ranges? -/
def areApart (as bs : List CodeRange) : Bool :=
  as.all fun r => bs.all fun s => decide (r.last < s.first) || decide (s.last < r.first)

theorem not_covers_of_apart {as bs : List CodeRange} (has : ascending as = true)
    (hbs : ascending bs = true) (h : areApart as bs = true) {n : Nat}
    (hn : covers as n = true) : covers bs n = false := by
  rw [← Bool.not_eq_true, covers_iff hbs]
  rintro ⟨s, hs, hfirst, hlast⟩
  obtain ⟨r, hr, hfirst', hlast'⟩ := (covers_iff has n).mp hn
  have hapart := List.all_eq_true.mp (List.all_eq_true.mp h r hr) s hs
  rw [Bool.or_eq_true, decide_eq_true_eq, decide_eq_true_eq] at hapart
  omega

theorem apart_alphabetic_blank : areApart alphabetic blank = true := by
  decide +kernel

theorem apart_numeric_blank : areApart numeric blank = true := by
  decide +kernel

end CodeRange

/-- No key character is white space. -/
theorem isBlank_of_isKeyChar {c : Char} (h : isKeyChar c = true) : isBlank c = false := by
  simp only [isKeyChar, isNameChar, isAlphanumeric, Bool.or_eq_true, beq_iff_eq] at h
  rcases h with ((((h | h) | rfl) | rfl) | rfl) | rfl
  · exact CodeRange.not_covers_of_apart ascending_alphabetic ascending_blank
      CodeRange.apart_alphabetic_blank h
  · exact CodeRange.not_covers_of_apart ascending_numeric ascending_blank
      CodeRange.apart_numeric_blank h
  all_goals decide

/-- Classes that are apart are so the other way round. -/
theorem class_apart {p q : Char → Bool} {c : Char} (hapart : p c = true → q c = false)
    (h : q c = true) : p c = false := by
  refine Bool.eq_false_iff.mpr fun hp => ?_
  rw [hapart hp] at h
  cases h

theorem isKeyChar_of_isBlank {c : Char} (h : isBlank c = true) : isKeyChar c = false :=
  class_apart isBlank_of_isKeyChar h

theorem isKeyChar_of_isNameChar {c : Char} (h : isNameChar c = true) : isKeyChar c = true := by
  rw [isKeyChar, h, Bool.true_or]

theorem isNameChar_of_isAlphabetic {c : Char} (h : isAlphabetic c = true) :
    isNameChar c = true := by
  rw [isNameChar, isAlphanumeric, h]
  rfl

/-- What is no key character is no letter. -/
theorem isAlphabetic_of_isKeyChar {c : Char} (h : isKeyChar c = false) :
    isAlphabetic c = false := by
  refine Bool.eq_false_iff.mpr fun halpha => ?_
  have hkey := isKeyChar_of_isNameChar (isNameChar_of_isAlphabetic halpha)
  rw [h] at hkey
  cases hkey

theorem isKeyChar_of_isDigit {c : Char} (h : c.isDigit = true) : isKeyChar c = true := by
  have hnumeric : isNumeric c = true := (CodeRange.covers_iff ascending_numeric c.toNat).mpr
    ⟨⟨0x30, 0x39⟩, List.mem_cons_self, Char.isDigit_iff_toNat.mp h⟩
  refine isKeyChar_of_isNameChar ?_
  rw [isNameChar, isAlphanumeric, hnumeric, Bool.or_true]
  rfl

/-- A character of a class is none that is outside it. -/
theorem ne_of_class {p : Char → Bool} {c d : Char} (hc : p c = true) (hd : p d = false) : c ≠ d := by
  rintro rfl
  rw [hc] at hd
  cases hd

theorem isQuote_of_isKeyChar {c : Char} (h : isKeyChar c = true) : isQuote c = false := by
  have hdouble : c ≠ '"' := ne_of_class h rfl
  have hsingle : c ≠ '\'' := ne_of_class h rfl
  rw [isQuote, beq_false_of_ne hdouble, beq_false_of_ne hsingle]
  rfl

/-- A key character needs no escape between double quotes. -/
theorem ne_escaped_of_isKeyChar {c : Char} (h : isKeyChar c = true) : c ≠ '"' ∧ c ≠ '\\' :=
  ⟨ne_of_class h rfl, ne_of_class h rfl⟩

/-- A run of one class ends where something outside it follows. -/
theorem takeWhile_run {p : Char → Bool} {run rest : List Char} (hrun : ∀ c ∈ run, p c = true)
    (hrest : ∀ c ∈ rest.head?, p c = false) :
    (run ++ rest).takeWhile p = run ∧ (run ++ rest).dropWhile p = rest := by
  rw [List.takeWhile_append_of_pos hrun, List.dropWhile_append_of_pos hrun]
  cases rest with
  | nil => simp
  | cons c rest => simp [hrest c rfl]

/-- What follows a run of one class is outside it. -/
theorem head?_dropWhile (p : Char → Bool) (cs : List Char) :
    ∀ c ∈ (cs.dropWhile p).head?, p c = false := by
  intro c hc
  have hnot := List.head?_dropWhile_not p cs
  rw [Option.mem_def.mp hc] at hnot
  exact hnot

/-- A row is of one class, or goes on with something else. -/
theorem dropWhile_cases (p : Char → Bool) (cs : List Char) :
    (∀ c ∈ cs, p c = true) ∨ ∃ d rest, cs.dropWhile p = d :: rest ∧ d ∈ cs := by
  induction cs with
  | nil => exact .inl (by simp)
  | cons c cs ih =>
    by_cases hc : p c = true
    · rw [List.dropWhile_cons_of_pos hc]
      rcases ih with ih | ⟨d, rest, heq, hd⟩
      · exact .inl (List.forall_mem_cons.mpr ⟨hc, ih⟩)
      · exact .inr ⟨d, rest, heq, List.mem_cons_of_mem _ hd⟩
    · exact .inr ⟨c, cs, List.dropWhile_cons_of_neg hc, List.mem_cons_self⟩

end LogQuery.Text
