import LogQuery.Literal

/-!
# Numerals

An integer in writing is a minus sign or none, and at least one digit (`Numeral`). Its value is given
by the places of the digits, apart from how it is read; among the numerals of one value, exactly one
is canonical, without leading zeros and without a minus sign in front of zero.

* `ofDigits_eq_placeValue`: reading digits from left to right gives each one its place;
* `Numeral.eq_ofInt`: the canonical numeral of an integer is its decimal text;
* `FixedWidth.pushAll?_withSign`, `FixedWidth.read?_source`: a numeral is read as an integer of a
  fixed width exactly if the width holds its value.
-/

namespace LogQuery

/-! ## Digits -/

/-- The number that a row of digits stands for: each digit counts for its place. -/
def placeValue : List Char → Nat
  | [] => 0
  | c :: rest => (c.toNat - '0'.toNat) * Nat.pow 10 rest.length + placeValue rest

theorem ofDigitChars_eq (digits : List Char) (m : Nat) :
    Nat.ofDigitChars 10 digits m = m * Nat.pow 10 digits.length + placeValue digits := by
  induction digits generalizing m with
  | nil => exact (Nat.mul_one m).symm
  | cons c digits ih =>
    have hpow : Nat.pow 10 (c :: digits).length = Nat.pow 10 digits.length * 10 := rfl
    calc Nat.ofDigitChars 10 (c :: digits) m
        = Nat.ofDigitChars 10 digits (10 * m + (c.toNat - '0'.toNat)) := rfl
      _ = m * (Nat.pow 10 digits.length * 10) +
            ((c.toNat - '0'.toNat) * Nat.pow 10 digits.length + placeValue digits) := by
          rw [ih]
          grind
      _ = m * Nat.pow 10 (c :: digits).length + placeValue (c :: digits) := by
          rw [hpow, placeValue]

theorem ofDigits_eq_placeValue (digits : List Char) :
    Decimal.ofDigits digits = placeValue digits := by
  rw [Decimal.ofDigits, ofDigitChars_eq, Nat.zero_mul, Nat.zero_add]

/-- More digits never make a number smaller. -/
theorem le_ofDigitChars (digits : List Char) (m : Nat) : m ≤ Nat.ofDigitChars 10 digits m := by
  have hpos : 0 < Nat.pow 10 digits.length := Nat.pow_pos (by decide)
  rw [ofDigitChars_eq]
  exact Nat.le_trans (Nat.le_mul_of_pos_right m hpos) (Nat.le_add_right ..)

/-- A digit is printed back from its value. -/
theorem digitChar_of_isDigit {c : Char} (h : c.isDigit = true) :
    c.toNat - '0'.toNat < 10 ∧ Nat.digitChar (c.toNat - '0'.toNat) = c := by
  obtain ⟨hlow, hhigh⟩ := Char.isDigit_iff_toNat.mp h
  have hzero : '0'.toNat = 48 := rfl
  have hnine : '9'.toNat = 57 := rfl
  have hlt : c.toNat - '0'.toNat < 10 := by omega
  refine ⟨hlt, Char.toNat_inj.mp ?_⟩
  rw [Nat.toNat_digitChar_of_lt_ten hlt]
  omega

/-- A positive number is printed as the digits that it is read from. -/
theorem toDigits_ofDigitChars {digits : List Char} (hdigits : ∀ c ∈ digits, c.isDigit = true)
    {m : Nat} (hm : 0 < m) :
    Nat.toDigits 10 (Nat.ofDigitChars 10 digits m) = Nat.toDigits 10 m ++ digits := by
  induction digits generalizing m with
  | nil => exact (List.append_nil _).symm
  | cons c digits ih =>
    obtain ⟨hc, hmore⟩ := List.forall_mem_cons.mp hdigits
    obtain ⟨hdigit, hchar⟩ := digitChar_of_isDigit hc
    have hpos : 0 < 10 * m + (c.toNat - '0'.toNat) := by omega
    calc Nat.toDigits 10 (Nat.ofDigitChars 10 (c :: digits) m)
        = Nat.toDigits 10 (10 * m + (c.toNat - '0'.toNat)) ++ digits := ih hmore hpos
      _ = Nat.toDigits 10 m ++ [c] ++ digits := by
          rw [← Nat.toDigits_append_toDigits (by decide) hm hdigit,
            Nat.toDigits_of_lt_base hdigit, hchar]
      _ = Nat.toDigits 10 m ++ c :: digits := by rw [List.append_assoc, List.singleton_append]

/-- A row of digits that does not start with a zero is printed back from its number. -/
theorem toDigits_placeValue {c : Char} {digits : List Char} (hc : c ≠ '0')
    (hdigits : ∀ d ∈ c :: digits, d.isDigit = true) :
    0 < placeValue (c :: digits) ∧ Nat.toDigits 10 (placeValue (c :: digits)) = c :: digits := by
  obtain ⟨hfirst, hmore⟩ := List.forall_mem_cons.mp hdigits
  obtain ⟨hlt, hchar⟩ := digitChar_of_isDigit hfirst
  have hpos : 0 < c.toNat - '0'.toNat := by
    refine Nat.pos_of_ne_zero fun hzero => hc ?_
    rw [← hchar, hzero]
    rfl
  have hvalue : placeValue (c :: digits) = Nat.ofDigitChars 10 digits (c.toNat - '0'.toNat) :=
    (ofDigitChars_eq digits _).symm
  rw [hvalue]
  refine ⟨Nat.lt_of_lt_of_le hpos (le_ofDigitChars digits _), ?_⟩
  rw [toDigits_ofDigitChars hmore hpos, Nat.toDigits_of_lt_base hlt, hchar, List.singleton_append]

theorem placeValue_toDigits (n : Nat) : placeValue (Nat.toDigits 10 n) = n := by
  rw [← ofDigits_eq_placeValue, Decimal.ofDigits, Nat.ofDigitChars_ten_toDigits]

theorem isDigits_toDigits (n : Nat) : Literal.isDigits (Nat.toDigits 10 n) = true := by
  have hall : (Nat.toDigits 10 n).all Char.isDigit = true :=
    List.all_eq_true.mpr fun c hc => Nat.isDigit_of_mem_toDigits (by decide) (by decide) hc
  rw [Literal.isDigits, hall]
  simp

/-- A positive number is printed without leading zeros. -/
theorem head?_toDigits {n : Nat} (h : 0 < n) : (Nat.toDigits 10 n).head? ≠ some '0' := by
  induction n using Nat.strongRecOn with
  | ind n ih =>
    by_cases hn : n < 10
    · rw [Nat.toDigits_of_lt_base hn, List.head?_cons, ne_eq, Option.some.injEq,
        Nat.digitChar_eq_zero]
      exact Nat.ne_of_gt h
    · have hfirst := ih (n / 10) (by omega) (by omega)
      rw [Nat.toDigits_of_base_le (by decide) (Nat.le_of_not_lt hn)]
      cases hdigits : Nat.toDigits 10 (n / 10) with
      | nil => exact absurd hdigits Nat.toDigits_ne_nil
      | cons c digits =>
        rw [hdigits] at hfirst
        exact hfirst

/-! ## Numerals -/

/-- A natural number with a minus sign or without one. -/
def withSign (negative : Bool) (n : Nat) : Int := if negative then -(n : Int) else n

theorem withSign_true (n : Nat) : withSign true n = -(n : Int) := rfl

theorem withSign_false (n : Nat) : withSign false n = n := rfl

theorem natAbs_withSign (negative : Bool) (n : Nat) : (withSign negative n).natAbs = n := by
  cases negative with
  | true => rw [withSign_true, Int.natAbs_neg, Int.natAbs_natCast]
  | false => rw [withSign_false, Int.natAbs_natCast]

/-- An integer in writing: a minus sign or none, and at least one digit. -/
@[ext]
structure Numeral where
  negative : Bool
  digits : List Char
  isDigits : Literal.isDigits digits = true

namespace Numeral

/-- The characters of a numeral. -/
def source (n : Numeral) : List Char := if n.negative then '-' :: n.digits else n.digits

def text (n : Numeral) : String := String.ofList n.source

/-- The integer that a numeral stands for. -/
def value (n : Numeral) : Int := withSign n.negative (placeValue n.digits)

/-- Zero is written as one digit without a sign, every other integer without leading zeros. -/
def isCanonical (n : Numeral) : Bool :=
  (!n.negative && n.digits == ['0']) || n.digits.head? != some '0'

/-- The canonical numeral of an integer. -/
def ofInt (v : Int) : Numeral :=
  ⟨decide (v < 0), Nat.toDigits 10 v.natAbs, isDigits_toDigits v.natAbs⟩

theorem isDigit_of_mem {n : Numeral} {c : Char} (h : c ∈ n.digits) : c.isDigit = true := by
  have hdigits := n.isDigits
  rw [Literal.isDigits, Bool.and_eq_true] at hdigits
  exact List.all_eq_true.mp hdigits.2 c h

/-- The first digit, and those behind it. -/
theorem exists_digits_eq (n : Numeral) :
    ∃ c digits, n.digits = c :: digits ∧ c.isDigit = true := by
  cases hdigits : n.digits with
  | nil =>
    have hnot := n.isDigits
    rw [hdigits] at hnot
    cases hnot
  | cons c digits => exact ⟨c, digits, rfl, n.isDigit_of_mem (by rw [hdigits]; simp)⟩

theorem natAbs_value (n : Numeral) : n.value.natAbs = placeValue n.digits :=
  natAbs_withSign n.negative (placeValue n.digits)

theorem value_ofInt (v : Int) : (ofInt v).value = v := by
  rw [value, ofInt, placeValue_toDigits]
  by_cases hv : v < 0
  · rw [decide_eq_true hv, withSign_true]
    omega
  · rw [decide_eq_false hv, withSign_false]
    omega

theorem text_ofInt (v : Int) : (ofInt v).text = Decimal.integerText v := by
  rw [text, source, ofInt, Decimal.integerText, Nat.repr_eq_ofList_toDigits]
  by_cases hv : v < 0
  · rw [decide_eq_true hv, if_pos rfl, if_pos hv, ← String.toList_inj]
    simp
  · rw [decide_eq_false hv, if_neg Bool.false_ne_true, if_neg hv]

theorem isCanonical_ofInt (v : Int) : (ofInt v).isCanonical = true := by
  rw [isCanonical, Bool.or_eq_true]
  by_cases hv : v = 0
  · subst hv
    exact .inl rfl
  · exact .inr (bne_iff_ne.mpr (head?_toDigits (Int.natAbs_pos.mpr hv)))

/-- An integer has one canonical numeral only. -/
theorem eq_ofInt {n : Numeral} (h : n.isCanonical = true) : n = ofInt n.value := by
  have hext : n.negative = decide (n.value < 0) ∧ n.digits = Nat.toDigits 10 n.value.natAbs := by
    rw [isCanonical, Bool.or_eq_true, Bool.and_eq_true, Bool.not_eq_true', beq_iff_eq,
      bne_iff_ne] at h
    obtain ⟨c, digits, hdigits, -⟩ := n.exists_digits_eq
    rw [natAbs_value, value, hdigits]
    rcases h with ⟨hnegative, hzero⟩ | hhead
    · rw [hnegative, ← hdigits, hzero]
      exact ⟨rfl, rfl⟩
    · have hc : c ≠ '0' := by
        rintro rfl
        exact hhead (by rw [hdigits, List.head?_cons])
      obtain ⟨hpos, hprinted⟩ :=
        toDigits_placeValue hc fun d hd => n.isDigit_of_mem (hdigits ▸ hd)
      refine ⟨?_, hprinted.symm⟩
      cases n.negative with
      | false => exact (decide_eq_false (by rw [withSign_false]; omega)).symm
      | true => exact (decide_eq_true (by rw [withSign_true]; omega)).symm
  exact Numeral.ext hext.1 hext.2

end Numeral

/-! ## Reading integers of a fixed width -/

namespace FixedWidth

variable {w : FixedWidth}

theorem check?_eq_some {i : Int} (h : w.low ≤ i ∧ i ≤ w.high) : w.check? i = some i := if_pos h

theorem check?_cases (w : FixedWidth) (i : Int) : w.check? i = some i ∨ w.check? i = none := by
  rw [check?]
  split
  · exact .inl rfl
  · exact .inr rfl

/-- A number that is out of range stays so when it grows. -/
theorem check?_eq_none_of_le {negative : Bool} {m n : Nat}
    (hle : m ≤ n) (h : w.check? (withSign negative m) = none) :
    w.check? (withSign negative n) = none := by
  rw [check?, ite_eq_right_iff] at h ⊢
  intro hrange
  refine absurd (h ?_) (by simp)
  have hlow := w.low_le
  have hhigh := w.le_high
  cases negative with
  | true =>
    rw [withSign_true] at hrange ⊢
    omega
  | false =>
    rw [withSign_false] at hrange ⊢
    omega

/-- Both checks of a step come to one, of the number with the digit behind it. -/
theorem push?_withSign (negative : Bool) (m : Nat)
    {c : Char} (hc : c.isDigit = true) :
    w.push? negative (withSign negative m) c =
      w.check? (withSign negative (10 * m + (c.toNat - '0'.toNat))) := by
  have htens : 10 * withSign negative m = withSign negative (10 * m) := by
    cases negative with
    | false => rfl
    | true => exact Int.mul_neg 10 m
  have hsum : ∀ digit : Nat, (if negative then withSign negative (10 * m) - (digit : Int)
      else withSign negative (10 * m) + (digit : Int)) = withSign negative (10 * m + digit) := by
    intro digit
    cases negative with
    | false => rfl
    | true =>
      rw [if_pos rfl, withSign_true, withSign_true]
      omega
  rw [push?, if_pos hc]
  dsimp only
  rw [htens]
  rcases w.check?_cases (withSign negative (10 * m)) with hcheck | hcheck
  · rw [hcheck, Option.bind_some, hsum]
  · rw [hcheck, check?_eq_none_of_le (Nat.le_add_right ..) hcheck]
    rfl

/-- All checks on the way come to one of the number that is read. -/
theorem pushAll?_withSign (negative : Bool)
    {digits : List Char} (hdigits : ∀ c ∈ digits, c.isDigit = true) {m : Nat}
    (hm : w.check? (withSign negative m) = some (withSign negative m)) :
    w.pushAll? negative (withSign negative m) digits =
      w.check? (withSign negative (Nat.ofDigitChars 10 digits m)) := by
  induction digits generalizing m with
  | nil => exact hm.symm
  | cons c digits ih =>
    obtain ⟨hc, hmore⟩ := List.forall_mem_cons.mp hdigits
    rw [pushAll?, push?_withSign negative m hc, Nat.ofDigitChars_cons]
    rcases w.check?_cases (withSign negative (10 * m + (c.toNat - '0'.toNat))) with hcheck | hcheck
    · rw [hcheck, Option.bind_some, ih hmore hcheck]
    · rw [hcheck, check?_eq_none_of_le (le_ofDigitChars digits _) hcheck]
      rfl

/-- A numeral is read as its value, if the width holds that. -/
theorem read?_source {n : Numeral}
    (hsign : n.negative = true → w.low < 0) : w.read? n.source = w.check? n.value := by
  obtain ⟨c, digits, hdigits, hc⟩ := n.exists_digits_eq
  have hsplit : Decimal.splitSign n.source = (n.negative, n.digits) := by
    rw [Numeral.source]
    cases n.negative with
    | true => rfl
    | false =>
      rw [if_neg Bool.false_ne_true, hdigits]
      unfold Decimal.splitSign
      split
      · rename_i hminus
        cases hminus
        exact absurd hc (by decide)
      · rename_i hplus
        cases hplus
        exact absurd hc (by decide)
      · rfl
  have htaken : (n.digits.isEmpty || n.negative && decide (0 ≤ w.low)) = false := by
    rw [hdigits, List.isEmpty_cons, Bool.false_or, Bool.and_eq_false_iff, decide_eq_false_iff_not]
    cases hnegative : n.negative with
    | false => exact .inl rfl
    | true => exact .inr (Int.not_le.mpr (hsign hnegative))
  have hzero : (0 : Int) = withSign n.negative 0 := by
    cases n.negative <;> rfl
  rw [read?, hsplit]
  dsimp only
  rw [htaken, if_neg Bool.false_ne_true, hzero,
    pushAll?_withSign n.negative (fun d hd => n.isDigit_of_mem hd)
      (check?_eq_some (by rw [← hzero]; exact ⟨w.low_le, w.le_high⟩)),
    ← Decimal.ofDigits, ofDigits_eq_placeValue, Numeral.value]

end FixedWidth

end LogQuery
