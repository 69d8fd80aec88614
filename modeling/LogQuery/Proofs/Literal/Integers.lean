import LogQuery.Proofs.Number.Numeral
import LogQuery.Proofs.Text.Classes

/-!
# Integers in values without quotes

A value without quotes is an integer exactly if it is a numeral whose value a floating-point number
holds exactly. Three readers have to agree on that: one looks at the digits, one reads them as a
number of 128 bits to compare it with the limit, and one reads the whole text as an integer of 64
bits. Neither of the latter two ever runs out of range where it would matter.

* `readInteger?_source`: what the three readers make of a numeral;
* `ofText_numeral`, `ofText_eq_integer_iff`: which values are integers, and which integers.
-/

namespace LogQuery

open Text

/-! ## The characters of a numeral -/

namespace Numeral

theorem isKeyChar_of_mem_source {n : Numeral} : ∀ c ∈ n.source, isKeyChar c = true := by
  have hdigits : ∀ c ∈ n.digits, isKeyChar c = true :=
    fun c hc => isKeyChar_of_isDigit (n.isDigit_of_mem hc)
  rw [source]
  split
  · exact List.forall_mem_cons.mpr ⟨by decide, hdigits⟩
  · exact hdigits

/-- A numeral starts before all letters. -/
theorem source_starts (n : Numeral) : ∃ c cs, n.source = c :: cs ∧ c.toNat < 'A'.toNat := by
  rw [source]
  split
  · exact ⟨'-', _, rfl, by decide⟩
  · obtain ⟨c, digits, hdigits, hc⟩ := n.exists_digits_eq
    have hlast := (Char.isDigit_iff_toNat.mp hc).2
    exact ⟨c, digits, hdigits, Nat.lt_of_le_of_lt hlast (by decide)⟩

theorem toList_text (n : Numeral) : n.text.toList = n.source := String.toList_ofList

theorem splitMinus_source (n : Numeral) : Literal.splitMinus n.source = (n.negative, n.digits) := by
  rw [source]
  cases n.negative with
  | true => rfl
  | false =>
    obtain ⟨c, digits, hdigits, hc⟩ := n.exists_digits_eq
    rw [if_neg Bool.false_ne_true, hdigits]
    unfold Literal.splitMinus
    split
    · rename_i hminus
      cases hminus
      exact absurd hc (by decide)
    · rfl

end Numeral

theorem toLower_of_lt {c : Char} (h : c.toNat < 'A'.toNat) : c.toLower = c := by
  have hupper : ¬ (c.val ≥ 'A'.val ∧ c.val ≤ 'Z'.val) := by
    rintro ⟨hfirst, -⟩
    exact absurd (UInt32.le_iff_toNat_le.mp hfirst) (Nat.not_le.mpr h)
  exact dif_neg hupper

/-- Words that start differently are different. -/
theorem sameWord_eq_false {a b : String} {c d : Char} {cs ds : List Char} (ha : a.toList = c :: cs)
    (hb : b.toList = d :: ds) (h : c.toLower ≠ d.toLower) : sameWord a b = false := by
  rw [sameWord, ha, hb, List.map_cons, List.map_cons, List.cons_beq_cons, beq_false_of_ne h]
  rfl

/-- A numeral is no word that starts with a letter. -/
theorem sameWord_numeral (n : Numeral) {word : String} {d : Char} {ds : List Char}
    (hword : word.toList = d :: ds) (hd : 'A'.toNat ≤ d.toLower.toNat) :
    sameWord n.text word = false := by
  obtain ⟨c, cs, hcs, hc⟩ := n.source_starts
  refine sameWord_eq_false (n.toList_text.trans hcs) hword ?_
  rw [toLower_of_lt hc]
  rintro rfl
  exact absurd hd (Nat.not_le.mpr hc)

/-! ## Reading integers -/

namespace Literal

/-- The limit is well within 128 bits, so a number that does not fit is above it. -/
theorem isExact_digits (n : Numeral) :
    isExact n.digits = decide (placeValue n.digits ≤ maxInteger) := by
  have hread : (FixedWidth.unsigned 128).read? n.digits =
      (FixedWidth.unsigned 128).check? (placeValue n.digits) :=
    FixedWidth.read?_source (n := ⟨false, n.digits, n.isDigits⟩) (by simp)
  have hlow : (FixedWidth.unsigned 128).low = 0 := rfl
  have hhigh : (maxInteger : Int) ≤ (FixedWidth.unsigned 128).high := by decide
  rw [isExact, hread]
  rcases FixedWidth.check?_cases (.unsigned 128) (placeValue n.digits) with hcheck | hcheck
  · rw [hcheck]
    exact decide_eq_decide.mpr Int.ofNat_le
  · rw [hcheck]
    refine (decide_eq_false fun hle => ?_).symm
    rw [FixedWidth.check?_eq_some (by omega)] at hcheck
    cases hcheck

/-- A numeral is read as an integer if that is held exactly; then 64 bits are enough for it. -/
theorem readInteger?_source (n : Numeral) :
    readInteger? n.source = if n.value.natAbs ≤ maxInteger then some n.value else none := by
  have hlow : (FixedWidth.signed 64).low ≤ -(maxInteger : Int) := by decide
  have hhigh : (maxInteger : Int) ≤ (FixedWidth.signed 64).high := by decide
  rw [readInteger?, n.splitMinus_source]
  dsimp only
  rw [n.isDigits, Bool.true_and, isExact_digits, n.natAbs_value]
  by_cases hle : placeValue n.digits ≤ maxInteger
  · have hvalue := n.natAbs_value
    rw [decide_eq_true hle, if_pos rfl, if_pos hle,
      FixedWidth.read?_source (fun _ => by decide),
      FixedWidth.check?_eq_some (by omega)]
  · rw [decide_eq_false hle, if_neg Bool.false_ne_true, if_neg hle]

/-- Nothing but a numeral is read as an integer. -/
theorem exists_source_eq {cs : List Char} {v : Int} (h : readInteger? cs = some v) :
    ∃ n : Numeral, n.source = cs := by
  rw [readInteger?] at h
  split at h
  · rename_i hdigits
    refine ⟨⟨(splitMinus cs).1, (splitMinus cs).2, (Bool.and_eq_true_iff.mp hdigits).1⟩, ?_⟩
    rw [Numeral.source]
    dsimp only
    unfold splitMinus
    split <;> rfl
  · cases h

theorem readInteger?_eq_some_iff {cs : List Char} {v : Int} :
    readInteger? cs = some v ↔
      ∃ n : Numeral, n.source = cs ∧ n.value = v ∧ v.natAbs ≤ maxInteger := by
  constructor
  · intro h
    obtain ⟨n, rfl⟩ := exists_source_eq h
    rw [readInteger?_source] at h
    split at h
    · rename_i hle
      cases h
      exact ⟨n, rfl, rfl, hle⟩
    · cases h
  · rintro ⟨n, rfl, rfl, hle⟩
    rw [readInteger?_source, if_pos hle]

/-- A numeral has no point. -/
theorem readFloat?_numeral (n : Numeral) : readFloat? n.source = none := by
  have hdrop : n.digits.dropWhile Char.isDigit = [] := by
    rw [← List.append_nil n.digits]
    exact (takeWhile_run (fun c hc => n.isDigit_of_mem hc) (by simp)).2
  rw [readFloat?, isPointed, n.splitMinus_source]
  dsimp only
  rw [hdrop]
  rfl

/-- A numeral stands in no quotes. -/
theorem stripQuotes_source (n : Numeral) : stripQuotes n.source = n.source := by
  have hkey := n.isKeyChar_of_mem_source
  unfold stripQuotes
  split
  · rename_i c d rest hsource
    rw [hsource] at hkey
    rw [isQuote_of_isKeyChar (hkey c List.mem_cons_self), Bool.false_and]
    rfl
  · rfl

/-- A value without quotes that is a numeral: the integer if it is held exactly, else the text. -/
theorem ofText_numeral (n : Numeral) :
    ofText n.text false =
      if n.value.natAbs ≤ maxInteger then integer n.value else string n.text := by
  rw [ofText, sameWord_numeral n rfl (by decide), sameWord_numeral n rfl (by decide),
    sameWord_numeral n rfl (by decide), n.toList_text, readFloat?_numeral, readInteger?_source,
    stripQuotes_source]
  by_cases hle : n.value.natAbs ≤ maxInteger
  · rw [if_pos hle, if_pos hle]
    rfl
  · rw [if_neg hle, if_neg hle]
    rfl

/-- Only numerals are integers. -/
theorem ofText_eq_integer_iff {text : String} {quoted : Bool} {v : Int} :
    ofText text quoted = integer v ↔
      quoted = false ∧ ∃ n : Numeral, n.text = text ∧ n.value = v ∧ v.natAbs ≤ maxInteger := by
  constructor
  · intro h
    unfold ofText at h
    split at h
    · cases h
    rename_i hquoted
    split at h
    · cases h
    split at h
    · cases h
    split at h
    · cases h
    split at h
    · cases h
    split at h
    · rename_i j hj
      cases h
      obtain ⟨n, hsource, hvalue, hle⟩ := readInteger?_eq_some_iff.mp hj
      refine ⟨Bool.eq_false_iff.mpr hquoted, n, ?_, hvalue, hle⟩
      rw [Numeral.text, hsource, String.ofList_toList]
    · cases h
  · rintro ⟨rfl, n, rfl, rfl, hle⟩
    rw [ofText_numeral, if_pos hle]

/-- An integer that a value stands for is one of those that are held exactly. -/
theorem natAbs_le_of_ofText {text : String} {quoted : Bool} {i : Int}
    (h : ofText text quoted = integer i) : i.natAbs ≤ maxInteger := by
  obtain ⟨-, n, -, -, hle⟩ := ofText_eq_integer_iff.mp h
  exact hle

end Literal

end LogQuery
