import LogQuery.Proofs.Query.Passage

/-!
# The order of faults

Faults are reported as reading comes upon them. This is their order in the text, with one exception:
a parenthesis that is never closed is noticed at the end of the tokens but reported where it was
opened, after the connectives that were found missing behind it.

* `Passage.le_of_mem_rest`: no fault stands behind the tokens still to be read;
* `Passage.precedes`: of any two faults, how the first one precedes the second (`Precedes`);
* `faults_inOrder_iff`: the faults of a text are in order exactly if no connective is missing behind
  a parenthesis that is never closed.
-/

namespace LogQuery

/-! ## Tokens in order -/

/-- The tokens stand one behind the other, and none of them behind `last`. -/
structure Ascending (last : Position) (ts : List Token) : Prop where
  order : ts.Pairwise fun t u => t.position < u.position
  bound : ∀ t ∈ ts, t.position ≤ last

theorem Ascending.of_suffix {last : Position} {ts mid : List Token} (h : Ascending last ts)
    (hsuffix : mid <:+ ts) : Ascending last mid :=
  ⟨h.order.sublist hsuffix.sublist, fun t ht => h.bound t (hsuffix.mem ht)⟩

/-- The first token stands before the others. -/
theorem Ascending.head_le {last : Position} {t : Token} {ts : List Token}
    (h : Ascending last (t :: ts)) : ∀ u ∈ t :: ts, t.position ≤ u.position := by
  intro u hu
  rcases List.mem_cons.mp hu with rfl | hu
  · exact Position.le_refl _
  · exact Position.le_of_lt (List.rel_of_pairwise_cons h.order hu)

/-- The tokens of a text. -/
theorem ascending_lastPosition (text : String) :
    Ascending (lastPosition (tokenize text).tokens) (tokenize text).tokens := by
  have horder := ascending_tokenize text
  refine ⟨horder, fun t ht => ?_⟩
  generalize (tokenize text).tokens = ts at horder ht
  rcases List.eq_nil_or_concat ts with rfl | ⟨front, u, rfl⟩
  · cases ht
  · rw [lastPosition, List.concat_eq_append, List.getLast?_concat]
    rw [List.concat_eq_append] at horder ht
    rcases List.mem_append.mp ht with ht | ht
    · exact Position.le_of_lt ((List.pairwise_append.mp horder).2.2 t ht u List.mem_cons_self)
    · rw [List.mem_singleton.mp ht]
      exact Position.le_refl _

/-! ## Faults in order -/

/-- The faults are in the order of the text. -/
def InOrder (faults : List (Located SyntaxFault)) : Prop :=
  faults.Pairwise fun f g => f.position ≤ g.position

instance (faults : List (Located SyntaxFault)) : Decidable (InOrder faults) :=
  inferInstanceAs (Decidable (faults.Pairwise fun f g => f.position ≤ g.position))

/-- How a fault precedes another one: it stands before it, or it is a missing connective before a
parenthesis that is never closed. Nothing is reported after such a parenthesis. -/
def Precedes (f g : Located SyntaxFault) : Prop :=
  f.value ≠ .unclosedParen ∧
    (f.position ≤ g.position ∨ f.value.isRecoverable = true ∧ g.value = .unclosedParen)

theorem exists_key_of_isRecoverable {fault : SyntaxFault} (h : fault.isRecoverable = true) :
    ∃ key, fault = .missingConnective key := by
  cases fault with
  | missingConnective key => exact ⟨key, rfl⟩
  | _ => cases h

theorem ne_unclosedParen_of_isRecoverable {fault : SyntaxFault} (h : fault.isRecoverable = true) :
    fault ≠ .unclosedParen := by
  rintro rfl
  cases h

namespace Passage

variable {last : Position} {ts rest : List Token} {faults : List (Located SyntaxFault)}
  {done : Bool}

/-- As long as reading has not given up, it has found connectives missing and no more. -/
theorem isRecoverable (h : Passage last ts rest faults done) (hdone : done = true) :
    ∀ f ∈ faults, f.value.isRecoverable = true := by
  induction h with
  | stop => simp
  | take => simp
  | gap => simp [SyntaxFault.isRecoverable, SyntaxFault.code, SyntaxCode.isRecoverable]
  | fail => cases hdone
  | exhausted => cases hdone
  | unclosed => cases hdone
  | append _ _ ih ih' => exact List.forall_mem_append.mpr ⟨ih rfl, ih' hdone⟩
  | skip => cases hdone
  | resume => cases hdone

/-- Where a parenthesis is never closed, no tokens are left. -/
theorem rest_of_unclosedParen (h : Passage last ts rest faults done) :
    ∀ f ∈ faults, f.value = .unclosedParen → rest = [] := by
  induction h with
  | stop => simp
  | take => simp
  | gap => simp
  | fail _ hclosed => simp [hclosed]
  | exhausted => simp
  | unclosed => simp
  | append h _ _ ih' =>
    refine List.forall_mem_append.mpr ⟨fun f hf hvalue => ?_, ih'⟩
    exact absurd hvalue (ne_unclosedParen_of_isRecoverable (h.isRecoverable rfl f hf))
  | skip _ ih =>
    intro f hf hvalue
    cases ih f hf hvalue
  | resume _ _ _ ih ih' =>
    refine List.forall_mem_append.mpr ⟨fun f hf hvalue => ?_, ih'⟩
    cases ih f hf hvalue

/-- No fault stands behind the tokens still to be read. -/
theorem le_of_mem_rest (h : Passage last ts rest faults done) (hts : Ascending last ts) :
    ∀ f ∈ faults, ∀ t ∈ rest, f.position ≤ t.position := by
  induction h with
  | stop => simp
  | take => simp
  | gap =>
    intro f hf
    cases List.mem_singleton.mp hf
    exact hts.head_le
  | fail =>
    intro f hf
    cases List.mem_singleton.mp hf
    exact hts.head_le
  | exhausted => simp
  | unclosed => simp
  | append h h' ih ih' =>
    refine List.forall_mem_append.mpr ⟨fun f hf t ht => ?_, ih' (hts.of_suffix h.suffix)⟩
    exact ih hts f hf t (h'.suffix.mem ht)
  | skip _ ih => exact fun f hf t ht => ih hts f hf t (List.mem_cons_of_mem _ ht)
  | resume h _ h' ih ih' =>
    have hsuffix := (List.suffix_cons _ _).trans h.suffix
    refine List.forall_mem_append.mpr ⟨fun f hf t ht => ?_, ih' (hts.of_suffix hsuffix)⟩
    exact ih hts f hf t (List.mem_cons_of_mem _ (h'.suffix.mem ht))

theorem le_last (h : Passage last ts rest faults done) (hts : Ascending last ts) :
    ∀ f ∈ faults, f.position ≤ last := by
  intro f hf
  rcases h.blamed f hf with ⟨t, ht, hplace, -⟩ | rfl
  · rw [hplace]
    exact hts.bound t ht
  · exact Position.le_refl last

/-- What stands before all tokens stands before all faults. -/
theorem le_of_forall_le (h : Passage last ts rest faults done) {p : Position}
    (hts : ∀ t ∈ ts, p ≤ t.position) (hlast : p ≤ last) : ∀ f ∈ faults, p ≤ f.position := by
  intro f hf
  rcases h.blamed f hf with ⟨t, ht, hplace, -⟩ | rfl
  · rw [hplace]
    exact hts t ht
  · exact hlast

/-- Of any two faults, the first one precedes the second. -/
theorem precedes (h : Passage last ts rest faults done) (hts : Ascending last ts) :
    faults.Pairwise Precedes := by
  induction h with
  | stop => exact .nil
  | take => exact .nil
  | gap => exact List.pairwise_singleton _ _
  | fail => exact List.pairwise_singleton _ _
  | exhausted => exact List.pairwise_singleton _ _
  | unclosed _ h ih =>
    refine List.pairwise_append.mpr
      ⟨ih (hts.of_suffix (List.suffix_cons _ _)), List.pairwise_singleton _ _, fun f hf g hg => ?_⟩
    have hf := h.isRecoverable rfl f hf
    cases List.mem_singleton.mp hg
    exact ⟨ne_unclosedParen_of_isRecoverable hf, .inr ⟨hf, rfl⟩⟩
  | append h h' ih ih' =>
    refine List.pairwise_append.mpr
      ⟨ih hts, ih' (hts.of_suffix h.suffix), fun f hf g hg => ⟨?_, .inl ?_⟩⟩
    · exact ne_unclosedParen_of_isRecoverable (h.isRecoverable rfl f hf)
    · exact h'.le_of_forall_le (h.le_of_mem_rest hts f hf) (h.le_last hts f hf) g hg
  | skip _ ih => exact ih hts
  | resume h _ h' ih ih' =>
    have hsuffix := (List.suffix_cons _ _).trans h.suffix
    refine List.pairwise_append.mpr
      ⟨ih hts, ih' (hts.of_suffix hsuffix), fun f hf g hg => ⟨fun hvalue => ?_, .inl ?_⟩⟩
    · -- the keyword is still to be read
      cases h.rest_of_unclosedParen f hf hvalue
    · have hrest := fun t ht => h.le_of_mem_rest hts f hf t (List.mem_cons_of_mem _ ht)
      exact h'.le_of_forall_le hrest (h.le_last hts f hf) g hg

end Passage

/-- Faults that precede each other are in order, unless a connective is missing behind a parenthesis
that is never closed. -/
theorem inOrder_iff_of_precedes {faults : List (Located SyntaxFault)}
    (h : faults.Pairwise Precedes) :
    InOrder faults ↔
      ¬ ∃ p q key, ⟨.unclosedParen, p⟩ ∈ faults ∧ ⟨.missingConnective key, q⟩ ∈ faults ∧ p < q := by
  constructor
  · rintro horder ⟨p, q, key, hparen, hkey, hlt⟩
    -- the parenthesis is the last fault, so the missing connective comes before it
    obtain ⟨front, back, rfl⟩ := List.append_of_mem hparen
    obtain ⟨-, hback, -⟩ := List.pairwise_append.mp h
    obtain ⟨-, -, hfront⟩ := List.pairwise_append.mp horder
    rcases List.mem_append.mp hkey with hkey | hkey
    · exact Position.not_lt.mpr (hfront _ hkey _ List.mem_cons_self) hlt
    · rcases List.mem_cons.mp hkey with heq | hkey
      · cases heq
      · exact (List.rel_of_pairwise_cons hback hkey).1 rfl
  · intro hnone
    refine h.imp_of_mem ?_
    rintro ⟨fault, q⟩ ⟨fault', p⟩ hf hg ⟨-, hle | ⟨hrecoverable, hparen⟩⟩
    · exact hle
    · obtain ⟨key, rfl⟩ := exists_key_of_isRecoverable hrecoverable
      cases hparen
      exact Position.not_lt.mp fun hlt => hnone ⟨p, q, key, hg, hf, hlt⟩

/-- The faults of a text are in the order of the text but for the last one, and all of them are
exactly if no connective is reported missing behind a parenthesis that is reported as never
closed. -/
theorem faults_inOrder_iff (text : String) :
    let faults := (Query.ofTokens (tokenize text).tokens).faults
    InOrder faults.dropLast ∧
      (InOrder faults ↔
        ¬ ∃ p q key, ⟨.unclosedParen, p⟩ ∈ faults ∧ ⟨.missingConnective key, q⟩ ∈ faults ∧
          p < q) := by
  intro faults
  obtain ⟨rest, done, hpassage⟩ := passage_ofTokens (tokenize text).tokens
  have hprecedes : faults.Pairwise Precedes := hpassage.precedes (ascending_lastPosition text)
  refine ⟨?_, inOrder_iff_of_precedes hprecedes⟩
  rcases List.eq_nil_or_concat faults with hnil | ⟨front, g, hconcat⟩
  · rw [hnil]
    exact .nil
  · rw [hconcat, List.concat_eq_append] at hprecedes ⊢
    obtain ⟨hfront, -, hlast⟩ := List.pairwise_append.mp hprecedes
    rw [List.dropLast_concat, inOrder_iff_of_precedes hfront]
    rintro ⟨p, q, key, hparen, -, -⟩
    exact (hlast _ hparen g List.mem_cons_self).1 rfl

/-- In a parenthesis that is never closed, a connective is missing: the parenthesis is reported last
and stands first. -/
theorem faults_out_of_order :
    (Query.ofTokens (tokenize "(a = 1 b = 2").tokens).faults =
        [⟨.missingConnective "b", ⟨1, 8⟩⟩, ⟨.unclosedParen, ⟨1, 1⟩⟩] ∧
      ¬ InOrder (Query.ofTokens (tokenize "(a = 1 b = 2").tokens).faults := by
  decide +kernel

end LogQuery
