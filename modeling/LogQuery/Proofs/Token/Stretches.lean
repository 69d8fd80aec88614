import LogQuery.Proofs.Token.PrintedField

/-!
# The stretches of a key

A key is a row of stretches with dots between them, each a name that a quoted segment may stand in
front of; what the key stands for is made up of their contents. A printed field is no longer than any
key that stands for it, since quotes are printed only where a stretch cannot do without them. So a
key that is printed as it stands is made up exactly as printing makes it up.

* `isRow_of_readKey`: every key is a row of stretches;
* `segments_stretch`, `segments_row`: a stretch is one segment, which its content makes up;
* `length_printed_le`: a stretch is no shorter than its content is printed;
* `parts_of_print`: a key that stands for the field it is printed from has that field's parts.
-/

namespace LogQuery

open Text

/-- A stretch of a key between two dots. -/
inductive Stretch where
  | name (run : List Char)
  | quoted (quote : Char) (body run : List Char)

namespace Stretch

/-- The parts of a key that make up the stretch. -/
def parts : Stretch → List KeyPart
  | name run => run.map .plain
  | quoted quote body run => .segment quote body :: run.map .plain

/-- The characters that the stretch is written with. -/
def source : Stretch → List Char
  | name run => run
  | quoted quote body run => quote :: (body ++ quote :: run)

/-- The characters that the stretch stands for. -/
def content : Stretch → List Char
  | name run => run
  | quoted _ body run => body ++ run

/-- Does the stretch consist of name characters, but for a quoted text that closes? -/
def IsWellFormed : Stretch → Prop
  | name run => ∀ c ∈ run, isNameChar c = true
  | quoted quote body run =>
    isQuote quote = true ∧ (∃ text, Quotes quote body text) ∧ ∀ c ∈ run, isNameChar c = true

theorem source_parts (s : Stretch) : s.parts.flatMap KeyPart.source = s.source := by
  cases s <;> simp [parts, source, KeyPart.source, List.flatMap_map]

theorem length_source_quoted (quote : Char) (body run : List Char) :
    (quoted quote body run).source.length = (quoted quote body run).content.length + 2 := by
  simp [source, content]
  omega

end Stretch

/-! ## Keys as rows of stretches -/

theorem cons_intercalate {α : Type} (a : α) (separator first : List α) (more : List (List α)) :
    a :: List.intercalate separator (first :: more) =
      List.intercalate separator ((a :: first) :: more) := by
  cases more with
  | nil => rw [List.intercalate_singleton, List.intercalate_singleton]
  | cons next more =>
    rw [List.intercalate_cons_cons, List.intercalate_cons_cons]
    rfl

theorem isNameChar_of_isKeyChar {c : Char} (h : isKeyChar c = true) (hdot : c ≠ '.') :
    isNameChar c = true := by
  rw [isKeyChar, Bool.or_eq_true, beq_iff_eq] at h
  exact h.resolve_right hdot

/-- The parts are those of stretches with dots between them; only where a segment may start at once
can the first stretch be quoted. -/
def IsRow (opening : Bool) (parts : List KeyPart) : Prop :=
  ∃ first more, (opening = false → ∃ run, first = Stretch.name run) ∧
    (∀ s ∈ first :: more, s.IsWellFormed) ∧
    parts = List.intercalate [.plain '.'] ((first :: more).map Stretch.parts)

theorem isRow_nil (opening : Bool) : IsRow opening [] :=
  ⟨.name [], [], fun _ => ⟨[], rfl⟩, by simp [Stretch.IsWellFormed], rfl⟩

theorem isRow_dot (opening : Bool) {parts : List KeyPart} (h : IsRow true parts) :
    IsRow opening (.plain '.' :: parts) := by
  obtain ⟨first, more, -, hwell, rfl⟩ := h
  refine ⟨.name [], first :: more, fun _ => ⟨[], rfl⟩, List.forall_mem_cons.mpr ⟨?_, hwell⟩, rfl⟩
  simp [Stretch.IsWellFormed]

theorem isRow_plain (opening : Bool) {c : Char} (hc : isNameChar c = true) {parts : List KeyPart}
    (h : IsRow false parts) : IsRow opening (.plain c :: parts) := by
  obtain ⟨first, more, hfirst, hwell, rfl⟩ := h
  obtain ⟨run, rfl⟩ := hfirst rfl
  obtain ⟨hrun, hmore⟩ := List.forall_mem_cons.mp hwell
  refine ⟨.name (c :: run), more, fun _ => ⟨_, rfl⟩, ?_, cons_intercalate _ _ _ _⟩
  exact List.forall_mem_cons.mpr ⟨List.forall_mem_cons.mpr ⟨hc, hrun⟩, hmore⟩

theorem isRow_segment {quote : Char} (hquote : isQuote quote = true) {body text : List Char}
    (hbody : Quotes quote body text) {parts : List KeyPart} (h : IsRow false parts) :
    IsRow true (.segment quote body :: parts) := by
  obtain ⟨first, more, hfirst, hwell, rfl⟩ := h
  obtain ⟨run, rfl⟩ := hfirst rfl
  obtain ⟨hrun, hmore⟩ := List.forall_mem_cons.mp hwell
  refine ⟨.quoted quote body run, more, nofun, ?_, cons_intercalate _ _ _ _⟩
  exact List.forall_mem_cons.mpr ⟨⟨hquote, ⟨text, hbody⟩, hrun⟩, hmore⟩

/-- Every key is a row of stretches. -/
theorem isRow_of_readKey {opening : Bool} {cs rest : List Char} {parts : List KeyPart}
    (h : readKey opening cs = some (parts, rest)) : IsRow opening parts := by
  fun_induction readKey opening cs generalizing parts rest with
  | case1 =>
    cases h
    exact isRow_nil _
  | case2 opening c tail hc ih =>
    obtain ⟨⟨parts, rest⟩, hread, heq⟩ := Option.map_eq_some_iff.mp h
    cases heq
    have hrest := ih hread
    by_cases hdot : c = '.'
    · subst hdot
      exact isRow_dot opening hrest
    · rw [beq_false_of_ne hdot] at hrest
      exact isRow_plain opening (isNameChar_of_isKeyChar hc hdot) hrest
  | case3 => cases h
  | case4 opening c tail hc hquote body tail' hbody ih =>
    obtain ⟨⟨parts, rest⟩, hread, heq⟩ := Option.map_eq_some_iff.mp h
    cases heq
    obtain ⟨hisQuote, rfl⟩ := Bool.and_eq_true_iff.mp hquote
    exact isRow_segment hisQuote (quotes_of_readQuoted hbody) (ih hread)
  | case5 =>
    cases h
    exact isRow_nil _

/-! ## What a key stands for -/

/-- A stretch is one segment, which its content makes up. -/
theorem segments_stretch {s : Stretch} (h : s.IsWellFormed) (rest : List Char) :
    Field.segments none [] (s.source ++ rest) = Field.segments none s.content.reverse rest := by
  cases s with
  | name run =>
    have hname := segments_name [] h rest
    rw [List.append_nil] at hname
    exact hname
  | quoted quote body run =>
    obtain ⟨hquote, ⟨text, hbody⟩, hrun⟩ := h
    have hopen : Field.segments none [] (quote :: (body ++ quote :: (run ++ rest))) =
        Field.segments (some quote) [] (body ++ quote :: (run ++ rest)) := by
      rw [Field.segments, hquote]
      rfl
    have hsource : (Stretch.quoted quote body run).source ++ rest =
        quote :: (body ++ quote :: (run ++ rest)) := by
      simp [Stretch.source]
    rw [hsource, hopen, segments_quoted (ne_escape_of_isQuote hquote) hbody, segments_name _ hrun]
    simp [Stretch.content]

/-- The parts of a row of stretches are written as the stretches are. -/
theorem source_intercalate (stretches : List Stretch) :
    (List.intercalate [.plain '.'] (stretches.map Stretch.parts)).flatMap KeyPart.source =
      List.intercalate ['.'] (stretches.map Stretch.source) := by
  rw [Arrangement.apply_intercalate rfl fun _ _ => List.flatMap_append, List.map_map]
  exact congrArg _ (List.map_congr_left fun s _ => Stretch.source_parts s)

/-- A row of stretches is cut at the dots between them, into their contents. -/
theorem segments_row {stretches : List Stretch} (hne : stretches ≠ [])
    (h : ∀ s ∈ stretches, s.IsWellFormed) :
    Field.segments none [] (List.intercalate ['.'] (stretches.map Stretch.source)) =
      stretches.map Stretch.content :=
  segments_intercalate hne fun s hs => segments_stretch (h s hs)

/-- A segment as it is printed. -/
def printed (segment : List Char) : List Char :=
  (Field.printSegment (String.ofList segment)).toList

/-- A segment is printed as it stands if it can be, and else in quotes. -/
theorem printed_cases (segment : List Char) :
    (Field.isPlainSegment (String.ofList segment) = true ∧ printed segment = segment) ∨
    (Field.isPlainSegment (String.ofList segment) = false ∧
      printed segment = '"' :: (segment ++ ['"'])) := by
  rw [printed]
  cases hplain : Field.isPlainSegment (String.ofList segment) with
  | true =>
    rw [Field.printSegment, if_pos hplain, String.toList_ofList]
    exact .inl ⟨rfl, rfl⟩
  | false =>
    rw [toList_printSegment hplain, String.toList_ofList]
    exact .inr ⟨rfl, rfl⟩

theorem isPlainSegment_of_run {run : List Char} (hne : run ≠ [])
    (h : ∀ c ∈ run, isNameChar c = true) : Field.isPlainSegment (String.ofList run) = true := by
  rw [Field.isPlainSegment, String.toList_ofList, Bool.and_eq_true, List.all_eq_true]
  refine ⟨?_, h⟩
  simpa using hne

/-- A stretch is no shorter than its content is printed. -/
theorem length_printed_le {s : Stretch} (h : s.IsWellFormed) (hne : s.content ≠ []) :
    (printed s.content).length ≤ s.source.length := by
  cases s with
  | name run =>
    obtain ⟨-, hprinted⟩ | ⟨hplain, -⟩ := printed_cases (Stretch.name run).content
    · exact Nat.le_of_eq (congrArg List.length hprinted)
    · rw [isPlainSegment_of_run hne h] at hplain
      cases hplain
  | quoted quote body run =>
    rw [Stretch.length_source_quoted]
    obtain ⟨-, hprinted⟩ | ⟨-, hprinted⟩ := printed_cases (Stretch.quoted quote body run).content
    · rw [hprinted]
      exact Nat.le_add_right _ 2
    · rw [hprinted]
      simp

/-- A stretch that is printed as it stands is made up as printing makes it up. -/
theorem parts_of_source_eq {s : Stretch} (h : s.IsWellFormed) (hne : s.content ≠ [])
    (hsource : s.source = printed s.content) :
    s.parts = segmentParts (String.ofList s.content) := by
  cases s with
  | name run =>
    have hplain : Field.isPlainSegment (String.ofList (Stretch.name run).content) = true :=
      isPlainSegment_of_run hne h
    rw [segmentParts, if_pos hplain, String.toList_ofList]
    rfl
  | quoted quote body run =>
    obtain ⟨-, -, hrun⟩ := h
    obtain ⟨-, hprinted⟩ | ⟨hplain, hprinted⟩ :=
      printed_cases (Stretch.quoted quote body run).content
    · have hlength := congrArg List.length (hsource.trans hprinted)
      rw [Stretch.length_source_quoted] at hlength
      omega
    · rw [segmentParts_quoted hplain, String.toList_ofList]
      rw [hprinted] at hsource
      obtain ⟨rfl, htail⟩ := List.cons.inj hsource
      -- The closing quote comes last, so no name can follow it.
      have hclose : '"' :: run = run ++ ['"'] := by
        have happend : body ++ '"' :: run = body ++ (run ++ ['"']) := by
          rw [htail, Stretch.content, List.append_assoc]
        exact List.append_cancel_left happend
      cases run with
      | nil => simp [Stretch.parts, Stretch.content]
      | cons c run =>
        have hc : '"' = c := (List.cons.inj hclose).1
        have hname := hrun c List.mem_cons_self
        rw [← hc] at hname
        exact absurd hname (by decide)

/-! ## Printed keys -/

/-- The texts with a dot after each. -/
def dotted (texts : List (List Char)) : List Char := texts.flatMap (· ++ ['.'])

theorem dotted_eq {texts : List (List Char)} (hne : texts ≠ []) :
    dotted texts = List.intercalate ['.'] texts ++ ['.'] := by
  induction texts with
  | nil => exact absurd rfl hne
  | cons text texts ih =>
    cases texts with
    | nil => simp [dotted]
    | cons next texts =>
      have hrest := ih (by simp)
      rw [dotted, List.flatMap_cons, ← dotted, hrest, List.intercalate_cons_cons]
      simp

/-- The contents of stretches that are not empty. -/
def kept (stretches : List Stretch) : List (List Char) :=
  (stretches.map Stretch.content).filter (!·.isEmpty)

theorem kept_cons (s : Stretch) (stretches : List Stretch) :
    kept (s :: stretches) =
      if s.content = [] then kept stretches else s.content :: kept stretches := by
  rw [kept, List.map_cons, List.filter_cons]
  by_cases h : s.content = []
  · simp [h, kept]
  · simp [h, kept]

/-- A key is no shorter than what it stands for is printed. -/
theorem length_dotted_kept_le {stretches : List Stretch} (h : ∀ s ∈ stretches, s.IsWellFormed) :
    (dotted ((kept stretches).map printed)).length ≤
      (dotted (stretches.map Stretch.source)).length := by
  induction stretches with
  | nil => exact Nat.le_refl _
  | cons s stretches ih =>
    obtain ⟨hs, hrest⟩ := List.forall_mem_cons.mp h
    have hle := ih hrest
    rw [kept_cons]
    split
    · simp only [dotted, List.map_cons, List.flatMap_cons, List.length_append] at hle ⊢
      omega
    · rename_i hne
      have hfirst := length_printed_le hs hne
      simp only [dotted, List.map_cons, List.flatMap_cons, List.length_append] at hle ⊢
      omega

/-- If a key is printed as it stands, so is each of its stretches. -/
theorem source_eq_of_dotted_eq {stretches : List Stretch} (h : ∀ s ∈ stretches, s.IsWellFormed)
    (heq : dotted (stretches.map Stretch.source) = dotted ((kept stretches).map printed)) :
    ∀ s ∈ stretches, s.content ≠ [] ∧ s.source = printed s.content := by
  induction stretches with
  | nil => simp
  | cons s stretches ih =>
    obtain ⟨hs, hrest⟩ := List.forall_mem_cons.mp h
    have hle := length_dotted_kept_le hrest
    have hlength := congrArg List.length heq
    rw [kept_cons] at heq hlength
    by_cases hne : s.content = []
    · -- A stretch that is dropped leaves the printed key shorter.
      rw [if_pos hne] at hlength
      simp only [dotted, List.map_cons, List.flatMap_cons, List.length_append, List.length_singleton]
        at hle hlength
      omega
    · rw [if_neg hne] at heq hlength
      have hfirst := length_printed_le hs hne
      simp only [dotted, List.map_cons, List.flatMap_cons, List.length_append, List.length_singleton]
        at hle hlength
      rw [dotted, dotted, List.map_cons, List.map_cons, List.flatMap_cons, List.flatMap_cons] at heq
      obtain ⟨hdot, hmore⟩ := List.append_inj heq (by simp; omega)
      have hsource : s.source = printed s.content := List.append_cancel_right hdot
      exact List.forall_mem_cons.mpr ⟨⟨hne, hsource⟩, ih hrest hmore⟩

theorem print_ofPath (base : List Char) (path : List (List Char)) :
    (Field.ofPath (String.ofList base) (path.map String.ofList)).print.toList =
      List.intercalate ['.'] ((base :: path).map printed) := by
  cases path with
  | nil => exact (List.intercalate_singleton ..).symm
  | cons next path =>
    show (String.intercalate "." _).toList = _
    rw [String.toList_intercalate, ← List.map_cons, List.map_map, List.map_map]
    rfl

theorem fieldParts_ofPath (base : List Char) (path : List (List Char)) :
    fieldParts (Field.ofPath (String.ofList base) (path.map String.ofList)) =
      List.intercalate [.plain '.']
        ((base :: path).map fun segment => segmentParts (String.ofList segment)) := by
  cases path with
  | nil => exact (List.intercalate_singleton ..).symm
  | cons next path =>
    show List.intercalate _ _ = _
    rw [← List.map_cons, List.map_map]
    rfl

/-- A column named by a key without any segment is not printed as that key. -/
theorem ne_simple_print {f : Field}
    (h : (Field.segments none [] f.print.toList).filter (!·.isEmpty) = []) :
    f ≠ .simple f.print := by
  intro hf
  generalize hname : f.print = name at h hf
  subst hf
  replace hname : Field.printSegment name = name := hname
  cases hplain : Field.isPlainSegment name with
  | true =>
    rw [segments_plain hplain] at h
    cases h
  | false =>
    have hlength := congrArg List.length (toList_printSegment hplain)
    rw [hname, List.length_cons, List.length_append] at hlength
    omega

/-- A key that stands for the field it is printed from has the parts that the field is printed as. -/
theorem parts_of_print {f : Field} (hkey : Field.ofKey f.print = f) {parts : List KeyPart}
    (hread : readKey true f.print.toList = some (parts, [])) : parts = fieldParts f := by
  obtain ⟨first, more, -, hwell, hparts⟩ := isRow_of_readKey hread
  have hsource : f.print.toList = List.intercalate ['.'] ((first :: more).map Stretch.source) := by
    have htext := source_of_readKey hread
    rw [List.append_nil, hparts, source_intercalate] at htext
    exact htext.symm
  have hsegments : (Field.segments none [] f.print.toList).filter (!·.isEmpty) =
      kept (first :: more) := by
    rw [hsource, segments_row (List.cons_ne_nil _ _) hwell]
    rfl
  cases hkept : kept (first :: more) with
  | nil =>
    rw [Field.ofKey, hsegments.trans hkept] at hkey
    exact absurd hkey.symm (ne_simple_print (hsegments.trans hkept))
  | cons base path =>
    have hfield := ofKey_of_segments (hsegments.trans hkept)
    rw [hkey] at hfield
    -- Both texts have as many characters, so nothing was dropped and no quotes were spared.
    have hprint : dotted ((first :: more).map Stretch.source) =
        dotted ((kept (first :: more)).map printed) := by
      rw [dotted_eq (by simp), dotted_eq (by simp [hkept]), ← hsource, hkept, ← print_ofPath,
        ← hfield]
    have hsame := source_eq_of_dotted_eq hwell hprint
    have hall : kept (first :: more) = (first :: more).map Stretch.content := by
      rw [kept, List.filter_eq_self, List.forall_mem_map]
      intro s hs
      simpa using (hsame s hs).1
    rw [hparts, hfield, fieldParts_ofPath, ← hkept, hall, List.map_map]
    refine congrArg _ (List.map_congr_left fun s hs => ?_)
    exact parts_of_source_eq (hwell s hs) (hsame s hs).1 (hsame s hs).2

end LogQuery
