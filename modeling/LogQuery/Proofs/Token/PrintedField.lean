import LogQuery.Proofs.Filter.Arrangement
import LogQuery.Proofs.Query.Canonical
import LogQuery.Proofs.Token.Account
import LogQuery.Proofs.Token.Printed

/-!
# The tokens of printed fields

A printed field is one token. A field that is printed as a quoted segment alone becomes a value in
quotes, and every other one becomes a key; both name the field that was printed (`reads_field`).

* `readsParts_path`: a key takes up a dotted path as a whole;
* `segments_path`: a dotted path is cut into its segments again.
-/

namespace LogQuery

open Text

/-! ## The key that a field is printed as -/

/-- The parts of a key that a segment is printed as. -/
def segmentParts (segment : String) : List KeyPart :=
  if Field.isPlainSegment segment then segment.toList.map .plain
  else [.segment '"' segment.toList]

theorem segmentParts_quoted {segment : String} (h : Field.isPlainSegment segment = false) :
    segmentParts segment = [.segment '"' segment.toList] := by
  rw [segmentParts, h, if_neg Bool.false_ne_true]

/-- The parts of a key that a field is printed as. -/
def fieldParts : Field → List KeyPart
  | .simple name => segmentParts name
  | .nested base path => List.intercalate [.plain '.'] ((base :: path).map segmentParts)

theorem source_segmentParts (segment : String) :
    (segmentParts segment).flatMap KeyPart.source = (Field.printSegment segment).toList := by
  rw [segmentParts, Field.printSegment]
  split
  · simp [List.flatMap_map, KeyPart.source]
  · simp [KeyPart.source]

theorem source_fieldParts (f : Field) :
    (fieldParts f).flatMap KeyPart.source = f.print.toList := by
  cases f with
  | simple name => exact source_segmentParts name
  | nested base path =>
    rw [fieldParts, Arrangement.apply_intercalate rfl fun _ _ => List.flatMap_append, List.map_map,
      Field.print, String.toList_intercalate, List.map_map]
    exact congrArg _ (List.map_congr_left fun segment _ => source_segmentParts segment)

/-- A key takes up the parts, where a segment may start if `opening`; after them one may start if
`next`. -/
def ReadsParts (opening : Bool) (parts : List KeyPart) (next : Bool) : Prop :=
  ∀ rest, readKey opening (parts.flatMap KeyPart.source ++ rest) =
    (readKey next rest).map fun r => (parts ++ r.1, r.2)

theorem ReadsParts.append {o m n : Bool} {as bs : List KeyPart} (ha : ReadsParts o as m)
    (hb : ReadsParts m bs n) : ReadsParts o (as ++ bs) n := by
  intro rest
  rw [List.flatMap_append, List.append_assoc, ha, hb, Option.map_map]
  refine congrArg (Option.map · (readKey n rest)) (funext fun r => ?_)
  simp

theorem readsParts_plain (o : Bool) {c : Char} (hc : isKeyChar c = true) :
    ReadsParts o [.plain c] (c == '.') := by
  intro rest
  show readKey o (c :: rest) = _
  rw [readKey, if_pos hc]
  rfl

/-- A name, whose last character is no dot. -/
theorem readsParts_name (o : Bool) {cs : List Char} (hne : cs ≠ [])
    (hcs : ∀ c ∈ cs, isNameChar c = true) : ReadsParts o (cs.map .plain) false := by
  induction cs generalizing o with
  | nil => exact absurd rfl hne
  | cons c cs ih =>
    have hc := hcs c List.mem_cons_self
    have hdot : (c == '.') = false := beq_false_of_ne (ne_of_class hc (by decide))
    have hfirst := readsParts_plain o (isKeyChar_of_isNameChar hc)
    rw [hdot] at hfirst
    cases cs with
    | nil => exact hfirst
    | cons d cs =>
      exact hfirst.append (ih false (by simp) fun e he => hcs e (List.mem_cons_of_mem _ he))

/-- A text can stand in double quotes as it is if they close right after it. -/
theorem isEscaped_iff_quotes {cs : List Char} :
    isEscaped cs = true ↔ ∃ text, Quotes '"' cs text := by
  constructor
  · refine byEscapes (motive := fun cs => ∃ text, Quotes '"' cs text) ⟨[], .nil⟩ ?_ ?_
    · rintro c cs ⟨text, h⟩
      exact ⟨c :: text, .escape h⟩
    · rintro c cs hescape hquote ⟨text, h⟩
      exact ⟨c :: text, .plain hescape hquote h⟩
  · rintro ⟨text, h⟩
    induction h with
    | nil => rfl
    | escape h ih => exact ih
    | plain hescape hquote h ih =>
      rw [isEscaped, ih]
      · simpa using hquote
      · simp [hescape]
      · simp [hescape]

/-- A quoted segment, which may start at once. -/
theorem readsParts_quoted {quote : Char} (hquote : isQuote quote = true) {body text : List Char}
    (h : Quotes quote body text) : ReadsParts true [.segment quote body] false := by
  intro rest
  have hkey : ¬ isKeyChar quote = true := fun hkey => by
    rw [isQuote_of_isKeyChar hkey] at hquote
    cases hquote
  have hbody := readQuoted_of_quotes (ne_escape_of_isQuote hquote) h rest
  show readKey true (quote :: (body ++ [quote] ++ [] ++ rest)) = _
  rw [List.append_nil, List.append_assoc, List.singleton_append, readKey, if_neg hkey, hquote,
    Bool.and_true, if_pos rfl]
  split
  · rename_i hread
    rw [hbody] at hread
    cases hread
  · rename_i body' rest' hread
    rw [hbody] at hread
    cases hread
    rfl

theorem readsParts_segment {cs : List Char} (h : isEscaped cs = true) :
    ReadsParts true [.segment '"' cs] false := by
  obtain ⟨text, hquotes⟩ := isEscaped_iff_quotes.mp h
  exact readsParts_quoted (by decide) hquotes

theorem readsParts_printSegment {segment : String} (h : isEscaped segment.toList = true) :
    ReadsParts true (segmentParts segment) false := by
  rw [segmentParts]
  split
  · rename_i hplain
    rw [Field.isPlainSegment, Bool.and_eq_true, Bool.not_eq_true', List.all_eq_true] at hplain
    refine readsParts_name true (fun hnil => ?_) hplain.2
    rw [String.toList_eq_nil_iff.mp hnil] at hplain
    exact absurd hplain.1 (by decide)
  · exact readsParts_segment h

/-- A dotted path of segments. -/
theorem readsParts_path {segments : List String} (hne : segments ≠ [])
    (h : ∀ segment ∈ segments, isEscaped segment.toList = true) :
    ReadsParts true (List.intercalate [.plain '.'] (segments.map segmentParts)) false := by
  induction segments with
  | nil => exact absurd rfl hne
  | cons segment segments ih =>
    have hfirst := readsParts_printSegment (h segment List.mem_cons_self)
    cases segments with
    | nil =>
      rw [List.map_cons, List.map_nil, List.intercalate_singleton]
      exact hfirst
    | cons next segments =>
      have hdot : ReadsParts false [.plain '.'] true := readsParts_plain false (by decide)
      have hrest := ih (by simp) fun other hmem => h other (List.mem_cons_of_mem _ hmem)
      rw [List.map_cons, List.map_cons, List.intercalate_cons_cons]
      exact (hfirst.append hdot).append hrest

/-- Does the character end a printed field? -/
def endsField (c : Char) : Bool := c == ' ' || c == ','

theorem isKeyChar_of_endsField {c : Char} (h : endsField c = true) : isKeyChar c = false := by
  rw [endsField, Bool.or_eq_true, beq_iff_eq, beq_iff_eq] at h
  rcases h with rfl | rfl <;> decide

theorem isQuote_of_endsField {c : Char} (h : endsField c = true) : isQuote c = false := by
  rw [endsField, Bool.or_eq_true, beq_iff_eq, beq_iff_eq] at h
  rcases h with rfl | rfl <;> decide

theorem readKey_of_endsField (opening : Bool) {rest : List Char}
    (h : ∀ c ∈ rest.head?, endsField c = true) : readKey opening rest = some ([], rest) := by
  cases rest with
  | nil => rw [readKey]
  | cons c rest =>
    rw [readKey, isKeyChar_of_endsField (h c rfl), isQuote_of_endsField (h c rfl), Bool.false_and,
      if_neg Bool.false_ne_true, if_neg Bool.false_ne_true]

/-- A row of key characters is a keyword only if it is one as a whole. -/
theorem keyword?_of_run {run rest : List Char} (hrun : ∀ c ∈ run, isKeyChar c = true)
    (h : startsKey (rest.dropWhile isAlphabetic) = true ∨
      (∀ c ∈ rest.head?, isAlphabetic c = false) ∧ isKeyword run = false) :
    keyword? (run ++ rest) = none := by
  rw [keyword?, if_neg]
  rw [Bool.and_eq_true, Bool.not_eq_true', not_and]
  intro hkeyword
  rcases dropWhile_cases isAlphabetic run with hall | ⟨c, cs, hcs, hc⟩
  · rcases h with h | ⟨hrest, hrun'⟩
    · rw [List.dropWhile_append_of_pos hall, h]
      decide
    · rw [(takeWhile_run hall hrest).1, hrun'] at hkeyword
      cases hkeyword
  · rw [List.dropWhile_append, hcs, if_neg (by simp)]
    show isKeyChar c ≠ false
    rw [hrun c hc]
    decide

/-- A quote starts no keyword. -/
theorem keyword?_quote {quote : Char} (h : isQuote quote = true) (cs : List Char) :
    keyword? (quote :: cs) = none := by
  have hkey : isKeyChar quote = false := class_apart isQuote_of_isKeyChar h
  have halphabetic := Bool.eq_false_iff.mp (isAlphabetic_of_isKeyChar hkey)
  rw [keyword?, List.takeWhile_cons_of_neg halphabetic]
  rfl

/-! ## The field that a printed key stands for -/

theorem segments_name (current : List Char) {cs : List Char}
    (hcs : ∀ c ∈ cs, isNameChar c = true) (rest : List Char) :
    Field.segments none current (cs ++ rest) = Field.segments none (cs.reverse ++ current) rest := by
  induction cs generalizing current with
  | nil => rfl
  | cons c cs ih =>
    have hc := hcs c List.mem_cons_self
    have hquote := isQuote_of_isKeyChar (isKeyChar_of_isNameChar hc)
    have hdot : c ≠ '.' := ne_of_class hc (by decide)
    rw [List.cons_append, Field.segments, hquote, Bool.false_and, if_neg Bool.false_ne_true,
      if_neg hdot, ih _ fun d hd => hcs d (List.mem_cons_of_mem _ hd)]
    simp

theorem segments_inside {quote c : Char} (hescape : c ≠ '\\') (hquote : c ≠ quote)
    (current rest : List Char) :
    Field.segments (some quote) current (c :: rest) =
      Field.segments (some quote) (c :: current) rest := by
  rw [Field.segments.eq_def]
  dsimp only
  rw [if_neg hescape, if_neg hquote]

/-- What stands between quotes is taken as it is, up to the closing one. -/
theorem segments_quoted {quote : Char} (hquote : quote ≠ '\\') {body text : List Char}
    (h : Quotes quote body text) (current rest : List Char) :
    Field.segments (some quote) current (body ++ quote :: rest) =
      Field.segments none (body.reverse ++ current) rest := by
  induction h generalizing current with
  | nil =>
    rw [List.nil_append, Field.segments.eq_def]
    dsimp only
    rw [if_neg hquote, if_pos rfl]
    rfl
  | @escape c body text h ih =>
    have hstep : Field.segments (some quote) current ('\\' :: c :: (body ++ quote :: rest)) =
        Field.segments (some quote) (c :: '\\' :: current) (body ++ quote :: rest) := by
      rw [Field.segments.eq_def]
      rfl
    rw [List.cons_append, List.cons_append, hstep, ih]
    simp
  | plain hescape hne h ih =>
    rw [List.cons_append, segments_inside hescape hne, ih]
    simp

/-- A printed segment is one segment again. -/
theorem segments_printSegment {segment : String} (h : isEscaped segment.toList = true)
    (rest : List Char) :
    Field.segments none [] ((Field.printSegment segment).toList ++ rest) =
      Field.segments none segment.toList.reverse rest := by
  rw [Field.printSegment]
  split
  · rename_i hplain
    rw [Field.isPlainSegment, Bool.and_eq_true, List.all_eq_true] at hplain
    rw [segments_name [] hplain.2, List.append_nil]
  · have hprinted : ("\"" ++ segment ++ "\"").toList = '"' :: (segment.toList ++ ['"']) := by
      simp
    rw [hprinted, List.cons_append, List.append_assoc, List.singleton_append, Field.segments]
    show Field.segments (some '"') [] _ = _
    obtain ⟨text, hquotes⟩ := isEscaped_iff_quotes.mp h
    rw [segments_quoted (by decide) hquotes, List.append_nil]

/-- Texts that are one segment each are cut at the dots between them. -/
theorem segments_intercalate {α : Type} {source content : α → List Char} {xs : List α}
    (hne : xs ≠ [])
    (h : ∀ x ∈ xs, ∀ rest, Field.segments none [] (source x ++ rest) =
      Field.segments none (content x).reverse rest) :
    Field.segments none [] (List.intercalate ['.'] (xs.map source)) = xs.map content := by
  induction xs with
  | nil => exact absurd rfl hne
  | cons x xs ih =>
    have hfirst := h x List.mem_cons_self
    cases xs with
    | nil =>
      have hlast := hfirst []
      rw [List.append_nil] at hlast
      rw [List.map_cons, List.map_nil, List.intercalate_singleton, hlast, Field.segments,
        List.reverse_reverse]
      rfl
    | cons next xs =>
      have hrest := ih (by simp) fun other hmem => h other (List.mem_cons_of_mem _ hmem)
      rw [List.map_cons, List.map_cons, List.intercalate_cons_cons, List.append_assoc, hfirst,
        List.singleton_append, Field.segments]
      show (content x).reverse.reverse :: Field.segments none [] _ = _
      rw [List.reverse_reverse]
      exact congrArg (content x :: ·) hrest

/-- A dotted path is cut into its segments again. -/
theorem segments_path {segments : List String} (hne : segments ≠ [])
    (h : ∀ segment ∈ segments, isEscaped segment.toList = true) :
    Field.segments none []
      (List.intercalate ['.'] (segments.map fun segment => (Field.printSegment segment).toList)) =
      segments.map String.toList :=
  segments_intercalate hne fun segment hmem => segments_printSegment (h segment hmem)

theorem isEscaped_of_mem_path {base : String} {path : List String}
    (h : (base :: path).all Field.isCanonicalSegment = true) :
    ∀ segment ∈ base :: path, isEscaped segment.toList = true := by
  intro segment hmem
  have hsegment := List.all_eq_true.mp h segment hmem
  rw [Field.isCanonicalSegment, Bool.and_eq_true] at hsegment
  exact hsegment.2

/-- What the segments of a key that are not empty say of its field. -/
theorem ofKey_of_segments {key : String} {base : List Char} {path : List (List Char)}
    (h : (Field.segments none [] key.toList).filter (!·.isEmpty) = base :: path) :
    Field.ofKey key = .ofPath (String.ofList base) (path.map String.ofList) := by
  rw [Field.ofKey, h]

/-- A key printed for a nested field stands for it. -/
theorem ofKey_print_nested {base : String} {path : List String}
    (h : (Field.nested base path).isCanonical = true) :
    Field.ofKey (Field.nested base path).print = .nested base path := by
  rw [Field.isCanonical, Bool.and_eq_true] at h
  have hsegments := segments_path (List.cons_ne_nil base path) (isEscaped_of_mem_path h.2)
  have hkept : ((base :: path).map String.toList).filter (!·.isEmpty) =
      (base :: path).map String.toList := by
    rw [List.filter_eq_self, List.forall_mem_map]
    intro segment hmem
    have hsegment := List.all_eq_true.mp h.2 segment hmem
    rw [Field.isCanonicalSegment, Bool.and_eq_true] at hsegment
    simpa using hsegment.1
  have hback : (path.map String.toList).map String.ofList = path := by simp
  have hkey : (Field.segments none [] (Field.nested base path).print.toList).filter (!·.isEmpty) =
      base.toList :: path.map String.toList := by
    rw [Field.print, String.toList_intercalate, List.map_map, ← List.map_cons, ← hkept, ← hsegments]
    rfl
  rw [ofKey_of_segments hkey, String.ofList_toList, hback]
  cases path with
  | nil => simp at h
  | cons next path => rfl

/-- A plain name is one segment. -/
theorem segments_plain {name : String} (h : Field.isPlainSegment name = true) :
    (Field.segments none [] name.toList).filter (!·.isEmpty) = [name.toList] := by
  rw [Field.isPlainSegment, Bool.and_eq_true, List.all_eq_true] at h
  have hsegments := segments_name [] h.2 []
  rw [List.append_nil, List.append_nil, Field.segments, List.reverse_reverse] at hsegments
  have hne : name.toList.isEmpty = false := by simpa using h.1
  rw [hsegments, List.filter_cons_of_pos (by rw [hne]; rfl)]
  rfl

/-- A plain name stands for a column. -/
theorem ofKey_plain {name : String} (h : Field.isPlainSegment name = true) :
    Field.ofKey name = .simple name := by
  rw [ofKey_of_segments (segments_plain h), String.ofList_toList]
  rfl

/-- The token names the field, before an operator and among the selected fields alike. -/
def IsNameOf (f : Field) (t : Token) : Prop :=
  (t.kind = .key ∧ Field.ofKey t.text = f) ∨
    (t.kind = .value ∧ t.quoted = true ∧ f = .simple t.text)

theorem keyLexeme_eq_key {parts : List KeyPart} (h : ∀ quote body, parts ≠ [.segment quote body]) :
    keyLexeme parts = ⟨.key, parts.flatMap KeyPart.source, parts.any KeyPart.isSegment⟩ := by
  unfold keyLexeme
  split
  · exact absurd rfl (h _ _)
  · rfl

theorem kind_keyLexeme (parts : List KeyPart) :
    (decide ((keyLexeme parts).kind = .operator)) = false := by
  unfold keyLexeme
  split <;> rfl

/-- A row of parts is one token, if it is not taken for a keyword. -/
theorem reads_parts {parts : List KeyPart} {next : Bool}
    (hstarts : Starts startsWord (parts.flatMap KeyPart.source)) (hparts : ReadsParts true parts next)
    (hkeyword : ∀ rest, (∀ c ∈ rest.head?, endsField c = true) →
      keyword? (parts.flatMap KeyPart.source ++ rest) = none) :
    Reads false (parts.flatMap KeyPart.source) false endsField
      (IsToken (keyLexeme parts).kind (keyLexeme parts).text (keyLexeme parts).quoted) := by
  obtain ⟨c, cs, hsource, hc⟩ := hstarts
  have hread : Reads false (c :: cs) _ endsField _ := reads_token fun rest hrest => by
    have hkey := hparts rest
    rw [readKey_of_endsField next hrest, Option.map_some, List.append_nil] at hkey
    rw [nextPiece_word hc, ← List.cons_append, ← hsource, cutWord, hkeyword rest hrest]
    dsimp only
    rw [hkey]
  rw [← hsource, kind_keyLexeme] at hread
  exact hread

/-- A printed field is one token, if it is not taken for a keyword. -/
theorem reads_word {f : Field} (hstarts : Starts startsWord f.print.toList)
    (hparts : ReadsParts true (fieldParts f) false)
    (hkeyword : ∀ rest, (∀ c ∈ rest.head?, endsField c = true) →
      keyword? (f.print.toList ++ rest) = none) :
    Reads false f.print.toList false endsField (IsToken (keyLexeme (fieldParts f)).kind
      (keyLexeme (fieldParts f)).text (keyLexeme (fieldParts f)).quoted) := by
  rw [← source_fieldParts] at hstarts hkeyword ⊢
  exact reads_parts hstarts hparts hkeyword

/-- A name stands for a connective if it is a keyword. -/
theorem isNone_ofKeyword? (name : String) :
    (Connective.ofKeyword? name).isNone = !isKeyword name.toList := by
  rw [isKeyword, String.ofList_toList, Connective.ofKeyword?]
  cases sameWord name "and" <;> cases sameWord name "or" <;> rfl

/-- A plain segment starts with a key character, and has only such. -/
theorem of_isPlainSegment {segment : String} (h : Field.isPlainSegment segment = true) :
    Field.printSegment segment = segment ∧ segmentParts segment = segment.toList.map .plain ∧
      (∀ c ∈ segment.toList, isKeyChar c = true) ∧
      Starts startsWord segment.toList := by
  refine ⟨by rw [Field.printSegment, if_pos h], by rw [segmentParts, if_pos h], ?_⟩
  rw [Field.isPlainSegment, Bool.and_eq_true, List.all_eq_true] at h
  have hkey : ∀ c ∈ segment.toList, isKeyChar c = true := fun c hc =>
    isKeyChar_of_isNameChar (h.2 c hc)
  refine ⟨hkey, ?_⟩
  cases hs : segment.toList with
  | nil =>
    rw [String.toList_eq_nil_iff.mp hs] at h
    exact absurd h.1 (by decide)
  | cons c cs =>
    exact ⟨c, cs, rfl, startsWord_of_isKeyChar (hkey c (by rw [hs]; exact List.mem_cons_self))⟩

/-- A plain name becomes a key. -/
theorem keyLexeme_plain {name : String} (h : Field.isPlainSegment name = true) :
    keyLexeme (fieldParts (.simple name)) = ⟨.key, name.toList, false⟩ := by
  obtain ⟨hprint, hsegment, -, -⟩ := of_isPlainSegment h
  have hplain : ∀ quote body, segmentParts name ≠ [.segment quote body] := by
    intro quote body hparts
    have hmem : KeyPart.segment quote body ∈ name.toList.map KeyPart.plain := by
      rw [← hsegment, hparts]
      exact List.mem_cons_self
    simp at hmem
  rw [fieldParts, keyLexeme_eq_key hplain, source_segmentParts, hprint, hsegment]
  simp [KeyPart.isSegment]

/-- Any other segment starts with a quote. -/
theorem toList_printSegment {segment : String} (h : Field.isPlainSegment segment = false) :
    (Field.printSegment segment).toList = '"' :: (segment.toList ++ ['"']) := by
  rw [Field.printSegment, if_neg (by rw [h]; decide)]
  simp

theorem unescape_of_plain {cs : List Char} (h : ∀ c ∈ cs, c ≠ '\\') : unescape cs = cs := by
  induction cs with
  | nil => rfl
  | cons c cs ih =>
    have hc := h c List.mem_cons_self
    rw [unescape, ih fun d hd => h d (List.mem_cons_of_mem _ hd)]
    · simp [hc]
    · simp [hc]

/-- A printed column is one token that names it. -/
theorem reads_simple {name : String} (h : (Field.simple name).isCanonical = true) :
    Reads false (Field.simple name).print.toList false endsField
      fun ts => ∃ t, ts = [t] ∧ IsNameOf (.simple name) t := by
  rw [Field.isCanonical, Bool.and_eq_true, List.all_eq_true, isNone_ofKeyword?,
    Bool.not_eq_true'] at h
  have hchars : ∀ c ∈ name.toList, c ≠ '"' ∧ c ≠ '\\' := fun c hc => by simpa using h.1 c hc
  have hparts : ReadsParts true (fieldParts (.simple name)) false :=
    readsParts_printSegment (isEscaped_of_plain hchars)
  cases hplain : Field.isPlainSegment name with
  | true =>
    obtain ⟨hprint, -, hkey, hstarts⟩ := of_isPlainSegment hplain
    have hread := reads_word (f := .simple name) (by rw [Field.print, hprint]; exact hstarts) hparts
      fun rest hrest => by
        rw [Field.print, hprint]
        have halpha : ∀ c ∈ rest.head?, isAlphabetic c = false := fun c hc =>
          isAlphabetic_of_isKeyChar (isKeyChar_of_endsField (hrest c hc))
        exact keyword?_of_run hkey (.inr ⟨halpha, h.2⟩)
    refine hread.mono ?_
    rintro ts ⟨t, rfl, hkind, htext, -⟩
    rw [keyLexeme_plain hplain] at hkind htext
    refine ⟨t, rfl, .inl ⟨hkind, ?_⟩⟩
    rw [htext, ← ofKey_plain hplain]
    show Field.ofKey (String.ofList name.toList) = _
    rw [String.ofList_toList]
  | false =>
    have hprint := toList_printSegment hplain
    have hsegment : fieldParts (.simple name) = [.segment '"' name.toList] :=
      segmentParts_quoted hplain
    have hread := reads_word (f := .simple name) ⟨_, _, hprint, rfl⟩ hparts fun rest _ => by
      rw [Field.print, hprint]
      exact keyword?_quote rfl _
    refine hread.mono ?_
    rintro ts ⟨t, rfl, hkind, htext, hquoted⟩
    rw [hsegment] at hkind htext hquoted
    refine ⟨t, rfl, .inr ⟨hkind, hquoted, congrArg Field.simple ?_⟩⟩
    rw [htext]
    show name = String.ofList (unescape (name.toList ++ ['"']).dropLast)
    rw [List.dropLast_concat, unescape_of_plain fun c hc => (hchars c hc).2, String.ofList_toList]

theorem starts_printSegment (segment : String) (rest : List Char) :
    Starts startsWord ((Field.printSegment segment).toList ++ rest) := by
  cases hplain : Field.isPlainSegment segment with
  | true =>
    obtain ⟨hprint, -, -, c, cs, hcs, hc⟩ := of_isPlainSegment hplain
    exact ⟨c, cs ++ rest, by rw [hprint, hcs]; rfl, hc⟩
  | false => exact ⟨_, _, by rw [toList_printSegment hplain]; rfl, rfl⟩

/-- A printed path starts with its first segment and a dot. -/
theorem toList_print_nested (base next : String) (path : List String) :
    ∃ more, (Field.nested base (next :: path)).print.toList =
      (Field.printSegment base).toList ++ '.' :: more := by
  refine ⟨List.intercalate ['.'] ((next :: path).map fun segment =>
    (Field.printSegment segment).toList), ?_⟩
  rw [Field.print, String.toList_intercalate, List.map_map, List.map_cons, List.map_cons,
    List.intercalate_cons_cons, List.append_assoc]
  rfl

theorem keyLexeme_nested (base next : String) (path : List String) :
    (keyLexeme (fieldParts (.nested base (next :: path)))).kind = .key ∧
      (keyLexeme (fieldParts (.nested base (next :: path)))).text =
        (Field.nested base (next :: path)).print := by
  have hdot : KeyPart.plain '.' ∈ fieldParts (.nested base (next :: path)) := by
    rw [fieldParts, List.map_cons, List.map_cons, List.intercalate_cons_cons]
    simp
  have hmore : ∀ quote body, fieldParts (.nested base (next :: path)) ≠ [.segment quote body] := by
    intro quote body hparts
    rw [hparts] at hdot
    simp at hdot
  rw [keyLexeme_eq_key hmore, source_fieldParts]
  refine ⟨rfl, ?_⟩
  show String.ofList (Field.nested base (next :: path)).print.toList = _
  rw [String.ofList_toList]

/-- A printed path is one token that names it. -/
theorem reads_nested {base : String} {path : List String}
    (h : (Field.nested base path).isCanonical = true) :
    Reads false (Field.nested base path).print.toList false endsField
      fun ts => ∃ t, ts = [t] ∧ IsNameOf (.nested base path) t := by
  have hofKey := ofKey_print_nested h
  rw [Field.isCanonical, Bool.and_eq_true] at h
  have hparts : ReadsParts true (fieldParts (.nested base path)) false :=
    readsParts_path (List.cons_ne_nil base path) (isEscaped_of_mem_path h.2)
  cases path with
  | nil => exact absurd h.1 (by decide)
  | cons next path =>
    obtain ⟨more, hprint⟩ := toList_print_nested base next path
    have hstarts : Starts startsWord (Field.nested base (next :: path)).print.toList := by
      rw [hprint]
      exact starts_printSegment base _
    have hkeyword : ∀ rest, keyword? ((Field.nested base (next :: path)).print.toList ++ rest) =
        none := by
      intro rest
      rw [hprint, List.append_assoc]
      cases hplain : Field.isPlainSegment base with
      | true =>
        -- A first segment that spells a keyword is none: the dot after it goes on with the key.
        obtain ⟨hbase, -, hkey, -⟩ := of_isPlainSegment hplain
        rw [hbase]
        refine keyword?_of_run hkey (.inl ?_)
        rw [List.cons_append, List.dropWhile_cons_of_neg (by decide)]
        show isKeyChar '.' = true
        decide
      | false =>
        rw [toList_printSegment hplain]
        exact keyword?_quote rfl _
    refine (reads_word hstarts hparts fun rest _ => hkeyword rest).mono ?_
    rintro ts ⟨t, rfl, hkind, htext, -⟩
    obtain ⟨hkey, hsource⟩ := keyLexeme_nested base next path
    refine ⟨t, rfl, .inl ⟨hkind.trans hkey, ?_⟩⟩
    rw [htext, hsource, hofKey]

/-- A printed field is one token that names it. -/
theorem reads_field {f : Field} (h : f.isCanonical = true) :
    Reads false f.print.toList false endsField fun ts => ∃ t, ts = [t] ∧ IsNameOf f t := by
  cases f with
  | simple name => exact reads_simple h
  | nested base path => exact reads_nested h

end LogQuery
