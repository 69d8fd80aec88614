import LogQuery.Proofs.Query.Reprinting
import LogQuery.Proofs.Token.Stretches

/-!
# Selecting a field by its printed name

A field is printed with double quotes around what a bare name cannot hold, but without escapes, and a
name that spells a keyword is printed bare. So the printed name need not stand for the field: it does
exactly if the field is canonical.

* `cutWord_of_ofText`: a printed name that selects a field is one token;
* `isCanonical_of_cutWord`: such a token names only a canonical field;
* `ofText_selection_iff`: for every field of every query that is read.
-/

namespace LogQuery

open Text Grammar

/-! ## Keywords -/

theorem isAlphabetic_of_toLower {c : Char} (h : isAlphabetic c.toLower = true) :
    isAlphabetic c = true := by
  by_cases hupper : c.val ≥ 'A'.val ∧ c.val ≤ 'Z'.val
  · exact (CodeRange.covers_iff ascending_alphabetic c.toNat).mpr
      ⟨⟨0x41, 0x5A⟩, List.mem_cons_self, UInt32.le_iff_toNat_le.mp hupper.1,
        UInt32.le_iff_toNat_le.mp hupper.2⟩
  · have hsame : c.toLower = c := dif_neg hupper
    rw [hsame] at h
    exact h

/-- A keyword is a row of letters. -/
theorem isAlphabetic_of_isKeyword {word : List Char} (h : isKeyword word = true) :
    ∀ c ∈ word, isAlphabetic c = true := by
  have hletters : ∀ keyword : String, (keyword.toList.map Char.toLower).all isAlphabetic = true →
      sameWord (String.ofList word) keyword = true → ∀ c ∈ word, isAlphabetic c = true := by
    intro keyword hall hsame c hc
    rw [sameWord, String.toList_ofList, beq_iff_eq] at hsame
    rw [← hsame, List.all_eq_true] at hall
    exact isAlphabetic_of_toLower (hall _ (List.mem_map_of_mem hc))
  rw [isKeyword, Bool.or_eq_true] at h
  rcases h with h | h
  · exact hletters "and" (by decide) h
  · exact hletters "or" (by decide) h

/-- A keyword can be written without quotes. -/
theorem isPlainSegment_of_isKeyword {name : String} (h : isKeyword name.toList = true) :
    Field.isPlainSegment name = true := by
  have hne : name.toList ≠ [] := by
    intro hnil
    rw [hnil] at h
    exact absurd h (by decide)
  have hplain := isPlainSegment_of_run hne fun c hc =>
    isNameChar_of_isAlphabetic (isAlphabetic_of_isKeyword h c hc)
  rw [String.ofList_toList] at hplain
  exact hplain

/-- A keyword on its own is taken for one. -/
theorem keyword?_of_isKeyword {word : List Char} (h : isKeyword word = true) :
    keyword? word = some (word, []) := by
  have hword : keyword? (word ++ []) = some (word, []) :=
    keyword?_append (List.all_eq_true.mpr (isAlphabetic_of_isKeyword h)) h nofun
  rw [List.append_nil] at hword
  exact hword

/-! ## Tokens that name a field -/

theorem length_unescape_le (cs : List Char) : (unescape cs).length ≤ cs.length := by
  fun_induction unescape cs with
  | case1 => exact Nat.le_refl _
  | case2 => exact Nat.zero_le _
  | case3 c rest ih =>
    simp only [List.length_cons]
    omega
  | case4 c rest _ _ ih =>
    simp only [List.length_cons]
    omega

/-- What stands for itself between double quotes has nothing to escape. -/
theorem plain_of_unescape_eq {cs : List Char} (h : isEscaped cs = true) (heq : unescape cs = cs) :
    ∀ c ∈ cs, c ≠ '"' ∧ c ≠ '\\' := by
  revert heq
  refine byEscapes (motive := fun cs => unescape cs = cs → ∀ c ∈ cs, c ≠ '"' ∧ c ≠ '\\')
    ?_ ?_ ?_ h
  · simp
  · intro c cs _ heq
    have hlength := congrArg List.length heq
    have hle := length_unescape_le cs
    rw [unescape, List.length_cons, List.length_cons, List.length_cons] at hlength
    omega
  · intro c cs hescape hquote ih heq
    have hunescape : unescape (c :: cs) = c :: unescape cs := by
      rw [unescape]
      · simp [hescape]
      · simp [hescape]
    rw [hunescape] at heq
    exact List.forall_mem_cons.mpr ⟨⟨hquote, hescape⟩, ih (List.cons.inj heq).2⟩

/-- The token at the start of a word is a keyword, or a key. -/
theorem cutWord_cases {cs rest : List Char} {l : Lexeme} (h : cutWord cs = (.token l, rest)) :
    (l.kind = .bool ∧ keyword? cs = some (l.source, rest)) ∨
    (keyword? cs = none ∧ ∃ parts, readKey true cs = some (parts, rest) ∧ l = keyLexeme parts) := by
  unfold cutWord at h
  split at h
  · rename_i hkeyword
    cases h
    exact .inl ⟨rfl, hkeyword⟩
  · rename_i hkeyword
    split at h
    · cases h
    · rename_i parts rest hread
      cases h
      exact .inr ⟨hkeyword, parts, hread, rfl⟩

/-- The quoted segments of a printed field that is read as such close where they are printed to. -/
theorem isEscaped_of_readKey {cs rest : List Char} {parts : List KeyPart}
    (h : readKey true cs = some (parts, rest)) {segment : String}
    (hparts : ∀ part ∈ segmentParts segment, part ∈ parts) :
    isEscaped segment.toList = true := by
  cases hplain : Field.isPlainSegment segment with
  | true =>
    obtain ⟨-, -, hkey, -⟩ := of_isPlainSegment hplain
    exact isEscaped_of_plain fun c hc => ne_escaped_of_isKeyChar (hkey c hc)
  | false =>
    have hwell := of_readKey true cs
    rw [h] at hwell
    have hsegment : KeyPart.segment '"' segment.toList ∈ parts := by
      refine hparts _ ?_
      rw [segmentParts_quoted hplain]
      exact List.mem_cons_self
    exact isEscaped_iff_quotes.mpr (hwell _ hsegment).2

/-- A quoted segment that a whole column is printed as. -/
theorem segment_of_print {name : String} {quote : Char} {body : List Char}
    (hquote : isQuote quote = true)
    (h : (KeyPart.segment quote body).source = (Field.simple name).print.toList) :
    KeyPart.segment quote body = .segment '"' name.toList ∧ Field.isPlainSegment name = false := by
  replace h : quote :: (body ++ [quote]) = (Field.printSegment name).toList := h
  cases hplain : Field.isPlainSegment name with
  | true =>
    obtain ⟨hprint, -, hkey, -⟩ := of_isPlainSegment hplain
    rw [hprint] at h
    have hnone := isQuote_of_isKeyChar (hkey quote (by rw [← h]; exact List.mem_cons_self))
    rw [hquote] at hnone
    cases hnone
  | false =>
    rw [toList_printSegment hplain] at h
    obtain ⟨rfl, hbody⟩ := List.cons.inj h
    rw [List.append_cancel_right hbody]
    exact ⟨rfl, rfl⟩

/-- The field that the token of a lexeme selects. -/
def Lexeme.field? (l : Lexeme) : Option Field := selectedField? ⟨l.kind, l.text, .start, l.quoted⟩

theorem field?_segment (quote : Char) (body : List Char) :
    (keyLexeme [.segment quote body]).field? =
      some (.simple (String.ofList (unescape body))) := by
  have htext : (keyLexeme [.segment quote body]).field? =
      some (.simple (String.ofList (unescape (body ++ [quote]).dropLast))) := rfl
  rw [htext, List.dropLast_concat]

/-- If a printed field is read as a key that names it, the key has the parts that the field is
printed as. -/
theorem parts_of_field? {f : Field} {parts : List KeyPart}
    (hread : readKey true f.print.toList = some (parts, []))
    (hfield : (keyLexeme parts).field? = some f) : parts = fieldParts f := by
  have hsource := source_of_readKey hread
  rw [List.append_nil] at hsource
  by_cases hsingle : ∃ quote body, parts = [.segment quote body]
  · obtain ⟨quote, body, rfl⟩ := hsingle
    rw [field?_segment, Option.some.injEq] at hfield
    obtain ⟨name, rfl⟩ : ∃ name, f = .simple name := ⟨_, hfield.symm⟩
    have hwell := of_readKey true (Field.simple name).print.toList
    rw [hread] at hwell
    rw [List.flatMap_singleton] at hsource
    obtain ⟨hsegment, hplain⟩ := segment_of_print (hwell _ List.mem_cons_self).1 hsource
    rw [hsegment, fieldParts, segmentParts_quoted hplain]
  · have hlexeme := keyLexeme_eq_key fun quote body h => hsingle ⟨quote, body, h⟩
    rw [hlexeme] at hfield
    have hkey : Field.ofKey (String.ofList (parts.flatMap KeyPart.source)) = f :=
      Option.some.inj hfield
    rw [hsource, String.ofList_toList] at hkey
    exact parts_of_print hkey hread

/-- A column that is selected by its printed name is canonical. -/
theorem isCanonical_simple {name : String}
    (hkeyword : keyword? (Field.simple name).print.toList = none)
    (hread : readKey true (Field.simple name).print.toList =
      some (fieldParts (.simple name), []))
    (hfield : (keyLexeme (fieldParts (.simple name))).field? = some (.simple name)) :
    (Field.simple name).isCanonical = true := by
  have hescaped : isEscaped name.toList = true := isEscaped_of_readKey hread fun _ h => h
  rw [Field.isCanonical, Bool.and_eq_true, List.all_eq_true, isNone_ofKeyword?, Bool.not_eq_true',
    Bool.eq_false_iff]
  cases hplain : Field.isPlainSegment name with
  | true =>
    obtain ⟨hprint, -, hkey, -⟩ := of_isPlainSegment hplain
    refine ⟨fun c hc => ?_, fun hword => ?_⟩
    · simpa using ne_escaped_of_isKeyChar (hkey c hc)
    · rw [Field.print, hprint, keyword?_of_isKeyword hword] at hkeyword
      cases hkeyword
  | false =>
    have hparts : fieldParts (.simple name) = [.segment '"' name.toList] :=
      segmentParts_quoted hplain
    rw [hparts, field?_segment, Option.some.injEq, Field.simple.injEq] at hfield
    have hsame : unescape name.toList = name.toList := by
      rw [← String.toList_ofList (l := unescape name.toList), hfield]
    refine ⟨fun c hc => ?_, fun hword => ?_⟩
    · simpa using plain_of_unescape_eq hescaped hsame c hc
    · rw [isPlainSegment_of_isKeyword hword] at hplain
      cases hplain

theorem mem_intercalate {α : Type} (separator : List α) {texts : List (List α)} {text : List α}
    (h : text ∈ texts) {a : α} (ha : a ∈ text) : a ∈ List.intercalate separator texts := by
  induction texts with
  | nil => cases h
  | cons first texts ih =>
    cases texts with
    | nil =>
      rw [List.mem_singleton.mp h] at ha
      rw [List.intercalate_singleton]
      exact ha
    | cons next texts =>
      rw [List.intercalate_cons_cons]
      rcases List.mem_cons.mp h with rfl | h
      · exact List.mem_append_left _ (List.mem_append_left _ ha)
      · exact List.mem_append_right _ (ih h)

/-- A field that its printed name is cut into one token for is canonical. -/
theorem isCanonical_of_cutWord {f : Field} (hwhole : f.isWhole = true) {l : Lexeme}
    (hcut : cutWord f.print.toList = (.token l, [])) (hfield : l.field? = some f) :
    f.isCanonical = true := by
  obtain ⟨hbool, -⟩ | ⟨hkeyword, parts, hread, rfl⟩ := cutWord_cases hcut
  · rw [Lexeme.field?, selectedField?, hbool] at hfield
    cases hfield
  obtain rfl := parts_of_field? hread hfield
  cases f with
  | simple name => exact isCanonical_simple hkeyword hread hfield
  | nested base path =>
    rw [Field.isWhole, Bool.and_eq_true, List.all_eq_true] at hwhole
    rw [Field.isCanonical, Bool.and_eq_true, List.all_eq_true]
    refine ⟨hwhole.1, fun segment hsegment => ?_⟩
    have hescaped : isEscaped segment.toList = true := isEscaped_of_readKey hread fun part hpart =>
      mem_intercalate _ (List.mem_map_of_mem hsegment) hpart
    rw [Field.isCanonicalSegment, hwhole.2 segment hsegment, hescaped]
    rfl

/-! ## The token of a printed field -/

theorem last_printSegment (segment : String) :
    ∃ front c, (Field.printSegment segment).toList = front ++ [c] ∧ isBlank c = false := by
  cases hplain : Field.isPlainSegment segment with
  | true =>
    obtain ⟨hprint, -, hkey, c, cs, hcs, -⟩ := of_isPlainSegment hplain
    have hne : segment.toList ≠ [] := by
      rw [hcs]
      exact List.cons_ne_nil c cs
    refine ⟨segment.toList.dropLast, segment.toList.getLast hne, ?_, ?_⟩
    · rw [hprint, List.dropLast_concat_getLast]
    · exact isBlank_of_isKeyChar (hkey _ (List.getLast_mem hne))
  | false => exact ⟨'"' :: segment.toList, '"', toList_printSegment hplain, rfl⟩

/-- A printed field does not end in a blank. -/
theorem last_print (f : Field) :
    ∃ front c, f.print.toList = front ++ [c] ∧ isBlank c = false := by
  cases f with
  | simple name => exact last_printSegment name
  | nested base path =>
    rw [Field.print, String.toList_intercalate, List.map_map]
    induction path generalizing base with
    | nil =>
      rw [List.map_cons, List.map_nil, List.intercalate_singleton]
      exact last_printSegment base
    | cons next path ih =>
      obtain ⟨front, c, hfront, hc⟩ := ih next
      rw [List.map_cons] at hfront
      rw [List.map_cons, List.map_cons, List.intercalate_cons_cons, hfront, ← List.append_assoc]
      exact ⟨_, c, rfl, hc⟩

theorem starts_print (f : Field) : Starts startsWord f.print.toList := by
  have hsegment : ∀ segment, Starts startsWord (Field.printSegment segment).toList := fun segment => by
    rw [← List.append_nil (Field.printSegment segment).toList]
    exact starts_printSegment segment []
  cases f with
  | simple name => exact hsegment name
  | nested base path =>
    cases path with
    | nil =>
      rw [Field.print, String.toList_intercalate, List.map_singleton, List.map_singleton,
        List.intercalate_singleton]
      exact hsegment base
    | cons next path =>
      obtain ⟨more, hprint⟩ := toList_print_nested base next path
      rw [hprint]
      exact starts_printSegment base _

/-- A text without tokens and faults is blank. -/
theorem isBlank_of_tokensAt {expectsValue : Bool} {cs : List Char} {p : Position}
    (htokens : Piece.tokensAt p (pieces expectsValue cs) = [])
    (hfaults : (Piece.locate p (pieces expectsValue cs)).filterMap Piece.fault? = []) :
    ∀ c ∈ cs, isBlank c = true := by
  fun_induction pieces expectsValue cs generalizing p with
  | case1 => simp
  | case2 expectsValue c rest cut =>
    rename_i ih
    have hsound : cut.1.IsSound cut.2 := isSound_nextPiece expectsValue c rest
    have hsource : cut.1.source ++ cut.2 = c :: rest := source_nextPiece expectsValue c rest
    rw [← hsource]
    obtain ⟨piece, rest'⟩ := cut
    cases piece with
    | blank d => exact List.forall_mem_cons.mpr ⟨hsound, ih htokens hfaults⟩
    | token l => cases htokens
    | stray d => cases hfaults
    | unclosed source => cases hfaults

/-- A word that is cut into one token, without fault and without a blank behind it, is that token as a
whole. -/
theorem cutWord_of_tokensAt {cs : List Char} (hstarts : Starts startsWord cs)
    (hlast : ∃ front c, cs = front ++ [c] ∧ isBlank c = false) {p : Position} {t : Token}
    (htokens : Piece.tokensAt p (pieces false cs) = [t])
    (hfaults : (Piece.locate p (pieces false cs)).filterMap Piece.fault? = []) :
    ∃ l : Lexeme, cutWord cs = (.token l, []) ∧ t = ⟨l.kind, l.text, p, l.quoted⟩ := by
  obtain ⟨c, rest, rfl, hc⟩ := hstarts
  have hsource := source_cutWord (c :: rest)
  have hsound := isSound_cutWord (c :: rest)
  rw [pieces, nextPiece_word hc] at htokens hfaults
  generalize cutWord (c :: rest) = cut at htokens hfaults hsource hsound
  obtain ⟨piece, behind⟩ := cut
  cases piece with
  | blank d =>
    obtain ⟨rfl, -⟩ := List.cons.inj hsource
    replace hsound : isBlank d = true := hsound
    rw [isBlank_of_startsWord hc] at hsound
    cases hsound
  | token l =>
    obtain ⟨rfl, hnone⟩ := List.cons.inj htokens
    have hblank := isBlank_of_tokensAt hnone hfaults
    refine ⟨l, ?_, rfl⟩
    rcases List.eq_nil_or_concat behind with rfl | ⟨front, d, rfl⟩
    · rfl
    · -- The last character would be a blank.
      obtain ⟨front', e, hlast, he⟩ := hlast
      rw [hlast, List.concat_eq_append, ← List.append_assoc] at hsource
      obtain ⟨-, hde⟩ := List.append_inj' hsource rfl
      rw [← List.singleton_inj.mp hde, hblank d (by simp)] at he
      cases he
  | stray d => cases hfaults
  | unclosed source => cases hfaults

/-! ## Selections -/

/-- The tokens of a text behind a pipe. -/
theorem tokenize_selection (text : String) :
    ∃ (pipe : Token) (p : Position), pipe.kind = .pipe ∧
      (tokenize ("| " ++ text)).tokens =
        pipe :: Piece.tokensAt p (pieces false text.toList) ∧
      (tokenize ("| " ++ text)).faults =
        (Piece.locate p (pieces false text.toList)).filterMap Piece.fault? := by
  have hpipe : Reads false ['|'] false anything (IsToken .pipe "|" false) := reads_mark (by simp)
  obtain ⟨ps, hclean, htokens, hpieces⟩ := hpipe.append_any reads_blank
  obtain ⟨_, _, hps, ⟨pipe, rfl, hkind, -, -⟩, rfl⟩ := htokens .start
  have htext : ("| " ++ text).toList = ['|'] ++ [' '] ++ text.toList := String.toList_append
  refine ⟨pipe, Position.start.after (ps.flatMap Piece.source), hkind, ?_, ?_⟩
  · have happend := Piece.tokensAt_append .start ps (pieces false text.toList)
    rw [hps] at happend
    rw [tokenize, locatedPieces, htext, hpieces _ fun _ _ => rfl]
    exact happend
  · rw [tokenize, locatedPieces, htext, hpieces _ fun _ _ => rfl, Piece.locate_append]
    dsimp only
    rw [List.filterMap_append, Piece.faults_of_clean hclean, List.nil_append]

/-- What follows a pipe are selected fields by the rules, and nothing else. -/
theorem fields_of_ofTokens {pipe : Token} (hpipe : pipe.kind = .pipe) {ts : List Token} {q : Query}
    (h : (Query.ofTokens (pipe :: ts)).query = some q) : Fields ts q.select := by
  have htail : readTail (pipe :: ts) = readSelect pipe ts := if_pos hpipe
  have hstarts : startsTail (pipe :: ts) = true := decide_eq_true hpipe
  rw [Query.ofTokens, if_pos hstarts, Query.assemble, htail, List.nil_append] at h
  dsimp only at h
  split at h
  · cases h
  · rename_i hfatal
    cases h
    exact fields_of_readSelect (faults_of_readSelect (Bool.eq_false_iff.mpr hfatal))

/-- A printed field that selects itself is one token that names it. -/
theorem cutWord_of_ofText {f : Field} (h : Query.ofText ("| " ++ f.print) = .ok ⟨none, [f]⟩) :
    ∃ l : Lexeme, cutWord f.print.toList = (.token l, []) ∧ l.field? = some f := by
  obtain ⟨pipe, p, hpipe, htokens, hfaults⟩ := tokenize_selection f.print
  have hquery := query_of_ofText h
  rw [htokens] at hquery
  have hclean : (tokenize ("| " ++ f.print)).faults = [] := by
    rw [Query.ofText_eq_ok_iff, Analysis.query?] at h
    split at h
    · rename_i hempty
      exact List.isEmpty_iff.mp hempty
    · cases h
  rw [hfaults] at hclean
  cases hfields : Piece.tokensAt p (pieces false f.print.toList) with
  | nil =>
    have hnone := fields_of_ofTokens hpipe hquery
    rw [hfields] at hnone
    cases hnone
  | cons t ts =>
    have hone := fields_of_ofTokens hpipe hquery
    rw [hfields] at hone
    cases hone with
    | one hfield =>
      obtain ⟨l, hcut, rfl⟩ := cutWord_of_tokensAt (starts_print f) (last_print f) hfields hclean
      exact ⟨l, hcut, hfield⟩
    | more _ _ hrest => cases hrest

/-- A field is selected by its printed name exactly if it is canonical. -/
theorem ofText_selection {f : Field} (hwhole : f.isWhole = true) :
    Query.ofText ("| " ++ f.print) = .ok ⟨none, [f]⟩ ↔ f.isCanonical = true := by
  constructor
  · intro h
    obtain ⟨l, hcut, hfield⟩ := cutWord_of_ofText h
    exact isCanonical_of_cutWord hwhole hcut hfield
  · intro h
    have hreads : Reads false ("| " ++ String.intercalate ", " ([f].map Field.print)).toList false
        endsField (Select · [f]) := reads_select (List.forall_mem_singleton.mpr h)
    have hprint : String.intercalate ", " ([f].map Field.print) = f.print := by simp
    rw [hprint] at hreads
    obtain ⟨hfaults, hselect⟩ := tokenize_of_reads hreads
    have houtcome := ofTokens_of_isQuery (.mk .nothing hselect)
    rw [List.nil_append] at houtcome
    rw [Query.ofText_eq_ok_iff, Analysis.query?, analyse]
    dsimp only
    rw [hfaults, houtcome]
    rfl

/-- The fields of a query: those that its filter compares, and those that it selects. -/
def Query.fields (q : Query) : List Field :=
  (q.filter.elim [] fun f => f.conditions.map Condition.field) ++ q.select

theorem isWhole_of_mem_fields {text : String} {q : Query} (h : Query.ofText text = .ok q)
    {f : Field} (hf : f ∈ q.fields) : f.isWhole = true := by
  obtain ⟨hfilter, hselect⟩ := shape_of_ofTokens (query_of_ofText h)
  rw [Query.fields] at hf
  rcases List.mem_append.mp hf with hf | hf
  · cases hq : q.filter with
    | none =>
      rw [hq] at hf
      cases hf
    | some filter =>
      rw [hq] at hf
      obtain ⟨c, hc, rfl⟩ := List.mem_map.mp hf
      exact ((hfilter filter hq).2 c hc).1
  · exact hselect f hf

/-- Every field of a query that is read, printed behind a pipe, selects itself and nothing else
exactly if it is canonical. -/
theorem ofText_selection_iff (text : String) (q : Query) (h : Query.ofText text = .ok q) (f : Field)
    (hf : f ∈ q.fields) :
    Query.ofText ("| " ++ f.print) = .ok ⟨none, [f]⟩ ↔ f.isCanonical = true :=
  ofText_selection (isWhole_of_mem_fields h hf)

/-- Segments in either kind of quotes, with a blank and with an escaped quote, keywords in a path, and
columns that only quotes can name. -/
theorem ofText_selection_iff_mixed :
    let text := "a.'x y'.\"p\\\"q\" = 1 and \"or x\" = 2 | and.or, ''"
    let q : Query := ⟨some (.logical .and [
        .condition ⟨.nested "a" ["x y", "p\\\"q"], .equal, .integer 1, false⟩,
        .condition ⟨.simple "or x", .equal, .integer 2, false⟩]),
      [.nested "and" ["or"], .simple ""]⟩
    Query.ofText text = .ok q ∧ q.fields.length = 4 ∧
      ∀ f ∈ q.fields, Query.ofText ("| " ++ f.print) = .ok ⟨none, [f]⟩ := by
  intro text q
  have hread : Query.ofText text = .ok q := Query.ofText_eq_ok_iff.mpr (by decide +kernel)
  have hcanonical : q.fields.all Field.isCanonical = true := by decide +kernel
  refine ⟨hread, rfl, fun f hf => (ofText_selection_iff text q hread f hf).mpr ?_⟩
  exact List.all_eq_true.mp hcanonical f hf

/-- Fields that their printed names do not select: a column that is named like a keyword, a double
quote in a column and in a path, and a backslash, which is taken for an escape. -/
theorem ofText_selection_lost :
    let text := "\"and\" = 1 | \"a\\\"b\", a.'x\"y', \"a\\\\b\""
    let q : Query := ⟨some (.condition ⟨.simple "and", .equal, .integer 1, false⟩),
      [.simple "a\"b", .nested "a" ["x\"y"], .simple "a\\b"]⟩
    Query.ofText text = .ok q ∧
      q.fields.map (fun f => "| " ++ f.print) =
        ["| and", "| \"a\"b\"", "| a.\"x\"y\"", "| \"a\\b\""] ∧
      q.fields.map (fun f => (Query.ofText ("| " ++ f.print)).toOption) =
        [none, none, none, some ⟨none, [.simple "ab"]⟩] := by
  intro text q
  have hread : (analyse text).query? = some q := by decide +kernel
  exact ⟨Query.ofText_eq_ok_iff.mpr hread, by decide +kernel, by decide +kernel⟩

end LogQuery
