import LogQuery.Proofs.Text.Classes

/-!
# The lexemes of a condition

The text of a condition or a select list as a ClickHouse server cuts it: white space, words,
numbers, punctuation, names in backquotes and strings in single quotes. A backslash inside quotes
escapes the next character, and a doubled single quote inside a string is a single quote. A comment,
an open quote and a number that runs into a word have no lexemes (`lexemes`).

What a text is cut into depends on what follows it only at the boundary. `Lexes text ls` says that
`text` is cut into `ls` before a break (the end, white space, a bracket or a comma), and
`LexesClosed text ls` that it is cut into `ls` before anything:

* `source_of_lexemes`: the lexemes of a text make up the text;
* `Lexes.append`, `LexesClosed.append`: texts side by side are cut one by one;
* `lexes_word`, `lexes_number`, `lexes_blank`, `lexes_mark`: the lexemes outside quotes.
-/

namespace LogQuery.Sql

open Text

/-- What a lexeme stands for: quoted text without its quotes and escapes, all else as written. -/
inductive Token where
  | word (text : String)
  | number (text : String)
  | punctuation (text : String)
  | identifier (name : String)
  | string (content : String)
  deriving DecidableEq

/-- A token without what stands in its quotes, and without the digits of a number. -/
inductive Token.Kind where
  | word (text : String)
  | number
  | punctuation (text : String)
  | identifier
  | string
  deriving DecidableEq

def Token.kind : Token → Kind
  | word text => .word text
  | number _ => .number
  | punctuation text => .punctuation text
  | identifier _ => .identifier
  | string _ => .string

/-- A stretch of text and the token it stands for, which white space has none of. -/
structure Lexeme where
  source : List Char
  token : Option Token
  deriving DecidableEq

/-! ## Cutting a text -/

/-- May `c` stand in a word? A digit starts none. -/
def isWordChar (c : Char) : Bool := c.isAlphanum || c == '_'

/-- The raw content of a string whose opening quote is already taken, and what follows the closing
quote; `none` if it never closes. -/
def readString : List Char → Option (List Char × List Char)
  | [] => none
  | ['\\'] => none
  | '\\' :: c :: rest => (readString rest).map fun r => ('\\' :: c :: r.1, r.2)
  | '\'' :: '\'' :: rest => (readString rest).map fun r => ('\'' :: '\'' :: r.1, r.2)
  | c :: rest =>
    if c = '\'' then some ([], rest) else (readString rest).map fun r => (c :: r.1, r.2)

/-- The string that a raw content stands for. -/
def decodeString : List Char → List Char
  | [] => []
  | ['\\'] => []
  | '\\' :: c :: rest => c :: decodeString rest
  | '\'' :: '\'' :: rest => '\'' :: decodeString rest
  | c :: rest => c :: decodeString rest

/-- The digits at the start of a text, with a point and the digits after it if there is one. -/
def readNumber (cs : List Char) : List Char × List Char :=
  match cs.dropWhile Char.isDigit with
  | '.' :: rest =>
    (cs.takeWhile Char.isDigit ++ '.' :: rest.takeWhile Char.isDigit, rest.dropWhile Char.isDigit)
  | rest => (cs.takeWhile Char.isDigit, rest)

/-- Does the text go on with a word? -/
def goesOnWithWord : List Char → Bool
  | [] => false
  | c :: _ => isWordChar c

/-- The marks of one character. -/
def marks : List Char :=
  ['(', ')', '[', ']', '{', '}', ',', '.', ';', ':', '?', '=', '<', '>', '+', '-', '*', '/', '%']

/-- The marks of two characters. -/
def doubleMarks : List (Char × Char) :=
  [('!', '='), ('<', '='), ('>', '='), ('=', '='), ('<', '>'), ('|', '|'), (':', ':'), ('-', '>')]

/-- What opens a comment. -/
def commentMarks : List (Char × Char) := [('-', '-'), ('/', '*')]

/-- A mark of one character. -/
def cutSingleMark (c : Char) (rest : List Char) : Option (Lexeme × List Char) :=
  if c ∈ marks then some (⟨[c], some (.punctuation (String.ofList [c]))⟩, rest) else none

/-- The longest mark; a comment is none. -/
def cutMark (c : Char) : List Char → Option (Lexeme × List Char)
  | [] => cutSingleMark c []
  | d :: rest =>
    if (c, d) ∈ commentMarks then none
    else if (c, d) ∈ doubleMarks then
      some (⟨[c, d], some (.punctuation (String.ofList [c, d]))⟩, rest)
    else cutSingleMark c (d :: rest)

/-- The number at the start of a text, unless a word follows at once. -/
def cutNumber (cs : List Char) : Option (Lexeme × List Char) :=
  if goesOnWithWord (readNumber cs).2 then none
  else some (⟨(readNumber cs).1, some (.number (String.ofList (readNumber cs).1))⟩,
    (readNumber cs).2)

/-- The first lexeme of the text `c :: rest`. -/
def cutLexeme (c : Char) (rest : List Char) : Option (Lexeme × List Char) :=
  if c.isWhitespace then some (⟨[c], none⟩, rest)
  else if c = '\'' then
    (readString rest).map fun r =>
      (⟨c :: r.1 ++ [c], some (.string (String.ofList (decodeString r.1)))⟩, r.2)
  else if c = '`' then
    (readQuoted c rest).map fun r =>
      (⟨c :: r.1 ++ [c], some (.identifier (String.ofList (unescape r.1)))⟩, r.2)
  else if c.isDigit then cutNumber (c :: rest)
  else if isWordChar c then
    let word := c :: rest.takeWhile isWordChar
    some (⟨word, some (.word (String.ofList word))⟩, rest.dropWhile isWordChar)
  else cutMark c rest

theorem append_of_readString {cs body rest : List Char} (h : readString cs = some (body, rest)) :
    cs = body ++ '\'' :: rest := by
  fun_induction readString cs generalizing body rest with
  | case1 => simp at h
  | case2 => simp at h
  | case3 c tail ih =>
    obtain ⟨r, hr, heq⟩ := Option.map_eq_some_iff.mp h
    cases heq
    simp [@ih r.1 r.2 hr]
  | case4 tail ih =>
    obtain ⟨r, hr, heq⟩ := Option.map_eq_some_iff.mp h
    cases heq
    simp [@ih r.1 r.2 hr]
  | case5 => simp_all
  | case6 c tail _ _ _ _ ih =>
    obtain ⟨r, hr, heq⟩ := Option.map_eq_some_iff.mp h
    cases heq
    simp [@ih r.1 r.2 hr]

theorem append_readNumber (cs : List Char) : (readNumber cs).1 ++ (readNumber cs).2 = cs := by
  unfold readNumber
  split
  · rename_i rest h
    rw [List.append_assoc, List.cons_append, List.takeWhile_append_dropWhile, ← h,
      List.takeWhile_append_dropWhile]
  · exact List.takeWhile_append_dropWhile

theorem readNumber_ne_nil {c : Char} (hc : c.isDigit = true) (rest : List Char) :
    (readNumber (c :: rest)).1 ≠ [] := by
  unfold readNumber
  split <;> simp [hc]

theorem of_cutMark {c : Char} {rest rest' : List Char} {l : Lexeme}
    (h : cutMark c rest = some (l, rest')) :
    l.source ++ rest' = c :: rest ∧ l.source ≠ [] ∧ l.token ≠ none := by
  have single : ∀ {rest}, cutSingleMark c rest = some (l, rest') →
      l.source ++ rest' = c :: rest ∧ l.source ≠ [] ∧ l.token ≠ none := by
    intro rest h
    unfold cutSingleMark at h
    split at h <;> simp at h
    obtain ⟨rfl, rfl⟩ := h
    simp
  cases rest with
  | nil => exact single h
  | cons d rest =>
    rw [cutMark] at h
    split at h
    · simp at h
    split at h
    · simp only [Option.some.injEq, Prod.mk.injEq] at h
      obtain ⟨rfl, rfl⟩ := h
      simp
    · exact single h

/-- A lexeme and the rest make up the text, and only white space stands for no token. -/
theorem of_cutLexeme {c : Char} {rest rest' : List Char} {l : Lexeme}
    (h : cutLexeme c rest = some (l, rest')) :
    l.source ++ rest' = c :: rest ∧ l.source ≠ [] ∧ (c.isWhitespace = false → l.token ≠ none) := by
  unfold cutLexeme at h
  split at h
  · simp only [Option.some.injEq, Prod.mk.injEq] at h
    obtain ⟨rfl, rfl⟩ := h
    simp_all
  split at h
  · rename_i hq
    obtain ⟨⟨body, rest''⟩, hr, heq⟩ := Option.map_eq_some_iff.mp h
    simp only [Prod.mk.injEq] at heq
    obtain ⟨rfl, rfl⟩ := heq
    rw [append_of_readString hr, hq]
    simp
  split at h
  · obtain ⟨⟨body, rest''⟩, hr, heq⟩ := Option.map_eq_some_iff.mp h
    simp only [Prod.mk.injEq] at heq
    obtain ⟨rfl, rfl⟩ := heq
    rw [append_of_readQuoted hr]
    simp
  split at h
  · rename_i hd
    unfold cutNumber at h
    split at h
    · simp at h
    · simp only [Option.some.injEq, Prod.mk.injEq] at h
      obtain ⟨rfl, rfl⟩ := h
      exact ⟨append_readNumber (c :: rest), readNumber_ne_nil hd rest, by simp⟩
  split at h
  · simp only [Option.some.injEq, Prod.mk.injEq] at h
    obtain ⟨rfl, rfl⟩ := h
    simp
  · obtain ⟨hsource, hne, htoken⟩ := of_cutMark h
    exact ⟨hsource, hne, fun _ => htoken⟩

theorem length_lt_of_cutLexeme {c : Char} {rest rest' : List Char} {l : Lexeme}
    (h : cutLexeme c rest = some (l, rest')) : rest'.length < (c :: rest).length := by
  obtain ⟨hs, hne, -⟩ := of_cutLexeme h
  have hpos := List.length_pos_iff.mpr hne
  rw [← hs, List.length_append]
  omega

/-- The lexemes of a text; `none` if it cannot be cut. -/
def lexemes : List Char → Option (List Lexeme)
  | [] => some []
  | c :: rest =>
    match _h : cutLexeme c rest with
    | none => none
    | some (l, rest') => (lexemes rest').map (l :: ·)
termination_by cs => cs.length
decreasing_by exact length_lt_of_cutLexeme _h

/-- The tokens of a text. -/
def tokens (cs : List Char) : Option (List Token) := (lexemes cs).map (·.filterMap Lexeme.token)

theorem lexemes_cons {c : Char} {rest rest' : List Char} {l : Lexeme}
    (h : cutLexeme c rest = some (l, rest')) :
    lexemes (c :: rest) = (lexemes rest').map (l :: ·) := by
  rw [lexemes]
  split <;> simp_all

/-- The lexemes of a text make up the text. -/
theorem source_of_lexemes {cs : List Char} {ls : List Lexeme} (h : lexemes cs = some ls) :
    ls.flatMap Lexeme.source = cs := by
  fun_induction lexemes cs generalizing ls with
  | case1 => simp_all
  | case2 => simp at h
  | case3 c rest l rest' hcut ih =>
    obtain ⟨ls', hls, rfl⟩ := Option.map_eq_some_iff.mp h
    rw [List.flatMap_cons, ih hls, (of_cutLexeme hcut).1]

/-- A text that starts with no white space starts with a token. -/
theorem lexemes_starts {c : Char} {cs : List Char} {ls : List Lexeme}
    (hc : c.isWhitespace = false) (h : lexemes (c :: cs) = some ls) :
    ∃ l rest t, ls = l :: rest ∧ l.token = some t := by
  rw [lexemes] at h
  split at h
  · cases h
  · rename_i l rest' hcut
    obtain ⟨rest, -, rfl⟩ := Option.map_eq_some_iff.mp h
    obtain ⟨t, ht⟩ := Option.ne_none_iff_exists'.mp ((of_cutLexeme hcut).2.2 hc)
    exact ⟨l, rest, t, rfl, ht⟩

/-! ## Boundaries -/

/-- Does `c` end whatever lexeme stands before it? -/
def isBreak (c : Char) : Bool :=
  c.isWhitespace || c == '(' || c == ')' || c == '[' || c == ']' || c == ','

/-- The text ends, or starts with a character that ends whatever stands before it. -/
def Breaks (cs : List Char) : Prop := ∀ c ∈ cs.head?, isBreak c = true

theorem breaks_nil : Breaks [] := by simp [Breaks]

theorem breaks_cons {c : Char} (h : isBreak c = true) (rest : List Char) : Breaks (c :: rest) := by
  simpa [Breaks] using h

/-- The characters that end a lexeme, one by one. -/
theorem eq_of_isBreak {c : Char} (h : isBreak c = true) :
    c ∈ [' ', '\t', '\r', '\n', '(', ')', '[', ']', ','] := by
  simp only [isBreak, Char.isWhitespace, Bool.or_eq_true, decide_eq_true_eq, beq_iff_eq] at h
  simpa only [List.mem_cons, List.not_mem_nil, or_false, or_assoc] using h

/-- `text` is cut into `ls` before a break. -/
def Lexes (text : List Char) (ls : List Lexeme) : Prop :=
  ∀ rest, Breaks rest → lexemes (text ++ rest) = (lexemes rest).map (ls ++ ·)

/-- `text` is cut into `ls` whatever follows. -/
def LexesClosed (text : List Char) (ls : List Lexeme) : Prop :=
  ∀ rest, lexemes (text ++ rest) = (lexemes rest).map (ls ++ ·)

theorem map_map_append (r : Option (List Lexeme)) (as bs : List Lexeme) :
    (r.map (bs ++ ·)).map (as ++ ·) = r.map (as ++ bs ++ ·) := by
  cases r <;> simp

theorem LexesClosed.lexes {text : List Char} {ls : List Lexeme} (h : LexesClosed text ls) :
    Lexes text ls := fun rest _ => h rest

theorem LexesClosed.append {a b : List Char} {la lb : List Lexeme} (ha : LexesClosed a la)
    (hb : LexesClosed b lb) : LexesClosed (a ++ b) (la ++ lb) := by
  intro rest
  rw [List.append_assoc, ha, hb, map_map_append]

/-- After a text that nothing can go on with, another is cut on its own. -/
theorem LexesClosed.append_lexes {a b : List Char} {la lb : List Lexeme} (ha : LexesClosed a la)
    (hb : Lexes b lb) : Lexes (a ++ b) (la ++ lb) := by
  intro rest hrest
  rw [List.append_assoc, ha, hb rest hrest, map_map_append]

theorem breaks_append {b : List Char} (hb : Breaks b) {rest : List Char} (hrest : Breaks rest) :
    Breaks (b ++ rest) := by
  cases b with
  | nil => exact hrest
  | cons c b => simpa [Breaks] using hb

/-- A text that starts with a break is cut on its own. -/
theorem Lexes.append {a b : List Char} {la lb : List Lexeme} (ha : Lexes a la) (hb : Lexes b lb)
    (hbreak : Breaks b) : Lexes (a ++ b) (la ++ lb) := by
  intro rest hrest
  rw [List.append_assoc, ha _ (breaks_append hbreak hrest), hb rest hrest, map_map_append]

theorem Lexes.append_closed {a b : List Char} {la lb : List Lexeme} (ha : Lexes a la)
    (hb : LexesClosed b lb) (hne : b ≠ []) (hbreak : Breaks b) :
    LexesClosed (a ++ b) (la ++ lb) := by
  intro rest
  have hbreak' : Breaks (b ++ rest) := by
    cases b with
    | nil => exact absurd rfl hne
    | cons c b => simpa [Breaks] using hbreak
  rw [List.append_assoc, ha _ hbreak', hb rest, map_map_append]

theorem lexesClosed_nil : LexesClosed [] [] := by
  intro rest
  cases h : lexemes rest <;> simp [h]

/-- A text that is cut into `ls` before a break is cut into `ls` on its own. -/
theorem Lexes.lexemes_eq {text : List Char} {ls : List Lexeme} (h : Lexes text ls) :
    lexemes text = some ls := by
  have := h [] breaks_nil
  rw [List.append_nil, lexemes] at this
  simpa using this

/-! ## Lexemes outside quotes -/

/-- What one lexeme is cut from, before a break. -/
theorem lexes_of_cutLexeme {c : Char} {cs : List Char} {l : Lexeme}
    (h : ∀ rest, Breaks rest → cutLexeme c (cs ++ rest) = some (l, rest)) :
    Lexes (c :: cs) [l] := by
  intro rest hrest
  rw [List.cons_append, lexemes_cons (h rest hrest)]
  rfl

theorem lexesClosed_of_cutLexeme {c : Char} {cs : List Char} {l : Lexeme}
    (h : ∀ rest, cutLexeme c (cs ++ rest) = some (l, rest)) : LexesClosed (c :: cs) [l] := by
  intro rest
  rw [List.cons_append, lexemes_cons (h rest)]
  rfl

/-- White space, which stands for no token. -/
def blank : Lexeme := ⟨[' '], none⟩

/-- The lexeme of a mark. -/
def mark (source : String) : Lexeme := ⟨source.toList, some (.punctuation source)⟩

/-- The lexeme of a word. -/
def word (source : String) : Lexeme := ⟨source.toList, some (.word source)⟩

/-- The lexeme of a number. -/
def number (source : String) : Lexeme := ⟨source.toList, some (.number source)⟩

theorem lexes_blank : LexesClosed [' '] [blank] :=
  lexesClosed_of_cutLexeme fun _ => rfl

/-- The marks that start no longer mark and no comment. -/
theorem lexes_closedMark {c : Char} (h : c ∈ ['(', ')', '[', ']', ',', '?']) :
    LexesClosed [c] [mark (String.ofList [c])] := by
  refine lexesClosed_of_cutLexeme fun rest => ?_
  simp only [List.mem_cons, List.not_mem_nil, or_false] at h
  rcases h with rfl | rfl | rfl | rfl | rfl | rfl <;> cases rest <;>
    simp [cutLexeme, cutMark, cutSingleMark, mark, marks, commentMarks, doubleMarks] <;> decide

/-- A mark of one character before a break. -/
theorem lexes_mark {c : Char} (h : c ∈ ['=', '<', '>']) :
    Lexes [c] [mark (String.ofList [c])] := by
  refine lexes_of_cutLexeme fun rest hrest => ?_
  simp only [List.mem_cons, List.not_mem_nil, or_false] at h
  cases rest with
  | nil => rcases h with rfl | rfl | rfl <;> rfl
  | cons d rest =>
    have hd := eq_of_isBreak (hrest d rfl)
    simp only [List.mem_cons, List.not_mem_nil, or_false] at hd
    rcases h with rfl | rfl | rfl <;>
      rcases hd with rfl | rfl | rfl | rfl | rfl | rfl | rfl | rfl | rfl <;> rfl

theorem lexes_doubleMark {c : Char} (h : c ∈ ['!', '<', '>']) :
    LexesClosed [c, '='] [mark (String.ofList [c, '='])] := by
  refine lexesClosed_of_cutLexeme fun rest => ?_
  simp only [List.mem_cons, List.not_mem_nil, or_false] at h
  rcases h with rfl | rfl | rfl <;> rfl

theorem ne_of_isWordChar {c : Char} (h : isWordChar c = true) :
    c.isWhitespace = false ∧ c ≠ '\'' ∧ c ≠ '`' ∧ c ≠ '-' ∧ c ≠ '>' := by
  refine ⟨?_, ?_, ?_, ?_, ?_⟩
  · refine Bool.eq_false_iff.mpr fun hw => ?_
    have hb := eq_of_isBreak (c := c) (by simp [isBreak, hw])
    simp only [List.mem_cons, List.not_mem_nil, or_false] at hb
    rcases hb with rfl | rfl | rfl | rfl | rfl | rfl | rfl | rfl | rfl <;> simp [isWordChar] at h
  all_goals
    rintro rfl
    simp [isWordChar] at h

theorem isWordChar_of_isDigit {c : Char} (h : c.isDigit = true) : isWordChar c = true := by
  simp [isWordChar, Char.isAlphanum, h]

theorem not_of_isBreak {c : Char} (h : isBreak c = true) :
    isWordChar c = false ∧ c.isDigit = false ∧ c ≠ '.' ∧ c ≠ '\'' := by
  have hb := eq_of_isBreak h
  simp only [List.mem_cons, List.not_mem_nil, or_false] at hb
  rcases hb with rfl | rfl | rfl | rfl | rfl | rfl | rfl | rfl | rfl <;> decide

/-- A break ends a run of characters. -/
theorem takeWhile_before_break {p : Char → Bool} (hp : ∀ c, isBreak c = true → p c = false)
    {run rest : List Char} (hrun : ∀ c ∈ run, p c = true) (hrest : Breaks rest) :
    (run ++ rest).takeWhile p = run ∧ (run ++ rest).dropWhile p = rest :=
  takeWhile_run hrun fun c hc => hp c (hrest c hc)

/-- A word before a break. -/
theorem lexes_word {c : Char} {cs : List Char} (hd : c.isDigit = false)
    (h : ∀ d ∈ c :: cs, isWordChar d = true) :
    Lexes (c :: cs) [word (String.ofList (c :: cs))] := by
  refine lexes_of_cutLexeme fun rest hrest => ?_
  have hc := h c List.mem_cons_self
  obtain ⟨hw, hs, hb, -⟩ := ne_of_isWordChar hc
  obtain ⟨htake, hdrop⟩ := takeWhile_before_break (fun _ h => (not_of_isBreak h).1)
    (fun d hd => h d (List.mem_cons_of_mem _ hd)) hrest
  simp [cutLexeme, hw, hs, hb, hd, hc, htake, hdrop, word]

/-- Digits, or digits on both sides of a point. -/
def IsNumeral (cs : List Char) : Prop :=
  ∃ whole, whole ≠ [] ∧ (∀ c ∈ whole, c.isDigit = true) ∧
    (cs = whole ∨ ∃ fraction, (∀ c ∈ fraction, c.isDigit = true) ∧ cs = whole ++ '.' :: fraction)

theorem readNumber_append {cs rest : List Char} (h : IsNumeral cs) (hrest : Breaks rest) :
    readNumber (cs ++ rest) = (cs, rest) := by
  have hdigit : ∀ c, isBreak c = true → c.isDigit = false := fun _ h => (not_of_isBreak h).2.1
  obtain ⟨whole, -, hwhole, rfl | ⟨fraction, hfraction, rfl⟩⟩ := h
  · obtain ⟨htake, hdrop⟩ := takeWhile_before_break hdigit hwhole hrest
    unfold readNumber
    rw [htake, hdrop]
    split
    · exact absurd rfl (not_of_isBreak (hrest '.' rfl)).2.2.1
    · rfl
  · obtain ⟨htake, hdrop⟩ := takeWhile_before_break hdigit hfraction hrest
    unfold readNumber
    rw [List.append_assoc, List.takeWhile_append_of_pos hwhole, List.dropWhile_append_of_pos hwhole]
    simp [htake, hdrop]

theorem goesOnWithWord_of_breaks {rest : List Char} (h : Breaks rest) :
    goesOnWithWord rest = false := by
  cases rest with
  | nil => rfl
  | cons c rest => exact (not_of_isBreak (h c rfl)).1

theorem IsNumeral.exists_cons {cs : List Char} (h : IsNumeral cs) :
    ∃ d tail, d.isDigit = true ∧ cs = d :: tail := by
  obtain ⟨whole, hne, hwhole, hcs⟩ := h
  obtain ⟨d, whole, rfl⟩ := List.exists_cons_of_ne_nil hne
  have hd := hwhole d List.mem_cons_self
  obtain rfl | ⟨fraction, -, rfl⟩ := hcs
  · exact ⟨d, whole, hd, rfl⟩
  · exact ⟨d, whole ++ '.' :: fraction, hd, rfl⟩

/-- A number before a break. -/
theorem lexes_number {cs : List Char} (h : IsNumeral cs) :
    Lexes cs [number (String.ofList cs)] := by
  obtain ⟨d, tail, hd, rfl⟩ := h.exists_cons
  refine lexes_of_cutLexeme fun rest hrest => ?_
  obtain ⟨hw, hs, hb, -⟩ := ne_of_isWordChar (isWordChar_of_isDigit hd)
  have hread := readNumber_append h hrest
  rw [List.cons_append] at hread
  simp [cutLexeme, cutNumber, hw, hs, hb, hd, hread, goesOnWithWord_of_breaks hrest, number]

/-- A minus sign before a number or a word. -/
theorem lexes_minus {c : Char} {cs : List Char} {ls : List Lexeme} (hc : isWordChar c = true)
    (h : Lexes (c :: cs) ls) : Lexes ('-' :: c :: cs) (mark "-" :: ls) := by
  obtain ⟨-, -, -, hdash, harrow⟩ := ne_of_isWordChar hc
  have hcut : ∀ rest, cutLexeme '-' (c :: rest) = some (mark "-", c :: rest) := by
    intro rest
    simp [cutLexeme, isWordChar, cutMark, cutSingleMark, commentMarks, doubleMarks, marks, mark,
      hdash, harrow]
  intro rest hrest
  rw [List.cons_append, List.cons_append, lexemes_cons (hcut _), ← List.cons_append, h rest hrest]
  cases lexemes rest <;> rfl

end LogQuery.Sql
