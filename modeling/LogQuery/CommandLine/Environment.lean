import LogQuery.Text.Blank
import LogQuery.Token.Basic

/-!
# Environment variables

Variables come from the environment and from a file of lines `NAME=value`, which sets only those
that are not set yet. A line may start with `export`, and a `#` after white space starts a comment.
A value may be quoted, in parts or as a whole, and may then go on over several lines: between single
quotes all is taken as it stands, elsewhere a backslash escapes a character, and `$NAME` and
`${NAME}` stand for the value of a variable. The first line that cannot be read ends the file.
-/

namespace LogQuery

/-- Variables and their values. -/
abbrev Environment := List (String × String)

namespace Environment

/-! ## Lines -/

/-- What a scan over the characters of a line is in the middle of. -/
inductive Scan where
  | plain
  | blank
  | escape
  | weak
  | weakEscape
  | strong
  | strongEscape
  deriving DecidableEq

/-- Scans part of a line. The characters before a comment are given if there is one, else the state
at the end. -/
def scan : Scan → List Char → Scan ⊕ List Char
  | state, [] => .inl state
  | state, c :: rest =>
    let next (state : Scan) : Scan ⊕ List Char :=
      match scan state rest with
      | .inl state => .inl state
      | .inr kept => .inr (c :: kept)
    let opened : Scan :=
      if c = '\\' then .escape else if c = '"' then .weak else if c = '\'' then .strong else .plain
    match state with
    | .blank => if c = '#' then .inr [] else next opened
    | .escape => next .plain
    | .plain =>
      if Text.isBlank c && c != '\n' && c != '\r' then next .blank else next opened
    | .weak => next (if c = '\\' then .weakEscape else if c = '"' then .plain else .weak)
    | .weakEscape => next .weak
    | .strong => next (if c = '\\' then .strongEscape else if c = '\'' then .plain else .strong)
    | .strongEscape => next .strong

/-- A text cut after each newline. -/
def physicalLines : List Char → List (List Char)
  | [] => []
  | c :: rest =>
    if c = '\n' then [c] :: physicalLines rest
    else
      match physicalLines rest with
      | [] => [[c]]
      | line :: lines => (c :: line) :: lines

/-- A line without its line break. -/
def dropLineBreak (line : List Char) : List Char :=
  match line.reverse with
  | '\n' :: '\r' :: rest => rest.reverse
  | '\n' :: rest => rest.reverse
  | _ => line

/-- Puts lines together that a quoted value goes on over. `buffer` is what is already read of a line,
and `state` what it is in the middle of. A line that never ends is given as `none`. -/
def logicalLines (buffer : List Char) (state : Scan) : List (List Char) → List (Option (List Char))
  | [] => if state = .plain then [] else [none]
  | line :: rest =>
    let all := buffer ++ line
    if (all.dropWhile Text.isBlank).head? = some '#' then logicalLines [] .plain rest
    else
      match scan state line with
      | .inr kept => some (buffer ++ kept) :: logicalLines [] .plain rest
      | .inl .plain => some (dropLineBreak all) :: logicalLines [] .plain rest
      | .inl state => logicalLines all state rest

/-! ## Values -/

/-- What the reading of a value is in the middle of. -/
inductive Reading where
  | text
  | escape
  | strong
  /-- The name of a variable, in reverse. -/
  | reference (name : List Char)
  /-- The name of a variable in braces, in reverse. -/
  | braced (name : List Char)
  /-- Nothing but a comment may follow. -/
  | ending

/-- The value of a variable, or nothing. -/
def valueOf (env : Environment) (name : List Char) : List Char :=
  match env.lookup (String.ofList name.reverse) with
  | some value => value.toList
  | none => []

/-- Reads a value. `weak` says whether double quotes are open. -/
def readValue? (env : Environment) (weak : Bool) : Reading → List Char → Option (List Char)
  | .braced _, [] => none
  | .strong, [] => none
  | .reference name, [] => if weak then none else some (valueOf env name)
  | _, [] => if weak then none else some []
  | .ending, c :: rest =>
    if c = ' ' ∨ c = '\t' then readValue? env weak .ending rest
    else if c = '#' then if weak then none else some []
    else none
  | .escape, c :: rest =>
    if c = '\\' ∨ c = '\'' ∨ c = '"' ∨ c = '$' ∨ c = ' ' then
      (readValue? env weak .text rest).map (c :: ·)
    else if c = 'n' then (readValue? env weak .text rest).map ('\n' :: ·)
    else none
  | .strong, c :: rest =>
    if c = '\'' then readValue? env weak .text rest
    else (readValue? env weak .strong rest).map (c :: ·)
  | .reference name, c :: rest =>
    if Text.isAlphanumeric c then readValue? env weak (.reference (c :: name)) rest
    else if c = '\x7b' ∧ name = [] then readValue? env weak (.braced []) rest
    else if c = '$' then (readValue? env weak (.reference []) rest).map (valueOf env name ++ ·)
    else (readValue? env weak .text rest).map (valueOf env name ++ c :: ·)
  | .braced name, c :: rest =>
    if c = '\x7d' then (readValue? env weak .text rest).map (valueOf env name ++ ·)
    else readValue? env weak (.braced (c :: name)) rest
  | .text, c :: rest =>
    if c = '$' then readValue? env weak (.reference []) rest
    else if c = '\\' then readValue? env weak .escape rest
    else if weak then
      if c = '"' then readValue? env false .text rest
      else (readValue? env true .text rest).map (c :: ·)
    else if c = '\'' then readValue? env false .strong rest
    else if c = '"' then readValue? env true .text rest
    else if c = ' ' ∨ c = '\t' then readValue? env false .ending rest
    else (readValue? env false .text rest).map (c :: ·)

/-! ## Assignments -/

def isNameStart (c : Char) : Bool := c.isAlpha || c == '_'

def isNameChar (c : Char) : Bool := c.isAlphanum || c == '_' || c == '.'

/-- The name at the start of a line, and what follows it and white space. -/
def readName? : List Char → Option (String × List Char)
  | [] => none
  | c :: rest =>
    if isNameStart c then
      some (String.ofList (c :: rest.takeWhile isNameChar),
        (rest.dropWhile isNameChar).dropWhile Text.isBlank)
    else none

/-- What follows an equals sign and white space. -/
def afterEqual? : List Char → Option (List Char)
  | '=' :: rest => some (rest.dropWhile Text.isBlank)
  | _ => none

/-- The name that a line sets, and the text of its value. The word `export` may stand before the
name, and may itself be the name. -/
def readTarget? (line : List Char) : Option (String × List Char) := do
  let (name, rest) ← readName? line
  match afterEqual? rest with
  | some value => return (name, value)
  | none =>
    if name = "export" then
      let (name, rest) ← readName? rest
      let value ← afterEqual? rest
      return (name, value)
    else none

/-- Is there nothing on the line but a comment? -/
def isVoid (line : List Char) : Bool := line.isEmpty || line.head? == some '#'

/-- Sets a variable that is not set yet. -/
def setNew (env : Environment) (name value : String) : Environment :=
  if (env.lookup name).isSome then env else env ++ [(name, value)]

/-- Does what a line says; `none` if it cannot be read. -/
def applyLine? (env : Environment) (line : List Char) : Option Environment :=
  let line := Text.trim line
  if isVoid line then some env
  else
    match readTarget? line with
    | none => none
    | some (name, value) =>
      if isVoid value then some (setNew env name "")
      else (readValue? env false .text value).map fun v => setNew env name (String.ofList v)

/-- Does what lines say, up to the first that cannot be read. -/
def applyLines (env : Environment) : List (Option (List Char)) → Environment
  | [] => env
  | none :: _ => env
  | some line :: rest =>
    match applyLine? env line with
    | none => env
    | some env => applyLines env rest

/-- Takes a byte order mark off a text. -/
def dropMark : List Char → List Char
  | '\uFEFF' :: rest => rest
  | cs => cs

/-- The environment after a file of variables. -/
def load (env : Environment) (file : String) : Environment :=
  applyLines env (logicalLines [] .plain (physicalLines (dropMark file.toList)))

end Environment

end LogQuery
