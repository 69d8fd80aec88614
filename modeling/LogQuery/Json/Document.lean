import LogQuery.Json.Basic

/-!
# JSON texts

A text is cut into symbols, and these are put together by a machine with a stack of the arrays and
objects that are still open, so that no nesting is too deep. The `Document` that comes out is the
text's structure: every member of an object in order, repeated names included, strings as code
units, and numbers as written. `Document.toJson?` is the value that it stands for.
-/

namespace LogQuery

/-- A unit of a JSON string: a character, or a 16-bit code written as an escape. -/
inductive StringUnit where
  | char (c : Char)
  | code (n : Nat)
  deriving DecidableEq

namespace StringUnit

/-- The character of a pair of surrogate codes. -/
def pair? (high low : Nat) : Option Char :=
  if 0xD800 ≤ high ∧ high < 0xDC00 ∧ 0xDC00 ≤ low ∧ low < 0xE000 then
    some (Char.ofNat (0x10000 + (high - 0xD800) * 0x400 + (low - 0xDC00)))
  else none

/-- The text that units stand for; `none` if a surrogate code stands alone. -/
def decode? : List StringUnit → Option (List Char)
  | [] => some []
  | char c :: rest => (decode? rest).map (c :: ·)
  | code n :: rest =>
    if n < 0xD800 ∨ 0xE000 ≤ n then (decode? rest).map (Char.ofNat n :: ·)
    else
      match rest with
      | code m :: rest =>
        match pair? n m with
        | some c => (decode? rest).map (c :: ·)
        | none => none
      | _ => none

end StringUnit

/-- A JSON text as it is written. -/
inductive Document where
  | null
  | bool (b : Bool)
  /-- A number with its text, and whether it has neither a fraction nor a power of ten. -/
  | number (text : List Char) (integral : Bool)
  | string (units : List StringUnit)
  | array (items : List Document)
  | object (members : List (List StringUnit × Document))

namespace Document

/-! ## Symbols -/

inductive Symbol where
  | openArray
  | closeArray
  | openObject
  | closeObject
  | comma
  | colon
  | scalar (d : Document)
  | string (units : List StringUnit)

/-- The value of a hexadecimal digit. -/
def hexDigit? (c : Char) : Option Nat :=
  if c.isDigit then some (c.toNat - '0'.toNat)
  else if 'a' ≤ c ∧ c ≤ 'f' then some (c.toNat - 'a'.toNat + 10)
  else if 'A' ≤ c ∧ c ≤ 'F' then some (c.toNat - 'A'.toNat + 10)
  else none

/-- The code of four hexadecimal digits. -/
def hexCode? (a b c d : Char) : Option Nat := do
  let a ← hexDigit? a
  let b ← hexDigit? b
  let c ← hexDigit? c
  let d ← hexDigit? d
  return ((a * 16 + b) * 16 + c) * 16 + d

/-- The character that a backslash and one letter stand for. -/
def escaped? (c : Char) : Option Char :=
  match c with
  | '"' => some '"'
  | '\\' => some '\\'
  | '/' => some '/'
  | 'b' => some '\x08'
  | 'f' => some '\x0c'
  | 'n' => some '\n'
  | 'r' => some '\r'
  | 't' => some '\t'
  | _ => none

/-- The units of a string whose opening quote is already taken, and the rest of the text. -/
def readString? : List Char → Option (List StringUnit × List Char)
  | '"' :: rest => some ([], rest)
  | '\\' :: 'u' :: a :: b :: c :: d :: rest =>
    match hexCode? a b c d with
    | none => none
    | some n => (readString? rest).map fun r => (.code n :: r.1, r.2)
  | '\\' :: c :: rest =>
    match escaped? c with
    | none => none
    | some c => (readString? rest).map fun r => (.char c :: r.1, r.2)
  | c :: rest =>
    if c = '\\' ∨ c.toNat < 32 then none else (readString? rest).map fun r => (.char c :: r.1, r.2)
  | [] => none

/-- At least one digit, and the rest of the text. -/
def readDigits? (cs : List Char) : Option (List Char × List Char) :=
  if (cs.takeWhile Char.isDigit).isEmpty then none
  else some (cs.takeWhile Char.isDigit, cs.dropWhile Char.isDigit)

/-- The whole part of a number: zero alone, or digits that do not start with zero. -/
def readWhole? : List Char → Option (List Char × List Char)
  | '0' :: rest => some (['0'], rest)
  | cs => readDigits? cs

/-- An optional point and digits. -/
def readFraction? : List Char → Option (List Char × List Char)
  | '.' :: rest => (readDigits? rest).map fun r => ('.' :: r.1, r.2)
  | cs => some ([], cs)

/-- An optional power of ten. -/
def readPower? : List Char → Option (List Char × List Char)
  | c :: rest =>
    if c = 'e' ∨ c = 'E' then
      match rest with
      | s :: rest' =>
        if s = '+' ∨ s = '-' then (readDigits? rest').map fun r => (c :: s :: r.1, r.2)
        else (readDigits? rest).map fun r => (c :: r.1, r.2)
      | [] => none
    else some ([], c :: rest)
  | [] => some ([], [])

/-- A number after its sign, and the rest of the text. -/
def readUnsigned? (sign cs : List Char) : Option (Document × List Char) := do
  let (whole, cs) ← readWhole? cs
  let (fraction, cs) ← readFraction? cs
  let (power, cs) ← readPower? cs
  return (.number (sign ++ whole ++ fraction ++ power) (fraction.isEmpty && power.isEmpty), cs)

/-- A number and the rest of the text. -/
def readNumber? : List Char → Option (Document × List Char)
  | '-' :: rest => readUnsigned? ['-'] rest
  | cs => readUnsigned? [] cs

/-- The first symbol of a text, and the rest of the text. -/
def readSymbol? : List Char → Option (Symbol × List Char)
  | '[' :: rest => some (.openArray, rest)
  | ']' :: rest => some (.closeArray, rest)
  | '\x7b' :: rest => some (.openObject, rest)
  | '\x7d' :: rest => some (.closeObject, rest)
  | ',' :: rest => some (.comma, rest)
  | ':' :: rest => some (.colon, rest)
  | '"' :: rest => (readString? rest).map fun r => (.string r.1, r.2)
  | 'n' :: 'u' :: 'l' :: 'l' :: rest => some (.scalar .null, rest)
  | 't' :: 'r' :: 'u' :: 'e' :: rest => some (.scalar (.bool true), rest)
  | 'f' :: 'a' :: 'l' :: 's' :: 'e' :: rest => some (.scalar (.bool false), rest)
  | cs => (readNumber? cs).map fun r => (.scalar r.1, r.2)

/-- Is `c` one of the characters that may stand between symbols? -/
def isSpace (c : Char) : Bool := c == ' ' || c == '\n' || c == '\t' || c == '\r'

theorem length_lt_of_readString? {cs rest : List Char} {units : List StringUnit}
    (h : readString? cs = some (units, rest)) : rest.length < cs.length := by
  fun_induction readString? cs generalizing units with
  | case1 => simp_all
  | case2 => simp at h
  | case3 a b c d tail n _ ih =>
    obtain ⟨r, hr, heq⟩ := Option.map_eq_some_iff.mp h
    cases heq
    have := ih hr
    simp only [List.length_cons]
    omega
  | case4 => simp at h
  | case5 c tail _ c' _ ih =>
    obtain ⟨r, hr, heq⟩ := Option.map_eq_some_iff.mp h
    cases heq
    have := ih hr
    simp only [List.length_cons]
    omega
  | case6 => simp at h
  | case7 c tail _ _ _ _ ih =>
    obtain ⟨r, hr, heq⟩ := Option.map_eq_some_iff.mp h
    cases heq
    have := ih hr
    simp only [List.length_cons]
    omega
  | case8 => simp at h

theorem length_lt_of_readDigits? {cs ds rest : List Char} (h : readDigits? cs = some (ds, rest)) :
    rest.length < cs.length := by
  unfold readDigits? at h
  split at h
  · simp at h
  · rename_i hne
    cases h
    have hsplit := congrArg List.length (List.takeWhile_append_dropWhile (p := Char.isDigit) (l := cs))
    rw [List.length_append] at hsplit
    have hpos := List.length_pos_iff.mpr (fun hnil => hne (List.isEmpty_iff.mpr hnil))
    omega

theorem length_lt_of_readWhole? {cs ds rest : List Char} (h : readWhole? cs = some (ds, rest)) :
    rest.length < cs.length := by
  unfold readWhole? at h
  split at h
  · cases h
    simp
  · exact length_lt_of_readDigits? h

theorem length_le_of_readFraction? {cs ds rest : List Char}
    (h : readFraction? cs = some (ds, rest)) : rest.length ≤ cs.length := by
  unfold readFraction? at h
  split at h
  · obtain ⟨r, hr, heq⟩ := Option.map_eq_some_iff.mp h
    cases heq
    have := length_lt_of_readDigits? hr
    simp only [List.length_cons]
    omega
  · cases h
    exact Nat.le_refl _

theorem length_le_of_readPower? {cs ds rest : List Char} (h : readPower? cs = some (ds, rest)) :
    rest.length ≤ cs.length := by
  unfold readPower? at h
  split at h
  · split at h
    · split at h
      · split at h
        all_goals
          obtain ⟨r, hr, heq⟩ := Option.map_eq_some_iff.mp h
          cases heq
          have := length_lt_of_readDigits? hr
          simp only [List.length_cons] at this ⊢
          omega
      · simp at h
    · cases h
      exact Nat.le_refl _
  · cases h
    exact Nat.le_refl _

theorem length_lt_of_readUnsigned? {sign cs rest : List Char} {d : Document}
    (h : readUnsigned? sign cs = some (d, rest)) : rest.length < cs.length := by
  simp only [readUnsigned?, bind, pure] at h
  obtain ⟨⟨_, cs₁⟩, h₁, h⟩ := Option.bind_eq_some_iff.mp h
  obtain ⟨⟨_, cs₂⟩, h₂, h⟩ := Option.bind_eq_some_iff.mp h
  obtain ⟨⟨_, cs₃⟩, h₃, h⟩ := Option.bind_eq_some_iff.mp h
  cases h
  have h₁ := length_lt_of_readWhole? h₁
  have h₂ := length_le_of_readFraction? h₂
  have h₃ := length_le_of_readPower? h₃
  exact Nat.lt_of_le_of_lt (Nat.le_trans h₃ h₂) h₁

theorem length_lt_of_readNumber? {cs rest : List Char} {d : Document}
    (h : readNumber? cs = some (d, rest)) : rest.length < cs.length := by
  unfold readNumber? at h
  split at h
  · have := length_lt_of_readUnsigned? h
    simp only [List.length_cons]
    omega
  · exact length_lt_of_readUnsigned? h

/-- A symbol takes at least one character. -/
theorem length_lt_of_readSymbol? {cs rest : List Char} {symbol : Symbol}
    (h : readSymbol? cs = some (symbol, rest)) : rest.length < cs.length := by
  unfold readSymbol? at h
  split at h
  case h_7 =>
    obtain ⟨r, hr, heq⟩ := Option.map_eq_some_iff.mp h
    cases heq
    have := length_lt_of_readString? hr
    simp only [List.length_cons]
    omega
  case h_11 =>
    obtain ⟨r, hr, heq⟩ := Option.map_eq_some_iff.mp h
    cases heq
    exact length_lt_of_readNumber? hr
  all_goals
    cases h
    simp only [List.length_cons]
    omega

/-- All symbols of a text. -/
def symbols? : List Char → Option (List Symbol)
  | [] => some []
  | c :: rest =>
    if isSpace c then symbols? rest
    else
      match _h : readSymbol? (c :: rest) with
      | none => none
      | some (symbol, rest') => (symbols? rest').map (symbol :: ·)
termination_by cs => cs.length
decreasing_by
  · simp
  · exact length_lt_of_readSymbol? _h

/-! ## Structure -/

/-- An array or object that is still open, its parts so far in reverse. -/
inductive Frame where
  | array (items : List Document)
  | object (members : List (List StringUnit × Document))
  /-- An object with the name of the member whose value comes next. -/
  | member (members : List (List StringUnit × Document)) (name : List StringUnit)

/-- What may come next. -/
inductive Expect where
  | value
  | valueOrClose
  | name
  | nameOrClose
  | colon
  | commaOrClose
  deriving DecidableEq

/-- Where the reading of a text stands. -/
inductive State where
  | reading (expect : Expect) (stack : List Frame)
  | done (d : Document)

/-- A value is complete: it goes into the innermost open array or object. -/
def complete (d : Document) : List Frame → Option State
  | [] => some (.done d)
  | .array items :: stack => some (.reading .commaOrClose (.array (d :: items) :: stack))
  | .member members name :: stack =>
    some (.reading .commaOrClose (.object ((name, d) :: members) :: stack))
  | .object _ :: _ => none

/-- Takes one symbol. -/
def step (symbol : Symbol) : State → Option State
  | .done _ => none
  | .reading expect stack =>
    match symbol with
    | .openArray =>
      if expect = .value ∨ expect = .valueOrClose then
        some (.reading .valueOrClose (.array [] :: stack))
      else none
    | .openObject =>
      if expect = .value ∨ expect = .valueOrClose then
        some (.reading .nameOrClose (.object [] :: stack))
      else none
    | .scalar d => if expect = .value ∨ expect = .valueOrClose then complete d stack else none
    | .string units =>
      if expect = .value ∨ expect = .valueOrClose then complete (.string units) stack
      else if expect = .name ∨ expect = .nameOrClose then
        match stack with
        | .object members :: stack => some (.reading .colon (.member members units :: stack))
        | _ => none
      else none
    | .colon => if expect = .colon then some (.reading .value stack) else none
    | .comma =>
      if expect = .commaOrClose then
        match stack with
        | .array _ :: _ => some (.reading .value stack)
        | .object _ :: _ => some (.reading .name stack)
        | _ => none
      else none
    | .closeArray =>
      if expect = .valueOrClose ∨ expect = .commaOrClose then
        match stack with
        | .array items :: stack => complete (.array items.reverse) stack
        | _ => none
      else none
    | .closeObject =>
      if expect = .nameOrClose ∨ expect = .commaOrClose then
        match stack with
        | .object members :: stack => complete (.object members.reverse) stack
        | _ => none
      else none

/-- Takes a row of symbols. -/
def run : List Symbol → State → Option State
  | [], state => some state
  | symbol :: rest, state => (step symbol state).bind (run rest)

/-- Reads a text; `none` if it is not JSON, or has more than one value. -/
def ofText? (text : String) : Option Document :=
  match symbols? text.toList with
  | none => none
  | some symbols =>
    match run symbols (.reading .value []) with
    | some (.done d) => some d
    | _ => none

/-! ## Values -/

/-- The text of a string. -/
def text? (units : List StringUnit) : Option String :=
  (StringUnit.decode? units).map String.ofList

/-- The value of a number: an integer if it is written as one, fits 64 bits and is not `-0`. -/
def numberValue? (text : List Char) (integral : Bool) : Option Json :=
  match Decimal.read? text with
  | none => none
  | some d =>
    let i : Int := if d.negative then -(d.coefficient : Int) else d.coefficient
    if integral && decide (-Int.pow 2 63 ≤ i) && decide (i < Int.pow 2 64) && !(d.negative && i == 0) then
      some (.integer i)
    else if d.toBinary64.isFinite then some (.float d.toBinary64)
    else none

/-- Puts a member in front of others, unless a later one has its name. -/
def addMember (name : String) (value : Json) (members : List (String × Json)) :
    List (String × Json) :=
  if (members.lookup name).isSome then members else (name, value) :: members

mutual

/-- The value that a document stands for. Of several members with one name the last counts. -/
def toJson? : Document → Option Json
  | null => some .null
  | bool b => some (.bool b)
  | number text integral => numberValue? text integral
  | string units => (text? units).map .string
  | array items => (toJsons? items).map .array
  | object members => (toMembers? members).map .object

def toJsons? : List Document → Option (List Json)
  | [] => some []
  | item :: rest =>
    match item.toJson?, toJsons? rest with
    | some item, some rest => some (item :: rest)
    | _, _ => none

def toMembers? : List (List StringUnit × Document) → Option (List (String × Json))
  | [] => some []
  | (name, value) :: rest =>
    match text? name, value.toJson?, toMembers? rest with
    | some name, some value, some rest => some (addMember name value rest)
    | _, _, _ => none

end

end Document

/-- The value that a JSON text stands for. -/
def Json.ofText? (text : String) : Option Json := (Document.ofText? text).bind Document.toJson?

end LogQuery
