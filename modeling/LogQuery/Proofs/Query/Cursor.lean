import LogQuery.Query.Outcome

/-!
# Queries read by a cursor

The grammar is read here one token at a time: by a cursor that moves over the tokens, a counter of
the depth, and a stack of the calls that have not returned. A group counts the depth up and down
again; an expression may count it up at every connective and takes it back to what it was when it
was called. A function that gives up returns at once, past whatever stands after it in its body.

* `step`: looks at one token at most, and takes it or leaves it;
* `after`: the state after a number of steps;
* `Path`, `Pending`: one or more steps, and how far the function that is read has come on the way;
* `Path.call`: a call and what its caller goes on with, as part of the caller's own path.
-/

namespace LogQuery.Cursor

/-- What goes on when the call above it on the stack returns. -/
inductive Frame where
  /-- The query goes on behind its filter, or with the search for further faults. -/
  | query
  /-- The search for further faults goes on. -/
  | term
  /-- An expression takes the depth back to `base`. -/
  | restore (base : Nat)
  /-- An expression has its first primary. -/
  | first
  /-- An expression has the primary after a connective. -/
  | operand (op : Connective) (left : Filter)
  /-- A group counts the depth down. -/
  | leave
  /-- A group has one member more. -/
  | member (opening : Token) (members : List Filter)
  deriving DecidableEq

/-- What comes next. -/
inductive Control where
  | start
  /-- An expression is called for. -/
  | expression
  /-- The primaries of an expression are called for, and what joins them. -/
  | terms
  /-- A primary is called for. -/
  | primary
  /-- A group is called for, whose opening parenthesis is taken. -/
  | group (opening : Token)
  /-- A value is taken where a field is needed. -/
  | bareValue (t : Token)
  /-- An operator is needed after a field. -/
  | condition (field : Field) (key : Token)
  /-- A value is needed after an operator. -/
  | value (field : Field) (comparison : Comparison) (operator : Token)
  /-- The head of the loop over the connectives after `left`. -/
  | chain (left : Filter)
  /-- The head of the loop over the members of a group. -/
  | members (opening : Token) (members : List Filter)
  /-- A call returns. -/
  | returned (value : Option Filter)
  /-- The head of the loop that looks for further faults. -/
  | recover
  /-- The filter is complete. -/
  | tail (filter : Option Filter)
  /-- The head of the loop over the selected fields, which needs a field after `separator`. -/
  | select (filter : Option Filter) (fields : List Field) (separator : Token)
  /-- A comma may come after a selected field. -/
  | comma (filter : Option Filter) (fields : List Field)
  | done (query : Option Query)
  deriving DecidableEq

structure State where
  control : Control
  stack : List Frame
  /-- How many tokens are taken. -/
  pos : Nat
  depth : Nat
  faults : List (Located SyntaxFault)
  deriving DecidableEq

/-- Where reading begins. -/
def start : State := ⟨.start, [], 0, 0, []⟩

namespace State

def goto (control : Control) (s : State) : State := { s with control }

def advance (s : State) : State := { s with pos := s.pos + 1 }

def call (control : Control) (frame : Frame) (s : State) : State :=
  { s with control, stack := frame :: s.stack }

def report (fault : SyntaxFault) (position : Position) (s : State) : State :=
  { s with faults := s.faults ++ [⟨fault, position⟩] }

/-- Reports a fault and returns without a filter. -/
def giveUp (fault : SyntaxFault) (position : Position) (s : State) : State :=
  (s.report fault position).goto (.returned none)

/-! ## One step -/

variable (peek : Option Token) (s : State)

def atStart : State :=
  match peek with
  | none => s.goto (.tail none)
  | some t => if t.kind = .pipe then s.goto (.tail none) else s.call .expression .query

/-- An expression notes the depth. -/
def atExpression : State := s.call .terms (.restore s.depth)

def atTerms : State := s.call .primary .first

def atPrimary (last : Position) : State :=
  match peek with
  | none => s.giveUp .missingCondition last
  | some t =>
    match t.kind with
    | .paren =>
      if t.text = "(" then s.advance.goto (.group t)
      else s.giveUp (.notCondition t.kind t.text) t.position
    | .key => s.advance.goto (.condition (.ofKey t.text) t)
    | .value => s.advance.goto (.bareValue t)
    | _ => s.giveUp (.notCondition t.kind t.text) t.position

def atGroup (opening : Token) : State :=
  if maxDepth ≤ s.depth then s.giveUp .parensTooDeep opening.position
  else { s with depth := s.depth + 1 }.call (.members opening []) .leave

def atBareValue (t : Token) : State :=
  if startsOperator peek.toList then s.goto (.condition (.simple t.text) t)
  else s.giveUp (.valueAsField t.text) t.position

def atCondition (field : Field) (key : Token) : State :=
  match peek with
  | none => s.giveUp (.missingOperator key.text none) key.position
  | some t =>
    if t.kind = .operator then
      match Comparison.ofSymbol? t.text with
      | none => s.advance.giveUp (.unknownOperator t.text) t.position
      | some comparison => s.advance.goto (.value field comparison t)
    else s.giveUp (.missingOperator key.text (some t.text)) t.position

def atValue (field : Field) (comparison : Comparison) (operator : Token) : State :=
  match peek with
  | none => s.giveUp (.missingValue operator.text none) operator.position
  | some t =>
    if t.kind = .value ∨ t.kind = .key then
      s.advance.goto (.returned (some
        (.condition ⟨field, comparison, .ofText t.text t.quoted, t.quoted⟩)))
    else s.giveUp (.missingValue operator.text (some t.text)) t.position

/-- Calls for the primary after a connective, one level deeper unless the connective extends a run. -/
def link (left : Filter) (op : Connective) (position : Position) : State :=
  if left.isRunOf op then s.call .primary (.operand op left)
  else if maxDepth ≤ s.depth then s.giveUp .connectivesTooDeep position
  else { s with depth := s.depth + 1 }.call .primary (.operand op left)

def atChain (left : Filter) : State :=
  match peek with
  | none => s.goto (.returned (some left))
  | some t =>
    match t.kind with
    | .bool =>
      match Connective.ofKeyword? t.text with
      | none => s.advance.giveUp (.unknownConnective t.text) t.position
      | some op => s.advance.link left op t.position
    | .key => (s.report (.missingConnective t.text) t.position).link left .and t.position
    | _ => s.goto (.returned (some left))

def atMembers (opening : Token) (members : List Filter) : State :=
  match peek with
  | none => s.giveUp .unclosedParen opening.position
  | some t =>
    if t.kind = .paren ∧ t.text = ")" then
      if members.isEmpty then s.advance.giveUp .emptyParens t.position
      else s.advance.goto (.returned (some (.ofMembers members)))
    else if t.kind = .pipe then s.giveUp .unclosedParenAtPipe t.position
    else s.call .expression (.member opening members)

def atRecover : State :=
  match peek with
  | none => s.goto (.done none)
  | some t =>
    match t.kind with
    | .pipe => s.goto (.done none)
    | .bool => s.advance.call .expression .term
    | _ => s.advance

def atTail (filter : Option Filter) : State :=
  match peek with
  | none => s.goto (.done (some ⟨filter, []⟩))
  | some t =>
    if t.kind = .pipe then s.advance.goto (.select filter [] t)
    else if t.kind = .paren ∧ t.text = ")" then
      (s.advance.report .unmatchedParen t.position).goto (.done (some ⟨filter, []⟩))
    else (s.advance.report (.unexpected t.kind t.text) t.position).goto (.done (some ⟨filter, []⟩))

def atSelect (filter : Option Filter) (fields : List Field) (separator : Token) : State :=
  match peek with
  | none =>
    (s.report (.missingField separator.text) separator.position).goto
      (.done (some ⟨filter, fields⟩))
  | some t =>
    match selectedField? t with
    | none =>
      (s.advance.report (.notField t.text) t.position).goto (.done (some ⟨filter, fields⟩))
    | some field => s.advance.goto (.comma filter (fields ++ [field]))

def atComma (filter : Option Filter) (fields : List Field) : State :=
  match peek with
  | none => s.goto (.done (some ⟨filter, fields⟩))
  | some t =>
    if t.kind = .comma then s.advance.goto (.select filter fields t)
    else (s.advance.report (.notComma t.text) t.position).goto (.done (some ⟨filter, fields⟩))

/-- Goes on at the frame `frame`, which is off the stack, when a call returns `value`. -/
def unwind (value : Option Filter) : Frame → State
  | .query =>
    match value with
    | none => s.goto .recover
    | some filter => s.goto (.tail (some filter))
  | .term => s.goto .recover
  | .restore base => { s with depth := base }
  | .first =>
    match value with
    | none => s
    | some left => s.goto (.chain left)
  | .operand op left =>
    match value with
    | none => s
    | some right => s.goto (.chain (.join op left right))
  | .leave => { s with depth := s.depth - 1 }
  | .member opening members =>
    match value with
    | none => s
    | some member => s.goto (.members opening (members ++ [member]))

end State

/-- One step over the tokens `ts`, unless reading is done. -/
def step (ts : List Token) (s : State) : Option State :=
  let peek := ts[s.pos]?
  match s.control with
  | .start => some (s.atStart peek)
  | .expression => some s.atExpression
  | .terms => some s.atTerms
  | .primary => some (s.atPrimary peek (lastPosition ts))
  | .group opening => some (s.atGroup opening)
  | .bareValue t => some (s.atBareValue peek t)
  | .condition field key => some (s.atCondition peek field key)
  | .value field comparison operator => some (s.atValue peek field comparison operator)
  | .chain left => some (s.atChain peek left)
  | .members opening members => some (s.atMembers peek opening members)
  | .returned value =>
    match s.stack with
    | [] => none
    | frame :: stack => some ({ s with stack }.unwind value frame)
  | .recover => some (s.atRecover peek)
  | .tail filter => some (s.atTail peek filter)
  | .select filter fields separator => some (s.atSelect peek filter fields separator)
  | .comma filter fields => some (s.atComma peek filter fields)
  | .done _ => none

/-- The state after a number of steps, if there are so many. -/
def after (ts : List Token) : Nat → Option State
  | 0 => some start
  | n + 1 => (after ts n).bind (step ts)

/-! ## Runs -/

/-- The loops of the reader. -/
inductive Loop where
  | chain
  | members
  | recover
  | select
  deriving DecidableEq

/-- The loop at whose head the reader is. -/
def Control.loop? : Control → Option Loop
  | .chain _ => some .chain
  | .members .. => some .members
  | .recover => some .recover
  | .select .. => some .select
  | _ => none

/-- Does a function return, or the query? -/
def Control.isEnd : Control → Bool
  | .returned _ => true
  | .done _ => true
  | _ => false

/-- Does a function return or come to the head of a loop? -/
def Control.isStop (c : Control) : Bool := c.isEnd || c.loop?.isSome

/-- The function that was called on top of the frames `K` does not come to any of the controls
`stops`. What it has called in turn may. -/
def Pending (stops : Control → Bool) (K : List Frame) (s : State) : Prop :=
  K <:+ s.stack ∧ (s.stack = K → stops s.control = false)

/-- One or more steps, with `P` at every state in between. -/
inductive Path (ts : List Token) (P : State → Prop) : State → State → Prop
  | last {s s' : State} (h : step ts s = some s') : Path ts P s s'
  | next {s mid s' : State} (h : step ts s = some mid) (hmid : P mid) (hpath : Path ts P mid s') :
      Path ts P s s'

section

variable {ts : List Token} {P Q : State → Prop} {s mid s' : State}

theorem Path.trans (h : Path ts P s mid) (hmid : P mid) (h' : Path ts P mid s') :
    Path ts P s s' := by
  induction h with
  | last h => exact .next h hmid h'
  | next h hP _ ih => exact .next h hP (ih hmid h')

theorem Path.mono (h : Path ts P s s') (hPQ : ∀ s, P s → Q s) : Path ts Q s s' := by
  induction h with
  | last h => exact .last h
  | next h hP _ ih => exact .next h (hPQ _ hP) ih

/-- What a path leads to is met after some steps. -/
theorem Path.exists_after (h : Path ts P s s') {n : Nat} (hn : after ts n = some s) :
    ∃ m, after ts m = some s' := by
  induction h generalizing n with
  | last h => exact ⟨n + 1, by rw [after, hn, Option.bind_some, h]⟩
  | next h _ _ ih => exact ih (n := n + 1) (by rw [after, hn, Option.bind_some, h])

variable {stops stops' : Control → Bool} {frame : Frame} {K : List Frame}

/-- While a call has not returned, its caller comes to nothing. -/
theorem pending_of_stack (h : s.stack = frame :: K) : Pending stops K s := by
  refine ⟨h ▸ List.suffix_cons frame K, fun heq => ?_⟩
  have hlength := congrArg List.length (h.symm.trans heq)
  rw [List.length_cons] at hlength
  omega

theorem Pending.of_cons (h : Pending stops (frame :: K) s) : Pending stops' K s := by
  refine ⟨(List.suffix_cons frame K).trans h.1, fun heq => ?_⟩
  have hlength := h.1.length_le
  rw [heq, List.length_cons] at hlength
  omega

theorem Pending.isEnd (h : Pending Control.isStop K s) : Pending Control.isEnd K s :=
  ⟨h.1, fun heq => (Bool.or_eq_false_iff.mp (h.2 heq)).1⟩

/-- A call, and what its caller goes on with. -/
theorem Path.call {s₁ s₂ : State} (h : step ts s = some s₁) (hstack : s₁.stack = frame :: K)
    (hpath : Path ts (Pending stops s₁.stack) s₁ s₂) (hsame : s₂.stack = s₁.stack)
    (hlast : step ts s₂ = some s') : Path ts (Pending stops' K) s s' := by
  rw [hstack] at hpath hsame
  exact .next h (pending_of_stack hstack)
    ((hpath.mono fun _ hm => hm.of_cons).trans (pending_of_stack hsame) (.last hlast))

end

end LogQuery.Cursor
