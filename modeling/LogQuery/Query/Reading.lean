import LogQuery.Filter
import LogQuery.Query.Fault

/-!
# Reading filters from tokens

The grammar, with one level of precedence for `and` and `or`, applied from left to right:

    expression := primary (connective primary)*
    primary    := '(' expression+ ')' | key operator value

A function of this module reads one of these from the front of a row of tokens and gives a
`Reading`: the filter unless the tokens are at fault, the tokens not yet taken, and the faults.
Parentheses and changes of the connective both nest the filter deeper; `depth` counts them, up to
`maxDepth`.

The functions call each other on what their predecessor left, so each comes with the fact that it
leaves no more tokens than it was given, and fewer if it succeeds (`Shorter`). What they compute is
stated without that fact in `readExpression_eq`, `readChain_eq`, `readLink_eq`, `readPrimary_eq`
and `readMembers_eq`.
-/

namespace LogQuery

/-- How deep parentheses and changes of the connective may nest. -/
def maxDepth : Nat := 64

/-- What reading the front of a row of tokens gives. -/
structure Reading (α : Type) where
  value : Option α
  rest : List Token
  faults : List (Located SyntaxFault)

namespace Reading

variable {α β : Type}

/-- A reading that succeeds. -/
def done (a : α) (rest : List Token) : Reading α := ⟨some a, rest, []⟩

/-- A reading that fails for a reason. -/
def fail (fault : SyntaxFault) (position : Position) (rest : List Token) : Reading α :=
  ⟨none, rest, [⟨fault, position⟩]⟩

/-- The reading with further faults in front. -/
def after (faults : List (Located SyntaxFault)) (r : Reading α) : Reading α :=
  ⟨r.value, r.rest, faults ++ r.faults⟩

/-- Goes on after a reading that succeeds. -/
def bind (r : Reading α) (next : α → List Token → Reading β) : Reading β :=
  match r.value with
  | none => ⟨none, r.rest, r.faults⟩
  | some a => (next a r.rest).after r.faults

/-- The reading leaves no more than `n` tokens. -/
def AtMost (r : Reading α) (n : Nat) : Prop := r.rest.length ≤ n

/-- The reading leaves no more than `n` tokens, and fewer if it succeeds. -/
def Shorter (r : Reading α) (n : Nat) : Prop :=
  r.rest.length ≤ n ∧ (r.value.isSome → r.rest.length < n)

theorem atMost_fail {fault : SyntaxFault} {position : Position} {rest : List Token} {n : Nat}
    (h : rest.length ≤ n) : (fail fault position rest : Reading α).AtMost n := h

theorem shorter_fail {fault : SyntaxFault} {position : Position} {rest : List Token} {n : Nat}
    (h : rest.length ≤ n) : (fail fault position rest : Reading α).Shorter n :=
  ⟨h, by simp [fail]⟩

theorem shorter_done {a : α} {rest : List Token} {n : Nat} (h : rest.length < n) :
    (done a rest).Shorter n :=
  ⟨Nat.le_of_lt h, fun _ => h⟩

theorem AtMost.mono {r : Reading α} {m n : Nat} (h : r.AtMost m) (hmn : m ≤ n) : r.AtMost n :=
  Nat.le_trans h hmn

theorem Shorter.mono {r : Reading α} {m n : Nat} (h : r.Shorter m) (hmn : m ≤ n) : r.Shorter n :=
  ⟨Nat.le_trans h.1 hmn, fun hs => Nat.lt_of_lt_of_le (h.2 hs) hmn⟩

/-- Goes on after a reading that succeeds, with fewer tokens. -/
def andThen {n : Nat} (r : { r : Reading α // r.Shorter n })
    (next : α → (rest : List Token) → rest.length < n → Reading β) : Reading β :=
  match h : r.1.value with
  | none => ⟨none, r.1.rest, r.1.faults⟩
  | some a => (next a r.1.rest (r.2.2 (by simp [h]))).after r.1.faults

theorem andThen_eq_bind {n : Nat} (r : { r : Reading α // r.Shorter n })
    (next : α → List Token → Reading β) :
    andThen r (fun a rest _ => next a rest) = r.1.bind next := by
  unfold andThen bind
  split <;> simp_all

theorem shorter_andThen {n : Nat} {r : { r : Reading α // r.Shorter n }}
    {next : α → (rest : List Token) → rest.length < n → Reading β}
    (h : ∀ a rest hlt, (next a rest hlt).AtMost rest.length) : (andThen r next).Shorter n := by
  unfold andThen
  split
  · exact ⟨r.2.1, by simp⟩
  · rename_i a hvalue
    have hlt := r.2.2 (by simp [hvalue])
    have hle := h a r.1.rest hlt
    exact ⟨Nat.le_trans hle r.2.1, fun _ => Nat.lt_of_le_of_lt hle hlt⟩

theorem atMost_andThen {n : Nat} {r : { r : Reading α // r.Shorter n }}
    {next : α → (rest : List Token) → rest.length < n → Reading β}
    (h : ∀ a rest hlt, (next a rest hlt).AtMost rest.length) : (andThen r next).AtMost n :=
  (shorter_andThen h).1

end Reading

/-! ## Conditions -/

/-- The value after an operator. -/
def readValue (field : Field) (comparison : Comparison) (operator : Token) :
    List Token → Reading Filter
  | [] => .fail (.missingValue operator.text none) operator.position []
  | t :: rest =>
    if t.kind = .value ∨ t.kind = .key then
      .done (.condition ⟨field, comparison, .ofText t.text t.quoted, t.quoted⟩) rest
    else .fail (.missingValue operator.text (some t.text)) t.position (t :: rest)

/-- The operator and the value after a field. -/
def readCondition (field : Field) (key : Token) : List Token → Reading Filter
  | [] => .fail (.missingOperator key.text none) key.position []
  | t :: rest =>
    if t.kind = .operator then
      match Comparison.ofSymbol? t.text with
      | none => .fail (.unknownOperator t.text) t.position rest
      | some comparison => readValue field comparison t rest
    else .fail (.missingOperator key.text (some t.text)) t.position (t :: rest)

/-- Does an operator come next? -/
def startsOperator : List Token → Bool
  | [] => false
  | t :: _ => t.kind = .operator

theorem shorter_readValue (field : Field) (comparison : Comparison) (operator : Token)
    (ts : List Token) : (readValue field comparison operator ts).Shorter (ts.length + 1) := by
  cases ts with
  | nil => exact Reading.shorter_fail (by simp)
  | cons t rest =>
    simp only [readValue]
    split
    · exact Reading.shorter_done (by rw [List.length_cons]; omega)
    · exact Reading.shorter_fail (by simp)

theorem shorter_readCondition (field : Field) (key : Token) (ts : List Token) :
    (readCondition field key ts).Shorter (ts.length + 1) := by
  cases ts with
  | nil => exact Reading.shorter_fail (by simp)
  | cons t rest =>
    simp only [readCondition]
    split
    · split
      · exact Reading.shorter_fail (by rw [List.length_cons]; omega)
      · exact (shorter_readValue ..).mono (by simp)
    · exact Reading.shorter_fail (by simp)

/-! ## Expressions -/

/-- One member of a group is itself; several make a group. -/
def Filter.ofMembers : List Filter → Filter
  | [f] => f
  | fs => .group fs

mutual

/-- An expression, with the fact that it leaves fewer tokens if it succeeds. `last` is where the last
of all tokens stands. -/
def expressionStep (last : Position) (depth : Nat) (ts : List Token) :
    { r : Reading Filter // r.Shorter ts.length } :=
  ⟨.andThen (primaryStep last depth ts) fun left rest _ => (chainStep last depth left rest).1,
    Reading.shorter_andThen fun left rest _ => (chainStep last depth left rest).2⟩
termination_by 5 * ts.length + 3
decreasing_by all_goals omega

/-- The connectives and primaries after the filter `left`, and the filter that they make. -/
def chainStep (last : Position) (depth : Nat) (left : Filter) (ts : List Token) :
    { r : Reading Filter // r.AtMost ts.length } :=
  match ts with
  | [] => ⟨.done left [], Nat.le_refl _⟩
  | t :: rest =>
    match t.kind with
    | .bool =>
      match Connective.ofKeyword? t.text with
      | none =>
        ⟨.fail (.unknownConnective t.text) t.position rest, Reading.atMost_fail (Nat.le_succ _)⟩
      | some op =>
        ⟨(linkStep last depth left op t.position rest).1,
          (linkStep last depth left op t.position rest).2.mono (Nat.le_succ _)⟩
    | .key =>
      ⟨(linkStep last depth left .and t.position (t :: rest)).1.after
          [⟨.missingConnective t.text, t.position⟩],
        (linkStep last depth left .and t.position (t :: rest)).2⟩
    | _ => ⟨.done left (t :: rest), Nat.le_refl _⟩
termination_by 5 * ts.length + 2
decreasing_by
  all_goals
    simp only [List.length_cons] at *
    omega

/-- The primary after a connective that stands at `position`, and what follows it. A connective that
does not extend a run nests the filter deeper. -/
def linkStep (last : Position) (depth : Nat) (left : Filter) (op : Connective)
    (position : Position) (ts : List Token) : { r : Reading Filter // r.AtMost ts.length } :=
  if left.isRunOf op then
    ⟨.andThen (primaryStep last depth ts) fun right rest _ =>
        (chainStep last depth (.join op left right) rest).1,
      Reading.atMost_andThen fun right rest _ =>
        (chainStep last depth (.join op left right) rest).2⟩
  else if maxDepth ≤ depth then ⟨.fail .connectivesTooDeep position ts, Nat.le_refl _⟩
  else
    ⟨.andThen (primaryStep last (depth + 1) ts) fun right rest _ =>
        (chainStep last (depth + 1) (.join op left right) rest).1,
      Reading.atMost_andThen fun right rest _ =>
        (chainStep last (depth + 1) (.join op left right) rest).2⟩
termination_by 5 * ts.length + 1
decreasing_by all_goals omega

/-- A condition or a group in parentheses. -/
def primaryStep (last : Position) (depth : Nat) (ts : List Token) :
    { r : Reading Filter // r.Shorter ts.length } :=
  match ts with
  | [] => ⟨.fail .missingCondition last [], Reading.shorter_fail (Nat.le_refl _)⟩
  | t :: rest =>
    match t.kind with
    | .paren =>
      if t.text = "(" then
        if maxDepth ≤ depth then
          ⟨.fail .parensTooDeep t.position rest, Reading.shorter_fail (Nat.le_succ _)⟩
        else
          ⟨(membersStep last (depth + 1) t [] rest).1,
            (membersStep last (depth + 1) t [] rest).2.mono (Nat.le_succ _)⟩
      else
        ⟨.fail (.notCondition t.kind t.text) t.position (t :: rest),
          Reading.shorter_fail (Nat.le_refl _)⟩
    | .key => ⟨readCondition (.ofKey t.text) t rest, shorter_readCondition ..⟩
    | .value =>
      if startsOperator rest then
        ⟨readCondition (.simple t.text) t rest, shorter_readCondition ..⟩
      else ⟨.fail (.valueAsField t.text) t.position rest, Reading.shorter_fail (Nat.le_succ _)⟩
    | _ =>
      ⟨.fail (.notCondition t.kind t.text) t.position (t :: rest),
        Reading.shorter_fail (Nat.le_refl _)⟩
termination_by 5 * ts.length
decreasing_by
  all_goals
    simp only [List.length_cons] at *
    omega

/-- The members of a group that `opening` opened, after the members `members`, up to its closing
parenthesis. -/
def membersStep (last : Position) (depth : Nat) (opening : Token) (members : List Filter)
    (ts : List Token) : { r : Reading Filter // r.Shorter ts.length } :=
  match ts with
  | [] => ⟨.fail .unclosedParen opening.position [], Reading.shorter_fail (Nat.le_refl _)⟩
  | t :: rest =>
    if t.kind = .paren ∧ t.text = ")" then
      if members.isEmpty then
        ⟨.fail .emptyParens t.position rest, Reading.shorter_fail (Nat.le_succ _)⟩
      else ⟨.done (.ofMembers members) rest, Reading.shorter_done (Nat.lt_succ_self _)⟩
    else if t.kind = .pipe then
      ⟨.fail .unclosedParenAtPipe t.position (t :: rest), Reading.shorter_fail (Nat.le_refl _)⟩
    else
      ⟨.andThen (expressionStep last depth (t :: rest)) fun member rest _ =>
          (membersStep last depth opening (members ++ [member]) rest).1,
        Reading.shorter_andThen fun member rest _ =>
          (membersStep last depth opening (members ++ [member]) rest).2.1⟩
termination_by 5 * ts.length + 4
decreasing_by
  all_goals
    simp only [List.length_cons] at *
    omega

end

/-- Reads an expression. -/
def readExpression (last : Position) (depth : Nat) (ts : List Token) : Reading Filter :=
  (expressionStep last depth ts).1

/-- Reads the connectives and primaries after the filter `left`. -/
def readChain (last : Position) (depth : Nat) (left : Filter) (ts : List Token) : Reading Filter :=
  (chainStep last depth left ts).1

/-- Reads the primary after a connective, and what follows it. -/
def readLink (last : Position) (depth : Nat) (left : Filter) (op : Connective)
    (position : Position) (ts : List Token) : Reading Filter :=
  (linkStep last depth left op position ts).1

/-- Reads a condition or a group. -/
def readPrimary (last : Position) (depth : Nat) (ts : List Token) : Reading Filter :=
  (primaryStep last depth ts).1

/-- Reads the members of a group after the first ones. -/
def readMembers (last : Position) (depth : Nat) (opening : Token) (members : List Filter)
    (ts : List Token) : Reading Filter :=
  (membersStep last depth opening members ts).1

theorem shorter_readExpression (last : Position) (depth : Nat) (ts : List Token) :
    (readExpression last depth ts).Shorter ts.length :=
  (expressionStep last depth ts).2

theorem shorter_readPrimary (last : Position) (depth : Nat) (ts : List Token) :
    (readPrimary last depth ts).Shorter ts.length :=
  (primaryStep last depth ts).2

/-! ## What the readings are -/

/-- An expression is a primary and the chain after it. -/
theorem readExpression_eq (last : Position) (depth : Nat) (ts : List Token) :
    readExpression last depth ts =
      (readPrimary last depth ts).bind (readChain last depth) := by
  rw [readExpression, expressionStep]
  exact Reading.andThen_eq_bind (primaryStep last depth ts) (readChain last depth)

/-- A chain goes on at a keyword, and at a key as if `and` stood before it. -/
theorem readChain_eq (last : Position) (depth : Nat) (left : Filter) (ts : List Token) :
    readChain last depth left ts =
      match ts with
      | [] => .done left []
      | t :: rest =>
        match t.kind with
        | .bool =>
          match Connective.ofKeyword? t.text with
          | none => .fail (.unknownConnective t.text) t.position rest
          | some op => readLink last depth left op t.position rest
        | .key =>
          (readLink last depth left .and t.position (t :: rest)).after
            [⟨.missingConnective t.text, t.position⟩]
        | _ => .done left (t :: rest) := by
  cases ts with
  | nil => rw [readChain, chainStep]
  | cons t rest =>
    obtain ⟨kind, text, position, quoted⟩ := t
    rw [readChain, chainStep]
    cases kind <;> try rfl
    dsimp only
    cases Connective.ofKeyword? text <;> rfl

/-- A connective that does not extend a run needs one more level. -/
theorem readLink_eq (last : Position) (depth : Nat) (left : Filter) (op : Connective)
    (position : Position) (ts : List Token) :
    readLink last depth left op position ts =
      if left.isRunOf op then
        (readPrimary last depth ts).bind fun right => readChain last depth (.join op left right)
      else if maxDepth ≤ depth then .fail .connectivesTooDeep position ts
      else
        (readPrimary last (depth + 1) ts).bind fun right =>
          readChain last (depth + 1) (.join op left right) := by
  rw [readLink, linkStep]
  split
  · exact Reading.andThen_eq_bind (primaryStep last depth ts) fun right =>
      readChain last depth (.join op left right)
  · split
    · rfl
    · exact Reading.andThen_eq_bind (primaryStep last (depth + 1) ts) fun right =>
        readChain last (depth + 1) (.join op left right)

/-- A primary is a group in parentheses, or a field, an operator and a value. -/
theorem readPrimary_eq (last : Position) (depth : Nat) (ts : List Token) :
    readPrimary last depth ts =
      match ts with
      | [] => .fail .missingCondition last []
      | t :: rest =>
        match t.kind with
        | .paren =>
          if t.text = "(" then
            if maxDepth ≤ depth then .fail .parensTooDeep t.position rest
            else readMembers last (depth + 1) t [] rest
          else .fail (.notCondition t.kind t.text) t.position (t :: rest)
        | .key => readCondition (.ofKey t.text) t rest
        | .value =>
          if startsOperator rest then readCondition (.simple t.text) t rest
          else .fail (.valueAsField t.text) t.position rest
        | _ => .fail (.notCondition t.kind t.text) t.position (t :: rest) := by
  cases ts with
  | nil => rw [readPrimary, primaryStep]
  | cons t rest =>
    obtain ⟨kind, text, position, quoted⟩ := t
    rw [readPrimary, primaryStep]
    cases kind <;> dsimp only <;> repeat' split
    all_goals rfl

/-- The members of a group go on up to the closing parenthesis. -/
theorem readMembers_eq (last : Position) (depth : Nat) (opening : Token) (members : List Filter)
    (ts : List Token) :
    readMembers last depth opening members ts =
      match ts with
      | [] => .fail .unclosedParen opening.position []
      | t :: rest =>
        if t.kind = .paren ∧ t.text = ")" then
          if members.isEmpty then .fail .emptyParens t.position rest
          else .done (.ofMembers members) rest
        else if t.kind = .pipe then .fail .unclosedParenAtPipe t.position (t :: rest)
        else
          (readExpression last depth (t :: rest)).bind fun member =>
            readMembers last depth opening (members ++ [member]) := by
  cases ts with
  | nil => rw [readMembers, membersStep]
  | cons t rest =>
    rw [readMembers, membersStep]
    dsimp only
    split
    · split <;> rfl
    · split
      · rfl
      · exact Reading.andThen_eq_bind (expressionStep last depth (t :: rest)) fun member =>
          readMembers last depth opening (members ++ [member])

end LogQuery
