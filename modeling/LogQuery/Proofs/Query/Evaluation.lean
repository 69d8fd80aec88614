import LogQuery.Proofs.Query.Shape
import LogQuery.Proofs.Query.Verdict

/-!
# Evaluating tokens from left to right

What a row of tokens says, without a tree: `evaluate` goes through the tokens once and keeps the
truth of what it has passed. A condition is three tokens; `and` and `or` join the next operand to
all that the expression has passed so far, a key without a connective before it is joined by `and`,
and the expressions in a pair of parentheses must all hold.

* `run_primary` and its companions: going over the tokens of a filter that is read does to the
  evaluation what the truth of the filter does;
* `evaluate_ofTokens`: the filter of a query has the conditions and the truth of its tokens.
-/

namespace LogQuery

/-! ## Evaluation -/

/-- How far an expression has been evaluated. -/
inductive Progress where
  | start
  /-- The truth so far. -/
  | value (a : Bool)
  /-- The truth so far, and the connective that waits for its next operand. -/
  | operator (a : Bool) (op : Connective)

/-- Does a key come next? -/
def startsWithKey : List Token → Bool
  | [] => false
  | t :: _ => t.kind = .key

/-- What is known inside a pair of parentheses, or outside of all. -/
structure Frame where
  /-- Do the expressions hold that have come to their end? -/
  ended : Bool
  progress : Progress

namespace Frame

def start : Frame := ⟨true, .start⟩

/-- A further operand: it starts an expression, or is joined to what came before. -/
def add (frame : Frame) (b : Bool) : Frame :=
  match frame.progress with
  | .start => ⟨frame.ended, .value b⟩
  | .value a => ⟨frame.ended && a, .value b⟩
  | .operator a op => ⟨frame.ended, .value (op.apply a b)⟩

/-- A complete operand with `and` after it. -/
def link (frame : Frame) : Frame :=
  match frame.progress with
  | .value a => ⟨frame.ended, .operator a .and⟩
  | _ => frame

/-- Before a key, `and` may be left out. -/
def before (ts : List Token) (frame : Frame) : Frame :=
  if startsWithKey ts then frame.link else frame

/-- After a keyword, its connective waits for an operand. -/
def await? (frame : Frame) (t : Token) : Option Frame :=
  match frame.progress, Connective.ofKeyword? t.text with
  | .value a, some op => some ⟨frame.ended, .operator a op⟩
  | _, _ => none

/-- Do all expressions hold, the last of which is complete? -/
def total? (frame : Frame) : Option Bool :=
  match frame.progress with
  | .value a => some (frame.ended && a)
  | _ => none

/-- At a closing parenthesis, all that stands inside is an operand of what is around it. -/
def close? (top : Frame) : List Frame → Option (Frame × List Frame)
  | [] => none
  | outer :: stack => top.total?.map fun b => (outer.add b, stack)

/-- Do the expressions hold that have come to their end once another one starts? -/
def settled (frame : Frame) : Bool :=
  match frame.progress with
  | .value a => frame.ended && a
  | _ => frame.ended

/-- An expression may start: no connective waits for an operand. -/
def IsIdle (frame : Frame) : Prop := ∀ a op, frame.progress ≠ .operator a op

end Frame

/-- The condition that three tokens make. -/
def comparison? (key operator value : Token) : Option Condition :=
  match Grammar.comparedField? key, Comparison.ofSymbol? operator.text with
  | some field, some comparison =>
    some ⟨field, comparison, .ofText value.text value.quoted, value.quoted⟩
  | _, _ => none

/-- The conditions and the truth of a filter at its end. -/
def finish (cs : List Condition) (stack : List Frame) (top : Frame) :
    Option (List Condition × Bool) :=
  if stack.isEmpty then top.total?.map (cs, ·) else none

/-- Goes on through the tokens after the conditions `cs`, inside the parentheses of `top` and, around
these, of `stack`. The condition with the number `i` has the truth `v i`. -/
def run (v : Nat → Bool) (cs : List Condition) (stack : List Frame) (top : Frame) :
    List Token → Option (List Condition × Bool)
  | [] => finish cs stack top
  | t :: rest =>
    match t.kind with
    | .pipe => finish cs stack top
    | .paren =>
      if t.text = "(" then run v cs (top :: stack) .start rest
      else (top.close? stack).bind fun r => run v cs r.2 r.1 rest
    | .bool => (top.await? t).bind fun top => run v cs stack top rest
    | .key | .value =>
      match rest with
      | [] => none
      | [_] => none
      | operator :: value :: rest =>
        (comparison? t operator value).bind fun c =>
          run v (cs ++ [c]) stack ((top.before [t]).add (v cs.length)) rest
    | .operator => none
    | .comma => none

/-- The conditions of the tokens in front of the pipe, and their truth taken from left to right. -/
def evaluate (v : Nat → Bool) (ts : List Token) : Option (List Condition × Bool) :=
  run v [] [] .start ts

namespace Evaluation

open Grammar (IsOperand IsParen IsConnective Ends comparedField?)
open LogQuery.Derivation

/-! ## Steps -/

theorem run_opening (v : Nat → Bool) (cs : List Condition) (stack : List Frame) (top : Frame)
    {t : Token} (h : IsParen "(" t) (rest : List Token) :
    run v cs stack top (t :: rest) = run v cs (top :: stack) .start rest := by
  rw [run.eq_def]
  dsimp only
  rw [h.1]
  exact if_pos h.2

theorem run_closing (v : Nat → Bool) (cs : List Condition) (stack : List Frame) (outer : Frame)
    {top : Frame} {b : Bool} (htotal : top.total? = some b) {t : Token} (h : IsParen ")" t)
    (rest : List Token) :
    run v cs (outer :: stack) top (t :: rest) = run v cs stack (outer.add b) rest := by
  have htext : t.text ≠ "(" := by
    rw [h.2]
    decide
  rw [run.eq_def]
  dsimp only
  rw [h.1]
  dsimp only
  rw [if_neg htext, Frame.close?, htotal]
  rfl

theorem run_connective (v : Nat → Bool) (cs : List Condition) (stack : List Frame) (ended a : Bool)
    {op : Connective} {t : Token} (h : IsConnective op t) (rest : List Token) :
    run v cs stack ⟨ended, .value a⟩ (t :: rest) = run v cs stack ⟨ended, .operator a op⟩ rest := by
  rw [run.eq_def]
  dsimp only
  rw [h.1]
  dsimp only
  rw [Frame.await?, h.2]
  rfl

theorem run_condition (v : Nat → Bool) (cs : List Condition) (stack : List Frame) (top : Frame)
    {key operator value : Token} {c : Condition} (h : comparison? key operator value = some c)
    (rest : List Token) :
    run v cs stack top (key :: operator :: value :: rest) =
      run v (cs ++ [c]) stack ((top.before [key]).add (v cs.length)) rest := by
  have hkind : key.kind = .key ∨ key.kind = .value := by
    cases hkey : key.kind with
    | key => exact .inl rfl
    | value => exact .inr rfl
    | _ =>
      rw [comparison?, comparedField?, hkey] at h
      cases h
  rcases hkind with hkind | hkind <;>
  · rw [run.eq_def]
    dsimp only
    rw [hkind]
    dsimp only
    rw [h]
    rfl

theorem run_tail (v : Nat → Bool) (cs : List Condition) (stack : List Frame) (top : Frame)
    {ts : List Token} (h : startsTail ts = true) : run v cs stack top ts = finish cs stack top := by
  cases ts with
  | nil => rfl
  | cons t rest =>
    rw [run.eq_def]
    dsimp only
    rw [of_decide_eq_true h]

/-! ## Frames -/

theorem before_of_kind {t : Token} (h : t.kind ≠ .key) (ts : List Token) (top : Frame) :
    top.before (t :: ts) = top :=
  if_neg (by simpa [startsWithKey] using h)

theorem before_of_ends {ts : List Token} (h : Ends ts) (top : Frame) : top.before ts = top := by
  cases ts with
  | nil => rfl
  | cons t ts => exact before_of_kind (h t rfl).2 ts top

/-- Nothing is left out where no operand is complete. -/
theorem before_of_link {top : Frame} (h : top.link = top) (ts : List Token) :
    top.before ts = top := by
  rw [Frame.before, h, ite_self]

theorem add_of_isIdle {top : Frame} (h : top.IsIdle) (b : Bool) :
    top.add b = ⟨top.settled, .value b⟩ := by
  obtain ⟨ended, progress⟩ := top
  cases progress with
  | operator a op => exact absurd rfl (h a op)
  | _ => rfl

/-! ## Derivations -/

/-- The members of a group must all hold, also if there is only one. -/
theorem holds_ofMembers (v : Nat → Bool) (n : Nat) (fs : List Filter) :
    (Filter.ofMembers fs).holds v n = Filter.holdJoined v .and n fs := by
  unfold Filter.ofMembers
  split
  · exact (Connective.apply_unit .and _).symm
  · rfl

mutual

theorem run_primary {depth : Nat} {ts rest : List Token} {f : Filter} :
    Primary depth ts f rest → ∀ v cs stack top,
      run v cs stack top ts =
        run v (cs ++ f.conditions) stack ((top.before ts).add (f.holds v cs.length)) rest
  | @Primary.condition _ key operator value _ field comparison hkey hsymbol _, v, cs, stack, top => by
    have hcondition : comparison? key operator value =
        some ⟨field, comparison, .ofText value.text value.quoted, value.quoted⟩ := by
      rw [comparison?, hkey, hsymbol]
    exact run_condition v cs stack top hcondition rest
  | @Primary.parens _ left _ ts _ members hleft _ h hright, v, cs, stack, top => by
    have hkind : left.kind ≠ .key := by
      rw [hleft.1]
      decide
    have hidle : Frame.start.IsIdle := by
      intro a op
      simp [Frame.start]
    obtain ⟨inner, hrun, htotal⟩ :=
      run_members h v cs (top :: stack) .start (before_of_link rfl ts) hidle
    rw [run_opening v cs stack top hleft, hrun, run_closing v _ stack top htotal hright,
      before_of_kind hkind, Filter.conditions_ofMembers, holds_ofMembers]
    rfl

theorem run_members {depth : Nat} {ts rest : List Token} {fs : List Filter} :
    Members depth ts fs rest → ∀ v cs stack (top : Frame), top.before ts = top → top.IsIdle →
      ∃ top' : Frame, run v cs stack top ts =
          run v (cs ++ Filter.conditionsOf fs) stack top' rest ∧
        top'.total? = some (top.settled && Filter.holdJoined v .and cs.length fs)
  | @Members.one _ _ _ f h, v, cs, stack, top, hbefore, hidle => by
    refine ⟨⟨top.settled, .value (f.holds v cs.length)⟩, ?_, ?_⟩
    · rw [run_expression h v cs stack top hbefore hidle]
      simp [Filter.conditionsOf]
    · simp [Frame.total?, Filter.holdJoined, Connective.apply_unit]
  | @Members.more _ _ mid _ f fs h hrest, v, cs, stack, top, hbefore, hidle => by
    have hmid : (Frame.mk top.settled (.value (f.holds v cs.length))).before mid = _ :=
      before_of_ends h.ends _
    obtain ⟨top', hrun, htotal⟩ := run_members hrest v (cs ++ f.conditions) stack
      ⟨top.settled, .value (f.holds v cs.length)⟩ hmid (by intro a op; simp)
    refine ⟨top', ?_, ?_⟩
    · rw [run_expression h v cs stack top hbefore hidle, hrun, Filter.conditionsOf,
        List.append_assoc]
    · rw [htotal, Filter.holdJoined, List.length_append]
      simp [Frame.settled, Connective.apply, Bool.and_assoc]

theorem run_expression {depth : Nat} {ts rest : List Token} {f : Filter} :
    Expression depth ts f rest → ∀ v cs stack (top : Frame), top.before ts = top → top.IsIdle →
      run v cs stack top ts =
        run v (cs ++ f.conditions) stack ⟨top.settled, .value (f.holds v cs.length)⟩ rest
  | .chain h hchain, v, cs, stack, top, hbefore, hidle => by
    rw [run_primary h v cs stack top, hbefore, add_of_isIdle hidle, run_chain hchain]

/-- The operands joined to a filter that starts after the conditions `cs`. -/
theorem run_chain {depth : Nat} {left f : Filter} {ts rest : List Token} :
    Chain depth left ts f rest → ∀ v cs stack ended,
      run v (cs ++ left.conditions) stack ⟨ended, .value (left.holds v cs.length)⟩ ts =
        run v (cs ++ f.conditions) stack ⟨ended, .value (f.holds v cs.length)⟩ rest
  | .done _, v, cs, stack, ended => rfl
  | @Chain.link _ _ left right f op ts us vs _ hlink _ h hchain, v, cs, stack, ended => by
    have hprimary := run_primary h
    have hrest := run_chain hchain v cs stack ended
    rw [Filter.conditions_join, Filter.holds_join, ← List.append_assoc] at hrest
    rw [← hrest]
    cases hlink with
    | keyword ht =>
      have hbefore : (Frame.mk ended (.operator (left.holds v cs.length) op)).before us =
          ⟨ended, .operator (left.holds v cs.length) op⟩ := before_of_link rfl us
      rw [run_connective v _ stack ended _ ht, hprimary, hbefore, List.length_append]
      rfl
    | @implied t rest' ht =>
      have hbefore : (Frame.mk ended (.value (left.holds v cs.length))).before (t :: rest') =
          ⟨ended, .operator (left.holds v cs.length) .and⟩ :=
        if_pos (decide_eq_true ht)
      rw [hprimary, hbefore, List.length_append]
      rfl

end

/-- The filter that a row of tokens stands for has the conditions and the truth of the tokens. -/
theorem evaluate_of_query {ts : List Token} {q : Query} (h : (Query.ofTokens ts).query = some q)
    (v : Nat → Bool) :
    evaluate v ts = q.filter.map fun f => (f.conditions, f.holds v 0) := by
  obtain ⟨rest, hstarts, -, ⟨hnone, rfl⟩ | ⟨f, hsome, hderivation⟩⟩ :=
    Derivation.expression_of_ofTokens h
  · rw [hnone, evaluate, run_tail v _ _ _ hstarts]
    rfl
  · have hrun := run_expression hderivation v [] [] .start
      (before_of_link rfl ts) (by intro a op; simp [Frame.start])
    rw [hsome, evaluate, hrun, run_tail v _ _ _ hstarts]
    simp [finish, Frame.total?, Frame.settled, Frame.start]

end Evaluation

/-- A row of tokens without a fatal fault has a query, whose filter has the conditions of the tokens
in their order, and under every assignment the truth of the tokens taken from left to right. -/
theorem Query.evaluate_ofTokens (ts : List Token) (h : (Query.ofTokens ts).hasFatal = false) :
    ∃ q, (Query.ofTokens ts).query = some q ∧
      ∀ v, evaluate v ts = q.filter.map fun f => (f.conditions, f.holds v 0) := by
  rw [← Query.isNone_ofTokens, Option.isNone_eq_false_iff, Option.isSome_iff_exists] at h
  obtain ⟨q, hq⟩ := h
  exact ⟨q, hq, Evaluation.evaluate_of_query hq⟩

/-- Two expressions in one pair of parentheses, a connective left out, and an `or` that takes all
before it as its first operand. -/
theorem Query.evaluate_ofTokens_unlinked :
    let ts := (tokenize "(a = 1 or b = 2 'c' = 3) d = 4 or e = 5").tokens
    (Query.ofTokens ts).hasFatal = false ∧ (Query.ofTokens ts).faults ≠ [] ∧
      (evaluate (· = 4) ts).map Prod.snd = some true ∧
      ∃ q, (Query.ofTokens ts).query = some q ∧
        ∀ v, evaluate v ts = q.filter.map fun f => (f.conditions, f.holds v 0) := by
  intro ts
  have hfatal : (Query.ofTokens ts).hasFatal = false := by decide +kernel
  exact ⟨hfatal, by decide +kernel, by decide +kernel, Query.evaluate_ofTokens ts hfatal⟩

end LogQuery
