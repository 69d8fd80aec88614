import LogQuery.Proofs.Query.Cursor
import LogQuery.Proofs.Query.Passage

/-!
# What the cursor reads

Every call of the cursor returns what the function of the same name reads from the tokens in front of
it, at the depth at which it was called, whatever is below it on the stack.

* `returns_condition`: comparisons, token by token;
* `Turn`, `turn_chain`, `turn_members`: the loops of expressions and groups do not say what they
  return but how one turn goes on, with what is left to be returned; `exists_returns` puts the turns
  together;
* `returns_expression`, `returns_group`, `returns_primary`, `reads`: the calls;
* `turn_recover`, `turn_select`: the loops of the query;
* `halts_ofTokens`: the run ends, with the outcome of `Query.ofTokens`.
-/

namespace LogQuery.Cursor

/-! ## Readings -/

/-- From `s` the function that the reader is in returns what the reading says, at the depth
`depth`. -/
def Returns (ts : List Token) (s : State) (depth : Nat) (r : Reading Filter) : Prop :=
  ∃ pos, s.pos ≤ pos ∧ r.rest = ts.drop pos ∧
    Path ts (Pending Control.isEnd s.stack) s
      ⟨.returned r.value, s.stack, pos, depth, s.faults ++ r.faults⟩

section

variable {ts : List Token} {s s₁ : State} {K : List Frame} {pos pos' depth depth' : Nat}
  {faults : List (Located SyntaxFault)} {r : Reading Filter}

theorem drop_of_peek_none (h : ts[pos]? = none) : ts.drop pos = [] :=
  List.drop_eq_nil_of_le (List.getElem?_eq_none_iff.mp h)

theorem drop_of_peek {t : Token} (h : ts[pos]? = some t) : ts.drop pos = t :: ts.drop (pos + 1) := by
  obtain ⟨hlt, rfl⟩ := List.getElem?_eq_some_iff.mp h
  exact List.drop_eq_getElem_cons hlt

theorem returns_giveUp {c c' : Control} {fault : SyntaxFault} {position : Position}
    (h : step ts ⟨c, K, pos, depth, faults⟩ =
      some (State.giveUp fault position ⟨c', K, pos', depth, faults⟩)) (hpos : pos ≤ pos') :
    Returns ts ⟨c, K, pos, depth, faults⟩ depth (.fail fault position (ts.drop pos')) :=
  ⟨pos', hpos, rfl, .last h⟩

/-- A step within a function. -/
theorem Returns.of_step {c c' : Control}
    (h : step ts ⟨c, K, pos, depth, faults⟩ = some ⟨c', K, pos', depth, faults⟩)
    (hpos : pos ≤ pos') (hc : c'.isEnd = false)
    (hr : Returns ts ⟨c', K, pos', depth, faults⟩ depth' r) :
    Returns ts ⟨c, K, pos, depth, faults⟩ depth' r := by
  obtain ⟨pos'', hle, hrest, hpath⟩ := hr
  exact ⟨pos'', Nat.le_trans hpos hle, hrest, .next h ⟨List.suffix_rfl, fun _ => hc⟩ hpath⟩

theorem returns_value (field : Field) (comparison : Comparison) (operator : Token)
    (K : List Frame) (pos depth : Nat) (faults : List (Located SyntaxFault)) :
    Returns ts ⟨.value field comparison operator, K, pos, depth, faults⟩ depth
      (readValue field comparison operator (ts.drop pos)) := by
  have hstep : step ts ⟨.value field comparison operator, K, pos, depth, faults⟩ =
      some (State.atValue ts[pos]? ⟨_, K, pos, depth, faults⟩ field comparison operator) := rfl
  cases hpeek : ts[pos]? with
  | none =>
    rw [hpeek] at hstep
    have hreturns := returns_giveUp hstep (Nat.le_refl pos)
    rw [drop_of_peek_none hpeek] at hreturns ⊢
    exact hreturns
  | some t =>
    rw [hpeek, State.atValue] at hstep
    rw [drop_of_peek hpeek, readValue]
    split
    · rename_i hvalue
      rw [if_pos hvalue] at hstep
      refine ⟨pos + 1, Nat.le_succ pos, rfl, ?_⟩
      rw [Reading.done, List.append_nil]
      exact .last hstep
    · rename_i hvalue
      rw [if_neg hvalue] at hstep
      rw [← drop_of_peek hpeek]
      exact returns_giveUp hstep (Nat.le_refl pos)

theorem returns_condition (field : Field) (key : Token) (K : List Frame) (pos depth : Nat)
    (faults : List (Located SyntaxFault)) :
    Returns ts ⟨.condition field key, K, pos, depth, faults⟩ depth
      (readCondition field key (ts.drop pos)) := by
  have hstep : step ts ⟨.condition field key, K, pos, depth, faults⟩ =
      some (State.atCondition ts[pos]? ⟨_, K, pos, depth, faults⟩ field key) := rfl
  cases hpeek : ts[pos]? with
  | none =>
    rw [hpeek] at hstep
    have hreturns := returns_giveUp hstep (Nat.le_refl pos)
    rw [drop_of_peek_none hpeek] at hreturns ⊢
    exact hreturns
  | some t =>
    rw [hpeek, State.atCondition] at hstep
    rw [drop_of_peek hpeek, readCondition]
    split
    · rename_i hoperator
      rw [if_pos hoperator] at hstep
      cases hsymbol : Comparison.ofSymbol? t.text with
      | none =>
        rw [hsymbol] at hstep
        exact returns_giveUp hstep (Nat.le_succ pos)
      | some comparison =>
        rw [hsymbol] at hstep
        exact .of_step hstep (Nat.le_succ pos) rfl (returns_value field comparison t K _ depth faults)
    · rename_i hoperator
      rw [if_neg hoperator] at hstep
      rw [← drop_of_peek hpeek]
      exact returns_giveUp hstep (Nat.le_refl pos)

theorem startsOperator_drop (ts : List Token) (pos : Nat) :
    startsOperator ts[pos]?.toList = startsOperator (ts.drop pos) := by
  cases hpeek : ts[pos]? with
  | none => rw [drop_of_peek_none hpeek]; rfl
  | some t => rw [drop_of_peek hpeek]; rfl

theorem returns_bareValue (t : Token) (K : List Frame) (pos depth : Nat)
    (faults : List (Located SyntaxFault)) :
    Returns ts ⟨.bareValue t, K, pos, depth, faults⟩ depth
      (if startsOperator (ts.drop pos) then readCondition (.simple t.text) t (ts.drop pos)
      else .fail (.valueAsField t.text) t.position (ts.drop pos)) := by
  have hstep : step ts ⟨.bareValue t, K, pos, depth, faults⟩ =
      some (State.atBareValue ts[pos]? ⟨_, K, pos, depth, faults⟩ t) := rfl
  rw [State.atBareValue, startsOperator_drop] at hstep
  split
  · rename_i hoperator
    rw [if_pos hoperator] at hstep
    exact .of_step hstep (Nat.le_refl pos) rfl
      (returns_condition (.simple t.text) t K pos depth faults)
  · rename_i hoperator
    rw [if_neg hoperator] at hstep
    exact returns_giveUp hstep (Nat.le_refl pos)

end

/-! ## One turn of a loop -/

/-- The head of a loop that is to return what the reading says. -/
inductive Ahead (ts : List Token) : Loop → State → Reading Filter → Prop
  | chain (left : Filter) (K : List Frame) (pos depth : Nat) (faults : List (Located SyntaxFault)) :
      Ahead ts .chain ⟨.chain left, K, pos, depth, faults⟩
        (readChain (lastPosition ts) depth left (ts.drop pos))
  | members (opening : Token) (members : List Filter) (K : List Frame) (pos depth : Nat)
      (faults : List (Located SyntaxFault)) :
      Ahead ts .members ⟨.members opening members, K, pos, depth, faults⟩
        (readMembers (lastPosition ts) depth opening members (ts.drop pos))

/-- From `s`, where `r` is to be returned, the reader returns it, or it comes to the head of the loop
further on, where what is left of `r` is to be returned. The depth is as `D` says. -/
inductive Turn (ts : List Token) (loop : Loop) (D : Nat → Prop) (s : State) (r : Reading Filter) :
    Prop
  | leave {pos depth : Nat} (hpos : s.pos ≤ pos) (hdepth : D depth) (hrest : r.rest = ts.drop pos)
      (hpath : Path ts (Pending Control.isStop s.stack) s
        ⟨.returned r.value, s.stack, pos, depth, s.faults ++ r.faults⟩)
  | again {control : Control} {pos depth : Nat} {faults : List (Located SyntaxFault)}
      {r' : Reading Filter} (hpos : s.pos < pos) (hlt : s.pos < ts.length) (hdepth : D depth)
      (hahead : Ahead ts loop ⟨control, s.stack, pos, depth, s.faults ++ faults⟩ r')
      (hr : r = r'.after faults)
      (hpath : Path ts (Pending Control.isStop s.stack) s
        ⟨control, s.stack, pos, depth, s.faults ++ faults⟩)

section

variable {ts : List Token} {loop : Loop} {D : Nat → Prop} {K : List Frame} {frame : Frame}
  {pos pos' depth depth' : Nat} {faults : List (Located SyntaxFault)} {r : Reading Filter}

/-- A turn that returns at once. -/
theorem Turn.of_step {c : Control} (h : step ts ⟨c, K, pos, depth, faults⟩ =
      some ⟨.returned r.value, K, pos', depth', faults ++ r.faults⟩)
    (hpos : pos ≤ pos') (hD : D depth') (hrest : r.rest = ts.drop pos') :
    Turn ts loop D ⟨c, K, pos, depth, faults⟩ r :=
  .leave hpos hD hrest (.last h)

theorem Turn.of_done {c : Control} {f : Filter} (h : step ts ⟨c, K, pos, depth, faults⟩ =
      some ⟨.returned (some f), K, pos', depth, faults⟩) (hpos : pos ≤ pos') (hD : D depth) :
    Turn ts loop D ⟨c, K, pos, depth, faults⟩ (.done f (ts.drop pos')) := by
  refine .of_step ?_ hpos hD rfl
  rw [Reading.done, List.append_nil]
  exact h

/-- A turn that calls for a filter first, after it has reported `faults'`. -/
theorem Turn.of_call_after (faults' : List (Located SyntaxFault)) {c callee : Control}
    {head : Filter → Control} {next : Filter → List Token → Reading Filter}
    (h : step ts ⟨c, K, pos, depth, faults⟩ =
      some ⟨callee, frame :: K, pos', depth', faults ++ faults'⟩)
    (hpos : pos ≤ pos') (hD : D depth')
    (hr : Returns ts ⟨callee, frame :: K, pos', depth', faults ++ faults'⟩ depth' r)
    (hshorter : r.Shorter (ts.drop pos').length) (hnone : ∀ s : State, s.unwind none frame = s)
    (hsome : ∀ a (s : State), s.unwind (some a) frame = s.goto (head a))
    (hahead : ∀ a pos faults,
      Ahead ts loop ⟨head a, K, pos, depth', faults⟩ (next a (ts.drop pos))) :
    Turn ts loop D ⟨c, K, pos, depth, faults⟩ ((r.bind next).after faults') := by
  obtain ⟨pos₂, hle, hrest, hpath⟩ := hr
  cases hvalue : r.value with
  | none =>
    have hbind : (r.bind next).after faults' = ⟨none, r.rest, faults' ++ r.faults⟩ := by
      rw [Reading.bind, hvalue]
      rfl
    rw [hvalue] at hpath
    have hlast := congrArg some
      (hnone ⟨.returned none, K, pos₂, depth', faults ++ faults' ++ r.faults⟩)
    rw [hbind]
    refine .leave (Nat.le_trans hpos hle) hD hrest ?_
    rw [← List.append_assoc]
    exact .call h rfl hpath rfl hlast
  | some a =>
    have hbind : (r.bind next).after faults' =
        (next a (ts.drop pos₂)).after (faults' ++ r.faults) := by
      rw [Reading.bind, hvalue, ← hrest]
      exact Reading.after_after ..
    have hlt := hshorter.2 (by rw [hvalue]; rfl)
    rw [hrest, List.length_drop, List.length_drop] at hlt
    have hbounds : pos < pos₂ ∧ pos < ts.length := by omega
    rw [hvalue] at hpath
    have hlast := congrArg some
      (hsome a ⟨.returned (some a), K, pos₂, depth', faults ++ faults' ++ r.faults⟩)
    refine .again hbounds.1 hbounds.2 hD (hahead a pos₂ _) hbind ?_
    rw [← List.append_assoc]
    exact .call h rfl hpath rfl hlast

theorem Turn.of_call {c callee : Control} {head : Filter → Control}
    {next : Filter → List Token → Reading Filter}
    (h : step ts ⟨c, K, pos, depth, faults⟩ = some ⟨callee, frame :: K, pos', depth', faults⟩)
    (hpos : pos ≤ pos') (hD : D depth')
    (hr : Returns ts ⟨callee, frame :: K, pos', depth', faults⟩ depth' r)
    (hshorter : r.Shorter (ts.drop pos').length) (hnone : ∀ s : State, s.unwind none frame = s)
    (hsome : ∀ a (s : State), s.unwind (some a) frame = s.goto (head a))
    (hahead : ∀ a pos faults,
      Ahead ts loop ⟨head a, K, pos, depth', faults⟩ (next a (ts.drop pos))) :
    Turn ts loop D ⟨c, K, pos, depth, faults⟩ (r.bind next) := by
  have hafter : (r.bind next).after [] = r.bind next := rfl
  rw [← hafter]
  rw [← List.append_nil faults] at hr
  exact .of_call_after [] (by rw [List.append_nil]; exact h) hpos hD hr hshorter hnone hsome hahead

/-- What a turn begins is brought to an end, if the loop is from further on. -/
theorem Turn.exists_returns {s : State} (h : Turn ts loop D s r)
    (hloop : ∀ {s' : State} {r'}, Ahead ts loop s' r' → s.pos < s'.pos → s.pos < ts.length →
      D s'.depth → ∃ depth, D depth ∧ Returns ts s' depth r') :
    ∃ depth, D depth ∧ Returns ts s depth r := by
  cases h with
  | leave hpos hdepth hrest hpath =>
    exact ⟨_, hdepth, _, hpos, hrest, hpath.mono fun _ hm => hm.isEnd⟩
  | again hpos hlt hdepth hahead hr hpath =>
    obtain ⟨depth, hdepth', pos, hle, hrest, hpath'⟩ := hloop hahead hpos hlt hdepth
    subst hr
    refine ⟨depth, hdepth', pos, Nat.le_trans (Nat.le_of_lt hpos) hle, hrest, ?_⟩
    rw [Reading.after, ← List.append_assoc]
    refine (hpath.mono fun _ hm => hm.isEnd).trans ⟨List.suffix_rfl, fun _ => ?_⟩ hpath'
    cases hahead <;> rfl

/-- A loop returns if each of its turns is as it should be. -/
theorem exists_returns {pos₀ : Nat}
    (hturn : ∀ {s : State} {r}, Ahead ts loop s r → pos₀ ≤ s.pos → D s.depth → Turn ts loop D s r)
    {s : State} (h : Ahead ts loop s r) (hpos : pos₀ ≤ s.pos) (hD : D s.depth) :
    ∃ depth, D depth ∧ Returns ts s depth r := by
  -- the induction is on the tokens in front of the cursor, of which every turn takes some
  induction hn : ts.length - s.pos using Nat.strongRecOn generalizing s r with
  | ind n ih =>
    refine (hturn h hpos hD).exists_returns fun {s'} _ hahead hlt hlt' hD' => ?_
    exact ih (ts.length - s'.pos) (by omega) hahead (by omega) hD' rfl

end

/-! ## Calls -/

/-- A call for a primary at `pos` returns what is read there. -/
def ReadsPrimary (ts : List Token) (pos : Nat) : Prop :=
  ∀ (K : List Frame) (depth : Nat) (faults : List (Located SyntaxFault)),
    Returns ts ⟨.primary, K, pos, depth, faults⟩ depth
      (readPrimary (lastPosition ts) depth (ts.drop pos))

/-- A call for an expression at `pos` returns what is read there. -/
def ReadsExpression (ts : List Token) (pos : Nat) : Prop :=
  ∀ (K : List Frame) (depth : Nat) (faults : List (Located SyntaxFault)),
    Returns ts ⟨.expression, K, pos, depth, faults⟩ depth
      (readExpression (lastPosition ts) depth (ts.drop pos))

/-- What a call for a group returns. -/
def readGroup (last : Position) (depth : Nat) (opening : Token) (ts : List Token) :
    Reading Filter :=
  if maxDepth ≤ depth then .fail .parensTooDeep opening.position ts
  else readMembers last (depth + 1) opening [] ts

section

variable {ts : List Token} {K : List Frame} {pos depth : Nat} {faults : List (Located SyntaxFault)}

/-- The primary after a connective, and back to the head of the loop. -/
theorem turn_link (faults' : List (Located SyntaxFault)) {c : Control} {left : Filter}
    {op : Connective} {position : Position} {pos' : Nat}
    (h : step ts ⟨c, K, pos, depth, faults⟩ =
      some (State.link ⟨c, K, pos', depth, faults ++ faults'⟩ left op position))
    (hpos : pos ≤ pos') (hprimary : ReadsPrimary ts pos') :
    Turn ts .chain (fun _ => True) ⟨c, K, pos, depth, faults⟩
      ((readLink (lastPosition ts) depth left op position (ts.drop pos')).after faults') := by
  have hnone : ∀ s : State, s.unwind none (.operand op left) = s := fun _ => rfl
  have hsome : ∀ right (s : State), s.unwind (some right) (.operand op left) =
      s.goto (.chain (.join op left right)) := fun _ _ => rfl
  rw [readLink_eq]
  rw [State.link] at h
  split
  · rename_i hrun
    rw [if_pos hrun] at h
    exact .of_call_after faults' h hpos trivial (hprimary _ _ _) (shorter_readPrimary ..) hnone
      hsome fun right pos faults => .chain (.join op left right) K pos depth faults
  · rename_i hrun
    rw [if_neg hrun] at h
    split
    · rename_i hdepth
      rw [if_pos hdepth] at h
      rw [State.giveUp, State.report, List.append_assoc] at h
      exact .of_step h hpos trivial rfl
    · rename_i hdepth
      rw [if_neg hdepth] at h
      exact .of_call_after faults' h hpos trivial (hprimary _ _ _) (shorter_readPrimary ..) hnone
        hsome fun right pos faults => .chain (.join op left right) K pos (depth + 1) faults

/-- A chain goes on at a keyword, and at a key; anything else ends it. -/
theorem turn_chain (left : Filter) (hprimary : ∀ pos', pos ≤ pos' → ReadsPrimary ts pos') :
    Turn ts .chain (fun _ => True) ⟨.chain left, K, pos, depth, faults⟩
      (readChain (lastPosition ts) depth left (ts.drop pos)) := by
  have hstep : step ts ⟨.chain left, K, pos, depth, faults⟩ =
      some (State.atChain ts[pos]? ⟨_, K, pos, depth, faults⟩ left) := rfl
  have hdone (h : step ts ⟨.chain left, K, pos, depth, faults⟩ =
      some ⟨.returned (some left), K, pos, depth, faults⟩) :
      Turn ts .chain (fun _ => True) ⟨.chain left, K, pos, depth, faults⟩
        (.done left (ts.drop pos)) := .of_done h (Nat.le_refl pos) trivial
  rw [readChain_eq]
  cases hpeek : ts[pos]? with
  | none =>
    rw [hpeek] at hstep
    rw [drop_of_peek_none hpeek] at hdone ⊢
    exact hdone hstep
  | some t =>
    rw [hpeek, State.atChain] at hstep
    rw [drop_of_peek hpeek] at hdone ⊢
    dsimp only
    cases hkind : t.kind with
    | bool =>
      rw [hkind] at hstep
      dsimp only at hstep ⊢
      cases hkeyword : Connective.ofKeyword? t.text with
      | none =>
        rw [hkeyword] at hstep
        exact .of_step hstep (Nat.le_succ pos) trivial rfl
      | some op =>
        rw [hkeyword] at hstep
        have hlink := turn_link [] (by rw [List.append_nil]; exact hstep)
          (Nat.le_succ pos) (hprimary (pos + 1) (Nat.le_succ pos))
        exact hlink
    | key =>
      rw [hkind] at hstep
      have hlink := turn_link _ hstep (Nat.le_refl pos) (hprimary pos (Nat.le_refl pos))
      rw [drop_of_peek hpeek] at hlink
      exact hlink
    | _ =>
      rw [hkind] at hstep
      exact hdone hstep

/-- A group goes on up to its closing parenthesis, at the depth at which it began. -/
theorem turn_members (opening : Token) (members : List Filter)
    (hexpression : ReadsExpression ts pos) :
    Turn ts .members (· = depth) ⟨.members opening members, K, pos, depth, faults⟩
      (readMembers (lastPosition ts) depth opening members (ts.drop pos)) := by
  have hstep : step ts ⟨.members opening members, K, pos, depth, faults⟩ =
      some (State.atMembers ts[pos]? ⟨_, K, pos, depth, faults⟩ opening members) := rfl
  rw [readMembers_eq]
  cases hpeek : ts[pos]? with
  | none =>
    rw [hpeek] at hstep
    rw [drop_of_peek_none hpeek]
    exact .of_step hstep (Nat.le_refl pos) rfl (drop_of_peek_none hpeek).symm
  | some t =>
    rw [hpeek, State.atMembers] at hstep
    rw [drop_of_peek hpeek]
    dsimp only at hstep ⊢
    split
    · rename_i hclosing
      rw [if_pos hclosing] at hstep
      split
      · rename_i hempty
        rw [if_pos hempty] at hstep
        exact .of_step hstep (Nat.le_succ pos) rfl rfl
      · rename_i hempty
        rw [if_neg hempty] at hstep
        exact .of_done hstep (Nat.le_succ pos) rfl
    · rename_i hclosing
      rw [if_neg hclosing] at hstep
      rw [← drop_of_peek hpeek]
      split
      · rename_i hpipe
        rw [if_pos hpipe] at hstep
        exact .of_step hstep (Nat.le_refl pos) rfl rfl
      · rename_i hpipe
        rw [if_neg hpipe] at hstep
        exact .of_call hstep (Nat.le_refl pos) rfl (hexpression _ _ _)
          (shorter_readExpression ..) (fun _ => rfl) (fun _ _ => rfl)
          fun member pos faults => .members opening (members ++ [member]) K pos depth faults

/-- The primaries of an expression may count the depth up. -/
theorem exists_returns_terms (hprimary : ReadsPrimary ts pos)
    (hlater : pos < ts.length → ∀ pos', pos < pos' → ReadsPrimary ts pos') :
    ∃ depth', Returns ts ⟨.terms, K, pos, depth, faults⟩ depth'
      (readExpression (lastPosition ts) depth (ts.drop pos)) := by
  have hstep : step ts ⟨.terms, K, pos, depth, faults⟩ =
      some ⟨.primary, .first :: K, pos, depth, faults⟩ := rfl
  have hturn : Turn ts .chain (fun _ => True) ⟨.terms, K, pos, depth, faults⟩
      ((readPrimary (lastPosition ts) depth (ts.drop pos)).bind
        (readChain (lastPosition ts) depth)) :=
    .of_call hstep (Nat.le_refl pos) trivial (hprimary _ _ _) (shorter_readPrimary ..)
      (fun _ => rfl) (fun _ _ => rfl) fun left pos faults => .chain left K pos depth faults
  rw [readExpression_eq]
  obtain ⟨depth', -, hreturns⟩ := hturn.exists_returns fun {s' r'} hahead hpos hlt _ => by
    refine exists_returns (fun {s r} hahead hpos' _ => ?_) hahead (Nat.le_refl s'.pos) trivial
    cases hahead with
    | chain left K pos' depth' faults' =>
      have hlt' : pos < pos' := Nat.lt_of_lt_of_le hpos hpos'
      exact turn_chain left fun pos'' hpos'' => hlater hlt pos'' (Nat.lt_of_lt_of_le hlt' hpos'')
  exact ⟨depth', hreturns⟩

/-- An expression takes the depth back. -/
theorem returns_expression (hprimary : ReadsPrimary ts pos)
    (hlater : pos < ts.length → ∀ pos', pos < pos' → ReadsPrimary ts pos') :
    ReadsExpression ts pos := by
  intro K depth faults
  have hterms : ∃ depth', Returns ts ⟨.terms, .restore depth :: K, pos, depth, faults⟩ depth'
      (readExpression (lastPosition ts) depth (ts.drop pos)) := exists_returns_terms hprimary hlater
  obtain ⟨depth', pos', hpos, hrest, hpath⟩ := hterms
  exact ⟨pos', hpos, hrest, .call rfl rfl hpath rfl rfl⟩

/-- A group counts the depth up and down again. -/
theorem returns_group (opening : Token)
    (hexpression : ∀ pos', pos ≤ pos' → ReadsExpression ts pos') :
    Returns ts ⟨.group opening, K, pos, depth, faults⟩ depth
      (readGroup (lastPosition ts) depth opening (ts.drop pos)) := by
  have hstep : step ts ⟨.group opening, K, pos, depth, faults⟩ =
      some (State.atGroup ⟨_, K, pos, depth, faults⟩ opening) := rfl
  rw [State.atGroup] at hstep
  rw [readGroup]
  split
  · rename_i hdepth
    rw [if_pos hdepth] at hstep
    exact returns_giveUp hstep (Nat.le_refl pos)
  · rename_i hdepth
    rw [if_neg hdepth] at hstep
    have hmembers : Ahead ts .members _ _ := .members opening [] (.leave :: K) pos (depth + 1) faults
    obtain ⟨_, rfl, pos', hpos, hrest, hpath⟩ := exists_returns (D := (· = depth + 1))
      (fun {s r} hahead hpos' hdepth' => by
        cases hahead with
        | members opening members K pos' depth' faults' =>
          cases hdepth'
          exact turn_members opening members (hexpression pos' hpos'))
      hmembers (Nat.le_refl pos) rfl
    exact ⟨pos', hpos, hrest, .call hstep rfl hpath rfl rfl⟩

theorem returns_primary (hlater : pos < ts.length → ∀ pos', pos < pos' → ReadsExpression ts pos') :
    ReadsPrimary ts pos := by
  intro K depth faults
  have hstep : step ts ⟨.primary, K, pos, depth, faults⟩ =
      some (State.atPrimary ts[pos]? ⟨_, K, pos, depth, faults⟩ (lastPosition ts)) := rfl
  rw [readPrimary_eq]
  cases hpeek : ts[pos]? with
  | none =>
    rw [hpeek] at hstep
    have hreturns := returns_giveUp hstep (Nat.le_refl pos)
    rw [drop_of_peek_none hpeek] at hreturns ⊢
    exact hreturns
  | some t =>
    have hlt := (List.getElem?_eq_some_iff.mp hpeek).1
    rw [hpeek, State.atPrimary] at hstep
    have hother (h : step ts ⟨.primary, K, pos, depth, faults⟩ =
        some (State.giveUp (.notCondition t.kind t.text) t.position
          ⟨.primary, K, pos, depth, faults⟩)) :
        Returns ts ⟨.primary, K, pos, depth, faults⟩ depth
          (.fail (.notCondition t.kind t.text) t.position (t :: ts.drop (pos + 1))) := by
      rw [← drop_of_peek hpeek]
      exact returns_giveUp h (Nat.le_refl pos)
    rw [drop_of_peek hpeek]
    dsimp only
    cases hkind : t.kind with
    | paren =>
      rw [hkind] at hstep hother
      dsimp only at hstep ⊢
      split
      · rename_i htext
        rw [if_pos htext] at hstep
        exact .of_step hstep (Nat.le_succ pos) rfl
          (returns_group t fun pos' hpos' => hlater hlt pos' hpos')
      · rename_i htext
        rw [if_neg htext] at hstep
        exact hother hstep
    | key =>
      rw [hkind] at hstep
      exact .of_step hstep (Nat.le_succ pos) rfl (returns_condition _ t K _ depth faults)
    | value =>
      rw [hkind] at hstep
      exact .of_step hstep (Nat.le_succ pos) rfl (returns_bareValue t K _ depth faults)
    | _ =>
      rw [hkind] at hstep hother
      exact hother hstep

/-- Every call for a primary or an expression returns what is read there. -/
theorem reads (ts : List Token) (pos : Nat) : ReadsPrimary ts pos ∧ ReadsExpression ts pos := by
  -- An expression calls for its first primary without taking a token, so that comes first; any other
  -- call is for tokens further on.
  induction hn : ts.length - pos using Nat.strongRecOn generalizing pos with
  | ind n ih =>
    have hlater : pos < ts.length → ∀ pos', pos < pos' →
        ReadsPrimary ts pos' ∧ ReadsExpression ts pos' :=
      fun hlt pos' hpos' => ih (ts.length - pos') (by omega) pos' rfl
    have hprimary := returns_primary fun hlt pos' hpos' => (hlater hlt pos' hpos').2
    exact ⟨hprimary, returns_expression hprimary fun hlt pos' hpos' => (hlater hlt pos' hpos').1⟩

end

/-! ## The query -/

/-- What the query comes to from a state in which no call is open: the query and its faults. -/
def State.result? (ts : List Token) (s : State) :
    Option (Option Query × List (Located SyntaxFault)) :=
  let rest := ts.drop s.pos
  match s.control with
  | .recover => some (none, s.faults ++ recover (lastPosition ts) rest)
  | .tail filter => some (some ⟨filter, (readTail rest).1⟩, s.faults ++ (readTail rest).2)
  | .select filter fields separator =>
    some (some ⟨filter, fields ++ (readSelect separator rest).1⟩,
      s.faults ++ (readSelect separator rest).2)
  | .done query => some (query, s.faults)
  | _ => none

/-- From `s` the query is done, or the reader comes back to the head of the loop further on; it comes
to the same as from `s`. -/
inductive QueryTurn (ts : List Token) (s : State) : Prop
  | leave {query : Option Query} {pos : Nat} {faults : List (Located SyntaxFault)}
      (hresult : s.result? ts = some (query, faults))
      (hpath : Path ts (Pending Control.isStop s.stack) s
        ⟨.done query, s.stack, pos, s.depth, faults⟩)
  | again {control : Control} {pos : Nat} {faults : List (Located SyntaxFault)}
      (hpos : s.pos < pos) (hlt : s.pos < ts.length) (hloop : control.loop? = s.control.loop?)
      (hresult : s.result? ts = State.result? ts ⟨control, s.stack, pos, s.depth, faults⟩)
      (hpath : Path ts (Pending Control.isStop s.stack) s
        ⟨control, s.stack, pos, s.depth, faults⟩)

section

variable {ts : List Token} {K : List Frame} {pos depth : Nat} {faults : List (Located SyntaxFault)}

/-- The search for further faults stops at a pipe, calls for an expression at depth 0 behind a
keyword, and passes over any other token. -/
theorem turn_recover : QueryTurn ts ⟨.recover, K, pos, 0, faults⟩ := by
  have hstep : step ts ⟨.recover, K, pos, 0, faults⟩ =
      some (State.atRecover ts[pos]? ⟨_, K, pos, 0, faults⟩) := rfl
  have hdone (hnil : recover (lastPosition ts) (ts.drop pos) = [])
      (h : step ts ⟨.recover, K, pos, 0, faults⟩ = some ⟨.done none, K, pos, 0, faults⟩) :
      QueryTurn ts ⟨.recover, K, pos, 0, faults⟩ := by
    refine .leave ?_ (.last h)
    rw [State.result?, hnil, List.append_nil]
  cases hpeek : ts[pos]? with
  | none =>
    rw [hpeek] at hstep
    exact hdone (by rw [drop_of_peek_none hpeek, recover]) hstep
  | some t =>
    have hlt := (List.getElem?_eq_some_iff.mp hpeek).1
    rw [hpeek, State.atRecover] at hstep
    have hdrop := drop_of_peek hpeek
    have hskip (hrecover : recover (lastPosition ts) (ts.drop pos) =
          recover (lastPosition ts) (ts.drop (pos + 1)))
        (h : step ts ⟨.recover, K, pos, 0, faults⟩ = some ⟨.recover, K, pos + 1, 0, faults⟩) :
        QueryTurn ts ⟨.recover, K, pos, 0, faults⟩ := by
      refine .again (Nat.lt_succ_self pos) hlt rfl ?_ (.last h)
      rw [State.result?, hrecover]
      rfl
    cases hkind : t.kind with
    | pipe =>
      rw [hkind] at hstep
      exact hdone (by rw [hdrop, recover, hkind]) hstep
    | bool =>
      rw [hkind] at hstep
      obtain ⟨pos', hpos, hrest, hpath⟩ := (reads ts (pos + 1)).2 (.term :: K) 0 faults
      have hresult : recover (lastPosition ts) (ts.drop pos) =
          (readExpression (lastPosition ts) 0 (ts.drop (pos + 1))).faults ++
            recover (lastPosition ts) (ts.drop pos') := by
        rw [hdrop, recover, hkind]
        dsimp only
        rw [hrest]
      refine .again (Nat.lt_of_succ_le hpos) hlt rfl ?_ (.call hstep rfl hpath rfl rfl)
      rw [State.result?, hresult, ← List.append_assoc]
      rfl
    | _ =>
      rw [hkind] at hstep
      exact hskip (by rw [hdrop, recover, hkind]) hstep

theorem readSelect_of_none {separator t : Token} (h : selectedField? t = none) (rest : List Token) :
    readSelect separator (t :: rest) = ([], [⟨.notField t.text, t.position⟩]) := by
  cases rest with
  | nil => rw [readSelect, h]
  | cons s rest => rw [readSelect, h]

theorem readSelect_of_some (separator : Token) {t : Token} {field : Field}
    (h : selectedField? t = some field) (s : Token) (rest : List Token) :
    readSelect separator (t :: s :: rest) =
      if s.kind = .comma then (field :: (readSelect s rest).1, (readSelect s rest).2)
      else ([field], [⟨.notComma s.text, s.position⟩]) := by
  rw [readSelect, h]

/-- A field is selected, and the next one if a comma comes after it. -/
theorem turn_select (filter : Option Filter) (fields : List Field) (separator : Token) :
    QueryTurn ts ⟨.select filter fields separator, K, pos, depth, faults⟩ := by
  have hstep : step ts ⟨.select filter fields separator, K, pos, depth, faults⟩ =
      some (State.atSelect ts[pos]? ⟨_, K, pos, depth, faults⟩ filter fields separator) := rfl
  have hresult {fs : List Field} {gs : List (Located SyntaxFault)}
      (h : readSelect separator (ts.drop pos) = (fs, gs)) :
      State.result? ts ⟨.select filter fields separator, K, pos, depth, faults⟩ =
        some (some ⟨filter, fields ++ fs⟩, faults ++ gs) := by
    have hdef : State.result? ts ⟨.select filter fields separator, K, pos, depth, faults⟩ =
        some (some ⟨filter, fields ++ (readSelect separator (ts.drop pos)).1⟩,
          faults ++ (readSelect separator (ts.drop pos)).2) := rfl
    rw [hdef, h]
  cases hpeek : ts[pos]? with
  | none =>
    rw [hpeek] at hstep
    have hselect := hresult (by rw [drop_of_peek_none hpeek, readSelect])
    rw [List.append_nil] at hselect
    exact .leave hselect (.last hstep)
  | some t =>
    have hlt := (List.getElem?_eq_some_iff.mp hpeek).1
    have hdrop := drop_of_peek hpeek
    rw [hpeek, State.atSelect] at hstep
    cases hfield : selectedField? t with
    | none =>
      rw [hfield] at hstep
      have hselect := hresult (by rw [hdrop, readSelect_of_none hfield])
      rw [List.append_nil] at hselect
      exact .leave hselect (.last hstep)
    | some field =>
      rw [hfield] at hstep
      dsimp only at hstep
      have hcomma : step ts ⟨.comma filter (fields ++ [field]), K, pos + 1, depth, faults⟩ =
          some (State.atComma ts[pos + 1]? ⟨_, K, pos + 1, depth, faults⟩ filter
            (fields ++ [field])) := rfl
      have hpending : Pending Control.isStop K
          ⟨.comma filter (fields ++ [field]), K, pos + 1, depth, faults⟩ :=
        ⟨List.suffix_rfl, fun _ => rfl⟩
      cases hpeek' : ts[pos + 1]? with
      | none =>
        rw [hpeek'] at hcomma
        have hselect := hresult (by rw [hdrop, drop_of_peek_none hpeek', readSelect, hfield])
        rw [List.append_nil] at hselect
        exact .leave hselect (.next hstep hpending (.last hcomma))
      | some s =>
        rw [hpeek', State.atComma] at hcomma
        have hread := readSelect_of_some separator hfield s (ts.drop (pos + 2))
        rw [← drop_of_peek hpeek', ← hdrop] at hread
        split at hcomma
        · rename_i hkind
          rw [if_pos hkind] at hread
          have hselect := hresult hread
          rw [← List.singleton_append, ← List.append_assoc] at hselect
          have hpath : Path ts (Pending Control.isStop K)
              ⟨.select filter fields separator, K, pos, depth, faults⟩
              ⟨.select filter (fields ++ [field]) s, K, pos + 2, depth, faults⟩ :=
            .next hstep hpending (.last hcomma)
          have hloop : Control.loop? (.select filter (fields ++ [field]) s) = some .select := rfl
          exact .again (Nat.lt_add_of_pos_right Nat.two_pos) hlt hloop hselect hpath
        · rename_i hkind
          rw [if_neg hkind] at hread
          have hselect := hresult hread
          exact .leave hselect (.next hstep hpending (.last hcomma))

/-- The reader comes to the end of the query, and to what the query comes to from `s`. -/
def Halts (ts : List Token) (s : State) : Prop :=
  ∃ s' query, Path ts (fun _ => True) s s' ∧ s'.control = .done query ∧
    s.result? ts = some (query, s'.faults)

/-- The loops of the query end, if the search for further faults begins at depth 0. -/
theorem halts_of_loop {s : State} (h : s.control = .recover ∧ s.depth = 0 ∨
    s.control.loop? = some .select) : Halts ts s := by
  induction hn : ts.length - s.pos using Nat.strongRecOn generalizing s with
  | ind n ih =>
    have hturn : QueryTurn ts s := by
      obtain ⟨control, K, pos, depth, faults⟩ := s
      rcases h with ⟨rfl, rfl⟩ | h
      · exact turn_recover
      · cases control with
        | select filter fields separator => exact turn_select filter fields separator
        | _ => cases h
    cases hturn with
    | leave hresult hpath => exact ⟨_, _, hpath.mono fun _ _ => trivial, rfl, hresult⟩
    | again hpos hlt hloop hresult hpath =>
      rename_i control pos faults
      have hagain : control = .recover ∧ s.depth = 0 ∨ control.loop? = some .select := by
        rcases h with ⟨hrecover, hdepth⟩ | h
        · rw [hrecover] at hloop
          cases control <;> cases hloop
          exact .inl ⟨rfl, hdepth⟩
        · exact .inr (hloop.trans h)
      obtain ⟨s', query, hpath', hdone, hresult'⟩ :=
        ih (ts.length - pos) (by omega) (s := ⟨control, s.stack, pos, s.depth, faults⟩) hagain rfl
      exact ⟨s', query, (hpath.mono fun _ _ => trivial).trans trivial hpath', hdone,
        hresult.trans hresult'⟩

theorem Halts.of_step {s s' : State} (h : step ts s = some s')
    (hresult : s.result? ts = s'.result? ts) (hhalts : Halts ts s') : Halts ts s := by
  obtain ⟨s'', query, hpath, hdone, hresult'⟩ := hhalts
  exact ⟨s'', query, .next h trivial hpath, hdone, hresult.trans hresult'⟩

theorem halts_tail (filter : Option Filter) : Halts ts ⟨.tail filter, K, pos, depth, faults⟩ := by
  have hstep : step ts ⟨.tail filter, K, pos, depth, faults⟩ =
      some (State.atTail ts[pos]? ⟨_, K, pos, depth, faults⟩ filter) := rfl
  cases hpeek : ts[pos]? with
  | none =>
    rw [hpeek] at hstep
    refine ⟨_, _, .last hstep, rfl, ?_⟩
    rw [State.result?, drop_of_peek_none hpeek, readTail, List.append_nil]
    rfl
  | some t =>
    have hdrop := drop_of_peek hpeek
    rw [hpeek, State.atTail] at hstep
    split at hstep
    · rename_i hpipe
      refine .of_step hstep ?_ (halts_of_loop (.inr rfl))
      rw [State.result?, hdrop, readTail, if_pos hpipe]
      rfl
    · rename_i hpipe
      split at hstep
      · rename_i hclosing
        refine ⟨_, _, .last hstep, rfl, ?_⟩
        rw [State.result?, hdrop, readTail, if_neg hpipe, if_pos hclosing]
        rfl
      · rename_i hclosing
        refine ⟨_, _, .last hstep, rfl, ?_⟩
        rw [State.result?, hdrop, readTail, if_neg hpipe, if_neg hclosing]
        rfl

/-- The query begins with its tail, or calls for an expression. -/
theorem step_start (ts : List Token) :
    step ts start = some (if startsTail ts then ⟨.tail none, [], 0, 0, []⟩
      else ⟨.expression, [.query], 0, 0, []⟩) := by
  cases ts with
  | nil => rfl
  | cons t rest =>
    rw [startsTail]
    by_cases hpipe : t.kind = .pipe
    · rw [if_pos (decide_eq_true hpipe)]
      exact congrArg some (if_pos hpipe)
    · rw [if_neg (by simp [hpipe])]
      exact congrArg some (if_neg hpipe)

/-- What the query comes to from a state on the way is its outcome. -/
theorem Halts.exists_done {s : State} (hstart : Path ts (fun _ => True) start s) (h : Halts ts s)
    {query : Option Query} (hresult : s.result? ts = some (query, faults)) :
    ∃ s', Path ts (fun _ => True) start s' ∧ s'.control = .done query ∧ s'.faults = faults := by
  obtain ⟨s', query', hpath, hdone, hresult'⟩ := h
  rw [hresult] at hresult'
  obtain ⟨rfl, rfl⟩ := Prod.mk.inj (Option.some.inj hresult')
  exact ⟨s', hstart.trans trivial hpath, hdone, rfl⟩

/-- The run ends, and with the outcome that is read from the tokens. -/
theorem halts_ofTokens (ts : List Token) :
    ∃ s query, Path ts (fun _ => True) start s ∧ s.control = .done query ∧
      Query.ofTokens ts = ⟨if Outcome.isFatal s.faults then none else query, s.faults⟩ := by
  have hstep := step_start ts
  rw [Query.ofTokens]
  split
  · rename_i hstarts
    rw [if_pos hstarts] at hstep
    obtain ⟨s, hpath, hdone, hfaults⟩ := Halts.exists_done (.last hstep) (halts_tail none) rfl
    exact ⟨s, _, hpath, hdone, by rw [hfaults]; rfl⟩
  · rename_i hstarts
    rw [if_neg hstarts] at hstep
    obtain ⟨pos, -, hrest, hpath⟩ := (reads ts 0).2 [.query] 0 []
    replace hpath : Path ts (fun _ => True) start _ :=
      .next hstep trivial (hpath.mono fun _ _ => trivial)
    rw [List.drop_zero] at hrest hpath
    dsimp only
    cases hvalue : (readExpression (lastPosition ts) 0 ts).value with
    | none =>
      rw [hvalue] at hpath
      obtain ⟨s, hpath, hdone, hfaults⟩ := Halts.exists_done (hpath.trans trivial (.last rfl))
        (halts_of_loop (.inl ⟨rfl, rfl⟩)) rfl
      refine ⟨s, none, hpath, hdone, ?_⟩
      rw [hfaults, hrest, ite_self]
      rfl
    | some filter =>
      rw [hvalue] at hpath
      obtain ⟨s, hpath, hdone, hfaults⟩ := Halts.exists_done (hpath.trans trivial (.last rfl))
        (halts_tail (some filter)) rfl
      refine ⟨s, _, hpath, hdone, ?_⟩
      rw [hfaults, hrest]
      rfl

end

end LogQuery.Cursor
