import LogQuery.Proofs.Query.Grammar

/-!
# Derivations of filters

How a filter that is read comes about, whether or not a connective was left out on the way. The
rules follow those of the grammar, with what is left of the tokens as a further index and one rule
more: before a key, `and` may be left out.

`expression_of_value` and its companions say that every filter that is read has a derivation, and
`expression_of_ofTokens` that every filter of a query has one at depth 0. What holds of all filters
that are read is shown by induction on these derivations.
-/

namespace LogQuery.Derivation

open Grammar (IsOperand IsParen IsConnective Ends comparedField?)

/-- The connective in front of the next primary: its keyword, or nothing before a key. -/
inductive Link : Connective → List Token → List Token → Prop
  | keyword {op : Connective} {t : Token} {rest : List Token} (h : IsConnective op t) :
      Link op (t :: rest) rest
  | implied {t : Token} {rest : List Token} (h : t.kind = .key) : Link .and (t :: rest) (t :: rest)

/-- From `depth` on, the operand after `left` and `op` stands at `next`: no deeper if it extends a run,
and else one level deeper, if there is one. -/
inductive Step (left : Filter) (op : Connective) (depth : Nat) : Nat → Prop
  | extend (hrun : left.isRunOf op = true) : Step left op depth depth
  | deepen (hrun : left.isRunOf op = false) (hdepth : depth < maxDepth) :
      Step left op depth (depth + 1)

mutual

/-- A condition, or a group in parentheses. -/
inductive Primary : Nat → List Token → Filter → List Token → Prop
  | condition {depth : Nat} {key operator value : Token} {rest : List Token} {field : Field}
      {comparison : Comparison} (hkey : comparedField? key = some field)
      (hsymbol : Comparison.ofSymbol? operator.text = some comparison) (hvalue : IsOperand value) :
      Primary depth (key :: operator :: value :: rest)
        (.condition ⟨field, comparison, .ofText value.text value.quoted, value.quoted⟩) rest
  | parens {depth : Nat} {left right : Token} {ts rest : List Token} {members : List Filter}
      (hleft : IsParen "(" left) (hdepth : depth < maxDepth)
      (h : Members (depth + 1) ts members (right :: rest)) (hright : IsParen ")" right) :
      Primary depth (left :: ts) (.ofMembers members) rest

/-- The expressions in a pair of parentheses. -/
inductive Members : Nat → List Token → List Filter → List Token → Prop
  | one {depth : Nat} {ts rest : List Token} {f : Filter} (h : Expression depth ts f rest) :
      Members depth ts [f] rest
  | more {depth : Nat} {ts mid rest : List Token} {f : Filter} {members : List Filter}
      (h : Expression depth ts f mid) (hrest : Members depth mid members rest) :
      Members depth ts (f :: members) rest

/-- A primary and what is joined to it. -/
inductive Expression : Nat → List Token → Filter → List Token → Prop
  | chain {depth : Nat} {ts mid rest : List Token} {left f : Filter}
      (h : Primary depth ts left mid) (hchain : Chain depth left mid f rest) :
      Expression depth ts f rest

/-- What is joined to the filter `left`, up to where nothing more is. -/
inductive Chain : Nat → Filter → List Token → Filter → List Token → Prop
  | done {depth : Nat} {left : Filter} {rest : List Token} (hends : Ends rest) :
      Chain depth left rest left rest
  | link {depth next : Nat} {left right f : Filter} {op : Connective} {ts us vs rest : List Token}
      (hlink : Link op ts us) (hstep : Step left op depth next) (h : Primary next us right vs)
      (hchain : Chain next (.join op left right) vs f rest) : Chain depth left ts f rest

end

/-! ## What is read has a derivation -/

/-- A reading that goes on after another gives what the second one gives. -/
theorem of_bind {α β : Type} {r : Reading α} {next : α → List Token → Reading β} {b : β}
    (h : (r.bind next).value = some b) :
    ∃ a, r.value = some a ∧ (next a r.rest).value = some b ∧
      (r.bind next).rest = (next a r.rest).rest := by
  unfold Reading.bind at h ⊢
  split at h
  · cases h
  · rename_i a hvalue
    exact ⟨a, hvalue, h, rfl⟩

theorem primary_of_readCondition {depth : Nat} {key : Token} {field : Field} {ts : List Token}
    {f : Filter} (hkey : comparedField? key = some field)
    (h : (readCondition field key ts).value = some f) :
    Primary depth (key :: ts) f (readCondition field key ts).rest := by
  cases ts with
  | nil => cases h
  | cons operator ts =>
    rw [readCondition] at h ⊢
    split at h
    · rename_i hkind
      rw [if_pos hkind]
      cases hsymbol : Comparison.ofSymbol? operator.text with
      | none =>
        rw [hsymbol] at h
        cases h
      | some comparison =>
        rw [hsymbol] at h
        cases ts with
        | nil => cases h
        | cons value rest =>
          dsimp only at h ⊢
          rw [readValue] at h ⊢
          split at h
          · rename_i hvalue
            rw [if_pos hvalue]
            cases h
            exact .condition hkey hsymbol hvalue
          · cases h
    · cases h

theorem length_lt_of_value {last : Position} {depth : Nat} {ts : List Token} {f : Filter}
    (h : (readPrimary last depth ts).value = some f) :
    (readPrimary last depth ts).rest.length < ts.length :=
  (shorter_readPrimary last depth ts).2 (by rw [h]; rfl)

mutual

theorem expression_of_value (last : Position) (depth : Nat) (ts : List Token) {f : Filter}
    (h : (readExpression last depth ts).value = some f) :
    Expression depth ts f (readExpression last depth ts).rest := by
  rw [readExpression_eq] at h ⊢
  obtain ⟨left, hleft, hf, hrest⟩ := of_bind h
  have hlength := length_lt_of_value hleft
  rw [hrest]
  exact .chain (primary_of_value last depth ts hleft) (chain_of_value last depth left _ hf)
termination_by 5 * ts.length + 3
decreasing_by all_goals omega

theorem chain_of_value (last : Position) (depth : Nat) (left : Filter) (ts : List Token)
    {f : Filter} (h : (readChain last depth left ts).value = some f) :
    Chain depth left ts f (readChain last depth left ts).rest := by
  match ts, h with
  | [], h =>
    rw [readChain_eq] at h ⊢
    cases h
    exact .done (by simp [Ends])
  | t :: ts, h =>
    rw [readChain_eq] at h ⊢
    dsimp only at h ⊢
    cases hkind : t.kind with
    | bool =>
      rw [hkind] at h
      dsimp only at h ⊢
      cases hop : Connective.ofKeyword? t.text with
      | none =>
        rw [hop] at h
        cases h
      | some op =>
        rw [hop] at h
        exact link_of_value last depth left op t.position ts h (.keyword ⟨hkind, hop⟩)
    | key =>
      rw [hkind] at h
      exact link_of_value last depth left .and t.position (t :: ts) h (.implied hkind)
    | _ =>
      rw [hkind] at h
      cases h
      exact .done (by simp [Ends, hkind])
termination_by 5 * ts.length + 2
decreasing_by
  all_goals
    simp only [List.length_cons]
    omega

theorem link_of_value (last : Position) (depth : Nat) (left : Filter) (op : Connective)
    (position : Position) (ts : List Token) {f : Filter}
    (h : (readLink last depth left op position ts).value = some f) {all : List Token}
    (hlink : Link op all ts) :
    Chain depth left all f (readLink last depth left op position ts).rest := by
  rw [readLink_eq] at h ⊢
  cases hrun : left.isRunOf op with
  | true =>
    rw [hrun, if_pos rfl] at h
    rw [if_pos rfl]
    obtain ⟨right, hright, hf, hrest⟩ := of_bind h
    have hlength := length_lt_of_value hright
    rw [hrest]
    exact .link hlink (.extend hrun) (primary_of_value last depth ts hright)
      (chain_of_value last depth (.join op left right) _ hf)
  | false =>
    rw [hrun, if_neg Bool.false_ne_true] at h
    rw [if_neg Bool.false_ne_true]
    split at h
    · cases h
    · rename_i hmax
      rw [if_neg hmax]
      obtain ⟨right, hright, hf, hrest⟩ := of_bind h
      have hlength := length_lt_of_value hright
      rw [hrest]
      exact .link hlink (.deepen hrun (Nat.lt_of_not_le hmax))
        (primary_of_value last (depth + 1) ts hright)
        (chain_of_value last (depth + 1) (.join op left right) _ hf)
termination_by 5 * ts.length + 1
decreasing_by all_goals omega

theorem primary_of_value (last : Position) (depth : Nat) (ts : List Token) {f : Filter}
    (h : (readPrimary last depth ts).value = some f) :
    Primary depth ts f (readPrimary last depth ts).rest := by
  match ts, h with
  | [], h =>
    rw [readPrimary_eq] at h
    cases h
  | t :: ts, h =>
    rw [readPrimary_eq] at h ⊢
    dsimp only at h ⊢
    cases hkind : t.kind with
    | paren =>
      rw [hkind] at h
      dsimp only at h ⊢
      split at h
      · rename_i htext
        split at h
        · cases h
        · rename_i hdepth
          rw [if_pos htext, if_neg hdepth]
          obtain ⟨right, fs, hright, hf, hnone | hmembers⟩ :=
            members_of_value last (depth + 1) t [] ts h
          · exact absurd rfl hnone.2.1
          · rw [hf]
            exact .parens ⟨hkind, htext⟩ (Nat.lt_of_not_le hdepth) hmembers hright
      · cases h
    | key =>
      rw [hkind] at h
      exact primary_of_readCondition (by rw [comparedField?, hkind]) h
    | value =>
      rw [hkind] at h
      dsimp only at h ⊢
      split at h
      · rename_i hoperator
        rw [if_pos hoperator]
        exact primary_of_readCondition (by rw [comparedField?, hkind]) h
      · cases h
    | _ =>
      rw [hkind] at h
      cases h
termination_by 5 * ts.length
decreasing_by
  simp only [List.length_cons]
  omega

theorem members_of_value (last : Position) (depth : Nat) (opening : Token) (members : List Filter)
    (ts : List Token) {f : Filter}
    (h : (readMembers last depth opening members ts).value = some f) :
    ∃ right fs, IsParen ")" right ∧ f = .ofMembers (members ++ fs) ∧
      ((fs = [] ∧ members ≠ [] ∧
          ts = right :: (readMembers last depth opening members ts).rest) ∨
        Members depth ts fs (right :: (readMembers last depth opening members ts).rest)) := by
  match ts, h with
  | [], h =>
    rw [readMembers_eq] at h
    cases h
  | t :: ts, h =>
    rw [readMembers_eq] at h ⊢
    dsimp only at h ⊢
    split at h
    · rename_i hright
      rw [if_pos hright]
      split at h
      · cases h
      · rename_i hmembers
        rw [if_neg hmembers]
        cases h
        refine ⟨t, [], hright, by rw [List.append_nil], .inl ⟨rfl, ?_, rfl⟩⟩
        rintro rfl
        exact hmembers rfl
    · rename_i hright
      split at h
      · cases h
      · rename_i hpipe
        rw [if_neg hright, if_neg hpipe]
        obtain ⟨member, hmember, hf, hrest⟩ := of_bind h
        have hlength := (shorter_readExpression last depth (t :: ts)).2 (by rw [hmember]; rfl)
        have hexpression := expression_of_value last depth (t :: ts) hmember
        obtain ⟨right, fs, hparen, hf', hfs⟩ :=
          members_of_value last depth opening (members ++ [member]) _ hf
        refine ⟨right, member :: fs, hparen, by rw [hf', List.append_assoc]; rfl, .inr ?_⟩
        rw [hrest]
        rcases hfs with ⟨rfl, -, hts⟩ | hmembers
        · rw [← hts]
          exact .one hexpression
        · exact .more hexpression hmembers
termination_by 5 * ts.length + 4
decreasing_by
  · simp only [List.length_cons]
    omega
  · simp only [List.length_cons] at *
    omega

end

/-! ## Queries -/

/-- Nothing more can be joined where a chain ends. -/
theorem Chain.ends {depth : Nat} {left f : Filter} {ts rest : List Token} :
    Chain depth left ts f rest → Ends rest
  | .done hends => hends
  | .link _ _ _ hchain => hchain.ends

theorem Expression.ends {depth : Nat} {f : Filter} {ts rest : List Token} :
    Expression depth ts f rest → Ends rest
  | .chain _ hchain => hchain.ends

/-- What follows a filter without a fatal fault is nothing, or starts with a pipe. -/
theorem startsTail_of_readTail {ts : List Token} (h : Outcome.isFatal (readTail ts).2 = false) :
    startsTail ts = true := by
  cases ts with
  | nil => rfl
  | cons t rest =>
    rw [readTail] at h
    split at h
    · rename_i hpipe
      exact decide_eq_true hpipe
    · split at h <;> cases h

/-- The filter of a query, if it has one, has a derivation at depth 0 up to the selected fields. -/
theorem expression_of_ofTokens {ts : List Token} {q : Query}
    (h : (Query.ofTokens ts).query = some q) :
    ∃ rest, startsTail rest = true ∧ q.select = (readTail rest).1 ∧
      ((q.filter = none ∧ rest = ts) ∨ ∃ f, q.filter = some f ∧ Expression 0 ts f rest) := by
  have hassemble : ∀ {filter faults us}, (Query.assemble filter faults us).query = some q →
      q.filter = filter ∧ startsTail us = true ∧ q.select = (readTail us).1 := by
    intro filter faults us hq
    unfold Query.assemble at hq
    dsimp only at hq
    split at hq
    · cases hq
    · rename_i hfatal
      cases hq
      rw [Bool.not_eq_true, Outcome.isFatal, List.any_append, Bool.or_eq_false_iff] at hfatal
      exact ⟨rfl, startsTail_of_readTail hfatal.2, rfl⟩
  unfold Query.ofTokens at h
  split at h
  · obtain ⟨hfilter, hstarts, hselect⟩ := hassemble h
    exact ⟨ts, hstarts, hselect, .inl ⟨hfilter, rfl⟩⟩
  · dsimp only at h
    split at h
    · cases h
    · rename_i f hvalue
      obtain ⟨hfilter, hstarts, hselect⟩ := hassemble h
      exact ⟨_, hstarts, hselect, .inr ⟨f, hfilter, expression_of_value _ _ _ hvalue⟩⟩

end LogQuery.Derivation
