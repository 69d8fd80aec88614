import LogQuery.Query.Outcome

/-!
# The grammar of queries

Which rows of tokens are queries, and which queries they are, as rules:

    query      := expression? (pipe field (comma field)*)?
    expression := primary (connective primary)*
    primary    := '(' expression+ ')' | field operator value

`and` and `or` are of one precedence, applied from left to right. In parentheses only the first
expression may start with a key. Every rule has the depth at which it stands: a parenthesis is one
deeper inside, and so is the rest of an expression from a connective on that does not extend the run
built so far; nothing stands deeper than `maxDepth`.

Reading a row of tokens finds no fault exactly if it is a query:

* `expression_of_readExpression` and its companions: what is read without fault follows the rules;
* `readExpression_of_expression` and its companions: what follows the rules is read as it should be,
  before anything that cannot go on with it.
-/

namespace LogQuery.Grammar

/-! ## Rules -/

/-- The field that a token names in front of an operator. -/
def comparedField? (t : Token) : Option Field :=
  match t.kind with
  | .key => some (.ofKey t.text)
  | .value => some (.simple t.text)
  | _ => none

/-- May the token stand after an operator? -/
def IsOperand (t : Token) : Prop := t.kind = .value ∨ t.kind = .key

/-- The parenthesis `text`. -/
def IsParen (text : String) (t : Token) : Prop := t.kind = .paren ∧ t.text = text

/-- A keyword for `op`, in any case. -/
def IsConnective (op : Connective) (t : Token) : Prop :=
  t.kind = .bool ∧ Connective.ofKeyword? t.text = some op

/-- The tokens start with a key. -/
def StartsWithKey (ts : List Token) : Prop := ∃ t ∈ ts.head?, t.kind = .key

mutual

/-- A condition, or a group in parentheses. -/
inductive Primary : Nat → List Token → Filter → Prop
  | condition {depth : Nat} {key operator value : Token} {field : Field} {comparison : Comparison}
      (hkey : comparedField? key = some field) (hkind : operator.kind = .operator)
      (hsymbol : Comparison.ofSymbol? operator.text = some comparison) (hvalue : IsOperand value) :
      Primary depth [key, operator, value]
        (.condition ⟨field, comparison, .ofText value.text value.quoted, value.quoted⟩)
  | parens {depth : Nat} {left right : Token} {ts : List Token} {members : List Filter}
      (hleft : IsParen "(" left) (hdepth : depth < maxDepth) (h : Members (depth + 1) ts members)
      (hright : IsParen ")" right) :
      Primary depth (left :: (ts ++ [right])) (.ofMembers members)

/-- The expressions in a pair of parentheses. -/
inductive Members : Nat → List Token → List Filter → Prop
  | one {depth : Nat} {ts : List Token} {f : Filter} (h : Expression depth ts f) :
      Members depth ts [f]
  | more {depth : Nat} {ts us : List Token} {f : Filter} {members : List Filter}
      (h : Expression depth ts f) (hrest : Members depth us members) (hkey : ¬ StartsWithKey us) :
      Members depth (ts ++ us) (f :: members)

/-- A primary and the connectives and primaries after it. -/
inductive Expression : Nat → List Token → Filter → Prop
  | chain {depth : Nat} {ts us : List Token} {left f : Filter} (h : Primary depth ts left)
      (hchain : Chain depth left us f) : Expression depth (ts ++ us) f

/-- What stands after the filter `left`, and the filter that the two make. -/
inductive Chain : Nat → Filter → List Token → Filter → Prop
  | done {depth : Nat} {left : Filter} : Chain depth left [] left
  | extend {depth : Nat} {left right f : Filter} {op : Connective} {t : Token}
      {ts us : List Token} (ht : IsConnective op t) (hrun : left.isRunOf op = true)
      (h : Primary depth ts right) (hchain : Chain depth (.join op left right) us f) :
      Chain depth left (t :: (ts ++ us)) f
  | deepen {depth : Nat} {left right f : Filter} {op : Connective} {t : Token}
      {ts us : List Token} (ht : IsConnective op t) (hrun : left.isRunOf op = false)
      (hdepth : depth < maxDepth) (h : Primary (depth + 1) ts right)
      (hchain : Chain (depth + 1) (.join op left right) us f) :
      Chain depth left (t :: (ts ++ us)) f

end

/-- The selected fields, with commas between them. -/
inductive Fields : List Token → List Field → Prop
  | one {t : Token} {field : Field} (h : selectedField? t = some field) : Fields [t] [field]
  | more {t comma : Token} {ts : List Token} {field : Field} {fields : List Field}
      (h : selectedField? t = some field) (hcomma : comma.kind = .comma) (hrest : Fields ts fields) :
      Fields (t :: comma :: ts) (field :: fields)

/-- The filter in front of a query, if there is one. -/
inductive Where : List Token → Option Filter → Prop
  | nothing : Where [] none
  | expression {ts : List Token} {f : Filter} (h : Expression 0 ts f) : Where ts (some f)

/-- The pipe at the end of a query and the fields after it, if there is one. -/
inductive Select : List Token → List Field → Prop
  | nothing : Select [] []
  | fields {pipe : Token} {ts : List Token} {fields : List Field} (hpipe : pipe.kind = .pipe)
      (h : Fields ts fields) : Select (pipe :: ts) fields

/-- A row of tokens that is a query. -/
inductive IsQuery : List Token → Query → Prop
  | mk {ts us : List Token} {filter : Option Filter} {select : List Field} (h : Where ts filter)
      (hselect : Select us select) : IsQuery (ts ++ us) ⟨filter, select⟩

/-! ## Readings without fault -/

/-- The tokens neither go on with a chain nor leave out its connective. -/
def Ends (ts : List Token) : Prop := ∀ t ∈ ts.head?, t.kind ≠ .bool ∧ t.kind ≠ .key

theorem bind_done {α β : Type} (a : α) (rest : List Token) (next : α → List Token → Reading β) :
    (Reading.done a rest).bind next = next a rest := by
  show (next a rest).after [] = next a rest
  rfl

theorem faults_of_bind {α β : Type} {r : Reading α} {next : α → List Token → Reading β}
    (h : (r.bind next).faults = []) : r.faults = [] := by
  unfold Reading.bind at h
  split at h
  · exact h
  · exact (List.append_eq_nil_iff.mp h).1

/-! ## What is read without fault follows the rules -/

/-- An operator and a value that are read without fault. -/
theorem of_readCondition {field : Field} {key : Token} {ts : List Token}
    (h : (readCondition field key ts).faults = []) :
    ∃ operator value rest comparison, ts = operator :: value :: rest ∧
      operator.kind = .operator ∧ Comparison.ofSymbol? operator.text = some comparison ∧
      IsOperand value ∧ readCondition field key ts =
        .done (.condition ⟨field, comparison, .ofText value.text value.quoted, value.quoted⟩)
          rest := by
  cases ts with
  | nil => cases h
  | cons operator ts =>
    rw [readCondition] at h ⊢
    split at h
    · rename_i hkind
      cases hsymbol : Comparison.ofSymbol? operator.text with
      | none =>
        rw [hsymbol] at h
        cases h
      | some comparison =>
        rw [hsymbol] at h
        cases ts with
        | nil => cases h
        | cons value rest =>
          dsimp only at h
          rw [readValue] at h
          split at h
          · rename_i hvalue
            refine ⟨operator, value, rest, comparison, rfl, hkind, hsymbol, hvalue, ?_⟩
            rw [if_pos hkind]
            dsimp only
            rw [readValue, if_pos hvalue]
          · cases h
    · cases h

/-- A field, an operator and a value that are read without fault are a condition. -/
theorem primary_of_readCondition {depth : Nat} {key : Token} {field : Field} {rest : List Token}
    (hkey : comparedField? key = some field) (h : (readCondition field key rest).faults = []) :
    ∃ used rest' f, key :: rest = used ++ rest' ∧ readCondition field key rest = .done f rest' ∧
      Primary depth used f := by
  obtain ⟨operator, value, rest', comparison, rfl, hkind, hsymbol, hvalue, hread⟩ :=
    of_readCondition h
  exact ⟨[key, operator, value], rest', _, rfl, hread, .condition hkey hkind hsymbol hvalue⟩

theorem length_lt_of_readPrimary {last : Position} {depth : Nat} {ts rest : List Token} {f : Filter}
    (h : readPrimary last depth ts = .done f rest) : rest.length < ts.length := by
  have hshorter := (shorter_readPrimary last depth ts).2
  rw [h] at hshorter
  exact hshorter rfl

theorem length_lt_of_readExpression {last : Position} {depth : Nat} {ts rest : List Token}
    {f : Filter} (h : readExpression last depth ts = .done f rest) : rest.length < ts.length := by
  have hshorter := (shorter_readExpression last depth ts).2
  rw [h] at hshorter
  exact hshorter rfl

mutual

theorem expression_of_readExpression (last : Position) (depth : Nat) (ts : List Token)
    (h : (readExpression last depth ts).faults = []) :
    ∃ used rest f, ts = used ++ rest ∧ readExpression last depth ts = .done f rest ∧
      Expression depth used f ∧ Ends rest := by
  rw [readExpression_eq] at h ⊢
  obtain ⟨used, rest, left, hts, hread, hprimary⟩ :=
    primary_of_readPrimary last depth ts (faults_of_bind h)
  have hlength := length_lt_of_readPrimary hread
  rw [hread, bind_done] at h ⊢
  obtain ⟨used', rest', f, hrest, hread', hchain, hends⟩ :=
    chain_of_readChain last depth left rest h
  refine ⟨used ++ used', rest', f, ?_, hread', .chain hprimary hchain, hends⟩
  rw [hts, hrest, List.append_assoc]
termination_by 5 * ts.length + 3
decreasing_by all_goals omega

theorem chain_of_readChain (last : Position) (depth : Nat) (left : Filter) (ts : List Token)
    (h : (readChain last depth left ts).faults = []) :
    ∃ used rest f, ts = used ++ rest ∧ readChain last depth left ts = .done f rest ∧
      Chain depth left used f ∧ Ends rest := by
  match ts, h with
  | [], _ => exact ⟨[], [], left, rfl, by rw [readChain_eq], .done, by simp [Ends]⟩
  | t :: ts, h =>
    rw [readChain_eq] at h ⊢
    dsimp only at h ⊢
    cases hkind : t.kind with
    | bool =>
      rw [hkind] at h
      dsimp only at h ⊢
      cases hop : Connective.ofKeyword? t.text with
      | none =>
        rw [hop] at h
        cases h
      | some op =>
        rw [hop] at h
        obtain ⟨used, rest, f, hts, hread, hchain, hends⟩ :=
          link_of_readLink last depth left op t.position ts h
        exact ⟨t :: used, rest, f, by rw [hts]; rfl, hread, hchain t ⟨hkind, hop⟩, hends⟩
    | key =>
      rw [hkind] at h
      cases (List.append_eq_nil_iff.mp h).1
    | _ => exact ⟨[], t :: ts, left, rfl, rfl, .done, by simp [Ends, hkind]⟩
termination_by 5 * ts.length + 2
decreasing_by
  simp only [List.length_cons]
  omega

theorem link_of_readLink (last : Position) (depth : Nat) (left : Filter) (op : Connective)
    (position : Position) (ts : List Token)
    (h : (readLink last depth left op position ts).faults = []) :
    ∃ used rest f, ts = used ++ rest ∧ readLink last depth left op position ts = .done f rest ∧
      (∀ t, IsConnective op t → Chain depth left (t :: used) f) ∧ Ends rest := by
  rw [readLink_eq] at h ⊢
  cases hrun : left.isRunOf op with
  | true =>
    rw [hrun, if_pos rfl] at h
    rw [if_pos rfl]
    obtain ⟨used, rest, right, hts, hread, hprimary⟩ :=
      primary_of_readPrimary last depth ts (faults_of_bind h)
    have hlength := length_lt_of_readPrimary hread
    rw [hread, bind_done] at h ⊢
    obtain ⟨used', rest', f, hrest, hread', hchain, hends⟩ :=
      chain_of_readChain last depth (.join op left right) rest h
    refine ⟨used ++ used', rest', f, ?_, hread', fun t ht => .extend ht hrun hprimary hchain, hends⟩
    rw [hts, hrest, List.append_assoc]
  | false =>
    rw [hrun, if_neg Bool.false_ne_true] at h
    rw [if_neg Bool.false_ne_true]
    split at h
    · cases h
    · rename_i hdepth
      rw [if_neg hdepth]
      obtain ⟨used, rest, right, hts, hread, hprimary⟩ :=
        primary_of_readPrimary last (depth + 1) ts (faults_of_bind h)
      have hlength := length_lt_of_readPrimary hread
      rw [hread, bind_done] at h ⊢
      obtain ⟨used', rest', f, hrest, hread', hchain, hends⟩ :=
        chain_of_readChain last (depth + 1) (.join op left right) rest h
      refine ⟨used ++ used', rest', f, ?_, hread',
        fun t ht => .deepen ht hrun (Nat.lt_of_not_le hdepth) hprimary hchain, hends⟩
      rw [hts, hrest, List.append_assoc]
termination_by 5 * ts.length + 1
decreasing_by all_goals omega

theorem primary_of_readPrimary (last : Position) (depth : Nat) (ts : List Token)
    (h : (readPrimary last depth ts).faults = []) :
    ∃ used rest f, ts = used ++ rest ∧ readPrimary last depth ts = .done f rest ∧
      Primary depth used f := by
  match ts, h with
  | [], h =>
    rw [readPrimary_eq] at h
    cases h
  | t :: ts, h =>
    rw [readPrimary_eq] at h ⊢
    dsimp only at h ⊢
    cases hkind : t.kind with
    | paren =>
      rw [hkind] at h
      dsimp only at h ⊢
      split at h
      · rename_i htext
        split at h
        · cases h
        · rename_i hdepth
          rw [if_pos htext, if_neg hdepth]
          obtain ⟨used, right, rest, fs, hts, hright, hread, hnone | hmembers⟩ :=
            members_of_readMembers last (depth + 1) t [] ts h
          · exact absurd rfl hnone.2.2
          · refine ⟨t :: (used ++ [right]), rest, .ofMembers fs, ?_, hread,
              .parens ⟨hkind, htext⟩ (Nat.lt_of_not_le hdepth) hmembers hright⟩
            rw [hts, List.cons_append, List.append_assoc]
            rfl
      · cases h
    | key =>
      rw [hkind] at h
      exact primary_of_readCondition (by rw [comparedField?, hkind]) h
    | value =>
      rw [hkind] at h
      dsimp only at h ⊢
      split at h
      · rename_i hoperator
        rw [if_pos hoperator]
        exact primary_of_readCondition (by rw [comparedField?, hkind]) h
      · cases h
    | _ =>
      rw [hkind] at h
      cases h
termination_by 5 * ts.length
decreasing_by
  simp only [List.length_cons]
  omega

theorem members_of_readMembers (last : Position) (depth : Nat) (opening : Token)
    (members : List Filter) (ts : List Token)
    (h : (readMembers last depth opening members ts).faults = []) :
    ∃ used right rest fs, ts = used ++ right :: rest ∧ IsParen ")" right ∧
      readMembers last depth opening members ts = .done (.ofMembers (members ++ fs)) rest ∧
      ((used = [] ∧ fs = [] ∧ members ≠ []) ∨ Members depth used fs) := by
  match ts, h with
  | [], h =>
    rw [readMembers_eq] at h
    cases h
  | t :: ts, h =>
    rw [readMembers_eq] at h ⊢
    dsimp only at h ⊢
    split at h
    · rename_i hright
      rw [if_pos hright]
      split at h
      · cases h
      · rename_i hmembers
        rw [if_neg hmembers]
        refine ⟨[], t, ts, [], rfl, hright, by rw [List.append_nil], .inl ⟨rfl, rfl, ?_⟩⟩
        rintro rfl
        exact hmembers rfl
    · rename_i hright
      split at h
      · cases h
      · rename_i hpipe
        rw [if_neg hright, if_neg hpipe]
        obtain ⟨used, rest, f, hts, hread, hexpression, hends⟩ :=
          expression_of_readExpression last depth (t :: ts) (faults_of_bind h)
        have hlength := length_lt_of_readExpression hread
        rw [hread, bind_done] at h ⊢
        obtain ⟨used', right, rest', fs, hrest, hright', hread', hmembers⟩ :=
          members_of_readMembers last depth opening (members ++ [f]) rest h
        refine ⟨used ++ used', right, rest', f :: fs, ?_, hright', ?_, .inr ?_⟩
        · rw [hts, hrest, List.append_assoc]
        · rw [hread', List.append_assoc]
          rfl
        · rcases hmembers with ⟨rfl, rfl, -⟩ | hmembers
          · rw [List.append_nil]
            exact .one hexpression
          · refine .more hexpression hmembers ?_
            -- What follows an expression is no key, and the further members start there.
            rintro ⟨k, hhead, hkey⟩
            refine (hends k ?_).2 hkey
            rw [hrest, List.head?_append]
            rw [Option.mem_def] at hhead
            rw [hhead]
            rfl
termination_by 5 * ts.length + 4
decreasing_by
  · omega
  · omega

end

/-! ## What follows the rules is read -/

/-- A condition or a parenthesis starts a primary. -/
def StartsPrimary (ts : List Token) : Prop :=
  ∃ t rest, ts = t :: rest ∧ (IsParen "(" t ∨ t.kind = .key ∨ t.kind = .value)

theorem StartsPrimary.append {ts : List Token} (h : StartsPrimary ts) (us : List Token) :
    StartsPrimary (ts ++ us) := by
  obtain ⟨t, rest, rfl, ht⟩ := h
  exact ⟨t, rest ++ us, rfl, ht⟩

theorem Primary.starts {depth : Nat} {ts : List Token} {f : Filter} (h : Primary depth ts f) :
    StartsPrimary ts := by
  cases h with
  | @condition _ key operator value field _ hkey _ _ _ =>
    refine ⟨key, [operator, value], rfl, .inr ?_⟩
    unfold comparedField? at hkey
    split at hkey
    · rename_i hkind
      exact .inl hkind
    · rename_i hkind
      exact .inr hkind
    · cases hkey
  | @parens _ left right ts _ hleft _ _ _ => exact ⟨left, ts ++ [right], rfl, .inl hleft⟩

theorem Expression.starts {depth : Nat} {ts : List Token} {f : Filter}
    (h : Expression depth ts f) : StartsPrimary ts := by
  obtain @⟨_, ts, us, _, _, hprimary, _⟩ := h
  exact hprimary.starts.append us

theorem Members.starts {depth : Nat} {ts : List Token} {members : List Filter}
    (h : Members depth ts members) : StartsPrimary ts := by
  cases h with
  | one h => exact h.starts
  | @more _ _ us _ _ h _ _ => exact h.starts.append us

/-- Further members do not go on with the expression before them. -/
theorem Members.ends {depth : Nat} {ts : List Token} {members : List Filter}
    (h : Members depth ts members) (hkey : ¬ StartsWithKey ts) (rest : List Token) :
    Ends (ts ++ rest) := by
  obtain ⟨t, ts, rfl, ht⟩ := h.starts
  have hne : t.kind ≠ .key := fun hk => hkey ⟨t, rfl, hk⟩
  intro u hu
  cases hu
  refine ⟨?_, hne⟩
  rcases ht with ht | ht | ht
  · rw [ht.1]
    decide
  · exact absurd ht hne
  · rw [ht]
    decide

theorem ends_of_isParen {t : Token} {text : String} (h : IsParen text t) (rest : List Token) :
    Ends (t :: rest) := by
  intro u hu
  cases hu
  rw [h.1]
  decide

theorem readCondition_of_rule (field : Field) (key : Token) {operator value : Token}
    {comparison : Comparison} (hkind : operator.kind = .operator)
    (hsymbol : Comparison.ofSymbol? operator.text = some comparison) (hvalue : IsOperand value)
    (rest : List Token) :
    readCondition field key (operator :: value :: rest) =
      .done (.condition ⟨field, comparison, .ofText value.text value.quoted, value.quoted⟩)
        rest := by
  rw [IsOperand] at hvalue
  rw [readCondition, if_pos hkind, hsymbol]
  dsimp only
  rw [readValue, if_pos hvalue]

/-- A token in front of an expression neither closes the group nor ends the filter. -/
theorem readMembers_of_starts (last : Position) (depth : Nat) (opening : Token)
    (members : List Filter) {ts : List Token} (h : StartsPrimary ts) :
    readMembers last depth opening members ts =
      (readExpression last depth ts).bind fun member =>
        readMembers last depth opening (members ++ [member]) := by
  obtain ⟨t, rest, rfl, ht⟩ := h
  have hright : ¬ (t.kind = .paren ∧ t.text = ")") := by
    rintro ⟨hkind, htext⟩
    rcases ht with ht | ht | ht
    · exact absurd (ht.2.symm.trans htext) (by decide)
    · rw [ht] at hkind
      cases hkind
    · rw [ht] at hkind
      cases hkind
  have hpipe : t.kind ≠ .pipe := by
    intro hkind
    rcases ht with ht | ht | ht
    · rw [ht.1] at hkind
      cases hkind
    · rw [ht] at hkind
      cases hkind
    · rw [ht] at hkind
      cases hkind
  rw [readMembers_eq]
  dsimp only
  rw [if_neg hright, if_neg hpipe]

theorem readMembers_closing (last : Position) (depth : Nat) (opening : Token)
    {members : List Filter} (hmembers : members ≠ []) {right : Token} (hright : IsParen ")" right)
    (rest : List Token) :
    readMembers last depth opening members (right :: rest) = .done (.ofMembers members) rest := by
  rw [IsParen] at hright
  rw [readMembers_eq]
  dsimp only
  rw [if_pos hright, if_neg (by simpa using hmembers)]

theorem readChain_ends (last : Position) (depth : Nat) (left : Filter) {rest : List Token}
    (h : Ends rest) : readChain last depth left rest = .done left rest := by
  rw [readChain_eq]
  cases rest with
  | nil => rfl
  | cons t rest =>
    obtain ⟨hbool, hkey⟩ := h t rfl
    dsimp only
    cases hkind : t.kind with
    | bool => exact absurd hkind hbool
    | key => exact absurd hkind hkey
    | _ => rfl

theorem readChain_connective (last : Position) (depth : Nat) (left : Filter) {op : Connective}
    {t : Token} (ht : IsConnective op t) (rest : List Token) :
    readChain last depth left (t :: rest) = readLink last depth left op t.position rest := by
  rw [readChain_eq]
  dsimp only
  rw [ht.1]
  dsimp only
  rw [ht.2]

mutual

theorem readPrimary_of_primary (last : Position) {depth : Nat} {ts : List Token} {f : Filter} :
    Primary depth ts f → ∀ rest, readPrimary last depth (ts ++ rest) = .done f rest
  | @Primary.condition depth key operator value field _ hkey hkind hsymbol hvalue, rest => by
    have hcondition := readCondition_of_rule field key hkind hsymbol hvalue rest
    show readPrimary last depth (key :: operator :: value :: rest) = _
    rw [readPrimary_eq]
    unfold comparedField? at hkey
    split at hkey
    · rename_i hkey'
      cases hkey
      dsimp only
      rw [hkey']
      exact hcondition
    · rename_i hkey'
      cases hkey
      dsimp only
      rw [hkey']
      dsimp only
      rw [if_pos (by simp [startsOperator, hkind])]
      exact hcondition
    · cases hkey
  | @Primary.parens depth left right ts members hleft hdepth h hright, rest => by
    have hmembers := readMembers_of_members last h left [] hright rest
    show readPrimary last depth (left :: ((ts ++ [right]) ++ rest)) = _
    rw [readPrimary_eq]
    dsimp only
    rw [hleft.1]
    dsimp only
    rw [if_pos hleft.2, if_neg (Nat.not_le_of_lt hdepth), List.append_assoc]
    exact hmembers

theorem readMembers_of_members (last : Position) {depth : Nat} {ts : List Token}
    {fs : List Filter} :
    Members depth ts fs → ∀ opening members {right}, IsParen ")" right → ∀ rest,
      readMembers last depth opening members (ts ++ right :: rest) =
        .done (.ofMembers (members ++ fs)) rest
  | .one h, opening, members, right, hright, rest => by
    rw [readMembers_of_starts last depth opening members (h.starts.append _),
      readExpression_of_expression last h (ends_of_isParen hright rest), bind_done,
      readMembers_closing last depth opening (by simp) hright]
  | .more h hrest hkey, opening, members, right, hright, rest => by
    rw [List.append_assoc,
      readMembers_of_starts last depth opening members (h.starts.append _),
      readExpression_of_expression last h (hrest.ends hkey _), bind_done,
      readMembers_of_members last hrest opening _ hright rest, List.append_assoc]
    rfl

theorem readExpression_of_expression (last : Position) {depth : Nat} {ts : List Token}
    {f : Filter} :
    Expression depth ts f → ∀ {rest}, Ends rest →
      readExpression last depth (ts ++ rest) = .done f rest
  | .chain h hchain, rest, hends => by
    rw [readExpression_eq, List.append_assoc, readPrimary_of_primary last h, bind_done,
      readChain_of_chain last hchain hends]

theorem readChain_of_chain (last : Position) {depth : Nat} {left : Filter} {ts : List Token}
    {f : Filter} :
    Chain depth left ts f → ∀ {rest}, Ends rest →
      readChain last depth left (ts ++ rest) = .done f rest
  | .done, rest, hends => readChain_ends last depth left hends
  | .extend ht hrun h hchain, rest, hends => by
    rw [List.cons_append, readChain_connective last depth left ht, readLink_eq, if_pos hrun,
      List.append_assoc, readPrimary_of_primary last h, bind_done,
      readChain_of_chain last hchain hends]
  | .deepen ht hrun hdepth h hchain, rest, hends => by
    rw [List.cons_append, readChain_connective last depth left ht, readLink_eq,
      if_neg (by rw [hrun]; decide), if_neg (Nat.not_le_of_lt hdepth), List.append_assoc,
      readPrimary_of_primary last h, bind_done, readChain_of_chain last hchain hends]

end

/-! ## Queries -/

/-- Selected fields that are read without fault follow the rules. -/
theorem fields_of_readSelect {separator : Token} {ts : List Token}
    (h : (readSelect separator ts).2 = []) : Fields ts (readSelect separator ts).1 := by
  fun_induction readSelect separator ts with
  | case1 => cases h
  | case2 => cases h
  | case3 _ t field hfield => exact .one hfield
  | case4 => cases h
  | case5 _ t comma rest field hfield hcomma r ih => exact .more hfield hcomma (ih h)
  | case6 => cases h

theorem readSelect_of_fields {ts : List Token} {fields : List Field} (h : Fields ts fields)
    (separator : Token) : readSelect separator ts = (fields, []) := by
  induction h generalizing separator with
  | one h => simp [readSelect, h]
  | more h hcomma hrest ih => simp [readSelect, h, hcomma, ih]

theorem select_of_readTail {ts : List Token} (h : (readTail ts).2 = []) :
    Select ts (readTail ts).1 := by
  cases ts with
  | nil => exact .nothing
  | cons t rest =>
    rw [readTail] at h ⊢
    split at h
    · rename_i hpipe
      rw [if_pos hpipe]
      exact .fields hpipe (fields_of_readSelect h)
    · split at h <;> cases h

theorem readTail_of_select {ts : List Token} {fields : List Field} (h : Select ts fields) :
    readTail ts = (fields, []) := by
  cases h with
  | nothing => rfl
  | fields hpipe h => rw [readTail, if_pos hpipe, readSelect_of_fields h]

/-- A pipe does not go on with an expression. -/
theorem Select.ends {ts : List Token} {fields : List Field} (h : Select ts fields) : Ends ts := by
  cases h with
  | nothing => simp [Ends]
  | fields hpipe h => simp [Ends, hpipe]

theorem assemble_of_select (filter : Option Filter) {ts : List Token} {fields : List Field}
    (h : Select ts fields) : Query.assemble filter [] ts = ⟨some ⟨filter, fields⟩, []⟩ := by
  rw [Query.assemble, readTail_of_select h]
  rfl

/-- What is assembled without fault has a tail that follows the rules. -/
theorem select_of_assemble {filter : Option Filter} {faults : List (Located SyntaxFault)}
    {ts : List Token} (h : (Query.assemble filter faults ts).faults = []) :
    faults = [] ∧ ∃ fields, Select ts fields :=
  have h' := List.append_eq_nil_iff.mp h
  ⟨h'.1, _, select_of_readTail h'.2⟩

theorem faults_of_ofTokens {ts : List Token} (hstarts : startsTail ts = false)
    (h : (Query.ofTokens ts).faults = []) :
    (readExpression (lastPosition ts) 0 ts).faults = [] := by
  rw [Query.ofTokens, hstarts, if_neg Bool.false_ne_true] at h
  dsimp only at h
  split at h
  · exact (List.append_eq_nil_iff.mp h).1
  · exact (select_of_assemble h).1

theorem ofTokens_of_done {ts rest : List Token} {f : Filter} (hstarts : startsTail ts = false)
    (h : readExpression (lastPosition ts) 0 ts = .done f rest) :
    Query.ofTokens ts = Query.assemble (some f) [] rest := by
  rw [Query.ofTokens, hstarts, if_neg Bool.false_ne_true]
  dsimp only
  rw [h]
  rfl

/-- What is read without fault is a query by the rules. -/
theorem isQuery_of_ofTokens {ts : List Token} (h : (Query.ofTokens ts).faults = []) :
    ∃ q, IsQuery ts q := by
  cases hstarts : startsTail ts with
  | true =>
    rw [Query.ofTokens, if_pos hstarts] at h
    obtain ⟨-, fields, hselect⟩ := select_of_assemble h
    exact ⟨⟨none, fields⟩, .mk .nothing hselect⟩
  | false =>
    obtain ⟨used, rest, f, hts, hread, hexpression, -⟩ :=
      expression_of_readExpression _ _ ts (faults_of_ofTokens hstarts h)
    rw [ofTokens_of_done hstarts hread] at h
    obtain ⟨-, fields, hselect⟩ := select_of_assemble h
    rw [hts]
    exact ⟨⟨some f, fields⟩, .mk (.expression hexpression) hselect⟩

theorem startsTail_of_select {ts : List Token} {fields : List Field} (h : Select ts fields) :
    startsTail ts = true := by
  cases h with
  | nothing => rfl
  | fields hpipe _ => exact decide_eq_true hpipe

theorem startsTail_of_starts {ts : List Token} (h : StartsPrimary ts) : startsTail ts = false := by
  obtain ⟨t, rest, rfl, ht⟩ := h
  rw [startsTail, decide_eq_false_iff_not]
  intro hpipe
  rcases ht with ht | ht | ht
  · exact absurd (ht.1.symm.trans hpipe) (by decide)
  · exact absurd (ht.symm.trans hpipe) (by decide)
  · exact absurd (ht.symm.trans hpipe) (by decide)

/-- A query by the rules is read as it is. -/
theorem ofTokens_of_isQuery {ts : List Token} {q : Query} (h : IsQuery ts q) :
    Query.ofTokens ts = ⟨some q, []⟩ := by
  obtain @⟨ts, us, _, _, hwhere, hselect⟩ := h
  cases hwhere with
  | nothing =>
    rw [List.nil_append, Query.ofTokens, if_pos (startsTail_of_select hselect)]
    exact assemble_of_select none hselect
  | expression hexpression =>
    have hread := readExpression_of_expression (lastPosition (ts ++ us)) hexpression hselect.ends
    rw [ofTokens_of_done (startsTail_of_starts (hexpression.starts.append us)) hread]
    exact assemble_of_select _ hselect

/-- Reading a row of tokens finds no fault exactly if the tokens are a query by the rules, and gives
the query that the rules give. -/
theorem faults_eq_nil_iff (ts : List Token) :
    ((Query.ofTokens ts).faults = [] ↔ ∃ q, IsQuery ts q) ∧
      ∀ q, Query.ofTokens ts = ⟨some q, []⟩ ↔ IsQuery ts q := by
  have hcomplete : ∀ {q}, IsQuery ts q → Query.ofTokens ts = ⟨some q, []⟩ := ofTokens_of_isQuery
  refine ⟨⟨isQuery_of_ofTokens, ?_⟩, fun q => ⟨fun h => ?_, hcomplete⟩⟩
  · rintro ⟨q, hq⟩
    rw [hcomplete hq]
  · obtain ⟨q', hq'⟩ := isQuery_of_ofTokens (congrArg Outcome.faults h)
    have heq := (hcomplete hq').symm.trans h
    cases heq
    exact hq'

end LogQuery.Grammar
