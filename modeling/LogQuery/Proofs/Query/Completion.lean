import LogQuery.Proofs.Query.Derivation
import LogQuery.Proofs.Query.Verdict

/-!
# Connectives that are left out

Where a key follows a complete condition, `and` is understood: the one fault that is not fatal. A
row of tokens with such gaps is read as the same row with `and` in every gap, which has no fault:

* `completes_readExpression` and its companions: what is read has faults at its gaps only, and once
  these are filled it follows the rules of the grammar for the same filter;
* `completes_ofTokens`: the same for whole queries.
-/

namespace LogQuery

open Grammar

/-! ## Tokens with gaps between them -/

/-- A token, and whether a connective is left out in front of it. -/
structure Spot where
  token : Token
  isGap : Bool
  /-- Only in front of a key a connective may be left out. -/
  kind_of_isGap : isGap = true → token.kind = .key

namespace Spot

/-- A token without a gap in front of it. -/
def plain (t : Token) : Spot := ⟨t, false, nofun⟩

/-- What is reported where a connective is left out. -/
def fault (s : Spot) : Located SyntaxFault := ⟨.missingConnective s.token.text, s.token.position⟩

/-- The tokens as they stand. -/
def tokens (spots : List Spot) : List Token := spots.map token

/-- What is reported at the gaps, from left to right. -/
def faults (spots : List Spot) : List (Located SyntaxFault) := (spots.filter isGap).map fault

/-- The keyword `and` as a token. -/
def andAt (p : Position) : Token := ⟨.bool, "and", p, false⟩

/-- The tokens with `and` in every gap. The one in front of the token with the number `i` stands at
`place i`; the first token has the number `n`. -/
def filled (place : Nat → Position) (n : Nat) : List Spot → List Token
  | [] => []
  | s :: spots =>
    (if s.isGap then [andAt (place n), s.token] else [s.token]) ++ filled place (n + 1) spots

theorem tokens_append (as bs : List Spot) : tokens (as ++ bs) = tokens as ++ tokens bs :=
  List.map_append

theorem faults_append (as bs : List Spot) : faults (as ++ bs) = faults as ++ faults bs := by
  rw [faults, List.filter_append, List.map_append]
  rfl

theorem filled_append (place : Nat → Position) (n : Nat) (as bs : List Spot) :
    filled place n (as ++ bs) = filled place n as ++ filled place (n + as.length) bs := by
  induction as generalizing n with
  | nil => rfl
  | cons s as ih =>
    rw [List.cons_append, filled, filled, ih, List.append_assoc, List.length_cons,
      Nat.add_right_comm, Nat.add_assoc]

theorem tokens_plain (ts : List Token) : tokens (ts.map plain) = ts := by
  rw [tokens, List.map_map]
  exact List.map_id ts

theorem faults_plain (ts : List Token) : faults (ts.map plain) = [] := by
  rw [faults, List.map_eq_nil_iff, List.filter_eq_nil_iff]
  intro s hs
  obtain ⟨t, -, rfl⟩ := List.mem_map.mp hs
  exact Bool.false_ne_true

theorem filled_plain (place : Nat → Position) (n : Nat) (ts : List Token) :
    filled place n (ts.map plain) = ts := by
  induction ts generalizing n with
  | nil => rfl
  | cons t ts ih => rw [List.map_cons, filled, ih]; rfl

theorem isConnective_andAt (p : Position) : IsConnective .and (andAt p) :=
  ⟨rfl, (by decide : Connective.ofKeyword? "and" = some .and)⟩

end Spot

/-! ## Readings with gaps -/

/-- From the tokens `ts` to `rest`, the faults are those of gaps, and once these are filled the tokens
have the property `G`. -/
def Completes (ts rest : List Token) (faults : List (Located SyntaxFault))
    (G : List Token → Prop) : Prop :=
  ∃ spots, ts = Spot.tokens spots ++ rest ∧ faults = Spot.faults spots ∧
    ∀ place n, G (Spot.filled place n spots)

section

variable {ts mid rest : List Token} {faults faults' : List (Located SyntaxFault)}
  {G H : List Token → Prop}

theorem Completes.mono (h : Completes ts rest faults G) (hG : ∀ us, G us → H us) :
    Completes ts rest faults H := by
  obtain ⟨spots, hts, hfaults, hfilled⟩ := h
  exact ⟨spots, hts, hfaults, fun place n => hG _ (hfilled place n)⟩

/-- Rows side by side are completed one by one. -/
theorem Completes.append (h : Completes ts mid faults G) (h' : Completes mid rest faults' H) :
    Completes ts rest (faults ++ faults') fun us => ∃ vs ws, us = vs ++ ws ∧ G vs ∧ H ws := by
  obtain ⟨spots, rfl, rfl, hfilled⟩ := h
  obtain ⟨spots', rfl, rfl, hfilled'⟩ := h'
  refine ⟨spots ++ spots', ?_, (Spot.faults_append spots spots').symm, fun place n => ?_⟩
  · rw [Spot.tokens_append, List.append_assoc]
  · exact ⟨_, _, Spot.filled_append place n spots spots', hfilled place n, hfilled' place _⟩

/-- Tokens without gaps are complete. -/
theorem completes_plain (us rest : List Token) : Completes (us ++ rest) rest [] (· = us) :=
  ⟨us.map .plain, by rw [Spot.tokens_plain], (Spot.faults_plain us).symm,
    fun place n => Spot.filled_plain place n us⟩

/-- In front of a key that starts a primary, a connective may be left out. -/
theorem Completes.gap {t : Token} (ht : t.kind = .key) (h : Completes (t :: ts) rest faults G)
    (hstarts : ∀ us, G us → StartsPrimary us) :
    Completes (t :: ts) rest (⟨.missingConnective t.text, t.position⟩ :: faults)
      fun us => ∃ p vs, us = Spot.andAt p :: vs ∧ G vs := by
  obtain ⟨spots, hts, rfl, hfilled⟩ := h
  cases spots with
  | nil =>
    obtain ⟨_, _, hnil, -⟩ := hstarts _ (hfilled (fun _ => .start) 0)
    cases hnil
  | cons s spots =>
    obtain ⟨token, isGap, hgap⟩ := s
    obtain ⟨rfl, hts⟩ := List.cons.inj hts
    cases isGap with
    | true =>
      -- what starts a primary is no connective
      obtain ⟨u, us, heq, hu⟩ := hstarts _ (hfilled (fun _ => .start) 0)
      obtain ⟨rfl, -⟩ := List.cons.inj heq
      rcases hu with hu | hu | hu
      · cases hu.1
      · cases hu
      · cases hu
    | false =>
      refine ⟨⟨t, true, fun _ => ht⟩ :: spots, ?_, rfl, fun place n => ?_⟩
      · rw [hts]
        rfl
      · exact ⟨place n, _, rfl, hfilled place n⟩

/-- Filling gaps puts no key in front. -/
theorem Completes.ends (h : Completes ts rest faults G) (hends : Ends ts) :
    Completes ts rest faults fun us => G us ∧ ¬ StartsWithKey us := by
  obtain ⟨spots, rfl, rfl, hfilled⟩ := h
  refine ⟨spots, rfl, rfl, fun place n => ⟨hfilled place n, ?_⟩⟩
  rintro ⟨u, hu, hkey⟩
  cases spots with
  | nil => cases hu
  | cons s spots =>
    have hne := (hends s.token rfl).2
    rw [Spot.filled, if_neg fun hgap => hne (s.kind_of_isGap hgap)] at hu
    cases hu
    exact hne hkey

end

/-- What is read after a complete reading is completed after it. -/
theorem completes_bind {α β : Type} {r : Reading α} {next : α → List Token → Reading β}
    {ts : List Token} {b : β} {G : α → List Token → Prop} {H : List Token → Prop}
    (h : (r.bind next).value = some b)
    (hr : ∀ a, r.value = some a → Completes ts r.rest r.faults (G a))
    (hnext : ∀ a, r.value = some a → (next a r.rest).value = some b →
      Completes r.rest (next a r.rest).rest (next a r.rest).faults
        fun ws => ∀ vs, G a vs → H (vs ++ ws)) :
    Completes ts (r.bind next).rest (r.bind next).faults H := by
  obtain ⟨a, ha, hb, hrest⟩ := Derivation.of_bind h
  have hfaults : (r.bind next).faults = r.faults ++ (next a r.rest).faults := by
    unfold Reading.bind
    rw [ha]
    rfl
  rw [hrest, hfaults]
  refine ((hr a ha).append (hnext a ha hb)).mono ?_
  rintro us ⟨vs, ws, rfl, hvs, hws⟩
  exact hws vs hvs

theorem faults_of_readCondition {field : Field} {key : Token} {ts : List Token} {f : Filter}
    (h : (readCondition field key ts).value = some f) :
    (readCondition field key ts).faults = [] := by
  cases ts with
  | nil => cases h
  | cons operator ts =>
    rw [readCondition] at h ⊢
    split
    · rename_i hkind
      rw [if_pos hkind] at h
      cases hsymbol : Comparison.ofSymbol? operator.text with
      | none =>
        rw [hsymbol] at h
        cases h
      | some comparison =>
        rw [hsymbol] at h
        dsimp only at h ⊢
        cases ts with
        | nil => cases h
        | cons value rest =>
          rw [readValue] at h ⊢
          split
          · rfl
          · rename_i hvalue
            rw [if_neg hvalue] at h
            cases h
    · rename_i hkind
      rw [if_neg hkind] at h
      cases h

/-- A condition that is read has no gaps. -/
theorem completes_readCondition {key : Token} {field : Field} {ts : List Token} {f : Filter}
    (hkey : comparedField? key = some field) (h : (readCondition field key ts).value = some f)
    (depth : Nat) :
    Completes (key :: ts) (readCondition field key ts).rest (readCondition field key ts).faults
      (Primary depth · f) := by
  obtain ⟨used, rest, f', hts, hread, hprimary⟩ :=
    primary_of_readCondition hkey (faults_of_readCondition h)
  rw [hread] at h ⊢
  cases h
  rw [hts]
  exact (completes_plain used rest).mono fun us hus => hus ▸ hprimary

mutual

theorem completes_readExpression (last : Position) (depth : Nat) (ts : List Token) {f : Filter}
    (h : (readExpression last depth ts).value = some f) :
    Completes ts (readExpression last depth ts).rest (readExpression last depth ts).faults
      (Expression depth · f) := by
  rw [readExpression_eq] at h ⊢
  refine completes_bind h (fun left hleft => completes_readPrimary last depth ts hleft)
    fun left hleft hf => ?_
  have hlength := Derivation.length_lt_of_value hleft
  exact (completes_readChain last depth left _ hf).mono fun ws hws vs hvs => .chain hvs hws
termination_by 5 * ts.length + 3
decreasing_by all_goals omega

theorem completes_readChain (last : Position) (depth : Nat) (left : Filter) (ts : List Token)
    {f : Filter} (h : (readChain last depth left ts).value = some f) :
    Completes ts (readChain last depth left ts).rest (readChain last depth left ts).faults
      (Chain depth left · f) := by
  match ts, h with
  | [], h =>
    rw [readChain_eq] at h ⊢
    cases h
    exact (completes_plain [] []).mono fun us hus => hus ▸ .done
  | t :: ts, h =>
    rw [readChain_eq] at h ⊢
    dsimp only at h ⊢
    cases hkind : t.kind with
    | bool =>
      rw [hkind] at h
      dsimp only at h ⊢
      cases hop : Connective.ofKeyword? t.text with
      | none =>
        rw [hop] at h
        cases h
      | some op =>
        rw [hop] at h
        have hlink := completes_readLink last depth left op t.position ts h
        refine ((completes_plain [t] ts).append hlink).mono ?_
        rintro us ⟨vs, ws, rfl, rfl, -, hchain⟩
        exact hchain t ⟨hkind, hop⟩
    | key =>
      rw [hkind] at h
      have hlink := completes_readLink last depth left .and t.position (t :: ts) h
      refine (hlink.gap hkind fun us hus => hus.1).mono ?_
      rintro us ⟨p, vs, rfl, -, hchain⟩
      exact hchain _ (Spot.isConnective_andAt p)
    | _ =>
      rw [hkind] at h
      cases h
      exact (completes_plain [] _).mono fun us hus => hus ▸ .done
termination_by 5 * ts.length + 2
decreasing_by
  all_goals
    simp only [List.length_cons]
    omega

theorem completes_readLink (last : Position) (depth : Nat) (left : Filter) (op : Connective)
    (position : Position) (ts : List Token) {f : Filter}
    (h : (readLink last depth left op position ts).value = some f) :
    Completes ts (readLink last depth left op position ts).rest
      (readLink last depth left op position ts).faults
      fun us => StartsPrimary us ∧ ∀ t, IsConnective op t → Chain depth left (t :: us) f := by
  rw [readLink_eq] at h ⊢
  cases hrun : left.isRunOf op with
  | true =>
    rw [hrun, if_pos rfl] at h
    rw [if_pos rfl]
    refine completes_bind h (fun right hright => completes_readPrimary last depth ts hright)
      fun right hright hf => ?_
    have hlength := Derivation.length_lt_of_value hright
    refine (completes_readChain last depth (.join op left right) _ hf).mono fun ws hws vs hvs => ?_
    exact ⟨hvs.starts.append ws, fun t ht => .extend ht hrun hvs hws⟩
  | false =>
    rw [hrun, if_neg Bool.false_ne_true] at h
    rw [if_neg Bool.false_ne_true]
    split at h
    · cases h
    · rename_i hmax
      rw [if_neg hmax]
      refine completes_bind h
        (fun right hright => completes_readPrimary last (depth + 1) ts hright)
        fun right hright hf => ?_
      have hlength := Derivation.length_lt_of_value hright
      refine (completes_readChain last (depth + 1) (.join op left right) _ hf).mono
        fun ws hws vs hvs => ?_
      exact ⟨hvs.starts.append ws,
        fun t ht => .deepen ht hrun (Nat.lt_of_not_le hmax) hvs hws⟩
termination_by 5 * ts.length + 1
decreasing_by all_goals omega

theorem completes_readPrimary (last : Position) (depth : Nat) (ts : List Token) {f : Filter}
    (h : (readPrimary last depth ts).value = some f) :
    Completes ts (readPrimary last depth ts).rest (readPrimary last depth ts).faults
      (Primary depth · f) := by
  match ts, h with
  | [], h =>
    rw [readPrimary_eq] at h
    cases h
  | t :: ts, h =>
    rw [readPrimary_eq] at h ⊢
    dsimp only at h ⊢
    cases hkind : t.kind with
    | paren =>
      rw [hkind] at h
      dsimp only at h ⊢
      split at h
      · rename_i htext
        split at h
        · cases h
        · rename_i hmax
          rw [if_pos htext, if_neg hmax]
          have hmembers := completes_readMembers last (depth + 1) t [] ts h
          refine ((completes_plain [t] ts).append hmembers).mono ?_
          rintro us ⟨vs, ws, rfl, rfl, fs, inner, right, rfl, rfl, hright, hnone | hfs⟩
          · exact absurd rfl hnone.2.2
          · exact .parens ⟨hkind, htext⟩ (Nat.lt_of_not_le hmax) hfs hright
      · cases h
    | key =>
      rw [hkind] at h
      exact completes_readCondition (by rw [comparedField?, hkind]) h depth
    | value =>
      rw [hkind] at h
      dsimp only at h ⊢
      split at h
      · rename_i hoperator
        rw [if_pos hoperator]
        exact completes_readCondition (by rw [comparedField?, hkind]) h depth
      · cases h
    | _ =>
      rw [hkind] at h
      cases h
termination_by 5 * ts.length
decreasing_by
  simp only [List.length_cons]
  omega

/-- The members of a group after the first ones, and its closing parenthesis. -/
theorem completes_readMembers (last : Position) (depth : Nat) (opening : Token)
    (members : List Filter) (ts : List Token) {f : Filter}
    (h : (readMembers last depth opening members ts).value = some f) :
    Completes ts (readMembers last depth opening members ts).rest
      (readMembers last depth opening members ts).faults
      fun us => ∃ fs inner right, f = .ofMembers (members ++ fs) ∧ us = inner ++ [right] ∧
        IsParen ")" right ∧
        ((inner = [] ∧ fs = [] ∧ members ≠ []) ∨ Members depth inner fs) := by
  match ts, h with
  | [], h =>
    rw [readMembers_eq] at h
    cases h
  | t :: ts, h =>
    rw [readMembers_eq] at h ⊢
    dsimp only at h ⊢
    split at h
    · rename_i hright
      rw [if_pos hright]
      split at h
      · cases h
      · rename_i hmembers
        rw [if_neg hmembers]
        cases h
        refine (completes_plain [t] ts).mono ?_
        rintro us rfl
        refine ⟨[], [], t, by rw [List.append_nil], rfl, hright, .inl ⟨rfl, rfl, ?_⟩⟩
        rintro rfl
        exact hmembers rfl
    · rename_i hright
      split at h
      · cases h
      · rename_i hpipe
        rw [if_neg hright, if_neg hpipe]
        refine completes_bind h
          (fun member hmember => completes_readExpression last depth (t :: ts) hmember)
          fun member hmember hf => ?_
        have hlength := (shorter_readExpression last depth (t :: ts)).2 (by rw [hmember]; rfl)
        have hends := (Derivation.expression_of_value last depth (t :: ts) hmember).ends
        have hrest := completes_readMembers last depth opening (members ++ [member]) _ hf
        -- What follows an expression is no key, and filling gaps does not put one there.
        refine (hrest.ends hends).mono ?_
        rintro ws ⟨⟨fs, inner, right, rfl, rfl, hright', hfs⟩, hkey⟩ vs hvs
        refine ⟨member :: fs, vs ++ inner, right, by rw [List.append_assoc]; rfl,
          (List.append_assoc vs inner [right]).symm, hright', .inr ?_⟩
        rcases hfs with ⟨rfl, rfl, -⟩ | hfs
        · rw [List.append_nil]
          exact .one hvs
        · refine .more hvs hfs fun ⟨k, hk, hkind⟩ => hkey ⟨k, ?_, hkind⟩
          rw [List.head?_append, Option.mem_def.mp hk]
          rfl
termination_by 5 * ts.length + 4
decreasing_by
  all_goals
    simp only [List.length_cons] at *
    omega

end

/-! ## Queries -/

/-- A query has a tail by the rules, and its faults are those in front of the tail. -/
theorem select_of_query {filter : Option Filter} {faults : List (Located SyntaxFault)}
    {ts : List Token} {q : Query} (h : (Query.assemble filter faults ts).query = some q) :
    q.filter = filter ∧ Select ts q.select ∧ (Query.assemble filter faults ts).faults = faults := by
  unfold Query.assemble at h ⊢
  dsimp only at h ⊢
  split at h
  · cases h
  · rename_i hfatal
    cases h
    rw [Bool.not_eq_true, Outcome.isFatal_append, Bool.or_eq_false_iff] at hfatal
    have htail := faults_of_readTail hfatal.2
    exact ⟨rfl, select_of_readTail htail, by rw [htail, List.append_nil]⟩

/-- A row of tokens that has a query has faults at its gaps only, and once these are filled it is the
same query by the rules. -/
theorem completes_ofTokens {ts : List Token} {q : Query}
    (h : (Query.ofTokens ts).query = some q) :
    Completes ts [] (Query.ofTokens ts).faults (IsQuery · q) := by
  unfold Query.ofTokens at h ⊢
  split at h
  · rename_i hstarts
    obtain ⟨hfilter, hselect, hfaults⟩ := select_of_query h
    rw [if_pos hstarts, hfaults]
    have hplain := completes_plain ts []
    rw [List.append_nil] at hplain
    refine hplain.mono ?_
    rintro us rfl
    obtain ⟨filter, select⟩ := q
    cases hfilter
    exact .mk .nothing hselect
  · rename_i hstarts
    rw [if_neg hstarts]
    dsimp only at h ⊢
    cases hvalue : (readExpression (lastPosition ts) 0 ts).value with
    | none =>
      rw [hvalue] at h
      cases h
    | some f =>
      rw [hvalue] at h
      dsimp only at h ⊢
      obtain ⟨hfilter, hselect, hfaults⟩ := select_of_query h
      have hplain := completes_plain (readExpression (lastPosition ts) 0 ts).rest []
      rw [List.append_nil] at hplain
      have hall := (completes_readExpression _ _ ts hvalue).append hplain
      rw [List.append_nil] at hall
      rw [hfaults]
      refine hall.mono ?_
      rintro us ⟨vs, ws, rfl, hexpression, rfl⟩
      obtain ⟨filter, select⟩ := q
      cases hfilter
      exact .mk (.expression hexpression) hselect

/-- A row of tokens without a fatal fault has a query, and its faults are those of its gaps: keys that
follow a complete condition. With `and` in every gap, wherever that is said to stand, the tokens have
no fault and the same query. -/
theorem Query.ofTokens_filled (ts : List Token) (h : (Query.ofTokens ts).hasFatal = false) :
    ∃ spots q, Spot.tokens spots = ts ∧ (Query.ofTokens ts).query = some q ∧
      (Query.ofTokens ts).faults = Spot.faults spots ∧
      ∀ place, Query.ofTokens (Spot.filled place 0 spots) = ⟨some q, []⟩ := by
  rw [← Query.isNone_ofTokens, Option.isNone_eq_false_iff, Option.isSome_iff_exists] at h
  obtain ⟨q, hq⟩ := h
  obtain ⟨spots, hts, hfaults, hfilled⟩ := completes_ofTokens hq
  rw [List.append_nil] at hts
  exact ⟨spots, q, hts.symm, hq, hfaults, fun place => ofTokens_of_isQuery (hfilled place 0)⟩

/-- Three connectives are left out: one in a run of `and` and `or`, one in the second expression of a
group, and one after the group. -/
theorem Query.ofTokens_filled_grouped :
    let ts := (tokenize "(a = 1 b = 2 or c = 3 'd' = 4 e = 5) f = 6 | x").tokens
    (Query.ofTokens ts).hasFatal = false ∧
    (Query.ofTokens ts).faults.map (·.value) =
      [.missingConnective "b", .missingConnective "e", .missingConnective "f"] ∧
    ∃ spots q, Spot.tokens spots = ts ∧ (Query.ofTokens ts).query = some q ∧
      (Query.ofTokens ts).faults = Spot.faults spots ∧
      ∀ place, Query.ofTokens (Spot.filled place 0 spots) = ⟨some q, []⟩ := by
  intro ts
  have hfatal : (Query.ofTokens ts).hasFatal = false := by decide +kernel
  exact ⟨hfatal, by decide +kernel, Query.ofTokens_filled ts hfatal⟩

end LogQuery
