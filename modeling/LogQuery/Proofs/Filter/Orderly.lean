import LogQuery.Proofs.Filter.Row

/-!
# Orderly filters

A group puts no parentheses around its members, so that one which joins its children by `or` loses the
first of them to the `and` in front of it: of `x` and `a or b`, side by side in parentheses, there
remains `(x and a or b)`, and that is `x and a`, or `b`. In front of the group's first member stands
nothing, and all other children are in parentheses where they need them.

* `printedHolds_of_holds`: what is printed holds wherever the filter does;
* `printedHolds_of_isOrderly`: it says the same if in every group only the first member joins its
  children by `or`;
* `exists_of_isOrderly`: otherwise it holds where the filter does not.
-/

namespace LogQuery.Filter

/-! ## The truth of a printed filter -/

/-- The truth of a filter as it is printed. -/
def printedHolds (v : Nat → Bool) (n : Nat) (f : Filter) : Bool := Row.holds v n (f.row .and)

/-- The truth of several printed filters joined by `op`. -/
def printedJoined (v : Nat → Bool) (op : Connective) (n : Nat) : List Filter → Bool
  | [] => op.unit
  | child :: rest =>
    op.apply (child.printedHolds v n) (printedJoined v op (n + child.conditions.length) rest)

theorem length_conditions_row (op : Connective) (f : Filter) :
    (Row.conditions (f.row op)).length = f.conditions.length := by
  rw [conditions_row, List.length_map]

/-- A printed filter after `and` and `true`. -/
theorem holdsAfter_true (v : Nat → Bool) (n : Nat) {f : Filter} (hf : f.isFilled = true) :
    Row.holdsAfter v n true (f.row .and) = f.printedHolds v n := by
  obtain ⟨o, rest, hrow⟩ := exists_row hf
  rw [printedHolds, hrow]
  rfl

theorem length_conditions_rowChild (enclosed : Bool) (op : Connective) (child : Filter) :
    (Row.conditions (rowChild enclosed op child)).length = child.conditions.length := by
  cases enclosed with
  | true =>
    show (Row.conditions (child.row .and) ++ []).length = _
    rw [List.append_nil, length_conditions_row]
  | false => exact length_conditions_row op child

/-- The first of several filters stands at the front of their row. -/
theorem holds_rowJoined (v : Nat → Bool) (n : Nat) (enclosed : Filter → Bool)
    (separator : Connective) {child : Filter} (hchild : child.isFilled = true)
    (rest : List Filter) :
    Row.holds v n (rowJoined enclosed separator .and (child :: rest)) =
      Row.holdsAfter v (n + child.conditions.length) (child.printedHolds v n)
        (rowJoined enclosed separator separator rest) := by
  have hfront : ∃ o tail, rowChild (enclosed child) .and child = (.and, o) :: tail ∧
      Row.holds v n (rowChild (enclosed child) .and child) = child.printedHolds v n := by
    obtain ⟨o, tail, hrow⟩ := exists_row hchild
    cases enclosed child with
    | true => exact ⟨_, _, rfl, rfl⟩
    | false => exact ⟨o, tail, hrow .and, rfl⟩
  obtain ⟨o, tail, hrow, hholds⟩ := hfront
  rw [← hholds, ← length_conditions_rowChild (enclosed child) .and child, rowJoined_cons, hrow,
    List.cons_append, Row.holds_eq_holdsAfter, Row.holds_eq_holdsAfter, ← List.cons_append,
    Row.holdsAfter_append]

/-- What is printed without parentheses or needs none is one operand of `op`. -/
theorem holdsAfter_rowChild {v : Nat → Bool} {n : Nat} {op : Connective} {child : Filter}
    (a : Bool) {enclosed : Bool} (h : enclosed = false →
      Row.holdsAfter v n a (child.row op) = op.apply a (child.printedHolds v n)) :
    Row.holdsAfter v n a (rowChild enclosed op child) = op.apply a (child.printedHolds v n) := by
  cases enclosed with
  | true => rfl
  | false => exact h rfl

theorem holdsAfter_rowJoined {enclosed : Filter → Bool} {op : Connective} {children : List Filter}
    (h : ∀ child ∈ children, enclosed child = false → ∀ v n a,
      Row.holdsAfter v n a (child.row op) = op.apply a (child.printedHolds v n))
    (v : Nat → Bool) (n : Nat) (a : Bool) :
    Row.holdsAfter v n a (rowJoined enclosed op op children) =
      op.apply a (printedJoined v op n children) := by
  induction children generalizing n a with
  | nil => exact (op.apply_unit a).symm
  | cons child rest ih =>
    have hchild := holdsAfter_rowChild a fun henclosed =>
      h child List.mem_cons_self henclosed v n a
    rw [rowJoined_cons, Row.holdsAfter_append, hchild, length_conditions_rowChild,
      ih fun other hmem => h other (List.mem_cons_of_mem _ hmem), printedJoined,
      Connective.apply_assoc]

/-- Under `op`, a filter that needs no parentheses is taken as a whole. -/
theorem holdsAfter_row {f : Filter} (hf : f.isFilled = true) {op : Connective}
    (h : f.needsParens op = false) (v : Nat → Bool) (n : Nat) (a : Bool) :
    Row.holdsAfter v n a (f.row op) = op.apply a (f.printedHolds v n) := by
  induction f using byChildren generalizing op v n a with
  | condition c => rfl
  | logical op' children ih =>
    obtain rfl : op' = op := by simpa [needsParens] using h
    obtain ⟨hne, hfilled⟩ := isFilled_logical_iff.mp hf
    have hchildren : ∀ child ∈ children, child.needsParens op' = false → ∀ v n a,
        Row.holdsAfter v n a (child.row op') = op'.apply a (child.printedHolds v n) :=
      fun child hmem hchild => ih child hmem (hfilled child hmem) hchild
    cases children with
    | nil => exact absurd rfl hne
    | cons child rest =>
      rw [row, holdsAfter_rowJoined hchildren, printedHolds, row,
        holds_rowJoined v n _ op' (hfilled child List.mem_cons_self),
        holdsAfter_rowJoined fun other hmem => hchildren other (List.mem_cons_of_mem _ hmem)]
      rfl
  | group children => rfl

/-- A printed node joins what its children say as they are printed. -/
theorem printedHolds_logical {op : Connective} {children : List Filter}
    (hf : (logical op children).isFilled = true) (v : Nat → Bool) (n : Nat) :
    (logical op children).printedHolds v n = printedJoined v op n children := by
  obtain ⟨hne, hfilled⟩ := isFilled_logical_iff.mp hf
  cases children with
  | nil => exact absurd rfl hne
  | cons child rest =>
    rw [printedHolds, row, holds_rowJoined v n _ op (hfilled child List.mem_cons_self),
      holdsAfter_rowJoined fun other hmem hother =>
        holdsAfter_row (hfilled other (List.mem_cons_of_mem _ hmem)) hother]
    rfl

theorem printedJoined_append (v : Nat → Bool) (op : Connective) (n : Nat) (as bs : List Filter) :
    printedJoined v op n (as ++ bs) = op.apply (printedJoined v op n as)
      (printedJoined v op (n + (conditionsOf as).length) bs) := by
  induction as generalizing n with
  | nil => exact (op.unit_apply _).symm
  | cons child rest ih =>
    rw [List.cons_append, printedJoined, printedJoined, ih, Connective.apply_assoc, conditionsOf,
      List.length_append, Nat.add_assoc]

/-- The members of a group stand in its row as they are. -/
theorem rowJoined_member (member : Filter) (rest : List Filter) :
    rowJoined (fun _ => false) .and .and (member :: rest) =
      member.row .and ++ rowJoined (fun _ => false) .and .and rest :=
  rowJoined_cons (fun _ => false) .and .and member rest

/-- Members that all hold as they are printed hold side by side. -/
theorem holdsAfter_members {v : Nat → Bool} {n : Nat} {members : List Filter}
    (hfilled : ∀ f ∈ members, f.isFilled = true) (h : printedJoined v .and n members = true) :
    Row.holdsAfter v n true (rowJoined (fun _ => false) .and .and members) = true := by
  induction members generalizing n with
  | nil => rfl
  | cons member rest ih =>
    rw [printedJoined, Connective.apply, Bool.and_eq_true] at h
    rw [rowJoined_member, Row.holdsAfter_append, holdsAfter_true v n (hfilled member List.mem_cons_self), h.1,
      length_conditions_row]
    exact ih (fun f hmem => hfilled f (List.mem_cons_of_mem _ hmem)) h.2

theorem printedHolds_group_of_members {v : Nat → Bool} {n : Nat} {members : List Filter}
    (hf : (group members).isFilled = true) (h : printedJoined v .and n members = true) :
    (group members).printedHolds v n = true := by
  obtain ⟨hne, hfilled⟩ := isFilled_group_iff.mp hf
  cases members with
  | nil => exact absurd rfl hne
  | cons member rest =>
    rw [printedJoined, Connective.apply, Bool.and_eq_true] at h
    show Row.holds v n (rowJoined (fun _ => false) .and .and (member :: rest)) = true
    rw [holds_rowJoined v n _ .and (hfilled member List.mem_cons_self), h.1]
    exact holdsAfter_members (fun f hmem => hfilled f (List.mem_cons_of_mem _ hmem)) h.2

theorem printedJoined_of_holdJoined {v : Nat → Bool} {op : Connective} {children : List Filter}
    (h : ∀ child ∈ children, ∀ n, child.holds v n = true → child.printedHolds v n = true) (n : Nat)
    (hholds : holdJoined v op n children = true) : printedJoined v op n children = true := by
  induction children generalizing n with
  | nil => exact hholds
  | cons child rest ih =>
    have hchild := h child List.mem_cons_self n
    have hrest := ih (fun other hmem => h other (List.mem_cons_of_mem _ hmem))
      (n + child.conditions.length)
    rw [holdJoined] at hholds
    rw [printedJoined]
    cases op with
    | and =>
      rw [Connective.apply, Bool.and_eq_true] at hholds ⊢
      exact ⟨hchild hholds.1, hrest hholds.2⟩
    | or =>
      rw [Connective.apply, Bool.or_eq_true] at hholds ⊢
      exact hholds.imp hchild hrest

/-- A printed filter holds wherever the filter does. -/
theorem printedHolds_of_holds {f : Filter} (hf : f.isFilled = true) {v : Nat → Bool} (n : Nat)
    (h : f.holds v n = true) : f.printedHolds v n = true := by
  induction f using byChildren generalizing n with
  | condition c => exact h
  | logical op children ih =>
    have hchildren := (isFilled_logical_iff.mp hf).2
    rw [printedHolds_logical hf]
    exact printedJoined_of_holdJoined (fun child hmem n => ih child hmem (hchildren child hmem) n)
      n h
  | group members ih =>
    have hmembers := (isFilled_group_iff.mp hf).2
    exact printedHolds_group_of_members hf (printedJoined_of_holdJoined
      (fun member hmem n => ih member hmem (hmembers member hmem) n) n h)

/-! ## Orderly filters -/

mutual

/-- Does no member of a group but the first join its children by `or`? -/
def isOrderly : Filter → Bool
  | condition _ => true
  | logical _ children => areOrderly children
  | group members => areOrderly members && members.tail.all (!·.needsParens .and)

/-- Are all the filters orderly? -/
def areOrderly : List Filter → Bool
  | [] => true
  | child :: rest => child.isOrderly && areOrderly rest

end

theorem areOrderly_iff {children : List Filter} :
    areOrderly children = true ↔ ∀ child ∈ children, child.isOrderly = true := by
  induction children with
  | nil => simp [areOrderly]
  | cons child rest ih => simp [areOrderly, ih]

theorem printedJoined_eq {v : Nat → Bool} {children : List Filter}
    (h : ∀ child ∈ children, ∀ n, child.printedHolds v n = child.holds v n) (op : Connective)
    (n : Nat) : printedJoined v op n children = holdJoined v op n children := by
  induction children generalizing n with
  | nil => rfl
  | cons child rest ih =>
    rw [printedJoined, holdJoined, h child List.mem_cons_self,
      ih fun other hmem => h other (List.mem_cons_of_mem _ hmem)]

/-- An orderly filter says the same as it is printed. -/
theorem printedHolds_of_isOrderly {f : Filter} (hf : f.isFilled = true) (h : f.isOrderly = true)
    (v : Nat → Bool) (n : Nat) : f.printedHolds v n = f.holds v n := by
  induction f using byChildren generalizing n with
  | condition c => rfl
  | logical op children ih =>
    have hchildren := (isFilled_logical_iff.mp hf).2
    rw [isOrderly, areOrderly_iff] at h
    rw [printedHolds_logical hf, holds]
    exact printedJoined_eq (fun child hmem => ih child hmem (hchildren child hmem) (h child hmem))
      op n
  | group members ih =>
    obtain ⟨hne, hfilled⟩ := isFilled_group_iff.mp hf
    rw [isOrderly, Bool.and_eq_true, areOrderly_iff, List.all_eq_true] at h
    have hmembers := printedJoined_eq (fun member hmem =>
      ih member hmem (hfilled member hmem) (h.1 member hmem)) .and n
    cases members with
    | nil => exact absurd rfl hne
    | cons member rest =>
      have hrest : ∀ v n a, Row.holdsAfter v n a (rowJoined (fun _ => false) .and .and rest) =
          Connective.and.apply a (printedJoined v .and n rest) :=
        holdsAfter_rowJoined fun other hmem _ => holdsAfter_row
          (hfilled other (List.mem_cons_of_mem _ hmem)) (by simpa using h.2 other hmem)
      rw [holds, ← hmembers]
      show Row.holds v n (rowJoined (fun _ => false) .and .and (member :: rest)) = _
      rw [holds_rowJoined v n _ .and (hfilled member List.mem_cons_self), hrest]
      rfl

/-! ## Filters that say something else as they are printed -/

/-- The truth of a printed filter rests on its own conditions only. -/
theorem printedHolds_congr {v w : Nat → Bool} {n : Nat} {f : Filter}
    (h : AgreeOn v w n (n + f.conditions.length)) : f.printedHolds v n = f.printedHolds w n := by
  have hlength : (Row.filter (f.row .and)).conditions.length = f.conditions.length := by
    rw [Row.conditions_filter, length_conditions_row]
  rw [printedHolds, printedHolds, ← Row.holds_filter, ← Row.holds_filter]
  exact holds_congr n _ (by rw [hlength]; exact h)

/-- Children whose conditions are all as if they were not there. -/
theorem holdJoined_unit {v : Nat → Bool} {op : Connective} {n : Nat} {children : List Filter}
    (hfilled : ∀ f ∈ children, f.isFilled = true)
    (h : AgreeOn v (fun _ => op.unit) n (n + (conditionsOf children).length)) :
    holdJoined v op n children = op.unit := by
  rw [holdJoined_congr op n children h]
  clear h
  induction children generalizing n with
  | nil => rfl
  | cons child rest ih =>
    rw [holdJoined, holds_const op.unit (hfilled child List.mem_cons_self),
      ih fun f hmem => hfilled f (List.mem_cons_of_mem _ hmem)]
    exact op.unit_apply op.unit

/-- The assignment `v` on the numbers from `n` up to `m`, and `b` everywhere else. -/
def within (v : Nat → Bool) (n m : Nat) (b : Bool) (i : Nat) : Bool :=
  if n ≤ i ∧ i < m then v i else b

theorem agreeOn_within (v : Nat → Bool) (n m : Nat) (b : Bool) : AgreeOn (within v n m b) v n m :=
  fun _ hlow hhigh => if_pos ⟨hlow, hhigh⟩

/-- If a child can say something else as it is printed, so can the node: the other children are set
to make no difference. -/
theorem exists_joined {op : Connective} {children : List Filter} {child : Filter}
    (hfilled : ∀ f ∈ children, f.isFilled = true) (hmem : child ∈ children)
    (h : ∀ n, ∃ v, child.holds v n = false ∧ child.printedHolds v n = true) (n : Nat) :
    ∃ v, holdJoined v op n children = false ∧ printedJoined v op n children = true := by
  obtain ⟨before, after, rfl⟩ := List.append_of_mem hmem
  obtain ⟨v, hholds, hprinted⟩ := h (n + (conditionsOf before).length)
  generalize hstart : n + (conditionsOf before).length = start at hholds hprinted
  let w := within v start (start + child.conditions.length) op.unit
  have hagree : AgreeOn w v start (start + child.conditions.length) :=
    agreeOn_within v start _ op.unit
  have hbefore : AgreeOn w (fun _ => op.unit) n start :=
    fun i _ hi => if_neg (by omega)
  have hafter : ∀ m, AgreeOn w (fun _ => op.unit) (start + child.conditions.length) m :=
    fun m i hi _ => if_neg (by omega)
  have hholdsBefore := holdJoined_unit
    (fun f hf => hfilled f (List.mem_append_left _ hf)) (hstart ▸ hbefore)
  have hholdsAfter := holdJoined_unit
    (fun f hf => hfilled f (List.mem_append_right _ (List.mem_cons_of_mem _ hf))) (hafter _)
  refine ⟨w, ?_, ?_⟩
  · rw [holdJoined_append, hholdsBefore, hstart, holdJoined, holds_congr start child hagree, hholds,
      hholdsAfter, Connective.unit_apply, Connective.apply_unit]
  · rw [printedJoined_append, hstart, printedJoined, printedHolds_congr hagree, hprinted]
    cases op with
    | and =>
      have hothers : ∀ {fs m}, (∀ f ∈ fs, f.isFilled = true) → holdJoined w .and m fs = true →
          printedJoined w .and m fs = true := fun hfs =>
        printedJoined_of_holdJoined (fun f hf n => printedHolds_of_holds (hfs f hf) n) _
      rw [hothers (fun f hf => hfilled f (List.mem_append_left _ hf)) hholdsBefore,
        hothers (fun f hf => hfilled f (List.mem_append_right _ (List.mem_cons_of_mem _ hf)))
          hholdsAfter]
      rfl
    | or => exact Bool.or_true _

/-- A later member that joins its children by `or` makes the row hold, if its second child does:
whatever came before is then without effect. -/
theorem holdsAfter_row_or {v : Nat → Bool} {n : Nat} {first next : Filter} {rest : List Filter}
    (hf : (logical .or (first :: next :: rest)).isFilled = true)
    (h : next.holds v (n + first.conditions.length) = true) (a : Bool) :
    Row.holdsAfter v n a ((logical .or (first :: next :: rest)).row .and) = true := by
  have hfilled := (isFilled_logical_iff.mp hf).2
  have hnext := hfilled next (List.mem_cons_of_mem _ List.mem_cons_self)
  rw [row, rowJoined_cons, Row.holdsAfter_append, length_conditions_rowChild,
    holdsAfter_rowJoined fun other hmem hother =>
      holdsAfter_row (hfilled other (List.mem_cons_of_mem _ hmem)) hother,
    printedJoined, printedHolds_of_holds hnext _ h]
  exact Bool.or_true _

theorem rowJoined_append (enclosed : Filter → Bool) (op : Connective) (as bs : List Filter) :
    rowJoined enclosed op op (as ++ bs) = rowJoined enclosed op op as ++ rowJoined enclosed op op bs := by
  induction as with
  | nil => rfl
  | cons child rest ih =>
    rw [List.cons_append, rowJoined_cons, rowJoined_cons, ih, List.append_assoc]

theorem exists_of_needsParens {f : Filter} (hf : f.isShaped = true)
    (h : f.needsParens .and = true) :
    ∃ first next rest, f = logical .or (first :: next :: rest) := by
  cases f with
  | logical op children =>
    obtain rfl : op = .or := by
      cases op with
      | and => cases h
      | or => rfl
    have hlength := (isShaped_logical_iff.mp hf).1
    cases children with
    | nil => exact absurd hlength (by simp)
    | cons first rest =>
      cases rest with
      | nil => exact absurd hlength (by simp)
      | cons next rest => exact ⟨first, next, rest, rfl⟩
  | _ => cases h

/-- A group with a later member that joins its children by `or`. All conditions hold but those of the
first member, so that the group does not hold, but its row does. -/
theorem exists_group {first member : Filter} {rest : List Filter}
    (hf : (group (first :: rest)).isShaped = true) (hmem : member ∈ rest)
    (hmember : member.needsParens .and = true) (n : Nat) :
    ∃ v, (group (first :: rest)).holds v n = false ∧
      (group (first :: rest)).printedHolds v n = true := by
  have hshaped := (isShaped_group_iff.mp hf).2
  have hfirst := isFilled_of_isShaped (hshaped first List.mem_cons_self)
  let v : Nat → Bool := fun i => decide (n + first.conditions.length ≤ i)
  have hfalse : AgreeOn v (fun _ => false) n (n + first.conditions.length) :=
    fun i _ hi => decide_eq_false (by omega)
  have htrue : ∀ m k, n + first.conditions.length ≤ m → AgreeOn v (fun _ => true) m k :=
    fun m k hm i hi _ => decide_eq_true (by omega)
  refine ⟨v, ?_, ?_⟩
  · rw [holds, holdJoined, holds_of_agreeOn hfirst hfalse]
    rfl
  · obtain ⟨before, after, rfl⟩ := List.append_of_mem hmem
    have hrest : ∀ f ∈ before ++ member :: after, f.isShaped = true :=
      fun f hf' => hshaped f (List.mem_cons_of_mem _ hf')
    have hnode := hrest member (List.mem_append_right _ List.mem_cons_self)
    have hafter : ∀ f ∈ after, f.isFilled = true := fun f hf' =>
      isFilled_of_isShaped (hrest f (List.mem_append_right _ (List.mem_cons_of_mem _ hf')))
    show Row.holds v n (rowJoined (fun _ => false) .and .and (first :: (before ++ member :: after))) =
      true
    rw [holds_rowJoined v n _ .and hfirst, rowJoined_append,
      Row.holdsAfter_append]
    generalize hstart : n + first.conditions.length + _ = start
    have hmemberRow : ∀ a, Row.holdsAfter v start a (member.row .and) = true := by
      intro a
      obtain ⟨first', next, others, rfl⟩ := exists_of_needsParens hnode hmember
      have hfilled := isFilled_of_isShaped hnode
      have hnext := (isFilled_logical_iff.mp hfilled).2 next
        (List.mem_cons_of_mem _ List.mem_cons_self)
      exact holdsAfter_row_or hfilled (holds_of_agreeOn hnext (htrue _ _ (by omega))) a
    rw [rowJoined_member, Row.holdsAfter_append, hmemberRow]
    refine holdsAfter_members hafter (printedJoined_of_holdJoined
      (fun f hf' n => printedHolds_of_holds (hafter f hf') n) _ ?_)
    exact holdJoined_unit hafter (htrue _ _ (by omega))

theorem exists_of_areOrderly {children : List Filter} (h : areOrderly children = false) :
    ∃ child ∈ children, child.isOrderly = false := by
  rw [← Bool.not_eq_true, areOrderly_iff] at h
  simpa using h

/-- A filter that is not orderly says something else as it is printed. -/
theorem exists_of_isOrderly {f : Filter} (hf : f.isShaped = true) (h : f.isOrderly = false)
    (n : Nat) : ∃ v, f.holds v n = false ∧ f.printedHolds v n = true := by
  induction f using byChildren generalizing n with
  | condition c => cases h
  | logical op children ih =>
    have hfilled := isFilled_of_isShaped hf
    have hshaped := (isShaped_logical_iff.mp hf).2.2
    obtain ⟨child, hmem, horderly⟩ := exists_of_areOrderly h
    obtain ⟨v, hholds, hprinted⟩ := exists_joined (isFilled_logical_iff.mp hfilled).2 hmem
      (ih child hmem (hshaped child hmem) horderly) n
    exact ⟨v, hholds, by rw [printedHolds_logical hfilled, hprinted]⟩
  | group members ih =>
    have hfilled := isFilled_of_isShaped hf
    have hshaped := (isShaped_group_iff.mp hf).2
    cases horderly : areOrderly members with
    | false =>
      obtain ⟨member, hmem, hmember⟩ := exists_of_areOrderly horderly
      obtain ⟨v, hholds, hprinted⟩ := exists_joined (isFilled_group_iff.mp hfilled).2 hmem
        (ih member hmem (hshaped member hmem) hmember) n
      exact ⟨v, hholds, printedHolds_group_of_members hfilled hprinted⟩
    | true =>
      rw [isOrderly, horderly, Bool.true_and, List.all_eq_false] at h
      obtain ⟨member, hmem, hmember⟩ := h
      cases members with
      | nil => cases hmem
      | cons first rest => exact exists_group hf hmem (by simpa using hmember) n

/-- A filter says the same as it is printed exactly if it is orderly. -/
theorem printedHolds_eq_iff {f : Filter} (hf : f.isShaped = true) (n : Nat) :
    (∀ v, f.printedHolds v n = f.holds v n) ↔ f.isOrderly = true := by
  refine ⟨fun h => ?_, fun h v => printedHolds_of_isOrderly (isFilled_of_isShaped hf) h v n⟩
  cases horderly : f.isOrderly with
  | true => rfl
  | false =>
    obtain ⟨v, hholds, hprinted⟩ := exists_of_isOrderly hf horderly n
    rw [h v, hholds] at hprinted
    cases hprinted

end LogQuery.Filter
