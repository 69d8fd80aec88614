import LogQuery.Proofs.Query.Derivation
import LogQuery.Proofs.Query.Returns

/-!
# The cursor makes progress

What holds of every state that the cursor comes to. `Move` says what one step does to the stack and
the depth: it stays in a function, or calls another one, or returns. The frames on the stack say at
which depth the calls above them are to return (`Expects`), so that no way out of a function skips
the taking back of what it has counted.

* `move_step`, `balanced_move`: what a step can do, and what it keeps;
* `three_le`: a filter that is read takes three tokens at least;
* `returns_of_reading`, `iterates`: every call returns, and every loop makes progress;
* `run_ofTokens`: the run ends, and in all its states the cursor stays within the tokens and goes
  forward only, the depth stays within `maxDepth`, and calls and loops do as they should.
-/

namespace LogQuery.Cursor

/-! ## What one step does -/

/-- What a function may do with the depth. -/
inductive Level where
  /-- No call is open. -/
  | query
  /-- It returns at the depth at which it was called. -/
  | call
  /-- It may leave the depth as it likes, for its caller takes it back. -/
  | loose

def Control.level : Control → Level
  | .start => .query
  | .recover => .query
  | .tail _ => .query
  | .select .. => .query
  | .comma .. => .query
  | .done _ => .query
  | .terms => .loose
  | .chain _ => .loose
  | _ => .call

/-- A function at `level` and `depth` puts the frame on the stack and calls one at `level'` and
`depth'`. -/
inductive Frame.Opens : Frame → Level → Nat → Level → Nat → Prop
  | query (depth : Nat) : Frame.Opens .query .query depth .call depth
  | term (depth : Nat) : Frame.Opens .term .query depth .call depth
  | restore (depth : Nat) : Frame.Opens (.restore depth) .call depth .loose depth
  | first (depth : Nat) : Frame.Opens .first .loose depth .call depth
  | operand (op : Connective) (left : Filter) (depth : Nat) :
      Frame.Opens (.operand op left) .loose depth .call depth
  | deeper (op : Connective) (left : Filter) {depth : Nat} (h : depth < maxDepth) :
      Frame.Opens (.operand op left) .loose depth .call (depth + 1)
  | leave {depth : Nat} (h : depth < maxDepth) : Frame.Opens .leave .call depth .call (depth + 1)
  | member (opening : Token) (members : List Filter) (depth : Nat) :
      Frame.Opens (.member opening members) .call depth .call depth

/-- A call returns at `depth` to the frame, and there it goes on at `level'` and `depth'`. -/
inductive Frame.Closes : Frame → Nat → Level → Nat → Prop
  | query (depth : Nat) : Frame.Closes .query depth .query depth
  | term (depth : Nat) : Frame.Closes .term depth .query depth
  | restore (base depth : Nat) : Frame.Closes (.restore base) depth .call base
  | first (depth : Nat) : Frame.Closes .first depth .loose depth
  | first_none (depth : Nat) : Frame.Closes .first depth .call depth
  | operand (op : Connective) (left : Filter) (depth : Nat) :
      Frame.Closes (.operand op left) depth .loose depth
  | operand_none (op : Connective) (left : Filter) (depth : Nat) :
      Frame.Closes (.operand op left) depth .call depth
  | leave (depth : Nat) : Frame.Closes .leave depth .call (depth - 1)
  | member (opening : Token) (members : List Filter) (depth : Nat) :
      Frame.Closes (.member opening members) depth .call depth

/-- The cursor stays, or takes the token that it looks at. -/
def Near (peek : Option Token) (pos pos' : Nat) : Prop := pos' = pos ∨ peek.isSome ∧ pos' = pos + 1

/-- One step: within a function, to one that it calls, or back to its caller. -/
inductive Move (peek : Option Token) (s : State) : State → Prop
  | stay {control : Control} {pos : Nat} {faults : List (Located SyntaxFault)}
      (hlevel : control.level = s.control.level ∨ s.control.level = .loose ∧ control.level = .call)
      (hnear : Near peek s.pos pos) : Move peek s ⟨control, s.stack, pos, s.depth, faults⟩
  | push {control : Control} {frame : Frame} {pos depth : Nat}
      {faults : List (Located SyntaxFault)}
      (hopens : frame.Opens s.control.level s.depth control.level depth)
      (hnear : Near peek s.pos pos) : Move peek s ⟨control, frame :: s.stack, pos, depth, faults⟩
  | pop {control : Control} {frame : Frame} {K : List Frame} {depth : Nat}
      (hstack : s.stack = frame :: K) (hcall : s.control.level = .call)
      (hcloses : frame.Closes s.depth control.level depth) :
      Move peek s ⟨control, K, s.pos, depth, s.faults⟩

section

variable {peek : Option Token} {s : State} {c : Control}

theorem move_goto (h : c.level = s.control.level) : Move peek s (s.goto c) :=
  .stay (.inl h) (.inl rfl)

theorem move_advance_goto {t : Token} (h : c.level = s.control.level) :
    Move (some t) s (s.advance.goto c) :=
  .stay (.inl h) (.inr ⟨rfl, rfl⟩)

/-- A function that gives up returns, and has left the depth as it may. -/
theorem level_returned (h : s.control.level ≠ .query) (value : Option Filter) :
    (Control.returned value).level = s.control.level ∨
      s.control.level = .loose ∧ (Control.returned value).level = .call := by
  cases hlevel : s.control.level with
  | query => exact absurd hlevel h
  | call => exact .inl rfl
  | loose => exact .inr ⟨rfl, rfl⟩

theorem move_giveUp (h : s.control.level ≠ .query) (fault : SyntaxFault) (position : Position) :
    Move peek s (s.giveUp fault position) :=
  .stay (level_returned h none) (.inl rfl)

theorem move_advance_giveUp {t : Token} (h : s.control.level ≠ .query) (fault : SyntaxFault)
    (position : Position) : Move (some t) s (s.advance.giveUp fault position) :=
  .stay (level_returned h none) (.inr ⟨rfl, rfl⟩)

theorem move_atPrimary (h : s.control.level = .call) (last : Position) :
    Move peek s (s.atPrimary peek last) := by
  have hne : s.control.level ≠ .query := by rw [h]; simp
  unfold State.atPrimary
  split
  · exact move_giveUp hne _ _
  · split
    · split
      · exact move_advance_goto h.symm
      · exact move_giveUp hne _ _
    · exact move_advance_goto h.symm
    · exact move_advance_goto h.symm
    · exact move_giveUp hne _ _

theorem move_atGroup (h : s.control.level = .call) (opening : Token) :
    Move peek s (s.atGroup opening) := by
  unfold State.atGroup
  split
  · exact move_giveUp (by rw [h]; simp) _ _
  · rename_i hdepth
    refine .push ?_ (.inl rfl)
    rw [h]
    exact .leave (Nat.lt_of_not_le hdepth)

theorem move_atBareValue (h : s.control.level = .call) (t : Token) :
    Move peek s (s.atBareValue peek t) := by
  unfold State.atBareValue
  split
  · exact move_goto h.symm
  · exact move_giveUp (by rw [h]; simp) _ _

theorem move_atCondition (h : s.control.level = .call) (field : Field) (key : Token) :
    Move peek s (s.atCondition peek field key) := by
  have hne : s.control.level ≠ .query := by rw [h]; simp
  unfold State.atCondition
  split
  · exact move_giveUp hne _ _
  · split
    · split
      · exact move_advance_giveUp hne _ _
      · exact move_advance_goto h.symm
    · exact move_giveUp hne _ _

theorem move_atValue (h : s.control.level = .call) (field : Field) (comparison : Comparison)
    (operator : Token) : Move peek s (s.atValue peek field comparison operator) := by
  have hne : s.control.level ≠ .query := by rw [h]; simp
  unfold State.atValue
  split
  · exact move_giveUp hne _ _
  · split
    · exact move_advance_goto h.symm
    · exact move_giveUp hne _ _

/-- A link calls for a primary, at most one level deeper. -/
theorem move_link (s' : State) (h : s.control.level = .loose) (hstack : s'.stack = s.stack)
    (hdepth : s'.depth = s.depth) (hnear : Near peek s.pos s'.pos) (left : Filter)
    (op : Connective) (position : Position) : Move peek s (s'.link left op position) := by
  obtain ⟨control, K, pos, depth, faults⟩ := s'
  cases hstack
  cases hdepth
  rw [State.link]
  split
  · refine .push ?_ hnear
    rw [h]
    exact .operand op left s.depth
  · split
    · exact .stay (level_returned (by rw [h]; simp) none) hnear
    · rename_i hdepth
      refine .push ?_ hnear
      rw [h]
      exact .deeper op left (Nat.lt_of_not_le hdepth)

theorem move_atChain (h : s.control.level = .loose) (left : Filter) :
    Move peek s (s.atChain peek left) := by
  have hne : s.control.level ≠ .query := by rw [h]; simp
  have hdone : Move peek s (s.goto (.returned (some left))) :=
    .stay (level_returned hne _) (.inl rfl)
  unfold State.atChain
  split
  · exact hdone
  · split
    · split
      · exact move_advance_giveUp hne _ _
      · exact move_link s.advance h rfl rfl (.inr ⟨rfl, rfl⟩) left _ _
    · exact move_link (s.report _ _) h rfl rfl (.inl rfl) left _ _
    · exact hdone

theorem move_atMembers (h : s.control.level = .call) (opening : Token) (members : List Filter) :
    Move peek s (s.atMembers peek opening members) := by
  have hne : s.control.level ≠ .query := by rw [h]; simp
  unfold State.atMembers
  split
  · exact move_giveUp hne _ _
  · split
    · split
      · exact move_advance_giveUp hne _ _
      · exact move_advance_goto h.symm
    · split
      · exact move_giveUp hne _ _
      · refine .push ?_ (.inl rfl)
        rw [h]
        exact .member opening members s.depth

theorem move_atStart (h : s.control.level = .query) : Move peek s (s.atStart peek) := by
  unfold State.atStart
  split
  · exact move_goto h.symm
  · split
    · exact move_goto h.symm
    · refine .push ?_ (.inl rfl)
      rw [h]
      exact .query s.depth

theorem move_atRecover (h : s.control.level = .query) : Move peek s (s.atRecover peek) := by
  unfold State.atRecover
  split
  · exact move_goto h.symm
  · split
    · exact move_goto h.symm
    · refine .push ?_ (.inr ⟨rfl, rfl⟩)
      rw [h]
      exact .term s.depth
    · exact .stay (.inl rfl) (.inr ⟨rfl, rfl⟩)

theorem move_atTail (h : s.control.level = .query) (filter : Option Filter) :
    Move peek s (s.atTail peek filter) := by
  unfold State.atTail
  split
  · exact move_goto h.symm
  · split
    · exact move_advance_goto h.symm
    · split
      · exact .stay (.inl h.symm) (.inr ⟨rfl, rfl⟩)
      · exact .stay (.inl h.symm) (.inr ⟨rfl, rfl⟩)

theorem move_atSelect (h : s.control.level = .query) (filter : Option Filter)
    (fields : List Field) (separator : Token) :
    Move peek s (s.atSelect peek filter fields separator) := by
  unfold State.atSelect
  split
  · exact .stay (.inl h.symm) (.inl rfl)
  · split
    · exact .stay (.inl h.symm) (.inr ⟨rfl, rfl⟩)
    · exact move_advance_goto h.symm

theorem move_atComma (h : s.control.level = .query) (filter : Option Filter)
    (fields : List Field) : Move peek s (s.atComma peek filter fields) := by
  unfold State.atComma
  split
  · exact move_goto h.symm
  · split
    · exact move_advance_goto h.symm
    · exact .stay (.inl h.symm) (.inr ⟨rfl, rfl⟩)

theorem move_unwind {value : Option Filter} {frame : Frame} {K : List Frame}
    (h : s.control = .returned value) (hstack : s.stack = frame :: K) :
    Move peek s ({ s with stack := K }.unwind value frame) := by
  obtain ⟨control, stack, pos, depth, faults⟩ := s
  cases h
  cases hstack
  -- a frame that needs a filter passes on that there is none
  cases frame with
  | query =>
    cases value with
    | none => exact .pop rfl rfl (.query depth)
    | some f => exact .pop rfl rfl (.query depth)
  | term => exact .pop rfl rfl (.term depth)
  | restore base => exact .pop rfl rfl (.restore base depth)
  | first =>
    cases value with
    | none => exact .pop rfl rfl (.first_none depth)
    | some left => exact .pop rfl rfl (.first depth)
  | operand op left =>
    cases value with
    | none => exact .pop rfl rfl (.operand_none op left depth)
    | some right => exact .pop rfl rfl (.operand op left depth)
  | leave => exact .pop rfl rfl (.leave depth)
  | member opening members =>
    cases value with
    | none => exact .pop rfl rfl (.member opening members depth)
    | some f => exact .pop rfl rfl (.member opening members depth)

/-- What a step can do. -/
theorem move_step {ts : List Token} {s s' : State} (h : step ts s = some s') :
    Move ts[s.pos]? s s' := by
  obtain ⟨control, K, pos, depth, faults⟩ := s
  cases control with
  | returned value =>
    cases K with
    | nil => cases h
    | cons frame K =>
      cases h
      exact move_unwind rfl rfl
  | done query => cases h
  | start => cases h; exact move_atStart rfl
  | expression => cases h; exact .push (.restore depth) (.inl rfl)
  | terms => cases h; exact .push (.first depth) (.inl rfl)
  | primary => cases h; exact move_atPrimary rfl _
  | group opening => cases h; exact move_atGroup rfl opening
  | bareValue t => cases h; exact move_atBareValue rfl t
  | condition field key => cases h; exact move_atCondition rfl field key
  | value field comparison operator => cases h; exact move_atValue rfl field comparison operator
  | chain left => cases h; exact move_atChain rfl left
  | members opening members => cases h; exact move_atMembers rfl opening members
  | recover => cases h; exact move_atRecover rfl
  | tail filter => cases h; exact move_atTail rfl filter
  | select filter fields separator => cases h; exact move_atSelect rfl filter fields separator
  | comma filter fields => cases h; exact move_atComma rfl filter fields

end

/-! ## Depth and position -/

/-- A call on top of the frames is to return at this depth. -/
def Expects : List Frame → Nat → Prop
  | [], _ => False
  | .query :: K, depth => K = [] ∧ depth = 0
  | .term :: K, depth => K = [] ∧ depth = 0
  | .restore base :: K, _ => base ≤ maxDepth ∧ Expects K base
  | .first :: K, _ => ∀ depth, Expects K depth
  | .operand _ _ :: K, _ => ∀ depth, Expects K depth
  | .leave :: K, depth => ∃ outer, depth = outer + 1 ∧ Expects K outer
  | .member _ _ :: K, depth => Expects K depth

/-- The depth is one that a function at this level may have on top of the frames. -/
def Level.Fits (K : List Frame) (depth : Nat) : Level → Prop
  | .query => K = [] ∧ depth = 0
  | .call => Expects K depth
  | .loose => ∀ depth, Expects K depth

/-- The cursor is within the tokens, and the depth within its bound and as the stack says. -/
structure Balanced (ts : List Token) (s : State) : Prop where
  pos_le : s.pos ≤ ts.length
  depth_le : s.depth ≤ maxDepth
  fits : s.control.level.Fits s.stack s.depth

theorem balanced_start (ts : List Token) : Balanced ts start :=
  ⟨Nat.zero_le _, Nat.zero_le _, rfl, rfl⟩

theorem le_length_of_near {ts : List Token} {pos pos' : Nat} (h : Near ts[pos]? pos pos')
    (hpos : pos ≤ ts.length) : pos' ≤ ts.length := by
  rcases h with rfl | ⟨hpeek, rfl⟩
  · exact hpos
  · obtain ⟨t, ht⟩ := Option.isSome_iff_exists.mp hpeek
    exact (List.getElem?_eq_some_iff.mp ht).1

/-- A call is opened at a depth at which its frame lets it return. -/
theorem fits_opens {frame : Frame} {level level' : Level} {depth depth' : Nat} {K : List Frame}
    (h : frame.Opens level depth level' depth') (hdepth : depth ≤ maxDepth)
    (hfits : level.Fits K depth) : depth' ≤ maxDepth ∧ level'.Fits (frame :: K) depth' := by
  cases h with
  | query => exact ⟨hdepth, hfits⟩
  | term => exact ⟨hdepth, hfits⟩
  | restore => exact ⟨hdepth, fun _ => ⟨hdepth, hfits⟩⟩
  | first => exact ⟨hdepth, hfits⟩
  | operand => exact ⟨hdepth, hfits⟩
  | deeper _ _ hlt => exact ⟨hlt, hfits⟩
  | leave hlt => exact ⟨hlt, depth, rfl, hfits⟩
  | member => exact ⟨hdepth, hfits⟩

/-- Where a call returns as its frame expects, the function below goes on at a depth that it may
have. -/
theorem fits_closes {frame : Frame} {level' : Level} {depth depth' : Nat} {K : List Frame}
    (h : frame.Closes depth level' depth') (hdepth : depth ≤ maxDepth)
    (hfits : Expects (frame :: K) depth) : depth' ≤ maxDepth ∧ level'.Fits K depth' := by
  cases h with
  | query => exact ⟨hdepth, hfits⟩
  | term => exact ⟨hdepth, hfits⟩
  | restore => exact hfits
  | first => exact ⟨hdepth, hfits⟩
  | first_none => exact ⟨hdepth, hfits depth⟩
  | operand => exact ⟨hdepth, hfits⟩
  | operand_none => exact ⟨hdepth, hfits depth⟩
  | leave =>
    obtain ⟨outer, rfl, houter⟩ := hfits
    exact ⟨Nat.le_of_succ_le hdepth, houter⟩
  | member => exact ⟨hdepth, hfits⟩

/-- What a step keeps. -/
theorem balanced_move {ts : List Token} {s s' : State} (h : Balanced ts s)
    (hmove : Move ts[s.pos]? s s') : Balanced ts s' := by
  have hfits := h.fits
  cases hmove with
  | stay hlevel hnear =>
    refine ⟨le_length_of_near hnear h.pos_le, h.depth_le, ?_⟩
    rcases hlevel with hlevel | ⟨hloose, hcall⟩
    · show Level.Fits s.stack s.depth (Control.level _)
      rw [hlevel]
      exact hfits
    · show Level.Fits s.stack s.depth (Control.level _)
      rw [hloose] at hfits
      rw [hcall]
      exact hfits s.depth
  | push hopens hnear =>
    obtain ⟨hdepth, hfits'⟩ := fits_opens hopens h.depth_le hfits
    exact ⟨le_length_of_near hnear h.pos_le, hdepth, hfits'⟩
  | pop hstack hcall hcloses =>
    rw [hcall, hstack] at hfits
    obtain ⟨hdepth, hfits'⟩ := fits_closes hcloses h.depth_le hfits
    exact ⟨h.pos_le, hdepth, hfits'⟩

theorem pos_le_of_move {peek : Option Token} {s s' : State} (h : Move peek s s') :
    s.pos ≤ s'.pos := by
  have hle {pos : Nat} (hnear : Near peek s.pos pos) : s.pos ≤ pos := by
    rcases hnear with rfl | ⟨-, rfl⟩
    · exact Nat.le_refl _
    · exact Nat.le_succ _
  cases h with
  | stay _ hnear => exact hle hnear
  | push _ hnear => exact hle hnear
  | pop => exact Nat.le_refl _

/-- Every state of the run is balanced. -/
theorem balanced_after {ts : List Token} {n : Nat} {s : State} (h : after ts n = some s) :
    Balanced ts s := by
  induction n generalizing s with
  | zero =>
    cases h
    exact balanced_start ts
  | succ n ih =>
    obtain ⟨before, hbefore, hstep⟩ := Option.bind_eq_some_iff.mp h
    exact balanced_move (ih hbefore) (move_step hstep)

/-! ## Tokens of a filter -/

mutual

theorem three_le_of_primary {depth : Nat} {ts rest : List Token} {f : Filter} :
    Derivation.Primary depth ts f rest → rest.length + 3 ≤ ts.length
  | .condition _ _ _ => Nat.le_refl _
  | .parens _ _ hmembers _ => by
    have := three_le_of_members hmembers
    simp only [List.length_cons] at *
    omega

theorem three_le_of_members {depth : Nat} {ts rest : List Token} {members : List Filter} :
    Derivation.Members depth ts members rest → rest.length + 3 ≤ ts.length
  | .one h => three_le_of_expression h
  | .more h hrest => by
    have := three_le_of_expression h
    have := three_le_of_members hrest
    omega

theorem three_le_of_expression {depth : Nat} {ts rest : List Token} {f : Filter} :
    Derivation.Expression depth ts f rest → rest.length + 3 ≤ ts.length
  | .chain h hchain => by
    have := three_le_of_primary h
    have := length_le_of_chain hchain
    omega

theorem length_le_of_chain {depth : Nat} {left : Filter} {ts rest : List Token} {f : Filter} :
    Derivation.Chain depth left ts f rest → rest.length ≤ ts.length
  | .done _ => Nat.le_refl _
  | .link hlink _ h hchain => by
    have := three_le_of_primary h
    have := length_le_of_chain hchain
    cases hlink with
    | keyword _ =>
      rw [List.length_cons]
      omega
    | implied _ => omega

end

theorem three_le_of_group {last : Position} {depth : Nat} {opening : Token} {ts : List Token}
    {f : Filter} (h : (readGroup last depth opening ts).value = some f) :
    (readGroup last depth opening ts).rest.length + 3 ≤ ts.length := by
  unfold readGroup at h ⊢
  split at h
  · cases h
  · rename_i hdepth
    rw [if_neg hdepth]
    obtain ⟨right, fs, -, -, ⟨-, hmembers, -⟩ | hmembers⟩ :=
      Derivation.members_of_value last (depth + 1) opening [] ts h
    · exact absurd rfl hmembers
    · have := three_le_of_members hmembers
      rw [List.length_cons] at this
      omega

/-! ## Calls and loops -/

/-- What the call at hand is to read. -/
def State.reading? (ts : List Token) (s : State) : Option (Reading Filter) :=
  match s.control with
  | .expression => some (readExpression (lastPosition ts) s.depth (ts.drop s.pos))
  | .primary => some (readPrimary (lastPosition ts) s.depth (ts.drop s.pos))
  | .group opening => some (readGroup (lastPosition ts) s.depth opening (ts.drop s.pos))
  | _ => none

/-- A filter that is read takes three tokens at least. -/
theorem three_le {ts : List Token} {s : State} {r : Reading Filter} (h : s.reading? ts = some r)
    (hvalue : r.value.isSome) : r.rest.length + 3 ≤ (ts.drop s.pos).length := by
  obtain ⟨f, hf⟩ := Option.isSome_iff_exists.mp hvalue
  obtain ⟨control, K, pos, depth, faults⟩ := s
  cases control with
  | expression =>
    cases h
    exact three_le_of_expression (Derivation.expression_of_value _ _ _ hf)
  | primary =>
    cases h
    exact three_le_of_primary (Derivation.primary_of_value _ _ _ hf)
  | group opening =>
    cases h
    exact three_le_of_group hf
  | _ => cases h

/-- Every call returns what it is to read, at the depth at which it was called. -/
theorem returns_of_reading {ts : List Token} {s : State} {r : Reading Filter}
    (h : s.reading? ts = some r) : Returns ts s s.depth r := by
  obtain ⟨control, K, pos, depth, faults⟩ := s
  cases control with
  | expression =>
    cases h
    exact (reads ts pos).2 K depth faults
  | primary =>
    cases h
    exact (reads ts pos).1 K depth faults
  | group opening =>
    cases h
    exact returns_group opening fun pos' _ => (reads ts pos').2
  | _ => cases h

/-- From the head of a loop the reader leaves the loop, or it comes back to the head further on. -/
def Iterates (ts : List Token) (loop : Loop) (s : State) : Prop :=
  ∃ s', Path ts (Pending Control.isStop s.stack) s s' ∧ s'.stack = s.stack ∧
    (s'.control.isEnd = true ∨ s'.control.loop? = some loop ∧ s.pos < s'.pos)

theorem Turn.iterates {ts : List Token} {loop : Loop} {D : Nat → Prop} {s : State}
    {r : Reading Filter} (h : Turn ts loop D s r) : Iterates ts loop s := by
  cases h with
  | leave _ _ _ hpath => exact ⟨_, hpath, rfl, .inl rfl⟩
  | again hpos _ _ hahead _ hpath =>
    refine ⟨_, hpath, rfl, .inr ⟨?_, hpos⟩⟩
    cases hahead <;> rfl

theorem QueryTurn.iterates {ts : List Token} {loop : Loop} {s : State} (h : QueryTurn ts s)
    (hloop : s.control.loop? = some loop) : Iterates ts loop s := by
  cases h with
  | leave _ hpath => exact ⟨_, hpath, rfl, .inl rfl⟩
  | again hpos _ hsame _ hpath => exact ⟨_, hpath, rfl, .inr ⟨hsame.trans hloop, hpos⟩⟩

/-- Every loop makes progress, as the search for further faults begins at depth 0. -/
theorem iterates {ts : List Token} {s : State} (hbalanced : Balanced ts s) {loop : Loop}
    (h : s.control.loop? = some loop) : Iterates ts loop s := by
  obtain ⟨control, K, pos, depth, faults⟩ := s
  cases control with
  | chain left =>
    cases h
    exact (turn_chain left fun pos' _ => (reads ts pos').1).iterates
  | members opening members =>
    cases h
    exact (turn_members opening members (reads ts pos).2).iterates
  | recover =>
    obtain ⟨-, rfl⟩ : K = [] ∧ depth = 0 := hbalanced.fits
    exact turn_recover.iterates h
  | select filter fields separator => exact (turn_select filter fields separator).iterates h
  | _ => cases h

/-! ## The run -/

/-- Over every row of tokens the run of the cursor ends, with the outcome that is read from the
tokens. In every state that it comes to,

* the cursor is within the tokens, the depth is at most `maxDepth`, and no step takes the cursor back;
* a call for an expression, a primary or a group returns what is read from the tokens in front of the
  cursor, with a filter or without, at the depth at which it was called; if it returns a filter, the
  cursor has taken three tokens at least;
* from the head of a loop the reader leaves the loop or comes back to the head with the cursor
  further on;
* an expression that is read only for its faults is called for at depth 0. -/
theorem run_ofTokens (ts : List Token) :
    (∃ n s query, after ts n = some s ∧ step ts s = none ∧ s.control = .done query ∧
      Query.ofTokens ts = ⟨if Outcome.isFatal s.faults then none else query, s.faults⟩) ∧
    ∀ n s, after ts n = some s →
      s.pos ≤ ts.length ∧ s.depth ≤ maxDepth ∧
      (∀ s', step ts s = some s' → s.pos ≤ s'.pos) ∧
      (∀ r, s.reading? ts = some r → ∃ pos,
        s.pos ≤ pos ∧ (r.value.isSome → s.pos + 3 ≤ pos) ∧ r.rest = ts.drop pos ∧
        Path ts (Pending Control.isEnd s.stack) s
          ⟨.returned r.value, s.stack, pos, s.depth, s.faults ++ r.faults⟩) ∧
      (∀ loop, s.control.loop? = some loop → Iterates ts loop s) ∧
      (∀ K, s.control = .expression → s.stack = .term :: K → s.depth = 0) := by
  refine ⟨?_, fun n s hs => ?_⟩
  · obtain ⟨s, query, hpath, hdone, houtcome⟩ := halts_ofTokens ts
    obtain ⟨n, hn⟩ := hpath.exists_after (n := 0) rfl
    refine ⟨n, s, query, hn, ?_, hdone, houtcome⟩
    rw [step, hdone]
  · have hbalanced := balanced_after hs
    refine ⟨hbalanced.pos_le, hbalanced.depth_le, fun s' hstep => pos_le_of_move (move_step hstep),
      fun r hr => ?_, fun loop hloop => iterates hbalanced hloop, fun K hcontrol hstack => ?_⟩
    · obtain ⟨pos, hpos, hrest, hpath⟩ := returns_of_reading hr
      refine ⟨pos, hpos, fun hvalue => ?_, hrest, hpath⟩
      have hthree := three_le hr hvalue
      rw [hrest, List.length_drop, List.length_drop] at hthree
      omega
    · have hfits := hbalanced.fits
      rw [hcontrol, hstack] at hfits
      exact hfits.2

/-- A value is missing in front of a keyword; the group behind the keyword is read at depth 0. -/
theorem run_ofTokens_recovering :
    let ts : List Token :=
      [⟨.key, "a", ⟨1, 1⟩, false⟩, ⟨.operator, "=", ⟨1, 3⟩, false⟩, ⟨.bool, "or", ⟨1, 5⟩, false⟩,
        ⟨.paren, "(", ⟨1, 8⟩, false⟩, ⟨.key, "b", ⟨1, 9⟩, false⟩, ⟨.operator, "=", ⟨1, 11⟩, false⟩,
        ⟨.value, "2", ⟨1, 13⟩, false⟩, ⟨.paren, ")", ⟨1, 14⟩, false⟩]
    let s : State := ⟨.expression, [.term], 3, 0, [⟨.missingValue "=" (some "or"), ⟨1, 5⟩⟩]⟩
    let r := readExpression (lastPosition ts) 0 (ts.drop 3)
    after ts 10 = some s ∧ s.depth = 0 ∧ r.value.isSome ∧
    ∃ pos, 6 ≤ pos ∧ r.rest = ts.drop pos ∧
      Path ts (Pending Control.isEnd [.term]) s
        ⟨.returned r.value, [.term], pos, 0, s.faults ++ r.faults⟩ := by
  intro ts s r
  have hs : after ts 10 = some s := by decide +kernel
  have hvalue : r.value.isSome := by decide +kernel
  obtain ⟨-, -, -, hcalls, -, hdepth⟩ := (run_ofTokens ts).2 10 s hs
  obtain ⟨pos, -, hthree, hrest, hpath⟩ := hcalls r rfl
  exact ⟨hs, hdepth [] rfl rfl, hvalue, pos, hthree hvalue, hrest, hpath⟩

end LogQuery.Cursor
