import LogQuery.Proofs.Filter.Truth
import LogQuery.Sql.Condition

/-!
# Wrapped types

A declared type may stand in any number of wrappers, with white space around it and around the content
of each of them (`Wraps`). All of that is taken off, and nothing else: what remains is in no wrapper,
and putting the wrappers back gives the declared type.

* `unwrapOnce?_eq_some_iff`: one round takes one wrapper off;
* `wraps_unwrapType`, `unwrapType_ne_around`, `exists_afterRounds`: there is a last round, and all of
  them take off nothing but wrappers and white space and leave a type in no wrapper;
* `unwrapType_of_wraps`: two types of which one wraps the other come to the same;
* `wrappers_transparent`: so wrappers change no column's kind, nor anything that is written for a
  query.
-/

namespace LogQuery

open Text

/-! ## White space around a text -/

theorem trim_spaced {before after : List Char} (hbefore : ∀ c ∈ before, isBlank c = true)
    (hafter : ∀ c ∈ after, isBlank c = true) (cs : List Char) :
    trim (before ++ cs ++ after) = trim cs := by
  have hreversed : ∀ c ∈ after.reverse, isBlank c = true :=
    fun c hc => hafter c (List.mem_reverse.mp hc)
  rw [trim, trim, List.append_assoc, List.dropWhile_append_of_pos hbefore, List.dropWhile_append]
  split
  · rename_i hempty
    have hgone : after.dropWhile isBlank = [] := by
      rw [← List.append_nil after, List.dropWhile_append_of_pos hafter, List.dropWhile_nil]
    rw [List.isEmpty_iff.mp hempty, hgone]
  · rw [List.reverse_append, List.dropWhile_append_of_pos hreversed]

/-- Only white space is taken off a text. -/
theorem exists_eq_trim (cs : List Char) :
    ∃ before after, (∀ c ∈ before, isBlank c = true) ∧ (∀ c ∈ after, isBlank c = true) ∧
      cs = before ++ trim cs ++ after := by
  have hblank : ∀ ds : List Char, ∀ c ∈ ds.takeWhile isBlank, isBlank c = true :=
    fun ds => List.all_eq_true.mp List.all_takeWhile
  let unstarted := cs.dropWhile isBlank
  refine ⟨cs.takeWhile isBlank, (unstarted.reverse.takeWhile isBlank).reverse, hblank cs,
    fun c hc => hblank _ c (List.mem_reverse.mp hc), ?_⟩
  calc cs = cs.takeWhile isBlank ++ unstarted.reverse.reverse := by
        rw [List.reverse_reverse, List.takeWhile_append_dropWhile]
    _ = cs.takeWhile isBlank ++
          (unstarted.reverse.takeWhile isBlank ++ unstarted.reverse.dropWhile isBlank).reverse := by
        rw [List.takeWhile_append_dropWhile]
    _ = cs.takeWhile isBlank ++ trim cs ++ (unstarted.reverse.takeWhile isBlank).reverse := by
        rw [List.reverse_append, ← List.append_assoc, trim]

/-- A text that starts and ends with something else than white space is left as it is. -/
theorem trim_of_ends {c d : Char} (hc : isBlank c = false) (hd : isBlank d = false)
    (cs : List Char) : trim (c :: cs ++ [d]) = c :: cs ++ [d] := by
  have hstart : (c :: cs ++ [d]).dropWhile isBlank = c :: cs ++ [d] :=
    List.dropWhile_cons_of_neg (by rw [hc]; exact Bool.false_ne_true)
  have hend : (c :: cs ++ [d]).reverse.dropWhile isBlank = (c :: cs ++ [d]).reverse := by
    rw [List.reverse_append]
    exact List.dropWhile_cons_of_neg (by rw [hd]; exact Bool.false_ne_true)
  rw [trim, hstart, hend, List.reverse_reverse]

/-! ## Wrappers -/

/-- A wrapper of a type. -/
inductive Wrapper where
  | nullable
  | lowCardinality

namespace Wrapper

/-- What stands in front of the content. -/
def opening : Wrapper → String
  | nullable => "Nullable("
  | lowCardinality => "LowCardinality("

/-- The content in the wrapper. -/
def around (w : Wrapper) (content : List Char) : List Char :=
  w.opening.toList ++ content ++ [')']

theorem exists_opening_eq {opening : List Char} (h : opening ∈ wrappers) :
    ∃ w : Wrapper, w.opening.toList = opening := by
  rcases List.mem_cons.mp h with rfl | h
  · exact ⟨nullable, rfl⟩
  · exact ⟨lowCardinality, (List.mem_singleton.mp h).symm⟩

/-- A wrapper is known by what stands in front. -/
theorem findSome?_opening (w : Wrapper) (rest : List Char) :
    wrappers.findSome? (afterStart? · (w.opening.toList ++ rest)) = some rest := by
  cases w with
  | nullable => rw [wrappers, List.findSome?_cons, opening, afterStart?_append]
  | lowCardinality =>
    have hother : afterStart? "Nullable(".toList ("LowCardinality(".toList ++ rest) = none := by
      simp [afterStart?]
    rw [wrappers, List.findSome?_cons, opening, hother]
    dsimp only
    rw [List.findSome?_cons, afterStart?_append]

theorem trim_around (w : Wrapper) (content : List Char) :
    trim (w.around content) = w.around content := by
  cases w with
  | nullable => exact trim_of_ends (by decide +kernel) (by decide +kernel) _
  | lowCardinality => exact trim_of_ends (by decide +kernel) (by decide +kernel) _

end Wrapper

/-- One round takes one wrapper off. -/
theorem unwrapOnce?_eq_some_iff {cs content : List Char} :
    unwrapOnce? cs = some content ↔ ∃ w : Wrapper, cs = w.around content := by
  constructor
  · intro h
    unfold unwrapOnce? at h
    split at h
    · cases h
    · rename_i rest hrest
      obtain ⟨opening, hmem, hstart⟩ := List.exists_of_findSome?_eq_some hrest
      obtain ⟨w, rfl⟩ := Wrapper.exists_opening_eq hmem
      split at h
      · rename_i hlast
        obtain ⟨inner, rfl⟩ := List.getLast?_eq_some_iff.mp hlast
        rw [List.dropLast_concat] at h
        cases h
        refine ⟨w, ?_⟩
        rw [Wrapper.around, List.append_assoc]
        exact (append_of_afterStart? hstart).symm
      · cases h
  · rintro ⟨w, rfl⟩
    rw [unwrapOnce?, Wrapper.around, List.append_assoc, w.findSome?_opening]
    dsimp only
    rw [List.getLast?_concat, if_pos rfl, List.dropLast_concat]

/-! ## Any number of wrappers -/

/-- `type` is `core` in any number of wrappers, with any white space around it and around the content
of each of them. -/
inductive Wraps (core : List Char) : List Char → Prop
  | core : Wraps core core
  | spaced {before type after : List Char} (hbefore : ∀ c ∈ before, isBlank c = true)
      (hafter : ∀ c ∈ after, isBlank c = true) (h : Wraps core type) :
      Wraps core (before ++ type ++ after)
  | wrapped (w : Wrapper) {type : List Char} (h : Wraps core type) : Wraps core (w.around type)

/-- What remains of a type depends only on the type without the white space around it. -/
theorem unwrapType_congr {cs ds : List Char} (h : trim cs = trim ds) :
    unwrapType cs = unwrapType ds := by
  rw [unwrapType, unwrapType, h]

theorem unwrapType_around (w : Wrapper) (content : List Char) :
    unwrapType (w.around content) = unwrapType content := by
  have honce : unwrapOnce? (trim (w.around content)) = some content :=
    unwrapOnce?_eq_some_iff.mpr ⟨w, w.trim_around content⟩
  rw [unwrapType]
  split
  · rename_i hnone
    rw [honce] at hnone
    cases hnone
  · rename_i hsome
    rw [honce] at hsome
    cases hsome
    rfl

/-- All wrappers are taken off, whatever is in them. -/
theorem unwrapType_of_wraps {core type : List Char} (h : Wraps core type) :
    unwrapType type = unwrapType core := by
  induction h with
  | core => rfl
  | spaced hbefore hafter _ ih => rw [unwrapType_congr (trim_spaced hbefore hafter _), ih]
  | wrapped w _ ih => rw [unwrapType_around, ih]

/-- What is taken off is wrappers and white space. -/
theorem wraps_unwrapType (type : List Char) : Wraps (unwrapType type) type := by
  fun_induction unwrapType type with
  | case1 type honce =>
    obtain ⟨before, after, hbefore, hafter, htype⟩ := exists_eq_trim type
    have hspaced : Wraps (trim type) (before ++ trim type ++ after) := .spaced hbefore hafter .core
    rw [← htype] at hspaced
    exact hspaced
  | case2 type content honce ih =>
    obtain ⟨before, after, hbefore, hafter, htype⟩ := exists_eq_trim type
    obtain ⟨w, htrim⟩ := unwrapOnce?_eq_some_iff.mp honce
    have hspaced := Wraps.spaced hbefore hafter (.wrapped w ih)
    rw [← htrim, ← htype] at hspaced
    exact hspaced

/-- What remains is in no wrapper. -/
theorem unwrapType_ne_around (type : List Char) (w : Wrapper) (content : List Char) :
    unwrapType type ≠ w.around content := by
  fun_induction unwrapType type with
  | case1 type honce =>
    intro heq
    rw [unwrapOnce?_eq_some_iff.mpr ⟨w, heq⟩] at honce
    cases honce
  | case2 type inner honce ih => exact ih

/-- What is left of a type after some rounds, each of which takes off the white space around it and
then a wrapper; `none` once there is no wrapper to take off. -/
def afterRounds : Nat → List Char → Option (List Char)
  | 0, type => some type
  | n + 1, type => (unwrapOnce? (trim type)).bind (afterRounds n)

/-- Every round shortens the type, so the last one comes soon. -/
theorem exists_afterRounds (type : List Char) :
    ∃ n last, n ≤ type.length ∧ afterRounds n type = some last ∧
      afterRounds (n + 1) type = none ∧ trim last = unwrapType type := by
  fun_induction unwrapType type with
  | case1 type honce =>
    refine ⟨0, type, Nat.zero_le _, rfl, ?_, rfl⟩
    rw [afterRounds, honce, Option.bind_none]
  | case2 type content honce ih =>
    obtain ⟨n, last, hn, hlast, hend, htrim⟩ := ih
    have hshorter : content.length < type.length :=
      Nat.lt_of_lt_of_le (length_lt_of_unwrapOnce? honce) (length_trim_le type)
    refine ⟨n + 1, last, by omega, ?_, ?_, htrim⟩
    · rw [afterRounds, honce, Option.bind_some, hlast]
    · rw [afterRounds, honce, Option.bind_some, hend]

/-! ## Schemas -/

/-- The same columns in the same order, each type of the second row in any number of wrappers. -/
inductive Rewraps : List Column → List Column → Prop
  | nil : Rewraps [] []
  | cons {name core type : String} {columns columns' : List Column}
      (htype : Wraps core.toList type.toList) (h : Rewraps columns columns') :
      Rewraps (⟨name, core⟩ :: columns) (⟨name, type⟩ :: columns')

theorem ColumnKind.ofType_of_wraps {core type : String} (h : Wraps core.toList type.toList) :
    ofType type = ofType core := by
  rw [ofType, ofType, unwrapType_of_wraps h]

namespace Schema

/-- The first column with a name decides. -/
theorem kindOf_cons (column type : String) (columns : List Column) (name : String) :
    kindOf ⟨⟨column, type⟩ :: columns⟩ name =
      if column = name then .ofType type else kindOf ⟨columns⟩ name := by
  by_cases hname : column = name
  · rw [kindOf, column?, List.find?_cons_of_pos (by simpa using hname), if_pos hname]
  · rw [kindOf, column?, List.find?_cons_of_neg (by simpa using hname), if_neg hname]
    rfl

theorem kindOf_of_rewraps {columns columns' : List Column} (h : Rewraps columns columns')
    (name : String) : kindOf ⟨columns'⟩ name = kindOf ⟨columns⟩ name := by
  induction h with
  | nil => rfl
  | cons htype _ ih => rw [kindOf_cons, kindOf_cons, ColumnKind.ofType_of_wraps htype, ih]

end Schema

namespace Sql

section

variable {schema schema' : Option Schema}
  (h : ∀ column, columnKind schema column = columnKind schema' column)

include h

/-- All that matters of a schema is the kinds of its columns. -/
theorem accessText_congr (field : Field) : accessText schema field = accessText schema' field := by
  cases field with
  | simple name => rfl
  | nested base path => rw [accessText, accessText, h]

theorem writeFilter_congr (mode : Mode) (f : Filter) :
    writeFilter mode schema f = writeFilter mode schema' f := by
  have hchildren : ∀ op children,
      (∀ child ∈ children, writeFilter mode schema child = writeFilter mode schema' child) →
      writeChildren mode schema op children = writeChildren mode schema' op children := by
    intro op children ih
    induction children with
    | nil => rfl
    | cons child rest ihrest =>
      rw [writeChildren, writeChildren, ih child List.mem_cons_self,
        ihrest fun other hmem => ih other (List.mem_cons_of_mem _ hmem)]
  induction f using Filter.byChildren with
  | condition c =>
    rw [writeFilter, writeFilter]
    unfold writeCondition
    rw [accessText_congr h]
  | logical op children ih => rw [writeFilter, writeFilter, hchildren op children ih]
  | group children ih => rw [writeFilter, writeFilter, hchildren .and children ih]

theorem compile_congr (mode : Mode) (q : Query) :
    compile mode schema q = compile mode schema' q := by
  rw [compile, compile]
  split
  · rfl
  · rw [writeFilter_congr h]

theorem selectList_congr (orderField : String) (fields : List Field) :
    selectList schema orderField fields = selectList schema' orderField fields := by
  have hselected : ∀ field, selectedText schema field = selectedText schema' field := by
    intro field
    cases field with
    | simple name => rfl
    | nested base path => rw [selectedText, selectedText, accessText_congr h]
  rw [selectList, selectList, funext hselected]

end

end Sql

/-- Taking wrappers off comes to an end for every declared type, with one in no wrapper that the
declared one is a wrapping of. A type has the same kind in any number of wrappers, with any white
space in them; and if the columns of a schema are declared in wrappers, every field, condition and
select list is written as without them. -/
theorem wrappers_transparent :
    (∀ type,
      (∃ n last, n ≤ type.length ∧ afterRounds n type = some last ∧
        afterRounds (n + 1) type = none ∧ trim last = unwrapType type) ∧
      Wraps (unwrapType type) type ∧
      ∀ (w : Wrapper) content, unwrapType type ≠ w.around content) ∧
    (∀ core type : String, Wraps core.toList type.toList →
      ColumnKind.ofType type = ColumnKind.ofType core) ∧
    ∀ columns columns', Rewraps columns columns' →
      (∀ field, Sql.accessText (some ⟨columns'⟩) field = Sql.accessText (some ⟨columns⟩) field) ∧
      (∀ mode q, Sql.compile mode (some ⟨columns'⟩) q = Sql.compile mode (some ⟨columns⟩) q) ∧
      ∀ orderField fields, Sql.selectList (some ⟨columns'⟩) orderField fields =
        Sql.selectList (some ⟨columns⟩) orderField fields := by
  refine ⟨fun type => ⟨exists_afterRounds type, wraps_unwrapType type, unwrapType_ne_around type⟩,
    fun core type => ColumnKind.ofType_of_wraps, fun columns columns' h => ?_⟩
  have hkind : ∀ column, Sql.columnKind (some ⟨columns'⟩) column =
      Sql.columnKind (some ⟨columns⟩) column := Schema.kindOf_of_rewraps h
  exact ⟨Sql.accessText_congr hkind, Sql.compile_congr hkind, Sql.selectList_congr hkind⟩

/-- A map in two wrappers with white space in and around them, and in one wrapper a type that starts
like another and never closes it. -/
theorem wrappers_transparent_unclosed :
    let map := " LowCardinality( Nullable(Map(String, String)\t))\n"
    let json := "Nullable( LowCardinality(JSON )"
    let bare : List Column := [⟨"m", "Map(String, String)"⟩, ⟨"j", "LowCardinality(JSON"⟩]
    Wraps "Map(String, String)".toList map.toList ∧
    ColumnKind.ofType map = .map ∧
    Wraps "LowCardinality(JSON".toList json.toList ∧
    ColumnKind.ofType json = .other ∧
    Rewraps bare [⟨"m", map⟩, ⟨"j", json⟩] ∧
    Sql.accessText (some ⟨[⟨"m", map⟩, ⟨"j", json⟩]⟩) (.nested "m" ["a", "b"]) = "`m`['a.b']" := by
  intro map json bare
  have hwraps : ∀ core type : String, unwrapType type.toList = core.toList →
      Wraps core.toList type.toList := by
    intro core type hcore
    rw [← hcore]
    exact wraps_unwrapType type.toList
  have hmap := hwraps "Map(String, String)" map (by decide +kernel)
  have hjson := hwraps "LowCardinality(JSON" json (by decide +kernel)
  have hcolumns : Rewraps bare [⟨"m", map⟩, ⟨"j", json⟩] := .cons hmap (.cons hjson .nil)
  obtain ⟨-, hkind, haccess⟩ := wrappers_transparent
  refine ⟨hmap, (hkind _ _ hmap).trans (by decide +kernel), hjson,
    (hkind _ _ hjson).trans (by decide +kernel), hcolumns, ?_⟩
  rw [(haccess _ _ hcolumns).1]
  decide +kernel

end LogQuery
