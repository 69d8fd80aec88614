import LogQuery.Proofs.Token.Keywords

/-!
# Keys and the fields that they name

A key is cut off a text by one reader and cut into the segments of a field by another. Both find the
same quoted segments in it: the key is a row of stretches with dots between them, each a run of key
characters that a complete quoted segment may stand in front of (`IsRowOf`), and its field is made up
of what the stretches stand for (`Field.ofRow`). So no dot between quotes cuts the field, and no
quote stays open at the end of the key.

* `exists_isRowOf`: every key of a text is such a row;
* `ofKey_of_isRowOf`: the field of a row, whichever way the key is taken for one;
* `segments_append`: what is put behind a dot after a row is cut on its own;
* `field_of_key`: all of this, and that reading takes the key for that field.
-/

namespace LogQuery

open Text

/-! ## Rows of stretches -/

/-- The key is the row of these stretches, with dots between them. -/
structure IsRowOf (key : String) (stretches : List Stretch) : Prop where
  ne_nil : stretches ≠ []
  wellFormed : ∀ s ∈ stretches, s.IsWellFormed
  source : key.toList = List.intercalate ['.'] (stretches.map Stretch.source)

/-- The field that a row of stretches names: the contents that are not empty, of which the first is
the column and the others are the path; without any it is a column named by the key as it stands. -/
def Field.ofRow (key : String) (stretches : List Stretch) : Field :=
  match (stretches.map Stretch.content).filter (!·.isEmpty) with
  | [] => .simple key
  | base :: path => .ofPath (String.ofList base) (path.map String.ofList)

/-- The names that a field is made up of. -/
def Field.names : Field → List String
  | .simple name => [name]
  | .nested base path => base :: path

theorem Field.names_ofPath (base : String) (path : List String) :
    (Field.ofPath base path).names = base :: path := by
  cases path <;> rfl

section

variable {key : String} {stretches : List Stretch}

/-- The field of a key is made up of the stretches that it is a row of. -/
theorem ofKey_of_isRowOf (h : IsRowOf key stretches) :
    Field.ofKey key = .ofRow key stretches := by
  rw [Field.ofKey, h.source, segments_row h.ne_nil h.wellFormed]
  rfl

/-- What a stretch stands for is one of the names of the field, unless it is empty. -/
theorem content_mem_names (key : String) {s : Stretch} (hs : s ∈ stretches) (hne : s.content ≠ []) :
    String.ofList s.content ∈ (Field.ofRow key stretches).names := by
  have hkept : s.content ∈ (stretches.map Stretch.content).filter (!·.isEmpty) := by
    rw [List.mem_filter]
    exact ⟨List.mem_map_of_mem hs, by simpa using hne⟩
  rw [Field.ofRow]
  generalize (stretches.map Stretch.content).filter (!·.isEmpty) = names at hkept ⊢
  cases names with
  | nil => cases hkept
  | cons base path =>
    dsimp only
    rw [Field.names_ofPath, ← List.map_cons]
    exact List.mem_map_of_mem hkept

/-- What is put behind a dot after a row of stretches is cut on its own. -/
theorem segments_append (hne : stretches ≠ []) (h : ∀ s ∈ stretches, s.IsWellFormed)
    (rest : List Char) :
    Field.segments none [] (List.intercalate ['.'] (stretches.map Stretch.source) ++ '.' :: rest) =
      Field.segments none [] (List.intercalate ['.'] (stretches.map Stretch.source)) ++
        Field.segments none [] rest := by
  have hdot : ∀ (current rest : List Char),
      Field.segments none current ('.' :: rest) = current.reverse :: Field.segments none [] rest :=
    fun current rest => by rw [Field.segments.eq_def]; rfl
  rw [segments_row hne h]
  induction stretches with
  | nil => exact absurd rfl hne
  | cons s stretches ih =>
    obtain ⟨hs, hmore⟩ := List.forall_mem_cons.mp h
    cases stretches with
    | nil =>
      rw [List.map_singleton, List.map_singleton, List.intercalate_singleton, segments_stretch hs,
        hdot, List.reverse_reverse]
      rfl
    | cons next stretches =>
      have hrest := ih (List.cons_ne_nil _ _) hmore
      rw [List.map_cons, List.map_cons, List.intercalate_cons_cons, List.append_assoc,
        List.append_assoc, segments_stretch hs, List.singleton_append, hdot, List.reverse_reverse,
        ← List.map_cons, hrest]
      rfl

end

/-! ## Keys of a text -/

/-- Every key of a text is a row of stretches. -/
theorem exists_isRowOf {text : String} {t : Token} (h : t ∈ (tokenize text).tokens)
    (hkind : t.kind = .key) : ∃ stretches, IsRowOf t.text stretches := by
  obtain ⟨before, expects, c, rest, l, after, -, -, hcut, rfl⟩ := exists_cut_of_mem_tokens h
  obtain ⟨-, parts, hread, hsource⟩ := readKey_of_kind hcut hkind
  obtain ⟨first, more, -, hwell, rfl⟩ := isRow_of_readKey hread
  exact ⟨first :: more, List.cons_ne_nil _ _, hwell, hsource.trans (source_intercalate _)⟩

/-- Reading takes a key for its field, in front of an operator and behind a pipe. -/
theorem readPrimary_key {t : Token} (hkind : t.kind = .key) (last : Position) (depth : Nat)
    (rest : List Token) :
    readPrimary last depth (t :: rest) = readCondition (.ofKey t.text) t rest := by
  rw [readPrimary_eq]
  dsimp only
  rw [hkind]

theorem selectedField?_key {t : Token} (hkind : t.kind = .key) :
    selectedField? t = some (.ofKey t.text) := by
  rw [selectedField?, hkind]

/-- A key of a text is a row of stretches with dots between them, each a run of key characters that a
complete quoted segment may stand in front of. Whichever way it is one, its field is cut at these dots
and nowhere else: the field is made up of what the stretches stand for, every quoted segment stands
undivided at the start of one of its names, and no quote is left open at the end. -/
theorem field_of_key (text : String) :
    ∀ t ∈ (tokenize text).tokens, t.kind = .key →
      (∃ stretches, IsRowOf t.text stretches) ∧
      ∀ stretches, IsRowOf t.text stretches →
        (∀ last depth rest, readPrimary last depth (t :: rest) =
          readCondition (.ofRow t.text stretches) t rest) ∧
        selectedField? t = some (.ofRow t.text stretches) ∧
        (∀ quote body run, .quoted quote body run ∈ stretches → body ≠ [] →
          ∃ name ∈ (Field.ofRow t.text stretches).names, body <+: name.toList) ∧
        ∀ rest, Field.segments none [] (t.text.toList ++ '.' :: rest) =
          Field.segments none [] t.text.toList ++ Field.segments none [] rest := by
  intro t ht hkind
  refine ⟨exists_isRowOf ht hkind, fun stretches hrow => ?_⟩
  have hfield := ofKey_of_isRowOf hrow
  refine ⟨fun last depth rest => ?_, ?_, fun quote body run hmem hbody => ?_, fun rest => ?_⟩
  · rw [readPrimary_key hkind, hfield]
  · rw [selectedField?_key hkind, hfield]
  · have hne : (Stretch.quoted quote body run).content ≠ [] := by
      intro hnil
      exact hbody (List.append_eq_nil_iff.mp hnil).1
    refine ⟨_, content_mem_names t.text hmem hne, ?_⟩
    rw [String.toList_ofList]
    exact List.prefix_append body run
  · rw [hrow.source]
    exact segments_append hrow.ne_nil hrow.wellFormed rest

/-- A quoted segment with a dot and an escaped quote that a name is glued to, two dots in a row, a
quoted segment without anything in it, and a name. -/
theorem field_of_key_glued :
    let text := "\"p\\\".q\"r..''.s = 1"
    let key : Token := ⟨.key, "\"p\\\".q\"r..''.s", ⟨1, 1⟩, true⟩
    let stretches : List Stretch :=
      [.quoted '"' ['p', '\\', '"', '.', 'q'] ['r'], .name [], .quoted '\'' [] [], .name ['s']]
    key ∈ (tokenize text).tokens ∧ IsRowOf key.text stretches ∧
      selectedField? key = some (.nested "p\\\".qr" ["s"]) ∧
      (∃ name ∈ (Field.nested "p\\\".qr" ["s"]).names, ['p', '\\', '"', '.', 'q'] <+: name.toList) ∧
      Field.segments none [] (key.text.toList ++ ['.', 'x']) =
        Field.segments none [] key.text.toList ++ [['x']] := by
  intro text key stretches
  have hkey : key ∈ (tokenize text).tokens := by decide +kernel
  have hquoted : (Stretch.quoted '"' ['p', '\\', '"', '.', 'q'] ['r']).IsWellFormed :=
    ⟨rfl, ⟨_, .plain (by decide) (by decide) (.escape (.plain (by decide) (by decide)
      (.plain (by decide) (by decide) .nil)))⟩, List.forall_mem_singleton.mpr rfl⟩
  have hrow : IsRowOf key.text stretches := by
    refine ⟨List.cons_ne_nil _ _, ?_, by decide +kernel⟩
    simp only [stretches, List.forall_mem_cons, List.not_mem_nil, false_imp_iff, implies_true,
      and_true]
    exact ⟨hquoted, nofun, ⟨rfl, ⟨_, .nil⟩, nofun⟩, List.forall_mem_singleton.mpr rfl⟩
  have hfield : Field.ofRow key.text stretches = .nested "p\\\".qr" ["s"] := by decide +kernel
  obtain ⟨-, hselected, hwhole, hopen⟩ := (field_of_key text key hkey rfl).2 stretches hrow
  rw [hfield] at hselected hwhole
  exact ⟨hkey, hrow, hselected, hwhole '"' _ ['r'] List.mem_cons_self (List.cons_ne_nil _ _),
    hopen ['x']⟩

end LogQuery
