import EventAudit.Proofs.Path.Relative

/-! # Paths that are written plainly

Many texts have the same components, but only one of them says nothing more: the one with
a single slash between two pieces and without the piece `.` inside. A path that is written
so after a base is displayed by a text that its components determine. -/

namespace EventAudit.Path

/-- The pieces without a slash at the end. -/
def withoutSlash (pieces : List RawText) : List RawText :=
  if pieces.getLast? = some [] then pieces.dropLast else pieces

/-- Whether a path says something with every piece after its start, but for a slash at the end. -/
def IsPlain (path : Path) : Prop :=
  ∀ piece ∈ withoutSlash path.parts.2, isSilent piece = false

instance (path : Path) : Decidable path.IsPlain :=
  inferInstanceAs (Decidable (∀ piece ∈ _, _))

theorem withoutSlash_append {before after : List RawText} (hafter : after ≠ []) :
    withoutSlash (before ++ after) = before ++ withoutSlash after := by
  rw [withoutSlash, withoutSlash, List.getLast?_append_of_ne_nil _ hafter]
  split
  · rw [List.dropLast_append_of_ne_nil hafter]
  · rfl

theorem withoutSlash_isPrefix (pieces : List RawText) : withoutSlash pieces <+: pieces := by
  rw [withoutSlash]
  split
  · exact List.dropLast_prefix _
  · exact List.prefix_refl _

theorem filterMap_withoutSlash (pieces : List RawText) :
    (withoutSlash pieces).filterMap Component.ofPiece? =
      pieces.filterMap Component.ofPiece? := by
  rw [withoutSlash]
  split
  next hslash =>
    obtain ⟨before, rfl⟩ := List.getLast?_eq_some_iff.mp hslash
    rw [List.dropLast_concat, List.filterMap_append]
    simp [Component.ofPiece?]
  next => rfl

theorem intercalate_pieces (path : Path) : [slash].intercalate path.pieces = path.text :=
  List.intercalate_splitOn slash

theorem pieces_injective {path path' : Path} (hpieces : path.pieces = path'.pieces) :
    path = path' := by
  obtain ⟨text⟩ := path
  obtain ⟨text'⟩ := path'
  rw [mk.injEq]
  calc text = [slash].intercalate (pieces ⟨text⟩) := (intercalate_pieces ⟨text⟩).symm
    _ = [slash].intercalate (pieces ⟨text'⟩) := by rw [hpieces]
    _ = text' := intercalate_pieces ⟨text'⟩

/-- The pieces that a start is written by. -/
def Lead.pieces : Lead → List RawText
  | none => []
  | root => [[]]
  | here => [[dot]]

theorem pieces_eq_append_parts (path : Path) :
    path.pieces = path.parts.1.pieces ++ path.parts.2 := by
  obtain ⟨first, rest, hpieces⟩ := List.exists_cons_of_ne_nil path.pieces_ne_nil
  rw [hpieces, parts_of_pieces hpieces, leadOf]
  split
  next hhere =>
    rw [hhere]
    rfl
  next =>
    split
    next hroot =>
      rw [hroot.1]
      rfl
    next => rfl

/-- A path is put together from its parts. -/
theorem ofParts_parts (path : Path) : ofParts path.parts.1 path.parts.2 = path := by
  obtain ⟨first, rest, hpieces⟩ := List.exists_cons_of_ne_nil path.pieces_ne_nil
  have htext : path = ⟨[slash].intercalate (first :: rest)⟩ := by
    rw [← hpieces, intercalate_pieces]
  rw [parts_of_pieces hpieces, htext, leadOf]
  dsimp only
  split
  next hhere =>
    rw [hhere]
    rfl
  next =>
    split
    next hroot =>
      obtain ⟨rfl, hrest⟩ := hroot
      obtain ⟨next, later, rfl⟩ := List.exists_cons_of_ne_nil hrest
      rw [List.intercalate_cons_cons]
      rfl
    next => rfl

section Join

variable {base path : Path}

theorem getLast?_pieces_eq_some_iff (hpath : path.text ≠ []) :
    path.pieces.getLast? = some [] ↔ path.text.getLast? = some slash := by
  constructor
  · intro hlast
    obtain ⟨before, hpieces⟩ := List.getLast?_eq_some_iff.mp hlast
    have hslash : ∀ piece ∈ before, slash ∉ piece := by
      intro piece hpiece
      exact slash_not_mem_of_mem_pieces (hpieces ▸ List.mem_append_left _ hpiece)
    have hbefore : before ≠ [] := by
      rintro rfl
      exact hpath (text_eq_empty_of_pieces hpieces)
    have heq : path = ⟨[slash].intercalate before ++ [slash]⟩ := by
      apply pieces_injective
      rw [hpieces, pieces_slash, pieces_intercalate hbefore hslash]
    rw [heq, List.getLast?_concat]
  · intro hslash
    obtain ⟨stem, rfl⟩ := exists_eq_slash hslash
    rw [pieces_slash, List.getLast?_concat]

/-- The pieces of a path that is joined to another one follow the pieces of that one. -/
theorem pieces_join (hbase : base.text ≠ []) (hpath : path.isAbsolute = false) :
    (base.join path).pieces = withoutSlash base.pieces ++ path.pieces := by
  have hnot : ¬(path.isAbsolute = true ∨ base.text = []) := by simp [hbase, hpath]
  rw [join, if_neg hnot, withoutSlash]
  simp only [getLast?_pieces_eq_some_iff hbase]
  split
  next hslash =>
    obtain ⟨stem, rfl⟩ := exists_eq_slash hslash
    rw [pieces_slash, List.dropLast_concat, List.append_assoc, List.singleton_append]
    exact pieces_append_slash _ _
  next => exact pieces_append_slash _ _

/-- A path that is joined to another one keeps the start of that one. -/
theorem parts_join (hbase : base.text ≠ []) (hpath : path.isAbsolute = false) :
    (base.join path).parts = (base.parts.1, withoutSlash base.parts.2 ++ path.pieces) := by
  obtain ⟨first, rest, hpieces⟩ := List.exists_cons_of_ne_nil base.pieces_ne_nil
  have hjoin := pieces_join hbase hpath
  by_cases hrest : rest = []
  · -- A single piece is not empty, hence not taken for a slash.
    subst hrest
    have hfirst : first ≠ [] := by
      rintro rfl
      exact hbase (text_eq_empty_of_pieces hpieces)
    have hsingle : withoutSlash [first] = [first] := by simp [withoutSlash, hfirst]
    rw [hpieces, hsingle, List.singleton_append] at hjoin
    rw [parts_of_pieces hjoin, parts_of_pieces hpieces]
    have hlead : leadOf first path.pieces = leadOf first [] := by simp [leadOf, hfirst]
    rw [hlead]
    dsimp only
    split
    · rw [hsingle, List.singleton_append]
    · rfl
  · have hcons : withoutSlash (first :: rest) = first :: withoutSlash rest :=
      @withoutSlash_append [first] rest hrest
    rw [hpieces, hcons, List.cons_append] at hjoin
    have hlead : leadOf first (withoutSlash rest ++ path.pieces) = leadOf first rest := by
      simp [leadOf, hrest, pieces_ne_nil]
    rw [parts_of_pieces hjoin, parts_of_pieces hpieces, hlead]
    dsimp only
    split
    · rw [hcons, List.cons_append]
    · rfl

end Join

section Said

variable {names : List RawText} (hnames : ∀ name ∈ names, isSilent name = false)

include hnames

theorem tidyEnd_of_said : tidyEnd names = names := by
  induction names with
  | nil => rfl
  | cons first rest ih =>
      rw [tidyEnd_cons rest (hnames first List.mem_cons_self)]
      rw [ih fun name hname => hnames name (List.mem_cons_of_mem _ hname)]

/-- Pieces that say something are determined by what they say. -/
theorem map_text_filterMap : (names.filterMap Component.ofPiece?).map Component.text = names := by
  induction names with
  | nil => rfl
  | cons first rest ih =>
      obtain ⟨hempty, hhere⟩ := isSilent_eq_false_iff.mp (hnames first List.mem_cons_self)
      have hrest := ih fun name hname => hnames name (List.mem_cons_of_mem _ hname)
      by_cases hup : first = [dot, dot]
      · rw [List.filterMap_cons_some (b := .up) (by simp [Component.ofPiece?, hup]), List.map_cons,
          hrest, hup]
        rfl
      · rw [List.filterMap_cons_some (b := .name first)
          (by simp [Component.ofPiece?, hempty, hhere, hup]), List.map_cons, hrest]
        rfl

end Said

/-- No piece stands for a start. -/
theorem ne_start_of_mem_filterMap {pieces : List RawText} {component : Component}
    (hcomponent : component ∈ pieces.filterMap Component.ofPiece?) :
    component ≠ .root ∧ component ≠ .here := by
  obtain ⟨piece, -, hpiece⟩ := List.mem_filterMap.mp hcomponent
  rw [Component.ofPiece?] at hpiece
  split_ifs at hpiece <;> simp [← Option.some.inj hpiece]

theorem components_append_inj {lead lead' : Lead} {said said' : List Component}
    (hsaid : ∀ component ∈ said, component ≠ .root ∧ component ≠ .here)
    (hsaid' : ∀ component ∈ said', component ≠ .root ∧ component ≠ .here)
    (heq : lead.components ++ said = lead'.components ++ said') : lead = lead' ∧ said = said' := by
  cases lead <;> cases lead' <;> grind [Lead.components]

/-- The start of a path and the pieces after it, if they all say something, are determined by the
components. -/
theorem ofParts_eq_of_components_eq {lead lead' : Lead} {names names' : List RawText}
    (hnames : ∀ name ∈ names, isSilent name = false)
    (hnames' : ∀ name ∈ names', isSilent name = false)
    (heq : lead.components ++ names.filterMap Component.ofPiece? =
      lead'.components ++ names'.filterMap Component.ofPiece?) :
    ofParts lead names = ofParts lead' names' := by
  obtain ⟨rfl, hsaid⟩ := components_append_inj (fun _ => ne_start_of_mem_filterMap)
    (fun _ => ne_start_of_mem_filterMap) heq
  rw [← map_text_filterMap hnames, hsaid, map_text_filterMap hnames']

section Below

variable {base path : Path}

/-- Whether a path goes on plainly after a base, or is plain as a whole. -/
def PlainFrom (base path : Path) : Prop :=
  path.text ≠ [] ∧ ∃ before after, path.parts.2 = before ++ after ∧
    (∀ piece ∈ withoutSlash after, isSilent piece = false) ∧
    (before = [] ∨ base.text ≠ [] ∧
      base.components = path.parts.1.components ++ before.filterMap Component.ofPiece?)

theorem IsPlain.plainFrom (hpath : path.IsPlain) (hne : path.text ≠ []) : base.PlainFrom path :=
  ⟨hne, [], path.parts.2, rfl, hpath, .inl rfl⟩

/-- The pieces of a path are those after its start, and a silent one if it has a start. -/
theorem exists_pieces_eq (path : Path) :
    ∃ silent, path.pieces = silent ++ path.parts.2 ∧
      silent.filterMap Component.ofPiece? = [] := by
  refine ⟨path.parts.1.pieces, path.pieces_eq_append_parts, ?_⟩
  cases path.parts.1 <;> rfl

/-- A plain path that is joined to a base goes on plainly after it. -/
theorem IsPlain.plainFrom_join (hpath : path.IsPlain) (hne : (base.join path).text ≠ []) :
    base.PlainFrom (base.join path) := by
  by_cases habsolute : path.isAbsolute = true
  · rw [join_of_isAbsolute habsolute] at hne ⊢
    exact hpath.plainFrom hne
  by_cases hbase : base.text = []
  · rw [join_of_text_eq_empty hbase] at hne ⊢
    exact hpath.plainFrom hne
  have hrelative : path.isAbsolute = false := Bool.not_eq_true _ ▸ habsolute
  obtain ⟨silent, hpieces, hsilent⟩ := path.exists_pieces_eq
  rw [PlainFrom, parts_join hbase hrelative, hpieces]
  refine ⟨hne, withoutSlash base.parts.2 ++ silent, path.parts.2, ?_, hpath, .inr ⟨hbase, ?_⟩⟩
  · rw [List.append_assoc]
  · rw [List.filterMap_append, filterMap_withoutSlash, hsilent, List.append_nil]
    rfl

theorem pieces_of_slash_not_mem {name : RawText} (hslash : slash ∉ name) :
    pieces ⟨name⟩ = [name] := by
  have hsingle : [slash].intercalate [name] = name := List.intercalate_singleton
  have hpieces := pieces_intercalate (List.cons_ne_nil name []) (by simpa using hslash)
  rwa [hsingle] at hpieces

theorem isAbsolute_of_slash_not_mem {name : RawText} (hslash : slash ∉ name) :
    isAbsolute ⟨name⟩ = false := by
  rw [← Bool.not_eq_true, isAbsolute_iff]
  exact fun hhead => hslash (List.mem_of_head? hhead)

/-- Going down by a name goes on plainly. -/
theorem PlainFrom.join (hpath : base.PlainFrom path) {name : RawText}
    (hname : isSilent name = false) (hslash : slash ∉ name) :
    base.PlainFrom (path.join ⟨name⟩) := by
  obtain ⟨hne, before, after, hparts, hafter, hbefore⟩ := hpath
  have habsolute := isAbsolute_of_slash_not_mem hslash
  have hjoin : (path.join ⟨name⟩).text ≠ [] := by
    rw [ne_eq, ← components_eq_nil_iff, components_join hne habsolute, List.append_eq_nil_iff,
      components_eq_nil_iff]
    exact fun hempty => hne hempty.1
  have hsingle : withoutSlash [name] = [name] := by
    simp [withoutSlash, (isSilent_eq_false_iff.mp hname).1]
  rw [PlainFrom, parts_join hne habsolute, pieces_of_slash_not_mem hslash, hparts]
  refine ⟨hjoin, ?_⟩
  by_cases hnil : after = []
  · refine ⟨withoutSlash before, [name], by rw [hnil, List.append_nil], ?_, ?_⟩
    · simpa [hsingle] using hname
    · rcases hbefore with rfl | ⟨hbase, hcomponents⟩
      · exact .inl rfl
      · exact .inr ⟨hbase, by rw [filterMap_withoutSlash, hcomponents]⟩
  · refine ⟨before, withoutSlash after ++ [name], ?_, ?_, hbefore⟩
    · rw [withoutSlash_append hnil, List.append_assoc]
    · rw [withoutSlash_append (List.cons_ne_nil _ _), hsingle]
      intro piece hpiece
      rcases List.mem_append.mp hpiece with hpiece | hpiece
      · exact hafter piece hpiece
      · exact List.mem_singleton.mp hpiece ▸ hname

theorem suffix_pieces (path : Path) : path.parts.2 <:+ path.pieces :=
  ⟨_, path.pieces_eq_append_parts.symm⟩

/-- A path that does not end with a slash has none to be dropped from its pieces. -/
theorem withoutSlash_of_pieces {before after : List RawText}
    (hparts : path.parts.2 = before ++ after) (hslash : path.pieces.getLast? ≠ some []) :
    withoutSlash after = after := by
  have hlast : after.getLast? ≠ some [] := by
    intro hlast
    obtain ⟨more, hmore⟩ := path.suffix_pieces
    apply hslash
    rw [← hmore, hparts, List.getLast?_append, List.getLast?_append, hlast]
    rfl
  rw [withoutSlash, if_neg hlast]

/-- When components that are written first are dropped, the names after them are left. -/
theorem dropWhile_suffix_of_dropComponents? {before after rest : List RawText}
    (hrest : dropComponents? (before.filterMap Component.ofPiece?) (before ++ after) = some rest) :
    rest.dropWhile isSilent <:+ after := by
  induction before generalizing rest with
  | nil => exact (List.dropWhile_suffix _).trans (suffix_of_dropComponents? hrest)
  | cons piece before ih =>
      cases hpiece : Component.ofPiece? piece with
      | none =>
          have hsilent : isSilent piece = true := by rw [isSilent, hpiece]; rfl
          rw [List.filterMap_cons_none hpiece] at hrest
          cases hwanted : before.filterMap Component.ofPiece? with
          | nil =>
              rw [hwanted] at hrest ih
              obtain rfl := Option.some.inj hrest
              rw [List.cons_append, List.dropWhile_cons_of_pos hsilent]
              exact ih rfl
          | cons component wanted =>
              rw [hwanted] at hrest ih
              apply ih
              rw [← hrest, dropComponents?, dropComponents?, List.cons_append,
                List.dropWhile_cons_of_pos hsilent]
      | some component =>
          have hsaid : ¬isSilent piece = true := by rw [isSilent, hpiece]; simp
          rw [List.filterMap_cons_some hpiece, dropComponents?, List.cons_append,
            List.dropWhile_cons_of_neg hsaid] at hrest
          dsimp only at hrest
          rw [if_pos hpiece] at hrest
          exact ih hrest

/-- A path that goes on plainly after a base is displayed by a text that its components
determine. -/
theorem PlainFrom.exists_ofParts (hpath : base.PlainFrom path)
    (hslash : path.pieces.getLast? ≠ some []) :
    ∃ lead names, (∀ name ∈ names, isSilent name = false) ∧
      (path.relativeTo? base).getD path = ofParts lead names ∧
      path.components = (if base.components <+: path.components then base.components else []) ++
        (lead.components ++ names.filterMap Component.ofPiece?) := by
  obtain ⟨hne, before, after, hparts, hafter, hbefore⟩ := hpath
  have hcomponents : path.components =
      path.parts.1.components ++ path.parts.2.filterMap Component.ofPiece? := rfl
  have hsaid : ∀ piece ∈ after, isSilent piece = false := by
    rwa [withoutSlash_of_pieces hparts hslash] at hafter
  by_cases hbelow : base.components <+: path.components
  · rw [if_pos hbelow]
    obtain ⟨relative, hrelative⟩ := exists_relativeTo? hbelow
    rw [hrelative, Option.getD_some]
    by_cases hbase : base.text = []
    · rcases hbefore with rfl | ⟨hnot, -⟩
      · rw [relativeTo?_of_text_eq_empty hbase] at hrelative
        obtain rfl := Option.some.inj hrelative
        rw [List.nil_append] at hparts
        refine ⟨path.parts.1, after, hsaid, by rw [hparts, tidyEnd_of_said hsaid], ?_⟩
        rw [components_eq_nil_iff.mpr hbase, List.nil_append, hcomponents, hparts]
      · exact absurd hbase hnot
    · obtain ⟨wanted, rest, hwanted, hrest, rfl⟩ :=
        (relativeTo?_eq_some_iff (mt components_eq_nil_iff.mp hbase)).mp hrelative
      have hsuffix : rest.dropWhile isSilent <:+ after := by
        rw [hparts] at hrest
        rcases hbefore with rfl | ⟨-, hbefore⟩
        · exact (List.dropWhile_suffix _).trans (suffix_of_dropComponents? hrest)
        · rw [List.append_cancel_left (hwanted.symm.trans hbefore)] at hrest
          exact dropWhile_suffix_of_dropComponents? hrest
      have hnames : ∀ name ∈ rest.dropWhile isSilent, isSilent name = false :=
        fun name hname => hsaid name (hsuffix.mem hname)
      refine ⟨.none, rest.dropWhile isSilent, hnames, by rw [tidyEnd_of_said hnames], ?_⟩
      rw [hcomponents, filterMap_of_dropComponents? hrest, filterMap_dropWhile_isSilent, hwanted,
        List.append_assoc]
      rfl
  · have hnil : before = [] := by
      rcases hbefore with hnil | ⟨-, hbase⟩
      · exact hnil
      · refine absurd ?_ hbelow
        rw [hbase, hcomponents, hparts, List.filterMap_append, ← List.append_assoc]
        exact List.prefix_append _ _
    have hnone : path.relativeTo? base = none := by
      rw [Option.eq_none_iff_forall_ne_some]
      intro relative hrelative
      exact hbelow (prefix_of_relativeTo? hrelative)
    rw [hnil, List.nil_append] at hparts
    refine ⟨path.parts.1, path.parts.2, hparts ▸ hsaid, ?_, ?_⟩
    · rw [hnone, Option.getD_none, ofParts_parts]
    · rw [if_neg hbelow, List.nil_append, hcomponents]

/-- Paths that go on plainly after a base are displayed alike if they have the same components. -/
theorem PlainFrom.eq_of_components_eq {path' : Path} (hpath : base.PlainFrom path)
    (hpath' : base.PlainFrom path') (hslash : path.pieces.getLast? ≠ some [])
    (hslash' : path'.pieces.getLast? ≠ some []) (heq : path.components = path'.components) :
    (path.relativeTo? base).getD path = (path'.relativeTo? base).getD path' := by
  obtain ⟨lead, names, hnames, hshown, hcomponents⟩ := hpath.exists_ofParts hslash
  obtain ⟨lead', names', hnames', hshown', hcomponents'⟩ := hpath'.exists_ofParts hslash'
  rw [hshown, hshown']
  apply ofParts_eq_of_components_eq hnames hnames'
  rw [heq] at hcomponents
  exact List.append_cancel_left (hcomponents.symm.trans hcomponents')

end Below

end EventAudit.Path
