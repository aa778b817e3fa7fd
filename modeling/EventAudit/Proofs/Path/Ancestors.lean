import EventAudit.Proofs.Path.Plain
import Mathlib.Data.List.Infix

/-! # The paths above a path

The paths above a path are told apart by their components: these are the proper beginnings
of the components of the path, the longest first. A place can also be reached from a base
one component at a time, and the components that are passed on the way determine it. -/

namespace EventAudit.Path

section Ancestors

/-- A path that is put together from a start and pieces has their components, if no piece can be
taken for a start. -/
theorem components_ofParts {lead : Lead} {pieces : List RawText}
    (hslash : ∀ piece ∈ pieces, slash ∉ piece)
    (hfirst : lead = .none → ∀ piece ∈ pieces.head?, isSilent piece = false) :
    (ofParts lead pieces).components =
      lead.components ++ pieces.filterMap Component.ofPiece? := by
  cases lead with
  | none => exact components_ofParts_none hslash (hfirst rfl)
  | root => exact components_ofParts_root hslash
  | here => exact components_ofParts_here hslash

theorem ancestorsOfReverse_dropWhile (lead : Lead) (pieces : List RawText) :
    ancestorsOfReverse lead (pieces.dropWhile isSilent) = ancestorsOfReverse lead pieces := by
  induction pieces with
  | nil => rfl
  | cons piece before ih =>
      by_cases hsilent : isSilent piece = true
      · rw [List.dropWhile_cons_of_pos hsilent, ih, ancestorsOfReverse, if_pos hsilent]
      · rw [List.dropWhile_cons_of_neg hsilent]

/-- Each path above has one component less than the one before it; the pieces are given last
first. -/
theorem map_components_ancestorsOfReverse (lead : Lead) {pieces : List RawText}
    (hslash : ∀ piece ∈ pieces, slash ∉ piece)
    (hfirst : lead = .none → ∀ piece ∈ pieces.getLast?, isSilent piece = false) :
    (ancestorsOfReverse lead pieces).map components =
      ((pieces.filterMap Component.ofPiece?).tails.tail.map fun said =>
        lead.components ++ said.reverse) ++ if lead = .here then [[]] else [] := by
  induction pieces with
  | nil =>
      rw [ancestorsOfReverse]
      split <;> rfl
  | cons piece before ih =>
      have hbefore : lead = .none → ∀ piece ∈ before.getLast?, isSilent piece = false := by
        intro hlead last hlast
        apply hfirst hlead
        rw [List.getLast?_cons, hlast]
        rfl
      have htail := ih (fun piece hpiece => hslash piece (List.mem_cons_of_mem _ hpiece)) hbefore
      rw [ancestorsOfReverse]
      split
      next hsilent =>
        rw [htail, List.filterMap_cons_none (Option.isNone_iff_eq_none.mp hsilent)]
      next hsaid =>
        obtain ⟨component, hcomponent⟩ : ∃ component, Component.ofPiece? piece = some component :=
          Option.ne_none_iff_exists'.mp (by simpa [isSilent] using hsaid)
        have hparent : (ofParts lead (before.dropWhile isSilent).reverse).components =
            lead.components ++ (before.filterMap Component.ofPiece?).reverse := by
          rw [components_ofParts, List.filterMap_reverse, filterMap_dropWhile_isSilent]
          · intro piece hpiece
            have hmem := (List.dropWhile_sublist _).mem (List.mem_reverse.mp hpiece)
            exact hslash piece (List.mem_cons_of_mem _ hmem)
          · intro hlead first hfirst'
            rw [List.head?_reverse] at hfirst'
            apply hbefore hlead
            obtain ⟨dropped, hdropped⟩ := List.dropWhile_suffix isSilent (l := before)
            rw [← hdropped, List.getLast?_append, hfirst']
            rfl
        rw [List.map_cons, hparent, htail, List.filterMap_cons_some hcomponent, List.tails_cons,
          List.tail_cons]
        cases before.filterMap Component.ofPiece? with
        | nil => rfl
        | cons last rest =>
            rw [List.tails_cons, List.tail_cons, List.map_cons, List.cons_append]

/-- What a path says after its start. -/
def said (path : Path) : List Component :=
  path.parts.2.filterMap Component.ofPiece?

theorem components_eq_append_said (path : Path) :
    path.components = path.parts.1.components ++ path.said :=
  rfl

theorem filterMap_pieces (path : Path) : path.pieces.filterMap Component.ofPiece? = path.said := by
  obtain ⟨silent, hpieces, hsilent⟩ := path.exists_pieces_eq
  rw [hpieces, List.filterMap_append, hsilent, List.nil_append, said]

theorem properAncestors_eq_tidyEnd (path : Path) :
    path.properAncestors = ancestorsOfReverse path.parts.1 (tidyEnd path.parts.2).reverse := by
  rw [properAncestors, ← ancestorsOfReverse_dropWhile, tidyEnd, List.reverse_reverse]

theorem map_components_properAncestors (path : Path) :
    path.properAncestors.map components =
      (path.said.reverse.tails.tail.map fun said => path.parts.1.components ++ said.reverse) ++
        if path.parts.1 = .here then [[]] else [] := by
  have hsaid : (tidyEnd path.parts.2).reverse.filterMap Component.ofPiece? = path.said.reverse := by
    rw [List.filterMap_reverse, filterMap_tidyEnd, said]
  rw [properAncestors_eq_tidyEnd, map_components_ancestorsOfReverse, hsaid]
  · intro piece hpiece
    exact slash_not_mem_of_mem_parts (mem_of_mem_tidyEnd _ (List.mem_reverse.mp hpiece))
  · intro hlead piece hpiece
    rw [List.getLast?_reverse] at hpiece
    exact isSilent_head?_tidyEnd_parts hlead piece hpiece

/-- The paths at and above a path have ever fewer of its components; one that starts here ends with
the empty path. -/
theorem map_components_ancestors (path : Path) :
    path.ancestors.map components =
      (path.said.inits.map (path.parts.1.components ++ ·)).reverse ++
        if path.parts.1 = .here then [[]] else [] := by
  have hwhole : path.said.reverse.tails = path.said.reverse :: path.said.reverse.tails.tail := by
    cases path.said.reverse <;> rfl
  have htails : path.said.inits.reverse = path.said.reverse.tails.map List.reverse := by
    rw [List.map_reverse_tails, List.reverse_reverse]
  rw [ancestors, List.map_cons, map_components_properAncestors, ← List.map_reverse, htails, hwhole,
    List.map_cons, List.map_cons, List.reverse_reverse, List.map_map]
  rfl

/-- The parent of a path lacks its last component. -/
theorem components_parent? (path : Path) :
    (path.parent?.map components).getD [] = path.components.dropLast := by
  rw [parent?, ← List.head?_map, map_components_properAncestors, components_eq_append_said]
  rcases List.eq_nil_or_concat path.said with hnil | ⟨before, last, hlast⟩
  · rw [hnil]
    cases path.parts.1 <;> rfl
  · rw [hlast, List.concat_eq_append, List.reverse_concat, List.tails_cons, List.tail_cons,
      ← List.append_assoc, List.dropLast_concat]
    cases hbefore : before.reverse with
    | nil =>
        rw [List.reverse_eq_nil_iff.mp hbefore]
        rfl
    | cons component rest =>
        rw [List.tails_cons, ← hbefore, List.map_cons, List.reverse_reverse]
        rfl

/-- What is read off from the components of the parent is read off from all components but the
last, if nothing is read off from no components. -/
theorem bind_parent? {α : Type} (path : Path) (read : List Component → Option α)
    (hread : read [] = none) :
    (path.parent?.bind fun parent => read parent.components) = read path.components.dropLast := by
  rw [← path.components_parent?]
  cases path.parent? with
  | none => exact hread.symm
  | some parent => rfl

end Ancestors

section Pieces

variable {path directory : Path}

/-- A path that is put together has the pieces that it is put together from. -/
theorem pieces_ofParts {lead : Lead} {pieces : List RawText} (hne : pieces ≠ [])
    (hslash : ∀ piece ∈ pieces, slash ∉ piece) :
    (ofParts lead pieces).pieces = lead.pieces ++ pieces := by
  cases lead with
  | none => exact pieces_intercalate hne hslash
  | root =>
      have hroot : (ofParts .root pieces).pieces =
          [[]] ++ Path.pieces ⟨[slash].intercalate pieces⟩ :=
        pieces_append_slash [] _
      rw [hroot, pieces_intercalate hne hslash]
      rfl
  | here =>
      apply pieces_intercalate (List.cons_ne_nil _ _)
      exact List.forall_mem_cons.mpr ⟨by decide, hslash⟩

theorem withoutSlash_pieces_ofParts {lead : Lead} {pieces : List RawText}
    (hslash : ∀ piece ∈ pieces, slash ∉ piece) (hlast : pieces.getLast? ≠ some []) :
    withoutSlash (ofParts lead pieces).pieces = lead.pieces ++ pieces := by
  by_cases hnil : pieces = []
  · subst hnil
    cases lead <;> rfl
  have hkeep : withoutSlash pieces = pieces := by rw [withoutSlash, if_neg hlast]
  rw [pieces_ofParts hnil hslash, withoutSlash_append hnil, hkeep]

/-- The pieces of the paths above are the first ones of the path. -/
theorem pieces_prefix_of_mem_ancestorsOfReverse {lead : Lead} {pieces : List RawText}
    (hslash : ∀ piece ∈ pieces, slash ∉ piece)
    (hdirectory : directory ∈ ancestorsOfReverse lead pieces) :
    withoutSlash directory.pieces <+: (lead.pieces ++ pieces.reverse).dropLast := by
  induction pieces with
  | nil =>
      rw [ancestorsOfReverse] at hdirectory
      split at hdirectory
      · rw [List.mem_singleton.mp hdirectory]
        exact List.nil_prefix
      · cases hdirectory
  | cons piece before ih =>
      have hbefore := (List.forall_mem_cons.mp hslash).2
      have hdrop : (lead.pieces ++ (piece :: before).reverse).dropLast =
          lead.pieces ++ before.reverse := by
        rw [List.reverse_cons, ← List.append_assoc, List.dropLast_concat]
      rw [hdrop]
      have hlater : directory ∈ ancestorsOfReverse lead before →
          withoutSlash directory.pieces <+: lead.pieces ++ before.reverse := fun hmem =>
        (ih hbefore hmem).trans (List.dropLast_prefix _)
      rw [ancestorsOfReverse] at hdirectory
      split at hdirectory
      · exact hlater hdirectory
      · rcases List.mem_cons.mp hdirectory with rfl | hmem
        · rw [withoutSlash_pieces_ofParts, List.prefix_append_right_inj, List.reverse_prefix]
          · exact List.dropWhile_suffix _
          · intro piece hpiece
            have hmem := (List.dropWhile_sublist _).mem (List.mem_reverse.mp hpiece)
            exact hbefore piece hmem
          · intro hlast
            rw [List.getLast?_reverse] at hlast
            cases isSilent_head?_dropWhile [] hlast
        · exact hlater hmem

theorem pieces_prefix_of_mem_ancestors (hdirectory : directory ∈ path.ancestors) :
    withoutSlash directory.pieces <+: withoutSlash path.pieces := by
  rcases List.mem_cons.mp hdirectory with rfl | hproper
  · exact List.prefix_refl _
  · have hslash : ∀ piece ∈ path.parts.2.reverse, slash ∉ piece := fun piece hpiece =>
      slash_not_mem_of_mem_parts (List.mem_reverse.mp hpiece)
    have habove := pieces_prefix_of_mem_ancestorsOfReverse hslash hproper
    rw [List.reverse_reverse, ← pieces_eq_append_parts] at habove
    rw [withoutSlash.eq_def path.pieces]
    split
    · exact habove
    · exact habove.trans (List.dropLast_prefix _)

/-- A name that is joined to a path becomes its last piece. -/
theorem pieces_join_name {name : RawText} (hslash : slash ∉ name) :
    (path.join ⟨name⟩).pieces = withoutSlash path.pieces ++ [name] := by
  have hname := pieces_of_slash_not_mem hslash
  by_cases hempty : path.text = []
  · obtain ⟨text⟩ := path
    obtain rfl : text = [] := hempty
    rw [join_of_text_eq_empty rfl, hname]
    rfl
  · rw [pieces_join hempty (isAbsolute_of_slash_not_mem hslash), hname]

/-- A name is joined to a path by its text, behind a slash if need be. -/
theorem exists_text_join_eq (path : Path) :
    ∃ gap, (gap = [] ∨ gap = [slash]) ∧
      ∀ name, slash ∉ name → (path.join ⟨name⟩).text = path.text ++ gap ++ name := by
  have hname : ∀ name, slash ∉ name → (⟨name⟩ : Path).isAbsolute = false := fun name =>
    isAbsolute_of_slash_not_mem
  by_cases hempty : path.text = []
  · refine ⟨[], .inl rfl, fun name _ => ?_⟩
    rw [join_of_text_eq_empty hempty, hempty, List.append_nil, List.nil_append]
  by_cases hslash : path.text.getLast? = some slash
  · refine ⟨[], .inl rfl, fun name hnot => ?_⟩
    rw [join, if_neg (by simp [hname name hnot, hempty]), if_pos hslash, List.append_nil]
  · refine ⟨[slash], .inr rfl, fun name hnot => ?_⟩
    rw [join, if_neg (by simp [hname name hnot, hempty]), if_neg hslash, List.append_assoc,
      List.singleton_append]

/-- The text of a path above is the beginning of the text of the path, up to a slash. -/
theorem exists_text_eq_append_of_mem_ancestors (hdirectory : directory ∈ path.ancestors) :
    ∃ more, (path.join ⟨[]⟩).text = (directory.join ⟨[]⟩).text ++ more := by
  obtain ⟨rest, hrest⟩ := pieces_prefix_of_mem_ancestors hdirectory
  have hslash : slash ∉ [] := List.not_mem_nil
  have hpath : (path.join ⟨[]⟩).pieces = withoutSlash directory.pieces ++ (rest ++ [[]]) := by
    rw [pieces_join_name hslash, ← hrest, List.append_assoc]
  by_cases hnil : withoutSlash directory.pieces = []
  · refine ⟨(path.join ⟨[]⟩).text, ?_⟩
    have hempty : (directory.join ⟨[]⟩).text = [] := by
      apply text_eq_empty_of_pieces
      rw [pieces_join_name hslash, hnil, List.nil_append]
    rw [hempty, List.nil_append]
  · refine ⟨[slash].intercalate (rest ++ [[]]), ?_⟩
    rw [← intercalate_pieces, ← intercalate_pieces, hpath, pieces_join_name hslash,
      intercalate_append hnil (by simp), intercalate_append hnil (by simp),
      List.intercalate_singleton, List.append_assoc, List.singleton_append]

theorem text_join_name {name : RawText} (hslash : slash ∉ name) :
    (path.join ⟨name⟩).text = (path.join ⟨[]⟩).text ++ name := by
  obtain ⟨gap, -, hjoin⟩ := exists_text_join_eq path
  rw [hjoin name hslash, hjoin [] List.not_mem_nil, List.append_nil]

section Above

variable (hdirectory : directory ∈ path.ancestors) {name name' : RawText}
  (hslash : slash ∉ name)

include hdirectory hslash

/-- Where a name is joined to a path above, there are only bytes of the path and the name. -/
theorem mem_text_of_mem_join {byte : UInt8} (hbyte : byte ≠ slash)
    (hmem : byte ∈ (directory.join ⟨name⟩).text) : byte ∈ path.text ++ name := by
  obtain ⟨more, hmore⟩ := exists_text_eq_append_of_mem_ancestors hdirectory
  obtain ⟨gap, hshort, hjoin⟩ := exists_text_join_eq path
  rw [hjoin [] List.not_mem_nil] at hmore
  have hnot : byte ∉ gap := by rcases hshort with rfl | rfl <;> simp [hbyte]
  rw [text_join_name hslash, List.mem_append] at hmem
  rcases hmem with hmem | hmem
  · have hlonger : byte ∈ path.text ++ gap ++ [] := by
      rw [hmore]
      exact List.mem_append_left _ hmem
    have hpath : byte ∈ path.text := by simpa [hnot] using hlonger
    exact List.mem_append_left _ hpath
  · exact List.mem_append_right _ hmem

/-- A name is joined to a path above by a text that is not longer than with the path. -/
theorem length_text_join_le (hslash' : slash ∉ name') (hle : name.length ≤ name'.length) :
    (directory.join ⟨name⟩).text.length ≤ (path.join ⟨name'⟩).text.length := by
  obtain ⟨more, hmore⟩ := exists_text_eq_append_of_mem_ancestors hdirectory
  rw [text_join_name hslash, text_join_name hslash', hmore, List.length_append,
    List.length_append, List.length_append]
  omega

end Above

end Pieces

section Descent

variable {base path : Path}

/-- A path starts at the root exactly if it is absolute. -/
theorem lead_eq_root_iff : path.parts.1 = .root ↔ path.isAbsolute = true := by
  obtain ⟨first, rest, hpieces⟩ := List.exists_cons_of_ne_nil path.pieces_ne_nil
  rw [parts_of_pieces hpieces, leadOf, isAbsolute_iff]
  constructor
  · intro hlead
    dsimp only at hlead
    split_ifs at hlead with hhere hroot
    obtain ⟨rfl, hrest⟩ := hroot
    obtain ⟨next, later, rfl⟩ := List.exists_cons_of_ne_nil hrest
    have htext := path.intercalate_pieces
    rw [hpieces, List.intercalate_cons_cons] at htext
    rw [← htext]
    rfl
  · intro hhead
    obtain ⟨bytes, hbytes⟩ := List.head?_eq_some_iff.mp hhead
    have hsplit := Text.splitOn_append_cons (List.not_mem_nil : slash ∉ []) bytes
    rw [pieces, hbytes, ← List.nil_append (slash :: bytes), hsplit] at hpieces
    obtain ⟨rfl, rfl⟩ := List.cons.inj hpieces
    simp [List.splitOn_ne_nil]

theorem root_mem_components_iff : .root ∈ path.components ↔ path.isAbsolute = true := by
  have hsaid : .root ∉ path.said := fun hmem => (ne_start_of_mem_filterMap hmem).1 rfl
  rw [components_eq_append_said, List.mem_append, or_iff_left hsaid, ← lead_eq_root_iff]
  cases path.parts.1 <;> simp [Lead.components]

/-- The paths above an absolute path are absolute, those above another one are not. -/
theorem isAbsolute_of_mem_ancestors {directory : Path} (hdirectory : directory ∈ path.ancestors) :
    directory.isAbsolute = path.isAbsolute := by
  have hmem : directory.components ∈ path.ancestors.map components :=
    List.mem_map_of_mem hdirectory
  rw [Bool.eq_iff_iff, ← root_mem_components_iff, ← lead_eq_root_iff]
  rw [map_components_ancestors, List.mem_append, List.mem_reverse, List.mem_map] at hmem
  rcases hmem with ⟨said, hsaid, heq⟩ | hmem
  · have hnot : .root ∉ said := fun hroot =>
      (ne_start_of_mem_filterMap (((List.mem_inits _ _).mp hsaid).mem hroot)).1 rfl
    rw [← heq, List.mem_append, or_iff_left hnot]
    cases path.parts.1 <;> simp [Lead.components]
  · split at hmem
    next hhere => simp [List.mem_singleton.mp hmem, hhere]
    next => cases hmem

theorem isAbsolute_join_of_relative (hpath : path.isAbsolute = false) :
    (base.join path).isAbsolute = base.isAbsolute := by
  by_cases hempty : base.text = []
  · rw [join_of_text_eq_empty hempty, hpath, Eq.comm, isAbsolute, hempty]
    rfl
  · have hnot : .root ∉ path.pieces.filterMap Component.ofPiece? := fun hmem =>
      (ne_start_of_mem_filterMap hmem).1 rfl
    rw [Bool.eq_iff_iff, ← root_mem_components_iff, ← root_mem_components_iff,
      components_join hempty hpath, List.mem_append, or_iff_left hnot]

/-- Whether a component is one that a path can go on with. -/
def Component.IsStep (component : Component) : Prop :=
  ofPiece? component.text = some component ∧ slash ∉ component.text

theorem Component.text_of_ofPiece? {piece : RawText} {component : Component}
    (hpiece : ofPiece? piece = some component) : component.text = piece := by
  rw [ofPiece?] at hpiece
  split_ifs at hpiece with hsilent hup
  · rw [← Option.some.inj hpiece, hup]
    rfl
  · rw [← Option.some.inj hpiece]
    rfl

theorem Component.isStep_of_mem_said {component : Component} (hmem : component ∈ path.said) :
    component.IsStep := by
  obtain ⟨piece, hpiece, hsaid⟩ := List.mem_filterMap.mp hmem
  rw [IsStep, text_of_ofPiece? hsaid]
  exact ⟨hsaid, slash_not_mem_of_mem_parts hpiece⟩

/-- Going on with one component adds this component. -/
theorem components_join_of_isStep {component : Component} (hstep : component.IsStep) :
    (path.join ⟨component.text⟩).components = path.components ++ [component] := by
  obtain ⟨hsaid, hslash⟩ := hstep
  have hpieces := pieces_of_slash_not_mem hslash
  by_cases hempty : path.text = []
  · have hlead : leadOf component.text [] = .none := by
      have hnot : isSilent component.text = false := by rw [isSilent, hsaid]; rfl
      simp [leadOf, (isSilent_eq_false_iff.mp hnot).2]
    rw [join_of_text_eq_empty hempty, components_eq_nil_iff.mpr hempty,
      components_of_pieces hpieces, hlead, List.filterMap_cons_some hsaid]
    rfl
  · rw [components_join hempty (isAbsolute_of_slash_not_mem hslash), hpieces,
      List.filterMap_cons_some hsaid]
    rfl

theorem components_join_of_relative (hbase : base.text ≠ []) (hpath : path.isAbsolute = false) :
    (base.join path).components = base.components ++ path.said := by
  rw [components_join hbase hpath, filterMap_pieces]

/-- The place that components lead to, one after the other. -/
def descend (base : Path) (components : List Component) : Path :=
  components.foldl (fun path component => path.join ⟨component.text⟩) base

theorem components_descend_of_isStep {components : List Component}
    (hsteps : ∀ component ∈ components, component.IsStep) :
    (path.descend components).components = path.components ++ components := by
  induction components generalizing path with
  | nil => exact (List.append_nil _).symm
  | cons component rest ih =>
      calc (path.descend (component :: rest)).components
          = ((path.join ⟨component.text⟩).descend rest).components := rfl
        _ = (path.join ⟨component.text⟩).components ++ rest :=
            ih fun later hlater => hsteps later (List.mem_cons_of_mem _ hlater)
        _ = path.components ++ component :: rest := by
            rw [components_join_of_isStep (hsteps component List.mem_cons_self),
              List.append_assoc, List.singleton_append]

/-- Going on with the components of a path one by one leads to where the path leads as a whole. -/
theorem components_descend_components (base path : Path) :
    (base.descend path.components).components = (base.join path).components := by
  have hsaid : (base.descend path.components).components =
      (base.descend path.parts.1.components).components ++ path.said := by
    rw [path.components_eq_append_said, descend, List.foldl_append]
    exact components_descend_of_isStep fun _ => Component.isStep_of_mem_said
  rw [hsaid]
  by_cases habsolute : path.isAbsolute = true
  · have hroot : (base.descend Lead.root.components).components = Lead.root.components :=
      congrArg components (join_of_isAbsolute (by decide) : base.join ⟨[slash]⟩ = ⟨[slash]⟩)
    rw [join_of_isAbsolute habsolute, path.components_eq_append_said,
      lead_eq_root_iff.mpr habsolute, hroot]
  · have hnotRoot : path.parts.1 ≠ .root := mt lead_eq_root_iff.mp habsolute
    by_cases hempty : base.text = []
    · have hstart : (base.descend path.parts.1.components).components =
          path.parts.1.components := by
        cases hlead : path.parts.1 with
        | none => exact components_eq_nil_iff.mpr hempty
        | root => exact absurd hlead hnotRoot
        | here =>
            exact congrArg components (join_of_text_eq_empty hempty : base.join ⟨[dot]⟩ = ⟨[dot]⟩)
      rw [join_of_text_eq_empty hempty, path.components_eq_append_said, hstart]
    · have hstart : (base.descend path.parts.1.components).components = base.components := by
        cases hlead : path.parts.1 with
        | none => rfl
        | root => exact absurd hlead hnotRoot
        | here =>
            -- Behind a base, the start `.` says nothing.
            have hjoin : (base.join ⟨[dot]⟩).components =
                base.components ++ (pieces ⟨[dot]⟩).filterMap Component.ofPiece? :=
              components_join hempty (by decide)
            exact hjoin.trans (List.append_nil _)
      rw [components_join_of_relative hempty (Bool.not_eq_true _ ▸ habsolute), hstart]

theorem components_join_congr {path path' : Path} (heq : path.components = path'.components)
    (name : Path) : (path.join name).components = (path'.join name).components := by
  by_cases habsolute : name.isAbsolute = true
  · rw [join_of_isAbsolute habsolute, join_of_isAbsolute habsolute]
  · have hrelative : name.isAbsolute = false := Bool.not_eq_true _ ▸ habsolute
    by_cases hempty : path.text = []
    · have hempty' : path'.text = [] := by
        rw [← components_eq_nil_iff, ← heq, components_eq_nil_iff, hempty]
      rw [join_of_text_eq_empty hempty, join_of_text_eq_empty hempty']
    · have hne : path'.text ≠ [] := by
        rw [ne_eq, ← components_eq_nil_iff, ← heq, components_eq_nil_iff]
        exact hempty
      rw [components_join hempty hrelative, components_join hne hrelative, heq]

end Descent

end EventAudit.Path
