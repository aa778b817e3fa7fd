import EventAudit.Proofs.Path.Components

/-! # Paths seen from a base

A path that is seen from a base and joined to it again has the components that it had
before, though not always the same text. This holds of every path that is absolute or
written below the base, and going down from such a path leads to such paths only. -/

namespace EventAudit.Path

/-- The components that were asked for are gone, and the others are left. -/
theorem filterMap_of_dropComponents? {wanted : List Component} {pieces rest : List RawText}
    (hrest : dropComponents? wanted pieces = some rest) :
    pieces.filterMap Component.ofPiece? = wanted ++ rest.filterMap Component.ofPiece? := by
  induction wanted generalizing pieces with
  | nil =>
      obtain rfl : pieces = rest := Option.some.inj hrest
      rfl
  | cons component wanted ih =>
      rw [dropComponents?] at hrest
      rw [← filterMap_dropWhile_isSilent pieces]
      split at hrest
      next => cases hrest
      next piece later hpieces =>
        split at hrest
        next hpiece => rw [hpieces, List.filterMap_cons_some hpiece, ih hrest, List.cons_append]
        next => cases hrest

theorem exists_dropComponents? {wanted more : List Component} {pieces : List RawText}
    (hpieces : pieces.filterMap Component.ofPiece? = wanted ++ more) :
    ∃ rest, dropComponents? wanted pieces = some rest := by
  induction wanted generalizing pieces with
  | nil => exact ⟨pieces, rfl⟩
  | cons component wanted ih =>
      rw [dropComponents?]
      rw [← filterMap_dropWhile_isSilent pieces] at hpieces
      cases hdrop : pieces.dropWhile isSilent with
      | nil => simp [hdrop] at hpieces
      | cons piece later =>
          -- What is not dropped says something, which is the component asked for.
          have hsome : isSilent piece = false :=
            isSilent_head?_dropWhile piece (by rw [hdrop]; rfl)
          obtain ⟨said, hsaid⟩ : ∃ said, Component.ofPiece? piece = some said :=
            Option.isSome_iff_exists.mp (Option.isNone_eq_false_iff.mp hsome)
          rw [hdrop, List.filterMap_cons_some hsaid, List.cons_append, List.cons.injEq] at hpieces
          obtain ⟨rfl, hlater⟩ := hpieces
          obtain ⟨rest, hrest⟩ := ih hlater
          exact ⟨rest, by simp [hsaid, hrest]⟩

theorem suffix_of_dropComponents? {wanted : List Component} {pieces rest : List RawText}
    (hrest : dropComponents? wanted pieces = some rest) : rest <:+ pieces := by
  induction wanted generalizing pieces with
  | nil =>
      obtain rfl : pieces = rest := Option.some.inj hrest
      exact List.suffix_refl _
  | cons component wanted ih =>
      rw [dropComponents?] at hrest
      split at hrest
      next => cases hrest
      next first later hpieces =>
        split at hrest
        next =>
          have hlater : later <:+ pieces.dropWhile isSilent := by
            rw [hpieces]
            exact List.suffix_cons _ _
          exact (ih hrest).trans (hlater.trans (List.dropWhile_suffix _))
        next => cases hrest

section Relative

variable {base path relative : Path}

theorem relativeTo?_of_text_eq_empty (hbase : base.text = []) :
    path.relativeTo? base = some (ofParts path.parts.1 (tidyEnd path.parts.2)) := by
  rw [relativeTo?, components_eq_nil_iff.mpr hbase]

/-- Below a base that is not empty, a path has the same start and the same components first. -/
theorem relativeTo?_eq_some_iff (hbase : base.components ≠ []) :
    path.relativeTo? base = some relative ↔ ∃ wanted rest,
      base.components = path.parts.1.components ++ wanted ∧
        dropComponents? wanted path.parts.2 = some rest ∧
          ofParts .none (tidyEnd (rest.dropWhile isSilent)) = relative := by
  rw [relativeTo?]
  obtain ⟨component, components, hcomponents⟩ := List.exists_cons_of_ne_nil hbase
  obtain ⟨lead, pieces⟩ := path.parts
  rw [hcomponents]
  cases lead with
  | none => simp [Lead.components]
  | root => cases component <;> simp [Lead.components]
  | here => cases component <;> simp [Lead.components]

/-- What is left of a path below a base does not start with a slash. -/
theorem isAbsolute_ofParts_none {pieces : List RawText}
    (hslash : ∀ piece ∈ pieces, slash ∉ piece)
    (hfirst : ∀ piece ∈ pieces.head?, isSilent piece = false) :
    (ofParts .none pieces).isAbsolute = false := by
  rw [← Bool.not_eq_true, isAbsolute_iff]
  cases pieces with
  | nil => simp [ofParts]
  | cons first rest =>
      obtain ⟨hempty, -⟩ := isSilent_eq_false_iff.mp (hfirst first rfl)
      obtain ⟨byte, bytes, hbytes⟩ := List.exists_cons_of_ne_nil hempty
      have hbyte : byte ≠ slash := by
        rintro rfl
        exact hslash first List.mem_cons_self (hbytes ▸ List.mem_cons_self)
      cases rest with
      | nil => simp [ofParts, hbytes, hbyte]
      | cons second rest => simp [ofParts, hbytes, hbyte]

/-- What is left of a path below a base is put together from pieces that start with one that says
something, and they say what follows the base. -/
theorem exists_pieces_of_relativeTo? (hbase : base.text ≠ [])
    (hrelative : path.relativeTo? base = some relative) :
    ∃ pieces, relative = ofParts .none pieces ∧ (∀ piece ∈ pieces, slash ∉ piece) ∧
      (∀ piece ∈ pieces.head?, isSilent piece = false) ∧
      path.components = base.components ++ pieces.filterMap Component.ofPiece? := by
  have hne : base.components ≠ [] := fun hnil => hbase (components_eq_nil_iff.mp hnil)
  obtain ⟨wanted, rest, hcomponents, hrest, rfl⟩ := (relativeTo?_eq_some_iff hne).mp hrelative
  have hslash : ∀ piece ∈ tidyEnd (rest.dropWhile isSilent), slash ∉ piece := by
    intro piece hpiece
    have hmem : piece ∈ rest := (List.dropWhile_sublist _).mem (mem_of_mem_tidyEnd _ hpiece)
    exact slash_not_mem_of_mem_parts ((suffix_of_dropComponents? hrest).mem hmem)
  refine ⟨_, rfl, hslash, isSilent_head?_tidyEnd isSilent_head?_dropWhile, ?_⟩
  rw [hcomponents, List.append_assoc, filterMap_tidyEnd, filterMap_dropWhile_isSilent,
    ← filterMap_of_dropComponents? hrest]
  rfl

/-- A path below a base has the components of the base and then those of the rest. -/
theorem components_of_relativeTo? (hbase : base.text ≠ [])
    (hrelative : path.relativeTo? base = some relative) :
    path.components =
        base.components ++ relative.pieces.filterMap Component.ofPiece? ∧
      relative.isAbsolute = false := by
  obtain ⟨pieces, rfl, hslash, hfirst, hcomponents⟩ :=
    exists_pieces_of_relativeTo? hbase hrelative
  constructor
  · rw [hcomponents, ofParts, filterMap_pieces_intercalate hslash]
  · exact isAbsolute_ofParts_none hslash hfirst

theorem prefix_of_relativeTo? (hrelative : path.relativeTo? base = some relative) :
    base.components <+: path.components := by
  by_cases hbase : base.text = []
  · rw [components_eq_nil_iff.mpr hbase]
    exact List.nil_prefix
  · rw [(components_of_relativeTo? hbase hrelative).1]
    exact List.prefix_append _ _

/-- Joined to the base again, a relative path leads to the same place. -/
theorem components_join_of_relativeTo? (hrelative : path.relativeTo? base = some relative) :
    (base.join relative).components = path.components := by
  by_cases hbase : base.text = []
  · rw [join_of_text_eq_empty hbase]
    rw [relativeTo?_of_text_eq_empty hbase] at hrelative
    obtain rfl := Option.some.inj hrelative
    exact path.components_ofParts_tidyEnd
  · obtain ⟨hcomponents, habsolute⟩ := components_of_relativeTo? hbase hrelative
    rw [components_join hbase habsolute, hcomponents]

theorem exists_relativeTo? (hbelow : base.components <+: path.components) :
    ∃ relative, path.relativeTo? base = some relative := by
  by_cases hbase : base.components = []
  · rw [relativeTo?, hbase]
    exact ⟨_, rfl⟩
  · obtain ⟨more, hmore⟩ := hbelow
    obtain ⟨component, rest, hcomponents⟩ := List.exists_cons_of_ne_nil hbase
    have hpath : path.components =
        path.parts.1.components ++ path.parts.2.filterMap Component.ofPiece? := rfl
    -- The base begins with the start of the path, and its other components follow there.
    obtain ⟨wanted, hwanted, hpieces⟩ : ∃ wanted,
        base.components = path.parts.1.components ++ wanted ∧
          path.parts.2.filterMap Component.ofPiece? = wanted ++ more := by
      rw [hpath, hcomponents] at hmore
      rw [hcomponents]
      cases hlead : path.parts.1 with
      | none =>
          rw [hlead] at hmore
          exact ⟨component :: rest, rfl, hmore.symm⟩
      | root =>
          rw [hlead] at hmore
          obtain ⟨rfl, hrest⟩ := List.cons.inj hmore
          exact ⟨rest, rfl, hrest.symm⟩
      | here =>
          rw [hlead] at hmore
          obtain ⟨rfl, hrest⟩ := List.cons.inj hmore
          exact ⟨rest, rfl, hrest.symm⟩
    obtain ⟨later, hlater⟩ := exists_dropComponents? hpieces
    exact ⟨_, (relativeTo?_eq_some_iff hbase).mpr ⟨wanted, later, hwanted, hlater, rfl⟩⟩

/-- Whether a path is absolute or written below a base. -/
def SeenFrom (base path : Path) : Prop :=
  path.isAbsolute = true ∨ base.components <+: path.components

/-- A path that is not below the base is absolute. -/
theorem SeenFrom.isAbsolute (hpath : base.SeenFrom path) (hnone : path.relativeTo? base = none) :
    path.isAbsolute = true := by
  refine hpath.resolve_right fun hbelow => ?_
  obtain ⟨relative, hsome⟩ := exists_relativeTo? hbelow
  rw [hnone] at hsome
  cases hsome

theorem seenFrom_self (base : Path) : base.SeenFrom base :=
  .inr (List.prefix_refl _)

theorem isAbsolute_join (hbase : base.isAbsolute = true) : (base.join path).isAbsolute = true := by
  rw [join]
  split_ifs with hpath hslash
  · rcases hpath with hpath | hempty
    · exact hpath
    · rw [isAbsolute_iff, hempty] at hbase
      cases hbase
  · rw [isAbsolute_iff] at hbase ⊢
    rw [List.head?_append, hbase, Option.some_or]
  · rw [isAbsolute_iff] at hbase ⊢
    rw [List.head?_append, hbase, Option.some_or]

/-- Going down from a path does not lead away from the base. -/
theorem SeenFrom.join (hpath : base.SeenFrom path) (name : Path) :
    base.SeenFrom (path.join name) := by
  by_cases habsolute : name.isAbsolute = true
  · rw [join_of_isAbsolute habsolute]
    exact .inl habsolute
  · rcases hpath with hpath | hbelow
    · exact .inl (isAbsolute_join hpath)
    · right
      by_cases htext : path.text = []
      · rw [components_eq_nil_iff.mpr htext, List.prefix_nil] at hbelow
        rw [hbelow]
        exact List.nil_prefix
      · rw [components_join htext (Bool.not_eq_true _ ▸ habsolute)]
        exact hbelow.trans (List.prefix_append _ _)

/-- What comes from a base by joining a path to it and then names, one after the other. -/
inductive Grows (base : Path) : Path → Prop where
  | root (root : Path) : Grows base (base.join root)
  | entry {path : Path} (hpath : Grows base path) (name : Path) : Grows base (path.join name)

theorem Grows.seenFrom (hpath : base.Grows path) : base.SeenFrom path := by
  induction hpath with
  | root root => exact base.seenFrom_self.join root
  | entry hpath name ih => exact ih.join name

end Relative

end EventAudit.Path
