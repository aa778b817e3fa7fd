import EventAudit.Path
import EventAudit.Proofs.Text.Lines
import Mathlib.Data.List.Basic

/-! # The components of paths that are put together

The components of a path are read off from its pieces: the first piece may stand for a
start, and every piece says what it says wherever it stands. From this follow the
components of a path that is put together from pieces, and those of two paths joined. -/

namespace EventAudit.Path

theorem parts_of_pieces {path : Path} {first : RawText} {rest : List RawText}
    (hpieces : path.pieces = first :: rest) :
    path.parts = (leadOf first rest,
      if leadOf first rest = .none then first :: rest else rest) := by
  rw [parts, hpieces]

theorem pieces_ne_nil (path : Path) : path.pieces ≠ [] :=
  List.splitOn_ne_nil _ _

/-- The components of a path are its start and what its pieces say. -/
theorem components_of_pieces {path : Path} {first : RawText} {rest : List RawText}
    (hpieces : path.pieces = first :: rest) :
    path.components =
      (leadOf first rest).components ++ (first :: rest).filterMap Component.ofPiece? := by
  rw [components, parts_of_pieces hpieces]
  dsimp only
  rw [leadOf]
  split_ifs <;> simp_all [Lead.components, Component.ofPiece?]

/-- A slash separates the pieces before it from those after it. -/
theorem pieces_append_slash (before after : RawText) :
    pieces ⟨before ++ slash :: after⟩ = pieces ⟨before⟩ ++ pieces ⟨after⟩ :=
  List.splitOn_append_cons_self _ _

theorem pieces_slash (text : RawText) : pieces ⟨text ++ [slash]⟩ = pieces ⟨text⟩ ++ [[]] :=
  pieces_append_slash text []

theorem slash_not_mem_of_mem_pieces {path : Path} {piece : RawText}
    (hpiece : piece ∈ path.pieces) : slash ∉ piece :=
  Text.not_mem_of_mem_splitOn hpiece

/-- The pieces of a path that is put together from pieces. -/
theorem pieces_intercalate {pieces : List RawText} (hne : pieces ≠ [])
    (hslash : ∀ piece ∈ pieces, slash ∉ piece) :
    Path.pieces ⟨[slash].intercalate pieces⟩ = pieces :=
  List.splitOn_intercalate slash hslash hne

/-- Two texts that are put together from pieces are put together by a slash. -/
theorem intercalate_append {before after : List RawText} (hbefore : before ≠ [])
    (hafter : after ≠ []) : [slash].intercalate (before ++ after) =
      [slash].intercalate before ++ slash :: [slash].intercalate after := by
  obtain ⟨next, later, rfl⟩ := List.exists_cons_of_ne_nil hafter
  induction before with
  | nil => exact absurd rfl hbefore
  | cons first rest ih =>
      cases rest with
      | nil =>
          rw [List.singleton_append, List.intercalate_cons_cons, List.intercalate_singleton,
            List.append_assoc, List.singleton_append]
      | cons second rest =>
          rw [List.cons_append, List.cons_append, List.intercalate_cons_cons,
            List.intercalate_cons_cons, ← List.cons_append, ih (List.cons_ne_nil _ _),
            ← List.append_assoc]

section Silent

variable (pieces : List RawText)

theorem filterMap_dropWhile_isSilent :
    (pieces.dropWhile isSilent).filterMap Component.ofPiece? =
      pieces.filterMap Component.ofPiece? := by
  induction pieces with
  | nil => rfl
  | cons piece rest ih =>
      rw [List.dropWhile_cons]
      split
      next hsilent =>
        have hnone : Component.ofPiece? piece = none := Option.isNone_iff_eq_none.mp hsilent
        rw [ih, List.filterMap_cons_none hnone]
      next => rfl

theorem filterMap_tidyEnd :
    (tidyEnd pieces).filterMap Component.ofPiece? = pieces.filterMap Component.ofPiece? := by
  rw [tidyEnd, List.filterMap_reverse, filterMap_dropWhile_isSilent, List.filterMap_reverse,
    List.reverse_reverse]

theorem mem_of_mem_tidyEnd {piece : RawText} (hpiece : piece ∈ tidyEnd pieces) :
    piece ∈ pieces := by
  rw [tidyEnd, List.mem_reverse] at hpiece
  exact List.mem_reverse.mp ((List.dropWhile_sublist _).mem hpiece)

/-- A piece that says something stays in front. -/
theorem tidyEnd_cons {first : RawText} (hfirst : isSilent first = false) :
    tidyEnd (first :: pieces) = first :: tidyEnd pieces := by
  rw [tidyEnd, List.reverse_cons, List.dropWhile_append]
  split
  next hempty =>
    rw [tidyEnd, List.isEmpty_iff.mp hempty]
    simp [hfirst]
  next => rw [List.reverse_append, tidyEnd, List.reverse_singleton, List.singleton_append]

end Silent

section Parts

variable {pieces : List RawText} (hslash : ∀ piece ∈ pieces, slash ∉ piece)

include hslash

theorem filterMap_pieces_intercalate :
    (Path.pieces ⟨[slash].intercalate pieces⟩).filterMap Component.ofPiece? =
      pieces.filterMap Component.ofPiece? := by
  by_cases hne : pieces = []
  · rw [hne]
    rfl
  · rw [pieces_intercalate hne hslash]

theorem components_ofParts_root :
    (ofParts .root pieces).components =
      .root :: pieces.filterMap Component.ofPiece? := by
  have hpieces : (ofParts .root pieces).pieces = [] :: Path.pieces ⟨[slash].intercalate pieces⟩ :=
    pieces_append_slash [] _
  have hlead : leadOf [] (Path.pieces ⟨[slash].intercalate pieces⟩) = .root := by
    simp [leadOf, pieces_ne_nil]
  rw [components_of_pieces hpieces, hlead, List.filterMap_cons_none rfl,
    filterMap_pieces_intercalate hslash]
  rfl

theorem components_ofParts_here :
    (ofParts .here pieces).components =
      .here :: pieces.filterMap Component.ofPiece? := by
  have hpieces : (ofParts .here pieces).pieces = [dot] :: pieces := by
    apply pieces_intercalate (List.cons_ne_nil _ _)
    intro piece hpiece
    rcases List.mem_cons.mp hpiece with rfl | hpiece
    · decide
    · exact hslash piece hpiece
  rw [components_of_pieces hpieces, List.filterMap_cons_none rfl]
  rfl

/-- Without a start, the first piece has to say something, so that it is not taken for one. -/
theorem components_ofParts_none (hfirst : ∀ piece ∈ pieces.head?, isSilent piece = false) :
    (ofParts .none pieces).components = pieces.filterMap Component.ofPiece? := by
  cases pieces with
  | nil => rfl
  | cons first rest =>
      have hpieces : (ofParts .none (first :: rest)).pieces = first :: rest :=
        pieces_intercalate (List.cons_ne_nil _ _) hslash
      have hsome : isSilent first = false := hfirst first rfl
      have hlead : leadOf first rest = .none := by
        rw [leadOf]
        split_ifs with hhere hroot
        · subst hhere
          cases hsome
        · rw [hroot.1] at hsome
          cases hsome
        · rfl
      rw [components_of_pieces hpieces, hlead]
      rfl

end Parts

theorem slash_not_mem_of_mem_parts {path : Path} {piece : RawText} (hpiece : piece ∈ path.parts.2) :
    slash ∉ piece := by
  obtain ⟨first, rest, hpieces⟩ := List.exists_cons_of_ne_nil path.pieces_ne_nil
  have hmem : piece ∈ path.pieces := by
    rw [parts_of_pieces hpieces] at hpiece
    rw [hpieces]
    dsimp only at hpiece
    split at hpiece
    · exact hpiece
    · exact List.mem_cons_of_mem _ hpiece
  exact slash_not_mem_of_mem_pieces hmem

/-- The first piece that is not dropped says something. -/
theorem isSilent_head?_dropWhile {pieces : List RawText} :
    ∀ piece ∈ (pieces.dropWhile isSilent).head?, isSilent piece = false := by
  intro piece hpiece
  have hhead := List.head?_dropWhile_not isSilent pieces
  rw [Option.mem_def] at hpiece
  rw [hpiece] at hhead
  simpa using hhead

theorem isSilent_eq_false_iff {piece : RawText} :
    isSilent piece = false ↔ piece ≠ [] ∧ piece ≠ [dot] := by
  rw [isSilent, Component.ofPiece?, ← not_or]
  split_ifs with hsilent <;> simp [hsilent]

theorem isSilent_head?_tidyEnd {pieces : List RawText}
    (hfirst : ∀ piece ∈ pieces.head?, isSilent piece = false) :
    ∀ piece ∈ (tidyEnd pieces).head?, isSilent piece = false := by
  cases pieces with
  | nil => exact hfirst
  | cons first rest =>
      rw [tidyEnd_cons rest (hfirst first rfl)]
      exact hfirst

/-- A path without a start is empty, or its first piece says something. -/
theorem isSilent_head?_tidyEnd_parts {path : Path} (hlead : path.parts.1 = .none) :
    ∀ piece ∈ (tidyEnd path.parts.2).head?, isSilent piece = false := by
  obtain ⟨first, rest, hpieces⟩ := List.exists_cons_of_ne_nil path.pieces_ne_nil
  rw [parts_of_pieces hpieces] at hlead ⊢
  dsimp only at hlead ⊢
  rw [if_pos hlead]
  rw [leadOf] at hlead
  split_ifs at hlead with hhere hroot
  by_cases hempty : first = []
  · obtain rfl : rest = [] := by
      by_contra hrest
      exact hroot ⟨hempty, hrest⟩
    rw [hempty]
    simp [tidyEnd, isSilent, Component.ofPiece?]
  · apply isSilent_head?_tidyEnd
    intro piece hpiece
    obtain rfl : first = piece := Option.some.inj hpiece
    exact isSilent_eq_false_iff.mpr ⟨hempty, hhere⟩

/-- Silent pieces at the end of a path can be dropped. -/
theorem components_ofParts_tidyEnd (path : Path) :
    (ofParts path.parts.1 (tidyEnd path.parts.2)).components = path.components := by
  have hslash : ∀ piece ∈ tidyEnd path.parts.2, slash ∉ piece := fun piece hpiece =>
    slash_not_mem_of_mem_parts (mem_of_mem_tidyEnd _ hpiece)
  have hcomponents : path.components =
      path.parts.1.components ++ path.parts.2.filterMap Component.ofPiece? := rfl
  rw [hcomponents]
  cases hlead : path.parts.1 with
  | root =>
      rw [components_ofParts_root hslash, filterMap_tidyEnd]
      rfl
  | here =>
      rw [components_ofParts_here hslash, filterMap_tidyEnd]
      rfl
  | none =>
      rw [components_ofParts_none hslash (isSilent_head?_tidyEnd_parts hlead), filterMap_tidyEnd]
      rfl

section Join

variable {base path : Path}

/-- Only the empty path has a single empty piece. -/
theorem text_eq_empty_of_pieces (hpieces : path.pieces = [[]]) : path.text = [] := by
  have hjoin : [slash].intercalate path.pieces = path.text := List.intercalate_splitOn slash
  rw [hpieces] at hjoin
  exact hjoin.symm

/-- The path without components is the empty one. -/
theorem components_eq_nil_iff : path.components = [] ↔ path.text = [] := by
  constructor
  · intro hnil
    obtain ⟨first, rest, hpieces⟩ := List.exists_cons_of_ne_nil path.pieces_ne_nil
    rw [components_of_pieces hpieces, List.append_eq_nil_iff, leadOf] at hnil
    obtain ⟨hlead, hsilent⟩ := hnil
    have hnone : Component.ofPiece? first = none :=
      List.filterMap_eq_nil_iff.mp hsilent first List.mem_cons_self
    split_ifs at hlead with hhere hroot
    · simp [Lead.components] at hlead
    · simp [Lead.components] at hlead
    · have hempty : first = [] := by
        by_contra hne
        have hsome := isSilent_eq_false_iff.mpr ⟨hne, hhere⟩
        rw [isSilent, hnone] at hsome
        cases hsome
      obtain rfl : rest = [] := by
        by_contra hrest
        exact hroot ⟨hempty, hrest⟩
      rw [hempty] at hpieces
      exact text_eq_empty_of_pieces hpieces
  · intro htext
    obtain ⟨text⟩ := path
    obtain rfl : text = [] := htext
    rfl

theorem isAbsolute_iff : path.isAbsolute = true ↔ path.text.head? = some slash := by
  rw [isAbsolute, beq_iff_eq]

theorem join_of_isAbsolute (hpath : path.isAbsolute = true) : base.join path = path := by
  rw [join, if_pos (.inl hpath)]

theorem join_of_text_eq_empty (hbase : base.text = []) : base.join path = path := by
  rw [join, if_pos (.inr hbase)]

/-- What stands after a slash adds what its pieces say. -/
theorem components_append_slash (before after : RawText) :
    components ⟨before ++ slash :: after⟩ =
      components ⟨before ++ [slash]⟩ ++ (pieces ⟨after⟩).filterMap Component.ofPiece? := by
  obtain ⟨first, rest, hbefore⟩ := List.exists_cons_of_ne_nil (pieces_ne_nil ⟨before⟩)
  have hpieces : pieces ⟨before ++ slash :: after⟩ = first :: (rest ++ pieces ⟨after⟩) := by
    rw [pieces_append_slash, hbefore, List.cons_append]
  have hslash : pieces ⟨before ++ [slash]⟩ = first :: (rest ++ [[]]) := by
    rw [pieces_slash, hbefore, List.cons_append]
  have hlead : leadOf first (rest ++ pieces ⟨after⟩) = leadOf first (rest ++ [[]]) := by
    simp [leadOf, pieces_ne_nil]
  rw [components_of_pieces hpieces, components_of_pieces hslash, hlead, ← List.cons_append,
    ← List.cons_append, List.filterMap_append, List.filterMap_append, List.append_assoc,
    List.append_assoc]
  rfl

theorem components_slash {text : RawText} (htext : text ≠ []) :
    components ⟨text ++ [slash]⟩ = components ⟨text⟩ := by
  obtain ⟨first, rest, hpieces⟩ := List.exists_cons_of_ne_nil (pieces_ne_nil ⟨text⟩)
  have hslash : pieces ⟨text ++ [slash]⟩ = first :: (rest ++ [[]]) := by
    rw [pieces_slash, hpieces, List.cons_append]
  have hlead : leadOf first (rest ++ [[]]) = leadOf first rest := by
    have hne : first = [] → rest ≠ [] := by
      rintro rfl rfl
      exact htext (text_eq_empty_of_pieces hpieces)
    rw [leadOf, leadOf]
    by_cases hempty : first = [] <;> simp [hempty, hne]
  rw [components_of_pieces hslash, components_of_pieces hpieces, hlead, ← List.cons_append,
    List.filterMap_append]
  simp [Component.ofPiece?]

theorem exists_eq_slash (hslash : path.text.getLast? = some slash) :
    ∃ stem, path = ⟨stem ++ [slash]⟩ := by
  obtain ⟨stem, hstem⟩ := List.getLast?_eq_some_iff.mp hslash
  exact ⟨stem, congrArg mk hstem⟩

/-- A path that is joined to another one adds what its pieces say. -/
theorem components_join (hbase : base.text ≠ []) (hpath : path.isAbsolute = false) :
    (base.join path).components =
      base.components ++ path.pieces.filterMap Component.ofPiece? := by
  have hnot : ¬(path.isAbsolute = true ∨ base.text = []) := by simp [hbase, hpath]
  rw [join, if_neg hnot]
  split
  next hslash =>
    obtain ⟨stem, rfl⟩ := exists_eq_slash hslash
    rw [List.append_assoc, List.singleton_append]
    exact components_append_slash _ _
  next =>
    rw [components_append_slash, components_slash hbase]

end Join

end EventAudit.Path
