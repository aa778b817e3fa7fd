import EventAudit.Proofs.Path.Ancestors
import EventAudit.Proofs.RawText

/-! # What a path is shown as

A slash is a character of a single byte, so a path is shown piece by piece: the path that
is spelled by what a path is shown as has the same pieces, each of them respelled, and so
has everything above it. It is the path itself, even as far as components go, exactly if
the path is UTF-8. -/

namespace EventAudit.Path

open Text.Utf8

variable {base path : Path}

/-- The path that is spelled by what a path is shown as. -/
def respelled (path : Path) : Path :=
  ofString path.shown

/-- The component whose name is spelled by what the name is shown as. -/
def Component.respelled : Component → Component
  | name text => name text.respelled
  | component => component

theorem slash_lt : '/'.toNat < 0x80 := by decide

/-- What stands between slashes is respelled piece by piece. -/
theorem respelled_intercalate (pieces : List RawText) :
    RawText.respelled ([slash].intercalate pieces) =
      [slash].intercalate (pieces.map RawText.respelled) := by
  have hdecode := decodeLossy_intercalate slash_lt pieces
  have hencode := encode_intercalate slash_lt (pieces.map decodeLossy)
  rw [List.map_map] at hencode
  calc RawText.respelled ([slash].intercalate pieces)
      = encode (decodeLossy ([slash].intercalate pieces)) := RawText.respelled_eq_encode _
    _ = [slash].intercalate (pieces.map (encode ∘ decodeLossy)) :=
        (congrArg encode hdecode).trans hencode
    _ = [slash].intercalate (pieces.map RawText.respelled) := by
        rw [funext RawText.respelled_eq_encode]
        rfl

theorem slash_not_mem_respelled {piece : RawText} (hslash : slash ∉ piece) :
    slash ∉ piece.respelled := by
  rw [RawText.respelled_eq_encode]
  exact separator_not_mem_encode slash_lt
    ((decodesTo_decodeLossy piece).separator_not_mem slash_lt hslash)

theorem pieces_respelled (path : Path) :
    path.respelled.pieces = path.pieces.map RawText.respelled := by
  have hpath : path.respelled = ⟨[slash].intercalate (path.pieces.map RawText.respelled)⟩ := by
    rw [← respelled_intercalate, intercalate_pieces]
    rfl
  rw [hpath, pieces_intercalate (by simpa using path.pieces_ne_nil)]
  exact List.forall_mem_map.mpr fun piece hpiece =>
    slash_not_mem_respelled (slash_not_mem_of_mem_pieces hpiece)

theorem respelled_eq_nil_iff {piece : RawText} : piece.respelled = [] ↔ piece = [] :=
  @RawText.respelled_eq_ofString_iff piece "" (by decide)

theorem respelled_eq_dot_iff {piece : RawText} : piece.respelled = [dot] ↔ piece = [dot] :=
  @RawText.respelled_eq_ofString_iff piece "." (by decide)

theorem respelled_eq_dots_iff {piece : RawText} :
    piece.respelled = [dot, dot] ↔ piece = [dot, dot] :=
  @RawText.respelled_eq_ofString_iff piece ".." (by decide)

theorem ofPiece?_respelled (piece : RawText) :
    Component.ofPiece? piece.respelled = (Component.ofPiece? piece).map .respelled := by
  rw [Component.ofPiece?, Component.ofPiece?]
  simp only [respelled_eq_nil_iff, respelled_eq_dot_iff, respelled_eq_dots_iff]
  split_ifs <;> rfl

theorem said_respelled (path : Path) :
    path.respelled.said = path.said.map Component.respelled := by
  rw [← filterMap_pieces, ← filterMap_pieces, pieces_respelled, List.filterMap_map,
    List.map_filterMap]
  exact List.filterMap_congr fun piece _ => ofPiece?_respelled piece

theorem leadOf_respelled (first : RawText) (rest : List RawText) :
    leadOf first.respelled (rest.map RawText.respelled) = leadOf first rest := by
  simp [leadOf, respelled_eq_nil_iff, respelled_eq_dot_iff]

theorem parts_respelled (path : Path) :
    path.respelled.parts = (path.parts.1, path.parts.2.map RawText.respelled) := by
  obtain ⟨first, rest, hpieces⟩ := List.exists_cons_of_ne_nil path.pieces_ne_nil
  have hspelled : path.respelled.pieces = first.respelled :: rest.map RawText.respelled := by
    rw [pieces_respelled, hpieces, List.map_cons]
  rw [parts_of_pieces hpieces, parts_of_pieces hspelled, leadOf_respelled]
  split_ifs <;> rfl

theorem lead_respelled (path : Path) : path.respelled.parts.1 = path.parts.1 := by
  rw [parts_respelled]

theorem respelled_eq_self_iff : path.respelled = path ↔ path.text.IsUtf8 := by
  rw [← RawText.respelled_eq_self_iff]
  exact ⟨congrArg text, congrArg mk⟩

/-- UTF-8 paths that are shown alike are the same path. -/
theorem eq_of_shown_eq {other : Path} (hpath : path.text.IsUtf8) (hother : other.text.IsUtf8)
    (hshown : path.shown = other.shown) : path = other := by
  rw [← respelled_eq_self_iff.mpr hpath, ← respelled_eq_self_iff.mpr hother, respelled, respelled,
    hshown]

/-- A path is UTF-8 exactly if everything that it says is spelled in UTF-8. -/
theorem isUtf8_iff :
    path.text.IsUtf8 ↔ ∀ component ∈ path.said, component.respelled = component := by
  rw [← respelled_eq_self_iff]
  constructor
  · intro hself component hcomponent
    have hsaid := said_respelled path
    rw [hself] at hsaid
    exact List.map_inj_left.mp (hsaid.symm.trans (List.map_id _).symm) component hcomponent
  · intro hsaid
    apply pieces_injective
    rw [pieces_respelled]
    refine (List.map_congr_left fun piece hpiece => ?_).trans (List.map_id _)
    cases hcomponent : Component.ofPiece? piece with
    | none =>
        -- What says nothing is spelled in one way only.
        rw [Component.ofPiece?] at hcomponent
        split_ifs at hcomponent with hsilent
        rcases hsilent with rfl | rfl
        · exact respelled_eq_nil_iff.mpr rfl
        · exact respelled_eq_dot_iff.mpr rfl
    | some component =>
        have hmem : component ∈ path.said := by
          rw [← filterMap_pieces]
          exact List.mem_filterMap.mpr ⟨piece, hpiece, hcomponent⟩
        have hspelled := ofPiece?_respelled piece
        rw [hcomponent, Option.map_some, hsaid component hmem] at hspelled
        exact (Component.text_of_ofPiece? hspelled).symm.trans
          (Component.text_of_ofPiece? hcomponent)

theorem isAbsolute_respelled (path : Path) : path.respelled.isAbsolute = path.isAbsolute := by
  rw [Bool.eq_iff_iff, ← lead_eq_root_iff, ← lead_eq_root_iff, lead_respelled]

/-- From a base, what a path is shown as leads to where the path leads exactly if the path is
UTF-8. -/
theorem components_join_respelled_iff :
    (base.join path.respelled).components = (base.join path).components ↔ path.text.IsUtf8 := by
  constructor
  · intro hsame
    rw [isUtf8_iff]
    have hsaid : path.respelled.said = path.said := by
      by_cases hwhole : path.isAbsolute = true ∨ base.text = []
      · simp only [join, isAbsolute_respelled, if_pos hwhole] at hsame
        rw [components_eq_append_said, components_eq_append_said, lead_respelled] at hsame
        exact List.append_cancel_left hsame
      · obtain ⟨habsolute, hbase⟩ := not_or.mp hwhole
        have hrelative : path.isAbsolute = false := Bool.not_eq_true _ ▸ habsolute
        rw [components_join_of_relative hbase hrelative, components_join_of_relative hbase
          (path.isAbsolute_respelled.trans hrelative)] at hsame
        exact List.append_cancel_left hsame
    rw [said_respelled] at hsaid
    exact List.map_inj_left.mp (hsaid.trans (List.map_id _).symm)
  · intro hutf8
    rw [respelled_eq_self_iff.mpr hutf8]

section Ancestors

theorem isSilent_respelled (piece : RawText) : isSilent piece.respelled = isSilent piece := by
  rw [isSilent, ofPiece?_respelled, Option.isNone_map, isSilent]

theorem ofParts_respelled (lead : Lead) (pieces : List RawText) :
    ofParts lead (pieces.map RawText.respelled) = (ofParts lead pieces).respelled := by
  apply congrArg mk
  cases lead with
  | none => exact (respelled_intercalate pieces).symm
  | root =>
      cases pieces with
      | nil =>
          have hroot : RawText.respelled [slash] = [slash] := by decide +kernel
          exact hroot.symm
      | cons first rest => exact (respelled_intercalate ([] :: first :: rest)).symm
  | here => exact (respelled_intercalate ([dot] :: pieces)).symm

/-- What is above a path is shown as what is above that which the path is shown as. -/
theorem ancestorsOfReverse_respelled (lead : Lead) (pieces : List RawText) :
    ancestorsOfReverse lead (pieces.map RawText.respelled) =
      (ancestorsOfReverse lead pieces).map respelled := by
  induction pieces with
  | nil =>
      rw [List.map_nil, ancestorsOfReverse]
      split_ifs <;> rfl
  | cons piece before ih =>
      have hdrop : (before.map RawText.respelled).dropWhile isSilent =
          (before.dropWhile isSilent).map RawText.respelled := by
        have hsilent : isSilent ∘ RawText.respelled = isSilent := funext isSilent_respelled
        rw [List.dropWhile_map, hsilent]
      rw [List.map_cons, ancestorsOfReverse, ancestorsOfReverse, isSilent_respelled, ih, hdrop,
        ← List.map_reverse, ofParts_respelled]
      split_ifs <;> rfl

theorem properAncestors_respelled (path : Path) :
    path.respelled.properAncestors = path.properAncestors.map respelled := by
  rw [properAncestors, parts_respelled, ← List.map_reverse, ancestorsOfReverse_respelled,
    properAncestors]

end Ancestors

end EventAudit.Path
