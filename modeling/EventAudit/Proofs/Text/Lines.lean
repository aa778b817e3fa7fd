import EventAudit.Text.Lines

/-! # The lines of a text, one line feed at a time

A text is a piece without line feeds, or such a piece, a line feed and a shorter
text. What holds of all lines of a text is proved along this decomposition, and what
holds of the fields between other separators likewise. -/

namespace EventAudit.Text

variable {α : Type}

/-- Induction on a text by a separator, its first occurrence first. -/
@[elab_as_elim]
theorem split_induction {motive : List α → Prop} (separator : α) (text : List α)
    (last : ∀ piece, separator ∉ piece → motive piece)
    (cut : ∀ piece rest, separator ∉ piece → motive rest →
      motive (piece ++ separator :: rest)) :
    motive text := by
  by_cases hmem : separator ∈ text
  · obtain ⟨piece, rest, htext, hpiece⟩ := List.eq_append_cons_of_mem hmem
    have hshorter : rest.length < text.length := by
      rw [htext, List.length_append, List.length_cons]
      omega
    rw [htext]
    exact cut piece rest hpiece (split_induction separator rest last cut)
  · exact last text hmem
termination_by text.length

/-- Induction on a text by its line feeds, the first one first. -/
@[elab_as_elim]
theorem line_induction {motive : List Char → Prop} (text : List Char)
    (last : ∀ piece, '\n' ∉ piece → motive piece)
    (line : ∀ piece rest, '\n' ∉ piece → motive rest → motive (piece ++ '\n' :: rest)) :
    motive text :=
  split_induction '\n' text last line

section Pieces

variable [BEq α] [LawfulBEq α] {separator : α} {piece : List α} (hpiece : separator ∉ piece)

include hpiece

theorem beq_eq_false_of_mem_piece {c : α} (hc : c ∈ piece) : (c == separator) = false := by
  rw [beq_eq_false_iff_ne]
  rintro rfl
  exact hpiece hc

theorem splitOn_of_not_mem : piece.splitOn separator = [piece] := by
  rw [List.splitOn_eq_splitOnP]
  exact List.splitOnP_eq_singleton fun _ hc => beq_eq_false_of_mem_piece hpiece hc

theorem splitOn_append_cons (rest : List α) :
    (piece ++ separator :: rest).splitOn separator = piece :: rest.splitOn separator := by
  rw [List.splitOn_eq_splitOnP, List.splitOn_eq_splitOnP]
  exact List.splitOnP_append_cons_of_forall_mem
    (fun _ hc => beq_eq_false_of_mem_piece hpiece hc) separator (beq_self_eq_true _) rest

end Pieces

/-- A text is cut in one way only at the first place of a character. -/
theorem append_cons_inj [BEq α] [LawfulBEq α] {separator : α} {before before' after after' : List α}
    (hbefore : separator ∉ before) (hbefore' : separator ∉ before')
    (htext : before ++ separator :: after = before' ++ separator :: after') :
    before = before' ∧ after = after' := by
  have hsplit := congrArg (List.splitOn separator) htext
  rw [splitOn_append_cons hbefore, splitOn_append_cons hbefore'] at hsplit
  obtain ⟨rfl, -⟩ := List.cons.inj hsplit
  exact ⟨rfl, (List.cons.inj (List.append_cancel_left htext)).2⟩

/-- A text is cut in one way only at the last place of a character. -/
theorem append_cons_inj_last [BEq α] [LawfulBEq α] {separator : α}
    {before before' after after' : List α}
    (hafter : separator ∉ after) (hafter' : separator ∉ after')
    (htext : before ++ separator :: after = before' ++ separator :: after') :
    before = before' ∧ after = after' := by
  have hreverse := congrArg List.reverse htext
  simp only [List.reverse_append, List.reverse_cons, List.append_assoc, List.singleton_append]
    at hreverse
  obtain ⟨hlast, hfirst⟩ := append_cons_inj (by rwa [List.mem_reverse])
    (by rwa [List.mem_reverse]) hreverse
  exact ⟨List.reverse_inj.mp hfirst, List.reverse_inj.mp hlast⟩

/-- The pieces of lines that are written one after another, each with its line feed. -/
theorem splitOn_flatMap_line {lines : List String}
    (hlines : ∀ line ∈ lines, '\n' ∉ line.toList) :
    (lines.flatMap fun line => line.toList ++ ['\n']).splitOn '\n' =
      lines.map String.toList ++ [[]] := by
  induction lines with
  | nil => rfl
  | cons line rest ih =>
      rw [List.forall_mem_cons] at hlines
      rw [List.flatMap_cons, List.append_assoc, List.singleton_append,
        splitOn_append_cons hlines.1, ih hlines.2, List.map_cons, List.cons_append]

/-- No piece holds the separator. -/
theorem not_mem_of_mem_splitOn [BEq α] [LawfulBEq α] {separator : α} {text piece : List α}
    (hpiece : piece ∈ text.splitOn separator) : separator ∉ piece := by
  induction text using split_induction separator with
  | last first hfirst =>
      rw [splitOn_of_not_mem hfirst, List.mem_singleton] at hpiece
      rw [hpiece]
      exact hfirst
  | cut first rest hfirst ih =>
      rw [splitOn_append_cons hfirst, List.mem_cons] at hpiece
      rcases hpiece with rfl | hpiece
      · exact hfirst
      · exact ih hpiece

theorem lines_of_not_mem {piece : List Char} (hpiece : '\n' ∉ piece) :
    lines piece = if piece.isEmpty then [] else [piece] := by
  rw [lines, splitOn_of_not_mem hpiece, linesOfPieces]

theorem lines_append_cons {piece : List Char} (hpiece : '\n' ∉ piece) (rest : List Char) :
    lines (piece ++ '\n' :: rest) = dropReturn piece :: lines rest := by
  rw [lines, splitOn_append_cons hpiece]
  obtain ⟨next, later, hrest⟩ := List.exists_cons_of_ne_nil (List.splitOn_ne_nil '\n' rest)
  rw [lines, hrest, linesOfPieces]

/-- The last line of a text that ends with a line feed. -/
theorem getLast?_lines_append (before : List Char) {last : List Char} (hlast : '\n' ∉ last) :
    (lines (before ++ '\n' :: (last ++ ['\n']))).getLast? = some (dropReturn last) := by
  induction before using line_induction with
  | last piece hpiece =>
      rw [lines_append_cons hpiece, lines_append_cons hlast]
      rfl
  | line piece rest hpiece ih =>
      rw [List.append_assoc, List.cons_append, lines_append_cons hpiece, List.getLast?_cons, ih]
      rfl

/-- A line break takes at most one carriage return from the end of a piece. -/
theorem eq_dropReturn_or (piece : List Char) :
    piece = dropReturn piece ∨ piece = dropReturn piece ++ ['\r'] := by
  rw [dropReturn]
  split
  next hreturn =>
    obtain ⟨before, rfl⟩ := List.getLast?_eq_some_iff.mp hreturn
    right
    rw [List.dropLast_concat]
  next =>
    left
    rfl

end EventAudit.Text
