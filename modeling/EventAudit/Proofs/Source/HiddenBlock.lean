import EventAudit.Proofs.Source.CommentScanner
import EventAudit.Proofs.Source.FirstCall
import EventAudit.Proofs.Source.Formatting

/-! # Blocks of lines that are not looked at

A block comment over several lines and a directive that is continued over several lines
hide everything that stands on them. Behind such a block the lines are read as at the
beginning of a text, so that the block could be left out but for the numbers of the lines. -/

namespace EventAudit

/-- Without line feeds and carriage returns inside, the lines of a text are those that it was put
together from, except for an empty one at the end. -/
theorem Text.eq_lines_intercalate_or {pieces : List (List Char)}
    (hpieces : ∀ piece ∈ pieces, '\n' ∉ piece ∧ '\r' ∉ piece) :
    pieces = lines (['\n'].intercalate pieces) ∨
      pieces = lines (['\n'].intercalate pieces) ++ [[]] := by
  induction pieces with
  | nil => exact .inl rfl
  | cons piece rest ih =>
      obtain ⟨hfeed, hreturn⟩ := hpieces piece List.mem_cons_self
      cases rest with
      | nil =>
          rw [List.intercalate_singleton, lines_of_not_mem hfeed]
          split
          next hempty => exact .inr (by rw [List.isEmpty_iff.mp hempty]; rfl)
          next => exact .inl rfl
      | cons next rest =>
          have hkept : dropReturn piece = piece :=
            if_neg fun hlast => hreturn (List.mem_of_getLast? hlast)
          rw [List.intercalate_cons_cons, List.append_assoc, List.singleton_append,
            lines_append_cons hfeed, hkept, List.cons_append, List.cons.injEq, List.cons.injEq]
          simpa using ih fun line hline => hpieces line (List.mem_cons_of_mem _ hline)

namespace LineState

section Tokens

variable {inside : Bool}

theorem walkComments_of_tokenless {line : List Char} (hline : ¬nextToken inside <:+: line) :
    walkComments inside line = (false, inside) := by
  have hcut : Text.cutAt? (nextToken inside) line = none := by
    rwa [← Text.contains_iff_infix, Text.contains, Bool.not_eq_true, Option.isSome_eq_false_iff,
      Option.isNone_iff_eq_none] at hline
  rw [walkComments_eq, hcut]

/-- The first token that changes the state is where it is written, since tokens do not overlap. -/
theorem walkComments_append {before : List Char} (hbefore : ¬nextToken inside <:+: before)
    (rest : List Char) :
    walkComments inside (before ++ nextToken inside ++ rest) =
      (!inside || (walkComments (!inside) rest).1, (walkComments (!inside) rest).2) := by
  have hoverlap : ¬Text.OverlapsItself (nextToken inside) := by
    cases inside <;> decide
  have hcut : Text.cutAt? (nextToken inside) (before ++ nextToken inside ++ rest) =
      some (before, rest) :=
    Text.cutAt?_eq_some_iff.mpr ⟨rfl, Text.isFirst_of_not_infix hoverlap hbefore rest⟩
  rw [walkComments_eq, hcut]

theorem walkComments_opening {before opened : List Char} (hbefore : ¬openToken <:+: before)
    (hopened : ¬closeToken <:+: opened) :
    walkComments false (before ++ openToken ++ opened) = (true, true) := by
  have hopens := @walkComments_append false before hbefore opened
  rwa [Bool.not_false, @walkComments_of_tokenless true opened hopened] at hopens

theorem walkComments_closing {closing after : List Char} (hclosing : ¬closeToken <:+: closing)
    (hafter : ¬openToken <:+: after) :
    walkComments true (closing ++ closeToken ++ after) = (false, false) := by
  have hcloses := @walkComments_append true closing hclosing after
  rwa [Bool.not_true, @walkComments_of_tokenless false after hafter] at hcloses

end Tokens

/-- Whether none of some lines is eligible. -/
def Hides (state : LineState) : List (List Char) → Prop
  | [] => True
  | line :: rest => (state.classify line).isEligible = false ∧ (state.next line).Hides rest

variable {state : LineState} {line : List Char}

theorem after_append (state : LineState) (first second : List (List Char)) :
    state.after (first ++ second) = (state.after first).after second :=
  List.foldl_append

theorem hides_append {first second : List (List Char)} :
    state.Hides (first ++ second) ↔ state.Hides first ∧ (state.after first).Hides second := by
  induction first generalizing state with
  | nil => exact ⟨fun hsecond => ⟨trivial, hsecond⟩, fun hboth => hboth.2⟩
  | cons line rest ih => exact (and_congr_right fun _ => ih).trans and_assoc.symm

/-- A line is not eligible in a comment or where it opens one, behind a line that is continued or
where it is continued itself. -/
theorem isEligible_classify_eq_false
    (hline : state.inComment = true ∨ (walkComments state.inComment line).1 = true ∨
      state.continued = true ∨ continues line = true) :
    (state.classify line).isEligible = false := by
  rw [classify]
  split
  next => rfl
  next hcomment =>
    split
    next => rfl
    next hdirective =>
      simp only [Bool.or_eq_true, not_or] at hcomment hdirective
      tauto

/-- Lines in a comment that do not close it are hidden and leave it open. -/
theorem hides_of_inComment {lines : List (List Char)} (hstate : state.inComment = true)
    (hlines : ∀ line ∈ lines, ¬closeToken <:+: line) :
    state.Hides lines ∧ (state.after lines).inComment = true := by
  induction lines generalizing state with
  | nil => exact ⟨trivial, hstate⟩
  | cons line rest ih =>
      obtain ⟨hline, hrest⟩ := List.forall_mem_cons.mp hlines
      have hnext : (state.next line).inComment = true := by
        rw [next, hstate, @walkComments_of_tokenless true line hline]
      obtain ⟨hhides, hafter⟩ := ih hnext hrest
      exact ⟨⟨isEligible_classify_eq_false (.inl hstate), hhides⟩, hafter⟩

/-- Lines that end with a backslash are hidden and continue on the next line. -/
theorem hides_of_continues {lines : List (List Char)} (hstate : state.inComment = false)
    (hopen : ∀ line ∈ lines, ¬openToken <:+: line)
    (hlines : ∀ line ∈ lines, continues line = true) :
    state.Hides lines ∧ (state.after lines).inComment = false ∧
      (lines ≠ [] → (state.after lines).continued = true) := by
  induction lines generalizing state with
  | nil => exact ⟨trivial, hstate, fun hnil => absurd rfl hnil⟩
  | cons line rest ih =>
      obtain ⟨hline, hrest⟩ := List.forall_mem_cons.mp hlines
      obtain ⟨hplain, hopen⟩ := List.forall_mem_cons.mp hopen
      have hnext : (state.next line).inComment = false := by
        rw [next, hstate, @walkComments_of_tokenless false line hplain]
      obtain ⟨hhides, hafter, hcontinued⟩ := ih hnext hopen hrest
      have hhidden := @isEligible_classify_eq_false state line (.inr (.inr (.inr hline)))
      refine ⟨⟨hhidden, hhides⟩, hafter, fun _ => ?_⟩
      cases rest with
      | nil => exact hline
      | cons _ _ => exact hcontinued (List.cons_ne_nil _ _)

/-- A comment that is opened on one line and closed on a later one, or a directive that is
continued at least once. Neither reaches beyond the block. -/
inductive HiddenBlock : List (List Char) → Prop
  | comment {before opened closing after : List Char} {body : List (List Char)}
      (hbefore : ¬openToken <:+: before) (hopened : ¬closeToken <:+: opened)
      (hbody : ∀ line ∈ body, ¬closeToken <:+: line) (hclosing : ¬closeToken <:+: closing)
      (hafter : ¬openToken <:+: after)
      (hlast : lastInk (closing ++ closeToken ++ after) ≠ some '\\') :
      HiddenBlock ((before ++ openToken ++ opened) :: body ++ [closing ++ closeToken ++ after])
  | directive {continued : List (List Char)} {last : List Char} (hne : continued ≠ [])
      (hopen : ∀ line ∈ continued ++ [last], ¬openToken <:+: line)
      (hcontinued : ∀ line ∈ continued, lastInk line = some '\\')
      (hlast : lastInk last ≠ some '\\') : HiddenBlock (continued ++ [last])

/-- Behind a line that leaves no comment open and is not continued, a text could begin. -/
theorem next_eq_default (hopen : (walkComments state.inComment line).2 = false)
    (hlast : lastInk line ≠ some '\\') : state.next line = {} := by
  have hcontinues : continues line = false := by
    rwa [← Bool.not_eq_true, continues_iff]
  rw [next, hopen, hcontinues]

/-- A hidden block outside of comments hides all its lines and ends as a text begins, whether or
not its first line continues another one. -/
theorem HiddenBlock.hides {block : List (List Char)} (hblock : HiddenBlock block)
    (hstate : state.inComment = false) : state.Hides block ∧ state.after block = {} := by
  cases hblock with
  | @comment before opened closing after body hbefore hopened hbody hclosing hafter hlast =>
      have hopens := walkComments_opening hbefore hopened
      have hcloses := walkComments_closing hclosing hafter
      have hfirst : (state.classify (before ++ openToken ++ opened)).isEligible = false :=
        isEligible_classify_eq_false (.inr (.inl (by rw [hstate, hopens])))
      have hinside : (state.next (before ++ openToken ++ opened)).inComment = true := by
        rw [next, hstate, hopens]
      obtain ⟨hhides, hreached⟩ := hides_of_inComment hinside hbody
      rw [List.cons_append]
      refine ⟨⟨hfirst, hides_append.mpr ⟨hhides, ?_, trivial⟩⟩, ?_⟩
      · exact isEligible_classify_eq_false (.inl hreached)
      · refine (after_append _ body _).trans (next_eq_default ?_ hlast)
        rw [hreached, hcloses]
  | @directive continued last hne hopen hcontinued hlast =>
      have hplain := List.forall_mem_append.mp hopen
      obtain ⟨hhides, hreached, hgoesOn⟩ := hides_of_continues hstate hplain.1
        fun line hline => (continues_iff line).mpr (hcontinued line hline)
      refine ⟨hides_append.mpr ⟨hhides, ?_, trivial⟩, ?_⟩
      · exact isEligible_classify_eq_false (.inr (.inr (.inl (hgoesOn hne))))
      · refine (after_append _ continued _).trans (next_eq_default ?_ hlast)
        rw [hreached, @walkComments_of_tokenless false last (hplain.2 last (List.mem_singleton_self _))]

end LineState

namespace Observation

variable (markers : Markers)

/-- An observation with so many more lines before it. -/
def shift (count : Nat) (observation : Observation) : Observation :=
  { observation with line := observation.line + count }

theorem ofLines_append (state : LineState) (number : Nat) (first second : List (List Char)) :
    ofLines markers state number (first ++ second) = ofLines markers state number first ++
      ofLines markers (state.after first) (number + first.length) second := by
  induction first generalizing state number with
  | nil => rfl
  | cons line rest ih =>
      rw [List.cons_append, ofLines, ofLines, ih, List.append_assoc, List.length_cons,
        Nat.add_assoc, Nat.add_comm 1]
      rfl

theorem ofLines_add (state : LineState) (number count : Nat) (lines : List (List Char)) :
    ofLines markers state (number + count) lines =
      (ofLines markers state number lines).map (shift count) := by
  induction lines generalizing state number with
  | nil => rfl
  | cons line rest ih =>
      have hline : ofLine? markers state (number + count) line =
          (ofLine? markers state number line).map (shift count) := by
        rw [ofLine?, ofLine?]
        split
        · rw [Option.map_map]
          rfl
        · rfl
      rw [ofLines, ofLines, List.map_append, ← Option.toList_map, hline, ← ih,
        Nat.add_right_comm]

theorem ofLines_of_hides {state : LineState} {lines : List (List Char)}
    (hhides : state.Hides lines) (number : Nat) : ofLines markers state number lines = [] := by
  induction lines generalizing state number with
  | nil => rfl
  | cons line rest ih =>
      obtain ⟨hline, hrest⟩ := hhides
      rw [ofLines, ih hrest, ofLine?, hline]
      rfl

variable {markers}

/-- Observations are made in the lines that a text is put together from. -/
theorem ofSource_intercalate_of_lines (hmarkers : ∀ named ∈ markers.named, named.2 ≠ "")
    {lines : List (List Char)} (hlines : ∀ line ∈ lines, '\n' ∉ line ∧ '\r' ∉ line) :
    ofSource markers (['\n'].intercalate lines) = ofLines markers {} 1 lines := by
  rw [ofSource]
  rcases Text.eq_lines_intercalate_or hlines with heq | heq
  · rw [← heq]
  · conv_rhs => rw [heq, ofLines_append]
    rw [ofLines, ofLine?, Extraction.ofLine?_nil hmarkers, Option.map_none, ite_self]
    exact (List.append_nil _).symm

/-- A hidden block outside of comments says nothing itself, and what stands after it is read as a
text of its own, with the lines counted on. -/
theorem hidden_block_is_inert (markers : Markers) (before block after : List (List Char))
    (hmarkers : ∀ named ∈ markers.named, named.2 ≠ "")
    (hlines : ∀ line ∈ before ++ block ++ after, '\n' ∉ line ∧ '\r' ∉ line)
    (hbefore : (LineState.after {} before).inComment = false)
    (hblock : LineState.HiddenBlock block) :
    ofSource markers (['\n'].intercalate (before ++ block ++ after)) =
      ofSource markers (['\n'].intercalate before) ++
        (ofSource markers (['\n'].intercalate after)).map
          (shift (before.length + block.length)) := by
  obtain ⟨hhides, hfresh⟩ := hblock.hides hbefore
  have hfirst : ∀ line ∈ before, '\n' ∉ line ∧ '\r' ∉ line := fun line hline =>
    hlines line (List.mem_append_left _ (List.mem_append_left _ hline))
  have hlast : ∀ line ∈ after, '\n' ∉ line ∧ '\r' ∉ line := fun line hline =>
    hlines line (List.mem_append_right _ hline)
  rw [ofSource_intercalate_of_lines hmarkers hlines, ofSource_intercalate_of_lines hmarkers hfirst,
    ofSource_intercalate_of_lines hmarkers hlast, ofLines_append, ofLines_append,
    ofLines_of_hides markers hhides, List.append_nil, LineState.after_append, hfresh,
    List.length_append, ofLines_add]

/-- A comment that is opened and closed by overlapping tokens and has backslashes at the ends of its
lines, and a directive, both behind a line that is continued. -/
theorem hidden_block_is_inert_after_continuation :
    let markers : Markers := {}
    let before := ["EVENT_H(a)", "x \\"].map String.toList
    let comment := ["EVENT_C(b) /*/ EVENT_C(b) \\", "/* EVENT_H(c) \\", "**/ EVENT_H(d)"].map
      String.toList
    let directive := ["EVENT_C(b) \\ ", "*/ EVENT_H(c) \\", "EVENT_H(d)"].map String.toList
    let after := ["EVENT_FIRE(a)", ""].map String.toList
    let observations : List Observation :=
      [{ line := 1, extraction := .declaration "a" none },
        { line := 6, extraction := .fire "a" none [] }]
    (∀ block ∈ [comment, directive], LineState.HiddenBlock block) ∧
      ∀ block ∈ [comment, directive],
        ofSource markers (['\n'].intercalate (before ++ block ++ after)) = observations := by
  intro markers before comment directive after observations
  have hcomment : LineState.HiddenBlock comment :=
    @LineState.HiddenBlock.comment "EVENT_C(b) ".toList "/ EVENT_C(b) \\".toList "*".toList
      " EVENT_H(d)".toList ["/* EVENT_H(c) \\".toList] (by decide +kernel) (by decide +kernel)
      (by decide +kernel) (by decide +kernel) (by decide +kernel) (by decide +kernel)
  have hdirective : LineState.HiddenBlock directive :=
    @LineState.HiddenBlock.directive (directive.take 2) "EVENT_H(d)".toList (by decide +kernel)
      (by decide +kernel) (by decide +kernel) (by decide +kernel)
  have hblocks : ∀ block ∈ [comment, directive], LineState.HiddenBlock block := by
    simp [hcomment, hdirective]
  refine ⟨hblocks, fun block hblock => ?_⟩
  have hlines : ∀ block ∈ [comment, directive], ∀ line ∈ before ++ block ++ after,
      '\n' ∉ line ∧ '\r' ∉ line := by
    decide +kernel
  have hshifted : ∀ block ∈ [comment, directive], ofSource markers (['\n'].intercalate before) ++
      (ofSource markers (['\n'].intercalate after)).map
        (shift (before.length + block.length)) = observations := by
    decide +kernel
  exact (hidden_block_is_inert markers before block after (by decide +kernel)
    (hlines block hblock) (by decide +kernel) (hblocks block hblock)).trans (hshifted block hblock)

end Observation
end EventAudit
