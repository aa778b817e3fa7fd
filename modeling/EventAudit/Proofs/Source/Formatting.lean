import EventAudit.Proofs.Source.MarkerCall
import EventAudit.Proofs.Text.Margin
import EventAudit.Source.Observation

/-! # Formatting does not matter

What is observed in a text does not change when blanks are put around its lines. The
walk through comments, the tests for directives, the search for markers and the readers
of calls each have their own way to pass over blanks; here each of them is shown to do so
at both ends of a line. The markers themselves must not hold blanks. -/

namespace EventAudit

open Text (AllBlank Margin Padded)

namespace LineState

theorem solid_nextToken (inside : Bool) : Text.Solid (nextToken inside) := by
  cases inside <;> decide

theorem walkComments_eq (inside : Bool) (line : List Char) :
    walkComments inside line =
      match Text.cutAt? (nextToken inside) line with
      | none => (false, inside)
      | some (_, rest) =>
          (!inside || (walkComments (!inside) rest).1, (walkComments (!inside) rest).2) := by
  rw [walkComments]
  split
  next hcut => simp only [hcut]
  next hcut => simp only [hcut]

theorem walkComments_append_right (inside : Bool) (line : List Char) {right : List Char}
    (hright : AllBlank right) : walkComments inside (line ++ right) = walkComments inside line := by
  fun_induction walkComments inside line with
  | case1 inside line hcut =>
      rw [walkComments_eq, Text.cutAt?_append_right (solid_nextToken inside) hright, hcut]
      rfl
  | case2 inside line before rest hcut _ walk ih =>
      rw [walkComments_eq, Text.cutAt?_append_right (solid_nextToken inside) hright, hcut]
      dsimp only [Option.map_some]
      rw [ih]

section Margins

variable (state : LineState) (margin : Margin) (line : List Char)

theorem walkComments_around (inside : Bool) :
    walkComments inside (margin.around line) = walkComments inside line := by
  rw [walkComments_eq, walkComments_eq inside line,
    Text.cutAt?_around (solid_nextToken inside)]
  cases Text.cutAt? (nextToken inside) line with
  | none => rfl
  | some cut =>
      dsimp only [Option.map_some]
      rw [walkComments_append_right _ _ margin.right_blank]

theorem continues_around : continues (margin.around line) = continues line := by
  rw [continues, Text.getLast?_trimEnd_around, continues]

theorem startsDirective_around : startsDirective (margin.around line) = startsDirective line := by
  rw [startsDirective, Text.head?_trimStart_around, startsDirective]

theorem classify_around : state.classify (margin.around line) = state.classify line := by
  rw [classify, walkComments_around, continues_around, startsDirective_around, classify]

theorem next_around : state.next (margin.around line) = state.next line := by
  rw [next, walkComments_around, continues_around, next]

end Margins

end LineState

namespace Call

/-- A call on a line that has been put between margins. -/
def within (margin : Margin) (call : Call) : Call :=
  { call with before := margin.left ++ call.before, inner := call.inner ++ margin.right }

theorem Opening.append {after digits blanks inner : List Char}
    (hopening : Opening after digits blanks inner) (right : List Char) :
    Opening (after ++ right) digits blanks (inner ++ right) := by
  obtain ⟨rfl, hdigits, hblanks⟩ := hopening
  exact ⟨by simp, hdigits, hblanks⟩

/-- An opening parenthesis is not among the blanks at the end of a line. -/
theorem Opening.of_append {after digits blanks inner right : List Char} (hright : AllBlank right)
    (hopening : Opening (after ++ right) digits blanks inner) :
    ∃ inner', Opening after digits blanks inner' := by
  obtain ⟨heq, hdigits, hblanks⟩ := hopening
  have hparen : '(' ∉ right := hright.not_mem (by decide)
  rcases List.append_eq_append_iff.mp heq with ⟨rest, -, hblank⟩ | ⟨rest, hafter, hrest⟩
  · rw [hblank] at hparen
    exact absurd (List.mem_append_right rest List.mem_cons_self) hparen
  · cases rest with
    | nil =>
        rw [← List.nil_append right, ← hrest] at hparen
        exact absurd List.mem_cons_self hparen
    | cons c inner' =>
        obtain ⟨rfl, -⟩ := List.cons.inj hrest
        exact ⟨inner', hafter, hdigits, hblanks⟩

theorem ofOccurrence?_around (margin : Margin) (passed after : List Char) :
    ofOccurrence? (passed ++ margin.left.reverse) (after ++ margin.right) =
      (ofOccurrence? passed after).map (within margin) := by
  cases hcall : ofOccurrence? passed after with
  | none =>
      rw [ofOccurrence?_eq_none_iff] at hcall
      rw [Option.map_none, ofOccurrence?_eq_none_iff]
      rintro ⟨digits, blanks, inner, hopening⟩
      obtain ⟨inner', hopening⟩ := hopening.of_append margin.right_blank
      exact hcall ⟨digits, blanks, inner', hopening⟩
  | some call =>
      obtain ⟨digits, blanks, hopening, hbefore, harity⟩ := ofOccurrence?_eq_some_iff.mp hcall
      rw [Option.map_some, ofOccurrence?_eq_some_iff]
      refine ⟨digits, blanks, hopening.append margin.right, ?_, harity⟩
      rw [within, hbefore, List.reverse_append, List.reverse_reverse]

theorem find?_nil {marker : String} (hmarker : marker ≠ "") : find? marker [] = none := by
  rw [find?, Text.occurrences, Text.occurrencesFrom, if_neg (by simpa using hmarker),
    List.findSome?_nil]

/-- Between margins a marker is called where it was called before. -/
theorem find?_around {marker : String} (hmarker : Text.Solid marker.toList) (margin : Margin)
    (line : List Char) :
    find? marker (margin.around line) = (find? marker line).map (within margin) := by
  rw [find?, Text.occurrences_around hmarker, List.findSome?_map, find?, List.map_findSome?]
  congr 1
  funext occurrence
  exact ofOccurrence?_around margin occurrence.1 occurrence.2

end Call

/-- Whether all markers can be looked for: none is empty or holds blanks. -/
structure Markers.Solid (markers : Markers) : Prop where
  declaration : Text.Solid markers.declaration.toList
  definition : Text.Solid markers.definition.toList
  creation : Text.Solid markers.creation.toList
  fire : Text.Solid markers.fire.toList
  listenerRegistration : Text.Solid markers.listenerRegistration.toList
  listenerDefinition : Text.Solid markers.listenerDefinition.toList

theorem Markers.Solid.named_ne_empty {markers : Markers} (hmarkers : markers.Solid) :
    ∀ named ∈ markers.named, named.2 ≠ "" := by
  have hne : ∀ {marker : String}, Text.Solid marker.toList → marker ≠ "" := fun hmarker =>
    mt String.toList_eq_nil_iff.mpr hmarker.ne_nil
  simp only [Markers.named, List.forall_mem_cons]
  exact ⟨hne hmarkers.declaration, hne hmarkers.definition, hne hmarkers.creation,
    hne hmarkers.fire, hne hmarkers.listenerRegistration, hne hmarkers.listenerDefinition,
    List.forall_mem_nil _⟩

namespace Extraction

theorem not_isAlpha_of_isBlank {c : Char} (hblank : Text.isBlank c = true) :
    ¬c.isAlpha = true := by
  intro hletter
  have hrange := Text.toNat_of_isBlank hblank
  rcases (Bool.or_eq_true c.isUpper c.isLower).mp hletter with hupper | hlower
  · have hbounds : 65 ≤ c.toNat ∧ c.toNat ≤ 90 := of_decide_eq_true hupper
    omega
  · obtain ⟨hlow, hhigh⟩ := (Bool.and_eq_true _ _).mp hlower
    have hbounds : 97 ≤ c.toNat ∧ c.toNat ≤ 122 :=
      ⟨of_decide_eq_true hlow, of_decide_eq_true hhigh⟩
    omega

theorem not_isIdentifierChar_of_isBlank {c : Char} (hblank : Text.isBlank c = true) :
    ¬isIdentifierChar c = true := by
  intro hword
  rw [isIdentifierChar, Bool.or_eq_true, beq_iff_eq] at hword
  rcases hword with hword | rfl
  · rcases (Bool.or_eq_true c.isAlpha c.isDigit).mp hword with hletter | hdigit
    · exact not_isAlpha_of_isBlank hblank hletter
    · exact Text.not_isDigit_of_isBlank hblank hdigit
  · exact absurd hblank (by decide)

/-- The first argument is trimmed, so that blanks after an open call are no part of it. -/
theorem firstArgument?_append (inner : List Char) {right : List Char} (hright : AllBlank right) :
    firstArgument? (inner ++ right) = firstArgument? inner := by
  rw [firstArgument?, List.takeWhile_append, firstArgument?]
  split
  next hlength =>
    have hinner := List.IsPrefix.eq_of_length (List.takeWhile_prefix _) hlength
    have hblank : AllBlank (right.takeWhile fun c => c != ')' && c != ',') :=
      fun c hc => hright c ((List.takeWhile_prefix _).mem hc)
    rw [hinner]
    exact congrArg name? (Text.trimWhere_around (.after _ hblank) inner fun _ hc => hc)
  next => rfl

/-- The word at the end of a text does not reach into blanks before the text. -/
theorem takeWhileEnd_trimEnd_append {left : List Char} (hleft : AllBlank left)
    (text : List Char) :
    Text.takeWhileEnd isIdentifierChar (Text.trimEnd (left ++ text)) =
      Text.takeWhileEnd isIdentifierChar (Text.trimEnd text) := by
  rw [Text.takeWhileEnd, Text.takeWhileEnd, Text.trimEnd, Text.trimEnd, Text.dropWhileEnd,
    Text.dropWhileEnd, List.reverse_reverse, List.reverse_reverse, List.reverse_append,
    List.dropWhile_append]
  split
  next hempty =>
    rw [List.isEmpty_iff.mp hempty, List.dropWhile_eq_nil_iff.mpr hleft.reverse]
  next =>
    have hword : left.reverse.takeWhile isIdentifierChar = [] := by
      cases hcases : left.reverse with
      | nil => rfl
      | cons c rest =>
          have hblank := hleft.reverse
          rw [hcases] at hblank
          exact List.takeWhile_cons_of_neg (not_isIdentifierChar_of_isBlank hblank.head)
    rw [List.takeWhile_append, hword]
    split
    next hlength =>
      rw [List.append_nil, List.IsPrefix.eq_of_length (List.takeWhile_prefix _) hlength]
    next => rfl

theorem assigned?_append {left : List Char} (hleft : AllBlank left) (before : List Char) :
    assigned? (left ++ before) = assigned? before := by
  have hequals : Text.isBlank '=' = false := by decide
  have hsign : ∀ c ∈ left.reverse, (c != '=') = true := by
    intro c hc
    rw [bne_iff_ne]
    rintro rfl
    exact hleft.reverse.not_mem hequals hc
  rw [assigned?, assigned?, List.reverse_append, List.dropWhile_append,
    List.dropWhile_eq_nil_iff.mpr hsign]
  cases before.reverse.dropWhile (· != '=') with
  | nil => rfl
  | cons c earlier =>
      have hword := takeWhileEnd_trimEnd_append hleft earlier.reverse
      simpa using hword

variable (margin : Margin) (line : List Char) (call : Call)

theorem ofDeclaration?_within : ofDeclaration? (call.within margin) = ofDeclaration? call := by
  rw [ofDeclaration?, Call.within, firstArgument?_append _ margin.right_blank, ofDeclaration?]

theorem ofDefinition?_within : ofDefinition? (call.within margin) = ofDefinition? call := by
  rw [ofDefinition?, Call.within, firstArgument?_append _ margin.right_blank, ofDefinition?]

theorem isWrapping_of_isBlank {c : Char} (hblank : Text.isBlank c = true) :
    isWrapping c = true := by
  rw [isWrapping, hblank, Bool.or_true]

theorem ofCreation?_around :
    ofCreation? (margin.around line) (call.within margin) = ofCreation? line call := by
  have hcomma : Text.isBlank ',' = false := by decide
  have hfields := Text.forall₂_splitOn_around hcomma margin line
  rw [ofCreation?, ofCreation?]
  generalize line.splitOn ',' = fields at hfields ⊢
  generalize (margin.around line).splitOn ',' = padded at hfields ⊢
  -- Only the second field matters, which may be the last one.
  cases hfields with
  | nil => rfl
  | cons _ hrest =>
      cases hrest with
      | nil => rfl
      | cons hfield _ =>
          obtain ⟨fieldMargin, rfl⟩ := hfield
          dsimp only
          rw [Text.trimWhere_around _ _ fun _ => isWrapping_of_isBlank,
            Text.head?_trimStart_around, Call.within, assigned?_append margin.left_blank]

theorem fireFields_append (inner : List Char) {right : List Char} (hright : AllBlank right) :
    fireFields (inner ++ right) = fireFields inner := by
  have hcomma : Text.isBlank ',' = false := by decide
  have hfields : List.Forall₂ Padded (inner.splitOn ',') ((inner ++ right).splitOn ',') :=
    Text.forall₂_splitOn_around hcomma (.after right hright) inner
  rw [fireFields, fireFields, Text.map_eq_of_forall₂_padded _ hfields]
  intro margin text
  apply Text.trimWhere_around
  intro c hc
  rw [hc, Bool.or_true]

theorem ofFire?_within : ofFire? (call.within margin) = ofFire? call := by
  rw [ofFire?, Call.within, fireFields_append _ margin.right_blank, ofFire?]

/-- What a line says does not depend on blanks around it. -/
theorem ofLine?_around {markers : Markers} (hmarkers : markers.Solid) :
    ofLine? markers (margin.around line) = ofLine? markers line := by
  rw [ofLine?, ofLine?, Call.find?_around hmarkers.declaration,
    Call.find?_around hmarkers.definition, Call.find?_around hmarkers.creation,
    Call.find?_around hmarkers.fire, Text.contains_around hmarkers.listenerRegistration,
    Text.contains_around hmarkers.listenerDefinition]
  cases Call.find? markers.declaration line with
  | some call => exact ofDeclaration?_within margin call
  | none =>
      cases Call.find? markers.definition line with
      | some call => exact ofDefinition?_within margin call
      | none =>
          cases Call.find? markers.creation line with
          | some call => exact ofCreation?_around margin line call
          | none =>
              cases Call.find? markers.fire line with
              | some call => exact ofFire?_within margin call
              | none => rfl

theorem ofLine?_nil {markers : Markers} (hmarkers : ∀ named ∈ markers.named, named.2 ≠ "") :
    ofLine? markers [] = none := by
  simp only [Markers.named, List.forall_mem_cons] at hmarkers
  obtain ⟨hdeclaration, hdefinition, hcreation, hfire, hregistration, hlistener, -⟩ := hmarkers
  rw [ofLine?, Call.find?_nil hdeclaration, Call.find?_nil hdefinition, Call.find?_nil hcreation,
    Call.find?_nil hfire, Text.contains_nil (mt String.toList_eq_nil_iff.mp hregistration),
    Text.contains_nil (mt String.toList_eq_nil_iff.mp hlistener)]
  rfl

end Extraction

namespace Observation

variable {markers : Markers} (hmarkers : markers.Solid)

include hmarkers

theorem ofLine?_around (state : LineState) (number : Nat) (margin : Margin) (line : List Char) :
    ofLine? markers state number (margin.around line) = ofLine? markers state number line := by
  rw [ofLine?, LineState.classify_around, Extraction.ofLine?_around margin line hmarkers, ofLine?]

/-- Lines with blanks around them are read as the lines themselves. -/
theorem ofLines_of_forall₂_padded {lines padded : List (List Char)}
    (hpadded : List.Forall₂ Padded lines padded) (state : LineState) (number : Nat) :
    ofLines markers state number padded = ofLines markers state number lines := by
  induction hpadded generalizing state number with
  | nil => rfl
  | cons hline _ ih =>
      obtain ⟨margin, rfl⟩ := hline
      rw [ofLines, ofLines, ofLine?_around hmarkers, LineState.next_around, ih]

/-- Nothing is observed in the carriage returns of line breaks, or in an empty line at the end. -/
theorem ofLines_linesOfPieces (state : LineState) (number : Nat) (pieces : List (List Char)) :
    ofLines markers state number (Text.linesOfPieces pieces) =
      ofLines markers state number pieces := by
  fun_induction Text.linesOfPieces pieces generalizing state number with
  | case1 => rfl
  | case2 last hempty =>
      rw [List.isEmpty_iff.mp hempty, ofLines, ofLines, ofLine?,
        Extraction.ofLine?_nil hmarkers.named_ne_empty, Option.map_none, ite_self]
      rfl
  | case3 last hempty => rfl
  | case4 piece next rest ih =>
      obtain ⟨margin, hpiece⟩ := Text.padded_dropReturn piece
      rw [ofLines, ofLines, ih]
      rw [hpiece, ofLine?_around hmarkers, LineState.next_around, ← hpiece]

/-- Observations are made in the pieces between line feeds. -/
theorem ofSource_intercalate {pieces : List (List Char)}
    (hpieces : ∀ piece ∈ pieces, '\n' ∉ piece) :
    ofSource markers (['\n'].intercalate pieces) = ofLines markers {} 1 pieces := by
  by_cases hnil : pieces = []
  · rw [hnil]
    rfl
  · rw [ofSource, Text.lines, List.splitOn_intercalate '\n' hpieces hnil,
      ofLines_linesOfPieces hmarkers]

omit hmarkers

/-- Blanks around the lines of a text change nothing of what is observed in it. -/
theorem ofSource_ignores_margins (markers : Markers) (hmarkers : markers.Solid)
    (lines : List (List Char × Margin))
    (hlines : ∀ entry ∈ lines, '\n' ∉ entry.2.around entry.1) :
    ofSource markers (['\n'].intercalate (lines.map fun entry => entry.2.around entry.1)) =
      ofSource markers (['\n'].intercalate (lines.map (·.1))) := by
  have hinner : ∀ entry ∈ lines, '\n' ∉ entry.1 := by
    intro entry hentry hmem
    exact hlines entry hentry
      (List.mem_append_left _ (List.mem_append_right _ hmem))
  have hpadded : List.Forall₂ Padded (lines.map (·.1))
      (lines.map fun entry => entry.2.around entry.1) := by
    rw [List.forall₂_map_left_iff, List.forall₂_map_right_iff, List.forall₂_same]
    intro entry _
    exact ⟨entry.2, rfl⟩
  rw [ofSource_intercalate hmarkers (List.forall_mem_map.mpr hlines),
    ofSource_intercalate hmarkers (List.forall_mem_map.mpr hinner),
    ofLines_of_forall₂_padded hmarkers hpadded]

/-- A text is indented, gets blanks after the backslash of a continuation and at the end of an open
call, and its line breaks get carriage returns. -/
theorem ofSource_ignores_indentation :
    let markers : Markers := {}
    let indented : Margin :=
      { left := "\t\u3000".toList
        right := " \r".toList
        left_blank := by decide +kernel
        right_blank := by decide +kernel }
    let lines := ["#define X \\", "EVENT_H(hidden)", "evt=event_create(x,ready", "",
      "EVENT_FIRE2(evt, a;,", "EVENT_FIRE(evt) /*", "*/EVENT_H(hidden)"].map String.toList
    let observations : List Observation :=
      [{ line := 3, extraction := .creation "evt" "ready" },
        { line := 5, extraction := .fire "evt" (some 2) ["a", ""] }]
    markers.Solid ∧ ofSource markers (['\n'].intercalate lines) = observations ∧
      ofSource markers (['\n'].intercalate (lines.map indented.around)) = observations := by
  intro markers indented lines observations
  have hmarkers : markers.Solid := by
    constructor <;> decide +kernel
  have hobservations : ofSource markers (['\n'].intercalate lines) = observations := by
    decide +kernel
  refine ⟨hmarkers, hobservations, ?_⟩
  rw [← hobservations]
  exact ofSource_ignores_margins markers hmarkers (lines.map fun line => (line, indented))
    (by decide +kernel)

end Observation
end EventAudit
