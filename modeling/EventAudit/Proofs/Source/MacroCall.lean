import EventAudit.Proofs.Source.FireName

/-! # Declarations and definitions as they are written

Occurrences of a marker that does not overlap itself lie side by side, so that the search
from left to right passes over none of them. A declaration or definition is therefore read
back from any place on a line, if no call of its marker begins before it. What stands in
front may hold the marker as a part of other names, and what follows the name is not read. -/

namespace EventAudit

namespace Text

variable {needle : List Char} (hoverlap : ¬OverlapsItself needle)

include hoverlap

/-- An occurrence is found wherever it stands, after others that begin before it. -/
theorem exists_occurrencesFrom_eq_append (hne : needle ≠ []) {before : List Char}
    (after passed : List Char) {skip : Nat} (hskip : skip ≤ before.length) :
    ∃ earlier later, occurrencesFrom needle skip passed (before ++ needle ++ after) =
        earlier ++ (before.reverse ++ passed, after) :: later ∧
      ∀ occurrence ∈ earlier, occurrence.1.length < before.length + passed.length := by
  induction before generalizing skip passed with
  | nil =>
      obtain rfl : skip = 0 := Nat.le_zero.mp hskip
      obtain ⟨c, rest, rfl⟩ := List.exists_cons_of_ne_nil hne
      have hprefix : (c :: rest).isPrefixOf (c :: (rest ++ after)) = true :=
        List.isPrefixOf_iff_prefix.mpr (List.prefix_append (c :: rest) after)
      rw [List.nil_append, List.cons_append, occurrencesFrom, if_pos hprefix, ← List.cons_append,
        List.drop_left]
      exact ⟨[], _, rfl, fun _ hnil => absurd hnil List.not_mem_nil⟩
  | cons c before ih =>
      -- What is found behind the first character lies in front of `needle` all the same.
      have hlater : ∀ {skip : Nat}, skip ≤ before.length → ∃ earlier later,
          occurrencesFrom needle skip (c :: passed) (before ++ needle ++ after) =
            earlier ++ ((c :: before).reverse ++ passed, after) :: later ∧
          ∀ occurrence ∈ earlier, occurrence.1.length < (c :: before).length + passed.length := by
        intro skip hskip
        obtain ⟨earlier, later, hfound, hearlier⟩ := ih (c :: passed) hskip
        refine ⟨earlier, later, ?_, ?_⟩
        · rw [hfound, List.reverse_cons, List.append_assoc, List.singleton_append]
        · intro occurrence hoccurrence
          have hlt := hearlier occurrence hoccurrence
          simp only [List.length_cons] at hlt ⊢
          omega
      cases skip with
      | succ skip => exact hlater (Nat.le_of_succ_le_succ hskip)
      | zero =>
          rw [List.cons_append, List.cons_append, occurrencesFrom]
          split
          next hprefix =>
            have hlength := length_le_of_prefix hoverlap (List.cons_ne_nil c before)
              (List.isPrefixOf_iff_prefix.mp hprefix)
            obtain ⟨earlier, later, hfound, hearlier⟩ :=
              hlater (Nat.sub_le_iff_le_add.mpr hlength)
            refine ⟨_ :: earlier, later, by rw [hfound]; rfl, ?_⟩
            rw [List.forall_mem_cons]
            refine ⟨?_, hearlier⟩
            simp only [List.length_cons]
            omega
          next => exact hlater (Nat.zero_le _)

end Text

namespace Call

/-- Whether a marker is called on a line, after so many characters. -/
def CalledAt (marker : String) (line : List Char) (index : Nat) : Prop :=
  ∃ before after, line = before ++ marker.toList ++ after ∧ before.length = index ∧ Opens after

variable {marker : String} {line : List Char}

theorem calledAt_iff {index : Nat} :
    CalledAt marker line index ↔ index ≤ line.length ∧
      marker.toList.isPrefixOf (line.drop index) = true ∧
        (ofOccurrence? [] (line.drop (index + marker.toList.length))).isSome = true := by
  simp only [Option.isSome_iff_ne_none, ne_eq, ofOccurrence?_eq_none_iff, not_not]
  constructor
  · rintro ⟨before, after, rfl, rfl, hopens⟩
    rw [← List.length_append, List.drop_left, List.append_assoc, List.drop_left,
      List.isPrefixOf_iff_prefix]
    exact ⟨by simp, List.prefix_append _ _, hopens⟩
  · rintro ⟨hindex, hprefix, hopens⟩
    obtain ⟨after, hafter⟩ := List.isPrefixOf_iff_prefix.mp hprefix
    rw [← List.drop_drop, ← hafter, List.drop_left] at hopens
    refine ⟨line.take index, after, ?_, List.length_take_of_le hindex, hopens⟩
    rw [List.append_assoc, hafter, List.take_append_drop]

instance (marker : String) (line : List Char) (index : Nat) :
    Decidable (CalledAt marker line index) :=
  decidable_of_iff _ calledAt_iff.symm

/-- If a marker is called nowhere, no call of it is found. -/
theorem find?_eq_none_of_not_calledAt (hcalled : ∀ index, ¬CalledAt marker line index) :
    find? marker line = none := by
  cases hfind : find? marker line with
  | none => rfl
  | some call =>
      obtain ⟨after, digits, blanks, hline, hopening, -⟩ := exists_opening_of_find? hfind
      exact absurd ⟨call.before, after, hline, rfl, digits, blanks, call.inner, hopening⟩
        (hcalled call.before.length)

/-- A call of a marker that does not overlap itself is found if no other one begins before it. -/
theorem find?_of_not_calledAt {before after digits blanks inner : List Char}
    (hmarker : marker ≠ "") (hoverlap : ¬Text.OverlapsItself marker.toList)
    (hearlier : ∀ index < before.length, ¬CalledAt marker (before ++ marker.toList ++ after) index)
    (hopening : Opening after digits blanks inner) :
    find? marker (before ++ marker.toList ++ after) =
      some { before, arity := suffixValue? digits, inner } := by
  have hne : marker.toList ≠ [] := mt String.toList_eq_nil_iff.mp hmarker
  obtain ⟨earlier, later, hfound, hshorter⟩ :=
    Text.exists_occurrencesFrom_eq_append hoverlap hne after [] (Nat.zero_le before.length)
  rw [find?_eq_some_iff]
  refine ⟨earlier, before.reverse, after, later, ?_, ?_, ?_⟩
  · rw [Text.occurrences, hfound, List.append_nil]
  · rw [ofOccurrence?_eq_some_iff]
    exact ⟨digits, blanks, hopening, (List.reverse_reverse before).symm, rfl⟩
  · rintro ⟨passed, rest⟩ hoccurrence hopens
    have hline : before ++ marker.toList ++ after = passed.reverse ++ marker.toList ++ rest := by
      apply Text.eq_of_mem_occurrences
      rw [Text.occurrences, hfound]
      exact List.mem_append_left _ hoccurrence
    refine hearlier passed.length (hshorter _ hoccurrence) ?_
    exact ⟨passed.reverse, rest, hline, List.length_reverse, hopens⟩

end Call

/-- What follows the marker of a declaration or definition, as it is written. -/
structure WrittenMacro where
  /-- The numeric suffix of the marker, which may be empty. -/
  digits : List Char
  /-- What stands before the opening parenthesis. -/
  gap : List Char
  name : List Char
  /-- The blanks around the name. -/
  margin : Text.Margin
  /-- The character at which the name ends. -/
  stop : Char
  /-- The rest of the line. -/
  tail : List Char
  digits_isDigit : ∀ c ∈ digits, c.isDigit = true := by
    exact List.all_eq_true.mp (by decide +kernel)
  gap_blank : Text.AllBlank gap := by decide +kernel
  name_ne_nil : name ≠ [] := by decide +kernel
  name_comma : ',' ∉ name := by decide +kernel
  name_paren : ')' ∉ name := by decide +kernel
  name_trimmed : Text.Trimmed Text.isBlank name := by decide +kernel
  stop_ends : stop = ',' ∨ stop = ')' := by decide

namespace WrittenMacro

variable (call : WrittenMacro)

/-- The text after the opening parenthesis. -/
def inner : List Char :=
  call.margin.around call.name ++ call.stop :: call.tail

def written : List Char :=
  call.digits ++ call.gap ++ '(' :: call.inner

theorem opening : Call.Opening call.written call.digits call.gap call.inner :=
  ⟨rfl, call.digits_isDigit, call.gap_blank⟩

theorem firstArgument?_inner :
    Extraction.firstArgument? call.inner = some (String.ofList call.name) := by
  have hcomma := call.margin.not_mem_around (by decide) call.name_comma
  have hparen := call.margin.not_mem_around (by decide) call.name_paren
  have hstop : ∀ c ∈ (call.stop :: call.tail).head?, c = ',' ∨ c = ')' := by
    intro c hc
    obtain rfl : call.stop = c := Option.some.inj hc
    exact call.stop_ends
  have htrim : Text.trim (call.margin.around call.name) = call.name :=
    call.name_trimmed.trimWhere_between call.margin.left_blank call.margin.right_blank
  rw [inner, Extraction.firstArgument?_append_of_head? hcomma hparen hstop, htrim,
    Extraction.name?_of_ne_nil call.name_ne_nil]

end WrittenMacro

namespace Extraction

/-- A declaration is read as it was written, with the value of its suffix, wherever on the line it
stands, if its marker does not overlap itself and is not called before. A definition is so, too,
if the line does not call the marker of declarations. -/
theorem written_macro_reads_back (markers : Markers) (before : List Char) (call : WrittenMacro) :
    (let line := before ++ markers.declaration.toList ++ call.written
     let value := Nat.ofDigits 10 (call.digits.map fun digit => digit.toNat - '0'.toNat).reverse
     markers.declaration ≠ "" → ¬Text.OverlapsItself markers.declaration.toList →
     (∀ index < before.length, ¬Call.CalledAt markers.declaration line index) →
     ofLine? markers line = some (.declaration (String.ofList call.name)
       (if call.digits ≠ [] ∧ value < 2 ^ 64 then some value else none))) ∧
    (let line := before ++ markers.definition.toList ++ call.written
     markers.definition ≠ "" → ¬Text.OverlapsItself markers.definition.toList →
     (∀ index < before.length, ¬Call.CalledAt markers.definition line index) →
     (∀ index, ¬Call.CalledAt markers.declaration line index) →
     ofLine? markers line = some (.definition (String.ofList call.name))) := by
  constructor
  · intro line value hmarker hoverlap hearlier
    rw [ofLine?, Call.find?_of_not_calledAt hmarker hoverlap hearlier call.opening]
    dsimp only
    rw [ofDeclaration?, call.firstArgument?_inner, Call.suffixValue?_eq_ite]
    rfl
  · intro line hmarker hoverlap hearlier hdeclaration
    rw [ofLine?, Call.find?_eq_none_of_not_calledAt hdeclaration,
      Call.find?_of_not_calledAt hmarker hoverlap hearlier call.opening]
    dsimp only
    rw [ofDefinition?, call.firstArgument?_inner]
    rfl

/-- Behind longer names and uncalled markers, with other calls after the name. -/
theorem written_macro_reads_back_among_markers :
    let markers : Markers := {}
    let written := "007\t( evt (x; , EVENT_C(other) EVENT_FIRE(evt, 1))".toList
    let declared := "EVENT_HANDLER(EVENT_H, x) EVENT_H; EVENT_H".toList ++ written
    let defined := "EVENT_HANDLER EVENT_CODE(x) EVENT_C; EVENT_C".toList ++ written
    ofLine? markers declared = some (.declaration "evt (x;" (some 7)) ∧
      ofLine? markers defined = some (.definition "evt (x;") := by
  intro markers written declared defined
  let call : WrittenMacro :=
    { digits := "007".toList
      gap := "\t".toList
      name := "evt (x;".toList
      margin := ⟨[' '], [' '], by decide, by decide⟩
      stop := ','
      tail := " EVENT_C(other) EVENT_FIRE(evt, 1))".toList }
  have hdeclaredLine : "EVENT_HANDLER(EVENT_H, x) EVENT_H; ".toList ++
      markers.declaration.toList ++ call.written = declared := by decide +kernel
  have hdefinedLine : "EVENT_HANDLER EVENT_CODE(x) EVENT_C; ".toList ++
      markers.definition.toList ++ call.written = defined := by decide +kernel
  have hdeclared := (written_macro_reads_back markers
    "EVENT_HANDLER(EVENT_H, x) EVENT_H; ".toList call).1 (by decide) (by decide +kernel)
    (by decide +kernel)
  have hnowhere : ∀ index, ¬Call.CalledAt markers.declaration defined index := by
    intro index hcalled
    have hbound : ∀ index ≤ defined.length, ¬Call.CalledAt markers.declaration defined index := by
      decide +kernel
    exact hbound index (Call.calledAt_iff.mp hcalled).1 hcalled
  rw [← hdefinedLine] at hnowhere
  have hdefined := (written_macro_reads_back markers
    "EVENT_HANDLER EVENT_CODE(x) EVENT_C; ".toList call).2 (by decide) (by decide +kernel)
    (by decide +kernel) hnowhere
  rw [← hdeclaredLine, ← hdefinedLine]
  refine ⟨hdeclared.trans ?_, hdefined.trans ?_⟩
  · decide +kernel
  · decide +kernel

end Extraction
end EventAudit
