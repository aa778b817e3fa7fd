import EventAudit.Source.Extraction

/-! # Where a marker is called

What a line says is read from one occurrence of one marker. The text after that
occurrence is fixed: a numeric suffix, blanks and an opening parenthesis, so that a
name which only begins with the marker is passed over. The text before it is not looked
at, and a longer name that ends with the marker is taken for the marker itself. -/

namespace EventAudit

namespace Text

/-- An occurrence is found where it stands: before, needle and after make up the text. -/
theorem eq_of_mem_occurrencesFrom {needle passed text : List Char} {skip : Nat}
    {occurrence : List Char × List Char}
    (hmem : occurrence ∈ occurrencesFrom needle skip passed text) :
    passed.reverse ++ text = occurrence.1.reverse ++ needle ++ occurrence.2 := by
  fun_induction occurrencesFrom needle skip passed text with
  | case1 skip passed hempty =>
      obtain rfl := List.mem_singleton.mp hmem
      rw [List.isEmpty_iff.mp hempty, List.append_nil, List.append_nil]
  | case2 => simp at hmem
  | case3 skip passed c rest ih =>
      rw [← ih hmem]
      simp
  | case4 passed c rest hprefix ih =>
      rcases List.mem_cons.mp hmem with rfl | hmem
      · obtain ⟨tail, htail⟩ := List.isPrefixOf_iff_prefix.mp hprefix
        simp [← htail]
      · rw [← ih hmem]
        simp
  | case5 passed c rest hprefix ih =>
      rw [← ih hmem]
      simp

theorem eq_of_mem_occurrences {needle text passed after : List Char}
    (hmem : (passed, after) ∈ occurrences needle text) :
    text = passed.reverse ++ needle ++ after :=
  eq_of_mem_occurrencesFrom hmem

/-- Between the space and the next line control there are no blanks. -/
theorem toNat_of_isBlank {c : Char} (hblank : isBlank c = true) : c.toNat ≤ 32 ∨ 133 ≤ c.toNat := by
  simp only [isBlank, blankRanges, List.any_cons, List.any_nil, Bool.or_false, Bool.or_eq_true,
    Bool.and_eq_true, decide_eq_true_eq] at hblank
  omega

theorem not_isDigit_of_isBlank {c : Char} (hblank : isBlank c = true) : ¬c.isDigit = true := by
  intro hdigit
  have hlow : 48 ≤ c.toNat := (Char.isDigit_iff_toNat.mp hdigit).1
  have hhigh : c.toNat ≤ 57 := (Char.isDigit_iff_toNat.mp hdigit).2
  have hrange := toNat_of_isBlank hblank
  omega

end Text

namespace Call

/-- How a text goes on after a marker that is called. -/
structure Opening (after digits blanks inner : List Char) : Prop where
  eq_append : after = digits ++ blanks ++ '(' :: inner
  isDigit : ∀ c ∈ digits, c.isDigit = true
  isBlank : ∀ c ∈ blanks, Text.isBlank c = true

/-- Whether the text after a marker makes it a call. -/
def Opens (after : List Char) : Prop :=
  ∃ digits blanks inner, Opening after digits blanks inner

/-- The numeric suffix of an opening is the longest run of digits. -/
theorem Opening.takeWhile_dropWhile {after digits blanks inner : List Char}
    (hopening : Opening after digits blanks inner) :
    after.takeWhile Char.isDigit = digits ∧
      Text.trimStart (after.dropWhile Char.isDigit) = '(' :: inner := by
  obtain ⟨rfl, hdigits, hblanks⟩ := hopening
  have hstop : ∀ c ∈ (blanks ++ '(' :: inner).head?, ¬c.isDigit = true := by
    intro c hc
    cases blanks with
    | nil =>
        obtain rfl : '(' = c := Option.some.inj hc
        decide
    | cons blank rest =>
        obtain rfl : blank = c := Option.some.inj hc
        exact Text.not_isDigit_of_isBlank (hblanks blank List.mem_cons_self)
  obtain ⟨c, rest, hrest⟩ : ∃ c rest, blanks ++ '(' :: inner = c :: rest :=
    List.exists_cons_of_ne_nil (by simp)
  have hc : ¬c.isDigit = true := hstop c (by rw [hrest]; rfl)
  constructor
  · rw [List.append_assoc, List.takeWhile_append_of_pos hdigits, hrest,
      List.takeWhile_cons_of_neg hc, List.append_nil]
  · rw [List.append_assoc, List.dropWhile_append_of_pos hdigits, hrest,
      List.dropWhile_cons_of_neg hc, ← hrest, Text.trimStart,
      List.dropWhile_append_of_pos hblanks, List.dropWhile_cons_of_neg (by decide)]

theorem ofOccurrence?_eq_some_iff {passed after : List Char} {call : Call} :
    ofOccurrence? passed after = some call ↔ ∃ digits blanks,
      Opening after digits blanks call.inner ∧ call.before = passed.reverse ∧
        call.arity = suffixValue? digits := by
  constructor
  · intro hcall
    rw [ofOccurrence?] at hcall
    split at hcall
    next inner hinner =>
      cases hcall
      refine ⟨after.takeWhile Char.isDigit,
        (after.dropWhile Char.isDigit).takeWhile Text.isBlank, ⟨?_, ?_, ?_⟩, rfl, rfl⟩
      · rw [List.append_assoc, ← hinner, Text.trimStart, List.takeWhile_append_dropWhile,
          List.takeWhile_append_dropWhile]
      · exact List.all_eq_true.mp List.all_takeWhile
      · exact List.all_eq_true.mp List.all_takeWhile
    next => simp at hcall
  · rintro ⟨digits, blanks, hopening, hbefore, harity⟩
    obtain ⟨htake, hdrop⟩ := hopening.takeWhile_dropWhile
    rw [ofOccurrence?, htake, hdrop, ← hbefore, ← harity]
    rfl

theorem ofOccurrence?_eq_none_iff {passed after : List Char} :
    ofOccurrence? passed after = none ↔ ¬Opens after := by
  constructor
  · rintro hnone ⟨digits, blanks, inner, hopening⟩
    have hcall : ofOccurrence? passed after =
        some { before := passed.reverse, arity := suffixValue? digits, inner } :=
      ofOccurrence?_eq_some_iff.mpr ⟨digits, blanks, hopening, rfl, rfl⟩
    rw [hnone] at hcall
    cases hcall
  · intro hnot
    cases hcall : ofOccurrence? passed after with
    | none => rfl
    | some call =>
        obtain ⟨digits, blanks, hopening, -⟩ := ofOccurrence?_eq_some_iff.mp hcall
        exact absurd ⟨digits, blanks, call.inner, hopening⟩ hnot

/-- The call of a marker is read from the first occurrence that opens one. -/
theorem find?_eq_some_iff {marker : String} {line : List Char} {call : Call} :
    find? marker line = some call ↔ ∃ earlier passed after later,
      Text.occurrences marker.toList line = earlier ++ (passed, after) :: later ∧
        ofOccurrence? passed after = some call ∧
          ∀ occurrence ∈ earlier, ¬Opens occurrence.2 := by
  rw [find?, List.findSome?_eq_some_iff]
  simp only [ofOccurrence?_eq_none_iff, Prod.exists]

/-- Where a call is found, the marker stands between the text before it and an opening. -/
theorem exists_opening_of_find? {marker : String} {line : List Char} {call : Call}
    (hcall : find? marker line = some call) :
    ∃ after digits blanks, line = call.before ++ marker.toList ++ after ∧
      Opening after digits blanks call.inner ∧ call.arity = suffixValue? digits := by
  obtain ⟨earlier, passed, after, later, hoccurrences, hread, -⟩ := find?_eq_some_iff.mp hcall
  obtain ⟨digits, blanks, hopening, hbefore, harity⟩ := ofOccurrence?_eq_some_iff.mp hread
  refine ⟨after, digits, blanks, ?_, hopening, harity⟩
  rw [hbefore]
  apply Text.eq_of_mem_occurrences
  rw [hoccurrences]
  exact List.mem_append_right _ List.mem_cons_self

/-- Whether the first call of a marker on a line belongs to a longer name, of which the marker is
only the end. -/
def EndsLongerName (marker : String) (line : List Char) : Prop :=
  ∃ earlier c passed after later,
    Text.occurrences marker.toList line = earlier ++ (c :: passed, after) :: later ∧
      Extraction.isIdentifierChar c = true ∧ Opens after ∧
        ∀ occurrence ∈ earlier, ¬Opens occurrence.2

/-- The call that is found is the one that may end a longer name. -/
theorem endsLongerName_iff_of_find? {marker : String} {line : List Char} {call : Call}
    (hcall : find? marker line = some call) :
    EndsLongerName marker line ↔
      ∃ c, call.before.getLast? = some c ∧ Extraction.isIdentifierChar c = true := by
  constructor
  · rintro ⟨earlier, c, passed, after, later, hoccurrences, hc, ⟨digits, blanks, inner, hopening⟩,
      hearlier⟩
    have hread : ofOccurrence? (c :: passed) after =
        some { before := (c :: passed).reverse, arity := suffixValue? digits, inner } :=
      ofOccurrence?_eq_some_iff.mpr ⟨digits, blanks, hopening, rfl, rfl⟩
    have hfound := find?_eq_some_iff.mpr
      ⟨earlier, c :: passed, after, later, hoccurrences, hread, hearlier⟩
    obtain rfl := Option.some.inj (hcall.symm.trans hfound)
    exact ⟨c, by rw [List.reverse_cons, List.getLast?_concat], hc⟩
  · rintro ⟨c, hlast, hc⟩
    obtain ⟨earlier, passed, after, later, hoccurrences, hread, hearlier⟩ :=
      find?_eq_some_iff.mp hcall
    obtain ⟨digits, blanks, hopening, hbefore, -⟩ := ofOccurrence?_eq_some_iff.mp hread
    rw [hbefore, List.getLast?_reverse] at hlast
    obtain ⟨rest, rfl⟩ := List.head?_eq_some_iff.mp hlast
    exact ⟨earlier, c, rest, after, later, hoccurrences, hc,
      ⟨digits, blanks, call.inner, hopening⟩, hearlier⟩

end Call

/-- The kinds of extractions that are read from a call. -/
inductive CallKind where
  | declaration
  | definition
  | creation
  | fire
deriving DecidableEq, Repr

namespace CallKind

/-- The marker whose calls are of this kind. -/
def marker (markers : Markers) : CallKind → String
  | declaration => markers.declaration
  | definition => markers.definition
  | creation => markers.creation
  | fire => markers.fire

/-- What a call of this kind says. -/
def read? (line : List Char) (call : Call) : CallKind → Option Extraction
  | declaration => Extraction.ofDeclaration? call
  | definition => Extraction.ofDefinition? call
  | creation => Extraction.ofCreation? line call
  | fire => Extraction.ofFire? call

end CallKind

namespace Extraction

/-- What a line says about an event is read from a call. -/
theorem exists_call_of_ofLine? {markers : Markers} {line : List Char} {extraction : Extraction}
    {identifier : String} (hextraction : ofLine? markers line = some extraction)
    (hidentifier : extraction.identifier? = some identifier) :
    ∃ kind call, Call.find? (kind.marker markers) line = some call ∧
      CallKind.read? line call kind = some extraction := by
  rw [ofLine?] at hextraction
  split at hextraction
  next call hcall => exact ⟨.declaration, call, hcall, hextraction⟩
  next =>
    split at hextraction
    next call hcall => exact ⟨.definition, call, hcall, hextraction⟩
    next =>
      split at hextraction
      next call hcall => exact ⟨.creation, call, hcall, hextraction⟩
      next =>
        split at hextraction
        next call hcall => exact ⟨.fire, call, hcall, hextraction⟩
        next =>
          -- Only listeners are left, and they name no event.
          split at hextraction
          · cases hextraction
            cases hidentifier
          · split at hextraction
            · cases hextraction
              cases hidentifier
            · cases hextraction

/-- What a line says about an event is read from an occurrence of a marker that is followed by a
numeric suffix, blanks and an opening parenthesis. The marker is a whole name there, unless its
first call on the line belongs to a longer name that ends with it. -/
theorem called_marker_is_whole_name_iff (markers : Markers) (line : List Char)
    (extraction : Extraction) (identifier : String)
    (hextraction : ofLine? markers line = some extraction)
    (hidentifier : extraction.identifier? = some identifier) :
    ∃ kind call digits blanks,
      Call.find? (kind.marker markers) line = some call ∧
        CallKind.read? line call kind = some extraction ∧
        line = call.before ++ (kind.marker markers).toList ++ digits ++ blanks ++
          '(' :: call.inner ∧
        call.arity = Call.suffixValue? digits ∧
        (∀ c ∈ digits, c.isDigit = true) ∧ (∀ c ∈ blanks, Text.isBlank c = true) ∧
        ((∀ c, call.before.getLast? = some c → isIdentifierChar c = false) ↔
          ¬Call.EndsLongerName (kind.marker markers) line) := by
  obtain ⟨kind, call, hcall, hread⟩ := exists_call_of_ofLine? hextraction hidentifier
  obtain ⟨after, digits, blanks, hline, ⟨hafter, hdigits, hblanks⟩, harity⟩ :=
    Call.exists_opening_of_find? hcall
  refine ⟨kind, call, digits, blanks, hcall, hread, ?_, harity, hdigits, hblanks, ?_⟩
  · rw [hline, hafter]
    simp only [List.append_assoc]
  · rw [Call.endsLongerName_iff_of_find? hcall]
    simp

/-- A name that only begins with the marker is passed over, and the later call is that of a whole
name. -/
theorem called_marker_after_longer_name :
    let markers : Markers := {}
    let line := "EVENT_HANDLER(x) EVENT_H2 (evt)".toList
    ofLine? markers line = some (.declaration "evt" (some 2)) ∧
      ∃ kind call digits blanks,
        line = call.before ++ (kind.marker markers).toList ++ digits ++ blanks ++
            '(' :: call.inner ∧
          CallKind.read? line call kind = some (.declaration "evt" (some 2)) ∧
          ∀ c, call.before.getLast? = some c → isIdentifierChar c = false := by
  intro markers line
  have hextraction : ofLine? markers line = some (.declaration "evt" (some 2)) := by
    decide +kernel
  obtain ⟨kind, call, digits, blanks, hcall, hread, hline, -, -, -, hwhole⟩ :=
    called_marker_is_whole_name_iff markers line _ "evt" hextraction rfl
  refine ⟨hextraction, kind, call, digits, blanks, hline, hread, hwhole.mpr ?_⟩
  rw [Call.endsLongerName_iff_of_find? hcall]
  -- None of the four markers has a call here that follows an identifier character.
  have hfirst : ∀ call ∈ Call.find? (kind.marker markers) line,
      call.before.getLast? = some ' ' := by
    cases kind <;> decide +kernel
  rintro ⟨c, hlast, hc⟩
  rw [hfirst call hcall] at hlast
  cases hlast
  revert hc
  decide

/-- A longer name that ends with the marker is read as a call of the marker, although the marker
occurs nowhere else on the line. -/
theorem longer_name_is_read_as_marker :
    let markers : Markers := {}
    let line := "MY_EVENT_H(foo)".toList
    ofLine? markers line = some (.declaration "foo" none) ∧
      ∀ before after, line = before ++ markers.declaration.toList ++ after →
        before.getLast? = some '_' := by
  intro markers line
  refine ⟨by decide +kernel, ?_⟩
  intro before after hline
  have hplaces : ∀ length < 16, markers.declaration.toList.isPrefixOf (line.drop length) →
      (line.take length).getLast? = some '_' := by
    decide +kernel
  have hlength : before.length < 16 := by
    have htotal : line.length = 15 := by decide +kernel
    rw [hline, List.length_append, List.length_append] at htotal
    omega
  have hbefore : line.take before.length = before := by
    rw [hline, List.append_assoc, List.take_left]
  rw [← hbefore]
  apply hplaces _ hlength
  rw [hline, List.append_assoc, List.drop_left, List.isPrefixOf_iff_prefix]
  exact List.prefix_append _ _

end Extraction
end EventAudit
