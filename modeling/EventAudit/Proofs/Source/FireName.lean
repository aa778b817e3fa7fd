import EventAudit.Proofs.Source.FireCall

/-! # The event that a fire call names

A declaration names its event up to the first comma or closing parenthesis. A fire call
names it by its whole first field, of which a closing parenthesis is dropped only at the very
end of the line. The same text after the marker gives the same name where the first field
is followed by a comma, or closed with nothing but blanks and semicolons after it. Anything
else behind a call without arguments becomes a part of the name. -/

namespace EventAudit

namespace Text

variable {p : Char → Bool} {text : List Char} {c : Char}

theorem mem_dropWhile_of_neg (hmem : c ∈ text) (hc : p c = false) : c ∈ text.dropWhile p := by
  rw [← List.takeWhile_append_dropWhile (p := p) (l := text), List.mem_append] at hmem
  rcases hmem with htake | hdrop
  · rw [List.mem_takeWhile_imp htake] at hc
    cases hc
  · exact hdrop

theorem mem_dropWhileEnd_of_neg (hmem : c ∈ text) (hc : p c = false) :
    c ∈ dropWhileEnd p text := by
  rw [dropWhileEnd, List.mem_reverse]
  exact mem_dropWhile_of_neg (List.mem_reverse.mpr hmem) hc

/-- Only the ends of a text are trimmed away. -/
theorem mem_trimWhere_of_neg (hmem : c ∈ text) (hc : p c = false) : c ∈ trimWhere p text :=
  mem_dropWhileEnd_of_neg (mem_dropWhile_of_neg hmem hc) hc

/-- The end of a text is trimmed inside of what is put behind the text, if some of that is left. -/
theorem dropWhileEnd_append_of_ne_nil {right : List Char} (hright : dropWhileEnd p right ≠ []) :
    dropWhileEnd p (text ++ right) = text ++ dropWhileEnd p right := by
  have hne : ¬(right.reverse.dropWhile p).isEmpty = true := by
    rw [List.isEmpty_iff, ← List.reverse_eq_nil_iff]
    exact hright
  rw [dropWhileEnd, List.reverse_append, List.dropWhile_append, if_neg hne, List.reverse_append,
    List.reverse_reverse, dropWhileEnd]

/-- What is trimmed away are blanks around the rest. -/
theorem padded_trim (text : List Char) : Padded (trim text) text := by
  refine ⟨⟨text.takeWhile isBlank, (text.dropWhile isBlank).rtakeWhile isBlank, ?_, ?_⟩, ?_⟩
  · exact fun c hc => List.mem_takeWhile_imp hc
  · exact fun c hc => List.mem_rtakeWhile_imp hc
  · rw [Margin.around, List.append_assoc, trim, trimWhere, dropWhileEnd_eq_rdropWhile,
      List.rdropWhile_append_rtakeWhile, List.takeWhile_append_dropWhile]

end Text

namespace Extraction

/-- Whether the first field of a call is written so that fire calls and declarations find the same
name in it: as all that is left of the line, before a comma, or closed with nothing but blanks and
semicolons after it. A semicolon beside the name belongs to it in a declaration only, except before
the closing parenthesis. -/
inductive PlainlyNamed : List Char → Prop
  | unclosed {name : List Char} (hcomma : ',' ∉ name) (hparen : ')' ∉ name)
      (htrimmed : Text.Trimmed isLoose (Text.trim name)) : PlainlyNamed name
  | followed {name : List Char} (rest : List Char) (hcomma : ',' ∉ name) (hparen : ')' ∉ name)
      (htrimmed : Text.Trimmed isLoose (Text.trim name)) : PlainlyNamed (name ++ ',' :: rest)
  | closed {name tail : List Char} (hcomma : ',' ∉ name) (hparen : ')' ∉ name)
      (hfirst : (Text.trimStart name).head? ≠ some ';')
      (htail : ∀ c ∈ tail, isLoose c = true) : PlainlyNamed (name ++ ')' :: tail)

section Readers

variable {name : List Char} (hcomma : ',' ∉ name) (hparen : ')' ∉ name)

include hcomma hparen

/-- A declaration reads its name up to a comma or a closing parenthesis. -/
theorem firstArgument?_append_of_head? {rest : List Char}
    (hrest : ∀ c ∈ rest.head?, c = ',' ∨ c = ')') :
    firstArgument? (name ++ rest) = name? (Text.trim name) := by
  have hname : ∀ c ∈ name, (c != ')' && c != ',') = true := by
    intro c hc
    rw [Bool.and_eq_true, bne_iff_ne, bne_iff_ne]
    exact ⟨fun heq => hparen (heq ▸ hc), fun heq => hcomma (heq ▸ hc)⟩
  have hstop : rest.takeWhile (fun c => c != ')' && c != ',') = [] := by
    cases rest with
    | nil => rfl
    | cons c later =>
        apply List.takeWhile_cons_of_neg
        rcases hrest c rfl with rfl | rfl <;> decide
  rw [firstArgument?, List.takeWhile_append_of_pos hname, hstop, List.append_nil]

/-- A name that is not closed is only trimmed. -/
theorem fireFields_unclosed : fireFields name = [Text.trimWhere isLoose name] := by
  have hlast : (Text.trimWhere isLoose name).getLast? ≠ some ')' := by
    intro hlast
    exact hparen ((Text.trimWhere_sublist _ _).mem (List.mem_of_getLast? hlast))
  rw [fireFields_of_not_mem hcomma, dropClosing, if_neg hlast, Text.trimEnd,
    Text.dropWhileEnd_eq_rdropWhile, Text.rdropWhile_of_getLast?]
  exact fun c hc => isBlank_of_not_isLoose ((Text.trimmed_trimWhere isLoose name).last c hc)

end Readers

/-- Trimming away semicolons as well makes no difference exactly if there is none at the ends of what
is left without the blanks. -/
theorem trim_eq_trimWhere_iff {name : List Char} :
    Text.trim name = Text.trimWhere isLoose name ↔ Text.Trimmed isLoose (Text.trim name) := by
  constructor
  · intro heq
    rw [heq]
    exact Text.trimmed_trimWhere isLoose name
  · intro htrimmed
    obtain ⟨margin, hmargin⟩ := Text.padded_trim name
    conv_rhs => rw [hmargin, Text.Margin.around]
    rw [htrimmed.trimWhere_between]
    · exact fun c hc => isLoose_of_isBlank (margin.left_blank c hc)
    · exact fun c hc => isLoose_of_isBlank (margin.right_blank c hc)

/-- Before a closing parenthesis, only semicolons in front of the name are read differently. -/
theorem trim_eq_trimEnd_dropWhile_iff {name : List Char}
    (hne : Text.trimEnd (name.dropWhile isLoose) ≠ []) :
    Text.trim name = Text.trimEnd (name.dropWhile isLoose) ↔
      (Text.trimStart name).head? ≠ some ';' := by
  constructor
  · intro heq hsemicolon
    obtain ⟨c, rest, hcons⟩ := List.exists_cons_of_ne_nil hne
    have hkept : isLoose c = false :=
      Text.head?_dropWhile_neg (Text.mem_head?_of_isPrefix (List.rdropWhile_prefix _ _) (by
        rw [← Text.dropWhileEnd_eq_rdropWhile, ← Text.trimEnd, hcons]; rfl))
    have hhead : c ∈ (Text.trimStart name).head? :=
      Text.mem_head?_of_isPrefix (List.rdropWhile_prefix Text.isBlank _) (by
        rw [← Text.dropWhileEnd_eq_rdropWhile, Text.trimStart, ← Text.trimWhere, ← Text.trim,
          heq, hcons]
        rfl)
    rw [hsemicolon] at hhead
    obtain rfl := Option.some.inj hhead
    cases hkept
  · intro hsemicolon
    have hdrop : name.dropWhile isLoose = Text.trimStart name := by
      have hblank : ∀ c ∈ name.takeWhile Text.isBlank, isLoose c = true := fun c hc =>
        isLoose_of_isBlank (List.mem_takeWhile_imp hc)
      conv_lhs => rw [← List.takeWhile_append_dropWhile (p := Text.isBlank) (l := name)]
      rw [List.dropWhile_append_of_pos hblank, ← Text.trimStart]
      cases hstart : Text.trimStart name with
      | nil => rfl
      | cons c rest =>
          have hink : Text.isBlank c = false :=
            Text.head?_dropWhile_neg (by rw [← Text.trimStart, hstart]; rfl)
          have hc : c ≠ ';' := by
            rintro rfl
            exact hsemicolon (by rw [hstart]; rfl)
          exact List.dropWhile_cons_of_neg (by simp [isLoose, hink, hc])
    rw [hdrop]
    rfl

theorem mem_dropClosing {field : List Char} {c : Char} (hc : c ∈ field.dropLast)
    (hink : Text.isBlank c = false) : c ∈ dropClosing field := by
  rw [dropClosing]
  apply Text.mem_dropWhileEnd_of_neg _ hink
  split
  · exact hc
  · exact List.dropLast_subset _ hc

/-- Behind a closing parenthesis, anything but blanks and semicolons makes the parenthesis a part
of the name. -/
theorem paren_mem_of_fireFields {name tail first : List Char} {rest : List (List Char)}
    (hcomma : ',' ∉ name) (hfields : fireFields (name ++ ')' :: tail) = first :: rest)
    (htail : ¬∀ c ∈ tail, isLoose c = true) : ')' ∈ first := by
  have hloose : isLoose ')' = false := by decide
  by_cases hmem : ',' ∈ tail
  · -- The field ends at a comma, so that no parenthesis is dropped.
    obtain ⟨piece, later, rfl, hpiece⟩ := List.eq_append_cons_of_mem hmem
    have hfield : ',' ∉ name ++ ')' :: piece := by simp [hcomma, hpiece]
    rw [← List.cons_append, ← List.append_assoc, fireFields_append_cons hfield] at hfields
    obtain ⟨rfl, -⟩ := List.cons.inj hfields
    exact Text.mem_trimWhere_of_neg (by simp) hloose
  · have hfield : ',' ∉ name ++ ')' :: tail := by simp [hcomma, hmem]
    rw [fireFields_of_not_mem hfield] at hfields
    obtain ⟨rfl, -⟩ := List.cons.inj hfields
    have hleft : Text.dropWhileEnd isLoose tail ≠ [] := by
      rw [Text.dropWhileEnd, ne_eq, List.reverse_eq_nil_iff, List.dropWhile_eq_nil_iff]
      simpa using htail
    apply mem_dropClosing _ (by decide)
    rw [Text.trimWhere, dropWhile_append_paren, ← List.singleton_append, ← List.append_assoc,
      Text.dropWhileEnd_append_of_ne_nil hleft, List.dropLast_append_of_ne_nil hleft]
    simp

/-- A text is a name, which may be followed by a comma or a closing parenthesis. -/
theorem exists_name_append (inner : List Char) :
    ∃ name rest, inner = name ++ rest ∧ ',' ∉ name ∧ ')' ∉ name ∧
      ∀ c ∈ rest.head?, c = ',' ∨ c = ')' := by
  let inside : Char → Bool := fun c => c != ',' && c != ')'
  have hinside : ∀ c ∈ inner.takeWhile inside, c ≠ ',' ∧ c ≠ ')' := by
    intro c hc
    simpa [inside] using List.mem_takeWhile_imp hc
  refine ⟨inner.takeWhile inside, inner.dropWhile inside, ?_, ?_, ?_, ?_⟩
  · rw [List.takeWhile_append_dropWhile]
  · exact fun hcomma => (hinside ',' hcomma).1 rfl
  · exact fun hparen => (hinside ')' hparen).2 rfl
  · intro c hc
    have hstop : inside c = false := Text.head?_dropWhile_neg hc
    rw [or_iff_not_imp_left]
    simpa [inside] using hstop

section Agreement

variable {inner first : List Char} {rest : List (List Char)} {identifier : String}
  (hfields : fireFields inner = first :: rest) (hname : name? first = some identifier)

include hname

theorem name?_eq_some_iff_eq {text : List Char} : name? text = some identifier ↔ text = first := by
  constructor
  · intro htext
    rw [← (toList_of_name? htext).2, (toList_of_name? hname).2]
  · rintro rfl
    exact hname

include hfields

/-- If a declaration names the event of a fire call, the event is named plainly. -/
theorem plainlyNamed_of_firstArgument? (hfirst : firstArgument? inner = some identifier) :
    PlainlyNamed inner := by
  obtain ⟨name, after, rfl, hcomma, hparen, hafter⟩ := exists_name_append inner
  rw [firstArgument?_append_of_head? hcomma hparen hafter, name?_eq_some_iff_eq hname] at hfirst
  cases after with
  | nil =>
      rw [List.append_nil] at hfields ⊢
      rw [fireFields_unclosed hcomma hparen] at hfields
      obtain ⟨rfl, -⟩ := List.cons.inj hfields
      exact .unclosed hcomma hparen (trim_eq_trimWhere_iff.mp hfirst)
  | cons c tail =>
      rcases hafter c rfl with rfl | rfl
      · rw [fireFields_append_cons hcomma] at hfields
        obtain ⟨rfl, -⟩ := List.cons.inj hfields
        exact .followed tail hcomma hparen (trim_eq_trimWhere_iff.mp hfirst)
      · have htail : ∀ c ∈ tail, isLoose c = true := by
          by_contra htail
          have hmem := paren_mem_of_fireFields hcomma hfields htail
          rw [← hfirst] at hmem
          exact hparen ((Text.trimWhere_sublist _ _).mem hmem)
        rw [fireFields_closed hcomma htail] at hfields
        obtain ⟨rfl, -⟩ := List.cons.inj hfields
        have hsemicolon := (trim_eq_trimEnd_dropWhile_iff (toList_of_name? hname).1).mp hfirst
        exact .closed hcomma hparen hsemicolon htail

/-- If an event is named plainly by a fire call, a declaration names it as well. -/
theorem PlainlyNamed.firstArgument?_eq (hplain : PlainlyNamed inner) :
    firstArgument? inner = some identifier := by
  cases hplain with
  | unclosed hcomma hparen htrimmed =>
      rw [fireFields_unclosed hcomma hparen] at hfields
      obtain ⟨rfl, -⟩ := List.cons.inj hfields
      rw [← List.append_nil inner, firstArgument?_append_of_head? hcomma hparen (by simp),
        name?_eq_some_iff_eq hname]
      exact trim_eq_trimWhere_iff.mpr htrimmed
  | followed after hcomma hparen htrimmed =>
      rw [fireFields_append_cons hcomma] at hfields
      obtain ⟨rfl, -⟩ := List.cons.inj hfields
      rw [firstArgument?_append_of_head? hcomma hparen (by simp), name?_eq_some_iff_eq hname]
      exact trim_eq_trimWhere_iff.mpr htrimmed
  | closed hcomma hparen hsemicolon htail =>
      rw [fireFields_closed hcomma htail] at hfields
      obtain ⟨rfl, -⟩ := List.cons.inj hfields
      rw [firstArgument?_append_of_head? hcomma hparen (by simp), name?_eq_some_iff_eq hname]
      exact (trim_eq_trimEnd_dropWhile_iff (toList_of_name? hname).1).mpr hsemicolon

end Agreement

/-- Where the text after a marker is read as a fire call, a declaration with the same text after its
marker names the same event if and only if the event is named plainly there. -/
theorem fire_names_declared_event_iff (passed after : List Char) (identifier : String)
    (arity : Option Nat) (args : List String)
    (hfire : (Call.ofOccurrence? passed after).bind ofFire? = some (.fire identifier arity args)) :
    ((Call.ofOccurrence? passed after).bind fun call => firstArgument? call.inner) =
        some identifier ↔
      ∃ digits blanks inner, Call.Opening after digits blanks inner ∧ PlainlyNamed inner := by
  obtain ⟨call, hcall, hread⟩ := Option.bind_eq_some_iff.mp hfire
  obtain ⟨digits, blanks, hopening, -, -⟩ := Call.ofOccurrence?_eq_some_iff.mp hcall
  rw [ofFire?] at hread
  split at hread
  next => cases hread
  next first rest hfields =>
    obtain ⟨name, hname, hmk⟩ := Option.map_eq_some_iff.mp hread
    obtain ⟨rfl, -, -⟩ := Extraction.fire.inj hmk
    rw [hcall, Option.bind_some]
    constructor
    · intro hfirst
      exact ⟨digits, blanks, call.inner, hopening,
        plainlyNamed_of_firstArgument? hfields hname hfirst⟩
    · rintro ⟨digits', blanks', inner, hopening', hplain⟩
      -- The opening leaves no choice of the text in parentheses.
      have hsame := hopening.takeWhile_dropWhile.2.symm.trans hopening'.takeWhile_dropWhile.2
      rw [← (List.cons.inj hsame).2] at hplain
      exact hplain.firstArgument?_eq hfields hname

/-- Behind an argument, a brace does not change the name. -/
theorem fire_names_declared_event_before_brace :
    let after := "2 ( evt , x ) \x7b".toList
    (Call.ofOccurrence? [] after).bind ofFire? = some (.fire "evt" (some 2) ["x ) \x7b"]) ∧
      ((Call.ofOccurrence? [] after).bind fun call => firstArgument? call.inner) = some "evt" := by
  intro after
  have hfire : (Call.ofOccurrence? [] after).bind ofFire? =
      some (.fire "evt" (some 2) ["x ) \x7b"]) := by
    decide +kernel
  have hopening : Call.Opening after ['2'] [' '] " evt , x ) \x7b".toList :=
    ⟨rfl, List.all_eq_true.mp (by decide), List.all_eq_true.mp (by decide)⟩
  have hplain : PlainlyNamed " evt , x ) \x7b".toList :=
    @PlainlyNamed.followed " evt ".toList " x ) \x7b".toList (by decide) (by decide)
      (by decide +kernel)
  refine ⟨hfire, ?_⟩
  exact (fire_names_declared_event_iff [] after _ _ _ hfire).mpr ⟨_, _, _, hopening, hplain⟩

/-- A comment behind a fire call without arguments becomes a part of the event's name, while a
declaration with the same text after its marker names the event itself. -/
theorem fire_name_takes_in_comment :
    let after := "(foo); // done".toList
    let markers : Markers := {}
    (Call.ofOccurrence? [] after).bind ofFire? = some (.fire "foo); // done" none []) ∧
      ((Call.ofOccurrence? [] after).bind fun call => firstArgument? call.inner) = some "foo" ∧
      ofLine? markers (markers.fire.toList ++ after) = some (.fire "foo); // done" none []) ∧
      ofLine? markers (markers.declaration.toList ++ after) = some (.declaration "foo" none) := by
  decide +kernel

end Extraction
end EventAudit
