import EventAudit.Proofs.Source.FirstCall
import EventAudit.Proofs.Source.Names

/-! # Creations as they are written

A creation is keyed by the variable that it is assigned to, and otherwise by its display
name, a string literal after the first comma of the line. Both are read back from a line on
which the text before the literal holds no other comma, however the rest of the line looks
after the next comma. -/

namespace EventAudit

namespace Text

/-- The longest suffix of one kind ends at a character of another kind. -/
theorem takeWhileEnd_append {p : Char → Bool} {before word : List Char}
    (hword : ∀ c ∈ word, p c = true) (hbefore : ∀ c ∈ before.getLast?, p c = false) :
    takeWhileEnd p (before ++ word) = word := by
  have hstop : before.reverse.takeWhile p = [] := by
    cases hcases : before.reverse with
    | nil => rfl
    | cons c rest =>
        have hc : p c = false := hbefore c (by rw [← List.head?_reverse, hcases]; rfl)
        exact List.takeWhile_cons_of_neg (by simp [hc])
  rw [takeWhileEnd, List.reverse_append,
    List.takeWhile_append_of_pos fun c hc => hword c (List.mem_reverse.mp hc), hstop,
    List.append_nil, List.reverse_reverse]

/-- The first field reaches to the first separator. -/
theorem exists_splitOn_eq_cons (separator : Char) (text : List Char) :
    ∃ rest, text.splitOn separator = text.takeWhile (· != separator) :: rest := by
  induction text using split_induction separator with
  | last piece hpiece =>
      refine ⟨[], ?_⟩
      rw [splitOn_of_not_mem hpiece, List.takeWhile_eq_self_iff.mpr]
      exact fun c hc => bne_iff_ne.mpr fun heq => hpiece (heq ▸ hc)
  | cut piece rest hpiece _ =>
      refine ⟨rest.splitOn separator, ?_⟩
      rw [splitOn_append_cons hpiece, List.takeWhile_append_of_pos,
        List.takeWhile_cons_of_neg (by simp), List.append_nil]
      exact fun c hc => bne_iff_ne.mpr fun heq => hpiece (heq ▸ hc)

end Text

/-- What follows the marker of a creation, as it is written. -/
structure WrittenCreation where
  /-- The numeric suffix of the marker, which may be empty. -/
  digits : List Char
  /-- What stands before the opening parenthesis. -/
  gap : List Char
  /-- The first argument. -/
  handle : List Char
  /-- What stands before the quote that opens the display name. -/
  space : List Char
  displayName : List Char
  /-- What stands after the quote that closes the display name. -/
  tail : List Char
  digits_isDigit : ∀ c ∈ digits, c.isDigit = true := by
    exact List.all_eq_true.mp (by decide +kernel)
  gap_blank : Text.AllBlank gap := by decide +kernel
  handle_comma : ',' ∉ handle := by decide +kernel
  space_blank : Text.AllBlank space := by decide +kernel
  displayName_ne_nil : displayName ≠ [] := by decide +kernel
  displayName_comma : ',' ∉ displayName := by decide +kernel
  displayName_trimmed : Text.Trimmed Extraction.isWrapping displayName := by decide +kernel
  tail_wrapping : ∀ c ∈ tail.takeWhile (· != ','), Extraction.isWrapping c = true := by
    exact List.all_eq_true.mp (by decide +kernel)

/-- An assignment before the marker of a creation, as it is written. -/
structure WrittenAssignment where
  before : List Char
  target : List Char
  left : List Char
  right : List Char
  before_comma : ',' ∉ before := by decide +kernel
  before_word : ∀ c ∈ before.getLast?, Extraction.isIdentifierChar c = false := by
    exact (Option.any_eq_false _ _).mp (by decide +kernel)
  target_ne_nil : target ≠ [] := by decide +kernel
  target_word : ∀ c ∈ target, Extraction.isIdentifierChar c = true := by
    exact List.all_eq_true.mp (by decide +kernel)
  left_blank : Text.AllBlank left := by decide +kernel
  right_blank : Text.AllBlank right := by decide +kernel

namespace WrittenAssignment

variable (assignment : WrittenAssignment)

def written : List Char :=
  assignment.before ++ assignment.target ++ assignment.left ++ '=' :: assignment.right

theorem comma_not_mem_written : ',' ∉ assignment.written := by
  have htarget : ',' ∉ assignment.target :=
    (Extraction.isField_of_isIdentifierChar assignment.target_word).comma
  have hleft : ',' ∉ assignment.left := assignment.left_blank.not_mem (by decide)
  have hright : ',' ∉ assignment.right := assignment.right_blank.not_mem (by decide)
  simp [written, assignment.before_comma, htarget, hleft, hright]

/-- The word before the last equals sign is the one that is assigned to. -/
theorem assigned?_written : Extraction.assigned? assignment.written = some assignment.target := by
  have hsign : ∀ c ∈ assignment.right.reverse, (c != '=') = true := by
    intro c hc
    rw [bne_iff_ne]
    rintro rfl
    exact assignment.right_blank.reverse.not_mem (by decide) hc
  have hdrop : assignment.written.reverse.dropWhile (· != '=') =
      '=' :: (assignment.before ++ assignment.target ++ assignment.left).reverse := by
    rw [written, List.reverse_append, List.reverse_cons, List.append_assoc,
      List.dropWhile_append_of_pos hsign]
    rfl
  have hink : ∀ c ∈ (assignment.before ++ assignment.target).getLast?, Text.isBlank c = false := by
    intro c hc
    rw [List.getLast?_append_of_ne_nil _ assignment.target_ne_nil] at hc
    exact (Extraction.isField_of_isIdentifierChar assignment.target_word).trimmed.last c hc
  rw [Extraction.assigned?, hdrop]
  dsimp only
  rw [List.reverse_reverse, Text.trimEnd, Text.dropWhileEnd_append _ assignment.left_blank,
    Text.dropWhileEnd_eq_rdropWhile, Text.rdropWhile_of_getLast? hink,
    Text.takeWhileEnd_append assignment.target_word assignment.before_word]

end WrittenAssignment

theorem Extraction.assigned?_eq_none {before : List Char} (hbefore : '=' ∉ before) :
    assigned? before = none := by
  have hdrop : before.reverse.dropWhile (· != '=') = [] := by
    rw [List.dropWhile_eq_nil_iff]
    intro c hc
    rw [bne_iff_ne]
    rintro rfl
    exact hbefore (List.mem_reverse.mp hc)
  rw [assigned?, hdrop]

namespace WrittenCreation

variable (call : WrittenCreation)

/-- The display name as a string literal, and the rest of the line. -/
def literal : List Char :=
  call.space ++ '"' :: (call.displayName ++ '"' :: call.tail)

/-- The text after the opening parenthesis. -/
def inner : List Char :=
  call.handle ++ ',' :: call.literal

def written : List Char :=
  call.digits ++ call.gap ++ '(' :: call.inner

theorem opening : Call.Opening call.written call.digits call.gap call.inner :=
  ⟨rfl, call.digits_isDigit, call.gap_blank⟩

/-- The field with the display name, which ends at the next comma. -/
def field : List Char :=
  (call.space ++ ['"']) ++ call.displayName ++ ('"' :: call.tail.takeWhile (· != ','))

theorem takeWhile_literal : call.literal.takeWhile (· != ',') = call.field := by
  have hspace : ',' ∉ call.space := call.space_blank.not_mem (by decide)
  have hliteral : ∀ c ∈ call.space ++ '"' :: (call.displayName ++ ['"']), (c != ',') = true := by
    intro c hc
    rw [bne_iff_ne]
    rintro rfl
    simp [hspace, call.displayName_comma] at hc
  have hsplit : call.literal =
      call.space ++ '"' :: (call.displayName ++ ['"']) ++ call.tail := by
    simp [literal]
  rw [hsplit, List.takeWhile_append_of_pos hliteral, field]
  simp

/-- If there is no comma before the marker, the second field of the line holds the display name. -/
theorem exists_splitOn_line {before marker : List Char} (hbefore : ',' ∉ before)
    (hmarker : ',' ∉ marker) :
    ∃ first rest, (before ++ marker ++ call.written).splitOn ',' = first :: call.field :: rest := by
  have hdigits : ',' ∉ call.digits := fun hcomma =>
    absurd (call.digits_isDigit ',' hcomma) (by decide)
  have hgap : ',' ∉ call.gap := call.gap_blank.not_mem (by decide)
  have hfirst : ',' ∉ before ++ marker ++ (call.digits ++ call.gap ++ '(' :: call.handle) := by
    simp [hbefore, hmarker, hdigits, hgap, call.handle_comma]
  have hline : before ++ marker ++ call.written =
      before ++ marker ++ (call.digits ++ call.gap ++ '(' :: call.handle) ++ ',' :: call.literal := by
    simp [written, inner]
  obtain ⟨rest, hrest⟩ := Text.exists_splitOn_eq_cons ',' call.literal
  rw [hline, Text.splitOn_append_cons hfirst, hrest, call.takeWhile_literal]
  exact ⟨_, rest, rfl⟩

theorem trimWhere_field : Text.trimWhere Extraction.isWrapping call.field = call.displayName := by
  apply call.displayName_trimmed.trimWhere_between
  · intro c hc
    rcases List.mem_append.mp hc with hspace | hquote
    · exact Extraction.isWrapping_of_isBlank (call.space_blank c hspace)
    · rw [List.mem_singleton.mp hquote]
      decide
  · intro c hc
    rcases List.mem_cons.mp hc with rfl | htail
    · decide
    · exact call.tail_wrapping c htail

theorem head?_trimStart_field : (Text.trimStart call.field).head? = some '"' := by
  have hfield : call.field =
      call.space ++ '"' :: (call.displayName ++ '"' :: call.tail.takeWhile (· != ',')) := by
    simp [field]
  rw [hfield, Text.trimStart, List.dropWhile_append_of_pos call.space_blank,
    List.dropWhile_cons_of_neg (by decide), List.head?_cons]

/-- A creation on a line without earlier commas has the display name that is written, and is keyed
by what is assigned to, or else by the display name. -/
theorem ofCreation?_written {before marker : List Char} (hbefore : ',' ∉ before)
    (hmarker : ',' ∉ marker) (arity : Option Nat) :
    Extraction.ofCreation? (before ++ marker ++ call.written)
        { before, arity, inner := call.inner } =
      (Extraction.name? ((Extraction.assigned? before).getD call.displayName)).map fun identifier =>
        .creation identifier (String.ofList call.displayName) := by
  have hname := Extraction.name?_of_ne_nil call.displayName_ne_nil
  obtain ⟨first, rest, hfields⟩ := call.exists_splitOn_line hbefore hmarker
  rw [Extraction.ofCreation?, hfields]
  dsimp only
  rw [call.trimWhere_field, hname, call.head?_trimStart_field]
  cases Extraction.assigned? before with
  | none =>
      rw [Option.getD_none, hname]
      rfl
  | some target =>
      rw [Option.getD_some, Option.map_eq_bind]
      rfl

end WrittenCreation

namespace Extraction

/-- A line that calls neither a declaration nor a definition is read as a creation, if the first
occurrence of the marker of creations opens the call. -/
theorem ofLine?_creation {markers : Markers} {before : List Char} (call : WrittenCreation)
    (hbefore : ',' ∉ before) (hmarker : ',' ∉ markers.creation.toList)
    (hfirst : Text.IsFirst markers.creation.toList before call.written)
    (hdeclaration : Call.find? markers.declaration
      (before ++ markers.creation.toList ++ call.written) = none)
    (hdefinition : Call.find? markers.definition
      (before ++ markers.creation.toList ++ call.written) = none) :
    ofLine? markers (before ++ markers.creation.toList ++ call.written) =
      (name? ((assigned? before).getD call.displayName)).map fun identifier =>
        .creation identifier (String.ofList call.displayName) := by
  rw [ofLine?, hdeclaration, hdefinition, Call.find?_of_isFirst hfirst call.opening]
  exact call.ofCreation?_written hbefore hmarker _

/-- A creation is read as it was written, if the first occurrence of its marker is the one that is
written and the line calls neither a declaration nor a definition: with an assignment it is keyed
by the variable, and without an equals sign before it by its display name. -/
theorem written_creation_reads_back (markers : Markers) (call : WrittenCreation)
    (hmarker : ',' ∉ markers.creation.toList) :
    (∀ assignment : WrittenAssignment,
      let line := assignment.written ++ markers.creation.toList ++ call.written
      Text.IsFirst markers.creation.toList assignment.written call.written →
      Call.find? markers.declaration line = none →
      Call.find? markers.definition line = none →
      ofLine? markers line = some (.creation (String.ofList assignment.target)
        (String.ofList call.displayName))) ∧
    (∀ before : List Char, ',' ∉ before → '=' ∉ before →
      let line := before ++ markers.creation.toList ++ call.written
      Text.IsFirst markers.creation.toList before call.written →
      Call.find? markers.declaration line = none →
      Call.find? markers.definition line = none →
      ofLine? markers line = some (.creation (String.ofList call.displayName)
        (String.ofList call.displayName))) := by
  constructor
  · intro assignment line hfirst hdeclaration hdefinition
    rw [ofLine?_creation call assignment.comma_not_mem_written hmarker hfirst hdeclaration
      hdefinition, assignment.assigned?_written, Option.getD_some, name?_of_ne_nil
      assignment.target_ne_nil, Option.map_some]
  · intro before hcomma hequals line hfirst hdeclaration hdefinition
    rw [ofLine?_creation call hcomma hmarker hfirst hdeclaration hdefinition,
      assigned?_eq_none hequals, Option.getD_none, name?_of_ne_nil call.displayName_ne_nil,
      Option.map_some]

/-- An assignment inside of a condition with an earlier comparison, and a call in whose first
argument there is an equals sign. -/
theorem written_creation_reads_back_in_condition :
    let markers : Markers := {}
    let literal : WrittenCreation :=
      { digits := "2".toList
        gap := " ".toList
        handle := "a == b ? x : y".toList
        space := " ".toList
        displayName := "say \"hi\" (now)!".toList
        tail := " )) ;, \"more\", x = 1)".toList }
    let assignment : WrittenAssignment :=
      { before := "if(n == 0 && !(s->".toList
        target := "evt_2".toList
        left := "\t".toList
        right := "".toList }
    let assigning := assignment.written ++ markers.creation.toList ++ literal.written
    let calling := "if(!".toList ++ markers.creation.toList ++ literal.written
    String.ofList assigning = "if(n == 0 && !(s->evt_2\t=event_create2 (a == b ? x : y, " ++
        "\"say \"hi\" (now)!\" )) ;, \"more\", x = 1)" ∧
      ofLine? markers assigning = some (.creation "evt_2" "say \"hi\" (now)!") ∧
      ofLine? markers calling = some (.creation "say \"hi\" (now)!" "say \"hi\" (now)!") := by
  intro markers literal assignment assigning calling
  have hback := written_creation_reads_back markers literal (by decide +kernel)
  refine ⟨by decide +kernel, ?_, ?_⟩
  · exact hback.1 assignment (by decide +kernel) (by decide +kernel) (by decide +kernel)
  · exact hback.2 "if(!".toList (by decide) (by decide) (by decide +kernel) (by decide +kernel)
      (by decide +kernel)

end Extraction
end EventAudit
