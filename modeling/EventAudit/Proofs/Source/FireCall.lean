import EventAudit.Proofs.Source.FirstCall
import EventAudit.Proofs.Source.Names
import Mathlib.Data.Nat.Digits.Defs
import Mathlib.Tactic.Ring

/-! # Fire calls as they are written

A fire call names an event and passes arguments, each with blanks around it, and ends
with a closing parenthesis and perhaps semicolons. Reading the line gives back the event
and the arguments, and the number that the digits after the marker spell. -/

namespace EventAudit

/-- The number that digits spell is that of positional notation to the base ten. -/
theorem Text.decimalValue_eq_ofDigits (digits : List Char) :
    decimalValue digits =
      Nat.ofDigits 10 (digits.map fun digit => digit.toNat - '0'.toNat).reverse := by
  rw [decimalValue, Nat.ofDigits_eq_foldr, List.foldr_reverse, List.foldl_map]
  congr 1
  funext value digit
  simp only [Nat.cast_id]
  ring

/-- A suffix has the value that its digits spell, if there are digits and the value fits into 64
bits. -/
theorem Call.suffixValue?_eq_ite (digits : List Char) :
    suffixValue? digits =
      let value := Nat.ofDigits 10 (digits.map fun digit => digit.toNat - '0'.toNat).reverse
      if digits ≠ [] ∧ value < 2 ^ 64 then some value else none := by
  rw [suffixValue?, Text.decimalValue_eq_ofDigits]
  generalize Nat.ofDigits 10 (digits.map fun digit => digit.toNat - '0'.toNat).reverse = value
  simp only [List.isEmpty_iff]
  split_ifs with hbad hgood hgood
  · rcases hbad with hempty | hlarge
    · exact absurd hempty hgood.1
    · omega
  · rfl
  · rfl
  · obtain ⟨hne, hsmall⟩ := not_or.mp hbad
    exact absurd ⟨hne, by omega⟩ hgood

namespace Extraction

/-- Whether a character is dropped around the fields of a fire call. -/
def isLoose (c : Char) : Bool :=
  c == ';' || Text.isBlank c

theorem isLoose_of_isBlank {c : Char} (hblank : Text.isBlank c = true) : isLoose c = true := by
  rw [isLoose, hblank, Bool.or_true]

theorem isBlank_of_not_isLoose {c : Char} (hc : isLoose c = false) : Text.isBlank c = false :=
  (Bool.or_eq_false_iff.mp hc).2

theorem comma_not_mem_of_isLoose {text : List Char} (htext : ∀ c ∈ text, isLoose c = true) :
    ',' ∉ text :=
  fun hcomma => absurd (htext ',' hcomma) (by decide)

/-- The last field of a call is closed. -/
theorem fireFields_of_not_mem {piece : List Char} (hpiece : ',' ∉ piece) :
    fireFields piece = [dropClosing (Text.trimWhere isLoose piece)] := by
  rw [fireFields, Text.splitOn_of_not_mem hpiece]
  rfl

/-- A field before a comma is only trimmed. -/
theorem fireFields_append_cons {piece : List Char} (hpiece : ',' ∉ piece) (rest : List Char) :
    fireFields (piece ++ ',' :: rest) = Text.trimWhere isLoose piece :: fireFields rest := by
  obtain ⟨next, later, hrest⟩ := List.exists_cons_of_ne_nil (List.splitOn_ne_nil ',' rest)
  rw [fireFields, fireFields, Text.splitOn_append_cons hpiece, hrest]
  rfl

theorem dropWhile_append_paren (body tail : List Char) :
    (body ++ ')' :: tail).dropWhile isLoose = body.dropWhile isLoose ++ ')' :: tail := by
  rw [List.dropWhile_append, List.dropWhile_cons_of_neg (by decide)]
  split
  next hempty =>
    rw [List.isEmpty_iff.mp hempty]
    rfl
  next => rfl

/-- From a single field that is closed, what stands before the closing parenthesis is left. -/
theorem fireFields_closed {body tail : List Char} (hbody : ',' ∉ body)
    (htail : ∀ c ∈ tail, isLoose c = true) :
    fireFields (body ++ ')' :: tail) = [Text.trimEnd (body.dropWhile isLoose)] := by
  have hcomma : ',' ∉ body ++ ')' :: tail := by
    simp [hbody, comma_not_mem_of_isLoose htail]
  have hend : Text.dropWhileEnd isLoose (body.dropWhile isLoose ++ ')' :: tail) =
      body.dropWhile isLoose ++ [')'] := by
    rw [← List.singleton_append, ← List.append_assoc, Text.dropWhileEnd_append _ htail]
    apply Text.rdropWhile_of_getLast?
    intro c hc
    rw [List.getLast?_concat] at hc
    obtain rfl := Option.some.inj hc
    decide
  rw [fireFields_of_not_mem hcomma, Text.trimWhere, dropWhile_append_paren, hend, dropClosing,
    List.getLast?_concat, if_pos rfl, List.dropLast_concat]

end Extraction

/-- A field of a fire call as it is written: a text without commas that is trimmed, and the blanks
around it. -/
structure WrittenField where
  text : List Char
  margin : Text.Margin
  comma : ',' ∉ text := by decide +kernel
  trimmed : Text.Trimmed Extraction.isLoose text := by decide +kernel

namespace WrittenField

variable (field : WrittenField)

def written : List Char :=
  field.margin.around field.text

theorem comma_not_mem_written : ',' ∉ field.written :=
  field.margin.not_mem_around (by decide) field.comma

theorem trimWhere_written : Text.trimWhere Extraction.isLoose field.written = field.text :=
  field.trimmed.trimWhere_between
    (fun c hc => Extraction.isLoose_of_isBlank (field.margin.left_blank c hc))
    (fun c hc => Extraction.isLoose_of_isBlank (field.margin.right_blank c hc))

/-- Blanks between a field and the parenthesis that closes the call are no part of the field. -/
theorem trimEnd_dropWhile_written :
    Text.trimEnd (field.written.dropWhile Extraction.isLoose) = field.text := by
  have hleft : ∀ c ∈ field.margin.left, Extraction.isLoose c = true := fun c hc =>
    Extraction.isLoose_of_isBlank (field.margin.left_blank c hc)
  have hright : ∀ c ∈ field.margin.right, Extraction.isLoose c = true := fun c hc =>
    Extraction.isLoose_of_isBlank (field.margin.right_blank c hc)
  have hlast : ∀ c ∈ field.text.getLast?, Text.isBlank c = false := fun c hc =>
    Extraction.isBlank_of_not_isLoose (field.trimmed.last c hc)
  rw [written, Text.Margin.around, List.append_assoc, List.dropWhile_append_of_pos hleft]
  cases htext : field.text with
  | nil =>
      rw [List.nil_append, List.dropWhile_eq_nil_iff.mpr hright]
      rfl
  | cons c rest =>
      have hc : ¬Extraction.isLoose c = true := by
        rw [field.trimmed.head c (by rw [htext]; rfl)]
        exact Bool.false_ne_true
      rw [List.cons_append, List.dropWhile_cons_of_neg hc, ← List.cons_append, ← htext,
        Text.trimEnd, Text.dropWhileEnd_append _ field.margin.right_blank,
        Text.dropWhileEnd_eq_rdropWhile, Text.rdropWhile_of_getLast? hlast]

end WrittenField

/-- A fire call as it is written on a line of its own. -/
structure WrittenFire where
  indent : List Char
  /-- The numeric suffix of the marker, which may be empty. -/
  digits : List Char
  /-- What stands before the opening parenthesis. -/
  gap : List Char
  event : WrittenField
  args : List WrittenField
  /-- What stands after the closing parenthesis. -/
  tail : List Char
  indent_blank : Text.AllBlank indent := by decide +kernel
  digits_isDigit : ∀ c ∈ digits, c.isDigit = true := by
    exact List.all_eq_true.mp (by decide +kernel)
  gap_blank : Text.AllBlank gap := by decide +kernel
  event_ne_nil : event.text ≠ [] := by decide +kernel
  tail_loose : ∀ c ∈ tail, Extraction.isLoose c = true := by
    exact List.all_eq_true.mp (by decide +kernel)

namespace WrittenFire

variable (call : WrittenFire)

/-- The text after the opening parenthesis. -/
def inner : List Char :=
  [','].intercalate ((call.event :: call.args).map WrittenField.written) ++ ')' :: call.tail

/-- The whole line, with the marker of fire calls in its place. -/
def line (marker : String) : List Char :=
  call.indent ++ marker.toList ++ (call.digits ++ call.gap ++ '(' :: call.inner)

/-- The number that the suffix spells, if there is a suffix and the number fits into 64 bits. -/
def arity? : Option Nat :=
  let value := Nat.ofDigits 10 (call.digits.map fun digit => digit.toNat - '0'.toNat).reverse
  if call.digits ≠ [] ∧ value < 2 ^ 64 then some value else none

theorem suffixValue?_digits : Call.suffixValue? call.digits = call.arity? :=
  Call.suffixValue?_eq_ite call.digits

theorem opening :
    Call.Opening (call.digits ++ call.gap ++ '(' :: call.inner) call.digits call.gap call.inner :=
  ⟨rfl, call.digits_isDigit, call.gap_blank⟩

/-- The fields of a call that is written are read field by field, and the last one is closed. -/
theorem fireFields_intercalate {tail : List Char}
    (htail : ∀ c ∈ tail, Extraction.isLoose c = true) (field : WrittenField)
    (rest : List WrittenField) :
    Extraction.fireFields
        ([','].intercalate ((field :: rest).map WrittenField.written) ++ ')' :: tail) =
      (field :: rest).map WrittenField.text := by
  induction rest generalizing field with
  | nil =>
      rw [List.map_singleton, List.intercalate_singleton,
        Extraction.fireFields_closed field.comma_not_mem_written htail,
        field.trimEnd_dropWhile_written, List.map_singleton]
  | cons next rest ih =>
      rw [List.map_cons, List.map_cons, List.intercalate_cons_cons, ← List.map_cons,
        List.append_assoc, List.append_assoc, List.singleton_append,
        Extraction.fireFields_append_cons field.comma_not_mem_written, ih,
        field.trimWhere_written]
      rfl

theorem ofFire?_written (before : List Char) (arity : Option Nat) :
    Extraction.ofFire? { before, arity, inner := call.inner } =
      some (.fire (String.ofList call.event.text) arity
        (call.args.map fun arg => String.ofList arg.text)) := by
  have hname := Extraction.name?_of_ne_nil call.event_ne_nil
  rw [Extraction.ofFire?, inner, fireFields_intercalate call.tail_loose, List.map_cons]
  dsimp only
  rw [hname, Option.map_some, List.map_map]
  rfl

end WrittenFire

/-- A fire call is read as it was written, if the line calls no marker that goes before the marker
of fire calls: with its event, with its arguments and with the value of its suffix. -/
theorem Extraction.written_fire_reads_back (markers : Markers) (call : WrittenFire)
    (hmarker : ¬Text.AllBlank markers.fire.toList)
    (hdeclaration : Call.find? markers.declaration (call.line markers.fire) = none)
    (hdefinition : Call.find? markers.definition (call.line markers.fire) = none)
    (hcreation : Call.find? markers.creation (call.line markers.fire) = none) :
    ofLine? markers (call.line markers.fire) =
      some (.fire (String.ofList call.event.text) call.arity?
        (call.args.map fun arg => String.ofList arg.text)) := by
  have hfirst := Text.isFirst_of_allBlank hmarker call.indent_blank
    (call.digits ++ call.gap ++ '(' :: call.inner)
  have hfound : Call.find? markers.fire (call.line markers.fire) =
      some { before := call.indent, arity := call.arity?, inner := call.inner } := by
    rw [← call.suffixValue?_digits]
    exact Call.find?_of_isFirst hfirst call.opening
  rw [ofLine?, hdeclaration, hdefinition, hcreation, hfound]
  exact call.ofFire?_written call.indent call.arity?

/-- The largest suffix that has a value, an empty argument, one that ends with a parenthesis and one
with a semicolon inside. -/
theorem Extraction.written_fire_reads_back_with_large_suffix :
    let markers : Markers := {}
    let line := "\t EVENT_FIRE018446744073709551615 ( evt,, f(x) ,a;b ) ;; ".toList
    ¬Text.AllBlank markers.fire.toList ∧
      Call.find? markers.declaration line = none ∧
      Call.find? markers.definition line = none ∧
      Call.find? markers.creation line = none ∧
      ofLine? markers line =
        some (.fire "evt" (some 18446744073709551615) ["", "f(x)", "a;b"]) := by
  intro markers line
  let call : WrittenFire :=
    { indent := "\t ".toList
      digits := "018446744073709551615".toList
      gap := " ".toList
      event := { text := "evt".toList, margin := .before [' '] (by decide) }
      args :=
        [{ text := [], margin := .before [] (by decide) },
          { text := "f(x)".toList, margin := ⟨[' '], [' '], by decide, by decide⟩ },
          { text := "a;b".toList, margin := .after [' '] (by decide) }]
      tail := " ;; ".toList }
  have hline : call.line markers.fire = line := by decide +kernel
  have hmarker : ¬Text.AllBlank markers.fire.toList := by decide +kernel
  have hdeclaration : Call.find? markers.declaration line = none := by decide +kernel
  have hdefinition : Call.find? markers.definition line = none := by decide +kernel
  have hcreation : Call.find? markers.creation line = none := by decide +kernel
  have harity : call.arity? = some 18446744073709551615 := by decide +kernel
  refine ⟨hmarker, hdeclaration, hdefinition, hcreation, ?_⟩
  rw [← hline] at hdeclaration hdefinition hcreation ⊢
  rw [written_fire_reads_back markers call hmarker hdeclaration hdefinition hcreation, harity]
  decide +kernel

end EventAudit
