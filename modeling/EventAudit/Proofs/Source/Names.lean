import EventAudit.Proofs.Source.Formatting

/-! # Names that are read from a line

An identifier is read by one of four readers, each of which cuts and trims in its own
way. Whichever it is, the identifier holds something, holds no comma and neither begins
nor ends with a blank. A display name is such a name as well, and a part of the line. The
arguments of a fire call are trimmed like names, but may be empty. -/

namespace EventAudit

namespace Text

section Trimming

variable (p : Char → Bool) (text : List Char)

theorem trimWhere_sublist : (trimWhere p text).Sublist text := by
  rw [trimWhere, dropWhileEnd_eq_rdropWhile]
  exact (List.rdropWhile_prefix p _).sublist.trans (List.dropWhile_sublist p)

variable {p text} {c : Char}

theorem head?_dropWhile_neg (hc : c ∈ (text.dropWhile p).head?) : p c = false := by
  have hhead := List.head?_dropWhile_not p text
  rw [Option.mem_def.mp hc] at hhead
  exact hhead

/-- What is trimmed does not end with a character that is trimmed away. -/
theorem getLast?_rdropWhile_neg (hc : c ∈ (text.rdropWhile p).getLast?) : p c = false := by
  obtain ⟨hne, rfl⟩ := List.mem_getLast?_eq_getLast hc
  exact Bool.eq_false_iff.mpr (List.rdropWhile_last_not p text hne)

theorem mem_head?_of_isPrefix {beginning : List Char} (hbeginning : beginning <+: text)
    (hc : c ∈ beginning.head?) : c ∈ text.head? := by
  obtain ⟨rest, rfl⟩ := hbeginning
  rw [List.head?_append, hc]
  rfl

theorem trimmed_trimWhere (p : Char → Bool) (text : List Char) : Trimmed p (trimWhere p text) := by
  rw [trimWhere, dropWhileEnd_eq_rdropWhile]
  exact ⟨fun _ hc => head?_dropWhile_neg (mem_head?_of_isPrefix (List.rdropWhile_prefix p _) hc),
    fun _ hc => getLast?_rdropWhile_neg hc⟩

/-- A text that is trimmed of some characters is trimmed of any of them. -/
theorem Trimmed.of_imp {q : Char → Bool} (htext : Trimmed p text)
    (hq : ∀ c, q c = true → p c = true) : Trimmed q text := by
  have hnot : ∀ c, p c = false → q c = false := by
    intro c hc
    rw [← Bool.not_eq_true] at hc ⊢
    exact mt (hq c) hc
  exact ⟨fun c hc => hnot c (htext.head c hc), fun c hc => hnot c (htext.last c hc)⟩

end Trimming

theorem sublist_of_mem_splitOn {separator : Char} {text piece : List Char}
    (hpiece : piece ∈ text.splitOn separator) : piece.Sublist text := by
  induction text using split_induction separator with
  | last first hfirst =>
      rw [splitOn_of_not_mem hfirst, List.mem_singleton] at hpiece
      rw [hpiece]
  | cut first rest hfirst ih =>
      rw [splitOn_append_cons hfirst, List.mem_cons] at hpiece
      rcases hpiece with rfl | hpiece
      · exact List.sublist_append_left _ _
      · exact ((ih hpiece).trans (List.sublist_cons_self _ _)).trans (List.sublist_append_right _ _)

/-- Lines are what stands between line feeds. -/
theorem lineFeed_not_mem_of_mem_lines {text line : List Char} (hline : line ∈ lines text) :
    '\n' ∉ line := by
  induction text using line_induction with
  | last piece hpiece =>
      rw [lines_of_not_mem hpiece] at hline
      split at hline
      · cases hline
      · rw [List.mem_singleton.mp hline]
        exact hpiece
  | line piece rest hpiece ih =>
      rw [lines_append_cons hpiece, List.mem_cons] at hline
      rcases hline with rfl | hline
      · intro hmem
        rcases eq_dropReturn_or piece with hreturn | hreturn
        · exact hpiece (hreturn ▸ hmem)
        · exact hpiece (hreturn ▸ List.mem_append_left _ hmem)
      · exact ih hline

end Text

namespace Extraction

/-- What a name has to be to stand in a list with commas: it holds something, it holds no comma,
and it does not end with a blank. -/
structure IsName (text : List Char) : Prop where
  ne_nil : text ≠ []
  comma : ',' ∉ text
  last : ∀ c ∈ text.getLast?, Text.isBlank c = false

/-- What a text between two commas is after it has been trimmed. -/
structure IsField (p : Char → Bool) (text : List Char) : Prop where
  comma : ',' ∉ text
  trimmed : Text.Trimmed p text

/-- A field that holds something, as a name. -/
structure IsFieldName (p : Char → Bool) (name : String) : Prop where
  ne_empty : name ≠ ""
  isField : IsField p name.toList

theorem toList_of_name? {text : List Char} {name : String} (hname : name? text = some name) :
    text ≠ [] ∧ name.toList = text := by
  rw [name?] at hname
  split at hname
  next => cases hname
  next hne =>
    obtain rfl := Option.some.inj hname
    exact ⟨by simpa using hne, String.toList_ofList⟩

theorem name?_of_ne_nil {text : List Char} (htext : text ≠ []) :
    name? text = some (String.ofList text) := by
  rw [name?, if_neg (by simpa using htext)]

section Fields

variable {p q : Char → Bool} {text : List Char} {name : String}

theorem isField_trimWhere (p : Char → Bool) (hcomma : ',' ∉ text) :
    IsField p (Text.trimWhere p text) :=
  ⟨fun hmem => hcomma ((Text.trimWhere_sublist p text).mem hmem), Text.trimmed_trimWhere p text⟩

theorem IsField.of_imp (htext : IsField p text) (hq : ∀ c, q c = true → p c = true) :
    IsField q text :=
  ⟨htext.comma, htext.trimmed.of_imp hq⟩

theorem IsField.isFieldName (htext : IsField p text) (hname : name? text = some name) :
    IsFieldName p name := by
  obtain ⟨hne, hlist⟩ := toList_of_name? hname
  refine ⟨?_, hlist ▸ htext⟩
  rintro rfl
  exact hne hlist.symm

theorem IsFieldName.of_imp (hname : IsFieldName p name) (hq : ∀ c, q c = true → p c = true) :
    IsFieldName q name :=
  ⟨hname.ne_empty, hname.isField.of_imp hq⟩

theorem IsFieldName.isName (hname : IsFieldName Text.isBlank name) : IsName name.toList :=
  ⟨mt String.toList_eq_nil_iff.mp hname.ne_empty, hname.isField.comma, hname.isField.trimmed.last⟩

end Fields

/-- What is known of the texts of an extraction from a line. An identifier may hold blanks and
punctuation inside, unless it is the name that a creation is assigned to. -/
def WellSpelled (markers : Markers) (line : List Char) : Extraction → Prop
  | declaration identifier _ =>
      IsFieldName Text.isBlank identifier ∧ ')' ∉ identifier.toList
  | definition identifier =>
      IsFieldName Text.isBlank identifier ∧ ')' ∉ identifier.toList
  | creation identifier displayName =>
      IsFieldName Text.isBlank identifier ∧ IsFieldName isWrapping displayName ∧
        ∃ call, Call.find? markers.creation line = some call ∧
          ('=' ∈ call.before → ∀ c ∈ identifier.toList, isIdentifierChar c = true)
  | fire identifier _ args =>
      IsFieldName Text.isBlank identifier ∧ ∀ arg ∈ args, IsField Text.isBlank arg.toList
  | listenerRegistration => True
  | listenerDefinition => True

section Readers

variable {markers : Markers} {line : List Char} {call : Call} {extraction : Extraction}

/-! ## Declarations and definitions -/

theorem isFieldName_of_firstArgument? {inner : List Char} {identifier : String}
    (hidentifier : firstArgument? inner = some identifier) :
    IsFieldName Text.isBlank identifier ∧ ')' ∉ identifier.toList := by
  have hinside : ∀ c ∈ inner.takeWhile (fun c => c != ')' && c != ','), c ≠ ')' ∧ c ≠ ',' := by
    intro c hc
    simpa using List.mem_takeWhile_imp hc
  have hfield := isField_trimWhere Text.isBlank fun hcomma => (hinside ',' hcomma).2 rfl
  refine ⟨hfield.isFieldName hidentifier, ?_⟩
  rw [(toList_of_name? hidentifier).2]
  intro hparen
  exact (hinside ')' ((Text.trimWhere_sublist _ _).mem hparen)).1 rfl

theorem wellSpelled_of_ofDeclaration? (hextraction : ofDeclaration? call = some extraction) :
    WellSpelled markers line extraction := by
  obtain ⟨identifier, hidentifier, rfl⟩ := Option.map_eq_some_iff.mp hextraction
  exact isFieldName_of_firstArgument? hidentifier

theorem wellSpelled_of_ofDefinition? (hextraction : ofDefinition? call = some extraction) :
    WellSpelled markers line extraction := by
  obtain ⟨identifier, hidentifier, rfl⟩ := Option.map_eq_some_iff.mp hextraction
  exact isFieldName_of_firstArgument? hidentifier

/-! ## Creations -/

theorem isField_of_isIdentifierChar {text : List Char}
    (htext : ∀ c ∈ text, isIdentifierChar c = true) : IsField Text.isBlank text := by
  have hink : ∀ c ∈ text, Text.isBlank c = false := by
    intro c hc
    rw [← Bool.not_eq_true]
    exact fun hblank => not_isIdentifierChar_of_isBlank hblank (htext c hc)
  refine ⟨fun hcomma => absurd (htext ',' hcomma) (by decide), ?_, ?_⟩
  · exact fun c hc => hink c (List.mem_of_mem_head? hc)
  · exact fun c hc => hink c (List.mem_of_getLast? hc)

theorem isIdentifierChar_of_assigned? {before identifier : List Char}
    (hassigned : assigned? before = some identifier) :
    ∀ c ∈ identifier, isIdentifierChar c = true := by
  rw [assigned?] at hassigned
  split at hassigned
  next => cases hassigned
  next sign earlier hsplit =>
    obtain rfl := Option.some.inj hassigned
    intro c hc
    exact List.mem_rtakeWhile_imp (Text.takeWhileEnd_eq_rtakeWhile _ _ ▸ hc)

/-- Without an assignment there is no equals sign. -/
theorem equals_not_mem_of_assigned?_eq_none {before : List Char}
    (hassigned : assigned? before = none) : '=' ∉ before := by
  rw [assigned?] at hassigned
  split at hassigned
  next hdrop =>
    intro hequals
    rw [List.dropWhile_eq_nil_iff] at hdrop
    exact absurd (hdrop '=' (List.mem_reverse.mpr hequals)) (by decide)
  next => cases hassigned

/-- A creation has the name that is assigned to as identifier, or else its display name, which is a
field of the line without its wrapping. -/
theorem exists_names_of_ofCreation? (hextraction : ofCreation? line call = some extraction) :
    ∃ identifier displayName, extraction = .creation identifier displayName ∧
      (∃ field ∈ line.splitOn ',',
        name? (Text.trimWhere isWrapping field) = some displayName) ∧
      ('=' ∉ call.before ∧ identifier = displayName ∨
        ∃ word, assigned? call.before = some word ∧ name? word = some identifier) := by
  rw [ofCreation?] at hextraction
  split at hextraction
  next first field rest hsplit =>
    have hfield : field ∈ line.splitOn ',' := by
      rw [hsplit]
      exact List.mem_cons_of_mem _ List.mem_cons_self
    obtain ⟨displayName, hdisplay, hextraction⟩ := Option.bind_eq_some_iff.mp hextraction
    split at hextraction
    next word hassigned =>
      obtain ⟨identifier, hidentifier, hextraction⟩ := Option.bind_eq_some_iff.mp hextraction
      obtain rfl := Option.some.inj hextraction
      exact ⟨identifier, displayName, rfl, ⟨field, hfield, hdisplay⟩,
        .inr ⟨word, hassigned, hidentifier⟩⟩
    next hassigned =>
      split at hextraction
      next =>
        obtain rfl := Option.some.inj hextraction
        exact ⟨displayName, displayName, rfl, ⟨field, hfield, hdisplay⟩,
          .inl ⟨equals_not_mem_of_assigned?_eq_none hassigned, rfl⟩⟩
      next => cases hextraction
  next => cases hextraction

theorem wellSpelled_of_ofCreation? (hcall : Call.find? markers.creation line = some call)
    (hextraction : ofCreation? line call = some extraction) :
    WellSpelled markers line extraction := by
  obtain ⟨identifier, displayName, rfl, ⟨field, hfield, hdisplay⟩, hidentifier⟩ :=
    exists_names_of_ofCreation? hextraction
  have hcomma : ',' ∉ field := Text.not_mem_of_mem_splitOn hfield
  have hshown := (isField_trimWhere isWrapping hcomma).isFieldName hdisplay
  rcases hidentifier with ⟨hequals, rfl⟩ | ⟨word, hassigned, hword⟩
  · have hname : IsFieldName Text.isBlank identifier :=
      hshown.of_imp fun _ => isWrapping_of_isBlank
    exact ⟨hname, hshown, call, hcall, fun hmem => absurd hmem hequals⟩
  · have hletters := isIdentifierChar_of_assigned? hassigned
    have hname := (isField_of_isIdentifierChar hletters).isFieldName hword
    refine ⟨hname, hshown, call, hcall, fun _ => ?_⟩
    rw [(toList_of_name? hword).2]
    exact hletters

/-! ## Fire calls -/

theorem mem_closeLast {fields : List (List Char)} {field : List Char}
    (hfield : field ∈ closeLast fields) :
    ∃ original ∈ fields, field = original ∨ field = dropClosing original := by
  fun_induction closeLast fields with
  | case1 => cases hfield
  | case2 last =>
      rw [List.mem_singleton] at hfield
      exact ⟨last, List.mem_singleton_self last, .inr hfield⟩
  | case3 first next rest ih =>
      rcases List.mem_cons.mp hfield with rfl | hfield
      · exact ⟨field, List.mem_cons_self, .inl rfl⟩
      · obtain ⟨original, horiginal, heq⟩ := ih hfield
        exact ⟨original, List.mem_cons_of_mem _ horiginal, heq⟩

theorem dropClosing_isPrefix (field : List Char) : dropClosing field <+: field := by
  rw [dropClosing, Text.trimEnd, Text.dropWhileEnd_eq_rdropWhile]
  apply (List.rdropWhile_prefix _ _).trans
  split
  · exact List.dropLast_prefix field
  · exact List.prefix_refl field

/-- The blanks that the closing parenthesis kept from being trimmed go with it. -/
theorem IsField.dropClosing {field : List Char} (hfield : IsField Text.isBlank field) :
    IsField Text.isBlank (dropClosing field) := by
  have hbeginning := dropClosing_isPrefix field
  refine ⟨fun hcomma => hfield.comma (hbeginning.mem hcomma), ?_, ?_⟩
  · exact fun c hc => hfield.trimmed.head c (Text.mem_head?_of_isPrefix hbeginning hc)
  · exact fun c hc => Text.getLast?_rdropWhile_neg hc

/-- The fields of a fire call are trimmed, also the last one after it has been closed. -/
theorem isField_of_mem_fireFields {inner field : List Char} (hfield : field ∈ fireFields inner) :
    IsField Text.isBlank field := by
  obtain ⟨original, horiginal, hclosed⟩ := mem_closeLast hfield
  obtain ⟨piece, hpiece, rfl⟩ := List.mem_map.mp horiginal
  have htrimmed := isField_trimWhere (fun c => c == ';' || Text.isBlank c)
    (Text.not_mem_of_mem_splitOn hpiece)
  have hblank := htrimmed.of_imp (q := Text.isBlank) fun c hc => by rw [hc, Bool.or_true]
  rcases hclosed with rfl | rfl
  · exact hblank
  · exact hblank.dropClosing

/-- A fire call has its first field as identifier and the others as arguments. -/
theorem exists_fields_of_ofFire? (hextraction : ofFire? call = some extraction) :
    ∃ first args identifier, fireFields call.inner = first :: args ∧
      name? first = some identifier ∧
      extraction = .fire identifier call.arity (args.map String.ofList) := by
  rw [ofFire?] at hextraction
  split at hextraction
  next => cases hextraction
  next first args hfields =>
    obtain ⟨identifier, hidentifier, rfl⟩ := Option.map_eq_some_iff.mp hextraction
    exact ⟨first, args, identifier, hfields, hidentifier, rfl⟩

theorem wellSpelled_of_ofFire? (hextraction : ofFire? call = some extraction) :
    WellSpelled markers line extraction := by
  obtain ⟨first, args, identifier, hfields, hidentifier, rfl⟩ :=
    exists_fields_of_ofFire? hextraction
  have hall : ∀ field ∈ first :: args, IsField Text.isBlank field := by
    rw [← hfields]
    exact fun field => isField_of_mem_fireFields
  rw [List.forall_mem_cons] at hall
  refine ⟨hall.1.isFieldName hidentifier, ?_⟩
  rw [List.forall_mem_map]
  intro field hfield
  rw [String.toList_ofList]
  exact hall.2 field hfield

/-! ## All readers -/

/-- Whatever is read from a call is well spelled. -/
theorem wellSpelled_of_read? {kind : CallKind}
    (hcall : Call.find? (kind.marker markers) line = some call)
    (hread : CallKind.read? line call kind = some extraction) :
    WellSpelled markers line extraction := by
  cases kind with
  | declaration => exact wellSpelled_of_ofDeclaration? hread
  | definition => exact wellSpelled_of_ofDefinition? hread
  | creation => exact wellSpelled_of_ofCreation? hcall hread
  | fire => exact wellSpelled_of_ofFire? hread

theorem WellSpelled.isFieldName {identifier : String}
    (hspelled : WellSpelled markers line extraction)
    (hidentifier : extraction.identifier? = some identifier) :
    IsFieldName Text.isBlank identifier := by
  cases extraction with
  | declaration name arity =>
      obtain rfl := Option.some.inj hidentifier
      exact hspelled.1
  | definition name =>
      obtain rfl := Option.some.inj hidentifier
      exact hspelled.1
  | creation name displayName =>
      obtain rfl := Option.some.inj hidentifier
      exact hspelled.1
  | fire name arity args =>
      obtain rfl := Option.some.inj hidentifier
      exact hspelled.1
  | listenerRegistration => cases hidentifier
  | listenerDefinition => cases hidentifier

/-- Whichever reader an identifier comes from, it is a name. -/
theorem isName_of_ofLine? {identifier : String}
    (hextraction : ofLine? markers line = some extraction)
    (hidentifier : extraction.identifier? = some identifier) : IsName identifier.toList := by
  obtain ⟨kind, call, hcall, hread⟩ := exists_call_of_ofLine? hextraction hidentifier
  exact ((wellSpelled_of_read? hcall hread).isFieldName hidentifier).isName

theorem displayName_sublist_of_ofLine? {identifier displayName : String}
    (hextraction : ofLine? markers line = some (.creation identifier displayName)) :
    displayName.toList.Sublist line := by
  obtain ⟨kind, call, hcall, hread⟩ := exists_call_of_ofLine? hextraction rfl
  cases kind with
  | declaration =>
      obtain ⟨name, -, heq⟩ := Option.map_eq_some_iff.mp hread
      cases heq
  | definition =>
      obtain ⟨name, -, heq⟩ := Option.map_eq_some_iff.mp hread
      cases heq
  | creation =>
      obtain ⟨name, shown, heq, ⟨field, hfield, hdisplay⟩, -⟩ := exists_names_of_ofCreation? hread
      obtain ⟨rfl, rfl⟩ := Extraction.creation.inj heq
      rw [(toList_of_name? hdisplay).2]
      exact (Text.trimWhere_sublist isWrapping field).trans (Text.sublist_of_mem_splitOn hfield)
  | fire =>
      obtain ⟨first, args, name, -, -, heq⟩ := exists_fields_of_ofFire? hread
      cases heq

end Readers

/-- Whatever a line says, its texts are well spelled: all of them are trimmed and hold no comma, and
only arguments may be empty. -/
theorem extracted_texts_are_well_spelled (markers : Markers) (line : List Char)
    (extraction : Extraction) (hextraction : ofLine? markers line = some extraction) :
    WellSpelled markers line extraction := by
  cases hidentifier : extraction.identifier? with
  | none =>
      -- Only listeners name no event, and they hold no text.
      cases extraction with
      | listenerRegistration => trivial
      | listenerDefinition => trivial
      | _ => cases hidentifier
  | some identifier =>
      obtain ⟨kind, call, hcall, hread⟩ := exists_call_of_ofLine? hextraction hidentifier
      exact wellSpelled_of_read? hcall hread

/-- An argument with a blank before the parenthesis that closes the call, and a display name with a
parenthesis inside, assigned behind a comparison. -/
theorem extracted_texts_are_well_spelled_before_closing :
    let markers : Markers := {}
    let fired := "\tEVENT_FIRE3( evt; , f(x), g(y) ) ;;".toList
    let created := "if(a == b) s->evt_2 = event_create(x, \" say (hi) now\" );".toList
    ofLine? markers fired = some (.fire "evt" (some 3) ["f(x)", "g(y)"]) ∧
      WellSpelled markers fired (.fire "evt" (some 3) ["f(x)", "g(y)"]) ∧
      ofLine? markers created = some (.creation "evt_2" "say (hi) now") ∧
      WellSpelled markers created (.creation "evt_2" "say (hi) now") := by
  intro markers fired created
  have hfired : ofLine? markers fired = some (.fire "evt" (some 3) ["f(x)", "g(y)"]) := by
    decide +kernel
  have hcreated : ofLine? markers created = some (.creation "evt_2" "say (hi) now") := by
    decide +kernel
  refine ⟨hfired, ?_, hcreated, ?_⟩
  · exact extracted_texts_are_well_spelled markers fired _ hfired
  · exact extracted_texts_are_well_spelled markers created _ hcreated

end Extraction

namespace Observation

theorem exists_line_of_mem_ofLines {markers : Markers} {state : LineState} {number : Nat}
    {lines : List (List Char)} {observation : Observation}
    (hmem : observation ∈ ofLines markers state number lines) :
    ∃ line ∈ lines, Extraction.ofLine? markers line = some observation.extraction := by
  induction lines generalizing state number with
  | nil => cases hmem
  | cons line rest ih =>
      rw [ofLines, List.mem_append, Option.mem_toList] at hmem
      rcases hmem with hmem | hmem
      · rw [ofLine?] at hmem
        split at hmem
        next =>
          obtain ⟨extraction, hextraction, rfl⟩ := Option.map_eq_some_iff.mp hmem
          exact ⟨line, List.mem_cons_self, hextraction⟩
        next => cases hmem
      · obtain ⟨later, hlater, hextraction⟩ := ih hmem
        exact ⟨later, List.mem_cons_of_mem _ hlater, hextraction⟩

/-- What is observed in a text is read from one of its lines. -/
theorem exists_line_of_mem_ofSource {markers : Markers} {source : List Char}
    {observation : Observation} (hmem : observation ∈ ofSource markers source) :
    ∃ line, '\n' ∉ line ∧ Extraction.ofLine? markers line = some observation.extraction := by
  obtain ⟨line, hline, hextraction⟩ := exists_line_of_mem_ofLines hmem
  exact ⟨line, Text.lineFeed_not_mem_of_mem_lines hline, hextraction⟩

end Observation
end EventAudit
