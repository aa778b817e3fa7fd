import EventAudit.Issue.Report
import EventAudit.Proofs.Event.History
import EventAudit.Proofs.Source.Names

/-! # Reading the listing back

The listing writes a record as `identifier: declaration,definition,global name`. Nothing
is escaped, identifiers may hold a colon and a blank, and what is not known is left
empty. Nevertheless the listing tells all that it shows: an identifier has no comma, so
that the first two commas of a line are those of the format, and it does not end with a
blank, so that what stands before the first comma is either an identifier with nothing
after its colon or an identifier that is written twice. -/

namespace EventAudit

namespace Report

/-- What the listing shows of an event: how it is declared, defined and known. -/
def shown (event : Event) : Option String × Option String × Option String :=
  (event.declaration, event.definition, event.globalName)

/-- What makes an entry of the registry legible: its identifier is a name, which the declaration
and the definition repeat, and the global name is something on one line. -/
structure Legible (identifier : String) (event : Event) : Prop where
  isName : Extraction.IsName identifier.toList
  declaration : ∀ text ∈ event.declaration, text = identifier
  definition : ∀ text ∈ event.definition, text = identifier
  globalName : ∀ text ∈ event.globalName, text ≠ "" ∧ '\n' ∉ text.toList

/-- A field that is left empty is not set. -/
theorem eq_of_getD_empty_eq {field field' : Option String} (hfield : ∀ text ∈ field, text ≠ "")
    (hfield' : ∀ text ∈ field', text ≠ "") (heq : field.getD "" = field'.getD "") :
    field = field' := by
  cases field with
  | none =>
      cases field' with
      | none => rfl
      | some text => exact absurd heq.symm (hfield' text rfl)
  | some text =>
      cases field' with
      | none => exact absurd heq (hfield text rfl)
      | some text' => exact congrArg some heq

/-- A field that is empty or repeats an identifier. -/
theorem getD_empty_eq_or {identifier : String} {field : Option String}
    (hfield : ∀ text ∈ field, text = identifier) :
    (field.getD "").toList = [] ∨ (field.getD "").toList = identifier.toList := by
  cases field with
  | none => exact .inl rfl
  | some text => exact .inr (congrArg String.toList (hfield text rfl))

/-- A text that ends with a name does not end with a blank. -/
theorem getLast?_append_ne_blank {name : List Char} (hname : Extraction.IsName name)
    (before : List Char) : (before ++ name).getLast? ≠ some ' ' := by
  rw [List.getLast?_append_of_ne_nil _ hname.ne_nil]
  intro hlast
  exact absurd (hname.last ' ' hlast) (by decide)

/-- An identifier that is followed by a colon, a blank and perhaps itself again is determined by
the whole: without a repetition the text ends with the blank, otherwise it does not. -/
theorem eq_of_colon_eq {name name' field field' : List Char} (hname : Extraction.IsName name)
    (hname' : Extraction.IsName name') (hfield : field = [] ∨ field = name)
    (hfield' : field' = [] ∨ field' = name')
    (htext : name ++ [':', ' '] ++ field = name' ++ [':', ' '] ++ field') :
    name = name' ∧ field = field' := by
  rcases hfield with rfl | rfl
  · rcases hfield' with rfl | rfl
    · rw [List.append_nil, List.append_nil] at htext
      exact ⟨List.append_cancel_right htext, rfl⟩
    · have hblank := getLast?_append_ne_blank hname' (field' ++ [':', ' '])
      rw [← htext] at hblank
      simp at hblank
  · rcases hfield' with rfl | rfl
    · have hblank := getLast?_append_ne_blank hname (field ++ [':', ' '])
      rw [htext] at hblank
      simp at hblank
    · have hlength := congrArg List.length htext
      simp only [List.length_append] at hlength
      obtain ⟨-, heq⟩ := List.append_inj' htext (by omega)
      exact ⟨heq, heq⟩

section Entries

variable {identifier identifier' : String} {event event' : Event}

theorem toList_listingLine_append (identifier : String) (event : Event) (rest : List Char) :
    (listingLine identifier event).toList ++ rest =
      identifier.toList ++ [':', ' '] ++ (event.declaration.getD "").toList ++ ',' ::
        ((event.definition.getD "").toList ++ ',' ::
          ((event.globalName.getD "").toList ++ '\n' :: rest)) := by
  simp [listingLine]

theorem Legible.ne_empty (hentry : Legible identifier event) : identifier ≠ "" := by
  rintro rfl
  exact hentry.isName.ne_nil rfl

theorem Legible.comma_not_mem_field (hentry : Legible identifier event) {field : Option String}
    (hfield : ∀ text ∈ field, text = identifier) : ',' ∉ (field.getD "").toList := by
  rcases getD_empty_eq_or hfield with hempty | hrepeated
  · rw [hempty]
    exact List.not_mem_nil
  · rw [hrepeated]
    exact hentry.isName.comma

theorem Legible.lineFeed_not_mem_globalName (hentry : Legible identifier event) :
    '\n' ∉ (event.globalName.getD "").toList := by
  cases hname : event.globalName with
  | none => exact List.not_mem_nil
  | some text => exact (hentry.globalName text hname).2

/-- A line of the listing, with whatever follows it, determines the entry as far as it is shown. -/
theorem Legible.eq_of_line_eq (hentry : Legible identifier event)
    (hentry' : Legible identifier' event') {rest rest' : List Char}
    (hline : (listingLine identifier event).toList ++ rest =
      (listingLine identifier' event').toList ++ rest') :
    identifier = identifier' ∧ shown event = shown event' ∧ rest = rest' := by
  rw [toList_listingLine_append, toList_listingLine_append] at hline
  -- The identifier and the declaration stand before the first comma.
  have hhead : ∀ {identifier : String} {event : Event}, Legible identifier event →
      ',' ∉ identifier.toList ++ [':', ' '] ++ (event.declaration.getD "").toList := by
    intro identifier event hentry
    have hcolon : ',' ∉ [':', ' '] := by decide
    simp only [List.mem_append, not_or]
    exact ⟨⟨hentry.isName.comma, hcolon⟩, hentry.comma_not_mem_field hentry.declaration⟩
  obtain ⟨hkey, hline⟩ := Text.append_cons_inj (hhead hentry) (hhead hentry') hline
  obtain ⟨hidentifier, hdeclaration⟩ := eq_of_colon_eq hentry.isName hentry'.isName
    (getD_empty_eq_or hentry.declaration) (getD_empty_eq_or hentry'.declaration) hkey
  -- The definition stands before the second comma, the global name before the line feed.
  obtain ⟨hdefinition, hline⟩ := Text.append_cons_inj
    (hentry.comma_not_mem_field hentry.definition)
    (hentry'.comma_not_mem_field hentry'.definition) hline
  obtain ⟨hglobal, hrest⟩ := Text.append_cons_inj hentry.lineFeed_not_mem_globalName
    hentry'.lineFeed_not_mem_globalName hline
  have hset : ∀ {identifier : String} {event : Event}, Legible identifier event →
      ∀ {field : Option String}, (∀ text ∈ field, text = identifier) →
        ∀ text ∈ field, text ≠ "" := by
    intro identifier event hentry field hfield text htext
    exact hfield text htext ▸ hentry.ne_empty
  refine ⟨String.toList_inj.mp hidentifier, ?_, hrest⟩
  rw [shown, shown, Prod.mk.injEq, Prod.mk.injEq]
  refine ⟨?_, ?_, ?_⟩
  · exact eq_of_getD_empty_eq (hset hentry hentry.declaration) (hset hentry' hentry'.declaration)
      (String.toList_inj.mp hdeclaration)
  · exact eq_of_getD_empty_eq (hset hentry hentry.definition) (hset hentry' hentry'.definition)
      (String.toList_inj.mp hdefinition)
  · exact eq_of_getD_empty_eq (fun text htext => (hentry.globalName text htext).1)
      (fun text htext => (hentry'.globalName text htext).1) (String.toList_inj.mp hglobal)

end Entries

/-- Listings of legible entries that are the same text show the same. -/
theorem map_shown_eq_of_listing_eq {entries entries' : List (String × Event)}
    (hentries : ∀ entry ∈ entries, Legible entry.1 entry.2)
    (hentries' : ∀ entry ∈ entries', Legible entry.1 entry.2)
    (hlisting : (entries.flatMap fun entry => (listingLine entry.1 entry.2).toList) =
      entries'.flatMap fun entry => (listingLine entry.1 entry.2).toList) :
    (entries.map fun entry => (entry.1, shown entry.2)) =
      entries'.map fun entry => (entry.1, shown entry.2) := by
  induction entries generalizing entries' with
  | nil =>
      cases entries' with
      | nil => rfl
      | cons entry' rest' => simp [toList_listingLine_append] at hlisting
  | cons entry rest ih =>
      cases entries' with
      | nil => simp [toList_listingLine_append] at hlisting
      | cons entry' rest' =>
          rw [List.forall_mem_cons] at hentries hentries'
          rw [List.flatMap_cons, List.flatMap_cons] at hlisting
          obtain ⟨hidentifier, hshown, hrest⟩ := hentries.1.eq_of_line_eq hentries'.1 hlisting
          rw [List.map_cons, List.map_cons, hidentifier, hshown, ih hentries.2 hentries'.2 hrest]

end Report

/-- Whether observations were made in a text, in a file whose plugin is named on one line. -/
structure FileObservations.ReadFrom (seen : FileObservations) (markers : Markers)
    (source : List Char) : Prop where
  observations : seen.observations = Observation.ofSource markers source
  plugin : '\n' ∉ seen.plugin.toList

namespace History

theorem declaration_record (history : History) (identifier : String) :
    ∀ text ∈ (history.record identifier).declaration, text = identifier := by
  intro text htext
  rw [record, recordOf, Option.mem_def] at htext
  dsimp only at htext
  split at htext
  · cases htext
  · exact (Option.some.inj htext).symm

theorem definition_record (history : History) (identifier : String) :
    ∀ text ∈ (history.record identifier).definition, text = identifier := by
  intro text htext
  rw [record, recordOf, Option.mem_def] at htext
  dsimp only at htext
  split at htext
  · cases htext
  · exact (Option.some.inj htext).symm

/-- A global name is the plugin and the display name of a creation. -/
theorem exists_creation_of_globalName_record {history : History} {identifier text : String}
    (htext : text ∈ (history.record identifier).globalName) :
    ∃ sighting ∈ history, ∃ displayName,
      sighting.extraction = .creation identifier displayName ∧
        text = sighting.plugin ++ "." ++ displayName := by
  obtain ⟨sighting, hsighting, hname⟩ := List.mem_filterMap.mp (List.mem_of_getLast? htext)
  rw [about, List.mem_filter, decide_eq_true_eq] at hsighting
  obtain ⟨hsighting, hidentifier⟩ := hsighting
  rw [Sighting.identifier?] at hidentifier
  rw [Sighting.globalName?] at hname
  split at hname
  next name displayName hextraction =>
    rw [hextraction] at hidentifier
    obtain rfl : name = identifier := Option.some.inj hidentifier
    exact ⟨sighting, hsighting, displayName, hextraction, (Option.some.inj hname).symm⟩
  next => cases hname

end History

namespace Registry

/-- Every sighting is made on a line. -/
theorem exists_line_of_mem_sightings {files : List FileObservations}
    (hfiles : ∀ seen ∈ files, ∃ markers source, seen.ReadFrom markers source)
    {sighting : Sighting} (hsighting : sighting ∈ files.flatMap FileObservations.sightings) :
    '\n' ∉ sighting.plugin.toList ∧ ∃ markers line, '\n' ∉ line ∧
      Extraction.ofLine? markers line = some sighting.extraction := by
  obtain ⟨seen, hseen, hsighting⟩ := List.mem_flatMap.mp hsighting
  obtain ⟨markers, source, hread⟩ := hfiles seen hseen
  obtain ⟨observation, hobservation, rfl⟩ := List.mem_map.mp hsighting
  rw [hread.observations] at hobservation
  obtain ⟨line, hline, hextraction⟩ := Observation.exists_line_of_mem_ofSource hobservation
  exact ⟨hread.plugin, markers, line, hline, hextraction⟩

/-- Everything that is read from texts is legible in the listing. -/
theorem legible_of_mem_entries {files : List FileObservations}
    (hfiles : ∀ seen ∈ files, ∃ markers source, seen.ReadFrom markers source)
    {entry : String × Event} (hentry : entry ∈ (ofFiles files).entries) :
    Report.Legible entry.1 entry.2 := by
  rw [ofFiles_eq_registry] at hentry
  obtain ⟨identifier, hidentifier, rfl⟩ := List.mem_map.mp hentry
  obtain ⟨sighting, hsighting, hnamed⟩ := History.mem_identifiers.mp hidentifier
  obtain ⟨-, markers, line, -, hextraction⟩ := exists_line_of_mem_sightings hfiles hsighting
  refine ⟨Extraction.isName_of_ofLine? hextraction hnamed, History.declaration_record _ _,
    History.definition_record _ _, ?_⟩
  intro text htext
  obtain ⟨creation, hcreation, displayName, hcreated, rfl⟩ :=
    History.exists_creation_of_globalName_record htext
  obtain ⟨hplugin, markers, line, hline, hextraction⟩ :=
    exists_line_of_mem_sightings hfiles hcreation
  rw [hcreated] at hextraction
  have hdisplay : '\n' ∉ displayName.toList := fun hmem =>
    hline ((Extraction.displayName_sublist_of_ofLine? hextraction).mem hmem)
  constructor
  · simp
  · have hdot : '\n' ∉ ".".toList := by decide
    rw [String.toList_append, String.toList_append, List.mem_append, List.mem_append, not_or,
      not_or]
    exact ⟨⟨hplugin, hdot⟩, hdisplay⟩

theorem toList_listing (registry : Registry) : (Report.listing registry).toList =
    registry.entries.flatMap fun entry => (Report.listingLine entry.1 entry.2).toList := by
  rw [Report.listing, String.toList_join, List.flatMap_map]

/-- A registry that holds what was read from texts can be read back from its listing, as far as
it is shown there: registries that are listed alike have the same identifiers, and for each of
them the same declaration, definition and global name. -/
theorem listing_tells_names (files files' : List FileObservations)
    (hfiles : ∀ seen ∈ files, ∃ markers source, seen.ReadFrom markers source)
    (hfiles' : ∀ seen ∈ files', ∃ markers source, seen.ReadFrom markers source)
    (hlisting : Report.listing (ofFiles files) = Report.listing (ofFiles files')) :
    (ofFiles files).identifiers = (ofFiles files').identifiers ∧
      ∀ identifier event event', (ofFiles files).get? identifier = some event →
        (ofFiles files').get? identifier = some event' →
          event.declaration = event'.declaration ∧ event.definition = event'.definition ∧
            event.globalName = event'.globalName := by
  have hentries := Report.map_shown_eq_of_listing_eq
    (fun entry hentry => legible_of_mem_entries hfiles hentry)
    (fun entry hentry => legible_of_mem_entries hfiles' hentry)
    (by rw [← toList_listing, ← toList_listing, hlisting])
  constructor
  · have hkeys := congrArg (List.map Prod.fst) hentries
    rw [List.map_map, List.map_map] at hkeys
    exact hkeys
  · intro identifier event event' hevent hevent'
    have hmem : (identifier, Report.shown event) ∈
        (ofFiles files').entries.map fun entry => (entry.1, Report.shown entry.2) := by
      rw [← hentries]
      exact List.mem_map.mpr ⟨_, (mem_entries_iff _ _).mpr hevent, rfl⟩
    obtain ⟨⟨_, other⟩, hother, heq⟩ := List.mem_map.mp hmem
    obtain ⟨rfl, hshown⟩ := Prod.mk.inj heq
    rw [mem_entries_iff, hevent', Option.some.injEq] at hother
    rw [← hother, Report.shown, Report.shown, Prod.mk.injEq, Prod.mk.injEq] at hshown
    exact ⟨hshown.1.symm, hshown.2.1.symm, hshown.2.2.symm⟩

/-- Two projects are listed alike, one of whose identifiers looks like an entry of another one; a
comma in the name of the plugin does no harm. -/
theorem listing_tells_names_with_colon :
    let files : List FileObservations :=
      [{ file := "a.h"
         plugin := "p,q"
         observations := Observation.ofSource {}
          "EVENT_H(a: b)\nEVENT_FIRE(a)\nb = event_create(x, \"r\");".toList }]
    let files' : List FileObservations :=
      [{ file := "b.c"
         plugin := "p,q"
         observations := Observation.ofSource {}
          "b = event_create(y, \"r\");\nEVENT_FIRE1(a, 1);".toList },
        { file := "c.h"
          plugin := ""
          observations := Observation.ofSource {} "EVENT_H2(a: b, int)".toList }]
    Report.listing (ofFiles files) = "a: ,,\na: b: a: b,,\nb: ,,p,q.r\n" ∧
      Report.listing (ofFiles files') = "a: ,,\na: b: a: b,,\nb: ,,p,q.r\n" ∧
      (ofFiles files).identifiers = (ofFiles files').identifiers ∧
      ∀ identifier event event', (ofFiles files).get? identifier = some event →
        (ofFiles files').get? identifier = some event' →
          event.declaration = event'.declaration ∧ event.definition = event'.definition ∧
            event.globalName = event'.globalName := by
  intro files files'
  have hlisting : Report.listing (ofFiles files) = "a: ,,\na: b: a: b,,\nb: ,,p,q.r\n" := by
    decide +kernel
  have hlisting' : Report.listing (ofFiles files') = "a: ,,\na: b: a: b,,\nb: ,,p,q.r\n" := by
    decide +kernel
  refine ⟨hlisting, hlisting', ?_⟩
  apply listing_tells_names files files' _ _ (hlisting.trans hlisting'.symm)
  · intro seen hseen
    obtain rfl := List.mem_singleton.mp hseen
    exact ⟨_, _, rfl, by decide⟩
  · intro seen hseen
    rcases List.mem_pair.mp hseen with rfl | rfl
    · exact ⟨_, _, rfl, by decide⟩
    · exact ⟨_, _, rfl, by decide⟩

end Registry
end EventAudit
