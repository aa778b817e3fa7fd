import EventAudit.Proofs.Event.History

/-! # What the fields of a record say

The rules look at the fields of records only. Each field is traced back to the
sightings behind it: a file is on record when some sighting contributed it, and there
is no conflict exactly when every kind of site has a single file. -/

namespace EventAudit

namespace Sighting

variable (sighting : Sighting) (identifier : String)

def Declares : Prop :=
  ∃ arity, sighting.extraction = .declaration identifier arity

def Defines : Prop :=
  sighting.extraction = .definition identifier

def Creates : Prop :=
  ∃ displayName, sighting.extraction = .creation identifier displayName

def Fires : Prop :=
  ∃ arity args, sighting.extraction = .fire identifier arity args

/-- Whether a sighting is of a site of the given kind. -/
def Contributes (kind : SiteKind) : Prop :=
  match kind with
  | .declaration => sighting.Declares identifier
  | .definition => sighting.Defines identifier
  | .creation => sighting.Creates identifier

/-- The file and the announced arity of a declaration. -/
def declaration? : Option (String × Option Nat) :=
  match sighting.extraction with
  | .declaration name arity => if name = identifier then some (sighting.file, arity) else none
  | _ => none

theorem contributes_iff {kind : SiteKind} {file : String} :
    sighting.Contributes identifier kind ∧ sighting.file = file ↔
      sighting.identifier? = some identifier ∧ sighting.site? = some (kind, file) := by
  obtain ⟨file, plugin, line, extraction⟩ := sighting
  cases kind <;> cases extraction <;>
    simp [Contributes, Declares, Defines, Creates, identifier?, Extraction.identifier?, site?]

theorem fireCall?_eq_some_iff {call : FireCall} :
    sighting.identifier? = some identifier ∧ sighting.fireCall? = some call ↔
      sighting.file = call.file ∧ sighting.line = call.line ∧
        sighting.extraction = .fire identifier call.arity call.args := by
  obtain ⟨file, plugin, line, extraction⟩ := sighting
  obtain ⟨callFile, callLine, callArity, callArgs⟩ := call
  cases extraction <;> simp [identifier?, Extraction.identifier?, fireCall?]
  tauto

end Sighting

theorem Conflict.between?_eq_none_iff {kind : SiteKind} {previous : Option String}
    {current : String} : between? kind previous current = none ↔
      ∀ file ∈ previous, file = current := by
  cases previous with
  | none => simp [between?]
  | some previous => simp [between?]

namespace History

variable (history : History) (identifier : String)

/-- The files and announced arities of the declarations of an event, in order. -/
def declarations : List (String × Option Nat) :=
  history.filterMap (·.declaration? identifier)

/-- The last arity that a declaration of an event announces. -/
def lastDeclaredArity? : Option Nat :=
  ((history.declarations identifier).filterMap (·.2)).getLast?

theorem mem_about {sighting : Sighting} :
    sighting ∈ history.about identifier ↔
      sighting ∈ history ∧ sighting.identifier? = some identifier := by
  simp [about]

theorem mem_filesOf {kind : SiteKind} {sites : List (SiteKind × String)} {file : String} :
    file ∈ filesOf kind sites ↔ (kind, file) ∈ sites := by
  simp only [filesOf, List.mem_map, List.mem_filter, decide_eq_true_eq]
  constructor
  · rintro ⟨⟨kind', file'⟩, ⟨hsite, rfl⟩, rfl⟩
    exact hsite
  · intro hsite
    exact ⟨(kind, file), ⟨hsite, rfl⟩, rfl⟩

theorem mem_filesOf_about {kind : SiteKind} {file : String} :
    file ∈ filesOf kind (history.about identifier).sites ↔
      ∃ sighting ∈ history, sighting.Contributes identifier kind ∧ sighting.file = file := by
  rw [mem_filesOf, sites, List.mem_filterMap]
  simp only [mem_about, Sighting.contributes_iff, and_assoc]

theorem filesOf_declaration_about :
    filesOf .declaration (history.about identifier).sites =
      (history.declarations identifier).map (·.1) := by
  rw [filesOf, sites, about, declarations, List.filterMap_filter, List.filter_filterMap,
    List.map_filterMap, List.map_filterMap]
  apply List.filterMap_congr
  rintro ⟨file, plugin, line, extraction⟩ _
  cases extraction <;>
    simp only [Sighting.identifier?, Extraction.identifier?, Sighting.site?,
      Sighting.declaration?, Option.some.injEq, decide_eq_true_eq, reduceCtorEq] <;>
    split <;> simp

theorem filterMap_declaredArity?_about :
    (history.about identifier).filterMap Sighting.declaredArity? =
      (history.declarations identifier).filterMap (·.2) := by
  rw [about, declarations, List.filterMap_filter, List.filterMap_filterMap]
  apply List.filterMap_congr
  rintro ⟨file, plugin, line, extraction⟩ _
  cases extraction <;>
    simp only [Sighting.identifier?, Extraction.identifier?, Sighting.declaredArity?,
      Sighting.declaration?, Option.some.injEq, decide_eq_true_eq, reduceCtorEq] <;>
    split <;> simp

theorem mem_fireCalls_record {call : FireCall} :
    call ∈ (history.record identifier).fireCalls ↔
      ∃ sighting ∈ history, sighting.file = call.file ∧ sighting.line = call.line ∧
        sighting.extraction = .fire identifier call.arity call.args := by
  rw [record, recordOf, List.mem_filterMap]
  simp only [mem_about, ← Sighting.fireCall?_eq_some_iff, and_assoc]

theorem declarationFile_record :
    (history.record identifier).declarationFile =
      ((history.declarations identifier).map (·.1)).getLast? := by
  rw [record, recordOf, filesOf_declaration_about]

theorem declaredArity_record :
    (history.record identifier).declaredArity = history.lastDeclaredArity? identifier := by
  rw [record, recordOf, filterMap_declaredArity?_about, lastDeclaredArity?]

theorem filesOf_about_eq_nil_iff {kind : SiteKind} :
    filesOf kind (history.about identifier).sites = [] ↔
      ¬∃ sighting ∈ history, sighting.Contributes identifier kind := by
  rw [List.eq_nil_iff_forall_not_mem]
  simp only [mem_filesOf_about]
  constructor
  · rintro hnone ⟨sighting, hsighting, hkind⟩
    exact hnone sighting.file ⟨sighting, hsighting, hkind, rfl⟩
  · rintro hnone file ⟨sighting, hsighting, hkind, -⟩
    exact hnone ⟨sighting, hsighting, hkind⟩

theorem isSome_fileOf_record (kind : SiteKind) :
    ((history.record identifier).fileOf kind).isSome = true ↔
      ∃ sighting ∈ history, sighting.Contributes identifier kind := by
  rw [record, fileOf_recordOf, List.getLast?_isSome, ne_eq, filesOf_about_eq_nil_iff, not_not]

theorem isSome_name_iff (kind : SiteKind) :
    (if (filesOf kind (history.about identifier).sites).isEmpty then none
      else some identifier).isSome = true ↔
        ∃ sighting ∈ history, sighting.Contributes identifier kind := by
  rw [← not_iff_not, ← filesOf_about_eq_nil_iff]
  split <;> simp_all

theorem isSome_declaration_record :
    (history.record identifier).declaration.isSome = true ↔
      ∃ sighting ∈ history, sighting.Contributes identifier .declaration :=
  history.isSome_name_iff identifier .declaration

theorem isSome_definition_record :
    (history.record identifier).definition.isSome = true ↔
      ∃ sighting ∈ history, sighting.Contributes identifier .definition :=
  history.isSome_name_iff identifier .definition

theorem conflicts_eq_nil_iff (sites : List (SiteKind × String)) :
    conflicts sites = [] ↔
      ∀ kind, ∀ file ∈ filesOf kind sites, ∀ file' ∈ filesOf kind sites, file = file' := by
  induction sites using List.reverseRecOn with
  | nil => simp [conflicts, filesOf]
  | append_singleton sites site ih =>
      rw [conflicts_append_singleton, List.append_eq_nil_iff, ih, Option.toList_eq_nil_iff,
        Conflict.between?_eq_none_iff]
      constructor
      · rintro ⟨hone, hlast⟩ kind file hfile file' hfile'
        -- The new file agrees with the last one, hence with all of its kind.
        have hnew : ∀ file ∈ filesOf site.1 sites, file = site.2 := by
          intro file hfile
          obtain ⟨last, hmem⟩ := Option.isSome_iff_exists.mp
            (List.getLast?_isSome.mpr (List.ne_nil_of_mem hfile))
          rw [hone site.1 file hfile last (List.mem_of_getLast? hmem)]
          exact hlast last hmem
        rw [filesOf_append_singleton, List.mem_append] at hfile hfile'
        by_cases hkind : site.1 = kind
        · subst hkind
          rw [if_pos rfl, List.mem_singleton] at hfile hfile'
          rw [hfile.elim (hnew file) id, hfile'.elim (hnew file') id]
        · rw [if_neg hkind] at hfile hfile'
          exact hone kind file (hfile.resolve_right List.not_mem_nil) file'
            (hfile'.resolve_right List.not_mem_nil)
      · intro hone
        refine ⟨?_, ?_⟩
        · intro kind file hfile file' hfile'
          apply hone kind <;> rw [filesOf_append_singleton]
          · exact List.mem_append_left _ hfile
          · exact List.mem_append_left _ hfile'
        · intro last hlast
          apply hone site.1 <;> rw [filesOf_append_singleton]
          · exact List.mem_append_left _ (List.mem_of_getLast? hlast)
          · rw [if_pos rfl]
            exact List.mem_append_right _ List.mem_cons_self

/-- There is no conflict about an event when every kind of site has been seen in one file. -/
theorem conflicts_record_eq_nil_iff :
    (history.record identifier).conflicts = [] ↔
      ∀ kind, ∀ sighting ∈ history, ∀ sighting' ∈ history,
        sighting.Contributes identifier kind → sighting'.Contributes identifier kind →
          sighting.file = sighting'.file := by
  rw [record, recordOf, conflicts_eq_nil_iff]
  simp only [mem_filesOf_about]
  constructor
  · intro hone kind sighting hsighting sighting' hsighting' hkind hkind'
    exact hone kind _ ⟨sighting, hsighting, hkind, rfl⟩ _ ⟨sighting', hsighting', hkind', rfl⟩
  · rintro hone kind _ ⟨sighting, hsighting, hkind, rfl⟩ _ ⟨sighting', hsighting', hkind', rfl⟩
    exact hone kind sighting hsighting sighting' hsighting' hkind hkind'

end History
end EventAudit
