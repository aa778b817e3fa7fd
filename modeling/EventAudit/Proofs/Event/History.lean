import EventAudit.Proofs.Keyed
import Mathlib.Data.Finset.Sort
import Mathlib.Data.List.Induction
import Mathlib.Data.String.Basic

/-! # The registry as a view of its history

A registry is built by changing records in place. Here it is read off, as a whole,
from the sequence of everything that was observed: which identifiers have records, and
in each record the last file of every kind of site, the last global name, the last
announced arity, all fire calls and all changes of files. Both agree after every
sequence of operations. -/

namespace EventAudit

/-- One observation, with the file in which it was made and the plugin that owns the file. -/
structure Sighting where
  file : String
  plugin : String
  line : Nat
  extraction : Extraction
deriving DecidableEq, Repr

namespace Sighting

/-- An observation in a file of a plugin. -/
def ofObservation (file plugin : String) (observation : Observation) : Sighting where
  file := file
  plugin := plugin
  line := observation.line
  extraction := observation.extraction

/-- The event that is spoken of; listeners name none. -/
def identifier? (sighting : Sighting) : Option String :=
  sighting.extraction.identifier?

/-- The site that is observed: its kind and its file. -/
def site? (sighting : Sighting) : Option (SiteKind × String) :=
  match sighting.extraction with
  | .declaration .. => some (.declaration, sighting.file)
  | .definition _ => some (.definition, sighting.file)
  | .creation .. => some (.creation, sighting.file)
  | _ => none

/-- The arity that a declaration announces. -/
def declaredArity? (sighting : Sighting) : Option Nat :=
  match sighting.extraction with
  | .declaration _ arity => arity
  | _ => none

/-- The name that a creation gives. -/
def globalName? (sighting : Sighting) : Option String :=
  match sighting.extraction with
  | .creation _ displayName => some (sighting.plugin ++ "." ++ displayName)
  | _ => none

def fireCall? (sighting : Sighting) : Option FireCall :=
  match sighting.extraction with
  | .fire _ arity args => some { file := sighting.file, line := sighting.line, arity, args }
  | _ => none

end Sighting

/-- The conflict that arises when a file takes over from another one. -/
def Conflict.between? (kind : SiteKind) (previous : Option String) (current : String) :
    Option Conflict :=
  match previous with
  | some previous => if previous = current then none else some { kind, previous, current }
  | none => none

/-- Everything that was observed, in order. -/
abbrev History := List Sighting

namespace History

/-- What was observed of one event. -/
def about (history : History) (identifier : String) : History :=
  history.filter (·.identifier? = some identifier)

def sites (history : History) : List (SiteKind × String) :=
  history.filterMap Sighting.site?

/-- The files of the sites of one kind. -/
def filesOf (kind : SiteKind) (sites : List (SiteKind × String)) : List String :=
  (sites.filter (·.1 = kind)).map (·.2)

/-- The conflicts of a sequence of sites: each site is compared with the last one of its kind
among those before it. -/
def conflicts (sites : List (SiteKind × String)) : List Conflict :=
  sites.zipIdx.filterMap fun (site, index) =>
    Conflict.between? site.1 (filesOf site.1 (sites.take index)).getLast? site.2

/-- The record of an event, given what was observed of it. -/
def recordOf (identifier : String) (own : History) : Event where
  declarationFile := (filesOf .declaration own.sites).getLast?
  definitionFile := (filesOf .definition own.sites).getLast?
  creationFile := (filesOf .creation own.sites).getLast?
  declaration := if (filesOf .declaration own.sites).isEmpty then none else some identifier
  definition := if (filesOf .definition own.sites).isEmpty then none else some identifier
  globalName := (own.filterMap Sighting.globalName?).getLast?
  declaredArity := (own.filterMap Sighting.declaredArity?).getLast?
  fireCalls := own.filterMap Sighting.fireCall?
  conflicts := conflicts own.sites

/-- The record of an event, read off from everything that was observed. -/
def record (history : History) (identifier : String) : Event :=
  recordOf identifier (history.about identifier)

/-- The identifiers that were spoken of, each once and in ascending order. -/
def identifiers (history : History) : List String :=
  (history.filterMap Sighting.identifier?).toFinset.sort

theorem pairwise_identifiers (history : History) : history.identifiers.Pairwise (· < ·) :=
  (Finset.sortedLT_sort _).pairwise

/-- The registry of everything that was observed. -/
def registry (history : History) : Registry where
  entries := history.identifiers.map fun identifier => (identifier, history.record identifier)
  ordered := by
    rw [List.pairwise_map]
    exact history.pairwise_identifiers

@[simp] theorem sites_append_singleton (history : History) (sighting : Sighting) :
    sites (history ++ [sighting]) = history.sites ++ sighting.site?.toList := by
  rw [sites, List.filterMap_append, List.filterMap_cons, List.filterMap_nil, sites]
  cases sighting.site? <;> rfl

section Sites

variable (kind : SiteKind) (sites : List (SiteKind × String)) (site : SiteKind × String)

@[simp] theorem filesOf_append_singleton :
    filesOf kind (sites ++ [site]) =
      filesOf kind sites ++ if site.1 = kind then [site.2] else [] := by
  rw [filesOf, List.filter_append, List.map_append, List.filter_singleton, filesOf]
  by_cases hkind : site.1 = kind <;> simp [hkind]

/-- A new site is compared with the file that is on record for its kind. -/
theorem conflicts_append_singleton :
    conflicts (sites ++ [site]) = conflicts sites ++
      (Conflict.between? site.1 (filesOf site.1 sites).getLast? site.2).toList := by
  rw [conflicts, List.zipIdx_append, List.filterMap_append]
  congr 1
  · apply List.filterMap_congr
    rintro ⟨earlier, index⟩ hentry
    have hindex : index < sites.length := List.snd_lt_of_mem_zipIdx hentry
    dsimp only
    rw [List.take_append_of_le_length hindex.le]
  · rw [Nat.zero_add, List.zipIdx_singleton, List.filterMap_cons, List.filterMap_nil]
    dsimp only
    rw [List.take_left]
    cases Conflict.between? site.1 (filesOf site.1 sites).getLast? site.2 <;> rfl

end Sites

theorem fileOf_recordOf (identifier : String) (own : History) (kind : SiteKind) :
    (recordOf identifier own).fileOf kind = (filesOf kind own.sites).getLast? := by
  cases kind <;> rfl

end History

theorem Event.recordSite_eq (event : Event) (kind : SiteKind) (file : String) :
    event.recordSite kind file = { event.setFile kind file with
      conflicts := event.conflicts ++
        (Conflict.between? kind (event.fileOf kind) file).toList } := by
  rw [recordSite]
  cases hfile : event.fileOf kind with
  | none => cases kind <;> simp [Conflict.between?, setFile]
  | some previous =>
      by_cases heq : previous = file
      · cases kind <;> simp [Conflict.between?, setFile, heq]
      · simp [Conflict.between?, heq]

namespace History

/-- One more observation of an event changes its record as it changes the registry. -/
theorem recordOf_append_singleton (identifier : String) (own : History) {sighting : Sighting}
    (hidentifier : sighting.identifier? = some identifier) :
    recordOf identifier (own ++ [sighting]) =
      Registry.change sighting.file sighting.plugin sighting.line sighting.extraction
        (recordOf identifier own) := by
  obtain ⟨file, plugin, line, extraction⟩ := sighting
  -- Each kind of extraction touches its own fields; the others see the same sightings as before.
  cases extraction with
  | declaration name arity =>
      obtain rfl : name = identifier := Option.some.inj hidentifier
      rw [Registry.change, Event.recordSite_eq, fileOf_recordOf]
      simp [recordOf, Event.setFile, conflicts_append_singleton, Sighting.site?,
        Sighting.globalName?, Sighting.declaredArity?, Sighting.fireCall?]
  | definition name =>
      obtain rfl : name = identifier := Option.some.inj hidentifier
      rw [Registry.change, Event.recordSite_eq, fileOf_recordOf]
      simp [recordOf, Event.setFile, conflicts_append_singleton, Sighting.site?,
        Sighting.globalName?, Sighting.declaredArity?, Sighting.fireCall?]
  | creation name displayName =>
      rw [Registry.change, Event.recordSite_eq, fileOf_recordOf]
      simp [recordOf, Event.setFile, conflicts_append_singleton, Sighting.site?,
        Sighting.globalName?, Sighting.declaredArity?, Sighting.fireCall?]
  | fire name arity args =>
      rw [Registry.change]
      simp [recordOf, Sighting.site?, Sighting.globalName?, Sighting.declaredArity?,
        Sighting.fireCall?]
  | listenerRegistration => simp [Sighting.identifier?, Extraction.identifier?] at hidentifier
  | listenerDefinition => simp [Sighting.identifier?, Extraction.identifier?] at hidentifier

theorem mem_identifiers {history : History} {identifier : String} :
    identifier ∈ history.identifiers ↔
      ∃ sighting ∈ history, sighting.identifier? = some identifier := by
  rw [identifiers, Finset.mem_sort, List.mem_toFinset, List.mem_filterMap]

theorem about_eq_nil_iff {history : History} {identifier : String} :
    history.about identifier = [] ↔ identifier ∉ history.identifiers := by
  rw [about, List.filter_eq_nil_iff, mem_identifiers]
  simp

theorem about_append_singleton (history : History) (sighting : Sighting) (identifier : String) :
    about (history ++ [sighting]) identifier = history.about identifier ++
      if sighting.identifier? = some identifier then [sighting] else [] := by
  rw [about, List.filter_append, List.filter_singleton, about]
  by_cases hidentifier : sighting.identifier? = some identifier <;> simp [hidentifier]

/-- An event has a record as soon as it is spoken of. -/
theorem get?_registry (history : History) (identifier : String) :
    history.registry.get? identifier =
      if history.about identifier = [] then none else some (history.record identifier) := by
  split
  next hnone =>
    rw [about_eq_nil_iff] at hnone
    rw [Registry.get?, List.lookup_eq_none_iff]
    intro entry hentry
    obtain ⟨other, hother, rfl⟩ := List.mem_map.mp hentry
    rw [bne_iff_ne]
    rintro rfl
    exact hnone hother
  next hsome =>
    rw [about_eq_nil_iff, not_not] at hsome
    rw [← Registry.mem_entries_iff]
    exact List.mem_map.mpr ⟨identifier, hsome, rfl⟩

theorem getD_get?_registry (history : History) (identifier : String) :
    (history.registry.get? identifier).getD {} = history.record identifier := by
  rw [get?_registry]
  split
  next hnone =>
    rw [record, hnone]
    rfl
  next => rfl

end History

namespace Registry

/-- Fold one sighting into the registry. -/
def see (registry : Registry) (sighting : Sighting) : Registry :=
  registry.apply sighting.file sighting.plugin
    { line := sighting.line, extraction := sighting.extraction }

/-- The ways in which a registry grows. -/
inductive Operation where
  | apply (file plugin : String) (observation : Observation)
  | merge (seen : FileObservations)
deriving DecidableEq, Repr

def perform (registry : Registry) : Operation → Registry
  | .apply file plugin observation => registry.apply file plugin observation
  | .merge seen => registry.merge seen

/-- The registry after some operations on the empty one. -/
def run (operations : List Operation) : Registry :=
  operations.foldl perform empty

end Registry

/-- What was seen in a file, one by one. -/
def FileObservations.sightings (seen : FileObservations) : History :=
  seen.observations.map (.ofObservation seen.file seen.plugin)

/-- What an operation tells the registry, one by one. -/
def Registry.Operation.sightings : Operation → History
  | .apply file plugin observation => [.ofObservation file plugin observation]
  | .merge seen => seen.sightings

namespace History

/-- One more sighting changes the registry as a whole as it is folded in. -/
theorem registry_append_singleton (history : History) (sighting : Sighting) :
    registry (history ++ [sighting]) = history.registry.see sighting := by
  apply Registry.ext_get?
  intro identifier
  rw [get?_registry, record, about_append_singleton, Registry.see, Registry.apply]
  -- The sighting names no event, the event in question, or another one.
  cases hsighting : sighting.identifier? with
  | none =>
      have hextraction : sighting.extraction.identifier? = none := hsighting
      simp only [hextraction, reduceCtorEq, if_false, List.append_nil]
      rw [get?_registry, record]
  | some own =>
      have hextraction : sighting.extraction.identifier? = some own := hsighting
      simp only [hextraction, Registry.get?_update, getD_get?_registry]
      by_cases heq : own = identifier
      · subst heq
        simp only [if_true, List.append_eq_nil_iff, List.cons_ne_nil, and_false, if_false]
        rw [recordOf_append_singleton own _ hsighting, record]
      · have hne : identifier ≠ own := Ne.symm heq
        simp only [Option.some.injEq, heq, hne, if_false, List.append_nil]
        rw [get?_registry, record]

theorem foldl_see_empty (history : History) :
    history.foldl Registry.see .empty = history.registry := by
  induction history using List.reverseRecOn with
  | nil =>
      apply Registry.ext_get?
      intro identifier
      rw [get?_registry]
      rfl
  | append_singleton history sighting ih =>
      rw [List.foldl_append, ih, registry_append_singleton]
      rfl

end History

namespace Registry

theorem merge_eq_foldl_see (registry : Registry) (seen : FileObservations) :
    registry.merge seen = seen.sightings.foldl see registry := by
  rw [FileObservations.sightings, List.foldl_map]
  rfl

theorem perform_eq_foldl_see (registry : Registry) (operation : Operation) :
    registry.perform operation = operation.sightings.foldl see registry := by
  cases operation with
  | apply file plugin observation => rfl
  | merge seen => exact registry.merge_eq_foldl_see seen

theorem run_eq_registry (operations : List Operation) :
    run operations = History.registry (operations.flatMap Operation.sightings) := by
  rw [← History.foldl_see_empty, List.foldl_flatMap, run]
  congr 1
  funext registry operation
  exact registry.perform_eq_foldl_see operation

/-- The registry of a project is the view of everything that its files say. -/
theorem ofFiles_eq_registry (files : List FileObservations) :
    ofFiles files = History.registry (files.flatMap FileObservations.sightings) := by
  rw [← History.foldl_see_empty, List.foldl_flatMap, ofFiles]
  congr 1
  funext registry seen
  exact registry.merge_eq_foldl_see seen

end Registry

namespace History

/-- Observations of listeners, which name no event, leave no trace. -/
theorem registry_filter_isSome (history : History) :
    registry (history.filter (·.identifier?.isSome)) = history.registry := by
  apply Registry.ext_get?
  intro identifier
  have habout : about (history.filter (·.identifier?.isSome)) identifier =
      history.about identifier := by
    rw [about, List.filter_filter, about]
    apply List.filter_congr
    intro sighting _
    by_cases hidentifier : sighting.identifier? = some identifier <;> simp [hidentifier]
  rw [get?_registry, get?_registry, record, record, habout]

/-- After every sequence of operations the registry is the view of what they told it: it has a
record of exactly the events that were spoken of, and each record can be read off. -/
theorem registry_run_eq_view (operations : List Registry.Operation) :
    let history : History := operations.flatMap Registry.Operation.sightings
    let registry := Registry.run operations
    registry = history.registry ∧
      registry.identifiers.Pairwise (· < ·) ∧
      (∀ identifier, identifier ∈ registry.identifiers ↔
        ∃ sighting ∈ history, sighting.identifier? = some identifier) ∧
      (∀ identifier ∈ registry.identifiers,
        registry.get? identifier = some (history.record identifier)) ∧
      registry = History.registry (history.filter (·.identifier?.isSome)) := by
  intro history registry
  have hregistry : registry = history.registry := Registry.run_eq_registry operations
  have hidentifiers : registry.identifiers = history.identifiers := by
    rw [hregistry, Registry.identifiers, History.registry, List.map_map]
    exact List.map_id _
  rw [hidentifiers, registry_filter_isSome]
  refine ⟨hregistry, history.pairwise_identifiers, fun _ => mem_identifiers, ?_, hregistry⟩
  intro identifier hmem
  rw [hregistry, get?_registry, if_neg]
  rw [about_eq_nil_iff, not_not]
  exact hmem

end History
end EventAudit
