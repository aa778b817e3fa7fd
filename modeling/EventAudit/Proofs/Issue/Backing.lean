import EventAudit.Proofs.Event.Takeover
import EventAudit.Proofs.Scan.Ascending
import EventAudit.Proofs.Verdict

/-! # What an issue points at

Every issue that a check reports names files, and some name lines. All of them lead back
to lines that were read: the file is one of the scanned ones, the line is eligible, and
it says about the event what the issue takes from it. -/

namespace EventAudit

namespace Issue

variable (observed : String → Nat → Extraction → Prop)

/-- Whether some line of a file says that a site of the given kind is there. -/
def SiteIn (file event : String) : SiteKind → Prop
  | .declaration => ∃ line arity, observed file line (.declaration event arity)
  | .definition => ∃ line, observed file line (.definition event)
  | .creation => ∃ line displayName, observed file line (.creation event displayName)

/-- Whether the places that an issue names are there, given what the lines of files say. -/
def BackedBy : Issue → Prop
  | missingDeclaration event file => SiteIn observed file event .creation
  | missingDefinition event file => SiteIn observed file event .declaration
  | uncreatedEvent event call => observed call.file call.line (.fire event call.arity call.args)
  | arityMismatch event call _ reference =>
      observed call.file call.line (.fire event call.arity call.args) ∧
        ∀ file line, reference = .firstCall file line →
          ∃ arity args, observed file line (.fire event arity args)
  | conflictingProvenance event conflict =>
      conflict.previous ≠ conflict.current ∧
        SiteIn observed conflict.previous event conflict.kind ∧
        SiteIn observed conflict.current event conflict.kind

end Issue

namespace History

variable {history : History} {identifier : String}

/-- Whether something was seen on a line of a file. -/
def Observed (history : History) (file : String) (line : Nat) (extraction : Extraction) : Prop :=
  ∃ sighting ∈ history,
    sighting.file = file ∧ sighting.line = line ∧ sighting.extraction = extraction

theorem siteIn_of_contributes {kind : SiteKind} {file : String}
    (hsite : ∃ sighting ∈ history, sighting.Contributes identifier kind ∧ sighting.file = file) :
    Issue.SiteIn history.Observed file identifier kind := by
  obtain ⟨sighting, hsighting, hkind, hfile⟩ := hsite
  cases kind with
  | declaration =>
      obtain ⟨arity, hextraction⟩ := hkind
      exact ⟨_, arity, sighting, hsighting, hfile, rfl, hextraction⟩
  | definition => exact ⟨_, sighting, hsighting, hfile, rfl, hkind⟩
  | creation =>
      obtain ⟨displayName, hextraction⟩ := hkind
      exact ⟨_, displayName, sighting, hsighting, hfile, rfl, hextraction⟩

theorem siteIn_of_fileOf_record (kind : SiteKind) {file : String}
    (hfile : (history.record identifier).fileOf kind = some file) :
    Issue.SiteIn history.Observed file identifier kind := by
  rw [record, fileOf_recordOf] at hfile
  exact siteIn_of_contributes ((history.mem_filesOf_about identifier).mp
    (List.mem_of_getLast? hfile))

theorem observed_of_mem_fireCalls_record {call : FireCall}
    (hcall : call ∈ (history.record identifier).fireCalls) :
    history.Observed call.file call.line (.fire identifier call.arity call.args) :=
  (history.mem_fireCalls_record identifier).mp hcall

/-- A conflict is between two files that both have contributed. -/
theorem siteIn_of_mem_conflicts_record {conflict : Conflict}
    (hconflict : conflict ∈ (history.record identifier).conflicts) :
    conflict.previous ≠ conflict.current ∧
      Issue.SiteIn history.Observed conflict.previous identifier conflict.kind ∧
      Issue.SiteIn history.Observed conflict.current identifier conflict.kind := by
  have hmem : conflict ∈ (history.record identifier).conflicts.filter (·.kind = conflict.kind) :=
    List.mem_filter.mpr ⟨hconflict, decide_eq_true rfl⟩
  rw [filter_kind_conflicts_record] at hmem
  have hholder : ∀ file, conflict.previous = file ∨ conflict.current = file →
      Issue.SiteIn history.Observed file identifier conflict.kind := by
    intro file hfile
    apply siteIn_of_contributes
    rw [← mem_holders_about, Conflict.mem_iff_named_along conflict.kind]
    exact .inr ⟨conflict, hmem, hfile⟩
  refine ⟨?_, hholder _ (.inl rfl), hholder _ (.inr rfl)⟩
  exact Conflict.rel_of_mem_along _ _ (List.isChain_destutter _ _) hmem

end History

/-- What a rule reports about a record is backed by what the record was built from. -/
theorem Rule.Reports.backedBy {history : History} {identifier : String} {rule : Rule}
    {issue : Issue} (hreports : Reports identifier (history.record identifier) rule issue) :
    issue.BackedBy history.Observed := by
  cases hreports with
  | missingDeclaration _ hfile => exact History.siteIn_of_fileOf_record .creation hfile
  | missingDefinition _ hfile => exact History.siteIn_of_fileOf_record .declaration hfile
  | uncreatedEvent _ hcall => exact History.observed_of_mem_fireCalls_record hcall
  | arityMismatch hcall hexpected _ =>
      refine ⟨History.observed_of_mem_fireCalls_record hcall, ?_⟩
      rintro file line rfl
      obtain ⟨first, hfirst, hplace⟩ := Event.head?_of_expectedArity?_eq_firstCall hexpected
      cases hplace
      exact ⟨_, _, History.observed_of_mem_fireCalls_record (List.mem_of_head? hfirst)⟩
  | conflictingProvenance hconflict => exact History.siteIn_of_mem_conflicts_record hconflict

theorem History.backedBy_of_mem_issues {history : History} {rules : List Rule} {issue : Issue}
    (hissue : issue ∈ history.registry.issues rules) : issue.BackedBy history.Observed := by
  rw [Registry.issues, Issue.sort, List.mem_mergeSort, Registry.mem_audit_iff] at hissue
  obtain ⟨rule, -, identifier, event, hevent, hissue⟩ := hissue
  obtain rfl : history.record identifier = event := by
    rw [← getD_get?_registry, hevent]
    rfl
  exact (Rule.mem_check_iff.mp hissue).backedBy

/-- Whether a line of a text, the lines being counted from one, is eligible and says something. -/
def Observation.LineReads (markers : Markers) (source : List Char) (number : Nat)
    (extraction : Extraction) : Prop :=
  ∃ line, 1 ≤ number ∧ (Text.lines source)[number - 1]? = some line ∧
    ((LineState.after {} ((Text.lines source).take (number - 1))).classify line).isEligible = true ∧
    Extraction.ofLine? markers line = some extraction

theorem Observation.mem_ofEligible_iff {markers : Markers} {source : List Char}
    {observation : Observation} :
    observation ∈ ofEligible markers source ↔
      LineReads markers source observation.line observation.extraction := by
  rw [ofEligible, List.mem_filterMap, LineReads]
  constructor
  · rintro ⟨⟨line, index⟩, hline, hread⟩
    rw [List.mem_zipIdx_iff_getElem?] at hline
    dsimp only at hread hline
    split at hread
    next heligible =>
      obtain ⟨extraction, hextraction, rfl⟩ := Option.map_eq_some_iff.mp hread
      exact ⟨line, Nat.le_add_left 1 index, hline, heligible, hextraction⟩
    next => cases hread
  · rintro ⟨line, hnumber, hline, heligible, hextraction⟩
    refine ⟨(line, observation.line - 1), List.mem_zipIdx_iff_getElem?.mpr hline, ?_⟩
    dsimp only
    rw [if_pos heligible, hextraction, Option.map_some, Nat.sub_add_cancel hnumber]

namespace Scan

/-- Whether a file of the scan is displayed by the given name and has a line, counted from one,
that is eligible and says something. -/
def Observed (tree : FileTree) (scan : Scan) (file : String) (number : Nat)
    (extraction : Extraction) : Prop :=
  ∃ source ∈ scan.files, source.displayPath = file ∧ ∃ content,
    tree.read source.path = .ok content ∧
      Observation.LineReads scan.config.markers (Text.Utf8.decodeLossy content) number extraction

/-- What a scan has seen is what the lines of its files say. -/
theorem observed_history (tree : FileTree) (scan : Scan) :
    (scan.history tree).Observed = scan.Observed tree := by
  funext file number extraction
  rw [eq_iff_iff]
  constructor
  · rintro ⟨sighting, hsighting, rfl, rfl, rfl⟩
    obtain ⟨source, hsource, hsighting⟩ := List.mem_flatMap.mp hsighting
    refine ⟨source, hsource, (SourceFile.file_of_mem_sightings hsighting).symm, ?_⟩
    rw [SourceFile.sightings] at hsighting
    split at hsighting
    next => cases hsighting
    next content hcontent =>
      obtain ⟨observation, hobservation, rfl⟩ := List.mem_map.mp hsighting
      exact ⟨content, hcontent, Observation.mem_ofEligible_iff.mp hobservation⟩
  · rintro ⟨source, hsource, rfl, content, hcontent, hline⟩
    refine ⟨.ofObservation source.displayPath
      (scan.plugins.owner tree.isFile (.ofString source.displayPath))
      { line := number, extraction },
      List.mem_flatMap.mpr ⟨source, hsource, ?_⟩, rfl, rfl, rfl⟩
    rw [SourceFile.sightings, hcontent]
    exact List.mem_map_of_mem (Observation.mem_ofEligible_iff.mpr hline)

end Scan

namespace Command

/-- A command that scans a project ends without an error only if there is a registry to show. -/
theorem exists_registry_of_status_ne_error {tree : FileTree} {colours : Bool}
    {options : ScanOptions} {present : Scan → Registry → ExitStatus × String}
    (hstatus : (scanning tree colours options present).status ≠ .error) :
    ∃ scan registry, (Scan.prepare tree options).2 = .ok scan ∧
      scan.registry tree = .ok registry ∧
      (scanning tree colours options present).stdout = (present scan registry).2 := by
  unfold scanning at hstatus ⊢
  -- Otherwise the preparation itself is evaluated to take its pair apart.
  generalize Scan.prepare tree options = preparation at hstatus ⊢
  obtain ⟨notices, prepared⟩ := preparation
  dsimp only at hstatus ⊢
  cases prepared with
  | error failure => simp [Except.bind] at hstatus
  | ok scan =>
      cases hregistry : scan.registry tree with
      | error failure => simp [Except.bind, Except.map, hregistry] at hstatus
      | ok registry =>
          refine ⟨scan, registry, rfl, hregistry, ?_⟩
          simp [Except.bind, Except.map, hregistry]

/-- Every issue that a check shows points at something real: at scanned files, and at lines of
them that are eligible and say what the issue takes from them. -/
theorem check_points_at_observations (tree : FileTree) (colours : Bool) (rules : List Rule)
    (options : ScanOptions)
    (hstatus : (Command.run tree colours (.check rules options)).status ≠ .error) :
    ∃ scan registry, (Scan.prepare tree options).2 = .ok scan ∧
      scan.registry tree = .ok registry ∧
      (registry.issues rules ≠ [] → (Command.run tree colours (.check rules options)).stdout =
        Report.issuesText colours (registry.issues rules)) ∧
      ∀ issue ∈ registry.issues rules, issue.BackedBy (scan.Observed tree) := by
  obtain ⟨scan, registry, hscan, hregistry, hshown⟩ := exists_registry_of_status_ne_error hstatus
  refine ⟨scan, registry, hscan, hregistry, ?_, ?_⟩
  · intro hissues
    refine hshown.trans ?_
    rw [presentCheck]
    exact if_neg (by simpa using hissues)
  · intro issue hissue
    rw [Scan.registry_eq_of_eq_ok hregistry] at hissue
    rw [← Scan.observed_history]
    exact History.backedBy_of_mem_issues hissue

/-- A second call that disagrees with the first one, after a line that is not eligible. -/
theorem check_points_at_first_call :
    let tree : FileTree :=
      { top := .directory [(.ofString "util", .directory
          [(.ofString "a.c",
            .file "/* */\nEVENT_FIRE(evt, x);\n EVENT_FIRE(evt);\n".toUTF8.toList)])] }
    let call : FireCall := { file := "util/a.c", line := 3, arity := none, args := [] }
    (Command.run tree false (.check [.arityMismatch] {})).status = .failure ∧
      ∃ scan registry, (Scan.prepare tree {}).2 = .ok scan ∧ scan.registry tree = .ok registry ∧
        .arityMismatch "evt" call 1 (.firstCall "util/a.c" 2) ∈ registry.issues [.arityMismatch] ∧
        scan.Observed tree "util/a.c" 3 (.fire "evt" none []) ∧
        ∃ arity args, scan.Observed tree "util/a.c" 2 (.fire "evt" arity args) := by
  intro tree call
  have hstatus : (Command.run tree false (.check [.arityMismatch] {})).status = .failure := by
    decide +kernel
  obtain ⟨scan, registry, hscan, hregistry, -, hbacked⟩ := check_points_at_observations tree false
    [.arityMismatch] {} (by rw [hstatus]; decide)
  have hissue : .arityMismatch "evt" call 1 (.firstCall "util/a.c" 2) ∈
      registry.issues [.arityMismatch] := by
    have hfound : ∀ scan ∈ (Scan.prepare tree {}).2.toOption,
        ∀ registry ∈ (scan.registry tree).toOption,
          .arityMismatch "evt" call 1 (.firstCall "util/a.c" 2) ∈
            registry.issues [.arityMismatch] := by
      decide +kernel
    exact hfound scan (by rw [hscan]; rfl) registry (by rw [hregistry]; rfl)
  obtain ⟨hcall, hfirst⟩ := hbacked _ hissue
  exact ⟨hstatus, scan, registry, hscan, hregistry, hissue, hcall, hfirst _ _ rfl⟩

end Command
end EventAudit
