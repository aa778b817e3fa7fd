import EventAudit.Command.Run
import EventAudit.Proofs.Issue.Rules
import EventAudit.Proofs.Scan.Observed

/-! # The verdict of a check

A check of all rules succeeds exactly when the events of a project are consistent.
Consistency is said of the observations themselves, in their order, without records
or rules. -/

namespace EventAudit

/-- What all rules together ask of one event. -/
structure History.Consistent (history : History) (identifier : String) : Prop where
  created_declared : (∃ sighting ∈ history, sighting.Creates identifier) →
    ∃ sighting ∈ history, sighting.Declares identifier
  declared_defined : (∃ sighting ∈ history, sighting.Declares identifier) →
    ∃ sighting ∈ history, sighting.Defines identifier
  fired_created : (∃ sighting ∈ history, sighting.Fires identifier) →
    ∃ sighting ∈ history, sighting.Creates identifier
  /-- All declarations come from one file, and so do all definitions and all creations. -/
  one_file : ∀ kind, ∀ sighting ∈ history, ∀ sighting' ∈ history,
    sighting.Contributes identifier kind → sighting'.Contributes identifier kind →
      sighting.file = sighting'.file
  /-- Every call passes the same number of arguments, which is that of its suffix if it has one
  and the last one that a declaration announces if one does. -/
  one_arity : ∃ count,
    (∀ sighting ∈ history, ∀ arity args, sighting.extraction = .fire identifier arity args →
      args.length = count ∧ ∀ suffix, arity = some suffix → suffix = count) ∧
    ∀ arity, history.lastDeclaredArity? identifier = some arity → arity = count

namespace History

variable (history : History) (identifier : String)

theorem fireCalls_record_ne_nil_iff :
    (history.record identifier).fireCalls ≠ [] ↔
      ∃ sighting ∈ history, sighting.Fires identifier := by
  constructor
  · intro hcalls
    obtain ⟨call, hcall⟩ := List.exists_mem_of_ne_nil _ hcalls
    obtain ⟨sighting, hsighting, -, -, hfire⟩ :=
      (history.mem_fireCalls_record identifier).mp hcall
    exact ⟨sighting, hsighting, call.arity, call.args, hfire⟩
  · rintro ⟨sighting, hsighting, arity, args, hfire⟩
    have hcall : { file := sighting.file, line := sighting.line, arity, args } ∈
        (history.record identifier).fireCalls :=
      (history.mem_fireCalls_record identifier).mpr ⟨sighting, hsighting, rfl, rfl, hfire⟩
    exact List.ne_nil_of_mem hcall

theorem arityMismatches_record_eq_nil_iff :
    (history.record identifier).arityMismatches identifier = [] ↔ ∃ count,
      (∀ sighting ∈ history, ∀ arity args, sighting.extraction = .fire identifier arity args →
        args.length = count ∧ ∀ suffix, arity = some suffix → suffix = count) ∧
      ∀ arity, history.lastDeclaredArity? identifier = some arity → arity = count := by
  rw [Event.arityMismatches_eq_nil_iff, declaredArity_record]
  refine exists_congr fun count => and_congr ?_ Iff.rfl
  constructor
  · intro hcalls sighting hsighting arity args hfire
    exact hcalls { file := sighting.file, line := sighting.line, arity, args }
      ((history.mem_fireCalls_record identifier).mpr ⟨sighting, hsighting, rfl, rfl, hfire⟩)
  · intro hfires call hcall
    obtain ⟨sighting, hsighting, -, -, hfire⟩ :=
      (history.mem_fireCalls_record identifier).mp hcall
    exact hfires sighting hsighting call.arity call.args hfire

/-- The rules have nothing to say about an event exactly when it is consistent. -/
theorem forall_check_eq_nil_iff :
    (∀ rule ∈ Rule.all, rule.check identifier (history.record identifier) = []) ↔
      history.Consistent identifier := by
  have hcreated := history.isSome_fileOf_record identifier .creation
  have hdeclared := history.isSome_fileOf_record identifier .declaration
  simp only [Event.fileOf] at hcreated hdeclared
  simp only [Rule.all, List.forall_mem_cons, Rule.check, List.not_mem_nil, false_implies,
    implies_true, and_true]
  rw [Event.missingDeclaration_eq_nil_iff, Event.missingDefinition_eq_nil_iff,
    Event.uncreated_eq_nil_iff, Event.conflictingProvenance_eq_nil_iff,
    arityMismatches_record_eq_nil_iff, conflicts_record_eq_nil_iff, fireCalls_record_ne_nil_iff,
    isSome_declaration_record, isSome_definition_record, hcreated, hdeclared]
  constructor
  · rintro ⟨hmissing, hundefined, huncreated, harity, hone⟩
    exact ⟨hmissing, hundefined, huncreated, hone, harity⟩
  · rintro ⟨hmissing, hundefined, huncreated, hone, harity⟩
    exact ⟨hmissing, hundefined, huncreated, harity, hone⟩

end History

theorem Issue.sort_eq_nil_iff {issues : List Issue} : sort issues = [] ↔ issues = [] := by
  rw [← List.length_eq_zero_iff, sort, List.length_mergeSort, List.length_eq_zero_iff]

theorem History.issues_registry_eq_nil_iff (history : History) :
    history.registry.issues [] = [] ↔ ∀ identifier, history.Consistent identifier := by
  rw [Registry.issues, Issue.sort_eq_nil_iff, List.isEmpty_nil, if_pos rfl,
    History.audit_registry_eq_nil_iff]
  exact forall_congr' history.forall_check_eq_nil_iff

theorem ExitStatus.ofIssues_eq_success_iff {issues : List Issue} :
    ofIssues issues = .success ↔ issues = [] := by
  cases issues <;> simp [ofIssues]

theorem ExitStatus.ofIssues_eq_failure_iff {issues : List Issue} :
    ofIssues issues = .failure ↔ issues ≠ [] := by
  cases issues <;> simp [ofIssues]

namespace Command

/-- A command that scans a project gives the status that its presentation of the registry
gives. -/
theorem status_scanning {tree : FileTree} {options : ScanOptions} {scan : Scan}
    {registry : Registry} (hscan : (Scan.prepare tree options).2 = .ok scan)
    (hregistry : scan.registry tree = .ok registry) (colours : Bool)
    (present : Scan → Registry → ExitStatus × String) :
    (scanning tree colours options present).status = (present scan registry).1 := by
  unfold scanning
  -- Otherwise the preparation itself is evaluated to take its pair apart.
  generalize Scan.prepare tree options = preparation at hscan
  obtain ⟨notices, prepared⟩ := preparation
  simp only at hscan
  simp only [hscan, Except.bind, hregistry, Except.map]

/-- A check of all rules of a project that can be scanned succeeds exactly when its events are
consistent, and fails otherwise. -/
theorem check_succeeds_iff_consistent (tree : FileTree) (colours : Bool) (options : ScanOptions)
    (scan : Scan) (registry : Registry) (hscan : (Scan.prepare tree options).2 = .ok scan)
    (hregistry : scan.registry tree = .ok registry) :
    let status := (Command.run tree colours (.check [] options)).status
    (status = .success ↔ ∀ identifier, (scan.history tree).Consistent identifier) ∧
      ((∃ identifier, ¬(scan.history tree).Consistent identifier) → status = .failure) := by
  intro status
  have hstatus : status = .ofIssues ((scan.history tree).registry.issues []) := by
    rw [← Scan.registry_eq_of_eq_ok hregistry]
    exact status_scanning hscan hregistry colours _
  rw [hstatus, ← not_forall, ← History.issues_registry_eq_nil_iff]
  exact ⟨ExitStatus.ofIssues_eq_success_iff, ExitStatus.ofIssues_eq_failure_iff.mpr⟩

/-- A project with one declaration in it, after a line that is not eligible: its event is never
defined. -/
theorem check_fails_on_undefined_event :
    let tree : FileTree :=
      { top := .directory
          [(.ofString "util", .directory
            [(.ofString "log.h", .file "#\nEVENT_H1(evt)\n".toUTF8.toList)])] }
    let scan : Scan :=
      { config := {}
        base := .ofString "."
        files := [{ displayPath := "util/log.h", path := .ofString "./util/log.h" }]
        skipped := 0 }
    (Scan.prepare tree {}).2 = .ok scan ∧
      scan.registry tree = .ok (scan.history tree).registry ∧
      ¬(scan.history tree).Consistent "evt" ∧
      (Command.run tree false (.check [] {})).status = .failure := by
  intro tree scan
  have hscan : (Scan.prepare tree {}).2 = .ok scan := by decide +kernel
  have hhistory : scan.history tree =
      [{ file := "util/log.h"
         plugin := "builtin"
         line := 2
         extraction := .declaration "evt" (some 1) }] := by
    decide +kernel
  have hregistry : scan.registry tree = .ok (scan.history tree).registry :=
    Scan.registry_eq_ok_of_isOk (by decide +kernel)
  have hinconsistent : ¬(scan.history tree).Consistent "evt" := by
    rw [hhistory]
    intro hconsistent
    obtain ⟨sighting, hsighting, hdefines⟩ := hconsistent.declared_defined
      ⟨_, List.mem_cons_self, some 1, rfl⟩
    rw [List.mem_singleton.mp hsighting] at hdefines
    exact Extraction.noConfusion hdefines
  exact ⟨hscan, hregistry, hinconsistent,
    (check_succeeds_iff_consistent tree false {} scan _ hscan hregistry).2
      ⟨"evt", hinconsistent⟩⟩

end Command
end EventAudit
