import EventAudit.Proofs.Verdict

/-! # The verdict and the order of files

What a record says depends on the order in which the files are merged: the last file
wins, and conflicts point from the earlier to the later file. Whether the rules have
anything to say does not depend on it. The one thing that consistency takes from the
order is the last announced arity, and a consistent event announces arities in one
file only. -/

namespace EventAudit

/-- The order does not matter when at most one element contributes anything. -/
theorem flatMap_eq_of_perm {α β : Type} {f : α → List β} {xs ys : List α} (hperm : xs.Perm ys)
    (hone : ∀ x ∈ xs, ∀ y ∈ xs, f x ≠ [] → f y ≠ [] → x = y) : xs.flatMap f = ys.flatMap f := by
  induction hperm with
  | nil => rfl
  | cons x hperm ih =>
      rw [List.flatMap_cons, List.flatMap_cons, ih]
      intro y hy z hz
      exact hone y (List.mem_cons_of_mem x hy) z (List.mem_cons_of_mem x hz)
  | swap x y rest =>
      have hswap : f y ++ f x = f x ++ f y := by
        by_cases hx : f x = []
        · rw [hx, List.append_nil, List.nil_append]
        · by_cases hy : f y = []
          · rw [hy, List.append_nil, List.nil_append]
          · rw [hone x (List.mem_cons_of_mem y List.mem_cons_self) y List.mem_cons_self hx hy]
      simp only [List.flatMap_cons]
      rw [← List.append_assoc, hswap, List.append_assoc]
  | trans hfirst hsecond ih ih' =>
      refine (ih hone).trans (ih' ?_)
      intro x hx y hy
      exact hone x (hfirst.mem_iff.mpr hx) y (hfirst.mem_iff.mpr hy)

namespace History

variable {history history' : History} {identifier : String}

/-- Apart from the last announced arity, consistency asks only what was seen, not when. -/
theorem Consistent.of_mem_iff (hmem : ∀ sighting, sighting ∈ history' ↔ sighting ∈ history)
    (harity : history'.lastDeclaredArity? identifier = history.lastDeclaredArity? identifier)
    (hconsistent : history.Consistent identifier) : history'.Consistent identifier := by
  obtain ⟨hdeclared, hdefined, hcreated, hone, hcount⟩ := hconsistent
  constructor
  case created_declared => simpa only [hmem] using hdeclared
  case declared_defined => simpa only [hmem] using hdefined
  case fired_created => simpa only [hmem] using hcreated
  case one_file => simpa only [hmem] using hone
  case one_arity => simpa only [hmem, harity] using hcount

theorem declarations_flatMap_sightings (files : List FileObservations) (identifier : String) :
    declarations (files.flatMap FileObservations.sightings) identifier =
      files.flatMap fun seen => declarations seen.sightings identifier := by
  rw [declarations, List.filterMap_flatMap]
  rfl

/-- A file that declares an event has a sighting of a declaration. -/
theorem exists_declares_of_declarations_ne_nil
    (hdeclarations : history.declarations identifier ≠ []) :
    ∃ sighting ∈ history, sighting.Declares identifier := by
  by_contra hnone
  have hfiles : filesOf .declaration (history.about identifier).sites = [] :=
    (history.filesOf_about_eq_nil_iff identifier).mpr hnone
  rw [filesOf_declaration_about, List.map_eq_nil_iff] at hfiles
  exact hdeclarations hfiles

theorem file_of_mem_sightings {seen : FileObservations} {sighting : Sighting}
    (hsighting : sighting ∈ seen.sightings) : sighting.file = seen.file := by
  obtain ⟨observation, -, rfl⟩ := List.mem_map.mp hsighting
  rfl

/-- The declarations of a consistent event come from one file, so the order of the files does not
change them. -/
theorem Consistent.declarations_eq_of_perm {files files' : List FileObservations}
    (hconsistent : History.Consistent (files.flatMap FileObservations.sightings) identifier)
    (hnames : (files.map (·.file)).Nodup) (hperm : files.Perm files') :
    declarations (files.flatMap FileObservations.sightings) identifier =
      declarations (files'.flatMap FileObservations.sightings) identifier := by
  rw [declarations_flatMap_sightings, declarations_flatMap_sightings]
  apply flatMap_eq_of_perm hperm
  intro seen hseen seen' hseen' hdeclares hdeclares'
  obtain ⟨sighting, hsighting, hkind⟩ := exists_declares_of_declarations_ne_nil hdeclares
  obtain ⟨sighting', hsighting', hkind'⟩ := exists_declares_of_declarations_ne_nil hdeclares'
  apply List.inj_on_of_nodup_map hnames hseen hseen'
  calc seen.file = sighting.file := (file_of_mem_sightings hsighting).symm
    _ = sighting'.file := hconsistent.one_file .declaration
        sighting (List.mem_flatMap.mpr ⟨seen, hseen, hsighting⟩)
        sighting' (List.mem_flatMap.mpr ⟨seen', hseen', hsighting'⟩) hkind hkind'
    _ = seen'.file := file_of_mem_sightings hsighting'

theorem Consistent.of_perm {files files' : List FileObservations}
    (hconsistent : History.Consistent (files.flatMap FileObservations.sightings) identifier)
    (hnames : (files.map (·.file)).Nodup) (hperm : files.Perm files') :
    History.Consistent (files'.flatMap FileObservations.sightings) identifier := by
  refine hconsistent.of_mem_iff (fun sighting => (hperm.flatMap_right _).symm.mem_iff) ?_
  rw [lastDeclaredArity?, lastDeclaredArity?, hconsistent.declarations_eq_of_perm hnames hperm]

end History

namespace Registry

theorem audit_ofFiles_eq_nil_iff (files : List FileObservations) :
    (ofFiles files).audit Rule.all = [] ↔
      ∀ identifier, History.Consistent (files.flatMap FileObservations.sightings) identifier := by
  rw [ofFiles_eq_registry, History.audit_registry_eq_nil_iff]
  exact forall_congr' fun identifier => History.forall_check_eq_nil_iff _ identifier

/-- Whether the rules report anything does not depend on the order in which files with different
names are merged. -/
theorem audit_silent_iff_of_perm (files files' : List FileObservations)
    (hnames : (files.map (·.file)).Nodup) (hperm : files.Perm files') :
    (ofFiles files).audit Rule.all = [] ↔ (ofFiles files').audit Rule.all = [] := by
  rw [audit_ofFiles_eq_nil_iff, audit_ofFiles_eq_nil_iff]
  have hnames' : (files'.map (·.file)).Nodup := (hperm.map _).nodup_iff.mp hnames
  constructor
  · intro hconsistent identifier
    exact (hconsistent identifier).of_perm hnames hperm
  · intro hconsistent identifier
    exact (hconsistent identifier).of_perm hnames' hperm.symm

/-- A header that announces first one arity and then another, merged before or after the file
that fires the event: the records differ, and neither order has an issue. With a second header that
announces another arity, every order has issues, but not the same ones. -/
theorem audit_silent_iff_header_last :
    let header : FileObservations :=
      { file := "a.h", plugin := "builtin", observations :=
        [{ line := 1, extraction := .declaration "evt" (some 1) },
          { line := 2, extraction := .declaration "evt" (some 2) }] }
    let source : FileObservations :=
      { file := "b.c", plugin := "foo", observations :=
        [{ line := 1, extraction := .definition "evt" },
          { line := 4, extraction := .creation "evt" "moved" },
          { line := 9, extraction := .fire "evt" (some 2) ["x", "y"] }] }
    let caller : FileObservations :=
      { file := "c.c", plugin := "bar", observations :=
        [{ line := 7, extraction := .fire "evt" none ["x", "0"] }] }
    let other : FileObservations :=
      { file := "d.h", plugin := "bar", observations :=
        [{ line := 3, extraction := .declaration "evt" (some 3) }] }
    ofFiles [header, source, caller] ≠ ofFiles [caller, source, header] ∧
      (ofFiles [header, source, caller]).audit Rule.all = [] ∧
      (ofFiles [caller, source, header]).audit Rule.all = [] ∧
      (ofFiles [header, source, other]).audit Rule.all ≠
        (ofFiles [other, source, header]).audit Rule.all ∧
      (ofFiles [header, source, other]).audit Rule.all ≠ [] ∧
      (ofFiles [other, source, header]).audit Rule.all ≠ [] := by
  intro header source caller other
  have hsilent : (ofFiles [header, source, caller]).audit Rule.all = [] := by decide +kernel
  have hperm : [header, source, caller].Perm [caller, source, header] := by decide +kernel
  have hissues : (ofFiles [header, source, other]).audit Rule.all ≠ [] := by decide +kernel
  have hperm' : [header, source, other].Perm [other, source, header] := by decide +kernel
  refine ⟨by decide +kernel, hsilent, ?_, by decide +kernel, hissues, ?_⟩
  · exact (audit_silent_iff_of_perm _ _ (by decide +kernel) hperm).mp hsilent
  · exact mt (audit_silent_iff_of_perm _ _ (by decide +kernel) hperm').mpr hissues

end Registry
end EventAudit
