import EventAudit.Proofs.Issue.Rules

/-! # The declaration that a fire call is measured by

An arity mismatch names the file of the last declaration, and the last arity that any
declaration announces. A declaration without arity moves the file and leaves the arity,
so both need not belong together: the named file may never have announced the arity.
This happens exactly when the announcing file has been overtaken. -/

namespace EventAudit

namespace Event

variable {event : Event} {identifier : String} {call : FireCall} {expected : Nat}

theorem mem_arityMismatches_iff {name : String} {reference : ArityReference} :
    Issue.arityMismatch name call expected reference ∈ event.arityMismatches identifier ↔
      name = identifier ∧ call ∈ event.fireCalls ∧
        event.expectedArity? call = some (expected, reference) ∧
          call.args.length ≠ expected := by
  have hcheck : event.arityMismatches identifier = Rule.check .arityMismatch identifier event := rfl
  rw [hcheck, Rule.mem_check_iff]
  constructor
  · intro hreports
    cases hreports with
    | arityMismatch hcall hexpected hne => exact ⟨rfl, hcall, hexpected, hne⟩
  · rintro ⟨rfl, hcall, hexpected, hne⟩
    exact .arityMismatch hcall hexpected hne

/-- A reference to the declaration takes the arity and the file from two fields. -/
theorem of_expectedArity?_eq_declaration {file : String}
    (hexpected : event.expectedArity? call = some (expected, .declaration file)) :
    event.declaredArity = some expected ∧ event.declarationFile.getD "" = file := by
  cases expectedArity?_eq_some_iff.mp hexpected with
  | declaration _ hdeclared => exact ⟨hdeclared, rfl⟩

end Event

namespace History

theorem mem_declarations_iff {history : History} {identifier file : String}
    {arity : Option Nat} :
    (file, arity) ∈ history.declarations identifier ↔ ∃ sighting ∈ history,
      sighting.file = file ∧ sighting.extraction = .declaration identifier arity := by
  rw [declarations, List.mem_filterMap]
  refine exists_congr fun sighting => and_congr_right fun _ => ?_
  rw [Sighting.declaration?]
  cases sighting.extraction <;> simp
  tauto

/-- An announced arity is overtaken by a file: the declarations after the last one that announces
any arity end in this file, which is another one and has never announced the same. -/
def Overtaken (declarations : List (String × Option Nat)) (file : String) (arity : Nat) : Prop :=
  ∃ earlier source later, declarations = earlier ++ (source, some arity) :: later ∧
    (∀ declaration ∈ later, declaration.2 = none) ∧ later.getLast? = some (file, none) ∧
    source ≠ file ∧ (file, some arity) ∉ earlier

theorem exists_last_announcement {declarations : List (String × Option Nat)} {arity : Nat}
    (hlast : (declarations.filterMap (·.2)).getLast? = some arity) :
    ∃ earlier source later, declarations = earlier ++ (source, some arity) :: later ∧
      ∀ declaration ∈ later, declaration.2 = none := by
  rw [List.getLast?_filterMap, List.findSome?_eq_some_iff] at hlast
  obtain ⟨later, ⟨source, announced⟩, earlier, hreverse, hannounced, hlater⟩ := hlast
  obtain rfl : announced = some arity := hannounced
  refine ⟨earlier.reverse, source, later.reverse, ?_, ?_⟩
  · rw [← List.reverse_inj, hreverse]
    simp
  · simpa using hlater

theorem not_mem_of_overtaken {declarations : List (String × Option Nat)} {file : String}
    {arity : Nat} (hovertaken : Overtaken declarations file arity) :
    (file, some arity) ∉ declarations := by
  obtain ⟨earlier, source, later, rfl, hlater, -, hne, hearlier⟩ := hovertaken
  rw [List.mem_append, List.mem_cons]
  rintro (hmem | hmem | hmem)
  · exact hearlier hmem
  · exact hne (congrArg Prod.fst hmem).symm
  · simpa using hlater _ hmem

/-- The last file has announced the last arity, unless it has overtaken it. -/
theorem mem_declarations_iff_not_overtaken {declarations : List (String × Option Nat)}
    {file : String} {arity : Nat} (hfile : (declarations.map (·.1)).getLast? = some file)
    (harity : (declarations.filterMap (·.2)).getLast? = some arity) :
    (file, some arity) ∈ declarations ↔ ¬Overtaken declarations file arity := by
  refine ⟨fun hmem hovertaken => not_mem_of_overtaken hovertaken hmem, fun hnot => ?_⟩
  obtain ⟨earlier, source, later, rfl, hlater⟩ := exists_last_announcement harity
  by_cases hsource : source = file
  · rw [hsource]
    exact List.mem_append_right _ List.mem_cons_self
  · by_contra hmem
    -- Since the announcing file does not come last, a declaration without arity does.
    have hlast : later.getLast? = some (file, none) := by
      rw [List.map_append, List.map_cons, List.getLast?_append, List.getLast?_cons,
        List.getLast?_map, Option.some_or, Option.some.injEq] at hfile
      cases hlast : later.getLast? with
      | none =>
          rw [hlast] at hfile
          exact absurd hfile hsource
      | some last =>
          have hnone : last.2 = none := hlater last (List.mem_of_getLast? hlast)
          rw [hlast] at hfile
          rw [← hnone, ← hfile]
          rfl
    exact hnot ⟨earlier, source, later, rfl, hlater, hlast, hsource,
      fun hearlier => hmem (List.mem_append_left _ hearlier)⟩

/-- An arity mismatch that refers to a declaration names the file of the last declaration of the
event and the last arity that a declaration of it announces. That file announces that arity,
unless it has overtaken the one that does. -/
theorem declaration_reference_holds_iff (operations : List Registry.Operation)
    (identifier : String) (call : FireCall) (expected : Nat) (file : String)
    (hissue : Issue.arityMismatch identifier call expected (.declaration file) ∈
      (Registry.run operations).audit [.arityMismatch]) :
    let history : History := operations.flatMap Registry.Operation.sightings
    let declarations := history.declarations identifier
    (declarations.map (·.1)).getLast? = some file ∧
      (declarations.filterMap (·.2)).getLast? = some expected ∧
      ((∃ sighting ∈ history, sighting.file = file ∧
          sighting.extraction = .declaration identifier (some expected)) ↔
        ¬Overtaken declarations file expected) := by
  intro history declarations
  rw [Registry.run_eq_registry, Registry.mem_audit_iff] at hissue
  obtain ⟨rule, hrule, name, event, hevent, hissue⟩ := hissue
  obtain rfl := List.mem_singleton.mp hrule
  obtain ⟨rfl, -, hexpected, -⟩ := Event.mem_arityMismatches_iff.mp hissue
  obtain ⟨harity, hfile⟩ := Event.of_expectedArity?_eq_declaration hexpected
  obtain rfl : history.record identifier = event := by
    rw [← getD_get?_registry, hevent]
    rfl
  rw [declaredArity_record, lastDeclaredArity?] at harity
  rw [declarationFile_record] at hfile
  have hlast : (declarations.map (·.1)).getLast? = some file := by
    -- An arity is announced, so there is a last declaration.
    obtain ⟨earlier, source, later, hdeclarations, -⟩ := exists_last_announcement harity
    cases hlast : (declarations.map (·.1)).getLast? with
    | none => simp [declarations, hdeclarations] at hlast
    | some last =>
        rw [hlast] at hfile
        exact congrArg some hfile
  refine ⟨hlast, harity, ?_⟩
  rw [← mem_declarations_iff_not_overtaken hlast harity, mem_declarations_iff]

/-- The announcing file is also the last one, after a file that announces another arity. -/
theorem declaration_reference_holds_in_last_file :
    let operations : List Registry.Operation :=
      [.apply "b.h" "builtin" { line := 1, extraction := .declaration "evt" (some 2) },
        .merge { file := "a.h", plugin := "builtin", observations :=
          [{ line := 1, extraction := .declaration "evt" (some 1) },
            { line := 4, extraction := .declaration "evt" none }] },
        .apply "c.c" "builtin" { line := 7, extraction := .fire "evt" none [] }]
    let call : FireCall := { file := "c.c", line := 7, arity := none, args := [] }
    Issue.arityMismatch "evt" call 1 (.declaration "a.h") ∈
        (Registry.run operations).audit [.arityMismatch] ∧
      ¬Overtaken (declarations (operations.flatMap Registry.Operation.sightings) "evt")
        "a.h" 1 := by
  intro operations call
  have hissue : Issue.arityMismatch "evt" call 1 (.declaration "a.h") ∈
      (Registry.run operations).audit [.arityMismatch] := by
    decide +kernel
  obtain ⟨-, -, hiff⟩ := declaration_reference_holds_iff operations "evt" call 1 "a.h" hissue
  refine ⟨hissue, hiff.mp ?_⟩
  decide +kernel

/-- One file announces an arity and another one declares the event without any: the mismatch
names the latter, which announces nothing. -/
theorem declaration_reference_to_overtaking_file :
    let operations : List Registry.Operation :=
      [.apply "a.h" "builtin" { line := 1, extraction := .declaration "evt" (some 1) },
        .apply "b.h" "builtin" { line := 1, extraction := .declaration "evt" none },
        .apply "c.c" "builtin" { line := 1, extraction := .fire "evt" none [] }]
    let call : FireCall := { file := "c.c", line := 1, arity := none, args := [] }
    Issue.arityMismatch "evt" call 1 (.declaration "b.h") ∈
        (Registry.run operations).audit [.arityMismatch] ∧
      ¬∃ sighting ∈ operations.flatMap Registry.Operation.sightings,
        sighting.file = "b.h" ∧ sighting.extraction = .declaration "evt" (some 1) := by
  decide +kernel

end History
end EventAudit
