import EventAudit.Proofs.Event.Evidence
import Mathlib.Data.List.Destutter

/-! # The trail of conflicts

A record keeps one file for each kind of site and one list for the conflicts of all
kinds. The files that were on record before are not lost: the conflicts of a kind lead
from each of them to the next one, up to the file that is on record now. -/

namespace EventAudit

section Destutter

variable {α : Type} [DecidableEq α] (xs : List α) (x : α)

/-- Only an element that differs from the last one is kept at the end. -/
theorem destutter_append_singleton :
    (xs ++ [x]).destutter (· ≠ ·) =
      xs.destutter (· ≠ ·) ++ if xs.getLast? = some x then [] else [x] := by
  cases xs with
  | nil => simp
  | cons first rest =>
      rw [List.cons_append, List.destutter_cons', List.destutter_cons']
      induction rest generalizing first with
      | nil => by_cases heq : first = x <;> simp [heq]
      | cons second rest ih =>
          rw [List.cons_append, List.destutter'_cons, List.destutter'_cons,
            List.getLast?_cons_cons]
          by_cases heq : first = second
          · subst heq
            simpa using ih first
          · simpa [heq] using ih second

theorem getLast?_destutter : (xs.destutter (· ≠ ·)).getLast? = xs.getLast? := by
  induction xs using List.reverseRecOn with
  | nil => rfl
  | append_singleton xs x ih =>
      rw [destutter_append_singleton]
      split
      next hlast => rw [List.append_nil, ih, hlast, List.getLast?_concat]
      next => rw [List.getLast?_concat, List.getLast?_concat]

theorem mem_destutter {y : α} : y ∈ xs.destutter (· ≠ ·) ↔ y ∈ xs := by
  induction xs using List.reverseRecOn with
  | nil => simp
  | append_singleton xs x ih =>
      rw [destutter_append_singleton, List.mem_append, List.mem_append, ih]
      split
      next hlast =>
        have hmem : x ∈ xs := List.mem_of_getLast? hlast
        simp only [List.not_mem_nil, or_false, List.mem_singleton]
        exact ⟨Or.inl, fun hy => hy.elim id fun heq => heq ▸ hmem⟩
      next => rfl

end Destutter

namespace Conflict

/-- The conflicts that arise when each file of a sequence takes over from the one before it. -/
def along (kind : SiteKind) : List String → List Conflict
  | [] => []
  | [_] => []
  | previous :: current :: rest => { kind, previous, current } :: along kind (current :: rest)

variable (kind : SiteKind) (files : List String)

theorem along_append_singleton (file : String) :
    along kind (files ++ [file]) =
      along kind files ++
        (files.getLast?.map fun previous => { kind, previous, current := file }).toList := by
  fun_induction along kind files with
  | case1 => rfl
  | case2 first => rfl
  | case3 previous current rest ih =>
      rw [List.getLast?_cons_cons, List.cons_append, List.cons_append, along, ← List.cons_append,
        ih, List.cons_append]

theorem length_along : (along kind files).length = files.length - 1 := by
  fun_induction along kind files with
  | case1 => rfl
  | case2 first => rfl
  | case3 previous current rest ih => simp [ih]

theorem isChain_along :
    (along kind files).IsChain fun earlier later => earlier.current = later.previous := by
  fun_induction along kind files with
  | case1 => exact .nil
  | case2 first => exact .nil
  | case3 previous current rest ih =>
      cases rest with
      | nil => exact .singleton _
      | cons next rest => exact .cons_cons rfl ih

/-- What holds from each file to the next one holds from the old to the new file of a
conflict. -/
theorem rel_of_mem_along {R : String → String → Prop} (hchain : files.IsChain R)
    {conflict : Conflict} (hmem : conflict ∈ along kind files) :
    R conflict.previous conflict.current := by
  fun_induction along kind files with
  | case1 => simp at hmem
  | case2 first => simp at hmem
  | case3 previous current rest ih =>
      obtain ⟨hfirst, hrest⟩ := List.isChain_cons_cons.mp hchain
      rcases List.mem_cons.mp hmem with rfl | hmem
      · exact hfirst
      · exact ih hrest hmem

theorem getLast?_of_getLast?_along {conflict : Conflict}
    (hlast : (along kind files).getLast? = some conflict) :
    files.getLast? = some conflict.current := by
  induction files using List.reverseRecOn with
  | nil => simp [along] at hlast
  | append_singleton files file =>
      rw [along_append_singleton] at hlast
      cases hprevious : files.getLast? with
      | none =>
          rw [List.getLast?_eq_none_iff.mp hprevious] at hlast
          simp [along] at hlast
      | some previous =>
          rw [hprevious, Option.map_some, Option.toList_some, List.getLast?_concat,
            Option.some.injEq] at hlast
          rw [List.getLast?_concat, ← hlast]

/-- The files of a sequence are the last one and those that its conflicts name. -/
theorem mem_iff_named_along {file : String} :
    file ∈ files ↔ files.getLast? = some file ∨
      ∃ conflict ∈ along kind files, conflict.previous = file ∨ conflict.current = file := by
  constructor
  · intro hmem
    fun_induction along kind files with
    | case1 => simp at hmem
    | case2 first => exact .inl (congrArg some (List.mem_singleton.mp hmem).symm)
    | case3 previous current rest ih =>
        rcases List.mem_cons.mp hmem with rfl | hmem
        · exact .inr ⟨_, List.mem_cons_self, .inl rfl⟩
        · rw [List.getLast?_cons_cons]
          refine (ih hmem).imp_right ?_
          rintro ⟨conflict, hconflict, hfile⟩
          exact ⟨conflict, List.mem_cons_of_mem _ hconflict, hfile⟩
  · rintro (hlast | ⟨conflict, hconflict, hfile⟩)
    · exact List.mem_of_getLast? hlast
    · fun_induction along kind files with
      | case1 => simp at hconflict
      | case2 first => simp at hconflict
      | case3 previous current rest ih =>
          rcases List.mem_cons.mp hconflict with rfl | hconflict
          · rcases hfile with rfl | rfl
            · exact List.mem_cons_self
            · exact List.mem_cons_of_mem _ List.mem_cons_self
          · exact List.mem_cons_of_mem _ (ih hconflict)

end Conflict

namespace History

/-- The files that were on record for a kind of site, one after the other. -/
def holders (kind : SiteKind) (sites : List (SiteKind × String)) : List String :=
  (filesOf kind sites).destutter (· ≠ ·)

/-- The conflicts of one kind lead from each file that was on record to the next one, whatever
conflicts of other kinds stand between them. -/
theorem filter_kind_conflicts (kind : SiteKind) (sites : List (SiteKind × String)) :
    (conflicts sites).filter (·.kind = kind) = Conflict.along kind (holders kind sites) := by
  induction sites using List.reverseRecOn with
  | nil => rfl
  | append_singleton sites site ih =>
      rw [conflicts_append_singleton, List.filter_append, ih, holders, holders,
        filesOf_append_singleton]
      by_cases hkind : site.1 = kind
      · subst hkind
        rw [if_pos rfl, destutter_append_singleton]
        cases hlast : (filesOf site.1 sites).getLast? with
        | none =>
            have hnil : filesOf site.1 sites = [] := List.getLast?_eq_none_iff.mp hlast
            simp [hnil, Conflict.between?, Conflict.along]
        | some previous =>
            by_cases heq : previous = site.2
            · simp [heq, Conflict.between?]
            · simp [heq, Conflict.between?, Conflict.along_append_singleton, getLast?_destutter,
                hlast]
      · have hother : (Conflict.between? site.1 (filesOf site.1 sites).getLast?
            site.2).toList.filter (·.kind = kind) = [] := by
          cases (filesOf site.1 sites).getLast? with
          | none => rfl
          | some previous =>
              by_cases heq : previous = site.2 <;> simp [Conflict.between?, heq, hkind]
        rw [hother, if_neg hkind, List.append_nil, List.append_nil]

theorem filter_kind_conflicts_record (history : History) (identifier : String)
    (kind : SiteKind) :
    (history.record identifier).conflicts.filter (·.kind = kind) =
      Conflict.along kind (holders kind (history.about identifier).sites) :=
  filter_kind_conflicts kind _

theorem mem_holders_about {history : History} {identifier : String} {kind : SiteKind}
    {file : String} :
    file ∈ holders kind (history.about identifier).sites ↔
      ∃ sighting ∈ history, sighting.Contributes identifier kind ∧ sighting.file = file := by
  rw [holders, mem_destutter, mem_filesOf_about]

theorem getLast?_holders_about (history : History) (identifier : String) (kind : SiteKind) :
    (holders kind (history.about identifier).sites).getLast? =
      (history.record identifier).fileOf kind := by
  rw [holders, getLast?_destutter, record, fileOf_recordOf]

/-- A single file has held the record exactly when nothing took over. -/
theorem along_holders_eq_nil_iff (kind : SiteKind) (sites : List (SiteKind × String)) :
    Conflict.along kind (holders kind sites) = [] ↔
      ∀ file ∈ holders kind sites, ∀ file' ∈ holders kind sites, file = file' := by
  have hchain : (holders kind sites).IsChain (· ≠ ·) := List.isChain_destutter _ _
  cases hholders : holders kind sites with
  | nil => simp [Conflict.along]
  | cons first rest =>
      cases rest with
      | nil => simp [Conflict.along]
      | cons second rest =>
          rw [hholders] at hchain
          have hne : first ≠ second := (List.isChain_cons_cons.mp hchain).1
          simp only [Conflict.along, List.cons_ne_nil, false_iff]
          intro hone
          exact hne (hone first List.mem_cons_self second
            (List.mem_cons_of_mem _ List.mem_cons_self))

/-- No provenance is lost. After every sequence of operations the conflicts of an event about one
kind of site lead from file to different file without a gap, up to the file on record. Together
with that file they name exactly the files that contributed such a site. -/
theorem conflicts_trace_all_files (operations : List Registry.Operation) (identifier : String)
    (event : Event) (kind : SiteKind)
    (hevent : (Registry.run operations).get? identifier = some event) :
    let history : History := operations.flatMap Registry.Operation.sightings
    let trail := event.conflicts.filter (·.kind = kind)
    (∀ conflict ∈ trail, conflict.previous ≠ conflict.current) ∧
      (trail.IsChain fun earlier later => earlier.current = later.previous) ∧
      (∀ conflict, trail.getLast? = some conflict →
        event.fileOf kind = some conflict.current) ∧
      (∀ file, (event.fileOf kind = some file ∨
          ∃ conflict ∈ trail, conflict.previous = file ∨ conflict.current = file) ↔
        ∃ sighting ∈ history, sighting.Contributes identifier kind ∧ sighting.file = file) ∧
      (trail = [] ↔ ∀ sighting ∈ history, ∀ sighting' ∈ history,
        sighting.Contributes identifier kind → sighting'.Contributes identifier kind →
          sighting.file = sighting'.file) := by
  intro history trail
  obtain rfl : history.record identifier = event := by
    rw [← getD_get?_registry, ← Registry.run_eq_registry, hevent]
    rfl
  have htrail : trail = Conflict.along kind (holders kind (history.about identifier).sites) :=
    history.filter_kind_conflicts_record identifier kind
  rw [htrail, ← getLast?_holders_about]
  refine ⟨?_, Conflict.isChain_along kind _, ?_, ?_, ?_⟩
  · intro conflict hconflict
    exact Conflict.rel_of_mem_along kind _ (List.isChain_destutter _ _) hconflict
  · intro conflict hlast
    exact Conflict.getLast?_of_getLast?_along kind _ hlast
  · intro file
    rw [← Conflict.mem_iff_named_along, mem_holders_about]
  · rw [along_holders_eq_nil_iff]
    simp only [mem_holders_about]
    constructor
    · intro hone sighting hsighting sighting' hsighting' hkind hkind'
      exact hone _ ⟨sighting, hsighting, hkind, rfl⟩ _ ⟨sighting', hsighting', hkind', rfl⟩
    · rintro hone _ ⟨sighting, hsighting, hkind, rfl⟩ _ ⟨sighting', hsighting', hkind', rfl⟩
      exact hone sighting hsighting sighting' hsighting' hkind hkind'

/-- A file that comes back, a repeated declaration and a conflict about creations in between: the
declarations still form a trail of their own. -/
theorem conflicts_trace_returning_file :
    let operations : List Registry.Operation :=
      [.apply "a.h" "builtin" { line := 1, extraction := .declaration "evt" none },
        .merge { file := "b.h", plugin := "builtin", observations :=
          [{ line := 2, extraction := .declaration "evt" (some 1) },
            { line := 3, extraction := .creation "evt" "ready" },
            { line := 5, extraction := .declaration "evt" none }] },
        .apply "c.c" "builtin" { line := 1, extraction := .creation "evt" "ready" },
        .apply "a.h" "builtin" { line := 9, extraction := .declaration "evt" none }]
    let trail : List Conflict :=
      [{ kind := .declaration, previous := "a.h", current := "b.h" },
        { kind := .declaration, previous := "b.h", current := "a.h" }]
    ∃ event, (Registry.run operations).get? "evt" = some event ∧
      event.conflicts.filter (·.kind = .declaration) = trail ∧
      event.conflicts.length = 3 ∧
      event.fileOf .declaration = some "a.h" ∧
      ∃ sighting ∈ operations.flatMap Registry.Operation.sightings,
        sighting.Contributes "evt" .declaration ∧ sighting.file = "b.h" := by
  intro operations trail
  obtain ⟨event, hevent, htrail, hlength⟩ : ∃ event,
      (Registry.run operations).get? "evt" = some event ∧
        event.conflicts.filter (·.kind = .declaration) = trail ∧ event.conflicts.length = 3 := by
    have hsome : (Registry.run operations).get? "evt" =
        some (History.record (operations.flatMap Registry.Operation.sightings) "evt") := by
      decide +kernel
    exact ⟨_, hsome, by decide +kernel, by decide +kernel⟩
  obtain ⟨-, -, hlast, hfiles, -⟩ :=
    conflicts_trace_all_files operations "evt" event .declaration hevent
  rw [htrail] at hlast hfiles
  refine ⟨event, hevent, htrail, hlength, hlast _ rfl, (hfiles "b.h").mp (.inr ?_)⟩
  exact ⟨_, List.mem_cons_self, .inr rfl⟩

end History
end EventAudit
