import EventAudit.Proofs.PluginOwner
import EventAudit.Proofs.Scan.Selection
import Mathlib.Data.List.Find
import Mathlib.Data.List.Nodup

/-! # What a display path stands for

As it is seen from the base, a path leads back to its file from there, as far as components
go, although it may be written differently or, outside the base, be the path itself. The same
holds of what is above it, step by step. A display path is what such a path is shown as, and
leads back exactly if this is the path itself, that is, if it is UTF-8. So it identifies a file
among those that are displayed in UTF-8, and the directories in which the marker of its plugin
is looked for are those above the path that is read, as far up as there are only UTF-8 names
left. -/

namespace EventAudit

namespace Path

variable {base path relative directory : Path} {steps : Nat}

/-- What is left of a path below a base does not start with a `.`. -/
theorem here_not_mem_of_relativeTo? (hbase : base.text ≠ [])
    (hrelative : path.relativeTo? base = some relative) : .here ∉ relative.components := by
  obtain ⟨pieces, rfl, hslash, hfirst, -⟩ := exists_pieces_of_relativeTo? hbase hrelative
  rw [components_ofParts hslash fun _ => hfirst]
  intro hmem
  exact (ne_start_of_mem_filterMap hmem).2 rfl

/-- A path that has no start is its components after the base, once it is joined to one. -/
theorem components_join_of_here_not_mem (hbase : base.text ≠ [])
    (hpath : path.isAbsolute = false) (hhere : .here ∉ path.components) :
    (base.join path).components = base.components ++ path.components := by
  rw [components_join_of_relative hbase hpath, components_eq_append_said path]
  cases hlead : path.parts.1 with
  | none => rfl
  | root =>
      rw [lead_eq_root_iff.mp hlead] at hpath
      cases hpath
  | here =>
      rw [components_eq_append_said, hlead] at hhere
      exact absurd List.mem_cons_self hhere

/-- What is above the end of a path is what is above the whole, as long as there is any. -/
theorem exists_shortened_of_append {shown : Path} {before : List Component}
    (hpath : path.components = before ++ shown.components)
    (hdirectory : shown.shortened steps = some directory) :
    ∃ above, path.shortened steps = some above ∧
      above.components = before ++ directory.components := by
  have hsteps := isSome_shortened_iff.mp (Option.isSome_iff_exists.mpr ⟨_, hdirectory⟩)
  have hle : steps ≤ shown.components.length := (Nat.le_add_right _ _).trans hsteps
  have hlength : path.components.length = before.length + shown.components.length := by
    rw [hpath, List.length_append]
  have hsome : (path.shortened steps).isSome := by
    rw [isSome_shortened_iff, hlength]
    split
    next habsolute =>
      rw [← root_mem_components_iff, hpath, List.mem_append, root_mem_components_iff]
        at habsolute
      rcases habsolute with hroot | hshown
      · have hpos := List.length_pos_of_mem hroot
        omega
      · rw [if_pos hshown] at hsteps
        omega
    next => omega
  obtain ⟨above, habove⟩ := Option.isSome_iff_exists.mp hsome
  refine ⟨above, habove, ?_⟩
  have hrest : before.length + shown.components.length - steps - before.length =
      shown.components.length - steps := by omega
  rw [components_of_shortened habove, components_of_shortened hdirectory, hlength, hpath,
    List.take_append, hrest, List.take_of_length_le (by omega)]

/-- Paths with the same components are shortened alike. -/
theorem exists_shortened_of_components_eq {shown : Path}
    (hsame : shown.components = path.components)
    (hdirectory : shown.shortened steps = some directory) :
    ∃ above, path.shortened steps = some above ∧ directory.components = above.components := by
  obtain ⟨above, habove, hcomponents⟩ :=
    exists_shortened_of_append (hsame.symm.trans (List.nil_append _).symm) hdirectory
  exact ⟨above, habove, hcomponents.symm⟩

theorem isAbsolute_of_shortened (hdirectory : path.shortened steps = some directory) :
    directory.isAbsolute = path.isAbsolute := by
  rw [← getElem?_ancestors] at hdirectory
  exact isAbsolute_of_mem_ancestors (List.mem_of_getElem? hdirectory)

/-- Joined to the base, what is above a path as it is seen from there is what is above the path
itself. -/
theorem exists_shortened_of_asSeenFrom {part : Path} (hpath : base.SeenFrom path)
    (hpart : (path.asSeenFrom base).shortened steps = some part) :
    ∃ above, path.shortened steps = some above ∧
      (base.join part).components = above.components := by
  have hsame := components_join_asSeenFrom hpath
  -- Without a base, and outside it, the whole path is seen.
  by_cases hbase : base.text = []
  · rw [join_of_text_eq_empty hbase] at hsame ⊢
    exact exists_shortened_of_components_eq hsame hpart
  rw [asSeenFrom] at hsame hpart
  cases hrelative : path.relativeTo? base with
  | none =>
      rw [hrelative, Option.getD_none] at hpart
      have habsolute := hpath.isAbsolute hrelative
      have habsolute' := (isAbsolute_of_shortened hpart).trans habsolute
      rw [join_of_isAbsolute habsolute']
      exact ⟨part, hpart, rfl⟩
  | some relative =>
      rw [hrelative, Option.getD_some] at hsame hpart
      have hnot := (components_of_relativeTo? hbase hrelative).2
      have hhere := here_not_mem_of_relativeTo? hbase hrelative
      have hhere' : .here ∉ part.components := by
        rw [components_of_shortened hpart]
        exact fun hmem => hhere (List.mem_of_mem_take hmem)
      have hcomponents := components_join_of_here_not_mem hbase hnot hhere
      obtain ⟨above, habove, hsplit⟩ :=
        exists_shortened_of_append (hsame.symm.trans hcomponents) hpart
      refine ⟨above, habove, ?_⟩
      rw [components_join_of_here_not_mem hbase
        ((isAbsolute_of_shortened hpart).trans hnot) hhere', hsplit]

/-- What a path says comes last, from whatever base it is seen. -/
theorem exists_components_join (base path : Path) :
    ∃ before, (base.join path).components = before ++ path.said := by
  by_cases hwhole : path.isAbsolute = true ∨ base.text = []
  · exact ⟨path.parts.1.components, by rw [join, if_pos hwhole, components_eq_append_said]⟩
  · obtain ⟨habsolute, hbase⟩ := not_or.mp hwhole
    exact ⟨_, components_join_of_relative hbase (Bool.not_eq_true _ ▸ habsolute)⟩

/-- The name of a path that says something does not depend on the base. -/
theorem fileName?_join (hsaid : path.said ≠ []) : (base.join path).fileName? = path.fileName? := by
  obtain ⟨before, hbefore⟩ := base.exists_components_join path
  rw [fileName?, fileName?, hbefore, components_eq_append_said path,
    List.getLast?_append_of_ne_nil _ hsaid, List.getLast?_append_of_ne_nil _ hsaid]

end Path

namespace PluginLayout

variable {layout : PluginLayout} {file : Path}

/-- The directories in which the marker may be looked for, the nearest to the file first. -/
def candidates (layout : PluginLayout) (file : Path) : List Path :=
  match layout.stepsToRoot? file with
  | none => []
  | some steps => (file.properAncestors.take steps).map layout.base.join

/-- They are below the plugin root, so that they say something. -/
theorem said_ne_nil_of_mem_take {steps : Nat} {directory : Path}
    (hsteps : layout.stepsToRoot? file = some steps)
    (hdirectory : directory ∈ file.properAncestors.take steps) : directory.said ≠ [] := by
  rw [stepsToRoot?_eq, Option.map_eq_some_iff] at hsteps
  obtain ⟨root, hroot, rfl⟩ := hsteps
  have hbefore := root_lt layout hroot
  obtain ⟨step, hstep⟩ := List.mem_iff_getElem?.mp hdirectory
  rw [List.getElem?_take] at hstep
  split at hstep
  next hlt =>
    have hcomponents := Path.components_properAncestors
      (by omega : step + 1 < file.components.length)
    rw [hstep, Option.map_some, Option.some.injEq] at hcomponents
    have hlength := congrArg List.length hcomponents
    have hlead : directory.parts.1.components.length ≤ 1 := by
      cases directory.parts.1 <;> decide
    rw [Path.components_eq_append_said, List.length_append, List.length_take] at hlength
    intro hsaid
    rw [hsaid, List.length_nil] at hlength
    omega
  next => cases hstep

/-- The owner of a file is named by the first of these directories that holds the marker. -/
theorem owner_eq_find?_candidates (isFile : Path → Bool) :
    layout.owner isFile file =
      ((((layout.candidates file).find? fun directory =>
        isFile (directory.join (.ofString layout.marker))).bind Path.fileName?).map
          RawText.shown).getD builtin := by
  rw [owner, candidates]
  cases hsteps : layout.stepsToRoot? file with
  | none => rfl
  | some steps =>
      dsimp only
      have hplugin : ((fun directory => isFile (directory.join (.ofString layout.marker))) ∘
          layout.base.join) = layout.isPlugin isFile := rfl
      rw [List.find?_map, hplugin]
      cases hfind : (file.properAncestors.take steps).find? (layout.isPlugin isFile) with
      | none => rfl
      | some directory =>
          have hsaid := said_ne_nil_of_mem_take hsteps (List.mem_of_find?_eq_some hfind)
          rw [Option.map_some, Option.bind_some, Path.fileName?_join hsaid]

/-- Each of them is reached from the base by what is shown of so many steps up from the file. -/
theorem exists_properAncestor_of_candidates {i : Nat} {directory : Path}
    (hdirectory : (layout.candidates file.respelled)[i]? = some directory) :
    ∃ part, file.properAncestors[i]? = some part ∧
      directory = layout.base.join part.respelled := by
  rw [candidates] at hdirectory
  split at hdirectory
  next => simp at hdirectory
  next steps =>
    rw [Path.properAncestors_respelled, ← List.map_take, List.map_map, List.getElem?_map,
      Option.map_eq_some_iff] at hdirectory
    obtain ⟨part, hpart, rfl⟩ := hdirectory
    refine ⟨part, ?_, rfl⟩
    rw [List.getElem?_take] at hpart
    split at hpart
    next => exact hpart
    next => cases hpart

end PluginLayout

/-- A display path leads back to its file exactly if the file is displayed in UTF-8. Among those
that are, it identifies what comes from a base by a root and names of entries: what is displayed
alike is the same path, up to needless slashes and dots. Each directory in which the marker of a
plugin is looked for is the one above the path itself exactly if it is displayed in UTF-8, and the
first of them that holds the marker names the plugin. All collected files come from the base in
that way. -/
theorem SourceFile.display_path_identifies_file (base : Path) :
    (∀ path, base.Grows path →
      ((base.join (.ofString (ofPath base path).displayPath)).components = path.components ↔
        (path.asSeenFrom base).text.IsUtf8)) ∧
    (∀ path path', base.Grows path → base.Grows path' →
      (path.asSeenFrom base).text.IsUtf8 → (path'.asSeenFrom base).text.IsUtf8 →
        (ofPath base path).displayPath = (ofPath base path').displayPath →
          path.components = path'.components) ∧
    (∀ (layout : PluginLayout) (path : Path), layout.base = base → base.Grows path →
      let file := Path.ofString (ofPath base path).displayPath
      (∀ (i : Nat) (directory : Path), (layout.candidates file)[i]? = some directory →
        ∃ above part, path.properAncestors[i]? = some above ∧
          (path.asSeenFrom base).properAncestors[i]? = some part ∧
            (directory.components = above.components ↔ part.text.IsUtf8)) ∧
      ∀ isFile : Path → Bool, layout.owner isFile file =
        ((((layout.candidates file).find? fun directory =>
          isFile (directory.join (.ofString layout.marker))).bind Path.fileName?).map
            RawText.shown).getD PluginLayout.builtin) ∧
    ∀ (tree : FileTree) (roots extensions : List String),
      (∀ file ∈ (Collection.ofRoots tree base roots extensions).files,
        base.Grows file.path ∧ file = ofPath base file.path) ∧
      ∀ file ∈ (Collection.ofRoots tree base roots extensions).files,
        ∀ file' ∈ (Collection.ofRoots tree base roots extensions).files,
          (file.path.asSeenFrom base).text.IsUtf8 → (file'.path.asSeenFrom base).text.IsUtf8 →
            file.displayPath = file'.displayPath → file = file' := by
  refine ⟨?_, ?_, ?_, ?_⟩
  · intro path hpath
    rw [← Path.components_join_asSeenFrom hpath.seenFrom]
    exact Path.components_join_respelled_iff
  · intro path path' hpath hpath'
    exact components_eq_of_displayPath_eq hpath.seenFrom hpath'.seenFrom
  · rintro layout path rfl hpath
    refine ⟨fun i directory hdirectory => ?_, fun isFile => layout.owner_eq_find?_candidates isFile⟩
    obtain ⟨part, hpart, rfl⟩ := PluginLayout.exists_properAncestor_of_candidates hdirectory
    obtain ⟨above, habove, hsame⟩ := Path.exists_shortened_of_asSeenFrom hpath.seenFrom
      (Path.getElem?_properAncestors .. ▸ hpart)
    rw [← Path.getElem?_properAncestors] at habove
    refine ⟨above, part, habove, hpart, ?_⟩
    rw [← hsame]
    exact Path.components_join_respelled_iff
  · intro tree roots extensions
    refine ⟨fun file hfile => Collection.grows_of_mem_files hfile, ?_⟩
    intro file hfile file' hfile' hutf8 hutf8' hdisplay
    obtain ⟨hpath, heq⟩ := Collection.grows_of_mem_files hfile
    obtain ⟨hpath', heq'⟩ := Collection.grows_of_mem_files hfile'
    have hcomponents : file.path.components = file'.path.components := by
      rw [heq, heq'] at hdisplay
      exact components_eq_of_displayPath_eq hpath.seenFrom hpath'.seenFrom hutf8 hutf8' hdisplay
    exact eq_of_key_eq (Collection.pairwise_files_ofRoots tree base roots extensions) hfile hfile'
      (Prod.ext hdisplay hcomponents)

/-- A root with needless slashes and dots, below a base that is written with them. -/
theorem SourceFile.display_path_identifies_file_below_needless_slash :
    let base := Path.ofString "./w//"
    let path := ((base.join (.ofString "mods/.//")).join (.ofString "p")).join (.ofString "a.c")
    let layout : PluginLayout := { base, root := "mods", marker := "plugin.h" }
    let isFile : Path → Bool := fun place => place = .ofString "./w//mods/.//p/plugin.h"
    base.Grows path ∧ path.text = .ofString "./w//mods/.//p/a.c" ∧
      (ofPath base path).displayPath = "mods/.//p/a.c" ∧
      (base.join (.ofString "mods/.//p/a.c")).components = path.components ∧
      (layout.candidates (.ofString "mods/.//p/a.c"))[0]? = some (.ofString "./w//mods/.//p") ∧
      (∃ above, path.properAncestors[0]? = some above ∧
        Path.components (.ofString "./w//mods/.//p") = above.components) ∧
      layout.owner isFile (.ofString "mods/.//p/a.c") = "p" := by
  intro base path layout isFile
  have hpath : base.Grows path := ((Path.Grows.root _).entry _).entry _
  have hdisplay : (ofPath base path).displayPath = "mods/.//p/a.c" := by decide +kernel
  have hcandidate : (layout.candidates (.ofString "mods/.//p/a.c"))[0]? =
      some (.ofString "./w//mods/.//p") := by
    decide +kernel
  obtain ⟨hback, -, hplugin, -⟩ := display_path_identifies_file base
  obtain ⟨habove, howner⟩ := hplugin layout path rfl hpath
  have hjoin := (hback path hpath).mpr (by decide +kernel)
  rw [hdisplay] at hjoin habove howner
  obtain ⟨above, part, hget, hpart, hiff⟩ := habove 0 _ hcandidate
  have hutf8 : part.text.IsUtf8 := by
    have hknown : (path.asSeenFrom base).properAncestors[0]? = some (.ofString "mods/.//p") := by
      decide +kernel
    obtain rfl := Option.some.inj (hknown.symm.trans hpart)
    exact RawText.isUtf8_ofString _
  refine ⟨hpath, by decide +kernel, hdisplay, hjoin, hcandidate, ⟨above, hget, hiff.mpr hutf8⟩, ?_⟩
  rw [howner]
  decide +kernel

/-- Two entries whose names differ in a byte that is no character: both are collected, they are
displayed alike, and their display path leads to neither of them. -/
theorem SourceFile.display_path_of_two_names_without_text :
    let name (byte : UInt8) : RawText := RawText.ofString "a" ++ byte :: RawText.ofString ".c"
    let tree : FileTree :=
      { top := .directory [(.ofString "util", .directory
          [(name 0xFE, .file []), (name 0xFF, .file [])])] }
    let base := Path.ofString "."
    let file (byte : UInt8) : SourceFile :=
      { displayPath := "util/a\uFFFD.c", path := ⟨RawText.ofString "./util/" ++ name byte⟩ }
    (Collection.ofRoots tree base ["util"] [".c"]).files = [file 0xFE, file 0xFF] ∧
      (file 0xFE).path.components ≠ (file 0xFF).path.components ∧
      ∀ byte ∈ [0xFE, 0xFF], (base.join (.ofString (file byte).displayPath)).components ≠
        (file byte).path.components := by
  intro name tree base file
  have hfound : (["util"].map (Collection.ofRoot tree base [".c"])).flatMap Collection.files =
      [file 0xFE, file 0xFF] := by
    decide +kernel
  refine ⟨?_, by decide +kernel, by decide +kernel⟩
  rw [Collection.files_ofRoots_of_pairwise hfound (by decide +kernel)]
  decide +kernel

end EventAudit
