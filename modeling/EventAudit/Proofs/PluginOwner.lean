import EventAudit.Plugin
import EventAudit.Proofs.Path.Parent

/-! # The plugin that owns a file

The owner of a file is found by walking up its path as far as the plugin root. Read off from
the components of the path, it is named by the last one between the plugin root and the file
that leads to a marked directory. No other place is looked at. -/

namespace EventAudit

/-- Whether paths with the same components are not told apart. -/
def Path.SeenByComponents (isFile : Path → Bool) : Prop :=
  ∀ path path' : Path, path.components = path'.components → isFile path = isFile path'

namespace PluginLayout

variable (layout : PluginLayout) (isFile : Path → Bool)

/-- Whether the place that components lead to from the base holds a marker file. -/
def isMarked (components : List Path.Component) : Bool :=
  isFile ((layout.base.descend components).join (.ofString layout.marker))

/-- The places in a path, counted from its start, that are strictly between the plugin root and the
file. Of several directories with the name of the plugin root, the first one counts. -/
def placesBelowRoot (components : List Path.Component) : List Nat :=
  match components.dropLast.findIdx? (·.text = .ofString layout.root) with
  | none => []
  | some root => (List.range (components.length - 1)).filter (root < ·)

/-- The name that a component gives to a plugin: what it is shown as. -/
def pluginName : Option Path.Component → String
  | some (.name text) => text.shown
  | _ => builtin

/-- The owner of a file with the given components: the name at the last marked place. -/
def ownerByPlace (components : List Path.Component) : String :=
  let marked := (layout.placesBelowRoot components).filter fun place =>
    layout.isMarked isFile (components.take (place + 1))
  match marked.max? with
  | none => builtin
  | some place => pluginName components[place]?

/-- The path of the plugin root, put together from the first components of the path of a file. -/
def pluginRoot? (file : Path) : Option Path :=
  file.parent?.bind fun folder =>
    (folder.components.findIdx? (·.text = .ofString layout.root)).map fun root =>
      Path.descend ⟨[]⟩ (folder.components.take (root + 1))

/-- The owner of a file by a walk up its path that ends at the plugin root. -/
def ownerByWalk (file : Path) : String :=
  match layout.pluginRoot? file with
  | none => builtin
  | some root =>
      let passed := file.properAncestors.takeWhile fun directory =>
        directory.components ≠ root.components
      match passed.find? (layout.isPlugin isFile) with
      | none => builtin
      | some directory => (directory.fileName?.map RawText.shown).getD builtin

/-- The plugin root stands before the file. -/
theorem root_lt {components : List Path.Component} {root : Nat}
    (hroot : components.dropLast.findIdx? (·.text = .ofString layout.root) = some root) :
    root < components.length - 1 := by
  rw [← List.length_dropLast]
  exact (List.findIdx?_eq_some_iff_findIdx_eq.mp hroot).1

theorem stepsToRoot?_eq (file : Path) :
    layout.stepsToRoot? file =
      (file.components.dropLast.findIdx? (·.text = .ofString layout.root)).map fun root =>
        file.components.length - 2 - root := by
  have hparent := file.bind_parent?
    (fun folder => (folder.findIdx? (·.text = .ofString layout.root)).map fun root =>
      folder.length - (root + 1)) rfl
  have hsteps : ∀ root, file.components.dropLast.length - (root + 1) =
      file.components.length - 2 - root := by
    intro root
    rw [List.length_dropLast]
    omega
  simp only [hsteps] at hparent
  exact hparent

theorem pluginRoot?_eq (file : Path) :
    layout.pluginRoot? file =
      (file.components.dropLast.findIdx? (·.text = .ofString layout.root)).map fun root =>
        Path.descend ⟨[]⟩ (file.components.dropLast.take (root + 1)) :=
  file.bind_parent?
    (fun folder => (folder.findIdx? (·.text = .ofString layout.root)).map fun root =>
      Path.descend ⟨[]⟩ (folder.take (root + 1))) rfl

theorem fileName?_getD (directory : Path) :
    (directory.fileName?.map RawText.shown).getD builtin =
      pluginName directory.components.getLast? := by
  rw [Path.fileName?]
  cases directory.components.getLast? with
  | none => rfl
  | some component => cases component <;> rfl

variable {isFile}

/-- A directory is a plugin if its components lead to a marked place. -/
theorem isPlugin_eq_isMarked (hisFile : Path.SeenByComponents isFile) (directory : Path) :
    layout.isPlugin isFile directory = layout.isMarked isFile directory.components :=
  hisFile _ _ (Path.components_join_congr (layout.base.components_descend_components directory).symm
    (.ofString layout.marker))

/-- The walk up from a file passes ever shorter beginnings of its path, of which the first ends
before the file. -/
theorem map_components_take (file : Path) (steps : Nat)
    (hsteps : steps < file.components.length - 1) :
    (file.properAncestors.take steps).map Path.components =
      (List.range steps).map fun step =>
        file.components.take (file.components.length - 2 - step + 1) := by
  apply List.ext_getElem?
  intro step
  by_cases hstep : step < steps
  · have hcount : file.components.length - (step + 1) = file.components.length - 2 - step + 1 := by
      omega
    rw [List.getElem?_map, List.getElem?_take_of_lt hstep,
      Path.components_properAncestors (by omega), List.getElem?_map, List.getElem?_range hstep,
      Option.map_some, hcount]
  · rw [List.getElem?_eq_none (by simp; omega), List.getElem?_eq_none (by simp; omega)]

/-- Of the places between the plugin root and the file, the first hit of a walk up is the last
one. -/
theorem max?_filter_range (test : Nat → Bool) {length root : Nat} (hroot : root < length - 1) :
    (((List.range (length - 1)).filter (root < ·)).filter test).max? =
      ((List.range (length - 2 - root)).find? fun step => test (length - 2 - step)).map
        fun step => length - 2 - step := by
  cases hfind : (List.range (length - 2 - root)).find? fun step => test (length - 2 - step) with
  | none =>
      rw [List.find?_range_eq_none] at hfind
      rw [Option.map_none, List.max?_eq_none_iff, List.filter_eq_nil_iff]
      intro place hplace
      simp only [List.mem_filter, List.mem_range, decide_eq_true_eq] at hplace
      have hback : length - 2 - (length - 2 - place) = place := by omega
      have hnot := hfind (length - 2 - place) (by omega)
      rw [hback] at hnot
      simpa using hnot
  | some step =>
      obtain ⟨hhit, hstep, hearlier⟩ := List.find?_range_eq_some.mp hfind
      rw [List.mem_range] at hstep
      rw [Option.map_some, List.max?_eq_some_iff]
      constructor
      · simp only [List.mem_filter, List.mem_range, decide_eq_true_eq]
        exact ⟨⟨by omega, by omega⟩, hhit⟩
      · intro place hplace
        simp only [List.mem_filter, List.mem_range, decide_eq_true_eq] at hplace
        by_contra hlarger
        have hback : length - 2 - (length - 2 - place) = place := by omega
        have hnot := hearlier (length - 2 - place) (by omega)
        rw [hback, hplace.2] at hnot
        cases hnot

/-- The last component of a beginning is the one at its last place. -/
theorem getLast?_take_succ {components : List Path.Component} {place : Nat}
    (hplace : place < components.length) :
    (components.take (place + 1)).getLast? = components[place]? := by
  rw [List.getLast?_take, if_neg (by omega), Nat.add_sub_cancel, List.getElem?_eq_getElem hplace,
    Option.some_or]

/-- The walk up to the plugin root ends where the last marked place is. -/
theorem owner_eq_ownerByPlace (hisFile : Path.SeenByComponents isFile) (file : Path) :
    layout.owner isFile file = layout.ownerByPlace isFile file.components := by
  rw [owner, stepsToRoot?_eq, ownerByPlace, placesBelowRoot]
  cases hroot : file.components.dropLast.findIdx? (·.text = .ofString layout.root) with
  | none => rfl
  | some root =>
      have hlt := layout.root_lt hroot
      have hplugin : layout.isPlugin isFile = layout.isMarked isFile ∘ Path.components :=
        funext fun directory => layout.isPlugin_eq_isMarked hisFile directory
      have hwalk := congrArg (List.find? (layout.isMarked isFile))
        (map_components_take file (file.components.length - 2 - root) (by omega))
      rw [List.find?_map, List.find?_map, ← hplugin, Function.comp_def] at hwalk
      dsimp only [Option.map_some]
      rw [max?_filter_range _ hlt]
      cases hfind : (List.range (file.components.length - 2 - root)).find? fun step =>
          layout.isMarked isFile
            (file.components.take (file.components.length - 2 - step + 1)) with
      | none =>
          rw [hfind, Option.map_none, Option.map_eq_none_iff] at hwalk
          rw [hwalk]
          rfl
      | some step =>
          rw [hfind, Option.map_some, Option.map_eq_some_iff] at hwalk
          obtain ⟨directory, hdirectory, hcomponents⟩ := hwalk
          have hstep : step < file.components.length - 2 - root :=
            List.mem_range.mp (List.mem_of_find?_eq_some hfind)
          rw [hdirectory]
          dsimp only [Option.map_some]
          rw [fileName?_getD, hcomponents, getLast?_take_succ (by omega)]

/-- The walk up from a file passes as many directories as there are below the plugin root. -/
theorem takeWhile_ne_pluginRoot {file : Path} {place : Nat}
    (hplace : place < file.components.length - 1) :
    (file.properAncestors.takeWhile fun directory => directory.components ≠
        (Path.descend ⟨[]⟩ (file.components.dropLast.take (place + 1))).components) =
      file.properAncestors.take (file.components.length - 2 - place) := by
  obtain ⟨hbound, htop⟩ := Path.components_getElem_properAncestors
    (by omega : file.components.length - 2 - place + 1 < file.components.length)
  have hcount :
      file.components.length - (file.components.length - 2 - place + 1) = place + 1 := by
    omega
  rw [hcount] at htop
  -- The plugin root is the path above that has the components up to its place.
  have hroot : (Path.descend ⟨[]⟩ (file.components.dropLast.take (place + 1))).components =
      file.components.take (place + 1) := by
    rw [List.dropLast_eq_take, List.take_take, Nat.min_eq_left (by omega), ← htop,
      Path.components_descend_components, Path.join_of_text_eq_empty rfl]
  rw [hroot, List.takeWhile_eq_take_findIdx_not, (List.findIdx_eq hbound).mpr]
  constructor
  · simp [htop]
  · intro step hstep
    obtain ⟨_, hdirectory⟩ := Path.components_getElem_properAncestors
      (by omega : step + 1 < file.components.length)
    have hlonger : file.components.take (file.components.length - (step + 1)) ≠
        file.components.take (place + 1) := by
      intro heq
      have hlength := congrArg List.length heq
      rw [List.length_take, List.length_take] at hlength
      omega
    simp [hdirectory, hlonger]

/-- The walk up may as well compare each directory with the plugin root. -/
theorem owner_eq_ownerByWalk (isFile : Path → Bool) (file : Path) :
    layout.owner isFile file = layout.ownerByWalk isFile file := by
  rw [owner, stepsToRoot?_eq, ownerByWalk, pluginRoot?_eq]
  cases hroot : file.components.dropLast.findIdx? (·.text = .ofString layout.root) with
  | none => rfl
  | some root =>
      dsimp only [Option.map_some]
      rewrite [takeWhile_ne_pluginRoot (layout.root_lt hroot)]
      rfl

/-- The owner of a file, found by a walk up to the plugin root, is the name at the last marked place
strictly between the plugin root and the file, and no plugin if there is no such place or no name
at it. Whether other places are marked does not matter. -/
theorem owner_is_last_marked_place (layout : PluginLayout) (isFile : Path → Bool) (file : Path)
    (hisFile : Path.SeenByComponents isFile) :
    layout.owner isFile file = layout.ownerByWalk isFile file ∧
      layout.owner isFile file = layout.ownerByPlace isFile file.components ∧
      ∀ isFile' : Path → Bool, Path.SeenByComponents isFile' →
        (∀ place ∈ layout.placesBelowRoot file.components,
          layout.isMarked isFile' (file.components.take (place + 1)) =
            layout.isMarked isFile (file.components.take (place + 1))) →
        layout.owner isFile' file = layout.owner isFile file := by
  refine ⟨layout.owner_eq_ownerByWalk isFile file, layout.owner_eq_ownerByPlace hisFile file, ?_⟩
  intro isFile' hisFile' hagree
  rw [layout.owner_eq_ownerByPlace hisFile, layout.owner_eq_ownerByPlace hisFile', ownerByPlace,
    ownerByPlace, List.filter_congr hagree]

/-- Of several marked directories, the inner one with the name of the plugin root owns the file;
that the plugin root itself is marked does not matter. -/
theorem owner_is_inner_directory_named_as_root :
    let layout : PluginLayout := ⟨.ofString ".", "plugins", "CMakeLists.txt"⟩
    let file := Path.ofString "./plugins//core/./plugins/src/../x.c"
    let marked : List Path := [.ofString "./plugins/CMakeLists.txt",
      .ofString "./plugins/core/CMakeLists.txt", .ofString "./plugins/core/plugins/CMakeLists.txt"]
    let isFile : Path → Bool := fun path => path.components ∈ marked.map Path.components
    Path.SeenByComponents isFile ∧ layout.owner isFile file = "plugins" := by
  intro layout file marked isFile
  have hisFile : Path.SeenByComponents isFile := by
    intro path path' heq
    simp only [isFile, heq]
  have hplace : layout.ownerByPlace isFile file.components = "plugins" := by decide +kernel
  refine ⟨hisFile, ?_⟩
  rw [(owner_is_last_marked_place layout isFile file hisFile).2.1, hplace]

end PluginLayout
end EventAudit
