import EventAudit.Proofs.FileTree.Reach
import EventAudit.Proofs.Scan.FileOrder
import EventAudit.Proofs.Source.FirstCall
import EventAudit.Proofs.Text.ByteOrder
import Mathlib.Data.List.Sort

/-! # The files that a scan selects

The files of a scan are collected root by root, sorted, freed from repeats and thinned
out. What comes out has a description that mentions none of this: the display paths of
the regular files at or below a root whose name has one of the endings, less those that
an exclude hides. Each file is there once for its display path and components, in the order
of both, so that the description determines the list: neither the order of the roots and
excludes nor a repetition among them matters. -/

namespace EventAudit

namespace Exclude

/-- Whether an exclude hides what is displayed by a path: a text with wildcards has to match the
whole path as a pattern, any other text has to stand in it. -/
def Hides (exclude displayPath : String) : Prop :=
  if Pattern.isWild exclude.toList then
    ∃ pattern, Pattern.compile exclude.toList = .ok pattern ∧
      pattern.isMatch displayPath.toList = true
  else exclude.toList <:+: displayPath.toList

theorem hides_iff_covers {exclude displayPath : String} :
    Hides exclude displayPath ↔
      ∃ read, (ofText exclude).toOption = some read ∧ read.covers displayPath.toList = true := by
  rw [Hides, ofText]
  split
  next =>
    cases hcompile : Pattern.compile exclude.toList with
    | error error => simp [Except.map, Except.toOption]
    | ok pattern => simp [Except.map, Except.toOption, covers, Pattern.test_eq_isMatch]
  next => simp [Except.toOption, covers, Text.contains_iff_infix]

instance (exclude displayPath : String) : Decidable (Hides exclude displayPath) :=
  decidable_of_iff ((ofText exclude).toOption.any (·.covers displayPath.toList) = true)
    (by rw [Option.any_eq_true, hides_iff_covers])

theorem mem_thinOut_iff {excludes : List String} {files : List SourceFile} {file : SourceFile} :
    file ∈ thinOut excludes files ↔
      file ∈ files ∧ ∀ exclude ∈ excludes, ¬Hides exclude file.displayPath := by
  simp only [thinOut, List.mem_filter, Bool.not_eq_true', List.any_eq_false, List.mem_filterMap,
    hides_iff_covers]
  grind

theorem error?_eq_none_iff {exclude : String} :
    error? exclude = none ↔ ∃ read, ofText exclude = .ok read := by
  rw [error?]
  cases ofText exclude <;> simp

end Exclude

/-- A configuration is valid only if all its excludes can be read. -/
theorem Config.error?_eq_none_of_validate {config : Config} (hvalid : config.validate = .ok ())
    {exclude : String} (hexclude : exclude ∈ config.excludes) :
    Exclude.error? exclude = none := by
  have hnone : config.error? = none := by
    rw [validate] at hvalid
    cases herror : config.error? with
    | none => rfl
    | some error => simp [herror] at hvalid
  rw [error?] at hnone
  split at hnone
  next => cases hnone
  next =>
    split_ifs at hnone
    rw [List.findSome?_eq_none_iff] at hnone
    exact Option.map_eq_none_iff.mp (hnone exclude hexclude)

namespace SourceFile

theorem hasExtension_iff {extensions : List String} {path : Path} :
    hasExtension extensions path = true ↔ ∃ name, path.fileName? = some name ∧
      ∃ ending ∈ extensions, ending.toList <:+ name.shown.toList := by
  rw [hasExtension]
  cases path.fileName? <;> simp

end SourceFile

namespace Collection

/-- Whether a path is that of a file to be collected: it leads to a regular file at or below a
root that exists, and its name, as it is shown, has one of the endings. -/
def Finds (tree : FileTree) (base : Path) (roots extensions : List String) (path : Path) : Prop :=
  (∃ root ∈ roots, tree.doesExist (base.join (.ofString root)) = true ∧
      tree.Reaches (base.join (.ofString root)) path) ∧
    ∃ name, path.fileName? = some name ∧ ∃ ending ∈ extensions, ending.toList <:+ name.shown.toList

variable {tree : FileTree} {base : Path} {roots extensions : List String}

theorem mem_files_ofRoot_iff {root : String} {file : SourceFile} :
    file ∈ (ofRoot tree base extensions root).files ↔
      ∃ path, (tree.doesExist (base.join (.ofString root)) = true ∧
          tree.Reaches (base.join (.ofString root)) path) ∧
        SourceFile.hasExtension extensions path = true ∧ file = .ofPath base path := by
  rw [ofRoot]
  split
  next hexists =>
    simp only [List.mem_filterMap, hexists, true_and, ← FileTree.file_mem_walk_iff]
    constructor
    · rintro ⟨visit, hvisit, hfile⟩
      cases visit with
      | file path =>
          rw [file?] at hfile
          split at hfile
          next hextension => exact ⟨path, hvisit, hextension, (Option.some.inj hfile).symm⟩
          next => cases hfile
      | unreadable path cause => cases hfile
    · rintro ⟨path, hvisit, hextension, rfl⟩
      exact ⟨.file path, hvisit, if_pos hextension⟩
  next hmissing => simp [hmissing]

theorem mem_flatMap_files_iff {file : SourceFile} :
    file ∈ (roots.map (ofRoot tree base extensions)).flatMap files ↔
      ∃ path, Finds tree base roots extensions path ∧ file = .ofPath base path := by
  simp only [List.mem_flatMap, List.mem_map, Finds, ← SourceFile.hasExtension_iff]
  constructor
  · rintro ⟨_, ⟨root, hroot, rfl⟩, hfile⟩
    obtain ⟨path, hfound, hextension, heq⟩ := mem_files_ofRoot_iff.mp hfile
    exact ⟨path, ⟨⟨root, hroot, hfound⟩, hextension⟩, heq⟩
  · rintro ⟨path, ⟨⟨root, hroot, hfound⟩, hextension⟩, heq⟩
    exact ⟨_, ⟨root, hroot, rfl⟩, mem_files_ofRoot_iff.mpr ⟨path, hfound, hextension, heq⟩⟩

/-- Every collected file is one to be collected. -/
theorem exists_finds_of_mem {file : SourceFile}
    (hfile : file ∈ (ofRoots tree base roots extensions).files) :
    ∃ path, Finds tree base roots extensions path ∧ file = .ofPath base path :=
  mem_flatMap_files_iff.mp (SourceFile.mem_of_mem_arrange hfile)

/-- A way down goes on from the base by names of entries. -/
theorem grows_of_reaches {node : Node} {path found : Path} (hpath : base.Grows path)
    (hreaches : node.Reaches path found) : base.Grows found := by
  induction hreaches with
  | here hfile => exact hpath
  | down hlisted hchild hreaches ih => exact ih (hpath.entry ⟨_⟩)

theorem Finds.grows {path : Path} (hpath : Finds tree base roots extensions path) :
    base.Grows path := by
  obtain ⟨⟨root, -, -, node, -, hreaches⟩, -⟩ := hpath
  exact grows_of_reaches (.root (.ofString root)) hreaches

/-- What is collected comes from the base by joining a root and the names of entries. -/
theorem grows_of_mem_files {file : SourceFile}
    (hfile : file ∈ (ofRoots tree base roots extensions).files) :
    base.Grows file.path ∧ file = .ofPath base file.path := by
  obtain ⟨path, hpath, rfl⟩ := exists_finds_of_mem hfile
  exact ⟨hpath.grows, rfl⟩

/-- Every file to be collected is collected, perhaps by another path that looks the same. -/
theorem exists_isSame_of_finds {path : Path} (hpath : Finds tree base roots extensions path) :
    ∃ file ∈ (ofRoots tree base roots extensions).files,
      file.isSame (.ofPath base path) = true :=
  SourceFile.exists_isSame_of_mem (mem_flatMap_files_iff.mpr ⟨path, hpath, rfl⟩)

end Collection

/-- Whether two trees show the same to a walk: what exists, and what is visited from there. -/
def FileTree.LooksLike (tree tree' : FileTree) : Prop :=
  ∀ path, tree.doesExist path = tree'.doesExist path ∧ tree.walk path = tree'.walk path

/-- What is found depends on the members of the lists only. -/
theorem Collection.finds_iff_of_mem_iff {tree tree' : FileTree} {base path : Path}
    {roots roots' extensions extensions' : List String} (htree : tree.LooksLike tree')
    (hroots : ∀ root, root ∈ roots ↔ root ∈ roots')
    (hextensions : ∀ ending, ending ∈ extensions ↔ ending ∈ extensions') :
    Finds tree base roots extensions path ↔ Finds tree' base roots' extensions' path := by
  simp only [Finds, ← FileTree.file_mem_walk_iff, hroots, hextensions, (htree _).1, (htree _).2]

namespace Scan

/-- The files of a scan come from its base. -/
theorem grows_of_mem_files {tree : FileTree} {options : ScanOptions} {scan : Scan}
    (hscan : (prepare tree options).2 = .ok scan) {file : SourceFile}
    (hfile : file ∈ scan.files) :
    scan.base.Grows file.path ∧ file = .ofPath scan.base file.path := by
  obtain ⟨loaded, -, -, rfl⟩ := prepare_eq_ok_iff.mp hscan
  exact Collection.grows_of_mem_files (List.mem_of_mem_filter hfile)

/-- The display paths of the files of a scan. -/
def displayPaths (scan : Scan) : List String :=
  scan.files.map SourceFile.displayPath

/-- Whether a path is that of a file to be scanned: it is found below a root, and no exclude hides
what it is displayed by. -/
def Selects (tree : FileTree) (base : Path) (roots extensions excludes : List String)
    (path : Path) : Prop :=
  Collection.Finds tree base roots extensions path ∧
    ∀ exclude ∈ excludes, ¬Exclude.Hides exclude (SourceFile.ofPath base path).displayPath

section Select

variable {tree tree' : FileTree} {base : Path} {config config' : Config}

theorem pairwise_files_select (tree : FileTree) (base : Path) (config : Config) :
    (select tree base config).2.files.Pairwise fun a b => SourceFile.order a b = .lt :=
  (Collection.pairwise_files_ofRoots tree base _ _).filter _

/-- A configuration selects what is found below its roots, less what its excludes hide. -/
theorem mem_keys_select_iff {key : String × List Path.Component} :
    key ∈ (select tree base config).2.files.map SourceFile.key ↔ ∃ path,
      Selects tree base config.roots config.extensions config.excludes path ∧
        (SourceFile.ofPath base path).key = key := by
  simp only [select, List.mem_map, Exclude.mem_thinOut_iff]
  constructor
  · rintro ⟨file, ⟨hfile, hexcludes⟩, rfl⟩
    obtain ⟨path, hpath, rfl⟩ := Collection.exists_finds_of_mem hfile
    exact ⟨path, ⟨hpath, hexcludes⟩, rfl⟩
  · rintro ⟨path, ⟨hpath, hexcludes⟩, rfl⟩
    obtain ⟨file, hfile, hsame⟩ := Collection.exists_isSame_of_finds hpath
    have hdisplay := (SourceFile.isSame_iff.mp hsame).1
    exact ⟨file, ⟨hfile, hdisplay ▸ hexcludes⟩, SourceFile.isSame_iff_key_eq.mp hsame⟩

theorem displayPaths_eq_map_keys (scan : Scan) :
    scan.displayPaths = (scan.files.map SourceFile.key).map Prod.fst := by
  rw [displayPaths, List.map_map]
  rfl

theorem mem_displayPaths_select_iff {shown : String} :
    shown ∈ (select tree base config).2.displayPaths ↔ ∃ path,
      Selects tree base config.roots config.extensions config.excludes path ∧
        (SourceFile.ofPath base path).displayPath = shown := by
  rw [displayPaths_eq_map_keys, List.mem_map]
  constructor
  · rintro ⟨key, hkey, rfl⟩
    obtain ⟨path, hpath, rfl⟩ := mem_keys_select_iff.mp hkey
    exact ⟨path, hpath, rfl⟩
  · rintro ⟨path, hpath, rfl⟩
    exact ⟨_, mem_keys_select_iff.mpr ⟨path, hpath, rfl⟩, rfl⟩

theorem ascending_displayPaths_select (tree : FileTree) (base : Path) (config : Config) :
    (select tree base config).2.displayPaths.Pairwise
      fun a b => Text.Utf8.Precedes a b ∨ a = b := by
  rw [displayPaths, List.pairwise_map]
  refine (pairwise_files_select tree base config).imp fun hlt => ?_
  rw [Text.Utf8.precedes_iff_lt]
  exact lt_or_eq_of_le (SourceFile.displayPath_le_of_order_eq_lt hlt)

/-- The display paths ascend strictly unless different files are displayed alike. -/
theorem pairwise_displayPaths_select_iff :
    (select tree base config).2.displayPaths.Pairwise Text.Utf8.Precedes ↔ ∀ path path',
      Selects tree base config.roots config.extensions config.excludes path →
        Selects tree base config.roots config.extensions config.excludes path' →
          (SourceFile.ofPath base path).displayPath =
            (SourceFile.ofPath base path').displayPath →
          path.components = path'.components := by
  rw [displayPaths, List.pairwise_map]
  simp only [Text.Utf8.precedes_iff_lt]
  rw [SourceFile.pairwise_displayPath_iff (pairwise_files_select tree base config),
    SourceFile.recognizable_iff]
  simp only [mem_keys_select_iff]
  constructor
  · intro hsame path path' hpath hpath' hdisplay
    exact hsame _ ⟨path, hpath, rfl⟩ _ ⟨path', hpath', rfl⟩ hdisplay
  · rintro hsame _ ⟨path, hpath, rfl⟩ _ ⟨path', hpath', rfl⟩ hdisplay
    exact hsame path path' hpath hpath' hdisplay

/-- Neither the order of roots, endings and excludes nor a repetition among them matters. -/
theorem displayPaths_select_eq_of_mem_iff (htree : tree.LooksLike tree')
    (hroots : ∀ root, root ∈ config.roots ↔ root ∈ config'.roots)
    (hextensions : ∀ ending, ending ∈ config.extensions ↔ ending ∈ config'.extensions)
    (hexcludes : ∀ exclude, exclude ∈ config.excludes ↔ exclude ∈ config'.excludes) :
    (select tree base config).2.displayPaths = (select tree' base config').2.displayPaths := by
  rw [displayPaths_eq_map_keys, displayPaths_eq_map_keys]
  have hkeys : ∀ (tree : FileTree) (config : Config),
      ((select tree base config).2.files.map SourceFile.key).Pairwise SourceFile.KeyBefore :=
    fun tree config => List.pairwise_map.mpr
      ((pairwise_files_select tree base config).imp SourceFile.keyBefore_iff.mpr)
  rw [(hkeys tree config).eq_of_mem_iff (hkeys tree' config')]
  intro key
  simp only [mem_keys_select_iff, Selects, hexcludes,
    Collection.finds_iff_of_mem_iff htree hroots hextensions]

end Select

/-- The display paths of a scan are those of the regular files below its roots that have one of the
endings and that no exclude hides. They are in ascending order of their bytes, strictly exactly if
no two different files among these are displayed alike, as is so wherever all of them are displayed
in UTF-8. They do not depend on the order of roots and excludes or on a repetition among them. No
exclude of a scan is passed over because it is no pattern. -/
theorem displayPaths_are_those_selected (tree : FileTree) (options : ScanOptions) (scan : Scan)
    (hscan : (prepare tree options).2 = .ok scan) :
    ∃ loaded, Config.load tree options.base = .ok loaded ∧
      let roots := if options.roots = [] then loaded.config.roots else options.roots
      let excludes := loaded.config.excludes ++ options.excludes
      let IsSelected := Selects tree options.base roots loaded.config.extensions excludes
      (∀ shown, shown ∈ scan.displayPaths ↔
        ∃ path, IsSelected path ∧ (SourceFile.ofPath options.base path).displayPath = shown) ∧
      (scan.displayPaths.Pairwise fun a b => Text.Utf8.Precedes a b ∨ a = b) ∧
      (scan.displayPaths.Pairwise Text.Utf8.Precedes ↔
        ∀ path path', IsSelected path → IsSelected path' →
          (SourceFile.ofPath options.base path).displayPath =
            (SourceFile.ofPath options.base path').displayPath →
          path.components = path'.components) ∧
      ((∀ path, IsSelected path → (path.asSeenFrom options.base).text.IsUtf8) →
        scan.displayPaths.Pairwise Text.Utf8.Precedes) ∧
      (∀ exclude ∈ excludes, ∃ read, Exclude.ofText exclude = .ok read) ∧
      Exclude.notices excludes = [] ∧
      ∀ tree' options' scan', (prepare tree' options').2 = .ok scan' → tree.LooksLike tree' →
        options.base = options'.base →
        (∀ root, root ∈ scan.config.roots ↔ root ∈ scan'.config.roots) →
        (∀ ending, ending ∈ scan.config.extensions ↔ ending ∈ scan'.config.extensions) →
        (∀ exclude, exclude ∈ scan.config.excludes ↔ exclude ∈ scan'.config.excludes) →
          scan.displayPaths = scan'.displayPaths := by
  obtain ⟨loaded, hload, hvalid, rfl⟩ := prepare_eq_ok_iff.mp hscan
  have hroots : (loaded.config.adjust options).roots =
      if options.roots = [] then loaded.config.roots else options.roots := by
    simp [Config.adjust]
  have hread : ∀ exclude ∈ loaded.config.excludes ++ options.excludes,
      Exclude.error? exclude = none := fun exclude hexclude =>
    Config.error?_eq_none_of_validate hvalid hexclude
  refine ⟨loaded, hload, ?_⟩
  dsimp only
  rw [← hroots]
  refine ⟨fun _ => mem_displayPaths_select_iff, ascending_displayPaths_select _ _ _,
    pairwise_displayPaths_select_iff, ?_, ?_, ?_, ?_⟩
  · intro hutf8
    rw [pairwise_displayPaths_select_iff]
    intro path path' hpath hpath' hdisplay
    exact SourceFile.components_eq_of_displayPath_eq hpath.1.grows.seenFrom
      hpath'.1.grows.seenFrom (hutf8 path hpath) (hutf8 path' hpath') hdisplay
  · exact fun exclude hexclude => Exclude.error?_eq_none_iff.mp (hread exclude hexclude)
  · rw [Exclude.notices, List.filterMap_eq_nil_iff]
    intro exclude hexclude
    rw [hread exclude hexclude, Option.map_none]
  · intro tree' options' scan' hscan' htree hbase hroots hextensions hexcludes
    obtain ⟨loaded', -, -, rfl⟩ := prepare_eq_ok_iff.mp hscan'
    rw [hbase]
    exact displayPaths_select_eq_of_mem_iff htree hroots hextensions hexcludes

/-- Roots that overlap, one of them a file, and excludes of both kinds; given in another order,
and with repetitions, they select the same. -/
theorem displayPaths_of_overlapping_roots :
    let tree : FileTree :=
      { top := .directory [(.ofString "util", .directory
          [(.ofString "a.gen.h", .file []), (.ofString "b.h", .file []),
            (.ofString "skip", .directory [(.ofString "c.h", .file [])])])] }
    let options : ScanOptions :=
      { roots := ["util", "./util/b.h"], excludes := ["*.gen.h", "/skip/"] }
    let options' : ScanOptions :=
      { roots := ["./util/b.h", "util", "./util/b.h"]
        excludes := ["/skip/", "*.gen.h", "/skip/"] }
    ∃ scan scan', (prepare tree options).2 = .ok scan ∧ (prepare tree options').2 = .ok scan' ∧
      "util/b.h" ∈ scan.displayPaths ∧ "util/a.gen.h" ∉ scan.displayPaths ∧
      "util/skip/c.h" ∉ scan.displayPaths ∧ scan.displayPaths = scan'.displayPaths := by
  intro tree options options'
  have hload : Config.load tree (.ofString ".") = .ok { config := {}, fromFile := false } := by
    decide +kernel
  have hscan : (prepare tree options).2 =
      .ok (select tree options.base (Config.adjust {} options)).2 :=
    prepare_eq_ok_iff.mpr ⟨_, hload, by decide +kernel, rfl⟩
  have hscan' : (prepare tree options').2 =
      .ok (select tree options'.base (Config.adjust {} options')).2 :=
    prepare_eq_ok_iff.mpr ⟨_, hload, by decide +kernel, rfl⟩
  obtain ⟨loaded, hloaded, hmem, -, -, -, -, -, hsame⟩ :=
    displayPaths_are_those_selected tree options _ hscan
  obtain rfl := Except.ok.inj (hloaded.symm.trans hload)
  have hhidden : ∀ exclude shown, exclude ∈ (Config.adjust {} options).excludes →
      Exclude.Hides exclude shown →
        shown ∉ (select tree options.base (Config.adjust {} options)).2.displayPaths := by
    intro exclude shown hexclude hhides hshown
    obtain ⟨path, ⟨-, hpath⟩, rfl⟩ := (hmem _).mp hshown
    exact hpath exclude hexclude hhides
  refine ⟨_, _, hscan, hscan', ?_, ?_, ?_, ?_⟩
  · refine (hmem _).mpr ⟨.ofString "./util/b.h", ⟨⟨⟨"util", by decide, by decide +kernel, ?_⟩,
      .ofString "b.h", by decide +kernel, ".h", by decide, by decide +kernel⟩, by decide +kernel⟩,
      by decide +kernel⟩
    exact FileTree.file_mem_walk_iff.mp (by decide +kernel)
  · exact hhidden "*.gen.h" _ (by decide) (by decide +kernel)
  · exact hhidden "/skip/" _ (by decide) (by decide +kernel)
  · apply hsame tree options' _ hscan' (fun _ => ⟨rfl, rfl⟩) rfl <;> grind [select, Config.adjust]

/-- Two names that differ in a byte that is no character are displayed alike, so that a display
path is there twice. -/
theorem displayPaths_repeat_below_names_without_text :
    let name (byte : UInt8) : RawText := RawText.ofString "a" ++ byte :: RawText.ofString ".c"
    let tree : FileTree :=
      { top := .directory [(.ofString "util", .directory
          [(name 0xFE, .file []), (name 0xFF, .file [])])] }
    let options : ScanOptions := { roots := ["util"] }
    ∃ scan, (prepare tree options).2 = .ok scan ∧
      scan.displayPaths = ["util/a\uFFFD.c", "util/a\uFFFD.c"] ∧
      ¬scan.displayPaths.Pairwise Text.Utf8.Precedes := by
  intro name tree options
  let found : List SourceFile :=
    [0xFE, 0xFF].map fun byte => .ofPath (.ofString ".") ⟨RawText.ofString "./util/" ++ name byte⟩
  let config : Config := Config.adjust {} options
  have hload : Config.load tree options.base = .ok { config := {}, fromFile := false } := by
    decide +kernel
  have hfound : (config.roots.map (Collection.ofRoot tree options.base
      config.extensions)).flatMap Collection.files = found := by
    decide +kernel
  have hprepare := prepare_eq_ok_of_pairwise hload (by decide +kernel) hfound (by decide +kernel)
  obtain ⟨scan, hscan, hpaths⟩ : ∃ scan, (prepare tree options).2 = .ok scan ∧
      scan.displayPaths = ["util/a\uFFFD.c", "util/a\uFFFD.c"] :=
    ⟨_, hprepare, by decide +kernel⟩
  refine ⟨scan, hscan, hpaths, fun hascending => ?_⟩
  rw [hpaths] at hascending
  have hprecedes := (List.pairwise_cons.mp hascending).1 _ List.mem_cons_self
  exact lt_irrefl _ (Text.Utf8.precedes_iff_lt.mp hprecedes)

end Scan
end EventAudit
