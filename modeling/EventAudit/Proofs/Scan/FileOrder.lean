import EventAudit.Proofs.Path.Shown
import EventAudit.Proofs.Sorting
import EventAudit.Scan.Basic
import Mathlib.Data.List.Nodup
import Mathlib.Data.String.Basic

/-! # The order of the files of a scan

Roots may overlap or repeat, so a file can be found more than once and by different
paths. Sorted files are in ascending order of display path and components; files that
agree in both are next to each other, and only the first of them is kept. So the display
paths of a scan ascend, and none of them is there twice unless different files are
displayed alike, which takes names that are not UTF-8. -/

namespace EventAudit

namespace Path

/-- As it is seen from a base, a path leads there from it. -/
theorem components_join_asSeenFrom {base path : Path} (hpath : base.SeenFrom path) :
    (base.join (path.asSeenFrom base)).components = path.components := by
  rw [asSeenFrom]
  cases hrelative : path.relativeTo? base with
  | some relative => exact components_join_of_relativeTo? hrelative
  | none => rw [Option.getD_none, join_of_isAbsolute (hpath.isAbsolute hrelative)]

namespace Component

instance : Std.TransOrd Component :=
  inferInstanceAs (Std.TransCmp (compareLex (compareOn rank) (compareOn text)))

instance : Std.LawfulEqOrd Component where
  eq_of_compare {a b} hcompare := by
    obtain ⟨hrank, htext⟩ := Ordering.then_eq_eq.mp hcompare
    have hrank := Std.LawfulEqOrd.eq_of_compare hrank
    have htext := Std.LawfulEqOrd.eq_of_compare htext
    cases a <;> cases b <;> simp_all [rank, text]

end Component

end Path

namespace SourceFile

/-- What files are ordered by. -/
def key (file : SourceFile) : String × List Path.Component :=
  (file.displayPath, file.path.components)

/-- Whether a key comes before another one. -/
def KeyBefore (a b : String × List Path.Component) : Prop :=
  compareLex (compareOn Prod.fst) (compareOn Prod.snd) a b = .lt

instance : Std.TransCmp order :=
  inferInstanceAs (Std.TransCmp (compareLex (compareOn displayPath)
    (compareOn fun file => file.path.components)))

theorem keyBefore_iff {a b : SourceFile} : KeyBefore a.key b.key ↔ order a b = .lt :=
  Iff.rfl

instance : Std.Asymm KeyBefore where
  asymm _ _ := Std.OrientedCmp.not_lt_of_lt

theorem order_eq_iff {a b : SourceFile} : order a b = .eq ↔ a.key = b.key := by
  rw [key, key, Prod.mk.injEq]
  exact Ordering.then_eq_eq.trans (and_congr Std.compare_eq_iff_eq Std.compare_eq_iff_eq)

theorem key_ne_of_order_eq_lt {a b : SourceFile} (hlt : order a b = .lt) : a.key ≠ b.key := by
  intro hkey
  rw [order_eq_iff.mpr hkey] at hlt
  cases hlt

theorem isSame_iff {a b : SourceFile} :
    a.isSame b = true ↔ a.displayPath = b.displayPath ∧ a.path.components = b.path.components := by
  rw [isSame, Bool.and_eq_true, beq_iff_eq, beq_iff_eq]

theorem isSame_iff_key_eq {a b : SourceFile} : a.isSame b = true ↔ a.key = b.key := by
  rw [isSame_iff, key, key, Prod.mk.injEq]

theorem displayPath_le_of_order_eq_lt {a b : SourceFile} (hlt : order a b = .lt) :
    a.displayPath ≤ b.displayPath := by
  have hcompare : (compare a.displayPath b.displayPath).isLE = true :=
    Ordering.isLE_left_of_isLE_then (Ordering.isLE_of_eq_lt hlt)
  exact compare_le_iff_le.mp (Ordering.isLE_iff_ne_gt.mp hcompare)

/-- Of sorted files, one is kept for each key. -/
theorem pairwise_cons_dropRepeatsAfter {kept : SourceFile} {files : List SourceFile}
    (hsorted : (kept :: files).Pairwise fun a b => (order a b).isLE = true) :
    (kept :: dropRepeatsAfter kept files).Pairwise fun a b => order a b = .lt := by
  induction files generalizing kept with
  | nil => exact List.pairwise_singleton _ _
  | cons file rest ih =>
      obtain ⟨hkept, hrest⟩ := List.pairwise_cons.mp hsorted
      rw [dropRepeatsAfter]
      split
      next => exact ih (hsorted.sublist ((List.sublist_cons_self file rest).cons_cons kept))
      next hdiffer =>
        have hne : order kept file ≠ .eq := by
          rwa [ne_eq, order_eq_iff, ← isSame_iff_key_eq]
        have hlt : order kept file = .lt :=
          (Ordering.isLE_iff_eq_lt_or_eq_eq.mp (hkept file List.mem_cons_self)).resolve_right hne
        have hlater := ih hrest
        refine List.pairwise_cons.mpr ⟨?_, hlater⟩
        intro later hmem
        rcases List.mem_cons.mp hmem with rfl | hmem
        · exact hlt
        · exact Std.TransCmp.lt_trans hlt ((List.pairwise_cons.mp hlater).1 later hmem)

theorem pairwise_arrange (files : List SourceFile) :
    (arrange files).Pairwise fun a b => order a b = .lt := by
  have hsorted := Sorting.pairwise_mergeSort_isLE order files
  rw [arrange]
  cases hfiles : files.mergeSort fun a b => (order a b).isLE with
  | nil => exact List.Pairwise.nil
  | cons file rest =>
      rw [hfiles] at hsorted
      exact pairwise_cons_dropRepeatsAfter hsorted

/-- Whether files that are displayed alike have paths with the same components. -/
def Recognizable (files : List SourceFile) : Prop :=
  ∀ a ∈ files, ∀ b ∈ files, a.displayPath = b.displayPath →
    a.path.components = b.path.components

theorem recognizable_iff {files : List SourceFile} :
    Recognizable files ↔ ∀ a ∈ files.map key, ∀ b ∈ files.map key, a.1 = b.1 → a.2 = b.2 := by
  simp only [List.forall_mem_map]
  rfl

/-- The display paths of files in their order ascend strictly exactly if the files can be
recognized. -/
theorem pairwise_displayPath_iff {files : List SourceFile}
    (hfiles : files.Pairwise fun a b => order a b = .lt) :
    (files.Pairwise fun a b => a.displayPath < b.displayPath) ↔ Recognizable files := by
  constructor
  · intro hlt a ha b hb hdisplay
    have hnodup : (files.map displayPath).Nodup := List.pairwise_map.mpr (hlt.imp ne_of_lt)
    rw [List.inj_on_of_nodup_map hnodup ha hb hdisplay]
  · intro hsame
    refine hfiles.imp_of_mem fun {a b} ha hb hlt => ?_
    refine lt_of_le_of_ne (displayPath_le_of_order_eq_lt hlt) fun hdisplay => ?_
    exact key_ne_of_order_eq_lt hlt (Prod.ext hdisplay (hsame a ha b hb hdisplay))

theorem eq_of_key_eq {files : List SourceFile} (hfiles : files.Pairwise fun a b => order a b = .lt)
    {a b : SourceFile} (ha : a ∈ files) (hb : b ∈ files) (hkey : a.key = b.key) : a = b := by
  have hnodup : (files.map key).Nodup :=
    List.pairwise_map.mpr (hfiles.imp key_ne_of_order_eq_lt)
  exact List.inj_on_of_nodup_map hnodup ha hb hkey

/-- Paths that are displayed in UTF-8 and alike have the same components. -/
theorem components_eq_of_displayPath_eq {base path path' : Path} (hpath : base.SeenFrom path)
    (hpath' : base.SeenFrom path') (hutf8 : (path.asSeenFrom base).text.IsUtf8)
    (hutf8' : (path'.asSeenFrom base).text.IsUtf8)
    (hdisplay : (ofPath base path).displayPath = (ofPath base path').displayPath) :
    path.components = path'.components := by
  rw [← Path.components_join_asSeenFrom hpath, ← Path.components_join_asSeenFrom hpath',
    Path.eq_of_shown_eq hutf8 hutf8' hdisplay]

section Arrange

variable {files : List SourceFile} {file kept : SourceFile}

theorem mem_of_mem_dropRepeatsAfter (hfile : file ∈ dropRepeatsAfter kept files) :
    file ∈ files := by
  fun_induction dropRepeatsAfter kept files with
  | case1 => cases hfile
  | case2 kept first rest hsame ih => exact List.mem_cons_of_mem _ (ih hfile)
  | case3 kept first rest hsame ih =>
      rcases List.mem_cons.mp hfile with rfl | hfile
      · exact List.mem_cons_self
      · exact List.mem_cons_of_mem _ (ih hfile)

/-- A file is dropped only if one like it is kept. -/
theorem exists_isSame_of_mem_after (hfile : file ∈ files) :
    ∃ other ∈ kept :: dropRepeatsAfter kept files, other.isSame file = true := by
  fun_induction dropRepeatsAfter kept files with
  | case1 => cases hfile
  | case2 kept first rest hsame ih =>
      rcases List.mem_cons.mp hfile with rfl | hfile
      · exact ⟨kept, List.mem_cons_self, hsame⟩
      · exact ih hfile
  | case3 kept first rest hsame ih =>
      rcases List.mem_cons.mp hfile with rfl | hfile
      · exact ⟨file, List.mem_cons_of_mem _ List.mem_cons_self, isSame_iff.mpr ⟨rfl, rfl⟩⟩
      · obtain ⟨other, hother, heq⟩ := ih hfile
        exact ⟨other, List.mem_cons_of_mem _ hother, heq⟩

theorem mem_of_mem_dropRepeats (hfile : file ∈ dropRepeats files) : file ∈ files := by
  cases files with
  | nil => cases hfile
  | cons first rest =>
      rcases List.mem_cons.mp hfile with rfl | hfile
      · exact List.mem_cons_self
      · exact List.mem_cons_of_mem _ (mem_of_mem_dropRepeatsAfter hfile)

theorem exists_isSame_of_mem_dropRepeats (hfile : file ∈ files) :
    ∃ other ∈ dropRepeats files, other.isSame file = true := by
  cases files with
  | nil => cases hfile
  | cons first rest =>
      rcases List.mem_cons.mp hfile with rfl | hfile
      · exact ⟨file, List.mem_cons_self, isSame_iff.mpr ⟨rfl, rfl⟩⟩
      · exact exists_isSame_of_mem_after hfile

theorem mem_of_mem_arrange (hfile : file ∈ arrange files) : file ∈ files :=
  List.mem_mergeSort.mp (mem_of_mem_dropRepeats hfile)

theorem exists_isSame_of_mem (hfile : file ∈ files) :
    ∃ other ∈ arrange files, other.isSame file = true :=
  exists_isSame_of_mem_dropRepeats (List.mem_mergeSort.mpr hfile)

end Arrange

end SourceFile

namespace Collection

/-- Files that are found in their order are only freed from repeats. -/
theorem files_ofRoots_of_pairwise {tree : FileTree} {base : Path} {roots extensions : List String}
    {found : List SourceFile}
    (hfound : (roots.map (ofRoot tree base extensions)).flatMap files = found)
    (hsorted : found.Pairwise fun a b => (SourceFile.order a b).isLE = true) :
    (ofRoots tree base roots extensions).files = SourceFile.dropRepeats found := by
  rw [ofRoots]
  dsimp only
  rw [hfound, SourceFile.arrange, List.mergeSort_of_pairwise hsorted]

/-- The files below all roots are in ascending order, each of them once. -/
theorem pairwise_files_ofRoots (tree : FileTree) (base : Path) (roots extensions : List String) :
    (ofRoots tree base roots extensions).files.Pairwise
      fun a b => SourceFile.order a b = .lt :=
  SourceFile.pairwise_arrange _

end Collection

namespace Scan

variable {tree : FileTree} {options : ScanOptions} {scan : Scan}

/-- A scan is prepared by the configuration that is loaded and valid with the given options. -/
theorem prepare_eq_ok_iff :
    (prepare tree options).2 = .ok scan ↔ ∃ loaded,
      Config.load tree options.base = .ok loaded ∧
        (loaded.config.adjust options).validate = .ok () ∧
          (select tree options.base (loaded.config.adjust options)).2 = scan := by
  rw [prepare]
  cases Config.load tree options.base with
  | error failure => simp
  | ok loaded =>
      dsimp only
      split
      next hinvalid => simp [hinvalid]
      next hvalid => simp [hvalid]

/-- The files of a scan are in ascending order, each of them once. -/
theorem pairwise_files (hscan : (prepare tree options).2 = .ok scan) :
    scan.files.Pairwise fun a b => SourceFile.order a b = .lt := by
  obtain ⟨loaded, -, -, rfl⟩ := prepare_eq_ok_iff.mp hscan
  exact (Collection.pairwise_files_ofRoots tree _ _ _).filter _

/-- What is prepared when the files are found in their order. -/
theorem prepare_eq_ok_of_pairwise {loaded : Config.Loaded} {found : List SourceFile}
    (hload : Config.load tree options.base = .ok loaded)
    (hvalid : (loaded.config.adjust options).validate = .ok ())
    (hfound : ((loaded.config.adjust options).roots.map (Collection.ofRoot tree options.base
      (loaded.config.adjust options).extensions)).flatMap Collection.files = found)
    (hsorted : found.Pairwise fun a b => (SourceFile.order a b).isLE = true) :
    (prepare tree options).2 =
      .ok { (select tree options.base (loaded.config.adjust options)).2 with
        files := Exclude.thinOut (loaded.config.adjust options).excludes
          (SourceFile.dropRepeats found) } := by
  rw [prepare_eq_ok_iff]
  refine ⟨loaded, hload, hvalid, ?_⟩
  rw [select, Collection.files_ofRoots_of_pairwise hfound hsorted]

end Scan
end EventAudit
