import EventAudit.Proofs.FileTree.Lookup
import EventAudit.Proofs.Path.Plain
import EventAudit.Proofs.Scan.Selection

/-! # Files that are found by differently written paths

A file may be found by several paths with the same components. It is collected once if they
are displayed alike. A display path keeps what is written after the base, so this depends
on how the roots are written: with plain roots no file is collected twice, but a needless
slash or `.` inside a root makes its files look like others. -/

namespace EventAudit

namespace Node

/-- A walk from a path that goes on plainly after a base finds such paths only. -/
theorem Reaches.plainFrom {node : Node} {base path found : Path}
    (hreaches : node.Reaches path found) (hnode : node.WellFormed) (hpath : base.PlainFrom path)
    (hslash : node.isFile = true → path.pieces.getLast? ≠ some []) :
    base.PlainFrom found ∧ found.pieces.getLast? ≠ some [] := by
  induction hreaches with
  | here hfile => exact ⟨hpath, hslash hfile⟩
  | @down children path found child hlisted hchild hreaches ih =>
      cases hnode with
      | directory hnames hordered hchildren =>
          obtain ⟨⟨hempty, hhere, -⟩, hnone⟩ := hnames child hchild
          have hsaid := Path.isSilent_eq_false_iff.mpr ⟨hempty, hhere⟩
          refine ih (hchildren child hchild) (hpath.join hsaid hnone) fun _ => ?_
          rw [Path.pieces_join hpath.1 (Path.isAbsolute_of_slash_not_mem hnone),
            Path.pieces_of_slash_not_mem hnone, List.getLast?_concat]
          simpa using hempty

end Node

/-- In a well-formed tree, what is found below a plain root goes on plainly after the base. -/
theorem FileTree.Reaches.plainFrom {tree : FileTree} {base root found : Path}
    (htree : tree.top.WellFormed) (hroot : root.IsPlain)
    (hreaches : tree.Reaches (base.join root) found) :
    base.PlainFrom found ∧ found.pieces.getLast? ≠ some [] := by
  obtain ⟨node, ⟨htarget, -⟩, hreaches⟩ := hreaches
  have hnode := wellFormed_of_resolveNode htree htarget
  obtain ⟨reached, hresolve, rfl⟩ := resolveNode_eq_ok_iff.mp htarget
  obtain ⟨-, hne, -, -⟩ := resolve_eq_ok_iff.mp hresolve
  refine hreaches.plainFrom hnode (hroot.plainFrom_join hne) ?_
  intro hfile hslash
  have hdirectory := isDirectory_of_resolve hresolve hslash
  cases hon : tree.nodeOn reached <;> simp_all [Node.isFile, Node.isDirectory]

namespace Collection

variable {tree : FileTree} {base : Path} {roots extensions : List String}

/-- Whether the paths of the collected files are all different. -/
def IsDistinct (collection : Collection) : Prop :=
  collection.files.Pairwise fun a b => a.path.components ≠ b.path.components

instance (collection : Collection) : Decidable collection.IsDistinct :=
  inferInstanceAs (Decidable (List.Pairwise _ _))

/-- Each file is collected once exactly if all the paths by which it is found are displayed
alike. -/
theorem isDistinct_ofRoots_iff :
    (ofRoots tree base roots extensions).IsDistinct ↔
      ∀ path path', Finds tree base roots extensions path →
        Finds tree base roots extensions path' → path.components = path'.components →
          (SourceFile.ofPath base path).displayPath =
            (SourceFile.ofPath base path').displayPath := by
  constructor
  · intro hdistinct path path' hpath hpath' hsame
    obtain ⟨file, hfile, hlike⟩ := exists_isSame_of_finds hpath
    obtain ⟨file', hfile', hlike'⟩ := exists_isSame_of_finds hpath'
    obtain ⟨hdisplay, hcomponents⟩ := SourceFile.isSame_iff.mp hlike
    obtain ⟨hdisplay', hcomponents'⟩ := SourceFile.isSame_iff.mp hlike'
    by_contra hdiffer
    have hne : file ≠ file' := by
      rintro rfl
      exact hdiffer (hdisplay.symm.trans hdisplay')
    have : Std.Symm fun a b : SourceFile => a.path.components ≠ b.path.components :=
      ⟨fun _ _ => Ne.symm⟩
    exact hdistinct.forall hfile hfile' hne (hcomponents.trans (hsame.trans hcomponents'.symm))
  · intro halike
    refine (pairwise_files_ofRoots tree base roots extensions).imp_of_mem ?_
    intro file file' hfile hfile' hlt hsame
    obtain ⟨path, hpath, rfl⟩ := exists_finds_of_mem hfile
    obtain ⟨path', hpath', rfl⟩ := exists_finds_of_mem hfile'
    exact SourceFile.key_ne_of_order_eq_lt hlt
      (Prod.ext (halike path path' hpath hpath' hsame) hsame)

/-- If all roots are written plainly, no file is collected twice. -/
theorem isDistinct_of_isPlain (htree : tree.top.WellFormed)
    (hroots : ∀ root ∈ roots, (Path.ofString root).IsPlain) :
    (ofRoots tree base roots extensions).IsDistinct := by
  rw [isDistinct_ofRoots_iff]
  rintro path path' ⟨⟨root, hroot, -, hpath⟩, -⟩ ⟨⟨root', hroot', -, hpath'⟩, -⟩ hsame
  obtain ⟨hplain, hslash⟩ := hpath.plainFrom htree (hroots root hroot)
  obtain ⟨hplain', hslash'⟩ := hpath'.plainFrom htree (hroots root' hroot')
  exact congrArg Path.shown (hplain.eq_of_components_eq hplain' hslash hslash' hsame)

/-- Each file is collected once exactly if all the paths by which it is found are displayed alike,
and this is so in every tree whose roots are written plainly. -/
theorem each_file_once_iff_displayed_alike (tree : FileTree) (base : Path)
    (roots extensions : List String) :
    ((ofRoots tree base roots extensions).IsDistinct ↔
      ∀ path path', Finds tree base roots extensions path →
        Finds tree base roots extensions path' → path.components = path'.components →
          (SourceFile.ofPath base path).displayPath =
            (SourceFile.ofPath base path').displayPath) ∧
    (tree.top.WellFormed → (∀ root ∈ roots, (Path.ofString root).IsPlain) →
      (ofRoots tree base roots extensions).IsDistinct) :=
  ⟨isDistinct_ofRoots_iff, isDistinct_of_isPlain⟩

/-- Roots that repeat and nest, seen from a base that is not written plainly itself. -/
theorem each_file_once_below_plain_roots :
    let tree : FileTree :=
      { top := .directory [(.ofString "util", .directory [(.ofString "a.c", .file [])])] }
    let roots := ["util", "util/", "./util", "", "util/a.c"]
    tree.top.WellFormed ∧ (∀ root ∈ roots, (Path.ofString root).IsPlain) ∧
      (ofRoots tree (.ofString ".//./") roots [".c"]).IsDistinct := by
  intro tree roots
  have hutil : (Node.directory [(.ofString "a.c", .file [])]).WellFormed :=
    .directory (by decide) (by simp) (by simpa using .file [])
  have htree : tree.top.WellFormed :=
    .directory (by decide) (by simp) (by simpa using hutil)
  have hroots : ∀ root ∈ roots, (Path.ofString root).IsPlain := by decide +kernel
  exact ⟨htree, hroots, (each_file_once_iff_displayed_alike _ _ _ _).2 htree hroots⟩

/-- Below a root with a second slash a file is collected again, by a path with the same
components. -/
theorem file_twice_below_repeated_slash :
    let tree : FileTree :=
      { top := .directory [(.ofString "util", .directory [(.ofString "a.c", .file [])])] }
    (ofRoots tree (.ofString ".") ["util//", "util"] [".c"]).files =
        [.mk "util//a.c" (.ofString "./util//a.c"), .mk "util/a.c" (.ofString "./util/a.c")] ∧
      Path.components (.ofString "./util//a.c") = Path.components (.ofString "./util/a.c") ∧
      ¬(ofRoots tree (.ofString ".") ["util//", "util"] [".c"]).IsDistinct := by
  intro tree
  let found : List SourceFile :=
    [.mk "util//a.c" (.ofString "./util//a.c"), .mk "util/a.c" (.ofString "./util/a.c")]
  have hfound :
      (["util//", "util"].map (ofRoot tree (.ofString ".") [".c"])).flatMap files = found := by
    decide +kernel
  have hfiles : (ofRoots tree (.ofString ".") ["util//", "util"] [".c"]).files = found := by
    rw [files_ofRoots_of_pairwise hfound (by decide +kernel)]
    decide +kernel
  have hsame :
      Path.components (.ofString "./util//a.c") = Path.components (.ofString "./util/a.c") := by
    decide +kernel
  refine ⟨hfiles, hsame, ?_⟩
  rw [IsDistinct, hfiles]
  simp [found, hsame]

end Collection
end EventAudit
