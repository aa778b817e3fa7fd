import EventAudit.FileTree.Walk
import Mathlib.Data.List.Basic

/-! # What a walk reaches

A walk reports a regular file exactly when there is a way down to it: from the node at
the start through directories that can be listed, never through a link. The start itself
may be a link to a directory. -/

namespace EventAudit

/-- Whether there is a way down from a node, to which a path leads, to a regular file. -/
inductive Node.Reaches : Node → Path → Path → Prop where
  | here {node : Node} {path : Path} (hfile : node.isFile = true) : node.Reaches path path
  | down {children : List (RawText × Node)} {path found : Path} {child : RawText × Node}
      (hlisted : FileTree.isTooLong path = false) (hchild : child ∈ children)
      (hreaches : child.2.Reaches (path.join ⟨child.1⟩) found) :
      (directory children).Reaches path found

namespace Node

theorem reaches_directory_iff {children : List (RawText × Node)} {path found : Path} :
    (directory children).Reaches path found ↔ FileTree.isTooLong path = false ∧
      ∃ child ∈ children, child.2.Reaches (path.join ⟨child.1⟩) found := by
  constructor
  · intro hreaches
    cases hreaches with
    | here hfile => cases hfile
    | down hlisted hchild hreaches => exact ⟨hlisted, _, hchild, hreaches⟩
  · rintro ⟨hlisted, child, hchild, hreaches⟩
    exact .down hlisted hchild hreaches

/-- A node that is no directory is reached itself or not at all. -/
theorem reaches_iff_of_ne_directory {node : Node}
    (hnode : ∀ children, node ≠ directory children) {path found : Path} :
    node.Reaches path found ↔ node.isFile = true ∧ found = path := by
  constructor
  · intro hreaches
    cases hreaches with
    | here hfile => exact ⟨hfile, rfl⟩
    | down => exact absurd rfl (hnode _)
  · rintro ⟨hfile, rfl⟩
    exact .here hfile

mutual

theorem file_mem_visits_iff (node : Node) {path found : Path} :
    .file found ∈ node.visits path ↔ node.Reaches path found := by
  cases node with
  | file content => simp [visits, reaches_iff_of_ne_directory, isFile]
  | lockedFile => simp [visits, reaches_iff_of_ne_directory, isFile]
  | link target => simp [visits, reaches_iff_of_ne_directory, isFile]
  | lockedDirectory => simp [visits, reaches_iff_of_ne_directory, isFile]
  | directory children =>
      rw [visits, reaches_directory_iff, ← file_mem_visitsBelow_iff children]
      split
      next hlong => simp [hlong]
      next hlisted => simp [hlisted]

theorem file_mem_visitsBelow_iff (children : List (RawText × Node)) {path found : Path} :
    .file found ∈ visitsBelow path children ↔
      ∃ child ∈ children, child.2.Reaches (path.join ⟨child.1⟩) found := by
  match children with
  | [] => simp [visitsBelow]
  | (name, child) :: rest =>
      rw [visitsBelow, List.mem_append, file_mem_visits_iff child, file_mem_visitsBelow_iff rest,
        List.exists_mem_cons_iff]

end

end Node

namespace FileTree

/-- Whether a walk from a path starts at a node: the path leads to it, and if the path is a link
then to a directory. -/
def StartsAt (tree : FileTree) (start : Path) (node : Node) : Prop :=
  tree.resolveNode .target start = .ok node ∧ ∃ entry, tree.resolveNode .entry start = .ok entry ∧
    ∀ target, entry = .link target → node.isDirectory = true

/-- Whether a regular file is at or below a path. -/
def Reaches (tree : FileTree) (start found : Path) : Prop :=
  ∃ node, tree.StartsAt start node ∧ node.Reaches start found

/-- A walk reports exactly the regular files that it reaches. -/
theorem file_mem_walk_iff {tree : FileTree} {start found : Path} :
    .file found ∈ tree.walk start ↔ tree.Reaches start found := by
  have hstart : ∀ node, tree.StartsAt start node → (.file found ∈ tree.walk start ↔
      node.Reaches start found) := by
    rintro node ⟨htarget, entry, hentry, hlink⟩
    rw [walk, htarget, hentry, ← node.file_mem_visits_iff]
    cases entry with
    | link target =>
        dsimp only
        rw [if_pos (hlink target rfl)]
    | _ => rfl
  constructor
  · intro hfound
    obtain ⟨node, hnode⟩ : ∃ node, tree.StartsAt start node := by
      rw [walk] at hfound
      split at hfound
      next target node hentry htarget =>
        split at hfound
        next hdirectory => exact ⟨node, htarget, _, hentry, fun _ _ => hdirectory⟩
        next => cases hfound
      next entry node hlink hentry htarget =>
        exact ⟨node, htarget, entry, hentry, fun target heq => absurd heq (hlink target)⟩
      next => cases hfound
    exact ⟨node, hnode, (hstart node hnode).mp hfound⟩
  · rintro ⟨node, hnode, hreaches⟩
    exact (hstart node hnode).mpr hreaches

end FileTree
end EventAudit
