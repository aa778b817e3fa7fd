import EventAudit.Command.Run
import EventAudit.Proofs.FileTree.Write
import EventAudit.Proofs.Json.RoundTrip
import EventAudit.Proofs.Text.Encoding

/-! # Configurations that are written and read back

The members that a configuration is written with are matched one by one by the fields that
are read, so that nothing is left at its default. What is written thus parses as what it
was written from, also through a file: the one that `init` creates is found, decoded and
read again. -/

namespace EventAudit

open Json

theorem Markers.reads_layout (markers : Markers) : Reads reader markers.layout markers :=
  reads_record <|
    .cons rfl (by decide) (reads_of (reads_string _)) <|
    .cons rfl (by decide) (reads_of (reads_string _)) <|
    .cons rfl (by decide) (reads_of (reads_string _)) <|
    .cons rfl (by decide) (reads_of (reads_string _)) <|
    .cons rfl (by decide) (reads_of (reads_string _)) <|
    .cons rfl (by decide) (reads_of (reads_string _)) .nil

theorem Json.reads_strings (texts : List String) :
    Reads (Json.array Json.string) (.array (texts.map .string)) texts := by
  apply reads_array
  induction texts with
  | nil => exact .nil
  | cons text texts ih => exact .cons (reads_string text) ih

namespace Config

theorem reads_layout (config : Config) : Reads reader config.layout config :=
  reads_record <|
    .cons rfl (by decide) (reads_of (reads_strings _)) <|
    .cons rfl (by decide) (reads_of (reads_strings _)) <|
    .cons rfl (by decide) (reads_of (reads_strings _)) <|
    .cons rfl (by decide) (reads_of (reads_string _)) <|
    .cons rfl (by decide) (reads_of (reads_string _)) <|
    .cons rfl (by decide) (reads_of config.markers.reads_layout) .nil

theorem parse_render (config : Config) : parse config.render = .ok config :=
  config.reads_layout.parse_text

/-- A file that holds what a configuration is written as is read as this configuration, unless the
configuration is not valid. -/
theorem readFile_of_read {tree : FileTree} {path : Path} {config : Config}
    (hread : tree.read path = .ok (Text.Utf8.encode config.render)) :
    readFile tree path = (config.validate.mapError .invalidConfig).map fun _ => config := by
  simp only [readFile, hread, Text.Utf8.decode?_encode, parse_render]
  cases config.validate <;> rfl

/-- From the working directory the file is found by its name alone. -/
theorem resolve_here_fileEntry {tree : FileTree} {purpose : FileTree.Purpose} {reached : Trail}
    (hresolve : tree.resolve purpose ⟨fileEntry⟩ = .ok reached) :
    tree.resolve purpose (Path.join (.ofString ".") ⟨fileEntry⟩) = .ok reached := by
  obtain ⟨-, -, -, hleads⟩ := FileTree.resolve_eq_ok_iff.mp hresolve
  have hname : FileTree.IsLookedUp fileEntry := by decide
  have hdirect : tree.piecesFromTop ⟨fileEntry⟩ = tree.workingDirectory ++ [fileEntry] := by
    have hpieces : Path.pieces ⟨fileEntry⟩ = [fileEntry] := by decide +kernel
    rw [FileTree.piecesFromTop, hpieces, if_neg (by decide +kernel)]
  have hhere : tree.piecesFromTop (Path.join (.ofString ".") ⟨fileEntry⟩) =
      tree.workingDirectory ++ [[Path.dot], fileEntry] := by
    have hpieces :
        Path.pieces (Path.join (.ofString ".") ⟨fileEntry⟩) = [[Path.dot], fileEntry] := by
      decide +kernel
    rw [FileTree.piecesFromTop, hpieces, if_neg (by decide +kernel)]
  refine FileTree.resolve_eq_ok_iff.mpr
    ⟨by decide +kernel, by decide +kernel, by decide +kernel, ?_⟩
  rw [hhere]
  rw [hdirect] at hleads
  exact hleads.insert_here hname

/-- A valid configuration is loaded from the file that holds it in the working directory. -/
theorem load_of_resolveNode {tree : FileTree} {config : Config}
    (hnode : tree.resolveNode .target ⟨fileEntry⟩ =
      .ok (.file (Text.Utf8.encode config.render))) (hvalid : config.validate = .ok ()) :
    load tree (.ofString ".") = .ok { config, fromFile := true } := by
  obtain ⟨reached, hresolve, hreached⟩ := FileTree.resolveNode_eq_ok_iff.mp hnode
  have hhere := resolve_here_fileEntry hresolve
  have hexists : tree.doesExist (Path.join (.ofString ".") ⟨fileEntry⟩) = true := by
    rw [FileTree.doesExist, hhere]
    rfl
  have hread : tree.read (Path.join (.ofString ".") ⟨fileEntry⟩) =
      .ok (Text.Utf8.encode config.render) := by
    rw [FileTree.read, FileTree.resolveNode_eq_ok_iff.mpr ⟨reached, hhere, hreached⟩]
  have hfind : findFile? tree.doesExist (.ofString ".") =
      some (Path.join (.ofString ".") ⟨fileEntry⟩) := by
    rw [findFile?, Path.ancestors, firstFile?, if_pos hexists]
  rw [load, hfind]
  dsimp only
  rw [readFile_of_read hread, hvalid]
  rfl

end Config

theorem Command.createConfig_eq_ok_iff {tree tree' : FileTree} :
    createConfig tree = .ok tree' ↔ tree.doesExist ⟨Config.fileEntry⟩ = false ∧
      tree.write ⟨Config.fileEntry⟩ (Text.Utf8.encode ({} : Config).render) = .ok tree' := by
  rw [createConfig]
  split
  next hexists => simp [hexists]
  next hmissing =>
    cases tree.write ⟨Config.fileEntry⟩ (Text.Utf8.encode ({} : Config).render) <;>
      simp [hmissing, Except.mapError]

namespace Config

/-- Writing a configuration and reading it back is the identity: the text that it is written as is
parsed as it, a file with this text is read as it, unless it is not valid, and the file that `init`
creates is loaded as the default configuration that it was written from. -/
theorem reads_back_as_written :
    (∀ config : Config, parse config.render = .ok config) ∧
    (∀ tree path (config : Config), tree.read path = .ok (Text.Utf8.encode config.render) →
      readFile tree path = (config.validate.mapError .invalidConfig).map fun _ => config) ∧
    ∀ (tree : FileTree) (colours : Bool), tree.top.WellFormed →
      (Command.run tree colours .init).status = .success →
        load (Command.run tree colours .init).tree (.ofString ".") =
          .ok { config := {}, fromFile := true } := by
  refine ⟨parse_render, fun tree path config => readFile_of_read, ?_⟩
  intro tree colours htree hsuccess
  cases hcreate : Command.createConfig tree with
  | error failure => simp [Command.run, hcreate] at hsuccess
  | ok tree' =>
      obtain ⟨-, hwrite⟩ := Command.createConfig_eq_ok_iff.mp hcreate
      simp only [Command.run, hcreate]
      exact load_of_resolveNode (FileTree.resolveNode_of_write htree hwrite) (by decide +kernel)

/-- The working directory holds a link that leads to no file yet; `init` writes the file there. -/
theorem init_reads_back_through_link :
    let rc : RawText × Node := (.ofString "rc", .directory [])
    let link : Node := .link (.ofString "../rc/events")
    let work : RawText × Node := (.ofString "work", .directory [(fileEntry, link)])
    let tree : FileTree := { top := .directory [rc, work], workingDirectory := [work.1] }
    tree.top.WellFormed ∧ (Command.run tree false .init).status = .success ∧
      load (Command.run tree false .init).tree (.ofString ".") =
        .ok { config := {}, fromFile := true } := by
  intro rc link work tree
  have hrc : rc.2.WellFormed := .directory (by simp) (by simp) (by simp)
  have hwork : work.2.WellFormed :=
    .directory (by decide +kernel) (by simp) (by simpa using .link _)
  have htree : tree.top.WellFormed :=
    .directory (by decide +kernel) (by decide +kernel) (by simpa using ⟨hrc, hwork⟩)
  have hsuccess : (Command.run tree false .init).status = .success := by decide +kernel
  exact ⟨htree, hsuccess, reads_back_as_written.2.2 tree false htree hsuccess⟩

end Config
end EventAudit
