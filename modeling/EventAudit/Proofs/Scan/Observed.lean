import EventAudit.Proofs.Event.History
import EventAudit.Scan.Basic

/-! # Everything that a scan observes

The sequence behind the registry of a scan: file after file, and in each file line
after line, what every eligible line says. A scan that succeeds has read all its files,
and its registry is the view of this sequence. -/

namespace EventAudit

namespace Observation

/-- What the eligible lines of a text say, each line being looked at on its own. -/
def ofEligible (markers : Markers) (source : List Char) : List Observation :=
  (Text.lines source).zipIdx.filterMap fun (line, index) =>
    if ((LineState.after {} ((Text.lines source).take index)).classify line).isEligible then
      (Extraction.ofLine? markers line).map fun extraction => { line := index + 1, extraction }
    else none

theorem ofLines_eq_filterMap (markers : Markers) (state : LineState) (number : Nat)
    (lines : List (List Char)) :
    ofLines markers state number lines = lines.zipIdx.filterMap fun (line, index) =>
      ofLine? markers (state.after (lines.take index)) (number + index) line := by
  induction lines generalizing state number with
  | nil => rfl
  | cons line rest ih =>
      -- In the rest, every line has one more line before it.
      have hrest : (rest.zipIdx.filterMap fun (line', index) =>
            ofLine? markers ((state.next line).after (rest.take index))
              (number + 1 + index) line') =
          rest.zipIdx.filterMap fun (line', index) =>
            ofLine? markers (state.after ((line :: rest).take (index + 1)))
              (number + (index + 1)) line' := by
        apply List.filterMap_congr
        rintro ⟨line', index⟩ _
        dsimp only
        rw [Nat.add_assoc, Nat.add_comm 1 index]
        rfl
      rw [ofLines, ih, hrest, List.zipIdx_cons', List.filterMap_cons, List.filterMap_map]
      have hfirst : ofLine? markers (state.after ((line :: rest).take 0)) (number + 0) line =
          ofLine? markers state number line := rfl
      dsimp only
      rw [hfirst]
      cases ofLine? markers state number line <;> rfl

theorem ofSource_eq_ofEligible (markers : Markers) (source : List Char) :
    ofSource markers source = ofEligible markers source := by
  rw [ofSource, ofLines_eq_filterMap, ofEligible]
  apply List.filterMap_congr
  rintro ⟨line, index⟩ _
  dsimp only
  rw [ofLine?, Nat.add_comm]

end Observation

/-- What the eligible lines of a file say; nothing if the file cannot be read. -/
def SourceFile.sightings (tree : FileTree) (markers : Markers) (plugin : String)
    (file : SourceFile) : History :=
  match tree.read file.path with
  | .error _ => []
  | .ok content =>
      (Observation.ofEligible markers (Text.Utf8.decodeLossy content)).map
        (.ofObservation file.displayPath plugin)

namespace Scan

/-- What the eligible lines of all files say, in the order of the files. -/
def history (tree : FileTree) (scan : Scan) : History :=
  scan.files.flatMap fun file =>
    file.sightings tree scan.config.markers
      (scan.plugins.owner tree.isFile (.ofString file.displayPath))

theorem sightings_of_observe_eq_ok {tree : FileTree} {markers : Markers} {plugin : String}
    {file : SourceFile} {seen : FileObservations}
    (hseen : file.observe tree markers plugin = .ok seen) :
    seen.sightings = file.sightings tree markers plugin := by
  rw [SourceFile.observe] at hseen
  rw [SourceFile.sightings]
  cases hread : tree.read file.path with
  | error cause => simp [hread] at hseen
  | ok content =>
      simp only [hread, Except.ok.injEq] at hseen
      subst hseen
      rw [FileObservations.sightings, Observation.ofSource_eq_ofEligible]

theorem flatMap_sightings_of_observeAll_eq_ok {tree : FileTree} {plugins : PluginLayout}
    {markers : Markers} {files : List SourceFile} {seen : List FileObservations}
    (hseen : observeAll tree plugins markers files = .ok seen) :
    seen.flatMap FileObservations.sightings = files.flatMap fun file =>
      file.sightings tree markers (plugins.owner tree.isFile (.ofString file.displayPath)) := by
  induction files generalizing seen with
  | nil =>
      cases hseen
      rfl
  | cons file rest ih =>
      rw [observeAll, List.mapM_cons] at hseen
      cases hfile : file.observe tree markers
          (plugins.owner tree.isFile (.ofString file.displayPath)) with
      | error failure => simp [hfile, bind, Except.bind] at hseen
      | ok first =>
          cases hrest : observeAll tree plugins markers rest with
          | error failure =>
              rw [observeAll] at hrest
              simp [hfile, hrest, bind, Except.bind] at hseen
          | ok later =>
              have hlater := ih hrest
              rw [observeAll] at hrest
              simp only [hfile, hrest, bind, Except.bind, pure, Except.pure,
                Except.ok.injEq] at hseen
              subst hseen
              rw [List.flatMap_cons, List.flatMap_cons, hlater, sightings_of_observe_eq_ok hfile]

theorem registry_eq_of_eq_ok {tree : FileTree} {scan : Scan} {registry : Registry}
    (hregistry : scan.registry tree = .ok registry) :
    registry = (scan.history tree).registry := by
  rw [Scan.registry] at hregistry
  cases hseen : scan.observations tree with
  | error failure => simp [hseen, Except.map] at hregistry
  | ok seen =>
      simp only [hseen, Except.map, Except.ok.injEq] at hregistry
      rw [← hregistry, Registry.ofFiles_eq_registry,
        flatMap_sightings_of_observeAll_eq_ok hseen]
      rfl

theorem registry_eq_ok_of_isOk {tree : FileTree} {scan : Scan}
    (hok : (scan.registry tree).isOk = true) :
    scan.registry tree = .ok (scan.history tree).registry := by
  cases hresult : scan.registry tree with
  | error failure =>
      rw [hresult] at hok
      exact Bool.noConfusion hok
  | ok registry => rw [registry_eq_of_eq_ok hresult]

end Scan
end EventAudit
