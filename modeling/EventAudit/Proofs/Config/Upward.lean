import EventAudit.Config.Search
import EventAudit.Proofs.FileTree.Place
import Mathlib.Data.Option.Basic

/-! # Where a configuration is searched

The search for a configuration file goes up by shortening the path that it started from.
The places that it looks at are those of the shortened paths, and these need not be the
directories above the one it started in: a relative path is shortened to the working
directory at most, and a path that has lost a `..` at its end leads down again. Without `..`
only directories at and above the start are looked at, all of them if the path is absolute. -/

namespace EventAudit

/-- The directories at and above a location, the nearest first. -/
def Location.upward (location : Location) : List Location :=
  location.inits.reverse

/-- Above a location that is reached by names, there are those that are reached by fewer names, and
then the ones above its start. -/
theorem Location.upward_append (location : Location) (names : List RawText) :
    upward (location ++ names) =
      (names.inits.map (location ++ ·)).reverse ++ location.upward.tail := by
  have hnames : names.inits = [] :: names.inits.tail := by
    cases names <;> rfl
  have hself : location.inits.reverse = location :: location.inits.reverse.tail := by
    rcases List.eq_nil_or_concat location with rfl | ⟨before, last, rfl⟩
    · rfl
    · simp [List.inits_append]
  rw [upward, List.inits_append, List.reverse_append, hnames, List.map_cons, List.reverse_cons,
    List.append_nil, List.append_assoc, upward, List.singleton_append, ← hself]
  rfl

/-- The locations that are reached by some of the first names lie between the start and the end. -/
theorem Location.mem_map_inits_iff {location directory : Location} {names : List RawText} :
    directory ∈ names.inits.map (location ++ ·) ↔
      location <+: directory ∧ directory <+: location ++ names := by
  rw [List.mem_map]
  constructor
  · rintro ⟨first, hfirst, rfl⟩
    rw [List.mem_inits] at hfirst
    exact ⟨List.prefix_append _ _, (List.prefix_append_right_inj _).mpr hfirst⟩
  · rintro ⟨⟨first, rfl⟩, hbelow⟩
    rw [List.prefix_append_right_inj] at hbelow
    exact ⟨first, (List.mem_inits _ _).mpr hbelow, rfl⟩

namespace FileTree

variable {tree : FileTree} {path : Path}

theorem eq_name_of_mem_said (hup : .up ∉ path.components) {component : Path.Component}
    (hmem : component ∈ path.said) : ∃ name, component = .name name := by
  obtain ⟨hroot, hhere⟩ := Path.ne_start_of_mem_filterMap hmem
  have hmem : component ∈ path.components := List.mem_append_right _ hmem
  cases component with
  | root => exact absurd rfl hroot
  | here => exact absurd rfl hhere
  | up => exact absurd hmem hup
  | name text => exact ⟨text, rfl⟩

/-- Without `..`, what a path says leads down by names. -/
theorem foldl_go_of_prefix_said (hup : .up ∉ path.components) {said : List Path.Component}
    (hsaid : said <+: path.said) :
    (path.parts.1.components ++ said).foldl Location.go tree.workingDirectory =
      tree.startOf path ++ said.map Path.Component.text := by
  rw [List.foldl_append, foldl_go_lead, foldl_go_of_names]
  intro component hcomponent
  exact eq_name_of_mem_said hup (hsaid.mem hcomponent)

/-- Without `..`, the paths above one lead to the directories on the way down to it. -/
theorem map_place_ancestors (hup : .up ∉ path.components) :
    path.ancestors.map tree.place =
      ((path.said.map Path.Component.text).inits.map (tree.startOf path ++ ·)).reverse ++
        if path.parts.1 = .here then [tree.workingDirectory] else [] := by
  have hplaces : path.ancestors.map tree.place = (path.ancestors.map Path.components).map
      (·.foldl Location.go tree.workingDirectory) := by
    rw [List.map_map]
    rfl
  rw [hplaces, Path.map_components_ancestors, List.map_append, List.map_reverse, List.map_map,
    List.map_inits, List.map_map]
  apply congrArg₂ (· ++ ·)
  · apply congrArg List.reverse
    apply List.map_congr_left
    intro said hsaid
    exact foldl_go_of_prefix_said hup ((List.mem_inits _ _).mp hsaid)
  · split <;> rfl

end FileTree

namespace Config

section Nearest

variable {α β : Type}

/-- Whether the search ends at a directory: it holds a configuration file or is the top of a
repository. -/
def settles (holds : α → RawText → Bool) (directory : α) : Bool :=
  holds directory fileEntry || holds directory repositoryEntry

/-- The first of the directories that holds a configuration file, not going beyond the top of a
repository. -/
def nearest? (holds : α → RawText → Bool) (directories : List α) : Option α :=
  (directories.find? (settles holds)).filter (holds · fileEntry)

variable {holds holds' : α → RawText → Bool} {near far directories : List α}

theorem nearest?_cons (directory : α) (above : List α) :
    nearest? holds (directory :: above) =
      if holds directory fileEntry then some directory
      else if holds directory repositoryEntry then none
      else nearest? holds above := by
  rw [nearest?, nearest?, List.find?_cons, settles]
  cases hfile : holds directory fileEntry <;> cases holds directory repositoryEntry <;>
    simp [hfile, Option.filter]

/-- Only the two names matter. -/
theorem nearest?_congr
    (heq : ∀ directory ∈ directories, ∀ name ∈ [fileEntry, repositoryEntry],
      holds directory name = holds' directory name) :
    nearest? holds directories = nearest? holds' directories := by
  induction directories with
  | nil => rfl
  | cons directory above ih =>
      obtain ⟨hdirectory, habove⟩ := List.forall_mem_cons.mp heq
      rw [nearest?_cons, nearest?_cons, hdirectory fileEntry (by simp),
        hdirectory repositoryEntry (by simp), ih habove]

theorem nearest?_map (place : β → α) (directories : List β) :
    nearest? holds (directories.map place) =
      (nearest? (fun directory => holds (place directory)) directories).map place := by
  rw [nearest?, nearest?, List.find?_map, Option.filter_map]
  rfl

theorem mem_of_nearest?_eq_some {directory : α}
    (hnearest : nearest? holds directories = some directory) :
    directory ∈ directories ∧ holds directory fileEntry = true := by
  rw [nearest?, Option.filter_eq_some_iff] at hnearest
  exact ⟨List.mem_of_find?_eq_some hnearest.1, hnearest.2⟩

/-- The search does not go beyond directories that end it. -/
theorem nearest?_append_of_exists (hends : ∃ directory ∈ near, settles holds directory = true) :
    nearest? holds (near ++ far) = nearest? holds near := by
  obtain ⟨directory, hdirectory⟩ := Option.isSome_iff_exists.mp (List.find?_isSome.mpr hends)
  rw [nearest?, nearest?, List.find?_append, hdirectory, Option.some_or]

theorem nearest?_append_of_forall (hopen : ∀ directory ∈ near, ¬settles holds directory = true) :
    nearest? holds (near ++ far) = nearest? holds far := by
  rw [nearest?, nearest?, List.find?_append, List.find?_eq_none.mpr hopen, Option.none_or]

theorem nearest?_eq_none_of_forall
    (hopen : ∀ directory ∈ directories, ¬settles holds directory = true) :
    nearest? holds directories = none := by
  rw [nearest?, List.find?_eq_none.mpr hopen, Option.filter_none]

/-- To stop after some directories makes no difference exactly if the search ends there anyway, or
if it finds nothing beyond them. -/
theorem nearest?_eq_append_iff :
    nearest? holds near = nearest? holds (near ++ far) ↔
      (∃ directory ∈ near, settles holds directory = true) ∨ nearest? holds far = none := by
  by_cases hends : ∃ directory ∈ near, settles holds directory = true
  · simp [nearest?_append_of_exists hends, hends]
  · have hopen : ∀ directory ∈ near, ¬settles holds directory = true :=
      fun directory hmem hsettles => hends ⟨directory, hmem, hsettles⟩
    have hnear : nearest? holds near = none := nearest?_eq_none_of_forall hopen
    rw [nearest?_append_of_forall hopen, hnear, or_iff_right hends, Eq.comm]

/-- Directories that have been passed before make no difference. -/
theorem nearest?_append_of_subset (hpassed : far ⊆ near) :
    nearest? holds (near ++ far) = nearest? holds near := by
  by_cases hends : ∃ directory ∈ near, settles holds directory = true
  · exact nearest?_append_of_exists hends
  · have hopen : ∀ directory ∈ near, ¬settles holds directory = true :=
      fun directory hmem hsettles => hends ⟨directory, hmem, hsettles⟩
    rw [nearest?_append_of_forall hopen, nearest?_eq_none_of_forall hopen,
      nearest?_eq_none_of_forall fun directory hmem => hopen directory (hpassed hmem)]

/-- The search steps through the directories. -/
theorem firstFile?_eq_nearest? (doesExist : Path → Bool) (directories : List Path) :
    firstFile? doesExist directories =
      (nearest? (fun directory name => doesExist (directory.join ⟨name⟩)) directories).map
        (·.join ⟨fileEntry⟩) := by
  induction directories with
  | nil => rfl
  | cons directory above ih =>
      rw [firstFile?, ih, nearest?_cons]
      split
      · rfl
      · split <;> rfl

end Nearest

/-- Whether the search from a path sees something under a name in a directory on its way. It does
not if the path of it is too long. -/
def sees (tree : FileTree) (directory : Path) (name : RawText) : Bool :=
  !FileTree.isTooLong (directory.join ⟨name⟩) && tree.holds (tree.place directory) name

/-- Whether the search from a path finds the configuration file of the nearest directory at or
above a location, and nothing if there is none up to the top of the repository. -/
def FindsNearest (tree : FileTree) (start : Path) (location : Location) : Prop :=
  (findFile? tree.doesExist start).map tree.locate? =
    (nearest? tree.holds location.upward).map fun directory => some (directory ++ [fileEntry])

instance (tree : FileTree) (start : Path) (location : Location) :
    Decidable (FindsNearest tree start location) :=
  inferInstanceAs (Decidable (_ = _))

section Search

variable {tree : FileTree} {start : Path} {reached : Trail}
  (hworking : ∀ name ∈ tree.workingDirectory, FileTree.IsLookedUp name)
  (hreached : tree.resolve .target start = .ok reached)
  (hdirect : tree.followWithin .target 0 [] (tree.piecesFromTop start) = .ok reached)

include hworking hreached hdirect

/-- The search looks for the configuration file at the places of the paths above its start. -/
theorem map_locate?_findFile? :
    (findFile? tree.doesExist start).map tree.locate? =
      ((nearest? (sees tree) start.ancestors).map tree.place).map
        fun directory => some (directory ++ [fileEntry]) := by
  have hsees : ∀ directory ∈ start.ancestors, ∀ name ∈ [fileEntry, repositoryEntry],
      tree.doesExist (directory.join ⟨name⟩) = sees tree directory name := by
    intro directory hdirectory name hname
    have hentry : Node.IsEntryName name ∧ 0 ∉ name := by
      revert name
      decide
    exact FileTree.doesExist_join_of_mem_ancestors hworking hdirect hreached hdirectory hentry.1
      hentry.2
  rw [findFile?, firstFile?_eq_nearest?, nearest?_congr hsees]
  cases hnearest : nearest? (sees tree) start.ancestors with
  | none => rfl
  | some directory =>
      obtain ⟨hdirectory, hfile⟩ := mem_of_nearest?_eq_some hnearest
      rw [← hsees directory hdirectory fileEntry (by simp)] at hfile
      have hlocate := FileTree.locate?_join_of_mem_ancestors hworking hdirect hreached hdirectory
        (by decide) (by decide) hfile
      exact congrArg some hlocate

theorem findsNearest_iff :
    FindsNearest tree start reached.location ↔
      (nearest? (sees tree) start.ancestors).map tree.place =
        nearest? tree.holds reached.location.upward := by
  have hinjective :
      Function.Injective fun directory : Location => some (directory ++ [fileEntry]) :=
    (Option.some_injective _).comp (List.append_left_injective _)
  rw [FindsNearest, map_locate?_findFile? hworking hreached hdirect]
  exact (Option.map_injective hinjective).eq_iff

omit hworking hreached hdirect in
/-- If no path is too long, the search sees what the places of the paths hold. -/
theorem map_place_nearest? (hshort : FileTree.isTooLong (start.join ⟨fileEntry⟩) = false) :
    (nearest? (sees tree) start.ancestors).map tree.place =
      nearest? tree.holds (start.ancestors.map tree.place) := by
  rw [nearest?_map]
  apply congrArg
  apply nearest?_congr
  intro directory hdirectory name hname
  have hfits : Path.slash ∉ name ∧ name.length ≤ fileEntry.length := by
    revert name
    decide
  have hle := Path.length_text_join_le hdirectory hfits.1 (by decide : Path.slash ∉ fileEntry)
    hfits.2
  have hnotLong : FileTree.isTooLong (directory.join ⟨name⟩) = false := by
    rw [FileTree.isTooLong, decide_eq_false_iff_not] at hshort ⊢
    omega
  rw [sees, hnotLong, Bool.not_false, Bool.true_and]

omit hreached in
/-- Without `..`, the places that the search looks at are those from the one it started in up to the
one its path is seen from, and perhaps the last of them again. -/
theorem exists_places_eq (hup : .up ∉ start.components) :
    ∃ near again, start.ancestors.map tree.place = near ++ again ∧ again ⊆ near ∧
      reached.location.upward = near ++ (tree.startOf start).upward.tail ∧
      ∀ directory, directory ∈ near ↔
        tree.startOf start <+: directory ∧ directory <+: reached.location := by
  have hlocation : reached.location =
      tree.startOf start ++ start.said.map Path.Component.text := by
    rw [FileTree.location_eq_place_of_followWithin hworking hdirect]
    exact FileTree.foldl_go_of_prefix_said hup (List.prefix_refl _)
  have hmem : ∀ directory, directory ∈
      ((start.said.map Path.Component.text).inits.map (tree.startOf start ++ ·)).reverse ↔
        tree.startOf start <+: directory ∧ directory <+: reached.location := by
    intro directory
    rw [List.mem_reverse, Location.mem_map_inits_iff, hlocation]
  refine ⟨_, _, FileTree.map_place_ancestors hup, ?_, ?_, hmem⟩
  · split
    next hhere =>
      have hstart : tree.startOf start = tree.workingDirectory := by
        rw [← FileTree.foldl_go_lead, hhere]
        rfl
      intro directory hagain
      rw [List.mem_singleton.mp hagain, hmem, ← hstart, hlocation]
      exact ⟨List.prefix_refl _, List.prefix_append _ _⟩
    next => exact List.nil_subset _
  · rw [hlocation, Location.upward_append]

omit hreached in
/-- Without `..`, the search misses only what is above the directory its path is seen from. -/
theorem nearest?_places_eq_iff (hup : .up ∉ start.components) :
    nearest? tree.holds (start.ancestors.map tree.place) =
        nearest? tree.holds reached.location.upward ↔
      (∃ directory, tree.startOf start <+: directory ∧ directory <+: reached.location ∧
          settles tree.holds directory = true) ∨
        nearest? tree.holds (tree.startOf start).upward.tail = none := by
  obtain ⟨near, again, hplaces, hagain, hupward, hmem⟩ := exists_places_eq hworking hdirect hup
  rw [hplaces, hupward, nearest?_append_of_subset hagain, nearest?_eq_append_iff]
  simp only [hmem, and_assoc]

/-- Without `..`, no configuration file beside the way up is found. -/
theorem prefix_of_findFile?_eq_some (hup : .up ∉ start.components) {path : Path}
    (hfound : findFile? tree.doesExist start = some path) :
    ∃ directory, directory <+: reached.location ∧
      tree.locate? path = some (directory ++ [fileEntry]) := by
  have hlocate := map_locate?_findFile? hworking hreached hdirect
  rw [hfound, Option.map_some] at hlocate
  cases hnearest : nearest? (sees tree) start.ancestors with
  | none => simp [hnearest] at hlocate
  | some directory =>
      rw [hnearest, Option.map_some, Option.map_some] at hlocate
      obtain ⟨near, again, hplaces, hagain, -, hmem⟩ := exists_places_eq hworking hdirect hup
      have hplace : tree.place directory ∈ near ++ again :=
        hplaces ▸ List.mem_map_of_mem (mem_of_nearest?_eq_some hnearest).1
      rw [List.mem_append, or_iff_left_of_imp (@hagain _), hmem] at hplace
      exact ⟨tree.place directory, hplace.2, Option.some.inj hlocate⟩

end Search

/-- The search finds the nearest configuration file, at or above where a path leads without links,
exactly if the first place that ends the search on the shortened paths gives the same answer as the
first one on the way up. A path without `..` never leads to a file beside the way up; if it is
absolute, the file that is found is the right one, and otherwise it is so unless the search is left
open down to the working directory and a file is found above that. -/
theorem search_finds_nearest_iff {tree : FileTree} {start : Path} {reached : Trail}
    (hworking : ∀ name ∈ tree.workingDirectory, FileTree.IsLookedUp name)
    (hreached : tree.resolve .target start = .ok reached)
    (hdirect : tree.followWithin .target 0 [] (tree.piecesFromTop start) = .ok reached) :
    (FindsNearest tree start reached.location ↔
      (nearest? (sees tree) start.ancestors).map tree.place =
        nearest? tree.holds reached.location.upward) ∧
    (.up ∉ start.components →
      (∀ path, findFile? tree.doesExist start = some path → ∃ directory,
        directory <+: reached.location ∧ tree.locate? path = some (directory ++ [fileEntry])) ∧
      (FileTree.isTooLong (start.join ⟨fileEntry⟩) = false →
        (FindsNearest tree start reached.location ↔
          start.isAbsolute = true ∨
          (∃ directory, tree.workingDirectory <+: directory ∧ directory <+: reached.location ∧
            settles tree.holds directory = true) ∨
          nearest? tree.holds tree.workingDirectory.upward.tail = none))) := by
  have hfinds := findsNearest_iff hworking hreached hdirect
  refine ⟨hfinds, fun hup => ⟨fun path => prefix_of_findFile?_eq_some hworking hreached hdirect hup,
    fun hshort => ?_⟩⟩
  rw [hfinds, map_place_nearest? hshort, nearest?_places_eq_iff hworking hdirect hup,
    FileTree.startOf]
  by_cases habsolute : start.isAbsolute = true
  · rw [if_pos habsolute]
    exact iff_of_true (.inr rfl) (.inl habsolute)
  · rw [if_neg habsolute, or_iff_right habsolute]

/-- Below the working directory, which holds the file that is nearest. -/
theorem search_finds_nearest_below_working_directory :
    let src : RawText × Node := (.ofString "src", .directory [])
    let work : RawText × Node := (.ofString "work", .directory [(fileEntry, .file []), src])
    let tree : FileTree :=
      { top := .directory [(fileEntry, .file []), work], workingDirectory := [work.1] }
    let reached : Trail := [src, work]
    let start := Path.ofString "./src/"
    (∀ name ∈ tree.workingDirectory, FileTree.IsLookedUp name) ∧
      tree.resolve .target start = .ok reached ∧
      tree.followWithin .target 0 [] (tree.piecesFromTop start) = .ok reached ∧
      findFile? tree.doesExist start = some (.ofString "./.eventlintrc.json") ∧
      FindsNearest tree start reached.location := by
  intro src work tree reached start
  have hworking : ∀ name ∈ tree.workingDirectory, FileTree.IsLookedUp name := by decide +kernel
  have hreached : tree.resolve .target start = .ok reached := by rfl
  have hdirect : tree.followWithin .target 0 [] (tree.piecesFromTop start) = .ok reached := by rfl
  have hiff := ((search_finds_nearest_iff hworking hreached hdirect).2 (by decide +kernel)).2
    (by decide +kernel)
  refine ⟨hworking, hreached, hdirect, by decide +kernel, hiff.mpr (.inr (.inl ⟨[work.1], ?_⟩))⟩
  decide +kernel

/-- From a subdirectory, the file above it is missed; from the path `a/..`, the file in `a` is taken
although the path leads to the directory above. -/
theorem search_leaves_way_up :
    (let sub : RawText × Node := (.ofString "sub", .directory [])
     let tree : FileTree :=
      { top := .directory [(fileEntry, .file []), sub], workingDirectory := [sub.1] }
     let reached : Trail := [sub]
     let start := Path.ofString "."
     tree.resolve .target start = .ok reached ∧ (tree.nodeOn reached).isDirectory = true ∧
      tree.followWithin .target 0 [] (tree.piecesFromTop start) = .ok reached ∧
      nearest? tree.holds reached.location.upward = some [] ∧
      findFile? tree.doesExist start = none ∧ ¬FindsNearest tree start reached.location) ∧
    (let inner : Node := .directory [(fileEntry, .file [])]
     let tree : FileTree := { top := .directory [(.ofString "a", inner)] }
     let reached : Trail := []
     let start := Path.ofString "a/.."
     tree.resolve .target start = .ok reached ∧ (tree.nodeOn reached).isDirectory = true ∧
      tree.followWithin .target 0 [] (tree.piecesFromTop start) = .ok reached ∧
      nearest? tree.holds reached.location.upward = none ∧
      findFile? tree.doesExist start = some (.ofString "a/.eventlintrc.json") ∧
      ¬FindsNearest tree start reached.location) := by
  constructor
  · intro sub tree reached start
    exact ⟨by rfl, by rfl, by rfl, by decide +kernel, by decide +kernel, by decide +kernel⟩
  · intro inner tree reached start
    exact ⟨by rfl, by rfl, by rfl, by decide +kernel, by decide +kernel, by decide +kernel⟩

end Config
end EventAudit
