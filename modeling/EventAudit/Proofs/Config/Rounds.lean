import EventAudit.Proofs.Config.Upward
import EventAudit.Proofs.Path.Parent

/-! # The search for a configuration, round by round

The search is a loop that looks at one directory in each round and goes on with the path
without its last component. As there is one component less after every round, it ends. It
returns the file of the first directory that holds one, unless it passes the top of a
repository before: a file beside the mark of a repository is found, one above it is not. -/

namespace EventAudit.Config

/-- The search by so many rounds at most; without a result if they do not suffice. -/
def searchWithin (doesExist : Path → Bool) : (rounds : Nat) → Path → Option (Option Path)
  | 0, _ => none
  | rounds + 1, directory =>
      if doesExist (directory.join ⟨fileEntry⟩) then some (some (directory.join ⟨fileEntry⟩))
      else if doesExist (directory.join ⟨repositoryEntry⟩) then some none
      else
        match directory.parent? with
        | none => some none
        | some parent => searchWithin doesExist rounds parent

/-- Whether the search goes on above a directory: it holds no configuration file and is not the top
of a repository. -/
def Passes (doesExist : Path → Bool) (directory : Path) : Prop :=
  doesExist (directory.join ⟨fileEntry⟩) = false ∧
    doesExist (directory.join ⟨repositoryEntry⟩) = false

section Search

variable {doesExist : Path → Bool} {start directory path : Path} {steps : Nat}

/-- One round for each component, and one more, are enough. -/
theorem searchWithin_eq_some {rounds : Nat} (hrounds : start.components.length < rounds) :
    searchWithin doesExist rounds start = some (findFile? doesExist start) := by
  induction rounds generalizing start with
  | zero => exact absurd hrounds (Nat.not_lt_zero _)
  | succ rounds ih =>
      rw [searchWithin, findFile?, Path.ancestors, firstFile?]
      split
      · rfl
      split
      · rfl
      cases hparent : start.parent? with
      | none =>
          rw [List.head?_eq_none_iff.mp hparent]
          rfl
      | some parent =>
          have hlength := Path.length_of_parent? hparent
          rw [Path.properAncestors_of_parent? hparent]
          exact ih (by omega)

theorem nearest?_eq_some_iff {α : Type} {holds : α → RawText → Bool} {directories : List α}
    {directory : α} :
    nearest? holds directories = some directory ↔
      ∃ i : Nat, directories[i]? = some directory ∧ holds directory fileEntry = true ∧
        ∀ j < i, ∀ nearer, directories[j]? = some nearer → settles holds nearer = false := by
  rw [nearest?, Option.filter_eq_some_iff, List.find?_eq_some_iff_getElem]
  constructor
  · rintro ⟨⟨-, i, hi, rfl, hopen⟩, hfile⟩
    refine ⟨i, List.getElem?_eq_some_iff.mpr ⟨hi, rfl⟩, hfile, fun j hj nearer hnearer => ?_⟩
    obtain ⟨-, rfl⟩ := List.getElem?_eq_some_iff.mp hnearer
    exact (Bool.not_eq_true' _).mp (hopen j hj)
  · rintro ⟨i, hdirectory, hfile, hopen⟩
    obtain ⟨hi, rfl⟩ := List.getElem?_eq_some_iff.mp hdirectory
    have hsettles : settles holds directories[i] = true := by
      rw [settles, hfile, Bool.true_or]
    refine ⟨⟨hsettles, i, hi, rfl, fun j hj => ?_⟩, hfile⟩
    rw [hopen j hj _ (List.getElem?_eq_some_iff.mpr ⟨hj.trans hi, rfl⟩), Bool.not_false]

/-- The search returns the file of the first directory that holds one, if it passes all directories
before. -/
theorem findFile?_eq_some_iff :
    findFile? doesExist start = some path ↔
      ∃ steps directory, start.shortened steps = some directory ∧
        path = directory.join ⟨fileEntry⟩ ∧ doesExist path = true ∧
          ∀ earlier < steps, ∀ nearer, start.shortened earlier = some nearer →
            Passes doesExist nearer := by
  have hpasses : ∀ {nearer : Path},
      settles (fun directory name => doesExist (directory.join ⟨name⟩)) nearer = false ↔
        Passes doesExist nearer := Bool.or_eq_false_iff
  rw [findFile?, firstFile?_eq_nearest?, Option.map_eq_some_iff]
  simp only [nearest?_eq_some_iff, Path.getElem?_ancestors, hpasses]
  constructor
  · rintro ⟨directory, ⟨steps, hdirectory, hfile, hopen⟩, rfl⟩
    exact ⟨steps, directory, hdirectory, rfl, hfile, hopen⟩
  · rintro ⟨steps, directory, hdirectory, rfl, hfile, hopen⟩
    exact ⟨directory, ⟨steps, hdirectory, hfile, hopen⟩, rfl⟩

/-- At the top of a repository the search ends, with the file that is there. -/
theorem findFile?_of_repository (hdirectory : start.shortened steps = some directory)
    (hopen : ∀ earlier < steps, ∀ nearer, start.shortened earlier = some nearer →
      Passes doesExist nearer)
    (hrepository : doesExist (directory.join ⟨repositoryEntry⟩) = true) :
    findFile? doesExist start =
      if doesExist (directory.join ⟨fileEntry⟩) then some (directory.join ⟨fileEntry⟩)
      else none := by
  split
  next hfile => exact findFile?_eq_some_iff.mpr ⟨steps, directory, hdirectory, rfl, hfile, hopen⟩
  next hnone =>
    rw [Option.eq_none_iff_forall_ne_some]
    intro path hfound
    obtain ⟨other, holder, hholder, rfl, hfile, hpassed⟩ := findFile?_eq_some_iff.mp hfound
    rcases Nat.lt_trichotomy other steps with hlt | rfl | hgt
    · rw [(hopen other hlt holder hholder).1] at hfile
      cases hfile
    · obtain rfl := Option.some.inj (hholder.symm.trans hdirectory)
      exact hnone hfile
    · rw [(hpassed steps hgt directory hdirectory).2] at hrepository
      cases hrepository

end Search

/-- The search ends after one round for each component of the start and one more. It looks at the
start and at what is left of it without its last components, as long as there are any but the root;
for each of these, the text of the start is only cut off. Of these directories, it returns the file
of the first one that holds a file, provided that none before is the top of a repository; at the
first top of a repository it ends, with the file there or without any. -/
theorem search_returns_first_file (doesExist : Path → Bool) (start : Path) :
    searchWithin doesExist (start.components.length + 1) start =
        some (findFile? doesExist start) ∧
      (∀ steps, (start.shortened steps).isSome ↔
        steps + (if start.isAbsolute then 1 else 0) ≤ start.components.length) ∧
      (∀ steps directory, start.shortened steps = some directory →
        directory.components = start.components.take (start.components.length - steps) ∧
          ∃ more, start.text = directory.text ++ more) ∧
      (∀ path, findFile? doesExist start = some path ↔
        ∃ steps directory, start.shortened steps = some directory ∧
          path = directory.join ⟨fileEntry⟩ ∧ doesExist path = true ∧
            ∀ earlier < steps, ∀ nearer, start.shortened earlier = some nearer →
              Passes doesExist nearer) ∧
      (∀ steps directory, start.shortened steps = some directory →
        (∀ earlier < steps, ∀ nearer, start.shortened earlier = some nearer →
          Passes doesExist nearer) →
        doesExist (directory.join ⟨repositoryEntry⟩) = true →
        findFile? doesExist start =
          if doesExist (directory.join ⟨fileEntry⟩) then some (directory.join ⟨fileEntry⟩)
          else none) :=
  ⟨searchWithin_eq_some (Nat.lt_succ_self _), fun _ => Path.isSome_shortened_iff,
    fun _ _ hdirectory =>
      ⟨Path.components_of_shortened hdirectory, Path.exists_text_of_shortened hdirectory⟩,
    fun _ => findFile?_eq_some_iff, fun _ _ => findFile?_of_repository⟩

end EventAudit.Config
