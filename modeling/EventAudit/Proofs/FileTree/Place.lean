import EventAudit.Proofs.FileTree.Write
import EventAudit.Proofs.Path.Ancestors

/-! # Places that are reached without links

As long as no link is on the way, a path leads where its components say: a name goes down,
`..` goes up to the parent directory. What stands there is then found as well by going
down from the top, so that a directory holds the same entries whichever path leads to it. -/

namespace EventAudit

/-- Where a component of a path leads from a location, if it is not the name of a link. -/
def Location.go (location : Location) : Path.Component → Location
  | .root => []
  | .here => location
  | .up => location.dropLast
  | .name text => location ++ [text]

theorem Trail.location_tail (trail : Trail) : location trail.tail = (location trail).dropLast := by
  rw [location, location, List.dropLast_reverse, List.map_tail]

namespace FileTree

/-- Where the components of a path lead, if none of them is the name of a link. -/
def place (tree : FileTree) (path : Path) : Location :=
  path.components.foldl Location.go tree.workingDirectory

/-- Where the lookup of a path starts. -/
def startOf (tree : FileTree) (path : Path) : Location :=
  if path.isAbsolute then [] else tree.workingDirectory

/-- Whether the directory at a location holds something under a name. A link that leads nowhere
does not count. -/
def holds (tree : FileTree) (location : Location) (name : RawText) : Bool :=
  (tree.followWithin .target linkLimit [] (location ++ [name])).isOk

/-- The location that a path names, a link in last place not being followed. -/
def locate? (tree : FileTree) (path : Path) : Option Location :=
  (tree.resolve .entry path).toOption.map Trail.location

theorem IsLookedUp.ofPiece?_eq {piece : RawText} (hpiece : IsLookedUp piece) :
    Path.Component.ofPiece? piece = some (.name piece) := by
  obtain ⟨hempty, hhere, hup⟩ := hpiece
  rw [Path.Component.ofPiece?, if_neg (not_or.mpr ⟨hempty, hhere⟩), if_neg hup]

/-- The moves of a lookup that meets no link. -/
inductive Walks (tree : FileTree) : Trail → List RawText → Trail → Prop where
  | done {trail : Trail} : tree.Walks trail [] trail
  | stay {trail reached : Trail} {children : List (RawText × Node)} {piece : RawText}
      {rest : List RawText} (hnode : tree.nodeOn trail = .directory children)
      (hpiece : piece = [] ∨ piece = [Path.dot]) (hrest : tree.Walks trail rest reached) :
      tree.Walks trail (piece :: rest) reached
  | stayLocked {trail reached : Trail} {rest : List RawText}
      (hnode : tree.nodeOn trail = .lockedDirectory) (hrest : tree.Walks trail rest reached) :
      tree.Walks trail ([] :: rest) reached
  | up {trail reached : Trail} {children : List (RawText × Node)} {rest : List RawText}
      (hnode : tree.nodeOn trail = .directory children)
      (hrest : tree.Walks trail.tail rest reached) :
      tree.Walks trail ([Path.dot, Path.dot] :: rest) reached
  | enter {trail reached : Trail} {children : List (RawText × Node)} {piece : RawText} {node : Node}
      {rest : List RawText} (hnode : tree.nodeOn trail = .directory children)
      (hpiece : IsLookedUp piece) (hlookup : children.lookup piece = some node)
      (hlink : ∀ target, node ≠ .link target)
      (hrest : tree.Walks ((piece, node) :: trail) rest reached) :
      tree.Walks trail (piece :: rest) reached

variable {tree : FileTree} {trail middle reached : Trail} {before after pieces : List RawText}

/-- A lookup that succeeds although it may not go through a link meets none. -/
theorem walks_of_followWithin (hfollow : tree.followWithin .target 0 trail pieces = .ok reached) :
    tree.Walks trail pieces reached := by
  have hleads := followWithin_eq_ok_iff.mp hfollow
  clear hfollow
  generalize hnone : 0 = links at hleads
  induction hleads with
  | done => exact .done
  | stay hnode hpiece hrest ih => exact .stay hnode hpiece (ih hnone)
  | stayLocked hnode hrest ih => exact .stayLocked hnode (ih hnone)
  | up hnode hrest ih => exact .up hnode (ih hnone)
  | enter hnode hpiece hright hlookup hlink hrest ih =>
      exact .enter hnode hpiece hlookup hlink (ih hnone)
  | through => cases hnone
  | seeLink hnode hpiece hlookup hentry => cases hentry
  | create hnode hpiece hlookup hcreation => cases hcreation

namespace Walks

theorem exists_middle (hwalks : tree.Walks trail (before ++ after) reached) :
    ∃ middle, tree.Walks trail before middle ∧ tree.Walks middle after reached := by
  induction before generalizing trail with
  | nil => exact ⟨trail, .done, hwalks⟩
  | cons piece before ih =>
      cases hwalks with
      | stay hnode hpiece hrest =>
          obtain ⟨middle, hbefore, hafter⟩ := ih hrest
          exact ⟨middle, .stay hnode hpiece hbefore, hafter⟩
      | stayLocked hnode hrest =>
          obtain ⟨middle, hbefore, hafter⟩ := ih hrest
          exact ⟨middle, .stayLocked hnode hbefore, hafter⟩
      | up hnode hrest =>
          obtain ⟨middle, hbefore, hafter⟩ := ih hrest
          exact ⟨middle, .up hnode hbefore, hafter⟩
      | enter hnode hpiece hlookup hlink hrest =>
          obtain ⟨middle, hbefore, hafter⟩ := ih hrest
          exact ⟨middle, .enter hnode hpiece hlookup hlink hbefore, hafter⟩

/-- After pieces that lead on without links, a lookup goes on from where they lead. -/
theorem followWithin_append (hwalks : tree.Walks trail before middle) {purpose : Purpose}
    (hpurpose : purpose ≠ .creation) (links : Nat) (after : List RawText) :
    tree.followWithin purpose links trail (before ++ after) =
      tree.followWithin purpose links middle after := by
  have hright : ∀ rest, ¬EndsWrong purpose rest := fun rest hwrong => hpurpose hwrong.1
  rw [followWithin_eq_follow]
  induction hwalks with
  | done => rfl
  | stay hnode hpiece hrest ih =>
      rw [List.cons_append, follow, hnode]
      simpa only [if_pos hpiece] using ih
  | stayLocked hnode hrest ih =>
      rw [List.cons_append, follow, hnode]
      exact ih
  | up hnode hrest ih =>
      rw [List.cons_append, follow, hnode]
      exact ih
  | enter hnode hpiece hlookup hlink hrest ih =>
      rw [List.cons_append, follow_of_lookup hnode hpiece (hright _), hlookup]
      split
      next heq => cases heq
      next target heq => exact absurd (Option.some.inj heq) (hlink target)
      next heq =>
        obtain rfl := Option.some.inj heq
        exact ih

/-- Without links, the pieces lead where they say. -/
theorem location_eq (hwalks : tree.Walks trail pieces reached) :
    reached.location =
      (pieces.filterMap Path.Component.ofPiece?).foldl Location.go trail.location := by
  induction hwalks with
  | done => rfl
  | stay hnode hpiece hrest ih =>
      rw [ih, List.filterMap_cons_none (by simp [Path.Component.ofPiece?, hpiece])]
  | stayLocked hnode hrest ih => rw [ih, List.filterMap_cons_none rfl]
  | @up trail _ _ _ hnode hrest ih =>
      have hup : Path.Component.ofPiece? [Path.dot, Path.dot] = some .up := rfl
      rw [ih, List.filterMap_cons_some hup, List.foldl_cons, Location.go, Trail.location_tail]
  | enter hnode hpiece hlookup hlink hrest ih =>
      rw [ih, List.filterMap_cons_some hpiece.ofPiece?_eq, List.foldl_cons, Location.go,
        Trail.location_cons]

theorem append (hbefore : tree.Walks trail before middle)
    (hafter : tree.Walks middle after reached) : tree.Walks trail (before ++ after) reached := by
  induction hbefore with
  | done => exact hafter
  | stay hnode hpiece hrest ih => exact .stay hnode hpiece (ih hafter)
  | stayLocked hnode hrest ih => exact .stayLocked hnode (ih hafter)
  | up hnode hrest ih => exact .up hnode (ih hafter)
  | enter hnode hpiece hlookup hlink hrest ih =>
      exact .enter hnode hpiece hlookup hlink (ih hafter)

/-- What is reached from a trail is also reached by the names on the way to it. The way back to
the top is part of the invariant, because the lookup may go up. -/
theorem of_location (hwalks : tree.Walks trail pieces reached)
    (htrail : ∀ way, way <:+ trail → tree.Walks [] (Trail.location way) way) :
    tree.Walks [] reached.location reached := by
  induction hwalks with
  | done => exact htrail _ (List.suffix_refl _)
  | stay hnode hpiece hrest ih => exact ih htrail
  | stayLocked hnode hrest ih => exact ih htrail
  | up hnode hrest ih => exact ih fun way hway => htrail way (hway.trans (List.tail_suffix _))
  | enter hnode hpiece hlookup hlink hrest ih =>
      apply ih
      intro way hway
      rcases List.suffix_cons_iff.mp hway with rfl | hway
      · rw [Trail.location_cons]
        exact (htrail _ (List.suffix_refl _)).append (.enter hnode hpiece hlookup hlink .done)
      · exact htrail way hway

/-- Pieces that lead somewhere from the top lead to where a directory holds what stands at the
same location. -/
theorem isOk_followWithin_concat (hwalks : tree.Walks [] pieces reached) (name : RawText) :
    (tree.followWithin .target linkLimit [] (pieces ++ [name])).isOk =
      tree.holds reached.location name := by
  have hdown : tree.Walks [] reached.location reached := by
    apply hwalks.of_location
    intro way hway
    rw [List.suffix_nil.mp hway]
    exact .done
  rw [holds, hwalks.followWithin_append (by simp), hdown.followWithin_append (by simp)]

/-- What a directory holds is located in it. -/
theorem exists_followWithin_entry (hwalks : tree.Walks [] pieces reached) {name : RawText}
    (hname : IsLookedUp name) (hholds : tree.holds reached.location name = true) :
    ∃ found, tree.followWithin .entry linkLimit [] (pieces ++ [name]) = .ok found ∧
      found.location = reached.location ++ [name] := by
  rw [← hwalks.isOk_followWithin_concat, hwalks.followWithin_append (by simp)] at hholds
  rw [hwalks.followWithin_append (by simp)]
  cases hfollow : tree.followWithin .target linkLimit reached [name] with
  | error cause => simp [hfollow, Except.isOk, Except.toBool] at hholds
  | ok target =>
      cases followWithin_eq_ok_iff.mp hfollow with
      | stay hnode hpiece => exact absurd hpiece (not_or.mpr ⟨hname.1, hname.2.1⟩)
      | stayLocked => exact absurd rfl hname.1
      | up => exact absurd rfl hname.2.2
      | enter hnode hpiece hright hlookup hlink =>
          have hleads : tree.Leads .entry linkLimit reached [name] _ :=
            .enter hnode hname (by simp [EndsWrong]) hlookup hlink .done
          exact ⟨_, followWithin_eq_ok_iff.mpr hleads, Trail.location_cons _ _ _⟩
      | through hnode hpiece hright hlookup =>
          have hleads : tree.Leads .entry linkLimit reached [name] _ :=
            .seeLink hnode hname hlookup rfl
          exact ⟨_, followWithin_eq_ok_iff.mpr hleads, Trail.location_cons _ _ _⟩
      | seeLink hnode hpiece hlookup hentry => cases hentry
      | create hnode hpiece hlookup hcreation => cases hcreation

end Walks

theorem piecesFromTop_eq_append (path : Path) :
    tree.piecesFromTop path = tree.startOf path ++ path.pieces := by
  rw [piecesFromTop, startOf]
  split <;> rfl

theorem foldl_go_lead (path : Path) :
    path.parts.1.components.foldl Location.go tree.workingDirectory = tree.startOf path := by
  rw [startOf]
  simp only [← Path.lead_eq_root_iff]
  cases path.parts.1 <;> rfl

/-- Going by names goes down by them. -/
theorem foldl_go_of_names {components : List Path.Component}
    (hnames : ∀ component ∈ components, ∃ name, component = .name name) (location : Location) :
    components.foldl Location.go location = location ++ components.map Path.Component.text := by
  induction components generalizing location with
  | nil => exact (List.append_nil _).symm
  | cons component rest ih =>
      obtain ⟨⟨name, rfl⟩, hrest⟩ := List.forall_mem_cons.mp hnames
      rw [List.foldl_cons, ih hrest, Location.go, List.map_cons, List.append_assoc]
      rfl

/-- The names of a location say just themselves. -/
theorem foldl_go_of_isLookedUp {location : Location}
    (hlocation : ∀ name ∈ location, IsLookedUp name) :
    (location.filterMap Path.Component.ofPiece?).foldl Location.go [] = location := by
  have hnames : location.filterMap Path.Component.ofPiece? = location.map .name := by
    rw [← List.filterMap_eq_map]
    exact List.filterMap_congr fun name hname => (hlocation name hname).ofPiece?_eq
  rw [hnames, foldl_go_of_names (by simp), List.nil_append, List.map_map]
  exact List.map_id _

section Above

variable {start directory : Path} (hworking : ∀ name ∈ tree.workingDirectory, IsLookedUp name)

include hworking

/-- Pieces that say what a path says lead to its place, if no link is on the way. -/
theorem Walks.location_eq_place {path : Path}
    (hwalks : tree.Walks [] (tree.startOf path ++ pieces) reached)
    (hsaid : pieces.filterMap Path.Component.ofPiece? = path.said) :
    reached.location = tree.place path := by
  have hnames : ∀ name ∈ tree.startOf path, IsLookedUp name := by
    rw [startOf]
    split
    · exact List.forall_mem_nil _
    · exact hworking
  have hstart : ((tree.startOf path).filterMap Path.Component.ofPiece?).foldl Location.go
      (Trail.location []) = tree.startOf path := foldl_go_of_isLookedUp hnames
  rw [hwalks.location_eq, List.filterMap_append, List.foldl_append, hstart, hsaid, place,
    path.components_eq_append_said, List.foldl_append, foldl_go_lead]

variable (hdirect : tree.followWithin .target 0 [] (tree.piecesFromTop start) = .ok reached)

include hdirect

theorem location_eq_place_of_followWithin : reached.location = tree.place start := by
  rw [piecesFromTop_eq_append] at hdirect
  exact (walks_of_followWithin hdirect).location_eq_place hworking start.filterMap_pieces

/-- The paths above one that leads somewhere without links lead to their places. -/
theorem exists_walks_of_mem_ancestors (hdirectory : directory ∈ start.ancestors) :
    ∃ middle, tree.Walks [] (tree.startOf directory ++ Path.withoutSlash directory.pieces) middle ∧
      middle.location = tree.place directory := by
  have hstart : tree.startOf start = tree.startOf directory := by
    rw [startOf, startOf, Path.isAbsolute_of_mem_ancestors hdirectory]
  obtain ⟨more, hmore⟩ : Path.withoutSlash directory.pieces <+: start.pieces :=
    (Path.pieces_prefix_of_mem_ancestors hdirectory).trans (Path.withoutSlash_isPrefix _)
  have hwalks := walks_of_followWithin hdirect
  rw [piecesFromTop_eq_append, hstart, ← hmore, ← List.append_assoc] at hwalks
  obtain ⟨middle, hmiddle, -⟩ := hwalks.exists_middle
  refine ⟨middle, hmiddle, hmiddle.location_eq_place hworking ?_⟩
  rw [Path.filterMap_withoutSlash, directory.filterMap_pieces]

variable (hreached : tree.resolve .target start = .ok reached)
  (hdirectory : directory ∈ start.ancestors) {name : RawText} (hname : Node.IsEntryName name)
  (hnul : 0 ∉ name)

include hreached hdirectory hname hnul

omit hworking hdirect in
/-- How an entry of a directory above a path is looked up. -/
theorem resolve_join_of_mem_ancestors (purpose : Purpose) :
    tree.resolve purpose (directory.join ⟨name⟩) =
      if isTooLong (directory.join ⟨name⟩) then .error .nameTooLong
      else tree.followWithin purpose linkLimit []
        (tree.startOf directory ++ Path.withoutSlash directory.pieces ++ [name]) := by
  obtain ⟨hnulStart, -⟩ := resolve_eq_ok_iff.mp hreached
  have hnotNul : 0 ∉ (directory.join ⟨name⟩).text := by
    intro hmem
    rcases List.mem_append.mp (Path.mem_text_of_mem_join hdirectory hname.2 (by decide) hmem) with
      hmem | hmem
    · exact hnulStart hmem
    · exact hnul hmem
  have hne : (directory.join ⟨name⟩).text ≠ [] := by
    rw [Path.text_join_name hname.2, ne_eq, List.append_eq_nil_iff]
    exact fun hempty => hname.1.1 hempty.2
  have hpieces : tree.piecesFromTop (directory.join ⟨name⟩) =
      tree.startOf directory ++ Path.withoutSlash directory.pieces ++ [name] := by
    rw [piecesFromTop_eq_append, startOf, startOf, Path.isAbsolute_join_of_relative
      (Path.isAbsolute_of_slash_not_mem hname.2), Path.pieces_join_name hname.2, List.append_assoc]
  rw [resolve, if_neg hnotNul, if_neg hne, hpieces]

/-- An entry of a directory above a path is there exactly if the place of the directory holds it,
unless its path is too long. -/
theorem doesExist_join_of_mem_ancestors :
    tree.doesExist (directory.join ⟨name⟩) =
      (!isTooLong (directory.join ⟨name⟩) && tree.holds (tree.place directory) name) := by
  obtain ⟨middle, hwalks, hplace⟩ := exists_walks_of_mem_ancestors hworking hdirect hdirectory
  rw [doesExist, resolve_join_of_mem_ancestors hreached hdirectory hname hnul]
  split
  next hlong => simp [hlong, Except.isOk, Except.toBool]
  next hshort =>
    rw [hwalks.isOk_followWithin_concat, hplace]
    simp [hshort]

/-- An entry of a directory above a path is located at the place of the directory. -/
theorem locate?_join_of_mem_ancestors (hexists : tree.doesExist (directory.join ⟨name⟩) = true) :
    tree.locate? (directory.join ⟨name⟩) = some (tree.place directory ++ [name]) := by
  rw [doesExist_join_of_mem_ancestors hworking hdirect hreached hdirectory hname hnul,
    Bool.and_eq_true] at hexists
  obtain ⟨hshort, hholds⟩ := hexists
  obtain ⟨middle, hwalks, hplace⟩ := exists_walks_of_mem_ancestors hworking hdirect hdirectory
  rw [← hplace] at hholds ⊢
  obtain ⟨found, hfound, hlocation⟩ := hwalks.exists_followWithin_entry hname.1 hholds
  rw [locate?, resolve_join_of_mem_ancestors hreached hdirectory hname hnul,
    if_neg (by simpa using hshort), hfound, ← hlocation]
  rfl

end Above

end FileTree
end EventAudit
