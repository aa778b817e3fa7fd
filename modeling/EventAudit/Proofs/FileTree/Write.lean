import EventAudit.Proofs.FileTree.Lookup
import EventAudit.Proofs.Keyed
import EventAudit.Proofs.Path.Components

/-! # Reading what has been written to a file

After a file has been written, its path leads to it. All directories on the way, which may
go through links and up again, are where they were; each of them is changed in one entry
at most, the one that leads to the file. So the lookup makes the same moves as before. -/

namespace EventAudit

/-- What becomes of the node at a location when a file is written at a place. -/
def Node.rewritten (content : List UInt8) (place location : Location) (node : Node) : Node :=
  if location <+: place then node.update (fun _ => .file content) (place.drop location.length)
  else node

/-- What becomes of a trail when a file is written at a place. -/
def Trail.rewritten (content : List UInt8) (place : Location) : Trail → Trail
  | [] => []
  | (name, node) :: trail =>
      (name, node.rewritten content place (location ((name, node) :: trail))) ::
        rewritten content place trail

@[simp] theorem Trail.location_cons (name : RawText) (node : Node) (trail : Trail) :
    location ((name, node) :: trail) = location trail ++ [name] := by
  simp [location]

namespace Node

variable {content : List UInt8} {place location : Location}

theorem rewritten_self (node : Node) : node.rewritten content place place = .file content := by
  rw [rewritten, if_pos (List.prefix_refl _), List.drop_length, update]

/-- A directory above the place, or beside it, is still a directory, and its entries have become
what they have to. -/
theorem rewritten_directory {children : List (RawText × Node)}
    (hordered : children.Pairwise (·.1 < ·.1)) (hlocation : location ≠ place) :
    ∃ changed, (directory children).rewritten content place location = directory changed ∧
      (∀ name node, children.lookup name = some node →
        changed.lookup name = some (node.rewritten content place (location ++ [name]))) ∧
      ∀ name, location ++ [name] = place → changed.lookup name = some (.file content) := by
  by_cases habove : location <+: place
  · obtain ⟨rest, rfl⟩ := habove
    obtain ⟨next, rest, rfl⟩ : ∃ next later, rest = next :: later :=
      List.exists_cons_of_ne_nil (by simpa using hlocation)
    rw [rewritten, if_pos (List.prefix_append _ _), List.drop_left, update]
    refine ⟨_, rfl, ?_, ?_⟩
    · intro name node hlookup
      rw [Keyed.lookup_update hordered]
      split
      next heq =>
        subst heq
        have habove : location ++ [name] <+: location ++ name :: rest := ⟨rest, by simp⟩
        have hdrop : (location ++ name :: rest).drop (location ++ [name]).length = rest := by simp
        rw [hlookup, rewritten, if_pos habove, hdrop, Option.getD_some]
      next hne =>
        have hbeside : ¬location ++ [name] <+: location ++ next :: rest := by
          rw [List.prefix_append_right_inj, List.cons_prefix_cons]
          exact fun hsame => hne hsame.1
        rw [hlookup, rewritten, if_neg hbeside]
    · intro name hplace
      obtain ⟨rfl, rfl⟩ := List.cons.inj (List.append_cancel_left hplace)
      rw [Keyed.lookup_update hordered, if_pos rfl, update]
  · refine ⟨children, by rw [rewritten, if_neg habove], ?_, ?_⟩
    · intro name node hlookup
      have hbeside : ¬location ++ [name] <+: place := fun hbelow =>
        habove ((List.prefix_append _ _).trans hbelow)
      rw [hlookup, rewritten, if_neg hbeside]
    · rintro name rfl
      exact absurd (List.prefix_append _ _) habove

/-- A node that holds no entries stays as it is, unless it is at the place. -/
theorem rewritten_of_ne {node : Node} (hnode : ∀ children, node ≠ directory children)
    (hlocation : location ≠ place) : node.rewritten content place location = node := by
  rw [rewritten]
  split
  next habove =>
    obtain ⟨rest, rfl⟩ := habove
    obtain ⟨name, rest, rfl⟩ : ∃ next later, rest = next :: later :=
      List.exists_cons_of_ne_nil (by simpa using hlocation)
    rw [List.drop_left]
    cases node with
    | directory children => exact absurd rfl (hnode children)
    | _ => rfl
  next => rfl

/-- A link does not come into being. -/
theorem rewritten_ne_link {node : Node} (hnode : ∀ target, node ≠ link target) (target : Path) :
    node.rewritten content place location ≠ link target := by
  rw [rewritten]
  split
  next => cases node <;> cases place.drop location.length <;> simp_all [update]
  next => exact hnode target

end Node

namespace FileTree

variable {tree : FileTree} {content : List UInt8} {place : Location}

theorem nodeOn_rewritten (trail : Trail) :
    (tree.put place (.file content)).nodeOn (trail.rewritten content place) =
      (tree.nodeOn trail).rewritten content place trail.location := by
  cases trail with
  | nil =>
      have habove : Trail.location [] <+: place := List.nil_prefix
      rw [Node.rewritten, if_pos habove]
      rfl
  | cons step trail => rfl

theorem tail_rewritten (trail : Trail) :
    (trail.rewritten content place).tail = Trail.rewritten content place trail.tail := by
  cases trail <;> rfl

/-- Whether a trail leads down by what the directories on it hold, no link being among it. -/
inductive Entered (tree : FileTree) : Trail → Prop where
  | top : tree.Entered []
  | enter {trail : Trail} {children : List (RawText × Node)} {name : RawText} {node : Node}
      (hnode : tree.nodeOn trail = .directory children)
      (hlookup : children.lookup name = some node) (hlink : ∀ target, node ≠ .link target)
      (htrail : tree.Entered trail) : tree.Entered ((name, node) :: trail)

/-- Whether a location is in a directory, and there is a file or nothing yet. -/
def IsPlace (tree : FileTree) (place : Location) : Prop :=
  ∃ trail name children, place = trail.location ++ [name] ∧ tree.Entered trail ∧
    tree.nodeOn trail = .directory children ∧
    (children.lookup name = none ∨ ∃ old, children.lookup name = some (.file old))

theorem Entered.tail {trail : Trail} (htrail : tree.Entered trail) : tree.Entered trail.tail := by
  cases htrail with
  | top => exact .top
  | enter hnode hlookup hlink htrail => exact htrail

/-- A trail is determined by the names on it. -/
theorem Entered.eq_of_location_eq {trail trail' : Trail} (htrail : tree.Entered trail)
    (htrail' : tree.Entered trail') (hlocation : trail.location = trail'.location) :
    trail = trail' := by
  induction htrail generalizing trail' with
  | top =>
      cases htrail' with
      | top => rfl
      | enter => simp [Trail.location] at hlocation
  | enter hnode hlookup hlink htrail ih =>
      cases htrail' with
      | top => simp [Trail.location] at hlocation
      | enter hnode' hlookup' hlink' htrail' =>
          rw [Trail.location_cons, Trail.location_cons] at hlocation
          obtain ⟨hrest, hname⟩ := List.append_inj' hlocation rfl
          obtain rfl := ih htrail' hrest
          obtain rfl := List.cons.inj hname |>.1
          rw [hnode] at hnode'
          obtain rfl := Node.directory.inj hnode'
          rw [hlookup] at hlookup'
          rw [Option.some.inj hlookup']

theorem Entered.wellFormed (htop : tree.top.WellFormed) {trail : Trail}
    (htrail : tree.Entered trail) : (tree.nodeOn trail).WellFormed := by
  induction htrail with
  | top => exact htop
  | enter hnode hlookup hlink htrail ih =>
      rw [hnode] at ih
      exact ih.of_lookup hlookup

namespace IsPlace

variable {trail : Trail} (hplace : tree.IsPlace place) (htrail : tree.Entered trail)

include hplace htrail

/-- A name that leads to a place leads to a file or to nothing. -/
theorem lookup_eq {children : List (RawText × Node)} {name : RawText}
    (hnode : tree.nodeOn trail = .directory children)
    (hlocation : trail.location ++ [name] = place) :
    children.lookup name = none ∨ ∃ old, children.lookup name = some (.file old) := by
  obtain ⟨spot, last, held, rfl, hspot, hdirectory, hheld⟩ := hplace
  obtain ⟨hrest, hname⟩ := List.append_inj' hlocation rfl
  obtain rfl := htrail.eq_of_location_eq hspot hrest
  obtain rfl := List.cons.inj hname |>.1
  rw [hnode] at hdirectory
  obtain rfl := Node.directory.inj hdirectory
  exact hheld

/-- What is no file is not at a place. -/
theorem location_ne (hnode : ∀ old, tree.nodeOn trail ≠ .file old) : trail.location ≠ place := by
  intro hlocation
  cases htrail with
  | top =>
      obtain ⟨spot, last, -, rfl, -⟩ := hplace
      simp [Trail.location] at hlocation
  | enter hdirectory hlookup hlink htrail =>
      rw [Trail.location_cons] at hlocation
      rcases hplace.lookup_eq htrail hdirectory hlocation with hnone | ⟨old, hold⟩
      · rw [hlookup] at hnone
        cases hnone
      · rw [hlookup] at hold
        exact hnode old (Option.some.inj hold)

/-- A directory on the way has become a directory with what its entries have become. -/
theorem exists_changed (htop : tree.top.WellFormed) {children : List (RawText × Node)}
    (hnode : tree.nodeOn trail = .directory children) :
    ∃ changed, (tree.put place (.file content)).nodeOn (trail.rewritten content place) =
        .directory changed ∧
      (∀ name node, children.lookup name = some node → changed.lookup name =
        some (node.rewritten content place (trail.location ++ [name]))) ∧
      ∀ name, trail.location ++ [name] = place → changed.lookup name = some (.file content) := by
  have hwell := htrail.wellFormed htop
  rw [hnode] at hwell
  cases hwell with
  | directory hnames hordered hchildren =>
      rw [nodeOn_rewritten, hnode]
      exact Node.rewritten_directory hordered (hplace.location_ne htrail (by simp [hnode]))

end IsPlace

/-- After a file has been written at the place to which pieces lead, they lead to this file. -/
theorem Leads.rewritten (htop : tree.top.WellFormed) (hplace : tree.IsPlace place) {links : Nat}
    {trail reached : Trail} {pieces : List RawText}
    (hleads : tree.Leads .creation links trail pieces reached) (hreached : reached.location = place)
    (htrail : tree.Entered trail) :
    (tree.put place (.file content)).Leads .target links (trail.rewritten content place) pieces
      (reached.rewritten content place) := by
  induction hleads with
  | done => exact .done
  | stay hnode hpiece hrest ih =>
      obtain ⟨changed, hchanged, -, -⟩ := hplace.exists_changed htrail htop hnode
      exact .stay hchanged hpiece (ih hreached htrail)
  | stayLocked hnode hrest ih =>
      refine .stayLocked ?_ (ih hreached htrail)
      rw [nodeOn_rewritten, hnode]
      exact Node.rewritten_of_ne (by simp) (hplace.location_ne htrail (by simp [hnode]))
  | up hnode hrest ih =>
      obtain ⟨changed, hchanged, -, -⟩ := hplace.exists_changed htrail htop hnode
      refine .up hchanged ?_
      rw [tail_rewritten]
      exact ih hreached htrail.tail
  | enter hnode hpiece hright hlookup hlink hrest ih =>
      obtain ⟨changed, hchanged, hentries, -⟩ := hplace.exists_changed htrail htop hnode
      have hnext := ih hreached (.enter hnode hlookup hlink htrail)
      rw [Trail.rewritten, Trail.location_cons] at hnext
      exact .enter hchanged hpiece (by simp [EndsWrong]) (hentries _ _ hlookup)
        (Node.rewritten_ne_link hlink) hnext
  | @through links trail reached children piece target rest hnode hpiece hright hlookup hfollowed
      hrest ih =>
      obtain ⟨changed, hchanged, hentries, -⟩ := hplace.exists_changed htrail htop hnode
      -- A link is not at the place, hence it is still the same.
      have hbeside : trail.location ++ [piece] ≠ place := by
        intro hlocation
        rcases hplace.lookup_eq htrail hnode hlocation with hnone | ⟨old, hold⟩ <;> simp_all
      have hstays := hentries _ _ hlookup
      rw [Node.rewritten_of_ne (by simp) hbeside] at hstays
      have hstart : Trail.rewritten content place (if target.isAbsolute then [] else trail) =
          if target.isAbsolute then [] else trail.rewritten content place := by
        split <;> rfl
      refine .through hchanged hpiece (by simp [EndsWrong]) hstays (by simp) ?_
      rw [← hstart]
      apply ih hreached
      split
      · exact .top
      · exact htrail
  | seeLink hnode hpiece hlookup hentry => cases hentry
  | create hnode hpiece hlookup hcreation hshort =>
      obtain ⟨changed, hchanged, -, hwritten⟩ := hplace.exists_changed htrail htop hnode
      rw [Trail.location_cons] at hreached
      rw [Trail.rewritten, Trail.location_cons, hreached, Node.rewritten_self]
      exact .enter hchanged hpiece (by simp [EndsWrong]) (hwritten _ hreached) (by simp) .done

/-- Looking up a path for writing goes down by what the directories hold, and ends there or at a
name that is missing. -/
theorem Leads.entered_or_isPlace {purpose : Purpose} (hpurpose : purpose ≠ .entry) {links : Nat}
    {trail reached : Trail} {pieces : List RawText}
    (hleads : tree.Leads purpose links trail pieces reached) (htrail : tree.Entered trail) :
    tree.Entered reached ∨ tree.IsPlace reached.location := by
  induction hleads with
  | done => exact .inl htrail
  | stay hnode hpiece hrest ih => exact ih htrail
  | stayLocked hnode hrest ih => exact ih htrail
  | up hnode hrest ih => exact ih htrail.tail
  | enter hnode hpiece hright hlookup hlink hrest ih =>
      exact ih (.enter hnode hlookup hlink htrail)
  | through hnode hpiece hright hlookup hfollowed hrest ih =>
      apply ih
      split
      · exact .top
      · exact htrail
  | seeLink hnode hpiece hlookup hentry => exact absurd hentry hpurpose
  | create hnode hpiece hlookup hcreation hshort =>
      exact .inr ⟨_, _, _, Trail.location_cons _ _ _, htrail, hnode, .inl hlookup⟩

theorem Leads.isDirectory_start {purpose : Purpose} {links : Nat} {trail reached : Trail}
    {pieces : List RawText} (hleads : tree.Leads purpose links trail pieces reached)
    (hpieces : pieces ≠ []) : (tree.nodeOn trail).isDirectory = true := by
  cases hleads with
  | done => exact absurd rfl hpieces
  | stay hnode => rw [hnode]; rfl
  | stayLocked hnode => rw [hnode]; rfl
  | up hnode => rw [hnode]; rfl
  | enter hnode => rw [hnode]; rfl
  | through hnode => rw [hnode]; rfl
  | seeLink hnode => rw [hnode]; rfl
  | create hnode => rw [hnode]; rfl

theorem piecesFromTop_ne_nil (path : Path) : tree.piecesFromTop path ≠ [] := by
  rw [piecesFromTop]
  split
  · exact path.pieces_ne_nil
  · exact List.append_ne_nil_of_right_ne_nil _ path.pieces_ne_nil

/-- What can be written has a place. -/
theorem exists_isPlace_of_write {tree' : FileTree} {path : Path}
    (hwrite : tree.write path content = .ok tree') :
    ∃ reached, tree.resolve .creation path = .ok reached ∧ tree.IsPlace reached.location ∧
      tree' = tree.put reached.location (.file content) := by
  rw [write] at hwrite
  cases hresolve : tree.resolve .creation path with
  | error cause => simp [hresolve] at hwrite
  | ok reached =>
      obtain ⟨-, -, -, hleads⟩ := resolve_eq_ok_iff.mp hresolve
      have hdirectory : ¬(tree.nodeOn reached).isDirectory = true := by
        intro hdirectory
        cases hnode : tree.nodeOn reached <;> simp_all [Node.isDirectory]
      have hlocked : tree.nodeOn reached ≠ .lockedFile := by
        intro hlocked
        simp [hresolve, hlocked] at hwrite
      have hput : tree' = tree.put reached.location (.file content) := by
        cases hnode : tree.nodeOn reached <;> simp_all
      refine ⟨reached, rfl, ?_, hput⟩
      rcases hleads.entered_or_isPlace (by simp) .top with hentered | hplace
      · cases hentered with
        | top => exact absurd (hleads.isDirectory_start (piecesFromTop_ne_nil path)) hdirectory
        | @enter trail children name node hnode hlookup hlink htrail =>
            refine ⟨trail, name, children, Trail.location_cons _ _ _, htrail, hnode, .inr ?_⟩
            cases node with
            | file old => exact ⟨old, hlookup⟩
            | lockedFile => exact absurd rfl hlocked
            | link target => exact absurd rfl (hlink target)
            | directory children => exact absurd rfl hdirectory
            | lockedDirectory => exact absurd rfl hdirectory
      · exact hplace

/-- After a file has been written its path leads to it. -/
theorem resolveNode_of_write (htop : tree.top.WellFormed) {tree' : FileTree} {path : Path}
    (hwrite : tree.write path content = .ok tree') :
    tree'.resolveNode .target path = .ok (.file content) := by
  obtain ⟨reached, hresolve, hplace, rfl⟩ := exists_isPlace_of_write hwrite
  obtain ⟨hnul, hempty, hlong, hleads⟩ := resolve_eq_ok_iff.mp hresolve
  have hagain : (tree.put reached.location (.file content)).resolve .target path =
      .ok (reached.rewritten content reached.location) :=
    resolve_eq_ok_iff.mpr ⟨hnul, hempty, hlong, hleads.rewritten htop hplace rfl .top⟩
  rw [resolveNode, hagain, Except.map, nodeOn_rewritten, Node.rewritten_self]

end FileTree
end EventAudit
