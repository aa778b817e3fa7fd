import EventAudit.FileTree.Resolve
import Mathlib.Data.List.Basic

/-! # How a path is looked up

A successful lookup is a sequence of moves, one for each piece of the path: to stay, to go up,
to enter what stands under a name, to replace a link by its target. What holds of all
lookups is shown move by move. A path that ends with a slash leads to a directory, for
instance, because the last move is to stay there. -/

namespace EventAudit

/-- Whether a piece of a path is looked up in a directory. -/
def FileTree.IsLookedUp (piece : RawText) : Prop :=
  piece ≠ [] ∧ piece ≠ [Path.dot] ∧ piece ≠ [Path.dot, Path.dot]

instance (piece : RawText) : Decidable (FileTree.IsLookedUp piece) :=
  inferInstanceAs (Decidable (_ ∧ _ ∧ _))

/-- A name that an entry of a directory can have. -/
def Node.IsEntryName (name : RawText) : Prop :=
  FileTree.IsLookedUp name ∧ Path.slash ∉ name

instance (name : RawText) : Decidable (Node.IsEntryName name) :=
  inferInstanceAs (Decidable (_ ∧ _))

/-- Whether all directories at and below a node hold entries with proper names, in ascending
order. -/
inductive Node.WellFormed : Node → Prop where
  | file (content : List UInt8) : (file content).WellFormed
  | lockedFile : lockedFile.WellFormed
  | link (target : Path) : (link target).WellFormed
  | lockedDirectory : lockedDirectory.WellFormed
  | directory {children : List (RawText × Node)}
      (hnames : ∀ child ∈ children, IsEntryName child.1)
      (hordered : children.Pairwise (·.1 < ·.1))
      (hchildren : ∀ child ∈ children, child.2.WellFormed) : (directory children).WellFormed

theorem Node.WellFormed.of_lookup {children : List (RawText × Node)} {name : RawText} {node : Node}
    (hdirectory : (Node.directory children).WellFormed)
    (hlookup : children.lookup name = some node) : node.WellFormed := by
  obtain ⟨before, after, rfl, -⟩ := List.lookup_eq_some_iff.mp hlookup
  cases hdirectory with
  | directory hnames hordered hchildren => exact hchildren (name, node) (by simp)

namespace FileTree

/-- Whether only slashes are left behind a name under which a file is to be written. -/
def EndsWrong (purpose : Purpose) (rest : List RawText) : Prop :=
  purpose = .creation ∧ rest ≠ [] ∧ rest.all (· = []) = true

/-- The moves of a lookup: from the end of a trail, through so many links at most, the pieces
lead to a trail. -/
inductive Leads (tree : FileTree) (purpose : Purpose) :
    Nat → Trail → List RawText → Trail → Prop where
  | done {links : Nat} {trail : Trail} : tree.Leads purpose links trail [] trail
  | stay {links : Nat} {trail reached : Trail} {children : List (RawText × Node)} {piece : RawText}
      {rest : List RawText} (hnode : tree.nodeOn trail = .directory children)
      (hpiece : piece = [] ∨ piece = [Path.dot])
      (hrest : tree.Leads purpose links trail rest reached) :
      tree.Leads purpose links trail (piece :: rest) reached
  | stayLocked {links : Nat} {trail reached : Trail} {rest : List RawText}
      (hnode : tree.nodeOn trail = .lockedDirectory)
      (hrest : tree.Leads purpose links trail rest reached) :
      tree.Leads purpose links trail ([] :: rest) reached
  | up {links : Nat} {trail reached : Trail} {children : List (RawText × Node)}
      {rest : List RawText} (hnode : tree.nodeOn trail = .directory children)
      (hrest : tree.Leads purpose links trail.tail rest reached) :
      tree.Leads purpose links trail ([Path.dot, Path.dot] :: rest) reached
  | enter {links : Nat} {trail reached : Trail} {children : List (RawText × Node)}
      {piece : RawText} {node : Node} {rest : List RawText}
      (hnode : tree.nodeOn trail = .directory children) (hpiece : IsLookedUp piece)
      (hright : ¬EndsWrong purpose rest) (hlookup : children.lookup piece = some node)
      (hlink : ∀ target, node ≠ .link target)
      (hrest : tree.Leads purpose links ((piece, node) :: trail) rest reached) :
      tree.Leads purpose links trail (piece :: rest) reached
  | through {links : Nat} {trail reached : Trail} {children : List (RawText × Node)}
      {piece : RawText} {target : Path} {rest : List RawText}
      (hnode : tree.nodeOn trail = .directory children) (hpiece : IsLookedUp piece)
      (hright : ¬EndsWrong purpose rest) (hlookup : children.lookup piece = some (.link target))
      (hfollowed : ¬(purpose = .entry ∧ rest = []))
      (hrest : tree.Leads purpose links (if target.isAbsolute then [] else trail)
        (target.pieces ++ rest) reached) :
      tree.Leads purpose (links + 1) trail (piece :: rest) reached
  | seeLink {links : Nat} {trail : Trail} {children : List (RawText × Node)} {piece : RawText}
      {target : Path} (hnode : tree.nodeOn trail = .directory children)
      (hpiece : IsLookedUp piece) (hlookup : children.lookup piece = some (.link target))
      (hentry : purpose = .entry) :
      tree.Leads purpose links trail [piece] ((piece, .link target) :: trail)
  | create {links : Nat} {trail : Trail} {children : List (RawText × Node)} {piece : RawText}
      (hnode : tree.nodeOn trail = .directory children) (hpiece : IsLookedUp piece)
      (hlookup : children.lookup piece = none) (hcreation : purpose = .creation)
      (hshort : piece.length ≤ nameLimit) :
      tree.Leads purpose links trail [piece] ((piece, .file []) :: trail)

variable {tree : FileTree} {purpose : Purpose}

/-- What a lookup does at a link. -/
def throughLink (tree : FileTree) (purpose : Purpose) :
    Nat → Trail → Path → List RawText → Except OsError Trail
  | 0, _, _, _ => .error .tooManyLinks
  | links + 1, trail, target, rest =>
      tree.followWithin purpose links (if target.isAbsolute then [] else trail)
        (target.pieces ++ rest)

theorem followWithin_eq_follow (links : Nat) :
    tree.followWithin purpose links = tree.follow purpose (tree.throughLink purpose links) := by
  cases links <;> rfl

theorem missing_eq_ok_iff {trail reached : Trail} {name : RawText} {isLast : Bool} :
    missing purpose trail name isLast = .ok reached ↔ name.length ≤ nameLimit ∧
      purpose = .creation ∧ isLast = true ∧ (name, .file []) :: trail = reached := by
  rw [missing]
  split_ifs with hlong hlast
  · simp [Nat.not_le.mpr hlong]
  · simp [hlast, Nat.not_lt.mp hlong]
  · simp only [false_iff, not_and]
    exact fun _ hcreation hisLast => absurd ⟨hcreation, hisLast⟩ hlast

/-- A lookup that succeeds is made of moves, if it is so behind each link. -/
theorem leads_of_follow {links : Nat} {trail reached : Trail} {pieces : List RawText}
    (hthrough : ∀ {trail target rest}, tree.throughLink purpose links trail target rest =
      .ok reached → ∃ fewer, links = fewer + 1 ∧ tree.Leads purpose fewer
        (if target.isAbsolute then [] else trail) (target.pieces ++ rest) reached)
    (hfollow : tree.follow purpose (tree.throughLink purpose links) trail pieces = .ok reached) :
    tree.Leads purpose links trail pieces reached := by
  induction pieces generalizing trail with
  | nil =>
      obtain rfl : trail = reached := Except.ok.inj hfollow
      exact .done
  | cons piece rest ih =>
      rw [follow] at hfollow
      split at hfollow
      next children hnode =>
        split at hfollow
        next hpiece => exact .stay hnode hpiece (ih hfollow)
        next hsaid =>
          split at hfollow
          next hup =>
            subst hup
            exact .up hnode (ih hfollow)
          next hdown =>
            have hpiece : IsLookedUp piece :=
              ⟨fun hempty => hsaid (.inl hempty), fun hhere => hsaid (.inr hhere), hdown⟩
            split at hfollow
            next => cases hfollow
            next hright =>
              split at hfollow
              next hlookup =>
                obtain ⟨hshort, hcreation, hlast, rfl⟩ := missing_eq_ok_iff.mp hfollow
                rw [List.isEmpty_iff.mp hlast]
                exact .create hnode hpiece hlookup hcreation hshort
              next target hlookup =>
                split at hfollow
                next hseen =>
                  obtain ⟨hentry, rfl⟩ := hseen
                  obtain rfl := Except.ok.inj hfollow
                  exact .seeLink hnode hpiece hlookup hentry
                next hfollowed =>
                  obtain ⟨fewer, rfl, hrest⟩ := hthrough hfollow
                  exact .through hnode hpiece hright hlookup hfollowed hrest
              next node hlink hlookup =>
                exact .enter hnode hpiece hright hlookup hlink (ih hfollow)
      next hnode =>
        split at hfollow
        next hempty =>
          subst hempty
          exact .stayLocked hnode (ih hfollow)
        next => cases hfollow
      next => cases hfollow

/-- What a lookup does at a name that is there. -/
theorem follow_of_lookup {through : Trail → Path → List RawText → Except OsError Trail}
    {trail : Trail} {children : List (RawText × Node)} {piece : RawText} {rest : List RawText}
    (hnode : tree.nodeOn trail = .directory children) (hpiece : IsLookedUp piece)
    (hright : ¬EndsWrong purpose rest) :
    tree.follow purpose through trail (piece :: rest) =
      match children.lookup piece with
      | none => missing purpose trail piece rest.isEmpty
      | some (.link target) =>
          if purpose = .entry ∧ rest = [] then .ok ((piece, .link target) :: trail)
          else through trail target rest
      | some node => tree.follow purpose through ((piece, node) :: trail) rest := by
  obtain ⟨hempty, hhere, hup⟩ := hpiece
  rw [follow, hnode]
  dsimp only
  rw [if_neg (not_or.mpr ⟨hempty, hhere⟩), if_neg hup]
  exact if_neg hright

/-- A lookup succeeds exactly by the moves. -/
theorem followWithin_eq_ok_iff {links : Nat} {trail reached : Trail} {pieces : List RawText} :
    tree.followWithin purpose links trail pieces = .ok reached ↔
      tree.Leads purpose links trail pieces reached := by
  constructor
  · intro hfollow
    induction links generalizing trail pieces with
    | zero =>
        refine leads_of_follow ?_ hfollow
        intro _ _ _ herror
        cases herror
    | succ links ih =>
        refine leads_of_follow ?_ hfollow
        intro trail target rest hthrough
        exact ⟨links, rfl, ih hthrough⟩
  · intro hleads
    induction hleads with
    | done => rw [followWithin_eq_follow, follow]
    | stay hnode hpiece hrest ih =>
        rw [followWithin_eq_follow] at ih ⊢
        rw [follow, hnode]
        simpa only [if_pos hpiece] using ih
    | stayLocked hnode hrest ih =>
        rw [followWithin_eq_follow] at ih ⊢
        rw [follow, hnode]
        exact ih
    | up hnode hrest ih =>
        rw [followWithin_eq_follow] at ih ⊢
        rw [follow, hnode]
        exact ih
    | enter hnode hpiece hright hlookup hlink hrest ih =>
        rw [followWithin_eq_follow] at ih ⊢
        rw [follow_of_lookup hnode hpiece hright, hlookup]
        split
        next heq => cases heq
        next target heq => exact absurd (Option.some.inj heq) (hlink target)
        next heq =>
          obtain rfl := Option.some.inj heq
          exact ih
    | through hnode hpiece hright hlookup hfollowed hrest ih =>
        rw [followWithin_eq_follow, follow_of_lookup hnode hpiece hright, hlookup]
        dsimp only
        rw [if_neg hfollowed]
        exact ih
    | seeLink hnode hpiece hlookup hentry =>
        rw [followWithin_eq_follow, follow_of_lookup hnode hpiece (by simp [EndsWrong]), hlookup]
        dsimp only
        rw [if_pos ⟨hentry, rfl⟩]
    | create hnode hpiece hlookup hcreation hshort =>
        rw [followWithin_eq_follow, follow_of_lookup hnode hpiece (by simp [EndsWrong]), hlookup]
        exact missing_eq_ok_iff.mpr ⟨hshort, hcreation, rfl, rfl⟩

/-- Pieces that end with a slash lead to a directory. -/
theorem Leads.isDirectory {links : Nat} {trail reached : Trail} {pieces : List RawText}
    (hleads : tree.Leads purpose links trail pieces reached)
    (hslash : pieces.getLast? = some []) : (tree.nodeOn reached).isDirectory = true := by
  -- The slash is still at the end of what is left after a move, or the move was to stay.
  have hlast : ∀ {piece : RawText} {rest : List RawText}, (piece :: rest).getLast? = some [] →
      rest = [] ∧ piece = [] ∨ rest.getLast? = some [] := by
    intro piece rest hslash
    cases rest with
    | nil => exact .inl ⟨rfl, Option.some.inj hslash⟩
    | cons next rest => exact .inr (by rwa [List.getLast?_cons_cons] at hslash)
  induction hleads with
  | done => cases hslash
  | stay hnode hpiece hrest ih =>
      rcases hlast hslash with ⟨rfl, -⟩ | hslash
      · cases hrest
        rw [hnode]
        rfl
      · exact ih hslash
  | stayLocked hnode hrest ih =>
      rcases hlast hslash with ⟨rfl, -⟩ | hslash
      · cases hrest
        rw [hnode]
        rfl
      · exact ih hslash
  | up hnode hrest ih =>
      rcases hlast hslash with ⟨-, hup⟩ | hslash
      · exact absurd hup (by decide)
      · exact ih hslash
  | enter hnode hpiece hright hlookup hlink hrest ih =>
      rcases hlast hslash with ⟨-, hempty⟩ | hslash
      · exact absurd hempty hpiece.1
      · exact ih hslash
  | through hnode hpiece hright hlookup hfollowed hrest ih =>
      rcases hlast hslash with ⟨-, hempty⟩ | hslash
      · exact absurd hempty hpiece.1
      · exact ih (by rw [List.getLast?_append, hslash, Option.some_or])
  | seeLink hnode hpiece => exact absurd (Option.some.inj hslash) hpiece.1
  | create hnode hpiece => exact absurd (Option.some.inj hslash) hpiece.1

theorem wellFormed_nodeOn (htop : tree.top.WellFormed) {trail : Trail}
    (htrail : ∀ step ∈ trail, step.2.WellFormed) : (tree.nodeOn trail).WellFormed := by
  cases trail with
  | nil => exact htop
  | cons step trail => exact htrail step List.mem_cons_self

/-- A piece `.` before a name makes no difference. -/
theorem Leads.insert_here {links : Nat} {trail reached : Trail} {before rest : List RawText}
    {name : RawText} (hname : IsLookedUp name)
    (hleads : tree.Leads purpose links trail (before ++ name :: rest) reached) :
    tree.Leads purpose links trail (before ++ [Path.dot] :: name :: rest) reached := by
  obtain ⟨hempty, hhere, hup⟩ := hname
  have hright : ∀ before : List RawText,
      ¬EndsWrong purpose (before ++ [Path.dot] :: name :: rest) := by
    intro before hwrong
    simpa using hwrong.2.2
  generalize hpieces : before ++ name :: rest = pieces at hleads
  induction hleads generalizing before with
  | done => simp at hpieces
  | stay hnode hpiece hrest ih =>
      rcases List.append_eq_cons_iff.mp hpieces with ⟨rfl, heq⟩ | ⟨later, rfl, rfl⟩
      · obtain ⟨rfl, rfl⟩ := List.cons.inj heq
        exact absurd hpiece (by simp [hempty, hhere])
      · exact .stay hnode hpiece (ih rfl)
  | stayLocked hnode hrest ih =>
      rcases List.append_eq_cons_iff.mp hpieces with ⟨rfl, heq⟩ | ⟨later, rfl, rfl⟩
      · exact absurd (List.cons.inj heq).1 hempty
      · exact .stayLocked hnode (ih rfl)
  | up hnode hrest ih =>
      rcases List.append_eq_cons_iff.mp hpieces with ⟨rfl, heq⟩ | ⟨later, rfl, rfl⟩
      · exact absurd (List.cons.inj heq).1 hup
      · exact .up hnode (ih rfl)
  | enter hnode hpiece hnotWrong hlookup hlink hrest ih =>
      rcases List.append_eq_cons_iff.mp hpieces with ⟨rfl, heq⟩ | ⟨later, rfl, rfl⟩
      · obtain ⟨rfl, rfl⟩ := List.cons.inj heq
        exact .stay hnode (.inr rfl) (.enter hnode hpiece hnotWrong hlookup hlink hrest)
      · exact .enter hnode hpiece (hright later) hlookup hlink (ih rfl)
  | through hnode hpiece hnotWrong hlookup hfollowed hrest ih =>
      rcases List.append_eq_cons_iff.mp hpieces with ⟨rfl, heq⟩ | ⟨later, rfl, rfl⟩
      · obtain ⟨rfl, rfl⟩ := List.cons.inj heq
        exact .stay hnode (.inr rfl) (.through hnode hpiece hnotWrong hlookup hfollowed hrest)
      · rw [List.cons_append]
        refine .through hnode hpiece (hright later) hlookup (by simp) ?_
        rw [← List.append_assoc]
        exact ih (List.append_assoc _ _ _)
  | seeLink hnode hpiece hlookup hentry =>
      rcases List.append_eq_cons_iff.mp hpieces with ⟨rfl, heq⟩ | ⟨later, rfl, heq⟩
      · obtain ⟨rfl, rfl⟩ := List.cons.inj heq
        exact .stay hnode (.inr rfl) (.seeLink hnode hpiece hlookup hentry)
      · simp at heq
  | create hnode hpiece hlookup hcreation hshort =>
      rcases List.append_eq_cons_iff.mp hpieces with ⟨rfl, heq⟩ | ⟨later, rfl, heq⟩
      · obtain ⟨rfl, rfl⟩ := List.cons.inj heq
        exact .stay hnode (.inr rfl) (.create hnode hpiece hlookup hcreation hshort)
      · simp at heq

/-- In a well-formed tree only well-formed nodes are reached. -/
theorem Leads.wellFormed (htop : tree.top.WellFormed) {links : Nat} {trail reached : Trail}
    {pieces : List RawText} (hleads : tree.Leads purpose links trail pieces reached)
    (htrail : ∀ step ∈ trail, step.2.WellFormed) : ∀ step ∈ reached, step.2.WellFormed := by
  induction hleads with
  | done => exact htrail
  | stay hnode hpiece hrest ih => exact ih htrail
  | stayLocked hnode hrest ih => exact ih htrail
  | up hnode hrest ih => exact ih fun step hstep => htrail step (List.mem_of_mem_tail hstep)
  | enter hnode hpiece hright hlookup hlink hrest ih =>
      have hdirectory := wellFormed_nodeOn htop htrail
      rw [hnode] at hdirectory
      exact ih (List.forall_mem_cons.mpr ⟨hdirectory.of_lookup hlookup, htrail⟩)
  | through hnode hpiece hright hlookup hfollowed hrest ih =>
      apply ih
      split
      · exact List.forall_mem_nil _
      · exact htrail
  | seeLink => exact List.forall_mem_cons.mpr ⟨.link _, htrail⟩
  | create => exact List.forall_mem_cons.mpr ⟨.file _, htrail⟩

/-- A path that leads somewhere does so by the moves. -/
theorem resolve_eq_ok_iff {path : Path} {reached : Trail} :
    tree.resolve purpose path = .ok reached ↔
      0 ∉ path.text ∧ path.text ≠ [] ∧ isTooLong path = false ∧
        tree.Leads purpose linkLimit [] (tree.piecesFromTop path) reached := by
  rw [resolve]
  split_ifs with hnul hempty hlong
  · simp [hnul]
  · simp [hempty]
  · simp [hlong]
  · simp [hnul, hempty, hlong, followWithin_eq_ok_iff]

theorem resolveNode_eq_ok_iff {path : Path} {node : Node} :
    tree.resolveNode purpose path = .ok node ↔
      ∃ reached, tree.resolve purpose path = .ok reached ∧ tree.nodeOn reached = node := by
  rw [resolveNode]
  cases tree.resolve purpose path <;> simp [Except.map]

theorem wellFormed_of_resolveNode (htop : tree.top.WellFormed) {path : Path} {node : Node}
    (hnode : tree.resolveNode purpose path = .ok node) : node.WellFormed := by
  obtain ⟨reached, hreached, rfl⟩ := resolveNode_eq_ok_iff.mp hnode
  obtain ⟨-, -, -, hleads⟩ := resolve_eq_ok_iff.mp hreached
  exact wellFormed_nodeOn htop (hleads.wellFormed htop (List.forall_mem_nil _))

/-- A path with a slash at its end leads to a directory. -/
theorem isDirectory_of_resolve {path : Path} {reached : Trail}
    (hreached : tree.resolve purpose path = .ok reached)
    (hslash : path.pieces.getLast? = some []) : (tree.nodeOn reached).isDirectory = true := by
  obtain ⟨-, -, -, hleads⟩ := resolve_eq_ok_iff.mp hreached
  apply hleads.isDirectory
  rw [piecesFromTop]
  split
  · exact hslash
  · rw [List.getLast?_append, hslash, Option.some_or]

end FileTree
end EventAudit
