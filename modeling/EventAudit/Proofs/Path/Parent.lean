import EventAudit.Proofs.Path.Ancestors

/-! # Shortening a path

The paths above a path are what is left of it when its last component is removed again and
again, until there is nothing left but perhaps the root. Each of them has one component less
than the one before it, and its text is the beginning of the text of that one. -/

namespace EventAudit.Path

section Parts

variable {lead : Lead} {pieces : List RawText} (hslash : ∀ piece ∈ pieces, slash ∉ piece)
  (hfirst : lead = .none → ∀ piece ∈ pieces.head?, isSilent piece = false)

include hslash hfirst

/-- A path that is put together has the parts that it is put together from. -/
theorem parts_ofParts (hne : pieces ≠ []) : (ofParts lead pieces).parts = (lead, pieces) := by
  have hpieces := @pieces_ofParts lead pieces hne hslash
  obtain ⟨first, rest, rfl⟩ := List.exists_cons_of_ne_nil hne
  cases lead with
  | none =>
      obtain ⟨hempty, hhere⟩ := isSilent_eq_false_iff.mp (hfirst rfl first rfl)
      have hlead : leadOf first rest = .none := by simp [leadOf, hempty, hhere]
      rw [parts_of_pieces hpieces, hlead, if_pos rfl]
  | root => exact parts_of_pieces hpieces
  | here => exact parts_of_pieces hpieces

theorem properAncestors_ofParts :
    (ofParts lead pieces).properAncestors = ancestorsOfReverse lead pieces.reverse := by
  by_cases hne : pieces = []
  · subst hne
    cases lead <;> decide +kernel
  · rw [properAncestors, parts_ofParts hslash hfirst hne]

end Parts

/-- A path that is put together from more pieces has a longer text. -/
theorem exists_text_ofParts_append (lead : Lead) (pieces more : List RawText) :
    ∃ rest, (ofParts lead (pieces ++ more)).text = (ofParts lead pieces).text ++ rest := by
  have hjoin : ∀ {pieces : List RawText}, pieces ≠ [] →
      ∃ rest, [slash].intercalate (pieces ++ more) = [slash].intercalate pieces ++ rest := by
    intro pieces hne
    by_cases hmore : more = []
    · exact ⟨[], by rw [hmore, List.append_nil, List.append_nil]⟩
    · exact ⟨_, intercalate_append hne hmore⟩
  cases lead with
  | none =>
      by_cases hne : pieces = []
      · exact ⟨_, by rw [hne]; exact (List.nil_append _).symm⟩
      · exact hjoin hne
  | root =>
      by_cases hne : pieces = []
      · exact ⟨[slash].intercalate more, by rw [hne]; rfl⟩
      · obtain ⟨rest, hrest⟩ := hjoin hne
        exact ⟨rest, by rw [ofParts, ofParts, hrest, List.cons_append]⟩
  | here => exact hjoin (List.cons_ne_nil [dot] pieces)

section Parent

variable {path parent : Path}

theorem tidyEnd_isPrefix (pieces : List RawText) : tidyEnd pieces <+: pieces := by
  rw [tidyEnd, ← List.reverse_suffix, List.reverse_reverse]
  exact List.dropWhile_suffix _

/-- The last piece that is kept says something. -/
theorem isSilent_of_tidyEnd_eq {pieces before : List RawText} {piece : RawText}
    (hpieces : tidyEnd pieces = before ++ [piece]) : isSilent piece = false := by
  rw [tidyEnd, List.reverse_eq_append_iff] at hpieces
  apply @isSilent_head?_dropWhile pieces.reverse
  rw [hpieces]
  rfl

/-- The parent of a path is put together from the first pieces of the path, and what is above it
then is what is above these; or it is empty, if the path is nothing but a leading `.`. -/
theorem parent?_cases (hparent : path.parent? = some parent) :
    (parent = ⟨[]⟩ ∧ path.properAncestors = [⟨[]⟩]) ∨
      ∃ before, before <+: tidyEnd path.parts.2 ∧
        parent = ofParts path.parts.1 (tidyEnd before) ∧
        path.properAncestors = parent :: ancestorsOfReverse path.parts.1 before.reverse := by
  have hproper := path.properAncestors_eq_tidyEnd
  rw [parent?] at hparent
  rcases List.eq_nil_or_concat (tidyEnd path.parts.2) with hnil | ⟨before, piece, hpieces⟩
  · left
    rw [hnil, List.reverse_nil, ancestorsOfReverse] at hproper
    rw [hproper] at hparent ⊢
    split at hparent
    next hhere => exact ⟨(Option.some.inj hparent).symm, if_pos hhere⟩
    next => cases hparent
  · right
    rw [List.concat_eq_append] at hpieces
    have hsaid : ¬isSilent piece = true := by
      rw [isSilent_of_tidyEnd_eq hpieces]
      exact Bool.false_ne_true
    rw [hpieces, List.reverse_concat, ancestorsOfReverse, if_neg hsaid] at hproper
    rw [hproper, List.head?_cons] at hparent
    obtain rfl := Option.some.inj hparent
    exact ⟨before, hpieces ▸ List.prefix_append before [piece], rfl, hproper⟩

/-- What is above a path is its parent and what is above that. -/
theorem properAncestors_of_parent? (hparent : path.parent? = some parent) :
    path.properAncestors = parent :: parent.properAncestors := by
  rcases parent?_cases hparent with ⟨rfl, hproper⟩ | ⟨before, hbefore, rfl, hproper⟩
  · rw [hproper]
    decide +kernel
  · have hpieces := (tidyEnd_isPrefix before).trans hbefore
    have hslash : ∀ piece ∈ tidyEnd before, slash ∉ piece := fun piece hpiece =>
      slash_not_mem_of_mem_parts (mem_of_mem_tidyEnd _ (hpieces.mem hpiece))
    have hfirst : path.parts.1 = .none →
        ∀ piece ∈ (tidyEnd before).head?, isSilent piece = false := by
      intro hlead piece hpiece
      obtain ⟨more, hmore⟩ := hpieces
      apply isSilent_head?_tidyEnd_parts hlead
      rw [← hmore, List.head?_append, hpiece, Option.some_or]
      rfl
    rw [hproper, properAncestors_ofParts hslash hfirst, tidyEnd, List.reverse_reverse,
      ancestorsOfReverse_dropWhile]

/-- The text of the parent is the beginning of the text of the path. -/
theorem exists_text_of_parent? (hparent : path.parent? = some parent) :
    ∃ more, path.text = parent.text ++ more := by
  rcases parent?_cases hparent with ⟨rfl, -⟩ | ⟨before, hbefore, rfl, -⟩
  · exact ⟨path.text, rfl⟩
  · obtain ⟨more, hmore⟩ :=
      ((tidyEnd_isPrefix before).trans hbefore).trans (tidyEnd_isPrefix _)
    have htext := exists_text_ofParts_append path.parts.1 (tidyEnd before) more
    rwa [hmore, ofParts_parts] at htext

/-- Nothing is above the empty path and the root. -/
theorem parent?_eq_none_iff :
    path.parent? = none ↔ path.components = [] ∨ path.components = [.root] := by
  have hnone : path.parent? = none ↔ path.properAncestors.map components = [] := by
    rw [parent?, List.head?_eq_none_iff, List.map_eq_nil_iff]
  rw [hnone, map_components_properAncestors, components_eq_append_said]
  rcases List.eq_nil_or_concat path.said with hsaid | ⟨before, last, hsaid⟩
  · rw [hsaid]
    cases path.parts.1 <;> simp [Lead.components]
  · have hmem : last ∈ path.said := by
      rw [hsaid, List.concat_eq_append]
      exact List.mem_append_right before (List.mem_singleton_self last)
    have hlast : last ≠ .root := (ne_start_of_mem_filterMap hmem).1
    have htails : before.reverse.tails ≠ [] := by cases before.reverse <;> simp
    rw [hsaid]
    cases path.parts.1 <;> simp [Lead.components, List.append_eq_singleton_iff, hlast, htails]

theorem components_of_parent? (hparent : path.parent? = some parent) :
    parent.components = path.components.dropLast := by
  rw [← path.components_parent?, hparent]
  rfl

theorem length_of_parent? (hparent : path.parent? = some parent) :
    parent.components.length + 1 = path.components.length := by
  have hne : path.components ≠ [] := by
    intro hnil
    rw [parent?_eq_none_iff.mpr (.inl hnil)] at hparent
    cases hparent
  have hpos := List.length_pos_iff.mpr hne
  rw [components_of_parent? hparent, List.length_dropLast]
  omega

theorem isAbsolute_of_parent? (hparent : path.parent? = some parent) :
    parent.isAbsolute = path.isAbsolute := by
  apply isAbsolute_of_mem_ancestors
  rw [ancestors, properAncestors_of_parent? hparent]
  exact List.mem_cons_of_mem _ List.mem_cons_self

end Parent

section Shortened

variable {path directory : Path} {steps : Nat}

/-- The path without its last components, as many as there are steps. -/
def shortened (path : Path) : (steps : Nat) → Option Path
  | 0 => some path
  | steps + 1 => (path.shortened steps).bind parent?

theorem shortened_succ (path : Path) (steps : Nat) :
    path.shortened (steps + 1) = path.parent?.bind (·.shortened steps) := by
  induction steps with
  | zero => exact (Option.bind_some _ _).trans (Option.bind_fun_some _).symm
  | succ steps ih =>
      rw [shortened, ih, Option.bind_assoc]
      rfl

/-- The paths at and above a path are the shortened ones. -/
theorem getElem?_ancestors (path : Path) (steps : Nat) :
    path.ancestors[steps]? = path.shortened steps := by
  induction steps generalizing path with
  | zero => rfl
  | succ steps ih =>
      rw [ancestors, List.getElem?_cons_succ, shortened_succ]
      cases hparent : path.parent? with
      | none =>
          rw [List.head?_eq_none_iff.mp hparent]
          rfl
      | some parent =>
          rw [properAncestors_of_parent? hparent]
          exact ih parent

theorem getElem?_properAncestors (path : Path) (steps : Nat) :
    path.properAncestors[steps]? = path.shortened (steps + 1) := by
  rw [← getElem?_ancestors, ancestors, List.getElem?_cons_succ]

/-- A path can be shortened until nothing is left of it but the root, if it has one. -/
theorem isSome_shortened_iff :
    (path.shortened steps).isSome ↔
      steps + (if path.isAbsolute then 1 else 0) ≤ path.components.length := by
  induction steps generalizing path with
  | zero =>
      rw [shortened, Option.isSome_some, eq_self_iff_true, true_iff, Nat.zero_add]
      split
      next habsolute => exact List.length_pos_of_mem (root_mem_components_iff.mpr habsolute)
      next => exact Nat.zero_le _
  | succ steps ih =>
      rw [shortened_succ]
      cases hparent : path.parent? with
      | none =>
          rcases parent?_eq_none_iff.mp hparent with hnil | hroot
          · simp [hnil]
          · have habsolute := root_mem_components_iff.mp (hroot ▸ List.mem_singleton_self _)
            simp [hroot, habsolute]
      | some parent =>
          rw [Option.bind_some, ih, isAbsolute_of_parent? hparent, ← length_of_parent? hparent]
          omega

/-- A shortened path lacks the last components of the path. -/
theorem components_of_shortened (hdirectory : path.shortened steps = some directory) :
    directory.components = path.components.take (path.components.length - steps) := by
  induction steps generalizing directory with
  | zero =>
      obtain rfl := Option.some.inj hdirectory
      exact List.take_length.symm
  | succ steps ih =>
      obtain ⟨longer, hlonger, hparent⟩ := Option.bind_eq_some_iff.mp hdirectory
      rw [components_of_parent? hparent, ih hlonger, List.dropLast_eq_take, List.take_take,
        List.length_take]
      congr 1
      omega

/-- The paths above a path, counted from the nearest, have ever fewer of its components. -/
theorem components_properAncestors (hsteps : steps + 1 < path.components.length) :
    path.properAncestors[steps]?.map components =
      some (path.components.take (path.components.length - (steps + 1))) := by
  have hsome : (path.shortened (steps + 1)).isSome := by
    rw [isSome_shortened_iff]
    split <;> omega
  obtain ⟨above, habove⟩ := Option.isSome_iff_exists.mp hsome
  rw [getElem?_properAncestors, habove, Option.map_some, components_of_shortened habove]

theorem components_getElem_properAncestors (hsteps : steps + 1 < path.components.length) :
    ∃ hbound : steps < path.properAncestors.length, path.properAncestors[steps].components =
      path.components.take (path.components.length - (steps + 1)) := by
  obtain ⟨above, hget, hcomponents⟩ :=
    Option.map_eq_some_iff.mp (components_properAncestors hsteps)
  obtain ⟨hbound, rfl⟩ := List.getElem?_eq_some_iff.mp hget
  exact ⟨hbound, hcomponents⟩

/-- The text of a shortened path is the beginning of the text of the path. -/
theorem exists_text_of_shortened (hdirectory : path.shortened steps = some directory) :
    ∃ more, path.text = directory.text ++ more := by
  induction steps generalizing directory with
  | zero =>
      obtain rfl := Option.some.inj hdirectory
      exact ⟨[], (List.append_nil _).symm⟩
  | succ steps ih =>
      obtain ⟨longer, hlonger, hparent⟩ := Option.bind_eq_some_iff.mp hdirectory
      obtain ⟨last, hlast⟩ := exists_text_of_parent? hparent
      obtain ⟨more, hmore⟩ := ih hlonger
      exact ⟨last ++ more, by rw [hmore, hlast, List.append_assoc]⟩

end Shortened

end EventAudit.Path
