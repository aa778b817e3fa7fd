import EventAudit.Proofs.Source.MarkerCall
import EventAudit.Proofs.Text.Margin

/-! # The first call on a line

A line is searched for a marker from left to right. Where the first occurrence of the
marker is followed by an opening, this is the call that is found, whatever else stands on
the line. Blanks before a marker that is not blank itself hide no earlier occurrence. -/

namespace EventAudit

namespace Text

/-- Whether no occurrence of a needle begins before the one between `before` and `after`. -/
def IsFirst (needle before after : List Char) : Prop :=
  ∀ other rest, before ++ needle ++ after = other ++ needle ++ rest →
    before.length ≤ other.length

theorem cutAt?_append (needle after : List Char) :
    cutAt? needle (needle ++ after) = some ([], after) := by
  cases htext : needle ++ after with
  | nil =>
      obtain ⟨rfl, rfl⟩ := List.append_eq_nil_iff.mp htext
      rfl
  | cons c rest =>
      have hprefix : needle.isPrefixOf (c :: rest) = true := by
        rw [← htext, List.isPrefixOf_iff_prefix]
        exact List.prefix_append _ _
      rw [cutAt?, if_pos hprefix, ← htext, List.drop_left]

/-- Without its first character, a text before a first occurrence still stands before one, and the
needle does not begin at that character. -/
theorem IsFirst.of_cons {needle before after : List Char} {c : Char}
    (hfirst : IsFirst needle (c :: before) after) :
    IsFirst needle before after ∧ ¬needle.isPrefixOf (c :: (before ++ needle ++ after)) = true := by
  constructor
  · intro other rest heq
    have hle := hfirst (c :: other) rest (by simp only [List.cons_append, heq])
    simpa using hle
  · intro hprefix
    obtain ⟨rest, hrest⟩ := List.isPrefixOf_iff_prefix.mp hprefix
    have hle := hfirst [] rest (by simp only [List.nil_append, List.cons_append, hrest])
    simp at hle

/-- A text is cut at the first occurrence of the needle. -/
theorem cutAt?_eq_some_iff {needle text before after : List Char} :
    cutAt? needle text = some (before, after) ↔
      text = before ++ needle ++ after ∧ IsFirst needle before after := by
  constructor
  · intro hcut
    refine ⟨eq_of_cutAt? hcut, ?_⟩
    intro other rest heq
    rw [← eq_of_cutAt? hcut] at heq
    induction text generalizing before other with
    | nil =>
        have hnil : before ++ needle ++ after = [] := (eq_of_cutAt? hcut).symm
        simp_all
    | cons c text ih =>
        rw [cutAt?] at hcut
        split at hcut
        next =>
          obtain ⟨rfl, -⟩ := Prod.mk.inj (Option.some.inj hcut)
          exact Nat.zero_le _
        next hprefix =>
          obtain ⟨⟨before', after'⟩, hcut', hmk⟩ := Option.map_eq_some_iff.mp hcut
          obtain ⟨rfl, rfl⟩ := Prod.mk.inj hmk
          cases other with
          | nil =>
              refine absurd (List.isPrefixOf_iff_prefix.mpr ?_) hprefix
              exact ⟨rest, heq.symm⟩
          | cons d other =>
              obtain ⟨rfl, heq'⟩ := List.cons.inj heq
              exact Nat.succ_le_succ (ih hcut' other heq')
  · rintro ⟨rfl, hfirst⟩
    induction before with
    | nil => exact cutAt?_append needle after
    | cons c before ih =>
        obtain ⟨hlater, hprefix⟩ := hfirst.of_cons
        rw [List.cons_append, List.cons_append, cutAt?, if_neg hprefix, ih hlater]
        rfl

instance (needle before after : List Char) : Decidable (IsFirst needle before after) :=
  decidable_of_iff (cutAt? needle (before ++ needle ++ after) = some (before, after))
    (cutAt?_eq_some_iff.trans (and_iff_right rfl))

/-- The first of all occurrences is the one at which a text is cut. -/
theorem head?_occurrencesFrom (needle passed text : List Char) :
    (occurrencesFrom needle 0 passed text).head? =
      (cutAt? needle text).map fun cut => (cut.1.reverse ++ passed, cut.2) := by
  induction text generalizing passed with
  | nil =>
      rw [occurrencesFrom, cutAt?]
      split
      · rfl
      · rfl
  | cons c text ih =>
      rw [occurrencesFrom, cutAt?]
      split
      next => rfl
      next =>
        rw [ih, Option.map_map]
        congr 1
        funext cut
        simp

/-- A needle that is not blank does not begin among the blanks before it. -/
theorem isFirst_of_allBlank {needle before : List Char} (hneedle : ¬AllBlank needle)
    (hbefore : AllBlank before) (after : List Char) : IsFirst needle before after := by
  intro other rest heq
  by_contra hlt
  have hleft : other <+: other ++ needle ++ rest := ⟨needle ++ rest, by rw [List.append_assoc]⟩
  have hright : before <+: other ++ needle ++ rest :=
    ⟨needle ++ after, by rw [← List.append_assoc, heq]⟩
  obtain ⟨gap, hgap⟩ : other <+: before :=
    List.prefix_of_prefix_length_le hleft hright (by omega)
  have hother : AllBlank other := fun c hc => hbefore c (hgap ▸ List.mem_append_left _ hc)
  -- Without the blanks in front, both sides begin with the same part of the needle.
  have hdrop : (needle ++ after).dropWhile isBlank = (needle ++ rest).dropWhile isBlank := by
    have hboth := congrArg (List.dropWhile isBlank) heq
    rwa [List.append_assoc, List.append_assoc, List.dropWhile_append_of_pos hbefore,
      List.dropWhile_append_of_pos hother] at hboth
  have hink : ¬(needle.dropWhile isBlank).isEmpty = true := by
    rw [List.isEmpty_iff, List.dropWhile_eq_nil_iff]
    exact hneedle
  rw [List.dropWhile_append, List.dropWhile_append, if_neg hink, if_neg hink] at hdrop
  have hrest : after = rest := List.append_cancel_left hdrop
  have hlength := congrArg List.length heq
  simp only [List.length_append, hrest] at hlength
  omega

/-- Whether an occurrence of a text can begin inside of another one. -/
def OverlapsItself (needle : List Char) : Prop :=
  ∃ shift < needle.length, 0 < shift ∧ needle.drop shift <+: needle

instance (needle : List Char) : Decidable (OverlapsItself needle) :=
  inferInstanceAs (Decidable (∃ shift < needle.length, _))

section Overlap

variable {needle : List Char} (hoverlap : ¬OverlapsItself needle)

include hoverlap

/-- An occurrence that begins before another one also ends before it. -/
theorem length_le_of_prefix {before after : List Char} (hbefore : before ≠ [])
    (hstarts : needle <+: before ++ needle ++ after) : needle.length ≤ before.length := by
  by_contra hlt
  obtain ⟨rest, hrest⟩ := hstarts
  have hdrop : needle.drop before.length <+: needle ++ after := by
    refine ⟨rest, ?_⟩
    rw [← List.drop_append_of_le_length (Nat.le_of_not_le hlt), hrest, List.append_assoc,
      List.drop_left]
  have hlength : (needle.drop before.length).length ≤ needle.length :=
    (List.drop_suffix _ _).length_le
  exact hoverlap ⟨before.length, Nat.not_le.mp hlt, List.length_pos_iff.mpr hbefore,
    List.prefix_of_prefix_length_le hdrop (List.prefix_append _ _) hlength⟩

/-- A needle that does not overlap itself and does not stand in a text occurs first behind it. -/
theorem isFirst_of_not_infix {before : List Char} (hbefore : ¬needle <:+: before)
    (after : List Char) : IsFirst needle before after := by
  intro other rest heq
  by_contra hlt
  have hleft : other <+: before ++ (needle ++ after) :=
    ⟨needle ++ rest, by rw [← List.append_assoc, ← List.append_assoc, heq]⟩
  obtain ⟨gap, rfl⟩ : other <+: before :=
    List.prefix_of_prefix_length_le hleft (List.prefix_append _ _) (Nat.le_of_not_le hlt)
  have hgap : gap ≠ [] := by
    rintro rfl
    simp at hlt
  have hprefix : needle <+: gap ++ needle ++ after := by
    refine ⟨rest, (List.append_right_inj other).mp ?_⟩
    rw [← List.append_assoc, ← heq]
    simp only [List.append_assoc]
  have hinside : needle <+: gap := by
    have hlength := length_le_of_prefix hoverlap hgap hprefix
    rw [List.append_assoc] at hprefix
    exact List.prefix_of_prefix_length_le hprefix (List.prefix_append _ _) hlength
  exact hbefore (hinside.isInfix.trans (List.suffix_append _ _).isInfix)

end Overlap

theorem contains_iff_infix {needle text : List Char} :
    contains needle text = true ↔ needle <:+: text := by
  rw [contains]
  induction text with
  | nil => simp [cutAt?]
  | cons c rest ih =>
      rw [cutAt?, List.infix_cons_iff, ← ih, ← List.isPrefixOf_iff_prefix]
      split
      next hstarts => simp [hstarts]
      next hstarts => simp [hstarts]

end Text

/-- If the first occurrence of a marker opens a call, it is this call that is found. -/
theorem Call.find?_of_isFirst {marker : String} {before after digits blanks inner : List Char}
    (hfirst : Text.IsFirst marker.toList before after)
    (hopening : Opening after digits blanks inner) :
    find? marker (before ++ marker.toList ++ after) =
      some { before, arity := suffixValue? digits, inner } := by
  have hcut : Text.cutAt? marker.toList (before ++ marker.toList ++ after) = some (before, after) :=
    Text.cutAt?_eq_some_iff.mpr ⟨rfl, hfirst⟩
  have hhead : (Text.occurrences marker.toList (before ++ marker.toList ++ after)).head? =
      some (before.reverse, after) := by
    rw [Text.occurrences, Text.head?_occurrencesFrom, hcut, Option.map_some, List.append_nil]
  obtain ⟨later, hlater⟩ := List.head?_eq_some_iff.mp hhead
  rw [find?_eq_some_iff]
  refine ⟨[], before.reverse, after, later, hlater, ?_, fun _ hnil => absurd hnil List.not_mem_nil⟩
  rw [ofOccurrence?_eq_some_iff]
  exact ⟨digits, blanks, hopening, (List.reverse_reverse before).symm, rfl⟩

end EventAudit
