import EventAudit.Proofs.Text.Lines
import EventAudit.Text.Blank
import EventAudit.Text.Search
import Mathlib.Data.List.DropRight
import Mathlib.Data.List.Forall2
import Mathlib.Data.List.TakeWhile

/-! # Blanks around a text

Blanks before and after a text are no part of what is looked for in it. Trimming drops
them, a needle without blanks never reaches into them, and at a separator that is not
blank they stay with the first and the last field. -/

namespace EventAudit.Text

/-- Whether a text consists of blanks. -/
def AllBlank (text : List Char) : Prop :=
  ∀ c ∈ text, isBlank c = true

instance (text : List Char) : Decidable (AllBlank text) :=
  decidable_of_iff (text.all isBlank = true) List.all_eq_true

theorem allBlank_nil : AllBlank [] :=
  fun _ hc => absurd hc List.not_mem_nil

namespace AllBlank

variable {text : List Char} {c : Char}

theorem head (hblank : AllBlank (c :: text)) : isBlank c = true :=
  hblank c List.mem_cons_self

theorem tail (hblank : AllBlank (c :: text)) : AllBlank text :=
  fun d hd => hblank d (List.mem_cons_of_mem c hd)

theorem reverse (hblank : AllBlank text) : AllBlank text.reverse :=
  fun c hc => hblank c (List.mem_reverse.mp hc)

/-- What is not a blank is not among blanks. -/
theorem not_mem (hblank : AllBlank text) (hc : isBlank c = false) : c ∉ text := by
  intro hmem
  rw [hblank c hmem] at hc
  cases hc

theorem find?_eq_none (hblank : AllBlank text) : text.find? (!isBlank ·) = none := by
  rw [List.find?_eq_none]
  intro c hc
  simp [hblank c hc]

end AllBlank

/-- Blanks to be put around a text. -/
structure Margin where
  left : List Char
  right : List Char
  left_blank : AllBlank left
  right_blank : AllBlank right

/-- Blanks before a text only. -/
def Margin.before (left : List Char) (hleft : AllBlank left) : Margin :=
  { left, right := [], left_blank := hleft, right_blank := allBlank_nil }

/-- Blanks after a text only. -/
def Margin.after (right : List Char) (hright : AllBlank right) : Margin :=
  { left := [], right, left_blank := allBlank_nil, right_blank := hright }

/-- A text with blanks around it. -/
def Margin.around (margin : Margin) (text : List Char) : List Char :=
  margin.left ++ text ++ margin.right

/-- Whether two texts differ by blanks around the first one. -/
def Padded (text padded : List Char) : Prop :=
  ∃ margin : Margin, padded = margin.around text

section Trimming

variable (margin : Margin) (text : List Char)

/-- The first character that is not blank stays the first one. -/
theorem head?_trimStart_around :
    (trimStart (margin.around text)).head? = (trimStart text).head? := by
  rw [trimStart, trimStart, ← List.find?_not_eq_head?_dropWhile,
    ← List.find?_not_eq_head?_dropWhile, Margin.around, List.find?_append, List.find?_append,
    margin.left_blank.find?_eq_none, margin.right_blank.find?_eq_none, Option.none_or,
    Option.or_none]

theorem getLast?_trimEnd_around :
    (trimEnd (margin.around text)).getLast? = (trimEnd text).getLast? := by
  rw [trimEnd, trimEnd, dropWhileEnd, dropWhileEnd, List.getLast?_reverse, List.getLast?_reverse,
    ← List.find?_not_eq_head?_dropWhile, ← List.find?_not_eq_head?_dropWhile, Margin.around,
    List.reverse_append, List.reverse_append, List.find?_append, List.find?_append,
    margin.left_blank.reverse.find?_eq_none, margin.right_blank.reverse.find?_eq_none,
    Option.none_or, Option.or_none]

theorem dropWhileEnd_eq_rdropWhile (p : Char → Bool) (text : List Char) :
    dropWhileEnd p text = text.rdropWhile p :=
  rfl

theorem takeWhileEnd_eq_rtakeWhile (p : Char → Bool) (text : List Char) :
    takeWhileEnd p text = text.rtakeWhile p :=
  rfl

theorem dropWhileEnd_append {p : Char → Bool} {right : List Char}
    (hright : ∀ c ∈ right, p c = true) :
    dropWhileEnd p (text ++ right) = dropWhileEnd p text := by
  rw [dropWhileEnd, dropWhileEnd, List.reverse_append, List.dropWhile_append_of_pos]
  intro c hc
  exact hright c (List.mem_reverse.mp hc)

/-- Trimming more than blanks drops the blanks around a text as well. -/
theorem trimWhere_around {p : Char → Bool} (hp : ∀ c, isBlank c = true → p c = true) :
    trimWhere p (margin.around text) = trimWhere p text := by
  have hright : ∀ c ∈ margin.right, p c = true := fun c hc => hp c (margin.right_blank c hc)
  rw [trimWhere, trimWhere, Margin.around, List.append_assoc,
    List.dropWhile_append_of_pos fun c hc => hp c (margin.left_blank c hc), List.dropWhile_append]
  split
  next hempty =>
    rw [List.isEmpty_iff.mp hempty, List.dropWhile_eq_nil_iff.mpr hright]
  next => exact dropWhileEnd_append _ hright

variable {text} {p : Char → Bool}

theorem rdropWhile_of_getLast? (hlast : ∀ c ∈ text.getLast?, p c = false) :
    text.rdropWhile p = text := by
  rw [List.rdropWhile_eq_self_iff]
  intro hne
  rw [hlast _ (List.getLast?_eq_some_getLast hne)]
  exact Bool.false_ne_true

/-- Whether a text neither begins nor ends with a character that is trimmed away. -/
structure Trimmed (p : Char → Bool) (text : List Char) : Prop where
  head : ∀ c ∈ text.head?, p c = false
  last : ∀ c ∈ text.getLast?, p c = false

theorem trimmed_iff :
    Trimmed p text ↔ text.head?.any p = false ∧ text.getLast?.any p = false := by
  simp only [Option.any_eq_false]
  exact ⟨fun htext => ⟨htext.head, htext.last⟩, fun htext => ⟨htext.1, htext.2⟩⟩

instance (p : Char → Bool) (text : List Char) : Decidable (Trimmed p text) :=
  decidable_of_iff _ trimmed_iff.symm

/-- Trimming stops at a text that is trimmed already. -/
theorem Trimmed.trimWhere_between (htext : Trimmed p text) {left right : List Char}
    (hleft : ∀ c ∈ left, p c = true) (hright : ∀ c ∈ right, p c = true) :
    trimWhere p (left ++ text ++ right) = text := by
  rw [trimWhere, List.append_assoc, List.dropWhile_append_of_pos hleft]
  cases text with
  | nil => rw [List.nil_append, List.dropWhile_eq_nil_iff.mpr hright]; rfl
  | cons c rest =>
      have hc : ¬p c = true := by
        rw [htext.head c rfl]
        exact Bool.false_ne_true
      rw [List.cons_append, List.dropWhile_cons_of_neg hc, ← List.cons_append,
        dropWhileEnd_append _ hright, dropWhileEnd_eq_rdropWhile,
        rdropWhile_of_getLast? htext.last]

end Trimming

/-- What a text has to be in order to be looked for: something, and without blanks. -/
structure Solid (needle : List Char) : Prop where
  ne_nil : needle ≠ []
  not_blank : ∀ c ∈ needle, isBlank c = false

theorem solid_iff {needle : List Char} :
    Solid needle ↔ needle ≠ [] ∧ needle.all (!isBlank ·) = true := by
  simp only [List.all_eq_true, Bool.not_eq_true']
  exact ⟨fun hneedle => ⟨hneedle.ne_nil, hneedle.not_blank⟩, fun hneedle => ⟨hneedle.1, hneedle.2⟩⟩

instance (needle : List Char) : Decidable (Solid needle) :=
  decidable_of_iff _ solid_iff.symm

theorem beq_eq_false_of_isBlank {c d : Char} (hc : isBlank c = false) (hd : isBlank d = true) :
    (c == d) = false := by
  rw [beq_eq_false_iff_ne]
  rintro rfl
  rw [hc] at hd
  cases hd

/-- A needle without blanks does not reach into the blanks after a text. -/
theorem isPrefixOf_append {needle right : List Char} (hneedle : ∀ c ∈ needle, isBlank c = false)
    (hright : AllBlank right) (text : List Char) :
    needle.isPrefixOf (text ++ right) = needle.isPrefixOf text := by
  induction text generalizing needle with
  | nil =>
      cases needle with
      | nil => rfl
      | cons c needle =>
          cases right with
          | nil => rfl
          | cons d right =>
              rw [List.nil_append, List.isPrefixOf_cons_cons, beq_eq_false_of_isBlank
                (hneedle c List.mem_cons_self) hright.head]
              rfl
  | cons d text ih =>
      cases needle with
      | nil => rfl
      | cons c needle =>
          rw [List.cons_append, List.isPrefixOf_cons_cons, List.isPrefixOf_cons_cons,
            ih fun c hc => hneedle c (List.mem_cons_of_mem _ hc)]

section Searching

variable {needle left right : List Char} (hneedle : Solid needle) (hleft : AllBlank left)
  (hright : AllBlank right)

include hneedle

theorem isPrefixOf_cons_of_isBlank {c : Char} (hblank : isBlank c = true) (rest : List Char) :
    needle.isPrefixOf (c :: rest) = false := by
  obtain ⟨hne, hink⟩ := hneedle
  cases needle with
  | nil => exact absurd rfl hne
  | cons d needle =>
      rw [List.isPrefixOf_cons_cons, beq_eq_false_of_isBlank (hink d List.mem_cons_self) hblank,
        Bool.false_and]

include hleft in
theorem cutAt?_append_left (text : List Char) :
    cutAt? needle (left ++ text) =
      (cutAt? needle text).map fun cut => (left ++ cut.1, cut.2) := by
  induction left with
  | nil => simp
  | cons c left ih =>
      rw [List.cons_append, cutAt?, isPrefixOf_cons_of_isBlank hneedle hleft.head,
        if_neg Bool.false_ne_true, ih hleft.tail, Option.map_map]
      rfl

include hright

theorem cutAt?_eq_none_of_allBlank : cutAt? needle right = none := by
  have hcut := cutAt?_append_left hneedle hright []
  rw [List.append_nil, cutAt?, if_neg (by simpa using hneedle.ne_nil)] at hcut
  exact hcut

theorem cutAt?_append_right (text : List Char) :
    cutAt? needle (text ++ right) =
      (cutAt? needle text).map fun cut => (cut.1, cut.2 ++ right) := by
  induction text with
  | nil =>
      rw [List.nil_append, cutAt?_eq_none_of_allBlank hneedle hright, cutAt?,
        if_neg (by simpa using hneedle.ne_nil)]
      rfl
  | cons c text ih =>
      rw [List.cons_append, cutAt?, cutAt?, ← List.cons_append,
        isPrefixOf_append hneedle.not_blank hright, ih]
      split
      next hprefix =>
        have hlength : needle.length ≤ (c :: text).length :=
          (List.isPrefixOf_iff_prefix.mp hprefix).length_le
        rw [Option.map_some, List.drop_append_of_le_length hlength]
      next =>
        rw [Option.map_map, Option.map_map]
        rfl

theorem occurrencesFrom_eq_nil_of_allBlank (skip : Nat) (passed : List Char) :
    occurrencesFrom needle skip passed right = [] := by
  have hempty : needle.isEmpty = false := by simpa using hneedle.ne_nil
  induction right generalizing skip passed with
  | nil => cases skip <;> simp [occurrencesFrom, hempty]
  | cons c right ih =>
      cases skip with
      | zero =>
          rw [occurrencesFrom, isPrefixOf_cons_of_isBlank hneedle hright.head,
            if_neg Bool.false_ne_true, ih hright.tail]
      | succ skip => rw [occurrencesFrom, ih hright.tail]

theorem occurrencesFrom_append_right (skip : Nat) (passed text : List Char) :
    occurrencesFrom needle skip passed (text ++ right) =
      (occurrencesFrom needle skip passed text).map fun found => (found.1, found.2 ++ right) := by
  fun_induction occurrencesFrom needle skip passed text with
  | case1 skip passed hempty => exact absurd (List.isEmpty_iff.mp hempty) hneedle.ne_nil
  | case2 skip passed _ => exact occurrencesFrom_eq_nil_of_allBlank hneedle hright skip passed
  | case3 skip passed c rest ih => rw [List.cons_append, occurrencesFrom, ih]
  | case4 passed c rest hprefix ih =>
      have hlength : needle.length ≤ (c :: rest).length :=
        (List.isPrefixOf_iff_prefix.mp hprefix).length_le
      rw [List.cons_append, occurrencesFrom, ← List.cons_append,
        isPrefixOf_append hneedle.not_blank hright, if_pos hprefix, ih,
        List.drop_append_of_le_length hlength, List.map_cons]
  | case5 passed c rest hprefix ih =>
      rw [List.cons_append, occurrencesFrom, ← List.cons_append,
        isPrefixOf_append hneedle.not_blank hright, if_neg hprefix, ih]

omit hright in
include hleft in
theorem occurrencesFrom_append_left (passed text : List Char) :
    occurrencesFrom needle 0 passed (left ++ text) =
      occurrencesFrom needle 0 (left.reverse ++ passed) text := by
  induction left generalizing passed with
  | nil => rfl
  | cons c left ih =>
      rw [List.cons_append, occurrencesFrom, isPrefixOf_cons_of_isBlank hneedle hleft.head,
        if_neg Bool.false_ne_true, ih hleft.tail, List.reverse_cons, List.append_assoc]
      rfl

end Searching

/-- What stands before a text stands before all that is found in it. -/
theorem occurrencesFrom_append_passed (needle : List Char) (skip : Nat)
    (passed earlier text : List Char) :
    occurrencesFrom needle skip (passed ++ earlier) text =
      (occurrencesFrom needle skip passed text).map fun found => (found.1 ++ earlier, found.2) := by
  fun_induction occurrencesFrom needle skip passed text with
  | case1 skip passed hempty => rw [occurrencesFrom, if_pos hempty]; rfl
  | case2 skip passed hempty => rw [occurrencesFrom, if_neg hempty]; rfl
  | case3 skip passed c rest ih => rw [occurrencesFrom, ← List.cons_append, ih]
  | case4 passed c rest hprefix ih =>
      rw [occurrencesFrom, if_pos hprefix, ← List.cons_append, ih]
      rfl
  | case5 passed c rest hprefix ih =>
      rw [occurrencesFrom, if_neg hprefix, ← List.cons_append, ih]

/-- A needle occurs in a text with blanks around it where it occurs in the text. -/
theorem occurrences_around {needle : List Char} (hneedle : Solid needle) (margin : Margin)
    (text : List Char) :
    occurrences needle (margin.around text) = (occurrences needle text).map fun found =>
      (found.1 ++ margin.left.reverse, found.2 ++ margin.right) := by
  rw [occurrences, Margin.around, occurrencesFrom_append_right hneedle margin.right_blank,
    occurrencesFrom_append_left hneedle margin.left_blank, List.append_nil,
    ← List.nil_append margin.left.reverse, occurrencesFrom_append_passed, List.map_map]
  rfl

/-- A needle is cut out of a text with blanks around it where it is cut out of the text. -/
theorem cutAt?_around {needle : List Char} (hneedle : Solid needle) (margin : Margin)
    (text : List Char) :
    cutAt? needle (margin.around text) =
      (cutAt? needle text).map fun cut => (margin.left ++ cut.1, cut.2 ++ margin.right) := by
  rw [Margin.around, cutAt?_append_right hneedle margin.right_blank,
    cutAt?_append_left hneedle margin.left_blank, Option.map_map]
  rfl

theorem contains_nil {needle : List Char} (hneedle : needle ≠ []) :
    contains needle [] = false := by
  rw [contains, cutAt?, if_neg (by simpa using hneedle), Option.isSome_none]

theorem contains_around {needle : List Char} (hneedle : Solid needle) (margin : Margin)
    (text : List Char) : contains needle (margin.around text) = contains needle text := by
  rw [contains, cutAt?_around hneedle, Option.isSome_map, contains]

theorem Margin.not_mem_around {separator : Char} (hseparator : isBlank separator = false)
    (margin : Margin) {text : List Char} (htext : separator ∉ text) :
    separator ∉ margin.around text := by
  simp only [around, List.mem_append, not_or]
  exact ⟨⟨margin.left_blank.not_mem hseparator, htext⟩, margin.right_blank.not_mem hseparator⟩

/-- Blanks around a text stay with its first and its last field. -/
theorem forall₂_splitOn_around {separator : Char} (hseparator : isBlank separator = false)
    (margin : Margin) (text : List Char) :
    List.Forall₂ Padded (text.splitOn separator) ((margin.around text).splitOn separator) := by
  induction text using split_induction separator generalizing margin with
  | last piece hpiece =>
      rw [splitOn_of_not_mem hpiece, splitOn_of_not_mem (margin.not_mem_around hseparator hpiece)]
      exact .cons ⟨margin, rfl⟩ .nil
  | cut piece rest hpiece ih =>
      have hpadded : margin.around (piece ++ separator :: rest) =
          (Margin.before margin.left margin.left_blank).around piece ++ separator ::
            (Margin.after margin.right margin.right_blank).around rest := by
        simp [Margin.around, Margin.before, Margin.after]
      rw [hpadded, splitOn_append_cons hpiece,
        splitOn_append_cons (Margin.not_mem_around hseparator _ hpiece)]
      exact .cons ⟨_, rfl⟩ (ih _)

/-- The carriage return of a line break is a blank after the line. -/
theorem padded_dropReturn (piece : List Char) : Padded (dropReturn piece) piece := by
  rcases eq_dropReturn_or piece with hpiece | hpiece
  · refine ⟨.after [] allBlank_nil, ?_⟩
    rw [← hpiece]
    exact (List.append_nil piece).symm
  · exact ⟨.after ['\r'] (by decide), hpiece⟩

/-- What passes over blanks sees the same fields. -/
theorem map_eq_of_forall₂_padded {α : Type} {f : List Char → α}
    (hf : ∀ (margin : Margin) (text : List Char), f (margin.around text) = f text)
    {fields padded : List (List Char)} (hpadded : List.Forall₂ Padded fields padded) :
    padded.map f = fields.map f := by
  induction hpadded with
  | nil => rfl
  | cons hfield _ ih =>
      obtain ⟨margin, rfl⟩ := hfield
      rw [List.map_cons, List.map_cons, hf, ih]

end EventAudit.Text
