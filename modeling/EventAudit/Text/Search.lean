/-! # Finding one text inside another

Occurrences are reported as the text before and the text after them, so that a
reader never has to compute with positions. -/

namespace EventAudit.Text

/-- The text before and after the first occurrence of `needle`. -/
def cutAt? (needle : List Char) : List Char → Option (List Char × List Char)
  | [] => if needle.isEmpty then some ([], []) else none
  | c :: rest =>
      if needle.isPrefixOf (c :: rest) then some ([], (c :: rest).drop needle.length)
      else (cutAt? needle rest).map fun cut => (c :: cut.1, cut.2)

/-- A cut loses nothing: the text is what stands before, the needle and what stands after. -/
theorem eq_of_cutAt? {needle text before after : List Char}
    (h : cutAt? needle text = some (before, after)) : text = before ++ needle ++ after := by
  induction text generalizing before with
  | nil =>
      simp only [cutAt?, List.isEmpty_iff] at h
      split at h
      next hneedle => simp_all
      next => simp at h
  | cons c rest ih =>
      rw [cutAt?] at h
      split at h
      next hprefix =>
        obtain ⟨tail, htail⟩ := List.isPrefixOf_iff_prefix.mp hprefix
        simp only [Option.some.injEq, Prod.mk.injEq] at h
        obtain ⟨rfl, rfl⟩ := h
        simp [← htail]
      next =>
        obtain ⟨⟨before', after'⟩, hcut, heq⟩ := Option.map_eq_some_iff.mp h
        simp only [Prod.mk.injEq] at heq
        obtain ⟨rfl, rfl⟩ := heq
        simp [ih hcut]

theorem length_after_of_cutAt? {needle text before after : List Char}
    (hneedle : needle ≠ []) (h : cutAt? needle text = some (before, after)) :
    after.length < text.length := by
  have hpos : 0 < needle.length := List.length_pos_iff.mpr hneedle
  rw [eq_of_cutAt? h]
  simp only [List.length_append]
  omega

def contains (needle text : List Char) : Bool :=
  (cutAt? needle text).isSome

/-- Occurrences of `needle` from left to right, the first `skip` characters of the text being
part of an earlier one; `passed` holds what stands before the text, last character first. -/
def occurrencesFrom (needle : List Char) :
    (skip : Nat) → (passed text : List Char) → List (List Char × List Char)
  | _, passed, [] => if needle.isEmpty then [(passed, [])] else []
  | skip + 1, passed, c :: rest => occurrencesFrom needle skip (c :: passed) rest
  | 0, passed, c :: rest =>
      if needle.isPrefixOf (c :: rest) then
        (passed, (c :: rest).drop needle.length) ::
          occurrencesFrom needle (needle.length - 1) (c :: passed) rest
      else occurrencesFrom needle 0 (c :: passed) rest

/-- The occurrences of `needle` that do not overlap, from left to right, each with the text
before it, last character first, and the text after it. The empty needle occurs at every boundary
between characters and at both ends. -/
def occurrences (needle text : List Char) : List (List Char × List Char) :=
  occurrencesFrom needle 0 [] text

end EventAudit.Text
