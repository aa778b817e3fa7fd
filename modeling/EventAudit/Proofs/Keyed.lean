import EventAudit.Event.Registry

/-! # Lookups in ascending lists

A list in ascending order of keys is determined by its lookups, and changing one key
changes the lookup of that key only. For the registry this means that a record is
touched by the observations of its own event alone. -/

namespace EventAudit

namespace Keyed

variable {κ α : Type} [BEq κ] [LawfulBEq κ] {entries : List (κ × α)}

theorem lookup_eq_none_of_lt [LE κ] [LT κ] [Std.LawfulOrderLT κ] {key : κ}
    (hlt : ∀ entry ∈ entries, key < entry.1) : entries.lookup key = none := by
  rw [List.lookup_eq_none_iff]
  intro entry hentry
  rw [bne_iff_ne]
  intro heq
  exact Std.lt_irrefl (heq ▸ hlt entry hentry)

variable [DecidableEq κ]

theorem lookup_cons_eq_ite (head : κ × α) (rest : List (κ × α)) (key : κ) :
    (head :: rest).lookup key = if key = head.1 then some head.2 else rest.lookup key := by
  rw [List.lookup_cons]
  by_cases heq : key = head.1
  · rw [if_pos heq, beq_iff_eq.mpr heq]
  · rw [if_neg heq, beq_eq_false_iff_ne.mpr heq]

variable [LE κ] [LT κ] [Std.LawfulOrderLT κ]

theorem lookup_update [Std.IsLinearOrder κ] [DecidableLT κ]
    (hordered : entries.Pairwise (·.1 < ·.1)) (key : κ) (change : Option α → α) (other : κ) :
    (update key change entries).lookup other =
      if other = key then some (change (entries.lookup key)) else entries.lookup other := by
  induction entries with
  | nil => rw [update, lookup_cons_eq_ite, List.lookup_nil, List.lookup_nil]
  | cons head rest ih =>
      obtain ⟨hhead, hrest⟩ := List.pairwise_cons.mp hordered
      rw [update]
      split
      next hlt =>
        -- A key before the first one is not in the list yet.
        have hnone : (head :: rest).lookup key = none := by
          apply lookup_eq_none_of_lt
          intro entry hentry
          rcases List.mem_cons.mp hentry with rfl | hentry
          · exact hlt
          · exact Std.lt_trans hlt (hhead entry hentry)
        rw [hnone, lookup_cons_eq_ite]
      next =>
        simp only [lookup_cons_eq_ite]
        split
        next heq =>
          subst heq
          rw [lookup_cons_eq_ite]
          split <;> rfl
        next hne =>
          rw [lookup_cons_eq_ite, ih hrest]
          by_cases heq : other = head.1
          · have hother : other ≠ key := by
              rintro rfl
              exact hne heq
            rw [if_pos heq, if_pos heq, if_neg hother]
          · rw [if_neg heq, if_neg heq]

theorem mem_iff_lookup_eq_some (hordered : entries.Pairwise (·.1 < ·.1)) {key : κ}
    {value : α} : (key, value) ∈ entries ↔ entries.lookup key = some value := by
  induction entries with
  | nil => simp
  | cons head rest ih =>
      obtain ⟨hhead, hrest⟩ := List.pairwise_cons.mp hordered
      obtain ⟨first, event⟩ := head
      rw [List.mem_cons, lookup_cons_eq_ite, ih hrest, Prod.mk.injEq]
      by_cases heq : key = first
      · subst heq
        have hnone : rest.lookup key = none := lookup_eq_none_of_lt hhead
        simp [hnone, eq_comm]
      · simp [heq]

/-- In an ascending list a key is stored once, or not at all. -/
theorem filter_key_eq (hordered : entries.Pairwise (·.1 < ·.1)) (key : κ) :
    entries.filter (·.1 = key) = (entries.lookup key).toList.map (key, ·) := by
  induction entries with
  | nil => rfl
  | cons head rest ih =>
      obtain ⟨hhead, hrest⟩ := List.pairwise_cons.mp hordered
      obtain ⟨first, value⟩ := head
      rw [lookup_cons_eq_ite]
      by_cases heq : key = first
      · subst heq
        have hnone : rest.lookup key = none := lookup_eq_none_of_lt hhead
        rw [List.filter_cons_of_pos (by simp), ih hrest, hnone]
        simp
      · rw [List.filter_cons_of_neg (by simpa using Ne.symm heq), ih hrest, if_neg heq]

/-- Ascending lists with the same lookups are the same. -/
theorem eq_of_lookup_eq [Std.IsLinearOrder κ] {entries' : List (κ × α)}
    (hordered : entries.Pairwise (·.1 < ·.1)) (hordered' : entries'.Pairwise (·.1 < ·.1))
    (hlookup : ∀ key, entries.lookup key = entries'.lookup key) : entries = entries' := by
  have hnodup : ∀ {entries : List (κ × α)}, entries.Pairwise (·.1 < ·.1) →
      entries.Nodup := by
    intro entries hordered
    refine hordered.imp ?_
    rintro entry entry' hlt rfl
    exact Std.lt_irrefl hlt
  have hperm : entries.Perm entries' := by
    rw [List.perm_ext_iff_of_nodup (hnodup hordered) (hnodup hordered')]
    intro entry
    rw [mem_iff_lookup_eq_some hordered, mem_iff_lookup_eq_some hordered', hlookup]
  refine hperm.eq_of_pairwise ?_ hordered hordered'
  intro entry entry' _ _ hlt hlt'
  exact absurd (Std.lt_trans hlt hlt') Std.lt_irrefl

end Keyed

namespace Registry

variable (registry : Registry) (identifier other : String)

@[simp] theorem get?_update (change : Event → Event) :
    (registry.update identifier change).get? other =
      if other = identifier then some (change ((registry.get? identifier).getD {}))
      else registry.get? other :=
  Keyed.lookup_update registry.ordered identifier _ other

theorem mem_entries_iff {event : Event} :
    (identifier, event) ∈ registry.entries ↔ registry.get? identifier = some event :=
  Keyed.mem_iff_lookup_eq_some registry.ordered

/-- A registry is determined by the records that it holds. -/
theorem ext_get? {registry registry' : Registry}
    (hget : ∀ identifier, registry.get? identifier = registry'.get? identifier) :
    registry = registry' := by
  obtain ⟨entries, hordered⟩ := registry
  obtain ⟨entries', hordered'⟩ := registry'
  obtain rfl := Keyed.eq_of_lookup_eq hordered hordered' hget
  rfl

end Registry
end EventAudit
