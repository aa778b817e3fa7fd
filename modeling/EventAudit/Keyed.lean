/-! # Lists in ascending order of keys

Entries are kept in ascending order of their keys, each key once. Such a list is
changed one key at a time. -/

namespace EventAudit.Keyed

variable {κ α : Type} [LT κ] [DecidableLT κ] [DecidableEq κ]

/-- Change what is stored under a key. The change is told when there is nothing yet. -/
def update (key : κ) (change : Option α → α) : List (κ × α) → List (κ × α)
  | [] => [(key, change none)]
  | entry :: rest =>
      if key < entry.1 then (key, change none) :: entry :: rest
      else if key = entry.1 then (key, change (some entry.2)) :: rest
      else entry :: update key change rest

theorem key_of_mem_update {key : κ} {change : Option α → α} {entries : List (κ × α)}
    {entry : κ × α} (h : entry ∈ update key change entries) :
    entry.1 = key ∨ ∃ old ∈ entries, old.1 = entry.1 := by
  induction entries with
  | nil => simp_all [update]
  | cons head rest ih => grind [update]

theorem update_ordered [LE κ] [Std.IsLinearOrder κ] [Std.LawfulOrderLT κ] (key : κ)
    (change : Option α → α) {entries : List (κ × α)}
    (h : entries.Pairwise (·.1 < ·.1)) : (update key change entries).Pairwise (·.1 < ·.1) := by
  induction entries with
  | nil => simp [update]
  | cons head rest ih =>
      obtain ⟨hhead, hrest⟩ := List.pairwise_cons.mp h
      rw [update]
      split
      next hlt =>
        refine List.pairwise_cons.mpr ⟨fun entry hentry => ?_, h⟩
        rcases List.mem_cons.mp hentry with rfl | hentry
        · exact hlt
        · exact Std.lt_trans hlt (hhead entry hentry)
      next hnot =>
        split
        next heq =>
          exact List.pairwise_cons.mpr ⟨fun entry hentry => heq ▸ hhead entry hentry, hrest⟩
        next hne =>
          have hlt : head.1 < key := by
            rcases Decidable.em (head.1 < key) with hlt | hge
            · exact hlt
            · exact absurd (Std.le_antisymm (Std.not_lt.mp hge) (Std.not_lt.mp hnot)) hne
          refine List.pairwise_cons.mpr ⟨fun entry hentry => ?_, ih hrest⟩
          rcases key_of_mem_update hentry with hkey | ⟨old, hold, hkey⟩
          · exact hkey ▸ hlt
          · exact hkey ▸ hhead old hold

end EventAudit.Keyed
