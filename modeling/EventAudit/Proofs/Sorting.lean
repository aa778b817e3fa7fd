import Mathlib.Data.List.Basic
import Mathlib.Data.List.Pairwise

/-! # Sorting by a comparison that leaves ties

A comparison need not tell different elements apart. Sorting keeps those that tie in
the order in which they came, and this is all that it takes from the order of its
input: two lists are sorted to the same list when each group of ties has the same order
in both. -/

namespace EventAudit.Sorting

variable {α : Type} (cmp : α → α → Ordering) [Std.TransCmp cmp]

theorem isLE_or_isLE (a b : α) : ((cmp a b).isLE || (cmp b a).isLE) = true := by
  have hswap : cmp b a = (cmp a b).swap := Std.OrientedCmp.eq_swap
  rw [hswap]
  cases cmp a b <;> rfl

theorem pairwise_mergeSort_isLE (xs : List α) :
    (xs.mergeSort fun a b => (cmp a b).isLE).Pairwise fun a b => (cmp a b).isLE = true :=
  List.pairwise_mergeSort (fun _ _ _ => Std.TransCmp.isLE_trans) (isLE_or_isLE cmp) xs

/-- Sorting leaves the elements that tie in their order. -/
theorem filter_mergeSort (x : α) (xs : List α) :
    (xs.mergeSort fun a b => (cmp a b).isLE).filter (cmp x · = .eq) =
      xs.filter (cmp x · = .eq) := by
  have hties : (xs.filter (cmp x · = .eq)).Pairwise fun a b => (cmp a b).isLE = true := by
    refine List.pairwise_of_forall_mem_list ?_
    intro a ha b hb
    have hxa : cmp x a = .eq := of_decide_eq_true (List.mem_filter.mp ha).2
    have hxb : cmp x b = .eq := of_decide_eq_true (List.mem_filter.mp hb).2
    rw [← Std.TransCmp.congr_left hxa, hxb]
    rfl
  have hsublist : (xs.filter (cmp x · = .eq)).Sublist
      (xs.mergeSort fun a b => (cmp a b).isLE) :=
    List.sublist_mergeSort (fun _ _ _ => Std.TransCmp.isLE_trans) (isLE_or_isLE cmp) hties
      List.filter_sublist
  -- The ties of the sorted list are as many, so there are no others among them.
  have hfilter := hsublist.filter (cmp x · = .eq)
  simp only [List.filter_filter, Bool.and_self] at hfilter
  have hperm := (List.mergeSort_perm xs fun a b => (cmp a b).isLE).filter (cmp x · = .eq)
  exact (hfilter.eq_of_length hperm.length_eq.symm).symm

variable {cmp}

theorem mem_of_filter_eq {xs ys : List α}
    (hties : ∀ x, xs.filter (cmp x · = .eq) = ys.filter (cmp x · = .eq)) {x : α} (hx : x ∈ xs) :
    x ∈ ys := by
  have hself : decide (cmp x x = .eq) = true := decide_eq_true Std.ReflCmp.compare_self
  have hmem : x ∈ xs.filter (cmp x · = .eq) := List.mem_filter.mpr ⟨hx, hself⟩
  rw [hties x] at hmem
  exact (List.mem_filter.mp hmem).1

/-- Nothing in a sorted list is less than its first element. -/
theorem isLE_of_mem_cons {a b : α} {xs : List α}
    (hxs : (a :: xs).Pairwise fun a b => (cmp a b).isLE = true) (hb : b ∈ a :: xs) :
    (cmp a b).isLE = true := by
  rcases List.mem_cons.mp hb with rfl | hb
  · exact Std.ReflCmp.isLE_rfl
  · exact (List.pairwise_cons.mp hxs).1 b hb

/-- A sorted list is determined by its groups of ties. -/
theorem eq_of_filter_eq {xs ys : List α} (hxs : xs.Pairwise fun a b => (cmp a b).isLE = true)
    (hys : ys.Pairwise fun a b => (cmp a b).isLE = true)
    (hties : ∀ x, xs.filter (cmp x · = .eq) = ys.filter (cmp x · = .eq)) : xs = ys := by
  induction xs generalizing ys with
  | nil =>
      rw [eq_comm, List.eq_nil_iff_forall_not_mem]
      intro y hy
      exact List.not_mem_nil (mem_of_filter_eq (fun x => (hties x).symm) hy)
  | cons a xs ih =>
      cases ys with
      | nil => exact absurd (mem_of_filter_eq hties List.mem_cons_self) List.not_mem_nil
      | cons b ys =>
          -- The first elements are in both lists, so neither is greater than the other.
          have hab : (cmp a b).isLE = true :=
            isLE_of_mem_cons hxs (mem_of_filter_eq (fun x => (hties x).symm) List.mem_cons_self)
          have hba : (cmp b a).isLE = true :=
            isLE_of_mem_cons hys (mem_of_filter_eq hties List.mem_cons_self)
          have htie : cmp a b = .eq := Std.OrientedCmp.isLE_antisymm hab hba
          have hself : cmp a a = .eq := Std.ReflCmp.compare_self
          -- They tie, so both begin the same group.
          have hgroup := hties a
          simp only [List.filter_cons, hself, htie, decide_true, if_true] at hgroup
          obtain rfl : a = b := (List.cons.inj hgroup).1
          rw [ih (List.pairwise_cons.mp hxs).2 (List.pairwise_cons.mp hys).2]
          intro x
          have hx := hties x
          rw [List.filter_cons, List.filter_cons] at hx
          split at hx
          next => exact (List.cons.inj hx).2
          next => exact hx

theorem mergeSort_eq_of_filter_eq {xs ys : List α}
    (hties : ∀ x, xs.filter (cmp x · = .eq) = ys.filter (cmp x · = .eq)) :
    (xs.mergeSort fun a b => (cmp a b).isLE) = ys.mergeSort fun a b => (cmp a b).isLE := by
  apply eq_of_filter_eq (pairwise_mergeSort_isLE cmp xs) (pairwise_mergeSort_isLE cmp ys)
  intro x
  rw [filter_mergeSort, filter_mergeSort, hties x]

end EventAudit.Sorting
