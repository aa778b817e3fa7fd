import EventAudit.Proofs.Reordering
import EventAudit.Proofs.Sorting

/-! # Issues as they are shown

Issues are sorted by place, rule and event before they are shown. Different issues may
tie: two kinds of sites can move to the same file. Ties are of one rule, and keep the
order in which that rule reports them, so that the order in which the rules are run
does not show. -/

namespace EventAudit

theorem Rule.rank_injective : Function.Injective rank := by
  intro rule rule'
  cases rule <;> cases rule' <;> decide

namespace Issue

/-- Whether a place in a file comes before another one, the whole file before all its lines. -/
def LineBefore : Option Nat → Option Nat → Prop
  | _, none => False
  | none, some _ => True
  | some m, some n => m < n

/-- Whether an issue may be shown before another one: files are taken in their order, then lines,
then rules, then events. -/
def InOrder (a b : Issue) : Prop :=
  a.file < b.file ∨ a.file = b.file ∧
    (LineBefore a.line b.line ∨ a.line = b.line ∧
      (a.rule.rank < b.rule.rank ∨ a.rule = b.rule ∧ a.event ≤ b.event))

theorem compare_line_eq_lt_iff {m n : Option Nat} : compare m n = .lt ↔ LineBefore m n := by
  cases m with
  | none => cases n <;> simp [LineBefore, compare]
  | some m =>
      cases n with
      | none => simp [LineBefore, compare]
      | some n => exact Nat.compare_eq_lt

theorem isLE_order_iff {a b : Issue} : (order a b).isLE = true ↔ a.InOrder b := by
  have hevent : (compare a.event b.event).isLE = true ↔ a.event ≤ b.event :=
    Ordering.isLE_iff_ne_gt.trans compare_le_iff_le
  simp only [InOrder, order, compareLex, compareOn, Ordering.isLE_then_iff_or, compare_lt_iff_lt,
    compare_line_eq_lt_iff, Std.LawfulEqOrd.compare_eq_iff_eq, Rule.rank_injective.eq_iff, hevent]

instance : Std.TransCmp order :=
  inferInstanceAs (Std.TransCmp (compareLex (compareOn file) (compareLex (compareOn line)
    (compareLex (compareOn fun issue => issue.rule.rank) (compareOn event)))))

theorem rule_eq_of_order_eq {a b : Issue} (htie : order a b = .eq) : a.rule = b.rule := by
  simp only [order, compareLex, compareOn, Ordering.then_eq_eq,
    Std.LawfulEqOrd.compare_eq_iff_eq] at htie
  exact Rule.rank_injective htie.2.2.1

end Issue

namespace Registry

/-- Issues that tie with a given one come from one rule, so that they are reported in the same
order whatever the order of the rules. -/
theorem filter_order_audit_of_perm (registry : Registry) {rules rules' : List Rule}
    (hperm : rules.Perm rules') (issue : Issue) :
    (registry.audit rules).filter (issue.order · = .eq) =
      (registry.audit rules').filter (issue.order · = .eq) := by
  rw [audit, audit, List.filter_flatMap, List.filter_flatMap]
  have hrule : ∀ rule : Rule, (registry.entries.flatMap fun entry =>
      rule.check entry.1 entry.2).filter (issue.order · = .eq) ≠ [] → issue.rule = rule := by
    intro rule hties
    obtain ⟨tie, htie⟩ := List.exists_mem_of_ne_nil _ hties
    obtain ⟨hmem, horder⟩ := List.mem_filter.mp htie
    obtain ⟨entry, -, hissue⟩ := List.mem_flatMap.mp hmem
    rw [Issue.rule_eq_of_order_eq (of_decide_eq_true horder)]
    exact (Rule.mem_check_iff.mp hissue).rule_event.1
  apply flatMap_eq_of_perm hperm
  intro rule _ rule' _ hties hties'
  exact (hrule rule hties).symm.trans (hrule rule' hties')

/-- The issues that are shown do not depend on the order in which the rules are run, not even
where they tie. They are those that the rules report, sorted by file, line, rule and event. -/
theorem sort_audit_eq_of_perm (registry : Registry) (rules rules' : List Rule)
    (hperm : rules.Perm rules') :
    let shown := Issue.sort (registry.audit rules)
    shown = Issue.sort (registry.audit rules') ∧
      shown.Perm (registry.audit rules) ∧ shown.Pairwise Issue.InOrder := by
  intro shown
  refine ⟨?_, List.mergeSort_perm _ _, ?_⟩
  · exact Sorting.mergeSort_eq_of_filter_eq (registry.filter_order_audit_of_perm hperm)
  · exact (Sorting.pairwise_mergeSort_isLE Issue.order _).imp Issue.isLE_order_iff.mp

/-- Two kinds of sites move to one file, and the rule about it is run twice: its issues tie, and
other rules stand before, between or after. -/
theorem sort_audit_eq_with_ties :
    let registry := run
      [.merge { file := "a.h", plugin := "builtin", observations :=
          [{ line := 1, extraction := .declaration "evt" none },
            { line := 2, extraction := .creation "evt" "ready" }] },
        .merge { file := "b.h", plugin := "builtin", observations :=
          [{ line := 1, extraction := .creation "evt" "ready" },
            { line := 7, extraction := .declaration "evt" none }] }]
    let created := Issue.conflictingProvenance "evt"
      { kind := .creation, previous := "a.h", current := "b.h" }
    let declared := Issue.conflictingProvenance "evt"
      { kind := .declaration, previous := "a.h", current := "b.h" }
    let undefined := Issue.missingDefinition "evt" "b.h"
    let rules : List Rule := [.conflictingProvenance, .missingDefinition, .conflictingProvenance]
    let rules' : List Rule := [.missingDefinition, .conflictingProvenance, .conflictingProvenance]
    registry.audit rules = [created, declared, undefined, created, declared] ∧
      registry.audit rules' = [undefined, created, declared, created, declared] ∧
      created.order declared = .eq ∧
      Issue.sort (registry.audit rules) = [undefined, created, declared, created, declared] := by
  intro registry created declared undefined rules rules'
  have haudit : registry.audit rules' = [undefined, created, declared, created, declared] := by
    decide +kernel
  have hperm : rules.Perm rules' := by decide +kernel
  refine ⟨by decide +kernel, haudit, by decide +kernel, ?_⟩
  rw [(sort_audit_eq_of_perm registry rules rules' hperm).1, haudit]
  exact List.mergeSort_of_pairwise (by decide +kernel)

end Registry
end EventAudit
