import EventAudit.Proofs.Issue.Rules
import Mathlib.Data.List.Forall2

/-! # Fire calls that disagree

A fire call can disagree with three numbers of arguments: that of its own suffix, that which
the declaration of its event announces and, if none is announced, that of the first call.
The rule looks at one of them only, the first that applies. It nevertheless reports exactly the
calls that disagree with any of them, each once and in the order of the registry. -/

namespace EventAudit

section Lists

variable {α β : Type} {p : α → Bool} {f : α → Option β} {R : α → β → Prop}

/-- Where a partial function has results exactly on what is kept by a filter, its results stand
against what is kept, one for one. -/
theorem forall₂_filter_filterMap {items : List α} (hkept : ∀ item ∈ items, (f item).isSome = p item)
    (hresult : ∀ item ∈ items, ∀ result, f item = some result → R item result) :
    List.Forall₂ R (items.filter p) (items.filterMap f) := by
  induction items with
  | nil => exact .nil
  | cons item rest ih =>
      have hrest := ih (fun later hlater => hkept later (List.mem_cons_of_mem _ hlater))
        fun later hlater => hresult later (List.mem_cons_of_mem _ hlater)
      have hitem := hkept item List.mem_cons_self
      cases hf : f item with
      | none =>
          rw [hf, Option.isSome_none] at hitem
          rwa [List.filter_cons_of_neg (by simp [← hitem]), List.filterMap_cons_none hf]
      | some result =>
          rw [hf, Option.isSome_some] at hitem
          rw [List.filter_cons_of_pos hitem.symm, List.filterMap_cons_some hf]
          exact .cons (hresult item List.mem_cons_self result hf) hrest

end Lists

namespace Event

variable {event : Event} {call : FireCall} {expected : Nat} {reference : ArityReference}

/-- Whether a call disagrees with its own suffix, with what the declaration announces or, if
nothing is announced, with the first call. -/
def Disagrees (event : Event) (call : FireCall) : Prop :=
  call.BreaksSuffix ∨ (∃ declared ∈ event.declaredArity, call.args.length ≠ declared) ∨
    event.declaredArity = none ∧
      ∃ first ∈ event.fireCalls.head?, call.args.length ≠ first.args.length

instance (event : Event) (call : FireCall) : Decidable (event.Disagrees call) :=
  inferInstanceAs (Decidable (_ ∨ _ ∨ _))

theorem disagrees_iff_commonArity? :
    event.Disagrees call ↔
      call.BreaksSuffix ∨ ∃ common ∈ event.commonArity?, call.args.length ≠ common := by
  rw [Disagrees, commonArity?]
  cases event.declaredArity with
  | none => simp
  | some declared => simp

theorem isSome_arityMismatch?_iff (identifier : String) :
    (event.arityMismatch? identifier call).isSome = true ↔ event.Disagrees call := by
  rw [Option.isSome_iff_ne_none, ne_eq, arityMismatch?_eq_none_iff_agrees,
    disagrees_iff_commonArity?, FireCall.BreaksSuffix, not_and_or]
  simp [eq_comm]

theorem arityMismatch?_eq_some_iff {identifier : String} {issue : Issue} :
    event.arityMismatch? identifier call = some issue ↔ ∃ expected reference,
      issue = .arityMismatch identifier call expected reference ∧
        event.Measures call expected reference ∧ call.args.length ≠ expected := by
  rw [arityMismatch?]
  simp only [← expectedArity?_eq_some_iff]
  cases event.expectedArity? call with
  | none => simp
  | some measure =>
      obtain ⟨expected, reference⟩ := measure
      simp only [Option.ite_none_right_eq_some, Option.some.injEq, Prod.mk.injEq]
      constructor
      · rintro ⟨hne, rfl⟩
        exact ⟨expected, reference, rfl, ⟨rfl, rfl⟩, hne⟩
      · rintro ⟨_, _, rfl, ⟨rfl, rfl⟩, hne⟩
        exact ⟨hne, rfl⟩

namespace Measures

variable (hmeasures : event.Measures call expected reference)

include hmeasures

theorem ownSuffix_iff : reference = .ownSuffix ↔ call.BreaksSuffix := by
  cases hmeasures with
  | ownSuffix hsuffix hbroken => exact iff_of_true rfl ⟨_, hsuffix, hbroken⟩
  | declaration hkept => exact iff_of_false (by simp) hkept
  | firstCall hkept => exact iff_of_false (by simp) hkept

theorem declaration_iff (hkept : ¬call.BreaksSuffix) :
    (∃ file, reference = .declaration file) ↔ event.declaredArity.isSome = true := by
  cases hmeasures with
  | ownSuffix hsuffix hbroken => exact absurd ⟨_, hsuffix, hbroken⟩ hkept
  | declaration _ hdeclared => exact iff_of_true ⟨_, rfl⟩ (by rw [hdeclared]; rfl)
  | firstCall _ hnone => exact iff_of_false (by simp) (by simp [hnone])

/-- The first call agrees with itself, so that only its suffix can be held against it. -/
theorem ownSuffix_of_head? (hdeclared : event.declaredArity = none)
    (hfirst : event.fireCalls.head? = some call) (hne : call.args.length ≠ expected) :
    reference = .ownSuffix := by
  cases hmeasures with
  | ownSuffix => rfl
  | declaration _ hsome =>
      rw [hdeclared] at hsome
      cases hsome
  | firstCall _ _ hhead =>
      rw [hfirst] at hhead
      obtain rfl := Option.some.inj hhead
      exact absurd rfl hne

end Measures
end Event

namespace Registry

/-- All fire calls with the entries that they belong to, in the order of the registry. -/
def firings (registry : Registry) : List ((String × Event) × FireCall) :=
  registry.entries.flatMap fun entry => entry.2.fireCalls.map fun call => (entry, call)

theorem audit_arityMismatch (registry : Registry) :
    registry.audit [.arityMismatch] = registry.firings.filterMap fun firing =>
      firing.1.2.arityMismatch? firing.1.1 firing.2 := by
  rw [audit, List.flatMap_singleton, firings, List.filterMap_flatMap]
  congr 1
  funext entry
  rw [List.filterMap_map]
  rfl

/-- The rule about arities reports the calls that disagree, one for one and in the order of the
registry. What it holds against a call is the call's own suffix if that is broken, else the
declaration if that announces an arity, else the first call, which is never held against itself. -/
theorem arity_rule_reports_disagreements (registry : Registry) :
    List.Forall₂
      (fun (firing : (String × Event) × FireCall) (issue : Issue) => ∃ expected reference,
        let (identifier, event) := firing.1
        let call := firing.2
        issue = .arityMismatch identifier call expected reference ∧
          event.Measures call expected reference ∧
          expected ≠ call.args.length ∧
          (reference = .ownSuffix ↔ call.BreaksSuffix) ∧
          (¬call.BreaksSuffix →
            ((∃ file, reference = .declaration file) ↔ event.declaredArity.isSome = true)) ∧
          (event.declaredArity = none → event.fireCalls.head? = some call →
            reference = .ownSuffix))
      (registry.firings.filter fun firing => firing.1.2.Disagrees firing.2)
      (registry.audit [.arityMismatch]) := by
  rw [audit_arityMismatch]
  apply forall₂_filter_filterMap
  · rintro ⟨⟨identifier, event⟩, call⟩ -
    rw [Bool.eq_iff_iff, decide_eq_true_iff]
    exact Event.isSome_arityMismatch?_iff identifier
  · rintro ⟨⟨identifier, event⟩, call⟩ - issue hissue
    obtain ⟨expected, reference, rfl, hmeasures, hne⟩ := Event.arityMismatch?_eq_some_iff.mp hissue
    exact ⟨expected, reference, rfl, hmeasures, hne.symm, hmeasures.ownSuffix_iff,
      hmeasures.declaration_iff, fun hdeclared hfirst =>
        hmeasures.ownSuffix_of_head? hdeclared hfirst hne⟩

end Registry
end EventAudit
