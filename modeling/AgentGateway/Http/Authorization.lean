/-
Authorization rules (`http/authorization.rs`), and what a collection of them
admits.

A rule is a CEL expression; what it evaluates to on a request is fixed by
the request, so an executor is the function that evaluates rules. The
trace of the single rule results, which no decision reads, is left out.

`validate` goes over a list of rule sets; what it decides depends only on
which deny, require and allow rules are there at all (`Admits`), so the order
of the sets and the level that they come from do not matter.

Suppose that only some of the rule sets are consulted. The others are then
respected by every request exactly if what they add is there anyway
(`Covers`). If it is not, the rules left out can be told apart from the ones
consulted: all rules may evaluate to true but for the deny rules consulted,
and for the one rule in question.
-/
import AgentGateway.Basic
import Mathlib.Data.Set.Basic

namespace AgentGateway.Http

/-- `Executor::eval_bool` on the request at hand, for rules `E`. -/
abbrev Executor (E : Type) := E → Bool

structure PolicySet (E : Type) where
  allow : List E
  deny : List E
  require : List E
  deriving DecidableEq

structure RuleSet (E : Type) where
  rules : PolicySet E
  deriving DecidableEq

abbrev RuleSets (E : Type) := List (RuleSet E)

variable {E : Type}

namespace RuleSet

variable (r : RuleSet E) (exec : Executor E)

def hasRules : Bool :=
  !r.rules.allow.isEmpty || !r.rules.deny.isEmpty || !r.rules.require.isEmpty

def hasAllowRules : Bool := !r.rules.allow.isEmpty

def denies : Bool :=
  if r.rules.deny.isEmpty then false else r.rules.deny.any exec

def allows : Bool :=
  if r.rules.allow.isEmpty then false else r.rules.allow.any exec

def allRequiresMatch : Bool :=
  r.rules.require.all exec

end RuleSet

def RuleSets.validate (ruleSets : RuleSets E) (exec : Executor E) : Bool :=
  if !ruleSets.any (·.hasRules) then true
  else if ruleSets.any (·.denies exec) then false
  else if ruleSets.any (!·.allRequiresMatch exec) then false
  else if ruleSets.any (·.allows exec) then true
  -- only deny rules: a denylist; allow rules none of which matched: refuse
  else !ruleSets.any (·.hasAllowRules)

variable (sets : Set (RuleSet E))

/-- A deny rule of the set matches, or a require rule does not. -/
def RuleSet.Objects (r : RuleSet E) (exec : Executor E) : Prop :=
  (∃ e ∈ r.rules.deny, exec e) ∨ ∃ e ∈ r.rules.require, exec e = false

def rulesOf (sort : PolicySet E → List E) (sets : Set (RuleSet E)) : Set E :=
  {e | ∃ r ∈ sets, e ∈ sort r.rules}

def denyRules : Set E := rulesOf PolicySet.deny sets

def requireRules : Set E := rulesOf PolicySet.require sets

def allowRules : Set E := rulesOf PolicySet.allow sets

-- ======== admission

/-- No deny rule matches, every require rule does, and an allow rule does if
there are any. -/
structure Admits (exec : Executor E) : Prop where
  deny : ∀ e ∈ denyRules sets, exec e = false
  require : ∀ e ∈ requireRules sets, exec e
  allow : (allowRules sets).Nonempty → ∃ e ∈ allowRules sets, exec e

variable {exec : Executor E} {rs : RuleSets E} {base : Set (RuleSet E)}

theorem any_rules_iff (rs : RuleSets E) (sort : PolicySet E → List E) (p : E → Bool) :
    (rs.any fun r => (sort r.rules).any p) ↔ ∃ e ∈ rulesOf sort {r | r ∈ rs}, p e := by
  simp only [List.any_eq_true]
  constructor
  · rintro ⟨r, hr, e, he, hp⟩
    exact ⟨e, ⟨r, hr, he⟩, hp⟩
  · rintro ⟨e, ⟨r, hr, he⟩, hp⟩
    exact ⟨r, hr, e, he, hp⟩

theorem ite_isEmpty_any (l : List E) (p : E → Bool) :
    (if l.isEmpty then false else l.any p) = l.any p := by
  cases l <;> rfl

theorem any_denies : rs.any (·.denies exec) ↔ ∃ e ∈ denyRules {r | r ∈ rs}, exec e := by
  simp only [RuleSet.denies, ite_isEmpty_any]
  exact any_rules_iff rs PolicySet.deny exec

theorem any_allows : rs.any (·.allows exec) ↔ ∃ e ∈ allowRules {r | r ∈ rs}, exec e := by
  simp only [RuleSet.allows, ite_isEmpty_any]
  exact any_rules_iff rs PolicySet.allow exec

theorem any_not_requires : rs.any (!·.allRequiresMatch exec)
      ↔ ∃ e ∈ requireRules {r | r ∈ rs}, exec e = false := by
  simp only [RuleSet.allRequiresMatch, List.not_all_eq_any_not]
  simpa [requireRules] using any_rules_iff rs PolicySet.require fun e => !exec e

theorem any_hasAllowRules : rs.any (·.hasAllowRules) ↔ (allowRules {r | r ∈ rs}).Nonempty := by
  have hany : ∀ r : RuleSet E, r.hasAllowRules = r.rules.allow.any fun _ => true := by
    intro r
    unfold RuleSet.hasAllowRules
    cases r.rules.allow <;> rfl
  simp only [hany]
  simpa [Set.Nonempty, allowRules] using any_rules_iff rs PolicySet.allow fun _ => true

/-- Admission in terms of the tests that `validate` makes. -/
theorem admits_iff : Admits {r | r ∈ rs} exec ↔ rs.any (·.denies exec) = false
      ∧ rs.any (!·.allRequiresMatch exec) = false
      ∧ (rs.any (·.hasAllowRules) → rs.any (·.allows exec)) := by
  rw [← Bool.not_eq_true, ← Bool.not_eq_true, any_denies, any_not_requires,
    any_hasAllowRules, any_allows]
  constructor
  · intro h
    refine ⟨?_, ?_, h.allow⟩
    · rintro ⟨e, he, hexec⟩
      simp [h.deny e he] at hexec
    · rintro ⟨e, he, hexec⟩
      simp [h.require e he] at hexec
  · rintro ⟨hdeny, hrequire, hallow⟩
    refine ⟨fun e he => ?_, fun e he => ?_, hallow⟩
    · exact Bool.eq_false_iff.2 fun hexec => hdeny ⟨e, he, hexec⟩
    · exact Bool.eq_true_of_not_eq_false fun hexec => hrequire ⟨e, he, hexec⟩

theorem admits_of_not_hasRules (exec : Executor E) (h : rs.any (·.hasRules) = false) :
    Admits {r | r ∈ rs} exec := by
  have hnone : ∀ r ∈ rs, r.rules.allow = [] ∧ r.rules.deny = [] ∧ r.rules.require = [] := by
    intro r hr
    have := List.any_eq_false.1 h r hr
    simpa [RuleSet.hasRules, and_assoc] using this
  refine ⟨?_, ?_, ?_⟩
  · rintro e ⟨r, hr, he⟩
    rw [(hnone r hr).2.1] at he
    cases he
  · rintro e ⟨r, hr, he⟩
    rw [(hnone r hr).2.2] at he
    cases he
  · rintro ⟨e, r, hr, he⟩
    rw [(hnone r hr).1] at he
    cases he

theorem validate_iff (rs : RuleSets E) (exec : Executor E) :
    rs.validate exec ↔ Admits {r | r ∈ rs} exec := by
  unfold RuleSets.validate
  cases hrules : rs.any (·.hasRules) with
  | false => simpa using admits_of_not_hasRules exec hrules
  | true =>
    rw [admits_iff]
    cases rs.any (·.denies exec) <;> cases rs.any (!·.allRequiresMatch exec)
      <;> cases rs.any (·.allows exec) <;> simp

-- ======== coverage

/-- No request is admitted: a rule is denied and required at once, or all
that could be allowed is denied. -/
def RefusesAll (base : Set (RuleSet E)) : Prop :=
  (∃ e ∈ denyRules base, e ∈ requireRules base)
    ∨ (allowRules base).Nonempty ∧ allowRules base ⊆ denyRules base

/-- The rule sets `base` have what `extra` adds: the deny rules, and the
require rules, unless such a rule is all there is to be allowed by. -/
def Covers (base extra : Set (RuleSet E)) : Prop :=
  RefusesAll base ∨ denyRules extra ⊆ denyRules base
      ∧ ∀ e ∈ requireRules extra, e ∈ requireRules base
        ∨ (allowRules base).Nonempty ∧ ∀ a ∈ allowRules base, a = e ∨ a ∈ denyRules base

theorem not_admits_of_refusesAll (h : RefusesAll base) (exec : Executor E) :
    ¬ Admits base exec := by
  intro hadmits
  obtain ⟨e, hdeny, hrequire⟩ | ⟨hsome, hsub⟩ := h
  · have := hadmits.deny e hdeny
    simp [hadmits.require e hrequire] at this
  · obtain ⟨a, ha, hexec⟩ := hadmits.allow hsome
    simp [hadmits.deny a (hsub ha)] at hexec

open Classical in
/-- All rules true but for those denied. -/
noncomputable def allButDenied (base : Set (RuleSet E)) : Executor E :=
  fun x => decide (x ∉ denyRules base)

open Classical in
/-- All rules true but for those denied and for one more. -/
noncomputable def allBut (base : Set (RuleSet E)) (e : E) : Executor E :=
  fun x => decide (x ≠ e ∧ x ∉ denyRules base)

theorem admits_allButDenied (h : ¬ RefusesAll base) : Admits base (allButDenied base) where
  deny e he := by simp [allButDenied, he]
  require e he := by
    have hdeny : e ∉ denyRules base := fun hdeny => h (.inl ⟨e, hdeny, he⟩)
    simp [allButDenied, hdeny]
  allow hsome := by
    have hsub : ¬ allowRules base ⊆ denyRules base := fun hsub => h (.inr ⟨hsome, hsub⟩)
    obtain ⟨a, ha, hdeny⟩ := Set.not_subset.1 hsub
    exact ⟨a, ha, by simp [allButDenied, hdeny]⟩

theorem admits_allBut {e : E} (h : ¬ RefusesAll base) (hrequire : e ∉ requireRules base)
    (hallow : ¬ ((allowRules base).Nonempty ∧ ∀ a ∈ allowRules base, a = e ∨ a ∈ denyRules base)) :
    Admits base (allBut base e) where
  deny x hx := by simp [allBut, hx]
  require x hx := by
    have hne : x ≠ e := fun heq => hrequire (heq ▸ hx)
    have hdeny : x ∉ denyRules base := fun hdeny => h (.inl ⟨x, hdeny, hx⟩)
    simp [allBut, hne, hdeny]
  allow hsome := by
    by_contra hnone
    refine hallow ⟨hsome, fun a ha => ?_⟩
    by_contra hother
    obtain ⟨hne, hdeny⟩ := not_or.1 hother
    exact hnone ⟨a, ha, by simp [allBut, hne, hdeny]⟩

theorem Covers.not_admits {extra : Set (RuleSet E)} (h : Covers base extra)
    {r : RuleSet E} (hr : r ∈ extra) (hobjects : r.Objects exec) : ¬ Admits base exec := by
  obtain hall | ⟨hdeny, hrequire⟩ := h
  · exact not_admits_of_refusesAll hall exec
  · intro hadmits
    obtain ⟨e, he, hexec⟩ | ⟨e, he, hexec⟩ := hobjects
    · simp [hadmits.deny e (hdeny ⟨r, hr, he⟩)] at hexec
    · obtain hbase | ⟨hsome, honly⟩ := hrequire e ⟨r, hr, he⟩
      · simp [hadmits.require e hbase] at hexec
      · -- what allows the request is the rule itself, or is denied
        obtain ⟨a, ha, hallow⟩ := hadmits.allow hsome
        obtain rfl | ha := honly a ha
        · simp [hexec] at hallow
        · simp [hadmits.deny a ha] at hallow

theorem covers_iff (base extra : Set (RuleSet E)) :
    (∀ exec, (∃ r ∈ extra, r.Objects exec) → ¬ Admits base exec) ↔ Covers base extra := by
  constructor
  · intro h
    by_cases hall : RefusesAll base
    · exact .inl hall
    · refine .inr ⟨fun e he => ?_, fun e he => ?_⟩
      · by_contra hdeny
        obtain ⟨r, hr, he⟩ := he
        refine h (allButDenied base) ⟨r, hr, .inl ⟨e, he, ?_⟩⟩ (admits_allButDenied hall)
        simp [allButDenied, hdeny]
      · by_contra hother
        obtain ⟨hrequire, hallow⟩ := not_or.1 hother
        obtain ⟨r, hr, he⟩ := he
        refine h (allBut base e) ⟨r, hr, .inr ⟨e, he, ?_⟩⟩ (admits_allBut hall hrequire hallow)
        simp [allBut]
  · rintro h exec ⟨r, hr, hobjects⟩
    exact h.not_admits hr hobjects

theorem union_covers_iff (base extra : Set (RuleSet E)) :
    (∀ exec, (∃ r ∈ base ∪ extra, r.Objects exec) → ¬ Admits base exec) ↔ Covers base extra := by
  rw [← covers_iff]
  constructor
  · rintro h exec ⟨r, hr, hobjects⟩
    exact h exec ⟨r, .inr hr, hobjects⟩
  · rintro h exec ⟨r, hr | hr, hobjects⟩
    · intro hadmits
      obtain ⟨e, he, hexec⟩ | ⟨e, he, hexec⟩ := hobjects
      · have := hadmits.deny e ⟨r, hr, he⟩
        simp_all
      · have := hadmits.require e ⟨r, hr, he⟩
        simp_all
    · exact h exec ⟨r, hr, hobjects⟩

end AgentGateway.Http
