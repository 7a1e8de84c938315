/-
Which of several policies applies to a target (`policyselection/selector.go`).

A policy names its targets, each as a whole or one section of it. The selector
goes over the candidates once and keeps the best so far: one that names a section
asked for before one that names the whole, then the older one, then by namespace
and name. The fold is the `argmin` of `place` over the candidates that match
(`bestMatching_eq`), and the order of the places is a linear one, so no order of
the candidates can show in the answer.

# Left out

The index by target that the candidates are fetched from, and all of a policy but
its metadata and targets.
-/
import Mathlib
import AgentGateway.Basic

namespace AgentGateway.PolicySelection

open List

/-- What `HasHigherPriority` reads of a `metav1.Object`. -/
structure ObjectMeta where
  creationTimestamp : Int
  ns : Strng
  name : Strng
  deriving DecidableEq

def ObjectMeta.namespacedName (m : ObjectMeta) : Strng × Strng := (m.ns, m.name)

def hasHigherPriority (a b : ObjectMeta) : Bool :=
  match compare a.creationTimestamp b.creationTimestamp with
  | .lt => true
  | .gt => false
  | .eq =>
    match compare a.ns b.ns with
    | .lt => true
    | .gt => false
    | .eq => a.name < b.name

inductive SectionMatchRank
  | noMatch
  | wholeResourceMatch
  | exactMatch
  deriving DecidableEq

def SectionMatchRank.toNat : SectionMatchRank → Nat
  | .noMatch => 0
  | .wholeResourceMatch => 1
  | .exactMatch => 2

structure TargetRef where
  group : Strng
  kind : Strng
  name : Strng
  sectionName : Option Strng
  deriving DecidableEq

structure Policy where
  metadata : ObjectMeta
  targetRefs : List TargetRef
  deriving DecidableEq

/-- What a policy is asked for: a resource, and the sections of it, if any. -/
structure Target where
  group : Strng
  kind : Strng
  name : Strng
  exact : List Strng

/-- `sectionMatcher.Match`. -/
def Target.match (t : Target) : Option Strng → SectionMatchRank
  | none => .wholeResourceMatch
  | some sectionName => if sectionName ∈ t.exact then .exactMatch else .noMatch

/-- The resource is the one asked for. -/
def TargetRef.IsOf (ref : TargetRef) (t : Target) : Prop :=
  ref.group = t.group ∧ ref.kind = t.kind ∧ ref.name = t.name

instance (ref : TargetRef) (t : Target) : Decidable (ref.IsOf t) :=
  inferInstanceAs (Decidable (_ ∧ _ ∧ _))

/-- `bestMatchingPolicyTargetRank` and `bestMatchingBackendTLSTargetRank`. -/
def bestMatchingTargetRank (t : Target) (targetRefs : List TargetRef) : SectionMatchRank :=
  targetRefs.foldl (fun best ref =>
    if ¬ ref.IsOf t then best
    else if best.toNat < (t.match ref.sectionName).toNat then t.match ref.sectionName
    else best) .noMatch

/-- The loop over the candidates, with the selected one and its rank. -/
def bestMatchingStep (t : Target) :
    Option Policy × SectionMatchRank → Policy → Option Policy × SectionMatchRank
  | (selected, bestRank), candidate =>
    let rank := bestMatchingTargetRank t candidate.targetRefs
    if rank = .noMatch then (selected, bestRank)
    else
      match selected with
      | none => (some candidate, rank)
      | some s =>
        if bestRank.toNat < rank.toNat ∨ rank = bestRank
            ∧ hasHigherPriority candidate.metadata s.metadata then
          (some candidate, rank)
        else (some s, bestRank)

def bestMatching (t : Target) (candidates : List Policy) : Option Policy :=
  (candidates.foldl (bestMatchingStep t) (none, .noMatch)).1

def bestMatchingAgentgatewayPolicy := bestMatching

def bestMatchingBackendTLSPolicy := bestMatching

-- ======== priority

/-- By age, then by namespace and name. -/
def ObjectMeta.key (m : ObjectMeta) : Int ×ₗ Strng ×ₗ Strng :=
  toLex (m.creationTimestamp, toLex (m.ns, m.name))

theorem hasHigherPriority_iff {a b : ObjectMeta} : hasHigherPriority a b ↔ a.key < b.key := by
  unfold hasHigherPriority ObjectMeta.key
  simp only [Prod.Lex.toLex_lt_toLex]
  cases hts : compare a.creationTimestamp b.creationTimestamp with
  | lt => simp [compare_lt_iff_lt.1 hts]
  | gt =>
    have h := compare_gt_iff_gt.1 hts
    simp [not_lt_of_gt h, ne_of_gt h]
  | eq =>
    rw [compare_eq_iff_eq] at hts
    cases hns : compare a.ns b.ns with
    | lt => simp [hts, compare_lt_iff_lt.1 hns]
    | gt =>
      have h := compare_gt_iff_gt.1 hns
      simp [hts, not_lt_of_gt h, ne_of_gt h]
    | eq =>
      rw [compare_eq_iff_eq] at hns
      simp [hts, hns]

/-- A strict order, total on objects of different names. -/
structure StrictTotal (before : ObjectMeta → ObjectMeta → Bool) : Prop where
  irrefl : ∀ a, before a a = false
  trans : ∀ {a b c}, before a b → before b c → before a c
  total : ∀ {a b : ObjectMeta}, a.namespacedName ≠ b.namespacedName → before a b ∨ before b a

theorem key_injective {a b : ObjectMeta} (h : a.key = b.key) : a = b := by
  cases a
  cases b
  simpa [ObjectMeta.key] using h

theorem hasHigherPriority_strictTotal : StrictTotal hasHigherPriority where
  irrefl a := by
    rw [← Bool.not_eq_true, hasHigherPriority_iff]
    exact lt_irrefl _
  trans hab hbc := by
    rw [hasHigherPriority_iff] at *
    exact lt_trans hab hbc
  total hne := by
    simp only [hasHigherPriority_iff]
    exact lt_or_gt_of_ne fun h => hne (congrArg _ (key_injective h))

-- ======== rank

namespace Policy

def Matches (p : Policy) (t : Target) : Prop :=
  ∃ ref ∈ p.targetRefs, ref.IsOf t ∧ t.match ref.sectionName ≠ .noMatch

def MatchesExactly (p : Policy) (t : Target) : Prop :=
  ∃ ref ∈ p.targetRefs, ref.IsOf t ∧ t.match ref.sectionName = .exactMatch

/-- The order the selector goes by. -/
def Above (t : Target) (p q : Policy) : Prop :=
  p.MatchesExactly t ∧ ¬ q.MatchesExactly t ∨ (p.MatchesExactly t ↔ q.MatchesExactly t)
      ∧ (p.metadata.creationTimestamp < q.metadata.creationTimestamp
        ∨ p.metadata.creationTimestamp = q.metadata.creationTimestamp
          ∧ (p.metadata.ns < q.metadata.ns
            ∨ p.metadata.ns = q.metadata.ns ∧ p.metadata.name < q.metadata.name))

end Policy

variable {t : Target} {p q : Policy} {candidates : List Policy}

theorem le_bestMatchingTargetRank {n : Nat} (hn : 0 < n) (refs : List TargetRef) :
    n ≤ (bestMatchingTargetRank t refs).toNat
      ↔ ∃ ref ∈ refs, ref.IsOf t ∧ n ≤ (t.match ref.sectionName).toNat := by
  unfold bestMatchingTargetRank
  induction refs using reverseRecOn with
  | nil => simp [SectionMatchRank.toNat, Nat.ne_of_gt hn]
  | append_singleton refs ref ih =>
    rw [foldl_concat]
    simp only [mem_append, mem_singleton, or_and_right, exists_or, exists_eq_left, ← ih]
    by_cases hof : ref.IsOf t
    · simp only [hof, not_true_eq_false, if_false, true_and]
      split <;> omega
    · simp [hof]

theorem rank_eq_exactMatch :
    bestMatchingTargetRank t p.targetRefs = .exactMatch ↔ p.MatchesExactly t := by
  have htwo : ∀ r : SectionMatchRank, r = .exactMatch ↔ 2 ≤ r.toNat := by
    intro r
    cases r <;> simp [SectionMatchRank.toNat]
  simp only [Policy.MatchesExactly, htwo, le_bestMatchingTargetRank Nat.two_pos]

theorem rank_ne_noMatch : bestMatchingTargetRank t p.targetRefs ≠ .noMatch ↔ p.Matches t := by
  have hone : ∀ r : SectionMatchRank, r ≠ .noMatch ↔ 1 ≤ r.toNat := by
    intro r
    cases r <;> simp [SectionMatchRank.toNat]
  simp only [Policy.Matches, hone, le_bestMatchingTargetRank Nat.one_pos]

-- ======== selection

/-- The place of a candidate; the best has the least. -/
def place (t : Target) (p : Policy) : Nat ×ₗ Int ×ₗ Strng ×ₗ Strng :=
  toLex (2 - (bestMatchingTargetRank t p.targetRefs).toNat, p.metadata.key)

theorem place_lt : place t p < place t q ↔ (bestMatchingTargetRank t q.targetRefs).toNat
        < (bestMatchingTargetRank t p.targetRefs).toNat
      ∨ bestMatchingTargetRank t p.targetRefs = bestMatchingTargetRank t q.targetRefs
        ∧ hasHigherPriority p.metadata q.metadata := by
  rw [place, place, Prod.Lex.toLex_lt_toLex, hasHigherPriority_iff]
  cases bestMatchingTargetRank t p.targetRefs <;>
    cases bestMatchingTargetRank t q.targetRefs <;> simp [SectionMatchRank.toNat]

def matching (t : Target) (candidates : List Policy) : List Policy :=
  candidates.filter fun p => bestMatchingTargetRank t p.targetRefs ≠ .noMatch

theorem mem_matching : p ∈ matching t candidates ↔ p ∈ candidates ∧ p.Matches t := by
  rw [matching, mem_filter, decide_eq_true_iff, rank_ne_noMatch]

theorem bestMatching_eq (t : Target) (candidates : List Policy) :
    bestMatching t candidates = (matching t candidates).argmin (place t) := by
  -- the rank that is kept is that of the selected candidate
  have hstate : ∀ l : List Policy, l.foldl (bestMatchingStep t) (none, .noMatch)
      = ((matching t l).argmin (place t)).elim (none, .noMatch)
        fun p => (some p, bestMatchingTargetRank t p.targetRefs) := by
    intro l
    induction l using reverseRecOn with
    | nil => rfl
    | append_singleton l p ih =>
      rw [foldl_concat, ih]
      by_cases hrank : bestMatchingTargetRank t p.targetRefs = .noMatch
      · simp [bestMatchingStep, matching, hrank]
      · have hconcat : matching t (l ++ [p]) = matching t l ++ [p] := by
          simp [matching, hrank]
        rw [hconcat, argmin_concat]
        cases (matching t l).argmin (place t) with
        | none => simp [bestMatchingStep, hrank]
        | some s =>
          simp only [bestMatchingStep, hrank, if_false, Option.elim_some, place_lt]
          split
          · next hbetter => simp [hbetter]
          · next hbetter => simp [hbetter]
  rw [bestMatching, hstate]
  cases (matching t candidates).argmin (place t) <;> rfl

theorem above_iff (hp : p.Matches t) (hq : q.Matches t) : p.Above t q ↔ place t p < place t q := by
  rw [← rank_ne_noMatch] at hp hq
  rw [place_lt, hasHigherPriority_iff, Policy.Above, ← rank_eq_exactMatch, ← rank_eq_exactMatch]
  simp only [ObjectMeta.key, Prod.Lex.toLex_lt_toLex]
  cases hrp : bestMatchingTargetRank t p.targetRefs <;>
    cases hrq : bestMatchingTargetRank t q.targetRefs <;>
    simp_all [SectionMatchRank.toNat]

/-- The candidate matches, and stands above all others that do. -/
def Greatest (t : Target) (candidates : List Policy) (p : Policy) : Prop :=
  p ∈ candidates ∧ p.Matches t ∧ ∀ q ∈ candidates, q.Matches t → q ≠ p → p.Above t q

theorem bestMatching_eq_some (hdistinct : (candidates.map (·.metadata.namespacedName)).Nodup) :
    bestMatching t candidates = some p ↔ Greatest t candidates p := by
  have hplace : ∀ q ∈ candidates, ∀ r ∈ candidates, place t q = place t r → q = r := by
    intro q hq r hr h
    have hkey : q.metadata.key = r.metadata.key := congrArg (fun x => (ofLex x).2) h
    exact inj_on_of_nodup_map hdistinct hq hr (congrArg _ (key_injective hkey))
  rw [bestMatching_eq]
  constructor
  · intro h
    obtain ⟨hmem, hmatch⟩ := mem_matching.1 (argmin_mem h)
    refine ⟨hmem, hmatch, fun q hq hqmatch hne => (above_iff hmatch hqmatch).2 ?_⟩
    refine lt_of_le_of_ne (le_of_mem_argmin (mem_matching.2 ⟨hq, hqmatch⟩) h) ?_
    exact fun heq => hne (hplace p hmem q hq heq).symm
  · rintro ⟨hmem, hmatch, habove⟩
    cases hmin : (matching t candidates).argmin (place t) with
    | none =>
      have hp := mem_matching.2 ⟨hmem, hmatch⟩
      rw [argmin_eq_none.1 hmin] at hp
      cases hp
    | some q =>
      obtain ⟨hq, hqmatch⟩ := mem_matching.1 (argmin_mem hmin)
      by_contra hne
      have hlt := (above_iff hmatch hqmatch).1 (habove q hq hqmatch fun h => hne (congrArg some h))
      exact not_lt_of_mem_argmin (mem_matching.2 ⟨hmem, hmatch⟩) hmin hlt

/-- Whatever the order of the candidates, the answer is the greatest of those that
match, if there is one. -/
theorem selection_is_greatest (t : Target) (candidates : List Policy)
    (hdistinct : (candidates.map (·.metadata.namespacedName)).Nodup) : StrictTotal hasHigherPriority
      ∧ ∀ select ∈ [bestMatchingAgentgatewayPolicy, bestMatchingBackendTLSPolicy],
        ((select t candidates).isSome ↔ ∃ p ∈ candidates, p.Matches t)
          ∧ ((∃ p ∈ candidates, p.Matches t) → ∃! p, Greatest t candidates p)
          ∧ (∀ p, select t candidates = some p ↔ Greatest t candidates p)
          ∧ ∀ candidates', candidates'.Perm candidates →
            select t candidates' = select t candidates := by
  have hsome : (bestMatching t candidates).isSome ↔ ∃ p ∈ candidates, p.Matches t := by
    rw [Option.isSome_iff_ne_none, ne_eq, bestMatching_eq, argmin_eq_none,
      eq_nil_iff_forall_not_mem]
    simp [mem_matching]
  have hperm : ∀ candidates', candidates'.Perm candidates →
      bestMatching t candidates' = bestMatching t candidates := by
    intro candidates' hp
    refine Option.ext fun p => ?_
    rw [bestMatching_eq_some hdistinct, bestMatching_eq_some ((hp.map _).nodup_iff.2 hdistinct)]
    simp only [Greatest, hp.mem_iff]
  refine ⟨hasHigherPriority_strictTotal, fun select hselect => ?_⟩
  have hbest : select = bestMatching := by
    simpa [bestMatchingAgentgatewayPolicy, bestMatchingBackendTLSPolicy] using hselect
  subst hbest
  refine ⟨hsome, fun hex => ?_, fun p => bestMatching_eq_some hdistinct, hperm⟩
  obtain ⟨p, hp⟩ := Option.isSome_iff_exists.1 (hsome.2 hex)
  refine ⟨p, (bestMatching_eq_some hdistinct).1 hp, fun q hq => ?_⟩
  have hq := (bestMatching_eq_some hdistinct).2 hq
  rw [hp] at hq
  exact (Option.some.inj hq).symm

/-- An older policy for the whole Gateway, and one for a section of it. -/
def wholeGateway : Policy :=
  ⟨⟨1, "ns", "whole"⟩, [⟨"gateway.networking.k8s.io", "Gateway", "gw", none⟩]⟩

def oneSection : Policy :=
  ⟨⟨2, "ns", "one"⟩, [⟨"gateway.networking.k8s.io", "Gateway", "gw", some "https"⟩]⟩

theorem selection_is_greatest_sample :
    Greatest ⟨"gateway.networking.k8s.io", "Gateway", "gw", ["https"]⟩
      [wholeGateway, oneSection] oneSection := by
  obtain ⟨-, h⟩ := selection_is_greatest ⟨"gateway.networking.k8s.io", "Gateway", "gw", ["https"]⟩
    [wholeGateway, oneSection] (by decide)
  exact ((h bestMatchingAgentgatewayPolicy mem_cons_self).2.2.1 _).1 (by decide +kernel)

end AgentGateway.PolicySelection
