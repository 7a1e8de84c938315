/-
Taking from a list, in order, all that does not clash with what was taken before.

What is taken is known by one equation: an element is left if one before it was
taken and clashes with it (`not_mem_greedy_iff`), and nothing else is
(`mem_greedy_of_left`).
-/
import Mathlib.Data.List.Basic
import Mathlib.Data.List.Induction

namespace Lib

open List

variable {α : Type} {clash : α → α → Bool} {l pre post taken : List α} {a : α}

/-- The next element is taken, or left. -/
def choose (clash : α → α → Bool) (taken : List α) (a : α) : List α :=
  if taken.any (clash · a) then taken else taken ++ [a]

def greedy (clash : α → α → Bool) (l : List α) : List α := l.foldl (choose clash) []

theorem mem_foldl_choose : a ∈ l.foldl (choose clash) taken → a ∈ taken ∨ a ∈ l := by
  induction l using reverseRecOn with
  | nil => exact .inl
  | append_singleton l b ih =>
    rw [foldl_concat, choose, mem_append]
    intro h
    split at h
    · exact (ih h).imp_right .inl
    · rcases mem_append.1 h with h | h
      · exact (ih h).imp_right .inl
      · exact .inr (.inr h)

theorem subset_foldl_choose (h : a ∈ taken) : a ∈ l.foldl (choose clash) taken := by
  induction l using reverseRecOn with
  | nil => exact h
  | append_singleton l b ih =>
    rw [foldl_concat, choose]
    split
    · exact ih
    · exact mem_append_left _ ih

theorem mem_greedy (h : a ∈ greedy clash l) : a ∈ l :=
  (mem_foldl_choose h).resolve_left not_mem_nil

/-- What is taken does not clash, and what is left clashes with some of it. -/
theorem greedy_spec (clash : α → α → Bool) (l : List α) :
    (greedy clash l).Pairwise (fun u a => clash u a = false)
      ∧ ∀ a ∈ l, a ∈ greedy clash l ∨ ∃ u ∈ greedy clash l, clash u a := by
  induction l using reverseRecOn with
  | nil => exact ⟨.nil, nofun⟩
  | append_singleton l b ih =>
    rw [greedy, foldl_concat, ← greedy, choose]
    grind

/-- What is taken of a first part is what is taken and in it. -/
theorem mem_greedy_append (hnodup : (pre ++ post).Nodup) (hpre : a ∈ pre) :
    a ∈ greedy clash (pre ++ post) ↔ a ∈ greedy clash pre := by
  rw [greedy, foldl_append]
  refine ⟨fun h => (mem_foldl_choose h).resolve_right fun hpost => ?_, subset_foldl_choose⟩
  exact (nodup_append.1 hnodup).2.2 a hpre a hpost rfl

theorem not_mem_greedy_iff (hnodup : (pre ++ a :: post).Nodup) : a ∉ greedy clash (pre ++ a :: post)
      ↔ ∃ u ∈ pre, u ∈ greedy clash (pre ++ a :: post) ∧ clash u a := by
  have hsplit : pre ++ a :: post = (pre ++ [a]) ++ post := by simp
  have hnot : a ∉ pre := fun h =>
    (nodup_append.1 hnodup).2.2 a h a mem_cons_self rfl
  have hself : a ∈ greedy clash (pre ++ a :: post) ↔ ¬ ∃ u ∈ greedy clash pre, clash u a := by
    rw [hsplit, mem_greedy_append (hsplit ▸ hnodup) (by simp), greedy, foldl_concat,
      ← greedy, choose]
    split
    · next hany => simpa [mt mem_greedy hnot] using hany
    · next hany => simpa using hany
  rw [hself, Classical.not_not]
  refine exists_congr fun u => ⟨fun h => ?_, fun h => ?_⟩
  · have hu := mem_greedy h.1
    exact ⟨hu, (mem_greedy_append hnodup hu).2 h.1, h.2⟩
  · exact ⟨(mem_greedy_append hnodup h.1).1 h.2.1, h.2.2⟩

/-- The equation has one solution. -/
theorem mem_greedy_of_left {S : α → Prop} (hnodup : l.Nodup)
    (hleft : ∀ pre a post, l = pre ++ a :: post → (¬ S a ↔ ∃ u ∈ pre, S u ∧ clash u a)) :
    ∀ a ∈ l, a ∈ greedy clash l ↔ S a := by
  have hpart : ∀ pre post, l = pre ++ post → ∀ a ∈ pre, a ∈ greedy clash l ↔ S a := by
    intro pre
    induction pre using reverseRecOn with
    | nil => exact fun _ _ _ h => absurd h not_mem_nil
    | append_singleton pre b ih =>
      intro post hl a ha
      have hl' : l = pre ++ b :: post := by simp [hl]
      rcases mem_append.1 ha with ha | ha
      · exact ih _ hl' a ha
      · rw [mem_singleton.1 ha]
        have hgreedy : b ∉ greedy clash l ↔ ∃ u ∈ pre, u ∈ greedy clash l ∧ clash u b := by
          rw [hl']
          exact not_mem_greedy_iff (hl' ▸ hnodup)
        refine not_iff_not.1 ?_
        rw [hgreedy, hleft pre b post hl']
        exact exists_congr fun u => and_congr_right fun hu =>
          and_congr_left fun _ => ih _ hl' u hu
  exact hpart l [] (append_nil l).symm

end Lib
