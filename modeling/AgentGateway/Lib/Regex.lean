/-
Regular expressions as a program writes them: character classes and
optional parts over `RegularExpression`, and which characters a matching
text can hold.
-/
import Mathlib.Computability.RegularExpressions

namespace Lib

variable {α : Type}

def oneOf (cs : List α) : RegularExpression α :=
  cs.foldr (fun c P => .char c + P) 0

def opt (P : RegularExpression α) : RegularExpression α := 1 + P

/-- Every text that matches consists of characters in `s`. -/
def Within (s : Set α) (P : RegularExpression α) : Prop :=
  ∀ w ∈ P.matches', ∀ c ∈ w, c ∈ s

variable {s : Set α} {P Q : RegularExpression α}

theorem within_one : Within s 1 := by
  intro w hw c hc
  subst hw
  cases hc

theorem within_char {a : α} (ha : a ∈ s) : Within s (.char a) := by
  intro w hw c hc
  cases (hw : w = [a])
  rw [List.mem_singleton] at hc
  exact hc ▸ ha

theorem within_add (hP : Within s P) (hQ : Within s Q) : Within s (P + Q) := by
  intro w hw
  cases hw with
  | inl hw => exact hP w hw
  | inr hw => exact hQ w hw

theorem within_mul (hP : Within s P) (hQ : Within s Q) : Within s (P * Q) := by
  intro w hw c hc
  obtain ⟨u, hu, v, hv, rfl⟩ := hw
  rw [List.mem_append] at hc
  cases hc with
  | inl hc => exact hP u hu c hc
  | inr hc => exact hQ v hv c hc

theorem within_star (hP : Within s P) : Within s P.star := by
  intro w hw c hc
  obtain ⟨ws, rfl, hws⟩ := hw
  obtain ⟨u, hu, hcu⟩ := List.mem_flatten.1 hc
  exact hP u (hws u hu) c hcu

theorem within_oneOf {cs : List α} (h : ∀ c ∈ cs, c ∈ s) : Within s (oneOf cs) := by
  induction cs with
  | nil => exact fun w hw => absurd hw (Language.notMem_zero w)
  | cons c cs ih =>
    obtain ⟨hc, hcs⟩ := List.forall_mem_cons.1 h
    exact within_add (within_char hc) (ih hcs)

theorem within_opt (hP : Within s P) : Within s (opt P) :=
  within_add within_one hP

/-- What the matcher accepts consists of the expression's characters. -/
theorem Within.of_rmatch [DecidableEq α] (hP : Within s P) {w : List α}
    (hw : P.rmatch w) : ∀ c ∈ w, c ∈ s :=
  hP w ((RegularExpression.rmatch_iff_matches' P w).1 hw)

end Lib
