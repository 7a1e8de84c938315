/-
Fallible traversals in `Except`.

`bind_eq_ok` peels one step off a computation that succeeded;
`mapM_eq_ok` says that a traversal that succeeded did so element by
element.
-/
import Mathlib.Data.List.Forall2

namespace Lib.Except

variable {ε α β : Type} {x : Except ε α} {f : α → Except ε β} {b : β}

theorem bind_eq_ok : (x >>= f) = .ok b ↔ ∃ a, x = .ok a ∧ f a = .ok b := by
  cases x with
  | error | ok => simp [bind, Except.bind]

variable {a : α}

theorem mapError_eq_ok {ε' : Type} {f : ε → ε'} : x.mapError f = .ok a ↔ x = .ok a := by
  cases x with
  | error | ok => simp [Except.mapError]

/-- A check that fails early. -/
theorem guard_eq_ok {b : Bool} {e : ε} :
    (if (!b) then .error e else x) = .ok a ↔ b ∧ x = .ok a := by
  cases b with
  | false | true => simp

variable {l : List α} {r : List β} {R : α → β → Prop}

/-- A traversal that succeeds has succeeded on every element. -/
theorem mapM_eq_ok : l.mapM f = .ok r ↔ List.Forall₂ (fun a b => f a = .ok b) l r := by
  induction l generalizing r with
  | nil =>
    rw [List.mapM_nil, List.forall₂_nil_left_iff]
    exact ⟨fun h => (Except.ok.inj h).symm, fun h => congrArg _ h.symm⟩
  | cons a rest ih =>
    rw [List.mapM_cons, bind_eq_ok, List.forall₂_cons_left_iff]
    refine exists_congr fun b => ?_
    rw [bind_eq_ok]
    constructor
    · rintro ⟨hb, bs, hbs, heq⟩
      exact ⟨bs, hb, ih.1 hbs, (Except.ok.inj heq).symm⟩
    · rintro ⟨bs, hb, hbs, heq⟩
      exact ⟨hb, bs, ih.2 hbs, congrArg _ heq.symm⟩

/-- Every result of a traversal has its origin. -/
theorem forall₂_mem_right (h : List.Forall₂ R l r) (hb : b ∈ r) : ∃ a ∈ l, R a b := by
  induction h with
  | nil => cases hb
  | cons hab _ ih =>
    rcases List.mem_cons.1 hb with heq | hb
    · subst heq
      exact ⟨_, List.mem_cons_self, hab⟩
    · obtain ⟨a, ha, hr⟩ := ih hb
      exact ⟨a, List.mem_cons_of_mem _ ha, hr⟩

theorem forall₂_mem_left (h : List.Forall₂ R l r) (ha : a ∈ l) : ∃ b ∈ r, R a b :=
  forall₂_mem_right h.flip ha

end Lib.Except
