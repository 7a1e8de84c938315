/-
Custody along a log: what an entry makes someone owe is paid by a later
entry, or somebody still has it.

`Kept` says so of a log and of what is held now. A step of the system adds
an entry or none; `Kept.append` and `Kept.mono` say what it has to show:
whatever was held before is held after, or paid by the entry, and what the
entry makes owed is held.
-/
import Mathlib.Init

namespace Lib

open List

/-- Which entries make what owed, and which pay for it. -/
structure Custody (E D : Type) where
  opens : E → D → Prop
  pays : E → D → Prop

namespace Custody

variable {E D : Type} (c : Custody E D)

/-- Everything owed is paid later or held. -/
def Kept (log : List E) (held : D → Prop) : Prop :=
  ∀ before e after, log = before ++ e :: after →
    ∀ d, c.opens e d → held d ∨ ∃ e' ∈ after, c.pays e' d

variable {c} {log : List E} {held held' : D → Prop} {e : E}

theorem kept_nil : c.Kept [] held := by
  intro before e after h
  cases before <;> cases h

/-- Nothing is lost from hand to hand. -/
theorem Kept.mono (h : c.Kept log held) (hheld : ∀ d, held d → held' d) : c.Kept log held' := by
  intro before e after hlog d hd
  exact (h before e after hlog d hd).imp_left (hheld d)

/-- One more entry. -/
theorem Kept.append (h : c.Kept log held) (hheld : ∀ d, held d → held' d ∨ c.pays e d)
    (hopens : ∀ d, c.opens e d → held' d) : c.Kept (log ++ [e]) held' := by
  intro before e' after hlog d hd
  -- the entry in question is the new one, or one of the old
  rcases eq_nil_or_concat after with rfl | ⟨after, last, rfl⟩
  · obtain ⟨-, hlast⟩ := append_inj' hlog rfl
    cases hlast
    exact .inl (hopens d hd)
  · rw [concat_eq_append] at hlog ⊢
    rw [← cons_append, ← append_assoc] at hlog
    obtain ⟨hinit, hlast⟩ := append_inj' hlog rfl
    cases hlast
    rcases h before e' after hinit d hd with hd | ⟨e'', hmem, hpays⟩
    · refine (hheld d hd).imp_right fun hpays => ?_
      exact ⟨e, mem_append_right _ (mem_singleton_self e), hpays⟩
    · exact .inr ⟨e'', mem_append_left _ hmem, hpays⟩

/-- In an endless run, if a debt is paid again and again as long as it is
held, then it has been paid after it was made. -/
theorem settled {log : Nat → List E} {held : Nat → D → Prop} (hkept : ∀ n, c.Kept (log n) (held n))
    (hgrow : ∀ n, log n <+: log (n + 1)) {d : D}
    (hpaid : ∀ n, held n d → ∃ m e', n ≤ m ∧ log (m + 1) = log m ++ [e'] ∧ c.pays e' d)
    {n : Nat} {before after : List E} (hlog : log n = before ++ e :: after) (hd : c.opens e d) :
    ∃ m after', log m = before ++ e :: after' ∧ ∃ e' ∈ after', c.pays e' d := by
  rcases hkept n before e after hlog d hd with hheld | hdone
  · obtain ⟨m, e', hnm, hnext, hpays⟩ := hpaid n hheld
    have hprefix : log n <+: log m := by
      obtain ⟨k, rfl⟩ := Nat.exists_eq_add_of_le hnm
      clear hnm hnext
      induction k with
      | zero => exact prefix_rfl
      | succ k ih => exact ih.trans (hgrow (n + k))
    obtain ⟨more, hmore⟩ := hprefix
    refine ⟨m + 1, after ++ more ++ [e'], ?_, e', ?_, hpays⟩
    · rw [hnext, ← hmore, hlog]
      simp only [append_assoc, cons_append]
    · exact mem_append_right _ (mem_singleton_self e')
  · exact ⟨n, after, hlog, hdone⟩

end Custody

end Lib
