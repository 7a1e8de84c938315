/-
What a run comes to.

A run is infinite, and what is said of it is said of its points in time.
`LeadsTo P Q` is that whenever `P` holds, `Q` does then or later on. Three
rules give it: an action that is taken again and again and that helps
(`leadsTo_of_action`), a rank that falls (`leadsTo_of_rank`), and waiting for
something that comes anyway (`LeadsTo.while`).

A schedule may offer turns to the members of a system. If a turn that a member
can use brings the system to its end or lowers a measure, and none loses its
use of a turn before, a fair schedule brings the system to its end
(`done_of_fair`).
-/
import Mathlib.Tactic.ByContra

namespace Lib

variable {α : Type} {P Q R S : Nat → Prop}

def LeadsTo (P Q : Nat → Prop) : Prop := ∀ n, P n → ∃ m, n ≤ m ∧ Q m

theorem LeadsTo.trans (h : LeadsTo P Q) (h' : LeadsTo Q R) : LeadsTo P R := by
  intro n hP
  obtain ⟨m, hnm, hQ⟩ := h n hP
  obtain ⟨l, hml, hR⟩ := h' m hQ
  exact ⟨l, Nat.le_trans hnm hml, hR⟩

/-- One way leads on, the other is there. -/
theorem LeadsTo.or_trans (h : LeadsTo P fun n => Q n ∨ R n) (h' : LeadsTo R Q) : LeadsTo P Q := by
  intro n hP
  obtain ⟨m, hnm, hQ | hR⟩ := h n hP
  · exact ⟨m, hnm, hQ⟩
  · obtain ⟨l, hml, hQ⟩ := h' m hR
    exact ⟨l, Nat.le_trans hnm hml, hQ⟩

/-- What holds in the next moment holds later on. -/
theorem LeadsTo.of_next (h : LeadsTo P fun n => Q (n + 1)) : LeadsTo P Q := by
  intro n hP
  obtain ⟨m, hnm, hQ⟩ := h n hP
  exact ⟨m + 1, Nat.le_succ_of_le hnm, hQ⟩

theorem LeadsTo.of_next_or (h : LeadsTo P fun n => Q n ∨ R (n + 1)) :
    LeadsTo P fun n => Q n ∨ R n := by
  intro n hP
  obtain ⟨m, hnm, hQ | hR⟩ := h n hP
  · exact ⟨m, hnm, .inl hQ⟩
  · exact ⟨m + 1, Nat.le_succ_of_le hnm, .inr hR⟩

/-- `S` stays until `Q` comes, so it is still there at any later time,
unless `Q` came before. -/
theorem stays_until (hnext : ∀ n, S n → Q n ∨ S (n + 1)) :
    ∀ d n, S n → (∃ m, n ≤ m ∧ m < n + d ∧ Q m) ∨ S (n + d) := by
  intro d
  induction d with
  | zero => exact fun n hS => .inr hS
  | succ d ih =>
    intro n hS
    rcases ih n hS with ⟨m, hnm, hlt, hQ⟩ | hS
    · exact .inl ⟨m, hnm, Nat.lt_succ_of_lt hlt, hQ⟩
    · rcases hnext (n + d) hS with hQ | hS
      · exact .inl ⟨n + d, Nat.le_add_right n d, Nat.lt_succ_self _, hQ⟩
      · exact .inr hS

/-- Until `Q` comes, `S` stays, also while `P` leads on. -/
theorem LeadsTo.while (h : LeadsTo P R) (hnext : ∀ n, S n → Q n ∨ S (n + 1)) :
    LeadsTo (fun n => P n ∧ S n) fun n => Q n ∨ (R n ∧ S n) := by
  intro n hPS
  obtain ⟨m, hnm, hR⟩ := h n hPS.1
  obtain ⟨d, rfl⟩ := Nat.exists_eq_add_of_le hnm
  rcases stays_until hnext d n hPS.2 with ⟨l, hnl, -, hQ⟩ | hS
  · exact ⟨l, hnl, .inl hQ⟩
  · exact ⟨n + d, hnm, .inr ⟨hR, hS⟩⟩

/-- An action that is taken again and again, and that helps as long as
nothing else has. -/
theorem leadsTo_of_action {act : Nat → α} {a : α} (hfair : ∀ n, ∃ m, n ≤ m ∧ act m = a)
    (hnext : ∀ n, P n → Q n ∨ P (n + 1)) (hact : ∀ n, P n → act n = a → Q n) : LeadsTo P Q := by
  intro n hP
  obtain ⟨m, hnm, ha⟩ := hfair n
  obtain ⟨d, rfl⟩ := Nat.exists_eq_add_of_le hnm
  rcases stays_until hnext d n hP with ⟨l, hnl, -, hQ⟩ | hP
  · exact ⟨l, hnl, hQ⟩
  · exact ⟨n + d, hnm, hact (n + d) hP ha⟩

/-- A rank that falls until `Q` comes. -/
theorem leadsTo_of_rank {P : Nat → Nat → Prop}
    (h : ∀ k, LeadsTo (P k) fun n => Q n ∨ ∃ j, j < k ∧ P j n) : ∀ k, LeadsTo (P k) Q := by
  intro k
  induction k using Nat.strongRecOn with
  | ind k ih =>
    refine (h k).or_trans fun n hP => ?_
    obtain ⟨j, hjk, hP⟩ := hP
    exact ih j hjk n hP

/-- What one turn may do: end the run, make progress, or leave everything
to members that were not offered a turn. -/
def Turn {σ : Type} (Done : σ → Prop) (Live : σ → Nat → Prop) (measure : σ → Nat)
    (offered : Nat → Bool) (s s' : σ) : Prop :=
  Done s' ∨ measure s' < measure s ∨ (measure s' = measure s ∧ (∃ i, Live s i)
      ∧ ∀ i, Live s i → Live s' i ∧ offered i = false)

theorem done_of_fair {σ : Type} (state : Nat → σ) (offered : Nat → Nat → Bool)
    (Done : σ → Prop) (Live : σ → Nat → Prop) (measure : σ → Nat) (hturn : ∀ n, ¬ Done (state n) →
      Turn Done Live measure (offered n) (state n) (state (n + 1)))
    (hfair : ∀ {n i}, Live (state n) i → ∃ d, offered (n + d) i) : ∃ n, Done (state n) := by
  let Moved (k m : Nat) : Prop := Done (state m) ∨ ∃ j, j < k ∧ measure (state m) = j
  let Waits (k i m : Nat) : Prop := measure (state m) = k ∧ Live (state m) i
  -- a member waits until something moves, or it is offered a turn
  have hstep : ∀ k i m, Waits k i m →
      (Moved k m ∨ Moved k (m + 1)) ∨ Waits k i (m + 1) ∧ offered m i = false := by
    rintro k i m ⟨rfl, hlive⟩
    by_cases hdone : Done (state m)
    · exact .inl (.inl (.inl hdone))
    · rcases hturn m hdone with hd | hlt | ⟨heq, -, hidle⟩
      · exact .inl (.inr (.inl hd))
      · exact .inl (.inr (.inr ⟨_, hlt, rfl⟩))
      · exact .inr ⟨⟨heq, (hidle i hlive).1⟩, (hidle i hlive).2⟩
  have hmoves : ∀ k, LeadsTo (fun n => measure (state n) = k) (Moved k) := by
    rintro _ n rfl
    by_cases hdone : Done (state n)
    · exact ⟨n, Nat.le_refl n, .inl hdone⟩
    rcases hturn n hdone with hd | hlt | ⟨-, ⟨i, hi⟩, -⟩
    · exact ⟨n + 1, Nat.le_succ n, .inl hd⟩
    · exact ⟨n + 1, Nat.le_succ n, .inr ⟨_, hlt, rfl⟩⟩
    obtain ⟨d, hd⟩ := hfair hi
    rcases stays_until (fun m h => (hstep _ i m h).imp_right And.left) d n ⟨rfl, hi⟩
      with ⟨m, hnm, -, hm⟩ | hwaits
    · exact hm.elim (⟨m, hnm, ·⟩) (⟨m + 1, Nat.le_succ_of_le hnm, ·⟩)
    · rcases hstep _ i _ hwaits with hm | ⟨-, hoffered⟩
      · exact hm.elim (⟨_, Nat.le_add_right n d, ·⟩) (⟨_, Nat.le_add_right n (d + 1), ·⟩)
      · exact absurd (hoffered.symm.trans hd) Bool.false_ne_true
  obtain ⟨n, -, hdone⟩ := leadsTo_of_rank hmoves _ 0 rfl
  exact ⟨n, hdone⟩

end Lib
