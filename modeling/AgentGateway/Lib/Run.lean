/-
Runs of a step function that may fail.

Three rules lead from one step to a whole run:

- `foldlM_inv`, for steps that all succeed and keep an invariant.
- `foldlM_runOk`, for a loop that must succeed. Beside the state goes a
  ghost, what the environment knows of the run; a step that meets its
  condition at the ghost state succeeds and keeps the invariant that ties
  the two together.
- `inv_of_stepsOk`, for a transition system, where a failed step is one
  that is not enabled. A step that meets its condition in the state it is
  taken in keeps the invariant. `inv_of_run` is the case where every step
  does.

# Threads

The threads of a system are a list; a turn replaces the state of one of them.

Two kinds of facts about all threads survive a turn, and each is a rule
here: a property every thread has, and a sum over all threads, which
moves by what the one thread moves it.

What many lists come out as when they take turns is an `Interleave`: each
element of each list comes once, and the elements of one list in their
order. It is observed from its front: `Taken ls out rest` says what is
left of the lists after `out` has been taken.
-/
import Mathlib.Data.List.Basic

namespace Lib

variable {σ γ α : Type} {as : List α} {ghost : γ → α → γ}

/-- Every step of a run meets its condition at the ghost state it is
taken in. -/
def RunOk (ghost : γ → α → γ) (Ok : γ → α → Prop) : γ → List α → Prop
  | _, [] => True
  | g, a :: as => Ok g a ∧ RunOk ghost Ok (ghost g a) as

instance RunOk.decidable {ghost : γ → α → γ} {Ok : γ → α → Prop} [∀ g a, Decidable (Ok g a)] :
    ∀ (g : γ) (as : List α), Decidable (RunOk ghost Ok g as)
  | _, [] => isTrue trivial
  | g, a :: as =>
    have : Decidable (RunOk ghost Ok (ghost g a) as) := RunOk.decidable _ as
    inferInstanceAs (Decidable (Ok g a ∧ RunOk ghost Ok (ghost g a) as))

theorem runOk_append {Ok : γ → α → Prop} {g : γ} {bs : List α} :
    RunOk ghost Ok g (as ++ bs) ↔ RunOk ghost Ok g as ∧ RunOk ghost Ok (as.foldl ghost g) bs := by
  induction as generalizing g with
  | nil => exact ⟨fun h => ⟨trivial, h⟩, And.right⟩
  | cons a as ih => exact (and_congr_right fun _ => ih).trans and_assoc.symm

variable {step : σ → α → Option σ} {Inv : σ → Prop} {Ok : σ → α → Prop}

/-- Every step succeeds and keeps the invariant, so every run does. -/
theorem foldlM_inv (hstep : ∀ {s} a, Inv s → ∃ s', step s a = some s' ∧ Inv s') :
    ∀ (as : List α) {s : σ}, Inv s → ∃ s', as.foldlM step s = some s' ∧ Inv s' := by
  intro as
  induction as with
  | nil =>
    intro s h
    exact ⟨s, rfl, h⟩
  | cons a as ih =>
    intro s h
    obtain ⟨s₁, hs₁, h₁⟩ := hstep a h
    obtain ⟨s', hs', h'⟩ := ih h₁
    refine ⟨s', ?_, h'⟩
    rw [List.foldlM_cons, hs₁]
    exact hs'

theorem foldlM_runOk {Ok : γ → α → Prop} {Inv : σ → γ → Prop}
    (hstep : ∀ {s g a}, Inv s g → Ok g a → ∃ s', step s a = some s' ∧ Inv s' (ghost g a)) :
    ∀ (as : List α) {s : σ} {g : γ}, Inv s g → RunOk ghost Ok g as →
      ∃ s', as.foldlM step s = some s' ∧ Inv s' (as.foldl ghost g) := by
  intro as
  induction as with
  | nil =>
    intro s g h _
    exact ⟨s, rfl, h⟩
  | cons a as ih =>
    intro s g h hok
    obtain ⟨s₁, hs₁, h₁⟩ := hstep h hok.1
    obtain ⟨s', hs', h'⟩ := ih h₁ hok.2
    refine ⟨s', ?_, h'⟩
    rw [List.foldlM_cons, hs₁]
    exact hs'

/-- Every step of a run meets its condition in the state it is taken
in. -/
def StepsOk (step : σ → α → Option σ) (Ok : σ → α → Prop) : σ → List α → Prop
  | _, [] => True
  | s, a :: as => Ok s a ∧ ∀ s', step s a = some s' → StepsOk step Ok s' as

instance StepsOk.decidable {step : σ → α → Option σ} {Ok : σ → α → Prop}
    [∀ s a, Decidable (Ok s a)] : ∀ (s : σ) (as : List α), Decidable (StepsOk step Ok s as)
  | _, [] => isTrue trivial
  | s, a :: as =>
    match hs : step s a with
    | none =>
      decidable_of_iff (Ok s a) ⟨fun h => ⟨h, fun _ hs' => nomatch hs.symm.trans hs'⟩, And.left⟩
    | some s₁ =>
      have : Decidable (StepsOk step Ok s₁ as) := StepsOk.decidable s₁ as
      decidable_of_iff (Ok s a ∧ StepsOk step Ok s₁ as)
        ⟨fun h => ⟨h.1, fun _ hs' => Option.some.inj (hs.symm.trans hs') ▸ h.2⟩,
          fun h => ⟨h.1, h.2 s₁ hs⟩⟩

theorem foldlM_cons_eq_some {a : α} {s s' : σ} :
    (a :: as).foldlM step s = some s' ↔ ∃ s₁, step s a = some s₁ ∧ as.foldlM step s₁ = some s' := by
  exact Option.bind_eq_some_iff

theorem inv_of_stepsOk (hstep : ∀ {s a s'}, Inv s → Ok s a → step s a = some s' → Inv s') :
    ∀ (as : List α) {s s' : σ}, Inv s → StepsOk step Ok s as →
      as.foldlM step s = some s' → Inv s' := by
  intro as
  induction as with
  | nil =>
    intro s s' h _ hrun
    cases hrun
    exact h
  | cons a as ih =>
    intro s s' h hok hrun
    obtain ⟨s₁, hs₁, hrun⟩ := foldlM_cons_eq_some.1 hrun
    exact ih (hstep h hok.1 hs₁) (hok.2 s₁ hs₁) hrun

theorem stepsOk_of_forall {Ok : α → Prop} (h : ∀ a ∈ as, Ok a) (s : σ) :
    StepsOk step (fun _ => Ok) s as := by
  induction as generalizing s with
  | nil => trivial
  | cons a as ih =>
    exact ⟨h a List.mem_cons_self, fun s' _ => ih (fun b hb => h b (List.mem_cons_of_mem a hb)) s'⟩

theorem inv_of_run (hstep : ∀ {s a s'}, Inv s → step s a = some s' → Inv s')
    (as : List α) {s s' : σ} (h : Inv s) (hrun : as.foldlM step s = some s') : Inv s' :=
  inv_of_stepsOk (fun h _ => hstep h) as h (stepsOk_of_forall (fun _ _ => trivial) s) hrun

/-- Under an invariant, where a step fails just when its condition does. -/
theorem isSome_foldlM_iff (hinv : ∀ {s a s'}, Inv s → step s a = some s' → Inv s')
    (hok : ∀ {s a}, Inv s → ((step s a).isSome ↔ Ok s a)) :
    ∀ (as : List α) {s : σ}, Inv s → ((as.foldlM step s).isSome ↔ StepsOk step Ok s as) := by
  intro as
  induction as with
  | nil =>
    intro s _
    exact iff_of_true rfl trivial
  | cons a as ih =>
    intro s h
    rw [List.foldlM_cons, StepsOk, ← hok h]
    cases hs : step s a with
    | none => simp
    | some s₁ => simpa using ih (hinv h hs)

-- ======== threads

variable {τ : Type} {threads : List τ} {t : τ} (w : τ → Nat)

theorem forall_mem_set {P Q : τ → Prop} {i : Nat}
    (h : ∀ t ∈ threads, P t) (hPQ : ∀ t, P t → Q t) (ht : Q t) : ∀ t' ∈ threads.set i t, Q t' := by
  intro t' hmem
  rcases List.mem_or_eq_of_mem_set hmem with hmem | rfl
  · exact hPQ t' (h t' hmem)
  · exact ht

theorem forall_mem_concat {P Q : τ → Prop}
    (h : ∀ t ∈ threads, P t) (hPQ : ∀ t, P t → Q t) (ht : Q t) : ∀ t' ∈ threads ++ [t], Q t' := by
  intro t' hmem
  rcases List.mem_append.1 hmem with hmem | hmem
  · exact hPQ t' (h t' hmem)
  · rw [List.mem_singleton.1 hmem]
    exact ht

/-- What the threads come to together. -/
def total (w : τ → Nat) : List τ → Nat
  | [] => 0
  | t :: threads => w t + total w threads

theorem total_append (threads threads' : List τ) :
    total w (threads ++ threads') = total w threads + total w threads' := by
  induction threads with
  | nil => exact (Nat.zero_add _).symm
  | cons t threads ih =>
    show w t + total w (threads ++ threads') = w t + total w threads + total w threads'
    rw [ih, Nat.add_assoc]

/-- One turn, with what the thread came to before and after. -/
theorem total_set (t' : τ) : ∀ {threads : List τ} {i : Nat} {t : τ}, threads[i]? = some t →
      total w (threads.set i t') + w t = total w threads + w t' := by
  intro threads
  induction threads with
  | nil =>
    intro i t h
    cases h
  | cons t₀ threads ih =>
    intro i t h
    cases i with
    | zero =>
      cases h
      show w t' + total w threads + w t₀ = w t₀ + total w threads + w t'
      omega
    | succ i =>
      have hi := ih h
      show w t₀ + total w (threads.set i t') + w t = w t₀ + total w threads + w t'
      omega

-- ======== interleavings

variable {α : Type}

inductive Interleave : List (List α) → List α → Prop
  | done {ls : List (List α)} (h : ∀ l ∈ ls, l = []) : Interleave ls []
  | take {ls : List (List α)} {i : Nat} {x : α} {rest out : List α}
      (hi : ls[i]? = some (x :: rest)) (h : Interleave (ls.set i rest) out) :
      Interleave ls (x :: out)

/-- Whatever interleaving is made of the rest, `out` goes before it. -/
def Taken (ls : List (List α)) (out : List α) (rest : List (List α)) : Prop :=
  ∀ more, Interleave rest more → Interleave ls (out ++ more)

theorem taken_nil (ls : List (List α)) : Taken ls [] ls :=
  fun _ h => h

theorem Taken.done {ls rest : List (List α)} {out : List α}
    (h : Taken ls out rest) (hrest : ∀ l ∈ rest, l = []) : Interleave ls out := by
  have hall := h [] (.done hrest)
  rwa [List.append_nil] at hall

end Lib
