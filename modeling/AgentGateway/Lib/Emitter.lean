/-
Computations on a state that emit a log, with rules of pre- and
postconditions.

An assertion speaks of the state and of everything emitted so far; a
triple says that it leads, over one computation, to another one. Loops
over a list come with a rule whose invariant speaks of what is left.
-/
import Mathlib.Init

namespace Lib

open List

/-- On a state `σ`, emitting `O`. -/
def Emitter (σ O α : Type) := σ → α × σ × List O

namespace Emitter

variable {σ O α β : Type}

instance : Monad (Emitter σ O) where
  pure a := fun s => (a, s, [])
  bind m f := fun s =>
    let (a, s, out) := m s
    let (b, s, out') := f a s
    (b, s, out ++ out')

instance : LawfulMonad (Emitter σ O) := LawfulMonad.mk' _ (fun m => by
    funext s
    show (_, _, _ ++ []) = _
    rw [append_nil]
    rfl)
  (fun _ _ => rfl)
  (fun m f g => by
    funext s
    show (_, _, (_ ++ _) ++ _) = (_, _, _ ++ (_ ++ _))
    rw [append_assoc])

instance : MonadStateOf σ (Emitter σ O) where
  get := fun s => (s, s, [])
  set s := fun _ => ((), s, [])
  modifyGet f := fun s => ((f s).1, (f s).2, [])

def emit (o : O) : Emitter σ O Unit := fun s => ((), s, [o])

theorem get_bind_apply (f : σ → Emitter σ O β) (s : σ) : (get >>= f) s = f s s := rfl

theorem bind_apply (m : Emitter σ O α) (f : α → Emitter σ O β) (s : σ) :
    (m >>= f) s = ((f (m s).1 (m s).2.1).1, (f (m s).1 (m s).2.1).2.1,
      (m s).2.2 ++ (f (m s).1 (m s).2.1).2.2) := rfl

/-- All that a sequence of computations emits, and the state it leaves. -/
def runAll (step : α → Emitter σ O Unit) (s : σ) : List α → σ × List O
  | [] => (s, [])
  | a :: as =>
    let (_, s, out) := step a s
    let (s, rest) := runAll step s as
    (s, out ++ rest)

-- ======== triples

/-- `P` before leads to `Q` after. -/
def Triple (P : σ → List O → Prop) (m : Emitter σ O α) (Q : α → σ → List O → Prop) : Prop :=
  ∀ s out, P s out → Q (m s).1 (m s).2.1 (out ++ (m s).2.2)

variable {P P' : σ → List O → Prop} {m : Emitter σ O α}
  {Q Q' : α → σ → List O → Prop} {R : β → σ → List O → Prop} {s' : σ}

theorem triple_pure {a : α} (h : ∀ s out, P s out → Q a s out) : Triple P (pure a) Q := by
  intro s out hP
  show Q a s (out ++ [])
  rw [append_nil]
  exact h s out hP

theorem triple_bind {f : α → Emitter σ O β} (hm : Triple P m Q)
    (hf : ∀ a, Triple (Q a) (f a) R) : Triple P (m >>= f) R := by
  intro s out hP
  have h := hf (m s).1 (m s).2.1 (out ++ (m s).2.2) (hm s out hP)
  rw [append_assoc] at h
  exact h

/-- What comes first keeps `P`. -/
theorem triple_keep {f : α → Emitter σ O β} (hm : Triple P m fun _ => P)
    (hf : ∀ a, Triple P (f a) R) : Triple P (m >>= f) R :=
  triple_bind hm hf

/-- What was read is the state. -/
theorem triple_get {f : σ → Emitter σ O β}
    (h : ∀ s, Triple (fun s' out => s' = s ∧ P s' out) (f s) R) : Triple P (get >>= f) R := by
  intro s out hP
  exact h s s out ⟨rfl, hP⟩

theorem triple_set {Q : PUnit → σ → List O → Prop} (h : ∀ s out, P s out → Q ⟨⟩ s' out) :
    Triple P (set s' : Emitter σ O PUnit) Q := by
  intro s out hP
  show Q ⟨⟩ s' (out ++ [])
  rw [append_nil]
  exact h s out hP

variable {f : σ → σ}

theorem triple_modify {Q : PUnit → σ → List O → Prop}
    (h : ∀ s out, P s out → Q ⟨⟩ (f s) out) : Triple P (modify f : Emitter σ O PUnit) Q := by
  intro s out hP
  show Q ⟨⟩ (f s) (out ++ [])
  rw [append_nil]
  exact h s out hP

variable {o : O}

theorem triple_emit {Q : Unit → σ → List O → Prop}
    (h : ∀ s out, P s out → Q () s (out ++ [o])) : Triple P (emit o) Q := h

/-- Writing and emitting in one go. -/
theorem triple_set_emit {Q : Unit → σ → List O → Prop}
    (h : ∀ s out, P s out → Q () s' (out ++ [o])) : Triple P (do set s'; emit o) Q := h

theorem triple_emit_modify {Q : PUnit → σ → List O → Prop}
    (h : ∀ s out, P s out → Q ⟨⟩ (f s) (out ++ [o])) : Triple P (do emit o; modify f) Q := h

/-- Reading, writing and emitting in one go. -/
theorem triple_update {o : σ → O} {g : σ → α}
    (h : ∀ s out, P s out → Q (g s) (f s) (out ++ [o s])) :
    Triple P (do let s ← get; set (f s); emit (o s); pure (g s)) Q := h

theorem triple_mono (hm : Triple P m Q) (hP : ∀ s out, P' s out → P s out)
    (hQ : ∀ a s out, Q a s out → Q' a s out) : Triple P' m Q' :=
  fun s out h => hQ _ _ _ (hm s out (hP s out h))

theorem triple_and (hm : Triple P m Q) (hm' : Triple P' m Q') :
    Triple (fun s out => P s out ∧ P' s out) m fun a s out => Q a s out ∧ Q' a s out :=
  fun s out h => ⟨hm s out h.1, hm' s out h.2⟩

/-- The rule for loops: an invariant of what is left. -/
theorem triple_forM (Inv : List β → σ → List O → Prop) {f : β → Emitter σ O PUnit} (xs : List β)
    (hf : ∀ x rest, Triple (Inv (x :: rest)) (f x) fun _ => Inv rest) :
    Triple (Inv xs) (xs.forM f) fun _ => Inv [] := by
  induction xs with
  | nil => exact triple_pure fun _ _ h => h
  | cons x xs ih => exact triple_bind (hf x xs) fun _ => ih

theorem triple_forM_append {f : β → Emitter σ O PUnit} {xs ys : List β}
    {Q R : PUnit → σ → List O → Prop} (hxs : Triple P (xs.forM f) Q)
    (hys : Triple (Q ⟨⟩) (ys.forM f) R) : Triple P ((xs ++ ys).forM f) R := by
  have happend : (xs ++ ys).forM f = xs.forM f >>= fun _ => ys.forM f := forM_append
  rw [happend]
  exact triple_bind hxs fun _ => hys

/-- The rule for loops: an invariant of what has come. -/
theorem triple_forM_prefix (At : List β → σ → List O → Prop)
    {f : β → Emitter σ O PUnit} (xs : List β) (hf : ∀ pre x post, xs = pre ++ x :: post →
      Triple (At pre) (f x) fun _ => At (pre ++ [x])) :
    Triple (At []) (xs.forM f) fun _ => At xs := by
  have hloop := triple_forM
    (fun rest s out => ∃ pre, xs = pre ++ rest ∧ At pre s out) xs (f := f) ?_
  · refine triple_mono hloop (fun s out h => ⟨[], rfl, h⟩) ?_
    rintro _ s out ⟨pre, hpre, h⟩
    rw [append_nil] at hpre
    rwa [hpre]
  · rintro x rest s out ⟨pre, hpre, h⟩
    refine ⟨pre ++ [x], ?_, hf pre x rest hpre s out h⟩
    rw [hpre, append_assoc]
    rfl

variable (step : β → Emitter σ O Unit) {step : β → Emitter σ O Unit} (s : σ) (xs : List β)

theorem runAll_cons (x : β) (xs : List β) :
    runAll step s (x :: xs) = ((runAll step (step x s).2.1 xs).1,
      (step x s).2.2 ++ (runAll step (step x s).2.1 xs).2) := rfl

/-- A run is a loop over what it is given. -/
theorem runAll_eq_forM : runAll step s xs = (xs.forM step s).2 := by
  induction xs generalizing s with
  | nil => rfl
  | cons x xs ih =>
    rw [runAll_cons, ih]
    rfl

theorem runAll_append (ys : List β) :
    runAll step s (xs ++ ys) = ((runAll step (runAll step s xs).1 ys).1,
      (runAll step s xs).2 ++ (runAll step (runAll step s xs).1 ys).2) := by
  induction xs generalizing s with
  | nil => rfl
  | cons x xs ih =>
    rw [cons_append, runAll_cons, ih]
    exact congrArg (Prod.mk _) (append_assoc _ _ _).symm

theorem runAll_map (f : α → β) (s : σ) (xs : List α) :
    runAll step s (xs.map f) = runAll (fun x => step (f x)) s xs := by
  induction xs generalizing s with
  | nil => rfl
  | cons x xs ih => rw [map_cons, runAll_cons, runAll_cons, ih]

/-- The rule for runs: an invariant of what is left. -/
theorem runAll_triple (Inv : List β → σ → List O → Prop)
    (hstep : ∀ x rest, Triple (Inv (x :: rest)) (step x) fun _ => Inv rest)
    (xs : List β) {s : σ} {out : List O} (h : Inv xs s out) :
    Inv [] (runAll step s xs).1 (out ++ (runAll step s xs).2) := by
  rw [runAll_eq_forM]
  exact triple_forM Inv xs hstep s out h

/-- What does nothing may be left out of a run. -/
theorem runAll_filterMap (g : β → Option α)
    (step' : α → Emitter σ O Unit) (hnone : ∀ x, g x = none → step x = pure ())
    (hsome : ∀ x y, g x = some y → step x = step' y) (s : σ) (xs : List β) :
    runAll step s xs = runAll step' s (xs.filterMap g) := by
  induction xs generalizing s with
  | nil => rfl
  | cons x xs ih =>
    cases hg : g x with
    | none =>
      rw [filterMap_cons_none hg, ← ih, runAll_cons, hnone x hg]
      rfl
    | some y =>
      rw [filterMap_cons_some hg, runAll_cons, runAll_cons, ih, hsome x y hg]

end Emitter

end Lib
