/-
Calls that read what is stored, and later write what they made of it.

Nothing keeps a call from being overtaken between its two steps. If none is, that
is, if each writes while what it has read is still what is stored (`Undisturbed`),
then the calls are as good as done one after another (`asIfSequential_of_undisturbed`):
a call takes effect when it writes, and one that fails when it reads.
-/
import AgentGateway.Lib.Run
import Mathlib.Data.List.Perm.Basic

namespace Lib.ReadModifyWrite

open List

variable {σ C ε R : Type}

inductive Phase (σ ε R : Type)
  | ready
  | loaded (read : σ)
  | returned (result : Except ε R)

structure State (σ C ε R : Type) where
  stored : σ
  calls : List (C × Phase σ ε R)

def start (stored : σ) (calls : List C) : State σ C ε R :=
  ⟨stored, calls.map (·, .ready)⟩

inductive Turn
  | load (i : Nat)
  | save (i : Nat)

/-- A call that fails does so when it has read, and writes nothing. -/
def step (apply : C → σ → Except ε (σ × R)) (s : State σ C ε R) : Turn → Option (State σ C ε R)
  | .load i =>
    match s.calls[i]? with
    | some (call, .ready) =>
      match apply call s.stored with
      | .ok _ => some { s with calls := s.calls.set i (call, .loaded s.stored) }
      | .error e => some { s with calls := s.calls.set i (call, .returned (.error e)) }
    | _ => none
  | .save i =>
    match s.calls[i]? with
    | some (call, .loaded read) =>
      match apply call read with
      | .ok (new, r) => some ⟨new, s.calls.set i (call, .returned (.ok r))⟩
      | .error _ => none
    | _ => none

def State.result? (s : State σ C ε R) (i : Nat) : Option (Except ε R) :=
  match s.calls[i]? with
  | some (_, .returned result) => some result
  | _ => none

/-- What a call has read that has yet to write. -/
def State.read? (s : State σ C ε R) (i : Nat) : Option σ :=
  match s.calls[i]? with
  | some (_, .loaded read) => some read
  | _ => none

/-- What was read is still stored when the call writes. -/
def Undisturbed (s : State σ C ε R) : Turn → Prop
  | .load _ => True
  | .save i => ∀ read ∈ s.read? i, s.stored = read

instance [DecidableEq σ] (s : State σ C ε R) : ∀ t, Decidable (Undisturbed s t)
  | .load _ => isTrue trivial
  | .save i => inferInstanceAs (Decidable (∀ read ∈ s.read? i, s.stored = read))

-- ======== one after another

def alone (apply : C → σ → Except ε (σ × R)) (s : σ) (call : C) : σ × Except ε R :=
  match apply call s with
  | .ok (new, r) => (new, .ok r)
  | .error e => (s, .error e)

/-- Calls one after another: what is stored in the end, and what each returns. -/
def inOrder (apply : C → σ → Except ε (σ × R)) (calls : List C) (s : σ)
    (order : List Nat) : σ × List (Option (Except ε R)) :=
  order.foldl (fun (s, results) i =>
    match calls[i]? with
    | some call => ((alone apply s call).1, results ++ [some (alone apply s call).2])
    | none => (s, results ++ [none])) (s, [])

/-- All of the calls have returned, and it is as if they had come in some order. -/
def AsIfSequential (apply : C → σ → Except ε (σ × R)) (stored : σ) (calls : List C)
    (s : State σ C ε R) : Prop :=
  ∃ order : List Nat, order.Perm (range calls.length)
    ∧ inOrder apply calls stored order = (s.stored, order.map s.result?)

variable {apply : C → σ → Except ε (σ × R)} {stored : σ} {calls : List C}
  {s s' : State σ C ε R} {i : Nat} {call : C} {result : Except ε R} {phase : Phase σ ε R}

/-- The calls that have returned have come in some order. -/
def Inv (apply : C → σ → Except ε (σ × R)) (stored : σ) (calls : List C)
    (s : State σ C ε R) : Prop :=
  s.calls.map (·.1) = calls ∧ ∃ order : List Nat, order.Nodup
    ∧ (∀ i, i ∈ order ↔ (s.result? i).isSome)
    ∧ inOrder apply calls stored order = (s.stored, order.map s.result?)

theorem inv_start : Inv apply stored calls (start stored calls) := by
  refine ⟨by simp [start, Function.comp_def], [], nodup_nil, fun i => ?_, rfl⟩
  cases hi : calls[i]? <;> simp [State.result?, start, hi]

theorem map_set {phase' : Phase σ ε R} (hi : s.calls[i]? = some (call, phase)) :
    (s.calls.set i (call, phase')).map (·.1) = s.calls.map (·.1) := by
  have hlt := (List.getElem?_eq_some_iff.1 hi).1
  refine ext_getElem? fun j => ?_
  by_cases hj : i = j
  · subst hj
    rw [getElem?_map, getElem?_map, hi, getElem?_set_self hlt]
    rfl
  · simp [hj]

/-- A step that returns nothing changes nothing. -/
theorem Inv.loads (h : Inv apply stored calls s)
    (hi : s.calls[i]? = some (call, .ready)) (read : σ) :
    Inv apply stored calls { s with calls := s.calls.set i (call, .loaded read) } := by
  have hsame : State.result? { s with calls := s.calls.set i (call, .loaded read) }
      = s.result? := by
    funext j
    by_cases hj : i = j
    · subst hj
      have hlt := (List.getElem?_eq_some_iff.1 hi).1
      rw [State.result?, State.result?, hi, getElem?_set_self hlt]
    · simp [State.result?, hj]
  obtain ⟨hcalls, order, hnodup, hmem, hrun⟩ := h
  refine ⟨(map_set hi).trans hcalls, order, hnodup, ?_, ?_⟩
  · rw [hsame]
    exact hmem
  · rw [hsame]
    exact hrun

/-- A call that returns what it would by itself comes last. -/
theorem Inv.returns (h : Inv apply stored calls s)
    (hi : s.calls[i]? = some (call, phase)) (hnot : s.result? i = none)
    (halone : alone apply s.stored call = (s'.stored, result))
    (hs' : s'.calls = s.calls.set i (call, .returned result)) : Inv apply stored calls s' := by
  obtain ⟨hcalls, order, hnodup, hmem, hrun⟩ := h
  have hlt := (List.getElem?_eq_some_iff.1 hi).1
  have hself : s'.result? i = some result := by
    simp [State.result?, hs', hlt]
  have hother : ∀ j, j ≠ i → s'.result? j = s.result? j := by
    intro j hj
    simp [State.result?, hs', Ne.symm hj]
  have hnew : i ∉ order := by
    rw [hmem, hnot]
    nofun
  refine ⟨by rw [hs', map_set hi, hcalls], order ++ [i], ?_, fun j => ?_, ?_⟩
  · refine List.nodup_append.2 ⟨hnodup, by simp, fun j hj k hk heq => hnew ?_⟩
    rwa [← List.mem_singleton.1 hk, ← heq]
  · by_cases hj : j = i
    · subst hj
      simp [hself]
    · simp [hj, hmem, hother j hj]
  · have hcall : calls[i]? = some call := by
      rw [← hcalls, getElem?_map, hi]
      rfl
    have hsame : order.map s'.result? = order.map s.result? :=
      map_congr_left fun j hj => hother j fun heq => hnew (heq ▸ hj)
    rw [inOrder, foldl_concat, ← inOrder, hrun, hcall, map_append, hsame]
    simp only [halone, map_cons, map_nil, hself]

theorem inv_step {t : Turn} (h : Inv apply stored calls s) (hok : Undisturbed s t)
    (hstep : step apply s t = some s') : Inv apply stored calls s' := by
  cases t with
  | load i =>
    simp only [step] at hstep
    split at hstep
    · next call hi =>
      split at hstep
      · cases hstep
        exact h.loads hi s.stored
      · next e happly =>
        cases hstep
        exact h.returns hi (by simp [State.result?, hi]) (by simp [alone, happly]) rfl
    · cases hstep
  | save i =>
    simp only [step] at hstep
    split at hstep
    · next call read hi =>
      have hread : s.stored = read := hok read (by simp [State.read?, hi])
      split at hstep
      · next new r happly =>
        cases hstep
        exact h.returns hi (by simp [State.result?, hi]) (by simp [alone, hread, happly]) rfl
      · cases hstep
    · cases hstep

theorem asIfSequential_of_undisturbed {turns : List Turn}
    (hrun : turns.foldlM (step apply) (start stored calls) = some s)
    (hok : StepsOk (step apply) Undisturbed (start stored calls) turns)
    (hdone : ∀ i < calls.length, (s.result? i).isSome) :
    AsIfSequential apply stored calls s := by
  have hinv : Inv apply stored calls s := inv_of_stepsOk inv_step turns inv_start hok hrun
  obtain ⟨hcalls, order, hnodup, hmem, hrun⟩ := hinv
  refine ⟨order, (perm_ext_iff_of_nodup hnodup nodup_range).2 fun i => ?_, hrun⟩
  rw [hmem, mem_range]
  refine ⟨fun hsome => ?_, hdone i⟩
  rw [← hcalls, length_map]
  by_contra hge
  rw [State.result?, getElem?_eq_none (Nat.not_lt.1 hge)] at hsome
  cases hsome

end Lib.ReadModifyWrite
