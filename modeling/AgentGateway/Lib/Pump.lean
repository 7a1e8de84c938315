/-
Loops that work off what has been buffered.

A pump takes one thing after another out of a state until it finds no
more or fails. More input may be fed to the state at any time; a pump is
incremental if a turn taken early is the turn it would have taken with
more input at hand. Draining before feeding then changes nothing
(`drain_feed`), so it does not matter in which portions input comes.
-/
import Mathlib.Init

namespace Lib

variable {σ O X A : Type}

/-- One turn of the loop. -/
inductive Pumped (σ O X : Type)
  /-- something was taken out -/
  | item (out : List O) (s : σ)
  /-- nothing to take out yet -/
  | idle (s : σ)
  | fail (out : List O) (e : X) (s : σ)

/-- The loop: it cannot take things out for ever. -/
structure Pump (σ O X : Type) where
  step : σ → Pumped σ O X
  weight : σ → Nat
  step_lt : ∀ {s out s'}, step s = .item out s' → weight s' < weight s

/-- What a loop has taken out, and how it ended. -/
structure Drained (σ O X : Type) where
  out : List O
  result : Except X Unit
  state : σ

def Drained.prepend (out : List O) (d : Drained σ O X) : Drained σ O X :=
  { d with out := out ++ d.out }

namespace Pump

variable (p : Pump σ O X) {s s' : σ} {out : List O} {e : X}

/-- At most so many turns. -/
def drainFrom : Nat → σ → Drained σ O X
  | 0, s => ⟨[], .ok (), s⟩
  | n + 1, s =>
    match p.step s with
    | .item out s' => (drainFrom n s').prepend out
    | .idle s' => ⟨[], .ok (), s'⟩
    | .fail out e s' => ⟨out, .error e, s'⟩

/-- As many turns as it takes. -/
def drain (s : σ) : Drained σ O X := p.drainFrom (p.weight s + 1) s

-- ======== equations

/-- Turns beyond the weight are not taken. -/
theorem drainFrom_eq {n : Nat} (hn : p.weight s < n) : p.drainFrom n s = p.drain s := by
  induction n using Nat.strongRecOn generalizing s with
  | ind n ih =>
    cases n with
    | zero => omega
    | succ n =>
      unfold drain
      rw [drainFrom, drainFrom]
      cases hs : p.step s with
      | item out s' =>
        have hlt := p.step_lt hs
        dsimp only
        rw [ih n (Nat.lt_succ_self n) (by omega), ih (p.weight s) (by omega) hlt]
      | idle | fail => rfl

variable {p}

theorem drain_item (h : p.step s = .item out s') : p.drain s = (p.drain s').prepend out := by
  conv => lhs; unfold drain
  rw [drainFrom, h]
  dsimp only
  rw [p.drainFrom_eq (p.step_lt h)]

theorem drain_idle (h : p.step s = .idle s') : p.drain s = ⟨[], .ok (), s'⟩ := by
  unfold drain
  rw [drainFrom, h]

theorem drain_fail (h : p.step s = .fail out e s') : p.drain s = ⟨out, .error e, s'⟩ := by
  unfold drain
  rw [drainFrom, h]

/-- The first turn decides. -/
theorem drain_congr (h : p.step s = p.step s') : p.drain s = p.drain s' := by
  cases hs : p.step s with
  | item out t => rw [drain_item hs, drain_item (h.symm.trans hs)]
  | idle t => rw [drain_idle hs, drain_idle (h.symm.trans hs)]
  | fail out e t => rw [drain_fail hs, drain_fail (h.symm.trans hs)]

/-- Induction along the turns of the loop. -/
theorem drain_induct {P : σ → Prop} (p : Pump σ O X)
    (item : ∀ {s out s'}, p.step s = .item out s' → P s' → P s)
    (idle : ∀ {s s'}, p.step s = .idle s' → P s)
    (fail : ∀ {s out e s'}, p.step s = .fail out e s' → P s) (s : σ) : P s := by
  induction hn : p.weight s using Nat.strongRecOn generalizing s with
  | ind n ih =>
    cases hs : p.step s with
    | item out s' => exact item hs (ih _ (hn ▸ p.step_lt hs) s' rfl)
    | idle s' => exact idle hs
    | fail out e s' => exact fail hs

-- ======== incremental

/-- More input does not change a turn. What an idle turn leaves stands
for what it was taken in. -/
structure Incremental (p : Pump σ O X) (feed : σ → List A → σ) : Prop where
  feed_nil : ∀ s, feed s [] = s
  feed_append : ∀ s x y, feed (feed s x) y = feed s (x ++ y)
  item : ∀ {s out s'}, p.step s = .item out s' → ∀ x, p.step (feed s x) = .item out (feed s' x)
  idle : ∀ {s s'}, p.step s = .idle s' → ∀ x, p.step (feed s x) = p.step (feed s' x)
  fail : ∀ {s out e s'}, p.step s = .fail out e s' → ∀ x, ∃ s'', p.step (feed s x) = .fail out e s''

variable {feed : σ → List A → σ}

/-- Draining first, then feeding and draining again. -/
theorem drain_feed (hp : p.Incremental feed) (s : σ)
    (hok : (p.drain s).result = .ok ()) (x : List A) :
    p.drain (feed s x) = (p.drain (feed (p.drain s).state x)).prepend (p.drain s).out := by
  induction s using p.drain_induct with
  | @item s out s' hs ih =>
    rw [drain_item hs] at hok
    rw [drain_item hs, drain_item (hp.item hs x), ih hok]
    simp [Drained.prepend]
  | idle hs =>
    rw [drain_idle hs, drain_congr (hp.idle hs x)]
    rfl
  | fail hs =>
    rw [drain_fail hs] at hok
    cases hok

/-- A failure stays. -/
theorem drain_feed_fail (hp : p.Incremental feed) (s : σ)
    (hfail : (p.drain s).result = .error e) (x : List A) :
    (p.drain (feed s x)).out = (p.drain s).out ∧ (p.drain (feed s x)).result = .error e := by
  induction s using p.drain_induct with
  | @item s out s' hs ih =>
    rw [drain_item hs] at hfail
    rw [drain_item hs, drain_item (hp.item hs x)]
    obtain ⟨hout, hres⟩ := ih hfail
    exact ⟨congrArg (out ++ ·) hout, hres⟩
  | idle hs =>
    rw [drain_idle hs] at hfail
    cases hfail
  | fail hs =>
    obtain ⟨s'', hs''⟩ := hp.fail hs x
    rw [drain_fail hs] at hfail
    rw [drain_fail hs, drain_fail hs'']
    exact ⟨rfl, hfail⟩

/-- What is drained stays so until it is fed. -/
theorem drain_drained (hp : p.Incremental feed) (hok : (p.drain s).result = .ok ()) :
    p.drain (p.drain s).state = ⟨[], .ok (), (p.drain s).state⟩ := by
  have h := drain_feed hp s hok []
  rw [hp.feed_nil, hp.feed_nil] at h
  generalize p.drain (p.drain s).state = d at h
  obtain ⟨out, result, state⟩ := d
  rw [h] at hok ⊢
  have hout : out = [] := by
    have := congrArg (fun d => d.out) h
    simpa [Drained.prepend] using this
  subst hout
  cases hok
  rfl

end Pump

end Lib
