/-
The sifting of a binary heap, over any container whose elements can be
compared and swapped by position.

Everything that it does, it does by swapping. So what swaps preserve the
whole preserves (`Steady`), and there is nothing to prove about the loops
for a fact about swaps.
-/
import Mathlib.Init

namespace Lib

/-- The container, as the sifting sees it. -/
structure HeapOps (H : Type) where
  len : H → Nat
  less : H → Nat → Nat → Bool
  swap : H → Nat → Nat → H

namespace HeapOps

variable {H : Type} (o : HeapOps H) {h : H} {n i : Nat}

/-- An element goes up as long as it is less than its parent. -/
def up (h : H) (j : Nat) : H :=
  let i := (j - 1) / 2
  if i = j then h
  else if o.less h j i then up (o.swap h i j) i
  else h
termination_by j

/-- The lesser one of the children, among the first `n` positions. -/
def child (h : H) (i n : Nat) : Nat :=
  if 2 * i + 2 < n ∧ o.less h (2 * i + 2) (2 * i + 1) then 2 * i + 2
  else 2 * i + 1

theorem lt_child (h : H) (i n : Nat) : i < o.child h i n := by
  unfold child
  split <;> omega

theorem child_lt (hlt : 2 * i + 1 < n) : o.child h i n < n := by
  unfold child
  split
  · exact (And.left ‹_›)
  · exact hlt

/-- An element goes down as long as a child is less, and is where it ends
up. -/
def down (h : H) (i n : Nat) : H × Nat :=
  if 2 * i + 1 < n then
    let j := o.child h i n
    if o.less h j i then down (o.swap h i j) j n else (h, i)
  else (h, i)
termination_by n - i
decreasing_by
  have := o.lt_child h i n
  omega

/-- An element that has changed finds its place, among the first `n`
positions. -/
def settle (h : H) (i n : Nat) : H :=
  let (h', i') := o.down h i n
  if i < i' then h' else o.up h' i

/-- `heap.Fix`. -/
def fix (h : H) (i : Nat) : H := o.settle h i (o.len h)

/-- `heap.Remove`, up to where the element is the last. -/
def moveLast (h : H) (i : Nat) : H :=
  let n := o.len h - 1
  if n = i then h else o.settle (o.swap h i n) i n

/-- `heap.Pop`, up to where the element is the last. -/
def moveFirstLast (h : H) : H :=
  let n := o.len h - 1
  (o.down (o.swap h 0 n) 0 n).1

-- ======== what swaps preserve

/-- Swaps among the first `n` positions preserve it. -/
def Steady (n : Nat) (P : H → Prop) : Prop :=
  ∀ h i j, i < n → j < n → P h → P (o.swap h i j)

variable {o} {P : H → Prop}

theorem up_steady (hP : o.Steady n P) {j : Nat} (hj : j < n) (h₀ : P h) : P (o.up h j) := by
  induction j using Nat.strongRecOn generalizing h with
  | ind j ih =>
    rw [up]
    split
    · exact h₀
    · split
      · exact ih _ (by omega) (by omega) (hP h _ _ (by omega) hj h₀)
      · exact h₀

/-- What is beside the elements can be changed before or after. -/
theorem up_map {f : H → H} (hless : ∀ h i j, o.less (f h) i j = o.less h i j)
    (hswap : ∀ h i j, o.swap (f h) i j = f (o.swap h i j)) (h : H) (j : Nat) :
    o.up (f h) j = f (o.up h j) := by
  induction j using Nat.strongRecOn generalizing h with
  | ind j ih =>
    rw [up, up.eq_def o h, hless]
    dsimp only
    split
    · rfl
    · split
      · rw [hswap]
        exact ih _ (by omega) _
      · rfl

theorem down_steady (hP : o.Steady n P) :
    ∀ {i : Nat} {h : H}, i < n → P h → P (o.down h i n).1 := by
  intro i h
  induction hk : n - i using Nat.strongRecOn generalizing i h with
  | ind k ih =>
    intro hi h₀
    rw [down]
    split
    · rename_i hchild
      dsimp only
      have hlt := o.child_lt (h := h) hchild
      have hgt := o.lt_child h i n
      split
      · exact ih _ (by omega) rfl hlt (hP h _ _ hi hlt h₀)
      · exact h₀
    · exact h₀

theorem settle_steady (hP : o.Steady n P) (hi : i < n) (h₀ : P h) : P (o.settle h i n) := by
  have hdown := down_steady hP hi h₀
  unfold settle
  dsimp only
  split
  · exact hdown
  · exact up_steady hP hi hdown

theorem moveFirstLast_steady (hP : o.Steady (o.len h - 1) P)
    (h₀ : P (o.swap h 0 (o.len h - 1))) : P (o.moveFirstLast h) := by
  unfold moveFirstLast
  dsimp only
  by_cases hlen : 0 < o.len h - 1
  · exact down_steady hP hlen h₀
  · rw [down, if_neg (by omega)]
    exact h₀

end HeapOps

end Lib
