/-
A list with some of its parts replaced.

Parts are replaced one at a time, from the end, since a replacement moves
what comes after it. For parts that do not overlap that is the list with all
of them replaced at once (`foldr_replace`).
-/
import Mathlib.Init

namespace Lib

open List

/-- A part of a list, from `start` up to `stop`. -/
structure Span where
  start : Nat
  stop : Nat

variable {α : Type}

def replace (l : List α) (s : Span) (r : List α) : List α :=
  l.take s.start ++ r ++ l.drop s.stop

/-- The spans come in order, do not overlap, and lie between `p` and `n`. -/
def InOrder (n : Nat) : Nat → List Span → Prop
  | p, [] => p ≤ n
  | p, s :: ss => p ≤ s.start ∧ s.start ≤ s.stop ∧ InOrder n s.stop ss

/-- The list from position `p` on, with all the spans replaced. -/
def splice (r : List α) : Nat → List α → List Span → List α
  | _, l, [] => l
  | p, l, s :: ss =>
    l.take (s.start - p) ++ r ++ splice r s.stop (l.drop (s.stop - p)) ss

variable {p : Nat} {ss : List Span} {l r : List α} {s : Span} {n : Nat}

theorem InOrder.le (h : InOrder n p ss) : p ≤ n := by
  induction ss generalizing p with
  | nil => exact h
  | cons s ss ih => exact Nat.le_trans h.1 (Nat.le_trans h.2.1 (ih h.2.2))

theorem InOrder.concat (h : InOrder s.start p ss)
    (hs : s.start ≤ s.stop) (hn : s.stop ≤ n) : InOrder n p (ss ++ [s]) := by
  induction ss generalizing p with
  | nil => exact ⟨h, hs, hn⟩
  | cons s' ss ih => exact ⟨h.1, h.2.1, ih h.2.2⟩

theorem replace_append {t : List α} (hs : s.start ≤ s.stop) (hl : s.stop ≤ l.length) :
    replace (l.take s.stop ++ t) s r = l.take s.start ++ r ++ t := by
  have hlen : (l.take s.stop).length = s.stop := length_take_of_le hl
  unfold replace
  rw [take_append_of_le_length (by omega), take_take, Nat.min_eq_left hs,
    drop_append_of_le_length (by omega), drop_take_self, nil_append]

theorem foldr_replace_from (h : InOrder l.length p ss) :
    ss.foldr (fun s l => replace l s r) l = l.take p ++ splice r p (l.drop p) ss := by
  induction ss generalizing p with
  | nil => exact (take_append_drop p l).symm
  | cons s ss ih =>
    obtain ⟨hp, hs, hss⟩ := h
    rw [foldr_cons, ih hss, replace_append hs hss.le, splice, drop_drop,
      Nat.add_sub_cancel' (Nat.le_trans hp hs), ← append_assoc,
      ← append_assoc]
    rw [← take_add, Nat.add_sub_cancel' hp]

theorem foldr_replace (h : InOrder l.length 0 ss) :
    ss.foldr (fun s l => replace l s r) l = splice r 0 l ss :=
  foldr_replace_from h

end Lib
