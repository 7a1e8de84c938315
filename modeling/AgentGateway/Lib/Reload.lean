/-
Reloads by difference, of slots and of lists in the order of last entry.

A function into `Option` is read as a set of slots, each empty or full.
`putAll` fills slots from a list, a later element over an earlier one;
`clear` empties the slots of a predicate. A reload by difference fills
from the new list on top of what is there, and then clears;
`clear_putAll` says when that ends as if the new list had come alone:
no slot of the new list is cleared, and every slot that was full is
either cleared or filled anew.

A list has one element per key. `enter` takes out what stands under the
element's key and appends the element; `strike` takes out what stands under
a key. Entering a list leaves, of what was there, the part with other keys,
in front (`enterAll_eq`), and so a reload by difference, which enters the
new list and then strikes the old keys that are not among the new ones,
ends as if the new list had been entered alone (`enterAll_reload`), the
order included.
-/
import Mathlib.Data.List.Nodup

namespace Lib

open List

namespace Ledger

variable {A A' K : Type} [DecidableEq K] {key : A → K}

/-- Take out the element under `k`. -/
def strike (key : A → K) (l : List A) (k : K) : List A :=
  l.filter fun a => key a ≠ k

/-- Put in an element, in place of the one under its key. -/
def enter (key : A → K) (l : List A) (a : A) : List A :=
  strike key l (key a) ++ [a]

def enterAll (key : A → K) (l new : List A) : List A :=
  new.foldl (enter key) l

variable {l : List A} {a : A} {key' : A' → K} {f : A → A'} {new : List A} {k : K}

theorem mem_strike : a ∈ strike key l k ↔ a ∈ l ∧ key a ≠ k := by
  simp [strike]

theorem mem_enter {b : A} : b ∈ enter key l a ↔ b = a ∨ (b ∈ l ∧ key b ≠ key a) := by
  simp [enter, mem_strike, or_comm]

theorem nodup_strike (h : (l.map key).Nodup) (k : K) : ((strike key l k).map key).Nodup :=
  h.sublist (filter_sublist.map key)

theorem nodup_enter (h : (l.map key).Nodup) (a : A) : ((enter key l a).map key).Nodup := by
  unfold enter
  rw [map_append, map_singleton, ← concat_eq_append]
  refine List.Nodup.concat (fun hmem => ?_) (nodup_strike h _)
  obtain ⟨b, hb, heq⟩ := mem_map.1 hmem
  exact (mem_strike.1 hb).2 heq

theorem strike_of_not_mem (h : ∀ a ∈ l, key a ≠ k) : strike key l k = l :=
  filter_eq_self.2 fun a ha => decide_eq_true (h a ha)

theorem foldl_strike (ks : List K) (l : List A) :
    ks.foldl (strike key) l = l.filter fun a => key a ∉ ks := by
  induction ks generalizing l with
  | nil => simp
  | cons k ks ih =>
    rw [foldl_cons, ih, strike]
    simp [Bool.and_comm]

/-- What was there comes first, without the keys that are entered. -/
theorem enterAll_eq (l new : List A) : enterAll key l new
      = (l.filter fun a => key a ∉ new.map key) ++ enterAll key [] new := by
  induction new generalizing l with
  | nil => simp [enterAll]
  | cons a new ih =>
    have hl : enterAll key l (a :: new) = enterAll key (strike key l (key a) ++ [a]) new := rfl
    have hnil : enterAll key [] (a :: new) = enterAll key [a] new := rfl
    rw [hl, hnil, ih, ih [a], filter_append, append_assoc, strike, filter_filter]
    congr 1
    refine filter_congr fun b _ => ?_
    rw [← Bool.decide_and, decide_eq_decide, map_cons, mem_cons]
    tauto

/-- Nothing but the new list is entered. -/
theorem mem_of_mem_enterAll (h : a ∈ enterAll key l new) : a ∈ new ∨ a ∈ l := by
  induction new generalizing l with
  | nil => exact .inr h
  | cons b new ih =>
    rcases ih h with hnew | hl
    · exact .inl (mem_cons_of_mem _ hnew)
    · rcases mem_enter.1 hl with rfl | hl
      · exact .inl mem_cons_self
      · exact .inr hl.1

/-- A reload by difference ends as the new list alone. -/
theorem enterAll_reload {old ks : List K} (hold : ∀ a ∈ l, key a ∈ old)
    (hks : ∀ k, k ∈ ks ↔ k ∈ old ∧ k ∉ new.map key) :
    ks.foldl (strike key) (enterAll key l new) = enterAll key [] new := by
  rw [foldl_strike, enterAll_eq, filter_append, filter_filter]
  have hgone : (l.filter fun a =>
      decide (key a ∉ ks) && decide (key a ∉ new.map key)) = [] := by
    refine filter_eq_nil_iff.2 fun a ha => ?_
    have := hks (key a)
    simp only [Bool.and_eq_true, decide_eq_true_eq]
    tauto
  have hkept : ((enterAll key [] new).filter fun a => key a ∉ ks) = enterAll key [] new := by
    refine filter_eq_self.2 fun a ha => ?_
    rcases mem_of_mem_enterAll ha with hnew | hnil
    · have := hks (key a)
      have := mem_map_of_mem (f := key) hnew
      simp only [decide_eq_true_eq]
      tauto
    · cases hnil
  rw [hgone, hkept, nil_append]

/-- A view that keeps the key goes through the operations. -/
theorem map_strike (hf : ∀ a, key' (f a) = key a) (l : List A) (k : K) :
    (strike key l k).map f = strike key' (l.map f) k := by
  unfold strike
  rw [filter_map]
  congr 1
  refine filter_congr fun a _ => ?_
  simp [hf]

theorem map_foldl_strike (hf : ∀ a, key' (f a) = key a) (l : List A) (ks : List K) :
    (ks.foldl (strike key) l).map f = ks.foldl (strike key') (l.map f) := by
  induction ks generalizing l with
  | nil => rfl
  | cons k ks ih => rw [foldl_cons, ih, map_strike hf, foldl_cons]

theorem map_enter (hf : ∀ a, key' (f a) = key a) (l : List A) (a : A) :
    (enter key l a).map f = enter key' (l.map f) (f a) := by
  unfold enter
  rw [map_append, map_strike hf, hf]
  rfl

end Ledger

namespace Slots

variable {A I K V : Type}

def clear (gone : I → Prop) [DecidablePred gone] (h : I → Option V) : I → Option V :=
  fun i => if gone i then none else h i

variable {gone : I → Prop} {h : I → Option V} {v : V} {i : I}

theorem of_clear [DecidablePred gone] (hv : clear gone h i = some v) : h i = some v := by
  unfold clear at hv
  split at hv
  · cases hv
  · exact hv

theorem clear_clear {gone' : I → Prop} [DecidablePred gone]
    [DecidablePred gone'] (h : I → Option V) :
    clear gone' (clear gone h) = clear (fun i => gone' i ∨ gone i) h := by
  funext i
  unfold clear
  by_cases h₁ : gone' i <;> by_cases h₂ : gone i <;> simp [h₁, h₂]

/-- A loop that clears for one key after the other. -/
theorem foldl_clear {sel : I → K → Prop} [∀ i k, Decidable (sel i k)]
    (ks : List K) (h : I → Option V) :
    ks.foldl (fun h k => clear (fun i => sel i k) h) h = clear (fun i => ∃ k ∈ ks, sel i k) h := by
  induction ks generalizing h with
  | nil =>
    funext i
    simp [clear]
  | cons k ks ih =>
    rw [foldl_cons, ih]
    funext i
    unfold clear
    by_cases h₁ : sel i k <;> simp [h₁]

variable [DecidableEq I]

def put (slot : A → I) (val : A → V) (h : I → Option V) (a : A) : I → Option V :=
  Function.update h (slot a) (some (val a))

def putAll (slot : A → I) (val : A → V) (h : I → Option V) (l : List A) : I → Option V :=
  l.foldl (put slot val) h

variable {slot : A → I} {val : A → V}

theorem put_apply (h : I → Option V) (a : A) (i : I) :
    put slot val h a i = if i = slot a then some (val a) else h i :=
  Function.update_apply _ _ _ _

theorem putAll_append (h : I → Option V) (l l' : List A) :
    putAll slot val h (l ++ l') = putAll slot val (putAll slot val h l) l' :=
  foldl_append

theorem putAll_of_not_mem (l : List A) (h : I → Option V)
    (hno : ∀ a ∈ l, slot a ≠ i) : putAll slot val h l i = h i := by
  induction l generalizing h with
  | nil => rfl
  | cons a l ih =>
    refine (ih _ fun b hb => hno b (mem_cons_of_mem _ hb)).trans ?_
    exact Function.update_of_ne (hno a mem_cons_self).symm _ _

variable {l : List A}

/-- A slot of the list does not depend on what was there before. -/
theorem putAll_of_mem (h h' : I → Option V) (hmem : ∃ a ∈ l, slot a = i) :
    putAll slot val h l i = putAll slot val h' l i := by
  induction l generalizing h h' with
  | nil =>
    obtain ⟨a, ha, -⟩ := hmem
    cases ha
  | cons a l ih =>
    by_cases hl : ∃ b ∈ l, slot b = i
    · exact ih _ _ hl
    · have hno : ∀ b ∈ l, slot b ≠ i := fun b hb heq => hl ⟨b, hb, heq⟩
      have ha : slot a = i := by
        obtain ⟨b, hb, heq⟩ := hmem
        rcases mem_cons.1 hb with rfl | hb
        · exact heq
        · exact absurd heq (hno b hb)
      subst ha
      refine (putAll_of_not_mem l _ hno).trans ?_
      refine Eq.trans ?_ (putAll_of_not_mem l _ hno).symm
      unfold put
      rw [Function.update_self, Function.update_self]

/-- A full slot was filled by the list, or before. -/
theorem mem_of_putAll
    (hv : putAll slot val h l i = some v) : (∃ a ∈ l, slot a = i ∧ val a = v) ∨ h i = some v := by
  induction l generalizing h with
  | nil => exact .inr hv
  | cons a l ih =>
    rcases ih hv with hmem | hbefore
    · obtain ⟨b, hb, heq⟩ := hmem
      exact .inl ⟨b, mem_cons_of_mem _ hb, heq⟩
    · unfold put at hbefore
      by_cases ha : i = slot a
      · subst ha
        rw [Function.update_self] at hbefore
        exact .inl ⟨a, mem_cons_self, rfl, Option.some.inj hbefore⟩
      · rw [Function.update_of_ne ha] at hbefore
        exact .inr hbefore

theorem mem_of_putAll_none
    (hv : putAll slot val (fun _ => none) l i = some v) : ∃ a ∈ l, slot a = i ∧ val a = v :=
  (mem_of_putAll hv).resolve_right (Option.some_ne_none v).symm

/-- A reload by difference ends as the new list alone. -/
theorem clear_putAll [DecidablePred gone] {new : List A} (hnew : ∀ a ∈ new, ¬ gone (slot a))
    (hold : ∀ i v, h i = some v → gone i ∨ ∃ b ∈ new, slot b = i) :
    clear gone (putAll slot val h new) = putAll slot val (fun _ => none) new := by
  funext i
  unfold clear
  by_cases hmem : ∃ b ∈ new, slot b = i
  · obtain ⟨b, hb, rfl⟩ := hmem
    rw [if_neg (hnew b hb)]
    exact putAll_of_mem _ _ ⟨b, hb, rfl⟩
  · have hno : ∀ b ∈ new, slot b ≠ i := fun b hb heq => hmem ⟨b, hb, heq⟩
    rw [putAll_of_not_mem new _ hno, putAll_of_not_mem new _ hno]
    split
    · rfl
    · next hkept =>
      -- nothing of what was there is left in the slot
      refine Option.eq_none_iff_forall_ne_some.2 fun v hv => ?_
      rcases hold i v hv with hgone | hagain
      · exact hkept hgone
      · exact hmem hagain

end Slots

/-- A loop of loops is one loop over the pairs. -/
theorem foldlM_pairs {m : Type → Type} [Monad m] [LawfulMonad m]
    {σ A B C : Type} (f : σ → C → m σ) (pair : A → B → C) (l : List (A × List B)) (s : σ) :
    l.foldlM (fun s e => e.2.foldlM (fun s b => f s (pair e.1 b)) s) s
      = (l.flatMap fun e => e.2.map (pair e.1)).foldlM f s := by
  induction l generalizing s with
  | nil => rfl
  | cons e l ih =>
    rw [flatMap_cons, foldlM_append, foldlM_map]
    exact bind_congr fun s' => ih s'

end Lib
