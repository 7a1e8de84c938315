/-
Binary search over a sorted vector, and insertion at the position found.

`binarySearchBy` is the branchless search of the Rust standard library:
it narrows to the last element that does not compare `gt` and compares
once more at the end. A match is therefore the last of its equals, and
inserting at the position returned puts a new element just before it.

# What the search decides

Over a vector the comparison splits into a `lt`, an `eq` and a `gt` run
(`Runs`), inserting at the position found is `place`: keep the three
runs, and put the new element before the last of the `eq` run. `place` is
written with `filter`, so facts about sublists need no indices.

The comparison may fail (`none`), which is how a caller models a lookup
inside it that aborts; the search fails only if a probed comparison does.
-/
import Mathlib.Data.List.Basic

namespace Lib

open List

variable {α : Type}

/-- The narrowing loop: `size` candidates from `base` on. -/
def searchLoop (f : α → Option Ordering) (l : List α) : Nat → Nat → Nat → Option Nat
  | 0, base, _ => some base
  | fuel + 1, base, size =>
    if size ≤ 1 then some base
    else do
      let half := size / 2
      let mid := base + half
      let a ← l[mid]?
      let cmp ← f a
      searchLoop f l fuel (if cmp = .gt then base else mid) (size - half)

/-- The position of a match (`ok`), or where one would be inserted
(`error`). -/
def binarySearchBy (f : α → Option Ordering) (l : List α) : Option (Except Nat Nat) :=
  if l.length = 0 then some (.error 0)
  else do
    let base ← searchLoop f l l.length 0 l.length
    let a ← l[base]?
    let cmp ← f a
    some (if cmp = .eq then .ok base else .error (base + if cmp = .lt then 1 else 0))

/-- The position of either outcome. -/
def unwrapOrElse : Except Nat Nat → Nat
  | .ok i => i
  | .error pos => pos

def beforeLast (x : α) (l : List α) : List α :=
  l.dropLast ++ x :: l.getLast?.toList

/-- Keep the three runs and put `x` before the last of its equals. -/
def place (c : α → Ordering) (x : α) (l : List α) : List α :=
  l.filter (fun a => c a = .lt) ++ beforeLast x (l.filter fun a => c a = .eq)
    ++ l.filter (fun a => c a = .gt)

/-- The comparison splits the vector into its three runs. -/
def Runs (c : α → Ordering) (l : List α) : Prop :=
  l.Pairwise fun a b => (c b = .lt → c a = .lt) ∧ (c a = .gt → c b = .gt)

-- ======== search

variable {f : α → Option Ordering} {c : α → Ordering} {l : List α} {a : α} {base : Nat}

/-- What the loop knows: the base is not past the split, the end of the
window is. -/
structure Window (c : α → Ordering) (l : List α) (base size : Nat) : Prop where
  pos : 1 ≤ size
  bound : base + size ≤ l.length
  before : base = 0 ∨ ∀ a, l[base]? = some a → c a ≠ .gt
  after : ∀ i a, base + size ≤ i → l[i]? = some a → c a = .gt

theorem Runs.of_le (hr : Runs c l) {i j : Nat} (hij : i ≤ j) {b : α}
    (ha : l[i]? = some a) (hb : l[j]? = some b) :
    (c b = .lt → c a = .lt) ∧ (c a = .gt → c b = .gt) := by
  obtain ⟨hi, rfl⟩ := List.getElem?_eq_some_iff.1 ha
  obtain ⟨hj, rfl⟩ := List.getElem?_eq_some_iff.1 hb
  rcases Nat.lt_or_eq_of_le hij with hlt | heq
  · exact pairwise_iff_getElem.1 hr i j hi hj hlt
  · subst heq
    exact ⟨id, id⟩

/-- One probe narrows the window. -/
theorem window_step {size : Nat} (hr : Runs c l)
    (hw : Window c l base size) (hsize : ¬ size ≤ 1) (ha : l[base + size / 2]? = some a) :
    Window c l (if c a = .gt then base else base + size / 2) (size - size / 2) := by
  obtain ⟨hpos, hbound, hbefore, hafter⟩ := hw
  split
  · next hgt =>
    refine ⟨by omega, by omega, hbefore, ?_⟩
    intro i b hi hb
    have hge : base + size / 2 ≤ i := by omega
    exact (hr.of_le hge ha hb).2 hgt
  · next hgt =>
    refine ⟨by omega, by omega, Or.inr fun b hb => ?_, ?_⟩
    · rw [ha] at hb
      cases hb
      exact hgt
    · intro i b hi hb
      exact hafter i b (by omega) hb

/-- The loop ends on the last element that is not `gt`. -/
theorem searchLoop_eq (hr : Runs c l) (hf : ∀ a ∈ l, f a = some (c a)) :
    ∀ fuel base size, size ≤ fuel → Window c l base size →
      ∃ b, searchLoop f l fuel base size = some b ∧ Window c l b 1 := by
  intro fuel
  induction fuel with
  | zero =>
    intro base size hfuel hw
    have hpos := hw.pos
    omega
  | succ fuel ih =>
    intro base size hfuel hw
    unfold searchLoop
    by_cases hsize : size ≤ 1
    · have hone : size = 1 := by
        have hpos := hw.pos
        omega
      subst hone
      exact ⟨base, rfl, hw⟩
    · rw [if_neg hsize]
      have hlt : base + size / 2 < l.length := by
        have hbound := hw.bound
        omega
      have ha := getElem?_eq_getElem hlt
      have hcmp := hf _ (getElem_mem hlt)
      simp only [ha, hcmp, Option.bind_eq_bind, Option.bind_some]
      exact ih _ _ (by omega) (window_step hr hw hsize ha)

-- ======== insertion

/-- The vector is its three runs, one after the other. -/
theorem runs_split (hr : Runs c l) : l.filter (fun a => c a = .lt) ++ l.filter (fun a => c a = .eq)
      ++ l.filter (fun a => c a = .gt) = l := by
  induction l with
  | nil => rfl
  | cons a rest ih =>
    obtain ⟨hhead, htail⟩ := pairwise_cons.1 hr
    have hrest := ih htail
    -- nothing `lt` stands after an element that is not
    have hlt : c a ≠ .lt → rest.filter (fun b => c b = .lt) = [] := by
      intro hne
      refine filter_eq_nil_iff.2 fun b hb hb' => ?_
      exact hne ((hhead b hb).1 (by simpa using hb'))
    have heq : c a = .gt → rest.filter (fun b => c b = .eq) = [] := by
      intro hgt
      refine filter_eq_nil_iff.2 fun b hb hb' => ?_
      have := (hhead b hb).2 hgt
      simp [this] at hb'
    cases hc : c a with
    | lt => simpa [hc] using hrest
    | eq =>
      simpa [hc, hlt] using hrest
    | gt =>
      simpa [hc, hlt, heq] using hrest

theorem beforeLast_perm (x : α) (l : List α) : (beforeLast x l).Perm (x :: l) := by
  unfold beforeLast
  cases eq_nil_or_concat l with
  | inl h =>
    rw [h]
    exact List.Perm.refl _
  | inr h =>
    obtain ⟨ys, y, h⟩ := h
    rw [h]
    simp

/-- Whatever the comparison, placing adds the element and keeps the
rest. -/
theorem place_perm (c : α → Ordering) (x : α) (l : List α) : (place c x l).Perm (x :: l) := by
  have hruns : (l.filter (fun a => c a = .lt) ++ l.filter (fun a => c a = .eq)
      ++ l.filter (fun a => c a = .gt)).Perm l := by
    induction l with
    | nil => exact List.Perm.refl _
    | cons a rest ih =>
      cases hc : c a with
      | lt => simpa [hc] using ih
      | eq =>
        simp only [filter_cons, hc, reduceCtorEq, decide_false,
          Bool.false_eq_true, ↓reduceIte, decide_true, append_assoc,
          cons_append] at ih ⊢
        exact perm_middle.trans (ih.cons a)
      | gt =>
        simp only [filter_cons, hc, reduceCtorEq, decide_false,
          Bool.false_eq_true, ↓reduceIte, decide_true] at ih ⊢
        exact perm_middle.trans (ih.cons a)
  refine List.Perm.trans ?_ (hruns.cons x)
  refine (((beforeLast_perm x _).append_left _).append_right _).trans ?_
  rw [append_assoc, append_assoc]
  exact perm_middle

/-- Placing is an insertion after the `lt` run and before the `gt`
run. -/
theorem place_split (hr : Runs c l) (x : α) :
    ∃ p q, l = p ++ q ∧ place c x l = p ++ x :: q ∧ (∀ a ∈ p, c a ≠ .gt) ∧ ∀ a ∈ q, c a ≠ .lt := by
  have hback : (l.filter fun a => c a = .eq).dropLast
      ++ (l.filter fun a => c a = .eq).getLast?.toList
      = l.filter fun a => c a = .eq := by
    cases eq_nil_or_concat (l.filter fun a => c a = .eq) with
    | inl h => simp [h]
    | inr h =>
      obtain ⟨ys, y, h⟩ := h
      simp [h]
  refine ⟨l.filter (fun a => c a = .lt) ++ (l.filter fun a => c a = .eq).dropLast,
    (l.filter fun a => c a = .eq).getLast?.toList ++ l.filter (fun a => c a = .gt), ?_, ?_, ?_, ?_⟩
  · rw [append_assoc, ← append_assoc (dropLast _), hback, ← append_assoc, runs_split hr]
  · simp [place, beforeLast]
  · intro a ha
    rcases mem_append.1 ha with ha | ha
    · have := (mem_filter.1 ha).2
      simp_all
    · have := (mem_filter.1 (dropLast_subset _ ha)).2
      simp_all
  · intro a ha
    rcases mem_append.1 ha with ha | ha
    · have := (mem_filter.1 (mem_of_getLast? (Option.mem_toList.1 ha))).2
      simp_all
    · have := (mem_filter.1 ha).2
      simp_all

/-- The vector around the final base: nothing before it is past the
split, everything after it is. -/
theorem window_split (hr : Runs c l) (hw : Window c l base 1) :
    ∃ p a q, l = p ++ a :: q ∧ p.length = base ∧ Runs c p ∧ (base = 0 ∨ c a ≠ .gt)
      ∧ (∀ b ∈ p, (c a = .lt → c b = .lt) ∧ (c b = .gt → c a = .gt)) ∧ ∀ b ∈ q, c b = .gt := by
  have hlt : base < l.length := hw.bound
  have ha := getElem?_eq_getElem hlt
  refine ⟨l.take base, l[base], l.drop (base + 1), ?_, ?_,
    hr.sublist (take_sublist _ _), ?_, ?_, ?_⟩
  · rw [← drop_eq_getElem_cons hlt, take_append_drop]
  · rw [length_take]
    omega
  · exact hw.before.imp_right fun h => h _ ha
  · intro b hb
    obtain ⟨i, hi, rfl⟩ := getElem_of_mem hb
    rw [length_take] at hi
    have hib : l[i]? = some (l.take base)[i] := by
      rw [getElem_take]
      exact getElem?_eq_getElem _
    exact hr.of_le (by omega) hib ha
  · intro b hb
    obtain ⟨i, hi, rfl⟩ := getElem_of_mem hb
    refine hw.after (base + 1 + i) _ (by omega) ?_
    rw [getElem_drop]
    exact getElem?_eq_getElem _

theorem filter_of_forall {o o' : Ordering} (h : ∀ a ∈ l, c a = o') :
    l.filter (fun a => c a = o) = if o' = o then l else [] := by
  split
  · next heq =>
    subst heq
    exact filter_eq_self.2 fun a ha => by simp [h a ha]
  · next hne => exact filter_eq_nil_iff.2 fun a ha => by simp [h a ha, hne]

theorem place_gt (h : ∀ a ∈ l, c a = .gt) (x : α) : place c x l = x :: l := by
  unfold place
  rw [filter_of_forall h, filter_of_forall h, filter_of_forall h]
  rfl

variable {p q : List α} {β : Type} (g : β → α)

theorem place_eq (hr : Runs c p) (hp : ∀ b ∈ p, c b ≠ .gt) (ha : c a = .eq)
    (hq : ∀ b ∈ q, c b = .gt) (x : α) : place c x (p ++ a :: q) = p ++ x :: a :: q := by
  have hgt : p.filter (fun b => c b = .gt) = [] :=
    filter_eq_nil_iff.2 fun b hb => by simpa using hp b hb
  have hsplit := runs_split hr
  rw [hgt, append_nil] at hsplit
  unfold place
  simp only [filter_append, filter_cons, ha, filter_of_forall hq, hgt]
  simp only [reduceCtorEq, decide_false, Bool.false_eq_true, ↓reduceIte,
    append_nil, decide_true, nil_append]
  unfold beforeLast
  rw [dropLast_concat, getLast?_concat]
  simp only [Option.toList_some, append_assoc, cons_append, nil_append]
  rw [← append_assoc, hsplit]

theorem place_lt (hp : ∀ b ∈ p, c b = .lt) (ha : c a = .lt) (hq : ∀ b ∈ q, c b = .gt) (x : α) :
    place c x (p ++ a :: q) = p ++ a :: x :: q := by
  unfold place
  simp only [filter_append, filter_cons, ha, filter_of_forall hq, filter_of_forall hp]
  simp [beforeLast]

theorem insertIdx_length (p q : List α) (x : α) : (p ++ q).insertIdx p.length x = p ++ x :: q := by
  induction p with
  | nil => rfl
  | cons b p ih =>
    rw [cons_append, length_cons, insertIdx_succ_cons, ih]
    rfl

/-- Inserting at the position the search returns. -/
theorem insert_binarySearchBy (hr : Runs c l) (hf : ∀ a ∈ l, f a = some (c a)) (x : α) :
    ∃ pos, binarySearchBy f l = some pos ∧ l.insertIdx (unwrapOrElse pos) x = place c x l := by
  unfold binarySearchBy
  by_cases hlen : l.length = 0
  · rw [length_eq_zero_iff.1 hlen]
    exact ⟨_, rfl, rfl⟩
  · rw [if_neg hlen]
    obtain ⟨base, hloop, hw⟩ := searchLoop_eq hr hf l.length 0 l.length
      (Nat.le_refl _) ⟨by omega, by omega, Or.inl rfl, by
        intro i a hi ha
        obtain ⟨hlt, -⟩ := List.getElem?_eq_some_iff.1 ha
        omega⟩
    obtain ⟨p, a, q, hl, hbase, hrp, hbefore, hp, hq⟩ := window_split hr hw
    subst hl hbase
    have hget : (p ++ a :: q)[p.length]? = some a := by simp
    simp only [hloop, hget, hf a (by simp), Option.bind_eq_bind,
      Option.bind_some, Option.some.injEq, exists_eq_left']
    cases hc : c a with
    | gt =>
      -- only an all-`gt` vector ends on a `gt`, at its start
      have hnil : p = [] := by
        rcases hbefore with h | h
        · exact length_eq_zero_iff.1 h
        · exact absurd hc h
      subst hnil
      rw [place_gt]
      · rfl
      · exact forall_mem_cons.2 ⟨hc, hq⟩
    | eq =>
      rw [place_eq hrp (fun b hb hgt => by
        rw [(hp b hb).2 hgt] at hc
        cases hc) hc hq]
      exact insertIdx_length p (a :: q) x
    | lt =>
      rw [place_lt (fun b hb => (hp b hb).1 hc) hc hq]
      have hins := insertIdx_length (p ++ [a]) q x
      simpa [unwrapOrElse] using hins

/-- Searching a projection of a vector. -/
theorem searchLoop_map (l : List β) : ∀ fuel base size, searchLoop f (l.map g) fuel base size
      = searchLoop (fun b => f (g b)) l fuel base size := by
  intro fuel
  induction fuel with
  | zero =>
    intro base size
    rfl
  | succ fuel ih =>
    intro base size
    unfold searchLoop
    dsimp only
    rw [getElem?_map]
    cases l[base + size / 2]? with
    | none => rfl
    | some b => simp [ih]

theorem binarySearchBy_map (l : List β) :
    binarySearchBy f (l.map g) = binarySearchBy (fun b => f (g b)) l := by
  unfold binarySearchBy
  simp only [length_map, searchLoop_map, getElem?_map]
  cases hloop : searchLoop (fun b => f (g b)) l l.length 0 l.length with
  | none => rfl
  | some base =>
    cases hb : l[base]? with
    | none | some => simp [hb]

end Lib
