/-
An arena of mutable cells: a pure picture of shared, interior-mutable
values. A reference is the position of its cell; cells are only ever
appended, so a reference stays valid, and writing through one leaves
every other cell alone.
-/
import Mathlib.Data.List.Basic

namespace Lib

/-- A growing sequence of cells. -/
structure Arena (α : Type) where
  cells : List α

namespace Arena

variable {α : Type}

def empty : Arena α := ⟨[]⟩

def read? (a : Arena α) (r : Nat) : Option α := a.cells[r]?

/-- Append a cell; its reference is the old number of cells. -/
def alloc (a : Arena α) (x : α) : Arena α × Nat :=
  (⟨a.cells ++ [x]⟩, a.cells.length)

def update (a : Arena α) (r : Nat) (f : α → α) : Arena α :=
  ⟨a.cells.modify r f⟩

def Valid (a : Arena α) (r : Nat) : Prop := r < a.cells.length

theorem read?_alloc_self (a : Arena α) (x : α) : (a.alloc x).1.read? (a.alloc x).2 = some x := by
  simp [alloc, read?]

variable {a : Arena α} {r r' : Nat} {x : α}

theorem read?_alloc_of_valid (x : α) (h : a.Valid r) : (a.alloc x).1.read? r = a.read? r := by
  exact List.getElem?_append_left h

theorem valid_alloc_self (a : Arena α) (x : α) : (a.alloc x).1.Valid (a.alloc x).2 := by
  simp [alloc, Valid]

theorem valid_alloc (x : α) (h : a.Valid r) : (a.alloc x).1.Valid r := by
  simp only [alloc, Valid, List.length_append] at h ⊢
  omega

theorem ne_alloc_of_valid (x : α) (h : a.Valid r) : r ≠ (a.alloc x).2 := by
  simp only [alloc, Valid] at h ⊢
  omega

/-- What is read after an allocation was there before, or is the new
cell. -/
theorem read?_alloc_eq_some {y : α} (h : (a.alloc x).1.read? r = some y) :
    a.read? r = some y ∨ (r = (a.alloc x).2 ∧ y = x) := by
  by_cases hv : r < a.cells.length
  · exact .inl ((read?_alloc_of_valid x hv).symm.trans h)
  · have hlt : r < (a.cells ++ [x]).length := (List.getElem?_eq_some_iff.1 h).1
    have hr : r = a.cells.length := by
      rw [List.length_append, List.length_singleton] at hlt
      omega
    subst hr
    exact .inr ⟨rfl, Option.some.inj (h.symm.trans (read?_alloc_self a x))⟩

theorem read?_update_self (a : Arena α) (r : Nat) (f : α → α) :
    (a.update r f).read? r = (a.read? r).map f := by
  simp [update, read?]

theorem read?_update_ne (a : Arena α) (f : α → α) (h : r' ≠ r) :
    (a.update r f).read? r' = a.read? r' := by
  simp [update, read?, Ne.symm h]

@[simp] theorem valid_update {f : α → α} : (a.update r f).Valid r' ↔ a.Valid r' := by
  simp [update, Valid]

theorem valid_of_read? (h : a.read? r = some x) : a.Valid r :=
  (List.getElem?_eq_some_iff.1 h).1

theorem exists_read? (h : a.Valid r) : ∃ x, a.read? r = some x :=
  ⟨a.cells[r], List.getElem?_eq_getElem h⟩

end Arena

end Lib
