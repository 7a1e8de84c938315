/-
Queues that keep what has room in front of what is full, so that finding
room never takes a search.

`Ordered full q` says that behind a full member there are only full ones.
A change of one member's load breaks nothing as long as the member is
moved to where it now belongs: to the front once it has room, to the back
once it is full. A head that is full means that everything is.
-/
import Mathlib.Data.List.Nodup

namespace Lib

variable {α : Type} {full full' : α → Prop} {q : List α} {a : α}

def Ordered (full : α → Prop) (q : List α) : Prop :=
  q.Pairwise fun a b => full a → full b

namespace Ordered

theorem sublist {q' : List α} (h : Ordered full q) (hq : q'.Sublist q) : Ordered full q' :=
  List.Pairwise.sublist hq h

theorem congr (h : Ordered full q) (hfull : ∀ b ∈ q, full' b ↔ full b) : Ordered full' q := by
  refine List.Pairwise.imp_of_mem ?_ h
  intro a b ha hb hab
  rw [hfull a ha, hfull b hb]
  exact hab

theorem of_all (h : ∀ b ∈ q, full b) : Ordered full q :=
  List.Pairwise.imp_of_mem (fun _ hb _ _ => h _ hb)
    (List.pairwise_of_forall (R := fun _ _ => True) fun _ _ => trivial)

theorem cons (h : Ordered full q) (ha : ¬ full a) : Ordered full (a :: q) :=
  List.Pairwise.cons (fun _ _ hfull => absurd hfull ha) h

theorem concat (h : Ordered full q) (ha : full a) : Ordered full (q ++ [a]) := by
  refine List.pairwise_append.2 ⟨h, List.pairwise_singleton _ _, ?_⟩
  intro b _ c hc _
  rw [List.mem_singleton.1 hc]
  exact ha

theorem all_of_head (h : Ordered full (a :: q)) (ha : full a) : ∀ b ∈ a :: q, full b := by
  exact List.forall_mem_cons.2 ⟨ha, fun b hb => List.rel_of_pairwise_cons h hb ha⟩

end Ordered

end Lib
