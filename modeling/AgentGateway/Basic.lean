/-
Vocabulary shared by every part of the gateway model: interned strings,
the hash and index maps of the source, and the string helpers of the
standard library that the modelled functions call.

A `HashMap` and an `IndexMap` are the same ordered map here; on a hash
map no statement reads the order.
-/
import AgentGateway.Lib.AssocMap

namespace AgentGateway

/-- `agent_core::strng::Strng`, an interned immutable string. -/
abbrev Strng := String

/-- `std::collections::HashMap` and `hashbrown::HashMap`. -/
abbrev HashMap := Lib.AssocMap

abbrev IndexMap := Lib.AssocMap

abbrev HashSet (K : Type) := Lib.AssocMap K Unit

/-- `str::split_once` on a character: the text before and after its
first occurrence. -/
def splitOnce (s : Strng) (c : Char) : Option (Strng × Strng) :=
  match s.toList.dropWhile (· ≠ c) with
  | _ :: after =>
    some (String.ofList (s.toList.takeWhile (· ≠ c)), String.ofList after)
  | [] => none

theorem splitOnce_eq_some {s a b : Strng} {c : Char} (h : splitOnce s c = some (a, b)) :
    s = String.ofList (a.toList ++ c :: b.toList) := by
  unfold splitOnce at h
  have hjoin := List.takeWhile_append_dropWhile (p := fun x => decide (x ≠ c)) (l := s.toList)
  cases hd : s.toList.dropWhile (fun x => decide (x ≠ c)) with
  | nil =>
    rw [hd] at h
    cases h
  | cons d after =>
    rw [hd] at h hjoin
    have hdc : d = c := by
      -- the first character not skipped is the separator
      have hhead := List.head?_dropWhile_not (fun x => decide (x ≠ c)) s.toList
      rw [hd] at hhead
      simpa using hhead
    obtain ⟨rfl, rfl⟩ := h
    rw [hdc] at hjoin
    rw [String.toList_ofList, String.toList_ofList, hjoin, String.ofList_toList]

theorem splitOnce_append {a : Strng} (b : Strng) {c : Char} (h : c ∉ a.toList) :
    splitOnce (a ++ c.toString ++ b) c = some (a, b) := by
  have hall : ∀ x ∈ a.toList, decide (x ≠ c) := by
    intro x hx
    exact decide_eq_true fun heq => h (heq ▸ hx)
  have hlist : (a ++ c.toString ++ b).toList = a.toList ++ c :: b.toList := by
    simp
  unfold splitOnce
  rw [hlist, List.dropWhile_append_of_pos hall, List.takeWhile_append_of_pos hall]
  simp

end AgentGateway
