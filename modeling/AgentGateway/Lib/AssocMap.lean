/-
Insertion-ordered maps with unique keys.

One representation serves both of the map disciplines a program
usually mixes: a hash map, where only the lookups are observable, and
an index map, where the iteration order is observable too and removal
may fill the hole with the last entry (`swapRemove`). Uniqueness of the
keys is a field of the structure, so no operation can break it and no
later proof has to carry it.

# Shape of the library

Every operation gets a membership lemma over `entries` first, and its
lookup lemma is read off through `mem_entries`, the one bridge between
the two views. Clients use the `get?_*` lemmas and never unfold an
operation.

A map may hold a list under consecutive keys (`Numbered`): a value goes to
the end under the next key, and the last one may be edited in place.
-/
import Mathlib.Data.List.Nodup

namespace Lib

open List

/-- An association list whose keys are pairwise distinct. -/
structure AssocMap (K V : Type) where
  entries : List (K × V)
  nodup : (entries.map Prod.fst).Nodup

namespace AssocMap

variable {K V W : Type} [DecidableEq K]

instance [DecidableEq V] : DecidableEq (AssocMap K V) := fun a b =>
  decidable_of_iff (a.entries = b.entries) (by
    cases a
    cases b
    simp)

-- ======== construction

def empty : AssocMap K V := ⟨[], nodup_nil⟩

instance : Inhabited (AssocMap K V) := ⟨empty⟩

def get? (m : AssocMap K V) (k : K) : Option V :=
  (m.entries.find? fun e => e.1 = k).map Prod.snd

def contains (m : AssocMap K V) (k : K) : Bool := (m.get? k).isSome

def keys (m : AssocMap K V) : List K := m.entries.map Prod.fst

def values (m : AssocMap K V) : List V := m.entries.map Prod.snd

def isEmpty (m : AssocMap K V) : Bool := m.entries.isEmpty

-- ======== lookup and entries

variable {l : List (K × V)} {k k' : K} {v w : V} {m : AssocMap K V} {keys : List K} {v' : V}

/-- The first entry of a list under `k` is the only one when keys are
distinct. -/
private theorem find?_of_mem (hnd : (l.map Prod.fst).Nodup) (hmem : (k, v) ∈ l) :
    (l.find? fun e => e.1 = k) = some (k, v) := by
  induction l with
  | nil => cases hmem
  | cons e es ih =>
    rw [map_cons, nodup_cons] at hnd
    rcases mem_cons.1 hmem with rfl | htail
    · simp
    · have hne : e.1 ≠ k := by
        intro he
        exact hnd.1 (he ▸ mem_map_of_mem htail)
      rw [find?_cons_of_neg (by simpa using hne)]
      exact ih hnd.2 htail

/-- The bridge between the entry list and the lookups. -/
theorem mem_entries : (k, v) ∈ m.entries ↔ m.get? k = some v := by
  constructor
  · intro hmem
    rw [get?, find?_of_mem m.nodup hmem]
    rfl
  · intro hget
    obtain ⟨e, hfind, hv⟩ := Option.map_eq_some_iff.1 hget
    have hk : e.1 = k := by simpa using find?_some hfind
    have hmem := mem_of_find?_eq_some hfind
    rw [← hk, ← hv]
    exact hmem

/-- Two maps with the same entries, in any order, have the same
lookups. -/
theorem get?_congr {m' : AssocMap K V}
    (h : ∀ k v, (k, v) ∈ m.entries ↔ (k, v) ∈ m'.entries) (k : K) : m.get? k = m'.get? k := by
  apply Option.ext
  intro v
  have hkv := h k v
  rw [mem_entries, mem_entries] at hkv
  exact hkv

theorem mem_keys : k ∈ m.keys ↔ ∃ v, m.get? k = some v := by
  simp only [keys, mem_map, Prod.exists, exists_and_right, exists_eq_right, mem_entries]

theorem mem_values : v ∈ m.values ↔ ∃ k, m.get? k = some v := by
  simp only [values, mem_map, Prod.exists, exists_eq_right, mem_entries]

theorem contains_iff : m.contains k ↔ ∃ v, m.get? k = some v := by
  rw [contains, Option.isSome_iff_exists]

theorem contains_iff_mem_keys : m.contains k ↔ k ∈ m.keys := by
  rw [contains_iff, mem_keys]

theorem isEmpty_iff : m.isEmpty ↔ ∀ k, m.get? k = none := by
  rw [isEmpty, List.isEmpty_iff]
  constructor
  · intro h k
    rw [get?, h]
    rfl
  · intro h
    refine eq_nil_iff_forall_not_mem.2 fun e he => ?_
    have hsome := mem_entries.1 he
    rw [h e.1] at hsome
    cases hsome

@[simp] theorem get?_empty (k : K) : (empty : AssocMap K V).get? k = none := rfl

@[simp] theorem contains_empty (k : K) : (empty : AssocMap K V).contains k = false := rfl

-- ======== insertion

/-- Insert or replace: an existing key keeps its position, a new one is
appended. -/
def insert (m : AssocMap K V) (k : K) (v : V) : AssocMap K V where
  entries :=
    if m.contains k then
      m.entries.map fun e => if e.1 = k then (k, v) else e
    else m.entries ++ [(k, v)]
  nodup := by
    split
    · have hkeys : (m.entries.map fun e => if e.1 = k then (k, v) else e).map
          Prod.fst = m.entries.map Prod.fst := by
        rw [map_map]
        refine map_congr_left fun e _ => ?_
        by_cases he : e.1 = k <;> simp [he]
      rw [hkeys]
      exact m.nodup
    · next hnew =>
      rw [map_append, nodup_append]
      refine ⟨m.nodup, by simp, ?_⟩
      intro a ha b hb
      have hbk : b = k := by simpa using hb
      intro hab
      rw [hab, hbk] at ha
      exact hnew (contains_iff_mem_keys.2 ha)

theorem mem_entries_insert : (k', v') ∈ (m.insert k v).entries
      ↔ (k' = k ∧ v' = v) ∨ (k' ≠ k ∧ (k', v') ∈ m.entries) := by
  unfold insert
  split
  · next hold =>
    obtain ⟨w, hw⟩ := contains_iff.1 hold
    rw [mem_map]
    constructor
    · rintro ⟨e, he, heq⟩
      by_cases hk : e.1 = k
      · rw [if_pos hk, Prod.mk.injEq] at heq
        exact Or.inl ⟨heq.1.symm, heq.2.symm⟩
      · rw [if_neg hk] at heq
        subst heq
        exact Or.inr ⟨hk, he⟩
    · rintro (⟨rfl, rfl⟩ | ⟨hne, hmem⟩)
      · exact ⟨(k', w), mem_entries.2 hw, by simp⟩
      · exact ⟨(k', v'), hmem, by simp [hne]⟩
  · next hnew =>
    rw [mem_append, mem_singleton, Prod.mk.injEq]
    constructor
    · rintro (hmem | heq)
      · refine Or.inr ⟨?_, hmem⟩
        rintro rfl
        exact hnew (contains_iff.2 ⟨v', mem_entries.1 hmem⟩)
      · exact Or.inl heq
    · rintro (heq | ⟨-, hmem⟩)
      · exact Or.inr heq
      · exact Or.inl hmem

theorem get?_insert (m : AssocMap K V) (k k' : K) (v : V) :
    (m.insert k v).get? k' = if k' = k then some v else m.get? k' := by
  apply Option.ext
  intro w
  rw [← mem_entries, mem_entries_insert]
  by_cases hk : k' = k
  · simp [hk, eq_comm]
  · simp [hk, mem_entries]

@[simp] theorem get?_insert_self (m : AssocMap K V) (k : K) (v : V) :
    (m.insert k v).get? k = some v := by
  rw [get?_insert, if_pos rfl]

theorem get?_insert_ne (m : AssocMap K V) (v : V) (h : k' ≠ k) :
    (m.insert k v).get? k' = m.get? k' := by
  rw [get?_insert, if_neg h]

theorem forall_insert {P : V → Prop} (h : ∀ k v, m.get? k = some v → P v) (hv : P v)
    (k' : K) (v' : V) (hget : (m.insert k v).get? k' = some v') : P v' := by
  rw [get?_insert] at hget
  split at hget
  · exact Option.some.inj hget ▸ hv
  · exact h k' v' hget

/-- A new key goes to the end. -/
theorem entries_insert_of_not_contains (h : m.contains k = false) (v : V) :
    (m.insert k v).entries = m.entries ++ [(k, v)] := by
  unfold insert
  dsimp only
  rw [h]
  rfl

/-- A value that is there is changed in its place. -/
theorem entries_insert_of_get? (h : m.get? k = some v) (f : V → V) :
    (m.insert k (f v)).entries = m.entries.map fun e => if e.1 = k then (e.1, f e.2) else e := by
  show (if m.contains k then _ else _) = _
  rw [if_pos (contains_iff.2 ⟨v, h⟩)]
  refine map_congr_left fun e he => ?_
  split
  · next hk =>
    have hv : m.get? e.1 = some e.2 := mem_entries.1 he
    rw [hk, h] at hv
    rw [hk, Option.some.inj hv]
  · rfl

/-- The later of two insertions under one key stands. -/
theorem insert_insert (m : AssocMap K V) (k : K) (v w : V) :
    (m.insert k v).insert k w = m.insert k w := by
  have hentries : ((m.insert k v).insert k w).entries = (m.insert k w).entries := by
    have hk : (m.insert k v).contains k := by simp [contains]
    unfold insert at hk ⊢
    dsimp only
    rw [if_pos hk]
    split
    · rw [map_map]
      refine map_congr_left fun e _ => ?_
      by_cases he : e.1 = k <;> simp [he]
    · next hnew =>
      rw [map_append, map_singleton, if_pos rfl]
      congr 1
      refine (map_congr_left fun e he => if_neg ?_).trans (map_id _)
      rintro rfl
      exact hnew (contains_iff_mem_keys.2 (mem_map_of_mem he))
  generalize (m.insert k v).insert k w = a at *
  generalize m.insert k w = b at *
  cases a
  cases b
  simpa using hentries

-- ======== removal

/-- Remove `k`, keeping the order of the other entries. -/
def erase (m : AssocMap K V) (k : K) : AssocMap K V where
  entries := m.entries.filter fun e => e.1 ≠ k
  nodup := m.nodup.sublist (filter_sublist.map Prod.fst)

theorem mem_entries_erase : (k', v) ∈ (m.erase k).entries ↔ k' ≠ k ∧ (k', v) ∈ m.entries := by
  simp [erase, and_comm]

theorem get?_erase (m : AssocMap K V) (k k' : K) :
    (m.erase k).get? k' = if k' = k then none else m.get? k' := by
  apply Option.ext
  intro w
  rw [← mem_entries, mem_entries_erase]
  by_cases hk : k' = k
  · simp [hk]
  · simp [hk, mem_entries]

@[simp] theorem get?_erase_self (m : AssocMap K V) (k : K) : (m.erase k).get? k = none := by
  rw [get?_erase, if_pos rfl]

theorem get?_erase_ne (m : AssocMap K V) (h : k' ≠ k) : (m.erase k).get? k' = m.get? k' := by
  rw [get?_erase, if_neg h]

theorem get?_erase_eq_some : (m.erase k).get? k' = some v ↔ k' ≠ k ∧ m.get? k' = some v := by
  rw [← mem_entries, mem_entries_erase, mem_entries]

/-- The entry under a key is dropped or replaced. -/
theorem get?_erase_or_insert (c : Prop) [Decidable c] (m : AssocMap K V) (k k' : K)
    (v : V) : (if c then m.erase k else m.insert k v).get? k'
      = if k' = k then (if c then none else some v) else m.get? k' := by
  by_cases hc : c
  · simp only [hc, if_true, get?_erase]
  · simp only [hc, if_false, get?_insert]

theorem erase_of_none (h : m.get? k = none) : m.erase k = m := by
  have hentries : (m.erase k).entries = m.entries := by
    refine filter_eq_self.2 fun e he => decide_eq_true ?_
    rintro rfl
    rw [mem_entries.1 he] at h
    cases h
  cases m
  simpa [erase] using hentries

theorem get?_erase_of_none (h : m.get? k = none) (k' : K) : (m.erase k).get? k' = m.get? k' := by
  rw [erase_of_none h]

theorem contains_insert : (m.insert k v).contains k' ↔ k' = k ∨ m.contains k' := by
  unfold contains
  rw [get?_insert]
  by_cases hk : k' = k <;> simp [hk]

theorem contains_erase : (m.erase k).contains k' ↔ k' ≠ k ∧ m.contains k' := by
  unfold contains
  rw [get?_erase]
  by_cases hk : k' = k <;> simp [hk]

-- ======== distinct values

/-- No value is under two keys. -/
theorem nodup_values_iff : m.values.Nodup
      ↔ ∀ k k' v, m.get? k = some v → m.get? k' = some v → k = k' := by
  rw [values, nodup_map_iff_inj_on m.nodup.of_map]
  constructor
  · intro h k k' v hk hk'
    have heq := h _ (mem_entries.2 hk) _ (mem_entries.2 hk') rfl
    exact (Prod.ext_iff.1 heq).1
  · rintro h ⟨k, v⟩ hk ⟨k', v'⟩ hk' rfl
    rw [h k k' v (mem_entries.1 hk) (mem_entries.1 hk')]

theorem mem_values_insert_of_none (h : m.get? k = none) :
    w ∈ (m.insert k v).values ↔ w = v ∨ w ∈ m.values := by
  simp only [mem_values, get?_insert]
  constructor
  · rintro ⟨k', hk'⟩
    split at hk'
    · exact Or.inl (Option.some.inj hk').symm
    · exact Or.inr ⟨k', hk'⟩
  · rintro (rfl | ⟨k', hk'⟩)
    · exact ⟨k, if_pos rfl⟩
    · refine ⟨k', ?_⟩
      rw [if_neg, hk']
      rintro rfl
      rw [h] at hk'
      cases hk'

theorem mem_values_erase (hnd : m.values.Nodup) (h : m.get? k = some v) :
    w ∈ (m.erase k).values ↔ w ∈ m.values ∧ w ≠ v := by
  simp only [mem_values, get?_erase]
  constructor
  · rintro ⟨k', hk'⟩
    split at hk'
    · cases hk'
    · next hne =>
        refine ⟨⟨k', hk'⟩, ?_⟩
        rintro rfl
        exact hne (nodup_values_iff.1 hnd _ _ _ hk' h)
  · rintro ⟨⟨k', hk'⟩, hne⟩
    refine ⟨k', ?_⟩
    rw [if_neg, hk']
    rintro rfl
    exact hne (Option.some.inj (hk'.symm.trans h))

theorem mem_values_insert (hnd : m.values.Nodup) (h : m.get? k = some v) :
    w ∈ (m.insert k v').values ↔ w = v' ∨ w ∈ m.values ∧ w ≠ v := by
  rw [← mem_values_erase hnd h]
  have hget : ∀ k', (m.insert k v').get? k' = ((m.erase k).insert k v').get? k' := by
    intro k'
    rw [get?_insert, get?_insert, get?_erase]
    split <;> rfl
  rw [mem_values, exists_congr fun k' => by rw [hget k'], ← mem_values]
  exact mem_values_insert_of_none (by simp)

theorem nodup_values_insert (hnd : m.values.Nodup) (hv : ∀ k', m.get? k' = some v → k' = k) :
    (m.insert k v).values.Nodup := by
  rw [nodup_values_iff] at hnd ⊢
  intro k₁ k₂ w h₁ h₂
  rw [get?_insert] at h₁ h₂
  split at h₁ <;> split at h₂
  · next e₁ e₂ => rw [e₁, e₂]
  · next e₁ _ =>
      cases h₁
      rw [e₁, hv _ h₂]
  · next e₂ =>
      cases h₂
      rw [e₂, hv _ h₁]
  · exact hnd _ _ _ h₁ h₂

-- ======== swap removal

/-- The list half of `swapRemove`: the hole is filled with the last
entry. -/
def swapRemoveList (k : K) : List (K × V) → List (K × V)
  | [] => []
  | e :: es =>
    if e.1 = k then
      match es.getLast? with
      | none => []
      | some last => last :: es.dropLast
    else e :: swapRemoveList k es

/-- Up to order, filling the hole is dropping the entry. -/
theorem swapRemoveList_perm (k : K) (hnd : (l.map Prod.fst).Nodup) :
    (swapRemoveList k l).Perm (l.filter fun e => e.1 ≠ k) := by
  induction l with
  | nil => exact List.Perm.refl _
  | cons e es ih =>
    rw [map_cons, nodup_cons] at hnd
    by_cases he : e.1 = k
    · have hrest : (es.filter fun e' => e'.1 ≠ k) = es := by
        refine filter_eq_self.2 fun e' he' => ?_
        have : e'.1 ≠ k := fun h =>
          hnd.1 (he ▸ h ▸ mem_map_of_mem he')
        simpa using this
      rw [filter_cons_of_neg (by simpa using he), hrest]
      simp only [swapRemoveList, if_pos he]
      cases hl : es.getLast? with
      | none => rw [getLast?_eq_none_iff.1 hl]
      | some last =>
        have hrot := perm_append_singleton last es.dropLast
        rw [dropLast_append_getLast? last hl] at hrot
        exact hrot.symm
    · rw [filter_cons_of_pos (by simpa using he)]
      simp only [swapRemoveList, if_neg he]
      exact (ih hnd.2).cons e

/-- Remove `k`, moving the last entry into its place. -/
def swapRemove (m : AssocMap K V) (k : K) : AssocMap K V where
  entries := swapRemoveList k m.entries
  nodup := by
    have hperm := (swapRemoveList_perm k m.nodup).map Prod.fst
    exact hperm.nodup_iff.2 (m.erase k).nodup

/-- The two removals differ only in the order they leave behind. -/
@[simp] theorem get?_swapRemove (m : AssocMap K V) (k k' : K) :
    (m.swapRemove k).get? k' = (m.erase k).get? k' :=
  get?_congr (fun _ _ => (swapRemoveList_perm k m.nodup).mem_iff) k'

-- ======== filtering and updates

/-- Keep the entries on which `f` answers, with the value it answers:
a `retain` whose predicate may also edit the value in place. -/
def retain (m : AssocMap K V) (f : K → V → Option W) : AssocMap K W where
  entries := m.entries.filterMap fun e => (f e.1 e.2).map fun w => (e.1, w)
  nodup := by
    have hsub : ((m.entries.filterMap fun e =>
        (f e.1 e.2).map fun w => (e.1, w)).map Prod.fst).Sublist
        (m.entries.map Prod.fst) := by
      generalize m.entries = l
      induction l with
      | nil => exact List.Sublist.slnil
      | cons e es ih =>
        rw [filterMap_cons]
        cases hf : f e.1 e.2 with
        | none => exact ih.cons e.1
        | some w => exact ih.cons_cons e.1
    exact m.nodup.sublist hsub

theorem get?_retain (m : AssocMap K V) (f : K → V → Option W) (k : K) :
    (m.retain f).get? k = (m.get? k).bind (f k) := by
  apply Option.ext
  intro w
  rw [← mem_entries]
  simp only [retain, mem_filterMap, Option.map_eq_some_iff,
    Prod.mk.injEq, Prod.exists, Option.bind_eq_some_iff]
  constructor
  · rintro ⟨k', v, hmem, w', hf, rfl, rfl⟩
    exact ⟨v, mem_entries.1 hmem, hf⟩
  · rintro ⟨v, hget, hf⟩
    exact ⟨k, v, mem_entries.2 hget, w, hf, rfl, rfl⟩

/-- Edit the value stored under `k`, if there is one. -/
def modify (m : AssocMap K V) (k : K) (f : V → V) : AssocMap K V :=
  m.retain fun k' v => some (if k' = k then f v else v)

theorem get?_modify (m : AssocMap K V) (k k' : K) (f : V → V) : (m.modify k f).get? k'
      = if k' = k then (m.get? k').map f else m.get? k' := by
  rw [modify, get?_retain]
  by_cases hk : k' = k <;> cases m.get? k' <;> simp [hk]

/-- A loop that sets the entry of each key to the same. -/
theorem get?_foldl {f : AssocMap K V → K → AssocMap K V} {r : Option V}
    (hf : ∀ m k k', (f m k).get? k' = if k' = k then r else m.get? k')
    (keys : List K) (m : AssocMap K V) (k : K) :
    (keys.foldl f m).get? k = if k ∈ keys then r else m.get? k := by
  induction keys generalizing m with
  | nil => rfl
  | cons a keys ih =>
    rw [foldl_cons, ih, hf]
    by_cases ha : k = a <;> simp [ha]

/-- Collect a list of pairs; a later pair wins over an earlier one with
the same key. -/
def ofList (l : List (K × V)) : AssocMap K V :=
  l.foldl (fun m e => m.insert e.1 e.2) empty

/-- Collecting pairs with distinct keys into a map overrides it. -/
theorem get?_foldl_insert (hnd : (l.map Prod.fst).Nodup) (m : AssocMap K V) (k : K) :
    (l.foldl (fun m e => m.insert e.1 e.2) m).get? k
      = ((l.find? fun e => e.1 = k).map Prod.snd).or (m.get? k) := by
  induction l generalizing m with
  | nil => rfl
  | cons e l ih =>
    rw [map_cons, nodup_cons] at hnd
    rw [foldl_cons, ih hnd.2, get?_insert]
    by_cases hk : k = e.1
    · have hno : (l.find? fun e' => e'.1 = k) = none := by
        rw [find?_eq_none]
        intro e' he' heq
        rw [decide_eq_true_eq, hk] at heq
        exact hnd.1 (heq ▸ mem_map_of_mem he')
      simp [hk ▸ hno, hk]
    · simp [hk, Ne.symm hk]

/-- A list with distinct keys collects to the map with its pairs. -/
theorem get?_ofList (hnd : (l.map Prod.fst).Nodup) : (ofList l).get? k = some v ↔ (k, v) ∈ l := by
  have hget : (ofList l).get? k = (⟨l, hnd⟩ : AssocMap K V).get? k := by
    unfold ofList
    rw [get?_foldl_insert hnd, get?_empty, Option.or_none]
    rfl
  rw [hget, ← mem_entries]

/-- A map is collected from its own entries. -/
theorem ofList_entries (m : AssocMap K V) : ofList m.entries = m := by
  have hfold : ∀ (l : List (K × V)) (m : AssocMap K V), ((m.entries ++ l).map Prod.fst).Nodup →
      (l.foldl (fun m e => m.insert e.1 e.2) m).entries = m.entries ++ l := by
    intro l
    induction l with
    | nil => simp
    | cons e l ih =>
      intro m hnd
      have hnew : m.contains e.1 = false := by
        rw [Bool.eq_false_iff, ne_eq, contains_iff_mem_keys]
        intro hmem
        rw [map_append] at hnd
        exact (nodup_append.1 hnd).2.2 _ hmem _ mem_cons_self rfl
      have hins : (m.insert e.1 e.2).entries = m.entries ++ [e] :=
        entries_insert_of_not_contains hnew e.2
      rw [foldl_cons, ih, hins, append_assoc, singleton_append]
      rw [hins, append_assoc]
      exact hnd
  have hentries := hfold m.entries empty m.nodup
  cases m with
  | mk entries nodup =>
    unfold ofList
    generalize hm : foldl _ empty entries = m' at hentries
    cases m'
    simpa [empty] using hentries

-- ======== sets

def ofKeys (keys : List K) : AssocMap K Unit :=
  keys.foldl (fun next key => next.insert key ()) empty

def eraseAll (m : AssocMap K V) (keys : List K) : AssocMap K V :=
  keys.foldl erase m

theorem contains_ofKeys : (ofKeys keys).contains k ↔ k ∈ keys := by
  rw [ofKeys, contains, get?_foldl fun m k k' => get?_insert m k k' ()]
  by_cases h : k ∈ keys <;> simp [h]

theorem contains_eraseAll : (m.eraseAll keys).contains k ↔ k ∉ keys ∧ m.contains k := by
  rw [eraseAll, contains, get?_foldl get?_erase, contains]
  by_cases h : k ∈ keys <;> simp [h]

/-- The keys left of an old set when those of a new list are removed. -/
theorem mem_keys_eraseAll_ofKeys {old new : List K} :
    k ∈ ((ofKeys old).eraseAll new).keys ↔ k ∈ old ∧ k ∉ new := by
  rw [← contains_iff_mem_keys, contains_eraseAll, contains_ofKeys, and_comm]

end AssocMap

-- ======== numbered

variable {K V : Type} {key : Nat → K}

/-- The map holds the values in their order. -/
def Numbered (key : Nat → K) (m : AssocMap K V) (l : List V) : Prop :=
  m.entries = l.zipIdx.map fun v => (key v.2, v.1)

namespace Numbered

variable {m : AssocMap K V} {l : List V} {v : V}

theorem values (h : Numbered key m l) : m.values = l := by
  rw [AssocMap.values, h]
  simp [Function.comp_def]

theorem entries_concat (h : Numbered key m (l ++ [v])) :
    m.entries = l.zipIdx.map (fun v => (key v.2, v.1)) ++ [(key l.length, v)] := by
  rw [h]
  simp [zipIdx_append]

variable [DecidableEq K]

/-- The next key is not taken, if it is none of those before. -/
theorem get?_next (h : Numbered key m l) (hkey : ∀ i < l.length, key i ≠ key l.length) :
    m.get? (key l.length) = none := by
  rw [← Option.not_isSome_iff_eq_none]
  intro hsome
  have hmem := AssocMap.contains_iff_mem_keys.1 hsome
  rw [AssocMap.keys, h, map_map, mem_map] at hmem
  obtain ⟨⟨v, i⟩, hi, heq⟩ := hmem
  have hlt := (mem_zipIdx hi).2.1
  exact hkey i (by omega) heq

theorem insert_next (h : Numbered key m l) (hnone : m.get? (key l.length) = none)
    (v : V) : Numbered key (m.insert (key l.length) v) (l ++ [v]) := by
  have hnew : m.contains (key l.length) = false := by
    rw [AssocMap.contains, hnone]
    rfl
  rw [Numbered, AssocMap.entries_insert_of_not_contains hnew, h]
  simp [zipIdx_append]

theorem modify_last (h : Numbered key m (l ++ [v]))
    (hkey : ∀ i < l.length, key i ≠ key l.length) (f : V → V) :
    Numbered key (m.modify (key l.length) f) (l ++ [f v]) := by
  have hentries : (m.modify (key l.length) f).entries
      = m.entries.map fun e => (e.1, if e.1 = key l.length then f e.2 else e.2) := by
    rw [AssocMap.modify, AssocMap.retain]
    simp [filterMap_eq_map']
  have hbefore : (l.zipIdx.map fun v => (key v.2, v.1)).map
      (fun e => (e.1, if e.1 = key l.length then f e.2 else e.2))
      = l.zipIdx.map fun v => (key v.2, v.1) := by
    rw [map_map]
    refine map_congr_left fun e he => ?_
    have hlt := (mem_zipIdx (x := e.1) (i := e.2) he).2.1
    simp [hkey e.2 (by omega)]
  rw [Numbered, hentries, h.entries_concat, map_append, hbefore]
  simp [zipIdx_append]

end Numbered

end Lib
