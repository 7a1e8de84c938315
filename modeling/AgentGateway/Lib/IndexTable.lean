/-
A table of sorted indexes, one per target, that drops an index once it
is empty.

Insertion goes to one target; removal of a key goes through every target.
Whether an index is empty is read off its label map, which is not the
same as having no item: an item without entries leaves no trace in the
list of its label, so the list may be emptied, and the label dropped,
while the item is still there. `Keeps` rules that out for one step, and
`TableInv` then says that the table is a function of what it holds
(`table_ext`).
-/
import AgentGateway.Lib.SortedIndex

namespace Lib

open Lib.AssocMap SortedIndex

variable {T L K R E D : Type} [DecidableEq T] [DecidableEq L] [DecidableEq K]

abbrev IndexTable (T L K R E : Type) := AssocMap T (SortedIndex L K R E)

namespace IndexTable

variable (S : IndexSpec L K R E D)

def insertTarget (m : IndexTable T L K R E) (target : T) (r : R) :
    Option (IndexTable T L K R E) := do
  let set ← ((m.get? target).getD empty).insert S r
  some (m.insert target set)

/-- Remove the key from one index, unless that leaves it empty. -/
def dropKey (key : K) (set : SortedIndex L K R E) : Option (SortedIndex L K R E) :=
  let set := if set.all.contains key then set.remove S key else set
  if set.inner.isEmpty then none else some set

def removeKey (m : IndexTable T L K R E) (key : K) : IndexTable T L K R E :=
  m.retain fun _ set => dropKey S key set

-- ======== one index

/-- The labels the index lists are those its items carry. -/
structure SetInv (t : SortedIndex L K R E) : Prop where
  index : SortedIndex.IndexInv S t
  labels : ∀ label, (t.inner.get? label).isSome ↔ ∃ k r, t.all.get? k = some r ∧ label ∈ S.labels r

/-- Taking the item of `key` away, up to the labels `after`, orphans no
label of another item: where another item carries the label, one with
entries does. -/
def Keeps (items : K → Option R) (key : K) (after : List L) : Prop :=
  ∀ old, items key = some old → ∀ label ∈ S.labels old, label ∉ after →
    (∃ k r, k ≠ key ∧ items k = some r ∧ label ∈ S.labels r) →
    ∃ k r, k ≠ key ∧ items k = some r ∧ label ∈ S.labels r ∧ S.entries r ≠ []

variable {S} {t : SortedIndex L K R E} {key : K} {after : List L} {label : L} {r : R}

theorem setInv_empty : SetInv S (empty : SortedIndex L K R E) where
  index := indexInv_empty
  labels := by
    intro label
    refine ⟨nofun, fun h => ?_⟩
    obtain ⟨k, r, hget, -⟩ := h
    cases hget

/-- An item with entries keeps its labels listed. -/
theorem listed_of_entries [hS : SortedIndex.Lawful S] (h : SortedIndex.IndexInv S t)
    {k : K} (hget : t.all.get? k = some r) (hlabel : label ∈ S.labels r) (hne : S.entries r ≠ []) :
    ∃ e ∈ (t.inner.get? label).getD [], S.keyOf e = k := by
  obtain ⟨vd, hlist, hrep⟩ := h.lists label
  obtain ⟨a, ha⟩ := List.exists_mem_of_ne_nil _ hne
  have hkey : S.keyOf a.1 = k := by
    rw [hS.keyOf_entries ha]
    exact h.keyed hget
  refine ⟨a.1, ?_, hkey⟩
  rw [hlist]
  exact List.mem_map_of_mem ((mem_rep hrep).2 ⟨r, hkey ▸ hget, ha, hlabel⟩)

omit [DecidableEq L] in
theorem isSome_without (key : K) (v : Option (List E)) :
    (v.bind (without S key)).isSome ↔ ∃ e ∈ v.getD [], S.keyOf e ≠ key := by
  cases v <;> simp [without]

/-- The labels listed after a removal, where nothing is orphaned. -/
theorem remove_labels [SortedIndex.Lawful S] (h : SetInv S t)
    (hkeeps : Keeps S t.all.get? key after) (hafter : label ∉ after) :
    ((t.remove S key).inner.get? label).isSome
      ↔ ∃ k r, k ≠ key ∧ t.all.get? k = some r ∧ label ∈ S.labels r := by
  -- where the item does not carry the label, it is another one that does
  have hother : (∀ old, t.all.get? key = some old → label ∉ S.labels old) →
      ((t.inner.get? label).isSome
        ↔ ∃ k r, k ≠ key ∧ t.all.get? k = some r ∧ label ∈ S.labels r) := by
    intro hno
    rw [h.labels]
    refine exists_congr fun k => exists_congr fun r => (and_iff_right_of_imp fun hx heq => ?_).symm
    exact hno r (heq ▸ hx.1) hx.2
  cases hold : t.all.get? key with
  | none =>
    rw [remove_of_absent hold]
    exact hother (by simp [hold])
  | some old =>
    rw [get?_remove hold]
    by_cases hlabel : label ∈ S.labels old
    · rw [if_pos hlabel, isSome_without]
      refine ⟨fun hx => ?_, fun hx => ?_⟩
      · -- an entry of another key is left, and its item carries the label
        obtain ⟨vd, hlist, hrep⟩ := h.index.lists label
        obtain ⟨e, he, hne⟩ := hx
        rw [hlist] at he
        obtain ⟨a, ha, rfl⟩ := List.mem_map.1 he
        obtain ⟨r, hget, -, hr⟩ := (mem_rep hrep).1 ha
        exact ⟨S.keyOf a.1, r, hne, hget, hr⟩
      · obtain ⟨k, r, hk, hget, hr, hentries⟩ :=
          hkeeps old hold label hlabel hafter hx
        obtain ⟨e, he, hkey⟩ := listed_of_entries h.index hget hr hentries
        exact ⟨e, he, hkey ▸ hk⟩
    · rw [if_neg hlabel]
      exact hother (by simp [hold, hlabel])

theorem setInv_remove [SortedIndex.Lawful S] (h : SetInv S t)
    (hkeeps : Keeps S t.all.get? key []) : SetInv S (t.remove S key) where
  index := indexInv_remove h.index key
  labels := by
    intro label
    rw [remove_labels h hkeeps List.not_mem_nil]
    refine exists_congr fun k => exists_congr fun r => ?_
    rw [all_remove]
    by_cases hk : k = key <;> simp [hk]

theorem setInv_insert [SortedIndex.Lawful S] (h : SetInv S t)
    (hkeeps : Keeps S t.all.get? (S.key r) (S.labels r)) :
    ∃ t', t.insert S r = some t' ∧ SetInv S t'
      ∧ ∀ k, t'.all.get? k = if k = S.key r then some r else t.all.get? k := by
  obtain ⟨t', hins, hinv, hall, hsome⟩ := insert_eq_some h.index r
  refine ⟨t', hins, ⟨hinv, ?_⟩, hall⟩
  intro label
  rw [hsome]
  by_cases hlabel : label ∈ S.labels r
  · simp only [hlabel, true_or, true_iff]
    refine ⟨S.key r, r, ?_, hlabel⟩
    rw [hall, if_pos rfl]
  · rw [remove_labels h hkeeps hlabel]
    simp only [hlabel, false_or]
    constructor
    · rintro ⟨k, r', hk, hget, hr⟩
      refine ⟨k, r', ?_, hr⟩
      rw [hall, if_neg hk]
      exact hget
    · rintro ⟨k, r', hget, hr⟩
      rw [hall] at hget
      split at hget
      · cases hget
        exact absurd hr hlabel
      · next hk => exact ⟨k, r', hk, hget, hr⟩

/-- With labels on every item, an index that lists none has no item. -/
theorem isEmpty_iff (hne : ∀ r, S.labels r ≠ []) (h : SetInv S t) :
    t.inner.isEmpty ↔ ∀ k, t.all.get? k = none := by
  rw [AssocMap.isEmpty_iff]
  refine ⟨fun hx k => ?_, fun hx label => ?_⟩
  · cases hget : t.all.get? k with
    | none => rfl
    | some r =>
      obtain ⟨label, hlabel⟩ := List.exists_mem_of_ne_nil _ (hne r)
      have hsome := (h.labels label).2 ⟨k, r, hget, hlabel⟩
      rw [hx] at hsome
      cases hsome
  · cases hget : t.inner.get? label with
    | none => rfl
    | some v =>
      obtain ⟨k, r, hk, -⟩ := (h.labels label).1 (by rw [hget]; rfl)
      rw [hx] at hk
      cases hk

-- ======== the table

variable {m m' : IndexTable T L K R E} {holding : T → K → Option R}

variable (S) in
/-- The table holds what `holding` says, in indexes that are none of them
empty. -/
structure TableInv (m : IndexTable T L K R E) (holding : T → K → Option R) : Prop where
  sets : ∀ {t set}, m.get? t = some set → SetInv S set ∧ set.inner.isEmpty = false
  holds : ∀ t k, (m.get? t).bind (fun set => set.all.get? k) = holding t k

theorem TableInv.items (h : TableInv S m holding) {target : T} {set : SortedIndex L K R E}
    (hget : m.get? target = some set) (k : K) : set.all.get? k = holding target k := by
  rw [← h.holds, hget, Option.bind_some]

theorem tableInv_empty : TableInv S (AssocMap.empty : IndexTable T L K R E) fun _ _ => none where
  sets := nofun
  holds := fun _ _ => rfl

/-- The index of a target, empty if there is none. -/
theorem getD_setInv (h : TableInv S m holding) (target : T) : SetInv S ((m.get? target).getD empty)
      ∧ ∀ k, ((m.get? target).getD empty).all.get? k = holding target k := by
  cases hget : m.get? target with
  | none =>
    refine ⟨setInv_empty, fun k => ?_⟩
    rw [← h.holds, hget]
    rfl
  | some set => exact ⟨(h.sets hget).1, h.items hget⟩

omit [DecidableEq L] [DecidableEq K] in
theorem Keeps.congr {items items' : K → Option R}
    (h : Keeps S items key after) (heq : ∀ k, items' k = items k) : Keeps S items' key after := by
  have hsame : items' = items := funext heq
  rw [hsame]
  exact h

/-- Insertion changes one slot. -/
theorem tableInv_insert [SortedIndex.Lawful S] (hne : ∀ r, S.labels r ≠ [])
    (h : TableInv S m holding) (target : T) (r : R)
    (hkeeps : Keeps S (holding target) (S.key r) (S.labels r)) :
    ∃ m', insertTarget S m target r = some m' ∧ TableInv S m' fun t k =>
          if t = target ∧ k = S.key r then some r else holding t k := by
  obtain ⟨hset, hitems⟩ := getD_setInv h target
  obtain ⟨set', hins, hset', hall⟩ := setInv_insert hset (hkeeps.congr hitems)
  refine ⟨m.insert target set', ?_, ?_, ?_⟩
  · unfold insertTarget
    rw [hins]
    rfl
  · intro t set hget
    rw [get?_insert] at hget
    split at hget
    · cases hget
      refine ⟨hset', Bool.eq_false_iff.2 fun hempty => ?_⟩
      have hnone := (isEmpty_iff hne hset').1 hempty (S.key r)
      rw [hall, if_pos rfl] at hnone
      cases hnone
    · exact h.sets hget
  · intro t k
    rw [get?_insert]
    by_cases ht : t = target
    · subst ht
      rw [if_pos rfl, Option.bind_some, hall, hitems]
      by_cases hk : k = S.key r <;> simp [hk]
    · simp only [ht, ↓reduceIte, false_and]
      exact h.holds t k

/-- One index after the removal of a key. -/
theorem dropKey_spec [SortedIndex.Lawful S] (hne : ∀ r, S.labels r ≠ []) (h : SetInv S t)
    (hkeeps : Keeps S t.all.get? key []) :
    (∀ set, dropKey S key t = some set → SetInv S set ∧ set.inner.isEmpty = false)
      ∧ ∀ k, (dropKey S key t).bind (fun set => set.all.get? k)
          = if k = key then none else t.all.get? k := by
  have hset : SetInv S (if t.all.contains key then t.remove S key else t)
      ∧ ∀ k, (if t.all.contains key then t.remove S key else t).all.get? k
        = if k = key then none else t.all.get? k := by
    split
    · exact ⟨setInv_remove h hkeeps, all_remove t key⟩
    · next habs =>
      refine ⟨h, fun k => ?_⟩
      by_cases hk : k = key
      · rw [hk]
        simpa [AssocMap.contains] using habs
      · rw [if_neg hk]
  unfold dropKey
  dsimp only
  generalize (if t.all.contains key then t.remove S key else t) = set' at hset
  obtain ⟨hset', hall⟩ := hset
  split
  · next hempty =>
    refine ⟨fun set hsome => (by cases hsome), fun k => ?_⟩
    rw [← hall, (isEmpty_iff hne hset').1 hempty k]
    rfl
  · next hempty =>
    refine ⟨fun set hsome => ?_, hall⟩
    cases hsome
    exact ⟨hset', Bool.eq_false_iff.2 hempty⟩

/-- Removal clears the key in every target. -/
theorem tableInv_remove [SortedIndex.Lawful S] (hne : ∀ r, S.labels r ≠ [])
    (h : TableInv S m holding) (key : K) (hkeeps : ∀ t, Keeps S (holding t) key []) :
    TableInv S (removeKey S m key) fun t k => if k = key then none else holding t k := by
  have hdrop : ∀ {t set}, m.get? t = some set → _ := fun {t} {set} hget =>
    dropKey_spec hne (h.sets hget).1 ((hkeeps t).congr (h.items hget))
  refine ⟨?_, ?_⟩
  · intro t set hget
    unfold removeKey at hget
    rw [get?_retain] at hget
    obtain ⟨set₀, hget₀, hget⟩ := Option.bind_eq_some_iff.1 hget
    exact (hdrop hget₀).1 set hget
  · intro t k
    unfold removeKey
    rw [get?_retain]
    cases hget : m.get? t with
    | none =>
      rw [← h.holds t k, hget]
      split <;> rfl
    | some set₀ => rw [Option.bind_some, (hdrop hget).2, h.items hget]

/-- A target goes with all it holds. -/
theorem tableInv_erase (h : TableInv S m holding) (target : T) :
    TableInv S (m.erase target) fun t k => if t = target then none else holding t k where
  sets hget := h.sets (AssocMap.get?_erase_eq_some.1 hget).2
  holds := by
    intro t k
    rw [get?_erase]
    split
    · rfl
    · exact h.holds t k

/-- Two tables with the same targets, and under each the same items and
the same lists. -/
def Same (m m' : IndexTable T L K R E) : Prop :=
  ∀ t, (m.get? t).isSome = (m'.get? t).isSome
    ∧ ∀ set set', m.get? t = some set → m'.get? t = some set' →
      (∀ k, set.all.get? k = set'.all.get? k)
      ∧ ∀ label, set.inner.get? label = set'.inner.get? label

/-- What a table holds determines its indexes, read for read. -/
theorem table_ext [SortedIndex.Lawful S] (hne : ∀ r, S.labels r ≠ [])
    (h : TableInv S m holding) (h' : TableInv S m' holding) : Same m m' := by
  intro t
  have hpresent : ∀ {m : IndexTable T L K R E}, TableInv S m holding →
      ((m.get? t).isSome ↔ ∃ k r, holding t k = some r) := by
    intro m h
    have hholds := h.holds t
    cases hget : m.get? t with
    | none =>
      refine ⟨nofun, fun hx => ?_⟩
      obtain ⟨k, r, hk⟩ := hx
      rw [← hholds k, hget] at hk
      cases hk
    | some set =>
      obtain ⟨hinv, hfull⟩ := h.sets hget
      simp only [Option.isSome_some, true_iff]
      by_contra hno
      refine Bool.eq_false_iff.1 hfull ((isEmpty_iff hne hinv).2 fun k => ?_)
      rw [h.items hget]
      exact Option.eq_none_iff_forall_ne_some.2 fun r hk => hno ⟨k, r, hk⟩
  refine ⟨?_, ?_⟩
  · rw [Bool.eq_iff_iff, hpresent h, hpresent h']
  · intro set set' hget hget'
    obtain ⟨hinv, -⟩ := h.sets hget
    obtain ⟨hinv', -⟩ := h'.sets hget'
    have hall : ∀ k, set.all.get? k = set'.all.get? k := by
      intro k
      rw [h.items hget, h'.items hget']
    refine ⟨hall, fun label => ?_⟩
    have hlist := inner_ext hinv.index hinv'.index hall label
    have hsome : (set.inner.get? label).isSome ↔ (set'.inner.get? label).isSome := by
      rw [hinv.labels, hinv'.labels]
      simp only [hall]
    cases hl : set.inner.get? label with
    | none =>
      cases hl' : set'.inner.get? label with
      | none => rfl
      | some v' => simp [hl, hl'] at hsome
    | some v =>
      cases hl' : set'.inner.get? label with
      | none => simp [hl, hl'] at hsome
      | some v' =>
        rw [hl, hl'] at hlist
        exact congrArg some hlist

end IndexTable

end Lib
