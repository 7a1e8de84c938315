/-
A keyed collection with a sorted secondary index.

Items live in `all` under their key. Each item has labels, and under
each label it contributes entries; `inner` keeps, for every label, the
entries of the items that carry it, sorted by a comparison that reads the
items back through `all`. Such a read may find the item or its entry
gone, in which case the program aborts: the operations are `Option`s.

# The canonical form

Insertion is by binary search, so where an entry lands depends on what is
there already. It does not depend on how it got there: the entries of one
item under one label form a list that the item alone determines (`own`),
entries of different items never compare equal, and a sorted list is
determined by its sublists of one key each (`sorted_ext`). `IndexInv` says
just that, so an index is a function of its items (`inner_ext`), and the
aborting reads are never reached (`insert_eq_some`).
-/
import AgentGateway.Lib.AssocMap
import AgentGateway.Lib.BinarySearch
import Mathlib.Data.List.InsertIdx

namespace Lib

open List AssocMap

/-- How items are keyed, labelled, split into entries and compared. -/
structure IndexSpec (L K R E D : Type) where
  key : R → K
  labels : R → List L
  /-- The entries of an item in insertion order, with what they are
  compared by. -/
  entries : R → List (E × D)
  keyOf : E → K
  /-- Read the comparand of a stored entry back from its item. -/
  resolve : R → E → Option D
  cmp : D → D → Ordering

structure SortedIndex (L K R E : Type) where
  inner : AssocMap L (List E)
  all : AssocMap K R

namespace SortedIndex

variable {L K R E D : Type} [DecidableEq L] [DecidableEq K] (S : IndexSpec L K R E D)

def empty : SortedIndex L K R E := ⟨AssocMap.empty, AssocMap.empty⟩

-- ======== operations

/-- Compare a new entry with a stored one, seen from the stored one. -/
def compareStored (all : AssocMap K R) (d : D) (existing : E) : Option Ordering := do
  let item ← all.get? (S.keyOf existing)
  let have_ ← S.resolve item existing
  some (S.cmp d have_).swap

/-- Insert one entry at the position the search finds. -/
def insertEntry (all : AssocMap K R) (v : List E) (e : E × D) : Option (List E) := do
  let toInsert ← binarySearchBy (compareStored S all e.2) v
  some (v.insertIdx (unwrapOrElse toInsert) e.1)

/-- Insert the entries of an item under one label. -/
def insertLabel (all : AssocMap K R) (r : R) (inner : AssocMap L (List E))
    (label : L) : Option (AssocMap L (List E)) := do
  let v ← (S.entries r).foldlM (insertEntry S all) ((inner.get? label).getD [])
  some (inner.insert label v)

/-- Drop the entries of a key under one label, and the label with its
last entry. -/
def removeLabel (key : K) (inner : AssocMap L (List E)) (label : L) : AssocMap L (List E) :=
  match inner.get? label with
  | some v =>
    let v := v.filter fun e => S.keyOf e ≠ key
    if v.isEmpty then inner.erase label else inner.insert label v
  | none => inner

def remove (t : SortedIndex L K R E) (key : K) : SortedIndex L K R E :=
  match t.all.get? key with
  | none => t
  | some old => ⟨(S.labels old).foldl (removeLabel S key) t.inner, t.all.erase key⟩

def insert (t : SortedIndex L K R E) (r : R) : Option (SortedIndex L K R E) := do
  let t := if t.all.contains (S.key r) then t.remove S (S.key r) else t
  -- first, so that the item is there for the search
  let all := t.all.insert (S.key r) r
  let inner ← (S.labels r).foldlM (insertLabel S all r) t.inner
  some ⟨inner, all⟩

/-- The items and comparands of stored entries. An entry without its item
is skipped; an item without the entry aborts. -/
def resolveAll (all : AssocMap K R) : List E → Option (List (R × D))
  | [] => some []
  | e :: rest =>
    match all.get? (S.keyOf e) with
    | none => resolveAll all rest
    | some r => do
        let d ← S.resolve r e
        let ds ← resolveAll all rest
        some ((r, d) :: ds)

/-- What is stored under a label, best first. -/
def lookup (t : SortedIndex L K R E) (label : L) : Option (List (R × D)) :=
  resolveAll S t.all ((t.inner.get? label).getD [])

-- ======== laws

/-- What the canonical form asks of a specification. -/
class Lawful : Prop where
  trans : Std.TransCmp S.cmp
  keyOf_entries : ∀ {r e d}, (e, d) ∈ S.entries r → S.keyOf e = S.key r
  resolve_entries : ∀ {r e d}, (e, d) ∈ S.entries r → S.resolve r e = some d
  /-- Entries of different items are never tied. -/
  key_of_eq : ∀ {r r' e e' d d'}, (e, d) ∈ S.entries r →
    (e', d') ∈ S.entries r' → S.cmp d d' = .eq → S.key r = S.key r'

/-- The order of the stored entries. -/
def Sorted (vd : List (E × D)) : Prop :=
  vd.Pairwise fun a b => (S.cmp a.2 b.2).isLE

/-- Seen from a stored entry, the comparison with a new one. -/
def against (d : D) (a : E × D) : Ordering := (S.cmp d a.2).swap

/-- Insert a list of entries, each where the search puts it. -/
def placeAll (es vd : List (E × D)) : List (E × D) :=
  es.foldl (fun vd e => place (against S e.2) e vd) vd

/-- Insert the entries of an item once for each occurrence of a
label. -/
def placeLabel (r : R) (label : L) (labels : List L) (vd : List (E × D)) : List (E × D) :=
  (labels.filter (· = label)).foldl (fun vd _ => placeAll S (S.entries r) vd) vd

/-- The entries of one item under one label, alone. -/
def own (r : R) (label : L) : List (E × D) :=
  placeLabel S r label (S.labels r) []

variable {S}

/-- Sorted, and split by key as given. -/
structure Rep (parts : K → List (E × D)) (vd : List (E × D)) : Prop where
  sorted : Sorted S vd
  parts : ∀ k, vd.filter (fun a => S.keyOf a.1 = k) = parts k

-- ======== canonical lists

variable {vd : List (E × D)} {e : E × D} {all : AssocMap K R} {label : L} {r : R}
  {t : SortedIndex L K R E} {key : K} {vd' : List (E × D)}

section

omit [DecidableEq L]

theorem mem_of_parts
    (hparts : ∀ k, vd.filter (fun a => S.keyOf a.1 = k) = vd'.filter fun a => S.keyOf a.1 = k)
    (a : E × D) : a ∈ vd ↔ a ∈ vd' := by
  have hl : ∀ l : List (E × D), a ∈ l ↔ a ∈ l.filter fun b => S.keyOf b.1 = S.keyOf a.1 := by
    intro l
    simp
  rw [hl vd, hl vd', hparts]

omit [DecidableEq K] in
theorem Sorted.head_isLE [hS : Lawful S] (h : Sorted S (e :: vd)) :
    ∀ a ∈ e :: vd, (S.cmp e.2 a.2).isLE := by
  have htrans := hS.trans
  exact forall_mem_cons.2 ⟨Std.ReflCmp.isLE_rfl, (pairwise_cons.1 h).1⟩

/-- A sorted list is determined by its sublists of one key each, when
entries of different keys are never tied. -/
theorem sorted_ext [hS : Lawful S]
    (htie : ∀ a ∈ vd, ∀ b ∈ vd', S.cmp a.2 b.2 = .eq → S.keyOf a.1 = S.keyOf b.1)
    (h : Sorted S vd) (h' : Sorted S vd')
    (hparts : ∀ k, vd.filter (fun a => S.keyOf a.1 = k) = vd'.filter fun a => S.keyOf a.1 = k) :
    vd = vd' := by
  have htrans := hS.trans
  have hmem := mem_of_parts hparts
  induction vd generalizing vd' with
  | nil =>
    cases vd' with
    | nil => rfl
    | cons b rest' => exact absurd ((hmem b).2 mem_cons_self) not_mem_nil
  | cons a rest ih =>
    cases vd' with
    | nil => exact absurd ((hmem a).1 mem_cons_self) not_mem_nil
    | cons b rest' =>
      -- the heads are least in both lists, so they tie or coincide
      have hle := h.head_isLE b ((hmem b).2 mem_cons_self)
      have hge := h'.head_isLE a ((hmem a).1 mem_cons_self)
      have hkey := htie a mem_cons_self b mem_cons_self (Std.OrientedCmp.isLE_antisymm hle hge)
      have hab : a = b := by
        have hk := hparts (S.keyOf a.1)
        rw [filter_cons_of_pos (by simp), filter_cons_of_pos (by simp [hkey])] at hk
        exact (cons.inj hk).1
      subst hab
      have hrest : ∀ k, rest.filter (fun c => S.keyOf c.1 = k)
          = rest'.filter fun c => S.keyOf c.1 = k := by
        intro k
        have hk := hparts k
        by_cases hak : S.keyOf a.1 = k
        · rw [filter_cons_of_pos (by simpa using hak),
            filter_cons_of_pos (by simpa using hak)] at hk
          exact (cons.inj hk).2
        · rw [filter_cons_of_neg (by simpa using hak),
            filter_cons_of_neg (by simpa using hak)] at hk
          exact hk
      rw [ih (fun c hc d hd => htie c (mem_cons_of_mem _ hc) d
        (mem_cons_of_mem _ hd)) h.of_cons h'.of_cons hrest (mem_of_parts hrest)]

-- ======== placement

omit [DecidableEq K] in
/-- A sorted list splits at every new entry. -/
theorem runs_against [hS : Lawful S] (h : Sorted S vd) (d : D) : Runs (against S d) vd := by
  have htrans := hS.trans
  refine h.imp fun {a b} hab => ⟨fun hlt => ?_, fun hgt => ?_⟩
  · -- `b` is below the new entry, and `a` is not above `b`
    unfold against at hlt ⊢
    rw [Ordering.swap_eq_lt] at hlt ⊢
    exact Std.OrientedCmp.gt_of_lt (Std.TransCmp.lt_of_isLE_of_lt hab
      (Std.OrientedCmp.lt_of_gt hlt))
  · unfold against at hgt ⊢
    rw [Ordering.swap_eq_gt] at hgt ⊢
    exact Std.TransCmp.lt_of_lt_of_isLE hgt hab

omit [DecidableEq K] in
theorem sorted_place [hS : Lawful S] (h : Sorted S vd) (e : E × D) :
    Sorted S (place (against S e.2) e vd) := by
  have htrans := hS.trans
  obtain ⟨p, q, hvd, hplace, hp, hq⟩ := place_split (runs_against h e.2) e
  rw [hplace]
  rw [hvd] at h
  unfold Sorted at h ⊢
  rw [pairwise_append] at h ⊢
  have hbelow : ∀ a ∈ p, (S.cmp a.2 e.2).isLE := by
    intro a ha
    refine Std.OrientedCmp.isGE_iff_isLE.1 ?_
    have hgt := hp a ha
    unfold against at hgt
    cases hc : S.cmp e.2 a.2 with
    | lt => simp [hc] at hgt
    | eq | gt => rfl
  have habove : ∀ a ∈ q, (S.cmp e.2 a.2).isLE := by
    intro a ha
    have hlt := hq a ha
    unfold against at hlt
    cases hc : S.cmp e.2 a.2 with
    | lt | eq => rfl
    | gt => simp [hc] at hlt
  exact ⟨h.1, pairwise_cons.2 ⟨habove, h.2.1⟩, fun a ha =>
    forall_mem_cons.2 ⟨hbelow a ha, h.2.2 a ha⟩⟩

/-- An entry joins the sublist of its own key, as if it were alone. -/
theorem filter_place_self (htie : ∀ a ∈ vd, S.cmp e.2 a.2 = .eq → S.keyOf a.1 = S.keyOf e.1) :
    (place (against S e.2) e vd).filter (fun a => S.keyOf a.1 = S.keyOf e.1)
      = place (against S e.2) e (vd.filter fun a => S.keyOf a.1 = S.keyOf e.1) := by
  unfold place
  have htied : ∀ a ∈ vd.filter fun a => against S e.2 a = .eq, S.keyOf a.1 = S.keyOf e.1 := by
    intro a ha
    obtain ⟨hmem, heq⟩ := mem_filter.1 ha
    refine htie a hmem ?_
    simpa [against] using heq
  have hself : ((vd.filter fun a => against S e.2 a = .eq).filter
      fun a => S.keyOf a.1 = S.keyOf e.1)
      = vd.filter fun a => against S e.2 a = .eq :=
    filter_eq_self.2 fun a ha => by simpa using htied a ha
  have hlast : (beforeLast e (vd.filter fun a => against S e.2 a = .eq)).filter
      (fun a => S.keyOf a.1 = S.keyOf e.1)
      = beforeLast e (vd.filter fun a => against S e.2 a = .eq) := by
    refine filter_eq_self.2 fun a ha => ?_
    rcases mem_cons.1 ((beforeLast_perm _ _).mem_iff.1 ha) with heq | hin
    · simp [heq]
    · simpa using htied a hin
  rw [filter_append, filter_append, hlast, filter_comm,
    filter_comm (fun a => decide (against S e.2 a = .gt))]
  congr 3
  rw [filter_comm, hself]

/-- The sublists of other keys do not change. -/
theorem filter_place_ne [Lawful S] (h : Sorted S vd) {k : K} (hk : k ≠ S.keyOf e.1) :
    (place (against S e.2) e vd).filter (fun a => S.keyOf a.1 = k)
      = vd.filter fun a => S.keyOf a.1 = k := by
  obtain ⟨p, q, hvd, hplace, -, -⟩ := place_split (runs_against h e.2) e
  rw [hplace, hvd, filter_append, filter_append, filter_cons_of_neg (by simpa using Ne.symm hk)]

-- ======== insertion

variable (S) in
/-- Sorted, with every entry still an entry of the item its key names. -/
structure Stored (all : AssocMap K R) (vd : List (E × D)) : Prop where
  sorted : Sorted S vd
  known : ∀ a ∈ vd, ∃ r, all.get? (S.keyOf a.1) = some r ∧ a ∈ S.entries r

theorem compareStored_eq [hS : Lawful S] (h : Stored S all vd) (d : D) :
    ∀ a ∈ vd, compareStored S all d a.1 = some (against S d a) := by
  intro a ha
  obtain ⟨r, hget, hmem⟩ := h.known a ha
  unfold compareStored
  rw [hget]
  simp only [Option.bind_eq_bind, Option.bind_some, hS.resolve_entries hmem]
  rfl

/-- On stored lists an insertion is a placement. -/
theorem insertEntry_eq [Lawful S] (h : Stored S all vd) (e : E × D) :
    insertEntry S all (vd.map Prod.fst) e = some ((place (against S e.2) e vd).map Prod.fst) := by
  obtain ⟨pos, hpos, hins⟩ := insert_binarySearchBy
    (runs_against h.sorted e.2) (compareStored_eq h e.2) e
  unfold insertEntry
  rw [binarySearchBy_map, hpos]
  simp only [Option.bind_eq_bind, Option.bind_some]
  rw [← hins, map_insertIdx]

/-- What a run of placements of entries of `r` does to a stored list. -/
structure Grown (all : AssocMap K R) (r : R) (f : List (E × D) → List (E × D)) : Prop where
  stored : ∀ {vd}, Stored S all vd → Stored S all (f vd)
  self : ∀ {vd}, Stored S all vd → (f vd).filter (fun a => S.keyOf a.1 = S.key r)
      = f (vd.filter fun a => S.keyOf a.1 = S.key r)
  other : ∀ {vd}, Stored S all vd → ∀ {k}, k ≠ S.key r →
    (f vd).filter (fun a => S.keyOf a.1 = k) = vd.filter fun a => S.keyOf a.1 = k

theorem Grown.id : Grown (S := S) all r fun vd => vd where
  stored := fun h => h
  self := fun _ => rfl
  other := fun _ _ _ => rfl

theorem Grown.comp {f g : List (E × D) → List (E × D)}
    (hf : Grown (S := S) all r f) (hg : Grown (S := S) all r g) :
    Grown (S := S) all r fun vd => g (f vd) where
  stored := fun h => hg.stored (hf.stored h)
  self := fun h => by rw [hg.self (hf.stored h), hf.self h]
  other := fun h k hk => by rw [hg.other (hf.stored h) hk, hf.other h hk]

theorem grown_place [hS : Lawful S] (hr : all.get? (S.key r) = some r) (he : e ∈ S.entries r) :
    Grown (S := S) all r (place (against S e.2) e) where
  stored := by
    intro vd h
    refine ⟨sorted_place h.sorted e, ?_⟩
    intro a ha
    rcases mem_cons.1 ((place_perm _ _ _).mem_iff.1 ha) with heq | hin
    · rw [heq]
      refine ⟨r, ?_, he⟩
      rw [hS.keyOf_entries he]
      exact hr
    · exact h.known a hin
  self := by
    intro vd h
    have hkey := hS.keyOf_entries he
    rw [← hkey]
    refine filter_place_self fun a ha heq => ?_
    obtain ⟨r', hget, hmem⟩ := h.known a ha
    rw [hkey, hS.key_of_eq he hmem heq, hS.keyOf_entries hmem]
  other := by
    intro vd h k hk
    refine filter_place_ne h.sorted ?_
    rw [hS.keyOf_entries he]
    exact hk

theorem grown_placeAll [Lawful S] (hr : all.get? (S.key r) = some r)
    {es : List (E × D)} (hes : ∀ e ∈ es, e ∈ S.entries r) :
    Grown (S := S) all r (placeAll S es) := by
  induction es with
  | nil => exact Grown.id
  | cons e es ih =>
    exact (grown_place hr (hes e mem_cons_self)).comp
      (ih fun e' he' => hes e' (mem_cons_of_mem _ he'))

theorem foldlM_insertEntry [Lawful S] (hr : all.get? (S.key r) = some r) :
    ∀ (es : List (E × D)), (∀ e ∈ es, e ∈ S.entries r) → ∀ {vd : List (E × D)}, Stored S all vd →
        es.foldlM (insertEntry S all) (vd.map Prod.fst)
          = some ((placeAll S es vd).map Prod.fst) := by
  intro es
  induction es with
  | nil =>
    intro _ vd _
    rfl
  | cons e es ih =>
    intro hes vd h
    rw [foldlM_cons, insertEntry_eq h]
    exact ih (fun e' he' => hes e' (mem_cons_of_mem _ he'))
      ((grown_place hr (hes e mem_cons_self)).stored h)

end

theorem grown_placeLabel [Lawful S] (hr : all.get? (S.key r) = some r)
    (label : L) (labels : List L) : Grown (S := S) all r (placeLabel S r label labels) := by
  unfold placeLabel
  induction labels.filter (· = label) with
  | nil => exact Grown.id
  | cons _ ls ih => exact (grown_placeAll hr fun _ he => he).comp ih

theorem foldlM_insertLabel [Lawful S] (hr : all.get? (S.key r) = some r) :
    ∀ (labels : List L) (inner : AssocMap L (List E)) (vdOf : L → List (E × D)),
      (∀ label, (inner.get? label).getD [] = (vdOf label).map Prod.fst) →
      (∀ label, Stored S all (vdOf label)) →
      ∃ inner', labels.foldlM (insertLabel S all r) inner = some inner'
        ∧ (∀ label, (inner'.get? label).getD []
            = (placeLabel S r label labels (vdOf label)).map Prod.fst)
        ∧ ∀ label, (inner'.get? label).isSome ↔ label ∈ labels ∨ (inner.get? label).isSome := by
  intro labels
  induction labels with
  | nil =>
    intro inner vdOf hinner hst
    exact ⟨inner, rfl, hinner, by simp⟩
  | cons l labels ih =>
    intro inner vdOf hinner hst
    have hstep : insertLabel S all r inner l
        = some (inner.insert l ((placeAll S (S.entries r) (vdOf l)).map Prod.fst)) := by
      unfold insertLabel
      rw [hinner l, foldlM_insertEntry hr _ (fun _ he => he) (hst l)]
      rfl
    rw [foldlM_cons, hstep]
    obtain ⟨inner', hfold, hlist, hsome⟩ := ih
      (inner.insert l ((placeAll S (S.entries r) (vdOf l)).map Prod.fst))
      (Function.update vdOf l (placeAll S (S.entries r) (vdOf l)))
      (by
        intro label
        rw [get?_insert]
        by_cases hl : label = l
        · subst hl
          simp
        · simp [hl, hinner])
      (by
        intro label
        by_cases hl : label = l
        · subst hl
          rw [Function.update_self]
          exact (grown_placeAll hr fun _ he => he).stored (hst label)
        · rw [Function.update_of_ne hl]
          exact hst label)
    refine ⟨inner', hfold, fun label => ?_, fun label => ?_⟩
    · rw [hlist]
      unfold placeLabel
      by_cases hl : label = l
      · subst hl
        simp
      · simp [hl, Ne.symm hl]
    · rw [hsome, get?_insert]
      by_cases hl : label = l <;> simp [hl]

-- ======== invariant

omit [DecidableEq L] [DecidableEq K] in
theorem placeAll_perm (es vd : List (E × D)) : (placeAll S es vd).Perm (es ++ vd) := by
  induction es generalizing vd with
  | nil => exact List.Perm.refl _
  | cons e es ih =>
    refine (ih (place (against S e.2) e vd)).trans ?_
    refine ((place_perm _ e vd).append_left es).trans ?_
    exact perm_middle

omit [DecidableEq K] in
/-- An item has each of its entries under a label as often as it has the
label. -/
theorem own_perm (r : R) (label : L) : (own S r label).Perm
      (((S.labels r).filter (· = label)).flatMap fun _ => S.entries r) := by
  unfold own placeLabel
  suffices h : ∀ (ls : List L) (vd : List (E × D)),
      (ls.foldl (fun vd _ => placeAll S (S.entries r) vd) vd).Perm
        (ls.flatMap (fun _ => S.entries r) ++ vd) by
    simpa using h ((S.labels r).filter (· = label)) []
  intro ls
  induction ls with
  | nil =>
    intro vd
    exact List.Perm.refl _
  | cons l ls ih =>
    intro vd
    refine (ih _).trans ?_
    refine ((placeAll_perm (S.entries r) vd).append_left _).trans ?_
    rw [← append_assoc]
    exact perm_append_comm.append_right vd

omit [DecidableEq K] in
theorem mem_own {a : E × D} : a ∈ own S r label ↔ label ∈ S.labels r ∧ a ∈ S.entries r := by
  rw [(own_perm r label).mem_iff, mem_flatMap]
  refine ⟨fun h => ?_, fun h => ?_⟩
  · obtain ⟨l, hl, ha⟩ := h
    obtain ⟨hmem, heq⟩ := mem_filter.1 hl
    have heq : l = label := by simpa using heq
    subst heq
    exact ⟨hmem, ha⟩
  · exact ⟨label, mem_filter.2 ⟨h.1, by simp⟩, h.2⟩

variable (S) in
/-- What an index with these items holds under a label, key by key. -/
def ownOf (all : AssocMap K R) (label : L) (k : K) : List (E × D) :=
  match all.get? k with
  | some r => own S r label
  | none => []

variable (S) in
/-- Items sit under their keys, and every list is sorted and holds exactly
the entries of the items that carry its label. -/
structure IndexInv (t : SortedIndex L K R E) : Prop where
  keyed : ∀ {k r}, t.all.get? k = some r → S.key r = k
  lists : ∀ label, ∃ vd, (t.inner.get? label).getD [] = vd.map Prod.fst
    ∧ Rep (S := S) (ownOf S t.all label) vd

theorem indexInv_empty : IndexInv S (empty : SortedIndex L K R E) where
  keyed := by
    intro k r h
    cases h
  lists := fun label => ⟨[], rfl, List.Pairwise.nil, fun k => rfl⟩

theorem mem_rep (h : Rep (S := S) (ownOf S t.all label) vd) {a : E × D} : a ∈ vd
      ↔ ∃ r, t.all.get? (S.keyOf a.1) = some r ∧ a ∈ S.entries r ∧ label ∈ S.labels r := by
  have hpart : a ∈ vd ↔ a ∈ ownOf S t.all label (S.keyOf a.1) := by
    rw [← h.parts]
    simp
  rw [hpart]
  unfold ownOf
  cases t.all.get? (S.keyOf a.1) with
  | none => simp
  | some r => simp [mem_own, and_comm]

theorem rep_stored (h : Rep (S := S) (ownOf S t.all label) vd) : Stored S t.all vd where
  sorted := h.sorted
  known := by
    intro a ha
    obtain ⟨r, hget, hentry, -⟩ := (mem_rep h).1 ha
    exact ⟨r, hget, hentry⟩

-- ======== removal

theorem all_remove (t : SortedIndex L K R E) (key k : K) : (t.remove S key).all.get? k
      = if k = key then none else t.all.get? k := by
  unfold remove
  cases hget : t.all.get? key with
  | none =>
    by_cases hk : k = key
    · subst hk
      simp [hget]
    · simp [hk]
  | some old => exact get?_erase _ _ _

variable (S) in
/-- What is left of a list without a key; nothing at all if it is
empty. -/
def without (key : K) (v : List E) : Option (List E) :=
  if (v.filter fun e => S.keyOf e ≠ key).isEmpty then none
  else some (v.filter fun e => S.keyOf e ≠ key)

omit [DecidableEq L] in
theorem without_idem (key : K) (v : List E) :
    (without S key v).bind (without S key) = without S key v := by
  unfold without
  split
  · rfl
  · next hempty =>
    simp only [Option.bind_some, filter_filter, Bool.and_self, hempty,
      Bool.false_eq_true, ↓reduceIte]

omit [DecidableEq L] in
theorem getD_without (key : K) (v : List E) :
    (without S key v).getD [] = v.filter fun e => S.keyOf e ≠ key := by
  unfold without
  split
  · next hempty => exact (isEmpty_iff.1 hempty).symm
  · rfl

theorem get?_removeLabel (key : K) (inner : AssocMap L (List E)) (l label : L) :
    (removeLabel S key inner l).get? label
      = if label = l then (inner.get? label).bind (without S key) else inner.get? label := by
  unfold removeLabel
  cases hl : inner.get? l with
  | none =>
    by_cases heq : label = l
    · rw [if_pos heq, heq, hl]
      rfl
    · rw [if_neg heq]
  | some v =>
    refine (get?_erase_or_insert ..).trans ?_
    by_cases heq : label = l
    · subst heq
      rw [if_pos rfl, if_pos rfl, hl]
      rfl
    · rw [if_neg heq, if_neg heq]

/-- One label after the removal loop. -/
theorem get?_foldl_removeLabel (key : K) (labels : List L) (label : L) :
    ∀ inner : AssocMap L (List E), (labels.foldl (removeLabel S key) inner).get? label
        = if label ∈ labels then (inner.get? label).bind (without S key) else inner.get? label := by
  induction labels with
  | nil =>
    intro inner
    simp
  | cons l labels ih =>
    intro inner
    rw [foldl_cons, ih, get?_removeLabel]
    by_cases heq : label = l
    · subst heq
      rw [if_pos rfl, if_pos mem_cons_self]
      split
      · -- a second pass over the label finds nothing left to drop
        rw [Option.bind_assoc]
        congr 1
        funext v
        exact without_idem key v
      · rfl
    · simp [heq]

theorem get?_remove {old : R} (hold : t.all.get? key = some old) (label : L) :
    (t.remove S key).inner.get? label = if label ∈ S.labels old then
          (t.inner.get? label).bind (without S key) else t.inner.get? label := by
  unfold remove
  rw [hold]
  exact get?_foldl_removeLabel key _ label _

/-- The list of a label after a removal. -/
theorem getD_remove {old : R} (hold : t.all.get? key = some old) (label : L) :
    ((t.remove S key).inner.get? label).getD [] = if label ∈ S.labels old then
          ((t.inner.get? label).getD []).filter fun e => S.keyOf e ≠ key
        else (t.inner.get? label).getD [] := by
  rw [get?_remove hold]
  split
  · cases t.inner.get? label with
    | none => rfl
    | some v => exact getD_without key v
  · rfl

theorem remove_of_absent (h : t.all.get? key = none) : t.remove S key = t := by
  unfold remove
  rw [h]

theorem ownOf_remove (t : SortedIndex L K R E) (key : K) (label : L) (k : K) :
    ownOf S (t.remove S key).all label k = if k = key then [] else ownOf S t.all label k := by
  unfold ownOf
  rw [all_remove]
  by_cases hk : k = key
  · rw [if_pos hk, if_pos hk]
  · rw [if_neg hk, if_neg hk]

theorem indexInv_remove (h : IndexInv S t) (key : K) : IndexInv S (t.remove S key) := by
  cases hold : t.all.get? key with
  | none =>
    rw [remove_of_absent hold]
    exact h
  | some old =>
    refine ⟨?_, ?_⟩
    · intro k r hget
      rw [all_remove] at hget
      split at hget
      · cases hget
      · exact h.keyed hget
    · intro label
      obtain ⟨vd, hlist, hrep⟩ := h.lists label
      -- drop the key everywhere; where the label is not the item's there
      -- is nothing to drop
      refine ⟨vd.filter fun a => S.keyOf a.1 ≠ key, ?_, ?_, ?_⟩
      · rw [getD_remove hold, hlist]
        split
        · rw [filter_map]
          rfl
        · next hlabel =>
          rw [filter_eq_self.2]
          intro a ha
          obtain ⟨r, hget, -, hmem⟩ := (mem_rep hrep).1 ha
          have hne : S.keyOf a.1 ≠ key := by
            intro heq
            rw [heq, hold] at hget
            cases hget
            exact hlabel hmem
          simpa using hne
      · exact hrep.sorted.sublist filter_sublist
      · intro k
        rw [filter_filter, ownOf_remove]
        by_cases hk : k = key
        · subst hk
          rw [if_pos rfl]
          simp
        · rw [if_neg hk, ← hrep.parts k]
          refine filter_congr fun a _ => ?_
          by_cases hak : S.keyOf a.1 = k
          · simp [hak, hk]
          · simp [hak]

-- ======== insertion

/-- The item to be inserted is never there any more. -/
theorem insert_eq (t : SortedIndex L K R E) (r : R) : t.insert S r = (let t' := t.remove S (S.key r)
         let all := t'.all.insert (S.key r) r
         ((S.labels r).foldlM (insertLabel S all r) t'.inner).map fun inner =>
           ⟨inner, all⟩) := by
  have hclear : (if t.all.contains (S.key r) then t.remove S (S.key r) else t)
      = t.remove S (S.key r) := by
    split
    · rfl
    · next habs =>
      rw [remove_of_absent]
      simpa [AssocMap.contains] using habs
  unfold insert
  simp only [hclear, Option.map_eq_bind]
  rfl

/-- An insertion never aborts; it replaces the item of the same key. -/
theorem insert_eq_some [Lawful S] (h : IndexInv S t) (r : R) :
    ∃ t', t.insert S r = some t' ∧ IndexInv S t' ∧ (∀ k, t'.all.get? k
          = if k = S.key r then some r else t.all.get? k)
      ∧ ∀ label, (t'.inner.get? label).isSome ↔ label ∈ S.labels r
            ∨ ((t.remove S (S.key r)).inner.get? label).isSome := by
  have hrem := indexInv_remove h (S.key r)
  have hgone := all_remove (S := S) t (S.key r)
  rw [insert_eq]
  dsimp only
  generalize t.remove S (S.key r) = t₀ at hrem hgone
  have hself : (t₀.all.insert (S.key r) r).get? (S.key r) = some r := get?_insert_self _ _ _
  choose vdOf hlist hrep using hrem.lists
  have hstored : ∀ label, Stored S (t₀.all.insert (S.key r) r) (vdOf label) := by
    intro label
    refine ⟨(hrep label).sorted, ?_⟩
    intro a ha
    obtain ⟨r', hget, hentry, -⟩ := (mem_rep (hrep label)).1 ha
    refine ⟨r', ?_, hentry⟩
    have hne : S.keyOf a.1 ≠ S.key r := by
      intro heq
      rw [heq, hgone, if_pos rfl] at hget
      cases hget
    rw [get?_insert_ne _ _ hne]
    exact hget
  obtain ⟨inner', hfold, hlist', hsome⟩ :=
    foldlM_insertLabel hself (S.labels r) t₀.inner vdOf hlist hstored
  refine ⟨⟨inner', t₀.all.insert (S.key r) r⟩, by rw [hfold]; rfl, ⟨?_, ?_⟩, ?_, hsome⟩
  · intro k r' hget
    rw [get?_insert] at hget
    split at hget
    · next hk =>
      cases hget
      exact hk.symm
    · exact hrem.keyed hget
  · intro label
    have hgrown := grown_placeLabel hself label (S.labels r)
    refine ⟨_, hlist' label, (hgrown.stored (hstored label)).sorted, ?_⟩
    intro k
    unfold ownOf
    rw [get?_insert]
    by_cases hk : k = S.key r
    · subst hk
      rw [if_pos rfl, hgrown.self (hstored label), (hrep label).parts]
      unfold ownOf
      rw [hgone, if_pos rfl]
      rfl
    · rw [if_neg hk, hgrown.other (hstored label) hk, (hrep label).parts]
      rfl
  · intro k
    rw [get?_insert, hgone]
    by_cases hk : k = S.key r
    · rw [if_pos hk, if_pos hk]
    · rw [if_neg hk, if_neg hk, if_neg hk]

-- ======== reads

/-- The items determine the lists. -/
theorem inner_ext [hS : Lawful S] {t' : SortedIndex L K R E} (h : IndexInv S t)
    (h' : IndexInv S t') (hall : ∀ k, t.all.get? k = t'.all.get? k) (label : L) :
    (t.inner.get? label).getD [] = (t'.inner.get? label).getD [] := by
  obtain ⟨vd, hlist, hrep⟩ := h.lists label
  obtain ⟨vd', hlist', hrep'⟩ := h'.lists label
  rw [hlist, hlist']
  congr 1
  refine sorted_ext ?_ hrep.sorted hrep'.sorted ?_
  · intro a ha b hb heq
    obtain ⟨r, -, hentry, -⟩ := (mem_rep hrep).1 ha
    obtain ⟨r', -, hentry', -⟩ := (mem_rep hrep').1 hb
    rw [hS.keyOf_entries hentry, hS.keyOf_entries hentry', hS.key_of_eq hentry hentry' heq]
  · intro k
    rw [hrep.parts, hrep'.parts]
    unfold ownOf
    rw [hall]

omit [DecidableEq L] in
theorem resolveAll_ext {all' : AssocMap K R} (hall : ∀ k, all.get? k = all'.get? k) (v : List E) :
    resolveAll S all v = resolveAll S all' v := by
  induction v with
  | nil => rfl
  | cons e rest ih =>
    unfold resolveAll
    rw [hall, ih]

/-- Hence they determine what a read returns. -/
theorem lookup_ext [Lawful S] {t' : SortedIndex L K R E} (h : IndexInv S t)
    (h' : IndexInv S t') (hall : ∀ k, t.all.get? k = t'.all.get? k) (label : L) :
    t.lookup S label = t'.lookup S label := by
  unfold lookup
  rw [inner_ext h h' hall, resolveAll_ext hall]

omit [DecidableEq L] in
/-- A stored list reads back whole and in order. -/
theorem resolveAll_eq [hS : Lawful S] (h : Stored S all vd) :
    ∃ cs, resolveAll S all (vd.map Prod.fst) = some cs ∧ cs.map Prod.snd = vd.map Prod.snd
      ∧ ∀ c, c ∈ cs ↔ ∃ a ∈ vd, all.get? (S.keyOf a.1) = some c.1 ∧ c.2 = a.2 := by
  induction vd with
  | nil => exact ⟨[], rfl, rfl, by simp⟩
  | cons a rest ih =>
    obtain ⟨r, hget, hentry⟩ := h.known a mem_cons_self
    obtain ⟨cs, hcs, hmap, hmem⟩ := ih ⟨(pairwise_cons.1 h.sorted).2,
      fun b hb => h.known b (mem_cons_of_mem _ hb)⟩
    refine ⟨(r, a.2) :: cs, ?_, by rw [map_cons, hmap]; rfl, ?_⟩
    · rw [map_cons]
      unfold resolveAll
      rw [hget]
      simp only [Option.bind_eq_bind, Option.bind_some, hcs, hS.resolve_entries hentry]
    · intro c
      rw [mem_cons, hmem]
      simp only [exists_mem_cons_iff, hget, Option.some.injEq]
      rw [Prod.ext_iff, eq_comm (a := r)]

/-- What a read returns: the entries of the items that carry the label,
in order. It never aborts. -/
theorem lookup_eq_some [hS : Lawful S] (h : IndexInv S t) (label : L) :
    ∃ cs, t.lookup S label = some cs ∧ cs.Pairwise (fun a b => (S.cmp a.2 b.2).isLE)
      ∧ ∀ r d, (r, d) ∈ cs ↔ t.all.get? (S.key r) = some r
          ∧ label ∈ S.labels r ∧ ∃ e, (e, d) ∈ S.entries r := by
  obtain ⟨vd, hlist, hrep⟩ := h.lists label
  obtain ⟨cs, hcs, hmap, hmem⟩ := resolveAll_eq (rep_stored hrep)
  refine ⟨cs, ?_, ?_, ?_⟩
  · unfold lookup
    rw [hlist, hcs]
  · have hsorted := hrep.sorted
    unfold Sorted at hsorted
    rw [← pairwise_map (f := Prod.snd) (R := fun d d' => (S.cmp d d').isLE)] at hsorted ⊢
    rw [hmap]
    exact hsorted
  · intro r d
    rw [hmem]
    constructor
    · rintro ⟨a, ha, hget, hd⟩
      obtain ⟨r', hget', hentry, hlabel⟩ := (mem_rep hrep).1 ha
      rw [hget'] at hget
      cases hget
      have hkey := hS.keyOf_entries hentry
      rw [hkey] at hget'
      exact ⟨hget', hlabel, a.1, by rw [show d = a.2 from hd]; exact hentry⟩
    · rintro ⟨hget, hlabel, e, hentry⟩
      rw [← hS.keyOf_entries hentry] at hget
      exact ⟨(e, d), (mem_rep hrep).2 ⟨r, hget, hentry, hlabel⟩, hget, rfl⟩

/-- How often an entry occurs under a label: once for each occurrence of
the label in its item. -/
theorem count_inner [DecidableEq E] (h : IndexInv S t) (label : L) (e : E) :
    ((t.inner.get? label).getD []).count e = match t.all.get? (S.keyOf e) with
        | some r => (S.labels r).count label * ((S.entries r).map Prod.fst).count e
        | none => 0 := by
  obtain ⟨vd, hlist, hrep⟩ := h.lists label
  have hpart : (vd.map Prod.fst).count e
      = ((vd.filter fun a => S.keyOf a.1 = S.keyOf e).map Prod.fst).count e := by
    rw [count_eq_countP, count_eq_countP, countP_map, countP_map, countP_filter]
    refine countP_congr fun a _ => ?_
    simp only [Function.comp_apply, beq_iff_eq, Bool.and_eq_true, decide_eq_true_eq]
    exact ⟨fun heq => ⟨heq, by rw [heq]⟩, fun hx => hx.1⟩
  rw [hlist, hpart, hrep.parts]
  unfold ownOf
  cases t.all.get? (S.keyOf e) with
  | none => rfl
  | some r =>
    rw [((own_perm r label).map Prod.fst).count_eq, map_flatMap]
    -- one copy of the entries per occurrence
    have hcopies : ∀ ls : List L, (ls.flatMap fun _ =>
        (S.entries r).map Prod.fst).count e = ls.length * ((S.entries r).map Prod.fst).count e := by
      intro ls
      simp [count_flatMap, Function.comp_def]
    have hlabels : ((S.labels r).filter (· = label)).length = (S.labels r).count label := by
      rw [count_eq_countP, countP_eq_length_filter]
      congr 1
    rw [hcopies, hlabels]

theorem inner_sorted (h : IndexInv S t) (label : L) :
    ((t.inner.get? label).getD []).Pairwise fun e e' =>
      ∃ r d r' d', t.all.get? (S.keyOf e) = some r ∧ (e, d) ∈ S.entries r
        ∧ t.all.get? (S.keyOf e') = some r' ∧ (e', d') ∈ S.entries r' ∧ (S.cmp d d').isLE := by
  obtain ⟨vd, hlist, hrep⟩ := h.lists label
  rw [hlist, pairwise_map]
  refine List.Pairwise.imp_of_mem ?_ hrep.sorted
  intro a b ha hb hab
  obtain ⟨r, hget, hentry, -⟩ := (mem_rep hrep).1 ha
  obtain ⟨r', hget', hentry', -⟩ := (mem_rep hrep).1 hb
  exact ⟨r, a.2, r', b.2, hget, hentry, hget', hentry', hab⟩

end SortedIndex

end Lib
