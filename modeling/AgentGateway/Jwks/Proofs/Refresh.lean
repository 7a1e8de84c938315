/-
A key set that is asked for is fetched again and again.

The heap and the map of the schedule go together: every pointer in the
heap is in the map under the key of its entry, every pointer in the map is
in the heap, and an entry knows its place (`Linked`). A swap keeps that, and
what there is under each key (`Sifted`), so sifting does. Who uses the
schedule sees what there is under each key only: `Linked.schedule`,
`Linked.remove` and `Linked.popDue` say that.

For each request there is an entry of its generation, in the schedule or
in the round of the loop (`Covered`). An update puts its own entry into
the schedule, in place of an older one; a round takes entries out, and for
each that is still current puts the next one in.

# Where it breaks

A fetch that fails schedules its retry with the generation it was looked up
with, over whatever the schedule has. If an update came in the meantime,
its entry is overwritten by one of the old generation, which the loop will
skip. `Timely` excludes that.
-/
import AgentGateway.Jwks.Fetcher
import Mathlib.Logic.Equiv.Basic

namespace AgentGateway.Jwks.FetchSchedule

open Lib List Arena Option

variable {s s' : FetchSchedule} {i j : Nat} {r : Ref} {key : FetchKey}

/-- A bijection between the heap and the map, by way of the entries. -/
structure Linked (s : FetchSchedule) : Prop where
  listed : ∀ i r, s.heap[i]? = some r → ∃ slot, s.slots.read? r = some slot
    ∧ slot.index = some i ∧ s.scheduled.get? slot.requestKey = some r
  found : ∀ key r, s.scheduled.get? key = some r → ∃ slot, ∃ i : Nat,
    s.slots.read? r = some slot ∧ slot.requestKey = key ∧ s.heap[i]? = some r

/-- What is scheduled for a key. -/
def entryOf (s : FetchSchedule) (key : FetchKey) : Option FetchAt :=
  (s.scheduled.get? key).bind fun r => (s.slots.read? r).map (·.toFetchAt)

theorem linked_new : new.Linked where
  listed := nofun
  found := nofun

theorem Linked.inj (h : s.Linked) (hi : s.heap[i]? = some r)
    (hj : s.heap[j]? = some r) : i = j := by
  obtain ⟨slot, hslot, hindex, -⟩ := h.listed i r hi
  obtain ⟨slot', hslot', hindex', -⟩ := h.listed j r hj
  cases hslot.symm.trans hslot'
  exact some.inj (hindex.symm.trans hindex')

theorem Linked.index (h : s.Linked) (hkey : s.scheduled.get? key = some r) :
    ∃ slot, ∃ i : Nat, s.slots.read? r = some slot ∧ slot.requestKey = key
      ∧ slot.index = some i ∧ s.heap[i]? = some r := by
  obtain ⟨slot, i, hslot, hkey', hi⟩ := h.found key r hkey
  obtain ⟨slot', hslot', hindex, -⟩ := h.listed i r hi
  cases hslot.symm.trans hslot'
  exact ⟨slot, i, hslot, hkey', hindex, hi⟩

variable {e : FetchAt} {s'' : FetchSchedule} {n : Nat} {slot : Slot} {r' : Ref}

theorem Linked.ref_ne (h : s.Linked) (hslot : s.slots.read? r = some slot)
    (hne : key ≠ slot.requestKey) (hget : s.scheduled.get? key = some r') : r' ≠ r := by
  rintro rfl
  obtain ⟨slot', _, hslot', hkey, -⟩ := h.found key r' hget
  cases hslot.symm.trans hslot'
  exact hne hkey.symm

theorem entryOf_congr (hmap : s'.scheduled.get? key = s.scheduled.get? key)
    (hslots : ∀ r, s.scheduled.get? key = some r →
      (s'.slots.read? r).map Slot.toFetchAt = (s.slots.read? r).map Slot.toFetchAt) :
    s'.entryOf key = s.entryOf key := by
  rw [entryOf, entryOf, hmap]
  cases hget : s.scheduled.get? key with
  | none => rfl
  | some r => exact hslots r hget

theorem Linked.requestKey (h : s.Linked) (he : s.entryOf key = some e) : e.requestKey = key := by
  obtain ⟨r, hr, hread⟩ := bind_eq_some_iff.1 he
  obtain ⟨slot, hslot, rfl⟩ := map_eq_some_iff.1 hread
  obtain ⟨slot', _, hslot', hkey, -⟩ := h.found key r hr
  cases hslot.symm.trans hslot'
  exact hkey

-- ======== swaps

/-- Entries are as they were, but for their places. -/
structure SameEntries (s s' : FetchSchedule) : Prop where
  scheduled : s'.scheduled = s.scheduled
  slots : ∀ r, (s'.slots.read? r).map Slot.toFetchAt = (s.slots.read? r).map Slot.toFetchAt

theorem SameEntries.rfl : SameEntries s s := ⟨Eq.refl _, fun _ => Eq.refl _⟩

theorem SameEntries.trans (h : SameEntries s s') (h' : SameEntries s' s'') : SameEntries s s'' :=
  ⟨h'.scheduled.trans h.scheduled, fun r => (h'.slots r).trans (h.slots r)⟩

theorem SameEntries.entryOf (h : SameEntries s s') (key : FetchKey) :
    s'.entryOf key = s.entryOf key :=
  entryOf_congr (congrArg (·.get? key) h.scheduled) fun r _ => h.slots r

theorem sameEntries_index (s : FetchSchedule) (r : Ref) (index : Option Nat) (heap : List Ref) :
    SameEntries s { s with
      slots := s.slots.update r fun slot => { slot with index }
      heap } where
  scheduled := rfl
  slots r' := by
    by_cases hr : r' = r
    · rw [hr, read?_update_self, Option.map_map]
      rfl
    · rw [read?_update_ne _ _ hr]

theorem swap_eq {ri rj : Ref} (hi : s.heap[i]? = some ri) (hj : s.heap[j]? = some rj) :
    s.swap i j = { s with
      slots := (s.slots.update rj fun slot => { slot with index := some i }).update
        ri fun slot => { slot with index := some j }
      heap := (s.heap.set i rj).set j ri } := by
  unfold swap
  rw [hi, hj]

theorem getElem?_swap (hi : i < s.heap.length) (hj : j < s.heap.length) (k : Nat) :
    (s.swap i j).heap[k]? = s.heap[Equiv.swap i j k]? := by
  rw [swap_eq (getElem?_eq_getElem hi) (getElem?_eq_getElem hj)]
  by_cases hkj : k = j
  · simp [hkj, hj, hi]
  · by_cases hki : k = i
    · subst hki
      simp [Ne.symm hkj, hi, hj]
    · simp [Ne.symm hkj, Ne.symm hki, Equiv.swap_apply_of_ne_of_ne hki hkj]

/-- An entry of the heap knows the place it has got. -/
theorem Linked.read?_swap (h : s.Linked) (hi : i < s.heap.length) (hj : j < s.heap.length)
    {k : Nat} (hk : s.heap[k]? = some r) (hslot : s.slots.read? r = some slot) :
    (s.swap i j).slots.read? r = some { slot with index := some (Equiv.swap i j k) } := by
  have hri := getElem?_eq_getElem hi
  have hrj := getElem?_eq_getElem hj
  rw [swap_eq hri hrj]
  by_cases hki : r = s.heap[i]
  · obtain rfl := h.inj hk (hki ▸ hri)
    rw [← hki, read?_update_self, Equiv.swap_apply_left]
    by_cases hkj : r = s.heap[j]
    · rw [← hkj, read?_update_self, hslot]
      rfl
    · rw [read?_update_ne _ _ hkj, hslot]
      rfl
  · rw [read?_update_ne _ _ hki]
    by_cases hkj : r = s.heap[j]
    · obtain rfl := h.inj hk (hkj ▸ hrj)
      rw [← hkj, read?_update_self, hslot, Equiv.swap_apply_right]
      rfl
    · obtain ⟨slot', hslot', hindex, -⟩ := h.listed k r hk
      cases hslot.symm.trans hslot'
      rw [read?_update_ne _ _ hkj, hslot, Equiv.swap_apply_of_ne_of_ne, ← hindex]
      · rintro rfl
        exact hki (some.inj (hk.symm.trans hri))
      · rintro rfl
        exact hkj (some.inj (hk.symm.trans hrj))

theorem Linked.swap (h : s.Linked) (hi : i < s.heap.length)
    (hj : j < s.heap.length) : (s.swap i j).Linked := by
  have hscheduled : (s.swap i j).scheduled = s.scheduled := by
    rw [swap_eq (getElem?_eq_getElem hi) (getElem?_eq_getElem hj)]
  constructor
  · intro k r hk
    rw [getElem?_swap hi hj] at hk
    obtain ⟨slot, hslot, -, hkey⟩ := h.listed _ r hk
    refine ⟨_, h.read?_swap hi hj hk hslot, ?_, hscheduled ▸ hkey⟩
    rw [Equiv.swap_apply_self]
  · intro key r hkey
    obtain ⟨slot, k, hslot, hkey', hk⟩ := h.found key r (hscheduled ▸ hkey)
    refine ⟨_, Equiv.swap i j k, h.read?_swap hi hj hk hslot, hkey', ?_⟩
    rw [getElem?_swap hi hj, Equiv.swap_apply_self]
    exact hk

theorem sameEntries_swap (s : FetchSchedule) (i j : Nat) : SameEntries s (s.swap i j) := by
  unfold swap
  split
  · rename_i ri rj _ _
    exact (sameEntries_index s rj (some i) s.heap).trans (sameEntries_index _ ri (some j) _)
  · exact SameEntries.rfl

theorem length_swap (s : FetchSchedule) (i j : Nat) : (s.swap i j).heap.length = s.heap.length := by
  unfold swap
  split
  · rw [length_set, length_set]
  · rfl

-- ======== sifting

/-- What sifting among the first `n` positions leaves. -/
structure Sifted (n : Nat) (s s' : FetchSchedule) : Prop where
  linked : s'.Linked
  same : SameEntries s s'
  length : s'.heap.length = s.heap.length
  rest : ∀ k, n ≤ k → s'.heap[k]? = s.heap[k]?

theorem Linked.sifted (h : s.Linked) (n : Nat) : Sifted n s s :=
  ⟨h, SameEntries.rfl, rfl, fun _ _ => rfl⟩

theorem sifted_steady (hn : n ≤ s.heap.length) : ops.Steady n (Sifted n s) := by
  intro s' i j hi hj hs
  have hi' : i < s'.heap.length := hs.length ▸ Nat.lt_of_lt_of_le hi hn
  have hj' : j < s'.heap.length := hs.length ▸ Nat.lt_of_lt_of_le hj hn
  refine ⟨hs.linked.swap hi' hj', hs.same.trans (sameEntries_swap s' i j),
    (length_swap s' i j).trans hs.length, fun k hk => ?_⟩
  rw [← hs.rest k hk]
  show (s'.swap i j).heap[k]? = s'.heap[k]?
  rw [getElem?_swap hi' hj', Equiv.swap_apply_of_ne_of_ne (by omega) (by omega)]

/-- An entry is at the end of the heap, and nothing else has changed. -/
structure AtEnd (r : Ref) (s s' : FetchSchedule) : Prop where
  linked : s'.Linked
  same : SameEntries s s'
  last : s'.heap.getLast? = some r

theorem getLast?_swap (hi : s.heap[i]? = some r) :
    (s.swap i (s.heap.length - 1)).heap[s.heap.length - 1]? = some r := by
  have hlt := (List.getElem?_eq_some_iff.1 hi).1
  have hlast : s.heap.length - 1 < s.heap.length := by omega
  rw [getElem?_swap hlt hlast, Equiv.swap_apply_right]
  exact hi

theorem Sifted.atEnd (hn : n = s'.heap.length - 1) (hlast : s.heap[n]? = some r)
    (h : Sifted n s s') : AtEnd r s s' := by
  refine ⟨h.linked, h.same, ?_⟩
  rw [getLast?_eq_getElem?, ← hn, h.rest n (Nat.le_refl n)]
  exact hlast

theorem AtEnd.of_swap (hs : SameEntries s s') (h : AtEnd r s' s'') : AtEnd r s s'' :=
  ⟨h.linked, hs.trans h.same, h.last⟩

theorem Linked.moveLast (h : s.Linked) (hi : s.heap[i]? = some r) :
    AtEnd r s (ops.moveLast s i) := by
  have hlt := (List.getElem?_eq_some_iff.1 hi).1
  unfold HeapOps.moveLast
  dsimp only
  split
  · rename_i hlast
    refine ⟨h, SameEntries.rfl, ?_⟩
    rw [getLast?_eq_getElem?]
    exact hlast ▸ hi
  · rename_i hlast
    have hlast : s.heap.length - 1 ≠ i := hlast
    have hswap := h.swap hlt (show s.heap.length - 1 < s.heap.length by omega)
    have hlen := length_swap s i (s.heap.length - 1)
    refine AtEnd.of_swap (sameEntries_swap s i (s.heap.length - 1)) ?_
    have hsifted := HeapOps.settle_steady
      (sifted_steady (s := s.swap i (s.heap.length - 1)) (n := s.heap.length - 1) (by omega))
      (show i < s.heap.length - 1 by omega) (hswap.sifted _)
    exact hsifted.atEnd (congrArg (· - 1) (hsifted.length.trans hlen)).symm (getLast?_swap hi)

theorem Linked.moveFirstLast (h : s.Linked) (hi : s.heap[0]? = some r) :
    AtEnd r s (ops.moveFirstLast s) := by
  have hlt := (List.getElem?_eq_some_iff.1 hi).1
  have hswap := h.swap hlt (show s.heap.length - 1 < s.heap.length by omega)
  have hlen := length_swap s 0 (s.heap.length - 1)
  refine AtEnd.of_swap (sameEntries_swap s 0 (s.heap.length - 1)) ?_
  have hsifted := HeapOps.moveFirstLast_steady (o := ops) (h := s)
    (sifted_steady (s := s.swap 0 (s.heap.length - 1)) (n := s.heap.length - 1) (by omega))
    (hswap.sifted _)
  exact hsifted.atEnd (congrArg (· - 1) (hsifted.length.trans hlen)).symm (getLast?_swap hi)

-- ======== popping

theorem popLast_eq (hlast : s.heap.getLast? = some r) (hslot : s.slots.read? r = some slot) :
    s.popLast = some (slot.toFetchAt, { s with
      slots := s.slots.update r fun slot => { slot with index := none }
      heap := s.heap.dropLast }) := by
  unfold popLast
  rw [hlast]
  simp only [hslot, map_some]

/-- A key is not scheduled any more, and nothing else has changed. -/
structure Dropped (key : FetchKey) (s s' : FetchSchedule) : Prop where
  linked : s'.Linked
  entries : ∀ k, s'.entryOf k = if k = key then none else s.entryOf k

theorem Linked.dropLast (h : s.Linked) (hlast : s.heap.getLast? = some r)
    (hslot : s.slots.read? r = some slot) : Dropped slot.requestKey s
      { slots := s.slots.update r fun slot => { slot with index := none }
        heap := s.heap.dropLast
        scheduled := s.scheduled.erase slot.requestKey } := by
  rw [getLast?_eq_getElem?] at hlast
  obtain ⟨slot', hslot', -, hkey⟩ := h.listed _ r hlast
  cases hslot.symm.trans hslot'
  -- the entry that goes is the only one of its key, and at the end only
  constructor
  · constructor
    · intro i r' hi
      rw [getElem?_dropLast] at hi
      split at hi
      · rename_i hlt
        have hne' : r' ≠ r := by
          rintro rfl
          exact Nat.ne_of_lt hlt (h.inj hi hlast)
        obtain ⟨slot', hread, hindex, hkey'⟩ := h.listed i r' hi
        refine ⟨slot', ?_, hindex, ?_⟩
        · rw [read?_update_ne _ _ hne']
          exact hread
        · rw [AssocMap.get?_erase_ne _ fun heq => ?_]
          · exact hkey'
          · rw [heq, hkey] at hkey'
            exact hne' (some.inj hkey').symm
      · cases hi
    · intro key r' hr'
      obtain ⟨hk, hr'⟩ := AssocMap.get?_erase_eq_some.1 hr'
      have hne' := h.ref_ne hslot hk hr'
      obtain ⟨slot', i, hread, hkey', hi⟩ := h.found key r' hr'
      refine ⟨slot', i, ?_, hkey', ?_⟩
      · rw [read?_update_ne _ _ hne']
        exact hread
      · have hlt := (List.getElem?_eq_some_iff.1 hi).1
        have hend : i ≠ s.heap.length - 1 := by
          rintro rfl
          exact hne' (some.inj (hi.symm.trans hlast))
        rw [getElem?_dropLast, if_pos (by omega)]
        exact hi
  · intro k
    by_cases hk : k = slot.requestKey
    · rw [if_pos hk, hk, entryOf, AssocMap.get?_erase, if_pos rfl]
      rfl
    · rw [if_neg hk]
      refine entryOf_congr (AssocMap.get?_erase_ne _ hk) fun r' hget => ?_
      rw [read?_update_ne _ _ (h.ref_ne hslot hk hget)]

theorem AtEnd.popLast (h : AtEnd r s s') (hslot : s.slots.read? r = some slot) :
    ∃ s'', s'.popLast = some (slot.toFetchAt, s'') ∧ Dropped slot.requestKey s
        { s'' with scheduled := s''.scheduled.erase slot.requestKey } := by
  have hsame := h.same.slots r
  rw [hslot, map_some, map_eq_some_iff] at hsame
  obtain ⟨slot', hslot', hentry⟩ := hsame
  have hdropped := h.linked.dropLast h.last hslot'
  rw [show slot'.requestKey = slot.requestKey from
    congrArg FetchAt.requestKey hentry] at hdropped
  refine ⟨_, hentry ▸ popLast_eq h.last hslot', hdropped.linked, fun k => ?_⟩
  rw [← h.same.entryOf k]
  exact hdropped.entries k

theorem Linked.popFirst (h : s.Linked) (hpeek : s.peek = some e) :
    ∃ s', s.popFirst = some (e, s') ∧ s.entryOf e.requestKey = some e
      ∧ Dropped e.requestKey s s' := by
  obtain ⟨slot, hslot, rfl⟩ := map_eq_some_iff.1 hpeek
  obtain ⟨r, hhead, hread⟩ := bind_eq_some_iff.1 hslot
  rw [head?_eq_getElem?] at hhead
  obtain ⟨slot', hslot', -, hkey⟩ := h.listed 0 r hhead
  cases hread.symm.trans hslot'
  obtain ⟨s', hpop, hdropped⟩ := (h.moveFirstLast hhead).popLast hread
  refine ⟨_, ?_, ?_, hdropped⟩
  · rw [FetchSchedule.popFirst, hpop]
    rfl
  · rw [entryOf, hkey]
    exact congrArg (Option.map Slot.toFetchAt) hread

/-- What is scheduled is scheduled still, or it is among what has been
popped. -/
structure Popped (due : List FetchAt) (s s' : FetchSchedule) : Prop where
  linked : s'.Linked
  entries : ∀ k e, s.entryOf k = some e → s'.entryOf k = some e ∨ e ∈ due

theorem Linked.popDueLoop (now : Nat) : ∀ (rounds : Nat) {s : FetchSchedule},
    s.Linked → Popped (s.popDueLoop now rounds).1 s (s.popDueLoop now rounds).2
  | 0, _, h => ⟨h, fun _ _ => .inl⟩
  | rounds + 1, s, h => by
    unfold FetchSchedule.popDueLoop
    split
    · exact ⟨h, fun _ _ => .inl⟩
    · rename_i next hpeek
      obtain ⟨s', hpop, hentry, hdropped⟩ := h.popFirst hpeek
      split
      · exact ⟨h, fun _ _ => .inl⟩
      · rw [hpop]
        have hrest := hdropped.linked.popDueLoop now rounds
        refine ⟨hrest.linked, fun k e he => ?_⟩
        by_cases hk : k = next.requestKey
        · cases he.symm.trans (hk ▸ hentry)
          exact .inr (mem_cons_self ..)
        · have he' := hdropped.entries k
          rw [if_neg hk, he] at he'
          exact (hrest.entries k e he').imp_right (mem_cons_of_mem _)

theorem Linked.popDueLoop_entries (now : Nat) : ∀ (rounds : Nat) {s : FetchSchedule}, s.Linked →
    ∀ k e, (s.popDueLoop now rounds).2.entryOf k = some e → s.entryOf k = some e
  | 0, _, _ => fun _ _ => id
  | rounds + 1, s, h => by
    unfold FetchSchedule.popDueLoop
    split
    · exact fun _ _ => id
    · next next hpeek =>
      obtain ⟨s', hpop, -, hdropped⟩ := h.popFirst hpeek
      have hrest := hdropped.linked.popDueLoop_entries now rounds
      grind [hdropped.entries]

theorem Linked.popDue (h : s.Linked) (now : Nat) : Popped (s.popDue now).1 s (s.popDue now).2 :=
  h.popDueLoop now _

theorem Linked.remove (h : s.Linked) (key : FetchKey) : Dropped key s (s.remove key) := by
  unfold FetchSchedule.remove
  cases hget : s.scheduled.get? key with
  | none =>
    refine ⟨h, fun k => ?_⟩
    by_cases hk : k = key
    · rw [if_pos hk, hk]
      rw [entryOf, hget]
      rfl
    · rw [if_neg hk]
  | some r =>
    obtain ⟨slot, i, hslot, rfl, hindex, hi⟩ := h.index hget
    obtain ⟨s', hpop, hdropped⟩ := (h.moveLast hi).popLast hslot
    dsimp only
    rw [hslot, bind_some, hindex]
    dsimp only
    rw [hpop]
    exact hdropped

-- ======== scheduling

/-- A key is scheduled with `e`, and nothing else has changed. -/
structure Scheduled (key : FetchKey) (e : FetchAt) (s s' : FetchSchedule) : Prop where
  linked : s'.Linked
  entries : ∀ k, s'.entryOf k = if k = key then some e else s.entryOf k

theorem Scheduled.sifted (h : Scheduled key e s s') (hs : Sifted n s' s'') :
    Scheduled key e s s'' :=
  ⟨hs.linked, fun k => (hs.same.entryOf k).trans (h.entries k)⟩

theorem Linked.rewrite (h : s.Linked) (hkey : s.scheduled.get? key = some r)
    (at_ generation retryAttempt : Nat) :
    Scheduled key ⟨at_, key, generation, retryAttempt⟩ s { s with
        slots := s.slots.update r fun slot =>
          { slot with at_, generation, retryAttempt } } := by
  obtain ⟨slot, i, hslot, rfl, hindex, hi⟩ := h.index hkey
  have hread := read?_update_self s.slots r fun slot =>
    { slot with at_, generation, retryAttempt }
  rw [hslot] at hread
  constructor
  · constructor
    · intro i' r' hi'
      by_cases hr : r' = r
      · subst hr
        exact ⟨_, hread, h.inj hi hi' ▸ hindex, hkey⟩
      · rw [read?_update_ne _ _ hr]
        exact h.listed i' r' hi'
    · intro key r' hkey'
      by_cases hr : r' = r
      · subst hr
        obtain ⟨slot', i', hslot', hkey'', hi'⟩ := h.found key r' hkey'
        cases hslot.symm.trans hslot'
        exact ⟨_, i', hread, hkey'', hi'⟩
      · rw [read?_update_ne _ _ hr]
        exact h.found key r' hkey'
  · intro k
    by_cases hk : k = slot.requestKey
    · rw [if_pos hk, hk, entryOf, hkey]
      exact congrArg (Option.map Slot.toFetchAt) hread
    · rw [if_neg hk]
      refine entryOf_congr rfl fun r' hget => ?_
      rw [read?_update_ne _ _ (h.ref_ne hslot hk hget)]

def entered (key : FetchKey) (r : Ref) (s : FetchSchedule) : FetchSchedule :=
  { s with scheduled := s.scheduled.insert key r }

/-- The entry comes to the end of the heap, and the key into the map. -/
def pushed (s : FetchSchedule) (e : FetchAt) : FetchSchedule :=
  let (slots, r) := s.slots.alloc ⟨e, some s.heap.length⟩
  entered e.requestKey r { s with
    slots
    heap := s.heap ++ [r] }

theorem Linked.pushed (h : s.Linked) (hnew : s.scheduled.get? e.requestKey = none) :
    Scheduled e.requestKey e s (s.pushed e) := by
  have hold : ∀ r slot, s.slots.read? r = some slot →
      (s.pushed e).slots.read? r = some slot := fun r slot hslot =>
    (read?_alloc_of_valid _ (valid_of_read? hslot)).trans hslot
  have hread : (s.pushed e).slots.read? (s.slots.alloc ⟨e, some s.heap.length⟩).2
      = some ⟨e, some s.heap.length⟩ := read?_alloc_self _ _
  have hget : ∀ k, (s.pushed e).scheduled.get? k
      = if k = e.requestKey then some (s.slots.alloc ⟨e, some s.heap.length⟩).2
        else s.scheduled.get? k := fun k => AssocMap.get?_insert _ _ k _
  constructor
  · constructor
    · intro i r hi
      change (s.heap ++ [_])[i]? = some r at hi
      rcases Nat.lt_trichotomy i s.heap.length with hlt | rfl | hgt
      · rw [getElem?_append_left hlt] at hi
        obtain ⟨slot, hslot, hindex, hkey⟩ := h.listed i r hi
        refine ⟨slot, hold r slot hslot, hindex, ?_⟩
        rw [hget, if_neg fun heq => ?_]
        · exact hkey
        · rw [heq, hnew] at hkey
          cases hkey
      · rw [getElem?_concat_length] at hi
        cases hi
        exact ⟨_, hread, rfl, (hget _).trans (if_pos rfl)⟩
      · rw [getElem?_eq_none (by rw [length_append]; exact hgt)] at hi
        cases hi
    · intro key r hkey
      rw [hget] at hkey
      split at hkey
      · rename_i hk
        cases hkey
        exact ⟨_, s.heap.length, hread, hk.symm, getElem?_concat_length⟩
      · obtain ⟨slot, i, hslot, hkey', hi⟩ := h.found key r hkey
        refine ⟨slot, i, hold r slot hslot, hkey', ?_⟩
        exact (getElem?_append_left (List.getElem?_eq_some_iff.1 hi).1).trans hi
  · intro k
    split
    · next hk =>
      rw [entryOf, hget, if_pos hk]
      exact congrArg (Option.map Slot.toFetchAt) hread
    · next hk =>
      refine entryOf_congr ((hget k).trans (if_neg hk)) fun r hr => ?_
      obtain ⟨slot, _, hslot, -⟩ := h.found k r hr
      rw [hold r slot hslot, hslot]

theorem swap_entered (r : Ref) (s : FetchSchedule) (i j : Nat) :
    swap (entered key r s) i j = entered key r (s.swap i j) := by
  unfold swap entered
  dsimp only
  split <;> rfl

theorem Linked.schedule (h : s.Linked) (key : FetchKey) (generation at_ retryAttempt : Nat) :
    Scheduled key ⟨at_, key, generation, retryAttempt⟩ s
      (s.schedule key generation at_ retryAttempt) := by
  unfold FetchSchedule.schedule
  cases hget : s.scheduled.get? key with
  | some r =>
    obtain ⟨slot, i, hslot, -, hindex, hi⟩ := h.index hget
    have hset := h.rewrite hget at_ generation retryAttempt
    dsimp only
    rw [read?_update_self, hslot, map_some]
    rw [hindex]
    exact hset.sifted (HeapOps.settle_steady (sifted_steady (Nat.le_refl _))
      (List.getElem?_eq_some_iff.1 hi).1 (hset.linked.sifted _))
  | none =>
    have hset := h.pushed (e := ⟨at_, key, generation, retryAttempt⟩) hget
    have hup := hset.sifted (HeapOps.up_steady (sifted_steady (Nat.le_refl _))
      (show s.heap.length < (s.heap ++ [_]).length by simp) (hset.linked.sifted _))
    rw [FetchSchedule.pushed, HeapOps.up_map (o := ops) (f := entered _ _) (fun _ _ _ => rfl)
      (swap_entered _)] at hup
    dsimp only
    rw [length_append]
    exact hup

end AgentGateway.Jwks.FetchSchedule

namespace AgentGateway.Jwks

open Lib

-- ======== invariant

/-- An entry of the round that is not finished with. -/
def Round.Unfinished (round : Round) (key : FetchKey) (generation : Nat) : Prop :=
  ∃ fetch : FetchAt, fetch.requestKey = key ∧ fetch.generation = generation
    ∧ (fetch ∈ round.due ∨ ∃ state, round.fetching = some (fetch, state))

namespace Fetcher

/-- There is an entry of that generation, in the schedule or in the
round. -/
def Covered (f : Fetcher) (key : FetchKey) (generation : Nat) : Prop :=
  (∃ e, f.schedule.entryOf key = some e ∧ e.generation = generation)
    ∨ ∃ round, f.round = some round ∧ round.Unfinished key generation

def Refreshed (f : Fetcher) : Prop :=
  ∀ key state, f.requests.get? key = some state → f.Covered key state.generation

structure Inv (f : Fetcher) : Prop where
  linked : f.schedule.Linked
  refreshed : f.Refreshed

/-- When a fetch fails, its key set is as it was looked up, or nobody asks
for it any more. -/
def Timely (f : Fetcher) (act : Act) : Prop :=
  act = .fetchFailed → ∀ fetching ∈ f.round.bind (·.fetching),
      ∀ state ∈ f.requests.get? fetching.1.requestKey, state.generation = fetching.2.generation

instance (f : Fetcher) (act : Act) : Decidable (f.Timely act) :=
  inferInstanceAs (Decidable (_ → _))

variable {f f' : Fetcher} {key : FetchKey} {generation now : Nat} {act : Act} {state : FetchState}

theorem Covered.congr (h : f.Covered key generation)
    (hentry : f'.schedule.entryOf key = f.schedule.entryOf key)
    (hround : f'.round = f.round) : f'.Covered key generation := by
  unfold Covered
  rw [hentry, hround]
  exact h

-- ======== what the functions do

theorem scheduleAtLocked_eq (hkey : f.requests.get? key = some state) (at_ retryAttempt : Nat) :
    f.scheduleAtLocked key generation at_ retryAttempt = { f with
      schedule := f.schedule.schedule key generation at_ retryAttempt } :=
  if_pos (AssocMap.contains_iff.2 ⟨state, hkey⟩)

theorem scheduleAtLocked_inv (f : Fetcher) (key : FetchKey) (generation at_ retryAttempt : Nat) :
    (f.requests.get? key = none ∧ f.scheduleAtLocked key generation at_ retryAttempt = f)
      ∨ f.scheduleAtLocked key generation at_ retryAttempt = { f with
        schedule := f.schedule.schedule key generation at_ retryAttempt } := by
  cases hkey : f.requests.get? key with
  | none =>
    refine .inl ⟨rfl, if_neg fun hmem => ?_⟩
    obtain ⟨state, hstate⟩ := AssocMap.contains_iff.1 hmem
    cases hkey.symm.trans hstate
  | some state => exact .inr (scheduleAtLocked_eq hkey at_ retryAttempt)

theorem commitFetchResult_inv (f : Fetcher) (key : FetchKey) (generation nextFetchAt : Nat) :
    ((∀ state, f.requests.get? key = some state → state.generation ≠ generation)
        ∧ f.commitFetchResult key generation nextFetchAt = f)
      ∨ (∀ state, f.requests.get? key = some state → state.generation = generation)
        ∧ f.commitFetchResult key generation nextFetchAt = { f with
          schedule := f.schedule.schedule key generation nextFetchAt 0 } := by
  unfold commitFetchResult
  cases hkey : f.requests.get? key with
  | none => exact .inl ⟨nofun, rfl⟩
  | some state =>
    dsimp only
    split
    · rename_i hgen
      refine .inl ⟨?_, rfl⟩
      rintro _ ⟨⟩
      exact hgen
    · rename_i hgen
      refine .inr ⟨?_, scheduleAtLocked_eq hkey _ _⟩
      rintro _ ⟨⟩
      exact Decidable.not_not.1 hgen

theorem addOrUpdateKeyset_inv (f : Fetcher) (source : JwksSource)
    (parses : Bool) (now : Nat) (cached : Option Nat) :
    f.addOrUpdateKeyset source parses now cached = f
      ∨ ∃ generation at_, f.addOrUpdateKeyset source parses now cached = { f with
        requests := f.requests.insert source.requestKey ⟨source, generation⟩
        schedule := f.schedule.schedule source.requestKey generation at_ 0 } := by
  unfold addOrUpdateKeyset
  split
  · exact .inr ⟨_, _, scheduleAtLocked_eq (AssocMap.get?_insert_self ..) _ _⟩
  · exact .inl rfl

theorem popDue_inv (hstep : f.popDue now = some f') : f.round = none ∧ f' = { f with
      schedule := (f.schedule.popDue now).2
      round := if (f.schedule.popDue now).1.isEmpty then none
        else some ⟨now, (f.schedule.popDue now).1, none⟩ } := by
  unfold popDue at hstep
  split at hstep
  · cases hstep
  · exact ⟨‹_›, (Option.some.inj hstep).symm⟩

theorem nextFetch_inv (hstep : f.nextFetch = some f') :
    ∃ now fetch due fetching, f.round = some ⟨now, fetch :: due, none⟩
      ∧ f' = { f with round := some ⟨now, due, fetching⟩ }
      ∧ ∀ state, f.requests.get? fetch.requestKey = some state →
        state.generation = fetch.generation → fetching = some (fetch, state) := by
  unfold nextFetch at hstep
  split at hstep
  · rename_i now fetch due hround
    refine ⟨now, fetch, due, _, hround, (Option.some.inj hstep).symm, ?_⟩
    intro state hget hgen
    rw [lookup, hget]
    exact if_neg (Decidable.not_not.2 hgen)
  · cases hstep

theorem fetchFailed_inv (hstep : f.fetchFailed = some f') :
    ∃ now due fetch state, f.round = some ⟨now, due, some (fetch, state)⟩
      ∧ f' = { f.scheduleAtLocked fetch.requestKey state.generation
          (now + nextRetryDelay fetch.retryAttempt) (fetch.retryAttempt + 1) with
        round := some ⟨now, due, none⟩ } := by
  unfold fetchFailed at hstep
  split at hstep
  · exact ⟨_, _, _, _, ‹_›, (Option.some.inj hstep).symm⟩
  · cases hstep

theorem fetched_inv (hstep : f.fetched = some f') :
    ∃ now due fetch state, f.round = some ⟨now, due, some (fetch, state)⟩
      ∧ f' = { f.commitFetchResult fetch.requestKey fetch.generation
          (now + state.source.ttl) with round := some ⟨now, due, none⟩ } := by
  unfold fetched at hstep
  split at hstep
  · exact ⟨_, _, _, _, ‹_›, (Option.some.inj hstep).symm⟩
  · cases hstep

theorem finish_inv (hstep : f.finish = some f') :
    ∃ now, f.round = some ⟨now, [], none⟩ ∧ f' = { f with round := none } := by
  unfold finish at hstep
  split at hstep
  · exact ⟨_, ‹_›, (Option.some.inj hstep).symm⟩
  · cases hstep

theorem step_linked (h : f.schedule.Linked)
    (hstep : f.step act = some f') : f'.schedule.Linked := by
  cases act with
  | addOrUpdate source parses now cached =>
    cases hstep
    obtain heq | ⟨generation, at_, heq⟩ := f.addOrUpdateKeyset_inv source parses now cached
    · rw [heq]
      exact h
    · rw [heq]
      exact (h.schedule ..).linked
  | remove key | retire key =>
    cases hstep
    show (f.dropRequest key).schedule.Linked
    unfold dropRequest
    split
    · exact (h.remove key).linked
    · exact h
  | popDue now =>
    obtain ⟨-, rfl⟩ := popDue_inv hstep
    exact (h.popDue now).linked
  | nextFetch =>
    obtain ⟨_, _, _, _, -, rfl, -⟩ := nextFetch_inv hstep
    exact h
  | fetchFailed =>
    obtain ⟨_, _, _, _, -, rfl⟩ := fetchFailed_inv hstep
    obtain ⟨-, heq⟩ | heq := f.scheduleAtLocked_inv _ _ _ _
    · rw [heq]
      exact h
    · rw [heq]
      exact (h.schedule ..).linked
  | fetched =>
    obtain ⟨_, _, _, _, -, rfl⟩ := fetched_inv hstep
    obtain ⟨-, heq⟩ | ⟨-, heq⟩ := f.commitFetchResult_inv _ _ _
    · rw [heq]
      exact h
    · rw [heq]
      exact (h.schedule ..).linked
  | finish =>
    obtain ⟨_, -, rfl⟩ := finish_inv hstep
    exact h

-- ======== coverage

section

variable (h : f.Refreshed)
include h

theorem Refreshed.addOrUpdateKeyset (hl : f.schedule.Linked)
    (source : JwksSource) (parses : Bool) (now : Nat) (cached : Option Nat) :
    (f.addOrUpdateKeyset source parses now cached).Refreshed := by
  obtain heq | ⟨generation, at_, heq⟩ := f.addOrUpdateKeyset_inv source parses now cached
  · rw [heq]
    exact h
  · rw [heq]
    intro key state hget
    have hentry := (hl.schedule source.requestKey generation at_ 0).entries key
    rw [AssocMap.get?_insert] at hget
    split at hget
    · rename_i hkey
      cases hget
      exact .inl ⟨_, hentry.trans (if_pos hkey), rfl⟩
    · rename_i hkey
      exact (h key state hget).congr (hentry.trans (if_neg hkey)) rfl

theorem Refreshed.dropRequest (hl : f.schedule.Linked)
    (key : FetchKey) : (f.dropRequest key).Refreshed := by
  unfold Fetcher.dropRequest
  split
  · intro k state hget
    obtain ⟨hk, hget⟩ := AssocMap.get?_erase_eq_some.1 hget
    exact (h k state hget).congr (((hl.remove key).entries k).trans (if_neg hk)) rfl
  · exact h

theorem Refreshed.popDue (hl : f.schedule.Linked)
    (hstep : f.popDue now = some f') : f'.Refreshed := by
  obtain ⟨hround, rfl⟩ := popDue_inv hstep
  intro key state hget
  obtain ⟨e, he, hgen⟩ | ⟨round, hround', -⟩ := h key state hget
  · obtain hstays | hdue := (hl.popDue now).entries key e he
    · exact .inl ⟨e, hstays, hgen⟩
    · refine .inr ⟨_, if_neg fun hempty => ?_, e, hl.requestKey he, hgen, .inl hdue⟩
      rw [List.isEmpty_iff.1 hempty] at hdue
      cases hdue
  · cases hround.symm.trans hround'

theorem Refreshed.nextFetch (hstep : f.nextFetch = some f') : f'.Refreshed := by
  obtain ⟨now, fetch, due, fetching, hround, rfl, hlooked⟩ := nextFetch_inv hstep
  intro key state hget
  obtain hentry | ⟨round, hround', fetch', hkey, hgen, hin⟩ := h key state hget
  · exact .inl hentry
  · cases hround.symm.trans hround'
    refine .inr ⟨_, rfl, fetch', hkey, hgen, ?_⟩
    obtain hdue | ⟨_, hnone⟩ := hin
    · obtain rfl | hdue := List.mem_cons.1 hdue
      · exact .inr ⟨state, hlooked state (hkey ▸ hget) hgen.symm⟩
      · exact .inl hdue
    · cases hnone

section settling

variable {due : List FetchAt} {fetch : FetchAt}

theorem Refreshed.settle (hround : f.round = some ⟨now, due, some (fetch, state)⟩)
    {schedule : FetchSchedule}
    (hentry : ∀ k, k ≠ fetch.requestKey → schedule.entryOf k = f.schedule.entryOf k)
    (hcovered : ∀ state, f.requests.get? fetch.requestKey = some state →
      Covered { f with schedule, round := some ⟨now, due, none⟩ }
        fetch.requestKey state.generation) :
    Refreshed { f with schedule, round := some ⟨now, due, none⟩ } := by
  intro key state' hget
  by_cases hkey : key = fetch.requestKey
  · subst hkey
    exact hcovered state' hget
  · obtain ⟨e, he, hgen⟩ | ⟨round, heq, fetch', hkey', hgen, hin⟩ :=
      h key state' hget
    · exact .inl ⟨e, (hentry key hkey).trans he, hgen⟩
    · cases hround.symm.trans heq
      refine .inr ⟨_, rfl, fetch', hkey', hgen, ?_⟩
      obtain hdue | ⟨_, hfetch⟩ := hin
      · exact .inl hdue
      · cases hfetch
        exact absurd hkey'.symm hkey

/-- Nothing is scheduled for it, and it is not of the generation of the
request any more. -/
theorem Refreshed.discard (hround : f.round = some ⟨now, due, some (fetch, state)⟩)
    (hgone : ∀ state, f.requests.get? fetch.requestKey = some state →
      state.generation ≠ fetch.generation) :
    Refreshed { f with round := some ⟨now, due, none⟩ } := by
  refine h.settle hround (fun _ _ => rfl) fun state' hget => ?_
  obtain hentry | ⟨round, heq, fetch', hkey, hgen, hin⟩ := h _ state' hget
  · exact .inl hentry
  · cases hround.symm.trans heq
    refine .inr ⟨_, rfl, fetch', hkey, hgen, ?_⟩
    obtain hdue | ⟨_, hfetch⟩ := hin
    · exact .inl hdue
    · cases hfetch
      exact absurd hgen.symm (hgone state' hget)

theorem Refreshed.reschedule (hl : f.schedule.Linked)
    (hround : f.round = some ⟨now, due, some (fetch, state)⟩)
    (hgen : ∀ state, f.requests.get? fetch.requestKey = some state →
      state.generation = generation) (at_ retryAttempt : Nat) : Refreshed { f with
      schedule := f.schedule.schedule fetch.requestKey generation at_ retryAttempt
      round := some ⟨now, due, none⟩ } := by
  have hentries := (hl.schedule fetch.requestKey generation at_ retryAttempt).entries
  refine h.settle hround (fun k hk => (hentries k).trans (if_neg hk)) ?_
  intro state' hget
  exact .inl ⟨_, (hentries _).trans (if_pos rfl), (hgen state' hget).symm⟩

theorem Refreshed.fetchFailed (hl : f.schedule.Linked)
    (hok : f.Timely .fetchFailed) (hstep : f.fetchFailed = some f') : f'.Refreshed := by
  obtain ⟨now, due, fetch, state, hround, rfl⟩ := fetchFailed_inv hstep
  have hgen := hok rfl (fetch, state) (by rw [hround]; rfl)
  obtain ⟨hnone, heq⟩ | heq := f.scheduleAtLocked_inv _ _ _ _
  · rw [heq]
    refine h.discard hround fun state' hget => ?_
    cases hnone.symm.trans hget
  · rw [heq]
    exact h.reschedule hl hround hgen _ _

theorem Refreshed.fetched (hl : f.schedule.Linked)
    (hstep : f.fetched = some f') : f'.Refreshed := by
  obtain ⟨now, due, fetch, state, hround, rfl⟩ := fetched_inv hstep
  obtain ⟨hgone, heq⟩ | ⟨hgen, heq⟩ := f.commitFetchResult_inv _ _ _
  · rw [heq]
    exact h.discard hround hgone
  · rw [heq]
    exact h.reschedule hl hround hgen _ _

end settling

theorem Refreshed.finish (hstep : f.finish = some f') : f'.Refreshed := by
  obtain ⟨now, hround, rfl⟩ := finish_inv hstep
  intro key state hget
  obtain hentry | ⟨round, heq, fetch, -, -, hin⟩ := h key state hget
  · exact .inl hentry
  · cases hround.symm.trans heq
    obtain hdue | ⟨_, hfetch⟩ := hin
    · cases hdue
    · cases hfetch

theorem step_refreshed (hl : f.schedule.Linked)
    (hok : f.Timely act) (hstep : f.step act = some f') : f'.Refreshed := by
  cases act with
  | addOrUpdate source parses now cached =>
    cases hstep
    exact h.addOrUpdateKeyset hl source parses now cached
  | remove key | retire key =>
    cases hstep
    exact h.dropRequest hl key
  | popDue now => exact h.popDue hl hstep
  | nextFetch => exact h.nextFetch hstep
  | fetchFailed => exact h.fetchFailed hl hok hstep
  | fetched => exact h.fetched hl hstep
  | finish => exact h.finish hstep

end

theorem inv_step (h : f.Inv) (hok : f.Timely act) (hstep : f.step act = some f') : f'.Inv :=
  ⟨step_linked h.linked hstep, step_refreshed h.refreshed h.linked hok hstep⟩

-- ======== runs

/-- The heap and the map are in bijection all along. And if no key set is
updated while a fetch for it is in flight that fails, there is always an
entry of the current generation for it, scheduled or not finished with. -/
theorem keysets_stay_scheduled {acts : List Act} (hrun : acts.foldlM step new = some f) :
    f.schedule.Linked ∧ (StepsOk step Timely new acts →
      ∀ key state, f.requests.get? key = some state → f.Covered key state.generation) := by
  refine ⟨inv_of_run step_linked acts FetchSchedule.linked_new hrun, fun hok => ?_⟩
  have hnew : new.Inv := ⟨FetchSchedule.linked_new, nofun⟩
  exact (inv_of_stepsOk inv_step acts hnew hok hrun).refreshed

/-- A fetch fails and is retried, with two key sets asked for. -/
theorem keysets_stay_scheduled_sample : ∃ f, [.addOrUpdate ⟨"k", 60000⟩ true 0 none,
        .addOrUpdate ⟨"l", 60000⟩ true 0 none, .popDue 0, .nextFetch,
        .fetchFailed, .nextFetch, .fetched, .finish].foldlM step new = some f
      ∧ f.schedule.Linked ∧ f.requests.get? "k" = some ⟨⟨"k", 60000⟩, 1⟩ ∧ f.Covered "k" 1 := by
  have hrun : ([.addOrUpdate ⟨"k", 60000⟩ true 0 none,
      .addOrUpdate ⟨"l", 60000⟩ true 0 none, .popDue 0, .nextFetch,
      .fetchFailed, .nextFetch, .fetched, .finish].foldlM step new).map
        (fun f => f.requests.get? "k") = some (some ⟨⟨"k", 60000⟩, 1⟩) := by
    decide +kernel
  obtain ⟨f, hf, hget⟩ := Option.map_eq_some_iff.1 hrun
  obtain ⟨hlinked, hcovered⟩ := keysets_stay_scheduled hf
  exact ⟨f, hf, hlinked, hget, hcovered (by decide +kernel) _ _ hget⟩

/-- A key set is updated while a fetch for it is in flight, and the fetch
fails. What it schedules in place of the update is skipped, and the key set
is not fetched any more. -/
theorem updated_keyset_forgotten : ∃ (acts : List Act) (f : Fetcher) (state : FetchState),
      acts.foldlM step new = some f
      ∧ f.requests.get? "k" = some state ∧ ¬ f.Covered "k" state.generation := by
  have hrun : ([.addOrUpdate ⟨"k", 60000⟩ true 0 none, .popDue 0, .nextFetch,
      .addOrUpdate ⟨"k", 30000⟩ true 5 none, .fetchFailed, .finish,
      .popDue 200, .nextFetch, .finish].foldlM step new).map
        (fun f => (f.requests.get? "k", f.schedule.entryOf "k", f.round))
      = some (some ⟨⟨"k", 30000⟩, 2⟩, none, none) := by
    decide +kernel
  obtain ⟨f, hf, heq⟩ := Option.map_eq_some_iff.1 hrun
  obtain ⟨hget, hentry, hround⟩ : _ ∧ _ ∧ _ := by simpa using heq
  refine ⟨_, f, _, hf, hget, ?_⟩
  rintro (⟨e, he, -⟩ | ⟨round, hsome, -⟩)
  · cases hentry.symm.trans he
  · cases hround.symm.trans hsome

-- ======== what nobody asks for

/-- What is scheduled is asked for. -/
structure Wanted (f : Fetcher) : Prop where
  linked : f.schedule.Linked
  asked : ∀ key e, f.schedule.entryOf key = some e → f.requests.contains key

theorem wanted_step (h : f.Wanted) (hstep : f.step act = some f') : f'.Wanted := by
  refine ⟨step_linked h.linked hstep, ?_⟩
  -- the schedule is known by its entries
  have hschedule := fun key generation at_ n => (h.linked.schedule key generation at_ n).entries
  have hremove := fun key => (h.linked.remove key).entries
  have hpop := fun now => h.linked.popDueLoop_entries now f.schedule.heap.length
  cases act <;> simp only [step, addOrUpdateKeyset, removeKeyset, retireKeyset, dropRequest,
    popDue, FetchSchedule.popDue, nextFetch, fetchFailed, fetched, finish, commitFetchResult,
    scheduleAtLocked] at hstep <;>
    grind [Wanted, AssocMap.contains_insert, AssocMap.contains_erase]

/-- However requests come and go while fetches are in flight and fail: what
nobody asks for any more is not scheduled. -/
theorem scheduled_asked_for {acts : List Act} (hrun : acts.foldlM step new = some f)
    {key : FetchKey} {e : FetchAt} (he : f.schedule.entryOf key = some e) :
    f.requests.contains key := by
  have hnew : new.Wanted := ⟨FetchSchedule.linked_new, nofun⟩
  exact (inv_of_run wanted_step acts hnew hrun).asked key e he

/-- A key set is removed while a fetch for it is in flight, which fails. -/
def removedInFlight : List Act :=
  [.addOrUpdate ⟨"k", 60000⟩ true 0 none, .popDue 0, .nextFetch, .remove "k",
    .addOrUpdate ⟨"l", 60000⟩ true 0 none, .fetchFailed]

theorem scheduled_asked_for_sample : ∃ f, removedInFlight.foldlM step new = some f
    ∧ f.schedule.entryOf "k" = none ∧ f.requests.contains "l" := by
  have hrun : (removedInFlight.foldlM step new).map
      (fun f => (f.schedule.entryOf "k", f.schedule.entryOf "l"))
      = some (none, some ⟨0, "l", 1, 0⟩) := by
    decide +kernel
  obtain ⟨f, hf, heq⟩ := Option.map_eq_some_iff.1 hrun
  obtain ⟨hk, hl⟩ := Prod.mk.inj heq
  exact ⟨f, hf, hk, scheduled_asked_for hf hl⟩

end Fetcher

end AgentGateway.Jwks
