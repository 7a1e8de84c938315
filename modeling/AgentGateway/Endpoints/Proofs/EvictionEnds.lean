/-
No endpoint is evicted for ever.

Three places tell of an eviction: the deadline in the endpoint's info,
the rejected pool, and the worker's heap. `EvictionInv` ties them: a
rejected endpoint is on the heap, and one with a deadline has its event
in the channel or is rejected. So once the deadlines have passed and the
worker has nothing left to do, every endpoint is active again; and the
worker does come to that point, since each of its turns takes an event
off the channel or an entry off the heap (`backlog`).

The invariant needs a key to be in one bucket only. A key inserted into
a second bucket hides the first from the worker, which looks at one
bucket, and an eviction there is never taken back
(`second_bucket_hides_eviction`).
-/
import AgentGateway.Endpoints.Proofs.EarlyReturn
import Mathlib.Data.List.MinMax

namespace AgentGateway.Endpoints

open Lib EndpointSet List

variable {T : Type}

namespace EvictionState

-- ======== keys in one place

/-- An endpoint is inserted where no other bucket has its key. -/
def UniqueInsert (s : EvictionState T) : Action T → Prop
  | .insert key _ _ bucket => ∀ b p e, s.set.At b p key e → b = bucket
  | _ => True

/-- Besides, a key sits in one place. -/
structure OwnedOnce (s : EvictionState T) : Prop extends Owned s where
  distinct : s.set.Distinct

variable {s s' : EvictionState T} {a : Action T} {i : Nat}

/-- A received event puts its endpoint, if there is one, among the
rejected, and on the heap. -/
theorem recv_cases (h : OwnedOnce s) (hs : s.step (.recv i) = some s') :
    ∃ item, s.channel[i]? = some item
      ∧ ((¬ s.set.Has item.key ∧ s' = { s with channel := s.channel.eraseIdx i })
        ∨ ∃ set, MovedTo s.set set item.key .rejected ∧ s' = { s with
            set := set
            channel := s.channel.eraseIdx i
            unevictionHeap := s.unevictionHeap ++ [⟨item.till, item.key⟩] }) := by
  obtain ⟨item, hitem, hs⟩ := Option.bind_eq_some_iff.1 hs
  cases hs
  refine ⟨item, hitem, ?_⟩
  unfold handleRecvEvict
  cases hf : s.set.findBucketAtomic item.key with
  | none => exact .inl ⟨findBucketAtomic_eq_none.1 hf, rfl⟩
  | some b =>
    exact .inr ⟨_, movedTo_modifyBucket h.distinct hf (moves_evict _ _).pool, rfl⟩

/-- A popped entry puts its endpoint, if there is one, among the active,
and clears its deadline if it was rejected. -/
theorem pop_cases (h : OwnedOnce s) (hs : s.step .pop = some s') : ∃ entry ∈ s.unevictionHeap,
      (¬ s.set.Has entry.key ∧ s' = { s with unevictionHeap := s.unevictionHeap.erase entry })
      ∨ ∃ set infos, MovedTo s.set set entry.key .active
        ∧ (∀ {b p k e}, s.set.At b p k e → deadline infos e.info
          = if k = entry.key ∧ p = .rejected then none else s.evictedUntil e.info)
        ∧ s' = { s with
            set := set
            infos := infos
            unevictionHeap := s.unevictionHeap.erase entry } := by
  obtain ⟨entry, hentry, -, rfl⟩ := pop_eq_some hs
  refine ⟨entry, heapPeek_mem hentry, ?_⟩
  unfold handleEviction
  cases hf : s.set.findBucketAtomic entry.key with
  | none => exact .inl ⟨findBucketAtomic_eq_none.1 hf, rfl⟩
  | some b =>
    refine .inr ⟨_, _, movedTo_modifyBucket h.distinct hf (moves_unevict _ _).pool,
      fun {b' p k e} hat => ?_, rfl⟩
    split
    · next ep hep =>
      obtain ⟨g, hg, hrej⟩ := Option.bind_eq_some_iff.1 hep
      have hatep : s.set.At b .rejected entry.key ep := ⟨g, hg, hrej⟩
      rw [deadline_update (h.valid hatep)]
      by_cases hk : k = entry.key
      · subst hk
        obtain ⟨-, hp, he⟩ := at_unique h.distinct hat hatep
        rw [if_pos (congrArg _ he), if_pos ⟨rfl, hp⟩]
      · rw [if_neg fun hinfo => hk (h.owner hat hatep hinfo), if_neg fun hc => hk hc.1]
        rfl
    · next hno =>
      rw [if_neg fun hc => ?_]
      · rfl
      obtain ⟨rfl, rfl⟩ := hc
      have hb := findBucketAtomic_of_at h.distinct hat
      rw [hf] at hb
      cases hb
      obtain ⟨g, hg, he⟩ := hat
      rw [hg] at hno
      exact absurd (hno.symm.trans he) nofun

theorem distinct_step (h : OwnedOnce s) (hok : UniqueInsert s a) (hs : s.step a = some s') :
    s'.set.Distinct := by
  cases a with
  | insert key ep capacity bucket =>
    cases hs
    exact distinct_event_add h.distinct hok
  | remove key =>
    cases hs
    exact distinct_event_delete h.distinct key
  | rebucket ranker =>
    cases hs
    exact distinct_rebucket h.distinct ranker
  | start bucket rejected key =>
    obtain ⟨p, e, -, rfl⟩ := startRequest_eq_some hs
    exact h.distinct
  | finish i success evictionTime =>
    obtain ⟨_, -, -, infos, -, hcases⟩ := step_finish h.toOwned hs
    rcases hcases with ⟨-, rfl⟩ | ⟨d, -, -, -, rfl⟩ <;> exact h.distinct
  | recv i =>
    obtain ⟨item, -, ⟨-, rfl⟩ | ⟨set, hmoved, rfl⟩⟩ := recv_cases h hs
    · exact h.distinct
    · exact hmoved.distinct h.distinct
  | pop =>
    obtain ⟨entry, -, ⟨-, rfl⟩ | ⟨set, infos, hmoved, -, rfl⟩⟩ := pop_cases h hs
    · exact h.distinct
    · exact hmoved.distinct h.distinct
  | tick now =>
    obtain ⟨-, rfl⟩ := step_tick hs
    exact h.distinct

-- ======== invariant

structure EvictionInv (s : EvictionState T) : Prop where
  owned : OwnedOnce s
  rejected : ∀ {b k e}, s.set.At b .rejected k e → ∃ u ∈ s.unevictionHeap, u.key = k
  evicted : ∀ {b p k e t}, s.set.At b p k e → s.evictedUntil e.info = some t →
      (⟨k, t⟩ : EvictionEvent) ∈ s.channel ∨ p = .rejected

/-- The entries left are in the pools they were in, and deadlines,
channel and heap stay. -/
theorem EvictionInv.shrink (h : EvictionInv s) (howned : OwnedOnce s')
    (hback : ∀ {b p k e}, s'.set.At b p k e → ∃ b', s.set.At b' p k e)
    (hdeadline : ∀ r, s'.evictedUntil r = s.evictedUntil r)
    (hchannel : s'.channel = s.channel) (hheap : s'.unevictionHeap = s.unevictionHeap) :
    EvictionInv s' where
  owned := howned
  rejected := by
    intro b k e hat
    obtain ⟨_, hat⟩ := hback hat
    rw [hheap]
    exact h.rejected hat
  evicted := by
    intro b p k e t hat ht
    obtain ⟨_, hat⟩ := hback hat
    rw [hdeadline] at ht
    rw [hchannel]
    exact h.evicted hat ht

theorem mem_eraseIdx_of_ne {α : Type} {l : List α} {x y : α}
    (hi : l[i]? = some y) (hx : x ∈ l) (hne : x ≠ y) : x ∈ l.eraseIdx i := by
  obtain ⟨j, hj⟩ := mem_iff_getElem?.1 hx
  refine mem_eraseIdx_iff_getElem?.2 ⟨j, ?_, hj⟩
  intro heq
  rw [heq, hi] at hj
  exact hne (Option.some.inj hj).symm

theorem evictionInv_recv (h : EvictionInv s)
    (hs : s.step (.recv i) = some s') (howned : OwnedOnce s') : EvictionInv s' := by
  obtain ⟨item, hitem, hcases⟩ := recv_cases h.owned hs
  -- the other events are still there
  have hother : ∀ {b p k e t}, s.set.At b p k e → k ≠ item.key → s.evictedUntil e.info = some t →
        (⟨k, t⟩ : EvictionEvent) ∈ s.channel.eraseIdx i ∨ p = .rejected := by
    intro b p k e t hat hk ht
    rcases h.evicted hat ht with hmem | hp
    · exact .inl (mem_eraseIdx_of_ne hitem hmem fun heq =>
        hk (congrArg EvictionEvent.key heq))
    · exact .inr hp
  rcases hcases with ⟨hno, rfl⟩ | ⟨set, hmoved, rfl⟩
  · refine ⟨howned, h.rejected, fun {b p k e t} hat ht => hother hat ?_ ht⟩
    intro hk
    exact hno ⟨b, p, e, hk ▸ hat⟩
  · refine ⟨howned, fun {b k e} hat => ?_, fun {b p k e t} hat ht => ?_⟩
    · rcases (hmoved _ _ _ _).1 hat with ⟨-, hat⟩ | ⟨hk, -, -, -⟩
      · obtain ⟨u, hu, hkey⟩ := h.rejected hat
        exact ⟨u, mem_append_left _ hu, hkey⟩
      · exact ⟨_, mem_append_right _ (mem_singleton.2 rfl), hk.symm⟩
    · rcases (hmoved _ _ _ _).1 hat with ⟨hk, hat⟩ | ⟨-, hp, -⟩
      · exact hother hat hk ht
      · exact .inr hp

theorem evictionInv_pop (h : EvictionInv s) (hs : s.step .pop = some s')
    (howned : OwnedOnce s') : EvictionInv s' := by
  obtain ⟨entry, -, hcases⟩ := pop_cases h.owned hs
  -- the other keys are still on the heap
  have hother : ∀ {b k e}, s.set.At b .rejected k e → k ≠ entry.key →
      ∃ u ∈ s.unevictionHeap.erase entry, u.key = k := by
    intro b k e hat hk
    obtain ⟨u, hu, hkey⟩ := h.rejected hat
    refine ⟨u, (mem_erase_of_ne fun heq => hk ?_).2 hu, hkey⟩
    rw [← hkey, heq]
  rcases hcases with ⟨hno, rfl⟩ | ⟨set, infos, hmoved, hdeadline, rfl⟩
  · refine ⟨howned, fun {b k e} hat => hother hat ?_, h.evicted⟩
    intro hk
    exact hno ⟨b, _, e, hk ▸ hat⟩
  · refine ⟨howned, fun {b k e} hat => ?_, fun {b p k e t} hat ht => ?_⟩
    · rcases (hmoved _ _ _ _).1 hat with ⟨hk, hat⟩ | ⟨-, hp, -⟩
      · exact hother hat hk
      · cases hp
    · change deadline infos e.info = some t at ht
      rcases (hmoved _ _ _ _).1 hat with ⟨hk, hold⟩ | ⟨hk, hp, p', hold⟩
      · rw [hdeadline hold, if_neg fun hc => hk hc.1] at ht
        exact h.evicted hold ht
      · -- a deadline that is left was not that of a rejected endpoint
        rw [hdeadline hold] at ht
        split at ht
        · cases ht
        · next hc =>
          rcases h.evicted hold ht with hmem | hp'
          · rw [hk]
            exact .inl hmem
          · exact absurd ⟨rfl, hp'⟩ hc

theorem evictionInv_step (h : EvictionInv s) (hok : UniqueInsert s a) (hs : s.step a = some s') :
    EvictionInv s' := by
  have howned : OwnedOnce s' := ⟨owned_step h.owned.toOwned hs, distinct_step h.owned hok hs⟩
  cases a with
  | insert key ep capacity bucket =>
    cases hs
    refine ⟨howned, fun {b k e} hat => ?_, fun {b p k e t} hat ht => ?_⟩
    · rcases at_insertKey hat with ⟨-, hp, -⟩ | hat
      · cases hp
      · exact h.rejected hat
    · rcases at_insertKey hat with ⟨-, -, hinfo⟩ | hat
      · rw [hinfo] at ht
        exact absurd ((deadline_alloc_self s.infos).symm.trans ht) nofun
      · exact h.evicted hat ((deadline_alloc (h.owned.valid hat)).symm.trans ht)
  | remove key =>
    cases hs
    exact h.shrink howned (fun hat => ⟨_, ((event_delete_at h.owned.distinct).1 hat).2⟩)
      (fun r => rfl) rfl rfl
  | rebucket ranker =>
    cases hs
    exact h.shrink howned (fun hat => (at_of_rebucket hat).2) (fun r => rfl) rfl rfl
  | start bucket rejected key =>
    obtain ⟨p, e, -, rfl⟩ := startRequest_eq_some hs
    exact h.shrink howned (fun hat => ⟨_, hat⟩) (evictedUntil_started s e.info) rfl rfl
  | finish i success evictionTime =>
    obtain ⟨hd, hmem, -, infos, -, hcases⟩ := step_finish h.owned.toOwned hs
    rcases hcases with ⟨hsame, rfl⟩ | ⟨d, -, -, hset, rfl⟩
    · exact h.shrink howned (fun hat => ⟨_, hat⟩) hsame rfl rfl
    · refine ⟨howned, h.rejected, fun {b p k e t} hat ht => ?_⟩
      change deadline infos e.info = some t at ht
      rw [hset] at ht
      split at ht
      · next hinfo =>
        cases ht
        rw [h.owned.handles hmem hat hinfo]
        exact .inl (mem_append_right _ (mem_singleton.2 rfl))
      · exact (h.evicted hat ht).imp_left (mem_append_left _)
  | recv i => exact evictionInv_recv h hs howned
  | pop => exact evictionInv_pop h hs howned
  | tick now =>
    obtain ⟨-, rfl⟩ := step_tick hs
    exact h.shrink howned (fun hat => ⟨_, hat⟩) (fun r => rfl) rfl rfl

-- ======== worker

theorem heapPeek_eq_none {heap : List UnevictEntry} (h : heapPeek heap = none) : heap = [] := by
  cases heap with
  | nil => rfl
  | cons e es =>
    unfold heapPeek at h
    split at h
    · cases h
    · split at h <;> cases h

/-- What the worker has left to do: an event costs it two turns, an entry
one. -/
def backlog (s : EvictionState T) : Nat :=
  2 * s.channel.length + s.unevictionHeap.length

def Due (s : EvictionState T) : Prop :=
  (∀ ev ∈ s.channel, ev.till ≤ s.now) ∧ ∀ u ∈ s.unevictionHeap, u.till ≤ s.now

/-- A turn of the worker shrinks the backlog, keeps every endpoint, and
leaves due what was due. -/
theorem worker_step (h : OwnedOnce s) (ha : a.isWorker) (hs : s.step a = some s') :
    s'.backlog < s.backlog ∧ (∀ {b p k e}, s.set.At b p k e → ∃ p', s'.set.At b p' k e)
      ∧ (s.Due → s'.Due) := by
  unfold backlog Due
  cases a with
  | recv i =>
    obtain ⟨item, hitem, hcases⟩ := recv_cases h hs
    have hlen := length_eraseIdx_add_one (List.getElem?_eq_some_iff.1 hitem).1
    have hkept : ∀ ev ∈ s.channel.eraseIdx i, ev ∈ s.channel :=
      fun ev hev => mem_of_mem_eraseIdx hev
    rcases hcases with ⟨-, rfl⟩ | ⟨set, hmoved, rfl⟩
    · refine ⟨?_, fun hat => ⟨_, hat⟩, fun hdue => ⟨fun ev hev =>
        hdue.1 ev (hkept ev hev), hdue.2⟩⟩
      dsimp only
      omega
    · refine ⟨?_, fun hat => hmoved.kept hat, fun hdue => ⟨fun ev hev =>
        hdue.1 ev (hkept ev hev), fun u hu => ?_⟩⟩
      · dsimp only
        rw [length_append, length_singleton]
        omega
      · rcases mem_append.1 hu with hu | hu
        · exact hdue.2 u hu
        · cases mem_singleton.1 hu
          exact hdue.1 item (mem_of_getElem? hitem)
  | pop =>
    obtain ⟨entry, hmem, hcases⟩ := pop_cases h hs
    have hlen := length_erase_of_mem hmem
    have hpos := length_pos_of_mem hmem
    have hkept : ∀ u ∈ s.unevictionHeap.erase entry, u ∈ s.unevictionHeap :=
      fun u hu => mem_of_mem_erase hu
    rcases hcases with ⟨-, rfl⟩ | ⟨set, infos, hmoved, -, rfl⟩
    · refine ⟨?_, fun hat => ⟨_, hat⟩, fun hdue => ⟨hdue.1, fun u hu =>
        hdue.2 u (hkept u hu)⟩⟩
      dsimp only
      omega
    · refine ⟨?_, fun hat => hmoved.kept hat, fun hdue => ⟨hdue.1, fun u hu =>
        hdue.2 u (hkept u hu)⟩⟩
      dsimp only
      omega
  | _ => cases ha

/-- A worker that has nothing to do, with every deadline passed, has an
empty channel and an empty heap. -/
theorem idle_worker (hdue : s.Due) (hidle : ∀ a : Action T, a.isWorker → s.step a = none) :
    s.channel = [] ∧ s.unevictionHeap = [] := by
  refine ⟨?_, ?_⟩
  · cases hc : s.channel with
    | nil => rfl
    | cons ev evs =>
      have hno := hidle (.recv 0) rfl
      unfold step at hno
      rw [hc] at hno
      cases hno
  · refine heapPeek_eq_none ?_
    cases hpeek : heapPeek s.unevictionHeap with
    | none => rfl
    | some u =>
      have hno := hidle .pop rfl
      unfold step at hno
      dsimp only at hno
      rw [hpeek, Option.bind_eq_bind, Option.bind_some,
        if_pos (hdue.2 u (heapPeek_mem hpeek))] at hno
      cases hno

-- ======== result

/-- The worker runs alone: it takes as many turns as the backlog allows,
and no endpoint is lost. -/
theorem worker_run : ∀ (turns : List (Action T)) {s s' : EvictionState T},
    EvictionInv s → s.Due → (∀ a ∈ turns, a.isWorker) → s.run turns = some s' →
      EvictionInv s' ∧ s'.Due ∧ turns.length + s'.backlog ≤ s.backlog
        ∧ ∀ {b p k e}, s.set.At b p k e → ∃ p', s'.set.At b p' k e := by
  intro turns
  induction turns with
  | nil =>
    intro s s' h hdue _ hrun
    cases hrun
    exact ⟨h, hdue, Nat.le_of_eq (Nat.zero_add _), fun hat => ⟨_, hat⟩⟩
  | cons a turns ih =>
    intro s s' h hdue hworker hrun
    obtain ⟨s₁, hs₁, hrun⟩ := foldlM_cons_eq_some.1 hrun
    have ha := hworker a mem_cons_self
    obtain ⟨hlt, hkept, hdue₁⟩ := worker_step h.owned ha hs₁
    have hok : UniqueInsert s a := by
      cases a with
      | insert key ep capacity bucket => cases ha
      | _ => trivial
    obtain ⟨h', hdue', hlen, hkept'⟩ := ih (evictionInv_step h hok hs₁)
      (hdue₁ hdue) (fun b hb => hworker b (mem_cons_of_mem _ hb)) hrun
    refine ⟨h', hdue', ?_, fun hat => ?_⟩
    · rw [length_cons]
      omega
    · obtain ⟨p₁, hat⟩ := hkept hat
      exact hkept' hat

/-- A time by which every deadline under way has passed. -/
def horizon (s : EvictionState T) : Instant :=
  ((s.channel.map EvictionEvent.till) ++ s.unevictionHeap.map UnevictEntry.till).foldr max 0

theorem due_of_horizon {now : Instant} (hnow : s.horizon ≤ now) : Due { s with now := now } := by
  refine ⟨fun ev hev => Nat.le_trans (le_max_of_le' 0 ?_ (Nat.le_refl _)) hnow,
    fun u hu => Nat.le_trans (le_max_of_le' 0 ?_ (Nat.le_refl _)) hnow⟩
  · exact mem_append_left _ (mem_map_of_mem hev)
  · exact mem_append_right _ (mem_map_of_mem hu)

/-- In every state of a run in which keys stay in one bucket, a rejected
endpoint is on the heap, and one with a deadline has its event in the
channel or is on the heap. And once the clock is past the horizon, the
worker comes to a rest in at most `backlog` turns, loses no endpoint on
the way, and leaves every endpoint active with no deadline. -/
theorem no_eviction_for_ever (n : Nat) (actions : List (Action T))
    (s : EvictionState T) (hok : StepsOk step UniqueInsert (init n) actions)
    (hrun : (init n).run actions = some s) :
    (∀ b k e, s.set.At b .rejected k e → ∃ u ∈ s.unevictionHeap, u.key = k)
      ∧ (∀ b p k e t, s.set.At b p k e → s.evictedUntil e.info = some t →
        (⟨k, t⟩ : EvictionEvent) ∈ s.channel ∨ ∃ u ∈ s.unevictionHeap, u.key = k)
      ∧ ∀ now, s.horizon ≤ now → ∀ turns s', (∀ a ∈ turns, Action.isWorker a) →
          run { s with now := now } turns = some s' → turns.length ≤ s.backlog
              ∧ (∀ b p k e, s.set.At b p k e → ∃ p', s'.set.At b p' k e)
              ∧ ((∀ a, Action.isWorker a → s'.step a = none) → ∀ b p k e, s'.set.At b p k e →
                  p = .active ∧ s'.evictedUntil e.info = none) := by
  have h : EvictionInv s :=
    inv_of_stepsOk evictionInv_step actions ⟨⟨owned_init n, distinct_newEmpty n⟩,
      fun h => absurd h not_at_newEmpty, fun h => absurd h not_at_newEmpty⟩ hok hrun
  refine ⟨fun b k e hat => h.rejected hat, fun b p k e t hat ht => ?_,
    fun now hnow turns s' hworker hrun' => ?_⟩
  · rcases h.evicted hat ht with hmem | rfl
    · exact .inl hmem
    · exact .inr (h.rejected hat)
  · have hlater : EvictionInv { s with now := now } :=
      h.shrink ⟨h.owned.toOwned.shrink (fun hat => ⟨_, _, hat⟩) id rfl,
        h.owned.distinct⟩ (fun hat => ⟨_, hat⟩) (fun r => rfl) rfl rfl
    obtain ⟨h', hdue', hlen, hkept⟩ := worker_run turns hlater (due_of_horizon hnow) hworker hrun'
    refine ⟨Nat.le_trans (Nat.le_add_right _ _) hlen, fun b p k e hat =>
      hkept hat, fun hidle b p k e hat => ?_⟩
    obtain ⟨hchannel, hheap⟩ := idle_worker hdue' hidle
    have hactive : p = .active := by
      cases p with
      | active => rfl
      | rejected =>
        obtain ⟨u, hu, -⟩ := h'.rejected hat
        rw [hheap] at hu
        cases hu
    subst hactive
    refine ⟨rfl, Option.eq_none_iff_forall_ne_some.2 fun t ht => ?_⟩
    rcases h'.evicted hat ht with hmem | hp
    · rw [hchannel] at hmem
      cases hmem
    · cases hp

/-- An endpoint is evicted, and the worker has received the event. -/
def sampleEviction : List (Action Unit) :=
  [.insert "k" () 1 0, .start 0 false "k", .finish 0 false (some 5), .recv 0]

theorem no_eviction_for_ever_sample : ∃ s : EvictionState Unit, (init 1).run sampleEviction = some s
      ∧ ∀ b k e, s.set.At b .rejected k e → ∃ u ∈ s.unevictionHeap, u.key = k := by
  refine ⟨_, rfl, (no_eviction_for_ever 1 sampleEviction _ ?_ rfl).1⟩
  refine ⟨fun b p e hat => absurd hat not_at_newEmpty, fun s₁ _ => ⟨trivial,
    fun s₂ _ => ⟨trivial, fun s₃ _ => ⟨trivial, fun s₄ _ => trivial⟩⟩⟩⟩

/-- An endpoint is evicted, and its key inserted once more, into a bucket
the worker looks at first. -/
def hiddenEviction : List (Action Unit) :=
  [.insert "k" () 1 1, .start 1 false "k", .finish 0 false (some 5), .recv 0,
    .insert "k" () 1 0, .tick 10, .pop]

/-- With a key in two buckets, an eviction may never be taken back. -/
theorem second_bucket_hides_eviction :
    ¬ ∀ (n : Nat) (actions : List (Action Unit)) (s : EvictionState Unit),
      (init n).run actions = some s →
      ∀ b k e, s.set.At b .rejected k e → ∃ u ∈ s.unevictionHeap, u.key = k := by
  intro hall
  obtain ⟨u, hu, -⟩ := hall 2 hiddenEviction _ rfl 1 "k" _ ⟨_, rfl, rfl⟩
  cases hu

end EvictionState

end AgentGateway.Endpoints
