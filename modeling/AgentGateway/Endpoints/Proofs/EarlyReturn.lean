/-
What each action of the eviction system does, who owns an info, and that no
endpoint returns before its deadline.

`Owned` is the discipline everything else rests on: an info belongs to
one key, in the set as in the handles. It holds in every run. The lemmas on
single actions say what becomes of the entries (`At`) and of the deadlines
(`evictedUntil`); later proofs use them and never unfold an action. They ask
nothing of the set: a key may sit in several places.

# Where it breaks

The worker's heap is keyed by endpoint alone, outlives the endpoint, and
is obeyed whatever deadline the endpoint has by then. So the events and
entries for a key (`Pending`) may speak of an endpoint that is gone. The
invariant is that none of them is earlier than the deadline of an
endpoint under the key (`Timely`). Only a finished request that sets a
deadline can break it: either an older event or entry is pending for the
key, or its own event is the older one, for a key that is another
endpoint's by now. `InTime` excludes both.
-/
import AgentGateway.Endpoints.EndpointSet
import AgentGateway.Lib.Run

namespace AgentGateway.Endpoints

open Lib EndpointSet Arena

variable {T : Type}

namespace EvictionState

-- ======== deadlines

/-- `evictedUntil`, on the infos alone. -/
def deadline (infos : Arena EndpointInfo) (info : Nat) : Option Instant :=
  (infos.read? info).bind EndpointInfo.evictedUntil

variable {infos : Arena EndpointInfo} {s s' : EvictionState T} {key : EndpointKey} {bucket : Nat}
  {e : EndpointWithInfo T Nat} {capacity : UInt32} {p : Pool} {r i : Nat} {ep : T}

theorem deadline_update_of_same {f : EndpointInfo → EndpointInfo}
    (hf : ∀ i, (f i).evictedUntil = i.evictedUntil) (r r' : Nat) :
    deadline (infos.update r f) r' = deadline infos r' := by
  unfold deadline
  by_cases hr : r' = r
  · subst hr
    rw [read?_update_self]
    cases infos.read? r' with
    | none => rfl
    | some i => exact hf i
  · rw [read?_update_ne _ _ hr]

theorem deadline_update (hr : infos.Valid r) (t : Option Instant) (r' : Nat) :
    deadline (infos.update r fun i => { i with evictedUntil := t }) r'
      = if r' = r then t else deadline infos r' := by
  unfold deadline
  by_cases heq : r' = r
  · subst heq
    rw [read?_update_self, if_pos rfl]
    obtain ⟨i, hi⟩ : ∃ i, infos.read? r' = some i := ⟨_, List.getElem?_eq_getElem hr⟩
    rw [hi]
    rfl
  · rw [read?_update_ne _ _ heq, if_neg heq]

theorem deadline_alloc (hr : infos.Valid r) :
    deadline (infos.alloc default).1 r = deadline infos r := by
  unfold deadline
  rw [read?_alloc_of_valid _ hr]

theorem deadline_alloc_self (infos : Arena EndpointInfo) :
    deadline (infos.alloc default).1 (infos.alloc default).2 = none := by
  unfold deadline
  rw [read?_alloc_self]
  rfl

-- ======== ownership

structure Owned (s : EvictionState T) : Prop where
  valid : ∀ {b p k e}, s.set.At b p k e → s.infos.Valid e.info
  handlesValid : ∀ {h}, h ∈ s.handles → s.infos.Valid h.info
  owner : ∀ {b p k e b' p' k' e'}, s.set.At b p k e →
    s.set.At b' p' k' e' → e.info = e'.info → k = k'
  handles : ∀ {h b p k e}, h ∈ s.handles → s.set.At b p k e → e.info = h.info → k = h.key

theorem owned_init (n : Nat) : Owned (init n : EvictionState T) where
  valid := fun h => absurd h not_at_newEmpty
  handlesValid := nofun
  owner := fun h => absurd h not_at_newEmpty
  handles := nofun

/-- Every entry was there before, perhaps elsewhere, and no info or
handle is new. -/
theorem Owned.shrink (h : Owned s)
    (hback : ∀ {b p k e}, s'.set.At b p k e → ∃ b' p', s.set.At b' p' k e)
    (hvalid : ∀ {r}, s.infos.Valid r → s'.infos.Valid r)
    (hhandles : s'.handles = s.handles) : Owned s' where
  valid := by
    intro b p k e hat
    obtain ⟨b', p', hat⟩ := hback hat
    exact hvalid (h.valid hat)
  handlesValid := by
    intro hd hmem
    rw [hhandles] at hmem
    exact hvalid (h.handlesValid hmem)
  owner := by
    intro b p k e b' p' k' e' hat hat' hinfo
    obtain ⟨_, _, hat⟩ := hback hat
    obtain ⟨_, _, hat'⟩ := hback hat'
    exact h.owner hat hat' hinfo
  handles := by
    intro hd b p k e hmem hat hinfo
    rw [hhandles] at hmem
    obtain ⟨_, _, hat⟩ := hback hat
    exact h.handles hmem hat hinfo

-- ======== actions

theorem at_insertKey {b : Nat} {k : EndpointKey}
    (hat : (s.insertKey key ep capacity bucket).set.At b p k e) :
    (k = key ∧ p = .active ∧ e.info = (s.infos.alloc default).2) ∨ s.set.At b p k e := by
  change (s.set.event _).At b p k e at hat
  by_cases hb : bucket < s.set.numBuckets
  · rcases (event_add_at hb).1 hat with ⟨hk, -, hp, rfl⟩ | ⟨-, hat⟩
    · exact .inl ⟨hk, hp, rfl⟩
    · exact .inr hat
  · rw [event, if_neg (show ¬ bucket < s.set.buckets.length from hb)] at hat
    exact .inr hat

theorem owned_insertKey (h : Owned s) : Owned (s.insertKey key ep capacity bucket) where
  valid := by
    intro b p k e hat
    rcases at_insertKey hat with ⟨-, -, hinfo⟩ | hat
    · rw [hinfo]
      exact valid_alloc_self _ _
    · exact valid_alloc _ (h.valid hat)
  handlesValid := fun hmem => valid_alloc _ (h.handlesValid hmem)
  owner := by
    intro b p k e b' p' k' e' hat hat' heq
    rcases at_insertKey hat with ⟨hk, -, hinfo⟩ | hat
    · rcases at_insertKey hat' with ⟨hk', -⟩ | hat'
      · exact hk.trans hk'.symm
      · exact absurd (heq.symm.trans hinfo) (ne_alloc_of_valid _ (h.valid hat'))
    · rcases at_insertKey hat' with ⟨-, -, hinfo⟩ | hat'
      · exact absurd (heq.trans hinfo) (ne_alloc_of_valid _ (h.valid hat))
      · exact h.owner hat hat' heq
  handles := by
    intro hd b p k e hmem hat heq
    rcases at_insertKey hat with ⟨-, -, hinfo⟩ | hat
    · exact absurd (heq.symm.trans hinfo) (ne_alloc_of_valid _ (h.handlesValid hmem))
    · exact h.handles hmem hat heq

theorem startRequest_eq_some {rejected : Bool} (hs : s.startRequest bucket rejected key = some s') :
    ∃ p e, s.set.At bucket p key e ∧ s' = { s with
      infos := s.infos.update e.info fun i =>
        { i with totalRequests := i.totalRequests + 1 }
      handles := s.handles ++ [⟨key, e.info⟩] } := by
  obtain ⟨g, hg, hs⟩ := Option.bind_eq_some_iff.1 hs
  obtain ⟨e, he, hs⟩ := Option.bind_eq_some_iff.1 hs
  cases hs
  cases rejected with
  | true => exact ⟨.rejected, e, ⟨g, hg, he⟩, rfl⟩
  | false => exact ⟨.active, e, ⟨g, hg, he⟩, rfl⟩

theorem evictedUntil_started (s : EvictionState T) (info r : Nat) :
    deadline (s.infos.update info fun i =>
      { i with totalRequests := i.totalRequests + 1 }) r = s.evictedUntil r := by
  refine deadline_update_of_same ?_ info r
  exact fun i => rfl

theorem owned_startRequest (h : Owned s)
    (hat : s.set.At bucket p key e) (f : EndpointInfo → EndpointInfo) : Owned { s with
      infos := s.infos.update e.info f
      handles := s.handles ++ [⟨key, e.info⟩] } where
  valid := fun hat' => valid_update.2 (h.valid hat')
  handlesValid := by
    intro hd hmem
    rcases List.mem_append.1 hmem with hmem | hmem
    · exact valid_update.2 (h.handlesValid hmem)
    · cases List.mem_singleton.1 hmem
      exact valid_update.2 (h.valid hat)
  owner := h.owner
  handles := by
    intro hd b p k e' hmem hat' heq
    rcases List.mem_append.1 hmem with hmem | hmem
    · exact h.handles hmem hat' heq
    · cases List.mem_singleton.1 hmem
      exact h.owner hat' hat heq

/-- A finished request leaves everything but counters as it was, or sets
a deadline that was not set and sends the event for it. -/
theorem step_finish (howned : Owned s) {success : Bool} {evictionTime : Option Nat}
    (hs : s.step (.finish i success evictionTime) = some s') :
    ∃ h ∈ s.handles, s.handles[i]? = some h ∧ ∃ infos, (∀ {r}, infos.Valid r ↔ s.infos.Valid r)
        ∧ (((∀ r, deadline infos r = s.evictedUntil r) ∧ s' = { s with infos := infos })
          ∨ ∃ d, evictionTime = some d ∧ s.evictedUntil h.info = none
            ∧ (∀ r, deadline infos r = if r = h.info then some (s.now + d) else s.evictedUntil r)
            ∧ s' = { s with
                infos := infos
                channel := s.channel ++ [⟨h.key, s.now + d⟩] }) := by
  obtain ⟨h, hh, hs⟩ := Option.bind_eq_some_iff.1 hs
  cases hs
  have hmem := List.mem_of_getElem? hh
  refine ⟨h, hmem, hh, ?_⟩
  have hsame : ∀ r, deadline (s.infos.update h.info
      (recordOutcome success evictionTime.isSome)) r = s.evictedUntil r :=
    deadline_update_of_same (fun i => by
      cases success <;> cases evictionTime <;> rfl) h.info
  have hkept : ∀ {r}, (s.infos.update h.info (recordOutcome success
      evictionTime.isSome)).Valid r ↔ s.infos.Valid r := valid_update
  have hread : ∀ {t}, s.evictedUntil h.info = t → evictedUntil { s with
      infos := s.infos.update h.info (recordOutcome success evictionTime.isSome) } h.info = t :=
    fun hcur => (hsame _).trans hcur
  cases evictionTime with
  | none => exact ⟨_, hkept, .inl ⟨hsame, rfl⟩⟩
  | some d =>
    cases hcur : s.evictedUntil h.info with
    | some t =>
      refine ⟨_, hkept, .inl ⟨hsame, ?_⟩⟩
      unfold finishRequest
      dsimp only
      rw [hread hcur]
    | none =>
      refine ⟨(s.infos.update h.info (recordOutcome success true)).update
        h.info fun i => { i with evictedUntil := some (s.now + d) },
        valid_update.trans hkept, .inr ⟨d, rfl, rfl, fun r => ?_, ?_⟩⟩
      · refine (deadline_update (hkept.2 (howned.handlesValid hmem)) _ r).trans ?_
        split
        · rfl
        · exact hsame r
      · unfold finishRequest
        dsimp only
        rw [hread hcur]
        rfl

/-- A received event may put an entry on the heap and endpoints under its
key among the rejected. -/
theorem step_recv (hs : s.step (.recv i) = some s') :
    ∃ item ∈ s.channel, ∃ set heap, MovesOnly s.set set item.key .rejected
      ∧ (∀ u ∈ heap, u ∈ s.unevictionHeap ∨ u = ⟨item.till, item.key⟩) ∧ s' = { s with
          set := set
          channel := s.channel.eraseIdx i
          unevictionHeap := heap } := by
  obtain ⟨item, hitem, hs⟩ := Option.bind_eq_some_iff.1 hs
  cases hs
  refine ⟨item, List.mem_of_getElem? hitem, ?_⟩
  unfold handleRecvEvict
  split
  · exact ⟨_, _, fun _ _ _ _ hat => .inl hat, fun u hu => .inl hu, rfl⟩
  · refine ⟨_, _, movesOnly_modifyBucket (moves_evict _ _).only, fun u hu => ?_, rfl⟩
    exact (List.mem_append.1 hu).imp_right List.mem_singleton.1

theorem pop_eq_some (hs : s.step .pop = some s') :
    ∃ entry, heapPeek s.unevictionHeap = some entry ∧ entry.till ≤ s.now ∧ s' = { s with
        unevictionHeap := s.unevictionHeap.erase entry }.handleEviction entry := by
  obtain ⟨entry, hentry, hs⟩ := Option.bind_eq_some_iff.1 hs
  split at hs
  · next hdue => exact ⟨entry, hentry, hdue, (Option.some.inj hs).symm⟩
  · cases hs

/-- A popped entry may put endpoints under its key among the active, and
clears no deadline but that of an endpoint under its key. -/
theorem step_pop (h : Owned s) (hs : s.step .pop = some s') :
    ∃ entry, heapPeek s.unevictionHeap = some entry ∧ entry.till ≤ s.now
      ∧ ∃ set infos, MovesOnly s.set set entry.key .active
        ∧ (∀ {r}, infos.Valid r ↔ s.infos.Valid r)
        ∧ (∀ r, deadline infos r = s.evictedUntil r ∨ (deadline infos r = none
            ∧ ∃ b p e, s.set.At b p entry.key e ∧ e.info = r)) ∧ s' = { s with
            set := set
            infos := infos
            unevictionHeap := s.unevictionHeap.erase entry } := by
  obtain ⟨entry, hentry, hdue, rfl⟩ := pop_eq_some hs
  refine ⟨entry, hentry, hdue, ?_⟩
  unfold handleEviction
  split
  · exact ⟨_, _, fun _ _ _ _ hat => .inl hat, Iff.rfl, fun r => .inl rfl, rfl⟩
  · next b hb =>
    refine ⟨_, _, movesOnly_modifyBucket (moves_unevict _ _).only, ?_, ?_, rfl⟩
    · intro r
      split
      · exact valid_update
      · exact Iff.rfl
    · intro r
      split
      · next ep hep =>
        obtain ⟨g, hg, hrej⟩ := Option.bind_eq_some_iff.1 hep
        have hat : s.set.At b .rejected entry.key ep := ⟨g, hg, hrej⟩
        rw [deadline_update (h.valid hat)]
        by_cases hr : r = ep.info
        · exact .inr ⟨if_pos hr, b, _, ep, hat, hr.symm⟩
        · exact .inl (if_neg hr)
      · exact .inl rfl

theorem step_tick {now : Instant} (hs : s.step (.tick now) = some s') :
    s.now ≤ now ∧ s' = { s with now := now } := by
  change (if s.now ≤ now then some { s with now := now } else none) = some s' at hs
  split at hs
  · next hle =>
    cases hs
    exact ⟨hle, rfl⟩
  · cases hs

theorem heapPeek_mem : ∀ {heap : List UnevictEntry} {u : UnevictEntry},
    heapPeek heap = some u → u ∈ heap := by
  intro heap
  induction heap with
  | nil =>
    intro u h
    cases h
  | cons e es ih =>
    intro u h
    unfold heapPeek at h
    split at h
    · cases h
      exact List.mem_cons_self
    · next m hm =>
      split at h
      · cases h
        exact List.mem_cons_self
      · cases h
        exact List.mem_cons_of_mem _ (ih hm)

theorem owned_step {a : Action T} (h : Owned s) (hs : s.step a = some s') : Owned s' := by
  cases a with
  | insert key ep capacity bucket =>
    cases hs
    exact owned_insertKey h
  | remove key =>
    cases hs
    exact h.shrink (fun hat => ⟨_, _, at_of_remove hat⟩) id rfl
  | rebucket ranker =>
    cases hs
    refine h.shrink (fun hat => ?_) id rfl
    obtain ⟨-, b', hat⟩ := at_of_rebucket hat
    exact ⟨b', _, hat⟩
  | start bucket rejected key =>
    obtain ⟨p, e, hat, rfl⟩ := startRequest_eq_some hs
    exact owned_startRequest h hat _
  | finish i success evictionTime =>
    obtain ⟨_, -, -, infos, hvalid, hcases⟩ := step_finish h hs
    rcases hcases with ⟨-, rfl⟩ | ⟨d, -, -, -, rfl⟩ <;>
      exact h.shrink (fun hat => ⟨_, _, hat⟩) hvalid.2 rfl
  | recv i =>
    obtain ⟨item, -, set, heap, hmoves, -, rfl⟩ := step_recv hs
    exact h.shrink (fun hat => ⟨_, hmoves.back hat⟩) id rfl
  | pop =>
    obtain ⟨entry, -, -, set, infos, hmoves, hvalid, -, rfl⟩ := step_pop h hs
    exact h.shrink (fun hat => ⟨_, hmoves.back hat⟩) hvalid.2 rfl
  | tick now =>
    obtain ⟨-, rfl⟩ := step_tick hs
    exact h.shrink (fun hat => ⟨_, _, hat⟩) id rfl

/-- An eviction of the key is to end at `t`. -/
def Pending (s : EvictionState T) (k : EndpointKey) (t : Instant) : Prop :=
  (⟨k, t⟩ : EvictionEvent) ∈ s.channel ∨ (⟨t, k⟩ : UnevictEntry) ∈ s.unevictionHeap

/-- A request that sets a deadline leaves nothing pending for its key that
would end an eviction under that key early: no older eviction if the
endpoint is still the one it used, and if it is another one, not its
own. -/
def InTime (s : EvictionState T) : Action T → Prop
  | .finish i _ (some d) => ∀ h, s.handles[i]? = some h →
      s.evictedUntil h.info = none → ∀ b p e, s.set.At b p h.key e →
        if e.info = h.info then ∀ t, s.Pending h.key t → s.now + d ≤ t
        else ∀ t, s.evictedUntil e.info = some t → t ≤ s.now + d
  | _ => True

-- ======== invariant

structure Timely (s : EvictionState T) : Prop where
  owned : Owned s
  timely : ∀ {b p k e t u}, s.set.At b p k e →
    s.evictedUntil e.info = some t → s.Pending k u → t ≤ u

theorem Timely.shrink (h : Timely s) (howned : Owned s')
    (hback : ∀ {b p k e}, s'.set.At b p k e → ∃ b' p', s.set.At b' p' k e)
    (hdeadline : ∀ {r t}, s'.evictedUntil r = some t → s.evictedUntil r = some t)
    (hpending : ∀ {k t}, s'.Pending k t → s.Pending k t) : Timely s' where
  owned := howned
  timely := by
    intro b p k e t u hat ht hu
    obtain ⟨_, _, hat⟩ := hback hat
    exact h.timely hat (hdeadline ht) (hpending hu)

theorem timely_insertKey (h : Timely s) {key : EndpointKey} {ep : T} {capacity : UInt32}
    {bucket : Nat} : Timely (s.insertKey key ep capacity bucket) where
  owned := owned_insertKey h.owned
  timely := by
    intro b p k e t u hat ht hu
    change deadline (s.infos.alloc default).1 e.info = some t at ht
    rcases at_insertKey hat with ⟨-, -, hinfo⟩ | hat
    · rw [hinfo, deadline_alloc_self] at ht
      cases ht
    · rw [deadline_alloc (h.owned.valid hat)] at ht
      exact h.timely hat ht hu

theorem timely_finish (h : Timely s) {i : Nat} {success : Bool}
    {evictionTime : Option Nat} (hok : s.InTime (.finish i success evictionTime))
    (hs : s.step (.finish i success evictionTime) = some s') (howned : Owned s') : Timely s' := by
  obtain ⟨handle, hmem, hhandle, infos, -, hcases⟩ := step_finish h.owned hs
  rcases hcases with ⟨hsame, rfl⟩ | ⟨d, rfl, hnone, hset, rfl⟩
  · exact h.shrink howned (fun hat => ⟨_, _, hat⟩) (fun ht => (hsame _).symm.trans ht) id
  · refine ⟨howned, fun {b p k e t u} hat ht hu => ?_⟩
    change deadline infos e.info = some t at ht
    rw [hset] at ht
    -- the pending evictions are those there were, and the new one
    have hu' : s.Pending k u ∨ (k = handle.key ∧ u = s.now + d) := by
      rcases hu with hu | hu
      · rcases List.mem_append.1 hu with hu | hu
        · exact .inl (.inl hu)
        · cases List.mem_singleton.1 hu
          exact .inr ⟨rfl, rfl⟩
      · exact .inl (.inr hu)
    by_cases hinfo : e.info = handle.info
    · rw [if_pos hinfo] at ht
      cases ht
      rcases hu' with hu | ⟨-, rfl⟩
      · obtain rfl := h.owned.handles hmem hat hinfo
        have hthis := hok handle hhandle hnone b p e hat
        rw [if_pos hinfo] at hthis
        exact hthis u hu
      · exact Nat.le_refl _
    · rw [if_neg hinfo] at ht
      rcases hu' with hu | ⟨rfl, rfl⟩
      · exact h.timely hat ht hu
      · have hother := hok handle hhandle hnone b p e hat
        rw [if_neg hinfo] at hother
        exact hother t ht

theorem timely_step {a : Action T} (h : Timely s) (hok : s.InTime a)
    (hs : s.step a = some s') : Timely s' := by
  have howned := owned_step h.owned hs
  cases a with
  | insert key ep capacity bucket =>
    cases hs
    exact timely_insertKey h
  | remove key =>
    cases hs
    exact h.shrink howned (fun hat => ⟨_, _, at_of_remove hat⟩) id id
  | rebucket ranker =>
    cases hs
    refine h.shrink howned (fun hat => ?_) id id
    obtain ⟨-, b', hat⟩ := at_of_rebucket hat
    exact ⟨b', _, hat⟩
  | start bucket rejected key =>
    obtain ⟨p, e, -, rfl⟩ := startRequest_eq_some hs
    refine h.shrink howned (fun hat => ⟨_, _, hat⟩) (fun {r t} ht => ?_) id
    rw [← ht]
    exact (evictedUntil_started s e.info r).symm
  | finish i success evictionTime => exact timely_finish h hok hs howned
  | recv i =>
    obtain ⟨item, hitem, set, heap, hmoves, hheap, rfl⟩ := step_recv hs
    refine h.shrink howned (fun hat => ⟨_, hmoves.back hat⟩) id fun hu => ?_
    rcases hu with hu | hu
    · exact .inl (List.mem_of_mem_eraseIdx hu)
    · rcases hheap _ hu with hu | hu
      · exact .inr hu
      · cases hu
        exact .inl hitem
  | pop =>
    obtain ⟨entry, -, -, set, infos, hmoves, -, hcleared, rfl⟩ := step_pop h.owned hs
    refine h.shrink howned (fun hat => ⟨_, hmoves.back hat⟩)
      (fun {r t} ht => ?_) fun hu => hu.imp_right List.mem_of_mem_erase
    change deadline infos r = some t at ht
    rcases hcleared r with hkept | ⟨hnone, -⟩
    · exact hkept.symm.trans ht
    · rw [hnone] at ht
      cases ht
  | tick now =>
    obtain ⟨-, rfl⟩ := step_tick hs
    exact h.shrink howned (fun hat => ⟨_, _, hat⟩) id id

-- ======== result

/-- The endpoint was among the rejected alone, and is among the active. -/
def Readmitted (s s' : EvictionState T) (k : EndpointKey) (e : EndpointWithInfo T Nat) : Prop :=
  (∃ b, s.set.At b .rejected k e) ∧ (∀ b, ¬ s.set.At b .active k e) ∧ ∃ b, s'.set.At b .active k e

theorem not_readmitted {k : EndpointKey}
    (h : ∀ b, s'.set.At b .active k e → ∃ b', s.set.At b' .active k e) : ¬ Readmitted s s' k e := by
  intro hre
  obtain ⟨-, hno, b, hat⟩ := hre
  obtain ⟨b', hat⟩ := h b hat
  exact hno b' hat

theorem Timely.due (h : Timely s) {entry : UnevictEntry}
    (hentry : heapPeek s.unevictionHeap = some entry) (hdue : entry.till ≤ s.now)
    {b : Nat} {p : Pool} (hat : s.set.At b p entry.key e)
    {t : Instant} (ht : s.evictedUntil e.info = some t) : t ≤ s.now :=
  Nat.le_trans (h.timely hat ht (.inr (heapPeek_mem hentry))) hdue

/-- In a state reached by steps in time, whatever action comes next leaves
an endpoint whose deadline lies ahead its deadline, and does not return
it to the active pool. -/
theorem no_early_return (n : Nat) (actions : List (Action T))
    (s s' : EvictionState T) (a : Action T) (hok : StepsOk step InTime (init n) actions)
    (hrun : (init n).run actions = some s) (hs : s.step a = some s') :
    ∀ b p k e t, s.set.At b p k e → s.evictedUntil e.info = some t →
      s.now < t → s'.evictedUntil e.info = some t ∧ ¬ Readmitted s s' k e := by
  have h : Timely s :=
    inv_of_stepsOk timely_step actions ⟨owned_init n, fun h => absurd h not_at_newEmpty⟩ hok hrun
  intro b p k e t hat ht hnow
  cases a with
  | insert key ep capacity bucket =>
    cases hs
    refine ⟨(deadline_alloc (h.owned.valid hat)).trans ht, not_readmitted fun b' hat' => ?_⟩
    rcases at_insertKey hat' with ⟨-, -, hinfo⟩ | hat'
    · exact absurd hinfo (Arena.ne_alloc_of_valid _ (h.owned.valid hat))
    · exact ⟨b', hat'⟩
  | remove key =>
    cases hs
    exact ⟨ht, not_readmitted fun b' hat' => ⟨b', at_of_remove hat'⟩⟩
  | rebucket ranker =>
    cases hs
    exact ⟨ht, not_readmitted fun b' hat' => (at_of_rebucket hat').2⟩
  | start bucket rejected key =>
    obtain ⟨_, e', -, rfl⟩ := startRequest_eq_some hs
    exact ⟨(evictedUntil_started s e'.info e.info).trans ht,
      not_readmitted fun b' hat' => ⟨b', hat'⟩⟩
  | finish i success evictionTime =>
    obtain ⟨handle, -, -, infos, -, hcases⟩ := step_finish h.owned hs
    rcases hcases with ⟨hsame, rfl⟩ | ⟨d, -, hnone, hset, rfl⟩
    · exact ⟨(hsame _).trans ht, not_readmitted fun b' hat' => ⟨b', hat'⟩⟩
    · refine ⟨(hset _).trans ?_, not_readmitted fun b' hat' => ⟨b', hat'⟩⟩
      -- the compare and swap found no deadline, so this is another info
      rw [if_neg ?_, ht]
      intro hinfo
      rw [hinfo, hnone] at ht
      cases ht
  | recv i =>
    obtain ⟨item, -, set, heap, hmoves, -, rfl⟩ := step_recv hs
    refine ⟨ht, not_readmitted fun b' hat' => ?_⟩
    rcases hmoves hat' with hat' | ⟨-, hp, -⟩
    · exact ⟨b', hat'⟩
    · cases hp
  | pop =>
    obtain ⟨entry, hentry, hdue, set, infos, hmoves, -, hcleared, rfl⟩ := step_pop h.owned hs
    -- the endpoint is not under the popped key, since that one is due
    have hk : k ≠ entry.key := by
      intro hk
      subst hk
      exact absurd (h.due hentry hdue hat ht) (Nat.not_le.2 hnow)
    refine ⟨?_, not_readmitted fun b' hat' => ?_⟩
    · rcases hcleared e.info with hkept | ⟨-, b', p', e', hat', hinfo⟩
      · exact hkept.trans ht
      · exact absurd (h.owned.owner hat hat' hinfo.symm) hk
    · rcases hmoves hat' with hat' | ⟨hk', -⟩
      · exact ⟨b', hat'⟩
      · exact absurd hk' hk
  | tick now =>
    obtain ⟨-, rfl⟩ := step_tick hs
    exact ⟨ht, not_readmitted fun b' hat' => ⟨b', hat'⟩⟩

def firstEviction : List (Action Unit) :=
  [.insert "k" () 1 0, .start 0 false "k", .finish 0 false (some 5)]

theorem no_early_return_sample : ∃ s s' : EvictionState Unit, (init 1).run firstEviction = some s
      ∧ s.step (.recv 0) = some s'
      ∧ ∀ b p k e t, s.set.At b p k e → s.evictedUntil e.info = some t →
        s.now < t → s'.evictedUntil e.info = some t ∧ ¬ Readmitted s s' k e := by
  refine ⟨_, _, rfl, rfl, no_early_return 1 firstEviction _ _ (.recv 0) ?_ rfl rfl⟩
  refine ⟨trivial, fun s₁ h₁ => ⟨trivial, fun s₂ h₂ => ⟨?_, fun _ _ => trivial⟩⟩⟩
  cases h₁
  obtain ⟨p, e, -, rfl⟩ := startRequest_eq_some h₂
  intro h hh hnone b p' e' hat
  split
  · intro t ht
    rcases ht with ht | ht <;> cases ht
  · intro t ht
    have hold := (evictedUntil_started _ e.info e'.info).symm.trans ht
    cases hr : e'.info with
    | zero | succ =>
      rw [hr] at hold
      cases hold

/-- An evicted endpoint is removed and inserted again, and evicted for
longer; the heap still has the first deadline. -/
def staleEntry : List (Action Unit) :=
  [.insert "k" () 1 0, .start 0 false "k", .finish 0 false (some 5), .recv 0,
    .remove "k", .insert "k" () 1 0, .start 0 false "k",
    .finish 1 false (some 100), .recv 0, .tick 5]

/-- The worker may return an endpoint at the deadline of an earlier one
under its key. -/
theorem stale_entry_returns_endpoint :
    ¬ ∀ (n : Nat) (actions : List (Action Unit)) (s s' : EvictionState Unit)
      (a : Action Unit), a.isWorker → (init n).run actions = some s → s.step a = some s' →
      ∀ b p k e t, s.set.At b p k e → s.evictedUntil e.info = some t → s.now < t →
          s'.evictedUntil e.info = some t ∧ ¬ Readmitted s s' k e := by
  intro hall
  have hkept := (hall 1 staleEntry _ _ .pop rfl rfl rfl 0 .rejected "k" _ 100
    ⟨_, rfl, rfl⟩ rfl (by decide)).1
  cases hkept

end EvictionState

end AgentGateway.Endpoints
