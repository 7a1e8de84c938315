/-
Bucketed endpoint sets (`types/loadbalancer.rs`): each bucket keeps the
endpoints in rotation (`active`) apart from the evicted ones
(`rejected`), together with the sampler used to pick among the active
ones. Finished requests ask for an eviction, a worker carries it out and
later takes it back.

Endpoint records are generic in the endpoint `T` and in what stands for
the shared `Arc<EndpointInfo>`: a plain value where only membership
matters, a reference where its identity does. `EndpointSet.slots` lists
every entry of every pool with the bucket it sits in: the whole
membership of a set.

# Eviction

The system is an endpoint set whose infos are references, the handles of
the requests under way, the eviction channel, the worker's heap and the
clock. One `Action` is one critical section of the source: an update
under the action mutex, a finished request up to the event it sends, or
one turn of the worker loop. An event is in the channel from the moment
its sender is spawned, and since senders wait for one another in no
fixed order, events may be received in any order. A handle may finish
more than once, as it can be cloned.

The health score a returning endpoint may be given is a floating-point
average and not modelled.

# Membership

`EndpointSet.At s b p k e` says that pool `p` of bucket `b` has entry
`e` under key `k`. `event_add_at` and `event_delete_at` describe the two
discovery events as equivalences on `At`, so that every later argument
about a set is an argument about `At` alone. `Distinct` is the
discipline the sets live under (a key sits in one place); a deletion
needs it, because the source deletes from the first bucket that has the
key and looks at the rejected pool only when the active one misses.
-/
import AgentGateway.Basic
import AgentGateway.Lib.Arena

namespace AgentGateway.Endpoints

/-- Endpoints are keyed by their workload uid. -/
abbrev EndpointKey := Strng

/-- A point on the monotonic clock. -/
abbrev Instant := Nat

/-- The shared statistics of an endpoint. The two floating-point
averages (health and latency) are not modelled. -/
structure EndpointInfo where
  totalRequests : UInt64
  consecutiveFailures : UInt64
  timesEjected : UInt64
  evictedUntil : Option Instant

instance : Inhabited EndpointInfo := ⟨⟨0, 0, 0, none⟩⟩

structure EndpointWithInfo (T I : Type) where
  endpoint : T
  info : I
  capacity : UInt32

def EndpointWithInfo.withCapacity {T I : Type} [Inhabited I] (ep : T)
    (capacity : UInt32) : EndpointWithInfo T I :=
  { endpoint := ep, info := default, capacity := capacity }

/-- How the active endpoints of a group are sampled. `weighted` keeps
the weights the prefix sum is built from. -/
inductive Sampler
  | uniform
  | weighted (weights : List UInt32)
  | drained
  deriving DecidableEq

variable {T I : Type}

/-- The sampler a pool calls for, from scratch. -/
def buildSampler (active : IndexMap EndpointKey (EndpointWithInfo T I)) : Sampler :=
  if active.isEmpty then .uniform
  else if active.values.all fun ewi => ewi.capacity == 0 then .drained
  else if active.values.all fun ewi => ewi.capacity == 1 then .uniform
  else .weighted (active.values.map fun ewi => ewi.capacity)

-- ======== groups

/-- One locality bucket. -/
structure EndpointGroup (T I : Type) where
  active : IndexMap EndpointKey (EndpointWithInfo T I)
  rejected : IndexMap EndpointKey (EndpointWithInfo T I)
  sampler : Sampler

namespace EndpointGroup

def empty : EndpointGroup T I := ⟨Lib.AssocMap.empty, Lib.AssocMap.empty, .uniform⟩

instance : Inhabited (EndpointGroup T I) := ⟨empty⟩

/-- A group over given pools, with its sampler derived from scratch. -/
def fromPools (active rejected : IndexMap EndpointKey (EndpointWithInfo T I)) : EndpointGroup T I :=
  ⟨active, rejected, buildSampler active⟩

variable (g : EndpointGroup T I) (key : EndpointKey)

/-- The changes after which the cached sampler still describes the
pool. -/
def samplerPreserved (addedEpCap : Option UInt32) : Bool :=
  match g.sampler, addedEpCap with
  | .uniform, some c => c == 1
  | .uniform, none => true
  | .drained, some c => c == 0
  | .drained, none => !g.active.isEmpty
  | .weighted _, _ => false

/-- Rebuild the sampler, unless the change is guaranteed to preserve
the distribution. -/
def updateSampler (addedEpCap : Option UInt32) : EndpointGroup T I :=
  if g.samplerPreserved addedEpCap then g
  else { g with sampler := buildSampler g.active }

/-- Promote an endpoint to active, removing a prior rejected entry
under the same key. -/
def add (ep : EndpointWithInfo T I) : EndpointGroup T I :=
  { g with
    rejected := g.rejected.swapRemove key
    active := g.active.insert key ep }.updateSampler (some ep.capacity)

/-- Remove an endpoint. As in the source, the rejected pool is looked at
only when the active one had no such key. -/
def remove : EndpointGroup T I :=
  if g.active.contains key then
    { g with active := g.active.swapRemove key }.updateSampler none
  else if g.rejected.contains key then
    { g with rejected := g.rejected.swapRemove key }.updateSampler none
  else g

/-- Move an endpoint from active to rejected; no-op if not active. -/
def evict : EndpointGroup T I :=
  match g.active.get? key with
  | some ep =>
    { g with
      active := g.active.swapRemove key
      rejected := g.rejected.insert key ep }.updateSampler none
  | none => g

/-- Move an endpoint from rejected to active; no-op if not rejected. The
edit the source makes to the shared info on the way is the caller's. -/
def unevict : EndpointGroup T I :=
  match g.rejected.get? key with
  | some ep =>
    { g with
      rejected := g.rejected.swapRemove key
      active := g.active.insert key ep }.updateSampler (some ep.capacity)
  | none => g

@[simp] theorem updateSampler_active
    (c : Option UInt32) : (g.updateSampler c).active = g.active := by
  unfold updateSampler
  split <;> rfl

@[simp] theorem updateSampler_rejected
    (c : Option UInt32) : (g.updateSampler c).rejected = g.rejected := by
  unfold updateSampler
  split <;> rfl

/-- Whether either pool has the key, the test of `find_bucket`. -/
def containsKey : Bool :=
  g.active.contains key || g.rejected.contains key

end EndpointGroup

-- ======== sets

/-- An endpoint set: one group per priority level. The eviction channel
and worker state belong to the eviction model. -/
structure EndpointSet (T I : Type) where
  buckets : List (EndpointGroup T I)

/-- `EndpointEvent`: what a service-discovery update asks for. -/
inductive EndpointEvent (T I : Type)
  | add (key : EndpointKey) (ep : EndpointWithInfo T I) (bucket : Nat)
  | delete (key : EndpointKey)

namespace EndpointSet

def newEmpty (priorityLevels : Nat) : EndpointSet T I :=
  ⟨List.replicate priorityLevels EndpointGroup.empty⟩

variable (s : EndpointSet T I)

/-- The first bucket that has the key in either pool. -/
def findBucketAtomic (key : EndpointKey) : Option Nat :=
  s.buckets.findIdx? fun g => g.containsKey key

def modifyBucket (b : Nat) (f : EndpointGroup T I → EndpointGroup T I) : EndpointSet T I :=
  ⟨s.buckets.modify b f⟩

/-- Apply an event. An addition to a bucket out of range is dropped. -/
def event : EndpointEvent T I → EndpointSet T I
  | .add key ep bucket =>
    if bucket < s.buckets.length then
      s.modifyBucket bucket fun g => g.add key ep
    else s
  | .delete key =>
    match s.findBucketAtomic key with
    | some b => s.modifyBucket b fun g => g.remove key
    | none => s

def remove (key : EndpointKey) : EndpointSet T I :=
  s.event (.delete key)

/-- Put an entry into the bucket its endpoint ranks into; an endpoint
without a rank, or ranked out of range, is dropped. -/
def place (n : Nat) (ranker : T → Option Nat)
    (into : List (IndexMap EndpointKey (EndpointWithInfo T I)))
    (e : EndpointKey × EndpointWithInfo T I) : List (IndexMap EndpointKey (EndpointWithInfo T I)) :=
  match ranker e.2.endpoint with
  | some b => if b < n then into.modify b fun m => m.insert e.1 e.2 else into
  | none => into

/-- The new maps of one pool. -/
def redistribute (n : Nat) (ranker : T → Option Nat)
    (entries : List (EndpointKey × EndpointWithInfo T I)) :
    List (IndexMap EndpointKey (EndpointWithInfo T I)) :=
  entries.foldl (place n ranker) (List.replicate n Lib.AssocMap.empty)

/-- Redistribute every endpoint, pool by pool; the infos move along. -/
def rebucket (ranker : T → Option Nat) : EndpointSet T I :=
  let n := s.buckets.length
  ⟨List.zipWith EndpointGroup.fromPools
    (redistribute n ranker (s.buckets.flatMap fun g => g.active.entries))
    (redistribute n ranker (s.buckets.flatMap fun g => g.rejected.entries))⟩

def numBuckets : Nat := s.buckets.length

/-- Every entry of every pool, active entries of a bucket first, with
the index of the bucket. -/
def slots : List (Nat × EndpointKey × EndpointWithInfo T I) :=
  s.buckets.zipIdx.flatMap fun gb =>
    (gb.1.active.entries ++ gb.1.rejected.entries).map fun e =>
      (gb.2, e.1, e.2)

end EndpointSet

-- ======== eviction

open Lib

variable {T : Type}

structure EvictionEvent where
  key : EndpointKey
  till : Instant

structure UnevictEntry where
  till : Instant
  key : EndpointKey
  deriving DecidableEq

/-- The order of the heap, reversed in time: the greatest entry is the
earliest, and of those the one with the greatest key. -/
def UnevictEntry.cmp (a b : UnevictEntry) : Ordering :=
  (compare b.till a.till).then (compare a.key b.key)

/-- `BinaryHeap::peek`: a greatest entry. -/
def heapPeek : List UnevictEntry → Option UnevictEntry
  | [] => none
  | e :: es =>
    match heapPeek es with
    | none => some e
    | some m => if (e.cmp m).isGE then some e else some m

/-- A request under way: the endpoint's key and its shared info. -/
structure ActiveHandle where
  key : EndpointKey
  info : Nat

structure EvictionState (T : Type) where
  set : EndpointSet T Nat
  infos : Arena EndpointInfo
  handles : List ActiveHandle
  channel : List EvictionEvent
  unevictionHeap : List UnevictEntry
  now : Instant

namespace EvictionState

def init (priorityLevels : Nat) : EvictionState T :=
  ⟨EndpointSet.newEmpty priorityLevels, Arena.empty, [], [], [], 0⟩

def evictedUntil (s : EvictionState T) (info : Nat) : Option Instant :=
  (s.infos.read? info).bind EndpointInfo.evictedUntil

-- ======== discovery

variable (s : EvictionState T)

/-- An endpoint comes with an info of its own. -/
def insertKey (key : EndpointKey) (ep : T) (capacity : UInt32) (bucket : Nat) : EvictionState T :=
  let (infos, info) := s.infos.alloc default
  { s with
    infos := infos
    set := s.set.event (.add key ⟨ep, info, capacity⟩ bucket) }

-- ======== requests

/-- A request to the endpoint under the key, evicted or not. -/
def startRequest (bucket : Nat) (rejected : Bool)
    (key : EndpointKey) : Option (EvictionState T) := do
  let g ← s.set.buckets[bucket]?
  let ewi ← (if rejected then g.rejected else g.active).get? key
  some { s with
    infos := s.infos.update ewi.info fun i =>
      { i with totalRequests := i.totalRequests + 1 }
    handles := s.handles ++ [⟨key, ewi.info⟩] }

def recordOutcome (success : Bool) (evicts : Bool) (i : EndpointInfo) : EndpointInfo :=
  let i :=
    if success then { i with consecutiveFailures := 0, timesEjected := 0 }
    else { i with consecutiveFailures := i.consecutiveFailures + 1 }
  if evicts then { i with timesEjected := i.timesEjected + 1 } else i

/-- A request ends, perhaps with an eviction; one that is under way
already is left as it is. -/
def finishRequest (handle : ActiveHandle)
    (success : Bool) (evictionTime : Option Nat) : EvictionState T :=
  let s := { s with
    infos := s.infos.update handle.info (recordOutcome success evictionTime.isSome) }
  match evictionTime with
  | none => s
  | some evictionTime =>
    let time := s.now + evictionTime
    -- compare and swap: only the first eviction sets the deadline
    match s.evictedUntil handle.info with
    | some _ => s
    | none =>
      { s with
        infos := s.infos.update handle.info fun i =>
          { i with evictedUntil := some time }
        channel := s.channel ++ [⟨handle.key, time⟩] }

-- ======== worker

def handleRecvEvict (item : EvictionEvent) : EvictionState T :=
  match s.set.findBucketAtomic item.key with
  | none => s
  | some b =>
    { s with
      unevictionHeap := s.unevictionHeap ++ [⟨item.till, item.key⟩]
      set := s.set.modifyBucket b fun g => g.evict item.key }

def handleEviction (entry : UnevictEntry) : EvictionState T :=
  match s.set.findBucketAtomic entry.key with
  | none => s
  | some b =>
    -- the edit `unevict` makes on its way back
    let edited := (s.set.buckets[b]?).bind fun g => g.rejected.get? entry.key
    { s with
      infos :=
        match edited with
        | some ep => s.infos.update ep.info fun i =>
          { i with evictedUntil := none }
        | none => s.infos
      set := s.set.modifyBucket b fun g => g.unevict entry.key }

end EvictionState

-- ======== actions

inductive Action (T : Type)
  | insert (key : EndpointKey) (ep : T) (capacity : UInt32) (bucket : Nat)
  | remove (key : EndpointKey)
  | rebucket (ranker : T → Option Nat)
  | start (bucket : Nat) (rejected : Bool) (key : EndpointKey)
  | finish (handle : Nat) (success : Bool) (evictionTime : Option Nat)
  | recv (event : Nat)
  | pop
  | tick (now : Instant)

/-- The turns of the worker loop. -/
def Action.isWorker : Action T → Bool
  | .recv _ => true
  | .pop => true
  | _ => false

namespace EvictionState

def step (s : EvictionState T) : Action T → Option (EvictionState T)
  | .insert key ep capacity bucket => some (s.insertKey key ep capacity bucket)
  | .remove key => some { s with set := s.set.remove key }
  | .rebucket ranker => some { s with set := s.set.rebucket ranker }
  | .start bucket rejected key => s.startRequest bucket rejected key
  | .finish handle success evictionTime => do
      let handle ← s.handles[handle]?
      some (s.finishRequest handle success evictionTime)
  | .recv event => do
      let item ← s.channel[event]?
      some ({ s with channel := s.channel.eraseIdx event }.handleRecvEvict item)
  | .pop => do
      -- the loop sleeps until the first deadline
      let entry ← heapPeek s.unevictionHeap
      if entry.till ≤ s.now then
        some ({ s with
          unevictionHeap := s.unevictionHeap.erase entry }.handleEviction entry)
      else none
  | .tick now => if s.now ≤ now then some { s with now := now } else none

def run (s : EvictionState T) (actions : List (Action T)) : Option (EvictionState T) :=
  actions.foldlM step s

end EvictionState

open Lib List AssocMap EndpointGroup

variable {T I : Type}

inductive Pool
  | active
  | rejected
  deriving DecidableEq

def EndpointGroup.pool (g : EndpointGroup T I) : Pool → IndexMap EndpointKey (EndpointWithInfo T I)
  | .active => g.active
  | .rejected => g.rejected

namespace EndpointSet

/-- Entry `e` sits under `k` in pool `p` of bucket `b`. -/
def At (s : EndpointSet T I) (b : Nat) (p : Pool) (k : EndpointKey)
    (e : EndpointWithInfo T I) : Prop :=
  ∃ g, s.buckets[b]? = some g ∧ (g.pool p).get? k = some e

/-- Every key sits in one pool of one bucket. -/
def Distinct (s : EndpointSet T I) : Prop :=
  ∀ ⦃k b p e b' p' e'⦄, s.At b p k e → s.At b' p' k e' → b = b' ∧ p = p'

def Has (s : EndpointSet T I) (k : EndpointKey) : Prop :=
  ∃ b p e, s.At b p k e

variable {s s' : EndpointSet T I} {b b' : Nat} {p dst : Pool} {k k' : EndpointKey}
  {e ep : EndpointWithInfo T I} {g : EndpointGroup T I}
  {f : EndpointGroup T I → EndpointGroup T I} {ranker : T → Option Nat} {g' : EndpointGroup T I}
  {n : Nat}

theorem at_unique (hd : s.Distinct) {p' : Pool} {e' : EndpointWithInfo T I}
    (h : s.At b p k e) (h' : s.At b' p' k e') : b = b' ∧ p = p' ∧ e = e' := by
  obtain ⟨rfl, rfl⟩ := hd h h'
  obtain ⟨g, hg, he⟩ := h
  obtain ⟨g', hg', he'⟩ := h'
  rw [hg] at hg'
  cases hg'
  rw [he] at he'
  cases he'
  exact ⟨rfl, rfl, rfl⟩

-- ======== slots and `At`

theorem exists_pool {q : Pool → Prop} : (∃ p, q p) ↔ q .active ∨ q .rejected := by
  constructor
  · rintro ⟨_ | _, h⟩
    · exact .inl h
    · exact .inr h
  · rintro (h | h)
    · exact ⟨_, h⟩
    · exact ⟨_, h⟩

theorem mem_slots : (b, k, e) ∈ s.slots ↔ ∃ p, s.At b p k e := by
  simp only [exists_pool, At, pool, ← mem_entries, slots,
    mem_flatMap, mem_map, mem_append, Prod.mk.injEq, Prod.exists,
    mem_zipIdx_iff_getElem?]
  constructor
  · rintro ⟨g, i, hg, k', e', hmem | hmem, rfl, rfl, rfl⟩
    · exact .inl ⟨g, hg, hmem⟩
    · exact .inr ⟨g, hg, hmem⟩
  · rintro (⟨g, hg, hmem⟩ | ⟨g, hg, hmem⟩)
    · exact ⟨g, b, hg, k, e, .inl hmem, rfl, rfl, rfl⟩
    · exact ⟨g, b, hg, k, e, .inr hmem, rfl, rfl, rfl⟩

/-- The keys a bucket contributes to `slots` are the keys of its
pools. -/
private theorem mem_group_keys {i : Nat} :
    k ∈ ((g.active.entries ++ g.rejected.entries).map fun e =>
        (i, e.1, e.2)).map (fun x => x.2.1) ↔ ∃ p e, (g.pool p).get? k = some e := by
  simp only [map_map, mem_map, mem_append, Function.comp_apply,
    Prod.exists, exists_and_right, exists_eq_right, exists_or, exists_pool,
    pool, ← mem_entries]

/-- Under `Distinct`, no key is listed twice over all pools. -/
theorem slots_keys_nodup (hd : s.Distinct) : (s.slots.map fun x => x.2.1).Nodup := by
  rw [slots, map_flatMap, nodup_flatMap]
  constructor
  · rintro ⟨g, i⟩ hgi
    have hg := mem_zipIdx_iff_getElem?.1 hgi
    rw [map_map]
    rw [map_append, nodup_append]
    refine ⟨g.active.nodup, g.rejected.nodup, ?_⟩
    intro k hk k' hk' hkk
    subst hkk
    obtain ⟨e, he⟩ := mem_keys.1 hk
    obtain ⟨e', he'⟩ := mem_keys.1 hk'
    have hact : s.At i .active k e := ⟨g, hg, he⟩
    have hrej : s.At i .rejected k e' := ⟨g, hg, he'⟩
    cases (hd hact hrej).2
  · rw [pairwise_iff_getElem]
    intro i j hi hj hij
    rw [length_zipIdx] at hi hj
    rw [getElem_zipIdx, getElem_zipIdx]
    refine disjoint_left.2 fun k hk hk' => ?_
    obtain ⟨p, e, he⟩ := mem_group_keys.1 hk
    obtain ⟨p', e', he'⟩ := mem_group_keys.1 hk'
    have hati : s.At i p k e := ⟨_, getElem?_eq_getElem hi, he⟩
    have hatj : s.At j p' k e' := ⟨_, getElem?_eq_getElem hj, he'⟩
    have hij' := (hd hati hatj).1
    omega

-- ======== group steps

theorem pool_add : ((g.add k ep).pool p).get? k' = some e
      ↔ (k' = k ∧ p = .active ∧ e = ep) ∨ (k' ≠ k ∧ (g.pool p).get? k' = some e) := by
  cases p with
  | active =>
    simp only [add, pool, updateSampler_active, get?_insert]
    by_cases hk : k' = k <;> simp [hk, eq_comm]
  | rejected =>
    simp only [add, pool,
      updateSampler_rejected, get?_swapRemove,
      get?_erase]
    by_cases hk : k' = k <;> simp [hk]

/-- `remove` takes the key out of the first pool that has it. -/
theorem get?_remove : ((g.remove k).pool p).get? k'
      = if k' = k ∧ p = (if g.active.contains k then .active else .rejected) then none
        else (g.pool p).get? k' := by
  unfold EndpointGroup.remove
  split
  · cases p <;> simp [pool, get?_swapRemove, get?_erase]
  · split
    · cases p <;>
        simp [pool, get?_swapRemove, get?_erase]
    · next hrej =>
      have hnone : g.rejected.get? k = none := by simpa [AssocMap.contains] using hrej
      split
      · next hk =>
        rw [hk.1, hk.2]
        exact hnone
      · rfl

/-- What `remove` leaves in the pools, when the key is not in both. -/
theorem pool_remove (hone : g.active.contains k → g.rejected.get? k = none) :
    ((g.remove k).pool p).get? k' = some e ↔ k' ≠ k ∧ (g.pool p).get? k' = some e := by
  rw [get?_remove]
  by_cases hk : k' = k
  · subst hk
    cases hact : g.active.contains k' with
    | true => cases p <;> simp [pool, hone hact]
    | false =>
      have hnone : g.active.get? k' = none := by simpa [AssocMap.contains] using hact
      cases p <;> simp [pool, hnone]
  · simp [hk]

theorem containsKey_iff : g.containsKey k ↔ ∃ p e, (g.pool p).get? k = some e := by
  rw [exists_pool, containsKey, Bool.or_eq_true, AssocMap.contains_iff, AssocMap.contains_iff]
  rfl

-- ======== set steps

/-- Editing one bucket, read through `At`. -/
theorem at_modifyBucket : (s.modifyBucket b f).At b' p k e
      ↔ ∃ g, s.buckets[b']? = some g ∧ ((if b' = b then f g else g).pool p).get? k = some e := by
  unfold At modifyBucket
  rw [getElem?_modify]
  cases s.buckets[b']? with
  | none => simp
  | some g =>
    by_cases hbb : b' = b
    · simp [hbb]
    · simp [hbb, Ne.symm hbb]

@[simp] theorem numBuckets_modifyBucket (s : EndpointSet T I) (b : Nat)
    (f : EndpointGroup T I → EndpointGroup T I) :
    (s.modifyBucket b f).numBuckets = s.numBuckets := by
  simp [numBuckets, modifyBucket]

@[simp] theorem numBuckets_event (s : EndpointSet T I)
    (ev : EndpointEvent T I) : (s.event ev).numBuckets = s.numBuckets := by
  cases ev with
  | add | delete =>
    simp only [event]
    split <;> simp

/-- An addition in range puts the entry into the active pool of its
bucket, replacing whatever that bucket had under the key; other buckets
keep what they have. -/
theorem event_add_at (hb : b < s.numBuckets) : (s.event (.add k ep b)).At b' p k' e
      ↔ (k' = k ∧ b' = b ∧ p = .active ∧ e = ep) ∨ ((k' ≠ k ∨ b' ≠ b) ∧ s.At b' p k' e) := by
  rw [event, if_pos (show b < s.buckets.length from hb), at_modifyBucket]
  by_cases hbb : b' = b
  · subst hbb
    simp only [if_true, pool_add]
    constructor
    · rintro ⟨g, hg, ⟨rfl, rfl, rfl⟩ | ⟨hk, he⟩⟩
      · exact Or.inl ⟨rfl, trivial, rfl, rfl⟩
      · exact Or.inr ⟨Or.inl hk, g, hg, he⟩
    · rintro (⟨rfl, -, rfl, rfl⟩ | ⟨hk, g, hg, he⟩)
      · exact ⟨_, getElem?_eq_getElem hb, Or.inl ⟨rfl, rfl, rfl⟩⟩
      · exact ⟨g, hg, Or.inr ⟨by simpa using hk, he⟩⟩
  · simp only [if_neg hbb]
    constructor
    · rintro ⟨g, hg, he⟩
      exact Or.inr ⟨Or.inr hbb, g, hg, he⟩
    · rintro (⟨-, hb', -⟩ | ⟨-, g, hg, he⟩)
      · exact absurd hb' hbb
      · exact ⟨g, hg, he⟩

theorem findBucketAtomic_eq_some (h : s.findBucketAtomic k = some b) : ∃ p e, s.At b p k e := by
  obtain ⟨hlt, hcon, -⟩ := findIdx?_eq_some_iff_getElem.1 h
  obtain ⟨p, e, he⟩ := containsKey_iff.1 hcon
  exact ⟨p, e, _, getElem?_eq_getElem hlt, he⟩

theorem findBucketAtomic_eq_none : s.findBucketAtomic k = none ↔ ¬ s.Has k := by
  rw [findBucketAtomic, findIdx?_eq_none_iff]
  constructor
  · rintro h ⟨b, p, e, g, hg, he⟩
    have hno := h g (mem_of_getElem? hg)
    rw [containsKey_iff.2 ⟨p, e, he⟩] at hno
    cases hno
  · intro h g hg
    obtain ⟨b, hb⟩ := mem_iff_getElem?.1 hg
    cases hc : g.containsKey k with
    | false => rfl
    | true =>
      obtain ⟨p, e, he⟩ := containsKey_iff.1 hc
      exact absurd ⟨b, p, e, g, hb, he⟩ h

/-- Under `Distinct` the found bucket is the only one with the key. -/
theorem findBucketAtomic_of_at (hd : s.Distinct) (h : s.At b p k e) :
    s.findBucketAtomic k = some b := by
  cases hf : s.findBucketAtomic k with
  | none => exact absurd ⟨b, p, e, h⟩ (findBucketAtomic_eq_none.1 hf)
  | some b' =>
    obtain ⟨p', e', h'⟩ := findBucketAtomic_eq_some hf
    rw [(hd h h').1]

/-- Under `Distinct` a group of the set has a key in one pool only, as
`pool_remove` asks. -/
private theorem delete_one_pool (hd : s.Distinct) (hg : s.buckets[b]? = some g) :
    g.active.contains k → g.rejected.get? k = none := by
  intro hact
  obtain ⟨e, he⟩ := contains_iff.1 hact
  cases hr : g.rejected.get? k with
  | none => rfl
  | some e' =>
    have hacta : s.At b .active k e := ⟨g, hg, he⟩
    have hreja : s.At b .rejected k e' := ⟨g, hg, hr⟩
    cases (hd hacta hreja).2

theorem event_delete_at (hd : s.Distinct) :
    (s.event (.delete k)).At b p k' e ↔ k' ≠ k ∧ s.At b p k' e := by
  rw [event]
  cases hf : s.findBucketAtomic k with
  | none =>
    have hno := findBucketAtomic_eq_none.1 hf
    constructor
    · intro h
      refine ⟨?_, h⟩
      rintro rfl
      exact hno ⟨b, p, e, h⟩
    · exact fun h => h.2
  | some b₀ =>
    rw [at_modifyBucket]
    by_cases hbb : b = b₀
    · subst hbb
      simp only [if_true]
      constructor
      · rintro ⟨g, hg, he⟩
        have := (pool_remove (delete_one_pool hd hg)).1 he
        exact ⟨this.1, g, hg, this.2⟩
      · rintro ⟨hk, g, hg, he⟩
        exact ⟨g, hg, (pool_remove (delete_one_pool hd hg)).2 ⟨hk, he⟩⟩
    · simp only [if_neg hbb]
      constructor
      · rintro ⟨g, hg, he⟩
        refine ⟨?_, g, hg, he⟩
        rintro rfl
        have hb := findBucketAtomic_of_at hd ⟨g, hg, he⟩
        rw [hf] at hb
        cases hb
        exact hbb rfl
      · rintro ⟨-, g, hg, he⟩
        exact ⟨g, hg, he⟩

/-- Additions keep `Distinct` when no other bucket has the key. -/
theorem distinct_event_add (hd : s.Distinct) (hfree : ∀ b' p e, s.At b' p k e → b' = b) :
    (s.event (.add k ep b)).Distinct := by
  by_cases hb : b < s.numBuckets
  · intro k' b₁ p₁ e₁ b₂ p₂ e₂ h₁ h₂
    -- an old entry under `k` would sit in bucket `b`, where it was replaced
    have hold : ∀ b' p e, (k' ≠ k ∨ b' ≠ b) → s.At b' p k' e → k' ≠ k := by
      rintro b' p e (hk | hb') hat
      · exact hk
      · rintro rfl
        exact hb' (hfree b' p e hat)
    rcases (event_add_at hb).1 h₁ with ⟨hk₁, hb₁, hp₁, -⟩ | ⟨hc₁, hat₁⟩ <;>
    rcases (event_add_at hb).1 h₂ with ⟨hk₂, hb₂, hp₂, -⟩ | ⟨hc₂, hat₂⟩
    · exact ⟨hb₁.trans hb₂.symm, hp₁.trans hp₂.symm⟩
    · exact absurd hk₁ (hold _ _ _ hc₂ hat₂)
    · exact absurd hk₂ (hold _ _ _ hc₁ hat₁)
    · exact hd hat₁ hat₂
  · rw [event, if_neg (show ¬ b < s.buckets.length from hb)]
    exact hd

theorem distinct_event_delete (hd : s.Distinct) (k : EndpointKey) :
    (s.event (.delete k)).Distinct := by
  intro k' b₁ p₁ e₁ b₂ p₂ e₂ h₁ h₂
  exact hd ((event_delete_at hd).1 h₁).2 ((event_delete_at hd).1 h₂).2

-- ======== eviction and return

/-- What is under the key, if anything, is now in pool `dst`; the rest is
where it was. -/
def MovedTo (s s' : EndpointSet T I) (k : EndpointKey) (dst : Pool) : Prop :=
  ∀ b p k' e, s'.At b p k' e ↔ (k' ≠ k ∧ s.At b p k' e) ∨ (k' = k ∧ p = dst ∧ ∃ p', s.At b p' k e)

def other : Pool → Pool
  | .active => .rejected
  | .rejected => .active

/-- What moving a key to `dst` makes of a group: an entry under the key goes there
from the other pool. -/
def Moves (g g' : EndpointGroup T I) (k : EndpointKey) (dst : Pool) : Prop :=
  ∀ p k', (g'.pool p).get? k' = match (g.pool (other dst)).get? k with
    | some ep =>
      if k' = k then if p = dst then some ep else none else (g.pool p).get? k'
    | none => (g.pool p).get? k'

theorem moves_evict (g : EndpointGroup T I) (k : EndpointKey) :
    Moves g (g.evict k) k .rejected := by
  intro p k'
  unfold evict
  cases hact : g.active.get? k with
  | none => simp [pool, other, hact]
  | some ep =>
    cases p <;> simp [pool, other, hact, get?_insert, get?_swapRemove, get?_erase]

theorem moves_unevict (g : EndpointGroup T I) (k : EndpointKey) :
    Moves g (g.unevict k) k .active := by
  intro p k'
  unfold unevict
  cases hrej : g.rejected.get? k with
  | none => simp [pool, other, hrej]
  | some ep =>
    cases p <;> simp [pool, other, hrej, get?_insert, get?_swapRemove, get?_erase]

theorem eq_or_eq_other (p dst : Pool) : p = dst ∨ p = other dst := by
  cases p <;> cases dst <;> decide

/-- When the key is not in both pools, all that is under it is in `dst`. -/
theorem Moves.pool (h : Moves g g' k dst)
    (hone : g.active.contains k → g.rejected.get? k = none) :
    (g'.pool p).get? k' = some e ↔ (k' ≠ k ∧ (g.pool p).get? k' = some e)
        ∨ (k' = k ∧ p = dst ∧ ∃ p', (g.pool p').get? k = some e) := by
  rw [h p k']
  by_cases hk : k' = k
  · subst hk
    cases hsrc : (g.pool (other dst)).get? k' with
    | none =>
      have hdst : ∀ p', (g.pool p').get? k' = some e → p' = dst := by
        intro p' hp'
        refine (eq_or_eq_other p' dst).resolve_right fun heq => ?_
        rw [heq, hsrc] at hp'
        cases hp'
      refine ⟨fun he => .inr ⟨rfl, hdst p he, p, he⟩, fun he => ?_⟩
      obtain ⟨hk, -⟩ | ⟨-, rfl, p', he⟩ := he
      · exact absurd rfl hk
      · exact hdst p' he ▸ he
    | some ep =>
      have hdst : (g.pool dst).get? k' = none := by
        cases dst with
        | rejected => exact hone (contains_iff.2 ⟨ep, hsrc⟩)
        | active =>
          refine Option.eq_none_iff_forall_ne_some.2 fun ep' hact => ?_
          have hno := hone (contains_iff.2 ⟨ep', hact⟩)
          rw [show g.rejected.get? k' = some ep from hsrc] at hno
          cases hno
      have hsome : (∃ p', (g.pool p').get? k' = some e) ↔ ep = e := by
        refine ⟨fun he => ?_, fun he => ⟨other dst, he ▸ hsrc⟩⟩
        obtain ⟨p', he⟩ := he
        rcases eq_or_eq_other p' dst with rfl | rfl
        · rw [hdst] at he
          cases he
        · exact Option.some.inj (hsrc.symm.trans he)
      by_cases hp : p = dst <;> simp [hp, hsome]
  · cases (g.pool (other dst)).get? k <;> simp [hk]

/-- Without that, what there is was there before, or comes from the other pool. -/
theorem Moves.only (h : Moves g g' k dst) (he : (g'.pool p).get? k' = some e) :
    (g.pool p).get? k' = some e ∨ (k' = k ∧ p = dst ∧ ∃ p', (g.pool p').get? k' = some e) := by
  rw [h p k'] at he
  cases hsrc : (g.pool (other dst)).get? k with
  | none =>
    rw [hsrc] at he
    exact .inl he
  | some ep =>
    rw [hsrc] at he
    dsimp only at he
    split at he
    · next hk =>
      split at he
      · next hp => exact .inr ⟨hk, hp, other dst, by rw [hk, hsrc, he]⟩
      · cases he
    · exact .inl he

theorem movedTo_modifyBucket (hd : s.Distinct) (hf : s.findBucketAtomic k = some b)
    (hgroup : ∀ {g p k' e}, (g.active.contains k → g.rejected.get? k = none) →
      (((f g).pool p).get? k' = some e ↔ (k' ≠ k ∧ (g.pool p).get? k' = some e)
        ∨ (k' = k ∧ p = dst ∧ ∃ p', (g.pool p').get? k = some e))) :
    MovedTo s (s.modifyBucket b f) k dst := by
  intro b' p k' e
  rw [at_modifyBucket]
  by_cases hbb : b' = b
  · subst hbb
    simp only [if_true]
    refine ⟨fun h => ?_, fun h => ?_⟩
    · obtain ⟨g, hg, he⟩ := h
      rcases (hgroup (delete_one_pool hd hg)).1 he with ⟨hk, he⟩ | ⟨hk, hp, p', he⟩
      · exact .inl ⟨hk, g, hg, he⟩
      · exact .inr ⟨hk, hp, p', g, hg, he⟩
    · rcases h with ⟨hk, g, hg, he⟩ | ⟨hk, hp, p', g, hg, he⟩
      · exact ⟨g, hg, (hgroup (delete_one_pool hd hg)).2 (.inl ⟨hk, he⟩)⟩
      · exact ⟨g, hg, (hgroup (delete_one_pool hd hg)).2 (.inr ⟨hk, hp, p', he⟩)⟩
  · have hno : ∀ p' e', ¬ s.At b' p' k e' := by
      intro p' e' hat
      have hb := findBucketAtomic_of_at hd hat
      rw [hf] at hb
      exact hbb (Option.some.inj hb).symm
    simp only [if_neg hbb]
    refine ⟨fun h => ?_, fun h => ?_⟩
    · refine .inl ⟨fun hk => ?_, h⟩
      subst hk
      exact hno p e h
    · rcases h with ⟨-, h⟩ | ⟨-, -, p', h⟩
      · exact h
      · exact absurd h (hno p' e)

theorem MovedTo.distinct (h : MovedTo s s' k dst) (hd : s.Distinct) : s'.Distinct := by
  intro k' b p e b' p' e' hat hat'
  rcases (h _ _ _ _).1 hat with ⟨hk, hat⟩ | ⟨hk, hp, p₁, hat⟩
  · rcases (h _ _ _ _).1 hat' with ⟨-, hat'⟩ | ⟨hk', -⟩
    · exact hd hat hat'
    · exact absurd hk' hk
  · rcases (h _ _ _ _).1 hat' with ⟨hk', -⟩ | ⟨-, hp', p₂, hat'⟩
    · exact absurd hk hk'
    · exact ⟨(hd hat hat').1, hp.trans hp'.symm⟩

theorem MovedTo.kept (h : MovedTo s s' k dst) (hat : s.At b p k' e) : ∃ p', s'.At b p' k' e := by
  by_cases hk : k' = k
  · subst hk
    exact ⟨dst, (h _ _ _ _).2 (.inr ⟨rfl, rfl, p, hat⟩)⟩
  · exact ⟨p, (h _ _ _ _).2 (.inl ⟨hk, hat⟩)⟩

-- ======== keys in more than one place

/-- All there is now was there before, or was moved to `dst` from the
other pool of its bucket, under the key. -/
def MovesOnly (s s' : EndpointSet T I) (k : EndpointKey) (dst : Pool) : Prop :=
  ∀ ⦃b p k' e⦄, s'.At b p k' e → s.At b p k' e ∨ (k' = k ∧ p = dst ∧ ∃ p', s.At b p' k' e)

theorem MovesOnly.back (h : MovesOnly s s' k dst) (hat : s'.At b p k' e) :
    ∃ p', s.At b p' k' e := by
  rcases h hat with hat | ⟨-, -, hat⟩
  · exact ⟨p, hat⟩
  · exact hat

theorem movesOnly_modifyBucket (hgroup : ∀ {g p k' e}, ((f g).pool p).get? k' = some e →
      (g.pool p).get? k' = some e ∨ (k' = k ∧ p = dst ∧ ∃ p', (g.pool p').get? k' = some e)) :
    MovesOnly s (s.modifyBucket b f) k dst := by
  intro b' p k' e hat
  obtain ⟨g, hg, he⟩ := at_modifyBucket.1 hat
  split at he
  · rcases hgroup he with he | ⟨hk, hp, p', he⟩
    · exact .inl ⟨g, hg, he⟩
    · exact .inr ⟨hk, hp, p', g, hg, he⟩
  · exact .inl ⟨g, hg, he⟩

theorem at_of_remove (h : (s.remove k).At b p k' e) : s.At b p k' e := by
  rw [remove, event] at h
  split at h
  · obtain ⟨g, hg, he⟩ := at_modifyBucket.1 h
    split at he
    · rw [get?_remove, Option.ite_none_left_eq_some] at he
      exact ⟨g, hg, he.2⟩
    · exact ⟨g, hg, he⟩
  · exact h

-- ======== rebucket

/-- The maps are filled from the entries, by rank. -/
def Placed (ranker : T → Option Nat) (entries : List (EndpointKey × EndpointWithInfo T I))
    (into : List (IndexMap EndpointKey (EndpointWithInfo T I))) : Prop :=
  ∀ b m k e, into[b]? = some m → m.get? k = some e → (k, e) ∈ entries ∧ ranker e.endpoint = some b

theorem placed_place {entries : List (EndpointKey × EndpointWithInfo T I)}
    {into : List (IndexMap EndpointKey (EndpointWithInfo T I))} (h : Placed ranker entries into)
    {x : EndpointKey × EndpointWithInfo T I} (hx : x ∈ entries) :
    Placed ranker entries (place n ranker into x) := by
  unfold place
  split
  · next b₀ hrank =>
    split
    · intro b m k e hm he
      rw [getElem?_modify] at hm
      obtain ⟨m₀, hm₀, hedit⟩ := Option.map_eq_some_iff.1 hm
      by_cases hb : b₀ = b
      · rw [if_pos hb] at hedit
        rw [← hedit, get?_insert] at he
        split at he
        · next hk =>
          cases he
          subst hk hb
          exact ⟨hx, hrank⟩
        · exact h b m₀ k e hm₀ he
      · rw [if_neg hb] at hedit
        exact h b m₀ k e hm₀ (hedit ▸ he)
    · exact h
  · exact h

theorem placed_redistribute (n : Nat) (ranker : T → Option Nat)
    (entries : List (EndpointKey × EndpointWithInfo T I)) :
    Placed ranker entries (redistribute n ranker entries) := by
  refine foldlRecOn entries _ ?_ fun into h x hx => placed_place h hx
  intro b m k e hm he
  rw [eq_of_mem_replicate (mem_of_getElem? hm)] at he
  cases he

/-- What a rebucketing leaves was there before, in the same pool, and is
in the bucket of its rank. -/
theorem at_of_rebucket (h : (s.rebucket ranker).At b p k e) :
    ranker e.endpoint = some b ∧ ∃ b', s.At b' p k e := by
  obtain ⟨g, hg, he⟩ := h
  obtain ⟨active, rejected, ha, hr, rfl⟩ := getElem?_zipWith_eq_some.1 hg
  have hback : ∀ {m : IndexMap EndpointKey (EndpointWithInfo T I)},
      (redistribute s.buckets.length ranker
        (s.buckets.flatMap fun g => (g.pool p).entries))[b]? = some m →
      m.get? k = some e → ranker e.endpoint = some b ∧ ∃ b', s.At b' p k e := by
    intro m hm he
    obtain ⟨hmem, hrank⟩ := placed_redistribute _ _ _ b m k e hm he
    obtain ⟨g, hg, hge⟩ := mem_flatMap.1 hmem
    obtain ⟨b', hb'⟩ := mem_iff_getElem?.1 hg
    exact ⟨hrank, b', g, hb', mem_entries.1 hge⟩
  cases p with
  | active => exact hback ha he
  | rejected => exact hback hr he

theorem distinct_rebucket (hd : s.Distinct) (ranker : T → Option Nat) :
    (s.rebucket ranker).Distinct := by
  intro k b p e b' p' e' h h'
  obtain ⟨hrank, b₁, hat⟩ := at_of_rebucket h
  obtain ⟨hrank', b₂, hat'⟩ := at_of_rebucket h'
  obtain ⟨-, hp, rfl⟩ := at_unique hd hat hat'
  rw [hrank] at hrank'
  exact ⟨Option.some.inj hrank', hp⟩

theorem not_at_newEmpty : ¬ (newEmpty n : EndpointSet T I).At b p k e := by
  rintro ⟨g, hg, he⟩
  have hmem := mem_of_getElem? hg
  rw [eq_of_mem_replicate hmem] at he
  cases p <;> cases he

theorem distinct_newEmpty (n : Nat) : (newEmpty n : EndpointSet T I).Distinct :=
  fun _ _ _ _ _ _ _ h _ => absurd h not_at_newEmpty

@[simp] theorem numBuckets_newEmpty (n : Nat) : (newEmpty n : EndpointSet T I).numBuckets = n := by
  simp [numBuckets, newEmpty]

end EndpointSet

end AgentGateway.Endpoints
