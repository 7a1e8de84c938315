/-
The fetcher of key sets (`Fetcher` and `fetchSchedule` of
`agentgateway/jwks/fetcher.go`).

The schedule is a heap of pointers to entries, and a map from the key of a
request to the pointer. An entry knows its place in the heap, which every
swap updates; by it an entry that the map has is found in the heap.

A key set that policies ask for is a request, with a generation that every
update of it increases. The loop pops what is due, and for each entry looks
the request up, fetches, and schedules the next fetch. It holds the lock
for each of these but for the fetch, so requests come and go while a fetch
is in flight, and how long that takes is open.

A subscriber has a channel with one place, and reads it when it likes or
never. `notifySubscribers` has the lock and goes from one to the next: it
takes back what is in the channel, without waiting, and sends it again with
what is new. Nobody else sends, so there is room. What was passed on since a
subscription and what has been read are recorded beside it.

Times are in milliseconds. The cache of the fetched sets matters for when a
first fetch is due only, and what was read of it comes with the call.
-/
import AgentGateway.Basic
import AgentGateway.Lib.Arena
import AgentGateway.Lib.Heap
import AgentGateway.Lib.Run

namespace AgentGateway.Jwks

open Lib

/-- `remotehttp.FetchKey`. -/
abbrev FetchKey := Strng

/-- `fetchAt`, but for its place in the heap. -/
structure FetchAt where
  at_ : Nat
  requestKey : FetchKey
  generation : Nat
  retryAttempt : Nat
  deriving DecidableEq

/-- A `fetchAt` in memory; no index is `-1`. -/
structure Slot extends FetchAt where
  index : Option Nat

/-- `*fetchAt`. -/
abbrev Ref := Nat

structure FetchSchedule where
  slots : Arena Slot
  heap : List Ref
  scheduled : HashMap FetchKey Ref

namespace FetchSchedule

def new : FetchSchedule := ⟨.empty, [], .empty⟩

-- ======== heap

variable (s : FetchSchedule)

def swap (i j : Nat) : FetchSchedule :=
  match s.heap[i]?, s.heap[j]? with
  | some ri, some rj =>
    let slots := s.slots.update rj fun slot => { slot with index := some i }
    let slots := slots.update ri fun slot => { slot with index := some j }
    { s with
      slots
      heap := (s.heap.set i rj).set j ri }
  | _, _ => s

def atOf (i : Nat) : Nat :=
  (((s.heap[i]?).bind s.slots.read?).map (·.at_)).getD 0

def ops : HeapOps FetchSchedule where
  len s := s.heap.length
  less s i j := decide (s.atOf i < s.atOf j)
  swap

/-- `fetchHeap.Pop`: the last element. -/
def popLast : Option (FetchAt × FetchSchedule) :=
  match s.heap.getLast? with
  | some r =>
    (s.slots.read? r).map fun slot =>
      (slot.toFetchAt, { s with
        slots := s.slots.update r fun slot => { slot with index := none }
        heap := s.heap.dropLast })
  | none => none

-- ======== schedule

def peek : Option FetchAt :=
  (s.heap.head?.bind s.slots.read?).map (·.toFetchAt)

/-- One round of the loop of `PopDue`. -/
def popFirst : Option (FetchAt × FetchSchedule) :=
  (popLast (ops.moveFirstLast s)).map fun (entry, s) =>
    (entry, { s with scheduled := s.scheduled.erase entry.requestKey })

/-- There is nothing to pop after as many rounds as there are entries. -/
def popDueLoop (now : Nat) : Nat → FetchSchedule → List FetchAt × FetchSchedule
  | 0, s => ([], s)
  | rounds + 1, s =>
    match s.peek with
    | none => ([], s)
    | some next =>
      if now < next.at_ then ([], s)
      else
        match s.popFirst with
        | none => ([], s)
        | some (entry, s) =>
          let (due, s) := popDueLoop now rounds s
          (entry :: due, s)

def popDue (now : Nat) : List FetchAt × FetchSchedule :=
  popDueLoop now s.heap.length s

def schedule (requestKey : FetchKey) (generation at_ : Nat) (retryAttempt : Nat) : FetchSchedule :=
  match s.scheduled.get? requestKey with
  | some r =>
    let s := { s with
      slots := s.slots.update r fun slot =>
        { slot with at_, generation, retryAttempt } }
    match (s.slots.read? r).bind (·.index) with
    | some i => ops.fix s i
    | none => s
  | none =>
    let entry : FetchAt := ⟨at_, requestKey, generation, retryAttempt⟩
    let (slots, r) := s.slots.alloc ⟨entry, some s.heap.length⟩
    let s := { s with
      slots
      heap := s.heap ++ [r] }
    let s := ops.up s (s.heap.length - 1)
    { s with scheduled := s.scheduled.insert requestKey r }

def remove (requestKey : FetchKey) : FetchSchedule :=
  match s.scheduled.get? requestKey with
  | some r =>
    match (s.slots.read? r).bind (·.index) with
    | some i =>
      match popLast (ops.moveLast s i) with
      | some (_, s) =>
        { s with scheduled := s.scheduled.erase requestKey }
      | none => s
    | none => s
  | none => s

end FetchSchedule

-- ======== fetcher

def initialRetryDelay : Nat := 100

def maxRetryDelay : Nat := 15000

def maxRetryShift : Nat := 30

def nextRetryDelay (retryAttempt : Nat) : Nat :=
  let shift := min (retryAttempt + 1) maxRetryShift
  let next := initialRetryDelay * 1 <<< shift
  if next > maxRetryDelay then maxRetryDelay else next

/-- What the fetcher reads of a `JwksSource`. -/
structure JwksSource where
  requestKey : FetchKey
  ttl : Nat
  deriving DecidableEq

structure FetchState where
  source : JwksSource
  generation : Nat
  deriving DecidableEq

/-- A round of `maybeFetchJwks`: what is due and not looked at yet, and the
fetch that is in flight, with the request as it was looked up. -/
structure Round where
  now : Nat
  due : List FetchAt
  fetching : Option (FetchAt × FetchState)
  deriving DecidableEq

structure Fetcher where
  requests : HashMap FetchKey FetchState
  schedule : FetchSchedule
  round : Option Round

namespace Fetcher

def new : Fetcher := ⟨.empty, .new, none⟩

variable (f : Fetcher) (requestKey : FetchKey)

def scheduleAtLocked (generation at_ : Nat) (retryAttempt : Nat) : Fetcher :=
  if f.requests.contains requestKey then
    { f with
      schedule := f.schedule.schedule requestKey generation at_ retryAttempt }
  else f

-- ======== requests

/-- When the set is due that was last fetched at `cached`. -/
def nextFetchAt (now : Nat) (cached : Option Nat) (source : JwksSource) : Nat :=
  match cached with
  | some fetchedAt =>
    let expiresAt := fetchedAt + source.ttl
    if now < expiresAt then expiresAt else now
  | none => now

/-- `parses` is whether the URL of the source does. -/
def addOrUpdateKeyset (source : JwksSource) (parses : Bool)
    (now : Nat) (cached : Option Nat) : Fetcher :=
  if parses then
    let generation := ((f.requests.get? source.requestKey).map (·.generation)).getD 0 + 1
    let f := { f with
      requests := f.requests.insert source.requestKey ⟨source, generation⟩ }
    f.scheduleAtLocked source.requestKey generation (nextFetchAt now cached source) 0
  else f

/-- What `RemoveKeyset` and `RetireKeyset` do under the lock, but for the
cache. -/
def dropRequest : Fetcher :=
  if f.requests.contains requestKey then
    { f with
      requests := f.requests.erase requestKey
      schedule := f.schedule.remove requestKey }
  else f

def removeKeyset : Fetcher :=
  f.dropRequest requestKey

def retireKeyset : Fetcher :=
  f.dropRequest requestKey

-- ======== loop

def commitFetchResult (generation : Nat) (nextFetchAt : Nat) : Fetcher :=
  match f.requests.get? requestKey with
  | some state =>
    if state.generation ≠ generation then f
    else f.scheduleAtLocked requestKey generation nextFetchAt 0
  | none => f

/-- `popDue`: a round begins, if something is due. -/
def popDue (now : Nat) : Option Fetcher :=
  match f.round with
  | some _ => none
  | none =>
    let (due, schedule) := f.schedule.popDue now
    some { f with
      schedule
      round := if due.isEmpty then none else some ⟨now, due, none⟩ }

def lookup : Option FetchState :=
  f.requests.get? requestKey

/-- The next of the round is fetched, if it is still asked for. -/
def nextFetch : Option Fetcher :=
  match f.round with
  | some ⟨now, fetch :: due, none⟩ =>
    let fetching := match f.lookup fetch.requestKey with
      | some state =>
        if state.generation ≠ fetch.generation then none
        else some (fetch, state)
      | none => none
    some { f with round := some ⟨now, due, fetching⟩ }
  | _ => none

/-- The fetch has failed, or what it has fetched is not a key set. -/
def fetchFailed : Option Fetcher :=
  match f.round with
  | some ⟨now, due, some (fetch, state)⟩ =>
    let next := nextRetryDelay fetch.retryAttempt
    let f := f.scheduleAtLocked fetch.requestKey state.generation (now + next)
      (fetch.retryAttempt + 1)
    some { f with round := some ⟨now, due, none⟩ }
  | _ => none

def fetched : Option Fetcher :=
  match f.round with
  | some ⟨now, due, some (fetch, state)⟩ =>
    let f := f.commitFetchResult fetch.requestKey fetch.generation (now + state.source.ttl)
    some { f with round := some ⟨now, due, none⟩ }
  | _ => none

def finish : Option Fetcher :=
  match f.round with
  | some ⟨_, [], none⟩ => some { f with round := none }
  | _ => none

-- ======== runs

inductive Act where
  | addOrUpdate (source : JwksSource) (parses : Bool) (now : Nat) (cached : Option Nat)
  | remove (requestKey : FetchKey)
  | retire (requestKey : FetchKey)
  | popDue (now : Nat)
  | nextFetch
  | fetchFailed
  | fetched
  | finish
  deriving DecidableEq

def step : Act → Option Fetcher
  | .addOrUpdate source parses now cached =>
    some (f.addOrUpdateKeyset source parses now cached)
  | .remove requestKey => some (f.removeKeyset requestKey)
  | .retire requestKey => some (f.retireKeyset requestKey)
  | .popDue now => f.popDue now
  | .nextFetch => f.nextFetch
  | .fetchFailed => f.fetchFailed
  | .fetched => f.fetched
  | .finish => f.finish

end Fetcher

-- ======== subscribers

/-- What is left of the loop of `notifySubscribers` for a subscriber. -/
inductive Turn
  | idle
  | waiting (updates : List FetchKey)
  | sending (merged : List FetchKey)
  deriving DecidableEq

/-- The keys that the loop has still to send. -/
def Turn.owed : Turn → List FetchKey
  | .idle => []
  | .waiting keys | .sending keys => keys

/-- The steps that the loop has still to take. -/
def Turn.left : Turn → Nat
  | .idle => 0
  | .waiting _ => 2
  | .sending _ => 1

structure Subscriber where
  channel : List (List FetchKey)
  turn : Turn
  passed : List FetchKey
  received : List FetchKey

/-- The body of the loop, to the send and from it; `none` if it has to wait. -/
def Subscriber.notify (sub : Subscriber) : Option Subscriber :=
  match sub.turn with
  | .idle => some sub
  | .waiting updates =>
    let merged := updates ++ sub.channel.head?.getD []
    some { sub with channel := sub.channel.tail, turn := .sending merged }
  | .sending merged =>
    if sub.channel.length < 1 then
      some { sub with channel := sub.channel ++ [merged], turn := .idle }
    else none

structure Subscriptions where
  subscribers : List Subscriber
  /-- whether `notifySubscribers` has the lock -/
  notifying : Bool

namespace Subscriptions

def init : Subscriptions := ⟨[], false⟩

inductive Step
  | subscribe
  | notify (updates : List FetchKey)
  /-- `notifySubscribers` goes on -/
  | advance
  | read (i : Nat)
  /-- another function takes the lock and gives it back -/
  | other

def Step.isAdvance : Step → Bool
  | .advance => true
  | _ => false

/-- A step that has to wait is `none`. -/
def step (s : Subscriptions) : Step → Option Subscriptions
  | .subscribe =>
    if s.notifying then none
    else some { s with subscribers := s.subscribers ++ [⟨[], .idle, [], []⟩] }
  | .notify updates =>
    if s.notifying then none
    else some ⟨s.subscribers.map fun sub =>
      { sub with turn := .waiting updates, passed := sub.passed ++ updates }, true⟩
  | .advance =>
    if s.notifying then
      match s.subscribers.findIdx? (·.turn ≠ .idle) with
      | none => some { s with notifying := false }
      | some i => do
        let sub ← (← s.subscribers[i]?).notify
        some { s with subscribers := s.subscribers.set i sub }
    else none
  | .read i =>
    match s.subscribers[i]? with
    | some ⟨set :: channel, turn, passed, received⟩ =>
      some { s with subscribers := s.subscribers.set i ⟨channel, turn, passed, received ++ set⟩ }
    | _ => none
  | .other => if s.notifying then none else some s

-- ======== invariant

/-- The subscriber has got everything, or it is in the channel or on its way. -/
structure Told (notifying : Bool) (sub : Subscriber) : Prop where
  room : sub.channel.length ≤ 1
  drained : ∀ merged, sub.turn = .sending merged → sub.channel = []
  idle : notifying = false → sub.turn = .idle
  kept : ∀ key ∈ sub.passed, key ∈ sub.received ∨ key ∈ sub.channel.flatten ∨ key ∈ sub.turn.owed

def Inv (s : Subscriptions) : Prop := ∀ sub ∈ s.subscribers, Told s.notifying sub

variable {s s' : Subscriptions} {sub : Subscriber}

/-- It does not have to wait: the channel was emptied before the send. -/
theorem Told.notify (h : Told true sub) : ∃ sub', sub.notify = some sub' ∧ Told true sub' := by
  obtain ⟨channel, turn, passed, received⟩ := sub
  cases turn with
  | idle => exact ⟨_, rfl, h⟩
  | waiting updates =>
    refine ⟨_, rfl, ?_⟩
    match channel, h.room with
    | [], _ => exact ⟨Nat.zero_le _, fun _ _ => rfl, nofun, by simpa [Turn.owed] using h.kept⟩
    | [set], _ =>
      refine ⟨Nat.zero_le _, fun _ _ => rfl, nofun, fun key hkey => ?_⟩
      rcases h.kept key hkey with hr | hc | howed
      · exact .inl hr
      · exact .inr (.inr (List.mem_append_right _ (by simpa using hc)))
      · exact .inr (.inr (List.mem_append_left _ howed))
  | sending merged =>
    obtain rfl : channel = [] := h.drained merged rfl
    refine ⟨_, rfl, Nat.le_refl _, nofun, nofun, fun key hkey => ?_⟩
    rcases h.kept key hkey with hr | hc | howed
    · exact .inl hr
    · cases hc
    · exact .inr (.inl (by simpa [Turn.owed] using howed))

/-- `notifySubscribers` does not have to wait. -/
theorem Inv.advance (h : s.Inv) (hnotifying : s.notifying) :
    ∃ s', s.step .advance = some s' ∧ s'.Inv := by
  rw [Inv, hnotifying] at h
  simp only [step, hnotifying, if_true]
  cases hfind : s.subscribers.findIdx? (·.turn ≠ .idle) with
  | none =>
    refine ⟨_, rfl, fun sub hsub => { h sub hsub with idle := fun _ => ?_ }⟩
    simpa using List.findIdx?_eq_none_iff.1 hfind sub hsub
  | some i =>
    have hlt := (List.findIdx?_eq_some_iff_getElem.1 hfind).1
    obtain ⟨sub', hnotify, htold⟩ := (h _ (List.getElem_mem hlt)).notify
    refine ⟨⟨s.subscribers.set i sub', true⟩, ?_, forall_mem_set h (fun _ ht => ht) htold⟩
    simp only [List.getElem?_eq_getElem hlt, hnotify, Option.bind_eq_bind, Option.bind_some]

theorem Inv.step {a : Step} (h : s.Inv) (hs : s.step a = some s') : s'.Inv := by
  cases a with
  | subscribe =>
    obtain ⟨-, heq⟩ := Option.ite_none_left_eq_some.1 hs
    cases heq
    exact forall_mem_concat h (fun _ ht => ht) ⟨Nat.zero_le _, nofun, fun _ => rfl, nofun⟩
  | notify updates =>
    obtain ⟨hfree, heq⟩ := Option.ite_none_left_eq_some.1 hs
    cases heq
    intro sub hmem
    obtain ⟨sub, hsub, rfl⟩ := List.mem_map.1 hmem
    have hold := h sub hsub
    refine ⟨hold.room, nofun, nofun, fun key hkey => ?_⟩
    rcases List.mem_append.1 hkey with hkey | hkey
    · refine (hold.kept key hkey).imp_right fun hrest => .inl (hrest.resolve_right ?_)
      rw [hold.idle (Bool.eq_false_iff.2 hfree)]
      exact List.not_mem_nil
    · exact .inr (.inr hkey)
  | advance =>
    obtain ⟨hnotifying, -⟩ := Option.ite_none_right_eq_some.1 hs
    obtain ⟨s₁, hs₁, h₁⟩ := h.advance hnotifying
    cases hs₁.symm.trans hs
    exact h₁
  | read i =>
    simp only [Subscriptions.step] at hs
    split at hs
    · next set channel turn passed received hi =>
      cases hs
      have hold := h _ (List.mem_of_getElem? hi)
      refine forall_mem_set h (fun _ ht => ht) ⟨Nat.le_of_succ_le hold.room, ?_, hold.idle, ?_⟩
      · intro merged hturn
        cases hold.drained merged hturn
      · intro key hkey
        rcases hold.kept key hkey with hr | hc | howed
        · exact .inl (List.mem_append_left _ hr)
        · rcases List.mem_append.1 hc with hc | hc
          · exact .inl (List.mem_append_right _ hc)
          · exact .inr (.inl hc)
        · exact .inr (.inr howed)
    · cases hs
  | other =>
    obtain ⟨-, heq⟩ := Option.ite_none_left_eq_some.1 hs
    cases heq
    exact h

-- ======== the end of a call

/-- The steps that a call under way has left before its last. -/
def left (s : Subscriptions) : Nat := total (·.turn.left) s.subscribers

/-- A call that goes on has a step less to take. -/
theorem left_advance (hs : s.step .advance = some s') :
    s'.notifying = false ∨ s'.notifying ∧ s'.left < s.left := by
  obtain ⟨hnotifying, hs⟩ := Option.ite_none_right_eq_some.1 hs
  split at hs
  · cases hs
    exact .inl rfl
  · next i hfind =>
    obtain ⟨hlt, hturn, -⟩ := List.findIdx?_eq_some_iff_getElem.1 hfind
    obtain ⟨sub, hi, hs⟩ := Option.bind_eq_some_iff.1 hs
    obtain ⟨sub', hnotify, hs⟩ := Option.bind_eq_some_iff.1 hs
    cases hs
    have hsub : sub.turn ≠ .idle := by simpa [← List.getElem?_eq_some_iff.1 hi |>.2] using hturn
    have hless : sub'.turn.left < sub.turn.left := by
      unfold Subscriber.notify at hnotify
      split at hnotify
      · next hidle => exact absurd hidle hsub
      · next hwaiting => cases hnotify; simp [hwaiting, Turn.left]
      · next hsending =>
        obtain ⟨-, heq⟩ := Option.ite_none_right_eq_some.1 hnotify
        cases heq
        simp [hsending, Turn.left]
    refine .inr ⟨hnotifying, ?_⟩
    have htotal := total_set (·.turn.left) sub' hi
    show total (·.turn.left) (s.subscribers.set i sub') < total (·.turn.left) s.subscribers
    omega

/-- While a call is under way, nothing else but a subscriber that reads takes a
step. -/
theorem left_step {a : Step} (hnotifying : s.notifying) (hs : s.step a = some s') :
    s'.notifying = false ∨ s'.notifying ∧ s'.left + [a].countP Step.isAdvance ≤ s.left := by
  cases a with
  | advance => exact left_advance hs
  | read i =>
    simp only [step] at hs
    split at hs
    · next set channel turn passed received hi =>
      cases hs
      have htotal := total_set (·.turn.left)
        (⟨channel, turn, passed, received ++ set⟩ : Subscriber) hi
      exact .inr ⟨hnotifying, Nat.le_of_eq (Nat.add_right_cancel htotal)⟩
    · cases hs
  | subscribe | notify | other => simp [step, hnotifying] at hs

/-- The call has ended once it has taken the steps it had left. -/
theorem ends_of_left : ∀ (more : List Step) {s s' : Subscriptions}, more.foldlM step s = some s' →
    s.left < more.countP Step.isAdvance →
    ∃ pre s₁, pre <+: more ∧ pre.foldlM step s = some s₁ ∧ s₁.notifying = false := by
  intro more
  induction more with
  | nil => exact nofun
  | cons a more ih =>
    intro s s' hrun hleft
    cases hnotifying : s.notifying with
    | false => exact ⟨[], s, List.nil_prefix, rfl, hnotifying⟩
    | true =>
      obtain ⟨s₁, hs₁, hrun⟩ := foldlM_cons_eq_some.1 hrun
      rcases left_step hnotifying hs₁ with hended | ⟨-, hle⟩
      · exact ⟨[a], s₁, ⟨more, rfl⟩, foldlM_cons_eq_some.2 ⟨s₁, hs₁, rfl⟩, hended⟩
      · rw [← List.singleton_append, List.countP_append] at hleft
        obtain ⟨pre, s₂, hpre, hrun₂, hended⟩ := ih hrun (by omega)
        exact ⟨a :: pre, s₂, List.cons_prefix_cons.2 ⟨rfl, hpre⟩,
          foldlM_cons_eq_some.2 ⟨s₁, hs₁, hrun₂⟩, hended⟩

/-- In every run `notifySubscribers` never has to wait and ends after finitely many
steps, a channel holds at most one set, and of what was passed on since a
subscription everything has been read or is in the channel, but for what a call
under way is about to send. -/
theorem subscribers_miss_nothing (steps : List Step) (s : Subscriptions)
    (hrun : steps.foldlM step init = some s) :
    (s.notifying → ∃ s', s.step .advance = some s') ∧
    (∀ more s', more.foldlM step s = some s' → s.left < more.countP Step.isAdvance →
      ∃ pre s₁, pre <+: more ∧ pre.foldlM step s = some s₁ ∧ s₁.notifying = false) ∧
    ∀ sub ∈ s.subscribers, sub.channel.length ≤ 1 ∧ ∀ key ∈ sub.passed,
      key ∈ sub.received ∨ key ∈ sub.channel.flatten ∨ s.notifying ∧ key ∈ sub.turn.owed := by
  have hinit : init.Inv := nofun
  have hinv : s.Inv := inv_of_run Inv.step steps hinit hrun
  refine ⟨fun hnotifying => ?_, fun more s' => ends_of_left more,
    fun sub hsub => ⟨(hinv sub hsub).room, fun key hkey => ?_⟩⟩
  · obtain ⟨s', hs', -⟩ := hinv.advance hnotifying
    exact ⟨s', hs'⟩
  · refine ((hinv sub hsub).kept key hkey).imp_right (.imp_right fun howed => ⟨?_, howed⟩)
    refine Bool.not_eq_false _ ▸ fun hfree => ?_
    rw [(hinv sub hsub).idle hfree] at howed
    cases howed

/-- Two keys are passed on, one after the other, and nobody reads. -/
def unread : List Step :=
  [.subscribe, .notify ["a"], .advance, .advance, .advance, .notify ["b"], .advance, .advance]

/-- A subscriber that does not read has the keys of two calls in one set, and the
second call ends with its next step. -/
theorem subscribers_miss_nothing_unread : ∃ s, unread.foldlM step init = some s
    ∧ s.subscribers = [⟨[["b", "a"]], .idle, ["a", "b"], []⟩]
    ∧ (∀ sub ∈ s.subscribers, sub.channel.length ≤ 1)
    ∧ ∃ pre s₁, pre <+: [.advance] ∧ pre.foldlM step s = some s₁ ∧ s₁.notifying = false := by
  have h := subscribers_miss_nothing unread _ rfl
  exact ⟨_, rfl, rfl, fun sub hsub => (h.2.2 sub hsub).1, h.2.1 [.advance] _ rfl (by decide)⟩

end Subscriptions

end AgentGateway.Jwks
