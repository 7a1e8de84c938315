/-
The connections to one host (`HostPool`, `H2Pool` and `Pool` of
`pool/src/pool.rs`), everything that is done under the lock of the host.

A connection is a number, in place of the identity of its shared load.
That no more streams are active than the peer allows, and that it allows
one at least, is part of what a load is: a slot is only given out below
the maximum, and the maximum is at least one from the start.

The state is the `HostPool` and what lives outside of it: the loads that
connections share, what has become of a connection, and who holds what,
namely the waiters, the `ShouldConnect` tokens, the pooled connections and
the guards of HTTP/2 streams. A step is one critical section, and steps of
different tasks interleave as they like.

A waiter can give up at any time. The code asks first whether it has and
sends then, so a waiter may be gone in between; a step says which are.

# Underflow

`connecting`, `expected_connecting_capacity` and the active streams of a
connection are subtracted from without a check. A step that would go below
zero, and wrap, has no result here.

# Left out

The shards and the lock of the map of hosts, the task that calls
`clear_expired`, and a pool that is dropped before what it gave out.
-/
import AgentGateway.Lib.LoadQueue
import AgentGateway.Basic

namespace AgentGateway.Pool

open Lib List

-- ======== load

abbrev ConnId := Nat

structure H2Load where
  activeStreams : Nat
  maxStreams : Nat
  active_le : activeStreams ≤ maxStreams
  max_pos : 0 < maxStreams

inductive CapacityReservationResult
  | noCapacity
  | reservedAndFilled
  | reservedButNotFilled
  deriving DecidableEq

namespace H2Load

def new (maxStreams : Nat) : H2Load where
  activeStreams := 0
  maxStreams := max maxStreams 1
  active_le := Nat.zero_le _
  max_pos := Nat.le_max_right _ _

def remainingCapacity (l : H2Load) : Nat :=
  l.maxStreams - l.activeStreams

def tryReserveStreamSlot (l : H2Load) : CapacityReservationResult × H2Load :=
  if h : l.activeStreams < l.maxStreams then
    (if l.maxStreams ≤ l.activeStreams + 1 then .reservedAndFilled else .reservedButNotFilled,
      { l with activeStreams := l.activeStreams + 1, active_le := h })
  else (.noCapacity, l)

/-- How many streams are left, and whether all of them were taken. -/
def releaseStreamSlot (l : H2Load) : Option (Nat × Bool × H2Load) :=
  if l.activeStreams = 0 then none
  else
    some (l.activeStreams - 1, l.activeStreams == l.maxStreams, { l with
        activeStreams := l.activeStreams - 1
        active_le := Nat.le_trans (Nat.sub_le _ _) l.active_le })

def Full (l : H2Load) : Prop := l.activeStreams = l.maxStreams

instance (l : H2Load) : Decidable l.Full :=
  inferInstanceAs (Decidable (_ = _))

variable {l : H2Load}

theorem remainingCapacity_eq_zero : l.remainingCapacity = 0 ↔ l.Full := by
  have hle := l.active_le
  unfold remainingCapacity Full
  omega

theorem tryReserveStreamSlot_of_lt (h : l.activeStreams < l.maxStreams) :
    ∃ l', l'.activeStreams = l.activeStreams + 1 ∧ l'.maxStreams = l.maxStreams
      ∧ ((l.tryReserveStreamSlot = (.reservedAndFilled, l') ∧ l'.Full)
        ∨ (l.tryReserveStreamSlot = (.reservedButNotFilled, l') ∧ ¬ l'.Full)) := by
  refine ⟨{ l with activeStreams := l.activeStreams + 1, active_le := h }, rfl, rfl, ?_⟩
  unfold tryReserveStreamSlot
  rw [dif_pos h]
  by_cases hmax : l.maxStreams ≤ l.activeStreams + 1
  · left
    rw [if_pos hmax]
    exact ⟨rfl, Nat.le_antisymm h hmax⟩
  · right
    rw [if_neg hmax]
    exact ⟨rfl, fun hfull => hmax (Nat.le_of_eq hfull.symm)⟩

theorem tryReserveStreamSlot_of_full (h : l.Full) : l.tryReserveStreamSlot = (.noCapacity, l) :=
  dif_neg (Nat.not_lt.2 (Nat.le_of_eq h.symm))

theorem releaseStreamSlot_of_pos (h : 0 < l.activeStreams) : ∃ l', l.releaseStreamSlot
        = some (l.activeStreams - 1, l.activeStreams == l.maxStreams, l')
      ∧ l'.activeStreams = l.activeStreams - 1 ∧ l'.maxStreams = l.maxStreams :=
  ⟨_, if_neg (Nat.pos_iff_ne_zero.1 h), rfl, rfl⟩

theorem not_full_of_lt (h : l.activeStreams < l.maxStreams) : ¬ l.Full :=
  Nat.ne_of_lt h

theorem lt_of_not_full (h : ¬ l.Full) : l.activeStreams < l.maxStreams :=
  Nat.lt_of_le_of_ne l.active_le h

theorem ext_counts {l' : H2Load} (hactive : l.activeStreams = l'.activeStreams)
    (hmax : l.maxStreams = l'.maxStreams) : l = l' := by
  cases l'
  cases hactive
  cases hmax
  rfl

end H2Load

-- ======== queue

/-- `H2Pool`, the active connections, the next one to be used first. -/
abbrev H2Pool := List ConnId

namespace H2Pool

/-- `remove` and `remove_by_load`. -/
def remove (q : H2Pool) (c : ConnId) : H2Pool := q.erase c

def ensureTracked (q : H2Pool) (c : ConnId) (load : H2Load) : H2Pool :=
  if c ∈ q then q
  else if load.remainingCapacity = 0 then q ++ [c]
  else c :: q

def markFull (q : H2Pool) (c : ConnId) : H2Pool :=
  if c ∈ q then remove q c ++ [c] else q

def markActiveByLoad (q : H2Pool) (c : ConnId) : H2Pool :=
  if c ∈ q then c :: remove q c else q

def markActive (q : H2Pool) (c : ConnId) : H2Pool :=
  c :: remove q c

/-- The loop of `reserve`: the connection a stream was reserved on and
its load, if there is one, and the queue. -/
def reserve (isOpen : ConnId → Bool) (load : ConnId → H2Load) :
    H2Pool → Option (ConnId × H2Load) × H2Pool
  | [] => (none, [])
  | h :: q =>
    -- a dead connection is removed
    if !isOpen h then reserve isOpen load q
    else
      match (load h).tryReserveStreamSlot with
      | (.noCapacity, _) => (none, h :: q)
      | (.reservedAndFilled, l) => (some (h, l), q ++ [h])
      | (.reservedButNotFilled, l) => (some (h, l), h :: q)

-- ---- how often one is in it

variable {q : H2Pool} {c d : ConnId}

theorem not_mem_remove (h : q.count c ≤ 1) : c ∉ q.remove c := by
  refine count_eq_zero.1 ?_
  unfold remove
  rw [count_erase_self]
  omega

theorem remove_markFull (h : q.count c ≤ 1) : (q.markFull c).remove c = q.remove c := by
  unfold markFull
  split
  · have hnot := not_mem_remove h
    unfold remove at hnot ⊢
    rw [erase_append_right _ hnot, erase_cons_head, append_nil]
  · rfl

theorem remove_ensureTracked (l : H2Load) : (q.ensureTracked c l).remove c = q.remove c := by
  unfold ensureTracked
  split
  · rfl
  · rename_i hnot
    unfold remove
    split
    · rw [erase_append_right _ hnot, erase_cons_head, append_nil, erase_of_not_mem hnot]
    · rw [erase_cons_head, erase_of_not_mem hnot]

theorem remove_markActiveByLoad : (q.markActiveByLoad c).remove c = q.remove c := by
  unfold markActiveByLoad
  split
  · exact erase_cons_head c _
  · rfl

theorem count_markFull : (q.markFull c).count d = q.count d := by
  unfold markFull remove
  split
  · rename_i hc
    exact (perm_append_singleton c (q.erase c)).trans (perm_cons_erase hc).symm |>.count_eq d
  · rfl

theorem count_markActiveByLoad : (q.markActiveByLoad c).count d = q.count d := by
  unfold markActiveByLoad remove
  split
  · rename_i hc
    exact (perm_cons_erase hc).symm.count_eq d
  · rfl

theorem count_remove_self : (q.remove c).count c = q.count c - 1 :=
  count_erase_self

theorem count_remove_of_ne (h : d ≠ c) : (q.remove c).count d = q.count d :=
  count_erase_of_ne h

theorem markActive_of_mem (h : c ∈ q) : q.markActive c = q.markActiveByLoad c :=
  (if_pos h).symm

theorem count_ensureTracked_self (h : q.count c ≤ 1) (l : H2Load) :
    (q.ensureTracked c l).count c = 1 := by
  unfold ensureTracked
  split
  · rename_i hc
    have hpos := count_pos_iff.2 hc
    omega
  · rename_i hc
    have hzero := count_eq_zero.2 hc
    split
    · rw [count_append, hzero, count_singleton_self]
    · rw [count_cons_self, hzero]

theorem count_ensureTracked_of_ne (h : d ≠ c) (l : H2Load) :
    (q.ensureTracked c l).count d = q.count d := by
  unfold ensureTracked
  split
  · rfl
  · split
    · rw [count_append, count_singleton, if_neg (by simpa using h.symm), Nat.add_zero]
    · exact count_cons_of_ne h.symm

-- ---- its order

variable {load : ConnId → H2Load} {l : H2Load}

/-- Free connections are in front of full ones. -/
def InOrder (load : ConnId → H2Load) (q : H2Pool) : Prop :=
  Ordered (fun c => (load c).Full) q

theorem InOrder.remove (h : InOrder load q) : InOrder load (q.remove c) :=
  h.sublist erase_sublist

theorem InOrder.update (h : InOrder load q) (hl : l.Full ↔ (load c).Full) :
    InOrder (Function.update load c l) q := by
  refine Ordered.congr h fun d _ => ?_
  by_cases hd : d = c
  · rw [hd, Function.update_self]
    exact hl
  · rw [Function.update_of_ne hd]

theorem InOrder.update_of_not_mem (h : InOrder load q) (hc : c ∉ q) :
    InOrder (Function.update load c l) q := by
  refine Ordered.congr h fun d hd => ?_
  have hne : d ≠ c := fun heq => hc (heq ▸ hd)
  rw [Function.update_of_ne hne]

theorem inOrder_markFull (h : InOrder load (q.remove c)) (hc : (load c).Full) :
    InOrder load (q.markFull c) := by
  unfold markFull
  split
  · exact Ordered.concat h hc
  · rename_i hnot
    unfold H2Pool.remove at h
    rwa [erase_of_not_mem hnot] at h

theorem inOrder_markActiveByLoad (h : InOrder load (q.remove c))
    (hc : ¬ (load c).Full) : InOrder load (q.markActiveByLoad c) := by
  unfold markActiveByLoad
  split
  · exact Ordered.cons h hc
  · rename_i hnot
    unfold H2Pool.remove at h
    rwa [erase_of_not_mem hnot] at h

theorem inOrder_ensureTracked (h : InOrder load (q.remove c)) (hq : c ∈ q → InOrder load q) :
    InOrder load (q.ensureTracked c (load c)) := by
  unfold ensureTracked
  split
  · rename_i hc
    exact hq hc
  · rename_i hnot
    unfold H2Pool.remove at h
    rw [erase_of_not_mem hnot] at h
    split
    · rename_i hzero
      exact Ordered.concat h (H2Load.remainingCapacity_eq_zero.1 hzero)
    · rename_i hpos
      exact Ordered.cons h (mt H2Load.remainingCapacity_eq_zero.2 hpos)

-- ---- reserving

/-- What `reserve` can do: dead connections in front are dropped, and
then there is nothing, or the first one is full, or a stream of the first
one is reserved. -/
theorem reserve_cases (isOpen : ConnId → Bool) (load : ConnId → H2Load) (q : H2Pool) :
    ∃ dead rest, q = dead ++ rest ∧ (∀ d ∈ dead, isOpen d = false)
      ∧ ((rest = [] ∧ q.reserve isOpen load = (none, [])) ∨ ∃ h t, rest = h :: t ∧ isOpen h
          ∧ (((load h).Full ∧ q.reserve isOpen load = (none, h :: t))
            ∨ ∃ l, l.activeStreams = (load h).activeStreams + 1 ∧ l.maxStreams = (load h).maxStreams
              ∧ ((l.Full ∧ q.reserve isOpen load = (some (h, l), t ++ [h])) ∨ (¬ l.Full
                  ∧ q.reserve isOpen load = (some (h, l), h :: t))))) := by
  induction q with
  | nil => exact ⟨[], [], rfl, nofun, .inl ⟨rfl, rfl⟩⟩
  | cons h q ih =>
    cases hopen : isOpen h with
    | false =>
      obtain ⟨dead, rest, hq, hdead, hcases⟩ := ih
      have hskip : reserve isOpen load (h :: q) = reserve isOpen load q := by
        rw [reserve, hopen]
        rfl
      rw [hskip]
      exact ⟨h :: dead, rest, congrArg (h :: ·) hq, forall_mem_cons.2 ⟨hopen, hdead⟩, hcases⟩
    | true =>
      refine ⟨[], h :: q, rfl, nofun, .inr ⟨h, q, rfl, hopen, ?_⟩⟩
      rw [reserve, hopen]
      by_cases hfull : (load h).Full
      · left
        rw [H2Load.tryReserveStreamSlot_of_full hfull]
        exact ⟨hfull, rfl⟩
      · right
        obtain ⟨l, hactive, hmax, ⟨hres, hl⟩ | ⟨hres, hl⟩⟩ :=
          H2Load.tryReserveStreamSlot_of_lt (H2Load.lt_of_not_full hfull)
        · rw [hres]
          exact ⟨l, hactive, hmax, .inl ⟨hl, rfl⟩⟩
        · rw [hres]
          exact ⟨l, hactive, hmax, .inr ⟨hl, rfl⟩⟩

end H2Pool

-- ======== types

/-- `Instant`, and `Duration` as well. -/
abbrev Instant := Nat

/-- A `oneshot` channel, by the order of registration. -/
abbrev WaiterId := Nat

inductive ExpectedCapacity
  | http1
  | http2
  | auto

inductive CapacityCache
  | guess (capacity : ExpectedCapacity)
  | cached (exact : Nat)

def CapacityCache.expectedCapacity (expectedHttp2Capacity : Nat) : CapacityCache → Nat
  | .guess .http1 => 1
  | .guess .http2 => expectedHttp2Capacity
  | .guess .auto => expectedHttp2Capacity
  | .cached exact => exact

structure PoolSettings where
  maxIdlePerHost : Nat
  timeout : Option Instant
  expectedHttp2Capacity : Nat

inductive HttpConnection
  | http1 (id : ConnId)
  | http2 (id : ConnId)
  deriving DecidableEq

/-- Only an HTTP/2 connection is shared. -/
def HttpConnection.maybeClone : HttpConnection → Option HttpConnection
  | .http1 _ => none
  | .http2 c => some (.http2 c)

/-- `Pooled`, a connection that goes back to the pool when dropped. -/
structure Pooled where
  value : HttpConnection
  isReused : Bool
  deriving DecidableEq

structure Idle where
  idleAt : Instant
  value : HttpConnection

/-- `pool::Error`, those that are sent to a waiter. -/
inductive Error
  | waitingOnSharedFailedConnection
  | connectionDroppedWithoutCompletion
  | connectionLowCapacity

/-- The error of a failed attempt to connect is its text. -/
inductive ClientConnectError
  | normal (err : Strng)
  | checkoutIsClosed (err : Error)

structure HostPool where
  connecting : Nat
  expectedConnectingCapacity : Nat
  perConnectionCapacityCache : CapacityCache
  idle : List Idle
  activeH2 : H2Pool
  waiters : List WaiterId

def HostPool.new (capacity : ExpectedCapacity) : HostPool where
  connecting := 0
  expectedConnectingCapacity := 0
  perConnectionCapacityCache := .guess capacity
  idle := []
  activeH2 := []
  waiters := []

/-- The pool of a host and its surroundings. -/
structure State extends HostPool where
  /-- `tx.is_ready()`, of every connection there ever was -/
  isOpen : HttpConnection → Bool
  /-- the load shared by all clones of an HTTP/2 connection -/
  load : ConnId → H2Load
  nextConn : ConnId
  nextWaiter : WaiterId
  /-- the waiters whose receiver is dropped -/
  canceled : List WaiterId
  /-- what has been sent to waiters -/
  received : List (WaiterId × Except ClientConnectError Pooled)
  /-- the capacities that the outstanding tokens promised -/
  shouldConnect : List Nat
  /-- the pooled connections held by someone -/
  pooled : List Pooled
  /-- the outstanding `H2CapacityGuard`s -/
  guards : List ConnId

def State.new (capacity : ExpectedCapacity) : State where
  toHostPool := HostPool.new capacity
  isOpen := fun _ => false
  load := fun _ => H2Load.new 1
  nextConn := 0
  nextWaiter := 0
  canceled := []
  received := []
  shouldConnect := []
  pooled := []
  guards := []

-- ======== the loads

/-- `usize` subtraction. -/
def checkedSub (a b : Nat) : Option Nat :=
  if b ≤ a then some (a - b) else none

variable (s : State)

def State.setLoad (c : ConnId) (l : H2Load) : State :=
  { s with load := Function.update s.load c l }

def State.capacity : HttpConnection → Nat
  | .http1 _ => 1
  | .http2 c => (s.load c).remainingCapacity

def incrementLoad : HttpConnection → Option CapacityReservationResult × State
  | .http1 _ => (none, s)
  | .http2 c =>
    let (res, l) := (s.load c).tryReserveStreamSlot
    let activeH2 := if res = .reservedAndFilled then s.activeH2.markFull c else s.activeH2
    (some res, { s.setLoad c l with activeH2 })

def maybeInsertNew (reserve : Bool) : HttpConnection → State
  | .http1 _ => s
  | .http2 c =>
    let s := { s with activeH2 := c :: s.activeH2 }
    if reserve then s.setLoad c (s.load c).tryReserveStreamSlot.2 else s

/-- `H2Pool::ensure_tracked`, where there is an HTTP/2 connection. -/
def ensureTracked : Option HttpConnection → State
  | some (.http2 c) =>
    { s with activeH2 := s.activeH2.ensureTracked c (s.load c) }
  | _ => s

/-- `H2Pool::remove` of an HTTP/2 connection. -/
def untrack : HttpConnection → State
  | .http1 _ => s
  | .http2 c => { s with activeH2 := s.activeH2.remove c }

def releaseH2StreamWithoutReturningToIdle : HttpConnection → Option State
  | .http1 _ => some s
  | .http2 c =>
    (s.load c).releaseStreamSlot.map fun (remaining, wasAtMax, l) =>
      let s := s.setLoad c l
      -- at zero it stays where it is, the caller takes care of it
      if remaining = 0 then s
      else if wasAtMax then
        { s with activeH2 := s.activeH2.markActiveByLoad c }
      else s

-- ======== sending

/-- A waiter that is gone takes nothing. -/
def State.send (race : List WaiterId) (tx : WaiterId) (err : ClientConnectError) : State :=
  if tx ∈ race then s else { s with received := s.received ++ [(tx, .error err)] }

/-- `reason`: why there is a connection to send. -/
inductive Reason
  | new
  | idle
  deriving DecidableEq

/-- The loop of `send_connection` over the waiters: how many got a
connection, and the one that is left. -/
def sendLoop (reason : Reason) (race : List WaiterId) :
    List WaiterId → Nat → Nat → Option HttpConnection → State →
      Option (Nat × Option HttpConnection × State)
  | [], _, sent, nextConn, s => some (sent, nextConn, { s with waiters := [] })
  | tx :: ws, 0, sent, nextConn, s =>
    some (sent, nextConn, { s with waiters := tx :: ws })
  | tx :: ws, capacity + 1, sent, nextConn, s =>
    if tx ∈ s.canceled then sendLoop reason race ws (capacity + 1) sent nextConn s
    else
      match nextConn with
      | none => some (sent, none, { s with waiters := ws })
      | some thisConn =>
        let nextConn := thisConn.maybeClone
        let (res, s) := incrementLoad s thisConn
        if res = some .noCapacity then
          some (sent, nextConn, { s with waiters := ws })
        else if tx ∈ race then
          -- the connection comes back, and what was reserved is released
          (releaseH2StreamWithoutReturningToIdle s thisConn).bind
            (sendLoop reason race ws (capacity + 1) sent (some thisConn))
        else
          let pooled : Pooled := ⟨thisConn, reason = .idle⟩
          sendLoop reason race ws capacity (sent + 1) nextConn (ensureTracked { s with
              received := s.received ++ [(tx, .ok pooled)]
              pooled := pooled :: s.pooled } nextConn)

def pushIdleWithCap (maxIdlePerHost : Nat) (value : HttpConnection)
    (idleAt : Instant) (s : State) : State :=
  if maxIdlePerHost = 0 then s
  else
    let idle := if maxIdlePerHost ≤ s.idle.length then s.idle.tail else s.idle
    { s with idle := idle ++ [⟨idleAt, value⟩] }

variable (settings : PoolSettings)

def sendConnection (reason : Reason) (capacity : Nat)
    (conn : HttpConnection) (race : List WaiterId) (now : Instant) (s : State) : Option State :=
  (sendLoop reason race s.waiters capacity 0 (some conn) s).map fun (sent, nextConn, s) =>
      match sent, nextConn with
      | 0, some c =>
        pushIdleWithCap settings.maxIdlePerHost c now (untrack s c)
      | _, _ => s

def returnIdle (conn : HttpConnection)
    (race : List WaiterId) (now : Instant) (s : State) : Option State :=
  sendConnection settings .idle 1 conn race now s

-- ======== forgetting

/-- The first loop of `forget_pending_connection`: someone gets the
original error. -/
def notifyFirst (race : List WaiterId) : List WaiterId → Option Strng → State → State
  | [], _, s => { s with waiters := [] }
  | tx :: ws, err, s =>
    if tx ∈ s.canceled then notifyFirst race ws err s
    else
      match err with
      | some e =>
        -- only the error itself is sent once more
        if tx ∈ race then notifyFirst race ws (some e) s
        else { s.send race tx (.normal e) with waiters := ws }
      | none =>
        { s.send race tx (.checkoutIsClosed .connectionDroppedWithoutCompletion)
            with waiters := ws }

/-- The second loop of `forget_pending_connection`. -/
def notifyRest (race : List WaiterId) (err : Error) : List WaiterId → Nat → State → State
  | [], _, s => { s with waiters := [] }
  | tx :: ws, 0, s => { s with waiters := tx :: ws }
  | tx :: ws, toNotify + 1, s =>
    if tx ∈ s.canceled then notifyRest race err ws (toNotify + 1) s
    else
      notifyRest race err ws toNotify (s.send race tx (.checkoutIsClosed err))

def forgetPendingConnection (capacity : Nat) (err : Option Strng)
    (forUnderCapacityNewConnection : Bool) (race : List WaiterId) (s : State) : Option State :=
  let connecting? :=
    if forUnderCapacityNewConnection then some s.connecting
    else checkedSub s.connecting 1
  connecting?.bind fun connecting =>
    (checkedSub s.expectedConnectingCapacity capacity).map fun expected =>
      let s := { s with
        connecting, expectedConnectingCapacity := expected }
      if forUnderCapacityNewConnection then
        notifyRest race .connectionLowCapacity s.waiters capacity s
      else
        let s := notifyFirst race s.waiters err s
        notifyRest race .waitingOnSharedFailedConnection s.waiters (capacity - 1) s

-- ======== returning

/-- A guard is dropped. -/
def returnH2Stream (c : ConnId) (race : List WaiterId) (now : Instant) (s : State) : Option State :=
  (s.load c).releaseStreamSlot.bind fun (remaining, wasAtMax, l) =>
    let s := s.setLoad c l
    if remaining = 0 then
      if c ∈ s.activeH2 then
        let s := untrack s (.http2 c)
        if s.isOpen (.http2 c) then
          returnIdle settings (.http2 c) race now s
        else some s
      else some s
    else if wasAtMax then
      some { s with activeH2 := s.activeH2.markActiveByLoad c }
    else some s

def returnConnection (race : List WaiterId)
    (now : Instant) (s : State) : HttpConnection → Option State
  | .http1 h => returnIdle settings (.http1 h) race now s
  | .http2 c =>
    (s.load c).releaseStreamSlot.bind fun (remaining, wasAtMax, l) =>
      let s := s.setLoad c l
      if remaining = 0 then
        returnIdle settings (.http2 c) race now (untrack s (.http2 c))
      else if wasAtMax then
        some { s with activeH2 := s.activeH2.markActive c }
      else some s

/-- Nothing is released on a connection that is dead. -/
def returnDeadConnection (s : State) (value : HttpConnection) : State :=
  untrack s value

def dropPooled (value : HttpConnection)
    (race : List WaiterId) (now : Instant) (s : State) : Option State :=
  if s.isOpen value then returnConnection settings race now s value
  else some (returnDeadConnection s value)

-- ======== connecting

def insertNewConnection (expectedCapacity : Nat)
    (conn : HttpConnection) (race : List WaiterId) (now : Instant) (s : State) : Option State :=
  let capacity := s.capacity conn
  (checkedSub s.connecting 1).bind fun connecting =>
    (checkedSub s.expectedConnectingCapacity (min capacity expectedCapacity)).bind fun expected =>
        let s := { s with
          connecting, expectedConnectingCapacity := expected }
        (sendConnection settings .new capacity conn race now
            (maybeInsertNew s false conn)).bind fun s =>
          if capacity < expectedCapacity then
            forgetPendingConnection (expectedCapacity - capacity) none true race
              { s with perConnectionCapacityCache := .cached capacity }
          else some s

def insertNewConnectionError (expectedCapacity : Nat) (err : Strng)
    (race : List WaiterId) (s : State) : Option State :=
  forgetPendingConnection expectedCapacity (some err) false race s

def dropShouldConnect (expectedCapacity : Nat) (race : List WaiterId) (s : State) : Option State :=
  forgetPendingConnection expectedCapacity none false race s

-- ======== checking out

def expires (timeout : Option Instant) (instant now : Instant) : Bool :=
  match timeout with
  | some timeout => timeout < now - instant
  | none => false

/-- `IdlePopper::pop`, on the list from its end. -/
def popIdle (isOpen : HttpConnection → Bool) (timeout : Option Instant)
    (now : Instant) : List Idle → Option (Idle × List Idle)
  | [] => none
  | entry :: list =>
    if !isOpen entry.value then popIdle isOpen timeout now list
    else if expires timeout entry.idleAt now then popIdle isOpen timeout now list
    else some (entry, list)

inductive CheckoutResult
  | checkout (pooled : Pooled)
  | wait (waiter : WaiterId) (shouldConnect : Option Nat)

/-- A waiter is registered, and a connection started if more of them wait
than those on their way can serve. -/
def registerWaker (s : State) : CheckoutResult × State :=
  let pending := s.expectedConnectingCapacity
  let waiters := s.waiters.filter (· ∉ s.canceled)
  let tx := s.nextWaiter
  if pending ≤ waiters.length then
    let expected := s.perConnectionCapacityCache.expectedCapacity settings.expectedHttp2Capacity
    (.wait tx (some expected), { s with
      connecting := s.connecting + 1
      expectedConnectingCapacity := s.expectedConnectingCapacity + expected
      shouldConnect := expected :: s.shouldConnect
      waiters := waiters ++ [tx]
      nextWaiter := tx + 1 })
  else
    (.wait tx none, { s with waiters := waiters ++ [tx], nextWaiter := tx + 1 })

/-- What is checked out is held by the caller. -/
def State.checkout (s : State) (value : HttpConnection) : CheckoutResult × State :=
  (.checkout ⟨value, true⟩, { s with pooled := ⟨value, true⟩ :: s.pooled })

def checkoutOrRegisterWaker (now : Instant) (s : State) : CheckoutResult × State :=
  match s.activeH2.reserve (fun c => s.isOpen (.http2 c)) s.load with
  | (some (c, l), activeH2) =>
    { s.setLoad c l with activeH2 }.checkout (.http2 c)
  | (none, activeH2) =>
    let s := { s with activeH2 }
    match popIdle s.isOpen settings.timeout now s.idle.reverse with
    | some (got, rest) =>
      let s := { s with idle := rest.reverse }
      (maybeInsertNew s true got.value).checkout got.value
    | none => registerWaker settings { s with idle := [] }

-- ======== expiring

/-- `clear_expired`, on the host: closed and expired connections are
dropped, and the host itself if nothing is left of it. -/
def clearExpired (capacity : ExpectedCapacity) (now : Instant) (s : State) : State :=
  match settings.timeout with
  | none => s
  | some dur =>
    let idle := s.idle.filter fun entry =>
      s.isOpen entry.value && !decide (dur < now - entry.idleAt)
    if idle = [] ∧ s.activeH2 = [] ∧ s.connecting = 0 ∧ s.waiters = [] then
      { s with toHostPool := HostPool.new capacity }
    else { s with idle }

-- ======== steps

/-- What a connector comes back with. -/
inductive NewConnection
  | http1
  | http2 (maxStreams : Nat)

/-- The connection, open and with nothing reserved on it. -/
def State.establish (s : State) (conn : NewConnection) : HttpConnection × State :=
  match conn with
  | .http1 =>
    (.http1 s.nextConn, { s with
      nextConn := s.nextConn + 1
      isOpen := Function.update s.isOpen (.http1 s.nextConn) true })
  | .http2 maxStreams =>
    (.http2 s.nextConn, { s.setLoad s.nextConn (H2Load.new maxStreams) with
      nextConn := s.nextConn + 1
      isOpen := Function.update s.isOpen (.http2 s.nextConn) true })

/-- One critical section, or something that happens to a connection or a
waiter. A token is known by the capacity it promised, `race` are the
waiters that give up while it lasts. -/
inductive Op
  | checkout (now : Instant)
  | insertNewConnection (token : Nat) (conn : NewConnection) (race : List WaiterId) (now : Instant)
  | insertNewConnectionError (token : Nat) (err : Strng) (race : List WaiterId)
  | dropShouldConnect (token : Nat) (race : List WaiterId)
  | dropPooled (pooled : Pooled) (race : List WaiterId) (now : Instant)
  | intoH2Parts (pooled : Pooled) (c : ConnId)
  | dropGuard (c : ConnId) (race : List WaiterId) (now : Instant)
  | cancel (tx : WaiterId)
  /-- an HTTP/2 connection that is closed is so for good -/
  | close (conn : HttpConnection)
  /-- an HTTP/1 connection is ready once more -/
  | ready (id : ConnId)
  | clearExpired (now : Instant)

/-- Of those that were registered. -/
def State.cancel (s : State) (txs : List WaiterId) : State :=
  { s with canceled := txs.filter (· < s.nextWaiter) ++ s.canceled }

/-- What nobody holds cannot be given back; such a step does nothing. -/
def step (capacity : ExpectedCapacity) (s : State) : Op → Option State
  | .checkout now => some (checkoutOrRegisterWaker settings now s).2
  | .insertNewConnection token conn race now =>
    if token ∈ s.shouldConnect then
      let (conn, s) := s.establish conn
      (insertNewConnection settings token conn race now
        { s with shouldConnect := s.shouldConnect.erase token }).map (·.cancel race)
    else some s
  | .insertNewConnectionError token err race =>
    if token ∈ s.shouldConnect then
      (insertNewConnectionError token err race
        { s with shouldConnect := s.shouldConnect.erase token }).map (·.cancel race)
    else some s
  | .dropShouldConnect token race =>
    if token ∈ s.shouldConnect then
      (dropShouldConnect token race
        { s with shouldConnect := s.shouldConnect.erase token }).map (·.cancel race)
    else some s
  | .dropPooled pooled race now =>
    if pooled ∈ s.pooled then
      (dropPooled settings pooled.value race now
        { s with pooled := s.pooled.erase pooled }).map (·.cancel race)
    else some s
  | .intoH2Parts pooled c =>
    if pooled ∈ s.pooled ∧ pooled.value = .http2 c then
      some { s with
        pooled := s.pooled.erase pooled
        guards := c :: s.guards }
    else some s
  | .dropGuard c race now =>
    if c ∈ s.guards then
      (returnH2Stream settings c race now { s with guards := s.guards.erase c }).map (·.cancel race)
    else some s
  | .cancel tx => some (s.cancel [tx])
  | .close conn =>
    some { s with isOpen := Function.update s.isOpen conn false }
  | .ready id =>
    some { s with isOpen := Function.update s.isOpen (.http1 id) true }
  | .clearExpired now => some (clearExpired settings capacity now s)

/-- The state after a run, from a host nobody has asked for yet. -/
def run (capacity : ExpectedCapacity) (ops : List Op) : Option State :=
  ops.foldlM (step settings capacity) (State.new capacity)

end AgentGateway.Pool
