/-
The invariant of the HTTP/2 connections of a host, kept while a connection
is handed to waiters (`send_connection`) and while waiters are told that one
will not come (`forget_pending_connection`).

What is said of one connection is a `View` of numbers: its active streams,
how many reservations are outstanding on it, and how often it is in the
queue of active connections and among the idle ones. `View.Ok` relates
them, by arithmetic alone, so an operation is dealt with by saying what
becomes of the view of the one connection it is about, and that it leaves
the others alone. The order of the queue is apart from that: free
connections are in front of full ones (`H2Pool.InOrder`).

While `send_connection` hands a connection out it may be in the queue with
no stream active, and one that takes a single stream may even be at its
back with that stream free. `Mid` says what holds then.

Of a connection that can serve `capacity` requests, `capacity` waiters
are rid, or all of them: those that gave up before their turn do not
count, and those that give up while they are served make room for no one
else in the queue. The same holds of a connection that is given up. The
step of the loop is one offer, which is taken or comes back
(`Sendable.taken`, `Sendable.failed`); the run of the loop is by induction
on the waiters.
-/
import AgentGateway.Pool.HostPool

namespace AgentGateway.Pool

open Function H2Pool

-- ======== views

/-- What the state says about HTTP/2 connections. -/
structure Wires where
  isOpen : HttpConnection → Bool
  load : ConnId → H2Load
  idle : List Idle
  activeH2 : H2Pool
  pooled : List Pooled
  guards : List ConnId
  nextConn : ConnId

def State.wires (s : State) : Wires where
  isOpen := s.isOpen
  load := s.load
  idle := s.idle
  activeH2 := s.activeH2
  pooled := s.pooled
  guards := s.guards
  nextConn := s.nextConn

/-- The pooled connections that are clones of one. -/
def heldOn (pooled : List Pooled) (c : ConnId) : Nat :=
  pooled.countP (·.value = .http2 c)

section

variable {pooled : List Pooled} {p : Pooled} {c : ConnId}

theorem heldOn_cons (h : p.value = .http2 c) : heldOn (p :: pooled) c = heldOn pooled c + 1 :=
  List.countP_cons_of_pos (decide_eq_true h)

theorem heldOn_cons_of_ne (h : p.value ≠ .http2 c) : heldOn (p :: pooled) c = heldOn pooled c :=
  List.countP_cons_of_neg (by simpa using h)

theorem heldOn_erase (hp : p ∈ pooled) (h : p.value = .http2 c) :
    heldOn (pooled.erase p) c + 1 = heldOn pooled c := by
  rw [← heldOn_cons h]
  exact (List.perm_cons_erase hp).symm.countP_eq _

theorem heldOn_erase_of_ne (h : p.value ≠ .http2 c) :
    heldOn (pooled.erase p) c = heldOn pooled c := by
  by_cases hp : p ∈ pooled
  · rw [← heldOn_cons_of_ne h]
    exact (List.perm_cons_erase hp).symm.countP_eq _
  · rw [List.erase_of_not_mem hp]

end

/-- One connection, in numbers. -/
structure View where
  active : Nat
  reserved : Nat
  tracked : Nat
  idle : Nat
  isOpen : Bool

namespace Wires

variable (w : Wires) (c : ConnId)

/-- The outstanding reservations: the pooled connections and the guards. -/
def reserved : Nat := heldOn w.pooled c + w.guards.count c

def tracked : Nat := w.activeH2.count c

def idling : Nat := w.idle.countP (·.value = .http2 c)

def view : View where
  active := (w.load c).activeStreams
  reserved := w.reserved c
  tracked := w.tracked c
  idle := w.idling c
  isOpen := w.isOpen (.http2 c)

variable {w c}

theorem view_congr {w' : Wires} (hload : w'.load c = w.load c)
    (hreserved : w'.reserved c = w.reserved c) (htracked : w'.tracked c = w.tracked c)
    (hidling : w'.idling c = w.idling c) (hopen : w'.isOpen (.http2 c) = w.isOpen (.http2 c)) :
    w'.view c = w.view c := by
  unfold view
  rw [hload, hreserved, htracked, hidling, hopen]

end Wires

namespace View

structure Ok (v : View) : Prop where
  reserved_le : v.reserved ≤ v.active
  reserved_eq : v.isOpen → v.active = v.reserved
  tracked_le : v.tracked ≤ 1
  tracked_active : 0 < v.tracked → 0 < v.active
  active_tracked : v.isOpen → 0 < v.active → v.tracked = 1
  idle_le : v.idle ≤ 1
  idle_active : 0 < v.idle → v.active = 0

/-- A connection may be closed, and then dropped from the queue; an idle
one may always be dropped. -/
structure Shrinks (v' v : View) : Prop where
  active : v'.active = v.active
  reserved : v'.reserved = v.reserved
  isOpen : v'.isOpen → v.isOpen
  tracked_le : v'.tracked ≤ v.tracked
  tracked_eq : v'.isOpen → v'.tracked = v.tracked
  idle_le : v'.idle ≤ v.idle

theorem Shrinks.rfl {v : View} : v.Shrinks v :=
  ⟨.refl _, .refl _, id, Nat.le_refl _, fun _ => .refl _, Nat.le_refl _⟩

theorem Ok.shrink {v v' : View} (h : v.Ok) (hv : v'.Shrinks v) : v'.Ok where
  reserved_le := by
    rw [hv.reserved, hv.active]
    exact h.reserved_le
  reserved_eq hopen := by
    rw [hv.reserved, hv.active]
    exact h.reserved_eq (hv.isOpen hopen)
  tracked_le := Nat.le_trans hv.tracked_le h.tracked_le
  tracked_active hpos := by
    rw [hv.active]
    exact h.tracked_active (Nat.lt_of_lt_of_le hpos hv.tracked_le)
  active_tracked hopen hpos := by
    rw [hv.active] at hpos
    rw [hv.tracked_eq hopen]
    exact h.active_tracked (hv.isOpen hopen) hpos
  idle_le := Nat.le_trans hv.idle_le h.idle_le
  idle_active hpos := by
    rw [hv.active]
    exact h.idle_active (Nat.lt_of_lt_of_le hpos hv.idle_le)

end View

-- ======== invariant

/-- The invariant between steps. -/
structure Streams (w : Wires) : Prop where
  ok : ∀ c, (w.view c).Ok
  fresh : ∀ c, w.nextConn ≤ c → (w.view c).active = 0 ∧ (w.view c).idle = 0
  inOrder : H2Pool.InOrder w.load w.activeH2

namespace Streams

variable {w w' : Wires} {c : ConnId}

theorem lt_of_active (h : Streams w) (hc : 0 < (w.view c).active) : c < w.nextConn := by
  refine Nat.lt_of_not_le fun hle => ?_
  rw [(h.fresh c hle).1] at hc
  omega

theorem touch (h : Streams w) (hc : c < w.nextConn) (hnext : w'.nextConn = w.nextConn)
    (hothers : ∀ d, d ≠ c → w'.view d = w.view d) (hok : (w'.view c).Ok)
    (horder : H2Pool.InOrder w'.load w'.activeH2) : Streams w' where
  ok d := by
    by_cases hd : d = c
    · rw [hd]
      exact hok
    · rw [hothers d hd]
      exact h.ok d
  fresh d hd := by
    rw [hnext] at hd
    rw [hothers d (Nat.ne_of_gt (Nat.lt_of_lt_of_le hc hd))]
    exact h.fresh d hd
  inOrder := horder

theorem shrink (h : Streams w) (hnext : w'.nextConn = w.nextConn)
    (hload : w'.load = w.load) (hq : w'.activeH2.Sublist w.activeH2)
    (hviews : ∀ c, (w'.view c).Shrinks (w.view c)) : Streams w' where
  ok c := (h.ok c).shrink (hviews c)
  fresh c hc := by
    rw [hnext] at hc
    have hfresh := h.fresh c hc
    refine ⟨(hviews c).active.trans hfresh.1, ?_⟩
    exact Nat.le_zero.1 (hfresh.2 ▸ (hviews c).idle_le)
  inOrder := by
    rw [hload]
    exact h.inOrder.sublist hq

theorem congr (h : Streams w) (hnext : w.nextConn ≤ w'.nextConn)
    (hload : w'.load = w.load) (hq : w'.activeH2 = w.activeH2)
    (hviews : ∀ c, w'.view c = w.view c) : Streams w' where
  ok c := by
    rw [hviews]
    exact h.ok c
  fresh c hc := by
    rw [hviews]
    exact h.fresh c (Nat.le_trans hnext hc)
  inOrder := by
    rw [hload, hq]
    exact h.inOrder

end Streams

-- ======== while sending it

/-- The invariant while `sent` streams of a connection, that nobody had
reserved any of, have been handed out. -/
structure Mid (w : Wires) (c : ConnId) (sent : Nat) : Prop where
  known : c < w.nextConn
  others : ∀ d, d ≠ c → (w.view d).Ok
  fresh : ∀ d, w.nextConn ≤ d → (w.view d).active = 0 ∧ (w.view d).idle = 0
  active : (w.view c).active = sent
  reserved : (w.view c).reserved = sent
  idle : (w.view c).idle = 0
  tracked_le : (w.view c).tracked ≤ 1
  tracked : 0 < sent → (w.view c).tracked = 1
  rest : H2Pool.InOrder w.load (w.activeH2.remove c)
  /-- only one that takes a single stream can be out of order -/
  inOrder : 0 < sent ∨ 1 < (w.load c).maxStreams → H2Pool.InOrder w.load w.activeH2

theorem Mid.streams {w : Wires} {c : ConnId} {sent : Nat} (h : Mid w c sent)
    (hsent : 0 < sent) : Streams w where
  ok d := by
    by_cases hd : d = c
    · rw [hd]
      have hactive := h.active
      have hreserved := h.reserved
      have hidle := h.idle
      have htracked := h.tracked hsent
      constructor <;> omega
    · exact h.others d hd
  fresh := h.fresh
  inOrder := h.inOrder (.inl hsent)

variable {s : State} {c : ConnId} {conn : HttpConnection} {sent : Nat}

-- ======== books

/-- The waiters of a queue that have not given up. -/
def live (canceled ws : List WaiterId) : Nat :=
  ws.countP (· ∉ canceled)

def State.live (s : State) : Nat := Pool.live s.canceled s.waiters

/-- What the state says about connections that are on their way. -/
structure Book where
  connecting : Nat
  expectedConnectingCapacity : Nat
  perConnectionCapacityCache : CapacityCache
  shouldConnect : List Nat
  canceled : List WaiterId

def State.book (s : State) : Book where
  connecting := s.connecting
  expectedConnectingCapacity := s.expectedConnectingCapacity
  perConnectionCapacityCache := s.perConnectionCapacityCache
  shouldConnect := s.shouldConnect
  canceled := s.canceled

variable {ws : List WaiterId} {tx : WaiterId} {canceled : List WaiterId} {capacity : Nat}
  {q : H2Pool} (race : List WaiterId) (reason : Reason)

theorem live_cons_canceled (h : tx ∈ canceled) : live canceled (tx :: ws) = live canceled ws :=
  List.countP_cons_of_neg (by simpa using h)

theorem live_cons (h : tx ∉ canceled) : live canceled (tx :: ws) = live canceled ws + 1 :=
  List.countP_cons_of_pos (by simpa using h)

-- ======== one offer

theorem incrementLoad_of_lt (h : (s.load c).activeStreams < (s.load c).maxStreams) :
    ∃ l, l.activeStreams = (s.load c).activeStreams + 1 ∧ l.maxStreams = (s.load c).maxStreams
      ∧ ((l.Full ∧ incrementLoad s (.http2 c) = (some .reservedAndFilled,
          { s.setLoad c l with activeH2 := s.activeH2.markFull c }))
        ∨ (¬ l.Full ∧ incrementLoad s (.http2 c)
          = (some .reservedButNotFilled, s.setLoad c l))) := by
  obtain ⟨l, hactive, hmax, ⟨hres, hl⟩ | ⟨hres, hl⟩⟩ := H2Load.tryReserveStreamSlot_of_lt h
  · refine ⟨l, hactive, hmax, .inl ⟨hl, ?_⟩⟩
    simp only [incrementLoad, hres]
    rfl
  · refine ⟨l, hactive, hmax, .inr ⟨hl, ?_⟩⟩
    simp only [incrementLoad, hres]
    rfl

theorem Mid.requeue (h : Mid s.wires c sent)
    (hcount : ∀ d, q.count d = s.activeH2.count d) (hremove : q.remove c = s.activeH2.remove c)
    (horder : 0 < sent ∨ 1 < (s.load c).maxStreams → H2Pool.InOrder s.load q) :
    Mid { s with activeH2 := q }.wires c sent := by
  have hview : ∀ d, { s with activeH2 := q }.wires.view d = s.wires.view d :=
    fun d => Wires.view_congr rfl rfl (hcount d) rfl rfl
  constructor
  case known => exact h.known
  case others =>
    intro d hd
    rw [hview]
    exact h.others d hd
  case fresh =>
    intro d hd
    exact h.fresh d hd
  case active => exact hview c ▸ h.active
  case reserved => exact hview c ▸ h.reserved
  case idle => exact hview c ▸ h.idle
  case tracked_le => exact hview c ▸ h.tracked_le
  case tracked => exact hview c ▸ h.tracked
  case rest =>
    show H2Pool.InOrder s.load (q.remove c)
    rw [hremove]
    exact h.rest
  case inOrder => exact horder

/-- A stream is reserved and released again: at most the place in the
queue is another. -/
theorem Mid.failed (h : Mid s.wires c sent) (hroom : sent < (s.load c).maxStreams) :
    ∃ q, releaseH2StreamWithoutReturningToIdle
        (incrementLoad s (.http2 c)).2 (.http2 c) = some { s with activeH2 := q }
      ∧ Mid { s with activeH2 := q }.wires c sent := by
  have hactive : (s.load c).activeStreams = sent := h.active
  have htracked : s.activeH2.count c ≤ 1 := h.tracked_le
  obtain ⟨l, hl, hmax, hcases⟩ := incrementLoad_of_lt (hactive ▸ hroom)
  -- releasing gives back the load there was
  obtain ⟨l', hrelease, hl', hmax'⟩ := H2Load.releaseStreamSlot_of_pos (l := l) (by omega)
  have hback : l' = s.load c := H2Load.ext_counts (by omega) (by omega)
  have hload : update (update s.load c l) c l' = s.load := by
    rw [update_idem, hback, update_eq_self]
  have hfree : ¬ (s.load c).Full := H2Load.not_full_of_lt (by omega)
  have hremaining : l.activeStreams - 1 = sent := by omega
  rw [hremaining] at hrelease
  obtain ⟨hfull, heq⟩ | ⟨hfull, heq⟩ := hcases
  · have hatMax : (l.activeStreams == l.maxStreams) := beq_iff_eq.2 hfull
    rw [hatMax] at hrelease
    rw [heq]
    have hself : update s.load c l c = l := update_self ..
    simp only [releaseH2StreamWithoutReturningToIdle, State.setLoad, hself,
      hrelease, Option.map_some, hload]
    by_cases hzero : sent = 0
    · -- the only stream: it is left at the back
      rw [if_pos hzero]
      refine ⟨_, rfl, h.requeue (fun _ => count_markFull) (remove_markFull htracked) ?_⟩
      intro hor
      have hone : l.activeStreams = l.maxStreams := hfull
      omega
    · rw [if_neg hzero]
      refine ⟨_, rfl, h.requeue (fun _ => count_markActiveByLoad.trans count_markFull)
        (remove_markActiveByLoad.trans (remove_markFull htracked)) ?_⟩
      intro _
      refine inOrder_markActiveByLoad ?_ hfree
      rw [remove_markFull htracked]
      exact h.rest
  · have hatMax : (l.activeStreams == l.maxStreams) = false :=
      beq_eq_false_iff_ne.2 hfull
    rw [hatMax] at hrelease
    rw [heq]
    have hself : update s.load c l c = l := update_self ..
    simp only [releaseH2StreamWithoutReturningToIdle, State.setLoad, hself,
      hrelease, Option.map_some, hload, Bool.false_eq_true, if_false, ite_self]
    exact ⟨_, rfl, h⟩

theorem Mid.taken (h : Mid s.wires c sent) {l : H2Load}
    (hactive : l.activeStreams = sent + 1) (hcount : ∀ d, q.count d = s.activeH2.count d)
    (hremove : q.remove c = s.activeH2.remove c)
    (horder : c ∈ q → H2Pool.InOrder (update s.load c l) q)
    (reused : Bool) (received : List (WaiterId × Except ClientConnectError Pooled)) :
    Mid (ensureTracked { s.setLoad c l with
      activeH2 := q
      received
      pooled := ⟨.http2 c, reused⟩ :: s.pooled } (some (.http2 c))).wires c
      (sent + 1) := by
  have htracked : q.count c ≤ 1 := Nat.le_trans (Nat.le_of_eq (hcount c)) h.tracked_le
  have hself : update s.load c l c = l := update_self ..
  have hrest : H2Pool.InOrder (update s.load c l) (q.remove c) := by
    rw [hremove]
    exact h.rest.update_of_not_mem (not_mem_remove h.tracked_le)
  have hothers : ∀ d, d ≠ c → (ensureTracked { s.setLoad c l with
      activeH2 := q
      received
      pooled := ⟨.http2 c, reused⟩ :: s.pooled } (some (.http2 c))).wires.view d
      = s.wires.view d := by
    intro d hd
    refine Wires.view_congr (update_of_ne hd _ _) ?_ ?_ rfl rfl
    · exact congrArg (· + _) (heldOn_cons_of_ne (by simpa using hd.symm))
    · exact (count_ensureTracked_of_ne hd _).trans (hcount d)
  constructor
  case known => exact h.known
  case others =>
    intro d hd
    rw [hothers d hd]
    exact h.others d hd
  case fresh =>
    intro d hd
    rw [hothers d (Nat.ne_of_gt (Nat.lt_of_lt_of_le h.known hd))]
    exact h.fresh d hd
  case active => exact (congrArg H2Load.activeStreams hself).trans hactive
  case reserved =>
    have hreserved : s.wires.reserved c = sent := h.reserved
    show heldOn (_ :: s.pooled) c + _ = _
    rw [heldOn_cons rfl, ← hreserved]
    exact Nat.succ_add _ _
  case idle => exact h.idle
  case tracked_le =>
    exact Nat.le_of_eq (count_ensureTracked_self htracked _)
  case tracked =>
    intro _
    exact count_ensureTracked_self htracked _
  case rest =>
    show H2Pool.InOrder _ (remove (q.ensureTracked c _) c)
    rw [remove_ensureTracked]
    exact hrest
  case inOrder =>
    intro _
    exact inOrder_ensureTracked hrest horder

-- ======== the loop

/-- The invariant while a connection is handed out. -/
def Sendable (w : Wires) (sent : Nat) : HttpConnection → Prop
  | .http1 _ => Streams w
  | .http2 c => Mid w c sent

/-- How many requests a connection takes. -/
def State.width (s : State) : HttpConnection → Nat
  | .http1 _ => 1
  | .http2 c => (s.load c).maxStreams

/-- What is left of a connection to hand out. -/
def leftOver (sent : Nat) : HttpConnection → Option HttpConnection
  | .http1 h => if sent = 0 then some (.http1 h) else none
  | .http2 c => some (.http2 c)

theorem leftOver_of_lt (h : sent < s.width conn) : leftOver sent conn = some conn := by
  cases conn with
  | http1 => exact if_pos (Nat.lt_one_iff.1 h)
  | http2 => rfl

theorem Sendable.reserved (h : Sendable s.wires sent conn) (hroom : sent < s.width conn) :
    (incrementLoad s conn).1 ≠ some .noCapacity := by
  cases conn with
  | http1 => nofun
  | http2 c =>
    have hactive : (s.load c).activeStreams = sent := h.active
    obtain ⟨l, -, -, ⟨-, heq⟩ | ⟨-, heq⟩⟩ :=
      incrementLoad_of_lt (s := s) (c := c) (by rw [hactive]; exact hroom)
    all_goals
      rw [heq]
      nofun

theorem Sendable.failed (h : Sendable s.wires sent conn) (hroom : sent < s.width conn) :
    ∃ s', releaseH2StreamWithoutReturningToIdle (incrementLoad s conn).2 conn = some s'
      ∧ Sendable s'.wires sent conn ∧ s'.width conn = s.width conn ∧ s'.book = s.book := by
  cases conn with
  | http1 => exact ⟨s, rfl, h, rfl, rfl⟩
  | http2 c =>
    obtain ⟨q, heq, hmid⟩ := Mid.failed h hroom
    exact ⟨_, heq, hmid, rfl, rfl⟩

theorem Sendable.taken (h : Sendable s.wires sent conn)
    (hroom : sent < s.width conn) (reused : Bool)
    (received : List (WaiterId × Except ClientConnectError Pooled)) :
    ∃ s', ensureTracked { (incrementLoad s conn).2 with
        received
        pooled := ⟨conn, reused⟩ :: (incrementLoad s conn).2.pooled }
        conn.maybeClone = s'
      ∧ Sendable s'.wires (sent + 1) conn ∧ s'.width conn = s.width conn
      ∧ s'.book = s.book := by
  refine ⟨_, rfl, ?_⟩
  cases conn with
  | http1 =>
    -- it leaves the pool, and no HTTP/2 connection is concerned
    refine ⟨Streams.congr h (Nat.le_refl _) rfl rfl fun d => ?_, rfl, rfl⟩
    refine Wires.view_congr rfl ?_ rfl rfl rfl
    exact congrArg (· + _) (heldOn_cons_of_ne nofun)
  | http2 c =>
    have hmid : Mid s.wires c sent := h
    have hactive : (s.load c).activeStreams = sent := hmid.active
    obtain ⟨l, hl, hmax, ⟨hfull, heq⟩ | ⟨hfull, heq⟩⟩ :=
      incrementLoad_of_lt (s := s) (c := c) (by rw [hactive]; exact hroom)
    all_goals
      rw [heq]
      have hself : update s.load c l c = l := update_self ..
      refine ⟨?_, (congrArg H2Load.maxStreams hself).trans hmax, rfl⟩
    · refine hmid.taken (by omega) (fun _ => count_markFull)
        (remove_markFull hmid.tracked_le) ?_ reused received
      intro _
      refine inOrder_markFull ?_ (hself.symm ▸ hfull)
      exact hmid.rest.update_of_not_mem (not_mem_remove hmid.tracked_le)
    · have hlt := H2Load.lt_of_not_full hfull
      refine hmid.taken (by omega) (fun _ => rfl) rfl ?_ reused received
      intro _
      have hfree : ¬ (s.load c).Full := H2Load.not_full_of_lt (by omega)
      have horder : H2Pool.InOrder s.load s.activeH2 :=
        hmid.inOrder (.inr (show 1 < (s.load c).maxStreams by omega))
      exact horder.update ⟨fun hl => absurd hl hfull, fun hs => absurd hs hfree⟩

theorem sendLoop_canceled (race : List WaiterId)
    {next : Option HttpConnection} (h : tx ∈ s.canceled) :
    sendLoop reason race (tx :: ws) (capacity + 1) sent next s
      = sendLoop reason race ws (capacity + 1) sent next s := by
  exact if_pos h

theorem sendLoop_spec (race ws : List WaiterId) (conn : HttpConnection) :
    ∀ {capacity sent : Nat} {s : State}, Sendable s.wires sent conn →
      sent + capacity ≤ s.width conn →
      ∃ sent' s', sendLoop reason race ws capacity sent (leftOver sent conn) s
          = some (sent', leftOver sent' conn, s') ∧ Sendable s'.wires sent' conn ∧ s'.book = s.book
        ∧ s'.live ≤ live s.canceled ws - capacity := by
  induction ws with
  | nil =>
    intro capacity sent s h _
    exact ⟨sent, _, rfl, h, rfl, Nat.zero_le _⟩
  | cons tx ws ih =>
    intro capacity sent s h hroom
    cases capacity with
    | zero => exact ⟨sent, _, rfl, h, rfl, Nat.le_refl _⟩
    | succ capacity =>
      by_cases hcancel : tx ∈ s.canceled
      · rw [sendLoop_canceled reason race hcancel, live_cons_canceled hcancel]
        exact ih h hroom
      have hlt : sent < s.width conn := by omega
      rw [leftOver_of_lt hlt, sendLoop, if_neg hcancel, live_cons hcancel]
      simp only [if_neg (h.reserved hlt)]
      by_cases hrace : tx ∈ race
      · -- gone by now: the offer comes back, the waiter does not
        obtain ⟨s₁, hfail, h₁, hwidth, hbook⟩ := h.failed hlt
        have hcanceled : s₁.canceled = s.canceled := congrArg Book.canceled hbook
        rw [if_pos hrace, hfail, ← leftOver_of_lt hlt]
        obtain ⟨sent', s', hrun, h', hbook', hlive⟩ := ih h₁ (hwidth.symm ▸ hroom)
        refine ⟨sent', s', hrun, h', hbook'.trans hbook, ?_⟩
        rw [hcanceled] at hlive
        omega
      · obtain ⟨s₁, htaken, h₁, hwidth, hbook⟩ :=
          h.taken hlt (reason = .idle) ((incrementLoad s conn).2.received
              ++ [(tx, .ok ⟨conn, reason = .idle⟩)])
        have hcanceled : s₁.canceled = s.canceled := congrArg Book.canceled hbook
        rw [if_neg hrace, htaken]
        obtain ⟨sent', s', hrun, h', hbook', hlive⟩ :=
          ih h₁ (by omega : sent + 1 + capacity ≤ s₁.width conn)
        refine ⟨sent', s', hrun, h', hbook'.trans hbook, ?_⟩
        rw [hcanceled] at hlive
        omega

-- ======== the leftovers

/-- What `push_idle_with_cap` adds is at most the one connection. -/
theorem pushIdleWithCap_eq (m : Nat) (value : HttpConnection) (now : Instant) (s : State) :
    ∃ idle, pushIdleWithCap m value now s = { s with idle }
      ∧ ∀ d, idle.countP (·.value = .http2 d) ≤ s.idle.countP (·.value = .http2 d)
          + if value = .http2 d then 1 else 0 := by
  unfold pushIdleWithCap
  split
  · exact ⟨s.idle, rfl, fun d => Nat.le_add_right _ _⟩
  · refine ⟨_, rfl, fun d => ?_⟩
    rw [List.countP_append]
    refine Nat.add_le_add ?_ (by simp)
    split
    · exact (List.tail_sublist _).countP_le
    · omega

theorem Sendable.park (h : Sendable s.wires 0 conn) (m : Nat) (now : Instant) :
    Streams (pushIdleWithCap m conn now (untrack s conn)).wires := by
  obtain ⟨idle, heq, hidle⟩ := pushIdleWithCap_eq m conn now (untrack s conn)
  rw [heq]
  cases conn with
  | http1 =>
    refine Streams.shrink h rfl rfl (List.Sublist.refl _) fun d => ?_
    exact { View.Shrinks.rfl (v := s.wires.view d) with idle_le := hidle d }
  | http2 c =>
    have hmid : Mid s.wires c 0 := h
    have hidle_ne : ∀ d, d ≠ c → idle.countP (·.value = .http2 d)
        ≤ s.idle.countP (·.value = .http2 d) := by
      intro d hd
      refine Nat.le_trans (hidle d) (Nat.le_of_eq ?_)
      rw [if_neg (by simpa using hd.symm)]
      rfl
    constructor
    case ok =>
      intro d
      by_cases hd : d = c
      · subst hd
        have hactive : (s.load d).activeStreams = 0 := hmid.active
        have hreserved : s.wires.reserved d = 0 := hmid.reserved
        have hzero : s.idle.countP (·.value = .http2 d) = 0 := hmid.idle
        have htracked : (s.activeH2.remove d).count d = 0 := by
          rw [count_remove_self]
          have hle : s.activeH2.count d ≤ 1 := hmid.tracked_le
          omega
        have hone : idle.countP (·.value = .http2 d) ≤ 1 := by
          refine Nat.le_trans (hidle d) (Nat.le_of_eq ?_)
          rw [if_pos rfl]
          exact congrArg (· + 1) hzero
        constructor
        case reserved_le => exact Nat.le_of_eq (hreserved.trans hactive.symm)
        case reserved_eq => exact fun _ => hactive.trans hreserved.symm
        case tracked_le => exact Nat.le_trans (Nat.le_of_eq htracked) (Nat.zero_le 1)
        case tracked_active =>
          exact fun hpos => absurd htracked (Nat.ne_of_gt hpos)
        case active_tracked =>
          exact fun _ hpos => absurd hactive (Nat.ne_of_gt hpos)
        case idle_le => exact hone
        case idle_active => exact fun _ => hactive
      · refine (hmid.others d hd).shrink ?_
        exact { View.Shrinks.rfl (v := s.wires.view d) with
          tracked_le := Nat.le_of_eq (count_remove_of_ne hd)
          tracked_eq := fun _ => count_remove_of_ne hd
          idle_le := hidle_ne d hd }
    case fresh =>
      intro d hd
      have hne := Nat.ne_of_gt (Nat.lt_of_lt_of_le hmid.known hd)
      have hfresh := hmid.fresh d hd
      exact ⟨hfresh.1, Nat.le_zero.1 (hfresh.2 ▸ hidle_ne d hne)⟩
    case inOrder => exact hmid.rest

theorem Sendable.streams (h : Sendable s.wires sent conn) (hsent : 0 < sent) : Streams s.wires := by
  cases conn with
  | http1 => exact h
  | http2 => exact Mid.streams h hsent

theorem sendConnection_spec (settings : PoolSettings) (reason : Reason) (race : List WaiterId)
    (now : Instant) (h : Sendable s.wires 0 conn) (hroom : capacity ≤ s.width conn) :
    ∃ s', sendConnection settings reason capacity conn race now s = some s'
      ∧ Streams s'.wires ∧ s'.book = s.book ∧ s'.live ≤ s.live - capacity := by
  obtain ⟨sent, s₁, hrun, h₁, hbook, hlive⟩ :=
    sendLoop_spec reason race s.waiters conn h (by rwa [Nat.zero_add] : 0 + capacity ≤ s.width conn)
  have hstart : ∀ conn, leftOver 0 conn = some conn := by
    intro conn
    cases conn <;> rfl
  rw [hstart] at hrun
  rw [sendConnection, hrun]
  cases sent with
  | zero =>
    rw [hstart]
    refine ⟨_, rfl, h₁.park settings.maxIdlePerHost now, ?_⟩
    obtain ⟨idle, heq, -⟩ := pushIdleWithCap_eq settings.maxIdlePerHost conn now (untrack s₁ conn)
    simp only [heq]
    cases conn <;> exact ⟨hbook, hlive⟩
  | succ sent => exact ⟨s₁, rfl, h₁.streams (Nat.succ_pos _), hbook, hlive⟩

-- ======== forgetting

theorem send_eq (s : State) (race : List WaiterId) (tx : WaiterId) (err : ClientConnectError) :
    ∃ received, s.send race tx err = { s with received } := by
  unfold State.send
  split
  · exact ⟨s.received, rfl⟩
  · exact ⟨_, rfl⟩

theorem notifyFirst_eq (ws : List WaiterId) (err : Option Strng) (s : State) :
    ∃ received ws', notifyFirst race ws err s = { s with received, waiters := ws' }
      ∧ live s.canceled ws' ≤ live s.canceled ws - 1 := by
  fun_induction notifyFirst race ws err s with
  | case1 => exact ⟨_, [], rfl, Nat.zero_le _⟩
  | case2 tx ws err s hcancel ih =>
    rw [live_cons_canceled hcancel]
    exact ih
  | case3 tx ws s hcancel e hrace ih =>
    obtain ⟨received, ws', heq, hlive⟩ := ih
    rw [live_cons hcancel]
    exact ⟨received, ws', heq, by omega⟩
  | case4 tx ws s hcancel | case5 tx ws s hcancel =>
    obtain ⟨received, heq⟩ := send_eq s race tx _
    rw [live_cons hcancel]
    exact ⟨received, ws, congrArg (fun t : State => { t with waiters := ws }) heq, Nat.le_refl _⟩

theorem notifyRest_eq (err : Error) (ws : List WaiterId) :
    ∀ (toNotify : Nat) (s : State), ∃ received ws',
      notifyRest race err ws toNotify s = { s with received, waiters := ws' }
        ∧ live s.canceled ws' ≤ live s.canceled ws - toNotify := by
  intro toNotify s
  fun_induction notifyRest race err ws toNotify s with
  | case1 | case2 => exact ⟨_, _, rfl, by simp [live]⟩
  | case3 tx ws toNotify s hcancel ih =>
    rw [live_cons_canceled hcancel]
    exact ih
  | case4 tx ws toNotify s hcancel ih =>
    obtain ⟨received, heq⟩ := send_eq s race tx (.checkoutIsClosed err)
    rw [heq] at ih ⊢
    obtain ⟨received', ws', heq', hlive⟩ := ih
    rw [live_cons hcancel]
    exact ⟨received', ws', heq', by simpa using hlive⟩

theorem checkedSub_of_le {a b : Nat} (h : b ≤ a) : checkedSub a b = some (a - b) :=
  if_pos h

/-- As many waiters as the capacity that does not come are rid of their
place. -/
theorem forgetPendingConnection_spec (capacity : Nat) (err : Option Strng)
    (under : Bool) (race : List WaiterId) (hconnecting : under = false → 0 < s.connecting)
    (hexpected : capacity ≤ s.expectedConnectingCapacity) :
    ∃ s', forgetPendingConnection capacity err under race s = some s'
      ∧ s'.wires = s.wires ∧ s'.book = { s.book with
          connecting := if under then s.connecting else s.connecting - 1
          expectedConnectingCapacity := s.expectedConnectingCapacity - capacity }
      ∧ s'.live ≤ s.live - capacity := by
  unfold forgetPendingConnection
  rw [checkedSub_of_le hexpected]
  cases under with
  | true =>
    obtain ⟨received, ws, heq, hlive⟩ := notifyRest_eq race
      .connectionLowCapacity s.waiters capacity { s with
        expectedConnectingCapacity := s.expectedConnectingCapacity - capacity }
    exact ⟨_, congrArg some heq, rfl, rfl, hlive⟩
  | false =>
    rw [checkedSub_of_le (hconnecting rfl)]
    obtain ⟨received, ws, heq, hlive⟩ := notifyFirst_eq race s.waiters err { s with
        connecting := s.connecting - 1
        expectedConnectingCapacity := s.expectedConnectingCapacity - capacity }
    obtain ⟨received', ws', heq', hlive'⟩ := notifyRest_eq race
      .waitingOnSharedFailedConnection ws (capacity - 1) { s with
        connecting := s.connecting - 1
        expectedConnectingCapacity := s.expectedConnectingCapacity - capacity
        received
        waiters := ws }
    simp only [Bool.false_eq_true, if_false, Option.bind_some, Option.map_some, heq, heq']
    refine ⟨_, rfl, rfl, rfl, ?_⟩
    have hlive : live s.canceled ws ≤ s.live - 1 := hlive
    have hlive' : live s.canceled ws' ≤ live s.canceled ws - (capacity - 1) := hlive'
    show live s.canceled ws' ≤ s.live - capacity
    omega

end AgentGateway.Pool
