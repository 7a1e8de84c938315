/-
What holds of a host after any sequence of steps, whoever takes them.

- No waiter is stranded: there are never more waiters than the connections
  on their way are expected to serve, so nobody waits when none is.
- Streams are counted right: on a connection that is open the active
  streams are the outstanding reservations, and a checkout waits only
  if no connection in the queue has a stream to give.

On a connection that has been closed the count may be too high: a pooled
connection that is dropped then is not released
(`closed_keeps_its_stream`). Nothing uses the count any more, since the
connection leaves the queue for good.
-/
import AgentGateway.Pool.Proofs.Steps

namespace AgentGateway.Pool

-- ======== waiters

/-- Connections on their way, and those who wait for them. -/
theorem no_stranded_waiter (settings : PoolSettings) (capacity : ExpectedCapacity)
    (hcapacity : 1 ≤ settings.expectedHttp2Capacity) (ops : List Op) :
    ∃ s, run settings capacity ops = some s ∧ s.connecting = s.shouldConnect.length
      ∧ s.expectedConnectingCapacity = s.shouldConnect.sum ∧ s.live ≤ s.expectedConnectingCapacity
      ∧ (s.shouldConnect = [] → ∀ tx ∈ s.waiters, tx ∈ s.canceled) := by
  obtain ⟨s, hrun, h⟩ := inv_run settings capacity ops
  have hexpected : s.expectedConnectingCapacity = s.shouldConnect.sum := h.accounts.expected
  have hcovered : s.live ≤ s.expectedConnectingCapacity := h.accounts.covered hcapacity
  refine ⟨s, hrun, h.accounts.connecting, hexpected, hcovered, ?_⟩
  intro hnone tx htx
  rw [hexpected, hnone] at hcovered
  have hzero : s.live = 0 := Nat.le_zero.1 hcovered
  have hdead := List.countP_eq_zero.1 hzero tx htx
  simpa using hdead

/-- Three wait for a connection that was to take a hundred streams and
takes one; one of them gives up. -/
theorem no_stranded_waiter_sample : ∃ s, run ⟨10, none, 100⟩ .auto
        [.checkout 0, .checkout 1, .checkout 2, .cancel 1,
          .insertNewConnection 100 .http1 [] 3] = some s ∧ s.connecting = s.shouldConnect.length
      ∧ s.expectedConnectingCapacity = s.shouldConnect.sum ∧ s.live ≤ s.expectedConnectingCapacity
      ∧ (s.shouldConnect = [] → ∀ tx ∈ s.waiters, tx ∈ s.canceled) :=
  no_stranded_waiter ⟨10, none, 100⟩ .auto (by decide) _

-- ======== streams

/-- The streams of one HTTP/2 connection. -/
structure StreamsOk (s : State) (c : ConnId) : Prop where
  active_le_max : (s.load c).activeStreams ≤ (s.load c).maxStreams
  reserved_le_active : s.wires.reserved c ≤ (s.load c).activeStreams
  active_eq_reserved : s.isOpen (.http2 c) → (s.load c).activeStreams = s.wires.reserved c
  tracked_once : s.isOpen (.http2 c) → 0 < (s.load c).activeStreams →
    s.activeH2.count c = 1 ∧ ∀ entry ∈ s.idle, entry.value ≠ .http2 c
  untracked : (s.load c).activeStreams = 0 → c ∉ s.activeH2

/-- There is no stream to give: a checkout would wait. -/
def CheckoutResult.isWait : CheckoutResult → Bool
  | .checkout _ => false
  | .wait _ _ => true

theorem View.Ok.streamsOk {s : State} {c : ConnId} (h : (s.wires.view c).Ok) : StreamsOk s c where
  active_le_max := (s.load c).active_le
  reserved_le_active := h.reserved_le
  active_eq_reserved := h.reserved_eq
  tracked_once hopen hpos := by
    refine ⟨h.active_tracked hopen hpos, fun entry hentry hvalue => ?_⟩
    have hidle : 0 < (s.wires.view c).idle :=
      List.countP_pos_iff.2 ⟨entry, hentry, decide_eq_true hvalue⟩
    exact Nat.ne_of_gt hpos (h.idle_active hidle)
  untracked hzero hmem := Nat.ne_of_gt (h.tracked_active (List.count_pos_iff.2 hmem)) hzero

theorem full_of_reserve_none {s : State} (h : Streams s.wires)
    (hnone : (s.activeH2.reserve (fun c => s.isOpen (.http2 c)) s.load).1 = none) :
    ∀ c ∈ s.activeH2, s.isOpen (.http2 c) → (s.load c).Full := by
  obtain ⟨dead, rest, hq, hdead, hcases⟩ := H2Pool.reserve_cases
    (fun c => s.isOpen (.http2 c)) s.load s.activeH2
  intro c hc hopen
  have hrest : c ∈ rest := by
    rw [hq] at hc
    refine (List.mem_append.1 hc).resolve_left fun hmem => ?_
    exact Bool.noConfusion ((hdead c hmem).symm.trans hopen)
  obtain ⟨hnil, -⟩ | ⟨front, q, hcons, -, hcases⟩ := hcases
  · rw [hnil] at hrest
    cases hrest
  obtain ⟨hfull, -⟩ | ⟨l, -, -, ⟨-, hsome⟩ | ⟨-, hsome⟩⟩ := hcases
  · have horder := (h.dropDead hq hdead).inOrder
    subst hcons
    exact Lib.Ordered.all_of_head horder hfull c hrest
  all_goals
    rw [hsome] at hnone
    cases hnone

/-- The streams of all connections, in every state that is reached. -/
theorem streams_accounted (settings : PoolSettings) (capacity : ExpectedCapacity) (ops : List Op) :
    ∃ s, run settings capacity ops = some s ∧ (∀ c, StreamsOk s c)
      ∧ (∀ front ∈ s.activeH2.head?, (s.load front).Full → ∀ c ∈ s.activeH2, (s.load c).Full)
      ∧ ∀ now, (checkoutOrRegisterWaker settings now s).1.isWait →
        ∀ c ∈ s.activeH2, s.isOpen (.http2 c) → (s.load c).Full := by
  obtain ⟨s, hrun, h⟩ := inv_run settings capacity ops
  refine ⟨s, hrun, fun c => (h.streams.ok c).streamsOk, ?_, fun now hwait => ?_⟩
  swap
  · refine full_of_reserve_none h.streams ?_
    unfold checkoutOrRegisterWaker at hwait
    split at hwait
    · cases hwait
    · rename_i hreserve
      rw [hreserve]
  intro front hfront hfull
  have horder : Lib.Ordered (fun c => (s.load c).Full) s.activeH2 := h.streams.inOrder
  cases hq : s.activeH2 with
  | nil =>
    rw [hq] at hfront
    cases hfront
  | cons c q =>
    rw [hq] at hfront horder
    cases hfront
    exact horder.all_of_head hfull

/-- A connection that is closed while a request holds it: the stream is
active for ever, and nobody has it. -/
theorem closed_keeps_its_stream : ∃ s, run ⟨10, none, 100⟩ .http2
        [.checkout 0, .insertNewConnection 100 (.http2 100) [] 1,
          .close (.http2 0), .dropPooled ⟨.http2 0, false⟩ [] 2] = some s
      ∧ (s.load 0).activeStreams = 1 ∧ s.wires.reserved 0 = 0 :=
  ⟨_, rfl, by decide, by decide⟩

end AgentGateway.Pool
