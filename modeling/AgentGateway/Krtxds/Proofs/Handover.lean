/-
A request goes from hand to hand: the channel of updates, `debounce`, a
push, the queue. Whatever one of them was given it has passed on, or has
still (`run_spec`).

Each function of the server is looked at once, for what it does to what is
held (`Passes`). That a cell of the heap only grows makes the rest of the
server indifferent to a merge (`Holds.grow`).
-/
import AgentGateway.Krtxds.Server
import AgentGateway.Lib.Custody

namespace AgentGateway.Krtxds

open Lib List

-- ======== obligations

inductive Obligation
  | toHand (key : ConfigKey)
  | toStart (key : ConfigKey)
  | toEnqueue (con : ConnId) (key : ConfigKey)
  | toDequeue (con : ConnId) (key : ConfigKey)

/-- Who gives to whom. -/
def custody : Custody Entry Obligation where
  opens
    | .event keys, .toHand key => key ∈ keys
    | .handed keys, .toStart key => key ∈ keys
    | .started clients keys, .toEnqueue con key => con ∈ clients ∧ key ∈ keys
    | .enqueued con keys, .toDequeue con' key => con' = con ∧ key ∈ keys
    | _, _ => False
  pays
    | .handed keys, .toHand key => key ∈ keys
    | .started _ keys, .toStart key => key ∈ keys
    | .enqueued con keys, .toEnqueue con' key => con' = con ∧ key ∈ keys
    | .dequeued con keys, .toDequeue con' key => con' = con ∧ key ∈ keys
    | _, _ => False

-- ======== debounce

namespace Debounce

variable {opts : DebounceOptions} {now inFlight : Nat} {d : Debounce}

/-- A request that waits is waited for: by a timer, or by a push that is
under way and that `debounce` hears of when it is done. -/
structure Inv (opts : DebounceOptions) (now inFlight : Nat) (d : Debounce) : Prop where
  events : d.req = none ↔ d.debouncedEvents = 0
  clock : d.lastConfigUpdateTime ≤ now
  armed : d.free → d.req ≠ none → ∃ deadline, d.timeChan = some deadline
      ∧ deadline ≤ d.lastConfigUpdateTime + opts.debounceAfter
  flight : inFlight = if d.free then 0 else 1

theorem inv_init : init.Inv opts 0 0 where
  events := ⟨fun _ => rfl, fun _ => rfl⟩
  clock := Nat.le_refl 0
  armed _ hreq := absurd rfl hreq
  flight := rfl

theorem Inv.tick (h : d.Inv opts now inFlight) (t : Nat) : d.Inv opts (now + t) inFlight where
  events := h.events
  clock := Nat.le_add_right_of_le h.clock
  armed := h.armed
  flight := h.flight

theorem pushWorker_cases (opts : DebounceOptions) (now : Nat) (d : Debounce) :
    (∃ req, d.req = some req ∧ d.pushWorker opts now =
      ({ d with free := false, req := none, debouncedEvents := 0 },
        some ⟨req, d.debouncedEvents, none⟩))
      ∨ (d.req = none ∧ d.pushWorker opts now = (d, none))
      ∨ (d.stable opts now = false ∧ d.pushWorker opts now = ({ d with
          timeChan := some (now + (opts.debounceAfter - (now - d.lastConfigUpdateTime))) },
          none)) := by
  unfold pushWorker
  cases hstable : d.stable opts now with
  | false => exact .inr (.inr ⟨rfl, rfl⟩)
  | true =>
    cases hreq : d.req with
    | none => exact .inr (.inl ⟨rfl, rfl⟩)
    | some req => exact .inl ⟨req, rfl, rfl⟩

theorem pushWorker_inv (opts : DebounceOptions) (hevents : d.req = none ↔ d.debouncedEvents = 0)
    (hclock : d.lastConfigUpdateTime ≤ now) (hfree : d.free) :
    (d.pushWorker opts now).1.Inv opts now (d.pushWorker opts now).2.toList.length := by
  rcases pushWorker_cases opts now d with ⟨req, -, heq⟩ | ⟨hreq, heq⟩
      | ⟨hstable, heq⟩ <;> rw [heq]
  · exact ⟨⟨fun _ => rfl, fun _ => rfl⟩, hclock, nofun, rfl⟩
  · refine ⟨hevents, hclock, fun _ hne => absurd hreq hne, ?_⟩
    rw [hfree]
    rfl
  · simp only [stable, Bool.or_eq_false_iff, decide_eq_false_iff_not] at hstable
    refine ⟨hevents, hclock, fun _ _ => ⟨_, rfl, ?_⟩, ?_⟩
    · show _ ≤ d.lastConfigUpdateTime + opts.debounceAfter
      omega
    · show _ = if d.free then 0 else 1
      rw [hfree]
      rfl

theorem receive_spec (hd : d.Inv opts now inFlight) (h : Heap) (r : Ref) :
    ∃ d', d.receive opts now h r = (d', (h.merge d.req r).1)
      ∧ d'.req = some (h.merge d.req r).2 ∧ d'.free = d.free
      ∧ (d.req ≠ none → d'.timeChan = d.timeChan ∧ d'.startDebounce = d.startDebounce)
      ∧ d'.Inv opts now inFlight := by
  unfold receive
  by_cases hzero : d.debouncedEvents = 0
  · simp only [hzero, if_true]
    refine ⟨_, rfl, rfl, rfl, fun hne => absurd (hd.events.2 hzero) hne,
      ⟨nofun, nofun⟩, Nat.le_refl now, fun _ _ => ?_, hd.flight⟩
    exact ⟨_, rfl, Nat.le_refl _⟩
  · simp only [hzero, if_false]
    refine ⟨_, rfl, rfl, rfl, fun _ => ⟨rfl, rfl⟩,
      ⟨nofun, nofun⟩, Nat.le_refl now, fun hfree _ => ?_, hd.flight⟩
    obtain ⟨deadline, htimer, hle⟩ := hd.armed hfree fun hreq => hzero (hd.events.1 hreq)
    exact ⟨deadline, htimer, Nat.le_trans hle (Nat.add_le_add_right hd.clock _)⟩

end Debounce

namespace Server

def Holds (s : Server) : Obligation → Prop
  | .toHand key =>
    (∃ r ∈ s.pushChannel, key ∈ s.heap.configs r) ∨ ∃ r ∈ s.debounce.req, key ∈ s.heap.configs r
  | .toStart key =>
    ∃ push ∈ s.pushes, push.clients = none ∧ key ∈ s.heap.configs push.req
  | .toEnqueue con key =>
    ∃ push ∈ s.pushes, ∃ clients, push.clients = some clients
      ∧ con ∈ clients ∧ key ∈ s.heap.configs push.req
  | .toDequeue con key => key ∈ s.queue.due s.heap con

/-- Everything held is held after the step, or the step has passed it
on. -/
inductive Passes (s s' : Server) : Prop
  | quiet (log : s'.log = s.log) (keeps : ∀ d, s.Holds d → s'.Holds d)
  | entry (e : Entry) (log : s'.log = s.log ++ [e])
      (keeps : ∀ d, s.Holds d → s'.Holds d ∨ custody.pays e d)
      (opens : ∀ d, custody.opens e d → s'.Holds d)

variable {s s' : Server} {opts : DebounceOptions} {d : Obligation} {heap : Heap}

theorem Passes.kept (hp : s.Passes s') (h : custody.Kept s.log s.Holds) :
    custody.Kept s'.log s'.Holds := by
  cases hp with
  | quiet hlog hkeeps =>
    rw [hlog]
    exact h.mono hkeeps
  | entry e hlog hkeeps hopens =>
    rw [hlog]
    exact h.append hkeeps hopens

theorem Passes.of_quiet {s₁ : Server} (hp : s₁.Passes s')
    (hlog : s₁.log = s.log) (hkeeps : ∀ d, s.Holds d → s₁.Holds d) : s.Passes s' := by
  cases hp with
  | quiet hlog' hkeeps' =>
    exact .quiet (hlog'.trans hlog) fun d hd => hkeeps' d (hkeeps d hd)
  | entry e hlog' hkeeps' hopens =>
    exact .entry e (hlog ▸ hlog') (fun d hd => hkeeps' d (hkeeps d hd)) hopens

theorem Holds.grow (hg : s.heap.Grows heap) (hd : s.Holds d) : { s with heap }.Holds d := by
  cases d with
  | toHand key =>
    exact hd.imp (fun ⟨r, hr, hkey⟩ => ⟨r, hr, hg.configs hkey⟩)
      (fun ⟨r, hr, hkey⟩ => ⟨r, hr, hg.configs hkey⟩)
  | toStart key =>
    obtain ⟨push, hpush, hnone, hkey⟩ := hd
    exact ⟨push, hpush, hnone, hg.configs hkey⟩
  | toEnqueue con key =>
    obtain ⟨push, hpush, clients, hclients, hcon, hkey⟩ := hd
    exact ⟨push, hpush, clients, hclients, hcon, hg.configs hkey⟩
  | toDequeue con key => exact PushQueue.due_grow hg hd

-- ======== invariant

structure Refs (s : Server) : Prop where
  heap : s.heap.Wf
  channel : ∀ r ∈ s.pushChannel, s.heap.requests.Valid r
  req : ∀ r ∈ s.debounce.req, s.heap.requests.Valid r
  pushes : ∀ push ∈ s.pushes, s.heap.requests.Valid push.req
  queue : s.queue.Wf s.heap

/-- The pushes that `debounce` has yet to hear of. -/
def inFlight (s : Server) : Nat := s.pushes.length + s.freeCh.toNat

structure Inv (opts : DebounceOptions) (s : Server) : Prop where
  refs : s.Refs
  debounce : s.debounce.Inv opts s.now s.inFlight
  queue : s.queue.Inv
  running : s.queue.shuttingDown = false

theorem inv_init : init.Inv opts where
  refs := ⟨⟨nofun, nofun⟩, nofun, nofun, nofun, ⟨nofun, nofun⟩⟩
  debounce := Debounce.inv_init
  queue := PushQueue.inv_new
  running := rfl

theorem Inv.same (h : s.Inv opts) : s.Inv opts ∧ s.Passes s := ⟨h, .quiet rfl fun _ hd => hd⟩

theorem Refs.grow (h : s.Refs) (hg : s.heap.Grows heap)
    (hheap : heap.Wf) : { s with heap }.Refs where
  heap := hheap
  channel r hr := hg.valid r (h.channel r hr)
  req r hr := hg.valid r (h.req r hr)
  pushes push hpush := hg.valid push.req (h.pushes push hpush)
  queue := h.queue.grow hg

-- ======== what each step does

theorem work_spec (opts : DebounceOptions) (hrefs : s.Refs) (hqueue : s.queue.Inv)
    (hrunning : s.queue.shuttingDown = false)
    (hevents : s.debounce.req = none ↔ s.debounce.debouncedEvents = 0)
    (hclock : s.debounce.lastConfigUpdateTime ≤ s.now)
    (hfree : s.debounce.free) (hidle : s.inFlight = 0) :
    (s.work opts).Inv opts ∧ s.Passes (s.work opts) := by
  have hinv := Debounce.pushWorker_inv opts hevents hclock hfree
  obtain ⟨hpushes, hfreeCh⟩ := Nat.add_eq_zero_iff.1 hidle
  have hpushes := length_eq_zero_iff.1 hpushes
  rcases Debounce.pushWorker_cases opts s.now s.debounce with
      ⟨req, hreq, heq⟩ | ⟨-, heq⟩ | ⟨-, heq⟩ <;> rw [heq] at hinv <;>
    simp only [work, heq]
  · refine ⟨⟨⟨hrefs.heap, hrefs.channel, nofun, ?_, hrefs.queue⟩, ?_, hqueue,
      hrunning⟩, .entry _ rfl (fun d hd => ?_) (fun d hd => ?_)⟩
    · intro push hpush
      rw [hpushes, nil_append, mem_singleton] at hpush
      rw [hpush]
      exact hrefs.req req hreq
    · rw [inFlight, hfreeCh, hpushes]
      exact hinv
    · cases d with
      | toHand key =>
        rcases hd with hd | ⟨r, hr, hkey⟩
        · exact .inl (.inl hd)
        · cases hreq.symm.trans hr
          exact .inr hkey
      | toStart | toEnqueue =>
        obtain ⟨push, hpush, hhas⟩ := hd
        exact .inl ⟨push, mem_append_left _ hpush, hhas⟩
      | toDequeue con key => exact .inl hd
    · cases d with
      | toStart key =>
        exact ⟨_, mem_append_right _ (mem_singleton_self _), rfl, hd⟩
      | _ => cases hd
  all_goals
    refine ⟨⟨{ hrefs with }, ?_, hqueue, hrunning⟩, .quiet rfl fun d hd => hd⟩
    rw [inFlight, hfreeCh, hpushes]
    exact hinv

/-- `debounce` is free exactly when no push is under way. -/
theorem Inv.inFlight_of_free (h : s.Inv opts) (hfree : s.debounce.free) : s.inFlight = 0 := by
  rw [h.debounce.flight, hfree]
  rfl

theorem timer_spec (h : s.Inv opts) : (s.timer opts).Inv opts ∧ s.Passes (s.timer opts) := by
  unfold timer
  cases htimer : s.debounce.timeChan with
  | none => exact h.same
  | some deadline =>
    by_cases hdue : deadline ≤ s.now
    · simp only [hdue, if_true]
      cases hfree : s.debounce.free with
      | true =>
        obtain ⟨hinv, hpasses⟩ := work_spec opts (s := { s with
          debounce := { s.debounce with timeChan := none, free := true } })
          { h.refs with }
          h.queue h.running h.debounce.events h.debounce.clock rfl
          (h.inFlight_of_free hfree)
        exact ⟨hinv, hpasses.of_quiet rfl fun _ hd => hd⟩
      | false =>
        refine ⟨⟨{ h.refs with }, ⟨h.debounce.events, h.debounce.clock, nofun, ?_⟩,
          h.queue, h.running⟩, .quiet rfl fun _ hd => hd⟩
        have hflight := h.debounce.flight
        rw [hfree] at hflight
        exact hflight
    · simp only [hdue, if_false]
      exact h.same

theorem free_spec (h : s.Inv opts) : (s.free opts).Inv opts ∧ s.Passes (s.free opts) := by
  unfold free
  cases hfreeCh : s.freeCh with
  | false => exact h.same
  | true =>
    have hflight : s.pushes.length + 1 = if s.debounce.free then 0 else 1 := by
      rw [← h.debounce.flight, inFlight, hfreeCh]
      rfl
    have hnone : s.pushes.length = 0 := by
      split at hflight <;> omega
    obtain ⟨hinv, hpasses⟩ := work_spec opts (s := { s with
      freeCh := false
      debounce := { s.debounce with free := true } })
      { h.refs with }
      h.queue h.running h.debounce.events h.debounce.clock rfl hnone
    exact ⟨hinv, hpasses.of_quiet rfl fun _ hd => hd⟩

theorem event_spec (h : s.Inv opts) (t : TypeUrl) (names : List Strng) :
    (s.event t names).Inv opts ∧ s.Passes (s.event t names) := by
  unfold event
  by_cases hroom : s.pushChannel.length < pushChannelSize
  · obtain ⟨hg, hheap, hvalid, hhas⟩ :=
      Heap.newRequest_spec h.refs.heap t names
    have hrefs := h.refs.grow hg hheap
    simp only [hroom, if_true]
    refine ⟨⟨⟨hheap, fun r hr => ?_, hrefs.req, hrefs.pushes, hrefs.queue⟩,
      h.debounce, h.queue, h.running⟩,
      .entry _ rfl (fun d hd => .inl ?_) (fun d hd => ?_)⟩
    · rcases mem_append.1 hr with hr | hr
      · exact hrefs.channel r hr
      · rw [mem_singleton.1 hr]
        exact hvalid
    · have hd := hd.grow hg
      cases d with
      | toHand key =>
        refine hd.imp_left fun ⟨r, hr, hkey⟩ => ?_
        exact ⟨r, mem_append_left _ hr, hkey⟩
      | _ => exact hd
    · cases d with
      | toHand key =>
        obtain ⟨k, hk, rfl⟩ := mem_map.1 hd
        exact .inl ⟨_, mem_append_right _ (mem_singleton_self _), hhas k hk⟩
      | _ => cases hd
  · simp only [hroom, if_false]
    exact h.same

theorem receive_spec (h : s.Inv opts) : (s.receive opts).Inv opts ∧ s.Passes (s.receive opts) := by
  unfold receive
  cases hchannel : s.pushChannel with
  | nil => exact h.same
  | cons r pushChannel =>
    have hr : s.heap.requests.Valid r := h.refs.channel r (hchannel ▸ mem_cons_self)
    obtain ⟨hg, hheap, hvalid, hold, hnew⟩ := Heap.merge_spec h.refs.heap h.refs.req hr
    have hrefs := h.refs.grow hg hheap
    obtain ⟨debounce, heq, hreq, -, -, hinv⟩ := Debounce.receive_spec h.debounce s.heap r
    simp only [heq]
    refine ⟨⟨⟨hheap, fun r' hr' => ?_, fun r' hr' => ?_, hrefs.pushes,
      hrefs.queue⟩, hinv, h.queue, h.running⟩, .quiet rfl fun d hd => ?_⟩
    · exact hrefs.channel r' (hchannel ▸ mem_cons_of_mem _ hr')
    · cases hreq.symm.trans hr'
      exact hvalid
    · cases d with
      | toHand key =>
        rcases hd with ⟨r', hr', hkey⟩ | ⟨r', hr', hkey⟩
        · rw [hchannel] at hr'
          rcases mem_cons.1 hr' with rfl | hr'
          · exact .inr ⟨_, hreq, hnew key hkey⟩
          · exact .inl ⟨r', hr', hg.configs hkey⟩
        · exact .inr ⟨_, hreq, hold r' hr' key hkey⟩
      | _ => exact hd.grow hg

variable {pushes : List Push} {i : Nat} {push push' g : Push}

theorem eraseIdx_mem (hi : pushes[i]? = some push) (hg : g ∈ pushes) :
    g = push ∨ g ∈ pushes.eraseIdx i := by
  obtain ⟨j, hj⟩ := mem_iff_getElem?.1 hg
  by_cases hij : j = i
  · subst hij
    exact .inl (Option.some.inj (hj.symm.trans hi))
  · exact .inr (mem_eraseIdx_iff_getElem?.2 ⟨j, hij, hj⟩)

theorem set_mem (hi : pushes[i]? = some push) (hg : g ∈ pushes) :
    g = push ∨ g ∈ pushes.set i push' := by
  refine (eraseIdx_mem hi hg).imp_right fun hmem => mem_of_mem_eraseIdx (i := i) ?_
  rwa [eraseIdx_set_eq]

theorem start_spec (h : s.Inv opts) (i : Nat) : (s.start i).Inv opts ∧ s.Passes (s.start i) := by
  unfold start
  split
  case h_2 => exact h.same
  case h_1 req debouncedEvents hi =>
    have hreq := h.refs.pushes _ (mem_of_getElem? hi)
    refine ⟨⟨{ h.refs with pushes := ?_ }, ?_, h.queue, h.running⟩,
      .entry _ rfl (fun d hd => ?_) (fun d hd => ?_)⟩
    · intro push hpush
      rcases mem_or_eq_of_mem_set hpush with hpush | rfl
      · exact h.refs.pushes push hpush
      · exact hreq
    · rw [inFlight, length_set]
      exact h.debounce
    · cases d with
      | toStart key =>
        obtain ⟨push, hpush, hnone, hkey⟩ := hd
        rcases set_mem hi hpush with rfl | hpush
        · exact .inr hkey
        · exact .inl ⟨push, hpush, hnone, hkey⟩
      | toEnqueue con key =>
        obtain ⟨push, hpush, clients, hclients, hhas⟩ := hd
        rcases set_mem hi hpush with rfl | hpush
        · cases hclients
        · exact .inl ⟨push, hpush, clients, hclients, hhas⟩
      | _ => exact .inl hd
    · cases d with
      | toEnqueue con key =>
        obtain ⟨hcon, hkey⟩ := hd
        exact ⟨_, mem_set (List.getElem?_eq_some_iff.1 hi).1 _, s.adsClients, rfl, hcon, hkey⟩
      | _ => cases hd

theorem enqueue_spec (h : s.Inv opts) (i : Nat) (con : ConnId) :
    (s.enqueue i con).Inv opts ∧ s.Passes (s.enqueue i con) := by
  unfold enqueue
  split
  case h_2 => exact h.same
  case h_1 req debouncedEvents clients hi =>
    by_cases hcon : con ∈ clients
    · have hreq := h.refs.pushes _ (mem_of_getElem? hi)
      have hlt := (List.getElem?_eq_some_iff.1 hi).1
      have hq := PushQueue.enqueue_spec h.queue h.refs.heap h.refs.queue hreq h.running con
      have hrefs := h.refs.grow hq.grows hq.heap
      simp only [hcon, if_true]
      refine ⟨⟨⟨hq.heap, hrefs.channel, hrefs.req, ?_, hq.refs⟩, ?_, hq.inv,
        hq.running.trans h.running⟩,
        .entry _ rfl (fun d hd => ?_) (fun d hd => ?_)⟩
      · intro push hpush
        rcases mem_or_eq_of_mem_set hpush with hpush | rfl
        · exact hrefs.pushes push hpush
        · exact hq.grows.valid req hreq
      · rw [inFlight, length_set]
        exact h.debounce
      · cases d with
        | toHand key => exact .inl (hd.grow hq.grows)
        | toStart key =>
          obtain ⟨push, hpush, hnone, hkey⟩ := hd
          rcases set_mem hi hpush with rfl | hpush
          · cases hnone
          · exact .inl ⟨push, hpush, hnone, hq.grows.configs hkey⟩
        | toEnqueue con' key =>
          obtain ⟨push, hpush, clients', hclients, hcon', hkey⟩ := hd
          rcases set_mem hi hpush with rfl | hpush
          · cases hclients
            by_cases heq : con' = con
            · exact .inr ⟨heq, hkey⟩
            · refine .inl ⟨_, mem_set hlt _, _, rfl, ?_, hq.grows.configs hkey⟩
              exact (mem_erase_of_ne heq).2 hcon'
          · exact .inl ⟨push, hpush, clients', hclients, hcon', hq.grows.configs hkey⟩
        | toDequeue con' key => exact .inl (hq.keeps con' key hd)
      · cases d with
        | toDequeue con' key =>
          obtain ⟨rfl, hkey⟩ := hd
          exact hq.adds key hkey
        | _ => cases hd
    · simp only [hcon, if_false]
      exact h.same

theorem pushed_spec (h : s.Inv opts) (i : Nat) : (s.pushed i).Inv opts ∧ s.Passes (s.pushed i) := by
  unfold pushed
  split
  case h_2 => exact h.same
  case h_1 req debouncedEvents hi =>
    cases hfreeCh : s.freeCh with
    | true => exact h.same
    | false =>
      have hlt := (List.getElem?_eq_some_iff.1 hi).1
      have hsub := eraseIdx_sublist s.pushes i
      refine ⟨⟨{ h.refs with
          pushes := fun push hpush => h.refs.pushes push (hsub.subset hpush) },
        ?_, h.queue, h.running⟩, .quiet rfl fun d hd => ?_⟩
      · have hlen : (s.pushes.eraseIdx i).length + 1 = s.pushes.length := by
          rw [length_eraseIdx_of_lt hlt]
          omega
        have hinv := h.debounce
        rw [inFlight, hfreeCh, ← hlen] at hinv
        exact hinv
      · cases d with
        | toStart key =>
          obtain ⟨push, hpush, hnone, hkey⟩ := hd
          rcases eraseIdx_mem hi hpush with rfl | hpush
          · cases hnone
          · exact ⟨push, hpush, hnone, hkey⟩
        | toEnqueue con key =>
          obtain ⟨push, hpush, clients, hclients, hcon, hkey⟩ := hd
          rcases eraseIdx_mem hi hpush with rfl | hpush
          · cases hclients
            cases hcon
          · exact ⟨push, hpush, clients, hclients, hcon, hkey⟩
        | _ => exact hd

theorem dequeue_spec (h : s.Inv opts) : s.dequeue.Inv opts ∧ s.Passes s.dequeue := by
  unfold dequeue
  split
  case h_2 => exact h.same
  case h_1 con request queue hdeq =>
    obtain ⟨⟨r, rfl, -, hdue⟩, hinv, hrefs, hrun, hothers⟩ :=
      PushQueue.dequeue_spec h.queue h.refs.queue hdeq
    refine ⟨⟨{ h.refs with queue := hrefs }, h.debounce, hinv, hrun.trans h.running⟩,
      .entry _ rfl (fun d hd => ?_) (fun d hd => ?_)⟩
    · cases d with
      | toDequeue con' key =>
        by_cases heq : con' = con
        · subst heq
          refine .inr ⟨rfl, ?_⟩
          rw [Holds, hdue] at hd
          exact hd
        · refine .inl ?_
          show key ∈ queue.due s.heap con'
          rw [hothers con' heq]
          exact hd
      | _ => exact .inl hd
    · cases d with
      | _ => cases hd

theorem markDone_spec (h : s.Inv opts) (con : ConnId) :
    { s with queue := s.queue.markDone con }.Inv opts
      ∧ s.Passes { s with queue := s.queue.markDone con } := by
  obtain ⟨hinv, hrefs, hrun, hdue⟩ := PushQueue.markDone_spec h.queue h.refs.queue con
  refine ⟨⟨{ h.refs with queue := hrefs }, h.debounce, hinv, hrun.trans h.running⟩,
    .quiet rfl fun d hd => ?_⟩
  cases d with
  | toDequeue con' key =>
    show key ∈ (s.queue.markDone con).due s.heap con'
    rw [hdue con']
    exact hd
  | _ => exact hd

-- ======== runs

theorem step_spec (h : s.Inv opts) (a : Step) :
    (s.step opts a).Inv opts ∧ s.Passes (s.step opts a) := by
  cases a with
  | tick t =>
    exact ⟨⟨{ h.refs with }, h.debounce.tick t, h.queue, h.running⟩, .quiet rfl fun _ hd => hd⟩
  | connect | disconnect =>
    exact ⟨⟨{ h.refs with }, h.debounce, h.queue, h.running⟩, .quiet rfl fun _ hd => hd⟩
  | event t names => exact event_spec h t names
  | receive => exact receive_spec h
  | timer => exact timer_spec h
  | free => exact free_spec h
  | start i => exact start_spec h i
  | enqueue i con => exact enqueue_spec h i con
  | pushed i => exact pushed_spec h i
  | dequeue => exact dequeue_spec h
  | markDone con => exact markDone_spec h con

theorem run_spec (opts : DebounceOptions) (steps : List Step) :
    (run opts steps).Inv opts ∧ custody.Kept (run opts steps).log (run opts steps).Holds := by
  refine foldlRecOn (motive := fun s => s.Inv opts ∧ custody.Kept s.log s.Holds)
    steps (step opts) ⟨inv_init, Custody.kept_nil⟩ fun s ih a _ => ?_
  obtain ⟨hinv, hpasses⟩ := step_spec ih.1 a
  exact ⟨hinv, hpasses.kept ih.2⟩

end Server

end AgentGateway.Krtxds
