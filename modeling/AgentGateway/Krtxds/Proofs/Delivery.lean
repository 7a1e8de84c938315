/-
No client is left behind: what is given to `debounce` is handed to a push in
the end, and from there to every client, when the goroutines get their turns
and the clock goes on.

A request in the channel moves up. A request that waits keeps its
`startDebounce`, so at some time it has waited for too long; then the next
timer takes it, or the end of the push that is under way. That push has
fewer and fewer clients left. A connection in the queue moves up, and one
that is being pushed to is done at some time, and queued if something came
for it. What a step leaves alone comes first.
-/
import AgentGateway.Krtxds.Proofs.Handover
import AgentGateway.Lib.LeadsTo
import AgentGateway.Lib.Run
import Mathlib.Data.Nat.Pairing

namespace AgentGateway.Krtxds.Server

open Lib

variable {opts : DebounceOptions} {s : Server}

/-- `pushWorker` has to do with `debounce` and the pushes only. -/
theorem work_eq (opts : DebounceOptions) (s : Server) :
    ∃ debounce pushes log, s.work opts = { s with debounce, pushes, log } := by
  unfold work
  split <;> exact ⟨_, _, _, rfl⟩

theorem timer_eq (opts : DebounceOptions) (s : Server) :
    ∃ debounce pushes log, s.timer opts = { s with debounce, pushes, log } := by
  unfold timer
  split
  · exact ⟨_, _, _, rfl⟩
  · split
    · dsimp only
      split
      · exact work_eq opts { s with debounce := { s.debounce with timeChan := none } }
      · exact ⟨_, _, _, rfl⟩
    · exact ⟨_, _, _, rfl⟩

theorem free_eq (opts : DebounceOptions) (s : Server) :
    ∃ debounce pushes freeCh log, s.free opts = { s with debounce, pushes, freeCh, log } := by
  unfold free
  split
  · obtain ⟨debounce, pushes, log, heq⟩ := work_eq opts
      { s with freeCh := false, debounce := { s.debounce with free := true } }
    exact ⟨debounce, pushes, false, log, heq⟩
  · exact ⟨_, _, _, _, rfl⟩

theorem start_eq (s : Server) (i : Nat) : ∃ pushes log, s.start i = { s with pushes, log } := by
  unfold start
  split <;> exact ⟨_, _, rfl⟩

theorem enqueue_eq (s : Server) (i : Nat) (con : ConnId) :
    s.enqueue i con = s ∨ ∃ req pushes log, s.enqueue i con = { s with
      heap := (s.queue.enqueue s.heap con req).2
      queue := (s.queue.enqueue s.heap con req).1
      pushes
      log } := by
  unfold enqueue
  split
  · split
    · exact .inr ⟨_, _, _, rfl⟩
    · exact .inl rfl
  · exact .inl rfl

theorem step_grows (h : s.Inv opts) (a : Step) : s.heap.Grows (s.step opts a).heap := by
  cases a with
  | event t names =>
    simp only [step, event]
    split
    · exact (Heap.newRequest_spec h.refs.heap t names).1
    · exact Heap.Grows.rfl
  | receive =>
    simp only [step, receive]
    split
    · exact Heap.Grows.rfl
    · rename_i r _ hchannel
      obtain ⟨_, heq, -⟩ := Debounce.receive_spec h.debounce s.heap r
      have hr := h.refs.channel r (hchannel ▸ List.mem_cons_self)
      simp only [heq]
      exact (Heap.merge_spec h.refs.heap h.refs.req hr).1
  | enqueue i con =>
    simp only [step, enqueue]
    split
    · rename_i req _ _ hi
      split
      · exact (PushQueue.enqueue_spec h.queue h.refs.heap h.refs.queue
          (h.refs.pushes _ (List.mem_of_getElem? hi)) h.running con).grows
      · exact Heap.Grows.rfl
    · exact Heap.Grows.rfl
  | timer =>
    obtain ⟨_, _, _, heq⟩ := timer_eq opts s
    rw [step, heq]
    exact Heap.Grows.rfl
  | free =>
    obtain ⟨_, _, _, _, heq⟩ := free_eq opts s
    rw [step, heq]
    exact Heap.Grows.rfl
  | start i =>
    obtain ⟨_, _, heq⟩ := start_eq s i
    rw [step, heq]
    exact Heap.Grows.rfl
  | pushed i =>
    simp only [step, pushed]
    split
    · split <;> exact Heap.Grows.rfl
    · exact Heap.Grows.rfl
  | dequeue =>
    simp only [step, dequeue]
    split <;> exact Heap.Grows.rfl
  | _ => exact Heap.Grows.rfl

/-- The clock does not go back. Only `debounce` takes from the channel and from
`freeCh`, and touches its variables; only `sendPushes` takes from the queue. -/
structure Frame (a : Step) (s s' : Server) : Prop where
  now : s.now ≤ s'.now
  pushChannel : a ≠ .receive → s.pushChannel <+: s'.pushChannel
  queue : a ≠ .dequeue → s.queue.queue <+: s'.queue.queue
  debounce : a ≠ .receive → a ≠ .timer → a ≠ .free → s'.debounce = s.debounce
  freeCh : a ≠ .free → s.freeCh → s'.freeCh

theorem Frame.rfl (a : Step) (s : Server) : Frame a s s where
  now := Nat.le_refl _
  pushChannel _ := List.prefix_rfl
  queue _ := List.prefix_rfl
  debounce _ _ _ := Eq.refl _
  freeCh _ := id

theorem step_frame (opts : DebounceOptions) (s : Server) (a : Step) :
    Frame a s (s.step opts a) := by
  cases a with
  | tick t => exact { Frame.rfl _ s with now := Nat.le_add_right _ _ }
  | connect | disconnect => exact { Frame.rfl _ s with }
  | event t names =>
    simp only [step, event]
    split
    · exact { Frame.rfl _ s with pushChannel := fun _ => List.prefix_append _ _ }
    · exact .rfl _ s
  | receive =>
    simp only [step, receive]
    split
    · exact .rfl _ s
    · exact { Frame.rfl _ s with
        pushChannel := fun h => absurd rfl h
        debounce := fun h => absurd rfl h }
  | timer =>
    obtain ⟨_, _, _, heq⟩ := timer_eq opts s
    rw [step, heq]
    exact { Frame.rfl _ s with debounce := fun _ h => absurd rfl h }
  | free =>
    obtain ⟨_, _, _, _, heq⟩ := free_eq opts s
    rw [step, heq]
    exact { Frame.rfl _ s with
      debounce := fun _ _ h => absurd rfl h
      freeCh := fun h => absurd rfl h }
  | start i =>
    obtain ⟨_, _, heq⟩ := start_eq s i
    rw [step, heq]
    exact { Frame.rfl _ s with }
  | enqueue i con =>
    rcases enqueue_eq s i con with heq | ⟨req, _, _, heq⟩ <;> rw [step, heq]
    · exact .rfl _ s
    · exact { Frame.rfl _ s with
        queue := fun _ => PushQueue.enqueue_queue s.queue s.heap con req }
  | pushed i =>
    simp only [step, pushed]
    split
    · split
      · exact .rfl _ s
      · exact { Frame.rfl _ s with freeCh := fun _ _ => rfl }
    · exact .rfl _ s
  | dequeue =>
    simp only [step, dequeue]
    split
    · exact { Frame.rfl _ s with queue := fun h => absurd rfl h }
    · exact .rfl _ s
  | markDone con =>
    exact { Frame.rfl _ s with queue := fun _ => PushQueue.markDone_queue s.queue con }

-- ======== endless runs

def stateAt (opts : DebounceOptions) (steps : Nat → Step) : Nat → Server
  | 0 => init
  | n + 1 => (stateAt opts steps n).step opts (steps n)

/-- A turn that some goroutine takes again and again, whether or not it
can use it. -/
def Step.scheduled : Step → Bool
  | .receive | .timer | .free | .start _ | .enqueue _ _ | .pushed _ | .dequeue
  | .markDone _ => true
  | _ => false

structure Fair (opts : DebounceOptions) (steps : Nat → Step) : Prop where
  clock : ∀ t n, ∃ m, n ≤ m ∧ t ≤ (stateAt opts steps m).now
  turns : ∀ a, a.scheduled → ∀ n, ∃ m, n ≤ m ∧ steps m = a

/-- A step passes it on. -/
def Pays (s s' : Server) (d : Obligation) : Prop :=
  ∃ e, s'.log = s.log ++ [e] ∧ custody.pays e d

/-- It is passed on at that time. -/
def Paid (opts : DebounceOptions) (steps : Nat → Step) (d : Obligation) (n : Nat) : Prop :=
  (stateAt opts steps n).Pays (stateAt opts steps (n + 1)) d

variable {opts : DebounceOptions} {s s' : Server} {key : ConfigKey}

theorem Passes.holds {d : Obligation} (hp : s.Passes s') (hd : s.Holds d) :
    s.Pays s' d ∨ s'.Holds d := by
  cases hp with
  | quiet hlog hkeeps => exact .inr (hkeeps d hd)
  | entry e hlog hkeeps hopens =>
    exact (hkeeps d hd).symm.imp_left fun hpays => ⟨e, hlog, hpays⟩

theorem stateAt_inv (opts : DebounceOptions) (steps : Nat → Step) :
    ∀ n, (stateAt opts steps n).Inv opts
  | 0 => inv_init
  | n + 1 => (step_spec (stateAt_inv opts steps n) (steps n)).1

theorem getElem?_of_grown {α : Type} {l l' : List α} {j : Nat} {x : α}
    (h : l <+: l') (hj : l[j]? = some x) : l'[j]? = some x := by
  obtain ⟨more, rfl⟩ := h
  rw [List.getElem?_append_left (List.getElem?_eq_some_iff.1 hj).1]
  exact hj

-- ======== the channel

section Channel

theorem receive_cons (h : s.Inv opts) {r : Ref} {pushChannel : List Ref}
    (hchannel : s.pushChannel = r :: pushChannel) :
    (s.receive opts).pushChannel = pushChannel ∧ ∃ r' ∈ (s.receive opts).debounce.req,
        ∀ key ∈ s.heap.configs r, key ∈ (s.receive opts).heap.configs r' := by
  obtain ⟨debounce, heq, hreq, -⟩ := Debounce.receive_spec h.debounce s.heap r
  have hr := h.refs.channel r (hchannel ▸ List.mem_cons_self)
  obtain ⟨-, -, -, -, hnew⟩ := Heap.merge_spec h.refs.heap h.refs.req hr
  simp only [receive, hchannel, heq]
  exact ⟨trivial, _, hreq, hnew⟩

variable {steps : Nat → Step}

/-- The place of a key in the channel. -/
def InChannel (s : Server) (key : ConfigKey) (j : Nat) : Prop :=
  ∃ r, s.pushChannel[j]? = some r ∧ key ∈ s.heap.configs r

def InReq (s : Server) (key : ConfigKey) : Prop :=
  ∃ r ∈ s.debounce.req, key ∈ s.heap.configs r

theorem receive_inChannel (h : s.Inv opts) {j : Nat} (hj : s.InChannel key j) :
    (s.receive opts).InReq key ∨ ∃ i, i < j ∧ (s.receive opts).InChannel key i := by
  obtain ⟨r, hr, hkey⟩ := hj
  cases hchannel : s.pushChannel with
  | nil =>
    rw [hchannel] at hr
    cases hr
  | cons r' pushChannel =>
    obtain ⟨htail, r'', hreq, hmerged⟩ := receive_cons h hchannel
    rw [hchannel] at hr
    cases j with
    | zero =>
      cases hr
      exact .inl ⟨r'', hreq, hmerged key hkey⟩
    | succ j =>
      refine .inr ⟨j, Nat.lt_succ_self j, r, ?_, ?_⟩
      · rw [htail]
        exact hr
      · exact (step_grows h .receive).configs hkey

/-- What is in the channel reaches `debounce`. -/
theorem inChannel_leadsTo (hfair : Fair opts steps) (key : ConfigKey) :
    ∀ j, LeadsTo (fun n => (stateAt opts steps n).InChannel key j)
      fun n => (stateAt opts steps n).InReq key := by
  have hreceive : ∀ n j, (stateAt opts steps n).InChannel key j →
      steps n = .receive → (stateAt opts steps (n + 1)).InReq key
        ∨ ∃ i, i < j ∧ (stateAt opts steps (n + 1)).InChannel key i := by
    intro n j hj ha
    rw [stateAt, ha]
    exact receive_inChannel (stateAt_inv opts steps n) hj
  refine leadsTo_of_rank (P := fun j n => (stateAt opts steps n).InChannel key j)
    fun j => LeadsTo.of_next (leadsTo_of_action (hfair.turns .receive rfl)
      (fun n hj => ?_) fun n hj ha => hreceive n j hj ha)
  by_cases ha : steps n = .receive
  · exact .inl (hreceive n j hj ha)
  · obtain ⟨r, hr, hkey⟩ := hj
    have hinv := stateAt_inv opts steps n
    refine .inr ⟨r, ?_, (step_grows hinv (steps n)).configs hkey⟩
    exact getElem?_of_grown ((step_frame opts _ _).pushChannel ha) hr

end Channel

-- ======== a push

section Flight

variable {steps : Nat → Step} {push : Push}

private theorem eq_of_getElem?_singleton {g : Push} {i : Nat}
    (hi : [push][i]? = some g) : i = 0 ∧ push = g := by
  cases i with
  | zero => exact ⟨rfl, Option.some.inj hi⟩
  | succ i => cases hi

theorem step_pushes (h : s.Inv opts) (hpush : s.pushes = [push]) (a : Step) :
    (s.step opts a).pushes = [push] ∨ (push.clients = none ∧ ∃ clients,
        (s.step opts a).pushes = [{ push with clients := some clients }])
      ∨ (∃ clients con, push.clients = some clients ∧ con ∈ clients
        ∧ (s.step opts a).pushes = [{ push with clients := some (clients.erase con) }])
      ∨ (push.clients = some [] ∧ (s.step opts a).freeCh) := by
  have hflight := h.debounce.flight
  rw [inFlight, hpush, List.length_singleton] at hflight
  have hbusy : s.debounce.free = false := by
    cases hfree : s.debounce.free with
    | false => rfl
    | true =>
      rw [hfree] at hflight
      simp only [if_true] at hflight
      omega
  have hfreeCh : s.freeCh = false := by
    cases hfreeCh : s.freeCh with
    | false => rfl
    | true =>
      rw [hfreeCh, hbusy] at hflight
      cases hflight
  cases a with
  | event t names =>
    refine .inl ?_
    simp only [step, event]
    split <;> exact hpush
  | receive =>
    refine .inl ?_
    simp only [step, receive]
    split <;> exact hpush
  | timer =>
    refine .inl ?_
    simp only [step, timer, hbusy, Bool.false_eq_true, if_false]
    split
    · exact hpush
    · split <;> exact hpush
  | free =>
    refine .inl ?_
    simp only [step, free, hfreeCh, Bool.false_eq_true, if_false]
    exact hpush
  | start i =>
    simp only [step, start, hpush]
    split
    · rename_i hi
      obtain ⟨rfl, rfl⟩ := eq_of_getElem?_singleton hi
      exact .inr (.inl ⟨rfl, s.adsClients, rfl⟩)
    · exact .inl hpush
  | enqueue i con =>
    simp only [step, enqueue, hpush]
    split
    · rename_i clients hi
      obtain ⟨rfl, rfl⟩ := eq_of_getElem?_singleton hi
      split
      · rename_i hcon
        exact .inr (.inr (.inl ⟨clients, con, rfl, hcon, rfl⟩))
      · exact .inl hpush
    · exact .inl hpush
  | pushed i =>
    simp only [step, pushed, hpush, hfreeCh, Bool.false_eq_true, if_false]
    split
    · rename_i hi
      obtain ⟨rfl, rfl⟩ := eq_of_getElem?_singleton hi
      exact .inr (.inr (.inr ⟨rfl, rfl⟩))
    · exact .inl hpush
  | dequeue =>
    refine .inl ?_
    simp only [step, dequeue]
    split <;> exact hpush
  | _ => exact .inl hpush

/-- The push has so many clients left. -/
def Left (s : Server) (k : Nat) : Prop :=
  ∃ push clients, s.pushes = [push] ∧ push.clients = some clients ∧ clients.length = k

theorem unstarted_leadsTo (hfair : Fair opts steps) : LeadsTo
      (fun n => ∃ push, (stateAt opts steps n).pushes = [push] ∧ push.clients = none)
      fun n => ∃ k, (stateAt opts steps n).Left k := by
  refine LeadsTo.of_next (leadsTo_of_action (hfair.turns (.start 0) rfl) ?_ ?_)
  · rintro n ⟨push, hpush, hnone⟩
    rcases step_pushes (stateAt_inv opts steps n) hpush (steps n) with
        hsame | ⟨-, clients, hnext⟩ | ⟨_, _, hclients, -⟩ | ⟨hclients, -⟩
    · exact .inr ⟨push, hsame, hnone⟩
    · exact .inl ⟨clients.length, _, clients, hnext, rfl, rfl⟩
    · cases hnone.symm.trans hclients
    · cases hnone.symm.trans hclients
  · rintro n ⟨⟨req, events, _⟩, hpush, rfl⟩ ha
    rw [stateAt, ha]
    simp only [step, start, hpush]
    exact ⟨_, _, _, rfl, rfl, rfl⟩

theorem left_leadsTo (hfair : Fair opts steps) :
    ∀ k, LeadsTo (fun n => (stateAt opts steps n).Left k)
      fun n => (stateAt opts steps n).freeCh := by
  refine leadsTo_of_rank (P := fun k n => (stateAt opts steps n).Left k) fun k n hleft => ?_
  obtain ⟨push, clients, hpush, hclients, hlen⟩ := hleft
  cases clients with
  | nil =>
    refine LeadsTo.of_next (leadsTo_of_action
      (P := fun n => ∃ push, (stateAt opts steps n).pushes = [push] ∧ push.clients = some [])
      (hfair.turns (.pushed 0) rfl) ?_ ?_) n ⟨push, hpush, hclients⟩
    · rintro n ⟨push, hpush, hclients⟩
      rcases step_pushes (stateAt_inv opts steps n) hpush (steps n) with
          hsame | ⟨hnone, -⟩ | ⟨_, con, hsome, hcon, -⟩ | ⟨-, hdone⟩
      · exact .inr ⟨push, hsame, hclients⟩
      · cases hnone.symm.trans hclients
      · cases hsome.symm.trans hclients
        cases hcon
      · exact .inl (.inl hdone)
    · rintro n ⟨⟨req, events, _⟩, hpush, rfl⟩ ha
      refine .inl ?_
      rw [stateAt, ha]
      simp only [step, pushed, hpush]
      show (if _ then _ else _ : Server).freeCh
      split
      · assumption
      · rfl
  | cons con rest =>
    -- whoever is enqueued first, there is one client less
    refine LeadsTo.of_next (leadsTo_of_action
      (P := fun n => ∃ push clients, (stateAt opts steps n).pushes = [push]
        ∧ push.clients = some clients ∧ clients.length = k ∧ con ∈ clients)
      (hfair.turns (.enqueue 0 con) rfl) ?_ ?_) n
      ⟨push, _, hpush, hclients, hlen, List.mem_cons_self⟩
    · rintro n ⟨push, clients, hpush, hclients, hlen, hmem⟩
      rcases step_pushes (stateAt_inv opts steps n) hpush (steps n) with
          hsame | ⟨hnone, -⟩ | ⟨_, con', hsome, hcon', hnext⟩ | ⟨hnil, -⟩
      · exact .inr ⟨push, clients, hsame, hclients, hlen, hmem⟩
      · cases hnone.symm.trans hclients
      · cases hsome.symm.trans hclients
        refine .inl (.inr ⟨_, ?_, _, _, hnext, rfl, rfl⟩)
        rw [List.length_erase_of_mem hcon']
        have := List.length_pos_of_mem hmem
        omega
      · cases hnil.symm.trans hclients
        cases hmem
    · rintro n ⟨⟨req, events, _⟩, clients, hpush, rfl, hlen, hmem⟩ ha
      refine .inr ⟨(clients.erase con).length, ?_, ?_⟩
      · rw [List.length_erase_of_mem hmem]
        have := List.length_pos_of_mem hmem
        omega
      · rw [stateAt, ha]
        simp only [step, enqueue, hpush]
        refine ⟨⟨req, events, some (clients.erase con)⟩, _, ?_, rfl, rfl⟩
        simp [hmem]

theorem busy_leadsTo (hfair : Fair opts steps) :
    LeadsTo (fun n => (stateAt opts steps n).debounce.free = false)
      fun n => (stateAt opts steps n).freeCh := by
  intro n hbusy
  have hflight := (stateAt_inv opts steps n).debounce.flight
  rw [hbusy, inFlight] at hflight
  cases hfreeCh : (stateAt opts steps n).freeCh with
  | true => exact ⟨n, Nat.le_refl n, hfreeCh⟩
  | false =>
    rw [hfreeCh] at hflight
    obtain ⟨push, hpush⟩ := List.length_eq_one_iff.1 hflight
    cases hclients : push.clients with
    | none =>
      obtain ⟨m, hnm, k, hleft⟩ := unstarted_leadsTo hfair n ⟨push, hpush, hclients⟩
      obtain ⟨l, hml, hdone⟩ := left_leadsTo hfair k m hleft
      exact ⟨l, Nat.le_trans hnm hml, hdone⟩
    | some clients =>
      exact left_leadsTo hfair clients.length n ⟨push, clients, hpush, hclients, rfl⟩

end Flight

-- ======== waiting

section Waiting

variable {t deadline : Nat}

/-- The request has a key, and has waited since `t`. -/
def Waits (s : Server) (key : ConfigKey) (t : Nat) : Prop :=
  s.InReq key ∧ s.debounce.startDebounce = t

/-- `pushWorker` hands the request over, unless it is too early. -/
theorem work_waits (opts : DebounceOptions) (hw : s.Waits key t) :
    s.Pays (s.work opts) (.toHand key)
      ∨ (s.work opts).Waits key t ∧ s.debounce.stable opts s.now = false := by
  obtain ⟨⟨r, hr, hkey⟩, ht⟩ := hw
  unfold work
  rcases Debounce.pushWorker_cases opts s.now s.debounce with
      ⟨req, hreq, heq⟩ | ⟨hreq, -⟩ | ⟨hstable, heq⟩
  · cases hreq.symm.trans hr
    rw [heq]
    exact .inl ⟨_, rfl, hkey⟩
  · cases hreq.symm.trans hr
  · rw [heq]
    exact .inr ⟨⟨⟨r, hr, hkey⟩, ht⟩, hstable⟩

theorem timer_waits (opts : DebounceOptions) (hw : s.Waits key t) :
    s.Pays (s.timer opts) (.toHand key) ∨ (s.timer opts).Waits key t := by
  unfold timer
  split
  · exact .inr hw
  · split
    · dsimp only
      split
      · rcases work_waits opts (s := { s with
          debounce := { s.debounce with timeChan := none } }) hw with
          hpays | ⟨hw, -⟩
        · exact .inl hpays
        · exact .inr hw
      · exact .inr hw
    · exact .inr hw

theorem free_waits (opts : DebounceOptions) (hw : s.Waits key t) :
    s.Pays (s.free opts) (.toHand key) ∨ (s.free opts).Waits key t := by
  unfold free
  split
  · rcases work_waits opts (s := { s with
      freeCh := false
      debounce := { s.debounce with free := true } }) hw with hpays | ⟨hw, -⟩
    · exact .inl hpays
    · exact .inr hw
  · exact .inr hw

theorem receive_waits (h : s.Inv opts) (hw : s.Waits key t) :
    (s.receive opts).Waits key t ∧ (s.receive opts).debounce.free = s.debounce.free
      ∧ (s.receive opts).debounce.timeChan = s.debounce.timeChan := by
  obtain ⟨⟨r, hr, hkey⟩, ht⟩ := hw
  unfold receive
  split
  · exact ⟨⟨⟨r, hr, hkey⟩, ht⟩, rfl, rfl⟩
  · rename_i r' _ hchannel
    obtain ⟨debounce, heq, hreq, hfree, hsame, -⟩ := Debounce.receive_spec h.debounce s.heap r'
    have hr' := h.refs.channel r' (hchannel ▸ List.mem_cons_self)
    obtain ⟨-, -, -, hold, -⟩ := Heap.merge_spec h.refs.heap h.refs.req hr'
    obtain ⟨htimer, hstart⟩ := hsame fun hnone => nomatch hnone.symm.trans hr
    simp only [heq]
    exact ⟨⟨⟨_, hreq, hold r hr key hkey⟩, hstart.trans ht⟩, hfree, htimer⟩

theorem step_waits (h : s.Inv opts) (a : Step) (hw : s.Waits key t) :
    s.Pays (s.step opts a) (.toHand key) ∨ (s.step opts a).Waits key t := by
  have hframe := (step_frame opts s a).debounce
  have hgrows := step_grows h a
  cases a with
  | receive => exact .inr (receive_waits h hw).1
  | timer => exact timer_waits opts hw
  | free => exact free_waits opts hw
  | _ =>
    obtain ⟨⟨r, hr, hkey⟩, ht⟩ := hw
    refine .inr ⟨⟨r, ?_, hgrows.configs hkey⟩, ?_⟩ <;>
      rw [hframe (by simp) (by simp) (by simp)]
    · exact hr
    · exact ht

/-- It has waited for too long. -/
def Late (opts : DebounceOptions) (s : Server) (key : ConfigKey) (t : Nat) : Prop :=
  s.Waits key t ∧ t + opts.debounceMax ≤ s.now

theorem work_late (hl : s.Late opts key t) : s.Pays (s.work opts) (.toHand key) := by
  refine (work_waits opts hl.1).resolve_right fun hearly => ?_
  have hstable : s.debounce.stable opts s.now := by
    rw [Debounce.stable, hl.1.2, Bool.or_eq_true, decide_eq_true_eq, decide_eq_true_eq]
    exact .inl (Nat.le_sub_of_add_le' hl.2)
  cases hstable.symm.trans hearly.2

theorem step_late (h : s.Inv opts) (a : Step) (hl : s.Late opts key t) :
    s.Pays (s.step opts a) (.toHand key) ∨ (s.step opts a).Late opts key t :=
  (step_waits h a hl.1).imp_right fun hw =>
    ⟨hw, Nat.le_trans hl.2 (step_frame opts s a).now⟩

theorem free_late (hl : s.Late opts key t) (hfreeCh : s.freeCh) :
    s.Pays (s.free opts) (.toHand key) := by
  unfold free
  rw [if_pos hfreeCh]
  exact work_late (s := { s with
    freeCh := false
    debounce := { s.debounce with free := true } }) hl

theorem timer_late (hl : s.Late opts key t) (hfree : s.debounce.free)
    (htimer : s.debounce.timeChan = some deadline)
    (hdue : deadline ≤ s.now) : s.Pays (s.timer opts) (.toHand key) := by
  simp only [timer, htimer, hdue, hfree, if_true]
  exact work_late (s := { s with
    debounce := { s.debounce with timeChan := none, free := true } }) hl

/-- The timer is set for what has waited for too long. -/
def Armed (opts : DebounceOptions) (s : Server) (key : ConfigKey) (t deadline : Nat) : Prop :=
  s.Late opts key t ∧ s.debounce.free ∧ s.debounce.timeChan = some deadline

theorem step_armed (h : s.Inv opts) (a : Step) (ha : s.Armed opts key t deadline) :
    s.Pays (s.step opts a) (.toHand key) ∨ (s.step opts a).Armed opts key t deadline := by
  obtain ⟨hl, hfree, htimer⟩ := ha
  rcases step_late h a hl with hpays | hl'
  · exact .inl hpays
  have hframe := (step_frame opts s a).debounce
  cases a with
  | receive =>
    obtain ⟨-, hfree', htimer'⟩ := receive_waits h hl.1
    exact .inr ⟨hl', hfree'.trans hfree, htimer'.trans htimer⟩
  | timer =>
    by_cases hdue : deadline ≤ s.now
    · exact .inl (timer_late hl hfree htimer hdue)
    · have hsame : s.timer opts = s := by
        simp only [timer, htimer, hdue, if_false]
      rw [step, hsame]
      exact .inr ⟨hl, hfree, htimer⟩
  | free =>
    have hidle := (Nat.add_eq_zero_iff.1 (h.inFlight_of_free hfree)).2
    have hfreeCh : s.freeCh = false := Bool.toNat_eq_zero.1 hidle
    have hsame : s.free opts = s := by
      simp only [free, hfreeCh, Bool.false_eq_true, if_false]
    rw [step, hsame]
    exact .inr ⟨hl, hfree, htimer⟩
  | _ =>
    refine .inr ⟨hl', ?_, ?_⟩ <;>
      rw [hframe (by simp) (by simp) (by simp)]
    · exact hfree
    · exact htimer

variable {steps : Nat → Step}

theorem late_leadsTo (hfair : Fair opts steps) (key : ConfigKey) (t : Nat) :
    LeadsTo (fun n => (stateAt opts steps n).Late opts key t) (Paid opts steps (.toHand key)) := by
  intro n hl
  have hinv := stateAt_inv opts steps n
  cases hfree : (stateAt opts steps n).debounce.free with
  | true =>
    obtain ⟨⟨r, hr, hkey⟩, hstart⟩ := hl.1
    obtain ⟨deadline, htimer, -⟩ :=
      hinv.debounce.armed hfree fun hnone => nomatch hnone.symm.trans hr
    have hnext : ∀ n, (stateAt opts steps n).Armed opts key t deadline →
        Paid opts steps (.toHand key) n ∨ (stateAt opts steps (n + 1)).Armed opts key t deadline :=
      fun n ha => step_armed (stateAt_inv opts steps n) (steps n) ha
    -- the timer is due at some time, and goes off at some time after
    have hdue := LeadsTo.while (P := fun _ => True) (fun n _ => hfair.clock deadline n) hnext
    refine hdue.or_trans (leadsTo_of_action (hfair.turns .timer rfl)
      (fun n hboth => ?_) fun n hboth ha => ?_) n ⟨trivial, hl, hfree, htimer⟩
    · refine (hnext n hboth.2).imp_right fun ha => ⟨?_, ha⟩
      exact Nat.le_trans hboth.1 (step_frame opts _ (steps n)).now
    · rw [Paid, stateAt, ha]
      exact timer_late hboth.2.1 hboth.2.2.1 hboth.2.2.2 hboth.1
  | false =>
    have hnext : ∀ n, (stateAt opts steps n).Late opts key t →
        Paid opts steps (.toHand key) n ∨ (stateAt opts steps (n + 1)).Late opts key t :=
      fun n hl => step_late (stateAt_inv opts steps n) (steps n) hl
    refine ((busy_leadsTo hfair).while hnext).or_trans
      (leadsTo_of_action (hfair.turns .free rfl) (fun n hboth => ?_)
        fun n hboth ha => ?_) n ⟨hfree, hl⟩
    · by_cases ha : steps n = .free
      · rw [Paid, stateAt, ha]
        exact .inl (free_late hboth.2 hboth.1)
      · exact (hnext n hboth.2).imp_right fun hl =>
          ⟨(step_frame opts _ _).freeCh ha hboth.1, hl⟩
    · rw [Paid, stateAt, ha]
      exact free_late hboth.2 hboth.1

/-- Whatever `debounce` has, it hands over. -/
theorem inReq_leadsTo (hfair : Fair opts steps) (key : ConfigKey) :
    LeadsTo (fun n => (stateAt opts steps n).InReq key) (Paid opts steps (.toHand key)) := by
  intro n hreq
  have hlong := LeadsTo.while (P := fun _ => True)
    (R := fun m => (stateAt opts steps n).debounce.startDebounce
      + opts.debounceMax ≤ (stateAt opts steps m).now)
    (S := fun m => (stateAt opts steps m).Waits key (stateAt opts steps n).debounce.startDebounce)
    (fun m _ => hfair.clock _ m)
    fun m hw => step_waits (stateAt_inv opts steps m) (steps m) hw
  refine hlong.or_trans (fun m hboth => ?_) n ⟨trivial, hreq, rfl⟩
  exact late_leadsTo hfair key _ m ⟨hboth.2, hboth.1⟩

end Waiting

variable {opts : DebounceOptions} {s : Server} {key : ConfigKey} {steps : Nat → Step}

-- ======== the queue

section Queue

variable {con : ConnId}

/-- The place of a connection in the queue. -/
def Queued (s : Server) (con : ConnId) (key : ConfigKey) (j : Nat) : Prop :=
  s.queue.queue[j]? = some con ∧ s.Holds (.toDequeue con key)

theorem dequeue_queued (h : s.Inv opts) {j : Nat} (hq : s.Queued con key j) :
    s.Pays s.dequeue (.toDequeue con key) ∨ ∃ i, i < j ∧ s.dequeue.Queued con key i := by
  obtain ⟨hj, hd⟩ := hq
  rcases (dequeue_spec h).2.holds hd with hpays | hd'
  · exact .inl hpays
  cases hqueue : s.queue.queue with
  | nil =>
    rw [hqueue] at hj
    cases hj
  | cons con' rest =>
    have hdeq : s.queue.dequeue = some (con', s.queue.pending.get? con', { s.queue with
          queue := rest
          pending := s.queue.pending.erase con'
          processing := s.queue.processing.insert con' none }) := by
      unfold PushQueue.dequeue
      rw [hqueue]
    rw [hqueue] at hj
    cases j with
    | zero =>
      cases hj
      obtain ⟨⟨r, hr, -, hdue⟩, -⟩ := PushQueue.dequeue_spec h.queue h.refs.queue hdeq
      refine .inl ⟨.dequeued con (s.heap.configs r), ?_, ?_⟩
      · simp only [dequeue, hdeq, hr]
        rfl
      · rw [Holds, hdue] at hd
        exact ⟨rfl, hd⟩
    | succ j =>
      refine .inr ⟨j, Nat.lt_succ_self j, ?_, hd'⟩
      simp only [dequeue, hdeq]
      exact hj

theorem queued_leadsTo (hfair : Fair opts steps) (con : ConnId) (key : ConfigKey) :
    ∀ j, LeadsTo (fun n => (stateAt opts steps n).Queued con key j)
      (Paid opts steps (.toDequeue con key)) := by
  have hdequeue : ∀ n j, (stateAt opts steps n).Queued con key j → steps n = .dequeue →
      Paid opts steps (.toDequeue con key) n
        ∨ ∃ i, i < j ∧ (stateAt opts steps (n + 1)).Queued con key i := by
    intro n j hj ha
    rw [Paid, stateAt, ha]
    exact dequeue_queued (stateAt_inv opts steps n) hj
  refine leadsTo_of_rank (P := fun j n => (stateAt opts steps n).Queued con key j)
    fun j => LeadsTo.of_next_or (leadsTo_of_action (hfair.turns .dequeue rfl) (fun n hj => ?_)
      fun n hj ha => hdequeue n j hj ha)
  by_cases ha : steps n = .dequeue
  · exact .inl (hdequeue n j hj ha)
  · rcases (step_spec (stateAt_inv opts steps n) (steps n)).2.holds hj.2 with
      hpays | hd
    · exact .inl (.inl hpays)
    · exact .inr ⟨getElem?_of_grown ((step_frame opts _ _).queue ha) hj.1, hd⟩

theorem toDequeue_leadsTo (hfair : Fair opts steps) (con : ConnId) (key : ConfigKey) :
    LeadsTo (fun n => (stateAt opts steps n).Holds (.toDequeue con key))
      (Paid opts steps (.toDequeue con key)) := by
  have hqueued : LeadsTo (fun n => con ∈ (stateAt opts steps n).queue.queue
        ∧ (stateAt opts steps n).Holds (.toDequeue con key))
      (Paid opts steps (.toDequeue con key)) := by
    intro n hboth
    obtain ⟨j, hj⟩ := List.mem_iff_getElem?.1 hboth.1
    exact queued_leadsTo hfair con key j n ⟨hj, hboth.2⟩
  -- one that is being pushed to is queued when that is done
  refine LeadsTo.or_trans (LeadsTo.of_next_or (leadsTo_of_action
    (hfair.turns (.markDone con) rfl) (fun n hd => ?_) fun n hd ha => ?_)) hqueued
  · rcases (step_spec (stateAt_inv opts steps n) (steps n)).2.holds hd with
      hpays | hd
    · exact .inl (.inl hpays)
    · exact .inr hd
  · have hinv := stateAt_inv opts steps n
    rcases (step_spec hinv (steps n)).2.holds hd with hpays | hd'
    · exact .inl hpays
    · refine .inr ⟨?_, hd'⟩
      rw [stateAt, ha]
      by_cases hmem : con ∈ (stateAt opts steps n).queue.queue
      · exact (PushQueue.markDone_queue _ con).subset hmem
      · exact PushQueue.mem_markDone_of_due hinv.queue hd hmem

end Queue

-- ======== everything

section Everything

variable {push : Push}

theorem Inv.pushes_of_mem (h : s.Inv opts) (hmem : push ∈ s.pushes) : s.pushes = [push] := by
  have hflight := h.debounce.flight
  have hpos := List.length_pos_of_mem hmem
  have hone : s.pushes.length = 1 := by
    rw [inFlight] at hflight
    split at hflight <;> omega
  obtain ⟨push', hpush'⟩ := List.length_eq_one_iff.1 hone
  rw [hpush', List.mem_singleton] at hmem
  rw [hpush', hmem]

theorem start_pays (h : s.Inv opts) (hd : s.Holds (.toStart key)) :
    s.Pays (s.start 0) (.toStart key) := by
  obtain ⟨⟨req, events, _⟩, hmem, rfl, hkey⟩ := hd
  simp only [start, h.pushes_of_mem hmem]
  exact ⟨_, rfl, hkey⟩

theorem enqueue_pays (h : s.Inv opts) {con : ConnId} (hd : s.Holds (.toEnqueue con key)) :
    s.Pays (s.enqueue 0 con) (.toEnqueue con key) := by
  obtain ⟨⟨req, events, _⟩, hmem, clients, rfl, hcon, hkey⟩ := hd
  refine ⟨.enqueued con (s.heap.configs req), ?_, rfl, hkey⟩
  simp only [enqueue, h.pushes_of_mem hmem]
  simp [hcon]

theorem holds_leadsTo (hfair : Fair opts steps) (d : Obligation) :
    LeadsTo (fun n => (stateAt opts steps n).Holds d) (Paid opts steps d) := by
  have hnext : ∀ d n, (stateAt opts steps n).Holds d →
      Paid opts steps d n ∨ (stateAt opts steps (n + 1)).Holds d :=
    fun d n hd => (step_spec (stateAt_inv opts steps n) (steps n)).2.holds hd
  cases d with
  | toHand key =>
    intro n hd
    rcases hd with ⟨r, hr, hkey⟩ | hreq
    · obtain ⟨j, hj⟩ := List.mem_iff_getElem?.1 hr
      exact (inChannel_leadsTo hfair key j).trans (inReq_leadsTo hfair key) n ⟨r, hj, hkey⟩
    · exact inReq_leadsTo hfair key n hreq
  | toStart key =>
    refine leadsTo_of_action (hfair.turns (.start 0) rfl) (hnext _) fun n hd ha => ?_
    rw [Paid, stateAt, ha]
    exact start_pays (stateAt_inv opts steps n) hd
  | toEnqueue con key =>
    refine leadsTo_of_action (hfair.turns (.enqueue 0 con) rfl) (hnext _) fun n hd ha => ?_
    rw [Paid, stateAt, ha]
    exact enqueue_pays (stateAt_inv opts steps n) hd
  | toDequeue con key => exact toDequeue_leadsTo hfair con key

theorem step_log (h : s.Inv opts) (a : Step) : s.log <+: (s.step opts a).log := by
  cases (step_spec h a).2 with
  | quiet hlog _ => exact hlog ▸ List.prefix_refl _
  | entry e hlog _ _ =>
    rw [hlog]
    exact List.prefix_append _ _

theorem stateAt_kept (opts : DebounceOptions) (steps : Nat → Step) :
    ∀ n, custody.Kept (stateAt opts steps n).log (stateAt opts steps n).Holds
  | 0 => Custody.kept_nil
  | n + 1 =>
    (step_spec (stateAt_inv opts steps n) (steps n)).2.kept (stateAt_kept opts steps n)

end Everything

/-- No change is lost on its way from a collection to a connection. At any
time a request that waits in `debounce` is waited for, by a timer that is
set for at most `DebounceAfter` after the last event or by a push that is
under way; no connection is queued twice, or queued while it is being
pushed to; and what anybody was given is passed on or is held still. In an
endless run in which the goroutines get their turns, it is all passed on:
every event to a push, every push to the clients there are, and everything
that is enqueued for a client to a request that is dequeued for it. -/
theorem no_change_lost (opts : DebounceOptions) : (∀ steps : List Step,
      ((run opts steps).debounce.req ≠ none →
        (∃ deadline, (run opts steps).debounce.timeChan = some deadline
          ∧ deadline ≤ (run opts steps).debounce.lastConfigUpdateTime + opts.debounceAfter)
        ∨ ((run opts steps).debounce.free = false ∧ (run opts steps).inFlight = 1))
      ∧ (run opts steps).queue.queue.Nodup ∧ (∀ con ∈ (run opts steps).queue.queue,
        (run opts steps).queue.processing.contains con = false)
      ∧ custody.Kept (run opts steps).log (run opts steps).Holds)
    ∧ ∀ steps : Nat → Step, Fair opts steps → ∀ n before e after,
        (stateAt opts steps n).log = before ++ e :: after → ∀ d, custody.opens e d →
          ∃ m after', (stateAt opts steps m).log = before ++ e :: after'
            ∧ ∃ e' ∈ after', custody.pays e' d := by
  constructor
  · intro steps
    obtain ⟨hinv, hkept⟩ := run_spec opts steps
    refine ⟨fun hreq => ?_, hinv.queue.nodup, hinv.queue.apart, hkept⟩
    cases hfree : (run opts steps).debounce.free with
    | true => exact .inl (hinv.debounce.armed hfree hreq)
    | false =>
      refine .inr ⟨rfl, ?_⟩
      rw [hinv.debounce.flight, hfree]
      rfl
  · intro steps hfair n before e after hlog d hd
    refine Custody.settled (stateAt_kept opts steps)
      (fun n => step_log (stateAt_inv opts steps n) (steps n))
      (fun n hheld => ?_) hlog hd
    obtain ⟨m, hnm, e', hnext, hpays⟩ := holds_leadsTo hfair d n hheld
    exact ⟨m, e', hnm, hnext, hpays⟩

-- ---- a fair schedule

def Step.turn : Nat × Nat → Step
  | (0, _) => .receive
  | (1, _) => .timer
  | (2, _) => .free
  | (3, _) => .dequeue
  | (4, i) => .start i
  | (5, i) => .pushed i
  | (6, con) => .markDone con
  | (7, i) => .enqueue i.unpair.1 i.unpair.2
  | _ => .tick 1

/-- A client connects, a collection changes, and everybody gets turns. -/
def roundRobin : Nat → Step
  | 0 => .connect 0
  | 1 => .event "t" ["k"]
  | n + 2 => Step.turn (n + 2).unpair.1.unpair

theorem roundRobin_turns (i j n : Nat) : ∃ m, n ≤ m ∧ roundRobin m = Step.turn (i, j) := by
  have hle := Nat.right_le_pair (Nat.pair i j) (n + 2)
  obtain ⟨d, hd⟩ := Nat.exists_eq_add_of_le' hle
  refine ⟨d + n + 2, by omega, ?_⟩
  rw [roundRobin, Nat.add_assoc d n 2, ← hd, Nat.unpair_pair, Nat.unpair_pair]

theorem turn_surjective (a : Step) (ha : a.scheduled) : ∃ i j, Step.turn (i, j) = a := by
  cases a with
  | receive => exact ⟨0, 0, rfl⟩
  | timer => exact ⟨1, 0, rfl⟩
  | free => exact ⟨2, 0, rfl⟩
  | dequeue => exact ⟨3, 0, rfl⟩
  | start i => exact ⟨4, i, rfl⟩
  | pushed i => exact ⟨5, i, rfl⟩
  | markDone con => exact ⟨6, con, rfl⟩
  | enqueue i con =>
    refine ⟨7, Nat.pair i con, ?_⟩
    rw [Step.turn, Nat.unpair_pair]
  | _ => cases ha

theorem roundRobin_fair (opts : DebounceOptions) : Fair opts roundRobin where
  turns a ha n := by
    obtain ⟨i, j, rfl⟩ := turn_surjective a ha
    exact roundRobin_turns i j n
  clock t n := by
    induction t with
    | zero => exact ⟨n, Nat.le_refl n, Nat.zero_le _⟩
    | succ t ih =>
      obtain ⟨m, hnm, hm⟩ := ih
      obtain ⟨l, hml, hl⟩ := roundRobin_turns 8 0 m
      refine ⟨l + 1, Nat.le_succ_of_le (Nat.le_trans hnm hml), ?_⟩
      have hmono : (stateAt opts roundRobin m).now ≤ (stateAt opts roundRobin l).now := by
        obtain ⟨d, rfl⟩ := Nat.exists_eq_add_of_le hml
        clear hml hl
        induction d with
        | zero => exact Nat.le_refl _
        | succ d ih => exact Nat.le_trans ih (step_frame opts _ _).now
      rw [stateAt, hl]
      exact Nat.succ_le_succ (Nat.le_trans hm hmono)

/-- The client of a fair run gets what has changed. -/
theorem no_change_lost_sample : ∃ m after', (stateAt ⟨1, 2⟩ roundRobin m).log
        = [] ++ .event [("t", "k")] :: after'
      ∧ ∃ e' ∈ after', custody.pays e' (.toHand ("t", "k")) :=
  (no_change_lost ⟨1, 2⟩).2 roundRobin (roundRobin_fair ⟨1, 2⟩) 2 [] _ [] rfl
    (.toHand ("t", "k")) (List.mem_singleton_self _)

-- ======== committed updates

open List

/-- `InboundUpdates`, less those that the channel has no room for yet. -/
def inboundUpdates (s : Server) : Nat :=
  s.log.countP fun | .event _ => true | _ => false

/-- A batch of changes that came in is in one place until it is committed. -/
structure Counted (s : Server) : Prop where
  inbound : s.inboundUpdates = s.pushChannel.length + s.debounce.debouncedEvents
    + total (·.debouncedEvents) s.pushes + s.updateSent
  pushes : ∀ push ∈ s.pushes, 0 < push.debouncedEvents

theorem counted_work (h : s.Counted)
    (hevents : s.debounce.req = none ↔ s.debounce.debouncedEvents = 0) :
    (s.work opts).Counted := by
  obtain ⟨hinbound, hpushes⟩ := h
  rcases Debounce.pushWorker_cases opts s.now s.debounce with
    ⟨req, hreq, heq⟩ | ⟨-, heq⟩ | ⟨-, heq⟩ <;> simp only [work, heq]
  · have hpos : s.debounce.debouncedEvents ≠ 0 := by simp [← hevents, hreq]
    refine ⟨?_, forall_mem_concat hpushes (fun _ => id) (Nat.pos_of_ne_zero hpos)⟩
    simp only [inboundUpdates, countP_append, total_append] at hinbound ⊢
    simp [total]
    omega
  all_goals exact ⟨hinbound, hpushes⟩

theorem counted_step (h : s.Counted) (hinv : s.Inv opts) (a : Step) : (s.step opts a).Counted := by
  have hevents := hinv.debounce.events
  have hone : ∀ push ∈ s.pushes, s.pushes = [push] := fun _ => hinv.pushes_of_mem
  obtain ⟨hinbound, hpushes⟩ := h
  cases a with
  | tick | connect | disconnect | markDone => exact ⟨hinbound, hpushes⟩
  | timer | free =>
    simp only [step, timer, free]
    repeat' split
    all_goals first
      | exact ⟨hinbound, hpushes⟩
      | exact counted_work ⟨hinbound, hpushes⟩ hevents
  | event | receive | dequeue =>
    simp only [step, event, receive, dequeue, Debounce.receive]
    constructor <;> grind [inboundUpdates]
  | start i | enqueue i =>
    have hset : ∀ {req n clients} clients', s.pushes[i]? = some ⟨req, n, clients⟩ →
        total (·.debouncedEvents) (s.pushes.set i ⟨req, n, clients'⟩)
            = total (·.debouncedEvents) s.pushes
          ∧ ∀ push ∈ s.pushes.set i ⟨req, n, clients'⟩, 0 < push.debouncedEvents := by
      intro req n clients clients' hi
      refine ⟨Nat.add_right_cancel (total_set (·.debouncedEvents) ⟨_, n, _⟩ hi), ?_⟩
      exact forall_mem_set hpushes (fun _ => id) (hpushes ⟨req, n, clients⟩ (mem_of_getElem? hi))
    simp only [step, start, enqueue]
    constructor <;> grind [inboundUpdates]
  | pushed i =>
    simp only [step, pushed]
    split
    · next n hi =>
      split_ifs
      · exact ⟨hinbound, hpushes⟩
      · refine ⟨?_, fun push hmem => hpushes push (mem_of_mem_eraseIdx hmem)⟩
        have hone := hone _ (mem_of_getElem? hi)
        rw [hone] at hi hinbound
        cases i with
        | zero => simpa [hone, total, inboundUpdates, Nat.add_assoc, Nat.add_comm n] using hinbound
        | succ i => cases hi
    · exact ⟨hinbound, hpushes⟩

/-- `EnsureSynced` waits until as many updates are committed as came in. Then none is
in the channel, none waits in `debounce`, and no push is under way. -/
theorem ensureSynced_sound (opts : DebounceOptions) (steps : List Step) :
    let s := run opts steps
    s.updateSent ≤ s.inboundUpdates ∧ (s.inboundUpdates = s.updateSent →
      s.pushChannel = [] ∧ s.debounce.req = none ∧ s.pushes = []) := by
  intro s
  obtain ⟨hinv, hcounted⟩ : s.Inv opts ∧ s.Counted :=
    foldlRecOn (motive := fun s => s.Inv opts ∧ s.Counted) steps (step opts)
      ⟨inv_init, rfl, nofun⟩ fun s ih a _ => ⟨(step_spec ih.1 a).1, counted_step ih.2 ih.1 a⟩
  have hinbound := hcounted.inbound
  refine ⟨by omega, fun hsent => ⟨length_eq_zero_iff.1 (by omega),
    hinv.debounce.events.2 (by omega), eq_nil_iff_forall_not_mem.2 fun push hmem => ?_⟩⟩
  have hpos := hcounted.pushes push hmem
  rw [hinv.pushes_of_mem hmem, total] at hinbound
  omega

end AgentGateway.Krtxds.Server
