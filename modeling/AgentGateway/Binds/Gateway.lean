/-
The connections of a bind, when the store changes (`proxy/gateway.rs`, and
`upsert_bind` and `remove_bind` of `store/binds.rs`).

An HTTPS connection keeps the listener it was accepted with, and its watcher
drains it once the store no longer holds an equal one. The watcher sleeps on
the listener-change channel. A receiver compares versions, which every send
advances; the store hands out clones of a receiver that never looked, so a
subscription has seen version 0. The invariant is `Awake`: a watcher that
sleeps over a stale listener has a notice to wake it, as `upsert_bind` sends
one when it drops or changes a listener the bind had.

The store opens the sockets of a bind and hands them to the gateway in an event,
which the gateway handles by starting the loops of the bind: one, or one for
each core. It has a handle of a loop that is the only one, and stops it with
that.

# Where it breaks

`remove_bind` sends no notice, so the watchers of its listeners sleep on.

Sockets are opened only for a key that is new. So a bind that comes again keeps
the loops it has, whatever its address and protocols are now, or has none if the
first attempt failed. And there is no handle of the loops on the cores, which go
on when the bind is removed.

# Left out

The choice of a listener by server name, and the other ends of a watcher
(shutdown, the longest duration of a connection).
-/
import AgentGateway.Binds.Proofs.Live
import AgentGateway.Lib.LeadsTo

namespace AgentGateway.Binds

open Lib

variable {P B : Type}

def Store.getBindListener (s : Store P B) (bind : BindKey)
    (listener : ListenerKey) : Option Listener :=
  (s.binds.get? bind).bind fun bind => bind.listeners.get? listener

namespace Drain

inductive Op
  | insertBind (bind : Bind)
  | removeBind (bind : BindKey)
  | insertListener (lis : Listener) (bindName : BindKey)
  | removeListener (listener : ListenerKey)

def Op.apply (s : Store P B) : Op → Store P B
  | .insertBind bind => s.insertBind bind
  | .removeBind bind => s.removeBind bind
  | .insertListener lis bindName => s.insertListener lis bindName
  | .removeListener listener => s.removeListener listener

/-- The notices an operation sends, read off an epoch that starts at 0. -/
def Op.notices (s : Store P B) (op : Op) : Nat :=
  (op.apply { s with listenerEpoch := 0 }).listenerEpoch.toNat

/-- From the handshake on, which picks the listener. -/
inductive Watcher
  | accepted
  /-- About to compare the listener with the store's. -/
  | checking (seen : Nat)
  | waiting (seen : Nat)
  | draining

structure World (P B : Type) where
  store : Store P B
  /-- Of the listener-change channel. -/
  version : Nat
  watcher : Watcher

inductive Step
  | store (op : Op)
  | watch

structure Connection where
  bindName : BindKey
  /-- The listener it was accepted with. -/
  serving : Listener

variable (c : Connection)

def listenerSnapshotChanged (s : Store P B) : Bool :=
  match s.getBindListener c.bindName c.serving.key with
  | some current => current ≠ c.serving
  | none => true

/-- Subscribe, then `wait_for_listener_change`. -/
def watch (s : Store P B) (version : Nat) : Watcher → Watcher
  | .accepted => .checking 0
  | .checking seen =>
    if listenerSnapshotChanged c s then .draining else .waiting seen
  | .waiting seen => if seen = version then .waiting seen else .checking version
  | .draining => .draining

def step (w : World P B) : Step → World P B
  | .store op =>
    { w with store := op.apply w.store, version := w.version + op.notices w.store }
  | .watch => { w with watcher := watch c w.store w.version w.watcher }

def worldAt (w : World P B) (steps : Nat → Step) : Nat → World P B
  | 0 => w
  | n + 1 => step c (worldAt w steps n) (steps n)

/-- The store has the listener, unchanged. -/
def Holds (s : Store P B) : Prop :=
  s.getBindListener c.bindName c.serving.key = some c.serving

/-- The bind goes, listener and all, while the watcher sleeps and has seen
every notice. -/
def Loses (w : World P B) (a : Step) : Prop :=
  a = .store (.removeBind c.bindName) ∧ w.watcher = .waiting w.version
  ∧ Holds c w.store

def Awake (w : World P B) : Prop :=
  match w.watcher with
  | .checking seen => seen ≤ w.version
  | .waiting seen => seen ≤ w.version ∧ (Holds c w.store ∨ seen < w.version)
  | _ => True

variable {c} {s : Store P B} {w w₀ : World P B} {steps : Nat → Step} {a : Step}

theorem listenerSnapshotChanged_iff : listenerSnapshotChanged c s ↔ ¬ Holds c s := by
  unfold listenerSnapshotChanged Holds
  split <;> simp_all

-- ======== notices

theorem upsertBind_notifies {key : BindKey} {bind : Bind} (h : Holds c s)
    (h' : ¬ Holds c (s.upsertBind key bind)) : 0 <
      (Store.upsertBind { s with listenerEpoch := 0 } key bind).listenerEpoch.toNat := by
  obtain ⟨old, hold, hl⟩ := Option.bind_eq_some_iff.1 h
  obtain ⟨_, heq⟩ := upsertBind_eq s key bind
  rw [heq, Holds, Store.getBindListener, AssocMap.get?_insert] at h'
  split at h'
  · next hkey =>
    subst hkey
    have hchanged : Store.bindListenerChanged old (s.merged bind) := by
      refine Bool.or_eq_true_iff.2 (.inr (List.any_eq_true.2
        ⟨c.serving, AssocMap.mem_values.2 ⟨_, hl⟩, ?_⟩))
      split
      · rfl
      · next hnew => exact decide_eq_true fun heq => h' (heq ▸ hnew)
    simp only [Store.upsertBind, hold]
    erw [if_pos hchanged]
    simp [Store.notifyListenerChanged]
  · exact absurd h h'

theorem notices_pos {op : Op} (h : Holds c s) (h' : ¬ Holds c (op.apply s))
    (hop : op ≠ .removeBind c.bindName) : 0 < op.notices s := by
  unfold Op.notices
  cases op with
  | insertBind bind => exact upsertBind_notifies h h'
  | removeBind bind =>
    have hne : c.bindName ≠ bind := fun heq => hop (congrArg _ heq.symm)
    refine absurd ?_ h'
    rwa [Op.apply, Store.removeBind, Holds, Store.getBindListener, AssocMap.get?_erase_ne _ hne]
  | insertListener lis bind =>
    simp only [Op.apply, Store.insertListener] at h' ⊢
    split at h'
    · exact upsertBind_notifies h h'
    · exact absurd h h'
  | removeListener listener =>
    simp only [Op.apply, Store.removeListener] at h' ⊢
    split at h'
    · exact absurd h h'
    · exact upsertBind_notifies h h'

-- ======== the watcher

theorem awake_step (h : Awake c w) (hkeep : ¬ Loses c w a) : Awake c (step c w a) := by
  obtain ⟨s, version, watcher⟩ := w
  cases a with
  | store op =>
    cases watcher with
    | checking seen => exact Nat.le_add_right_of_le h
    | waiting seen =>
      refine ⟨Nat.le_add_right_of_le h.1, or_iff_not_imp_left.2 fun hgone => ?_⟩
      rcases Nat.lt_or_eq_of_le h.1 with hlt | rfl
      · exact Nat.lt_add_right _ hlt
      · have hheld := h.2.resolve_right (Nat.lt_irrefl _)
        refine Nat.lt_add_of_pos_right (notices_pos hheld hgone ?_)
        rintro rfl
        exact hkeep ⟨rfl, rfl, hheld⟩
    | _ => trivial
  | watch =>
    cases watcher with
    | accepted => exact Nat.zero_le _
    | checking seen =>
      simp only [step, watch]
      split
      · trivial
      · next hsame =>
        exact ⟨h, .inl (not_not.1 (mt listenerSnapshotChanged_iff.2 hsame))⟩
    | waiting seen =>
      simp only [step, watch]
      split
      · exact h
      · exact Nat.le_refl _
    | draining => trivial

/-- The turns the watcher of a stale listener takes at most. -/
def Watcher.rank : Watcher → Nat
  | .draining => 0
  | .checking _ => 1
  | _ => 2

theorem rank_watch (h : Awake c w) (hstale : ¬ Holds c w.store) (hgoing : w.watcher ≠ .draining) :
    (watch c w.store w.version w.watcher).rank < w.watcher.rank := by
  obtain ⟨s, version, watcher⟩ := w
  cases watcher with
  | accepted => exact Nat.one_lt_two
  | checking seen =>
    rw [watch, if_pos (listenerSnapshotChanged_iff.2 hstale)]
    exact Nat.one_pos
  | waiting seen =>
    rw [watch, if_neg (Nat.ne_of_lt (h.2.resolve_left hstale))]
    exact Nat.one_lt_two
  | draining => exact absurd rfl hgoing

theorem drains_of_stale (h : ∀ n, Awake c (worldAt c w₀ steps n))
    (hfair : ∀ n, ∃ m, n ≤ m ∧ steps m = .watch) {n : Nat}
    (hstale : ∀ m, n ≤ m → ¬ Holds c (worldAt c w₀ steps m).store) :
    ∃ m, n ≤ m ∧ (worldAt c w₀ steps m).watcher = .draining := by
  have hdone := done_of_fair (fun d => worldAt c w₀ steps (n + d))
    (fun d _ => steps (n + d) matches .watch) (·.watcher = .draining)
    (fun _ _ => True) (·.watcher.rank) (fun d hgoing => ?_) fun {d _} _ => ?_
  · obtain ⟨d, hdone⟩ := hdone
    exact ⟨n + d, Nat.le_add_right n d, hdone⟩
  · show Turn _ _ _ _ _ (step c (worldAt c w₀ steps (n + d)) (steps (n + d)))
    cases steps (n + d) with
    | watch =>
      have hstale := hstale _ (Nat.le_add_right n d)
      exact .inr (.inl (rank_watch (h _) hstale hgoing))
    | store op => exact .inr (.inr ⟨rfl, ⟨0, trivial⟩, fun _ _ => ⟨trivial, rfl⟩⟩)
  · obtain ⟨m, hm, hwatch⟩ := hfair (n + d)
    obtain ⟨k, rfl⟩ := Nat.exists_eq_add_of_le hm
    exact ⟨k, by rw [← Nat.add_assoc, hwatch]⟩

theorem step_draining (h : (step c w a).watcher = .draining) :
    w.watcher = .draining ∨ ¬ Holds c w.store := by
  obtain ⟨s, version, watcher⟩ := w
  cases a with
  | store op => exact .inl h
  | watch =>
    cases watcher with
    | checking seen =>
      simp only [step, watch] at h
      split at h
      · next hchanged => exact .inr (listenerSnapshotChanged_iff.1 hchanged)
      · cases h
    | waiting seen =>
      simp only [step, watch] at h
      split at h <;> cases h
    | accepted => cases h
    | draining => exact .inl rfl

/-- A watcher that has its turns drains the connection if the listener is
stale for good, and it starts to drain at a time only if it is stale then. -/
theorem stale_drains (w₀ : World P B) (steps : Nat → Step) (h₀ : w₀.watcher = .accepted)
    (hfair : ∀ n, ∃ m, n ≤ m ∧ steps m = .watch)
    (hkeep : ∀ n, ¬ Loses c (worldAt c w₀ steps n) (steps n)) :
    (∀ n, (∀ m, n ≤ m → ¬ Holds c (worldAt c w₀ steps m).store) →
      ∃ m, n ≤ m ∧ (worldAt c w₀ steps m).watcher = .draining)
    ∧ ∀ n, (worldAt c w₀ steps (n + 1)).watcher = .draining →
      (worldAt c w₀ steps n).watcher = .draining ∨ ¬ Holds c (worldAt c w₀ steps n).store := by
  have hawake : ∀ n, Awake c (worldAt c w₀ steps n) := by
    intro n
    induction n with
    | zero =>
      rw [worldAt, Awake, h₀]
      trivial
    | succ n ih => exact awake_step ih (hkeep n)
  exact ⟨fun n hstale => drains_of_stale hawake hfair hstale, fun n hdrain => step_draining hdrain⟩

-- ======== runs

def sampleConnection : Connection :=
  ⟨"b", "l", ⟨"g", "ns", "l", none⟩, "", .https ⟨.static, none⟩⟩

/-- A bind has the listener, and a connection is accepted with it. -/
def sampleWorld : World Unit Unit :=
  ⟨(Store.empty false).insertBind ⟨"b", ⟨.v4 (Vector.replicate 4 0), 443⟩, .tls, .direct,
    AssocMap.ofList [("l", sampleConnection.serving)]⟩, 0, .accepted⟩

/-- The watcher comes to wait, and then the store changes. -/
def sampleSteps (op : Op) (n : Nat) : Step := if n = 2 then .store op else .watch

theorem fair_sampleSteps (op : Op) (n : Nat) : ∃ m, n ≤ m ∧ sampleSteps op m = .watch :=
  ⟨n + 3, Nat.le_add_right n 3, rfl⟩

/-- The listener is removed, which wakes the watcher. -/
theorem stale_drains_sample :
    (worldAt sampleConnection sampleWorld (sampleSteps (.removeListener "l")) 2).watcher
        = .waiting 0
      ∧ ∃ n, 3 ≤ n ∧ (worldAt sampleConnection sampleWorld
        (sampleSteps (.removeListener "l")) n).watcher = .draining := by
  have hstore : ∀ n, (worldAt sampleConnection sampleWorld
      (sampleSteps (.removeListener "l")) (n + 3)).store
      = sampleWorld.store.removeListener "l" := by
    intro n
    induction n with
    | zero => rfl
    | succ n ih => exact ih
  refine ⟨rfl, (stale_drains sampleWorld _ rfl (fair_sampleSteps _) ?_).1 3 fun m hm => ?_⟩
  · rintro n ⟨hstep, -⟩
    rw [sampleSteps] at hstep
    split at hstep <;> cases hstep
  · obtain ⟨n, rfl⟩ := Nat.exists_eq_add_of_le' hm
    rw [hstore n]
    exact nofun

/-- The bind goes, and the watcher waits. -/
theorem removed_bind_sleeps : ∃ (w₀ : World Unit Unit) (steps : Nat → Step),
    w₀.watcher = .accepted ∧ Holds sampleConnection w₀.store ∧ (∀ n, ∃ m, n ≤ m ∧ steps m = .watch)
    ∧ ∀ n, ¬ Holds sampleConnection (worldAt sampleConnection w₀ steps (n + 3)).store
      ∧ (worldAt sampleConnection w₀ steps (n + 3)).watcher = .waiting 0 := by
  refine ⟨sampleWorld, sampleSteps (.removeBind "b"), rfl, rfl, fair_sampleSteps _, fun n => ?_⟩
  have hworld : worldAt sampleConnection sampleWorld (sampleSteps (.removeBind "b")) (n + 3)
      = ⟨sampleWorld.store.removeBind "b", 0, .waiting 0⟩ := by
    induction n with
    | zero => rfl
    | succ n ih =>
      rw [worldAt, ih]
      rfl
  rw [hworld]
  exact ⟨nofun, rfl⟩

end Drain

-- ======== accept loops

/-- What a loop is run with; `core` is none for one that is shared. -/
structure Loop where
  key : BindKey
  address : SocketAddr
  protocol : BindProtocol
  tunnelProtocol : TunnelProtocol
  core : Option Nat
  deriving DecidableEq

def Bind.loop (bind : Bind) (core : Option Nat) : Loop :=
  ⟨bind.key, bind.address, bind.protocol, bind.tunnelProtocol, core⟩

namespace Gateway

/-- The loops of one bind, by the `core_ids` of the store. -/
def places : Option (List Nat) → List (Option Nat)
  | none => [none]
  | some coreIds => coreIds.map some

/-- `active.remove(&key)`, and `abort` on the handle. -/
def abort (loops : List Loop) (key : BindKey) : List Loop :=
  loops.filter fun l => ¬ (l.key = key ∧ l.core = none)

def handleBind (coreIds : Option (List Nat)) (loops : List Loop) : BindEvent → List Loop
  | .remove key => abort loops key
  | .add bind => abort loops bind.key ++ (places coreIds).map bind.loop

/-- The store, and whether sockets could be opened when a bind came last. -/
structure World (P B : Type) where
  store : Store P B
  opened : BindKey → Bool

def World.start (ipv6Enabled : Bool) : World P B := ⟨.empty ipv6Enabled, fun _ => false⟩

inductive Op
  | insert (bind : Bind) (opens : Bool)
  | remove (key : BindKey)

def step (w : World P B) : Op → World P B
  | .insert bind opens =>
    let store := w.store.insertBind bind
    ⟨if opens then store else { store with events := w.store.events },
      fun key => if key = bind.key then opens else w.opened key⟩
  | .remove key => { w with store := w.store.removeBind key }

variable (coreIds : Option (List Nat)) (w : World P B)

/-- When all events have been handled. -/
def loops : List Loop :=
  w.store.events.foldl (handleBind coreIds) []

/-- The loops that a key should have. -/
def wanted (key : BindKey) : List Loop :=
  match w.store.binds.get? key with
  | some bind => if w.opened key then (places coreIds).map bind.loop else []
  | none => []

def Matches : Prop :=
  ∀ key, (loops coreIds w).filter (·.key = key) = wanted coreIds w key

/-- A bind that comes again has the loops it had, and one that is removed has
none on cores. -/
def Steady : Op → Prop
  | .insert bind opens => ∀ old, w.store.binds.get? bind.key = some old →
      w.opened bind.key = opens ∧ (opens → old.loop = bind.loop)
  | .remove key => coreIds = none ∨ wanted coreIds w key = []

variable {coreIds w} {w' : World P B} {op : Op} {ls : List Loop} {key k : BindKey}

theorem filter_abort_ne (h : key ≠ k) :
    (abort ls k).filter (·.key = key) = ls.filter (·.key = key) := by
  rw [abort, List.filter_filter]
  refine List.filter_congr fun l _ => ?_
  by_cases hl : l.key = key <;> simp [hl, h]

theorem filter_abort_self :
    (abort ls k).filter (·.key = k) = (ls.filter (·.key = k)).filter (·.core ≠ none) := by
  rw [abort, List.filter_filter, List.filter_filter]
  refine List.filter_congr fun l _ => ?_
  by_cases hl : l.key = k <;> simp [hl]

theorem filter_loops (bind : Bind) (cores : List (Option Nat)) :
    (cores.map bind.loop).filter (·.key = key)
      = if key = bind.key then cores.map bind.loop else [] := by
  split
  · next h => simp [h, Bind.loop]
  · next h => simp [Bind.loop, Ne.symm h]

theorem step_events (w : World P B) (bind : Bind) (opens : Bool) :
    (step w (.insert bind opens)).store.events
      = if opens ∧ w.store.binds.get? bind.key = none
        then w.store.events ++ [.add (w.store.merged bind)] else w.store.events := by
  obtain ⟨_, heq⟩ := upsertBind_eq w.store bind.key bind
  simp only [step, Store.insertBind, heq]
  cases opens <;> simp [AssocMap.contains]

theorem wanted_insert (w : World P B) (bind : Bind) (opens : Bool) :
    wanted coreIds (step w (.insert bind opens)) key = if key = bind.key
      then if opens then (places coreIds).map bind.loop else [] else wanted coreIds w key := by
  obtain ⟨_, heq⟩ := upsertBind_eq w.store bind.key bind
  have hbinds : (step w (.insert bind opens)).store.binds
      = w.store.binds.insert bind.key (w.store.merged bind) := by
    simp only [step, Store.insertBind, heq]
    cases opens <;> rfl
  rw [wanted, hbinds, AssocMap.get?_insert]
  by_cases h : key = bind.key
  · simp only [step, if_pos h]
    rfl
  · simp only [step, if_neg h]
    rfl

theorem matches_insert (h : Matches coreIds w) {bind : Bind} {opens : Bool}
    (hok : Steady coreIds w (.insert bind opens)) :
    Matches coreIds (step w (.insert bind opens)) := by
  intro key
  rw [wanted_insert, loops, step_events]
  split
  · next hnew =>
    rw [List.foldl_append]
    show (abort (loops coreIds w) bind.key ++ (places coreIds).map bind.loop).filter _ = _
    rw [List.filter_append, filter_loops]
    split
    · next hkey =>
      rw [hkey, filter_abort_self, h bind.key, wanted, hnew.2, if_pos hnew.1]
      rfl
    · next hkey => rw [filter_abort_ne hkey, h key, List.append_nil]
  · next hold =>
    refine (h key).trans ?_
    split
    · next hkey =>
      subst hkey
      rw [wanted]
      cases hget : w.store.binds.get? bind.key with
      | none => rw [if_neg fun hopens => hold ⟨hopens, hget⟩]
      | some old =>
        obtain ⟨hopens, hloop⟩ := hok old hget
        rw [hopens]
        cases opens with
        | false => rfl
        | true => rw [← hloop rfl]
    · rfl

theorem matches_remove (h : Matches coreIds w) (hok : Steady coreIds w (.remove k)) :
    Matches coreIds (step w (.remove k)) := by
  intro key
  show (loops coreIds ⟨w.store.removeBind k, _⟩).filter _ = _
  rw [loops, Store.removeBind, List.foldl_append]
  show (abort (loops coreIds w) k).filter _ = _
  rw [wanted]
  show _ = match (w.store.binds.erase k).get? key with | some _ => _ | none => _
  rw [AssocMap.get?_erase]
  by_cases hkey : key = k
  · rw [if_pos hkey, hkey, filter_abort_self, h k]
    rcases hok with rfl | hnone
    · unfold wanted
      split
      · split <;> rfl
      · rfl
    · rw [hnone]
      rfl
  · rw [if_neg hkey, filter_abort_ne hkey, h key]
    rfl

theorem matches_run (ops : List Op) : Matches coreIds w → RunOk step (Steady coreIds) w ops →
    Matches coreIds (ops.foldl step w) := by
  induction ops generalizing w with
  | nil => exact fun h _ => h
  | cons op ops ih =>
    intro h hok
    refine ih ?_ hok.2
    cases op with
    | insert bind opens => exact matches_insert h hok.1
    | remove key => exact matches_remove h hok.1

/-- While steps are steady, the loops that run are those of the binds. -/
theorem loops_match_binds (coreIds : Option (List Nat)) (ipv6Enabled : Bool) (ops : List Op)
    (hok : RunOk step (Steady coreIds) (World.start (P := P) (B := B) ipv6Enabled) ops) :
    Matches coreIds (ops.foldl step (World.start (P := P) (B := B) ipv6Enabled)) :=
  matches_run ops (fun _ => rfl) hok

def sampleBind (port : UInt16) : Bind :=
  ⟨"bind", ⟨.v4 (.replicate 4 0), port⟩, .http, .direct, AssocMap.empty⟩

/-- The bind moves to another port, and the loop stays. -/
theorem moved_bind_keeps_loop : ¬ Matches none
    ([.insert (sampleBind 80) true, .insert (sampleBind 81) true].foldl step
      (World.start (P := Unit) (B := Unit) false)) :=
  fun h => absurd (h "bind") (by decide +kernel)

theorem loops_match_binds_removed : ∃ ops : List Op, ops ≠ []
    ∧ RunOk step (Steady none) (World.start (P := Unit) (B := Unit) false) ops
    ∧ Matches none (ops.foldl step (World.start (P := Unit) (B := Unit) false)) := by
  have hok : RunOk step (Steady none) (World.start (P := Unit) (B := Unit) false)
      [.insert (sampleBind 80) true, .remove "bind"] :=
    ⟨fun _ hold => (by cases hold), .inl rfl, trivial⟩
  exact ⟨_, by simp, hok, loops_match_binds none false _ hok⟩

/-- What holds where no loop is on a core. -/
structure Shared (w : World P B) : Prop where
  core : ∀ l ∈ loops none w, l.core = none
  once : ((loops none w).map (·.key)).Nodup
  bound : ∀ l ∈ loops none w, w.store.binds.contains l.key

theorem shared_step (h : Shared w) : Shared (step w op) := by
  obtain ⟨hcore, honce, hbound⟩ := h
  have hleft : ∀ key, ((abort (loops none w) key).map (·.key)).Nodup :=
    fun _ => honce.sublist (List.filter_sublist.map _)
  cases op with
  | insert bind opens =>
    obtain ⟨_, heq⟩ := upsertBind_eq w.store bind.key bind
    have hloops : loops none (step w (.insert bind opens)) = loops none w
        ∨ loops none (step w (.insert bind opens))
          = abort (loops none w) bind.key ++ [bind.loop none] := by
      rw [loops, step_events]
      split
      · exact .inr (List.foldl_concat ..)
      · exact .inl rfl
    constructor <;> grind [AssocMap.contains_insert, abort, Bind.loop, step, Store.insertBind]
  | remove key =>
    have hloops : loops none (step w (.remove key)) = abort (loops none w) key :=
      List.foldl_concat ..
    constructor <;> grind [AssocMap.contains_erase, abort, step, Store.removeBind]

/-- Where loops are shared, whatever binds come, come again and go: a bind has one
loop at most, and none runs for one that is gone. -/
theorem shared_loops_bound (ipv6Enabled : Bool) (ops : List Op) :
    let w := ops.foldl step (World.start (P := P) (B := B) ipv6Enabled)
    ((loops none w).map (·.key)).Nodup ∧ ∀ l ∈ loops none w, w.store.binds.contains l.key := by
  have h := List.foldlRecOn ops step
    (⟨nofun, .nil, nofun⟩ : Shared (World.start (P := P) (B := B) ipv6Enabled))
    fun _ h _ _ => shared_step h
  exact ⟨h.once, h.bound⟩

end Gateway

end AgentGateway.Binds
