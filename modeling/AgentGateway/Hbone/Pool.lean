/-
The pool of HBONE connections (`crates/hbone/src/pool.rs`), for one
workload key.

A call of `connect` runs on its own task, and gives way where it waits:
for the lock of the key, for a new connection, and for the watch channel
on which a connection that is checked in is announced. A step is what a
call does from one such point, or from a look at a shared map, to the
next. What comes from outside is part of the step: whether a connection
can be made, whether one from the pool is still usable, and whether it is
at its maximum of streams with the one that is about to be opened.

A receiver of the channel remembers what it has seen, and `changed` waits
for something newer. Each call has its own receiver, which may have missed
announcements from before the call.

A call goes to sleep only when another holds the lock. So the invariant is
that the lock is held while somebody sleeps who has seen everything
(`Good.awake`), and a step is judged by what it does to the lock and the
channel (`Moves`): a lock that is released has to come with an
announcement. Each step of a call brings it nearer to its end (`left_step`), so
that all calls end in a fair schedule.

# Where it breaks

A connection that cannot be made, and one that will be at its maximum of
streams, are not announced. The lock is released, and who lost the race
for it sleeps on. `Smooth` excludes both.

# Left out

Keys with the same hash, the timers that drop an idle connection (a
connection in the pool can be dropped at any time), and the end of the
pool, which no call outlives.
-/
import AgentGateway.Lib.LeadsTo
import AgentGateway.Lib.Run

namespace AgentGateway.Hbone

abbrev ConnId := Nat

/-- Where a call of `connect` stands. -/
inductive Pc
  /-- `checkout_conn_under_writelock`, before the look into the lockmap;
  from the start, or woken by the channel -/
  | checkout (woken : Bool)
  /-- it waits for the lock -/
  | lock
  /-- it holds the lock and takes a connection from the pool -/
  | get
  /-- it holds the lock and makes a connection -/
  | newPoolConn
  /-- nobody has tried this key, it inserts a lock -/
  | tryInsert
  /-- `start_conn_if_win_writelock` -/
  | tryLock
  /-- it waits for the channel -/
  | changed
  /-- with a connection, or an error -/
  | done (conn : Option ConnId)

structure Call where
  /-- what `pool_watcher` has seen -/
  seen : Nat
  pc : Pc

inductive Writelock
  /-- not in the lockmap -/
  | missing
  | free
  | held (call : Nat)
  deriving DecidableEq

structure Pool where
  /-- how often `pool_notifier` has sent -/
  version : Nat
  writelock : Writelock
  connected : List ConnId
  nextConn : ConnId
  calls : List Call

namespace Pool

def new : Pool := ⟨0, .missing, [], 0, []⟩

def goto (p : Pool) (i : Nat) (c : Call) (pc : Pc) : Pool :=
  { p with calls := p.calls.set i { c with pc } }

/-- A connection goes back into the pool and is announced, unless it will
be at its maximum of streams. -/
def maybeCheckinConn (p : Pool) (conn : ConnId) (atMax : Bool) : Pool :=
  if atMax then p
  else
    { p with
      connected := conn :: p.connected
      version := p.version + 1 }

/-- A connection is checked in, the lock is released, and the call
returns. -/
def finish (p : Pool) (i : Nat) (c : Call) (conn : ConnId) (atMax : Bool) : Pool :=
  goto { p.maybeCheckinConn conn atMax with writelock := .free } i c (.done (some conn))

inductive Step
  | connect (seen : Nat)
  | checkout (i : Nat)
  | lock (i : Nat)
  | get (i : Nat) (ready atMax : Bool)
  /-- a connection is made, or not -/
  | newPoolConn (i : Nat) (success atMax : Bool)
  | tryInsert (i : Nat)
  | tryLock (i : Nat)
  | changed (i : Nat)
  /-- an idle connection is dropped -/
  | drop (conn : ConnId)
  /-- a connection for another key is checked in -/
  | notify

def Step.call? : Step → Option Nat
  | .checkout i | .lock i | .get i _ _ | .newPoolConn i _ _ | .tryInsert i
  | .tryLock i | .changed i => some i
  | .connect _ | .drop _ | .notify => none

/-- A step that is not possible has no result. -/
def step (p : Pool) : Step → Option Pool
  | .connect seen =>
    if seen ≤ p.version then
      some { p with calls := p.calls ++ [⟨seen, .checkout false⟩] }
    else none
  | .checkout i =>
    match p.calls[i]? with
    | some ⟨seen, .checkout woken⟩ =>
      match p.writelock, woken with
      | .missing, true => some (p.goto i ⟨seen, .checkout woken⟩ .changed)
      | .missing, false => some (p.goto i ⟨seen, .checkout woken⟩ .tryInsert)
      | _, _ => some (p.goto i ⟨seen, .checkout woken⟩ .lock)
    | _ => none
  | .lock i =>
    match p.calls[i]?, p.writelock with
    | some ⟨seen, .lock⟩, .free =>
      some (goto { p with writelock := .held i } i ⟨seen, .lock⟩ .get)
    | _, _ => none
  | .get i ready atMax =>
    match p.calls[i]? with
    | some ⟨seen, .get⟩ =>
      match p.connected with
      | [] => some (p.goto i ⟨seen, .get⟩ .newPoolConn)
      | conn :: connected =>
        let p := { p with connected }
        if ready then some (p.finish i ⟨seen, .get⟩ conn atMax)
        else some p
    | _ => none
  | .newPoolConn i success atMax =>
    match p.calls[i]? with
    | some ⟨seen, .newPoolConn⟩ =>
      if success then
        let conn := p.nextConn
        let p := { p with nextConn := p.nextConn + 1 }
        some (p.finish i ⟨seen, .newPoolConn⟩ conn atMax)
      else
        some (goto { p with writelock := .free } i ⟨seen, .newPoolConn⟩ (.done none))
    | _ => none
  | .tryInsert i =>
    match p.calls[i]? with
    | some ⟨seen, .tryInsert⟩ =>
      let writelock :=
        match p.writelock with
        | .missing => .free
        | writelock => writelock
      some (goto { p with writelock } i ⟨seen, .tryInsert⟩ .tryLock)
    | _ => none
  | .tryLock i =>
    match p.calls[i]? with
    | some ⟨seen, .tryLock⟩ =>
      match p.writelock with
      | .free =>
        some (goto { p with writelock := .held i } i ⟨seen, .tryLock⟩ .newPoolConn)
      | .held _ => some (p.goto i ⟨seen, .tryLock⟩ .changed)
      | .missing => none
    | _ => none
  | .changed i =>
    match p.calls[i]? with
    | some ⟨seen, .changed⟩ =>
      if seen < p.version then
        some (p.goto i ⟨p.version, .changed⟩ (.checkout true))
      else none
    | _ => none
  | .drop conn => some { p with connected := p.connected.erase conn }
  | .notify => some { p with version := p.version + 1 }

/-- The call sleeps, and nothing that it has not seen was announced. -/
def Blocked (p : Pool) (c : Call) : Prop :=
  c.pc = .changed ∧ c.seen = p.version

end Pool

open Lib

-- ======== invariant

/-- It holds the lock: it makes a connection, or takes one from the
pool. -/
def Call.Creating (c : Call) : Prop := c.pc = .get ∨ c.pc = .newPoolConn

/-- It has seen a lock for the key. -/
def Call.Entered (c : Call) : Prop :=
  c.pc = .lock ∨ c.pc = .tryLock ∨ c.pc = .changed ∨ c.pc = .checkout true

/-- The steps that a call has at most before its end, but for connections of the
pool that turn out to be unusable. -/
def Pc.left : Pc → Nat
  | .done _ => 0
  | .newPoolConn => 1
  | .get => 2
  | .lock => 3
  | .checkout true => 4
  | .changed => 5
  | .tryLock => 6
  | .tryInsert => 7
  | .checkout false => 8

/-- What holds of each call, by the channel and the lock. -/
structure Good (version : Nat) (lock : Writelock) (i : Nat) (c : Call) : Prop where
  seen : c.seen ≤ version
  creating : c.Creating ↔ lock = .held i
  entered : c.Entered → lock ≠ .missing
  awake : c.pc = .changed → c.seen = version → ∃ j, lock = .held j

/-- What a step of a call may do to the channel and the lock. -/
inductive Moves (i : Nat) (version : Nat) (lock : Writelock) : Nat → Writelock → Prop
  | same : Moves i version lock version lock
  | take (free : lock = .free) : Moves i version lock version (.held i)
  | release (held : lock = .held i) : Moves i version lock (version + 1) .free
  | insert (missing : lock = .missing) : Moves i version lock version .free

variable {version version' : Nat} {lock lock' : Writelock} {i j : Nat} {c : Call}

theorem Good.moves (h : Good version lock j c)
    (hm : Moves i version lock version' lock') (hne : j ≠ i) : Good version' lock' j c := by
  cases hm with
  | same => exact h
  | take hfree =>
    refine ⟨h.seen, ?_, fun _ => nofun, fun _ _ => ⟨i, rfl⟩⟩
    rw [h.creating, hfree]
    exact iff_of_false nofun fun heq => hne (Writelock.held.inj heq).symm
  | release hheld =>
    refine ⟨Nat.le_succ_of_le h.seen, ?_, fun _ => nofun, fun _ hseen => ?_⟩
    · rw [h.creating, hheld]
      exact iff_of_false (fun heq => hne (Writelock.held.inj heq).symm) nofun
    · -- it has not seen what was just announced
      have := h.seen
      omega
  | insert hmissing =>
    refine ⟨h.seen, ?_, fun _ => nofun, fun hpc _ => ?_⟩
    · rw [h.creating, hmissing]
      exact iff_of_false nofun nofun
    · exact absurd hmissing (h.entered (.inr (.inr (.inl hpc))))

theorem Moves.holder (hm : Moves i version lock version' lock')
    (hj : lock' = .held j) : j = i ∨ lock = .held j := by
  cases hm with
  | same => exact .inr hj
  | take => exact .inl (Writelock.held.inj hj).symm
  | release | insert => cases hj

theorem Good.notify (h : Good version lock j c) : Good (version + 1) lock j c := by
  refine ⟨Nat.le_succ_of_le h.seen, h.creating, h.entered, fun _ hseen => ?_⟩
  have := h.seen
  omega

namespace Pool

variable {p p' : Pool} {seen : Nat} {pc : Pc}

structure Inv (p : Pool) : Prop where
  calls : ∀ i c, p.calls[i]? = some c → Good p.version p.writelock i c
  holder : ∀ i, p.writelock = .held i → i < p.calls.length

theorem Inv.moves (h : p.Inv) (d : Call) (hi : p.calls[i]? = some c)
    (hm : Moves i p.version p.writelock p'.version p'.writelock)
    (hcalls : p'.calls = p.calls.set i d) (hgood : Good p'.version p'.writelock i d) : p'.Inv := by
  have hlt := (List.getElem?_eq_some_iff.1 hi).1
  constructor
  · intro j d' hj
    rw [hcalls, List.getElem?_set] at hj
    by_cases hij : i = j
    · subst hij
      rw [if_pos rfl, if_pos hlt] at hj
      cases hj
      exact hgood
    · rw [if_neg hij] at hj
      exact (h.calls j d' hj).moves hm (Ne.symm hij)
  · intro j hj
    rw [hcalls, List.length_set]
    rcases hm.holder hj with rfl | hj
    · exact hlt
    · exact h.holder j hj

-- ======== steps

/-- Every connection that is asked for can be made, and none is at its
maximum of streams when it is checked in. -/
def Smooth (_ : Pool) : Step → Prop
  | .get _ _ atMax => atMax = false
  | .newPoolConn _ success atMax => success ∧ atMax = false
  | _ => True

instance (p : Pool) (a : Step) : Decidable (Smooth p a) := by
  cases a with
  | get _ _ atMax => exact inferInstanceAs (Decidable (atMax = false))
  | newPoolConn _ success atMax => exact inferInstanceAs (Decidable (success ∧ atMax = false))
  | _ => exact isTrue trivial

theorem not_creating (hget : pc ≠ .get) (hnew : pc ≠ .newPoolConn) : ¬ Call.Creating ⟨seen, pc⟩ :=
  fun h => h.elim hget hnew

theorem inv_goto (h : p.Inv) {seen' : Nat} {pc' : Pc}
    (hi : p.calls[i]? = some ⟨seen, pc⟩) (hc : ¬ Call.Creating ⟨seen, pc⟩)
    (hseen : seen' ≤ p.version) (hc' : ¬ Call.Creating ⟨seen', pc'⟩)
    (hentered : Call.Entered ⟨seen', pc'⟩ → p.writelock ≠ .missing)
    (hawake : pc' = .changed → ∃ j, p.writelock = .held j) : (p.goto i ⟨seen', pc⟩ pc').Inv := by
  refine h.moves ⟨seen', pc'⟩ hi .same rfl
    ⟨hseen, iff_of_false hc' fun hlock => hc ?_, hentered, fun hpc _ => hawake hpc⟩
  exact ((h.calls i _ hi).creating).2 hlock

theorem inv_finish (h : p.Inv) (hi : p.calls[i]? = some c) (hc : c.Creating)
    (connected : List ConnId) (nextConn conn : ConnId) :
    (finish { p with connected, nextConn } i c conn false).Inv := by
  have hgood := h.calls i c hi
  refine h.moves { c with pc := .done (some conn) } hi (.release (hgood.creating.1 hc)) rfl
    ⟨Nat.le_succ_of_le hgood.seen, iff_of_false ?_ nofun, nofun, nofun⟩
  exact not_creating nofun nofun

theorem inv_connect (h : p.Inv) (hseen : seen ≤ p.version) :
    { p with calls := p.calls ++ [Call.mk seen (.checkout false)] }.Inv := by
  constructor
  · intro j d hj
    rcases Nat.lt_or_ge j p.calls.length with hlt | hge
    · rw [List.getElem?_append_left hlt] at hj
      exact h.calls j d hj
    · rw [List.getElem?_append_right hge] at hj
      have hd := List.mem_singleton.1 (List.mem_of_getElem? hj)
      subst hd
      refine ⟨hseen, iff_of_false (not_creating nofun nofun) fun hlock => ?_, ?_, nofun⟩
      · exact Nat.not_lt.2 hge (h.holder j hlock)
      · rintro (hpc | hpc | hpc | hpc) <;> cases hpc
  · intro j hj
    rw [List.length_append]
    exact Nat.lt_add_right 1 (h.holder j hj)

theorem inv_step {a : Step} (h : p.Inv) (ha : Smooth p a)
    (hstep : p.step a = some p') : p'.Inv := by
  cases a with
  | connect seen =>
    simp only [step] at hstep
    split at hstep
    · rename_i hseen
      cases hstep
      exact inv_connect h hseen
    · cases hstep
  | checkout i =>
    simp only [step] at hstep
    split at hstep
    · rename_i seen woken hi
      have hgood := h.calls i _ hi
      have hnot : ¬ Call.Creating ⟨seen, .checkout woken⟩ := not_creating nofun nofun
      split at hstep
      · rename_i hlock
        exact absurd hlock (hgood.entered (.inr (.inr (.inr rfl))))
      · cases hstep
        refine inv_goto h hi hnot hgood.seen (not_creating nofun nofun) ?_ nofun
        rintro (hpc | hpc | hpc | hpc) <;> cases hpc
      · rename_i hmissing hmissing'
        cases hstep
        refine inv_goto h hi hnot hgood.seen (not_creating nofun nofun) (fun _ hlock => ?_) nofun
        exact (Bool.eq_false_or_eq_true _).elim (hmissing hlock) (hmissing' hlock)
    · cases hstep
  | lock i =>
    simp only [step] at hstep
    split at hstep
    · rename_i seen hi hfree
      cases hstep
      refine h.moves ⟨seen, .get⟩ hi (.take hfree) rfl
        ⟨(h.calls i _ hi).seen, iff_of_true (.inl rfl) rfl, fun _ => nofun, nofun⟩
    · cases hstep
  | get i ready atMax =>
    simp only [step] at hstep
    split at hstep
    · rename_i seen hi
      have hgood := h.calls i _ hi
      split at hstep
      · cases hstep
        have hlock := hgood.creating.1 (.inl rfl)
        exact h.moves ⟨seen, .newPoolConn⟩ hi .same rfl ⟨hgood.seen, iff_of_true (.inr rfl) hlock,
            fun _ => hlock.symm ▸ nofun, nofun⟩
      · rename_i conn connected _
        split at hstep
        · cases hstep
          rw [show atMax = false from ha]
          exact inv_finish h hi (.inl rfl) connected p.nextConn conn
        · cases hstep
          exact ⟨h.calls, h.holder⟩
    · cases hstep
  | newPoolConn i success atMax =>
    obtain ⟨rfl, rfl⟩ := ha
    simp only [step] at hstep
    split at hstep
    · rename_i seen hi
      cases hstep
      exact inv_finish h hi (.inr rfl) p.connected (p.nextConn + 1) p.nextConn
    · cases hstep
  | tryInsert i =>
    simp only [step] at hstep
    split at hstep
    · rename_i seen hi
      have hgood := h.calls i _ hi
      have hnot : ¬ Call.Creating ⟨seen, .tryInsert⟩ := not_creating nofun nofun
      cases hstep
      split
      · rename_i hlock
        exact h.moves ⟨seen, .tryLock⟩ hi (.insert hlock) rfl
          ⟨hgood.seen, iff_of_false (not_creating nofun nofun) nofun, fun _ => nofun, nofun⟩
      · rename_i hlock
        refine h.moves ⟨seen, .tryLock⟩ hi .same rfl
          ⟨hgood.seen, iff_of_false (not_creating nofun nofun) ?_, fun _ => hlock, nofun⟩
        exact fun heq => hnot (hgood.creating.2 heq)
    · cases hstep
  | tryLock i =>
    simp only [step] at hstep
    split at hstep
    · rename_i seen hi
      have hgood := h.calls i _ hi
      split at hstep
      · rename_i hfree
        cases hstep
        exact h.moves ⟨seen, .newPoolConn⟩ hi (.take hfree) rfl
          ⟨hgood.seen, iff_of_true (.inr rfl) rfl, fun _ => nofun, nofun⟩
      · rename_i holder hheld
        cases hstep
        refine inv_goto h hi (not_creating nofun nofun) hgood.seen
          (not_creating nofun nofun) (fun _ => ?_) fun _ => ⟨holder, hheld⟩
        rw [hheld]
        nofun
      · cases hstep
    · cases hstep
  | changed i =>
    simp only [step] at hstep
    split at hstep
    · rename_i seen hi
      split at hstep
      · cases hstep
        refine inv_goto h hi (not_creating nofun nofun) (Nat.le_refl _)
          (not_creating nofun nofun) (fun _ => ?_) nofun
        exact (h.calls i _ hi).entered (.inr (.inr (.inl rfl)))
      · cases hstep
    · cases hstep
  | drop conn =>
    cases hstep
    exact ⟨h.calls, h.holder⟩
  | notify =>
    cases hstep
    exact ⟨fun j d hj => (h.calls j d hj).notify, h.holder⟩

-- ======== who can go on

/-- The call can go on, when what it asks for is to be had. -/
def CanMove (p : Pool) (i : Nat) : Prop :=
  ∃ a, a.call? = some i ∧ Smooth p a ∧ p.step a ≠ none

/-- What a call waits for, by the channel and the lock. -/
def Ready (version : Nat) (lock : Writelock) (c : Call) : Prop :=
  match c.pc with
  | .lock => lock = .free
  | .tryLock => lock ≠ .missing
  | .changed => c.seen < version
  | .done _ => False
  | .checkout _ | .get | .newPoolConn | .tryInsert => True

theorem canMove_iff :
    p.CanMove i ↔ ∃ c, p.calls[i]? = some c ∧ Ready p.version p.writelock c := by
  constructor
  · rintro ⟨a, hcall, -, hstep⟩
    cases a <;> cases hcall
    all_goals
      simp only [step] at hstep
      grind [Ready]
  · rintro ⟨⟨seen, pc⟩, hi, hready⟩
    cases pc with
    | checkout woken =>
      refine ⟨.checkout i, rfl, trivial, ?_⟩
      simp only [step, hi]
      split <;> nofun
    | lock =>
      refine ⟨.lock i, rfl, trivial, ?_⟩
      simp only [step, hi, show p.writelock = .free from hready]
      nofun
    | get =>
      refine ⟨.get i true false, rfl, rfl, ?_⟩
      simp only [step, hi]
      split <;> nofun
    | newPoolConn =>
      refine ⟨.newPoolConn i true false, rfl, ⟨rfl, rfl⟩, ?_⟩
      simp only [step, hi]
      nofun
    | tryInsert =>
      refine ⟨.tryInsert i, rfl, trivial, ?_⟩
      simp only [step, hi]
      nofun
    | tryLock =>
      refine ⟨.tryLock i, rfl, trivial, ?_⟩
      simp only [step, hi]
      split
      · nofun
      · nofun
      · next hmissing => exact absurd hmissing hready
    | changed =>
      refine ⟨.changed i, rfl, trivial, ?_⟩
      simp only [step, hi, if_pos (show seen < p.version from hready)]
      nofun
    | done conn => cases hready

/-- Another call has the lock, and can go on. -/
def HeldByOther (p : Pool) (i : Nat) : Prop :=
  ∃ j d, j ≠ i ∧ p.writelock = .held j ∧ p.calls[j]? = some d ∧ d.Creating ∧ p.CanMove j

theorem Inv.heldByOther (h : p.Inv) (hlock : p.writelock = .held j)
    (hi : p.calls[i]? = some c) (hc : ¬ c.Creating) : p.HeldByOther i := by
  have hj := List.getElem?_eq_getElem (h.holder j hlock)
  have hcreating := ((h.calls j _ hj).creating).2 hlock
  refine ⟨j, _, ?_, hlock, hj, hcreating, canMove_iff.2 ⟨_, hj, ?_⟩⟩
  · rintro rfl
    cases hj.symm.trans hi
    exact hc hcreating
  · rcases hcreating with hpc | hpc <;> simp [Ready, hpc]

theorem Inv.blocked (h : p.Inv) (hi : p.calls[i]? = some c)
    (hblocked : p.Blocked c) : p.HeldByOther i := by
  obtain ⟨j, hlock⟩ := (h.calls i c hi).awake hblocked.1 hblocked.2
  refine h.heldByOther hlock hi ?_
  rintro (hpc | hpc) <;> cases hblocked.1.symm.trans hpc

theorem Inv.canMove (h : p.Inv) (hi : p.calls[i]? = some c)
    (hdone : ∀ conn, c.pc ≠ .done conn) : p.CanMove i ∨ p.HeldByOther i := by
  have hgood := h.calls i c hi
  rw [canMove_iff]
  obtain ⟨seen, pc⟩ := c
  cases pc with
  | checkout | get | newPoolConn | tryInsert => exact .inl ⟨_, hi, trivial⟩
  | lock =>
    cases hlock : p.writelock with
    | missing => exact absurd hlock (hgood.entered (.inl rfl))
    | free => exact .inl ⟨_, hi, rfl⟩
    | held j => exact .inr (h.heldByOther hlock hi (not_creating nofun nofun))
  | tryLock => exact .inl ⟨_, hi, hgood.entered (.inr (.inl rfl))⟩
  | changed =>
    rcases Nat.lt_or_eq_of_le hgood.seen with hnew | hseen
    · exact .inl ⟨_, hi, hnew⟩
    · exact .inr (h.blocked hi ⟨rfl, hseen⟩)
  | done conn => exact absurd rfl (hdone conn)

-- ======== schedules

def Ended (p : Pool) : Prop := ∀ c ∈ p.calls, ∃ conn, c.pc = .done conn

theorem Inv.some_canMove (h : p.Inv) (hended : ¬ p.Ended) : ∃ i, p.CanMove i := by
  simp only [Ended, not_forall, not_exists] at hended
  obtain ⟨c, hc, hdone⟩ := hended
  obtain ⟨i, hi⟩ := List.mem_iff_getElem?.1 hc
  rcases h.canMove hi hdone with hmove | ⟨j, _, -, -, -, -, hmove⟩
  · exact ⟨i, hmove⟩
  · exact ⟨j, hmove⟩

/-- A call that ends may leave a connection in the pool, for others to find
unusable. -/
def left (p : Pool) : Nat := 2 * total (·.pc.left) p.calls + p.connected.length

/-- A call that takes a step is nearer to its end. -/
theorem left_step {a : Step} (h : p.Inv) (ha : a.call? = some i) (hstep : p.step a = some p') :
    p'.left < p.left := by
  have htotal : ∀ c d, p.calls[i]? = some c → total (·.pc.left) (p.calls.set i d) + c.pc.left
      = total (·.pc.left) p.calls + d.pc.left := fun _ d hi => total_set _ d hi
  have hwoken : ∀ seen, p.calls[i]? = some ⟨seen, .checkout true⟩ → p.writelock ≠ .missing :=
    fun _ hi => (h.calls i _ hi).entered (.inr (.inr (.inr rfl)))
  have hlock : ∀ woken, Pc.lock.left < (Pc.checkout woken).left := by decide
  unfold left
  cases a <;> cases ha <;> simp only [step, goto, finish, maybeCheckinConn] at hstep <;>
    grind [Pc.left]

/-- A dropped connection or another key brings no call further from its end, and
stops none. -/
theorem outside_step {a : Step} (ha : a.call? = none) (hnew : ∀ seen, a ≠ .connect seen)
    (hstep : p.step a = some p') : p'.left ≤ p.left ∧ ∀ i, p.CanMove i → p'.CanMove i := by
  simp only [canMove_iff]
  cases a with
  | connect seen => exact absurd rfl (hnew seen)
  | drop conn =>
    cases hstep
    exact ⟨Nat.add_le_add_left List.length_erase_le _, fun _ h => h⟩
  | notify =>
    cases hstep
    refine ⟨Nat.le_refl _, fun i ⟨c, hi, hready⟩ => ⟨c, hi, ?_⟩⟩
    unfold Ready at hready ⊢
    split <;> grind
  | checkout | lock | get | newPoolConn | tryInsert | tryLock | changed => cases ha

/-- Calls and what comes from outside take steps, or nothing happens for a while.
No more calls come. -/
structure Schedule (p : Pool) where
  state : Nat → Pool
  act : Nat → Option Step
  start : state 0 = p
  next : ∀ n, match act n with
    | none => state (n + 1) = state n
    | some a => (∀ seen, a ≠ .connect seen) ∧ Smooth (state n) a
      ∧ (state n).step a = some (state (n + 1))

namespace Schedule

variable (s : Schedule p)

/-- The call takes a step, or cannot. -/
def Offered (n i : Nat) : Prop :=
  (∃ a, s.act n = some a ∧ a.call? = some i) ∨ ¬ (s.state n).CanMove i

/-- No call can go on for ever without a step. -/
def Fair : Prop := ∀ n i, (s.state n).CanMove i → ∃ d, s.Offered (n + d) i

theorem inv (h : p.Inv) (n : Nat) : (s.state n).Inv := by
  induction n with
  | zero => rwa [s.start]
  | succ n ih =>
    have hnext := s.next n
    split at hnext
    · rwa [hnext]
    · exact inv_step ih hnext.2.1 hnext.2.2

/-- Some call has taken a step and is nearer to its end, or all can go on as
before. -/
theorem next_cases (h : p.Inv) (n : Nat) : (s.state (n + 1)).left < (s.state n).left
    ∨ (∀ a, s.act n = some a → a.call? = none) ∧ (s.state (n + 1)).left ≤ (s.state n).left
      ∧ ∀ i, (s.state n).CanMove i → (s.state (n + 1)).CanMove i := by
  have hnext := s.next n
  cases hact : s.act n with
  | none =>
    rw [hact] at hnext
    rw [show s.state (n + 1) = s.state n from hnext]
    exact .inr ⟨nofun, Nat.le_refl _, fun _ hmove => hmove⟩
  | some a =>
    rw [hact] at hnext
    obtain ⟨hnew, -, hstep⟩ := hnext
    cases hcall : a.call? with
    | some i => exact .inl (left_step (s.inv h n) hcall hstep)
    | none => exact .inr ⟨fun b hb => Option.some.inj hb ▸ hcall, outside_step hcall hnew hstep⟩

/-- In a fair schedule every call ends. -/
theorem ends (h : p.Inv) (hfair : s.Fair) : ∃ n, (s.state n).Ended := by
  classical
  refine done_of_fair s.state (fun n i => decide (s.Offered n i)) Ended CanMove left
    (fun n hended => ?_) fun {n i} hmove => ?_
  · rcases s.next_cases h n with hlt | ⟨hquiet, hle, hmoves⟩
    · exact .inr (.inl hlt)
    rcases Nat.lt_or_eq_of_le hle with hlt | heq
    · exact .inr (.inl hlt)
    refine .inr (.inr ⟨heq, (s.inv h n).some_canMove hended, fun i hi =>
      ⟨hmoves i hi, decide_eq_false ?_⟩⟩)
    rintro (⟨a, ha, hcall⟩ | hnot)
    · cases (hquiet a ha).symm.trans hcall
    · exact hnot hi
  · obtain ⟨d, hd⟩ := hfair n i hmove
    exact ⟨d, decide_eq_true hd⟩

end Schedule

-- ======== result

/-- In every run in which connections can be made and are not at their
maximum of streams when they are checked in, no call sleeps on the channel
but while another makes a connection or takes one from the pool; a call that
has not ended can go on, or another that has the lock can; and when no more
calls come, all of them end. -/
theorem no_waiter_abandoned (steps : List Step) (p : Pool)
    (hok : StepsOk step Smooth new steps) (hrun : steps.foldlM step new = some p) :
    (∀ i c, p.calls[i]? = some c → p.Blocked c → p.HeldByOther i)
      ∧ (∀ i c, p.calls[i]? = some c → (∀ conn, c.pc ≠ .done conn) → p.CanMove i ∨ p.HeldByOther i)
      ∧ ∀ s : Schedule p, s.Fair → ∃ n, (s.state n).Ended := by
  have h := inv_of_stepsOk (fun h ha hstep => inv_step h ha hstep) steps
    (⟨nofun, nofun⟩ : new.Inv) hok hrun
  exact ⟨fun i c hi hblocked => h.blocked hi hblocked, fun i c hi hdone => h.canMove hi hdone,
    fun s hfair => s.ends h hfair⟩

/-- Two calls for a key that nobody has tried; the first wins the lock. -/
def race : List Step :=
  [.connect 0, .connect 0, .checkout 0, .checkout 1, .tryInsert 0, .tryInsert 1,
    .tryLock 0, .tryLock 1]

/-- The winner makes a connection and wakes the loser, which finds it in the
pool. -/
def woken : List Step :=
  [.newPoolConn 0 true false, .changed 1, .checkout 1, .lock 1, .get 1 true false]

def raced : Pool := ⟨0, .held 0, [], 0, [⟨0, .newPoolConn⟩, ⟨0, .changed⟩]⟩

def wakes : Schedule raced where
  state n := ((woken.take n).foldlM step raced).getD raced
  act n := woken[n]?
  start := rfl
  next
    | 0 | 1 | 2 | 3 | 4 => ⟨nofun, by decide, rfl⟩
    | n + 5 => by simp [woken]

theorem wakes_fair : wakes.Fair := by
  refine fun n i _ => ⟨5, .inr ?_⟩
  have hstate : wakes.state (n + 5)
      = ⟨2, .free, [0], 1, [⟨0, .done (some 0)⟩, ⟨1, .done (some 0)⟩]⟩ := by
    simp only [wakes, woken, List.take_succ_cons, List.take_nil]
    rfl
  rw [hstate, canMove_iff]
  rintro ⟨c, hi, hready⟩
  match i, hi with
  | 0, hi | 1, hi =>
    cases hi
    exact hready

/-- The loser sleeps, and has somebody to wake it. -/
theorem no_waiter_abandoned_sample : race.foldlM step new = some raced
    ∧ raced.Blocked ⟨0, .changed⟩ ∧ raced.HeldByOther 1 ∧ ∃ n, (wakes.state n).Ended := by
  have h := no_waiter_abandoned race raced (by decide) rfl
  exact ⟨rfl, ⟨rfl, rfl⟩, h.1 1 ⟨0, .changed⟩ rfl ⟨rfl, rfl⟩, h.2.2 wakes wakes_fair⟩

/-- A call that nobody will wake: it sleeps, and every other has ended. -/
def Abandoned (p : Pool) (i : Nat) : Prop :=
  p.calls[i]? = some ⟨p.version, .changed⟩ ∧ p.writelock = .free
    ∧ ∀ j d, p.calls[j]? = some d → j = i ∨ ∃ conn, d.pc = .done conn

/-- The winner of the race cannot make a connection. Or it can, and the
connection is full. -/
theorem loser_abandoned : (∃ p, (race ++ [Step.newPoolConn 0 false false]).foldlM step new = some p
      ∧ p.Abandoned 1)
    ∧ ∃ p, (race ++ [Step.newPoolConn 0 true true]).foldlM step new = some p ∧ p.Abandoned 1 := by
  refine ⟨⟨_, rfl, rfl, rfl, ?_⟩, ⟨_, rfl, rfl, rfl, ?_⟩⟩ <;> intro j d hj
  all_goals
    match j, hj with
    | 0, hj =>
      cases hj
      exact .inr ⟨_, rfl⟩
    | 1, _ => exact .inl rfl
    | _ + 2, hj => cases hj

-- ======== one at a time

/-- What no failure and no full connection breaks. -/
structure Exclusive (p : Pool) : Prop where
  creating : ∀ i c, p.calls[i]? = some c → c.Creating → p.writelock = .held i
  distinct : p.connected.Nodup
  made : ∀ conn ∈ p.connected, conn < p.nextConn

theorem exclusive_step {a : Step} (h : p.Exclusive) (hstep : p.step a = some p') :
    p'.Exclusive := by
  obtain ⟨hcreating, hdistinct, hmade⟩ := h
  constructor
  · unfold Call.Creating at *
    cases a <;> simp only [step, goto, finish, maybeCheckinConn] at hstep <;> grind
  all_goals
    clear hcreating
    cases a <;> simp only [step, goto, finish, maybeCheckinConn] at hstep <;>
      grind [List.Nodup.erase, List.mem_of_mem_erase]

/-- However calls are interleaved, and whatever fails: one call at a time makes a
connection or takes one, and no connection is in the pool twice. -/
theorem one_creates_at_a_time (steps : List Step) (p : Pool)
    (hrun : steps.foldlM step new = some p) :
    (∀ i j : Nat, ∀ c d, p.calls[i]? = some c → p.calls[j]? = some d →
      c.Creating → d.Creating → i = j) ∧ p.connected.Nodup := by
  have h := inv_of_run exclusive_step steps (⟨nofun, .nil, nofun⟩ : new.Exclusive) hrun
  refine ⟨fun i j c d hi hj hc hd => ?_, h.distinct⟩
  have hheld := h.creating i c hi hc
  rw [h.creating j d hj hd] at hheld
  exact (Writelock.held.inj hheld).symm

theorem one_creates_sample : ∃ p, race.foldlM step new = some p
    ∧ p.calls[0]? = some ⟨0, .newPoolConn⟩ ∧ ∀ j d, p.calls[j]? = some d → d.Creating → 0 = j :=
  ⟨_, rfl, rfl, fun j d hj => (one_creates_at_a_time race _ rfl).1 0 j _ d rfl hj (.inr rfl)⟩

end Pool

end AgentGateway.Hbone
