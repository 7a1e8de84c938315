/-
The invariant of a host, kept by every step.

Whoever drops a pooled connection or a guard gives back one reservation
(`GivenBack`). If it was the last one the connection leaves the queue and
is handed out anew, from a state where nothing is reserved on it
(`GivenBack.mid`); if it was not, it stays in the queue, in front if it
was full (`GivenBack.keep`).

Beside the streams (`Streams`) the invariant has the accounts of the
connections on their way (`Accounts`): one for each token, with the
capacity the tokens promised, and no more waiters than that. A waiter is
added only together with what it waits for: if those on their way are too
few, a token is given out, and it promises room for one request at least.
Whatever takes a promise back takes as many waiters out of the queue.
-/
import AgentGateway.Pool.Proofs.Send
import AgentGateway.Lib.Run
import Mathlib.Algebra.BigOperators.Group.List.Basic
import Mathlib.Algebra.GroupWithZero.Nat

namespace AgentGateway.Pool

open H2Pool Function Lib List

variable {s s₀ : State} {w : Wires} {c : ConnId} {l : H2Load} {p : Pooled}

-- ======== giving back

/-- One reservation less on a connection, and nothing else. -/
structure GivenBack (w w₀ : Wires) (c : ConnId) : Prop where
  wires : ∃ pooled guards, w = { w₀ with pooled, guards }
  reserved_self : w₀.reserved c + 1 = w.reserved c
  reserved_of_ne : ∀ d, d ≠ c → w₀.reserved d = w.reserved d

theorem givenBack_pooled (hp : p ∈ s.pooled) (hc : p.value = .http2 c) :
    GivenBack s.wires { s with pooled := s.pooled.erase p }.wires c where
  wires := ⟨_, _, rfl⟩
  reserved_self := by
    show heldOn (s.pooled.erase p) c + _ + 1 = heldOn s.pooled c + _
    rw [← heldOn_erase hp hc]
    exact Nat.add_right_comm ..
  reserved_of_ne d hd := by
    refine congrArg (· + _) (heldOn_erase_of_ne ?_)
    rw [hc]
    simpa using hd.symm

theorem givenBack_guard (hc : c ∈ s.guards) :
    GivenBack s.wires { s with guards := s.guards.erase c }.wires c where
  wires := ⟨_, _, rfl⟩
  reserved_self := by
    have hpos := List.count_pos_iff.2 hc
    show heldOn s.pooled c + (s.guards.erase c).count c + 1 = heldOn s.pooled c + s.guards.count c
    rw [List.count_erase_self]
    omega
  reserved_of_ne d hd := congrArg (_ + ·) (List.count_erase_of_ne hd)

namespace GivenBack

section

variable (h : Streams w) (hg : GivenBack w s₀.wires c)
include h hg

theorem reserved_lt : s₀.wires.reserved c < (s₀.load c).activeStreams := by
  have hself := hg.reserved_self
  obtain ⟨pooled, guards, rfl⟩ := hg.wires
  exact Nat.le_trans (Nat.le_of_eq hself) (h.ok c).reserved_le

theorem reserved_eq (hopen : s₀.isOpen (.http2 c)) :
    (s₀.load c).activeStreams = s₀.wires.reserved c + 1 := by
  have hself := hg.reserved_self
  obtain ⟨pooled, guards, rfl⟩ := hg.wires
  exact ((h.ok c).reserved_eq hopen).trans hself.symm

theorem known : c < w.nextConn := by
  have hlt := reserved_lt h hg
  obtain ⟨pooled, guards, rfl⟩ := hg.wires
  exact h.lt_of_active (Nat.zero_lt_of_lt hlt)

theorem mid (hone : (s₀.load c).activeStreams = 1) (hl : l.activeStreams = 0) :
    Mid (untrack (s₀.setLoad c l) (.http2 c)).wires c 0 := by
  have hknown := known h hg
  have hlt := reserved_lt h hg
  have hne := hg.reserved_of_ne
  obtain ⟨pooled, guards, rfl⟩ := hg.wires
  have hok := h.ok c
  have htracked : s₀.activeH2.count c ≤ 1 := hok.tracked_le
  have hothers : ∀ d, d ≠ c → (untrack (s₀.setLoad c l) (.http2 c)).wires.view d
        = Wires.view { s₀.wires with pooled, guards } d := fun d hd =>
    Wires.view_congr (update_of_ne hd ..) (hne d hd) (count_remove_of_ne hd) rfl rfl
  have hrest : H2Pool.InOrder (update s₀.load c l) (s₀.activeH2.remove c) :=
    h.inOrder.remove.update_of_not_mem (not_mem_remove htracked)
  constructor
  case known => exact hknown
  case others =>
    intro d hd
    rw [hothers d hd]
    exact h.ok d
  case fresh =>
    intro d hd
    rw [hothers d (Nat.ne_of_gt (Nat.lt_of_lt_of_le hknown hd))]
    exact h.fresh d hd
  case active =>
    show (update s₀.load c l c).activeStreams = 0
    rw [update_self, hl]
  case reserved => exact Nat.lt_one_iff.1 (hone ▸ hlt)
  case idle =>
    have hidle : 0 < s₀.wires.idling c → (s₀.load c).activeStreams = 0 := hok.idle_active
    show s₀.wires.idling c = 0
    omega
  case tracked_le =>
    show (s₀.activeH2.remove c).count c ≤ 1
    rw [count_remove_self]
    omega
  case tracked => omega
  case rest => exact hrest.remove
  case inOrder => exact fun _ => hrest

theorem keep {q : H2Pool} (hmore : 1 < (s₀.load c).activeStreams)
    (hl : l.activeStreams = (s₀.load c).activeStreams - 1)
    (hcount : ∀ d, q.count d = s₀.activeH2.count d)
    (horder : H2Pool.InOrder (update s₀.load c l) q) :
    Streams { s₀.setLoad c l with activeH2 := q }.wires := by
  have hknown := known h hg
  have hlt := reserved_lt h hg
  have heq := reserved_eq h hg
  have hne := hg.reserved_of_ne
  obtain ⟨pooled, guards, rfl⟩ := hg.wires
  have hok := h.ok c
  have hpos : 0 < (s₀.load c).activeStreams := Nat.zero_lt_of_lt hmore
  have hactive : (update s₀.load c l c).activeStreams = (s₀.load c).activeStreams - 1 := by
    rw [update_self, hl]
  refine h.touch hknown rfl (fun d hd => ?_) ?_ horder
  · exact Wires.view_congr (update_of_ne hd ..) (hne d hd) (hcount d) rfl rfl
  constructor
  case reserved_le =>
    exact Nat.le_trans (Nat.le_sub_one_of_lt hlt) (Nat.le_of_eq hactive.symm)
  case reserved_eq => exact fun hopen => hactive.trans (Nat.sub_eq_of_eq_add (heq hopen))
  case tracked_le => exact Nat.le_trans (Nat.le_of_eq (hcount c)) hok.tracked_le
  case tracked_active =>
    exact fun _ => Nat.lt_of_lt_of_eq (Nat.sub_pos_of_lt hmore) hactive.symm
  case active_tracked =>
    exact fun hopen _ => (hcount c).trans (hok.active_tracked hopen hpos)
  case idle_le => exact hok.idle_le
  case idle_active =>
    exact fun hidle => absurd (hok.idle_active hidle) (Nat.ne_of_gt hpos)

theorem dead (hclosed : s₀.isOpen (.http2 c) = false) : Streams (untrack s₀ (.http2 c)).wires := by
  have hknown := known h hg
  have hlt := reserved_lt h hg
  have hne := hg.reserved_of_ne
  obtain ⟨pooled, guards, rfl⟩ := hg.wires
  have hok := h.ok c
  have hopen : s₀.isOpen (.http2 c) ≠ true := Bool.eq_false_iff.1 hclosed
  have htracked : (s₀.activeH2.remove c).count c = 0 := by
    have hone : s₀.activeH2.count c ≤ 1 := hok.tracked_le
    rw [count_remove_self]
    omega
  refine h.touch hknown rfl (fun d hd => ?_) ?_ h.inOrder.remove
  · exact Wires.view_congr rfl (hne d hd) (count_remove_of_ne hd) rfl rfl
  constructor
  case reserved_le => exact Nat.le_of_lt hlt
  case reserved_eq => exact fun htrue => absurd htrue hopen
  case tracked_le => exact Nat.le_trans (Nat.le_of_eq htracked) (Nat.zero_le 1)
  case tracked_active => exact fun hpos => absurd htracked (Nat.ne_of_gt hpos)
  case active_tracked => exact fun htrue => absurd htrue hopen
  case idle_le => exact hok.idle_le
  case idle_active => exact hok.idle_active

end

end GivenBack

theorem Mid.streams_untracked (h : Mid w c 0) (hq : c ∉ w.activeH2) : Streams w where
  ok d := by
    by_cases hd : d = c
    · rw [hd]
      have hactive := h.active
      have hreserved := h.reserved
      have hidle := h.idle
      have htracked : (w.view c).tracked = 0 := List.count_eq_zero.2 hq
      constructor <;> omega
    · exact h.others d hd
  fresh := h.fresh
  inOrder := by
    have hrest := h.rest
    unfold remove at hrest
    rwa [List.erase_of_not_mem hq] at hrest

-- ======== the functions

/-- The order of the queue once a stream of a full connection is free, and
the connection is moved to the front. -/
theorem GivenBack.inOrder_front (h : Streams w) (hg : GivenBack w s₀.wires c) (hl : ¬ l.Full) :
    H2Pool.InOrder (update s₀.load c l) (s₀.activeH2.markActiveByLoad c) := by
  obtain ⟨pooled, guards, rfl⟩ := hg.wires
  refine inOrder_markActiveByLoad ?_ ?_
  · exact h.inOrder.remove.update_of_not_mem (not_mem_remove (h.ok c).tracked_le)
  · rw [update_self]
    exact hl

/-- The order of the queue once a stream of a connection that had others
free is. -/
theorem GivenBack.inOrder_same (h : Streams w) (hg : GivenBack w s₀.wires c) (hl : ¬ l.Full)
    (hload : ¬ (s₀.load c).Full) : H2Pool.InOrder (update s₀.load c l) s₀.activeH2 := by
  obtain ⟨pooled, guards, rfl⟩ := hg.wires
  exact h.inOrder.update (iff_of_false hl hload)

/-- The books are left alone, and no waiter is added. -/
def Kept (s s' : State) : Prop :=
  s'.book = s.book ∧ s'.live ≤ s.live

theorem Kept.rfl : Kept s s := ⟨.refl _, Nat.le_refl _⟩

variable (settings : PoolSettings) (race : List WaiterId) (now : Instant)

theorem returnIdle_spec {conn : HttpConnection} (h : Sendable s.wires 0 conn) :
    ∃ s', returnIdle settings conn race now s = some s' ∧ Streams s'.wires ∧ Kept s s' := by
  have hroom : 1 ≤ s.width conn := by
    cases conn with
    | http1 => exact Nat.le_refl 1
    | http2 c => exact (s.load c).max_pos
  obtain ⟨s', hsend, hstreams, hbook, hlive⟩ := sendConnection_spec settings .idle race now h hroom
  exact ⟨s', hsend, hstreams, hbook, Nat.le_trans hlive (Nat.sub_le ..)⟩

theorem returnConnection_http2_spec (h : Streams w)
    (hg : GivenBack w s₀.wires c) (hopen : s₀.isOpen (.http2 c)) :
    ∃ s', returnConnection settings race now s₀ (.http2 c) = some s'
      ∧ Streams s'.wires ∧ Kept s₀ s' := by
  have hpos := Nat.zero_lt_of_lt (hg.reserved_lt h)
  obtain ⟨l, hrelease, hl, hmax⟩ := H2Load.releaseStreamSlot_of_pos hpos
  have hle := (s₀.load c).active_le
  have hfree : ¬ l.Full := H2Load.not_full_of_lt (by omega)
  rw [returnConnection, hrelease, Option.bind_some]
  by_cases hlast : (s₀.load c).activeStreams - 1 = 0
  · simp only [if_pos hlast]
    exact returnIdle_spec settings race now (hg.mid h (by omega) (hl.trans hlast))
  simp only [if_neg hlast]
  by_cases hatMax : (s₀.load c).Full
  · -- one that is open and in use is in the queue
    have htracked : c ∈ s₀.activeH2 := by
      obtain ⟨pooled, guards, rfl⟩ := hg.wires
      exact List.count_pos_iff.1 (Nat.lt_of_lt_of_eq Nat.one_pos
        ((h.ok c).active_tracked hopen hpos).symm)
    rw [if_pos (beq_iff_eq.2 hatMax)]
    refine ⟨_, rfl, hg.keep h (by omega) hl ?_ ?_, Kept.rfl⟩
    · intro d
      show (s₀.activeH2.markActive c).count d = _
      rw [markActive_of_mem htracked, count_markActiveByLoad]
    · show H2Pool.InOrder _ (s₀.activeH2.markActive c)
      rw [markActive_of_mem htracked]
      exact hg.inOrder_front h hfree
  · rw [if_neg (mt beq_iff_eq.1 hatMax)]
    exact ⟨_, rfl, hg.keep h (by omega) hl (fun _ => rfl)
      (hg.inOrder_same h hfree hatMax), Kept.rfl⟩

theorem returnH2Stream_spec (h : Streams w) (hg : GivenBack w s₀.wires c) :
    ∃ s', returnH2Stream settings c race now s₀ = some s' ∧ Streams s'.wires ∧ Kept s₀ s' := by
  have hpos := Nat.zero_lt_of_lt (hg.reserved_lt h)
  obtain ⟨l, hrelease, hl, hmax⟩ := H2Load.releaseStreamSlot_of_pos hpos
  have hle := (s₀.load c).active_le
  have hfree : ¬ l.Full := H2Load.not_full_of_lt (by omega)
  rw [returnH2Stream, hrelease, Option.bind_some]
  by_cases hlast : (s₀.load c).activeStreams - 1 = 0
  · simp only [if_pos hlast]
    have hmid := hg.mid h (l := l) (by omega) (hl.trans hlast)
    have hgone : c ∉ s₀.activeH2.remove c := by
      obtain ⟨pooled, guards, rfl⟩ := hg.wires
      exact not_mem_remove (h.ok c).tracked_le
    by_cases htracked : c ∈ (s₀.setLoad c l).activeH2
    · rw [if_pos htracked]
      cases hopen : (untrack (s₀.setLoad c l) (.http2 c)).isOpen (.http2 c) with
      | true =>
        exact returnIdle_spec settings race now hmid
      | false =>
        exact ⟨_, rfl, hmid.streams_untracked hgone, Kept.rfl⟩
    · -- dropped when it was found dead
      rw [if_neg htracked]
      have hsame : untrack (s₀.setLoad c l) (.http2 c) = s₀.setLoad c l := by
        simp only [untrack, remove, List.erase_of_not_mem htracked]
      have hstreams := hmid.streams_untracked hgone
      rw [hsame] at hstreams
      exact ⟨_, rfl, hstreams, Kept.rfl⟩
  simp only [if_neg hlast]
  by_cases hatMax : (s₀.load c).Full
  · rw [if_pos (beq_iff_eq.2 hatMax)]
    exact ⟨_, rfl, hg.keep h (by omega) hl
      (fun _ => count_markActiveByLoad) (hg.inOrder_front h hfree),
      Kept.rfl⟩
  · rw [if_neg (mt beq_iff_eq.1 hatMax)]
    exact ⟨_, rfl, hg.keep h (by omega) hl (fun _ => rfl)
      (hg.inOrder_same h hfree hatMax), Kept.rfl⟩

theorem dropPooled_spec (h : Streams s.wires) (hp : p ∈ s.pooled) :
    ∃ s', dropPooled settings p.value race now { s with pooled := s.pooled.erase p } = some s'
      ∧ Streams s'.wires ∧ Kept s s' := by
  cases hvalue : p.value with
  | http1 id =>
    have hstreams : Streams { s with pooled := s.pooled.erase p }.wires := by
      refine h.congr (Nat.le_refl _) rfl rfl fun d => ?_
      refine Wires.view_congr rfl ?_ rfl rfl rfl
      refine congrArg (· + _) (heldOn_erase_of_ne ?_)
      rw [hvalue]
      nofun
    unfold dropPooled
    split
    · exact returnIdle_spec settings race now hstreams
    · exact ⟨_, rfl, hstreams, Kept.rfl⟩
  | http2 c =>
    have hg := givenBack_pooled hp hvalue
    unfold dropPooled
    split
    · rename_i hopen
      exact returnConnection_http2_spec settings race now h hg hopen
    · rename_i hclosed
      exact ⟨_, rfl, hg.dead h (Bool.eq_false_iff.2 hclosed), Kept.rfl⟩

variable {settings : PoolSettings} {s' : State} {token live : Nat} {b : Book}
  (isOpen : HttpConnection → Bool) (capacity : ExpectedCapacity)

-- ======== accounts

/-- The accounts, with so many waiters that have not given up. -/
structure Accounts (settings : PoolSettings) (b : Book) (live : Nat) : Prop where
  connecting : b.connecting = b.shouldConnect.length
  expected : b.expectedConnectingCapacity = b.shouldConnect.sum
  /-- a token promises something -/
  cache_pos : 0 < settings.expectedHttp2Capacity →
    0 < b.perConnectionCapacityCache.expectedCapacity settings.expectedHttp2Capacity
  covered : 0 < settings.expectedHttp2Capacity → live ≤ b.expectedConnectingCapacity

structure Inv (settings : PoolSettings) (s : State) : Prop where
  streams : Streams s.wires
  accounts : Accounts settings s.book s.live

theorem Accounts.kept (h : Accounts settings s.book s.live) (hk : Kept s s') :
    Accounts settings s'.book s'.live := by
  rw [hk.1]
  exact { h with covered := fun hpos => Nat.le_trans hk.2 (h.covered hpos) }

theorem expectedCapacity_guess_pos {n : Nat} (hn : 0 < n) (capacity : ExpectedCapacity) :
    0 < (CapacityCache.guess capacity).expectedCapacity n := by
  cases capacity with
  | http1 => exact Nat.one_pos
  | http2 | auto => exact hn

theorem inv_new : Inv settings (State.new capacity) where
  streams :=
    { ok := fun _ => ⟨Nat.le_refl _, fun _ => rfl, Nat.zero_le _, fun h => h,
        fun _ h => absurd h (Nat.lt_irrefl _), Nat.zero_le _, fun _ => rfl⟩
      fresh := fun _ _ => ⟨rfl, rfl⟩
      inOrder := List.Pairwise.nil }
  accounts :=
    { connecting := rfl
      expected := rfl
      cache_pos := fun hpos => expectedCapacity_guess_pos hpos capacity
      covered := fun _ => Nat.le_refl 0 }

-- ======== checking out

theorem popIdle_cases (timeout : Option Instant) (now : Instant) (list : List Idle) :
    popIdle isOpen timeout now list = none ∨ ∃ skipped entry rest, list = skipped ++ entry :: rest
        ∧ popIdle isOpen timeout now list = some (entry, rest) := by
  fun_induction popIdle isOpen timeout now list with
  | case1 => exact .inl rfl
  | case2 entry list _ ih | case3 entry list _ _ ih =>
    -- an entry that is passed over joins those before it
    refine ih.imp_right ?_
    intro ⟨skipped, entry', rest, hlist, hrest⟩
    exact ⟨entry :: skipped, entry', rest, congrArg (entry :: ·) hlist, hrest⟩
  | case4 entry list => exact .inr ⟨[], entry, list, rfl, rfl⟩

theorem Streams.dropDead (h : Streams s.wires) {dead rest : H2Pool} (hq : s.activeH2 = dead ++ rest)
    (hdead : ∀ d ∈ dead, s.isOpen (.http2 d) = false) :
    Streams { s with activeH2 := rest }.wires := by
  have hcount : ∀ d, s.activeH2.count d = dead.count d + rest.count d := by
    intro d
    rw [hq, count_append]
  refine h.shrink rfl rfl ?_ fun d => ?_
  · show rest.Sublist s.activeH2
    rw [hq]
    exact sublist_append_right dead rest
  · have hle : rest.count d ≤ s.activeH2.count d := by
      rw [hcount]
      omega
    refine { View.Shrinks.rfl (v := s.wires.view d) with
      tracked_le := hle
      tracked_eq := fun hopen => ?_ }
    have hnot : d ∉ dead := fun hmem =>
      Bool.noConfusion ((hdead d hmem).symm.trans hopen)
    show rest.count d = s.activeH2.count d
    rw [hcount, count_eq_zero.2 hnot, Nat.zero_add]

theorem Streams.dropIdle (h : Streams s.wires) (idle : List Idle)
    (hsub : idle.Sublist s.idle) : Streams { s with idle }.wires := by
  refine h.shrink rfl rfl (List.Sublist.refl _) fun d => ?_
  exact { View.Shrinks.rfl (v := s.wires.view d) with
    idle_le := hsub.countP_le }

theorem Streams.reserve (h : Streams s.wires) {l : H2Load} {q : H2Pool} (hmem : c ∈ s.activeH2)
    (hl : l.activeStreams = (s.load c).activeStreams + 1)
    (hcount : ∀ d, q.count d = s.activeH2.count d) (horder : H2Pool.InOrder (update s.load c l) q) :
    Streams ({ s.setLoad c l with activeH2 := q }.checkout (.http2 c)).2.wires := by
  have hok := h.ok c
  have htracked : 0 < (s.wires.view c).tracked := count_pos_iff.2 hmem
  have hpos := hok.tracked_active htracked
  have hview : ({ s.setLoad c l with activeH2 := q }.checkout (.http2 c)).2.wires.view c
      = { s.wires.view c with
          active := (s.wires.view c).active + 1
          reserved := (s.wires.view c).reserved + 1 } := by
    have hupdate : update s.load c l c = l := update_self ..
    unfold Wires.view
    congr 1
    · exact (congrArg H2Load.activeStreams hupdate).trans hl
    · show heldOn (_ :: s.pooled) c + _ = heldOn s.pooled c + _ + 1
      rw [heldOn_cons rfl]
      exact Nat.add_right_comm ..
    · exact hcount c
  refine h.touch (h.lt_of_active hpos) rfl ?_ ?_ horder
  · intro d hd
    refine Wires.view_congr (update_of_ne hd _ _) ?_ (hcount d) rfl rfl
    exact congrArg (· + _) (heldOn_cons_of_ne (by simpa using hd.symm))
  · rw [hview]
    exact
      { reserved_le := Nat.succ_le_succ hok.reserved_le
        reserved_eq := fun htrue => congrArg (· + 1) (hok.reserved_eq htrue)
        tracked_le := hok.tracked_le
        tracked_active := fun _ => Nat.succ_pos _
        active_tracked := fun htrue _ => hok.active_tracked htrue hpos
        idle_le := hok.idle_le
        idle_active := fun hidle =>
          absurd (hok.idle_active hidle) (Nat.ne_of_gt hpos) }

/-- The last idle connection, an HTTP/2 one, is checked out while no other
one has a stream free. -/
theorem Streams.reuse (h : Streams s.wires) {idle : List Idle}
    {entry : Idle} (hidle : s.idle = idle ++ [entry]) (hvalue : entry.value = .http2 c)
    (hfull : ∀ d ∈ s.activeH2, (s.load d).Full) :
    Streams ((maybeInsertNew { s with idle } true (.http2 c)).checkout (.http2 c)).2.wires := by
  have hok := h.ok c
  have hidling : ∀ d, (s.wires.view d).idle = idle.countP (·.value = .http2 d)
        + [entry].countP (·.value = .http2 d) := by
    intro d
    show s.idle.countP _ = _
    rw [hidle, countP_append]
  have hentry : [entry].countP (·.value = .http2 c) = 1 :=
    countP_cons_of_pos (decide_eq_true hvalue)
  have hcount := hidling c
  have hactive : (s.wires.view c).active = 0 := hok.idle_active (by omega)
  have hreserved : (s.wires.view c).reserved = 0 := Nat.le_zero.1 (hactive ▸ hok.reserved_le)
  have htracked : (s.wires.view c).tracked = 0 := by
    have := hok.tracked_active
    omega
  have hrest : idle.countP (·.value = .http2 c) = 0 := by
    have hle := hok.idle_le
    omega
  have hnot : c ∉ s.activeH2 := count_eq_zero.1 htracked
  have hknown : c < s.nextConn := by
    refine Nat.lt_of_not_le fun hle => ?_
    have hfresh := (h.fresh c hle).2
    omega
  have hzero : (s.load c).activeStreams = 0 := hactive
  obtain ⟨l, hl, -, hres⟩ := H2Load.tryReserveStreamSlot_of_lt
    (l := s.load c) (by rw [hzero]; exact (s.load c).max_pos)
  have hload : (s.load c).tryReserveStreamSlot.2 = l := by
    obtain ⟨heq, -⟩ | ⟨heq, -⟩ := hres
    all_goals rw [heq]
  have hupdate : update s.load c (s.load c).tryReserveStreamSlot.2 c = l := by
    rw [update_self, hload]
  refine h.touch hknown rfl ?_ ?_ ?_
  · intro d hd
    refine Wires.view_congr (update_of_ne hd _ _) ?_ ?_ ?_ rfl
    · exact congrArg (· + _) (heldOn_cons_of_ne (by simpa using hd.symm))
    · exact count_cons_of_ne hd.symm
    · have hentry : [entry].countP (·.value = .http2 d) = 0 :=
        countP_cons_of_neg (by rw [hvalue]; simpa using hd.symm)
      have hcount := hidling d
      show idle.countP _ = (s.wires.view d).idle
      omega
  · have hreserved : heldOn s.pooled c + s.guards.count c = 0 := hreserved
    have hview : ((maybeInsertNew { s with idle } true (.http2 c)).checkout
        (.http2 c)).2.wires.view c = ⟨1, 1, 1, 0, s.isOpen (.http2 c)⟩ := by
      unfold Wires.view
      congr 1
      · exact (congrArg H2Load.activeStreams hupdate).trans (by rw [hl, hzero])
      · show heldOn (_ :: s.pooled) c + s.guards.count c = 1
        rw [heldOn_cons rfl]
        omega
      · show (c :: s.activeH2).count c = 1
        rw [count_cons_self, count_eq_zero.2 hnot]
    rw [hview]
    exact ⟨Nat.le_refl 1, fun _ => rfl, Nat.le_refl 1, fun _ => Nat.one_pos,
      fun _ _ => rfl, Nat.zero_le 1, fun hpos => absurd hpos (Nat.lt_irrefl 0)⟩
  · -- full or not, it goes in front of full ones only
    show H2Pool.InOrder (update s.load c _) (c :: s.activeH2)
    have hothers : ∀ d ∈ s.activeH2, (update s.load c
        (s.load c).tryReserveStreamSlot.2 d).Full := by
      intro d hd
      have hne : d ≠ c := fun heq => hnot (heq ▸ hd)
      rw [update_of_ne hne]
      exact hfull d hd
    by_cases hlast : l.Full
    · exact Ordered.of_all (forall_mem_cons.2 ⟨hupdate.symm ▸ hlast, hothers⟩)
    · exact (Ordered.of_all hothers).cons (hupdate.symm ▸ hlast)

theorem inv_registerWaker (h : Inv settings s) : Inv settings (registerWaker settings s).2 := by
  have hlive : (s.waiters.filter (· ∉ s.canceled)).length = s.live := by
    rw [← countP_eq_length_filter]
    rfl
  have hadd : live s.canceled
      (s.waiters.filter (· ∉ s.canceled) ++ [s.nextWaiter]) ≤ s.live + 1 := by
    unfold live
    rw [← hlive, countP_append]
    exact Nat.add_le_add countP_le_length countP_le_length
  have hacc := h.accounts
  have hexpected : s.expectedConnectingCapacity = s.shouldConnect.sum := hacc.expected
  by_cases hpending : s.expectedConnectingCapacity ≤ (s.waiters.filter (· ∉ s.canceled)).length
  · simp only [registerWaker, if_pos hpending]
    refine ⟨h.streams, ?_⟩
    constructor
    case connecting => exact congrArg (· + 1) hacc.connecting
    case expected =>
      show s.expectedConnectingCapacity + _ = (_ :: s.shouldConnect).sum
      rw [hexpected, sum_cons, Nat.add_comm]
    case cache_pos => exact hacc.cache_pos
    case covered =>
      intro hpos
      have hcovered : s.live ≤ s.expectedConnectingCapacity := hacc.covered hpos
      refine Nat.le_trans hadd (Nat.add_le_add hcovered (hacc.cache_pos hpos))
  · simp only [registerWaker, if_neg hpending]
    refine ⟨h.streams, { hacc with covered := fun _ => ?_ }⟩
    refine Nat.le_trans hadd ?_
    rw [hlive] at hpending
    exact Nat.lt_of_not_le hpending

theorem inv_checkout (h : Inv settings s) (now : Instant) :
    Inv settings (checkoutOrRegisterWaker settings now s).2 := by
  obtain ⟨dead, rest, hq, hdead, hcases⟩ := H2Pool.reserve_cases
    (fun c => s.isOpen (.http2 c)) s.load s.activeH2
  have hstreams := h.streams.dropDead hq hdead
  -- what is left of the queue is full when nothing was reserved
  have hnone : s.activeH2.reserve (fun c => s.isOpen (.http2 c)) s.load
      = (none, rest) → (∀ d ∈ rest, (s.load d).Full) →
      Inv settings (checkoutOrRegisterWaker settings now s).2 := by
    intro hreserve hfull
    unfold checkoutOrRegisterWaker
    rw [hreserve]
    obtain hpop | ⟨skipped, entry, left, hlist, hpop⟩ := popIdle_cases s.isOpen
      settings.timeout now s.idle.reverse
    · simp only [hpop]
      exact inv_registerWaker ⟨hstreams.dropIdle [] (nil_sublist _), h.accounts⟩
    · simp only [hpop]
      refine ⟨?_, ?_⟩
      · have hidle : s.idle = left.reverse ++ [entry] ++ skipped.reverse := by
          rw [← reverse_reverse s.idle, hlist]
          simp
        have hstreams := hstreams.dropIdle (left.reverse ++ [entry]) (by
          show List.Sublist _ s.idle
          rw [hidle]
          exact sublist_append_left ..)
        cases hvalue : entry.value with
        | http1 =>
          refine Streams.congr (hstreams.dropIdle left.reverse
            (sublist_append_left ..)) (Nat.le_refl _) rfl rfl fun d => ?_
          refine Wires.view_congr rfl ?_ rfl rfl rfl
          exact congrArg (· + _) (heldOn_cons_of_ne nofun)
        | http2 c => exact hstreams.reuse rfl hvalue hfull
      · cases entry.value <;> exact h.accounts
  obtain ⟨hrest, hreserve⟩ | ⟨c, q, hrest, -, hcases⟩ := hcases
  · subst hrest
    exact hnone hreserve nofun
  subst hrest
  obtain ⟨hfull, hreserve⟩ | ⟨l, hl, hmax, hcases⟩ := hcases
  · exact hnone hreserve (Ordered.all_of_head hstreams.inOrder hfull)
  have hle := l.active_le
  have hfree : ¬ (s.load c).Full := H2Load.not_full_of_lt (by omega)
  have hnot : c ∉ q := by
    have hone : (c :: q).count c ≤ 1 := (hstreams.ok c).tracked_le
    rw [count_cons_self] at hone
    exact count_eq_zero.1 (by omega)
  unfold checkoutOrRegisterWaker
  obtain ⟨hfull, hreserve⟩ | ⟨hfull, hreserve⟩ := hcases
  · -- the last stream: to the back
    rw [hreserve]
    refine ⟨hstreams.reserve mem_cons_self hl ?_ ?_, h.accounts⟩
    · intro d
      exact (perm_append_singleton c q).count_eq d
    · have htail : H2Pool.InOrder s.load q :=
        hstreams.inOrder.sublist (sublist_cons_self c q)
      exact Ordered.concat (htail.update_of_not_mem hnot)
        (show (update s.load c l c).Full by rwa [update_self])
  · rw [hreserve]
    refine ⟨hstreams.reserve mem_cons_self hl (fun _ => rfl) ?_, h.accounts⟩
    exact hstreams.inOrder.update (iff_of_false hfull hfree)

-- ======== connecting

theorem update_http1 (id : ConnId) (b : Bool) (d : ConnId) :
    update isOpen (.http1 id) b (.http2 d) = isOpen (.http2 d) := by
  rw [update_of_ne]
  nofun

theorem Streams.insert (h : Streams s.wires) (maxStreams : Nat) :
    Mid { s.setLoad s.nextConn (H2Load.new maxStreams) with
      nextConn := s.nextConn + 1
      isOpen := update s.isOpen (.http2 s.nextConn) true
      activeH2 := s.nextConn :: s.activeH2 }.wires s.nextConn 0 := by
  have hok := h.ok s.nextConn
  have hfresh := h.fresh s.nextConn (Nat.le_refl _)
  have htracked : (s.wires.view s.nextConn).tracked = 0 := by
    have := hok.tracked_active
    omega
  have hnot : s.nextConn ∉ s.activeH2 := count_eq_zero.1 htracked
  have hone : (s.nextConn :: s.activeH2).count s.nextConn = 1 := by
    rw [count_cons_self, count_eq_zero.2 hnot]
  have horder : H2Pool.InOrder (update s.load s.nextConn (H2Load.new maxStreams)) s.activeH2 :=
    h.inOrder.update_of_not_mem hnot
  have hothers : ∀ d, d ≠ s.nextConn → { s.setLoad s.nextConn (H2Load.new maxStreams) with
        nextConn := s.nextConn + 1
        isOpen := update s.isOpen (.http2 s.nextConn) true
        activeH2 := s.nextConn :: s.activeH2 }.wires.view d
      = s.wires.view d := by
    intro d hd
    refine Wires.view_congr (update_of_ne hd _ _) rfl (count_cons_of_ne hd.symm) rfl ?_
    exact update_of_ne (by simpa using hd) _ _
  constructor
  case known => exact Nat.lt_succ_self _
  case others =>
    intro d hd
    rw [hothers d hd]
    exact h.ok d
  case fresh =>
    intro d hd
    rw [hothers d (Nat.ne_of_gt hd)]
    exact h.fresh d (Nat.le_of_lt hd)
  case active =>
    show (update s.load s.nextConn _ s.nextConn).activeStreams = 0
    rw [update_self]
    rfl
  case reserved => exact Nat.le_zero.1 (hfresh.1 ▸ hok.reserved_le)
  case idle => exact hfresh.2
  case tracked_le => exact Nat.le_of_eq hone
  case tracked => omega
  case rest =>
    show H2Pool.InOrder _ (List.erase (s.nextConn :: s.activeH2) _)
    rw [erase_cons_head]
    exact horder
  case inOrder =>
    intro _
    refine Ordered.cons horder ?_
    show ¬ (update s.load s.nextConn _ s.nextConn).Full
    rw [update_self]
    exact H2Load.not_full_of_lt (H2Load.new maxStreams).max_pos

theorem establish_spec (h : Streams s.wires) (conn : NewConnection) :
    ∃ conn' s', s.establish conn = (conn', s')
      ∧ Sendable (maybeInsertNew s' false conn').wires 0 conn'
      ∧ (maybeInsertNew s' false conn').width conn' = s'.capacity conn'
      ∧ 0 < s'.capacity conn' ∧ s'.book = s.book ∧ s'.waiters = s.waiters := by
  refine ⟨_, _, rfl, ?_⟩
  cases conn with
  | http1 =>
    refine ⟨?_, rfl, Nat.one_pos, rfl, rfl⟩
    refine Streams.congr h (Nat.le_succ _) rfl rfl fun d => ?_
    exact Wires.view_congr rfl rfl rfl rfl (update_http1 s.isOpen s.nextConn true d)
  | http2 maxStreams =>
    have hload : (s.establish (.http2 maxStreams)).2.load s.nextConn
        = H2Load.new maxStreams := update_self ..
    have hcapacity : (s.establish (.http2 maxStreams)).2.capacity
        (.http2 s.nextConn) = (H2Load.new maxStreams).maxStreams :=
      congrArg H2Load.remainingCapacity hload
    refine ⟨h.insert maxStreams, ?_, ?_, rfl, rfl⟩
    · exact (congrArg H2Load.maxStreams hload).trans hcapacity.symm
    · exact hcapacity ▸ (H2Load.new maxStreams).max_pos

/-- A token is taken back: what it stands for is at hand, and what is left
is what the others stand for. -/
theorem Accounts.take (h : Accounts settings b live) (htoken : token ∈ b.shouldConnect) :
    b.connecting = (b.shouldConnect.erase token).length + 1
      ∧ b.expectedConnectingCapacity = (b.shouldConnect.erase token).sum + token := by
  have hpos := length_pos_of_mem htoken
  refine ⟨?_, ?_⟩
  · rw [h.connecting, length_erase_of_mem htoken]
    omega
  · rw [h.expected, (perm_cons_erase htoken).sum_eq, sum_cons, Nat.add_comm]

theorem Accounts.redeem {b' : Book} {live' : Nat}
    (h : Accounts settings b live) (htoken : token ∈ b.shouldConnect)
    (hconnecting : b'.connecting = b.connecting - 1)
    (hexpected : b'.expectedConnectingCapacity = b.expectedConnectingCapacity - token)
    (htokens : b'.shouldConnect = b.shouldConnect.erase token)
    (hcache : 0 < settings.expectedHttp2Capacity → 0 <
      b'.perConnectionCapacityCache.expectedCapacity settings.expectedHttp2Capacity)
    (hlive : live' ≤ live - token) : Accounts settings b' live' := by
  obtain ⟨hconnecting₀, hexpected₀⟩ := h.take htoken
  refine ⟨?_, ?_, hcache, fun hpos => ?_⟩
  · rw [htokens]
    omega
  · rw [htokens]
    omega
  · have hcovered := h.covered hpos
    omega

section

variable (h : Inv settings s)
include h

theorem inv_forget (htoken : token ∈ s.shouldConnect) (err : Option Strng)
    (race : List WaiterId) : ∃ s', forgetPendingConnection token err false race
        { s with shouldConnect := s.shouldConnect.erase token } = some s'
      ∧ Inv settings s' := by
  obtain ⟨hconnecting, hexpected⟩ := h.accounts.take htoken
  obtain ⟨s', hforget, hwires, hbook, hlive⟩ := forgetPendingConnection_spec
    (s := { s with shouldConnect := s.shouldConnect.erase token })
    token err false race
    (fun _ => Nat.lt_of_lt_of_eq (Nat.succ_pos _) hconnecting.symm)
    (Nat.le_trans (Nat.le_add_left _ _) (Nat.le_of_eq hexpected.symm))
  refine ⟨s', hforget, hwires.symm ▸ h.streams, ?_⟩
  rw [hbook]
  exact h.accounts.redeem htoken rfl rfl rfl h.accounts.cache_pos hlive

theorem inv_insertNewConnection (htoken : token ∈ s.shouldConnect) (conn : NewConnection)
    (race : List WaiterId) (now : Instant) :
    ∃ s', insertNewConnection settings token (s.establish conn).1 race now
        { (s.establish conn).2 with
          shouldConnect := (s.establish conn).2.shouldConnect.erase token }
        = some s' ∧ Inv settings s' := by
  obtain ⟨conn', s₀, hestablish, hsend, hwidth, hcapacity, hbook, hwaiters⟩ :=
    establish_spec h.streams conn
  have htokens : s₀.shouldConnect = s.shouldConnect := congrArg Book.shouldConnect hbook
  have hacc : Accounts settings s₀.book s.live := hbook.symm ▸ h.accounts
  have hlive₀ : s₀.live = s.live := by
    have hcanceled : s₀.canceled = s.canceled := congrArg Book.canceled hbook
    show live s₀.canceled s₀.waiters = live s.canceled s.waiters
    rw [hcanceled, hwaiters]
  rw [← htokens] at htoken
  rw [hestablish]
  obtain ⟨hconnecting, hexpected⟩ := hacc.take htoken
  have hconnecting : s₀.connecting = (s₀.shouldConnect.erase token).length + 1 := hconnecting
  have hexpected : s₀.expectedConnectingCapacity
      = (s₀.shouldConnect.erase token).sum + token := hexpected
  -- the connection goes to as many waiters as it has room for
  let s₁ : State := { s₀ with
    connecting := s₀.connecting - 1
    expectedConnectingCapacity := s₀.expectedConnectingCapacity - min (s₀.capacity conn') token
    shouldConnect := s₀.shouldConnect.erase token }
  have hwires : (maybeInsertNew s₁ false conn').wires = (maybeInsertNew s₀ false conn').wires := by
    cases conn' <;> rfl
  have hwidth₁ : s₀.capacity conn' ≤ (maybeInsertNew s₁ false conn').width conn' := by
    rw [← hwidth]
    cases conn' <;> exact Nat.le_refl _
  have hbook₁ : (maybeInsertNew s₁ false conn').book = s₁.book := by
    cases conn' <;> rfl
  have hlive₁ : (maybeInsertNew s₁ false conn').live = s.live := by
    rw [← hlive₀]
    cases conn' <;> rfl
  obtain ⟨s₂, hsent, hstreams, hbook₂, hlive₂⟩ := sendConnection_spec settings
    .new race now (hwires.symm ▸ hsend) hwidth₁
  have hbook₂ := hbook₂.trans hbook₁
  have hconnecting₂ : s₂.connecting = s₀.connecting - 1 := congrArg Book.connecting hbook₂
  have hexpected₂ : s₂.expectedConnectingCapacity
      = s₀.expectedConnectingCapacity - min (s₀.capacity conn') token :=
    congrArg Book.expectedConnectingCapacity hbook₂
  have htokens₂ : s₂.shouldConnect = s₀.shouldConnect.erase token :=
    congrArg Book.shouldConnect hbook₂
  have hinsert : insertNewConnection settings token conn' race now
      { s₀ with shouldConnect := s₀.shouldConnect.erase token }
      = if s₀.capacity conn' < token then
          forgetPendingConnection (token - s₀.capacity conn') none true race
            { s₂ with perConnectionCapacityCache := .cached (s₀.capacity conn') }
        else some s₂ := by
    have hsame : State.capacity
        { s₀ with shouldConnect := s₀.shouldConnect.erase token } conn'
        = s₀.capacity conn' := by
      cases conn' <;> rfl
    have hconnecting₁ := checkedSub_of_le (a := s₀.connecting) (b := 1) (by omega)
    have hexpected₁ := checkedSub_of_le (a := s₀.expectedConnectingCapacity)
      (b := min (s₀.capacity conn') token) (by omega)
    simp only [insertNewConnection, hsame, hconnecting₁, hexpected₁, Option.bind_some]
    exact congrArg (Option.bind · _) hsent
  rw [hinsert]
  by_cases hunder : s₀.capacity conn' < token
  · -- and the rest is told that there is no more
    rw [if_pos hunder]
    obtain ⟨s', hforget, hwires', hbook', hlive'⟩ := forgetPendingConnection_spec
      (s := { s₂ with perConnectionCapacityCache := .cached (s₀.capacity conn') })
      (token - s₀.capacity conn') none true race nofun
      (by
        show token - s₀.capacity conn' ≤ s₂.expectedConnectingCapacity
        omega)
    refine ⟨s', hforget, hwires'.symm ▸ hstreams, ?_⟩
    rw [hbook']
    have hlive' : s'.live ≤ s₂.live - (token - s₀.capacity conn') := hlive'
    refine hacc.redeem htoken hconnecting₂ ?_ htokens₂ (fun _ => hcapacity) (by omega)
    show s₂.expectedConnectingCapacity - _ = s₀.expectedConnectingCapacity - token
    omega
  · rw [if_neg hunder]
    refine ⟨s₂, rfl, hstreams, hacc.redeem htoken hconnecting₂ ?_ htokens₂ ?_ (by omega)⟩
    · show s₂.expectedConnectingCapacity = s₀.expectedConnectingCapacity - token
      omega
    · rw [hbook₂]
      exact hacc.cache_pos

-- ======== other steps

theorem inv_cancel (txs : List WaiterId) : Inv settings (s.cancel txs) := by
  have hlive : (s.cancel txs).live ≤ s.live := by
    refine countP_mono_left fun tx _ hnot => ?_
    have hnot : tx ∉ (s.cancel txs).canceled := of_decide_eq_true hnot
    exact decide_eq_true fun hmem => hnot (mem_append_right _ hmem)
  refine ⟨h.streams, ?_⟩
  exact { h.accounts with
    covered := fun hpos => Nat.le_trans hlive (h.accounts.covered hpos) }

theorem inv_intoH2Parts {p : Pooled} (hp : p ∈ s.pooled) (hc : p.value = .http2 c) :
    Inv settings { s with
      pooled := s.pooled.erase p
      guards := c :: s.guards } := by
  refine ⟨h.streams.congr (Nat.le_refl _) rfl rfl fun d => ?_, h.accounts⟩
  refine Wires.view_congr rfl ?_ rfl rfl rfl
  show heldOn (s.pooled.erase p) d + (c :: s.guards).count d = heldOn s.pooled d + s.guards.count d
  by_cases hd : d = c
  · subst hd
    rw [← heldOn_erase hp hc, count_cons_self]
    omega
  · rw [heldOn_erase_of_ne (by rw [hc]; simpa using Ne.symm hd), count_cons_of_ne (Ne.symm hd)]

theorem inv_close (conn : HttpConnection) :
    Inv settings { s with isOpen := update s.isOpen conn false } := by
  refine ⟨h.streams.shrink rfl rfl (List.Sublist.refl _) fun d => ?_, h.accounts⟩
  refine { View.Shrinks.rfl (v := s.wires.view d) with
    tracked_eq := fun _ => rfl
    isOpen := fun hopen => ?_ }
  have hopen : update s.isOpen conn false (.http2 d) := hopen
  by_cases hd : .http2 d = conn
  · rw [hd, update_self] at hopen
    cases hopen
  · rwa [update_of_ne hd] at hopen

theorem inv_ready (id : ConnId) : Inv settings
      { s with isOpen := update s.isOpen (.http1 id) true } := by
  refine ⟨h.streams.congr (Nat.le_refl _) rfl rfl fun d => ?_, h.accounts⟩
  exact Wires.view_congr rfl rfl rfl rfl (update_http1 s.isOpen id true d)

theorem inv_clearExpired (capacity : ExpectedCapacity)
    (now : Instant) : Inv settings (clearExpired settings capacity now s) := by
  cases htimeout : settings.timeout with
  | none =>
    simp only [clearExpired, htimeout]
    exact h
  | some dur =>
    have hstreams := h.streams.dropIdle (s.idle.filter fun entry =>
        s.isOpen entry.value && !decide (dur < now - entry.idleAt))
      filter_sublist
    simp only [clearExpired, htimeout]
    split
    · -- nothing is left, so nothing is expected either
      rename_i hempty
      obtain ⟨hidle, hq, hconnecting, hwaiters⟩ := hempty
      have htokens : s.shouldConnect = [] := by
        refine eq_nil_of_length_eq_zero ?_
        exact h.accounts.connecting.symm.trans hconnecting
      rw [hidle] at hstreams
      refine ⟨?_, ?_⟩
      · refine hstreams.congr (Nat.le_refl _) rfl hq.symm fun d => ?_
        refine Wires.view_congr rfl rfl ?_ rfl rfl
        show count d [] = s.activeH2.count d
        rw [hq]
      · constructor
        case connecting => exact (congrArg length htokens).symm
        case expected => exact (congrArg sum htokens).symm
        case cache_pos => exact fun hpos => expectedCapacity_guess_pos hpos _
        case covered => exact fun _ => Nat.le_refl 0
    · exact ⟨hstreams, h.accounts⟩

end

-- ======== runs

theorem inv_step (h : Inv settings s) (op : Op) :
    ∃ s', step settings capacity s op = some s' ∧ Inv settings s' := by
  -- whoever gives up during a step is gone after it
  have hcancel : ∀ {r : Option State} (race : List WaiterId),
      (∃ s', r = some s' ∧ Inv settings s') →
      ∃ s', r.map (·.cancel race) = some s' ∧ Inv settings s' := by
    intro r race ⟨s', hr, h'⟩
    exact ⟨_, congrArg (Option.map _) hr, inv_cancel h' race⟩
  -- a step that is not enabled does nothing
  have henabled : ∀ {p : Prop} [Decidable p] {r : Option State},
      (p → ∃ s', r = some s' ∧ Inv settings s') →
      ∃ s', (if p then r else some s) = some s' ∧ Inv settings s' := by
    intro p _ r hr
    split
    · next hp => exact hr hp
    · exact ⟨s, rfl, h⟩
  cases op with
  | checkout now => exact ⟨_, rfl, inv_checkout h now⟩
  | insertNewConnection token conn race now =>
    exact henabled fun htoken =>
      hcancel race (inv_insertNewConnection h htoken conn race now)
  | insertNewConnectionError token err race =>
    exact henabled fun htoken => hcancel race (inv_forget h htoken (some err) race)
  | dropShouldConnect token race =>
    exact henabled fun htoken => hcancel race (inv_forget h htoken none race)
  | dropPooled pooled race now =>
    refine henabled fun hp => hcancel race ?_
    obtain ⟨s', hdrop, hstreams, hkept⟩ := dropPooled_spec settings race now h.streams hp
    exact ⟨s', hdrop, hstreams, h.accounts.kept hkept⟩
  | intoH2Parts pooled c =>
    exact henabled fun hp => ⟨_, rfl, inv_intoH2Parts h hp.1 hp.2⟩
  | dropGuard c race now =>
    refine henabled fun hc => hcancel race ?_
    obtain ⟨s', hdrop, hstreams, hkept⟩ :=
      returnH2Stream_spec settings race now h.streams (givenBack_guard hc)
    exact ⟨s', hdrop, hstreams, h.accounts.kept hkept⟩
  | cancel tx => exact ⟨_, rfl, inv_cancel h [tx]⟩
  | close conn => exact ⟨_, rfl, inv_close h conn⟩
  | ready id => exact ⟨_, rfl, inv_ready h id⟩
  | clearExpired now => exact ⟨_, rfl, inv_clearExpired h capacity now⟩

theorem inv_run (settings : PoolSettings) (capacity : ExpectedCapacity) (ops : List Op) :
    ∃ s, run settings capacity ops = some s ∧ Inv settings s := by
  exact foldlM_inv (fun op h => inv_step capacity h op) ops (inv_new capacity)

end AgentGateway.Pool
