/-
What one turn of a call can do, and what becomes of the tokens.

`Turn` lists the turns a call can take, one constructor for each kind of
atomic operation that matters, with what the code has checked before it;
all proofs about `Call.next` go through it. The first of them is `Flow`:
whatever the interleaving, what has been granted since any moment was
available at that moment, or was refilled or given back since.

No interval is taken twice, or before it has elapsed. `OnTime` couples
`refillAt` with the intervals all refills have taken so far: it is the end
of the first interval that none has. A refill that wins the exchange takes
all intervals from there up to its reading of the clock. This is arithmetic
on words, and right as long as the clock stays a whole interval below the
end of the word.

By `Flow` no more is granted than was there at first, was refilled, or
was given back; by `OnTime` refills take each elapsed interval once. What
is left is that a refill adds no more than the amount of the intervals it
took: what refills have added and still owe is within what the intervals
taken are worth.

A refill adds what was missing to the capacity when it read `available`.
If more than the capacity was available then, that number is negative and
wraps around, and the addition is a subtraction. It is one as long as the
surplus is still there (`Conserving`). If calls took it in between, the
bucket wraps around to almost the whole word.

The bucket stays within its capacity as long as a refill that adds finds no
more than it read, what is given back fits, and the sums of the refill do
not wrap (`WithinBurst`). Then what is granted in any window of time is at
most the capacity, with what is refilled and given back in it; if nothing is
given back, the capacity with what is refilled.
-/
import AgentGateway.RateLimit.Limiter
import AgentGateway.Lib.Run
import Mathlib.Data.List.Nodup

namespace AgentGateway.RateLimit

open Lib

-- ======== accounts

def Call.granted : Call → Nat
  | .returned (.granted n) => n.toNat
  | _ => 0

def Call.givenBack : Call → Nat
  | .returned (.amended k) => if k < 0 then (unsignedAbs k).toNat else 0
  | _ => 0

/-- The tokens a refill may still add. -/
def Call.owed (p : Parameters) : Call → Nat
  | .refillLoad _ intervals => intervals.toNat * p.refillAmount.toNat
  | .refillAdd _ amount _ => amount.toNat
  | _ => 0

/-- A call that has no account. -/
structure Call.Idle (c : Call) : Prop where
  granted : c.granted = 0
  givenBack : c.givenBack = 0
  owed : ∀ p, c.owed p = 0

/-- An idle call whose local variables do not matter. -/
def Call.Plain : Call → Prop
  | .refillLoop .. | .refillExchange .. | .refillLoad .. | .refillAdd .. => False
  | .acquireExchange .. => False
  | .returned (.granted _) => False
  | .returned (.amended k) => ¬ k < 0
  | _ => True

variable {c : Call}

theorem Call.Plain.idle (h : c.Plain) : c.Idle := by
  cases c with
  | returned o =>
    cases o with
    | granted n => cases h
    | amended k => exact ⟨rfl, if_neg h, fun _ => rfl⟩
    | _ => exact ⟨rfl, rfl, fun _ => rfl⟩
  | refillLoad | refillAdd => cases h
  | _ => exact ⟨rfl, rfl, fun _ => rfl⟩

theorem plain_resume (result : Option UInt64) (caller : Caller) : (caller.resume result).Plain := by
  cases caller <;> trivial

-- ======== turns

/-- The turns of a call. -/
inductive Turn (l : Ratelimiter) (now : UInt64) : Call → Ratelimiter → Call → Prop
  | quiet {c c' : Call} (dropped : UInt64) (hc : c.Idle) (hc' : c'.Plain)
      (hadd : ∀ l', c.refilled l l' = 0) (hcredit : c.credit l = []) :
      Turn l now c { l with dropped := dropped } c'
  | clock (caller : Caller) : Turn l now (.refill caller) l (.refillLoop caller now)
  | due {caller : Caller} {time : UInt64} (hdue : l.refillAt ≤ time)
      (hne : l.parameters.refillInterval ≠ 0) :
      Turn l now (.refillLoop caller time) l (.refillExchange caller time l.refillAt)
  | raced {caller : Caller} {time refillAt : UInt64}
      (hne : l.refillAt ≠ refillAt) :
      Turn l now (.refillExchange caller time refillAt) l (.refillLoop caller time)
  | taken (caller : Caller) (time : UInt64) :
      Turn l now (.refillExchange caller time l.refillAt) { l with
          refillAt := l.refillAt + intervalsDue l.parameters time l.refillAt
            * l.parameters.refillInterval }
        (.refillLoad caller (intervalsDue l.parameters time l.refillAt))
  | loaded (caller : Caller) (intervals : UInt64) :
      Turn l now (.refillLoad caller intervals) l
        (.refillAdd caller (intervals * l.parameters.refillAmount) l.available)
  | added {caller : Caller} {amount available : UInt64} {c' : Call}
      (hc' : c'.Plain) :
      Turn l now (.refillAdd caller amount available) { l with
          available := l.available + tokensToAdd l.parameters amount available } c'
  | enough {n : UInt64} {result : Option UInt64} (hn : n ≤ l.available) :
      Turn l now (.acquireLoad n result) l (.acquireExchange n result l.available)
  | granted (n : UInt64) (result : Option UInt64) :
      Turn l now (.acquireExchange n result l.available)
        { l with available := l.available - n } (.returned (.granted n))
  | amended (k : Int64) :
      Turn l now (.amendExchange k l.available) { l with available := amended k l.available }
        (.returned (.amended k))

variable {now : UInt64} {p : Parameters} {intervals : Nat} {c' : Call}

theorem turn_of_next {l l' : Ratelimiter}
    (h : c.next l now = some (l', c')) : Turn l now c l' c' := by
  cases c with
  | requested request =>
    have hquiet : ∀ {c'}, c'.Plain → Turn l now (.requested request) l c' :=
      fun hc' => .quiet l.dropped ⟨rfl, rfl, fun _ => rfl⟩ hc' (fun _ => rfl) rfl
    cases request with
    | tryWaitN n =>
      rw [Call.next] at h
      split at h <;> cases h <;> exact hquiet trivial
    | available | availableRefill =>
      cases h
      exact hquiet trivial
    | amendTokens k =>
      rw [Call.next] at h
      split at h <;> cases h
      · next hk =>
        subst hk
        exact hquiet (show ¬ (0 : Int64) < 0 by decide)
      · exact hquiet trivial
  | refill caller =>
    cases h
    exact .clock caller
  | refillLoop caller time =>
    have hquiet : ∀ {c'}, c'.Plain → Turn l now (.refillLoop caller time) l c' :=
      fun hc' => .quiet l.dropped ⟨rfl, rfl, fun _ => rfl⟩ hc' (fun _ => rfl) rfl
    rw [Call.next] at h
    split at h
    · cases h
      exact hquiet (plain_resume _ _)
    · next hdue =>
      split at h <;> cases h
      · exact hquiet trivial
      · next hne => exact .due (UInt64.not_lt.1 hdue) hne
  | refillExchange caller time refillAt =>
    rw [Call.next] at h
    split at h <;> cases h
    · next heq =>
      subst heq
      exact .taken caller time
    · next hne => exact .raced hne
  | refillLoad caller intervals =>
    cases h
    exact .loaded caller intervals
  | refillAdd caller amount available =>
    rw [Call.next] at h
    split at h <;> cases h
    · exact .added trivial
    · exact .added (plain_resume _ _)
  | refillDropped caller tokens =>
    cases h
    exact .quiet _ ⟨rfl, rfl, fun _ => rfl⟩ (plain_resume _ _) (fun _ => rfl) rfl
  | acquireLoad n result =>
    have hquiet : ∀ {c'}, c'.Plain → Turn l now (.acquireLoad n result) l c' :=
      fun hc' => .quiet l.dropped ⟨rfl, rfl, fun _ => rfl⟩ hc' (fun _ => rfl) rfl
    cases result <;> rw [Call.next] at h <;> split at h <;> cases h
    · exact hquiet trivial
    · next hn => exact .enough (UInt64.not_lt.1 hn)
    · exact hquiet trivial
    · next hn => exact .enough (UInt64.not_lt.1 hn)
  | acquireExchange n result available =>
    rw [Call.next] at h
    split at h <;> cases h
    · next heq =>
      subst heq
      exact .granted n result
    · exact .quiet l.dropped ⟨rfl, rfl, fun _ => rfl⟩ trivial (fun _ => rfl) rfl
  | load =>
    cases h
    exact .quiet l.dropped ⟨rfl, rfl, fun _ => rfl⟩ trivial (fun _ => rfl) rfl
  | amendExchange k prev =>
    rw [Call.next] at h
    split at h <;> cases h
    · next heq =>
      subst heq
      exact .amended k
    · exact .quiet l.dropped ⟨rfl, rfl, fun _ => rfl⟩ trivial (fun _ => rfl) rfl
  | returned | panicked => cases h

namespace State

theorem step_run {s s' : State} {i : Nat} (hs : s.step (.run i) = some s') :
    ∃ c l c', s.calls[i]? = some c ∧ Turn s.limiter s.now c l c' ∧ s' = { s with
        limiter := l
        calls := s.calls.set i c'
        credits := s.credits ++ c.credit s.limiter
        refilled := s.refilled + c.refilled s.limiter l } := by
  obtain ⟨c, hc, hs⟩ := Option.bind_eq_some_iff.1 hs
  obtain ⟨⟨l, c'⟩, hnext, hs⟩ := Option.bind_eq_some_iff.1 hs
  exact ⟨c, l, c', hc, turn_of_next hnext, (Option.some.inj hs).symm⟩

theorem step_tick {s s' : State} (hs : s.step (.tick now) = some s') :
    s.now ≤ now ∧ s' = { s with now := now } := by
  rw [step] at hs
  split at hs
  · next hle => exact ⟨hle, (Option.some.inj hs).symm⟩
  · cases hs

end State

-- ======== flow

/-- What the code has checked before an exchange, and what bounds a
refill under way. -/
def Call.Sound (p : Parameters) (now : UInt64) (credited : Nat) : Call → Prop
  | .refillLoop _ time => time ≤ now
  | .refillExchange _ time refillAt =>
    time ≤ now ∧ refillAt ≤ time ∧ p.refillInterval ≠ 0
  | .refillLoad _ intervals => intervals.toNat ≤ credited
  | .refillAdd _ amount _ =>
    amount.toNat ≤ p.refillAmount.toNat * credited
  | .acquireExchange n _ available => n ≤ available
  | _ => True

theorem Call.Plain.sound (h : c.Plain) (p : Parameters)
    (now : UInt64) (credited : Nat) : c.Sound p now credited := by
  cases c with
  | refillLoop | refillExchange | refillLoad | refillAdd | acquireExchange => cases h
  | _ => trivial

theorem toNat_amended_le (k : Int64) (v : UInt64) : (amended k v).toNat
      ≤ v.toNat + if k < 0 then (unsignedAbs k).toNat else 0 := by
  unfold amended
  split
  · unfold saturatingAdd
    split
    · rw [UInt64.toNat_add]
      omega
    · rw [UInt64.toNat_ofNat']
      omega
  · unfold saturatingSub
    split
    · next hle =>
      rw [UInt64.toNat_sub_of_le _ _ hle]
      omega
    · exact Nat.zero_le _

theorem Turn.flow {l l' : Ratelimiter} (h : Turn l now c l' c') (hsound : c.Sound p now intervals) :
    l'.available.toNat + c'.granted + c.givenBack
      ≤ l.available.toNat + c.granted + c.refilled l l' + c'.givenBack := by
  cases h with
  | quiet dropped hc hc' hadd hcredit =>
    simp only [hc.granted, hc.givenBack, hc'.idle.granted,
      hc'.idle.givenBack, hadd, Nat.add_zero, Nat.le_refl]
  | added hc' =>
    rw [hc'.idle.granted, hc'.idle.givenBack]
    show _ + 0 + 0 ≤ l.available.toNat + 0 + (_ - l.available.toNat) + 0
    omega
  | granted n result =>
    show (l.available - n).toNat + n.toNat + 0 ≤ l.available.toNat + 0 + 0 + 0
    have hn : n ≤ l.available := hsound
    have hn' := UInt64.le_iff_toNat_le.1 hn
    rw [UInt64.toNat_sub_of_le _ _ hn]
    omega
  | amended k => exact toNat_amended_le k l.available
  | _ => exact Nat.le_refl _

namespace State

def granted (s : State) : Nat := total Call.granted s.calls

def givenBack (s : State) : Nat := total Call.givenBack s.calls

/-- Tokens are neither made nor doubled between two states. -/
def Flow (s s' : State) : Prop :=
  s'.limiter.available.toNat + s'.granted + s.refilled + s.givenBack
    ≤ s.limiter.available.toNat + s.granted + s'.refilled + s'.givenBack

theorem flow_step {s s' : State} {a : Action}
    (hsound : ∀ c ∈ s.calls, c.Sound p s.now intervals) (hs : s.step a = some s') : Flow s s' := by
  cases a with
  | call request =>
    cases hs
    unfold Flow granted givenBack
    rw [total_append, total_append]
    exact Nat.le_refl _
  | run i =>
    obtain ⟨c, l, c', hc, hturn, rfl⟩ := step_run hs
    have hflow := hturn.flow (hsound c (List.mem_of_getElem? hc))
    have hgranted := total_set Call.granted c' hc
    have hgiven := total_set Call.givenBack c' hc
    unfold Flow granted givenBack
    dsimp only
    omega
  | tick now =>
    obtain ⟨-, rfl⟩ := step_tick hs
    exact Nat.le_refl _

theorem Flow.trans {s₁ s₂ s₃ : State} (h : Flow s₁ s₂) (h' : Flow s₂ s₃) : Flow s₁ s₃ := by
  unfold Flow at h h' ⊢
  omega

end State

-- ======== one refill

variable {l l' : Ratelimiter} {created : UInt64} {n : Nat} {s : State}

/-- The arithmetic of a refill does not wrap, and leads to the end of the
interval the clock is in. -/
theorem intervalsDue_spec {time refillAt : UInt64} (hne : p.refillInterval ≠ 0)
    (hdue : refillAt ≤ time) (hrange : time.toNat + p.refillInterval.toNat < 2 ^ 64) :
    (refillAt + intervalsDue p time refillAt * p.refillInterval).toNat = refillAt.toNat
          + p.refillInterval.toNat * (intervalsDue p time refillAt).toNat
      ∧ refillAt.toNat + p.refillInterval.toNat * (intervalsDue p time refillAt).toNat
        ≤ time.toNat + p.refillInterval.toNat := by
  have hpos : 0 < p.refillInterval.toNat := by
    refine Nat.pos_of_ne_zero fun h => hne ?_
    exact UInt64.toNat_inj.1 h
  have hdue' := UInt64.le_iff_toNat_le.1 hdue
  have hle := Nat.mul_div_le (time.toNat - refillAt.toNat) p.refillInterval.toNat
  have hself := Nat.div_le_self (time.toNat - refillAt.toNat) p.refillInterval.toNat
  have hm : (intervalsDue p time refillAt).toNat
      = (time.toNat - refillAt.toNat) / p.refillInterval.toNat + 1 := by
    unfold intervalsDue
    rw [UInt64.toNat_add, UInt64.toNat_div, UInt64.toNat_sub_of_le _ _ hdue]
    refine Nat.mod_eq_of_lt ?_
    show _ + 1 < 2 ^ 64
    omega
  have hmul : p.refillInterval.toNat * (intervalsDue p time refillAt).toNat = p.refillInterval.toNat
          * ((time.toNat - refillAt.toNat) / p.refillInterval.toNat)
        + p.refillInterval.toNat := by
    rw [hm, Nat.mul_add, Nat.mul_one]
  refine ⟨?_, by omega⟩
  rw [UInt64.toNat_add, UInt64.toNat_mul, Nat.mul_comm,
    Nat.mod_eq_of_lt (by omega), Nat.mod_eq_of_lt (by omega)]

/-- Where the intervals a refill took end. -/
def Credit.ends (interval : Nat) (c : Credit) : List Nat :=
  (List.range c.intervals.toNat).map fun j => c.refillAt.toNat + interval * j

theorem Turn.parameters (h : Turn l now c l' c') : l'.parameters = l.parameters := by
  cases h <;> rfl

/-- A turn leaves `refillAt`, or is an exchange of it. -/
theorem Turn.refillAt (h : Turn l now c l' c') : (l'.refillAt = l.refillAt ∧ c.credit l = [])
      ∨ ∃ caller time, c = .refillExchange caller time l.refillAt
        ∧ l'.refillAt = l.refillAt + intervalsDue l.parameters time l.refillAt
          * l.parameters.refillInterval
        ∧ c.credit l = [⟨l.refillAt, intervalsDue l.parameters time l.refillAt⟩] := by
  cases h with
  | quiet dropped hc hc' hadd hcredit => exact .inl ⟨rfl, hcredit⟩
  | raced hne => exact .inl ⟨rfl, if_neg hne⟩
  | taken caller time => exact .inr ⟨caller, time, rfl, rfl, if_pos rfl⟩
  | _ => exact .inl ⟨rfl, rfl⟩

def credited (credits : List Credit) : Nat :=
  total (fun c => c.intervals.toNat) credits

theorem Call.Sound.mono {now' : UInt64} {n' : Nat} (h : c.Sound p now n)
    (hnow : now ≤ now') (hn : n ≤ n') : c.Sound p now' n' := by
  cases c with
  | refillLoop caller time => exact UInt64.le_trans h hnow
  | refillExchange caller time refillAt =>
    exact ⟨UInt64.le_trans h.1 hnow, h.2⟩
  | refillLoad caller intervals => exact Nat.le_trans h hn
  | refillAdd caller amount available =>
    exact Nat.le_trans h (Nat.mul_le_mul_left _ hn)
  | acquireExchange n result available => exact h
  | _ => trivial

theorem Turn.sound (h : Turn l now c l' c') (hsound : c.Sound l.parameters now n) :
    c'.Sound l.parameters now (n + credited (c.credit l)) := by
  cases h with
  | quiet dropped hc hc' hadd hcredit => exact hc'.sound _ _ _
  | clock caller => exact UInt64.le_refl now
  | due hdue hne => exact ⟨hsound, hdue, hne⟩
  | raced hne => exact hsound.1
  | taken caller time =>
    rw [Call.credit, if_pos rfl]
    exact Nat.le_add_left _ _
  | loaded caller intervals =>
    show (intervals * l.parameters.refillAmount).toNat ≤ l.parameters.refillAmount.toNat * (n + 0)
    rw [UInt64.toNat_mul, Nat.mul_comm intervals.toNat]
    exact Nat.le_trans (Nat.mod_le _ _) (Nat.mul_le_mul_left _ hsound)
  | added hc' => exact hc'.sound _ _ _
  | enough hn => exact hn
  | granted | amended => trivial

-- ======== invariant

/-- The clock keeps a whole interval below the end of the word. -/
def InRange (p : Parameters) (now : UInt64) : Prop :=
  now.toNat + p.refillInterval.toNat < 2 ^ 64

instance (p : Parameters) (now : UInt64) : Decidable (InRange p now) :=
  inferInstanceAs (Decidable (_ < _))

structure OnTime (p : Parameters) (created : UInt64) (s : State) : Prop where
  parameters : s.limiter.parameters = p
  inRange : InRange p s.now
  refillAt : s.limiter.refillAt.toNat
    = created.toNat + p.refillInterval.toNat * (credited s.credits + 1)
  elapsed : created.toNat + p.refillInterval.toNat * credited s.credits ≤ s.now.toNat
  halted : p.refillInterval = 0 → s.credits = []
  ends : s.credits.flatMap (Credit.ends p.refillInterval.toNat)
    = (List.range (credited s.credits)).map fun j =>
      created.toNat + p.refillInterval.toNat * (j + 1)
  calls : ∀ c ∈ s.calls, c.Sound p s.now (credited s.credits)

theorem onTime_start (hrange : InRange l.parameters created)
    (hrefillAt : l.refillAt = created + l.parameters.refillInterval) :
    OnTime l.parameters created (State.start l created) where
  parameters := rfl
  inRange := hrange
  refillAt := by
    show l.refillAt.toNat = created.toNat + l.parameters.refillInterval.toNat * (0 + 1)
    rw [hrefillAt, UInt64.toNat_add, Nat.mod_eq_of_lt hrange, Nat.mul_one]
  elapsed := Nat.le_refl _
  halted := fun _ => rfl
  ends := rfl
  calls := nofun

theorem onTime_run (h : OnTime p created s) {i : Nat} (hc : s.calls[i]? = some c)
    (hturn : Turn s.limiter s.now c l c') (r : Nat) : OnTime p created { s with
      limiter := l
      calls := s.calls.set i c'
      credits := s.credits ++ c.credit s.limiter
      refilled := r } := by
  obtain rfl := h.parameters
  have hsound := h.calls c (List.mem_of_getElem? hc)
  have hcredited : credited (s.credits ++ c.credit s.limiter)
      = credited s.credits + credited (c.credit s.limiter) := total_append _ _ _
  have hcalls : ∀ t ∈ s.calls.set i c', t.Sound s.limiter.parameters s.now
      (credited (s.credits ++ c.credit s.limiter)) := by
    rw [hcredited]
    exact forall_mem_set h.calls (fun t ht => ht.mono (UInt64.le_refl _) (Nat.le_add_right _ _))
      (hturn.sound hsound)
  rcases hturn.refillAt with ⟨hsame, hnil⟩ | ⟨caller, time, rfl, hnext, hone⟩
  · rw [hnil, List.append_nil] at hcalls ⊢
    exact ⟨hturn.parameters, h.inRange, by rw [hsame]; exact h.refillAt,
      h.elapsed, h.halted, h.ends, hcalls⟩
  · -- the exchange: from the first interval not taken up to the clock
    obtain ⟨htime, hdue, hne⟩ := hsound
    have htime' := UInt64.le_iff_toNat_le.1 htime
    have hrange : time.toNat + s.limiter.parameters.refillInterval.toNat < 2 ^ 64 :=
      Nat.lt_of_le_of_lt (Nat.add_le_add_right htime' _) h.inRange
    obtain ⟨hvalue, hbound⟩ := intervalsDue_spec hne hdue hrange
    have hone' : credited (Call.credit s.limiter
        (.refillExchange caller time s.limiter.refillAt))
        = (intervalsDue s.limiter.parameters time s.limiter.refillAt).toNat := by
      rw [hone]
      rfl
    rw [h.refillAt, Nat.mul_add] at hvalue hbound
    refine ⟨hturn.parameters, h.inRange, ?_, ?_, fun h0 => absurd h0 hne, ?_, hcalls⟩
    · rw [hnext, hcredited, hone', Nat.mul_add, Nat.mul_add]
      omega
    · dsimp only
      rw [hcredited, hone', Nat.mul_add]
      omega
    · rw [List.flatMap_append, h.ends, hcredited, hone, List.flatMap_singleton]
      rw [List.range_add, List.map_append, List.map_map]
      refine congrArg _ (List.map_congr_left fun j _ => ?_)
      show s.limiter.refillAt.toNat + _ * j = _ + _ * (_ + j + 1)
      rw [h.refillAt, Nat.add_right_comm _ j 1, Nat.mul_add _ (_ + 1) j, Nat.add_assoc]

theorem onTime_step {s' : State} {a : Action} (h : OnTime p created s)
    (hrange : ∀ now, a = .tick now → InRange p now) (hs : s.step a = some s') :
    OnTime p created s' := by
  cases a with
  | call request =>
    cases hs
    exact { h with calls := forall_mem_concat h.calls (fun _ ht => ht) trivial }
  | run i =>
    obtain ⟨c, l, c', hc, hturn, rfl⟩ := State.step_run hs
    exact onTime_run h hc hturn _
  | tick now =>
    obtain ⟨hle, rfl⟩ := State.step_tick hs
    exact { h with
      inRange := hrange now rfl
      elapsed := Nat.le_trans h.elapsed (UInt64.le_iff_toNat_le.1 hle)
      calls := fun c hc => (h.calls c hc).mono hle (Nat.le_refl _) }

theorem OnTime.credited_le (h : OnTime p created s) : credited s.credits
      ≤ (s.now.toNat - created.toNat) / p.refillInterval.toNat := by
  by_cases h0 : p.refillInterval = 0
  · rw [h.halted h0]
    exact Nat.zero_le _
  · have hpos : 0 < p.refillInterval.toNat := by
      refine Nat.pos_of_ne_zero fun hz => h0 ?_
      exact UInt64.toNat_inj.1 hz
    refine (Nat.le_div_iff_mul_le hpos).2 ?_
    have := h.elapsed
    rw [Nat.mul_comm]
    omega

-- ======== conservation

/-- A refill about to add finds left what it read, up to the capacity. -/
def Call.Conserves (l : Ratelimiter) : Call → Prop
  | .refillAdd _ _ available =>
    available.toNat ≤ l.available.toNat + l.parameters.capacity.toNat
  | _ => True

instance (l : Ratelimiter) (c : Call) : Decidable (c.Conserves l) := by
  cases c with
  | refillAdd _ _ _ => exact inferInstanceAs (Decidable (_ ≤ _))
  | _ => exact isTrue trivial

/-- Refills conserve, and the clock stays in range. -/
def Conserving (s : State) : Action → Prop
  | .call _ => True
  | .run i => ∀ c ∈ s.calls[i]?, c.Conserves s.limiter
  | .tick now => InRange s.limiter.parameters now

instance (s : State) (a : Action) : Decidable (Conserving s a) :=
  match a with
  | .call _ => isTrue trivial
  | .run i => inferInstanceAs (Decidable (∀ c ∈ s.calls[i]?, c.Conserves s.limiter))
  | .tick now => inferInstanceAs (Decidable (InRange s.limiter.parameters now))

-- ======== amount

theorem toNat_add_tokensToAdd_le {p : Parameters} (amount : UInt64) {read available : UInt64}
    (h : read.toNat ≤ available.toNat + p.capacity.toNat) :
    (available + tokensToAdd p amount read).toNat ≤ available.toNat + amount.toNat := by
  unfold tokensToAdd
  split
  · next hfull =>
    rw [UInt64.le_iff_toNat_le, UInt64.toNat_add] at hfull
    rw [UInt64.toNat_add, UInt64.toNat_sub]
    omega
  · exact Nat.mod_le _ _

theorem Turn.owed {l l' : Ratelimiter} {now : UInt64} {c c' : Call}
    (h : Turn l now c l' c') (hok : c.Conserves l) :
    c.refilled l l' + c'.owed l.parameters ≤ c.owed l.parameters
        + l.parameters.refillAmount.toNat * credited (c.credit l) := by
  cases h with
  | quiet dropped hc hc' hadd hcredit =>
    rw [hadd, hc'.idle.owed]
    omega
  | taken caller time =>
    rw [Call.credit, if_pos rfl]
    show 0 + _ * l.parameters.refillAmount.toNat ≤ 0 + l.parameters.refillAmount.toNat * _
    rw [Nat.mul_comm]
    exact Nat.le_refl _
  | loaded caller intervals =>
    show 0 + (intervals * l.parameters.refillAmount).toNat
      ≤ intervals.toNat * l.parameters.refillAmount.toNat + _
    rw [Nat.zero_add]
    exact Nat.le_trans (Nat.mod_le _ _) (Nat.le_add_right _ _)
  | @added caller amount available c' hc' =>
    have hadd := toNat_add_tokensToAdd_le amount hok
    rw [hc'.idle.owed]
    show (l.available + tokensToAdd l.parameters amount available).toNat
      - l.available.toNat + 0 ≤ amount.toNat + _
    omega
  | _ => exact Nat.zero_le _

-- ======== invariant

structure ConservationInv (l : Ratelimiter) (created : UInt64) (s : State) : Prop where
  onTime : OnTime l.parameters created s
  flow : State.Flow (State.start l created) s
  owed : s.refilled + total (Call.owed l.parameters) s.calls
    ≤ l.parameters.refillAmount.toNat * credited s.credits

theorem conservationInv_step {l : Ratelimiter} {created : UInt64}
    {s s' : State} {a : Action} (h : ConservationInv l created s)
    (hok : Conserving s a) (hs : s.step a = some s') : ConservationInv l created s' := by
  have hp := h.onTime.parameters
  refine ⟨onTime_step h.onTime ?_ hs, h.flow.trans (State.flow_step h.onTime.calls hs), ?_⟩
  · rintro now rfl
    rw [← hp]
    exact hok
  · have howed := h.owed
    cases a with
    | call request =>
      cases hs
      show s.refilled + total _ (s.calls ++ [_]) ≤ _
      rw [total_append]
      exact howed
    | run i =>
      obtain ⟨c, l', c', hc, hturn, rfl⟩ := State.step_run hs
      have hturn' := hturn.owed (hok c hc)
      have hset := total_set (Call.owed l.parameters) c' hc
      have hcredited : credited (s.credits ++ c.credit s.limiter)
          = credited s.credits + credited (c.credit s.limiter) :=
        total_append _ _ _
      rw [hp] at hturn'
      dsimp only
      rw [hcredited, Nat.mul_add]
      omega
    | tick now =>
      obtain ⟨-, rfl⟩ := State.step_tick hs
      exact howed

-- ======== result

theorem build_eq_ok {b : Builder} {now : UInt64} {l : Ratelimiter} (h : b.build now = .ok l) :
    l.available = b.initialAvailable ∧ l.parameters.capacity = b.maxTokens
      ∧ l.parameters.refillAmount = b.refillAmount
      ∧ l.parameters.refillInterval.toNat = b.refillInterval
      ∧ l.refillAt = now + l.parameters.refillInterval := by
  unfold Builder.build at h
  split at h
  · cases h
  · split at h
    · cases h
    · next hinterval =>
      cases h
      refine ⟨rfl, rfl, rfl, ?_, rfl⟩
      show (UInt64.ofNat b.refillInterval).toNat = b.refillInterval
      rw [UInt64.toNat_ofNat']
      omega

/-- However the calls interleave, as long as every refill finds left what
it read up to the capacity, no more has been granted than was available
at first, than the elapsed intervals are worth, and than was given back.
And the intervals that refills took are distinct, and have elapsed. -/
theorem tokens_conserved (b : Builder) (created : UInt64) (l : Ratelimiter)
    (actions : List Action) (s : State) (hbuild : b.build created = .ok l)
    (hrange : created.toNat + b.refillInterval < 2 ^ 64)
    (hok : StepsOk State.step Conserving (State.start l created) actions)
    (hrun : (State.start l created).run actions = some s) :
    s.granted ≤ b.initialAvailable.toNat + b.refillAmount.toNat
            * ((s.now.toNat - created.toNat) / b.refillInterval) + s.givenBack
      ∧ (s.credits.flatMap (Credit.ends b.refillInterval)).Nodup
      ∧ ∀ t ∈ s.credits.flatMap (Credit.ends b.refillInterval),
        t ≤ s.now.toNat ∧ ∃ j, t = created.toNat + b.refillInterval * (j + 1) := by
  obtain ⟨havailable, -, hamount, hinterval, hrefillAt⟩ := build_eq_ok hbuild
  rw [← hinterval] at hrange ⊢
  have h : ConservationInv l created s :=
    inv_of_stepsOk conservationInv_step actions
      ⟨onTime_start hrange hrefillAt, Nat.le_refl _, Nat.zero_le _⟩ hok hrun
  refine ⟨?_, ?_, fun t ht => ?_⟩
  · have hflow := h.flow
    have howed := h.owed
    have hcredited := Nat.mul_le_mul_left l.parameters.refillAmount.toNat h.onTime.credited_le
    rw [← havailable, ← hamount]
    change s.limiter.available.toNat + s.granted + 0 + 0
      ≤ l.available.toNat + 0 + s.refilled + s.givenBack at hflow
    omega
  · rw [h.onTime.ends]
    by_cases h0 : l.parameters.refillInterval = 0
    · rw [h.onTime.halted h0]
      exact List.nodup_nil
    · refine List.Nodup.map (fun i j hij => ?_) List.nodup_range
      have hmul : l.parameters.refillInterval.toNat * (i + 1)
          = l.parameters.refillInterval.toNat * (j + 1) := Nat.add_left_cancel hij
      have hne : l.parameters.refillInterval.toNat ≠ 0 := fun hz => h0 (UInt64.toNat_inj.1 hz)
      have := Nat.eq_of_mul_eq_mul_left (Nat.pos_of_ne_zero hne) hmul
      omega
  · rw [h.onTime.ends] at ht
    obtain ⟨j, hj, rfl⟩ := List.mem_map.1 ht
    refine ⟨Nat.le_trans ?_ h.onTime.elapsed, j, rfl⟩
    exact Nat.add_le_add_left (Nat.mul_le_mul_left _ (List.mem_range.1 hj)) _

/-- One token an interval of ten, and no more than one at a time. -/
def sampleBuilder : Builder := ⟨1, 1, 1, 10⟩

/-- A token is granted, the clock goes on, and a refill gives one more. -/
def sampleCalls : List Action :=
  [.call (.tryWaitN 1), .run 0, .run 0, .run 0, .run 0, .run 0, .tick 10,
    .call (.tryWaitN 1), .run 1, .run 1, .run 1, .run 1, .run 1, .run 1,
    .run 1, .run 1, .run 1]

theorem tokens_conserved_sample : ∃ l s, sampleBuilder.build 0 = .ok l
      ∧ (State.start l 0).run sampleCalls = some s
      ∧ s.granted ≤ 1 + 1 * ((s.now.toNat - 0) / 10) + s.givenBack := by
  exact ⟨_, _, rfl, rfl, (tokens_conserved sampleBuilder 0 _ sampleCalls _ rfl
    (by decide) (by decide) rfl).1⟩

/-- With two tokens available after one was given back, a refill reads
`available`, two other calls take both tokens, and the refill then adds
minus one. -/
def surplusTaken : List Action :=
  [.call (.amendTokens (-1)), .run 0, .run 0, .tick 10,
    .call (.tryWaitN 1), .run 1, .run 1, .run 1, .run 1, .run 1,
    .call (.tryWaitN 1), .run 2, .run 2, .run 2, .run 2, .run 2,
    .call (.tryWaitN 1), .run 3, .run 3, .run 3, .run 3, .run 3,
    .run 1, .run 1, .run 1, .run 1,
    .call (.tryWaitN 1), .run 4, .run 4, .run 4, .run 4, .run 4]

/-- One token at first, one refilled and one given back come to four. -/
theorem taken_surplus_wraps : ¬ ∀ (b : Builder) (created : UInt64) (l : Ratelimiter)
      (actions : List Action) (s : State), b.build created = .ok l →
      (State.start l created).run actions = some s →
      s.granted ≤ b.initialAvailable.toNat + b.refillAmount.toNat
            * ((s.now.toNat - created.toNat) / b.refillInterval) + s.givenBack := by
  intro hall
  exact absurd (hall sampleBuilder 0 _ surplusTaken _ rfl rfl) (by decide)

-- ======== capacity

/-- A refill about to add finds no more available than it read; tokens
about to be given back fit. -/
def Call.Fits (l : Ratelimiter) : Call → Prop
  | .refillAdd _ _ available => l.available ≤ available
  | .amendExchange k _ =>
    k < 0 → l.available.toNat + (unsignedAbs k).toNat ≤ l.parameters.capacity.toNat
  | _ => True

instance (l : Ratelimiter) (c : Call) : Decidable (c.Fits l) := by
  cases c with
  | refillAdd _ _ available => exact inferInstanceAs (Decidable (l.available ≤ available))
  | amendExchange k _ => exact inferInstanceAs (Decidable (k < 0 → _ ≤ _))
  | _ => exact isTrue trivial

/-- The word has room for the capacity and all that the intervals since
`created` are worth. -/
def RoomFor (p : Parameters) (created now : UInt64) : Prop :=
  p.capacity.toNat + p.refillAmount.toNat
    * ((now.toNat - created.toNat) / p.refillInterval.toNat) < 2 ^ 64

instance (p : Parameters) (created now : UInt64) : Decidable (RoomFor p created now) :=
  inferInstanceAs (Decidable (_ < _))

def WithinBurst (created : UInt64) (s : State) : Action → Prop
  | .call _ => True
  | .run i => ∀ c ∈ s.calls[i]?, c.Fits s.limiter
  | .tick now =>
    InRange s.limiter.parameters now ∧ RoomFor s.limiter.parameters created now

instance (created : UInt64) (s : State) (a : Action) : Decidable (WithinBurst created s a) :=
  match a with
  | .call _ => isTrue trivial
  | .run i => inferInstanceAs (Decidable (∀ c ∈ s.calls[i]?, c.Fits s.limiter))
  | .tick _ => inferInstanceAs (Decidable (_ ∧ _))

-- ======== one turn

/-- What a refill has read is within the capacity. -/
def Call.ReadWithin (p : Parameters) : Call → Prop
  | .refillAdd _ _ available => available ≤ p.capacity
  | _ => True

variable {s' : State} {a : Action}

theorem Call.Plain.readWithin (h : c.Plain) (p : Parameters) : c.ReadWithin p := by
  cases c with
  | refillAdd caller amount available => cases h
  | _ => trivial

theorem Turn.readWithin {l l' : Ratelimiter}
    (h : Turn l now c l' c') (hcap : l.available ≤ l.parameters.capacity) :
    c'.ReadWithin l.parameters := by
  cases h with
  | quiet dropped hc hc' hadd hcredit => exact hc'.readWithin _
  | loaded caller intervals => exact hcap
  | added hc' => exact hc'.readWithin _
  | _ => trivial

/-- A refill that reads no less than is there, and whose sum does not
wrap, stays within the capacity. -/
theorem add_tokensToAdd_le {amount read available : UInt64} (hread : read ≤ p.capacity)
    (hle : available ≤ read) (hroom : p.capacity.toNat + amount.toNat < 2 ^ 64) :
    available + tokensToAdd p amount read ≤ p.capacity := by
  rw [UInt64.le_iff_toNat_le] at hread hle ⊢
  unfold tokensToAdd
  split
  · rw [UInt64.toNat_add, UInt64.toNat_sub]
    omega
  · next hroom' =>
    rw [UInt64.le_iff_toNat_le, UInt64.toNat_add] at hroom'
    rw [UInt64.toNat_add]
    omega

theorem Turn.within {l l' : Ratelimiter}
    (h : Turn l now c l' c') {n : Nat} (hsound : c.Sound l.parameters now n)
    (hread : c.ReadWithin l.parameters) (hfits : c.Fits l)
    (hcap : l.available ≤ l.parameters.capacity)
    (hroom : l.parameters.capacity.toNat + l.parameters.refillAmount.toNat * n < 2 ^ 64) :
    l'.available ≤ l.parameters.capacity := by
  cases h with
  | added hc' =>
    refine add_tokensToAdd_le hread hfits (Nat.lt_of_le_of_lt ?_ hroom)
    exact Nat.add_le_add_left hsound _
  | granted n result =>
    have hn : n ≤ l.available := hsound
    rw [UInt64.le_iff_toNat_le] at hcap ⊢
    rw [UInt64.toNat_sub_of_le _ _ hn]
    omega
  | amended k =>
    refine Nat.le_trans (toNat_amended_le k _) ?_
    split
    · next hk => exact hfits hk
    · exact hcap
  | _ => exact hcap

-- ======== invariant

structure BurstInv (p : Parameters) (created : UInt64) (s : State) : Prop where
  onTime : OnTime p created s
  within : s.limiter.available ≤ p.capacity
  reads : ∀ c ∈ s.calls, c.ReadWithin p
  room : RoomFor p created s.now

theorem burstInv_step (h : BurstInv p created s)
    (hok : WithinBurst created s a) (hs : s.step a = some s') : BurstInv p created s' := by
  obtain rfl := h.onTime.parameters
  have honTime : OnTime s.limiter.parameters created s' := by
    refine onTime_step h.onTime ?_ hs
    rintro now rfl
    exact hok.1
  cases a with
  | call request =>
    cases hs
    exact ⟨honTime, h.within, forall_mem_concat h.reads (fun _ hc => hc) trivial, h.room⟩
  | run i =>
    obtain ⟨c, l, c', hc, hturn, rfl⟩ := State.step_run hs
    have hmem := List.mem_of_getElem? hc
    exact ⟨honTime, hturn.within (h.onTime.calls c hmem) (h.reads c hmem) (hok c hc) h.within
        (Nat.lt_of_le_of_lt (Nat.add_le_add_left
          (Nat.mul_le_mul_left _ h.onTime.credited_le) _) h.room),
      forall_mem_set h.reads (fun _ hc => hc) (hturn.readWithin h.within),
      h.room⟩
  | tick now =>
    obtain ⟨-, rfl⟩ := State.step_tick hs
    exact ⟨honTime, h.within, h.reads, hok.2⟩

-- ======== result

theorem window_step (s₀ : State)
    (h : BurstInv p created s ∧ State.Flow s₀ s) (hok : WithinBurst created s a)
    (hs : s.step a = some s') : BurstInv p created s' ∧ State.Flow s₀ s' :=
  ⟨burstInv_step h.1 hok hs, h.2.trans (State.flow_step h.1.onTime.calls hs)⟩

/-- In every state of a run within burst, no more is available than the
capacity. In any window that begins there, no more is granted than the capacity
with what is refilled and given back in the window, and so no more than the
capacity with what is refilled, if nothing is given back. -/
theorem burst_within_capacity (spec : RateLimitSpec) (created : UInt64)
    (l : Ratelimiter) (actions : List Action) (s : State) (hbuild : spec.tryFrom created = .ok l)
    (hrange : created.toNat + spec.fillInterval < 2 ^ 64)
    (hok : StepsOk State.step (WithinBurst created) (State.start l created) actions)
    (hrun : (State.start l created).run actions = some s) : s.limiter.available ≤ spec.maxTokens
      ∧ ∀ window s', StepsOk State.step (WithinBurst created) s window → s.run window = some s' →
        s'.granted + s.refilled + s.givenBack
            ≤ s.granted + spec.maxTokens.toNat + s'.refilled + s'.givenBack
          ∧ (s'.givenBack = s.givenBack →
            s'.granted + s.refilled ≤ s.granted + spec.maxTokens.toNat + s'.refilled) := by
  obtain ⟨havailable, hcapacity, -, hinterval, hrefillAt⟩ := build_eq_ok hbuild
  change l.parameters.refillInterval.toNat = spec.fillInterval at hinterval
  change l.parameters.capacity = spec.maxTokens at hcapacity
  rw [← hinterval] at hrange
  have hstart : BurstInv l.parameters created (State.start l created) := by
    refine ⟨onTime_start hrange hrefillAt, ?_, nofun, ?_⟩
    · show l.available ≤ l.parameters.capacity
      rw [havailable, hcapacity]
      exact UInt64.le_refl _
    · show l.parameters.capacity.toNat + l.parameters.refillAmount.toNat
        * ((created.toNat - created.toNat) / _) < 2 ^ 64
      rw [Nat.sub_self, Nat.zero_div]
      exact l.parameters.capacity.toNat_lt
  have h : BurstInv l.parameters created s := inv_of_stepsOk burstInv_step actions hstart hok hrun
  have hwithin := h.within
  rw [hcapacity] at hwithin
  refine ⟨hwithin, fun window s' hok' hrun' => ?_⟩
  obtain ⟨-, hflow⟩ := inv_of_stepsOk (window_step s) window ⟨h, Nat.le_refl _⟩ hok' hrun'
  have hwithin' := UInt64.le_iff_toNat_le.1 hwithin
  unfold State.Flow at hflow
  exact ⟨by omega, fun hback => by omega⟩

/-- Five tokens, refilled by five every ten. -/
def sampleSpec : RateLimitSpec := ⟨5, 5, 10⟩

/-- All tokens are granted, two of them are not used and given back, and
the next interval fills up the rest. -/
def trueUp : List Action :=
  [.call (.tryWaitN 5), .run 0, .run 0, .run 0, .run 0, .run 0,
    .call (.amendTokens (tokensToRemove (some 5) (some 3) none)), .run 1, .run 1,
    .tick 10, .call .availableRefill, .run 2, .run 2, .run 2, .run 2, .run 2,
    .run 2, .run 2, .run 2]

/-- Then a call takes all five. -/
def taken : List Action := [.call (.tryWaitN 5), .run 3, .run 3, .run 3, .run 3, .run 3]

theorem burst_within_capacity_sample : ∃ l s s', sampleSpec.tryFrom 0 = .ok l
      ∧ (State.start l 0).run trueUp = some s ∧ s.limiter.available ≤ 5
      ∧ s.run taken = some s' ∧ s'.granted = s.granted + 5
      ∧ s'.granted + s.refilled ≤ s.granted + 5 + s'.refilled := by
  have h := burst_within_capacity sampleSpec 0 _ trueUp _ rfl (by decide) (by decide) rfl
  exact ⟨_, _, _, rfl, rfl, h.1, rfl, by decide, (h.2 taken _ (by decide) rfl).2 (by decide)⟩

/-- The same, but the tokens are given back after the refill. -/
def lateTrueUp : List Action :=
  [.call (.tryWaitN 5), .run 0, .run 0, .run 0, .run 0, .run 0,
    .tick 10, .call .availableRefill, .run 1, .run 1, .run 1, .run 1, .run 1,
    .run 1, .run 1, .run 1,
    .call (.amendTokens (tokensToRemove (some 5) (some 3) none)), .run 2, .run 2]

/-- Seven tokens are then in a bucket of five. -/
theorem late_true_up_overflows : ¬ ∀ (spec : RateLimitSpec) (created : UInt64) (l : Ratelimiter)
      (actions : List Action) (s : State), spec.tryFrom created = .ok l →
      (State.start l created).run actions = some s → s.limiter.available ≤ spec.maxTokens := by
  intro hall
  exact absurd (hall sampleSpec 0 _ lateTrueUp _ rfl rfl) (by decide)

end AgentGateway.RateLimit
