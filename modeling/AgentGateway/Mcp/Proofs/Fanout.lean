/-
What one poll of a merge stream can do, and what the client of a fan-out is
sent.

`PollResult` is the inversion of a poll: it absorbs responses and, in
fail-open mode, failures, and then forwards a message, fails, finds every
stream that is left pending, or finishes. Every later proof goes through
its four cases and never unfolds the loop. Polling ends because the measure,
what the streams have yet to yield, goes down with each absorbed or forwarded
message.

Two results about every fair order of readiness:

- the answer comes once and last in all of them (`answers_exactly_once`) just
  if no upstream answers with an error. The stream takes a response for the
  end of an upstream, but passes an error on like a notification: the client
  then has its answer, and gets another one when the upstream's stream
  ends (`upstream_error_is_answered_twice`);
- for upstreams that all come to a response, the messages before it are
  passed on as some interleaving, and the answer is the merge of the
  results in the order of the targets (`fanout_schedule_independent`).
-/
import AgentGateway.Mcp.Relay
import AgentGateway.Lib.LeadsTo
import AgentGateway.Lib.Run

namespace AgentGateway.Mcp

open Lib Relation List

variable {Q N R : Type} {s s' : MergeStream Q N R} {sched : Nat → Nat → Bool} {i : Nat}
  {res : Poll (Option (Item Q N R)) × MergeStream Q N R} {msg : ServerJsonRpcMessage Q N R}
  {out : List (Item Q N R)} {ready : Nat → Bool} {merge : MergeFn R}

namespace MergeStream

-- ======== live streams

def Live (s : MergeStream Q N R) (i : Nat) : Prop :=
  ∃ k msgs, s.streams[i]? = some (some (k, msgs))

theorem live_lt (h : s.Live i) : i < s.streams.length := by
  obtain ⟨k, msgs, hi⟩ := h
  exact (List.getElem?_eq_some_iff.1 hi).1

theorem live_dropStream {j : Nat} (hi : i < s.streams.length) :
    (s.dropStream i).Live j ↔ j ≠ i ∧ s.Live j := by
  unfold Live dropStream
  by_cases hj : j = i
  · subst hj
    simp [List.getElem?_set_self hi]
  · simp [List.getElem?_set_ne (Ne.symm hj), hj]

/-- A poll takes the response of a stream, or drops a failed stream. -/
inductive Absorb : MergeStream Q N R → MergeStream Q N R → Prop
  | response {s : MergeStream Q N R} {i : Nat} {k : Strng} {id : RequestId}
      {result : R} {rest : Messages Q N R}
      (hi : s.streams[i]? = some (some (k, .ok (.response id result) :: rest))) :
      Absorb s (dropStream { s with
        terminalMessages := s.terminalMessages.set i (some (k, result)) } i)
  | failure {s : MergeStream Q N R} {i : Nat} {k : Strng}
      {msgs : Messages Q N R} (hmode : s.failureMode = .failOpen)
      (hi : s.streams[i]? = some (some (k, msgs)))
      (hmsgs : msgs = [] ∨ ∃ e rest, msgs = .error e :: rest) :
      Absorb s (s.dropStream i)

/-- What a poll that is not complete may come to. -/
inductive PollResult (s : MergeStream Q N R) (ready : Nat → Bool) :
    Poll (Option (Item Q N R)) × MergeStream Q N R → Prop
  | forward {mid : MergeStream Q N R} {i : Nat} {k : Strng}
      {msg : ServerJsonRpcMessage Q N R} {rest : Messages Q N R}
      (habs : ReflTransGen Absorb s mid)
      (hi : mid.streams[i]? = some (some (k, .ok msg :: rest)))
      (hmsg : ∀ id result, msg ≠ .response id result) :
      PollResult s ready (.ready (some (.ok msg)),
        { mid with streams := mid.streams.set i (some (k, rest)) })
  | fail {mid s' : MergeStream Q N R} {i : Nat} {k : Strng} {e : ClientError}
      {msgs : Messages Q N R} (habs : ReflTransGen Absorb s mid)
      (hi : mid.streams[i]? = some (some (k, msgs)))
      (hmsgs : msgs = [] ∨ ∃ e rest, msgs = .error e :: rest)
      (hs' : s'.complete) (hid : s'.reqId = mid.reqId) :
      PollResult s ready (.ready (some (.error e)), s')
  | pending {mid : MergeStream Q N R} (habs : ReflTransGen Absorb s mid)
      (hlive : ∃ i, mid.Live i) (hidle : ∀ i, mid.Live i → ready i = false) :
      PollResult s ready (.pending, mid)
  | finish {mid : MergeStream Q N R} (habs : ReflTransGen Absorb s mid)
      (hnone : ∀ i, ¬ mid.Live i) : PollResult s ready mid.finish

theorem pollStream_cases (i : Nat) : (¬ s.Live i ∧ s.pollStream ready i = .next s)
      ∨ (s.Live i ∧ ready i = false ∧ s.pollStream ready i = .pending)
      ∨ (∃ s', s.pollStream ready i = .next s' ∧ Absorb s s' ∧ ∀ j, s'.Live j ↔ j ≠ i ∧ s.Live j)
      ∨ ∃ item s', s.pollStream ready i = .ret item s'
          ∧ PollResult s ready (.ready (some item), s') := by
  unfold pollStream
  by_cases hlive : s.Live i
  · obtain ⟨k, msgs, hi⟩ := hlive
    have hlt := live_lt ⟨k, msgs, hi⟩
    rw [hi]
    cases hready : ready i with
    | false => exact .inr (.inl ⟨⟨k, msgs, hi⟩, rfl, rfl⟩)
    | true =>
      simp only [Bool.not_true, Bool.false_eq_true, ↓reduceIte]
      have hdrop : ∀ j, (s.dropStream i).Live j ↔ j ≠ i ∧ s.Live j := fun j => live_dropStream hlt
      have hforward : ∀ {msg rest}, msgs = .ok msg :: rest →
          (∀ id result, msg ≠ .response id result) →
          PollResult s ready (.ready (some (.ok msg)),
            { s with streams := s.streams.set i (some (k, rest)) }) := by
        intro msg rest heq hmsg
        subst heq
        exact .forward .refl hi hmsg
      cases msgs with
      | nil =>
        dsimp only
        split
        · next hmode =>
          exact .inr (.inr (.inl ⟨_, rfl, .failure hmode hi (.inl rfl), hdrop⟩))
        · exact .inr (.inr (.inr ⟨_, _, rfl, .fail .refl hi (.inl rfl) rfl rfl⟩))
      | cons item rest =>
        cases item with
        | error e =>
          dsimp only
          split
          · next hmode =>
            exact .inr (.inr (.inl ⟨_, rfl, .failure hmode hi (.inr ⟨e, rest, rfl⟩), hdrop⟩))
          · exact .inr (.inr (.inr ⟨_, _, rfl, .fail .refl hi (.inr ⟨e, rest, rfl⟩) rfl rfl⟩))
        | ok msg =>
          cases msg with
          | response id result =>
            exact .inr (.inr (.inl ⟨_, rfl, .response hi, hdrop⟩))
          | request | notification | error =>
            exact .inr (.inr (.inr ⟨_, _, rfl, hforward rfl nofun⟩))
  · refine .inl ⟨hlive, ?_⟩
    split
    · next k msgs hi => exact absurd ⟨k, msgs, hi⟩ hlive
    · rfl

theorem PollResult.trans {mid : MergeStream Q N R} {ready : Nat → Bool}
    {res : Poll (Option (Item Q N R)) × MergeStream Q N R}
    (habs : ReflTransGen Absorb s mid) (h : PollResult mid ready res) : PollResult s ready res := by
  cases h with
  | forward habs' hi hmsg => exact .forward (habs.trans habs') hi hmsg
  | fail habs' hi hmsgs hs' hid => exact .fail (habs.trans habs') hi hmsgs hs' hid
  | pending habs' hlive hidle => exact .pending (habs.trans habs') hlive hidle
  | finish habs' hnone => exact .finish (habs.trans habs') hnone

/-- The loop, when the streams it has passed are gone or were found
pending. -/
theorem pollFrom_cases (is : List Nat) (hnd : is.Nodup) :
    ∀ {s : MergeStream Q N R} {anyPending : Bool},
      (∀ i, s.Live i → i ∈ is ∨ ready i = false ∧ anyPending) →
      (anyPending → ∃ i, s.Live i ∧ i ∉ is) →
      PollResult s ready (s.pollFrom ready anyPending is) := by
  induction is with
  | nil =>
    intro s anyPending hpassed hpending
    cases anyPending with
    | false =>
      refine .finish .refl fun i hi => ?_
      rcases hpassed i hi with hmem | ⟨-, hf⟩
      · cases hmem
      · cases hf
    | true =>
      obtain ⟨i, hi, -⟩ := hpending rfl
      refine .pending .refl ⟨i, hi⟩ fun j hj => ?_
      rcases hpassed j hj with hmem | ⟨hidle, -⟩
      · cases hmem
      · exact hidle
  | cons i is ih =>
    rw [List.nodup_cons] at hnd
    intro s anyPending hpassed hpending
    unfold pollFrom
    rcases pollStream_cases i with ⟨hgone, heq⟩ | ⟨hlive, hidle, heq⟩
      | ⟨s', heq, habs, hlive⟩ | ⟨item, s', heq, hres⟩
    · rw [heq]
      refine ih hnd.2 (fun j hj => ?_) fun hp => ?_
      · refine (hpassed j hj).imp_left fun hmem => (List.mem_cons.1 hmem).resolve_left ?_
        exact fun heq => hgone (heq ▸ hj)
      · obtain ⟨j, hj, hmem⟩ := hpending hp
        exact ⟨j, hj, fun h => hmem (List.mem_cons_of_mem _ h)⟩
    · rw [heq]
      refine ih hnd.2 (fun j hj => ?_) fun _ => ⟨i, hlive, hnd.1⟩
      rcases hpassed j hj with hmem | ⟨hj', -⟩
      · rcases List.mem_cons.1 hmem with rfl | hmem
        · exact .inr ⟨hidle, rfl⟩
        · exact .inl hmem
      · exact .inr ⟨hj', rfl⟩
    · rw [heq]
      refine .trans (.single habs) (ih hnd.2 (fun j hj => ?_) fun hp => ?_)
      · obtain ⟨hne, hj⟩ := (hlive j).1 hj
        exact (hpassed j hj).imp_left fun hmem => (List.mem_cons.1 hmem).resolve_left hne
      · obtain ⟨j, hj, hmem⟩ := hpending hp
        rw [List.mem_cons, not_or] at hmem
        exact ⟨j, (hlive j).2 ⟨hmem.1, hj⟩, hmem.2⟩
    · rw [heq]
      exact hres

theorem pollNext_cases (hc : s.complete = false) (ready : Nat → Bool) :
    PollResult s ready (s.pollNext ready) := by
  unfold pollNext
  rw [hc]
  refine pollFrom_cases _ List.nodup_range (fun i hi => ?_) fun h => ?_
  · exact .inl (List.mem_range.2 (live_lt hi))
  · cases h

-- ======== progress

/-- What a stream has yet to yield, with its end. -/
def weight : Option (Strng × Messages Q N R) → Nat
  | some (_, msgs) => msgs.length + 1
  | none => 0

def left (s : MergeStream Q N R) : Nat := total weight s.streams

theorem left_absorb (h : Absorb s s') : s'.left < s.left := by
  cases h with
  | response hi | failure hmode hi hmsgs =>
    have hset := total_set weight none hi
    unfold left dropStream
    dsimp only [weight] at hset ⊢
    omega

theorem left_absorbs (h : ReflTransGen Absorb s s') : s' = s ∨ s'.left < s.left := by
  induction h with
  | refl => exact .inl rfl
  | tail _ hstep ih =>
    have hlt := left_absorb hstep
    rcases ih with rfl | hlt'
    · exact .inr hlt
    · omega

theorem finish_complete (s : MergeStream Q N R) : s.finish.2.complete := by
  unfold finish
  dsimp only
  split <;> rfl

theorem turn_pollNext (hc : s.complete = false) (ready : Nat → Bool) :
    Turn (fun s : MergeStream Q N R => s.complete) Live left ready s (s.pollNext ready).2 := by
  have hres := pollNext_cases hc ready
  generalize s.pollNext ready = res at hres
  cases hres with
  | @forward mid i k msg rest habs hi hmsg =>
    refine .inr (.inl ?_)
    have hset := total_set weight (some (k, rest)) hi
    have hle : mid.left ≤ s.left := by
      rcases left_absorbs habs with rfl | hlt
      · omega
      · omega
    unfold left at hle ⊢
    dsimp only [weight, List.length_cons] at hset ⊢
    omega
  | fail habs hi hmsgs hs' hid => exact .inl hs'
  | pending habs hlive hidle =>
    rcases left_absorbs habs with rfl | hlt
    · exact .inr (.inr ⟨rfl, hlive, fun i hi => ⟨hi, hidle i hi⟩⟩)
    · exact .inr (.inl hlt)
  | finish habs hnone => exact .inl (finish_complete _)

-- ======== runs

/-- What a poll adds to the output. -/
def emitted : Poll (Option (Item Q N R)) → List (Item Q N R)
  | .ready (some item) => [item]
  | .ready none => []
  | .pending => []

theorem run_succ (s : MergeStream Q N R) (sched : Nat → Nat → Bool) (n : Nat) :
    s.run sched (n + 1) = (((s.run sched n).1.pollNext (sched n)).2, (s.run sched n).2
          ++ emitted ((s.run sched n).1.pollNext (sched n)).1) := by
  rw [run]
  dsimp only
  generalize (s.run sched n).1.pollNext (sched n) = res
  obtain ⟨poll, s'⟩ := res
  cases poll with
  | pending => simp [emitted]
  | ready item => cases item <;> simp [emitted]

theorem pollNext_complete (hc : s.complete) (ready : Nat → Bool) :
    s.pollNext ready = (.ready none, s) := by
  unfold pollNext
  rw [hc]
  rfl

theorem run_complete {n : Nat} (hc : (s.run sched n).1.complete) {m : Nat} (hm : n ≤ m) :
    s.run sched m = s.run sched n := by
  obtain ⟨d, rfl⟩ := Nat.exists_eq_add_of_le hm
  clear hm
  induction d with
  | zero => rfl
  | succ d ih =>
    rw [← Nat.add_assoc, run_succ, ih, pollNext_complete hc]
    exact Prod.ext rfl (List.append_nil _)

/-- The rule for runs: what a poll keeps holds from where it first held. -/
theorem run_inv (Inv : MergeStream Q N R → List (Item Q N R) → Prop) {start : Nat}
    (hstart : Inv (s.run sched start).1 (s.run sched start).2)
    (hstep : ∀ {s out ready res}, s.complete = false → Inv s out →
      PollResult s ready res → Inv res.2 (out ++ emitted res.1))
    {n : Nat} (hn : start ≤ n) : Inv (s.run sched n).1 (s.run sched n).2 := by
  induction n, hn using Nat.le_induction with
  | base => exact hstart
  | succ n _ ih =>
    rw [run_succ]
    cases hc : (s.run sched n).1.complete with
    | false => exact hstep hc ih (pollNext_cases hc _)
    | true =>
      rw [pollNext_complete hc]
      dsimp only [emitted]
      rw [List.append_nil]
      exact ih

/-- Every stream is ready again and again. -/
def Fair (sched : Nat → Nat → Bool) : Prop :=
  ∀ i n, ∃ m, n ≤ m ∧ sched m i

theorem run_completes (hfair : Fair sched)
    (s : MergeStream Q N R) : ∃ n, (s.run sched n).1.complete := by
  refine done_of_fair (fun n => (s.run sched n).1) sched
    (fun s => s.complete) Live left (fun n hn => ?_) fun {n i} _ => ?_
  · rw [run_succ]
    exact turn_pollNext (by simpa using hn) (sched n)
  · obtain ⟨m, hm, hready⟩ := hfair i n
    refine ⟨m - n, ?_⟩
    rwa [Nat.add_sub_cancel' hm]

theorem absorbs_frame (h : ReflTransGen Absorb s s') :
    s'.reqId = s.reqId ∧ s'.merge = s.merge ∧ s'.complete = s.complete
      ∧ ∀ {i : Nat} {k msgs}, s'.streams[i]? = some (some (k, msgs)) →
        s.streams[i]? = some (some (k, msgs)) := by
  have hdrop : ∀ {s : MergeStream Q N R} {i j : Nat} {k msgs},
      (s.dropStream i).streams[j]? = some (some (k, msgs)) →
      s.streams[j]? = some (some (k, msgs)) := by
    intro s i j k msgs hj
    unfold dropStream at hj
    grind
  induction h with
  | refl => exact ⟨rfl, rfl, rfl, id⟩
  | tail _ hstep ih =>
    obtain ⟨hid, hmerge, hc, hstreams⟩ := ih
    cases hstep with
    | response | failure =>
      exact ⟨hid, hmerge, hc, fun hj => hstreams (hdrop hj)⟩

end MergeStream

-- ======== answered once

/-- The message answers the request. -/
def ServerJsonRpcMessage.Terminal (id : RequestId) : ServerJsonRpcMessage Q N R → Prop
  | .response id' _ => id' = id
  | .error id' _ => id' = id
  | .request _ _ => False
  | .notification _ => False

/-- What a stream yields before its response, failure or end. -/
def forwarded : Messages Q N R → List (ServerJsonRpcMessage Q N R)
  | .ok (.response _ _) :: _ => []
  | .ok msg :: rest => msg :: forwarded rest
  | .error _ :: _ => []
  | [] => []

theorem forwarded_cons (hmsg : ∀ id result, msg ≠ .response id result) (rest : Messages Q N R) :
    forwarded (.ok msg :: rest) = msg :: forwarded rest := by
  cases msg with
  | response id result => exact absurd rfl (hmsg id result)
  | request | notification | error => rfl

namespace MergeStream

/-- No stream that is left passes on an answer to the request. -/
def Quiet (s : MergeStream Q N R) : Prop :=
  ∀ ⦃i : Nat⦄ ⦃k msgs⦄, s.streams[i]? = some (some (k, msgs)) →
    ∀ msg ∈ forwarded msgs, ¬ msg.Terminal s.reqId

/-- The output of a stream before and after its last item, which answers the
request; `P` is what holds of the items before. -/
inductive Answering (id : RequestId) (P : MergeStream Q N R → List (Item Q N R) → Prop)
    (s : MergeStream Q N R) : List (Item Q N R) → Prop
  | before {out : List (Item Q N R)} (hc : s.complete = false) (hmerge : s.merge.isSome)
      (hkept : P s out) : Answering id P s out
  | after {out : List (Item Q N R)} {s' : MergeStream Q N R} {item : Item Q N R}
      (hc : s.complete) (hkept : P s' out) (hitem : (toMessage id item).Terminal id) :
      Answering id P s (out ++ [item])

theorem finish_of_merge (h : s.merge = some merge) :
    s.finish.1 = .ready (some (match merge (s.terminalMessages.filterMap id) with
      | .ok res => .ok (.response s.reqId res)
      | .error e => .error e)) := by
  unfold finish
  rw [h]
  rfl

theorem finish_reqId (s : MergeStream Q N R) : s.finish.2.reqId = s.reqId := by
  unfold finish
  dsimp only
  split <;> rfl

section

variable {id : RequestId} {P : MergeStream Q N R → List (Item Q N R) → Prop}
  (habsorb : ∀ {s s' : MergeStream Q N R} {out}, ReflTransGen Absorb s s' → P s out →
    P s' out)
  (hforward : ∀ {s : MergeStream Q N R} {out i k msg rest}, s.reqId = id →
    s.streams[i]? = some (some (k, .ok msg :: rest)) → (∀ id result, msg ≠ .response id result) →
    P s out → P { s with streams := s.streams.set i (some (k, rest)) } (out ++ [.ok msg]))
include habsorb hforward

theorem answering_step (hc : s.complete = false) (h : s.reqId = id ∧ Answering id P s out)
    (hres : PollResult s ready res) :
    res.2.reqId = id ∧ Answering id P res.2 (out ++ emitted res.1) := by
  obtain ⟨hid, h⟩ := h
  cases h with
  | after hc' => rw [hc] at hc'; cases hc'
  | before _ hmerge hkept =>
    cases hres with
    | forward habs hi hmsg =>
      obtain ⟨hid', hmerge', hc', -⟩ := absorbs_frame habs
      exact ⟨hid'.trans hid, .before (hc'.trans hc) (hmerge' ▸ hmerge)
        (hforward (hid'.trans hid) hi hmsg (habsorb habs hkept))⟩
    | fail habs hi hmsgs hs' hid' =>
      exact ⟨hid'.trans ((absorbs_frame habs).1.trans hid), .after hs' hkept rfl⟩
    | pending habs hlive hidle =>
      obtain ⟨hid', hmerge', hc', -⟩ := absorbs_frame habs
      dsimp only [emitted]
      rw [append_nil]
      exact ⟨hid'.trans hid, .before (hc'.trans hc) (hmerge' ▸ hmerge) (habsorb habs hkept)⟩
    | @finish mid habs hnone =>
      obtain ⟨hid', hmerge', -, -⟩ := absorbs_frame habs
      obtain ⟨merge, hm⟩ := Option.isSome_iff_exists.1 hmerge
      rw [finish_of_merge (hmerge'.trans hm)]
      refine ⟨(finish_reqId mid).trans (hid'.trans hid), .after (finish_complete mid) hkept ?_⟩
      split
      · exact hid'.trans hid
      · rfl

/-- A fair run comes to its last item. -/
theorem answering_run {n : Nat} (hfair : Fair sched)
    (hstart : (s.run sched n).1.reqId = id
      ∧ Answering id P (s.run sched n).1 (s.run sched n).2) :
    ∃ m s' out item, P s' out ∧ (toMessage id item).Terminal id ∧ ∀ m', m ≤ m' →
      (s.run sched m').1.complete ∧ (s.run sched m').2 = out ++ [item] := by
  obtain ⟨k, hdone⟩ := run_completes hfair s
  have hcomplete : (s.run sched (n + k)).1.complete := by
    rw [run_complete hdone (Nat.le_add_left k n)]
    exact hdone
  obtain ⟨-, hanswer⟩ := run_inv (fun s out => s.reqId = id ∧ Answering id P s out) hstart
    (answering_step habsorb hforward) (Nat.le_add_right n k)
  generalize hout : (s.run sched (n + k)).2 = out at hanswer
  cases hanswer with
  | before hc => rw [hcomplete] at hc; cases hc
  | after _ hkept hitem =>
    refine ⟨n + k, _, _, _, hkept, hitem, fun m' hm' => ?_⟩
    rw [run_complete hcomplete hm']
    exact ⟨hcomplete, hout⟩

end

theorem Quiet.absorbs (h : s.Quiet) (habs : ReflTransGen Absorb s s') : s'.Quiet := by
  obtain ⟨hid, -, -, hstreams⟩ := absorbs_frame habs
  intro i k msgs hi
  rw [hid]
  exact h (hstreams hi)

theorem Quiet.forward {k : Strng} {rest : Messages Q N R} (h : s.Quiet)
    (hi : s.streams[i]? = some (some (k, .ok msg :: rest)))
    (hmsg : ∀ id result, msg ≠ .response id result) :
    Quiet { s with streams := s.streams.set i (some (k, rest)) } := by
  have hhead := h hi
  rw [forwarded_cons hmsg] at hhead
  intro j k' msgs hj
  rw [getElem?_set] at hj
  split at hj
  · split at hj
    · cases hj
      exact fun m hm => hhead m (mem_cons_of_mem _ hm)
    · cases hj
  · exact h hj

/-- The client is sent one answer, and nothing after it. -/
def AnsweredOnce (s : MergeStream Q N R) (sched : Nat → Nat → Bool) : Prop :=
  ∃ n before answer, ServerJsonRpcMessage.Terminal s.reqId answer
    ∧ (∀ msg ∈ before, ¬ ServerJsonRpcMessage.Terminal s.reqId msg) ∧ ∀ m, n ≤ m →
      s.sent sched m = before ++ [answer]
        ∧ ((s.run sched m).1.pollNext (sched m)).1 = .ready none

theorem answeredOnce_of_quiet (hfair : Fair sched) (hc : s.complete = false)
    (hmerge : s.merge.isSome) (hquiet : s.Quiet) : s.AnsweredOnce sched := by
  obtain ⟨n, _, before, item, ⟨-, hbefore⟩, hitem, hlater⟩ := answering_run (n := 0)
    (P := fun s' out => s'.Quiet ∧ ∀ item ∈ out, ¬ (toMessage s.reqId item).Terminal s.reqId)
    (fun habs hkept => ⟨hkept.1.absorbs habs, hkept.2⟩)
    (fun hid hi hmsg hkept => ⟨hkept.1.forward hi hmsg, forall_mem_append.2 ⟨hkept.2,
      forall_mem_singleton.2 (hid ▸ hkept.1 hi _ (forwarded_cons hmsg _ ▸ mem_cons_self))⟩⟩)
    hfair ⟨rfl, .before hc hmerge ⟨hquiet, nofun⟩⟩
  refine ⟨n, before.map (toMessage s.reqId), _, hitem, ?_, fun m hm => ⟨?_, ?_⟩⟩
  · intro msg hmsg
    obtain ⟨x, hx, rfl⟩ := mem_map.1 hmsg
    exact hbefore x hx
  · unfold sent
    rw [(hlater m hm).2, map_append]
    rfl
  · rw [pollNext_complete (hlater m hm).1]

theorem not_answeredOnce {n : Nat} (hfair : Fair sched)
    (hid : (s.run sched n).1.reqId = s.reqId) (hc : (s.run sched n).1.complete = false)
    (hmerge : (s.run sched n).1.merge.isSome)
    (hout : ∃ item ∈ (s.run sched n).2, (toMessage s.reqId item).Terminal s.reqId) :
    ¬ s.AnsweredOnce sched := by
  rintro ⟨m, before, answer, -, hbefore, hsent⟩
  obtain ⟨k, _, out, item, ⟨x, hx, hterm⟩, -, hlater⟩ := answering_run
    (P := fun _ out => ∃ item ∈ out, (toMessage s.reqId item).Terminal s.reqId)
    (fun _ hkept => hkept)
    (fun _ _ _ ⟨x, hx, hterm⟩ => ⟨x, mem_append_left _ hx, hterm⟩) hfair
    ⟨hid, .before hc hmerge hout⟩
  have hmsgs := (hsent (m + k) (by omega)).1
  unfold sent at hmsgs
  rw [(hlater (m + k) (by omega)).2, map_append] at hmsgs
  have hinit := (append_inj' hmsgs rfl).1
  exact hbefore _ (hinit ▸ mem_map_of_mem hx) hterm

/-- Up to some poll one stream alone is ready, and all are from then on. -/
def alone (i start : Nat) : Nat → Nat → Bool := fun n j => j == i || decide (start ≤ n)

theorem fair_alone (i start : Nat) : Fair (alone i start) :=
  fun j n => ⟨n + start, by omega, by simp [alone]⟩

theorem pollFrom_alone {item : Item Q N R} (hidle : ∀ j, j ≠ i → ready j = false)
    (hret : s.pollStream ready i = .ret item s') (is : List Nat) (hi : i ∈ is)
    (anyPending : Bool) : pollFrom ready s anyPending is = (.ready (some item), s') := by
  induction is generalizing anyPending with
  | nil => cases hi
  | cons j is ih =>
    rw [pollFrom]
    by_cases hj : j = i
    · rw [hj, hret]
    · have hidle : s.pollStream ready j = .pending ∨ s.pollStream ready j = .next s := by
        unfold pollStream
        rw [hidle j hj]
        split
        · exact .inl rfl
        · exact .inr rfl
      rcases hidle with h | h <;> rw [h] <;> exact ih ((mem_cons.1 hi).resolve_left (Ne.symm hj)) _

theorem pollNext_alone {k : Strng} {rest : Messages Q N R} (hc : s.complete = false)
    (hmsg : ∀ id result, msg ≠ .response id result) (hready : ready i)
    (hidle : ∀ j, j ≠ i → ready j = false)
    (hi : s.streams[i]? = some (some (k, .ok msg :: rest))) : s.pollNext ready
      = (.ready (some (.ok msg)), { s with streams := s.streams.set i (some (k, rest)) }) := by
  unfold pollNext
  rw [if_neg (by rw [hc]; exact Bool.false_ne_true)]
  refine pollFrom_alone hidle ?_ _ (mem_range.2 (live_lt ⟨_, _, hi⟩)) _
  unfold pollStream
  rw [hi, hready]
  cases msg with
  | response id result => exact absurd rfl (hmsg id result)
  | request | notification | error => rfl

theorem set_of_getElem? {A : Type} {l : List A} {a : A} (h : l[i]? = some a) : l.set i a = l := by
  obtain ⟨hi, rfl⟩ := List.getElem?_eq_some_iff.1 h
  exact set_getElem_self hi

/-- A stream that is ready alone is passed on, up to its response, failure or
end. -/
theorem run_alone {k : Strng} {start : Nat} (hc : s.complete = false)
    (pre : List (ServerJsonRpcMessage Q N R)) (rest : Messages Q N R)
    (hpre : ∀ msg ∈ pre, ∀ id result, msg ≠ .response id result) (hstart : pre.length ≤ start)
    (hi : s.streams[i]? = some (some (k, pre.map .ok ++ rest))) :
    s.run (alone i start) pre.length
      = ({ s with streams := s.streams.set i (some (k, rest)) }, pre.map .ok) := by
  induction pre using reverseRecOn generalizing rest with
  | nil =>
    have hset := set_of_getElem? hi
    rw [map_nil, nil_append] at hset
    rw [hset]
    rfl
  | append_singleton pre msg ih =>
    rw [length_append, length_singleton] at hstart ⊢
    have hrun := ih (.ok msg :: rest) (fun m hm => hpre m (mem_append_left _ hm)) (by omega)
      (by simpa using hi)
    let mid : MergeStream Q N R := { s with streams := s.streams.set i (some (k, .ok msg :: rest)) }
    have hmid : mid.streams[i]? = some (some (k, .ok msg :: rest)) :=
      getElem?_set_self (live_lt ⟨_, _, hi⟩)
    have hidle : ∀ j, j ≠ i → alone i start pre.length j = false := by
      intro j hj
      have hlt : ¬ start ≤ pre.length := by omega
      simp [alone, hj, hlt]
    have hpoll := pollNext_alone (s := mid) hc (hpre msg (by simp))
      (by simp [alone] : alone i start pre.length i) hidle hmid
    rw [run_succ, hrun]
    dsimp only
    rw [hpoll]
    simp [emitted, mid]

theorem exists_of_mem_forwarded {msgs : Messages Q N R} (h : msg ∈ forwarded msgs) :
    ∃ pre rest, msgs = (pre ++ [msg]).map .ok ++ rest
      ∧ ∀ m ∈ pre ++ [msg], ∀ id result, m ≠ .response id result := by
  induction msgs with
  | nil => cases h
  | cons item msgs ih =>
    rcases item with e | m
    · cases h
    · by_cases hm : ∀ id result, m ≠ .response id result
      · rw [forwarded_cons hm] at h
        rcases mem_cons.1 h with rfl | h
        · exact ⟨[], msgs, rfl, by simpa using hm⟩
        · obtain ⟨pre, rest, rfl, hpre⟩ := ih h
          exact ⟨m :: pre, rest, rfl, forall_mem_cons.2 ⟨hm, hpre⟩⟩
      · cases m with
        | response => cases h
        | _ => exact absurd nofun hm

-- ======== result

/-- The client gets one answer, and nothing after it, in whatever order the
upstreams are ready, just if none sends an error with the id of the request. -/
theorem answers_exactly_once (targets : List (Strng × Messages Q N R))
    (reqId : RequestId) (merge : MergeFn R) (failureMode : FailureMode) :
    (∀ sched, Fair sched → (new targets reqId merge failureMode).AnsweredOnce sched)
      ↔ ∀ t ∈ targets, ∀ msg ∈ forwarded t.2, ¬ msg.Terminal reqId := by
  constructor
  · intro hall t ht msg hmsg hterm
    obtain ⟨i, hi⟩ := mem_iff_getElem?.1 ht
    obtain ⟨pre, rest, hsplit, hpre⟩ := exists_of_mem_forwarded hmsg
    have hstream : (new targets reqId merge failureMode).streams[i]?
        = some (some (t.1, (pre ++ [msg]).map .ok ++ rest)) := by
      rw [← hsplit]
      exact (getElem?_map ..).trans (by rw [hi]; rfl)
    -- the stream is read up to the error before any other
    have hrun := run_alone rfl (pre ++ [msg]) rest hpre le_rfl hstream
    have hfair := fair_alone i (pre ++ [msg]).length
    refine not_answeredOnce hfair (n := (pre ++ [msg]).length) ?_ ?_ ?_ ?_ (hall _ hfair)
    all_goals rw [hrun]
    case refine_4 => exact ⟨.ok msg, by simp, hterm⟩
    all_goals rfl
  · intro hno sched hfair
    refine answeredOnce_of_quiet hfair rfl rfl ?_
    intro i k msgs hi
    unfold new newInternal at hi
    rw [getElem?_map, Option.map_eq_some_iff] at hi
    obtain ⟨t, ht, heq⟩ := hi
    cases heq
    exact hno _ (mem_of_getElem? ht)

def allReady : Nat → Nat → Bool := fun _ _ => true

theorem fair_allReady : Fair allReady := fun _ n => ⟨n, Nat.le_refl n, rfl⟩

def countMerge : MergeFn Nat := fun results => .ok results.length

/-- An upstream that answers with an error: its error is passed on, and
the end of its stream makes a second one. -/
theorem upstream_error_is_answered_twice :
    ¬ ∀ (targets : List (Strng × Messages Unit Unit Nat)) (reqId : RequestId)
      (merge : MergeFn Nat) (failureMode : FailureMode) (sched : Nat → Nat → Bool), Fair sched →
      (new targets reqId merge failureMode).AnsweredOnce sched := by
  intro hall
  have htwice := hall [("a", [.ok (.error (.number 7) ⟨-32601, "no such method"⟩)])]
    (.number 7) countMerge .failClosed allReady fair_allReady
  exact absurd htwice
    (not_answeredOnce (n := 1) fair_allReady rfl rfl rfl ⟨_, mem_singleton_self _, rfl⟩)

-- ======== schedule independence

end MergeStream

/-- An upstream that sends some messages and then its response. -/
structure Target (Q N R : Type) where
  name : Strng
  messages : List (ServerJsonRpcMessage Q N R)
  id : RequestId
  result : R
  unanswered : ∀ msg ∈ messages, ∀ id result, msg ≠ .response id result

namespace Target

/-- What is left of the stream when `rest` is left of the messages. -/
def stream (t : Target Q N R) (rest : List (ServerJsonRpcMessage Q N R)) : Messages Q N R :=
  rest.map .ok ++ [.ok (.response t.id t.result)]

/-- The stream and the kept response of a target with `rest` to go. -/
inductive Shows (t : Target Q N R) :
    List (ServerJsonRpcMessage Q N R) → Option (Strng × Messages Q N R) → Option (Strng × R) → Prop
  | sending {rest : List (ServerJsonRpcMessage Q N R)}
      (hrest : ∀ msg ∈ rest, ∀ id result, msg ≠ .response id result) :
      Shows t rest (some (t.name, t.stream rest)) none
  | done : Shows t [] none (some (t.name, t.result))

variable {t : Target Q N R} {rest : List (ServerJsonRpcMessage Q N R)} {k : Strng}
  {kept : Option (Strng × R)} {more : Messages Q N R}

theorem Shows.response {id : RequestId} {result : R}
    (h : Shows t rest (some (k, .ok (.response id result) :: more)) kept) :
    rest = [] ∧ k = t.name ∧ result = t.result := by
  generalize hs : some (k, Except.ok (.response id result) :: more) = o at h
  cases h with
  | done => cases hs
  | sending hrest =>
    obtain ⟨rfl, hmsgs⟩ := Prod.mk.inj (Option.some.inj hs)
    cases rest with
    | nil =>
      cases hmsgs
      exact ⟨rfl, rfl, rfl⟩
    | cons msg rest =>
      cases hmsgs
      exact absurd rfl (hrest _ mem_cons_self id result)

theorem Shows.message (hmsg : ∀ id result, msg ≠ .response id result)
    (h : Shows t rest (some (k, .ok msg :: more)) kept) :
    ∃ rest', rest = msg :: rest' ∧ Shows t rest' (some (k, more)) kept := by
  generalize hs : some (k, Except.ok msg :: more) = o at h
  cases h with
  | done => cases hs
  | sending hrest =>
    obtain ⟨rfl, hmsgs⟩ := Prod.mk.inj (Option.some.inj hs)
    cases rest with
    | nil =>
      cases hmsgs
      exact absurd rfl (hmsg _ _)
    | cons msg' rest =>
      cases hmsgs
      exact ⟨rest, rfl, .sending fun m hm => hrest m (mem_cons_of_mem _ hm)⟩

theorem Shows.not_failed {msgs : Messages Q N R} (h : Shows t rest (some (k, msgs)) kept) :
    ¬ (msgs = [] ∨ ∃ e more, msgs = .error e :: more) := by
  generalize hs : some (k, msgs) = o at h
  cases h with
  | done => cases hs
  | sending hrest =>
    obtain ⟨rfl, rfl⟩ := Prod.mk.inj (Option.some.inj hs)
    unfold stream
    cases rest <;> simp

end Target

namespace MergeStream

/-- The streams show the targets, with `rests` to go. -/
structure Showing (targets : List (Target Q N R)) (rests : List (List (ServerJsonRpcMessage Q N R)))
    (s : MergeStream Q N R) : Prop where
  rests_length : rests.length = targets.length
  streams_length : s.streams.length = targets.length
  kept_length : s.terminalMessages.length = targets.length
  shows : ∀ {i : Nat} {t rest o kept}, targets[i]? = some t →
    rests[i]? = some rest → s.streams[i]? = some o →
    s.terminalMessages[i]? = some kept → t.Shows rest o kept

variable {targets : List (Target Q N R)}
  {rests : List (List (ServerJsonRpcMessage Q N R))} {i : Nat}

section

variable (h : Showing targets rests s)
include h

theorem Showing.at (hi : i < targets.length) :
    ∃ t rest o kept, targets[i]? = some t ∧ rests[i]? = some rest
      ∧ s.streams[i]? = some o ∧ s.terminalMessages[i]? = some kept ∧ t.Shows rest o kept := by
  have hget : ∀ {A : Type} {l : List A}, l.length = targets.length → ∃ a, l[i]? = some a := by
    intro A l hl
    exact ⟨_, getElem?_eq_getElem (hl ▸ hi)⟩
  obtain ⟨t, ht⟩ := hget (rfl : targets.length = targets.length)
  obtain ⟨rest, hrest⟩ := hget h.rests_length
  obtain ⟨o, ho⟩ := hget h.streams_length
  obtain ⟨kept, hkept⟩ := hget h.kept_length
  exact ⟨t, rest, o, kept, ht, hrest, ho, hkept, h.shows ht hrest ho hkept⟩

theorem Showing.of_stream {o : Option (Strng × Messages Q N R)}
    (hi : s.streams[i]? = some o) : ∃ t rest kept, targets[i]? = some t ∧ rests[i]? = some rest
      ∧ s.terminalMessages[i]? = some kept ∧ t.Shows rest o kept := by
  have hlt : i < targets.length := by
    rw [← h.streams_length]
    exact (List.getElem?_eq_some_iff.1 hi).1
  obtain ⟨t, rest, o', kept, ht, hrest, ho, hkept, hshows⟩ := h.at hlt
  rw [hi] at ho
  cases ho
  exact ⟨t, rest, kept, ht, hrest, hkept, hshows⟩

theorem Showing.set {t : Target Q N R} {rest o kept}
    (ht : targets[i]? = some t) (hshows : t.Shows rest o kept)
    (hstreams : s'.streams = s.streams.set i o)
    (hkept : s'.terminalMessages = s.terminalMessages.set i kept) :
    Showing targets (rests.set i rest) s' := by
  refine ⟨by simpa using h.rests_length, by simpa [hstreams] using h.streams_length,
    by simpa [hkept] using h.kept_length, ?_⟩
  rw [hstreams, hkept]
  intro j t' rest' o' kept' ht' hrest' ho' hkept'
  by_cases hj : i = j
  · subst hj
    rw [getElem?_set_self'] at hrest' ho' hkept'
    obtain ⟨_, -, rfl⟩ := Option.map_eq_some_iff.1 hrest'
    obtain ⟨_, -, rfl⟩ := Option.map_eq_some_iff.1 ho'
    obtain ⟨_, -, rfl⟩ := Option.map_eq_some_iff.1 hkept'
    cases ht.symm.trans ht'
    exact hshows
  · rw [getElem?_set_ne hj] at hrest' ho' hkept'
    exact h.shows ht' hrest' ho' hkept'

theorem showing_absorb (habs : Absorb s s') : Showing targets rests s' := by
  cases habs with
  | @response i k id result more hi =>
    obtain ⟨t, rest, kept, ht, hrest, -, hshows⟩ := h.of_stream hi
    obtain ⟨rfl, rfl, rfl⟩ := hshows.response
    rw [← set_of_getElem? hrest]
    exact h.set ht .done rfl rfl
  | @failure i k msgs hmode hi hmsgs =>
    obtain ⟨t, rest, kept, -, -, -, hshows⟩ := h.of_stream hi
    exact absurd hmsgs hshows.not_failed

theorem showing_absorbs (habs : ReflTransGen Absorb s s') : Showing targets rests s' := by
  induction habs with
  | refl => exact h
  | tail _ hstep ih => exact showing_absorb ih hstep

theorem showing_end (hnone : ∀ i, ¬ s.Live i) : (∀ rest ∈ rests, rest = [])
      ∧ s.terminalMessages = targets.map fun t => some (t.name, t.result) := by
  have hdone : ∀ {i : Nat} {t : Target Q N R} {rest o kept}, targets[i]? = some t →
      rests[i]? = some rest → s.streams[i]? = some o →
      t.Shows rest o kept → rest = [] ∧ kept = some (t.name, t.result) := by
    intro i t rest o kept ht hrest ho hshows
    cases hshows with
    | sending _ => exact absurd ⟨_, _, ho⟩ (hnone i)
    | done => exact ⟨rfl, rfl⟩
  refine ⟨fun rest hmem => ?_, ext_getElem? fun i => ?_⟩
  · obtain ⟨i, hlt, hi⟩ := getElem_of_mem hmem
    obtain ⟨t, rest', o, kept, ht, hrest, ho, -, hshows⟩ := h.at (h.rests_length ▸ hlt)
    rw [getElem?_eq_getElem hlt, hi] at hrest
    cases hrest
    exact (hdone ht (by rw [getElem?_eq_getElem hlt, hi]) ho hshows).1
  · by_cases hlt : i < targets.length
    · obtain ⟨t, rest, o, kept, ht, hrest, ho, hkept, hshows⟩ := h.at hlt
      rw [hkept, getElem?_map, ht, (hdone ht hrest ho hshows).2]
      rfl
    · rw [getElem?_eq_none (by rw [h.kept_length]; exact Nat.le_of_not_lt hlt),
        getElem?_eq_none (by simpa using hlt)]

end

/-- The item the merge of the results comes to. -/
def mergedItem (reqId : RequestId) (merged : Except ClientError R) : Item Q N R :=
  match merged with
  | .ok res => .ok (.response reqId res)
  | .error e => .error e

/-- The output of a stream before and after the merge. -/
inductive Merging (targets : List (Target Q N R)) (reqId : RequestId)
    (merge : MergeFn R) (s : MergeStream Q N R) : List (Item Q N R) → Prop
  | before {out : List (ServerJsonRpcMessage Q N R)}
      {rests : List (List (ServerJsonRpcMessage Q N R))}
      (hc : s.complete = false) (hid : s.reqId = reqId)
      (hmerge : s.merge = some merge) (hshows : Showing targets rests s)
      (htaken : Taken (targets.map Target.messages) out rests) :
      Merging targets reqId merge s (out.map .ok)
  | after {out : List (ServerJsonRpcMessage Q N R)} (hc : s.complete)
      (hout : Interleave (targets.map Target.messages) out) :
      Merging targets reqId merge s (out.map .ok
        ++ [mergedItem reqId (merge (targets.map fun t => (t.name, t.result)))])

theorem merging_step {reqId : RequestId}
    (hc : s.complete = false) (h : Merging targets reqId merge s out)
    (hres : PollResult s ready res) : Merging targets reqId merge res.2 (out ++ emitted res.1) := by
  cases h with
  | after hc' => rw [hc] at hc'; cases hc'
  | @before out rests _ hid hmerge hshows htaken =>
    cases hres with
    | @forward mid i k msg more habs hi hmsg =>
      obtain ⟨hid', hmerge', hc', -⟩ := absorbs_frame habs
      have hmid := showing_absorbs hshows habs
      obtain ⟨t, rest, kept, ht, hrest, hkept, hshow⟩ := hmid.of_stream hi
      obtain ⟨rest', rfl, hnext⟩ := hshow.message hmsg
      dsimp only [emitted]
      rw [show out.map .ok ++ [(.ok msg : Item Q N R)] = (out ++ [msg]).map .ok by simp]
      have hset : Showing targets (rests.set i rest')
          { mid with streams := mid.streams.set i (some (k, more)) } :=
        hmid.set ht hnext rfl (set_of_getElem? hkept).symm
      refine .before (hc'.trans hc) (hid'.trans hid) (hmerge'.trans hmerge) hset ?_
      intro more hmore
      rw [append_assoc]
      exact htaken _ (.take hrest hmore)
    | @fail mid s' i k e msgs habs hi hmsgs hs' hid' =>
      have hmid := showing_absorbs hshows habs
      obtain ⟨t, rest, kept, -, -, -, hshow⟩ := hmid.of_stream hi
      exact absurd hmsgs hshow.not_failed
    | pending habs hlive hidle =>
      obtain ⟨hid', hmerge', hc', -⟩ := absorbs_frame habs
      dsimp only [emitted]
      rw [append_nil]
      exact .before (hc'.trans hc) (hid'.trans hid) (hmerge'.trans hmerge)
        (showing_absorbs hshows habs) htaken
    | @finish mid habs hnone =>
      obtain ⟨hid', hmerge', -, -⟩ := absorbs_frame habs
      obtain ⟨hrests, hkept⟩ := showing_end (showing_absorbs hshows habs) hnone
      rw [finish_of_merge (hmerge'.trans hmerge), hkept, hid'.trans hid]
      have hresults : (targets.map fun t => some (t.name, t.result)).filterMap id
          = targets.map fun t => (t.name, t.result) := by
        rw [filterMap_map]
        exact congrFun filterMap_eq_map targets
      rw [hresults]
      exact .after (finish_complete mid) (htaken.done hrests)

/-- For upstreams that come to a response, the client gets their messages
as some interleaving, each once and in the order of its upstream, and
then the merge of the results in the order of the targets. -/
theorem fanout_schedule_independent (targets : List (Target Q N R))
    (reqId : RequestId) (merge : MergeFn R) (failureMode : FailureMode)
    (sched : Nat → Nat → Bool) (hfair : Fair sched) :
    ∃ n out, Interleave (targets.map Target.messages) out ∧ ∀ m, n ≤ m →
        ((new (targets.map fun t => (t.name, t.stream t.messages)) reqId merge
            failureMode).run sched m).2 = out.map .ok ++ [mergedItem reqId
              (merge (targets.map fun t => (t.name, t.result)))] := by
  let s := new (targets.map fun t => (t.name, t.stream t.messages)) reqId merge failureMode
  obtain ⟨n, hc⟩ := run_completes hfair s
  have hinit : Merging targets reqId merge (s.run sched 0).1 (s.run sched 0).2 := by
    have hshows : Showing targets (targets.map Target.messages) s := by
      refine ⟨by simp, by simp [s, new, newInternal], by simp [s, new, newInternal], ?_⟩
      intro i t rest o kept ht hrest ho hkept
      dsimp only [s, new, newInternal] at ho hkept
      rw [List.map_map, getElem?_map, ht] at ho hkept
      rw [getElem?_map, ht] at hrest
      cases hrest
      cases ho
      cases hkept
      exact .sending t.unanswered
    exact .before rfl rfl rfl hshows (taken_nil _)
  have hrun := run_inv (Merging targets reqId merge) hinit merging_step n.zero_le
  generalize hout : (s.run sched n).2 = out at hrun
  cases hrun with
  | before hc' => rw [hc] at hc'; cases hc'
  | @after out _ hinter =>
    refine ⟨n, out, hinter, fun m hm => ?_⟩
    rw [run_complete hc hm]
    exact hout

/-- Two targets, the first with messages before its response. -/
def talkingTargets : List (Target Unit Unit Nat) :=
  [⟨"a", [.notification (), .request (.number 3) ()], .number 7, 1, by simp⟩,
    ⟨"b", [.notification ()], .number 7, 2, by simp⟩]

def listMerge : MergeFn Nat := fun results => .ok (results.foldl (10 * · + ·.2) 0)

theorem fanout_schedule_independent_sample :
    ∃ n out, Interleave (talkingTargets.map Target.messages) out ∧ ∀ m, n ≤ m →
        ((new (talkingTargets.map fun t => (t.name, t.stream t.messages))
            (.number 7) listMerge .failClosed).run allReady m).2
          = out.map .ok ++ [mergedItem (.number 7)
              (listMerge (talkingTargets.map fun t => (t.name, t.result)))] :=
  fanout_schedule_independent talkingTargets (.number 7) listMerge .failClosed
    allReady fair_allReady

end MergeStream

end AgentGateway.Mcp
