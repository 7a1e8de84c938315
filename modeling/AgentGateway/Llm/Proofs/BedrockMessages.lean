/-
When the Messages stream of a Converse stream is well formed.

What is said about one block is a list of marks: it is started, gets deltas,
and is stopped (`Lives`, an automaton, since an index may be used again). The
marks are a function of the events alone (`marksRun`): the table of seen blocks
is the set of open ones.

# Where it breaks

A block that has no start is started only by a first delta of text or of
reasoning. If it has no delta, or an empty one or one of a tool first, its
deltas and its stop come without a start; so every block has to be opened by
its first event (`Opened`, `lives_iff`). And without a usage there is no delta
of the message, and no stop reason.
-/
import AgentGateway.Llm.Conversion.Bedrock

namespace AgentGateway.Llm.BedrockMessages

open Lib Converse Emitter List

variable {J : Type}

-- ======== marks

inductive BlockMark
  | start
  | delta
  | stop
  deriving DecidableEq

/-- What is said about the block with an index. -/
def blockMark (n : Nat) : Sent J → Option BlockMark
  | .event (.contentBlockStart m _) => if m = n then some .start else none
  | .event (.contentBlockDelta m _) => if m = n then some .delta else none
  | .event (.contentBlockStop m) => if m = n then some .stop else none
  | _ => none

/-- A block is open after its start, and after its stop it is not. -/
def nextMark : Bool → BlockMark → Option Bool
  | false, .start => some true
  | true, .delta => some true
  | true, .stop => some false
  | _, _ => none

/-- Starts, deltas and stops in their order, and what was started is
stopped. -/
def Lives (marks : List BlockMark) : Prop := marks.foldlM nextMark false = some false

def isMessageStart : Sent J → Bool
  | .event (.messageStart _) => true
  | _ => false

/-- The delta of the message, or its stop. -/
def isMessageEnd : Sent J → Bool
  | .event (.messageDelta _ _) => true
  | .event .messageStop => true
  | _ => false

/-- The stream of a message with these blocks. -/
structure Streamed (blocks : List ConverseStreamOutput) (reason : StopReason)
    (out : List (Sent J)) : Prop where
  /-- the message is started first, and once -/
  message_start : ∃ message rest, out = .event (.messageStart message) :: rest
    ∧ ∀ e ∈ rest, isMessageStart e = false
  /-- every block is started before its deltas and its stop -/
  lives : ∀ i, Lives (out.filterMap (blockMark (toUsize i)))
  /-- and every block is there -/
  stops : ∀ i, (out.filterMap (blockMark (toUsize i))).count .stop
    = blocks.count (.contentBlockStop i)
  /-- the stop reason comes in the only delta of the message, and its stop last -/
  message_end : ∃ pre usage, out = pre
      ++ [.event (.messageDelta ⟨some (translateStopReason reason), none⟩ usage),
        .event .messageStop]
    ∧ ∀ e ∈ pre, isMessageEnd e = false

-- ======== opened

def index? : ConverseStreamOutput → Option Int32
  | .contentBlockStart i _ => some i
  | .contentBlockDelta i _ => some i
  | .contentBlockStop i => some i
  | _ => none

/-- The event can be the first of a block. -/
def opens : ConverseStreamOutput → Bool
  | .contentBlockStart _ _ => true
  | .contentBlockDelta _ (some (.text _)) => true
  | .contentBlockDelta _ (some (.reasoningContent _)) => true
  | _ => false

def nextOpened (live : List Int32) (e : ConverseStreamOutput) : Option (List Int32) :=
  if (index? e).all (fun i => i ∈ live || opens e) then nextLive live e else none

/-- Every block has a start, or a first delta of text or of reasoning. -/
def Opened (events : List ConverseStreamOutput) : Prop :=
  events.foldlM nextOpened [] = some []

instance (events : List ConverseStreamOutput) : Decidable (Opened events) :=
  inferInstanceAs (Decidable (_ = _))

/-- What is said for an event about its block. -/
def marksOf (seen : Bool) (e : ConverseStreamOutput) : List BlockMark :=
  match e with
  | .contentBlockStart _ _ => [.start]
  | .contentBlockDelta _ delta =>
    (if !seen && opens e then [.start] else []) ++ delta.toList.map fun _ => .delta
  | .contentBlockStop _ => [.stop]
  | _ => []

/-- What is said about one block for events, after which blocks `live` were
open. -/
def marksRun (i : Int32) : List Int32 → List ConverseStreamOutput → List BlockMark
  | _, [] => []
  | live, e :: rest =>
    (if index? e = some i then marksOf (decide (i ∈ live)) e else [])
      ++ marksRun i ((nextLive live e).getD live) rest

variable {live live' : List Int32} {e : ConverseStreamOutput} {i : Int32}

theorem mem_nextLive_of_ne (h : nextLive live e = some live') (hi : index? e ≠ some i) :
    i ∈ live' ↔ i ∈ live := by
  cases e with
  | messageStart | messageStop | metadata => cases h
  | contentBlockStart j start =>
    have hne : i ≠ j := fun heq => hi (heq ▸ rfl)
    rw [nextLive, Option.ite_none_left_eq_some] at h
    cases h.2
    simp [hne]
  | contentBlockDelta j delta | contentBlockStop j =>
    have hne : i ≠ j := fun heq => hi (heq ▸ rfl)
    cases h
    simp [hne]

theorem lives_step (h : nextOpened live e = some live') (i : Int32) :
    (if index? e = some i then marksOf (decide (i ∈ live)) e else []).foldlM nextMark
      (decide (i ∈ live)) = some (decide (i ∈ live')) := by
  rw [nextOpened, Option.ite_none_right_eq_some] at h
  obtain ⟨hopen, h⟩ := h
  by_cases hi : index? e = some i
  · rw [if_pos hi]
    rw [hi] at hopen
    simp only [Option.all_some, Bool.or_eq_true, decide_eq_true_eq] at hopen
    cases e with
    | messageStart | messageStop | metadata => cases h
    | contentBlockStart j start =>
      cases hi
      rw [nextLive, Option.ite_none_left_eq_some] at h
      obtain ⟨hnot, h⟩ := h
      cases h
      simp [hnot, marksOf, nextMark]
    | contentBlockDelta j delta =>
      cases hi
      cases h
      by_cases hlive : i ∈ live
      · cases delta <;> simp [hlive, marksOf, nextMark]
      · have hopens := hopen.resolve_left hlive
        cases delta with
        | none => cases hopens
        | some d => simp [hlive, marksOf, hopens, nextMark]
    | contentBlockStop j =>
      cases hi
      cases h
      have hlive := hopen.resolve_right (by simp [opens])
      simp [hlive, marksOf, nextMark]
  · rw [if_neg hi]
    have hmem := mem_nextLive_of_ne h hi
    simp [hmem]

theorem nextLive_of_nextOpened (h : nextOpened live e = some live') :
    nextLive live e = some live' := by
  rw [nextOpened, Option.ite_none_right_eq_some] at h
  exact h.2

theorem marksRun_cons (h : nextLive live e = some live') (rest : List ConverseStreamOutput) :
    marksRun i live (e :: rest) = (if index? e = some i then marksOf (decide (i ∈ live)) e else [])
        ++ marksRun i live' rest := by
  rw [marksRun, h]
  rfl

variable (events : List ConverseStreamOutput) {blocks : List ConverseStreamOutput} {j : Int32}

theorem lives_of_opened (h : events.foldlM nextOpened live = some live') (i : Int32) :
    (marksRun i live events).foldlM nextMark (decide (i ∈ live)) = some (decide (i ∈ live')) := by
  induction events generalizing live with
  | nil =>
    cases h
    rfl
  | cons e rest ih =>
    obtain ⟨live₁, he, hrest⟩ := foldlM_cons_eq_some.1 h
    rw [marksRun_cons (nextLive_of_nextOpened he), foldlM_append, lives_step he i]
    exact ih hrest

theorem missed (h : events.foldlM nextLive live = some []) (hi : i ∈ live) :
    (marksRun i live events).foldlM nextMark false = none := by
  induction events generalizing live with
  | nil =>
    cases h
    cases hi
  | cons e rest ih =>
    obtain ⟨live₁, he, hrest⟩ := foldlM_cons_eq_some.1 h
    rw [marksRun_cons he]
    by_cases hindex : index? e = some i
    · rw [if_pos hindex]
      cases e with
      | messageStart | messageStop | metadata => cases he
      | contentBlockStart j start =>
        cases hindex
        rw [nextLive, if_pos hi] at he
        cases he
      | contentBlockDelta j delta =>
        cases hindex
        cases he
        cases delta with
        | none =>
          have hnil : marksOf (decide (i ∈ live)) (.contentBlockDelta i none) = [] := by
            simp [marksOf, opens]
          rw [hnil]
          exact ih hrest mem_cons_self
        | some d =>
          have hdelta : marksOf (decide (i ∈ live)) (.contentBlockDelta i (some d)) = [.delta] := by
            simp [marksOf, hi]
          rw [hdelta]
          rfl
      | contentBlockStop j => rfl
    · rw [if_neg hindex]
      exact ih hrest ((mem_nextLive_of_ne he hindex).2 hi)

theorem missed_first (he : nextLive live e = some live') (hnot : nextOpened live e = none) :
    ∃ i, index? e = some i ∧ i ∉ live ∧ i ∈ live' ∧ marksOf (decide (i ∈ live)) e = []
      ∨ index? e = some i ∧ i ∉ live
        ∧ (marksOf (decide (i ∈ live)) e).foldlM nextMark false = none := by
  have hopen : ¬ (index? e).all (fun i => i ∈ live || opens e) := by
    intro hall
    rw [nextOpened, if_pos hall, he] at hnot
    cases hnot
  cases e with
  | messageStart | messageStop | metadata => cases he
  | contentBlockStart i start => simp [index?, opens] at hopen
  | contentBlockDelta i delta =>
    cases he
    simp only [index?, Option.all_some, Bool.or_eq_true, decide_eq_true_eq, not_or] at hopen
    obtain ⟨hlive, hopen⟩ := hopen
    refine ⟨i, ?_⟩
    cases delta with
    | none => exact Or.inl ⟨rfl, hlive, mem_cons_self, by simp [marksOf, hopen]⟩
    | some d => exact Or.inr ⟨rfl, hlive, by simp [marksOf, hopen, nextMark]⟩
  | contentBlockStop i =>
    simp only [index?, Option.all_some, Bool.or_eq_true, decide_eq_true_eq, not_or] at hopen
    exact ⟨i, Or.inr ⟨rfl, hopen.1, rfl⟩⟩

theorem not_lives (h : events.foldlM nextLive live = some [])
    (hnot : events.foldlM nextOpened live ≠ some []) :
    ∃ i, (marksRun i live events).foldlM nextMark (decide (i ∈ live)) = none := by
  induction events generalizing live with
  | nil => exact absurd h hnot
  | cons e rest ih =>
    rw [foldlM_cons] at h hnot
    obtain ⟨live₁, he, hrest⟩ := Option.bind_eq_some_iff.1 h
    cases hopened : nextOpened live e with
    | some live₂ =>
      have heq := (nextLive_of_nextOpened hopened).symm.trans he
      cases heq
      rw [hopened] at hnot
      obtain ⟨i, hi⟩ := ih hrest hnot
      refine ⟨i, ?_⟩
      rw [marksRun_cons he, foldlM_append, lives_step hopened i]
      exact hi
    | none =>
      obtain ⟨i, ⟨hindex, hlive, hlive₁, hnil⟩ | ⟨hindex, hlive, hnone⟩⟩ := missed_first he hopened
      · refine ⟨i, ?_⟩
        rw [marksRun_cons he, if_pos hindex, hnil, decide_eq_false hlive]
        exact missed rest hrest hlive₁
      · refine ⟨i, ?_⟩
        rw [marksRun_cons he, if_pos hindex, foldlM_append, decide_eq_false hlive]
        rw [decide_eq_false hlive] at hnone
        rw [hnone]
        rfl

theorem lives_iff (h : Blocks blocks) : (∀ i, Lives (marksRun i [] blocks)) ↔ Opened blocks := by
  constructor
  · intro hlives
    by_contra hnot
    obtain ⟨i, hi⟩ := not_lives blocks h hnot
    have hlive := hlives i
    rw [decide_eq_false not_mem_nil, hlive] at hi
    cases hi
  · intro hopened i
    exact lives_of_opened blocks hopened i

-- ======== the model

theorem toUsize_inj : toUsize i = toUsize j ↔ i = j := by
  constructor
  · intro h
    have hinj : ∀ a b : Int64, a.toUInt64 = b.toUInt64 → a = b := by
      intro a b hab
      exact congrArg Int64.ofUInt64 hab
    have h64 : i.toInt64.toInt = j.toInt64.toInt :=
      congrArg Int64.toInt (hinj _ _ (UInt64.toNat_inj.1 h))
    rw [Int32.toInt_toInt64, Int32.toInt_toInt64] at h64
    exact Int32.toInt_inj.1 h64
  · rintro rfl
    rfl

/-- The table of seen blocks is the set of open ones. -/
def Seen (live : List Int32) (s : StreamState) : Prop :=
  ∀ i, s.seenBlocks.contains i = decide (i ∈ live)

abbrev step (js : Serde J) (id model : Strng) (e : ConverseStreamOutput) : Translate J Unit :=
  translateEvent js id model (some e)

variable {js : Serde J} {id model : Strng} {s : StreamState} (reason : StopReason)
  (usage : Option TokenUsage)

/-- What an event of a block does. -/
structure BlockStep (live' : List Int32) (marks : Int32 → List BlockMark)
    (s s' : StreamState) (out : List (Sent J)) : Prop where
  seen : Seen live' s'
  stop : s'.pendingStopReason = s.pendingStopReason
  usage : s'.pendingUsage = s.pendingUsage
  marks : ∀ i, out.filterMap (blockMark (toUsize i)) = marks i
  start : ∀ e ∈ out, isMessageStart e = false
  ended : ∀ e ∈ out, isMessageEnd e = false

theorem Seen.insert (hs : Seen live s) (j i : Int32) :
    (s.seenBlocks.insert j ()).contains i = decide (i ∈ j :: live) := by
  rw [Bool.eq_iff_iff, AssocMap.contains_insert, hs i]
  simp

theorem Seen.erase (hs : Seen live s) (j i : Int32) :
    (s.seenBlocks.erase j).contains i = decide (i ∈ live.filter (· ≠ j)) := by
  rw [Bool.eq_iff_iff, AssocMap.contains_erase, hs i]
  simp [and_comm]

theorem delta_seen (h : s.seenBlocks.contains j) (delta : Option ContentBlockDelta) :
    step js id model (.contentBlockDelta j delta) s = ((), s, delta.toList.map fun d =>
      .event (.contentBlockDelta (toUsize j) (anthropicDelta d))) := by
  show (do synthesizeStart j delta; delta.forM _ : Translate J Unit) s = _
  rw [bind_apply, synthesizeStart, get_bind_apply, if_pos h]
  cases delta <;> rfl

theorem delta_first (h : s.seenBlocks.contains j = false)
    (delta : Option ContentBlockDelta) : step js id model (.contentBlockDelta j delta) s
      = ((), { s with seenBlocks := s.seenBlocks.insert j () },
        ((delta.bind deltaBlock).toList.map fun block =>
          .event (.contentBlockStart (toUsize j) block))
        ++ delta.toList.map fun d =>
          .event (.contentBlockDelta (toUsize j) (anthropicDelta d))) := by
  show (do synthesizeStart j delta; delta.forM _ : Translate J Unit) s = _
  rw [bind_apply, synthesizeStart, get_bind_apply, if_neg (by simp [h])]
  cases delta with
  | none => rfl
  | some d => cases d <;> rfl

theorem blockStep (h : nextLive live e = some live') (hs : Seen live s) :
    BlockStep live' (fun i => if index? e = some i then marksOf (decide (i ∈ live)) e else []) s
      (step js id model e s).2.1 (step js id model e s).2.2 := by
  cases e with
  | messageStart | messageStop | metadata => cases h
  | contentBlockStart j start =>
    rw [nextLive, Option.ite_none_left_eq_some] at h
    obtain ⟨hj, h⟩ := h
    cases h
    have hout : (step js id model (.contentBlockStart j start) s).2.2
        = [.event (.contentBlockStart (toUsize j) (startBlock js start))] := rfl
    rw [hout]
    refine ⟨hs.insert j, rfl, rfl, ?_, by simp [isMessageStart], by simp [isMessageEnd]⟩
    intro i
    by_cases hij : j = i <;> simp [blockMark, toUsize_inj, index?, marksOf, hij]
  | contentBlockDelta j delta =>
    cases h
    cases hseen : s.seenBlocks.contains j with
    | true =>
      have hj : j ∈ live := by
        rw [hs j] at hseen
        exact of_decide_eq_true hseen
      rw [delta_seen hseen]
      refine ⟨?_, rfl, rfl, ?_, ?_, ?_⟩
      · intro i
        rw [hs i]
        by_cases hij : i = j <;> simp [hij, hj]
      · intro i
        by_cases hij : j = i
        · subst hij
          cases delta <;> simp [blockMark, index?, marksOf, hj]
        · cases delta <;> simp [blockMark, toUsize_inj, index?, hij]
      · cases delta <;> simp [isMessageStart]
      · cases delta <;> simp [isMessageEnd]
    | false =>
      have hj : j ∉ live := by
        rw [hs j] at hseen
        exact of_decide_eq_false hseen
      rw [delta_first hseen]
      refine ⟨hs.insert j, rfl, rfl, ?_, ?_, ?_⟩
      · intro i
        by_cases hij : j = i
        · subst hij
          rcases delta with - | ⟨- | - | -⟩ <;>
            simp [blockMark, index?, marksOf, opens, deltaBlock, hj]
        · rcases delta with - | ⟨- | - | -⟩ <;>
            simp [blockMark, toUsize_inj, index?, deltaBlock, hij]
      · rcases delta with - | ⟨- | - | -⟩ <;> simp [isMessageStart, deltaBlock]
      · rcases delta with - | ⟨- | - | -⟩ <;> simp [isMessageEnd, deltaBlock]
  | contentBlockStop j =>
    cases h
    have hout : (step js id model (.contentBlockStop j) s).2.2
        = [.event (.contentBlockStop (toUsize j))] := rfl
    rw [hout]
    refine ⟨hs.erase j, rfl, rfl, ?_, by simp [isMessageStart], by simp [isMessageEnd]⟩
    intro i
    by_cases hij : j = i <;> simp [blockMark, toUsize_inj, index?, marksOf, hij]

theorem blocks_run (h : events.foldlM nextLive live = some live') (hs : Seen live s) :
    BlockStep live' (fun i => marksRun i live events) s
      (runAll (step js id model) s events).1 (runAll (step js id model) s events).2 := by
  induction events generalizing live s with
  | nil =>
    cases h
    exact ⟨hs, rfl, rfl, fun _ => rfl, by simp [runAll], by simp [runAll]⟩
  | cons e rest ih =>
    obtain ⟨live₁, he, hrest⟩ := foldlM_cons_eq_some.1 h
    have hfirst : BlockStep live₁ _ s (step js id model e s).2.1
      (step js id model e s).2.2 := blockStep he hs
    have hlast := ih hrest hfirst.seen
    rw [runAll_cons]
    refine ⟨hlast.seen, hlast.stop.trans hfirst.stop, hlast.usage.trans hfirst.usage, ?_, ?_, ?_⟩
    · intro i
      rw [filterMap_append, hfirst.marks, hlast.marks, marksRun_cons he]
    · intro x hx
      exact (mem_append.1 hx).elim (hfirst.start x) (hlast.start x)
    · intro x hx
      exact (mem_append.1 hx).elim (hfirst.ended x) (hlast.ended x)

theorem count_stop (live : List Int32) (i : Int32) :
    (marksRun i live events).count .stop = events.count (.contentBlockStop i) := by
  induction events generalizing live with
  | nil => rfl
  | cons e rest ih =>
    rw [marksRun, count_append, ih, Nat.add_comm]
    cases e with
    | messageStart | messageStop | metadata => rfl
    | contentBlockStart j start => by_cases hj : j = i <;> simp [index?, marksOf, hj]
    | contentBlockDelta j delta =>
      have hcount : (marksOf (decide (i ∈ live)) (.contentBlockDelta j delta)).count .stop = 0 := by
        refine count_eq_zero.2 fun hmem => ?_
        cases delta <;> simp [marksOf] at hmem
      split
      · rw [hcount]
        rfl
      · rfl
    | contentBlockStop j => by_cases hj : j = i <;> simp [index?, marksOf, hj]

def ends (reason : StopReason) (usage : Option TokenUsage) : List (Sent J) :=
  (usage.toList.map fun u =>
    .event (.messageDelta ⟨some (translateStopReason reason), none⟩
      (toAnthropicMessageDeltaUsage u))) ++ [.event .messageStop]

theorem translateStream_converse (h : Blocks blocks)
    (js : Serde J) (id model : Strng) (reason : StopReason) (usage : Option TokenUsage) :
    translateStream js id model ((converse blocks reason usage).map some)
      = .event (.messageStart (startMessage id model))
        :: ((runAll (step js id model) initial blocks).2 ++ ends reason usage) := by
  have hrun : BlockStep [] _ initial (runAll (step js id model) initial blocks).1
    (runAll (step js id model) initial blocks).2 := blocks_run blocks h fun _ => rfl
  have hend : (runAll (step js id model) (runAll (step js id model) initial blocks).1
      [.messageStop reason, .metadata usage]).2 = ends reason usage := by
    have husage := hrun.usage
    generalize (runAll (step js id model) initial blocks).1 = s at husage
    obtain ⟨seen, stop, pending⟩ := s
    cases husage
    cases usage <;> rfl
  rw [translateStream, runAll_map, converse, cons_append, runAll_cons, runAll_append, ← hend]
  rfl

-- ======== result

theorem ends_start : ∀ x ∈ (ends reason usage : List (Sent J)), isMessageStart x = false := by
  cases usage <;> simp [ends, isMessageStart]

theorem ends_marks (n : Nat) :
    (ends reason usage : List (Sent J)).filterMap (blockMark n) = [] := by
  cases usage <;> rfl

theorem bedrock_messages_iff {blocks : List ConverseStreamOutput} (h : Blocks blocks)
    (js : Serde J) (id model : Strng) (reason : StopReason) (usage : Option TokenUsage) :
    Streamed blocks reason (translateStream js id model ((converse blocks reason usage).map some))
      ↔ usage.isSome ∧ Opened blocks := by
  have hrun : BlockStep [] _ initial (runAll (step js id model) initial blocks).1
    (runAll (step js id model) initial blocks).2 := blocks_run blocks h fun _ => rfl
  rw [translateStream_converse h]
  generalize (runAll (step js id model) initial blocks).2 = out at hrun
  have hmarks : ∀ i, (Sent.event (.messageStart (startMessage id model))
      :: (out ++ ends reason usage) : List (Sent J)).filterMap (blockMark (toUsize i))
      = marksRun i [] blocks := by
    intro i
    rw [filterMap_cons_none rfl, filterMap_append, ends_marks, append_nil, hrun.marks]
  constructor
  · intro hstreamed
    constructor
    · obtain ⟨pre, u, heq, -⟩ := hstreamed.message_end
      cases usage with
      | some u => rfl
      | none =>
        -- the event before the stop of the message would be its delta
        rw [append_cons, ← cons_append] at heq
        have hmem := append_cancel_right heq ▸ mem_append_right pre
          (mem_singleton_self (Sent.event (.messageDelta
            ⟨some (translateStopReason reason), none⟩ u)))
        rcases mem_cons.1 hmem with hstart | hout
        · cases hstart
        · exact absurd (hrun.ended _ hout) (by simp [isMessageEnd])
    · rw [← lives_iff h]
      intro i
      rw [← hmarks i]
      exact hstreamed.lives i
  · intro hcond
    obtain ⟨husage, hopened⟩ := hcond
    obtain ⟨u, rfl⟩ := Option.isSome_iff_exists.1 husage
    refine ⟨⟨_, _, rfl, ?_⟩, ?_, ?_, ?_⟩
    · intro x hx
      exact (mem_append.1 hx).elim (hrun.start x) (ends_start reason (some u) x)
    · intro i
      rw [hmarks i]
      exact (lives_iff h).2 hopened i
    · intro i
      rw [hmarks i]
      exact count_stop blocks [] i
    · refine ⟨.event (.messageStart (startMessage id model)) :: out, _, rfl, ?_⟩
      exact forall_mem_cons.2 ⟨rfl, hrun.ended⟩

/-- A block of text that starts with its first delta, and a tool call. -/
def sampleBlocks : List ConverseStreamOutput :=
  [.contentBlockDelta 0 (some (.text "hi")), .contentBlockStop 0,
    .contentBlockStart 1 (some (.toolUse "t" "f")),
    .contentBlockDelta 1 (some (.toolUse "1")), .contentBlockStop 1]

theorem bedrock_messages_sample : Blocks sampleBlocks ∧ Streamed sampleBlocks .toolUse
      (translateStream textSerde "id" "m"
        ((converse sampleBlocks .toolUse (some ⟨1, 2, 3, none, none⟩)).map some)) := by
  have hblocks : Blocks sampleBlocks := by decide
  exact ⟨hblocks, (bedrock_messages_iff hblocks textSerde "id" "m" .toolUse _).2 ⟨rfl, by decide⟩⟩

/-- Without a usage there is no stop reason, and a block without deltas is
stopped and not started. -/
theorem bedrock_messages_cut_short :
    let text := [ConverseStreamOutput.contentBlockDelta 0 (some (.text "hi")), .contentBlockStop 0]
    let empty := [ConverseStreamOutput.contentBlockStop 0]
    Blocks text ∧ Blocks empty
      ∧ translateStream textSerde "id" "m" ((converse text .endTurn none).map some)
        = [.event (.messageStart (startMessage "id" "m")), .event (.contentBlockStart 0 (.text "")),
          .event (.contentBlockDelta 0 (.textDelta "hi")),
          .event (.contentBlockStop 0), .event .messageStop] ∧ translateStream textSerde "id" "m"
          ((converse empty .endTurn (some ⟨1, 2, 3, none, none⟩)).map some)
        = [.event (.messageStart (startMessage "id" "m")), .event (.contentBlockStop 0),
          .event (.messageDelta ⟨some .endTurn, none⟩ ⟨some 1, some 2, none, none⟩),
          .event .messageStop] := by
  refine ⟨by decide, by decide, ?_, ?_⟩ <;> decide +kernel

end AgentGateway.Llm.BedrockMessages
