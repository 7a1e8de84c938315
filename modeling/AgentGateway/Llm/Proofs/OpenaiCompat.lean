/-
When the Responses stream of a Chat Completions stream is well formed.

Chunk by chunk the response is going on (`Going`), then it is over (`Over`):
from the chunk on with which a finish reason and a usage have both come, or
from `[DONE]` on. What is sent for a chunk after that opens an item that
nothing will close (`Unfinished`).

# Where it breaks

A `[DONE]` without a chunk ends a response that was not created; without
`[DONE]` a response may never end; deltas after the end are sent; and the text
at the end of the content part and of the message is empty, whatever the deltas
were. If none of this happens the stream is well formed, and only then
(`compat_wellFormed_iff`).
-/
import AgentGateway.Llm.Conversion.Chat
import AgentGateway.Llm.Proofs.ResponsesCalls
import Mathlib.Data.List.ReduceOption

namespace AgentGateway.Llm.OpenaiCompat

open Lib Responses Completions Emitter List AssocMap ResponseStreamEvent
open FromMessages (SseJsonEvent)

-- ======== chunks

def content? (c : StreamResponse) : Option Strng :=
  c.choices.head?.bind (·.delta.content)

def calls (c : StreamResponse) : List ToolCallChunk :=
  (c.choices.head?.bind (·.delta.toolCalls)).getD []

def finish? (c : StreamResponse) : Option FinishReason :=
  c.choices.head?.bind (·.finishReason)

/-- A finish reason and a usage have come. -/
def complete (cs : List StreamResponse) : Bool :=
  cs.any (fun c => (finish? c).isSome) && cs.any (fun c => c.usage.isSome)

/-- The chunk has nothing for the response. -/
def Silent (c : StreamResponse) : Prop := content? c = none ∧ calls c = []

instance (c : StreamResponse) : Decidable (Silent c) :=
  inferInstanceAs (Decidable (_ ∧ _))

/-- A chunk, once the response is created. -/
def onCreated (ids : Ids) (c : StreamResponse) : Compat Unit := do
  modify fun s => { s with rest.usage := c.usage.or s.rest.usage }
  (content? c).forM (onContent ids)
  (calls c).forM (onToolCall ids)
  modify fun s => { s with rest.stopReason := (finish? c).or s.rest.stopReason }
  flushIfComplete ids

theorem onChunk_eq (ids : Ids) (c : StreamResponse) :
    onChunk ids c = (do ensureCreated ids c.model; onCreated ids c) := by
  unfold onChunk onCreated content? calls finish?
  cases c.choices.head? with
  | none => rfl
  | some choice =>
    have hchoice : (some choice).forM (onChoice ids) = onChoice ids choice := rfl
    rw [hchoice, onChoice]
    simp only [bind_assoc, Option.bind_some]

variable {ids : Ids} {texts : List Strng} {stop usage : Bool}

-- ======== going

/-- The marks of the content part before its end. -/
def partOpen (ids : Ids) : List Strng → List PartMark
  | [] => []
  | texts => .added ids.messageItemId "" :: texts.map (.delta ids.messageItemId)

/-- The response is created and not over. -/
structure Going (ids : Ids) (texts : List Strng) (stop usage : Bool)
    (s : State UInt32 Flags) (out : List StreamEvent) : Prop where
  live : Live ids texts s out
  part : partMarks 0 0 out = partOpen ids texts
  parts : ∀ i c, (i, c) ≠ (0, 0) → partMarks i c out = []
  created : s.rest.sentCreated
  content : s.rest.sentContentPart = !texts.isEmpty
  flushed : s.rest.flushed = false
  stop : s.rest.stopReason.isSome = stop
  usage : s.rest.usage.isSome = usage

theorem going_usage (u : Option Usage) : Triple (Going ids texts stop usage)
      (modify fun s => { s with rest.usage := u.or s.rest.usage } : Compat Unit)
      fun _ => Going ids texts stop (u.isSome || usage) := by
  refine triple_modify fun s out h => ?_
  refine { h with live := h.live.setRest _, usage := ?_ }
  rw [← h.usage]
  cases u <;> simp

theorem going_stop (r : Option FinishReason) : Triple (Going ids texts stop usage)
      (modify fun s => { s with rest.stopReason := r.or s.rest.stopReason } : Compat Unit)
      fun _ => Going ids texts (r.isSome || stop) usage := by
  refine triple_modify fun s out h => ?_
  refine { h with live := h.live.setRest _, stop := ?_ }
  rw [← h.stop]
  cases r <;> simp

variable {s : State UInt32 Flags} {out : List StreamEvent}

theorem onContent_first (h : s.rest.sentContentPart = false) (t : Strng) :
    onContent ids t s = ((), { s.sent.sent with rest.sentContentPart := true },
      [s.stamp (.contentPartAdded ids.messageItemId 0 0 ""),
        s.sent.stamp (.outputTextDelta ids.messageItemId 0 0 t)]) := by
  rw [onContent, bind_apply, ensureContentPart, get_bind_apply, if_neg (by simp [h])]
  rfl

theorem onContent_again (h : s.rest.sentContentPart) (t : Strng) :
    onContent ids t s = ((), s.sent, [s.stamp (.outputTextDelta ids.messageItemId 0 0 t)]) := by
  rw [onContent, bind_apply, ensureContentPart, get_bind_apply, if_pos h]
  rfl

theorem not_first {i c : Nat} (h : (i, c) ≠ (0, 0)) : ¬ (0 = i ∧ 0 = c) := by
  rintro ⟨rfl, rfl⟩
  exact h rfl

theorem going_onContent (t : Strng) : Triple (Going ids texts stop usage) (onContent ids t)
      fun _ => Going ids (texts ++ [t]) stop usage := by
  intro s out h
  cases texts with
  | nil =>
    rw [onContent_first h.content]
    refine ⟨?_, ?_, ?_, h.created, rfl, h.flushed, h.stop, h.usage⟩
    · have htext := h.live.partAdded.text 0 t
      rw [append_assoc] at htext
      exact htext.setRest _
    · rw [partMarks_append, h.part]
      rfl
    · intro i c hic
      rw [partMarks_append, h.parts i c hic]
      simp [State.stamp, partMark, not_first hic]
  | cons t' texts =>
    rw [onContent_again h.content]
    refine ⟨h.live.text 0 t, ?_, ?_, h.created, ?_, h.flushed, h.stop, h.usage⟩
    · rw [partMarks_append, h.part]
      simp [partOpen, State.stamp, partMark]
    · intro i c hic
      rw [partMarks_append, h.parts i c hic]
      simp [State.stamp, partMark, not_first hic]
    · exact h.content

-- ---- tool calls

def args (tc : ToolCallChunk) : Strng := (tc.function.bind (·.arguments)).getD ""

theorem extendCall_eq (call : ToolCall) (tc : ToolCallChunk) :
    extendCall call tc.function = { call with
      name := (tc.function.bind (·.name)).getD call.name
      buffer := call.buffer ++ args tc } := by
  unfold args
  cases tc.function with
  | none => simp [extendCall]
  | some f => rfl

def argsEvents (s : State UInt32 Flags) (call : ToolCall) (tc : ToolCallChunk) : List StreamEvent :=
  if args tc = "" then []
  else [s.stamp (.functionCallArgumentsDelta call.itemId call.outputIndex (args tc))]

variable {tc : ToolCallChunk} {call : ToolCall} {c : StreamResponse} {cs : List StreamResponse}
  {es : List StreamEvent}

theorem onToolCall_of_enterCall {entry : ToolCall} {s₁ : State UInt32 Flags}
    (h : enterCall ids tc s = (entry, s₁, es)) : onToolCall ids tc s = ((), { s₁ with
        sequenceNumber := s₁.sequenceNumber + (argsEvents s₁ entry tc).length },
      es ++ argsEvents s₁ entry tc) := by
  rw [onToolCall, bind_apply, h, argsEvents]
  by_cases hargs : args tc = ""
  · rw [if_pos hargs]
    simp only [args] at hargs
    simp only [hargs, if_true]
    rfl
  · rw [if_neg hargs]
    simp only [args] at hargs
    simp only [hargs, if_false]
    rfl

theorem onToolCall_known (h : s.toolCalls.get? tc.index = some call) :
    onToolCall ids tc s = ((), { s with
        sequenceNumber := s.sequenceNumber + (argsEvents s call tc).length
        toolCalls := s.toolCalls.insert tc.index (extendCall call tc.function) },
      argsEvents s call tc) := by
  have henter : enterCall ids tc s = (extendCall call tc.function,
      { s with toolCalls := s.toolCalls.insert tc.index (extendCall call tc.function) },
      []) := by
    rw [enterCall, get_bind_apply, h]
    rfl
  rw [onToolCall_of_enterCall henter, extendCall_eq]
  rfl

/-- A new tool call, without arguments. -/
def freshCall (ids : Ids) (s : State UInt32 Flags) (tc : ToolCallChunk) : ToolCall :=
  ⟨ids.callId s.nextOutputIndex, (tc.function.bind (·.name)).getD "", "", s.nextOutputIndex⟩

theorem onToolCall_new (h : s.toolCalls.get? tc.index = none) : let call := freshCall ids s tc
    let s₁ := { s.sent with
      nextOutputIndex := s.nextOutputIndex + 1
      toolCalls := s.toolCalls.insert tc.index call }
    onToolCall ids tc s = ((), (onToolCall ids tc s₁).2.1,
      s.stamp (.outputItemAdded call.outputIndex (call.item "" .inProgress))
        :: (onToolCall ids tc s₁).2.2) := by
  intro call s₁
  have hget : s₁.toolCalls.get? tc.index = some call := get?_insert_self _ _ _
  have hentry : extendCall call tc.function
      = extendCall ⟨ids.callId s.nextOutputIndex, "", "", s.nextOutputIndex⟩ tc.function := by
    cases hf : tc.function with
    | none => simp [extendCall, call, freshCall, hf]
    | some f => cases hn : f.name <;> simp [extendCall, call, freshCall, hf, hn]
  have htable : s₁.toolCalls.insert tc.index (extendCall call tc.function)
      = s.toolCalls.insert tc.index (extendCall call tc.function) :=
    insert_insert _ _ _ _
  have henter : enterCall ids tc s = (extendCall call tc.function, { s.sent with
        nextOutputIndex := s.nextOutputIndex + 1
        toolCalls := s.toolCalls.insert tc.index (extendCall call tc.function) },
      [s.stamp (.outputItemAdded call.outputIndex (call.item "" .inProgress))]) := by
    rw [enterCall, get_bind_apply, h, hentry]
    simp only [extendCall_eq]
    rfl
  rw [onToolCall_known hget, htable, onToolCall_of_enterCall henter, extendCall_eq]
  rfl

variable (tc : ToolCallChunk)

theorem live_known (h : Live ids texts s out) (hget : s.toolCalls.get? tc.index = some call) :
    Live ids texts (onToolCall ids tc s).2.1 (out ++ (onToolCall ids tc s).2.2) := by
  rw [onToolCall_known hget, extendCall_eq, argsEvents]
  split
  · next hargs =>
      rw [hargs, String.append_empty, append_nil]
      exact h.rename hget _
  · exact h.extend hget _ _

theorem live_onToolCall : Triple (Live ids texts) (onToolCall ids tc) fun _ => Live ids texts := by
  intro s out h
  cases hget : s.toolCalls.get? tc.index with
  | some call => exact live_known tc h hget
  | none =>
    rw [onToolCall_new hget]
    have hplace : (freshCall ids s tc).outputIndex = s.nextOutputIndex := rfl
    have hknown := live_known tc (h.add hget hplace rfl) (get?_insert_self _ _ _)
    rw [append_assoc] at hknown
    exact hknown

theorem onToolCall_frame (ids : Ids) (tc : ToolCallChunk) (s : State UInt32 Flags) (i c : Nat) :
    (onToolCall ids tc s).2.1.rest = s.rest ∧ partMarks i c (onToolCall ids tc s).2.2 = [] := by
  have hargs : ∀ (s : State UInt32 Flags) call, partMarks i c (argsEvents s call tc) = [] := by
    intro s call
    unfold argsEvents
    split <;> rfl
  cases hget : s.toolCalls.get? tc.index with
  | some call =>
    rw [onToolCall_known hget]
    exact ⟨rfl, hargs s call⟩
  | none =>
    rw [onToolCall_new hget, onToolCall_known (get?_insert_self _ _ _)]
    exact ⟨rfl, hargs _ _⟩

theorem going_onToolCall : Triple (Going ids texts stop usage) (onToolCall ids tc)
      fun _ => Going ids texts stop usage := by
  intro s out h
  have hrest := (onToolCall_frame ids tc s 0 0).1
  have hparts : ∀ i c, partMarks i c (out ++ (onToolCall ids tc s).2.2) = partMarks i c out := by
    intro i c
    rw [partMarks_append, (onToolCall_frame ids tc s i c).2, append_nil]
  refine ⟨live_onToolCall tc s out h.live, ?_, ?_, ?_, ?_, ?_, ?_, ?_⟩
  · rw [hparts, h.part]
  · intro i c hic
    rw [hparts, h.parts i c hic]
  · rw [hrest, h.created]
  · rw [hrest, h.content]
  · rw [hrest, h.flushed]
  · rw [hrest, h.stop]
  · rw [hrest, h.usage]

-- ======== over

/-- The marks of the content part at its end. -/
def partClosed (ids : Ids) (texts : List Strng) : List PartMark :=
  partOpen ids texts ++ if texts.isEmpty then [] else [.done ids.messageItemId ""]

/-- The response is finished. -/
structure Over (ids : Ids) (texts : List Strng) (s : State UInt32 Flags)
    (out : List StreamEvent) : Prop where
  finished : Finished texts out
  part : partMarks 0 0 out = partClosed ids texts
  parts : ∀ i c, (i, c) ≠ (0, 0) → partMarks i c out = []
  created : s.rest.sentCreated
  flushed : s.rest.flushed
  calls : ∀ key, s.toolCalls.get? key = none

/-- The tool calls in `left` are taken from the table and not yet done. -/
structure Closing (ids : Ids) (texts : List Strng) (marks : List PartMark)
    (left : HashMap UInt32 ToolCall) (s : State UInt32 Flags) (out : List StreamEvent) :
    Prop where
  live : Live ids texts { s with toolCalls := left } out
  part : partMarks 0 0 out = marks
  parts : ∀ i c, (i, c) ≠ (0, 0) → partMarks i c out = []
  created : s.rest.sentCreated
  flushed : s.rest.flushed
  calls : ∀ key, s.toolCalls.get? key = none

variable {marks : List PartMark} {left : HashMap UInt32 ToolCall}
  {stream : List (Option StreamResponse)} {done : Bool}

theorem closing_toolDone {key : UInt32} (hkey : left.get? key = some call) :
    Triple (Closing ids texts marks left) (sendToolDone call)
      fun _ => Closing ids texts marks (left.erase key) := by
  intro s out h
  refine ⟨h.live.finish hkey, ?_, ?_, h.created, h.flushed, h.calls⟩
  · exact (partMarks_append 0 0 out _).trans (by rw [h.part]; exact append_nil _)
  · intro i c hic
    exact (partMarks_append i c out _).trans (by rw [h.parts i c hic]; rfl)

theorem closing_all (calls : List ToolCall) (left : HashMap UInt32 ToolCall)
    (hnodup : calls.Nodup) (hmem : ∀ c, c ∈ left.values ↔ c ∈ calls) :
    Triple (Closing ids texts marks left) (calls.forM sendToolDone)
      fun _ s out => ∃ left, Closing ids texts marks left s out ∧ ∀ key, left.get? key = none := by
  induction calls generalizing left with
  | nil =>
    refine triple_pure fun s out h => ⟨left, h, fun key => ?_⟩
    refine Option.eq_none_iff_forall_ne_some.2 fun call hkey => ?_
    exact absurd ((hmem call).1 (mem_values.2 ⟨key, hkey⟩)) not_mem_nil
  | cons call rest ih =>
    obtain ⟨key, hkey⟩ := mem_values.1 ((hmem call).2 mem_cons_self)
    obtain ⟨hcall, hnodup⟩ := nodup_cons.1 hnodup
    intro s out h
    have hrest : ∀ c, c ∈ (left.erase key).values ↔ c ∈ rest := by
      intro c
      rw [mem_values_erase h.live.tracks.keyed hkey, hmem, mem_cons]
      constructor
      · rintro ⟨rfl | hc, hne⟩
        · exact absurd rfl hne
        · exact hc
      · intro hc
        refine ⟨Or.inr hc, ?_⟩
        rintro rfl
        exact hcall hc
    exact triple_bind (closing_toolDone hkey) (fun _ => ih _ hnodup hrest) s out h

theorem closing_part : Triple (Closing ids texts (partOpen ids texts) left)
      (finishContentPart ids (!texts.isEmpty))
      fun _ => Closing ids texts (partClosed ids texts) left := by
  cases texts with
  | nil => exact triple_pure fun s out h => h
  | cons t texts =>
    intro s out h
    refine ⟨h.live.partDone, ?_, ?_, h.created, h.flushed, h.calls⟩
    · exact (partMarks_append 0 0 out _).trans (by rw [h.part]; rfl)
    · intro i c hic
      have hmark : partMarks i c [s.stamp (.contentPartDone ids.messageItemId 0 0 "")] = [] := by
        simp [State.stamp, partMark, not_first hic]
      exact (partMarks_append i c out _).trans (by rw [h.parts i c hic]; exact hmark)

theorem over_end (hleft : ∀ key, left.get? key = none) {event : ResponseStreamEvent}
    (hevent : event.isTerminal) : Triple (Closing ids texts (partClosed ids texts) left)
      (do sendMessageDone ids; send event : Compat Unit) fun _ => Over ids texts := by
  intro s out h
  have hmarks : ∀ i c, partMarks i c
      (out ++ [s.stamp (.outputItemDone 0 (messageItem ids .completed)),
        s.sent.stamp event]) = partMarks i c out := by
    intro i c
    have hlast := partMark_of_isTerminal hevent i c
    rw [partMarks_append, partMarks_cons, partMarks_cons, State.stamp, State.stamp, hlast]
    exact append_nil _
  refine ⟨h.live.finished hleft hevent, ?_, ?_, h.created, h.flushed, h.calls⟩
  · exact (hmarks 0 0).trans h.part
  · intro i c hic
    exact (hmarks i c).trans (h.parts i c hic)

theorem over_flushEnd (hcontent : s.rest.sentContentPart = !texts.isEmpty)
    (hcalls : s.toolCalls.values.Nodup) :
    Triple (fun s' out => s' = s ∧ Closing ids texts (partOpen ids texts) s.toolCalls
        { s with toolCalls := (empty : HashMap UInt32 ToolCall) } out)
      (flushEnd ids) fun _ => Over ids texts := by
  rintro s₀ out ⟨rfl, h⟩
  have hperm : (sortedTools s₀.toolCalls).Perm s₀.toolCalls.values := mergeSort_perm _ _
  rw [flushEnd, get_bind_apply]
  refine (?_ : Triple (fun _ out => Closing ids texts (partOpen ids texts) s₀.toolCalls
      { s₀ with toolCalls := (empty : HashMap UInt32 ToolCall) } out)
    _ fun _ => Over ids texts) s₀ out h
  refine triple_bind (Q := fun _ => Closing ids texts (partOpen ids texts) s₀.toolCalls)
    (triple_set fun _ _ h => ?_) fun _ => triple_bind
      (closing_all (sortedTools s₀.toolCalls) s₀.toolCalls (hperm.nodup_iff.2 hcalls)
        fun c => hperm.symm.mem_iff) fun _ => ?_
  · exact { h with live := h.live.setRest _ }
  · rintro s₁ out ⟨left, h, hleft⟩
    rw [hcontent]
    refine triple_bind closing_part (fun _ => over_end hleft ?_) s₁ out h
    unfold doneEvent
    split <;> rfl

theorem over_flushOnce :
    Triple (Going ids texts stop usage) (flushOnce ids) fun _ => Over ids texts := by
  refine triple_get fun s => ?_
  rintro s' out ⟨rfl, h⟩
  rw [h.flushed]
  refine over_flushEnd (s := { s' with rest.flushed := true }) h.content
    h.live.tracks.keyed _ out ⟨rfl, ?_⟩
  exact ⟨h.live.setRest _, h.part, h.parts, h.created, rfl, fun _ => rfl⟩

-- ======== late

/-- The last that is said about some item is not that it is done. -/
def Unfinished (out : List StreamEvent) : Prop :=
  ∃ i m, (itemMarks i out).getLast? = some m ∧ ∀ item, m ≠ .done item

/-- The event does not say that an item is done. -/
def NotDone (e : StreamEvent) : Prop := ∀ i item, e.event.itemMark i ≠ some (.done item)

theorem unfinished_append (hes : ∀ e ∈ es, NotDone e)
    (h : Unfinished out ∨ ∃ i, itemMarks i es ≠ []) : Unfinished (out ++ es) := by
  have hlast : ∀ i m, (itemMarks i es).getLast? = some m → ∀ item, m ≠ .done item := by
    rintro i m hm item rfl
    obtain ⟨e, he, hmark⟩ := mem_filterMap.1 (mem_of_getLast? hm)
    exact hes e he i item hmark
  have hmarks : ∀ i, itemMarks i es ≠ [] → Unfinished (out ++ es) := by
    intro i hne
    refine ⟨i, (itemMarks i es).getLast hne, ?_, hlast i _ (getLast?_eq_some_getLast hne)⟩
    rw [itemMarks_append, getLast?_append_of_ne_nil _ hne]
    exact getLast?_eq_some_getLast hne
  rcases h with ⟨i, m, hm, hdone⟩ | ⟨i, hne⟩
  · rcases eq_or_ne (itemMarks i es) [] with hnil | hne
    · refine ⟨i, m, ?_, hdone⟩
      rw [itemMarks_append, hnil, append_nil, hm]
    · exact hmarks i hne
  · exact hmarks i hne

/-- After the end: whatever was sent then is not finished. -/
structure Late (s : State UInt32 Flags) (out : List StreamEvent) : Prop where
  created : s.rest.sentCreated
  flushed : s.rest.flushed
  unfinished : Unfinished out

theorem late_onContent (t : Strng) :
    Triple (fun s _ => s.rest.sentCreated ∧ s.rest.flushed) (onContent ids t) fun _ => Late := by
  rintro s out ⟨hcreated, hflushed⟩
  cases hcontent : s.rest.sentContentPart with
  | true =>
    rw [onContent_again hcontent]
    refine ⟨hcreated, hflushed, unfinished_append ?_ (Or.inr ⟨0, by simp [State.stamp, itemMark]⟩)⟩
    simp [NotDone, State.stamp, itemMark]
  | false =>
    rw [onContent_first hcontent]
    refine ⟨hcreated, hflushed, unfinished_append ?_ (Or.inr ⟨0, by simp [State.stamp, itemMark]⟩)⟩
    simp [NotDone, State.stamp, itemMark]

theorem argsEvents_notDone (s : State UInt32 Flags) (call : ToolCall) (tc : ToolCallChunk) :
    ∀ e ∈ argsEvents s call tc, NotDone e := by
  unfold argsEvents
  split
  · simp
  · simp [NotDone, State.stamp, itemMark]

theorem onToolCall_notDone (ids : Ids) (tc : ToolCallChunk) (s : State UInt32 Flags) :
    ∀ e ∈ (onToolCall ids tc s).2.2, NotDone e := by
  cases hget : s.toolCalls.get? tc.index with
  | some call =>
    rw [onToolCall_known hget]
    exact argsEvents_notDone _ _ _
  | none =>
    rw [onToolCall_new hget, onToolCall_known (get?_insert_self _ _ _)]
    refine forall_mem_cons.2 ⟨?_, argsEvents_notDone _ _ _⟩
    simp [NotDone, State.stamp, itemMark]

theorem late_onToolCall : Triple Late (onToolCall ids tc) fun _ => Late := by
  intro s out h
  have hrest := (onToolCall_frame ids tc s 0 0).1
  refine ⟨?_, ?_, unfinished_append (onToolCall_notDone ids tc s) (Or.inl h.unfinished)⟩
  · rw [hrest, h.created]
  · rw [hrest, h.flushed]

theorem late_newCall (hcreated : s.rest.sentCreated)
    (hflushed : s.rest.flushed) (hget : s.toolCalls.get? tc.index = none) :
    Late (onToolCall ids tc s).2.1 (out ++ (onToolCall ids tc s).2.2) := by
  have hrest := (onToolCall_frame ids tc s 0 0).1
  refine ⟨?_, ?_, unfinished_append (onToolCall_notDone ids tc s) (Or.inr ⟨s.nextOutputIndex, ?_⟩)⟩
  · rw [hrest, hcreated]
  · rw [hrest, hflushed]
  · rw [onToolCall_new hget]
    simp [State.stamp, itemMark, freshCall]

theorem late_calls (tcs : List ToolCallChunk) :
    Triple Late (tcs.forM (onToolCall ids)) fun _ => Late :=
  triple_forM (fun _ => Late) tcs fun tc _ => late_onToolCall tc

-- ======== one chunk

theorem flushOnce_of_flushed (h : s.rest.flushed) : flushOnce ids s = ((), s, []) := by
  rw [flushOnce, get_bind_apply, if_pos h]
  rfl

theorem flushIfComplete_of_flushed (h : s.rest.flushed) : flushIfComplete ids s = ((), s, []) := by
  rw [flushIfComplete, get_bind_apply]
  split
  · exact flushOnce_of_flushed h
  · rfl

theorem late_end (r : Option FinishReason) : Triple Late (do
        modify fun s => { s with rest.stopReason := r.or s.rest.stopReason }
        flushIfComplete ids : Compat Unit) fun _ => Late := by
  refine triple_keep (triple_modify fun s out h => { h with }) fun _ s out h => ?_
  rw [flushIfComplete_of_flushed h.flushed, append_nil]
  exact h

theorem late_onCreated (c : StreamResponse) : Triple Late (onCreated ids c) fun _ => Late := by
  have hcontent : Triple Late ((content? c).forM (onContent ids)) fun _ => Late := by
    cases content? c with
    | none => exact triple_pure fun _ _ h => h
    | some t =>
      exact triple_mono (late_onContent t) (fun _ _ h => ⟨h.created, h.flushed⟩) fun _ _ _ h => h
  refine triple_keep (triple_modify fun s out h => { h with }) fun _ => ?_
  exact triple_bind hcontent fun _ => triple_bind (late_calls _) fun _ => late_end _

theorem Over.setRest {rest : Flags} (h : Over ids texts s out)
    (hcreated : rest.sentCreated = s.rest.sentCreated) (hflushed : rest.flushed = s.rest.flushed) :
    Over ids texts { s with rest := rest } out :=
  { h with created := hcreated.trans h.created, flushed := hflushed.trans h.flushed }

theorem over_onCreated_late (hc : ¬ Silent c) :
    Triple (Over ids texts) (onCreated ids c) fun _ => Late := by
  refine triple_keep (triple_modify fun s out h => h.setRest rfl rfl) fun _ => ?_
  cases hcontent : content? c with
  | some t =>
    refine triple_bind (triple_mono (late_onContent t)
      (fun _ _ h => ⟨h.created, h.flushed⟩) fun _ _ _ h => h) fun _ => ?_
    exact triple_bind (late_calls _) fun _ => late_end _
  | none =>
    cases hcalls : calls c with
    | nil => exact absurd ⟨hcontent, hcalls⟩ hc
    | cons tc tcs =>
      have hfirst : Triple (Over ids texts) (onToolCall ids tc) fun _ => Late :=
        fun s out h => late_newCall tc h.created h.flushed (h.calls _)
      have hall : Triple (Over ids texts) ((tc :: tcs).forM (onToolCall ids))
          fun _ => Late := triple_bind hfirst fun _ => late_calls tcs
      exact triple_keep (triple_pure fun _ _ h => h) fun _ => triple_bind hall fun _ => late_end _

theorem over_onCreated (hc : Silent c) :
    Triple (Over ids texts) (onCreated ids c) fun _ => Over ids texts := by
  unfold onCreated
  rw [hc.1, hc.2]
  refine triple_keep (triple_modify fun s out h => h.setRest rfl rfl) fun _ => ?_
  refine triple_keep (triple_pure fun _ _ h => h) fun _ => ?_
  refine triple_keep (triple_pure fun _ _ h => h) fun _ => ?_
  refine triple_keep (triple_modify fun s out h => h.setRest rfl rfl) fun _ s out h => ?_
  rw [flushIfComplete_of_flushed h.flushed, append_nil]
  exact h

theorem going_onCreated (c : StreamResponse) :
    Triple (Going ids texts stop usage) (onCreated ids c) fun _ s out =>
      if ((finish? c).isSome || stop) && (c.usage.isSome || usage) then
        Over ids (texts ++ (content? c).toList) s out
      else Going ids (texts ++ (content? c).toList) ((finish? c).isSome || stop)
        (c.usage.isSome || usage) s out := by
  have hcontent : ∀ usage, Triple (Going ids texts stop usage) ((content? c).forM (onContent ids))
      fun _ => Going ids (texts ++ (content? c).toList) stop usage := by
    intro usage
    cases content? c with
    | none =>
      refine triple_pure fun s out h => ?_
      rwa [Option.toList_none, append_nil]
    | some t => exact going_onContent t
  refine triple_bind (going_usage c.usage) fun _ => triple_bind (hcontent _) fun _ => ?_
  refine triple_bind (triple_forM (fun _ => Going _ _ _ _) _ fun tc _ =>
    going_onToolCall tc) fun _ => ?_
  refine triple_bind (going_stop (finish? c)) fun _ s out h => ?_
  rw [flushIfComplete, get_bind_apply, h.stop, h.usage]
  split
  · exact over_flushOnce s out h
  · exact triple_pure (fun _ _ h => h) s out h

-- ======== all chunks

/-- What comes after the end has nothing for the response. -/
def Quiet (cs : List StreamResponse) : Prop :=
  ∀ pre c post, cs = pre ++ c :: post → complete pre → Silent c

theorem complete_append (h : complete cs) (cs' : List StreamResponse) :
    complete (cs ++ cs') := by
  simp only [complete, any_append, Bool.and_eq_true, Bool.or_eq_true] at h ⊢
  exact ⟨Or.inl h.1, Or.inl h.2⟩

theorem quiet_of_not_complete (h : complete cs = false) : Quiet cs := by
  rintro pre c post rfl hpre
  rw [complete_append hpre] at h
  cases h

theorem quiet_concat : Quiet (cs ++ [c]) ↔ Quiet cs ∧ (complete cs → Silent c) := by
  constructor
  · intro h
    refine ⟨?_, fun hcs => h cs c [] rfl hcs⟩
    rintro pre c' post rfl hpre
    exact h pre c' (post ++ [c]) (by simp) hpre
  · rintro ⟨hquiet, hlast⟩ pre c' post heq hpre
    rcases eq_nil_or_concat post with rfl | ⟨post, c'', rfl⟩
    · obtain ⟨rfl, hc⟩ := append_inj' heq rfl
      cases hc
      exact hlast hpre
    · rw [concat_eq_append, ← cons_append, ← append_assoc] at heq
      obtain ⟨rfl, -⟩ := append_inj' heq rfl
      exact hquiet pre c' post rfl hpre

/-- Where the response is after some chunks. -/
structure Stage (ids : Ids) (cs : List StreamResponse) (s : State UInt32 Flags)
    (out : List StreamEvent) : Prop where
  start : cs = [] → s = initial ∧ out = []
  going : cs ≠ [] → complete cs = false → Going ids (cs.filterMap content?)
    (cs.any fun c => (finish? c).isSome) (cs.any fun c => c.usage.isSome) s out
  ended : complete cs → Quiet cs → Over ids (cs.filterMap content?) s out
  late : complete cs → ¬ Quiet cs → Late s out

theorem onChunk_of_created (h : s.rest.sentCreated) (c : StreamResponse) :
    onChunk ids c s = onCreated ids c s := by
  rw [onChunk_eq, bind_apply, ensureCreated, get_bind_apply, if_pos h]
  rfl

theorem filterMap_content_concat (cs : List StreamResponse) (c : StreamResponse) :
    (cs ++ [c]).filterMap content? = cs.filterMap content? ++ (content? c).toList := by
  cases h : content? c <;> simp [h]

theorem complete_concat (cs : List StreamResponse) (c : StreamResponse) :
    complete (cs ++ [c]) = (((finish? c).isSome || cs.any fun c => (finish? c).isSome)
        && (c.usage.isSome || cs.any fun c => c.usage.isSome)) := by
  simp [complete, Bool.or_comm]

theorem stage_of_going (hcs : complete cs = false)
    (h : if ((finish? c).isSome || cs.any fun c => (finish? c).isSome)
        && (c.usage.isSome || cs.any fun c => c.usage.isSome) then
        Over ids (cs.filterMap content? ++ (content? c).toList) s out
      else Going ids (cs.filterMap content? ++ (content? c).toList)
        ((finish? c).isSome || cs.any fun c => (finish? c).isSome)
        (c.usage.isSome || cs.any fun c => c.usage.isSome) s out) :
    Stage ids (cs ++ [c]) s out := by
  rw [← complete_concat, ← filterMap_content_concat] at h
  have hquiet : Quiet (cs ++ [c]) :=
    quiet_concat.2 ⟨quiet_of_not_complete hcs, fun htrue => by rw [hcs] at htrue; cases htrue⟩
  refine ⟨by simp, ?_, ?_, ?_⟩
  · intro _ hnot
    rw [if_neg (by simp [hnot])] at h
    simpa [any_append, Bool.or_comm] using h
  · intro hcomplete _
    rwa [if_pos hcomplete] at h
  · exact fun _ hnot => absurd hquiet hnot

theorem stage_onChunk (cs : List StreamResponse) (c : StreamResponse) :
    Triple (Stage ids cs) (onChunk ids c) fun _ => Stage ids (cs ++ [c]) := by
  intro s out h
  cases hcomplete : complete cs with
  | false =>
    refine stage_of_going hcomplete ?_
    rcases eq_or_ne cs [] with rfl | hne
    · obtain ⟨rfl, rfl⟩ := h.start rfl
      have hfirst : Triple (fun s out => s = initial ∧ out = [])
          (ensureCreated ids c.model) fun _ => Going ids [] false false := by
        rintro s out ⟨rfl, rfl⟩
        refine ⟨(Live.start (Tracks.init _) c.model).setRest _, rfl, ?_, rfl, rfl, rfl, rfl, rfl⟩
        intro i c _
        rfl
      rw [onChunk_eq]
      exact triple_bind hfirst (fun _ => going_onCreated c) initial [] ⟨rfl, rfl⟩
    · have hgoing := h.going hne hcomplete
      rw [onChunk_of_created hgoing.created]
      exact going_onCreated c s out hgoing
  | true =>
    have hnext := complete_append hcomplete [c]
    have hnot : ∀ {P : Prop}, complete (cs ++ [c]) = false → P := by
      intro P hfalse
      rw [hnext] at hfalse
      cases hfalse
    by_cases hquiet : Quiet cs
    · have hover := h.ended hcomplete hquiet
      rw [onChunk_of_created hover.created]
      by_cases hsilent : Silent c
      · have hkeep := over_onCreated hsilent s out hover
        refine ⟨by simp, fun _ => hnot, fun _ _ => ?_, fun _ hloud => ?_⟩
        · rw [filterMap_content_concat, hsilent.1, Option.toList_none, append_nil]
          exact hkeep
        · exact absurd (quiet_concat.2 ⟨hquiet, fun _ => hsilent⟩) hloud
      · refine ⟨by simp, fun _ => hnot, fun _ hq => ?_, fun _ _ => ?_⟩
        · exact absurd ((quiet_concat.1 hq).2 hcomplete) hsilent
        · exact over_onCreated_late hsilent s out hover
    · have hlate := h.late hcomplete hquiet
      rw [onChunk_of_created hlate.created]
      refine ⟨by simp, fun _ => hnot, fun _ hq => ?_, fun _ _ => ?_⟩
      · exact absurd (quiet_concat.1 hq).1 hquiet
      · exact late_onCreated c s out hlate

-- ======== streams

/-- Chunks, some of which cannot be parsed, and `[DONE]` if the end is
marked. -/
def sse (stream : List (Option StreamResponse)) (done : Bool) : List SseJsonEvent :=
  stream.map (fun c => c.elim .malformed .data) ++ if done then [.done] else []

theorem runAll_sse (stream : List (Option StreamResponse)) (s : State UInt32 Flags) :
    runAll (translateEvent ids) s (stream.map fun c => c.elim .malformed .data)
      = runAll (onChunk ids) s stream.reduceOption := by
  rw [runAll_map]
  refine runAll_filterMap id (onChunk ids) ?_ ?_ s stream
  · rintro c rfl
    rfl
  · rintro c c' rfl
    rfl

theorem stage_all (ids : Ids) (cs : List StreamResponse) :
    Stage ids cs (runAll (onChunk ids) initial cs).1 (runAll (onChunk ids) initial cs).2 := by
  have hinit : Stage ids [] initial [] := by
    refine ⟨fun _ => ⟨rfl, rfl⟩, fun h => absurd rfl h, ?_, ?_⟩
    · intro h
      cases h
    · intro h
      cases h
  rw [runAll_eq_forM]
  exact triple_forM_prefix (Stage ids) cs (fun pre c _ _ => stage_onChunk pre c) _ _ hinit

theorem translateStream_sse (ids : Ids) (stream : List (Option StreamResponse)) (done : Bool) :
    let r := runAll (onChunk ids) initial stream.reduceOption
    translateStream ids (sse stream done)
      = r.2 ++ if done then (flushOnce ids r.1).2.2 else [] := by
  intro r
  rw [translateStream, sse, runAll_append, runAll_sse]
  cases done with
  | false => rfl
  | true => exact congrArg (r.2 ++ ·) (append_nil _)

-- ======== well formed

theorem wellFormed_of_over (h : Over ids texts s out) (htexts : String.join texts = "") :
    WellFormed out := by
  refine ⟨h.finished.consecutive, Or.inr h.finished.created, ?_, ?_, ?_⟩
  · intro i
    rcases Nat.eq_zero_or_pos i with rfl | hi
    · exact Or.inr (Or.inl ⟨texts, [], h.finished.message, htexts.symm⟩)
    · exact (h.finished.tools i hi).imp_right Or.inr
  · intro i c
    rcases eq_or_ne (i, c) (0, 0) with hic | hic
    · cases hic
      rw [h.part]
      cases texts with
      | nil => exact Or.inl rfl
      | cons t texts =>
        refine Or.inr ⟨t :: texts, ids.messageItemId, ?_⟩
        rw [htexts]
        rfl
    · exact Or.inl (h.parts i c hic)
  · intro pre e post hout hcompleted
    obtain ⟨pre', e', hout', -, hpre'⟩ := h.finished.terminal
    have hterminal : e.event.isTerminal := by
      cases he : e.event <;> rw [he] at hcompleted <;> first | rfl | cases hcompleted
    rcases eq_nil_or_concat post with rfl | ⟨post, e'', rfl⟩
    · rfl
    · rw [hout', concat_eq_append, ← cons_append, ← append_assoc] at hout
      obtain ⟨rfl, -⟩ := append_inj' hout rfl
      rw [hpre' e (by simp)] at hterminal
      cases hterminal

theorem messageLife_unique {texts' content content' : List Strng}
    {marks : List ItemMark} (h : MessageLife texts content marks)
    (h' : MessageLife texts' content' marks) : texts = texts' ∧ content = content' := by
  obtain ⟨id, rfl⟩ := h
  obtain ⟨id', heq⟩ := h'
  obtain ⟨hopen, hdone⟩ := append_inj' heq rfl
  obtain ⟨hadded, htexts⟩ := cons.inj hopen
  cases hadded
  refine ⟨map_injective_iff.2 (fun _ _ hdelta => ?_) htexts, ?_⟩
  · cases hdelta
    rfl
  · cases hdone
    rfl

theorem join_of_wellFormed (h : WellFormed out) (hover : Over ids texts s out) :
    String.join texts = "" := by
  have hlife := hover.finished.message
  rcases h.items 0 with hnil | ⟨texts', content, hlife', hjoin⟩ | ⟨id', _, _, _, htool⟩
  · obtain ⟨id, hmarks⟩ := hlife
    rw [hmarks] at hnil
    cases hnil
  · obtain ⟨rfl, rfl⟩ := messageLife_unique hlife hlife'
    exact hjoin.symm
  · obtain ⟨id, hmarks⟩ := hlife
    rw [hmarks] at htool
    cases htool

theorem not_unfinished_of_wellFormed (h : WellFormed out) : ¬ Unfinished out := by
  rintro ⟨i, m, hlast, hm⟩
  rcases h.items i with hnil | ⟨texts', content, ⟨id, hlife⟩, -⟩ | ⟨id, _, _, _, htool⟩
  · rw [hnil] at hlast
    cases hlast
  · rw [hlife, getLast?_concat] at hlast
    exact hm _ (Option.some.inj hlast).symm
  · rw [htool, getLast?_append_of_ne_nil _ (by simp)] at hlast
    exact hm _ (Option.some.inj hlast).symm

theorem unfinished_of_going (h : Going ids texts stop usage s out) : Unfinished out := by
  have hmarks := h.live.message
  rcases eq_nil_or_concat texts with rfl | ⟨texts, t, rfl⟩
  · exact ⟨0, _, by rw [hmarks]; rfl, by simp⟩
  · refine ⟨0, .delta ids.messageItemId t, ?_, by simp⟩
    rw [hmarks, concat_eq_append, map_append, ← cons_append]
    exact getLast?_concat

theorem not_wellFormed_uncreated : ¬ WellFormed (flushOnce ids initial).2.2 := by
  have hout : (flushOnce ids initial).2.2
      = [initial.stamp (.outputItemDone 0 (messageItem ids .completed)),
        initial.sent.stamp (doneEvent ⟨ids.responseId, ""⟩ none none)] := by
    have hflush : flushOnce ids initial = flushEnd ids { initial with rest.flushed := true } := rfl
    have hcalls : sortedTools
        ({ initial with rest.flushed := true } : State UInt32 Flags).toolCalls = [] :=
      mergeSort_nil
    rw [hflush, flushEnd, get_bind_apply, hcalls]
    rfl
  intro h
  rw [hout] at h
  rcases h.created with hnil | ⟨e, rest, hcons, he, -⟩
  · cases hnil
  · cases hcons
    cases he

/-- The end is reached, nothing comes after it, and there is no text. -/
structure Regular (cs : List StreamResponse) (done : Bool) : Prop where
  chunk : cs ≠ []
  ended : done ∨ complete cs
  quiet : Quiet cs
  textless : ∀ c ∈ cs, ∀ t, content? c = some t → t = ""

theorem join_content_iff (cs : List StreamResponse) :
    String.join (cs.filterMap content?) = "" ↔ ∀ c ∈ cs, ∀ t, content? c = some t → t = "" := by
  rw [join_eq_empty]
  constructor
  · intro h c hc t ht
    exact h t (mem_filterMap.2 ⟨c, hc, ht⟩)
  · intro h t ht
    obtain ⟨c, hc, hct⟩ := mem_filterMap.1 ht
    exact h c hc t hct

theorem stream_over
    (hne : stream.reduceOption ≠ []) (hended : done ∨ complete stream.reduceOption)
    (hquiet : Quiet stream.reduceOption) : ∃ s, Over ids (stream.reduceOption.filterMap content?) s
      (translateStream ids (sse stream done)) := by
  have hstage := stage_all ids stream.reduceOption
  rw [translateStream_sse]
  cases hcomplete : complete stream.reduceOption with
  | true =>
    have hover := hstage.ended hcomplete hquiet
    rw [flushOnce_of_flushed hover.flushed, ite_self, append_nil]
    exact ⟨_, hover⟩
  | false =>
    rw [hcomplete] at hended
    rw [if_pos (hended.resolve_right (by simp))]
    exact ⟨_, over_flushOnce _ _ (hstage.going hne hcomplete)⟩

theorem stream_unfinished (hne : stream.reduceOption ≠ [])
    (hnot : ¬ ((done ∨ complete stream.reduceOption) ∧ Quiet stream.reduceOption)) :
    Unfinished (translateStream ids (sse stream done)) := by
  have hstage := stage_all ids stream.reduceOption
  rw [translateStream_sse]
  cases hcomplete : complete stream.reduceOption with
  | true =>
    have hlate := hstage.late hcomplete fun hquiet => hnot ⟨Or.inr hcomplete, hquiet⟩
    rw [flushOnce_of_flushed hlate.flushed, ite_self, append_nil]
    exact hlate.unfinished
  | false =>
    have hdone : ¬ done := fun hdone =>
      hnot ⟨Or.inl hdone, quiet_of_not_complete hcomplete⟩
    rw [if_neg hdone, append_nil]
    exact unfinished_of_going (hstage.going hne hcomplete)

theorem compat_wellFormed_iff (ids : Ids) (stream : List (Option StreamResponse)) (done : Bool) :
    WellFormed (translateStream ids (sse stream done))
      ↔ (stream.reduceOption = [] ∧ done = false) ∨ Regular stream.reduceOption done := by
  rcases eq_or_ne stream.reduceOption [] with hnil | hne
  · have hregular : ¬ Regular stream.reduceOption done := fun h => h.chunk hnil
    rw [translateStream_sse, hnil]
    rw [hnil] at hregular
    cases done with
    | true =>
      refine iff_of_false not_wellFormed_uncreated ?_
      simpa using hregular
    | false =>
      refine iff_of_true ?_ (Or.inl ⟨rfl, rfl⟩)
      refine ⟨rfl, Or.inl rfl, fun _ => Or.inl rfl, fun _ _ => Or.inl rfl, ?_⟩
      intro pre e post hout
      have hnil : [] = pre ++ e :: post := hout
      simp at hnil
  · constructor
    · intro h
      have hended := not_imp_comm.1 (stream_unfinished hne) (not_unfinished_of_wellFormed h)
      obtain ⟨s, hover⟩ := stream_over hne hended.1 hended.2
      exact Or.inr ⟨hne, hended.1, hended.2, (join_content_iff _).1 (join_of_wellFormed h hover)⟩
    · rintro (⟨hnil, -⟩ | h)
      · exact absurd hnil hne
      · obtain ⟨s, hover⟩ := stream_over hne h.ended h.quiet
        exact wellFormed_of_over hover ((join_content_iff _).2 h.textless)

def sampleChunk (delta : StreamResponseDelta) (reason : Option FinishReason)
    (usage : Option Usage) : StreamResponse :=
  ⟨"id", [⟨delta, reason⟩], "m", none, usage⟩

theorem compat_wellFormed_sample :
    let call : ToolCallChunk := ⟨0, some "c", some ⟨some "f", some "1"⟩⟩
    let stream := [some (sampleChunk ⟨none, some [call], none⟩ none none), none,
      some (sampleChunk ⟨none, none, none⟩ (some .toolCalls) none)]
    WellFormed (translateStream sampleIds (sse stream true)) := by
  intro call stream
  refine (compat_wellFormed_iff sampleIds stream true).2 (Or.inr ⟨?_, Or.inl rfl, ?_, ?_⟩)
  · simp [stream, reduceOption]
  · exact quiet_of_not_complete rfl
  · simp [stream, reduceOption, sampleChunk, content?]

/-- The text is missing at the end of its part, and of the message. -/
theorem compat_text_missing :
    let stream := [some (sampleChunk ⟨some "hi", none, none⟩ (some .stop) none)]
    let out := translateStream sampleIds (sse stream true)
    partMarks 0 0 out = [.added "msg" "", .delta "msg" "hi", .done "msg" ""]
      ∧ ¬ WellFormed out := by
  intro stream out
  refine ⟨by decide +kernel, fun h => ?_⟩
  have hne : stream.reduceOption ≠ [] := by simp [stream, reduceOption]
  have hover : ∃ s, Over sampleIds (stream.reduceOption.filterMap content?) s out :=
    stream_over hne (Or.inl rfl) (quiet_of_not_complete rfl)
  obtain ⟨s, hover⟩ := hover
  exact absurd (join_of_wellFormed h hover) (by decide)

/-- Though it is not repeated at the end, no text is lost: a stream that comes to its end
has a response from its creation on, with the text of every chunk in order. -/
theorem compat_tells_text (hne : stream.reduceOption ≠ [])
    (hended : done ∨ complete stream.reduceOption) (hquiet : Quiet stream.reduceOption) :
    let out := translateStream ids (sse stream done)
    let texts := stream.reduceOption.filterMap content?
    Finished texts out ∧ partMarks 0 0 out = partClosed ids texts
      ∧ ∀ i c, (i, c) ≠ (0, 0) → partMarks i c out = [] := by
  obtain ⟨s, hover⟩ : ∃ s, Over ids _ s _ := stream_over hne hended hquiet
  exact ⟨hover.finished, hover.part, hover.parts⟩

theorem compat_tells_text_sample :
    let stream := [some (sampleChunk ⟨some "hi", none, none⟩ (some .stop) none)]
    Finished ["hi"] (translateStream sampleIds (sse stream true)) := by
  intro stream
  have hne : stream.reduceOption ≠ [] := by simp [stream, reduceOption]
  exact (compat_tells_text hne (.inl rfl) (quiet_of_not_complete rfl)).1

end AgentGateway.Llm.OpenaiCompat
