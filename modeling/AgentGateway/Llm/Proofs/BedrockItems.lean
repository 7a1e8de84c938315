/-
The Responses stream of a Converse stream, and what a client has of it.

Between the events the response is live, and the tool calls in the table are
those of open blocks. So at the end there is none, and the metadata finishes the
response (`converse_finished`).

What an event does to what the client has is its `Effect` (`effect_event`): a
piece of text or of reasoning goes to the one part of the message, a tool use
to an item of its own. The identifier of the call is drawn for its place among
the items, and is not that of the tool use.

# Where it breaks

The events are numbered from 1. A content part is added only by the start of a
block, which may be missing, and is the same one for every block; so its story
is told when one block with a start has all the text (`converse_part`). The
text is not repeated at the end.
-/
import AgentGateway.Llm.Proofs.ResponsesCalls
import AgentGateway.Llm.ConverseCut
import AgentGateway.Llm.Outcome

namespace AgentGateway.Llm.FromResponses

open Lib Responses Converse Emitter List AssocMap ConverseStreamOutput

variable {ids : Ids} {model : Strng}

abbrev step (ids : Ids) (model : Strng) (event : ConverseStreamOutput) : Bedrock Unit :=
  translateEvent ids model (some event)

-- ======== one event

/-- Only open blocks have a tool call. -/
def InTable (live : List Int32) (s : State Int32 Pending) : Prop :=
  ∀ i, i ∉ live → s.toolCalls.get? i = none

variable {live : List Int32} {texts : List Strng}
  {s : State Int32 Pending} {i : Int32} {live' : List Int32}
  {blocks : List ConverseStreamOutput} {e : ConverseStreamOutput}

theorem InTable.mono (h : InTable live s) (i : Int32) : InTable (i :: live) s := by
  intro j hj
  rw [mem_cons, not_or] at hj
  exact h j hj.2

theorem InTable.insert (h : InTable live s) (i : Int32) (call : ToolCall) {j : Int32}
    (hj : j ∉ i :: live) : (s.toolCalls.insert i call).get? j = none := by
  rw [mem_cons, not_or] at hj
  rw [get?_insert_ne _ _ hj.1]
  exact h j hj.2

theorem live_toolDelta (i : Int32) (input : Strng) :
    Triple (fun s out => Live ids texts s out ∧ InTable live s) (onToolDelta i input)
      fun _ s out => Live ids texts s out ∧ InTable (i :: live) s := by
  refine triple_get fun s => ?_
  cases hget : s.toolCalls.get? i with
  | none =>
    refine triple_pure ?_
    rintro s' out ⟨rfl, h, htable⟩
    exact ⟨h, htable.mono i⟩
  | some call =>
    rintro s' out ⟨rfl, h, htable⟩
    exact ⟨h.extend hget call.name input, fun _ => htable.insert i _⟩

theorem live_delta (i : Int32) (delta : Option ContentBlockDelta) :
    Triple (fun s out => Live ids texts s out ∧ InTable live s)
      (step ids model (.contentBlockDelta i delta)) fun _ s out => Live ids
          (texts ++ (contentBlockDelta i delta).text?.toList) s out
        ∧ InTable (i :: live) s := by
  have hnone : ∀ t : Option Strng, t = none → ∀ s out, Live ids texts s out ∧ InTable live s →
        Live ids (texts ++ t.toList) s out ∧ InTable (i :: live) s := by
    rintro t rfl s out ⟨h, htable⟩
    rw [Option.toList_none, append_nil]
    exact ⟨h, htable.mono i⟩
  have htext : ∀ t : Strng, Triple (fun s out => Live ids texts s out ∧ InTable live s)
      (sendTextDelta ids t : Bedrock Unit)
      fun _ s out => Live ids (texts ++ [t]) s out ∧ InTable (i :: live) s :=
    fun t s out h => ⟨h.1.text 0 t, h.2.mono i⟩
  rcases delta with - | ⟨⟨- | - | t | -⟩ | t | input⟩
  · exact triple_pure (hnone _ rfl)
  · exact htext _
  · exact triple_pure (hnone _ rfl)
  · exact htext t
  · exact triple_pure (hnone _ rfl)
  · exact htext t
  · refine triple_mono (live_toolDelta i input) (fun _ _ h => h) fun _ s out h => ?_
    simpa [text?] using h

theorem live_stop (i : Int32) : Triple (fun s out => Live ids texts s out ∧ InTable live s)
      (step ids model (.contentBlockStop i))
      fun _ s out => Live ids texts s out ∧ InTable (live.filter (· ≠ i)) s := by
  refine triple_get fun s => ?_
  have htable : InTable live s →
      ∀ j, j ∉ live.filter (· ≠ i) → (s.toolCalls.erase i).get? j = none := by
    intro h j hj
    rw [get?_erase]
    split
    · rfl
    · next hne => exact h j (by simpa [hne] using hj)
  cases hget : s.toolCalls.get? i with
  | some call =>
    rintro s' out ⟨rfl, h, hlive⟩
    exact ⟨(h.finish hget).setRest _, htable hlive⟩
  | none =>
    refine triple_bind (Q := fun _ s out =>
      Live ids texts s out ∧ InTable (live.filter (· ≠ i)) s) (triple_set ?_) ?_
    · rintro s' out ⟨rfl, h, hlive⟩
      refine ⟨?_, htable hlive⟩
      rw [erase_of_none hget]
      exact h.setRest _
    · intro _
      dsimp only
      split
      · exact fun s out h => ⟨h.1.partDone, h.2⟩
      · exact triple_pure fun _ _ h => h

theorem live_event (h : nextLive live e = some live') :
    Triple (fun s out => Live ids texts s out ∧ InTable live s) (step ids model e)
      fun _ s out => Live ids (texts ++ e.text?.toList) s out ∧ InTable live' s := by
  cases e with
  | messageStart | messageStop | metadata => cases h
  | contentBlockStart i start =>
    rw [nextLive, Option.ite_none_left_eq_some] at h
    obtain ⟨hi, h⟩ := h
    cases h
    show Triple _ _ fun _ s out => Live ids (texts ++ []) s out ∧ _
    rw [append_nil]
    rintro s out ⟨h, htable⟩
    rcases start with - | ⟨id, name⟩ | - | -
    · exact ⟨(h.setRest _).partAdded, htable.mono i⟩
    · exact ⟨(h.setRest _).add (htable i hi) rfl rfl, fun _ => htable.insert i _⟩
    · exact ⟨(h.setRest _).partAdded, htable.mono i⟩
    · exact ⟨(h.setRest _).partAdded, htable.mono i⟩
  | contentBlockDelta i delta =>
    cases h
    exact live_delta i delta
  | contentBlockStop i =>
    cases h
    exact (append_nil texts).symm ▸ live_stop i

-- ======== all events

theorem live_blocks (blocks : List ConverseStreamOutput) (texts : List Strng)
    (live : List Int32) (h : blocks.foldlM nextLive live = some live') :
    Triple (fun s out => Live ids texts s out ∧ InTable live s) (blocks.forM (step ids model))
      fun _ s out => Live ids (texts ++ blocks.filterMap text?) s out ∧ InTable live' s := by
  induction blocks generalizing texts live with
  | nil =>
    cases h
    refine triple_pure fun s out hlive => ?_
    rwa [filterMap_nil, append_nil]
  | cons e rest ih =>
    have htexts : texts ++ (e :: rest).filterMap text?
        = texts ++ e.text?.toList ++ rest.filterMap text? := by
      cases he : e.text? <;> simp [he]
    rw [htexts]
    obtain ⟨live₁, he, hrest⟩ := foldlM_cons_eq_some.1 h
    exact triple_bind (live_event he) fun _ => ih _ _ hrest

theorem doneEvent_isTerminal (b : ResponseBuilder) (stop : Option StopReason)
    (usage : Option ResponseUsage) : (doneEvent b stop usage).isTerminal := by
  rcases stop with - | stop
  · rfl
  · cases stop <;> rfl

theorem end_events (reason : StopReason) (usage : Option TokenUsage) (s : State Int32 Pending) :
    ([messageStop reason, .metadata usage].forM
        (step ids model) s).2.2 = [s.stamp (.outputItemDone 0 (messageItem ids .completed)),
        s.sent.stamp (doneEvent ⟨ids.responseId, model⟩ (some reason)
          ((usage.or s.rest.usage).map usageObj))] := rfl

theorem translateStream_map (ids : Ids) (model : Strng) (events : List ConverseStreamOutput) :
    translateStream ids model (events.map some) = (events.forM (step ids model) initial).2.2 := by
  rw [translateStream, runAll_map, runAll_eq_forM]

theorem converse_finished (h : Blocks blocks)
    (ids : Ids) (model : Strng) (reason : StopReason) (usage : Option TokenUsage) :
    Finished (blocks.filterMap text?)
      (translateStream ids model ((converse blocks reason usage).map some)) := by
  rw [translateStream_map]
  have hstart : Triple (fun s out => s = initial ∧ out = []) (step ids model .messageStart)
      fun _ s out => Live ids [] s out ∧ InTable [] s := by
    rintro _ _ ⟨rfl, rfl⟩
    exact ⟨Live.start (Tracks.init _) model, fun _ _ => rfl⟩
  have hrun : Triple (fun s out => s = initial ∧ out = [])
      ((converse blocks reason usage).forM (step ids model))
      fun _ _ out => Finished (blocks.filterMap text?) out := by
    refine triple_bind hstart fun _ => triple_forM_append (live_blocks blocks [] [] h) ?_
    rintro s out ⟨h, htable⟩
    exact (h.setRest _).finished (fun i => htable i not_mem_nil) (doneEvent_isTerminal _ _ _)
  exact hrun initial [] ⟨rfl, rfl⟩

-- ======== part

/-- What was told about the content part. The block whose stop will end it is
one with a start and without a tool call. -/
structure Parts (started : Option Int32) (marks : List PartMark)
    (s : State Int32 Pending) (out : List StreamEvent) : Prop where
  marks : partMarks 0 0 out = marks
  started : ∀ j, (s.rest.seenBlocks.contains j ∧ s.toolCalls.get? j = none) ↔ started = some j

variable {started : Option Int32} {marks : List PartMark} {start : Option ContentBlockStart}
  {post pre : List ConverseStreamOutput}

theorem Parts.append {s' : State Int32 Pending} {out es : List StreamEvent}
    (h : Parts started marks s out) (more : List PartMark) (hes : partMarks 0 0 es = more)
    (hs : ∀ j, (s'.rest.seenBlocks.contains j ∧ s'.toolCalls.get? j = none)
      ↔ (s.rest.seenBlocks.contains j ∧ s.toolCalls.get? j = none)) :
    Parts started (marks ++ more) s' (out ++ es) where
  marks := by rw [partMarks_append, h.marks, hes]
  started j := (hs j).trans (h.started j)

theorem parts_toolStart (hi : started ≠ some i) (id name : Strng) :
    Triple (Parts started marks) (step ids model (.contentBlockStart i (some (.toolUse id name))))
      fun _ => Parts started (marks ++ []) := by
  intro s out h
  refine h.append [] rfl fun j => ?_
  show ((s.rest.seenBlocks.insert i ()).contains j ∧ (s.toolCalls.insert i _).get? j = none) ↔ _
  rw [AssocMap.contains_insert, get?_insert]
  rcases eq_or_ne j i with rfl | hne
  · rw [h.started j]
    simp [hi]
  · simp [hne]

theorem parts_toolDelta (i : Int32) (input : Strng) :
    Triple (Parts started marks) (onToolDelta i input) fun _ => Parts started (marks ++ []) := by
  refine triple_get fun s => ?_
  cases hget : s.toolCalls.get? i with
  | none =>
    refine triple_pure ?_
    rintro s' out ⟨rfl, h⟩
    rwa [append_nil]
  | some call =>
    rintro s' out ⟨rfl, h⟩
    refine h.append [] rfl fun j => ?_
    show (s'.rest.seenBlocks.contains j ∧ (s'.toolCalls.insert i _).get? j = none) ↔ _
    rw [get?_insert]
    rcases eq_or_ne j i with rfl | hne
    · simp [hget]
    · simp [hne]

theorem parts_delta (i : Int32) (delta : Option ContentBlockDelta) :
    Triple (Parts started marks) (step ids model (.contentBlockDelta i delta))
      fun _ => Parts started (marks
        ++ (contentBlockDelta i delta).text?.toList.map (.delta ids.messageItemId)) := by
  have hnone : ∀ s out, Parts started marks s out → Parts started (marks ++ []) s out := by
    intro s out h
    rwa [append_nil]
  have htext : ∀ t : Strng, Triple (Parts started marks) (sendTextDelta ids t : Bedrock Unit)
      fun _ => Parts started (marks ++ [.delta ids.messageItemId t]) :=
    fun t s out h => h.append _ rfl fun _ => Iff.rfl
  rcases delta with - | ⟨⟨- | - | t | -⟩ | t | input⟩
  · exact triple_pure hnone
  · exact htext _
  · exact triple_pure hnone
  · exact htext t
  · exact triple_pure hnone
  · exact htext t
  · exact parts_toolDelta i input

theorem stopped_iff (s : State Int32 Pending) (i j : Int32) :
    ((s.rest.seenBlocks.erase i).contains j ∧ (s.toolCalls.erase i).get? j = none)
      ↔ j ≠ i ∧ s.rest.seenBlocks.contains j ∧ s.toolCalls.get? j = none := by
  rw [contains_erase, get?_erase]
  rcases eq_or_ne j i with rfl | hne
  · simp
  · simp [hne]

theorem parts_otherStop (hi : started ≠ some i) :
    Triple (Parts started marks) (step ids model (.contentBlockStop i))
      fun _ => Parts started (marks ++ []) := by
  refine triple_get fun s => ?_
  rintro s' out ⟨rfl, h⟩
  have hstop : ∀ j, ((s'.rest.seenBlocks.erase i).contains j ∧ (s'.toolCalls.erase i).get? j = none)
      ↔ s'.rest.seenBlocks.contains j ∧ s'.toolCalls.get? j = none := by
    intro j
    rw [stopped_iff, h.started j]
    refine and_iff_right_of_imp ?_
    rintro hj rfl
    exact hi hj
  cases hget : s'.toolCalls.get? i with
  | some call => exact h.append [] rfl hstop
  | none =>
    have hseen : s'.rest.seenBlocks.contains i = false := by
      by_contra hseen
      exact hi ((h.started i).1 ⟨by simpa using hseen, hget⟩)
    rw [hseen]
    exact h.append [] rfl hstop

theorem parts_stop : Triple (Parts (some i) marks) (step ids model (.contentBlockStop i))
      fun _ => Parts none (marks ++ [.done ids.messageItemId ""]) := by
  refine triple_get fun s => ?_
  rintro s' out ⟨rfl, h⟩
  obtain ⟨hseen, hget⟩ := (h.started i).2 rfl
  rw [hseen, hget]
  refine ⟨?_, ?_⟩
  · exact (partMarks_append 0 0 out _).trans (by rw [h.marks]; rfl)
  · intro j
    refine (stopped_iff s' i j).trans ?_
    rw [h.started j]
    simp [eq_comm]

theorem parts_start (hpart : (contentBlockStart i start).startsPart) :
    Triple (fun s out => Parts none marks s out ∧ s.toolCalls.get? i = none)
      (step ids model (.contentBlockStart i start))
      fun _ => Parts (some i) (marks ++ [.added ids.messageItemId ""]) := by
  rintro s out ⟨h, hget⟩
  have hout : partMarks 0 0
      (out ++ [s.stamp (.contentPartAdded ids.messageItemId 0 0 "")])
      = marks ++ [.added ids.messageItemId ""] := by
    rw [partMarks_append, h.marks]
    rfl
  have htables : ∀ j, ((s.rest.seenBlocks.insert i ()).contains j
      ∧ s.toolCalls.get? j = none) ↔ some i = some j := by
    intro j
    rw [AssocMap.contains_insert]
    rcases eq_or_ne j i with rfl | hne
    · simp [hget]
    · refine iff_of_false ?_ fun heq => hne (Option.some.inj heq).symm
      rintro ⟨hj | hj, hnone⟩
      · exact hne hj
      · cases (h.started j).1 ⟨hj, hnone⟩
  rcases start with - | ⟨id, name⟩ | - | -
  · exact ⟨hout, htables⟩
  · cases hpart
  · exact ⟨hout, htables⟩
  · exact ⟨hout, htables⟩

/-- The block of the part is open; it is not stopped here, and no other part is
started. -/
structure Within (started : Option Int32) (live : List Int32)
    (events : List ConverseStreamOutput) : Prop where
  live : ∀ i, started = some i → i ∈ live
  quiet : ∀ e ∈ events, e.startsPart = false
  running : ∀ i, started = some i → .contentBlockStop i ∉ events

theorem parts_event {rest : List ConverseStreamOutput}
    (h : nextLive live e = some live') (hwithin : Within started live (e :: rest)) :
    Triple (Parts started marks) (step ids model e) fun _ => Parts started
        (marks ++ e.text?.toList.map (.delta ids.messageItemId)) := by
  cases e with
  | messageStart | messageStop | metadata => cases h
  | contentBlockStart i start =>
    rw [nextLive, Option.ite_none_left_eq_some] at h
    have hquiet := hwithin.quiet _ mem_cons_self
    have hi : started ≠ some i := fun hstarted => h.1 (hwithin.live i hstarted)
    rcases start with - | ⟨id, name⟩ | - | -
    · cases hquiet
    · exact parts_toolStart hi id name
    · cases hquiet
    · cases hquiet
  | contentBlockDelta i delta => exact parts_delta i delta
  | contentBlockStop i =>
    refine parts_otherStop fun hstarted => ?_
    exact hwithin.running i hstarted mem_cons_self

theorem parts_segment (events : List ConverseStreamOutput) (marks : List PartMark)
    (live : List Int32) (h : events.foldlM nextLive live = some live')
    (hwithin : Within started live events) :
    Triple (Parts started marks) (events.forM (step ids model))
      fun _ => Parts started (marks ++ (events.filterMap text?).map
          (.delta ids.messageItemId)) := by
  induction events generalizing marks live with
  | nil =>
    refine triple_pure fun s out hparts => ?_
    rwa [filterMap_nil, map_nil, append_nil]
  | cons e rest ih =>
    have htexts : marks ++ ((e :: rest).filterMap text?).map (.delta ids.messageItemId)
        = marks ++ e.text?.toList.map (.delta ids.messageItemId)
          ++ (rest.filterMap text?).map (.delta ids.messageItemId) := by
      cases he : e.text? <;> simp [he]
    rw [htexts]
    obtain ⟨live₁, he, hrest⟩ := foldlM_cons_eq_some.1 h
    refine triple_bind (parts_event he hwithin) fun _ => ih _ _ hrest ⟨?_, ?_, ?_⟩
    · intro i hi
      refine nextLive_mem he (hwithin.live i hi) ?_
      rintro rfl
      exact hwithin.running i hi mem_cons_self
    · exact fun e' he' => hwithin.quiet e' (mem_cons_of_mem e he')
    · exact fun i hi hmem => hwithin.running i hi (mem_cons_of_mem e hmem)

/-- One block, which has a start, has all the text, and no other block is for
text. -/
structure OneText (blocks pre mid post : List ConverseStreamOutput) (i : Int32)
    (start : Option ContentBlockStart) : Prop where
  blocks : blocks = pre ++ .contentBlockStart i start :: (mid ++ .contentBlockStop i :: post)
  start : (contentBlockStart i start).startsPart
  block : .contentBlockStop i ∉ mid
  quiet : ∀ e ∈ pre ++ mid ++ post, e.startsPart = false
  texts : ∀ e ∈ pre ++ post, e.text? = none

theorem parts_before
    (h : pre.foldlM nextLive [] = some live) (hquiet : ∀ e ∈ pre, e.startsPart = false)
    (htexts : ∀ e ∈ pre, e.text? = none) (hi : i ∉ live) :
    Triple (fun s out => s = initial ∧ out = []) ((.messageStart :: pre).forM (step ids model))
      fun _ s out => Parts none [] s out ∧ s.toolCalls.get? i = none := by
  have hfirst : Triple (fun s out => s = initial ∧ out = []) (step ids model .messageStart)
      fun _ s out => (Live ids [] s out ∧ InTable [] s) ∧ Parts none [] s out := by
    rintro _ _ ⟨rfl, rfl⟩
    refine ⟨⟨Live.start (Tracks.init _) model, fun _ _ => rfl⟩, rfl, fun j => ?_⟩
    refine iff_of_false ?_ (by simp)
    rintro ⟨hseen, -⟩
    cases hseen
  refine triple_bind hfirst fun _ => triple_mono
    (triple_and (live_blocks pre [] [] h) (parts_segment pre [] [] h ?_))
    (fun _ _ hand => hand) ?_
  · exact ⟨by simp, hquiet, by simp⟩
  · rintro _ s out ⟨⟨-, htable⟩, hparts⟩
    rw [filterMap_eq_nil_iff.2 htexts] at hparts
    exact ⟨hparts, htable i hi⟩

theorem parts_after (h : post.foldlM nextLive live = some live')
    (hquiet : ∀ e ∈ post, e.startsPart = false) (htexts : ∀ e ∈ post, e.text? = none)
    (marks : List PartMark) (reason : StopReason) (usage : Option TokenUsage) :
    Triple (Parts none marks)
      ((post ++ [messageStop reason, .metadata usage]).forM (step ids model))
      fun _ _ out => partMarks 0 0 out = marks := by
  refine triple_forM_append
    (parts_segment post marks live h ⟨by simp, hquiet, by simp⟩) fun s out hparts => ?_
  rw [filterMap_eq_nil_iff.2 htexts, map_nil, append_nil] at hparts
  have hlast := ResponseStreamEvent.partMark_of_isTerminal
    (doneEvent_isTerminal ⟨ids.responseId, model⟩ (some reason)
      ((usage.or s.rest.usage).map usageObj)) 0 0
  rw [end_events, partMarks_append, hparts.marks, partMarks_cons, partMarks_cons,
    State.stamp, State.stamp, hlast]
  exact append_nil marks

theorem converse_part {mid : List ConverseStreamOutput} (h : Blocks blocks)
    (hone : OneText blocks pre mid post i start) (ids : Ids) (model : Strng)
    (reason : StopReason) (usage : Option TokenUsage) :
    PartLife (mid.filterMap text?) "" (partMarks 0 0
        (translateStream ids model ((converse blocks reason usage).map some))) := by
  obtain ⟨rfl, hstart, hblock, hquiet, htexts⟩ := hone
  rw [Blocks, foldlM_append] at h
  obtain ⟨live₁, hpre, h⟩ := Option.bind_eq_some_iff.1 h
  obtain ⟨live₂, hi, h⟩ := foldlM_cons_eq_some.1 h
  rw [nextLive, Option.ite_none_left_eq_some] at hi
  obtain ⟨hi, hlive₂⟩ := hi
  cases hlive₂
  rw [foldlM_append] at h
  obtain ⟨live₃, hmid, h⟩ := Option.bind_eq_some_iff.1 h
  obtain ⟨live₄, -, hpost⟩ := foldlM_cons_eq_some.1 h
  have hwithin : Within (some i) (i :: live₁) mid := by
    refine ⟨?_, fun e he => hquiet e (by simp [he]), ?_⟩
    · rintro _ ⟨⟩
      exact mem_cons_self
    · rintro _ ⟨⟩
      exact hblock
  have hquiet₁ : ∀ e ∈ pre, e.startsPart = false := fun e he => hquiet e (by simp [he])
  have hquiet₂ : ∀ e ∈ post, e.startsPart = false := fun e he => hquiet e (by simp [he])
  have htexts₁ : ∀ e ∈ pre, e.text? = none := fun e he => htexts e (by simp [he])
  have htexts₂ : ∀ e ∈ post, e.text? = none := fun e he => htexts e (by simp [he])
  have hrun : Triple (fun s out => s = initial ∧ out = [])
      (((messageStart :: pre)
        ++ (contentBlockStart i start
          :: (mid ++ (contentBlockStop i :: (post ++ [messageStop reason, .metadata usage]))))).forM
        (step ids model))
      fun _ _ out => partMarks 0 0 out = _ :=
    triple_forM_append (parts_before hpre hquiet₁ htexts₁ hi)
      (triple_bind (parts_start hstart) fun _ =>
        triple_forM_append (parts_segment mid _ _ hmid hwithin) (triple_bind parts_stop fun _ =>
            parts_after hpost hquiet₂ htexts₂ _ reason usage))
  refine ⟨ids.messageItemId, ?_⟩
  have hmarks := hrun initial [] ⟨rfl, rfl⟩
  rw [translateStream_map]
  simpa [converse] using hmarks

-- ======== result

theorem bedrock_responses_stream {blocks : List ConverseStreamOutput}
    (h : Blocks blocks) (ids : Ids) (model : Strng) (reason : StopReason)
    (usage : Option TokenUsage) :
    let out := translateStream ids model ((converse blocks reason usage).map some)
    Consecutive out ∧ CreatedFirst out ∧ (∃ content, MessageLife (blocks.filterMap text?) content
        (itemMarks 0 out))
      ∧ (∀ i, 1 ≤ i → itemMarks i out = [] ∨ ToolStory (itemMarks i out))
      ∧ (∀ pre mid post i start, OneText blocks pre mid post i start →
        ∃ text, PartLife (mid.filterMap text?) text (partMarks 0 0 out))
      ∧ ∃ pre e, out = pre ++ [e] ∧ e.event.isTerminal ∧ ∀ e ∈ pre, e.event.isTerminal = false := by
  intro out
  have hfinished := converse_finished h ids model reason usage
  refine ⟨hfinished.consecutive, hfinished.created, ⟨_, hfinished.message⟩,
    hfinished.tools, ?_, hfinished.terminal⟩
  intro pre mid post i start hone
  exact ⟨_, converse_part h hone ids model reason usage⟩

/-- Text, and a tool call whose arguments come in two pieces. -/
def sampleBlocks : List ConverseStreamOutput :=
  [.contentBlockStart 0 none, .contentBlockDelta 0 (some (.text "hi")),
    .contentBlockStop 0, .contentBlockStart 1 (some (.toolUse "t" "f")),
    .contentBlockDelta 1 (some (.toolUse "1")), .contentBlockDelta 1 (some (.toolUse "2")),
    .contentBlockStop 1]

theorem bedrock_responses_stream_sample : Blocks sampleBlocks ∧ ToolStory (itemMarks 1
        (translateStream sampleIds "m" ((converse sampleBlocks .toolUse none).map some))) := by
  have hblocks : Blocks sampleBlocks := by decide
  refine ⟨hblocks, ?_⟩
  have htools := (bedrock_responses_stream hblocks sampleIds "m" .toolUse none).2.2.2.1
  refine (htools 1 le_rfl).resolve_left ?_
  decide

/-- The numbers are not from 0. -/
theorem bedrock_responses_from_one :
    let blocks := [contentBlockStart 0 none, .contentBlockDelta 0 (some (.text "hi")),
      .contentBlockStop 0]
    let out := translateStream sampleIds "m" ((converse blocks .endTurn none).map some)
    Blocks blocks ∧ out.map (·.sequenceNumber) = [1, 2, 3, 4, 5, 6, 7] := by
  decide

-- ======== items

/-- What an event of a block does to the items of the client, of which the first
`n` places are given out. -/
inductive Effect (ids : Ids) (n : Nat) (items : IndexMap Nat PartialItem) :
    ConverseStreamOutput → Nat → IndexMap Nat PartialItem → Prop
  | quiet {e : ConverseStreamOutput} (hsaid : e.text? = none) : Effect ids n items e n items
  | said {e : ConverseStreamOutput} :
    Effect ids n items e n (amend items 0 (·.addText 0 (e.text?.getD "")))
  | input {i : Int32} {input : Strng} (j : Nat) :
    Effect ids n items (.contentBlockDelta i (some (.toolUse input))) n
      (amend items j (·.addArguments input))
  | call {i : Int32} {id name : Strng} :
    Effect ids n items (.contentBlockStart i (some (.toolUse id name))) (n + 1)
      (items.insert n (.functionCall (ids.callId n) name ""))

/-- An event of a block, of which a tool use has its own. -/
def ofBlock : ConverseStreamOutput → Bool
  | .contentBlockStart _ _ | .contentBlockDelta _ _ | .contentBlockStop _ => true
  | _ => false

def ofTool : ConverseStreamOutput → Bool
  | .contentBlockStart _ (some (.toolUse _ _)) | .contentBlockDelta _ (some (.toolUse _)) => true
  | _ => false

section Items

variable {events : List ConverseStreamOutput} {callId text : Strng} {n n' : Nat}
  {items items' : IndexMap Nat PartialItem} {reason : StopReason} {usage : Option TokenUsage}

theorem effect_event (hblock : ofBlock e) (s : State Int32 Pending) (out : List StreamEvent) :
    Triple (fun s' out' => s' = s ∧ out' = out) (step ids model e) fun _ s' out' =>
      Effect ids s.nextOutputIndex (foldItems out) e s'.nextOutputIndex (foldItems out') := by
  cases e with
  | messageStart | messageStop | metadata => cases hblock
  | contentBlockStart i start =>
    rintro _ _ ⟨rfl, rfl⟩
    rw [foldItems_append]
    rcases start with - | ⟨id, name⟩ | - | -
    case some.toolUse => exact .call
    all_goals exact .said
  | contentBlockDelta i delta =>
    rcases delta with - | ((t | - | t | -) | t | input)
    case some.toolUse =>
      refine triple_get fun s => ?_
      cases s.toolCalls.get? i with
      | none =>
        refine triple_pure ?_
        rintro _ _ ⟨rfl, rfl, rfl⟩
        exact .quiet rfl
      | some call =>
        rintro _ _ ⟨rfl, rfl, rfl⟩
        rw [foldItems_append]
        exact .input _
    all_goals
      rintro _ _ ⟨rfl, rfl⟩
      rw [foldItems_append]
      first | exact .quiet rfl | exact .said
  | contentBlockStop i =>
    refine triple_get fun s => ?_
    cases s.toolCalls.get? i with
    | some call =>
      rintro _ _ ⟨rfl, rfl, rfl⟩
      rw [foldItems_append]
      exact .quiet rfl
    | none =>
      cases s.rest.seenBlocks.contains i with
      | true | false =>
        rintro _ _ ⟨rfl, rfl, rfl⟩
        rw [foldItems_append]
        exact .quiet rfl

theorem triple_of_effect {P Q : Nat → IndexMap Nat PartialItem → Prop} (hblock : ofBlock e)
    (h : ∀ {n items n' items'}, Effect ids n items e n' items' → P n items → Q n' items') :
    Triple (fun s out => P s.nextOutputIndex (foldItems out)) (step ids model e)
      fun _ s out => Q s.nextOutputIndex (foldItems out) :=
  fun s out hP => h (effect_event hblock s out s out ⟨rfl, rfl⟩) hP

theorem Effect.addText (h : Effect ids n items e n' items') (hplain : ofTool e = false)
    (htext : Says text items) : Says (text ++ e.text?.getD "") items' := by
  cases h with
  | quiet hsaid =>
    rw [hsaid, Option.getD_none, String.append_empty]
    exact htext
  | said => exact htext.addText _
  | input j => cases hplain
  | call => cases hplain

theorem Effect.hasCall (h : Effect ids n items e n' items') (hcall : HasCall callId n items) :
    HasCall callId n' items' := by
  cases h with
  | quiet => exact hcall
  | said => exact hcall.amend 0 fun _ _ => ⟨_, rfl⟩
  | input j => exact hcall.amend j fun _ _ => ⟨_, rfl⟩
  | call =>
    obtain ⟨i, hi, name, arguments, hget⟩ := hcall
    exact ⟨i, by omega, name, arguments, by rw [get?_insert_ne _ _ (by omega), hget]⟩

theorem addEvent_of_isTerminal {e : ResponseStreamEvent} (h : e.isTerminal)
    (items : IndexMap Nat PartialItem) : addEvent items e = items := by
  cases e <;> first | rfl | cases h

/-- The items are those that the events of the blocks have left. -/
theorem foldItems_converse {P : IndexMap Nat PartialItem → Prop} (ids : Ids) (model : Strng)
    (hblocks : Triple (fun _ out => Says "" (foldItems out)) (events.forM (step ids model))
      fun _ _ out => P (foldItems out)) :
    P (foldItems (translateStream ids model ((converse events reason usage).map some))) := by
  have hstart : Triple (fun s out => s = initial ∧ out = []) (step ids model .messageStart)
      fun _ _ out => Says "" (foldItems out) := by
    rintro _ _ ⟨rfl, rfl⟩
    exact ⟨.empty, rfl, .inl ⟨rfl, rfl⟩⟩
  have hend : Triple (fun _ out => P (foldItems out))
      ([.messageStop reason, .metadata usage].forM (step ids model))
      fun _ _ out => P (foldItems out) := by
    intro s out h
    rw [end_events, foldItems_append, foldl_cons, foldl_cons,
      State.stamp, State.stamp, addEvent_of_isTerminal (doneEvent_isTerminal _ _ _)]
    exact h
  rw [translateStream_map]
  exact triple_bind hstart (fun _ => triple_forM_append hblocks hend) _ [] ⟨rfl, rfl⟩

/-- Without tool uses there is one message, and all that is said is one part. -/
theorem streamOutcome_silent (hblocks : ∀ e ∈ events, ofBlock e)
    (hplain : ∀ e ∈ events, ofTool e = false) (ids : Ids) (model : Strng) :
    streamOutcome (translateStream ids model ((converse events reason usage).map some))
      = [.message (if String.join (events.filterMap text?) = "" then []
        else [String.join (events.filterMap text?)])] := by
  refine Says.values (foldItems_converse ids model ?_)
  refine triple_forM_prefix (fun pre _ out => Says (String.join (pre.filterMap text?))
    (foldItems out)) events fun pre e post hevents => ?_
  have hmem : e ∈ events := by simp [hevents]
  have hconcat : String.join ((pre ++ [e]).filterMap text?)
      = String.join (pre.filterMap text?) ++ e.text?.getD "" := by
    rw [filterMap_append, String.join_append]
    cases he : e.text? <;> simp [he]
  rw [hconcat]
  exact triple_of_effect (P := fun _ items => Says _ items) (Q := fun _ items => Says _ items)
    (hblocks e hmem) fun heffect => heffect.addText (hplain e hmem)

/-- Where a tool use starts, there is in the end a call under the identifier that
is drawn. -/
theorem call_mem_streamOutcome {id name : Strng} (hblocks : ∀ e ∈ events, ofBlock e)
    (hmem : .contentBlockStart i (some (.toolUse id name)) ∈ events)
    (hids : ∀ n, ids.callId n = callId) (model : Strng) :
    ∃ name arguments, .functionCall callId name arguments
      ∈ streamOutcome (translateStream ids model ((converse events reason usage).map some)) := by
  obtain ⟨pre, post, rfl⟩ := append_of_mem hmem
  let Called (s : State Int32 Pending) (out : List StreamEvent) : Prop :=
    HasCall callId s.nextOutputIndex (foldItems out)
  have hcall : Triple (fun _ _ => True)
      (step ids model (.contentBlockStart i (some (.toolUse id name)))) fun _ => Called := by
    intro s out _
    dsimp only [Called]
    rw [foldItems_append, ← hids s.nextOutputIndex]
    exact ⟨s.nextOutputIndex, Nat.lt_succ_self _, name, "", get?_insert_self _ _ _⟩
  have hrest : Triple Called (post.forM (step ids model)) fun _ => Called := by
    refine triple_forM_prefix (fun _ => Called) post fun pre' e post' hpost => ?_
    exact triple_of_effect (hblocks e (by simp [hpost])) Effect.hasCall
  have hafter : Triple (fun _ _ => True)
      ((.contentBlockStart i (some (.toolUse id name)) :: post).forM (step ids model))
      fun _ _ out => ∃ n, HasCall callId n (foldItems out) :=
    triple_bind hcall fun _ => triple_mono hrest (fun _ _ h => h) fun _ _ _ h => ⟨_, h⟩
  obtain ⟨n, hcalled⟩ := foldItems_converse (P := fun items => ∃ n, HasCall callId n items)
    ids model (triple_forM_append (Q := fun _ _ _ => True) (fun _ _ _ => trivial) hafter)
  exact hcalled.mem_values

end Items

end AgentGateway.Llm.FromResponses
