/-
Translations of responses between the vocabularies: `from_completions` of
`llm/conversion/messages.rs`, `from_messages` of `llm/conversion/completions.rs`,
and `translate_stream` and `flush_end` of `llm/conversion/openai_compat.rs`.

# Messages upstream, Chat Completions client

A whole response and a stream are translated apart from each other. A whole
response is folded block by block, where a later text block takes the place of
an earlier one. The stream translation keeps no content: it hands each delta on
in a chunk of its own, and only numbers the tool calls as their blocks start.

# Chat Completions upstream, Messages client

The stream translation is a state machine. A text block is opened by the
first text and closed by the next tool call; tool blocks are opened once
the name of the tool is known and kept open until text comes or the
message ends; the end of the message is held back until both the finish
reason and the usage are there, or the stream is done.

# Chat Completions upstream, Responses client

The message is added with the first chunk and its content part with the first
text. A tool call is added with the first chunk that has its index. All are
done together, when a finish reason and the usage have both come, or at the
end of the stream if it is marked.

# Left out

The amendments of the request log, the time of the first token among
them, and `created`, which is the time of the translation.
-/
import AgentGateway.Llm.Types

namespace AgentGateway.Llm

open Lib Completions

variable {J : Type}

namespace FromCompletions

open Messages

def translateStopReason : StopReason → FinishReason
  | .endTurn => .stop
  | .maxTokens => .length
  | .stopSequence => .stop
  | .toolUse => .toolCalls
  | .refusal => .contentFilter
  | .pauseTurn => .stop
  | .modelContextWindowExceeded => .length

-- ======== whole response

/-- What the loop over the content blocks has gathered. -/
structure Gathered where
  toolCalls : List MessageToolCalls
  content : Option Strng
  reasoningContent : Option Strng

/-- One round of the loop over the content blocks. -/
def onBlock (js : Serde J) (acc : Gathered) : ContentBlock J → Gathered
  | .text text => { acc with content := some text }
  | .toolUse id name input | .serverToolUse id name input =>
    match js.toString input with
    | none => acc
    | some args =>
      { acc with
        toolCalls := acc.toolCalls ++ [.function ⟨id, ⟨name, args⟩⟩] }
  -- redacted thinking and signatures are ignored for now
  | .thinking thinking _ => { acc with reasoningContent := some thinking }
  | .redactedThinking _ => acc
  | .other => acc

def translateResponseInternal (js : Serde J) (resp : MessagesResponse J) : Response :=
  let acc := resp.content.foldl (onBlock js) ⟨[], none, none⟩
  { id := resp.id
    model := resp.model
    -- only one choice for Anthropic
    choices := [{
      message := {
        content := acc.content
        toolCalls := if acc.toolCalls.isEmpty then none else some acc.toolCalls
        reasoningContent := acc.reasoningContent }
      finishReason := resp.stopReason.map translateStopReason }]
    usage := some {
      promptTokens := resp.usage.inputTokens.toUInt32
      completionTokens := resp.usage.outputTokens.toUInt32
      totalTokens := (resp.usage.inputTokens + resp.usage.outputTokens).toUInt32
      cacheReadInputTokens := resp.usage.cacheReadInputTokens
      promptTokensDetails := resp.usage.cacheReadInputTokens.map fun i => ⟨some i, none⟩
      cacheCreationInputTokens := resp.usage.cacheCreationInputTokens
      completionTokensDetails := none }
    serviceTier := resp.usage.serviceTier }

-- ======== stream

structure StreamState where
  messageId : Option Strng
  model : Strng
  serviceTier : Option Strng
  nextToolIndex : UInt32
  toolIndexMap : HashMap Nat UInt32

/-- The variables of `translate_stream`, before the first event. -/
def StreamState.init : StreamState where
  messageId := none
  model := ""
  serviceTier := none
  nextToolIndex := 0
  toolIndexMap := .empty

abbrev Translate := Emitter StreamState StreamResponse

/-- Send a chunk, with what is known of the message. -/
def mk (choices : List ChatChoiceStream) (usage : Option Completions.Usage) : Translate Unit := do
  let state ← get
  Emitter.emit {
    id := state.messageId.getD "unknown"
    model := state.model
    serviceTier := state.serviceTier
    choices := choices
    usage := usage }

def mkDelta (delta : StreamResponseDelta) : Translate Unit :=
  mk [⟨delta, none⟩] none

/-- A tool call gets the next index. -/
def startTool (index : Nat) (id name : Strng) : Translate Unit := do
  let state ← get
  let toolIndex := state.nextToolIndex
  set { state with
    nextToolIndex := state.nextToolIndex + 1
    toolIndexMap := state.toolIndexMap.insert index toolIndex }
  mkDelta { toolCalls := some [⟨toolIndex, some id, some ⟨some name, none⟩⟩] }

/-- `MessagesStreamEvent::ContentBlockDelta`. -/
def onDelta (index : Nat) : ContentBlockDelta → Translate Unit
  | .textDelta text => mkDelta { content := some text }
  | .thinkingDelta thinking => mkDelta { reasoningContent := some thinking }
  | .inputJsonDelta partialJson => do
      let state ← get
      match state.toolIndexMap.get? index with
      | some toolIndex =>
        mkDelta {
          toolCalls := some [⟨toolIndex, none, some ⟨none, some partialJson⟩⟩] }
      | none => pure ()
  | .signatureDelta _ | .citationsDelta => pure ()

/-- The usage of `MessagesStreamEvent::MessageDelta`. -/
def deltaUsage (usage : MessageDeltaUsage) : Completions.Usage where
  promptTokens := (usage.inputTokens.getD 0).toUInt32
  completionTokens := (usage.outputTokens.getD 0).toUInt32
  totalTokens := (usage.inputTokens.getD 0 + usage.outputTokens.getD 0).toUInt32
  cacheReadInputTokens := usage.cacheReadInputTokens
  promptTokensDetails := usage.cacheReadInputTokens.map fun i => ⟨some i, none⟩
  cacheCreationInputTokens := usage.cacheCreationInputTokens
  completionTokensDetails := none

/-- The handler of `translate_stream`, on an event that could be parsed. -/
def onEvent : MessagesStreamEvent J → Translate Unit
  | .messageStart message =>
    modify fun state => { state with
      messageId := some message.id
      model := message.model
      serviceTier := message.usage.serviceTier }
  | .contentBlockStart index (.toolUse id name _)
  | .contentBlockStart index (.serverToolUse id name _) => startTool index id name
  | .contentBlockStart _ _ => pure ()
  | .contentBlockDelta index delta => onDelta index delta
  | .messageDelta delta usage =>
    let finishReason := delta.stopReason.map translateStopReason
    mk (finishReason.map fun r => ⟨{}, some r⟩).toList (some (deltaUsage usage))
  | .contentBlockStop index =>
    modify fun state =>
      { state with toolIndexMap := state.toolIndexMap.erase index }
  | .messageStop => pure ()
  | .ping => pure ()

/-- The chunks that the events of a stream are translated into; what could
not be parsed is passed over. -/
def translateStream (evts : List (Option (MessagesStreamEvent J))) : List StreamResponse :=
  (Emitter.runAll (·.forM onEvent) StreamState.init evts).2

end FromCompletions

namespace FromMessages

open Messages

variable (js : Serde J) (toolIndex : UInt32)

-- ======== whole response

inductive AIError
  | invalidResponse (message : Strng)

/-- A tool call as a content block. -/
def translateToolCall : MessageToolCalls → Option (ContentBlock J)
  | .function f =>
    some (.toolUse f.id f.function.name ((js.fromStr f.function.arguments).getD js.null))
  | .custom => none

/-- The finish reasons of a whole response. -/
def translateFinishReason : FinishReason → StopReason
  | .stop => .endTurn
  | .length => .maxTokens
  | .toolCalls => .toolUse
  | .contentFilter => .endTurn
  | .functionCall => .toolUse

def translateResponseInternal (resp : Response) : Except AIError (MessagesResponse J) :=
  -- Anthropic only supports one choice
  match resp.choices with
  | [] => .error (.invalidResponse "chat response missing choices")
  | choice :: _ =>
    let text := (choice.message.content.map ContentBlock.text).toList
    let toolCalls := (choice.message.toolCalls.getD []).filterMap (translateToolCall js)
    .ok {
      id := resp.id
      content := text ++ toolCalls
      model := resp.model
      stopReason := some ((choice.finishReason.map translateFinishReason).getD .endTurn)
      stopSequence := none
      usage := {
        inputTokens := (resp.usage.map (·.promptTokens.toUInt64)).getD 0
        outputTokens := (resp.usage.map (·.completionTokens.toUInt64)).getD 0
        cacheCreationInputTokens := none
        cacheReadInputTokens := none
        serviceTier := resp.serviceTier }
      inputAudioTokens := resp.usage.bind fun u =>
        u.promptTokensDetails.bind (·.audioTokens)
      outputAudioTokens := resp.usage.bind fun u =>
        u.completionTokensDetails.bind (·.audioTokens) }

-- ======== stream

structure PendingToolCall where
  id : Option Strng
  name : Option Strng
  pendingJson : Strng

structure StreamState where
  sentMessageStart : Bool
  sentMessageStop : Bool
  nextBlockIndex : Nat
  textBlockIndex : Option Nat
  toolBlockIndices : HashMap UInt32 Nat
  openToolBlocks : HashSet UInt32
  pendingToolCalls : HashMap UInt32 PendingToolCall
  pendingStopReason : Option StopReason
  pendingUsage : Option Completions.Usage

def StreamState.default : StreamState where
  sentMessageStart := false
  sentMessageStop := false
  nextBlockIndex := 0
  textBlockIndex := none
  toolBlockIndices := .empty
  openToolBlocks := .empty
  pendingToolCalls := .empty
  pendingStopReason := none
  pendingUsage := none

/-- What works on the state and pushes events. -/
abbrev Translate (J : Type) := Emitter StreamState (MessagesStreamEvent J)

def pushEvent (event : MessagesStreamEvent J) : Translate J Unit :=
  Emitter.emit event

def closeTextBlock : Translate J Unit := do
  let state ← get
  match state.textBlockIndex with
  | some index =>
    set { state with textBlockIndex := none }
    pushEvent (.contentBlockStop index)
  | none => pure ()

/-- The blocks that `close_all_tool_blocks` closes, in their order. -/
def openBlocks (state : StreamState) : List (UInt32 × Nat) :=
  (state.openToolBlocks.keys.filterMap fun toolIndex =>
    (state.toolBlockIndices.get? toolIndex).map (toolIndex, ·)).mergeSort fun a b => a.2 ≤ b.2

def closeAllToolBlocks : Translate J Unit := do
  let state ← get
  (openBlocks state).forM fun (toolIndex, index) => do
    pushEvent (.contentBlockStop index)
    modify fun state =>
      { state with openToolBlocks := state.openToolBlocks.erase toolIndex }

def openTextBlock : Translate J Nat := do
  let state ← get
  match state.textBlockIndex with
  | some index => pure index
  | none =>
    closeAllToolBlocks
    let state ← get
    let index := state.nextBlockIndex
    set { state with
      nextBlockIndex := state.nextBlockIndex + 1
      textBlockIndex := some index }
    pushEvent (.contentBlockStart index (.text ""))
    pure index

/-- `entry(tool_index).or_insert_with(..)`: a block index once and for
all. -/
def toolBlockIndex : Translate J Nat := do
  let state ← get
  match state.toolBlockIndices.get? toolIndex with
  | some index => pure index
  | none =>
    let index := state.nextBlockIndex
    set { state with
      nextBlockIndex := state.nextBlockIndex + 1
      toolBlockIndices := state.toolBlockIndices.insert toolIndex index }
    pure index

/-- A tool block that is open already is not started again. -/
def startToolBlock (index : Nat) (id name : Strng) : Translate J Unit := do
  let state ← get
  if state.openToolBlocks.contains toolIndex then pure ()
  else
    set { state with
      openToolBlocks := state.openToolBlocks.insert toolIndex () }
    pushEvent (.contentBlockStart index (.toolUse id name js.emptyObject))

def openToolBlock (id name : Strng) : Translate J Nat := do
  closeTextBlock
  let index ← toolBlockIndex toolIndex
  startToolBlock js toolIndex index id name
  pure index

def flushMessageEnd (force : Bool) : Translate J Unit := do
  let state ← get
  if state.sentMessageStop then pure ()
  else
    match state.pendingStopReason, state.pendingUsage with
    | none, usage =>
      if force then finish .endTurn usage else pure ()
    | some stopReason, some usage => finish stopReason (some usage)
    | some stopReason, none =>
      if force then finish stopReason none else pure ()
where
  /-- Both are taken, all blocks closed, and the end of the message sent. -/
  finish (stopReason : StopReason) (usage : Option Completions.Usage) : Translate J Unit := do
    modify fun state =>
      { state with pendingStopReason := none, pendingUsage := none }
    closeTextBlock
    closeAllToolBlocks
    let inputTokens := (usage.map (·.promptTokens.toUInt64)).getD 0
    let outputTokens := (usage.map (·.completionTokens.toUInt64)).getD 0
    pushEvent (.messageDelta ⟨some stopReason, none⟩
      ⟨some inputTokens, some outputTokens, none, none⟩)
    pushEvent .messageStop
    modify fun state => { state with sentMessageStop := true }

/-- The finish reasons of a stream. -/
def streamStopReason : FinishReason → StopReason
  | .stop => .endTurn
  | .length => .maxTokens
  | .toolCalls => .toolUse
  | .contentFilter => .refusal
  | .functionCall => .toolUse

def startMessage (f : StreamResponse) : Translate J Unit := do
  let state ← get
  if state.sentMessageStart then pure ()
  else
    set { state with sentMessageStart := true }
    pushEvent (.messageStart {
      id := f.id
      content := []
      model := f.model
      stopReason := none
      stopSequence := none
      usage := ⟨0, 0, none, none, none⟩
      inputAudioTokens := none
      outputAudioTokens := none })

def onContent (content : Strng) : Translate J Unit := do
  let index ← openTextBlock
  pushEvent (.contentBlockDelta index (.textDelta content))

/-- What is known of a tool call once a chunk of it is added. -/
def PendingToolCall.add (entry : PendingToolCall) (chunk : ToolCallChunk) : PendingToolCall where
  id := chunk.id <|> entry.id
  name := (chunk.function.bind (·.name)) <|> entry.name
  pendingJson := entry.pendingJson ++ (chunk.function.bind (·.arguments)).getD ""

def onToolCall (toolCall : ToolCallChunk) : Translate J Unit := do
  let toolIndex := toolCall.index
  let state ← get
  let entry := ((state.pendingToolCalls.get? toolIndex).getD ⟨none, none, ""⟩).add toolCall
  match entry.name with
  | none =>
    set { state with
      pendingToolCalls := state.pendingToolCalls.insert toolIndex entry }
  | some name =>
    -- the arguments held back are taken out
    set { state with
      pendingToolCalls := state.pendingToolCalls.insert toolIndex { entry with pendingJson := "" } }
    let id := entry.id.getD ("tool_call_" ++ toString toolIndex.toNat)
    let index ← openToolBlock js toolIndex id name
    if entry.pendingJson.isEmpty then pure ()
    else pushEvent (.contentBlockDelta index (.inputJsonDelta entry.pendingJson))

def onChoice (choice : ChatChoiceStream) : Translate J Unit := do
  choice.delta.content.forM onContent
  (choice.delta.toolCalls.getD []).forM (onToolCall js)
  choice.finishReason.forM fun finishReason =>
    modify fun state =>
      { state with pendingStopReason := some (streamStopReason finishReason) }

/-- `SseJsonEvent`: a chunk, one that could not be parsed, or `[DONE]`. -/
inductive SseJsonEvent
  | data (f : StreamResponse)
  | malformed
  | done

/-- The handler of `translate_stream`. -/
def onEvent : SseJsonEvent → Translate J Unit
  | .done => flushMessageEnd true
  | .malformed => pure ()
  | .data f => do
      startMessage f
      f.usage.forM fun usage =>
        modify fun state => { state with pendingUsage := some usage }
      f.choices.head?.forM (onChoice js)
      let state ← get
      if state.pendingStopReason.isSome && state.pendingUsage.isSome then
        flushMessageEnd false
      else pure ()

def translateStream (evts : List SseJsonEvent) : List (MessagesStreamEvent J) :=
  (Emitter.runAll (onEvent js) StreamState.default evts).2

end FromMessages

namespace OpenaiCompat

open Responses
open FromMessages (SseJsonEvent)

/-- What only this translator keeps. -/
structure Flags where
  sentCreated : Bool
  sentContentPart : Bool
  flushed : Bool
  model : Strng
  stopReason : Option FinishReason
  usage : Option Usage

abbrev Compat := Translate UInt32 Flags

def initial : State UInt32 Flags := .init ⟨false, false, false, "", none, none⟩

-- ======== end

def usageOutputTokens (u : Usage) : UInt32 :=
  if u.completionTokens = 0 ∧ 0 < u.totalTokens then
    -- `saturating_sub`
    if u.promptTokens ≤ u.totalTokens then u.totalTokens - u.promptTokens else 0
  else u.completionTokens

def usageObj (u : Usage) : ResponseUsage where
  inputTokens := u.promptTokens
  outputTokens := usageOutputTokens u
  totalTokens := u.totalTokens
  cachedTokens := ((u.promptTokensDetails.bind (·.cachedTokens)).getD 0).toUInt32
  reasoningTokens := ((u.completionTokensDetails.bind (·.reasoningTokens)).getD 0).toUInt32

def doneEvent (b : ResponseBuilder) (stop : Option FinishReason)
    (usage : Option ResponseUsage) : ResponseStreamEvent :=
  match stop with
  | some .stop | some .toolCalls | some .functionCall | none => b.completedEvent usage
  | some .length => b.incompleteEvent usage ⟨"max_tokens"⟩
  | some .contentFilter => b.failedEvent usage ⟨"content_filter", "Content filtered"⟩

def sortedTools (toolCalls : HashMap UInt32 ToolCall) : List ToolCall :=
  toolCalls.values.mergeSort fun a b => a.outputIndex ≤ b.outputIndex

variable (ids : Ids)

/-- The content part is done if it was added. -/
def finishContentPart (sentContentPart : Bool) : Compat Unit :=
  if sentContentPart then sendPartDone ids else pure ()

def flushEnd : Compat Unit := do
  let s ← get
  set { s with
    toolCalls := (AssocMap.empty : HashMap UInt32 ToolCall)
    rest := { s.rest with stopReason := none, usage := none } }
  (sortedTools s.toolCalls).forM sendToolDone
  finishContentPart ids s.rest.sentContentPart
  sendMessageDone ids
  send (doneEvent ⟨ids.responseId, s.rest.model⟩ s.rest.stopReason (s.rest.usage.map usageObj))

/-- `flush_end`, unless it was done before. -/
def flushOnce : Compat Unit := do
  let s ← get
  if s.rest.flushed then pure ()
  else
    set { s with rest.flushed := true }
    flushEnd ids

-- ======== chunks

def ensureCreated (model : Strng) : Compat Unit := do
  let s ← get
  if s.rest.sentCreated then pure ()
  else
    set { s with rest := { s.rest with sentCreated := true, model := model } }
    sendCreated ids model

def ensureContentPart : Compat Unit := do
  let s ← get
  if s.rest.sentContentPart then pure ()
  else
    set { s with rest.sentContentPart := true }
    sendPartAdded ids

def onContent (content : Strng) : Compat Unit := do
  ensureContentPart ids
  sendTextDelta ids content

/-- The tool call with the name and the arguments of a chunk. -/
def extendCall (call : ToolCall) : Option FunctionCallStream → ToolCall
  | some f => { call with
      name := f.name.getD call.name
      buffer := call.buffer ++ f.arguments.getD "" }
  | none => call

/-- The tool call of a chunk, which is added if it is new. -/
def enterCall (tc : ToolCallChunk) : Compat ToolCall := do
  let s ← get
  match s.toolCalls.get? tc.index with
  | some call =>
    let entry := extendCall call tc.function
    set { s with toolCalls := s.toolCalls.insert tc.index entry }
    pure entry
  | none =>
    let entry := extendCall ⟨ids.callId s.nextOutputIndex, "", "", s.nextOutputIndex⟩ tc.function
    set { s with
      nextOutputIndex := s.nextOutputIndex + 1
      toolCalls := s.toolCalls.insert tc.index entry }
    send (.outputItemAdded entry.outputIndex (entry.item "" .inProgress))
    pure entry

def onToolCall (tc : ToolCallChunk) : Compat Unit := do
  let entry ← enterCall ids tc
  -- the arguments of this chunk alone
  let args := (tc.function.bind (·.arguments)).getD ""
  if args = "" then pure ()
  else send (.functionCallArgumentsDelta entry.itemId entry.outputIndex args)

def onChoice (choice : ChatChoiceStream) : Compat Unit := do
  choice.delta.content.forM (onContent ids)
  (choice.delta.toolCalls.getD []).forM (onToolCall ids)
  modify fun s => { s with
    rest.stopReason := choice.finishReason.or s.rest.stopReason }

def flushIfComplete : Compat Unit := do
  let s ← get
  if s.rest.stopReason.isSome && s.rest.usage.isSome then flushOnce ids else pure ()

def onChunk (chunk : StreamResponse) : Compat Unit := do
  ensureCreated ids chunk.model
  modify fun s => { s with rest.usage := chunk.usage.or s.rest.usage }
  chunk.choices.head?.forM (onChoice ids)
  flushIfComplete ids

def translateEvent : SseJsonEvent → Compat Unit
  | .done => flushOnce ids
  | .malformed => pure ()
  | .data chunk => onChunk ids chunk

def translateStream (stream : List SseJsonEvent) : List StreamEvent :=
  (Emitter.runAll (translateEvent ids) initial stream).2

end OpenaiCompat

end AgentGateway.Llm
