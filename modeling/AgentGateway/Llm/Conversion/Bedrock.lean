/-
Bedrock upstream: the Converse API (`llm/types/bedrock.rs`), the translation of a
Converse stream for Messages, Responses and Chat Completions clients
(`translate_stream` of `from_messages`, `from_responses` and `from_completions` in
`llm/conversion/bedrock.rs`), and that of a whole response for the last two
(`ConverseResponseAdapter`).

A Converse response as a whole is a message of content blocks; as a stream it is
the start of the message, for each block a start, deltas and a stop, the stop of
the message, and metadata (`converse`). The events of different blocks may be
mixed: a block starts when it is not open, is open from its first event on, and at
the end none is (`Blocks`). Of a response there is what the translators read. A
`usize` has 64 bits.

For Messages a block without a start is started with its first delta, if that is
one of text or of reasoning. The stop reason is held back until the metadata
comes with the usage.

For Responses the message is added with the start of the stream and done at its
end. A tool call is added with the start of its block and done with its stop.
Everything else is text of the message; the content part for it is added by the
start of a block, if the block has one.

Of a whole response the last text is the content and the last reasoning the
reasoning content; for Responses all of them are parts of one message.

# Left out

The amendments of the request log, the role in the start of the message, and
`[DONE]` at the end of the stream.
-/
import AgentGateway.Lib.Run
import AgentGateway.Llm.Types

namespace AgentGateway.Llm.Converse

inductive StopReason
  | contentFiltered
  | endTurn
  | guardrailIntervened
  | maxTokens
  | modelContextWindowExceeded
  | stopSequence
  | toolUse
  deriving DecidableEq

structure TokenUsage where
  inputTokens : UInt64
  outputTokens : UInt64
  totalTokens : UInt64
  cacheReadInputTokens : Option UInt64
  cacheWriteInputTokens : Option UInt64
  deriving DecidableEq

/-- Reasoning, in the structured or in the simple format. -/
inductive ReasoningContentBlock
  | structured (text : Strng) (signature : Option Strng)
  | simple (text : Strng)

inductive ContentBlock (J : Type)
  | text (text : Strng)
  | image
  | toolResult
  | toolUse (toolUseId name : Strng) (input : J)
  | reasoningContent (reasoning : ReasoningContentBlock)
  | cachePoint

/-- A response as a whole; there may be no message in it. -/
structure ConverseResponse (J : Type) where
  output : Option (List (ContentBlock J))
  stopReason : StopReason
  usage : Option TokenUsage

-- ======== stream

inductive ContentBlockStart
  | toolUse (toolUseId name : Strng)
  | reasoningContent
  | text
  deriving DecidableEq

inductive ReasoningContentBlockDelta
  | redactedContent
  | signature (signature : Strng)
  | text (text : Strng)
  | unknown
  deriving DecidableEq

inductive ContentBlockDelta
  | reasoningContent (delta : ReasoningContentBlockDelta)
  | text (text : Strng)
  | toolUse (input : Strng)
  deriving DecidableEq

inductive ConverseStreamOutput
  | messageStart
  | contentBlockStart (contentBlockIndex : Int32) (start : Option ContentBlockStart)
  | contentBlockDelta (contentBlockIndex : Int32) (delta : Option ContentBlockDelta)
  | contentBlockStop (contentBlockIndex : Int32)
  | messageStop (stopReason : StopReason)
  | metadata (usage : Option TokenUsage)
  deriving DecidableEq

-- ======== order of the events

/-- The blocks that are open after an event, if it may come now. -/
def nextLive (live : List Int32) : ConverseStreamOutput → Option (List Int32)
  | .contentBlockStart i _ => if i ∈ live then none else some (i :: live)
  | .contentBlockDelta i _ => some (i :: live)
  | .contentBlockStop i => some (live.filter (· ≠ i))
  | _ => none

/-- The events of content blocks: each has a start, which may be missing,
deltas, and a stop. -/
def Blocks (events : List ConverseStreamOutput) : Prop :=
  events.foldlM nextLive [] = some []

instance (events : List ConverseStreamOutput) : Decidable (Blocks events) :=
  inferInstanceAs (Decidable (_ = _))

def converse (blocks : List ConverseStreamOutput) (reason : StopReason)
    (usage : Option TokenUsage) : List ConverseStreamOutput :=
  .messageStart :: blocks ++ [.messageStop reason, .metadata usage]

namespace ConverseStreamOutput

/-- The text that a delta has for the message. -/
def text? : ConverseStreamOutput → Option Strng
  | .contentBlockDelta _ (some (.text text)) => some text
  | .contentBlockDelta _ (some (.reasoningContent (.text text))) => some text
  | .contentBlockDelta _ (some (.reasoningContent .redactedContent)) =>
    some "[REDACTED]"
  | _ => none

/-- The start of a block that is not a tool call. -/
def startsPart : ConverseStreamOutput → Bool
  | .contentBlockStart _ (some (.toolUse _ _)) => false
  | .contentBlockStart _ _ => true
  | _ => false

end ConverseStreamOutput

theorem nextLive_mem {live : List Int32} {e : ConverseStreamOutput} {live' : List Int32} {i : Int32}
    (h : nextLive live e = some live') (hi : i ∈ live)
    (he : e ≠ .contentBlockStop i) : i ∈ live' := by
  cases e with
  | messageStart | messageStop | metadata => cases h
  | contentBlockStart j start =>
    rw [nextLive, Option.ite_none_left_eq_some] at h
    cases h.2
    exact List.mem_cons_of_mem j hi
  | contentBlockDelta j delta =>
    cases h
    exact List.mem_cons_of_mem j hi
  | contentBlockStop j =>
    cases h
    have hne : i ≠ j := fun heq => he (heq ▸ rfl)
    exact List.mem_filter.2 ⟨hi, decide_eq_true hne⟩

end AgentGateway.Llm.Converse

namespace AgentGateway.Llm.BedrockMessages

open Lib Converse

variable {J : Type}

/-- What is sent for an event: events of the stream, or an error in their
place. -/
inductive Sent (J : Type)
  | event (event : Messages.MessagesStreamEvent J)
  | error (type message : Strng)
  deriving DecidableEq

structure StreamState where
  seenBlocks : HashSet Int32
  pendingStopReason : Option StopReason
  pendingUsage : Option TokenUsage

def initial : StreamState := ⟨.empty, none, none⟩

abbrev Translate (J : Type) := Emitter StreamState (Sent J)

def pushEvent (event : Messages.MessagesStreamEvent J) : Translate J Unit :=
  Emitter.emit (.event event)

/-- `as usize`. -/
def toUsize (i : Int32) : Nat := i.toInt64.toUInt64.toNat

def translateStopReason : StopReason → Messages.StopReason
  | .endTurn => .endTurn
  | .maxTokens => .maxTokens
  | .modelContextWindowExceeded => .modelContextWindowExceeded
  | .stopSequence => .stopSequence
  | .toolUse => .toolUse
  | .contentFiltered | .guardrailIntervened => .refusal

def toAnthropicMessageDeltaUsage (usage : TokenUsage) : Messages.MessageDeltaUsage where
  inputTokens := some usage.inputTokens
  outputTokens := some usage.outputTokens
  cacheCreationInputTokens := usage.cacheWriteInputTokens
  cacheReadInputTokens := usage.cacheReadInputTokens

/-- The empty message that a stream starts with. -/
def startMessage (id model : Strng) : Messages.MessagesResponse J where
  id := id
  content := []
  model := model
  stopReason := none
  stopSequence := none
  usage := ⟨0, 0, none, none, none⟩
  inputAudioTokens := none
  outputAudioTokens := none

/-- The empty block that a block starts with. -/
def startBlock (js : Serde J) : Option ContentBlockStart → Messages.ContentBlock J
  | some (.toolUse id name) => .toolUse id name js.emptyObject
  | some .reasoningContent => .thinking "" ""
  | _ => .text ""

/-- The block that a first delta starts. -/
def deltaBlock : ContentBlockDelta → Option (Messages.ContentBlock J)
  | .text _ => some (.text "")
  | .reasoningContent _ => some (.thinking "" "")
  | .toolUse _ => none

def anthropicDelta : ContentBlockDelta → Messages.ContentBlockDelta
  | .text text => .textDelta text
  | .reasoningContent (.text t) => .thinkingDelta t
  | .reasoningContent (.signature sig) => .signatureDelta sig
  | .reasoningContent .redactedContent => .thinkingDelta "[REDACTED]"
  | .reasoningContent .unknown => .thinkingDelta ""
  | .toolUse input => .inputJsonDelta input

/-- The start of a block at its first delta. -/
def synthesizeStart (index : Int32) (delta : Option ContentBlockDelta) : Translate J Unit := do
  let s ← get
  if s.seenBlocks.contains index then pure ()
  else
    set { s with seenBlocks := s.seenBlocks.insert index () }
    (delta.bind deltaBlock).forM fun block =>
      pushEvent (.contentBlockStart (toUsize index) block)

/-- The delta of the message, if the stop reason and the usage are there. -/
def sendMessageDelta (stop : Option StopReason) (usage : Option TokenUsage) : Translate J Unit :=
  match stop, usage with
  | some stopReason, some usageData =>
    pushEvent (.messageDelta ⟨some (translateStopReason stopReason), none⟩
      (toAnthropicMessageDeltaUsage usageData))
  | _, _ => pure ()

def onMetadata (usage : Option TokenUsage) : Translate J Unit := do
  let s ← get
  set { s with pendingStopReason := none, pendingUsage := none }
  sendMessageDelta s.pendingStopReason (usage.or s.pendingUsage)
  pushEvent .messageStop

/-- One event of the stream; nothing if it cannot be decoded. -/
def translateEvent (js : Serde J) (id model : Strng) :
    Option ConverseStreamOutput → Translate J Unit
  | none => Emitter.emit (.error "api_error" "Stream processing error")
  | some .messageStart => pushEvent (.messageStart (startMessage id model))
  | some (.contentBlockStart index start) => do
      modify fun s => { s with seenBlocks := s.seenBlocks.insert index () }
      pushEvent (.contentBlockStart (toUsize index) (startBlock js start))
  | some (.contentBlockDelta index delta) => do
      synthesizeStart index delta
      delta.forM fun d =>
        pushEvent (.contentBlockDelta (toUsize index) (anthropicDelta d))
  | some (.contentBlockStop index) => do
      modify fun s => { s with seenBlocks := s.seenBlocks.erase index }
      pushEvent (.contentBlockStop (toUsize index))
  | some (.messageStop reason) =>
    modify fun s => { s with pendingStopReason := some reason }
  | some (.metadata usage) => onMetadata usage

def translateStream (js : Serde J) (id model : Strng)
    (stream : List (Option ConverseStreamOutput)) : List (Sent J) :=
  (Emitter.runAll (translateEvent js id model) initial stream).2

end AgentGateway.Llm.BedrockMessages

-- ======== responses

namespace AgentGateway.Llm.FromResponses

open Lib Responses Converse

-- ======== translator

/-- What only this translator keeps. -/
structure Pending where
  stopReason : Option StopReason
  usage : Option TokenUsage
  seenBlocks : HashSet Int32

abbrev Bedrock := Translate Int32 Pending

def initial : State Int32 Pending := .init ⟨none, none, .empty⟩

/-- `ResponseUsage`; `as u32` keeps the low bits. -/
def usageObj (u : TokenUsage) : ResponseUsage where
  inputTokens := u.inputTokens.toUInt32
  outputTokens := u.outputTokens.toUInt32
  totalTokens := (u.inputTokens + u.outputTokens).toUInt32
  cachedTokens := (u.cacheReadInputTokens.getD 0).toUInt32
  reasoningTokens := 0

def doneEvent (b : ResponseBuilder) (stop : Option StopReason)
    (usage : Option ResponseUsage) : ResponseStreamEvent :=
  match stop with
  | some .endTurn | some .stopSequence | none | some .toolUse => b.completedEvent usage
  | some .maxTokens | some .modelContextWindowExceeded =>
    b.incompleteEvent usage ⟨"max_tokens"⟩
  | some .contentFiltered | some .guardrailIntervened =>
    b.failedEvent usage ⟨"content_filter", "Content filtered by guardrails"⟩

variable (ids : Ids) (index : Int32)

def onToolStart (name : Strng) : Bedrock Unit := do
  let s ← get
  let call : ToolCall := ⟨ids.callId s.nextOutputIndex, name, "", s.nextOutputIndex⟩
  set { s with
    nextOutputIndex := s.nextOutputIndex + 1
    toolCalls := s.toolCalls.insert index call }
  send (.outputItemAdded call.outputIndex (call.item "" .inProgress))

def onToolDelta (input : Strng) : Bedrock Unit := do
  let s ← get
  match s.toolCalls.get? index with
  | some call =>
    set { s with toolCalls :=
      s.toolCalls.insert index { call with buffer := call.buffer ++ input } }
    send (.functionCallArgumentsDelta call.itemId call.outputIndex input)
  | none => pure ()

def onStop : Bedrock Unit := do
  let s ← get
  let wasTracked := s.rest.seenBlocks.contains index
  set { s with
    toolCalls := s.toolCalls.erase index
    rest.seenBlocks := s.rest.seenBlocks.erase index }
  match s.toolCalls.get? index with
  | some call => sendToolDone call
  | none => if wasTracked then sendPartDone ids else pure ()

def onDelta : ContentBlockDelta → Bedrock Unit
  | .text text => sendTextDelta ids text
  | .reasoningContent (.text text) => sendTextDelta ids text
  | .reasoningContent .redactedContent => sendTextDelta ids "[REDACTED]"
  | .reasoningContent _ => pure ()
  | .toolUse input => onToolDelta index input

def onMetadata (model : Strng) (usage : Option TokenUsage) : Bedrock Unit := do
  modify fun s => { s with rest.usage := usage.or s.rest.usage }
  sendMessageDone ids
  let s ← get
  set { s with rest := { s.rest with stopReason := none, usage := none } }
  send (doneEvent ⟨ids.responseId, model⟩ s.rest.stopReason (s.rest.usage.map usageObj))

/-- One event of the stream; nothing if it cannot be decoded. -/
def translateEvent (model : Strng) : Option ConverseStreamOutput → Bedrock Unit
  | none => send (.error "Stream processing error")
  | some .messageStart => sendCreated ids model
  | some (.contentBlockStart index start) => do
      modify fun s => { s with rest.seenBlocks := s.rest.seenBlocks.insert index () }
      match start with
      | some (.toolUse _ name) => onToolStart ids index name
      | _ => sendPartAdded ids
  | some (.contentBlockDelta index delta) =>
    match delta with
    | some d => onDelta ids index d
    | none => pure ()
  | some (.contentBlockStop index) => onStop ids index
  | some (.messageStop reason) =>
    modify fun s => { s with rest.stopReason := some reason }
  | some (.metadata usage) => onMetadata ids model usage

def translateStream (model : Strng)
    (stream : List (Option ConverseStreamOutput)) : List StreamEvent :=
  (Emitter.runAll (translateEvent ids model) initial stream).2

end AgentGateway.Llm.FromResponses

-- ======== chat completions

namespace AgentGateway.Llm

open Lib Converse

variable {J : Type} (js : Serde J) (id model : Strng)

-- ======== whole

inductive AIError
  | incompleteResponse

structure ConverseResponseAdapter (J : Type) where
  model : Strng
  stopReason : StopReason
  usage : Option TokenUsage
  message : List (ContentBlock J)

namespace BedrockCompletions

def translateStopReason : StopReason → Completions.FinishReason
  | .endTurn => .stop
  | .maxTokens => .length
  | .stopSequence => .stop
  | .contentFiltered => .contentFilter
  | .guardrailIntervened => .contentFilter
  | .toolUse => .toolCalls
  | .modelContextWindowExceeded => .length

/-- `completions::Usage`; `as u32` keeps the low bits. -/
def toUsage (usage : TokenUsage) : Completions.Usage where
  promptTokens := usage.inputTokens.toUInt32
  completionTokens := usage.outputTokens.toUInt32
  totalTokens := usage.totalTokens.toUInt32
  completionTokensDetails := none
  promptTokensDetails := usage.cacheReadInputTokens.map fun i => ⟨some i, none⟩
  cacheReadInputTokens := usage.cacheReadInputTokens
  cacheCreationInputTokens := usage.cacheWriteInputTokens

def defaultUsage : Completions.Usage := ⟨0, 0, 0, none, none, none, none⟩

end BedrockCompletions

def Converse.ReasoningContentBlock.text : ReasoningContentBlock → Strng
  | .structured text _ => text
  | .simple text => text

namespace ConverseResponseAdapter

def fromResponse (resp : ConverseResponse J) (model : Strng) :
    Except AIError (ConverseResponseAdapter J) :=
  match resp.output with
  | some message => .ok ⟨model, resp.stopReason, resp.usage, message⟩
  | none => .error .incompleteResponse

/-- The content, the reasoning content and the tool calls so far. -/
structure Collected where
  content : Option Strng
  reasoningContent : Option Strng
  toolCalls : List Completions.MessageToolCalls

def collect (acc : Collected) : ContentBlock J → Collected
  | .text text => { acc with content := some text }
  | .reasoningContent reasoning => { acc with reasoningContent := some reasoning.text }
  | .toolUse id name input =>
    match js.toString input with
    | some args =>
      { acc with toolCalls := acc.toolCalls ++ [.function ⟨id, ⟨name, args⟩⟩] }
    | none => acc
  | .image | .toolResult | .cachePoint => acc

def toCompletions (a : ConverseResponseAdapter J) : Completions.Response :=
  let acc := a.message.foldl (collect js) ⟨none, none, []⟩
  { id := id
    choices := [{
      message := {
        content := acc.content
        toolCalls := if acc.toolCalls.isEmpty then none else some acc.toolCalls
        reasoningContent := acc.reasoningContent }
      finishReason := some (BedrockCompletions.translateStopReason a.stopReason) }]
    model := a.model
    serviceTier := none
    usage := some ((a.usage.map BedrockCompletions.toUsage).getD BedrockCompletions.defaultUsage) }

/-- The text of a part of the message. -/
def textPart : ContentBlock J → Option Strng
  | .text text => some text
  | .reasoningContent reasoning => some reasoning.text
  | _ => none

def toolItem : ContentBlock J → Option Responses.OutputItem
  | .toolUse id name input =>
    some (.functionCall ⟨(js.toString input).getD "", id, name, some id, some .completed⟩)
  | _ => none

def status : StopReason → Responses.Status
  | .endTurn | .stopSequence => .completed
  | .maxTokens | .modelContextWindowExceeded => .incomplete
  | .toolUse => .completed
  | .contentFiltered | .guardrailIntervened => .failed

def incompleteDetails : StopReason → Option Responses.IncompleteDetails
  | .maxTokens | .modelContextWindowExceeded => some ⟨"max_tokens"⟩
  | _ => none

def error : StopReason → Option Responses.ErrorObject
  | .contentFiltered | .guardrailIntervened =>
    some ⟨"content_filter", "Content filtered by guardrails"⟩
  | _ => none

def responsesUsage (u : TokenUsage) : Responses.ResponseUsage where
  inputTokens := u.inputTokens.toUInt32
  outputTokens := u.outputTokens.toUInt32
  totalTokens := (u.inputTokens + u.outputTokens).toUInt32
  cachedTokens := (u.cacheReadInputTokens.getD 0).toUInt32
  reasoningTokens := 0

def toResponsesTyped (responseId messageId : Strng)
    (a : ConverseResponseAdapter J) : Responses.Response × List Responses.OutputItem :=
  let textParts := a.message.filterMap textPart
  let message := if textParts.isEmpty then []
    else [Responses.OutputItem.message ⟨textParts, messageId, .completed⟩]
  ((Responses.ResponseBuilder.mk responseId a.model).response (status a.stopReason)
      (a.usage.map responsesUsage) (error a.stopReason) (incompleteDetails a.stopReason),
    message ++ a.message.filterMap (toolItem js))

end ConverseResponseAdapter

-- ======== stream

namespace BedrockCompletions

open Completions (StreamResponse StreamResponseDelta ChatChoiceStream ToolCallChunk)

abbrev Translate := Emitter (HashMap Int32 Strng) StreamResponse

def mk (choices : List ChatChoiceStream) (usage : Option Completions.Usage) : Translate Unit :=
  Emitter.emit ⟨id, choices, model, none, usage⟩

def sendDelta (delta : StreamResponseDelta) : Translate Unit :=
  mk id model [⟨delta, none⟩] none

/-- The delta of a tool call whose start was seen. -/
def toolDelta (index : Int32) (input : Strng) : Translate StreamResponseDelta := do
  let toolCalls ← get
  match toolCalls.get? index with
  | some jsonBuffer =>
    set (toolCalls.insert index (jsonBuffer ++ input))
    let chunk : ToolCallChunk := ⟨index.toUInt32, none, some ⟨none, some input⟩⟩
    pure { toolCalls := some [chunk] }
  | none => pure {}

def blockDelta (index : Int32) : ContentBlockDelta → Translate StreamResponseDelta
  | .reasoningContent (.text t) => pure { reasoningContent := some t }
  | .reasoningContent .redactedContent => pure { reasoningContent := some "[REDACTED]" }
  | .reasoningContent _ => pure {}
  | .text t => pure { content := some t }
  | .toolUse input => toolDelta index input

/-- One event of the stream; nothing if it cannot be decoded. -/
def translateEvent : Option ConverseStreamOutput → Translate Unit
  | none => pure ()
  | some (.contentBlockStart index start) =>
    match start with
    | some (.toolUse toolUseId name) => do
        modify fun toolCalls => toolCalls.insert index ""
        let chunk : ToolCallChunk := ⟨index.toUInt32, some toolUseId, some ⟨some name, none⟩⟩
        sendDelta id model { toolCalls := some [chunk] }
    | _ => pure ()
  | some (.contentBlockDelta index delta) =>
    match delta with
    | some d => do
        let dr ← blockDelta index d
        sendDelta id model dr
    | none => pure ()
  | some (.contentBlockStop index) => modify fun toolCalls => toolCalls.erase index
  | some .messageStart => sendDelta id model {}
  | some (.messageStop reason) =>
    mk id model [⟨{}, some (translateStopReason reason)⟩] none
  | some (.metadata usage) =>
    match usage with
    | some u => mk id model [] (some (toUsage u))
    | none => pure ()

def translateStream (stream : List (Option ConverseStreamOutput)) : List StreamResponse :=
  (Emitter.runAll (translateEvent id model) (AssocMap.empty : HashMap Int32 Strng) stream).2

end BedrockCompletions

end AgentGateway.Llm
