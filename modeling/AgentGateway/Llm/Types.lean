/-
The vocabularies the gateway translates between (`llm/types/completions.rs`,
`llm/types/messages.rs` and `llm/types/responses.rs`): Chat Completions, where
a response has choices with a message and tool calls, and Messages, where it
is a list of content blocks. Both also come as streams, of chunks and of
events.

A response of Responses is a list of output items, each with its place in it:
one message, which comes first, and tool calls. Of a stream, an item is added,
gets deltas and is done; the text of a message stands in a content part, which
is added and done within the message. Every event carries the next number. The
two translators into such streams keep the tool calls that they have added and
not yet done, with the arguments so far. The source has the events written out
in each of the two, in the same way.

JSON values are a type `J` with the operations of `serde_json` that are
used on it. Fields with one constant value, and fields that are passed
over by every modelled function, are left out. Counters of a stream are natural
numbers.
-/
import AgentGateway.Basic
import AgentGateway.Lib.Emitter

namespace AgentGateway.Llm

/-- `serde_json` on values `J`. -/
structure Serde (J : Type) where
  /-- `to_string(..).ok()` -/
  toString : J → Option Strng
  /-- `from_str(..).ok()` -/
  fromStr : Strng → Option J
  null : J
  emptyObject : J

/-- What is written can be read back, and no text is no value. -/
structure Serde.Lawful {J : Type} (js : Serde J) : Prop where
  toString_isSome : ∀ v, (js.toString v).isSome
  fromStr_toString : ∀ v text, js.toString v = some text → js.fromStr text = some v
  fromStr_empty : js.fromStr "" = none

/-- Values as their text, whatever it is. -/
abbrev JsonText := { text : Strng // text ≠ "" }

def textSerde : Serde JsonText where
  toString v := some v.1
  fromStr text := if h : text ≠ "" then some ⟨text, h⟩ else none
  null := ⟨"null", by decide⟩
  emptyObject := ⟨"\x7b\x7d", by decide⟩

theorem textSerde_lawful : textSerde.Lawful where
  toString_isSome _ := rfl
  fromStr_toString v _ h := Option.some.inj h ▸ dif_pos v.2
  fromStr_empty := rfl

-- ======== completions

theorem join_eq_empty {texts : List Strng} : String.join texts = "" ↔ ∀ t ∈ texts, t = "" := by
  induction texts with
  | nil => simp
  | cons t texts ih => simp [ih]

/-- The last text is all of them if the others are empty. -/
theorem join_eq_getLast_iff (l : List Strng) :
    String.join l = l.getLast?.getD "" ↔ ∀ t ∈ l.dropLast, t = "" := by
  rcases List.eq_nil_or_concat l with rfl | ⟨ts, t, rfl⟩
  · exact iff_of_true rfl nofun
  · rw [List.concat_eq_append, List.getLast?_concat, List.dropLast_concat, ← join_eq_empty]
    simp [String.join_append]

theorem join_filter (l : List Strng) : String.join (l.filter (· ≠ "")) = String.join l := by
  induction l with
  | nil => rfl
  | cons t l ih => by_cases h : t = "" <;> simp_all

theorem join_eq_parts_iff (l : List Strng) :
    (if String.join l = "" then [] else [String.join l]) = l.filter (· ≠ "")
      ↔ (l.filter (· ≠ "")).length ≤ 1 := by
  rw [← join_filter]
  have hne : ∀ t ∈ l.filter (· ≠ ""), t ≠ "" := by simp
  generalize l.filter (· ≠ "") = parts at *
  match parts with
  | [] => simp
  | [t] => simpa using hne
  | t :: t' :: ts =>
    refine iff_of_false (fun heq => ?_) (by simp)
    split at heq <;> simp at heq

namespace Completions

inductive FinishReason
  | stop
  | length
  | toolCalls
  | contentFilter
  | functionCall
  deriving DecidableEq

structure UsagePromptDetails where
  cachedTokens : Option UInt64
  audioTokens : Option UInt64
  deriving DecidableEq

structure UsageCompletionDetails where
  reasoningTokens : Option UInt64
  audioTokens : Option UInt64
  deriving DecidableEq

structure Usage where
  promptTokens : UInt32
  completionTokens : UInt32
  totalTokens : UInt32
  completionTokensDetails : Option UsageCompletionDetails
  promptTokensDetails : Option UsagePromptDetails
  cacheReadInputTokens : Option UInt64
  cacheCreationInputTokens : Option UInt64
  deriving DecidableEq

structure FunctionCall where
  name : Strng
  arguments : Strng

structure MessageToolCall where
  id : Strng
  function : FunctionCall

inductive MessageToolCalls
  | function (call : MessageToolCall)
  | custom

structure ResponseMessage where
  content : Option Strng
  toolCalls : Option (List MessageToolCalls)
  reasoningContent : Option Strng

structure ChatChoice where
  message : ResponseMessage
  finishReason : Option FinishReason

structure Response where
  id : Strng
  choices : List ChatChoice
  model : Strng
  serviceTier : Option Strng
  usage : Option Usage

structure FunctionCallStream where
  name : Option Strng
  arguments : Option Strng
  deriving DecidableEq

/-- `ChatCompletionMessageToolCallChunk`. -/
structure ToolCallChunk where
  index : UInt32
  id : Option Strng
  function : Option FunctionCallStream
  deriving DecidableEq

structure StreamResponseDelta where
  content : Option Strng := none
  toolCalls : Option (List ToolCallChunk) := none
  reasoningContent : Option Strng := none

structure ChatChoiceStream where
  delta : StreamResponseDelta
  finishReason : Option FinishReason

structure StreamResponse where
  id : Strng
  choices : List ChatChoiceStream
  model : Strng
  serviceTier : Option Strng
  usage : Option Usage

end Completions

-- ======== messages

namespace Messages

inductive StopReason
  | endTurn
  | maxTokens
  | stopSequence
  | toolUse
  | refusal
  | pauseTurn
  | modelContextWindowExceeded
  deriving DecidableEq

structure Usage where
  inputTokens : UInt64
  outputTokens : UInt64
  cacheCreationInputTokens : Option UInt64
  cacheReadInputTokens : Option UInt64
  serviceTier : Option Strng
  deriving DecidableEq

inductive ContentBlock (J : Type)
  | text (text : Strng)
  | thinking (thinking signature : Strng)
  | redactedThinking (data : Strng)
  | toolUse (id name : Strng) (input : J)
  | serverToolUse (id name : Strng) (input : J)
  /-- images, documents, search results, tool results, unknown ones -/
  | other
  deriving DecidableEq

structure MessagesResponse (J : Type) where
  id : Strng
  content : List (ContentBlock J)
  model : Strng
  stopReason : Option StopReason
  stopSequence : Option Strng
  usage : Usage
  inputAudioTokens : Option UInt64
  outputAudioTokens : Option UInt64
  deriving DecidableEq

inductive ContentBlockDelta
  | textDelta (text : Strng)
  | inputJsonDelta (partialJson : Strng)
  | thinkingDelta (thinking : Strng)
  | signatureDelta (signature : Strng)
  | citationsDelta
  deriving DecidableEq

structure MessageDeltaUsage where
  inputTokens : Option UInt64
  outputTokens : Option UInt64
  cacheCreationInputTokens : Option UInt64
  cacheReadInputTokens : Option UInt64
  deriving DecidableEq

structure MessageDelta where
  stopReason : Option StopReason
  stopSequence : Option Strng
  deriving DecidableEq

inductive MessagesStreamEvent (J : Type)
  | messageStart (message : MessagesResponse J)
  | contentBlockStart (index : Nat) (contentBlock : ContentBlock J)
  | contentBlockDelta (index : Nat) (delta : ContentBlockDelta)
  | contentBlockStop (index : Nat)
  | messageDelta (delta : MessageDelta) (usage : MessageDeltaUsage)
  | messageStop
  | ping
  deriving DecidableEq

end Messages

end AgentGateway.Llm

namespace AgentGateway.Llm.Responses

open Lib

inductive OutputStatus
  | inProgress
  | completed

/-- The content of a message is the texts of its parts. -/
structure OutputMessage where
  content : List Strng
  id : Strng
  status : OutputStatus

structure FunctionToolCall where
  arguments : Strng
  callId : Strng
  name : Strng
  id : Option Strng
  status : Option OutputStatus

inductive OutputItem
  | message (message : OutputMessage)
  | functionCall (call : FunctionToolCall)

structure ResponseUsage where
  inputTokens : UInt32
  outputTokens : UInt32
  totalTokens : UInt32
  cachedTokens : UInt32
  reasoningTokens : UInt32

structure ErrorObject where
  code : Strng
  message : Strng

structure IncompleteDetails where
  reason : Strng

inductive Status
  | inProgress
  | completed
  | incomplete
  | failed

structure Response where
  id : Strng
  model : Strng
  status : Status
  usage : Option ResponseUsage
  error : Option ErrorObject
  incompleteDetails : Option IncompleteDetails

inductive ResponseStreamEvent
  | created (response : Response)
  | outputItemAdded (outputIndex : Nat) (item : OutputItem)
  | contentPartAdded (itemId : Strng) (outputIndex contentIndex : Nat) (text : Strng)
  | outputTextDelta (itemId : Strng) (outputIndex contentIndex : Nat) (delta : Strng)
  | functionCallArgumentsDelta (itemId : Strng) (outputIndex : Nat) (delta : Strng)
  | functionCallArgumentsDone (name itemId : Strng) (outputIndex : Nat) (arguments : Strng)
  | contentPartDone (itemId : Strng) (outputIndex contentIndex : Nat) (text : Strng)
  | outputItemDone (outputIndex : Nat) (item : OutputItem)
  | completed (response : Response)
  | incomplete (response : Response)
  | failed (response : Response)
  | error (message : Strng)

structure StreamEvent where
  sequenceNumber : Nat
  event : ResponseStreamEvent

-- ======== builder

structure ResponseBuilder where
  responseId : Strng
  model : Strng

namespace ResponseBuilder

variable (b : ResponseBuilder) (usage : Option ResponseUsage)

def response (status : Status) (usage : Option ResponseUsage)
    (error : Option ErrorObject) (incompleteDetails : Option IncompleteDetails) : Response :=
  ⟨b.responseId, b.model, status, usage, error, incompleteDetails⟩

def createdEvent : ResponseStreamEvent :=
  .created (b.response .inProgress none none none)

def completedEvent : ResponseStreamEvent :=
  .completed (b.response .completed usage none none)

def incompleteEvent (details : IncompleteDetails) : ResponseStreamEvent :=
  .incomplete (b.response .incomplete usage none (some details))

def failedEvent (error : ErrorObject) : ResponseStreamEvent :=
  .failed (b.response .failed usage (some error) none)

end ResponseBuilder

-- ======== translators

/-- The identifiers that a translator draws: for the response, for its
message, and for the tool call at each place. -/
structure Ids where
  responseId : Strng
  messageItemId : Strng
  callId : Nat → Strng

/-- A tool call that is not done. -/
structure ToolCall where
  itemId : Strng
  name : Strng
  buffer : Strng
  outputIndex : Nat

/-- The state of a translator: tool calls under keys `K`, and what only this
translator keeps. -/
structure State (K α : Type) where
  sequenceNumber : Nat
  toolCalls : HashMap K ToolCall
  nextOutputIndex : Nat
  rest : α

/-- The message is at place 0, tool calls come from 1 on. -/
def State.init {K α : Type} (rest : α) : State K α := ⟨0, .empty, 1, rest⟩

abbrev Translate (K α : Type) := Emitter (State K α) StreamEvent

variable {K α : Type} [DecidableEq K] (ids : Ids)

/-- Push an event with the next number. -/
def send (event : ResponseStreamEvent) : Translate K α Unit := do
  let s ← get
  set { s with sequenceNumber := s.sequenceNumber + 1 }
  Emitter.emit ⟨s.sequenceNumber + 1, event⟩

def messageItem (status : OutputStatus) : OutputItem :=
  .message ⟨[], ids.messageItemId, status⟩

def ToolCall.item (call : ToolCall) (arguments : Strng) (status : OutputStatus) : OutputItem :=
  .functionCall ⟨arguments, call.itemId, call.name, some call.itemId, some status⟩

def sendCreated (model : Strng) : Translate K α Unit := do
  send (ResponseBuilder.mk ids.responseId model).createdEvent
  send (.outputItemAdded 0 (messageItem ids .inProgress))

/-- The text part of the message, which is always the first one. -/
def sendPartAdded : Translate K α Unit :=
  send (.contentPartAdded ids.messageItemId 0 0 "")

def sendTextDelta (delta : Strng) : Translate K α Unit :=
  send (.outputTextDelta ids.messageItemId 0 0 delta)

def sendPartDone : Translate K α Unit :=
  send (.contentPartDone ids.messageItemId 0 0 "")

def sendMessageDone : Translate K α Unit :=
  send (.outputItemDone 0 (messageItem ids .completed))

/-- The two events at the end of a tool call. -/
def sendToolDone (call : ToolCall) : Translate K α Unit := do
  send (.functionCallArgumentsDone call.name call.itemId call.outputIndex call.buffer)
  send (.outputItemDone call.outputIndex (call.item call.buffer .completed))

end AgentGateway.Llm.Responses
