/-
The input of a Responses request (`llm/types/responses.rs`), and its translation:
into the messages of a Chat Completions request
(`from_responses::translate_internal` of `llm/conversion/openai_compat.rs`), and
into those of a Converse request (the same of `llm/conversion/bedrock.rs`).

A call carries the `callId` under which its output refers to it. A custom tool
call has an `id` of its own besides; its output may have one too.

Both translations go item by item. For Chat Completions an item is one message at
most. For Converse the content of an item goes into the last message if the roles
are the same.

# Left out

Item kinds that no translator reads (`Item.other`), the contents of images and
files, and what no message depends on: the system blocks with their cache point,
tools, sampling, formats, guardrails and metadata, and the log.
-/
import AgentGateway.Llm.Types

namespace AgentGateway.Llm.Responses

inductive InputContent
  | inputText (text : Strng)
  | inputImage
  | inputFile

inductive Role
  | user
  | assistant
  | system
  | developer

inductive EasyInputContent
  | text (text : Strng)
  | contentList (parts : List InputContent)

structure EasyInputMessage where
  role : Role
  content : EasyInputContent

inductive InputRole
  | user
  | system
  | developer

structure InputMessage where
  content : List InputContent
  role : InputRole

inductive OutputMessageContent
  | outputText (text : Strng)
  | refusal

inductive MessageItem
  | input (message : InputMessage)
  | output (content : List OutputMessageContent)

inductive FunctionCallOutput
  | text (text : Strng)
  | content (parts : List InputContent)

structure FunctionCallOutputItem where
  callId : Strng
  output : FunctionCallOutput

structure CustomToolCall where
  callId : Strng
  input : Strng
  name : Strng
  id : Strng

inductive CustomToolCallOutputOutput
  | text (text : Strng)
  | list (parts : List InputContent)

structure CustomToolCallOutput where
  callId : Strng
  output : CustomToolCallOutputOutput
  id : Option Strng

inductive Item
  | message (message : MessageItem)
  | functionCall (call : FunctionToolCall)
  | functionCallOutput (output : FunctionCallOutputItem)
  | customToolCall (call : CustomToolCall)
  | customToolCallOutput (output : CustomToolCallOutput)
  | other

inductive InputItem
  | easyMessage (message : EasyInputMessage)
  | itemReference
  | item (item : Item)

inductive InputParam
  | text (text : Strng)
  | items (items : List InputItem)

structure CreateResponse where
  input : InputParam
  instructions : Option Strng

def InputContent.text? : InputContent → Option Strng
  | .inputText text => some text
  | _ => none

/-- The texts among the parts, a line each. -/
def joinTexts (parts : List InputContent) : Strng :=
  "\n".intercalate (parts.filterMap InputContent.text?)

def EasyInputContent.joined : EasyInputContent → Strng
  | .text t => t
  | .contentList parts => joinTexts parts

def OutputMessageContent.text? : OutputMessageContent → Option Strng
  | .outputText text => some text
  | .refusal => none

def FunctionCallOutput.joined : FunctionCallOutput → Strng
  | .text t => t
  | .content parts => joinTexts parts

/-- A text is one message of the user. -/
def CreateResponse.inputItems (req : CreateResponse) : List InputItem :=
  match req.input with
  | .text text => [.item (.message (.input ⟨[.inputText text], .user⟩))]
  | .items items => items

-- ======== calls and their outputs

namespace InputItem

/-- The identifier by which the output refers to a call. -/
def callId? : InputItem → Option Strng
  | .item (.functionCall call) => some call.callId
  | .item (.customToolCall call) => some call.callId
  | _ => none

/-- The identifier that an output refers to. -/
def outputId? : InputItem → Option Strng
  | .item (.functionCallOutput output) => some output.callId
  | .item (.customToolCallOutput output) => some output.callId
  | _ => none

end InputItem

/-- Every output refers to an earlier call. -/
def OutputsRefer (items : List InputItem) : Prop :=
  ∀ pre o post c, items = pre ++ o :: post → o.outputId? = some c →
    ∃ call ∈ pre, call.callId? = some c

end AgentGateway.Llm.Responses

namespace AgentGateway.Llm

open Responses

variable {J : Type}

/-- `serde_json`, with the two values that the translators make. -/
structure ToolSerde (J : Type) extends Serde J where
  string : Strng → J
  /-- The object with the one field `input`. -/
  inputObject : Strng → J

-- ======== chat completions

namespace Completions

/-- Messages of a request; of an assistant message there are the texts and the
tool calls. -/
inductive RequestMessage
  | developer (content : Strng)
  | system (content : Strng)
  | user (content : Strng)
  | assistant (content : Option Strng) (toolCalls : Option (List MessageToolCalls))
  | tool (content toolCallId : Strng)

end Completions

namespace OpenaiCompat

open Completions

def callMessage (id name arguments : Strng) : RequestMessage :=
  .assistant none (some [.function ⟨id, ⟨name, arguments⟩⟩])

def easyMessage (msg : EasyInputMessage) : RequestMessage :=
  match msg.role with
  | .user => .user msg.content.joined
  | .assistant => .assistant (some msg.content.joined) none
  | .system | .developer => .developer msg.content.joined

def inputMessage (msg : InputMessage) : RequestMessage :=
  match msg.role with
  | .user => .user (joinTexts msg.content)
  | .system => .system (joinTexts msg.content)
  | .developer => .developer (joinTexts msg.content)

def outputMessage (content : List OutputMessageContent) : RequestMessage :=
  let text := "\n".intercalate (content.filterMap OutputMessageContent.text?)
  .assistant (if text = "" then none else some text) none

/-- The message of an item. A custom tool call and its output are sent under
their own identifiers; an output that is a list is passed over. -/
def translateItem (js : ToolSerde J) : InputItem → Option RequestMessage
  | .easyMessage msg => some (easyMessage msg)
  | .itemReference => none
  | .item (.message (.input msg)) => some (inputMessage msg)
  | .item (.message (.output content)) => some (outputMessage content)
  | .item (.functionCall call) => some (callMessage call.callId call.name call.arguments)
  | .item (.functionCallOutput output) => some (.tool output.output.joined output.callId)
  | .item (.customToolCall call) =>
    some (callMessage call.id call.name ((js.toString (js.string call.input)).getD "\x7b\x7d"))
  | .item (.customToolCallOutput output) =>
    match output.output with
    | .text text => some (.tool text (output.id.getD ""))
    | .list _ => none
  | .item .other => none

def translateMessages (js : ToolSerde J) (req : CreateResponse) : List RequestMessage :=
  req.instructions.toList.map .developer ++ req.inputItems.filterMap (translateItem js)

end OpenaiCompat

-- ======== converse

namespace Converse

inductive ConverseRole
  | user
  | assistant
  deriving DecidableEq

/-- The blocks that a request may have. -/
inductive RequestBlock (J : Type)
  | text (text : Strng)
  | toolUse (toolUseId name : Strng) (input : J)
  | toolResult (toolUseId : Strng) (content : List Strng)
  | cachePoint
  deriving DecidableEq

structure Message (J : Type) where
  role : ConverseRole
  content : List (RequestBlock J)
  deriving DecidableEq

def pushOrMergeMessage (messages : List (Message J)) (msg : Message J) : List (Message J) :=
  match messages.getLast? with
  | some last =>
    if last.role = msg.role then
      messages.dropLast ++ [⟨last.role, last.content ++ msg.content⟩]
    else messages ++ [msg]
  | none => messages ++ [msg]

/-- `insert_message_cache_point`: before the last message, or further back. -/
def insertMessageCachePoint (messages : List (Message J)) (offset : Nat) : List (Message J) :=
  if messages.length < 2 then messages
  else messages.modify (messages.length - 2 - offset) fun m =>
    ⟨m.role, m.content ++ [.cachePoint]⟩

end Converse

namespace BedrockRequest

open Converse

def inputPartsToBlocks (parts : List InputContent) : List (RequestBlock J) :=
  (parts.filterMap InputContent.text?).map .text

def easyBlocks : EasyInputContent → List (RequestBlock J)
  | .text text => [.text text]
  | .contentList parts => inputPartsToBlocks parts

def customOutput : CustomToolCallOutputOutput → Strng
  | .text text => text
  | .list parts => joinTexts parts

/-- The message of an item, to be pushed or merged. System and developer messages
go to the system blocks; a function call whose arguments are no JSON is passed
over. -/
def translateItem (js : ToolSerde J) : InputItem → Option (Message J)
  | .easyMessage msg =>
    match msg.role with
    | .user => some ⟨.user, easyBlocks msg.content⟩
    | .assistant => some ⟨.assistant, easyBlocks msg.content⟩
    | .system | .developer => none
  | .item (.message (.input msg)) =>
    match msg.role with
    | .user => some ⟨.user, inputPartsToBlocks msg.content⟩
    | .system | .developer => none
  | .item (.message (.output content)) =>
    let blocks := (content.filterMap OutputMessageContent.text?).map .text
    if blocks.isEmpty then none else some ⟨.assistant, blocks⟩
  | .item (.functionCall call) =>
    (js.fromStr call.arguments).map fun input =>
      ⟨.assistant, [.toolUse call.callId call.name input]⟩
  | .item (.functionCallOutput output) =>
    some ⟨.user, [.toolResult output.callId [output.output.joined]]⟩
  | .item (.customToolCall call) =>
    some ⟨.assistant, [.toolUse call.callId call.name (js.inputObject call.input)]⟩
  | .item (.customToolCallOutput output) =>
    some ⟨.user, [.toolResult output.callId [customOutput output.output]]⟩
  | .itemReference => none
  | .item .other => none

/-- The messages of the request; with a cache point if one is asked for. -/
def translateMessages (js : ToolSerde J) (cacheMessageOffset : Option Nat)
    (req : CreateResponse) : List (Message J) :=
  let messages := (req.inputItems.filterMap (translateItem js)).foldl pushOrMergeMessage []
  match cacheMessageOffset with
  | some offset => insertMessageCachePoint messages offset
  | none => messages

end BedrockRequest

end AgentGateway.Llm
