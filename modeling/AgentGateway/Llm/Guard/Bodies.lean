/-
The regex prompt guard (`llm/policy/mod.rs`), and the bodies that it looks
into (`llm/types/completions.rs`, `llm/types/messages.rs` and
`llm/types/responses.rs`).

A body, request or response, gives the guard a list of texts, each with the
role of who says it. The guard applies its rules to each text in turn. If
one is rejected, the body is; if one is masked, the whole list is written
back into the body.

The regex engine and the recognizers for personal data are a parameter. A
position in a text counts characters: the byte offsets of the engine lie
between characters.

`J` are the JSON values that nothing here looks into, and `rest` the members
of an object that have no field of their own. `X` is the rest of a whole
body. An item of a Responses input is kept as the JSON that it came as; here
it is an object with the members that `as_simple_message` reads apart from
the others, or some other value.
-/
import AgentGateway.Basic
import AgentGateway.Lib.Splice

namespace AgentGateway.Llm.Guard

/-- `std::ops::Range<usize>`. -/
abbrev Range := Lib.Span

structure RecognizerResult where
  entityType : Strng
  start : Nat
  stop : Nat

inductive Builtin
  | ssn
  | creditCard
  | phoneNumber
  | email
  | caSin

inductive Action
  | mask
  | reject

inductive RegexRule (P : Type)
  | builtin (builtin : Builtin)
  | regex (pattern : P)

structure RegexRules (P : Type) where
  action : Action
  rules : List (RegexRule P)

/-- What finds matches: `regex::Regex::find_iter` and `pii::recognizer`. -/
structure Engine (P : Type) where
  findIter : P → Strng → List Range
  recognizer : Builtin → Strng → List RecognizerResult

/-- Where a text stands in another one, from the left and without overlap:
`skip` characters belong to the last place. -/
def occurrences (pattern : List Char) : Nat → Nat → List Char → List Range
  | _, _, [] => []
  | pos, skip, c :: cs =>
    if skip = 0 ∧ pattern.isPrefixOf (c :: cs) then
      ⟨pos, pos + pattern.length⟩ :: occurrences pattern (pos + 1) (pattern.length - 1) cs
    else occurrences pattern (pos + 1) (skip - 1) cs

/-- The engine on patterns without special characters, and on texts without
personal data. -/
def literal : Engine Strng where
  findIter pattern text := occurrences pattern.toList 0 0 text.toList
  recognizer _ _ := []

-- ======== texts

def replaceRange (text : Strng) (range : Range) (replacement : Strng) : Strng :=
  String.ofList (Lib.replace text.toList range replacement.toList)

/-- The order in which the ranges of a recognizer are masked: from the
end. -/
def laterFirst (a b : Range) : Bool :=
  b.start < a.start || (a.start = b.start && a.stop ≤ b.stop)

/-- `Itertools::coalesce` of the ranges that overlap, with the last one at
hand. -/
def coalesce : Range → List Range → List Range
  | a, [] => [a]
  | a, b :: ranges =>
    if a.start < b.stop then coalesce ⟨b.start, max a.stop b.stop⟩ ranges
    else a :: coalesce b ranges

def maskRecognized (text : Strng) (results : List RecognizerResult) (replacement : Strng) : Strng :=
  match (results.map fun r => (⟨r.start, r.stop⟩ : Range)).mergeSort laterFirst with
  | [] => text
  | range :: ranges =>
    (coalesce range ranges).foldl (fun text range => replaceRange text range replacement) text

def maskMatches (text : Strng) (ranges : List Range) : Strng :=
  ranges.reverse.foldl (fun text range => replaceRange text range "<masked>") text

inductive RegexResult
  | reject
  | mask (content : Strng)

variable {P : Type} (e : Engine P)

/-- The loop of `apply_prompt_guard_regex` over the rules. -/
def guardLoop (action : Action) : List (RegexRule P) → Strng → Bool → Option RegexResult
  | [], current, modified => if modified then some (.mask current) else none
  | .builtin builtin :: rules, current, modified =>
    match e.recognizer builtin current with
    | [] => guardLoop action rules current modified
    | first :: results =>
      match action with
      | .reject => some .reject
      | .mask =>
        guardLoop action rules (maskRecognized current (first :: results)
            ("<" ++ first.entityType ++ ">")) true
  | .regex pattern :: rules, current, modified =>
    match e.findIter pattern current with
    | [] => guardLoop action rules current modified
    | range :: ranges =>
      match action with
      | .reject => some .reject
      | .mask =>
        guardLoop action rules (maskMatches current (range :: ranges)) true

def applyPromptGuardRegex (content : Strng) (rgx : RegexRules P) : Option RegexResult :=
  guardLoop e rgx.action rgx.rules content false

-- ======== bodies

/-- `SimpleChatCompletionMessage`, and `webhook::Message`. -/
structure SimpleMessage where
  role : Strng
  content : Strng

class RequestType (R : Type) where
  getMessages : R → List SimpleMessage
  setMessages : R → List SimpleMessage → R

/-- A choice to the webhook is a message. -/
class ResponseType (R : Type) where
  toWebhookChoices : R → List SimpleMessage
  setWebhookChoices : R → List SimpleMessage → Except Strng R

/-- `GuardrailOutcome`, with the body that goes on. -/
inductive Outcome (R : Type)
  | none
  | masked (body : R)
  | rejected
  deriving DecidableEq

/-- The loop over the messages: the messages as they are masked, and whether
one was; nothing if one is rejected. -/
def guardMessages (rgx : RegexRules P) : List SimpleMessage → Option (List SimpleMessage × Bool)
  | [] => some ([], false)
  | msg :: msgs =>
    match applyPromptGuardRegex e msg.content rgx with
    | some .reject => none
    | some (.mask content) =>
      (guardMessages rgx msgs).map fun (msgs, _) =>
        ({ msg with content } :: msgs, true)
    | none =>
      (guardMessages rgx msgs).map fun (msgs, anyChanged) =>
        (msg :: msgs, anyChanged)

def applyRegex {R : Type} [RequestType R] (rgx : RegexRules P) (req : R) : Outcome R :=
  match guardMessages e rgx (RequestType.getMessages req) with
  | none => .rejected
  | some (msgs, true) => .masked (RequestType.setMessages req msgs)
  | some (_, false) => .none

def applyRegexResponse {R : Type} [ResponseType R] (rgx : RegexRules P)
    (resp : R) : Except Strng (Outcome R) :=
  match guardMessages e rgx (ResponseType.toWebhookChoices resp) with
  | none => .ok .rejected
  | some (msgs, true) => do
      let resp ← ResponseType.setWebhookChoices resp msgs
      return .masked resp
  | some (_, false) => .ok .none

-- ======== bodies

variable {J X : Type}

/-- The members of an object that have no field of their own. -/
abbrev Rest (J : Type) := List (Strng × J)

/-- Texts put one after the other, with something in between once there is
text. -/
def joinTexts (sep : Strng) (texts : List Strng) : Strng :=
  texts.foldl (fun acc s => (if acc.isEmpty then acc else acc ++ sep) ++ s) ""

-- ======== Chat Completions

namespace Completions

structure ContentPart (J : Type) where
  type_ : Strng
  text : Option Strng
  rest : Rest J
  deriving DecidableEq

inductive Content (J : Type)
  | text (text : Strng)
  | array (parts : List (ContentPart J))
  deriving DecidableEq

structure RequestMessage (J : Type) where
  role : Strng
  name : Option Strng
  content : Option (Content J)
  toolCallId : Option Strng
  toolCalls : Option (List J)
  rest : Rest J
  deriving DecidableEq

structure Request (J X : Type) where
  messages : List (RequestMessage J)
  other : X
  deriving DecidableEq

/-- The text that a message has for the guard. -/
def RequestMessage.text (m : RequestMessage J) : Strng :=
  (m.content.bind fun
    | .text t => some t
    | .array parts =>
      if parts.isEmpty then none
      else some (joinTexts " " (parts.filterMap (·.text)))).getD ""

def convertMessage (r : SimpleMessage) : RequestMessage J :=
  ⟨r.role, none, some (.text r.content), none, none, []⟩

instance : RequestType (Request J X) where
  getMessages r := r.messages.map fun m => ⟨m.role, m.text⟩
  setMessages r messages := { r with messages := messages.map convertMessage }

structure ResponseMessage (J : Type) where
  content : Option Strng
  role : Option Strng
  rest : Rest J

structure Choice (J : Type) where
  message : ResponseMessage J
  rest : Rest J

structure Response (J X : Type) where
  choices : List (Choice J)
  other : X

def Choice.setContent (c : Choice J) (wh : SimpleMessage) : Choice J :=
  { c with message := { c.message with content := some wh.content } }

instance : ResponseType (Response J X) where
  toWebhookChoices r := r.choices.map fun c =>
    ⟨c.message.role.getD "", c.message.content.getD ""⟩
  setWebhookChoices r choices :=
    if r.choices.length ≠ choices.length then
      .error "webhook response message count mismatch"
    else
      .ok { r with choices := List.zipWith Choice.setContent r.choices choices }

end Completions

-- ======== Anthropic Messages

namespace Messages

/-- `ContentPart` and `TextPart`. -/
inductive ContentPart (J : Type)
  | text (type_ : Strng) (text : Strng) (rest : Rest J)
  | unknown (value : J)
  deriving DecidableEq

def ContentPart.text? : ContentPart J → Option Strng
  | .text _ t _ => some t
  | .unknown _ => none

/-- `ContentBlock` and `TextBlock`. -/
inductive ContentBlock (J : Type)
  | text (text : Strng)
  | array (parts : List (ContentPart J))
  deriving DecidableEq

structure RequestMessage (J : Type) where
  role : Strng
  content : Option (ContentBlock J)
  rest : Rest J
  deriving DecidableEq

structure Request (J X : Type) where
  messages : List (RequestMessage J)
  system : Option (ContentBlock J)
  other : X
  deriving DecidableEq

def systemText : ContentBlock J → Strng
  | .text t => t
  | .array parts => joinTexts "\n" (parts.filterMap (·.text?))

def RequestMessage.text (m : RequestMessage J) : Strng :=
  (m.content.bind fun
    | .text t => some t
    | .array parts =>
      if parts.isEmpty then none
      else some (joinTexts " " (parts.filterMap (·.text?)))).getD ""

def getMessagesHelper (messages : List (RequestMessage J))
    (system : Option (ContentBlock J)) : List SimpleMessage :=
  let out := match system with
    | some system =>
      let content := systemText system
      if content.isEmpty then [] else [⟨"system", content⟩]
    | none => []
  out ++ messages.map fun m => ⟨m.role, m.text⟩

/-- `From<SimpleChatCompletionMessage>`. -/
def convertMessage (r : SimpleMessage) : RequestMessage J :=
  ⟨r.role, some (.text r.content), []⟩

def setMessages (r : Request J X) (messages : List SimpleMessage) : Request J X :=
  let (systemPrompts, messagePrompts) := messages.partition (·.role = "system")
  { r with
    system :=
      if systemPrompts.isEmpty then none
      else some (.array (systemPrompts.map fun p => .text "text" p.content []))
    messages := messagePrompts.map convertMessage }

instance : RequestType (Request J X) where
  getMessages r := getMessagesHelper r.messages r.system
  setMessages

structure Content (J : Type) where
  text : Option Strng
  rest : Rest J

structure Response (J X : Type) where
  content : List (Content J)
  other : X

def Content.setText (c : Content J) (wh : SimpleMessage) : Content J :=
  { c with text := some wh.content }

instance : ResponseType (Response J X) where
  toWebhookChoices r := r.content.map fun c => ⟨"assistant", c.text.getD ""⟩
  setWebhookChoices r choices :=
    if r.content.length ≠ choices.length then
      .error "webhook response message count mismatch"
    else
      .ok { r with content := List.zipWith Content.setText r.content choices }

-- what a Chat Completions response is translated to

namespace Typed

/-- `typed::ContentBlock`. -/
inductive ContentBlock (J : Type)
  | text (text : Strng) (rest : Rest J)
  | other (value : J)

structure MessagesResponse (J X : Type) where
  content : List (ContentBlock J)
  other : X

def ContentBlock.text? : ContentBlock J → Option Strng
  | .text t _ => some t
  | .other _ => none

def ContentBlock.setText (block : ContentBlock J) (wh : SimpleMessage) : ContentBlock J :=
  match block with
  | .text _ rest => .text wh.content rest
  | .other value => .other value

instance : ResponseType (MessagesResponse J X) where
  toWebhookChoices r := r.content.map fun block => ⟨"assistant", block.text?.getD ""⟩
  setWebhookChoices r choices :=
    if r.content.length ≠ choices.length then
      .error "webhook response message count mismatch"
    else
      .ok { r with content := List.zipWith ContentBlock.setText r.content choices }

end Typed

end Messages

-- ======== Responses

namespace Responses

/-- A member of an object: a string, or some other value. -/
inductive Member (J : Type)
  | str (s : Strng)
  | other (value : J)
  deriving DecidableEq

def Member.asStr : Member J → Option Strng
  | .str s => some s
  | .other _ => none

inductive RawPart (J : Type)
  | object (type_ text : Option (Member J)) (rest : Rest (Member J))
  | other (value : J)
  deriving DecidableEq

inductive RawContent (J : Type)
  | text (text : Strng)
  | array (parts : List (RawPart J))
  | other (value : J)
  deriving DecidableEq

inductive RawInputItem (J : Type)
  | object (role : Option (Member J)) (content : Option (RawContent J)) (rest : Rest (Member J))
  | other (value : J)
  deriving DecidableEq

def RawPart.text? : RawPart J → Option Strng
  | .object type_ text _ => do
      let partType ← (← type_).asStr
      if partType = "input_text" ∨ partType = "output_text" then (← text).asStr
      else none
  | .other _ => none

def RawContent.text? : RawContent J → Option Strng
  | .text t => some t
  | .array parts => some ("\n".intercalate (parts.filterMap (·.text?)))
  | .other _ => none

def roles : List Strng := ["user", "assistant", "system", "developer"]

def RawInputItem.asSimpleMessage : RawInputItem J → Option SimpleMessage
  | .object role content _ => do
      let role ← (← role).asStr
      if role ∈ roles then return ⟨role, ← (← content).text?⟩
      else none
  | .other _ => none

/-- `InputItem::from`, as it is serialised: an assistant message has its text
as a string, the other ones as a part. -/
def RawInputItem.fromSimpleMessage (msg : SimpleMessage) : RawInputItem J :=
  let message (role : Strng) (content : RawContent J) : RawInputItem J :=
    .object (some (.str role)) (some content) [("type", .str "message")]
  let part : RawContent J :=
    .array [.object (some (.str "input_text")) (some (.str msg.content)) []]
  if msg.role = "assistant" then message "assistant" (.text msg.content)
  else if msg.role = "system" then message "system" part
  else if msg.role = "developer" then message "developer" part
  else message "user" part

inductive RequestInput (J : Type)
  | text (text : Strng)
  | items (items : List (RawInputItem J))
  deriving DecidableEq

structure Request (J X : Type) where
  input : RequestInput J
  other : X
  deriving DecidableEq

instance : RequestType (Request J X) where
  getMessages r := match r.input with
    | .text text => [⟨"user", text⟩]
    | .items items => items.filterMap RawInputItem.asSimpleMessage
  setMessages r messages := { r with input := .items (messages.map RawInputItem.fromSimpleMessage) }

structure OutputText (J : Type) where
  annotations : List J
  logprobs : Option (List J)
  text : Strng

/-- `OutputMessageContent`. -/
inductive Content (J : Type)
  | outputText (text : OutputText J)
  | refusal (value : J)

inductive OutputItem (J : Type)
  | message (content : List (Content J)) (rest : Rest J)
  | other (value : J)

structure Response (J X : Type) where
  output : List (OutputItem J)
  other : X

def Content.text? : Content J → Option Strng
  | .outputText t => some t.text
  | .refusal _ => none

def OutputItem.choice? : OutputItem J → Option SimpleMessage
  | .message content _ =>
    some ⟨"assistant", "\n".intercalate (content.filterMap (·.text?))⟩
  | .other _ => none

/-- The messages among the outputs get the content of the choices, in
order. -/
def setOutputs : List (OutputItem J) → List SimpleMessage → List (OutputItem J)
  | .message _ rest :: output, wh :: choices =>
    .message [.outputText ⟨[], none, wh.content⟩] rest :: setOutputs output choices
  | .message content rest :: output, [] => .message content rest :: output
  | .other value :: output, choices => .other value :: setOutputs output choices
  | [], _ => []

instance : ResponseType (Response J X) where
  toWebhookChoices r := r.output.filterMap OutputItem.choice?
  setWebhookChoices r choices :=
    if (r.output.filterMap OutputItem.choice?).length ≠ choices.length then
      .error "webhook response message count mismatch"
    else .ok { r with output := setOutputs r.output choices }

end Responses

end AgentGateway.Llm.Guard
