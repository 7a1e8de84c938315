/-
Calls and outputs through the translation of a Responses request.

For Chat Completions the messages are those of the items, one by one
(`getElem?_messages`), so a call and its output keep their places relative to
each other. For Converse the tool blocks are those of the items, whatever is
merged and whether or not there is a cache point (`toolBlocks_messages`).

# Where it breaks

Calls are not gathered into one message: of two calls in a row the first is not
followed by its output. A custom tool call and its output go under identifiers
of their own, and an output that is a list is passed over, so they may part. A
function call whose arguments are no JSON is passed over for Converse, and its
output is not.
-/
import AgentGateway.Llm.Conversion.ResponsesRequest

namespace AgentGateway.Llm

open Responses List

variable {J : Type} {js : ToolSerde J} {item : InputItem} {c : Strng} {items : List InputItem}
  {j : Nat}

-- ======== marks

/-- A call or an output, as the provider is to see it. -/
inductive ToolMark
  | call (id name arguments : Strng)
  | output (id text : Strng)

namespace Responses.InputItem

/-- The call or output that an item is, under its `callId`. -/
def mark? (js : ToolSerde J) : InputItem → Option ToolMark
  | .item (.functionCall call) => some (.call call.callId call.name call.arguments)
  | .item (.functionCallOutput output) => some (.output output.callId output.output.joined)
  | .item (.customToolCall call) =>
    some (.call call.callId call.name ((js.toString (js.string call.input)).getD "\x7b\x7d"))
  | .item (.customToolCallOutput output) =>
    some (.output output.callId (BedrockRequest.customOutput output.output))
  | _ => none

/-- A custom tool call or output goes under its `callId`. -/
def Sound : InputItem → Prop
  | .item (.customToolCall call) => call.id = call.callId
  | .item (.customToolCallOutput output) => output.id.getD "" = output.callId
  | _ => True

/-- The item is a message, a call or an output; outputs of custom tools that are
lists apart. -/
def sent : InputItem → Bool
  | .itemReference => false
  | .item .other => false
  | .item (.customToolCallOutput ⟨_, .list _, _⟩) => false
  | _ => true

end Responses.InputItem

namespace Completions.RequestMessage

def callIds : RequestMessage → List Strng
  | .assistant _ (some calls) =>
    (calls.filterMap fun | .function call => some call | .custom => none).map (·.id)
  | _ => []

def isTool : RequestMessage → Bool
  | .tool _ _ => true
  | _ => false

def marks : RequestMessage → List ToolMark
  | .assistant _ (some calls) =>
    (calls.filterMap fun | .function call => some call | .custom => none).map fun call =>
      .call call.id call.function.name call.function.arguments
  | .tool content toolCallId => [.output toolCallId content]
  | _ => []

end Completions.RequestMessage

-- ======== chat completions

namespace OpenaiCompat

open Completions

/-- After the message at `i` come tool messages, up to one for `c`. -/
def DirectAnswer (msgs : List RequestMessage) (i : Nat) (c : Strng) : Prop :=
  ∃ j, i < j ∧ (∃ text, msgs[j]? = some (.tool text c))
    ∧ ∀ k m, i < k → k < j → msgs[k]? = some m → m.isTool

/-- After the item at `i` come outputs, up to one for `c`. -/
def DirectOutput (items : List InputItem) (i : Nat) (c : Strng) : Prop :=
  ∃ j, i < j ∧ (∃ o, items[j]? = some o ∧ o.Sound ∧ o.outputId? = some c)
    ∧ ∀ k o, i < k → k < j → items[k]? = some o → o.outputId?.isSome

/-- The messages of the items. Each message, call and output is one message, in
their order, and that of a call or an output has just it; an output comes after
its call, and directly after it if it does so among the items. -/
structure Paired (js : ToolSerde J) (items : List InputItem)
    (msgs : List RequestMessage) : Prop where
  count : msgs.length = (items.filter (·.sent)).length
  each : ∀ (j : Nat) (item : InputItem), (items.filter (·.sent))[j]? = some item →
    item.Sound → ∃ m : RequestMessage, msgs[j]? = some m ∧ m.marks = (item.mark? js).toList
  earlier : ∀ (j : Nat) (o : InputItem) (c : Strng),
    (items.filter (·.sent))[j]? = some o → o.Sound → o.outputId? = some c →
    (∀ call ∈ items, call.callId? = some c → call.Sound) →
    (∃ text : Strng, msgs[j]? = some (.tool text c))
      ∧ ∃ i < j, ∃ m : RequestMessage, msgs[i]? = some m ∧ c ∈ m.callIds
  direct : ∀ (i : Nat) (call : InputItem) (c : Strng),
    (items.filter (·.sent))[i]? = some call → call.Sound → call.callId? = some c →
    DirectOutput (items.filter (·.sent)) i c →
    (∃ name arguments, msgs[i]? = some (callMessage c name arguments)) ∧ DirectAnswer msgs i c

theorem map_messages (js : ToolSerde J) (items : List InputItem) :
    (items.filterMap (translateItem js)).map some
      = (items.filter (·.sent)).map (translateItem js) := by
  rw [map_filterMap_some_eq_filter_map_isSome, filter_map]
  refine congrArg (fun p => (items.filter p).map _) (funext fun item => ?_)
  rcases item with msg | - | (⟨msg | content⟩ | call | output | call | ⟨c, t | parts, id⟩ | -) <;>
    rfl

theorem getElem?_messages (h : (items.filter (·.sent))[j]? = some item) :
    (items.filterMap (translateItem js))[j]? = translateItem js item := by
  have hplace := congrArg (fun l : List (Option RequestMessage) => l[j]?) (map_messages js items)
  simp only [getElem?_map, h, Option.map_some] at hplace
  obtain ⟨m, hm, heq⟩ := Option.map_eq_some_iff.1 hplace
  rw [hm, heq]

theorem marks_translateItem (hsent : item.sent) (hsound : item.Sound) :
    ∃ m : RequestMessage, translateItem js item = some m ∧ m.marks = (item.mark? js).toList := by
  cases item with
  | itemReference => cases hsent
  | easyMessage msg =>
    refine ⟨_, rfl, ?_⟩
    rw [easyMessage]
    cases msg.role <;> rfl
  | item item =>
    cases item with
    | other => cases hsent
    | functionCall | functionCallOutput => exact ⟨_, rfl, rfl⟩
    | message msg =>
      cases msg with
      | output content => exact ⟨_, rfl, rfl⟩
      | input msg =>
        refine ⟨_, rfl, ?_⟩
        rw [inputMessage]
        cases msg.role <;> rfl
    | customToolCall call =>
      have hid : call.id = call.callId := hsound
      refine ⟨_, rfl, ?_⟩
      rw [hid]
      rfl
    | customToolCallOutput output =>
      obtain ⟨c, t | parts, id⟩ := output
      · have hid : id.getD "" = c := hsound
        refine ⟨_, rfl, ?_⟩
        rw [hid]
        rfl
      · cases hsent

theorem translateItem_call (js : ToolSerde J) (hsound : item.Sound)
    (hc : item.callId? = some c) : item.sent
      ∧ ∃ name arguments, translateItem js item = some (callMessage c name arguments) := by
  rcases item with msg | - | (msg | call | output | call | output | -) <;> cases hc
  · exact ⟨rfl, _, _, rfl⟩
  · have hid : call.id = call.callId := hsound
    refine ⟨rfl, call.name, (js.toString (js.string call.input)).getD "\x7b\x7d", ?_⟩
    rw [← hid]
    rfl

theorem translateItem_output (hsent : item.sent) (hsound : item.Sound)
    (hc : item.outputId? = some c) : ∃ text, translateItem js item = some (.tool text c) := by
  rcases item with msg | - | (msg | call | output | call | ⟨c', t | parts, id⟩ | -) <;> cases hc
  · exact ⟨_, rfl⟩
  · have hid : id.getD "" = c' := hsound
    refine ⟨t, ?_⟩
    rw [← hid]
    rfl
  · cases hsent

theorem translateItem_isTool (hc : item.outputId?.isSome) {m : RequestMessage}
    (hm : translateItem js item = some m) : m.isTool := by
  rcases item with msg | - | (msg | call | output | call | ⟨c', t | parts, id⟩ | -) <;> cases hc
  · cases hm
    rfl
  · cases hm
    rfl
  · cases hm

theorem sent_split {o : InputItem} (h : (items.filter (·.sent))[j]? = some o) :
    ∃ pre post, items = pre ++ o :: post ∧ (pre.filter (·.sent)).length = j
      ∧ ∀ i, i < j → (items.filter (·.sent))[i]? = (pre.filter (·.sent))[i]? := by
  obtain ⟨hj, ho⟩ := List.getElem?_eq_some_iff.1 h
  have hsplit : items.filter (·.sent) = (items.filter (·.sent)).take j
      ++ o :: (items.filter (·.sent)).drop (j + 1) := by
    rw [← ho, getElem_cons_drop, take_append_drop]
  obtain ⟨l₁, l₂, rfl, h₁, h₂⟩ := filter_eq_append_iff.1 hsplit
  obtain ⟨mid, post, rfl, hmid, -, -⟩ := filter_eq_cons_iff.1 h₂
  have hpre : (l₁ ++ mid).filter (·.sent) = l₁.filter (·.sent) := by
    rw [filter_append, filter_eq_nil_iff.2 hmid, append_nil]
  refine ⟨l₁ ++ mid, post, (append_assoc ..).symm, ?_, fun i hi => ?_⟩
  · rw [hpre, h₁, length_take]
    omega
  · rw [hpre, h₁, getElem?_take, if_pos hi]

theorem paired (js : ToolSerde J) (hrefer : OutputsRefer items) :
    Paired js items (items.filterMap (translateItem js)) where
  count := by
    have hlength := congrArg length (map_messages js items)
    rwa [length_map, length_map] at hlength
  each j item hitem hsound := by
    have hsent := (mem_filter.1 (mem_of_getElem? hitem)).2
    rw [getElem?_messages hitem]
    exact marks_translateItem hsent hsound
  earlier j o c ho hsound hc hcalls := by
    have hsent := (mem_filter.1 (mem_of_getElem? ho)).2
    rw [getElem?_messages ho]
    refine ⟨translateItem_output hsent hsound hc, ?_⟩
    obtain ⟨pre, post, hitems, hlength, hbefore⟩ := sent_split ho
    obtain ⟨call, hcall, hcallId⟩ := hrefer pre o post c hitems hc
    have hcallSound := hcalls call (by rw [hitems]; exact mem_append_left _ hcall) hcallId
    obtain ⟨hcallSent, name, arguments, hmessage⟩ := translateItem_call js hcallSound hcallId
    obtain ⟨i, hi, hith⟩ := mem_iff_getElem.1 (mem_filter.2 ⟨hcall, hcallSent⟩)
    have hij : i < j := Nat.lt_of_lt_of_eq hi hlength
    have hplace : (items.filter (·.sent))[i]? = some call := by
      rw [hbefore i hij, getElem?_eq_getElem hi, hith]
    refine ⟨i, hij, callMessage c name arguments, ?_, by simp [callMessage, RequestMessage.callIds]⟩
    rw [getElem?_messages hplace, hmessage]
  direct i call c hcall hsound hc hdirect := by
    obtain ⟨j, hij, ⟨o, ho, hoSound, hoc⟩, hbetween⟩ := hdirect
    have hsent := (mem_filter.1 (mem_of_getElem? ho)).2
    rw [getElem?_messages hcall]
    refine ⟨(translateItem_call js hsound hc).2, j, hij, ?_, fun k m hik hkj hm => ?_⟩
    · rw [getElem?_messages ho]
      exact translateItem_output hsent hoSound hoc
    · cases hk : (items.filter (·.sent))[k]? with
      | none =>
        have hlength := getElem?_eq_none_iff.1 hk
        have hj := (List.getElem?_eq_some_iff.1 ho).1
        omega
      | some o' =>
        rw [getElem?_messages hk] at hm
        exact translateItem_isTool (hbetween k o' hik hkj hk) hm

end OpenaiCompat

-- ======== converse

namespace Converse

def RequestBlock.isTool : RequestBlock J → Bool
  | .toolUse _ _ _ => true
  | .toolResult _ _ => true
  | _ => false

def toolBlocks (messages : List (Message J)) : List (RequestBlock J) :=
  (messages.flatMap (·.content)).filter (·.isTool)

variable (messages : List (Message J))

theorem content_pushOrMergeMessage (msg : Message J) :
    (pushOrMergeMessage messages msg).flatMap (·.content)
      = messages.flatMap (·.content) ++ msg.content := by
  rw [pushOrMergeMessage]
  rcases eq_nil_or_concat messages with rfl | ⟨init, last, rfl⟩
  · simp
  · rw [concat_eq_append, getLast?_concat]
    dsimp only
    split <;> simp

theorem content_foldl (msgs messages : List (Message J)) :
    (msgs.foldl pushOrMergeMessage messages).flatMap (·.content)
      = messages.flatMap (·.content) ++ msgs.flatMap (·.content) := by
  induction msgs generalizing messages with
  | nil => simp
  | cons msg msgs ih =>
    rw [foldl_cons, ih, content_pushOrMergeMessage, flatMap_cons, append_assoc]

theorem toolBlocks_cons (m : Message J) (messages : List (Message J)) :
    toolBlocks (m :: messages) = m.content.filter (·.isTool) ++ toolBlocks messages := by
  rw [toolBlocks, flatMap_cons, filter_append, toolBlocks]

theorem toolBlocks_modify (i : Nat) {f : Message J → Message J}
    (hf : ∀ m, (f m).content.filter (·.isTool) = m.content.filter (·.isTool)) :
    toolBlocks (messages.modify i f) = toolBlocks messages := by
  induction messages generalizing i with
  | nil => cases i <;> rfl
  | cons m messages ih =>
    cases i with
    | zero => rw [modify_zero_cons, toolBlocks_cons, toolBlocks_cons, hf]
    | succ i => rw [modify_succ_cons, toolBlocks_cons, toolBlocks_cons, ih]

end Converse

namespace BedrockRequest

open Converse

def toolBlock? (js : ToolSerde J) : InputItem → Option (RequestBlock J)
  | .item (.functionCall call) =>
    (js.fromStr call.arguments).map (.toolUse call.callId call.name)
  | .item (.functionCallOutput output) =>
    some (.toolResult output.callId [output.output.joined])
  | .item (.customToolCall call) =>
    some (.toolUse call.callId call.name (js.inputObject call.input))
  | .item (.customToolCallOutput output) =>
    some (.toolResult output.callId [customOutput output.output])
  | _ => none

theorem toolBlocks_texts (role : ConverseRole) (texts : List Strng) :
    toolBlocks [(⟨role, texts.map .text⟩ : Message J)] = [] := by
  simp [toolBlocks, RequestBlock.isTool]

theorem toolBlocks_translateItem (js : ToolSerde J) (item : InputItem) :
    toolBlocks (translateItem js item).toList = (toolBlock? js item).toList := by
  cases item with
  | itemReference => rfl
  | easyMessage msg =>
    obtain ⟨role, content⟩ := msg
    cases role with
    | user | assistant =>
      cases content with
      | text t => exact toolBlocks_texts _ [t]
      | contentList parts => exact toolBlocks_texts _ _
    | system | developer => rfl
  | item item =>
    cases item with
    | other | functionCallOutput | customToolCall | customToolCallOutput => rfl
    | functionCall call =>
      rw [translateItem, toolBlock?]
      cases js.fromStr call.arguments <;> rfl
    | message msg =>
      cases msg with
      | input msg =>
        obtain ⟨content, role⟩ := msg
        cases role with
        | user => exact toolBlocks_texts _ _
        | system | developer => rfl
      | output content =>
        rw [translateItem]
        split
        · rfl
        · exact toolBlocks_texts _ _

theorem toolBlocks_messages (js : ToolSerde J) (cacheMessageOffset : Option Nat)
    (req : CreateResponse) : toolBlocks (translateMessages js cacheMessageOffset req)
      = req.inputItems.filterMap (toolBlock? js) := by
  have hcache : toolBlocks (translateMessages js cacheMessageOffset req)
      = toolBlocks ((req.inputItems.filterMap (translateItem js)).foldl pushOrMergeMessage []) := by
    cases cacheMessageOffset with
    | none => rfl
    | some offset =>
      show toolBlocks (insertMessageCachePoint _ offset) = _
      rw [insertMessageCachePoint]
      split
      · rfl
      · refine toolBlocks_modify _ _ fun m => ?_
        simp [RequestBlock.isTool]
  rw [hcache, toolBlocks, content_foldl, flatMap_nil, nil_append,
    filterMap_eq_flatMap_toList, filterMap_eq_flatMap_toList,
    flatMap_assoc, filter_flatMap]
  exact congrArg (req.inputItems.flatMap ·) (funext (toolBlocks_translateItem js))

/-- For every tool result there is an earlier tool use with the same identifier,
unless a function call under it has arguments that are no JSON. -/
def Paired (js : ToolSerde J) (items : List InputItem) (messages : List (Message J)) : Prop :=
  ∀ pre c content post, messages.flatMap (·.content) = pre ++ .toolResult c content :: post →
    (∀ call, .item (.functionCall call) ∈ items → call.callId = c →
      (js.fromStr call.arguments).isSome) →
    ∃ name input, .toolUse c name input ∈ pre

theorem toolBlock?_call (js : ToolSerde J)
    (hc : item.callId? = some c) (hjson : ∀ call, item = .item (.functionCall call) →
      (js.fromStr call.arguments).isSome) :
    ∃ name input, toolBlock? js item = some (.toolUse c name input) := by
  rcases item with msg | - | (msg | call | output | call | output | -) <;> cases hc
  · obtain ⟨input, hinput⟩ := Option.isSome_iff_exists.1 (hjson call rfl)
    refine ⟨call.name, input, ?_⟩
    rw [toolBlock?, hinput]
    rfl
  · exact ⟨call.name, _, rfl⟩

theorem outputId?_of_toolResult {content : List Strng}
    (h : toolBlock? js item = some (.toolResult c content)) : item.outputId? = some c := by
  rcases item with msg | - | (msg | call | output | call | output | -)
  · cases h
  · cases h
  · cases h
  · obtain ⟨input, -, heq⟩ := Option.map_eq_some_iff.1 h
    cases heq
  · cases h
    rfl
  · cases h
  · cases h
    rfl
  · cases h

theorem paired (js : ToolSerde J) (cacheMessageOffset : Option Nat) (req : CreateResponse)
    (hrefer : OutputsRefer req.inputItems) :
    Paired js req.inputItems (translateMessages js cacheMessageOffset req) := by
  intro pre c content post hcontent hjson
  have hblocks := toolBlocks_messages js cacheMessageOffset req
  rw [toolBlocks, hcontent, filter_append] at hblocks
  obtain ⟨l₁, l₂, hitems, h₁, h₂⟩ := filterMap_eq_append_iff.1 hblocks.symm
  obtain ⟨mid, o, rest, rfl, hmid, ho, -⟩ := filterMap_eq_cons_iff.1 h₂
  obtain ⟨call, hcall, hc⟩ := hrefer (l₁ ++ mid) o rest c (by simp [hitems])
    (outputId?_of_toolResult ho)
  have hmem : call ∈ req.inputItems := by
    rw [hitems, ← append_assoc]
    exact mem_append_left _ hcall
  obtain ⟨name, input, huse⟩ := toolBlock?_call js hc fun f hf =>
    hjson f (hf ▸ hmem) (by rw [hf] at hc; exact Option.some.inj hc)
  have hfirst : call ∈ l₁ := by
    refine (mem_append.1 hcall).resolve_right fun hcall => ?_
    rw [hmid call hcall] at huse
    cases huse
  have hpre : .toolUse c name input ∈ pre.filter (·.isTool) := by
    rw [← h₁]
    exact mem_filterMap.2 ⟨call, hfirst, huse⟩
  exact ⟨name, input, (mem_filter.1 hpre).1⟩

end BedrockRequest

-- ======== result

theorem tool_pairing (js : ToolSerde J) (req : CreateResponse)
    (hrefer : OutputsRefer req.inputItems) (cacheMessageOffset : Option Nat) :
    (∃ msgs, OpenaiCompat.translateMessages js req = req.instructions.toList.map .developer ++ msgs
      ∧ OpenaiCompat.Paired js req.inputItems msgs) ∧ BedrockRequest.Paired js req.inputItems
      (BedrockRequest.translateMessages js cacheMessageOffset req) :=
  ⟨⟨_, rfl, OpenaiCompat.paired js hrefer⟩, BedrockRequest.paired js cacheMessageOffset req hrefer⟩

/-- Values as their text; a string is its text with a quote before it. -/
def textToolSerde : ToolSerde JsonText where
  toSerde := textSerde
  string text := ⟨"\"" ++ text, by simp⟩
  inputObject text := ⟨"\"" ++ text, by simp⟩

theorem outputsRefer_of_all (h : ∀ j, (hj : j < items.length) → items[j].outputId?.all fun c =>
      (items.take j).any fun call => call.callId? == some c) : OutputsRefer items := by
  intro pre o post c hitems hc
  have hj : pre.length < items.length := by
    rw [hitems]
    simp
  have hall := h pre.length hj
  have ho : items[pre.length] = o := by simp [hitems]
  have htake : items.take pre.length = pre := by simp [hitems]
  rw [ho, hc, htake] at hall
  simpa using hall

def sampleCall (callId arguments : Strng) : InputItem :=
  .item (.functionCall ⟨arguments, callId, "f", none, none⟩)

def sampleOutput (callId : Strng) : InputItem :=
  .item (.functionCallOutput ⟨callId, .text "ok"⟩)

/-- A call with its output, a message, and a call of a custom tool with its output
after a message. -/
def sampleItems : List InputItem :=
  [sampleCall "a" "[1]", sampleOutput "a", .easyMessage ⟨.user, .text "hi"⟩,
    .item (.customToolCall ⟨"b", "x", "g", "b"⟩), .easyMessage ⟨.user, .text "and?"⟩,
    .item (.customToolCallOutput ⟨"b", .text "ok", some "b"⟩)]

theorem tool_pairing_sample :
    (∃ msgs, OpenaiCompat.translateMessages textToolSerde ⟨.items sampleItems, some "be brief"⟩
        = [.developer "be brief"] ++ msgs ∧ OpenaiCompat.Paired textToolSerde sampleItems msgs)
    ∧ BedrockRequest.Paired textToolSerde sampleItems
      (BedrockRequest.translateMessages textToolSerde (some 0)
        ⟨.items sampleItems, some "be brief"⟩) :=
  tool_pairing textToolSerde ⟨.items sampleItems, some "be brief"⟩
    (outputsRefer_of_all (by decide) : OutputsRefer sampleItems) (some 0)

/-- Two calls, and then their outputs. -/
def parallelItems : List InputItem :=
  [sampleCall "a" "[1]", sampleCall "b" "[2]", sampleOutput "a", sampleOutput "b"]

/-- A custom tool, whose call has an identifier of its own. -/
def customItems : List InputItem :=
  [.item (.customToolCall ⟨"c", "x", "f", "ctc"⟩),
    .item (.customToolCallOutput ⟨"c", .text "ok", none⟩)]

/-- A call whose arguments are no JSON. -/
def garbledItems : List InputItem := [sampleCall "a" "", sampleOutput "a"]

/-- The first of two calls is not followed by its output; the output of a custom
tool refers to no call; and the output of a call that is passed over has no tool
use. -/
theorem tool_pairing_parts :
    OutputsRefer parallelItems ∧ OutputsRefer customItems ∧ OutputsRefer garbledItems
      ∧ (OpenaiCompat.translateMessages textToolSerde ⟨.items parallelItems, none⟩)[0]?
          = some (OpenaiCompat.callMessage "a" "f" "[1]") ∧ ¬ OpenaiCompat.DirectAnswer
        (OpenaiCompat.translateMessages textToolSerde ⟨.items parallelItems, none⟩) 0 "a"
      ∧ (OpenaiCompat.translateMessages textToolSerde ⟨.items customItems, none⟩).map (·.callIds)
          = [["ctc"], []]
      ∧ (OpenaiCompat.translateMessages textToolSerde ⟨.items customItems, none⟩)[1]?
          = some (.tool "ok" "")
      ∧ (BedrockRequest.translateMessages textToolSerde none ⟨.items garbledItems, none⟩)
          = [⟨.user, [.toolResult "a" ["ok"]]⟩] := by
  refine ⟨outputsRefer_of_all (by decide), outputsRefer_of_all (by decide),
    outputsRefer_of_all (by decide), rfl, ?_, rfl, rfl, by decide⟩
  rintro ⟨j, hj, ⟨text, htool⟩, hbetween⟩
  match j with
  | 1 => cases htool
  | j + 2 =>
    have hcall := hbetween 1 _ (by omega) (by omega) rfl
    cases hcall

end AgentGateway.Llm
