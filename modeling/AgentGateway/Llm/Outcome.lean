/-
What a client has of a response in the end.

Of a whole response the client reads off the outcome. Of a stream it puts
the pieces together: text is joined, tool calls are put together by their
index, and of the finish reason and usage the last ones stand. A Responses
client puts items together by their place: text is joined for each content
part, arguments for each tool call. The events at the end of a part or of an
item only repeat what was there, and are passed over.

# Grammar

`WellFormed` says of the events of a Messages stream how they come.
`Progress` is an automaton for it: how far the message is, which content
blocks were started, and which of these are still open. A translator is followed with
the automaton, event by event, and what the automaton accepts is well
formed (`wellFormed_of_follow`).
-/
import AgentGateway.Llm.Types
import Mathlib.Data.List.Induction

namespace AgentGateway.Llm

-- ======== completions

namespace Completions

/-- What a Chat Completions client has of the first choice. No text and
the empty text are one to it. -/
structure Outcome where
  content : Strng
  reasoningContent : Strng
  toolCalls : List MessageToolCall
  finishReason : Option FinishReason
  usage : Option Usage

def MessageToolCalls.function? : MessageToolCalls → Option MessageToolCall
  | .function call => some call
  | .custom => none

theorem MessageToolCalls.filterMap_function? (calls : List MessageToolCall) :
    ((if (calls.map MessageToolCalls.function).isEmpty then none
      else some (calls.map MessageToolCalls.function)).getD []).filterMap
        MessageToolCalls.function? = calls := by
  cases calls with
  | nil => rfl
  | cons call calls =>
    simp [List.filterMap_map, Function.comp_def, MessageToolCalls.function?]

def Response.outcome (resp : Response) : Option Outcome :=
  resp.choices.head?.map fun choice => {
    content := choice.message.content.getD ""
    reasoningContent := choice.message.reasoningContent.getD ""
    toolCalls := (choice.message.toolCalls.getD []).filterMap MessageToolCalls.function?
    finishReason := choice.finishReason
    usage := resp.usage }

/-- The same, up to the text of the arguments: they are read as the same
value. -/
structure Outcome.Same {J : Type} (js : Serde J) (a b : Outcome) : Prop where
  content : a.content = b.content
  reasoningContent : a.reasoningContent = b.reasoningContent
  toolCalls :
    a.toolCalls.map (fun c => (c.id, c.function.name, js.fromStr c.function.arguments))
      = b.toolCalls.map fun c =>
        (c.id, c.function.name, js.fromStr c.function.arguments)
  finishReason : a.finishReason = b.finishReason
  usage : a.usage = b.usage

/-- The pieces of a stream, put together so far. -/
structure Folded where
  content : Strng
  reasoningContent : Strng
  toolCalls : IndexMap UInt32 MessageToolCall
  finishReason : Option FinishReason
  usage : Option Usage

namespace Folded

def init : Folded := ⟨"", "", .empty, none, none⟩

/-- A tool call with a piece of it added. -/
def extend (call : MessageToolCall) (chunk : ToolCallChunk) : MessageToolCall where
  id := chunk.id.getD call.id
  function := {
    name := (chunk.function.bind (·.name)).getD call.function.name
    arguments := call.function.arguments ++ (chunk.function.bind (·.arguments)).getD "" }

def addToolCall (calls : IndexMap UInt32 MessageToolCall)
    (chunk : ToolCallChunk) : IndexMap UInt32 MessageToolCall :=
  calls.insert chunk.index (extend ((calls.get? chunk.index).getD ⟨"", ⟨"", ""⟩⟩) chunk)

def addChoice (acc : Folded) (choice : ChatChoiceStream) : Folded where
  content := acc.content ++ choice.delta.content.getD ""
  reasoningContent := acc.reasoningContent ++ choice.delta.reasoningContent.getD ""
  toolCalls := (choice.delta.toolCalls.getD []).foldl addToolCall acc.toolCalls
  finishReason := choice.finishReason <|> acc.finishReason
  usage := acc.usage

def add (acc : Folded) (f : StreamResponse) : Folded :=
  let acc := (f.choices.head?.map acc.addChoice).getD acc
  { acc with usage := f.usage <|> acc.usage }

def outcome (acc : Folded) : Outcome where
  content := acc.content
  reasoningContent := acc.reasoningContent
  toolCalls := acc.toolCalls.values
  finishReason := acc.finishReason
  usage := acc.usage

end Folded

/-- What a client has of all chunks. -/
def foldChunks (chunks : List StreamResponse) : Folded :=
  chunks.foldl Folded.add Folded.init

theorem foldChunks_concat (chunks : List StreamResponse) (f : StreamResponse) :
    foldChunks (chunks ++ [f]) = (foldChunks chunks).add f :=
  List.foldl_concat ..

theorem foldChunks_delta {chunks : List StreamResponse} {f : StreamResponse}
    {delta : StreamResponseDelta} (hc : f.choices = [⟨delta, none⟩]) (hu : f.usage = none) :
    foldChunks (chunks ++ [f]) = (foldChunks chunks).addChoice ⟨delta, none⟩ := by
  rw [foldChunks_concat, Folded.add, hc, hu]
  rfl

end Completions

-- ======== messages

namespace Messages

variable {J : Type}

namespace ContentBlock

def text? : ContentBlock J → Option Strng
  | .text t => some t
  | _ => none

def thinking? : ContentBlock J → Option Strng
  | .thinking t _ => some t
  | _ => none

/-- A tool use, with the input as it is read. -/
def toolUse? : ContentBlock J → Option (Strng × Strng × Option J)
  | .toolUse id name input => some (id, name, some input)
  | _ => none

end ContentBlock

structure Outcome (J : Type) where
  text : Strng
  toolUses : List (Strng × Strng × Option J)
  stopReason : Option StopReason
  inputTokens : UInt64
  outputTokens : UInt64

def MessagesResponse.outcome (message : MessagesResponse J) : Outcome J where
  text := String.join (message.content.filterMap (·.text?))
  toolUses := message.content.filterMap (·.toolUse?)
  stopReason := message.stopReason
  inputTokens := message.usage.inputTokens
  outputTokens := message.usage.outputTokens

/-- A content block as far as it has come. Of a tool use there is the
input it started with, and the text of the input. -/
inductive Part (J : Type)
  | text (text : Strng)
  | toolUse (id name : Strng) (input : J) (json : Strng)
  | other

namespace Part

def ofStart : ContentBlock J → Part J
  | .text t => .text t
  | .toolUse id name input => .toolUse id name input ""
  | _ => .other

def add : Part J → ContentBlockDelta → Part J
  | .text t, .textDelta more => .text (t ++ more)
  | .toolUse id name input json, .inputJsonDelta more =>
    .toolUse id name input (json ++ more)
  | part, _ => part

def text? : Part J → Option Strng
  | .text t => some t
  | _ => none

/-- The input is read once it is there, and stays what it was if nothing
came. -/
def toolUse? (js : Serde J) : Part J → Option (Strng × Strng × Option J)
  | .toolUse id name input json =>
    some (id, name, if json = "" then some input else js.fromStr json)
  | _ => none

end Part

/-- The pieces of a stream, put together so far. -/
structure Assembled (J : Type) where
  blocks : IndexMap Nat (Part J)
  stopReason : Option StopReason
  inputTokens : UInt64
  outputTokens : UInt64

namespace Assembled

def init : Assembled J := ⟨.empty, none, 0, 0⟩

def add (acc : Assembled J) : MessagesStreamEvent J → Assembled J
  | .messageStart message =>
    { acc with
      stopReason := message.stopReason
      inputTokens := message.usage.inputTokens
      outputTokens := message.usage.outputTokens }
  | .contentBlockStart index block =>
    { acc with blocks := acc.blocks.insert index (.ofStart block) }
  | .contentBlockDelta index delta =>
    { acc with blocks := acc.blocks.modify index (·.add delta) }
  | .contentBlockStop _ => acc
  | .messageDelta delta usage =>
    { acc with
      stopReason := delta.stopReason <|> acc.stopReason
      inputTokens := usage.inputTokens.getD acc.inputTokens
      outputTokens := usage.outputTokens.getD acc.outputTokens }
  | .messageStop => acc
  | .ping => acc

def outcome (js : Serde J) (acc : Assembled J) : Outcome J where
  text := String.join (acc.blocks.values.filterMap (·.text?))
  toolUses := acc.blocks.values.filterMap (·.toolUse? js)
  stopReason := acc.stopReason
  inputTokens := acc.inputTokens
  outputTokens := acc.outputTokens

end Assembled

def foldEvents (events : List (MessagesStreamEvent J)) : Assembled J :=
  events.foldl Assembled.add Assembled.init

theorem foldEvents_concat (events : List (MessagesStreamEvent J)) (e : MessagesStreamEvent J) :
    foldEvents (events ++ [e]) = (foldEvents events).add e :=
  List.foldl_concat ..

end Messages

end AgentGateway.Llm

-- ======== responses

namespace AgentGateway.Llm.Responses

open Lib List AssocMap

/-- An item as the client has it. A message is the texts of its parts; no text
and the empty text are one to it. -/
inductive ItemOutcome
  | message (texts : List Strng)
  | functionCall (callId name arguments : Strng)

def OutputItem.outcome : OutputItem → ItemOutcome
  | .message m => .message (m.content.filter (· ≠ ""))
  | .functionCall c => .functionCall c.callId c.name c.arguments

/-- An item, with the arguments of a call as they are read. -/
def ItemOutcome.read {J : Type} (js : Serde J) : ItemOutcome → List Strng ⊕ Strng × Strng × Option J
  | .message texts => .inl texts
  | .functionCall callId name arguments => .inr (callId, name, js.fromStr arguments)

/-- An item as far as it has come; a message has its parts by their index. -/
inductive PartialItem
  | message (parts : IndexMap Nat Strng)
  | functionCall (callId name arguments : Strng)

namespace PartialItem

def ofItem : OutputItem → PartialItem
  | .message m => .message (ofList (m.content.zipIdx.map Prod.swap))
  | .functionCall c => .functionCall c.callId c.name c.arguments

def addText (c : Nat) (text : Strng) : PartialItem → PartialItem
  | .message parts => .message (parts.insert c ((parts.get? c).getD "" ++ text))
  | item => item

def addArguments (delta : Strng) : PartialItem → PartialItem
  | .functionCall callId name arguments => .functionCall callId name (arguments ++ delta)
  | item => item

def outcome : PartialItem → ItemOutcome
  | .message parts => .message (parts.values.filter (· ≠ ""))
  | .functionCall callId name arguments => .functionCall callId name arguments

end PartialItem

def amend (items : IndexMap Nat PartialItem) (i : Nat) (f : PartialItem → PartialItem) :
    IndexMap Nat PartialItem :=
  match items.get? i with
  | some item => items.insert i (f item)
  | none => items

def addEvent (items : IndexMap Nat PartialItem) : ResponseStreamEvent → IndexMap Nat PartialItem
  | .outputItemAdded i item => items.insert i (.ofItem item)
  | .contentPartAdded _ i c text => amend items i (·.addText c text)
  | .outputTextDelta _ i c delta => amend items i (·.addText c delta)
  | .functionCallArgumentsDelta _ i delta => amend items i (·.addArguments delta)
  | _ => items

def foldItems (out : List StreamEvent) : IndexMap Nat PartialItem :=
  out.foldl (fun items e => addEvent items e.event) .empty

theorem foldItems_append (out out' : List StreamEvent) : foldItems (out ++ out')
      = out'.foldl (fun items e => addEvent items e.event) (foldItems out) :=
  foldl_append

def streamOutcome (out : List StreamEvent) : List ItemOutcome :=
  (foldItems out).values.map PartialItem.outcome

-- ======== entries

/-- There is a message and nothing else; it has one part at most, with the text. -/
def Says (text : Strng) (items : IndexMap Nat PartialItem) : Prop :=
  ∃ parts : IndexMap Nat Strng, items.entries = [(0, .message parts)]
    ∧ (parts = .empty ∧ text = "" ∨ parts.entries = [(0, text)])

/-- One of the first `n` items is a call under the identifier. -/
def HasCall (callId : Strng) (n : Nat) (items : IndexMap Nat PartialItem) : Prop :=
  ∃ i < n, ∃ name arguments, items.get? i = some (.functionCall callId name arguments)

variable {text callId : Strng} {items : IndexMap Nat PartialItem} {n : Nat}

theorem Says.addText (h : Says text items) (more : Strng) :
    Says (text ++ more) (amend items 0 (·.addText 0 more)) := by
  obtain ⟨parts, hentries, hparts⟩ := h
  have hmessage : items.get? 0 = some (.message parts) := mem_entries.1 (by simp [hentries])
  rw [amend, hmessage]
  refine ⟨parts.insert 0 ((parts.get? 0).getD "" ++ more), ?_, .inr ?_⟩
  · dsimp only
    rw [entries_insert_of_get? hmessage (·.addText 0 more), hentries]
    rfl
  · rcases hparts with ⟨rfl, rfl⟩ | hparts
    · rfl
    · have hget : parts.get? 0 = some text := mem_entries.1 (by rw [hparts]; simp)
      rw [hget, Option.getD_some, entries_insert_of_get? hget (· ++ more), hparts]
      rfl

theorem Says.values (h : Says text items) :
    items.values.map PartialItem.outcome = [.message (if text = "" then [] else [text])] := by
  obtain ⟨parts, hentries, hparts⟩ := h
  rw [AssocMap.values, hentries]
  rcases hparts with ⟨rfl, rfl⟩ | hparts
  · rfl
  · by_cases ht : text = "" <;> simp [PartialItem.outcome, AssocMap.values, hparts, ht]

theorem HasCall.amend (h : HasCall callId n items) (j : Nat) {f : PartialItem → PartialItem}
    (hf : ∀ name arguments, ∃ arguments', f (.functionCall callId name arguments)
      = .functionCall callId name arguments') : HasCall callId n (amend items j f) := by
  obtain ⟨i, hi, name, arguments, hget⟩ := h
  rw [Responses.amend]
  cases hj : items.get? j with
  | none => exact ⟨i, hi, name, arguments, hget⟩
  | some item =>
    rcases eq_or_ne i j with rfl | hne
    · obtain ⟨arguments', hf⟩ := hf name arguments
      cases hj.symm.trans hget
      exact ⟨i, hi, name, arguments', by simp only [hf, get?_insert_self]⟩
    · exact ⟨i, hi, name, arguments, by simp only [get?_insert_ne _ _ hne, hget]⟩

theorem HasCall.mem_values (h : HasCall callId n items) :
    ∃ name arguments, .functionCall callId name arguments
      ∈ items.values.map PartialItem.outcome := by
  obtain ⟨i, -, name, arguments, hget⟩ := h
  exact ⟨name, arguments, mem_map.2 ⟨_, mem_map.2 ⟨_, mem_entries.2 hget, rfl⟩, rfl⟩⟩

end AgentGateway.Llm.Responses

namespace AgentGateway.Llm.Messages

open List

variable {J : Type}

-- ======== well formed

namespace MessagesStreamEvent

def isMessageStart : MessagesStreamEvent J → Bool
  | .messageStart _ => true
  | _ => false

def starts (index : Nat) : MessagesStreamEvent J → Bool
  | .contentBlockStart i _ => i == index
  | _ => false

def stops (index : Nat) : MessagesStreamEvent J → Bool
  | .contentBlockStop i => i == index
  | _ => false

end MessagesStreamEvent

open MessagesStreamEvent

/-- The block has been started, once, and not been stopped. -/
def Open (events : List (MessagesStreamEvent J)) (index : Nat) : Prop :=
  events.countP (starts index) = 1 ∧ events.countP (stops index) = 0

structure WellFormed (events : List (MessagesStreamEvent J)) : Prop where
  /-- the message is started first, and once -/
  message_start : ∃ message rest, events = .messageStart message :: rest
    ∧ ∀ e ∈ rest, e.isMessageStart = false
  /-- a block is started at most once -/
  block_start : ∀ index, events.countP (starts index) ≤ 1
  /-- deltas go to open blocks -/
  block_delta : ∀ pre index delta post,
    events = pre ++ .contentBlockDelta index delta :: post → Open pre index
  /-- open blocks are stopped -/
  block_stop : ∀ pre index post, events = pre ++ .contentBlockStop index :: post → Open pre index
  /-- when the message ends all blocks that were started have been stopped,
  and nothing but the stop of the message follows -/
  message_delta : ∀ pre delta usage post, events = pre ++ .messageDelta delta usage :: post →
      (∀ index, pre.countP (stops index) = pre.countP (starts index))
        ∧ (post = [] ∨ post = [.messageStop])
  /-- the message is stopped after its delta, and that is the last event -/
  message_stop : ∀ pre post, events = pre ++ .messageStop :: post →
    post = [] ∧ ∃ pre' delta usage, pre = pre' ++ [.messageDelta delta usage]

-- ======== automaton

inductive Phase
  | start
  | content
  | delta
  | stop
  deriving DecidableEq

structure Progress where
  phase : Phase
  started : List Nat
  live : List Nat

namespace Progress

def init : Progress := ⟨.start, [], []⟩

/-- One event further, if it may come now. -/
def next (p : Progress) : MessagesStreamEvent J → Option Progress
  | .messageStart _ =>
    if p.phase = .start then some { p with phase := .content } else none
  | .contentBlockStart i _ =>
    if p.phase = .content ∧ i ∉ p.started then
      some { p with started := i :: p.started, live := i :: p.live }
    else none
  | .contentBlockDelta i _ =>
    if p.phase = .content ∧ i ∈ p.live then some p else none
  | .contentBlockStop i =>
    if p.phase = .content ∧ i ∈ p.live then
      some { p with live := p.live.filter (· ≠ i) }
    else none
  | .messageDelta _ _ =>
    if p.phase = .content ∧ p.live = [] then some { p with phase := .delta }
    else none
  | .messageStop =>
    if p.phase = .delta then some { p with phase := .stop } else none
  | .ping => if p.phase = .content then some p else none

def follow (p : Progress) (events : List (MessagesStreamEvent J)) : Option Progress :=
  events.foldlM next p

theorem follow_append (p : Progress) (xs ys : List (MessagesStreamEvent J)) :
    p.follow (xs ++ ys) = (p.follow xs).bind (·.follow ys) :=
  foldlM_append

variable {p q : Progress} {e : MessagesStreamEvent J} {events : List (MessagesStreamEvent J)}
  {r : Progress}

theorem follow_concat {xs : List (MessagesStreamEvent J)}
    (h : p.follow xs = some q) (he : q.next e = some r) : p.follow (xs ++ [e]) = some r := by
  rw [follow_append, h]
  simp [follow, he]

theorem follow_split {pre post : List (MessagesStreamEvent J)}
    (h : p.follow (pre ++ e :: post) = some r) :
    ∃ q q', p.follow pre = some q ∧ q.next e = some q' ∧ q'.follow post = some r := by
  rw [follow_append] at h
  obtain ⟨q, hq, h⟩ := Option.bind_eq_some_iff.1 h
  obtain ⟨q', hq', h⟩ := Option.bind_eq_some_iff.1 h
  exact ⟨q, q', hq, hq', h⟩

theorem next_cases (h : p.next e = some q) :
    (∃ m, e = .messageStart m ∧ p.phase = .start ∧ q = { p with phase := .content })
      ∨ (∃ i b, e = .contentBlockStart i b ∧ p.phase = .content ∧ i ∉ p.started
        ∧ q = { p with started := i :: p.started, live := i :: p.live })
      ∨ (∃ i d, e = .contentBlockDelta i d ∧ p.phase = .content ∧ i ∈ p.live ∧ q = p)
      ∨ (∃ i, e = .contentBlockStop i ∧ p.phase = .content ∧ i ∈ p.live
        ∧ q = { p with live := p.live.filter (· ≠ i) })
      ∨ (∃ d u, e = .messageDelta d u ∧ p.phase = .content ∧ p.live = []
        ∧ q = { p with phase := .delta })
      ∨ (e = .messageStop ∧ p.phase = .delta ∧ q = { p with phase := .stop })
      ∨ (e = .ping ∧ p.phase = .content ∧ q = p) := by
  cases e <;> simp only [next, Option.ite_none_right_eq_some, Option.some.injEq] at h
  all_goals obtain ⟨hp, rfl⟩ := h
  all_goals simp_all

/-- The events an automaton has been through. -/
structure Tracks (p : Progress) (events : List (MessagesStreamEvent J)) : Prop where
  starts_eq : ∀ i, events.countP (starts i) = if i ∈ p.started then 1 else 0
  stops_eq : ∀ i, events.countP (stops i) = if i ∈ p.started ∧ i ∉ p.live then 1 else 0
  live_started : ∀ i ∈ p.live, i ∈ p.started
  empty : p.phase = .start → events = []
  begun : p.phase ≠ .start → ∃ message rest, events = .messageStart message :: rest
      ∧ ∀ e ∈ rest, e.isMessageStart = false
  ended : p.phase = .delta → ∃ pre delta usage, events = pre ++ [.messageDelta delta usage]

theorem Tracks.open (h : p.Tracks events) {i : Nat} (hi : i ∈ p.live) : Open events i := by
  have hs := h.live_started i hi
  exact ⟨by rw [h.starts_eq, if_pos hs], by rw [h.stops_eq, if_neg fun hc => hc.2 hi]⟩

theorem Tracks.concat_begun (h : p.Tracks events) (hp : p.phase ≠ .start)
    (he : e.isMessageStart = false) : ∃ message rest, events ++ [e] = .messageStart message :: rest
      ∧ ∀ e ∈ rest, e.isMessageStart = false := by
  obtain ⟨message, rest, rfl, hrest⟩ := h.begun hp
  refine ⟨message, rest ++ [e], rfl, fun x hx => ?_⟩
  rw [mem_append, mem_singleton] at hx
  cases hx with
  | inl hx => exact hrest x hx
  | inr hx => rw [hx, he]

theorem Tracks.concat_other (h : p.Tracks events)
    (hp : p.phase = .content ∨ p.phase = .delta) (he : e.isMessageStart = false)
    (hstart : ∀ i, starts i e = false) (hstop : ∀ i, stops i e = false) {phase : Phase}
    (hphase : phase ≠ .start)
    (hdelta : phase = .delta → ∃ delta usage, e = .messageDelta delta usage) :
    Tracks { p with phase := phase } (events ++ [e]) where
  starts_eq i := by
    rw [countP_append, countP_singleton, hstart i, h.starts_eq]
    rfl
  stops_eq i := by
    rw [countP_append, countP_singleton, hstop i, h.stops_eq]
    rfl
  live_started := h.live_started
  empty hs := absurd hs hphase
  begun _ := h.concat_begun
    (fun hs => by cases hp with | inl hp => simp_all | inr hp => simp_all) he
  ended hd := by
    obtain ⟨delta, usage, rfl⟩ := hdelta hd
    exact ⟨events, delta, usage, rfl⟩

theorem tracks_next (h : p.Tracks events) (he : p.next e = some q) : q.Tracks (events ++ [e]) := by
  rcases next_cases he with ⟨m, rfl, hp, rfl⟩ | ⟨i, b, rfl, hp, hi, rfl⟩
    | ⟨i, d, rfl, hp, hi, rfl⟩ | ⟨i, rfl, hp, hi, rfl⟩
    | ⟨d, u, rfl, hp, hlive, rfl⟩ | ⟨rfl, hp, rfl⟩ | ⟨rfl, hp, rfl⟩
  · have hnil := h.empty hp
    subst hnil
    exact { h with
      empty := nofun
      begun := fun _ => ⟨m, [], rfl, nofun⟩
      ended := nofun }
  · -- the block is not among those started, so it becomes one of them
    exact {
      starts_eq := fun j => by
        rw [countP_append, h.starts_eq]
        by_cases hj : i = j
        · subst hj
          simp [starts, hi]
        · simp [starts, hj, Ne.symm hj]
      stops_eq := fun j => by
        rw [countP_append, h.stops_eq]
        by_cases hj : i = j
        · subst hj
          simp [stops, hi]
        · simp [stops, Ne.symm hj]
      live_started := fun j hj => by
        rw [mem_cons] at hj ⊢
        exact hj.imp_right (h.live_started j)
      empty := fun hs => by rw [hp] at hs; cases hs
      begun := fun hs => h.concat_begun hs rfl
      ended := fun hs => by rw [hp] at hs; cases hs }
  · have hsame : Tracks { q with phase := .content } (events ++ [.contentBlockDelta i d]) :=
      h.concat_other (.inl hp) rfl (fun _ => rfl) (fun _ => rfl) nofun nofun
    rwa [← hp] at hsame
  · have hstarted := h.live_started i hi
    exact {
      starts_eq := fun j => by
        rw [countP_append, h.starts_eq]
        rfl
      stops_eq := fun j => by
        rw [countP_append, h.stops_eq]
        by_cases hj : i = j
        · subst hj
          simp [stops, hi, hstarted]
        · simp [stops, hj, Ne.symm hj]
      live_started := fun j hj => h.live_started j (mem_of_mem_filter hj)
      empty := fun hs => by rw [hp] at hs; cases hs
      begun := fun hs => h.concat_begun hs rfl
      ended := fun hs => by rw [hp] at hs; cases hs }
  · exact h.concat_other (.inl hp) rfl (fun _ => rfl) (fun _ => rfl) nofun fun _ => ⟨d, u, rfl⟩
  · exact h.concat_other (.inr hp) rfl (fun _ => rfl) (fun _ => rfl) nofun nofun
  · have hsame : Tracks { q with phase := .content } (events ++ [.ping]) :=
      h.concat_other (.inl hp) rfl (fun _ => rfl) (fun _ => rfl) nofun nofun
    rwa [← hp] at hsame

theorem tracks_follow (h : init.follow events = some p) : p.Tracks events := by
  induction events using reverseRecOn generalizing p with
  | nil =>
    cases h
    exact {
      starts_eq := fun _ => rfl
      stops_eq := fun _ => rfl
      live_started := nofun
      empty := fun _ => rfl
      begun := fun hs => absurd rfl hs
      ended := nofun }
  | append_singleton events e ih =>
    obtain ⟨q, q', hq, he, hq'⟩ := follow_split h
    cases hq'
    exact tracks_next (ih hq) he

theorem next_at_end (h : p.next e = some q) :
    p.phase ≠ .stop ∧ (p.phase = .delta → e = .messageStop ∧ q.phase = .stop) := by
  rcases next_cases h with ⟨_, _, hp, _⟩ | ⟨_, _, _, hp, _⟩ | ⟨_, _, _, hp, _⟩
    | ⟨_, _, hp, _⟩ | ⟨_, _, _, hp, _⟩ | ⟨rfl, hp, rfl⟩ | ⟨_, hp, _⟩
  all_goals simp [hp]

theorem follow_stop (hp : p.phase = .stop) (h : p.follow events = some q) : events = [] := by
  cases events with
  | nil => rfl
  | cons e rest =>
    have h : p.follow ([] ++ e :: rest) = some q := h
    obtain ⟨q, q', hq, he, -⟩ := follow_split h
    cases hq
    exact absurd hp (next_at_end he).1

theorem follow_delta (hp : p.phase = .delta) (h : p.follow events = some q) :
    events = [] ∨ events = [.messageStop] := by
  cases events with
  | nil => exact .inl rfl
  | cons e rest =>
    have h : p.follow ([] ++ e :: rest) = some q := h
    obtain ⟨q, q', hq, he, hrest⟩ := follow_split h
    cases hq
    obtain ⟨rfl, hq'⟩ := (next_at_end he).2 hp
    exact .inr (by rw [follow_stop hq' hrest])

theorem wellFormed_of_follow (hne : events ≠ []) (h : init.follow events = some p) :
    WellFormed events where
  message_start := by
    have ht := tracks_follow h
    exact ht.begun fun hs => hne (ht.empty hs)
  block_start i := by
    rw [(tracks_follow h).starts_eq]
    split <;> omega
  block_delta pre i d post heq := by
    subst heq
    obtain ⟨q, q', hq, he, -⟩ := follow_split h
    simp only [next, Option.ite_none_right_eq_some] at he
    exact (tracks_follow hq).open he.1.2
  block_stop pre i post heq := by
    subst heq
    obtain ⟨q, q', hq, he, -⟩ := follow_split h
    simp only [next, Option.ite_none_right_eq_some] at he
    exact (tracks_follow hq).open he.1.2
  message_delta pre d u post heq := by
    subst heq
    obtain ⟨q, q', hq, he, hpost⟩ := follow_split h
    simp only [next, Option.ite_none_right_eq_some, Option.some.injEq] at he
    obtain ⟨⟨hphase, hlive⟩, rfl⟩ := he
    refine ⟨fun i => ?_, follow_delta rfl hpost⟩
    rw [(tracks_follow hq).stops_eq, (tracks_follow hq).starts_eq, hlive]
    simp
  message_stop pre post heq := by
    subst heq
    obtain ⟨q, q', hq, he, hpost⟩ := follow_split h
    simp only [next, Option.ite_none_right_eq_some, Option.some.injEq] at he
    obtain ⟨hphase, rfl⟩ := he
    exact ⟨follow_stop rfl hpost, (tracks_follow hq).ended hphase⟩

end Progress

end AgentGateway.Llm.Messages
