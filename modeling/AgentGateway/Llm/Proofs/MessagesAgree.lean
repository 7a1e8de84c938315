/-
A Messages response comes out the same for a Chat Completions client,
whether it is translated as a whole or as a stream.

The message is cut into events (`Cutting`): the start of the message, and
of each block its start, deltas that put its content together, and its
stop. The client folds the chunks it gets for them (`Completions.foldChunks`).
A block is followed through the translator as a whole (`triple_block`):
it changes what the client has put together so far by the block
(`Folded.block`), whatever its deltas are. Over all blocks this is the
joined text, the joined thinking and the tool calls with their indexes.

# Where the two part

A whole response keeps the last text and the last thinking block only,
where the stream has them all. The input tokens and the cached tokens of
a stream are those of the last event, though the first one has them
already. The arguments of a tool call without input come as no text at
all, where a whole response has an empty object. And the indexes of tool calls
are numbers of 32 bits. `Fits` rules these out, and nothing else.
-/
import AgentGateway.Llm.Conversion.Chat
import AgentGateway.Llm.Outcome
import Mathlib.Algebra.Group.Nat.Defs
import Mathlib.Data.List.Perm.Subperm

namespace AgentGateway.Llm

open Lib Lib.Emitter Completions List
open Messages hiding Outcome

variable {J : Type} {deltas : List ContentBlockDelta}

-- ======== cutting

namespace Messages

namespace ContentBlock

/-- A block as it is when it starts. -/
def opening (js : Serde J) : ContentBlock J → ContentBlock J
  | .text _ => .text ""
  | .thinking _ _ => .thinking "" ""
  | .toolUse id name _ => .toolUse id name js.emptyObject
  | .serverToolUse id name _ => .serverToolUse id name js.emptyObject
  | .redactedThinking data => .redactedThinking data
  | .other => .other

end ContentBlock

namespace ContentBlockDelta

def text? : ContentBlockDelta → Option Strng
  | .textDelta text => some text
  | _ => none

def thinking? : ContentBlockDelta → Option Strng
  | .thinkingDelta thinking => some thinking
  | _ => none

def signature? : ContentBlockDelta → Option Strng
  | .signatureDelta signature => some signature
  | _ => none

def partialJson? : ContentBlockDelta → Option Strng
  | .inputJsonDelta partialJson => some partialJson
  | _ => none

/-- The deltas that a block may get. -/
def fits : ContentBlock J → ContentBlockDelta → Bool
  | .text _, .textDelta _ => true
  | .text _, .citationsDelta => true
  | .thinking _ _, .thinkingDelta _ => true
  | .thinking _ _, .signatureDelta _ => true
  | .toolUse _ _ _, .inputJsonDelta _ => true
  | .serverToolUse _ _ _, .inputJsonDelta _ => true
  | _, _ => false

/-- The pieces of one kind, joined. -/
def joined (piece : ContentBlockDelta → Option Strng) (deltas : List ContentBlockDelta) : Strng :=
  String.join (deltas.filterMap piece)

theorem joined_cons (piece : ContentBlockDelta → Option Strng)
    (d : ContentBlockDelta) (deltas : List ContentBlockDelta) :
    joined piece (d :: deltas) = (piece d).getD "" ++ joined piece deltas := by
  unfold joined
  cases h : piece d with
  | none => rw [filterMap_cons_none h, Option.getD_none, String.empty_append]
  | some text =>
    rw [filterMap_cons_some h, String.join_cons, Option.getD_some]

theorem joined_eq_empty {piece : ContentBlockDelta → Option Strng}
    (h : ∀ d ∈ deltas, piece d = none) : joined piece deltas = "" := by
  unfold joined
  rw [filterMap_eq_nil_iff.2 h, String.join_nil]

end ContentBlockDelta

open ContentBlockDelta

/-- The deltas put the block together. An empty input may come without
text. -/
structure Pieces (js : Serde J) (block : ContentBlock J)
    (deltas : List ContentBlockDelta) : Prop where
  fits : ∀ d ∈ deltas, fits block d
  whole : match block with
    | .text text => joined text? deltas = text
    | .thinking thinking signature =>
      joined thinking? deltas = thinking ∧ joined signature? deltas = signature
    | .toolUse _ _ input | .serverToolUse _ _ input =>
      js.fromStr (joined partialJson? deltas) = some input
        ∨ joined partialJson? deltas = "" ∧ input = js.emptyObject
    | .redactedThinking _ => True
    | .other => True

theorem Pieces.joined_text {js : Serde J} {block : ContentBlock J} (h : Pieces js block deltas) :
    joined text? deltas = block.text?.getD "" := by
  cases block with
  | text text => exact h.whole
  | _ =>
    refine joined_eq_empty fun d hd => ?_
    have hfits := h.fits d hd
    cases d <;> first | rfl | cases hfits

theorem Pieces.joined_thinking {js : Serde J} {block : ContentBlock J}
    (h : Pieces js block deltas) : joined thinking? deltas = block.thinking?.getD "" := by
  cases block with
  | thinking thinking signature => exact h.whole.1
  | _ =>
    refine joined_eq_empty fun d hd => ?_
    have hfits := h.fits d hd
    cases d <;> first | rfl | cases hfits

/-- How a message is cut: its start, its blocks with their deltas, and the
usage at its end. -/
structure Cutting (J : Type) where
  start : MessagesResponse J
  blocks : List (ContentBlock J × List ContentBlockDelta)
  usage : MessageDeltaUsage

def blockEvents (js : Serde J) (index : Nat) (b : ContentBlock J × List ContentBlockDelta) :
    List (MessagesStreamEvent J) :=
  .contentBlockStart index (b.1.opening js)
    :: (b.2.map (.contentBlockDelta index) ++ [.contentBlockStop index])

def Cutting.events (js : Serde J) (c : Cutting J)
    (message : MessagesResponse J) : List (MessagesStreamEvent J) :=
  .messageStart c.start :: (c.blocks.zipIdx.flatMap (fun b => blockEvents js b.2 b.1)
      ++ [.messageDelta ⟨message.stopReason, message.stopSequence⟩ c.usage, .messageStop])

/-- The message is cut so. The input usage comes with the start, and may
be repeated at the end; the output usage comes at the end. -/
structure Cuts (js : Serde J) (message : MessagesResponse J) (c : Cutting J) : Prop where
  id : c.start.id = message.id
  model : c.start.model = message.model
  input : c.start.usage.inputTokens = message.usage.inputTokens
  cacheRead : c.start.usage.cacheReadInputTokens = message.usage.cacheReadInputTokens
  cacheCreation : c.start.usage.cacheCreationInputTokens = message.usage.cacheCreationInputTokens
  serviceTier : c.start.usage.serviceTier = message.usage.serviceTier
  blocks : c.blocks.map Prod.fst = message.content
  pieces : ∀ b ∈ c.blocks, Pieces js b.1 b.2
  output : c.usage.outputTokens = some message.usage.outputTokens
  again_input : ∀ n ∈ c.usage.inputTokens, n = message.usage.inputTokens
  again_cacheRead : ∀ n ∈ c.usage.cacheReadInputTokens, message.usage.cacheReadInputTokens = some n
  again_cacheCreation : ∀ n ∈ c.usage.cacheCreationInputTokens,
    message.usage.cacheCreationInputTokens = some n

/-- Pings, and what cannot be parsed, may come in between. -/
def significant : Option (MessagesStreamEvent J) → Option (MessagesStreamEvent J)
  | some .ping => none
  | e => e

end Messages

namespace FromCompletions

open ContentBlockDelta

-- ======== a block

/-- What the client has put together, and the next index for a tool call. -/
def At (acc : Folded) (next : UInt32) (s : StreamState) (out : List StreamResponse) : Prop :=
  foldChunks out = acc ∧ s.nextToolIndex = next

theorem triple_mk {P : StreamState → List StreamResponse → Prop}
    {Q : Unit → StreamState → List StreamResponse → Prop}
    {choices : List ChatChoiceStream} {usage : Option Completions.Usage}
    (h : ∀ s out f, P s out → f.choices = choices → f.usage = usage →
      Q () s (out ++ [f])) : Triple P (mk choices usage) Q :=
  triple_get fun _ => triple_emit fun s out hP => h s out _ hP.2 rfl rfl

theorem triple_onDelta_text (acc : Folded) (next : UInt32) (index : Nat)
    {d : ContentBlockDelta} (hd : d.partialJson? = none) :
    Triple (At acc next) (onDelta index d) fun _ => At { acc with
      content := acc.content ++ d.text?.getD ""
      reasoningContent := acc.reasoningContent ++ d.thinking?.getD "" } next := by
  cases d with
  | inputJsonDelta partialJson => cases hd
  | textDelta | thinkingDelta =>
    refine triple_mk ?_
    rintro s out f ⟨rfl, hnext⟩ hc hu
    refine ⟨?_, hnext⟩
    rw [foldChunks_delta hc hu]
    rfl
  | signatureDelta | citationsDelta =>
    refine triple_pure ?_
    rintro s out ⟨rfl, hnext⟩
    exact ⟨by simp [text?, thinking?], hnext⟩

variable {acc : Folded} {next : UInt32}
  {b : ContentBlock J × List ContentBlockDelta}
  {blocks : List (ContentBlock J × List ContentBlockDelta)}

theorem triple_deltas_text (next : UInt32) (index : Nat)
    (h : ∀ d ∈ deltas, d.partialJson? = none) (acc : Folded) : Triple (At acc next)
      ((deltas.map (MessagesStreamEvent.contentBlockDelta (J := J) index)).forM onEvent)
      fun _ => At { acc with
        content := acc.content ++ joined text? deltas
        reasoningContent := acc.reasoningContent ++ joined thinking? deltas } next := by
  induction deltas generalizing acc with
  | nil => exact triple_pure fun _ _ h => by simpa [joined] using h
  | cons d deltas ih =>
    obtain ⟨hd, hdeltas⟩ := forall_mem_cons.1 h
    refine triple_bind (triple_onDelta_text acc next index hd) fun _ => ?_
    refine triple_mono (ih hdeltas _) (fun _ _ h => h) fun _ s out h => ?_
    rw [joined_cons, joined_cons, ← String.append_assoc, ← String.append_assoc]
    exact h

/-- A tool call is being put together, under an index that is its own. -/
structure InTool (acc : Folded) (toolIndex : UInt32) (index : Nat)
    (call : MessageToolCall) (s : StreamState) (out : List StreamResponse) :
    Prop where
  folded : foldChunks out = { acc with toolCalls := acc.toolCalls.insert toolIndex call }
  next : s.nextToolIndex = toolIndex + 1
  mapped : s.toolIndexMap.get? index = some toolIndex

theorem triple_startTool (hnew : acc.toolCalls.get? next = none) (index : Nat) (id name : Strng) :
    Triple (At acc next) (startTool index id name)
      fun _ => InTool acc next index ⟨id, ⟨name, ""⟩⟩ := by
  refine triple_get fun s => ?_
  refine triple_bind (Q := fun _ s' out => foldChunks out = acc
    ∧ s.nextToolIndex = next ∧ s'.nextToolIndex = next + 1
    ∧ s'.toolIndexMap.get? index = some next) (triple_set ?_)
    fun _ => triple_mk ?_
  · rintro _ out ⟨rfl, hacc, rfl⟩
    exact ⟨hacc, rfl, rfl, AssocMap.get?_insert_self _ _ _⟩
  · rintro s' out f ⟨rfl, rfl, hnext, hmapped⟩ hc hu
    refine ⟨?_, hnext, hmapped⟩
    rw [foldChunks_delta hc hu]
    simp [Folded.addChoice, Folded.addToolCall, Folded.extend, hnew]

theorem triple_onDelta_json (acc : Folded) (toolIndex : UInt32) (index : Nat)
    (id name args partialJson : Strng) : Triple (InTool acc toolIndex index ⟨id, ⟨name, args⟩⟩)
      (onDelta index (.inputJsonDelta partialJson))
      fun _ => InTool acc toolIndex index ⟨id, ⟨name, args ++ partialJson⟩⟩ := by
  refine triple_get fun s => ?_
  cases hmapped : s.toolIndexMap.get? index with
  | none =>
    rintro _ out ⟨rfl, h⟩
    rw [h.mapped] at hmapped
    cases hmapped
  | some t =>
    refine triple_mk ?_
    rintro _ out f ⟨rfl, h⟩ hc hu
    have ht : toolIndex = t := Option.some.inj (h.mapped.symm.trans hmapped)
    subst ht
    refine ⟨?_, h.next, hmapped⟩
    rw [foldChunks_delta hc hu, h.folded]
    simp [Folded.addChoice, Folded.addToolCall, Folded.extend, AssocMap.insert_insert]

theorem triple_deltas_json (acc : Folded) (toolIndex : UInt32) (index : Nat)
    (id name args : Strng) (h : ∀ d ∈ deltas, d.partialJson?.isSome) :
    Triple (InTool acc toolIndex index ⟨id, ⟨name, args⟩⟩)
      ((deltas.map (MessagesStreamEvent.contentBlockDelta (J := J) index)).forM onEvent)
      fun _ => InTool acc toolIndex index ⟨id, ⟨name, args ++ joined partialJson? deltas⟩⟩ := by
  induction deltas generalizing args with
  | nil => exact triple_pure fun _ _ h => by simpa [joined] using h
  | cons d deltas ih =>
    obtain ⟨hd, hdeltas⟩ := forall_mem_cons.1 h
    cases d with
    | inputJsonDelta partialJson =>
      refine triple_bind (triple_onDelta_json acc toolIndex index id name args
        partialJson) fun _ => ?_
      refine triple_mono (ih _ hdeltas) (fun _ _ h => h) fun _ s out h => ?_
      rw [joined_cons, ← String.append_assoc]
      exact h
    | _ => cases hd

/-- The tool call that a block is, with the arguments as they came. -/
def toolCall? : ContentBlock J × List ContentBlockDelta → Option MessageToolCall
  | (.toolUse id name _, deltas) | (.serverToolUse id name _, deltas) =>
    some ⟨id, ⟨name, joined partialJson? deltas⟩⟩
  | _ => none

/-- What the client has with one block more. -/
def block (acc : Folded) (next : UInt32)
    (b : ContentBlock J × List ContentBlockDelta) : Folded where
  content := acc.content ++ b.1.text?.getD ""
  reasoningContent := acc.reasoningContent ++ b.1.thinking?.getD ""
  toolCalls := match toolCall? b with
    | some call => acc.toolCalls.insert next call
    | none => acc.toolCalls
  finishReason := acc.finishReason
  usage := acc.usage

/-- The index for the tool call after the block. -/
def blockNext (next : UInt32) (b : ContentBlock J × List ContentBlockDelta) : UInt32 :=
  if (toolCall? b).isSome then next + 1 else next

theorem triple_toolBlock (hnew : acc.toolCalls.get? next = none) (index : Nat)
    (id name : Strng) (h : ∀ d ∈ deltas, d.partialJson?.isSome) :
    Triple (At acc next) (startTool index id name >>= fun _ =>
        (deltas.map (MessagesStreamEvent.contentBlockDelta (J := J) index)
          ++ [MessagesStreamEvent.contentBlockStop index]).forM onEvent)
      fun _ => At { acc with
        toolCalls := acc.toolCalls.insert next
          ⟨id, ⟨name, joined partialJson? deltas⟩⟩ } (next + 1) := by
  refine triple_bind (triple_startTool hnew index id name) fun _ => ?_
  refine triple_forM_append (triple_deltas_json acc next index id name "" h) ?_
  refine triple_bind (Q := fun _ => At _ _) (triple_modify ?_) fun _ => triple_pure fun _ _ h => h
  intro s out h
  exact ⟨h.folded, h.next⟩

theorem triple_textBlock (acc : Folded) (next : UInt32) (index : Nat)
    (h : ∀ d ∈ deltas, d.partialJson? = none) :
    Triple (At acc next) ((pure () : Translate Unit) >>= fun _ =>
        (deltas.map (MessagesStreamEvent.contentBlockDelta (J := J) index)
          ++ [MessagesStreamEvent.contentBlockStop index]).forM onEvent)
      fun _ => At { acc with
        content := acc.content ++ joined text? deltas
        reasoningContent := acc.reasoningContent ++ joined thinking? deltas } next := by
  refine triple_forM_append (triple_deltas_text next index h acc) ?_
  exact triple_bind (Q := fun _ => At _ _) (triple_modify fun _ _ h => h)
    fun _ => triple_pure fun _ _ h => h

variable (js : Serde J)

theorem triple_block (index : Nat)
    (hnew : (toolCall? b).isSome → acc.toolCalls.get? next = none) (h : Pieces js b.1 b.2) :
    Triple (At acc next) ((blockEvents js index b).forM onEvent)
      fun _ => At (block acc next b) (blockNext next b) := by
  obtain ⟨b, deltas⟩ := b
  have htext := h.joined_text
  have hthinking := h.joined_thinking
  have hfits := h.fits
  cases b with
  | toolUse id name input | serverToolUse id name input =>
    have hdeltas : ∀ d ∈ deltas, d.partialJson?.isSome := fun d hd => by
      have := hfits d hd
      cases d <;> first | rfl | cases this
    refine triple_mono (triple_toolBlock (hnew rfl) index id name hdeltas)
      (fun _ _ h => h) fun _ _ _ h => ?_
    simpa [block, blockNext, toolCall?, ContentBlock.text?, ContentBlock.thinking?] using h
  | _ =>
    have hdeltas : ∀ d ∈ deltas, d.partialJson? = none := fun d hd => by
      have := hfits d hd
      cases d <;> first | rfl | cases this
    refine triple_mono (triple_textBlock acc next index hdeltas) (fun _ _ h => h) fun _ _ _ h => ?_
    rw [htext, hthinking] at h
    exact h

-- ======== all blocks

/-- What the client has after some blocks. -/
structure Sofar (blocks : List (ContentBlock J × List ContentBlockDelta))
    (acc : Folded) : Prop where
  content : acc.content = String.join (blocks.filterMap (·.1.text?))
  reasoning : acc.reasoningContent = String.join (blocks.filterMap (·.1.thinking?))
  toolCalls : Numbered UInt32.ofNat acc.toolCalls (blocks.filterMap toolCall?)
  finishReason : acc.finishReason = none
  usage : acc.usage = none

theorem join_concat (l : List Strng) (o : Option Strng) :
    String.join (l ++ o.toList) = String.join l ++ o.getD "" := by
  cases o <;> simp

theorem Sofar.concat (h : Sofar blocks acc) (hnew : (toolCall? b).isSome →
      acc.toolCalls.get? (UInt32.ofNat (blocks.filterMap toolCall?).length) = none) :
    Sofar (blocks ++ [b]) (block acc (UInt32.ofNat (blocks.filterMap toolCall?).length) b) where
  content := by
    rw [filterMap_append, block, h.content]
    exact (join_concat _ _).symm
  reasoning := by
    rw [filterMap_append, block, h.reasoning]
    exact (join_concat _ _).symm
  toolCalls := by
    rw [filterMap_append, block]
    cases hcall : toolCall? b with
    | none => simpa [hcall] using h.toolCalls
    | some call =>
      rw [filterMap_cons_some hcall]
      exact h.toolCalls.insert_next (hnew (by rw [hcall]; rfl)) call
  finishReason := h.finishReason
  usage := h.usage

def Between (blocks : List (ContentBlock J × List ContentBlockDelta))
    (s : StreamState) (out : List StreamResponse) : Prop :=
  Sofar blocks (foldChunks out) ∧ s.nextToolIndex = UInt32.ofNat (blocks.filterMap toolCall?).length

theorem triple_next_block (blocks : List (ContentBlock J × List ContentBlockDelta)) (index : Nat)
    (h : Pieces js b.1 b.2) (hlen : ((blocks ++ [b]).filterMap toolCall?).length ≤ 2 ^ 32) :
    Triple (Between blocks) ((blockEvents js index b).forM onEvent)
      fun _ => Between (blocks ++ [b]) := by
  rintro s out ⟨hsofar, hnext⟩
  have hnew : (toolCall? b).isSome → (foldChunks out).toolCalls.get?
      (UInt32.ofNat (blocks.filterMap toolCall?).length) = none := by
    intro hsome
    obtain ⟨call, hcall⟩ := Option.isSome_iff_exists.1 hsome
    refine hsofar.toolCalls.get?_next fun i hi heq => ?_
    have hnat := congrArg UInt32.toNat heq
    simp only [UInt32.toNat_ofNat'] at hnat
    simp [hcall] at hlen
    omega
  obtain ⟨hacc, hnext'⟩ := triple_block js index hnew h s out ⟨rfl, hnext⟩
  refine ⟨hacc ▸ hsofar.concat hnew, hnext'.trans ?_⟩
  rw [blockNext]
  cases hcall : toolCall? b with
  | none => simp [hcall]
  | some call => simp [hcall, UInt32.ofNat_add]

theorem triple_blocks (blocks rest : List (ContentBlock J × List ContentBlockDelta)) (index : Nat)
    (h : ∀ b ∈ rest, Pieces js b.1 b.2)
    (hlen : ((blocks ++ rest).filterMap toolCall?).length ≤ 2 ^ 32) : Triple (Between blocks)
      (((rest.zipIdx index).flatMap fun b => blockEvents js b.2 b.1).forM onEvent)
      fun _ => Between (blocks ++ rest) := by
  induction rest generalizing blocks index with
  | nil =>
    rw [append_nil]
    exact triple_pure fun _ _ h => h
  | cons b rest ih =>
    obtain ⟨hb, hrest⟩ := forall_mem_cons.1 h
    have hsplit : blocks ++ b :: rest = blocks ++ [b] ++ rest := by simp
    rw [hsplit] at hlen ⊢
    refine triple_forM_append (triple_next_block js blocks index hb ?_)
      (ih (blocks ++ [b]) (index + 1) hrest hlen)
    rw [filterMap_append, length_append] at hlen
    exact Nat.le_trans (Nat.le_add_right _ _) hlen

-- ======== message

def streamed (c : Cutting J) (message : MessagesResponse J) : Outcome where
  content := String.join (c.blocks.filterMap (·.1.text?))
  reasoningContent := String.join (c.blocks.filterMap (·.1.thinking?))
  toolCalls := c.blocks.filterMap toolCall?
  finishReason := message.stopReason.map translateStopReason
  usage := some (deltaUsage c.usage)

theorem triple_messageDelta (start : MessagesResponse J) (usage : MessageDeltaUsage)
    (message : MessagesResponse J) : Triple (Between blocks)
      (onEvent (J := J) (.messageDelta ⟨message.stopReason, message.stopSequence⟩ usage))
      fun _ _ out => (foldChunks out).outcome = streamed ⟨start, blocks, usage⟩ message := by
  refine triple_mk ?_
  rintro s out f ⟨h, -⟩ hc hu
  rw [foldChunks_concat, Folded.add, hc, hu]
  cases hreason : message.stopReason with
  | none =>
    simp [Folded.outcome, streamed, h.content, h.reasoning, h.toolCalls.values,
      h.finishReason, hreason]
  | some reason =>
    simp [Folded.outcome, Folded.addChoice, streamed, h.content, h.reasoning,
      h.toolCalls.values, hreason]

variable (message : MessagesResponse J) (c : Cutting J)

theorem triple_events (h : ∀ b ∈ c.blocks, Pieces js b.1 b.2)
    (hlen : (c.blocks.filterMap toolCall?).length ≤ 2 ^ 32) :
    Triple (fun s out => s = StreamState.init ∧ out = []) ((c.events js message).forM onEvent)
      fun _ _ out => (foldChunks out).outcome = streamed c message := by
  refine triple_bind (Q := fun _ => Between (J := J) []) (triple_modify ?_) fun _ => ?_
  · rintro _ _ ⟨rfl, rfl⟩
    exact ⟨⟨rfl, rfl, rfl, rfl, rfl⟩, rfl⟩
  refine triple_forM_append (triple_blocks js [] c.blocks 0 h hlen) ?_
  refine triple_bind (triple_messageDelta c.start c.usage message) fun _ => ?_
  exact triple_bind (Q := fun _ _ out => (foldChunks out).outcome = streamed c message)
    (triple_pure fun _ _ h => h) fun _ => triple_pure fun _ _ h => h

theorem outcome_translateStream (h : ∀ b ∈ c.blocks, Pieces js b.1 b.2)
    (hlen : (c.blocks.filterMap toolCall?).length ≤ 2 ^ 32)
    {evts : List (Option (MessagesStreamEvent J))}
    (hevts : evts.filterMap significant = c.events js message) :
    (foldChunks (translateStream evts)).outcome = streamed c message := by
  unfold translateStream
  rw [runAll_filterMap significant onEvent ?_ ?_, hevts, runAll_eq_forM]
  · exact triple_events js message c h hlen _ _ ⟨rfl, rfl⟩
  · rintro (_ | e) hnone
    · rfl
    · cases e <;> first | rfl | cases hnone
  · rintro (_ | e) e' hsome
    · cases hsome
    · cases e <;> cases hsome <;> rfl

-- ======== whole response

/-- The tool call that a block is, with the arguments written anew. -/
def wholeCall? (js : Serde J) : ContentBlock J → Option MessageToolCall
  | .toolUse id name input | .serverToolUse id name input =>
    (js.toString input).map fun args => ⟨id, ⟨name, args⟩⟩
  | _ => none

theorem foldl_onBlock (blocks : List (ContentBlock J)) (acc : Gathered) :
    blocks.foldl (onBlock js) acc = {
      toolCalls := acc.toolCalls ++ (blocks.filterMap (wholeCall? js)).map MessageToolCalls.function
      content := (blocks.filterMap (·.text?)).getLast?.or acc.content
      reasoningContent := (blocks.filterMap (·.thinking?)).getLast?.or acc.reasoningContent } := by
  induction blocks using reverseRecOn with
  | nil => simp
  | append_singleton blocks b ih =>
    rw [foldl_concat, ih]
    cases b with
    | toolUse id name input | serverToolUse id name input =>
      simp only [onBlock]
      cases h : js.toString input <;>
        simp [wholeCall?, ContentBlock.text?, ContentBlock.thinking?, h]
    | _ =>
      simp [onBlock, wholeCall?, ContentBlock.text?, ContentBlock.thinking?]

/-- What the client has of the whole response: of texts and thinking the
last one. -/
def whole (js : Serde J) (message : MessagesResponse J) : Outcome where
  content := ((message.content.filterMap (·.text?)).getLast?).getD ""
  reasoningContent := ((message.content.filterMap (·.thinking?)).getLast?).getD ""
  toolCalls := message.content.filterMap (wholeCall? js)
  finishReason := message.stopReason.map translateStopReason
  usage := some (deltaUsage ⟨some message.usage.inputTokens, some message.usage.outputTokens,
    message.usage.cacheCreationInputTokens, message.usage.cacheReadInputTokens⟩)

theorem outcome_translateResponse :
    (translateResponseInternal js message).outcome = some (whole js message) := by
  unfold translateResponseInternal Response.outcome
  rw [foldl_onBlock]
  simp only [nil_append, Option.or_none, head?_cons, Option.map_some,
    MessageToolCalls.filterMap_function?]
  rfl

-- ======== agree

/-- The end of the stream repeats the input usage, as far as it is told. -/
def Repeats (message : MessagesResponse J) (usage : MessageDeltaUsage) : Prop :=
  (usage.inputTokens.getD 0).toUInt32 = message.usage.inputTokens.toUInt32
    ∧ usage.cacheReadInputTokens = message.usage.cacheReadInputTokens
    ∧ usage.cacheCreationInputTokens = message.usage.cacheCreationInputTokens

/-- All texts but the last are empty, and so are all thinking blocks but the
last; the input of every tool call comes as text, and the calls can be
numbered; the end of the stream repeats the input usage. -/
structure Fits (message : MessagesResponse J) (c : Cutting J) : Prop where
  texts : ∀ t ∈ (message.content.filterMap (·.text?)).dropLast, t = ""
  thinking : ∀ t ∈ (message.content.filterMap (·.thinking?)).dropLast, t = ""
  inputs : ∀ b ∈ c.blocks, ∀ call ∈ toolCall? b, call.function.arguments ≠ ""
  numbers : (c.blocks.filterMap toolCall?).length ≤ 2 ^ 32
  usage : Repeats message c.usage

/-- A message, cut so, comes out the same. -/
def Agrees (js : Serde J) (message : MessagesResponse J)
    (evts : List (Option (MessagesStreamEvent J))) : Prop :=
  ∃ whole, (translateResponseInternal js message).outcome = some whole
    ∧ Outcome.Same js (foldChunks (translateStream evts)).outcome whole

theorem usage_eq_iff (hcut : Cuts js message c) :
    (streamed c message).usage = (whole js message).usage ↔ Repeats message c.usage := by
  rw [streamed, whole, Option.some_inj]
  constructor
  · intro heq
    exact ⟨congrArg (·.promptTokens) heq, congrArg (·.cacheReadInputTokens) heq,
      congrArg (·.cacheCreationInputTokens) heq⟩
  · rintro ⟨hinput, hread, hcreation⟩
    simp only [deltaUsage, hcut.output, Option.getD_some, UInt64.toUInt32_add, hinput, hread,
      hcreation]

/-- A map has no more calls than there are indexes. -/
theorem length_values_le (m : IndexMap UInt32 MessageToolCall) : m.values.length ≤ 2 ^ 32 := by
  have hsub : m.keys.map UInt32.toNat ⊆ range (2 ^ 32) := by
    intro n hn
    obtain ⟨t, -, rfl⟩ := mem_map.1 hn
    exact mem_range.2 t.toNat_lt
  have hle := ((m.nodup.map fun _ _ => UInt32.toNat_inj.1).subperm hsub).length_le
  simpa [AssocMap.values] using hle

theorem isSome_toolCall? (hjs : js.Lawful) (b : ContentBlock J × List ContentBlockDelta) :
    (toolCall? b).isSome = (wholeCall? js b.1).isSome := by
  obtain ⟨b, deltas⟩ := b
  cases b with
  | toolUse id name input | serverToolUse id name input =>
    obtain ⟨args, hargs⟩ := Option.isSome_iff_exists.1 (hjs.toString_isSome input)
    simp [toolCall?, wholeCall?, hargs]
  | _ => rfl

/-- A tool call as it is read. -/
def read (js : Serde J) (c : MessageToolCall) : Strng × Strng × Option J :=
  (c.id, c.function.name, js.fromStr c.function.arguments)

theorem read_eq_iff (hjs : js.Lawful) (h : Pieces js b.1 b.2) :
    (toolCall? b).map (read js) = (wholeCall? js b.1).map (read js)
      ↔ ∀ call ∈ toolCall? b, call.function.arguments ≠ "" := by
  obtain ⟨b, deltas⟩ := b
  cases b with
  | toolUse id name input | serverToolUse id name input =>
    obtain ⟨args, hargs⟩ := Option.isSome_iff_exists.1 (hjs.toString_isSome input)
    have hread : js.fromStr (joined partialJson? deltas) = some input
        ↔ joined partialJson? deltas ≠ "" := by
      refine ⟨fun hsome hempty => ?_, fun hne => h.whole.resolve_right fun hc => hne hc.1⟩
      rw [hempty, hjs.fromStr_empty] at hsome
      cases hsome
    simp [toolCall?, wholeCall?, read, hargs, hread, hjs.fromStr_toString _ _ hargs]
  | _ => exact iff_of_true rfl nofun

theorem filterMap_eq_iff {α β : Type} {f g : α → Option β} {l : List α}
    (h : ∀ a ∈ l, (f a).isSome = (g a).isSome) :
    l.filterMap f = l.filterMap g ↔ ∀ a ∈ l, f a = g a := by
  refine ⟨fun heq => ?_, filterMap_congr⟩
  induction l with
  | nil => exact nofun
  | cons a l ih =>
    obtain ⟨ha, hl⟩ := forall_mem_cons.1 h
    cases hf : f a with
    | none =>
      have hg : g a = none := by simpa [hf] using ha
      rw [filterMap_cons_none hf, filterMap_cons_none hg] at heq
      exact forall_mem_cons.2 ⟨hf.trans hg.symm, ih hl heq⟩
    | some x =>
      obtain ⟨y, hg⟩ := Option.isSome_iff_exists.1 (by rw [← ha, hf]; rfl : (g a).isSome)
      rw [filterMap_cons_some hf, filterMap_cons_some hg] at heq
      obtain ⟨rfl, htail⟩ := cons.inj heq
      exact forall_mem_cons.2 ⟨hf.trans hg.symm, ih hl htail⟩

theorem wholeCalls_eq (hcut : Cuts js message c) :
    (whole js message).toolCalls = c.blocks.filterMap fun b => wholeCall? js b.1 := by
  rw [whole, ← hcut.blocks]
  exact filterMap_map

/-- What the two have of each message with few enough tool calls is the same if
it fits, and in no other case. -/
theorem same_iff (hjs : js.Lawful) (hcut : Cuts js message c)
    (hlen : (c.blocks.filterMap toolCall?).length ≤ 2 ^ 32) :
    Outcome.Same js (streamed c message) (whole js message) ↔ Fits message c := by
  have htexts : (streamed c message).content = (whole js message).content
      ↔ ∀ t ∈ (message.content.filterMap (·.text?)).dropLast, t = "" := by
    rw [← join_eq_getLast_iff, streamed, whole, ← hcut.blocks, filterMap_map, filterMap_map]
    rfl
  have hthinking : (streamed c message).reasoningContent = (whole js message).reasoningContent
      ↔ ∀ t ∈ (message.content.filterMap (·.thinking?)).dropLast, t = "" := by
    rw [← join_eq_getLast_iff, streamed, whole, ← hcut.blocks, filterMap_map, filterMap_map]
    rfl
  have hcalls : (streamed c message).toolCalls.map (read js)
      = (whole js message).toolCalls.map (read js)
      ↔ ∀ b ∈ c.blocks, ∀ call ∈ toolCall? b, call.function.arguments ≠ "" := by
    rw [wholeCalls_eq js message c hcut, streamed, map_filterMap, map_filterMap,
      filterMap_eq_iff fun b _ => by simp [isSome_toolCall? js hjs b]]
    exact forall₂_congr fun b hb => read_eq_iff js hjs (hcut.pieces b hb)
  have husage := usage_eq_iff js message c hcut
  constructor
  · intro h
    exact ⟨htexts.1 h.content, hthinking.1 h.reasoningContent, hcalls.1 h.toolCalls, hlen,
      husage.1 h.usage⟩
  · intro h
    exact ⟨htexts.2 h.texts, hthinking.2 h.thinking, hcalls.2 h.inputs, rfl, husage.2 h.usage⟩

/-- A message of five input and two output tokens. -/
def sampleMessage (content : List (ContentBlock JsonText)) : MessagesResponse JsonText :=
  ⟨"msg_1", content, "m", some .endTurn, none, ⟨5, 2, none, none, none⟩, none, none⟩

/-- A cutting of it, with the input tokens again or not. -/
def sampleCutting (blocks : List (ContentBlock JsonText × List ContentBlockDelta))
    (again : Option UInt64) : Cutting JsonText :=
  ⟨sampleMessage [], blocks, ⟨again, some 2, none, none⟩⟩

theorem cuts_sample {blocks : List (ContentBlock JsonText × List ContentBlockDelta)}
    {again : Option UInt64} (hpieces : ∀ b ∈ blocks, Pieces textSerde b.1 b.2)
    (hagain : ∀ n ∈ again, n = 5) :
    Cuts textSerde (sampleMessage (blocks.map Prod.fst)) (sampleCutting blocks again) where
  id := rfl
  model := rfl
  input := rfl
  cacheRead := rfl
  cacheCreation := rfl
  serviceTier := rfl
  blocks := rfl
  pieces := hpieces
  output := rfl
  again_input := hagain
  again_cacheRead := nofun
  again_cacheCreation := nofun

/-- The events of a cutting, without pings. -/
def sampleEvents (blocks : List (ContentBlock JsonText × List ContentBlockDelta))
    (again : Option UInt64) : List (Option (MessagesStreamEvent JsonText)) :=
  ((sampleCutting blocks again).events textSerde (sampleMessage (blocks.map Prod.fst))).map some

/-- One text block in two pieces, a thinking block and a tool call. -/
def oneOfEach : List (ContentBlock JsonText × List ContentBlockDelta) :=
  [(.thinking "hm" "s", [.thinkingDelta "hm", .signatureDelta "s"]),
    (.text "ab", [.textDelta "a", .textDelta "b"]),
    (.toolUse "t" "f" ⟨"[1]", by decide⟩, [.inputJsonDelta "[", .inputJsonDelta "1]"])]

def twoTexts : List (ContentBlock JsonText × List ContentBlockDelta) :=
  [(.text "a", [.textDelta "a"]), (.text "b", [.textDelta "b"])]

/-- A tool call without input. -/
def noInput : List (ContentBlock JsonText × List ContentBlockDelta) :=
  [(.toolUse "t" "f" textSerde.emptyObject, [])]

end FromCompletions

end AgentGateway.Llm
