/-
What a Chat Completions client has of a Converse response that comes as a
stream.

A block is followed through the translator as a whole (`triple_block`): it
adds its text, its reasoning or its tool call to what the client has put
together so far (`Sofar`), whatever its deltas are. The index of a tool call is
the place of its block.
-/
import AgentGateway.Llm.ConverseCut
import AgentGateway.Llm.Outcome

namespace AgentGateway.Llm.BedrockCompletions

open Lib Lib.Emitter Converse Completions List AssocMap UInt32

variable {J : Type} {js : Serde J} {resp : ConverseResponse J} {cuts : List (BlockCut J)}
  {b : BlockCut J} {id model : Strng} {acc : Folded} {index : Int32}
  {deltas : List (Option ContentBlockDelta)}

abbrev step (id model : Strng) (e : ConverseStreamOutput) : Translate Unit :=
  translateEvent id model (some e)

-- ======== a block

/-- What the client has put together. -/
def At (acc : Folded) (_ : HashMap Int32 Strng) (out : List StreamResponse) : Prop :=
  foldChunks out = acc

/-- The deltas of text and of reasoning. -/
def Plain (d : ContentBlockDelta) : Prop :=
  d.input? = none ∧ d ≠ .reasoningContent .redactedContent

theorem triple_sendDelta (acc : Folded) (delta : StreamResponseDelta) :
    Triple (At acc) (sendDelta id model delta) fun _ => At (acc.addChoice ⟨delta, none⟩) := by
  refine triple_emit ?_
  rintro s out rfl
  exact foldChunks_delta rfl rfl

theorem triple_delta_plain (acc : Folded) (index : Int32) {d : Option ContentBlockDelta}
    (hd : ∀ d' ∈ d, Plain d') :
    Triple (At acc) (step id model (.contentBlockDelta index d)) fun _ => At { acc with
      content := acc.content ++ (d.bind (·.text?)).getD ""
      reasoningContent := acc.reasoningContent ++ (d.bind (·.reasoning?)).getD "" } := by
  rcases d with - | ((- | t | t | -) | t | input)
  case none => exact triple_pure fun _ _ h => by simpa using h
  case some.toolUse => cases (hd _ rfl).1
  case some.reasoningContent.redactedContent => exact absurd rfl (hd _ rfl).2
  all_goals exact triple_sendDelta acc _

theorem triple_deltas_plain (index : Int32) (h : ∀ d, some d ∈ deltas → Plain d) (acc : Folded) :
    Triple (At acc) ((deltas.map (.contentBlockDelta index)).forM (step id model))
      fun _ => At { acc with
        content := acc.content ++ joined (·.text?) deltas
        reasoningContent := acc.reasoningContent ++ joined (·.reasoning?) deltas } := by
  induction deltas generalizing acc with
  | nil => exact triple_pure fun _ _ h => by simpa [joined] using h
  | cons d deltas ih =>
    refine triple_bind (triple_delta_plain acc index fun d' hd' => h d' (by simp_all)) fun _ => ?_
    refine triple_mono (ih (fun d' hd' => h d' (mem_cons_of_mem d hd')) _) (fun _ _ h => h)
      fun _ s out h => ?_
    rw [joined_cons, joined_cons, ← String.append_assoc, ← String.append_assoc]
    exact h

/-- A tool call is being put together. -/
structure InTool (acc : Folded) (index : Int32) (call : MessageToolCall)
    (s : HashMap Int32 Strng) (out : List StreamResponse) : Prop where
  folded : foldChunks out = { acc with toolCalls := acc.toolCalls.insert index.toUInt32 call }
  tracked : (s.get? index).isSome

theorem triple_toolStart (hnew : acc.toolCalls.get? index.toUInt32 = none)
    (toolUseId name : Strng) :
    Triple (At acc) (step id model (.contentBlockStart index (some (.toolUse toolUseId name))))
      fun _ => InTool acc index ⟨toolUseId, ⟨name, ""⟩⟩ := by
  rintro s out rfl
  refine ⟨(foldChunks_delta rfl rfl).trans ?_, ?_⟩
  · simp [Folded.addChoice, Folded.addToolCall, Folded.extend, hnew]
  · exact Option.isSome_iff_exists.2 ⟨"", get?_insert_self _ _ _⟩

theorem triple_toolDelta (acc : Folded) (index : Int32) (toolUseId name args input : Strng) :
    Triple (InTool acc index ⟨toolUseId, ⟨name, args⟩⟩)
      (step id model (.contentBlockDelta index (some (.toolUse input))))
      fun _ => InTool acc index ⟨toolUseId, ⟨name, args ++ input⟩⟩ := by
  intro s out h
  obtain ⟨buffer, hbuffer⟩ := Option.isSome_iff_exists.1 h.tracked
  let chunk : ToolCallChunk := ⟨index.toUInt32, none, some ⟨none, some input⟩⟩
  have hstep : step id model (.contentBlockDelta index (some (.toolUse input))) s
      = ((), s.insert index (buffer ++ input),
        [⟨id, [⟨{ toolCalls := some [chunk] }, none⟩], model, none, none⟩]) := by
    show (toolDelta index input >>= sendDelta id model) s = _
    rw [toolDelta, bind_apply, get_bind_apply, hbuffer]
    rfl
  rw [hstep]
  refine ⟨?_, Option.isSome_iff_exists.2 ⟨_, get?_insert_self _ _ _⟩⟩
  rw [foldChunks_delta rfl rfl, h.folded]
  simp [Folded.addChoice, Folded.addToolCall, Folded.extend, chunk, insert_insert]

theorem triple_toolDeltas (acc : Folded) (index : Int32) (toolUseId name args : Strng)
    (h : ∀ d, some d ∈ deltas → d.input?.isSome) :
    Triple (InTool acc index ⟨toolUseId, ⟨name, args⟩⟩)
      ((deltas.map (.contentBlockDelta index)).forM (step id model))
      fun _ => InTool acc index ⟨toolUseId, ⟨name, args ++ joined (·.input?) deltas⟩⟩ := by
  induction deltas generalizing args with
  | nil => exact triple_pure fun _ _ h => by simpa [joined] using h
  | cons d deltas ih =>
    rw [joined_cons, ← String.append_assoc]
    refine triple_bind (Q := fun _ => InTool acc index ⟨toolUseId, ⟨name, _⟩⟩) ?_ fun _ =>
      ih _ fun d' hd' => h d' (mem_cons_of_mem d hd')
    cases d with
    | none => exact triple_pure fun _ _ h => by simpa using h
    | some d =>
      have hd := h d mem_cons_self
      cases d with
      | toolUse input => exact triple_toolDelta acc index toolUseId name args input
      | _ => cases hd

/-- The tool call that a tool use comes as. -/
def callOf (u : ToolUse J) : MessageToolCall := ⟨u.id, ⟨u.name, u.text⟩⟩

/-- What the client has with one block more. -/
def block (acc : Folded) (index : UInt32) (b : BlockCut J) : Folded where
  content := acc.content ++ b.block.text?.getD ""
  reasoningContent := acc.reasoningContent ++ b.block.reasoning?.getD ""
  toolCalls := match b.toolUse? with
    | some u => acc.toolCalls.insert index (callOf u)
    | none => acc.toolCalls
  finishReason := acc.finishReason
  usage := acc.usage

theorem triple_stop (acc : Folded) (index : Int32) :
    Triple (At acc) ([.contentBlockStop index].forM (step id model)) fun _ => At acc :=
  triple_bind (Q := fun _ => At acc) (triple_modify fun _ _ h => h) fun _ =>
    triple_pure fun _ _ h => h

theorem triple_plainBlock (hplain : ∀ d, some d ∈ b.deltas → Plain d)
    (hstart : ∀ s ∈ b.start, ∀ id name, s ≠ some (.toolUse id name)) :
    Triple (At acc) ((b.events index).forM (step id model)) fun _ => At { acc with
      content := acc.content ++ joined (·.text?) b.deltas
      reasoningContent := acc.reasoningContent ++ joined (·.reasoning?) b.deltas } := by
  refine triple_forM_append (Q := fun _ => At acc) ?_
    (triple_forM_append (triple_deltas_plain index hplain acc) (triple_stop _ index))
  rcases hs : b.start with - | - | (⟨toolUseId, name⟩ | - | -)
  case some.some.toolUse => exact absurd rfl (hstart _ hs toolUseId name)
  case none => exact triple_pure fun _ _ h => h
  all_goals exact triple_bind (Q := fun _ => At acc) (triple_pure fun _ _ h => h) fun _ =>
    triple_pure fun _ _ h => h

theorem triple_toolBlock {toolUseId name : Strng} (hnew : acc.toolCalls.get? index.toUInt32 = none)
    (hstart : b.start = some (some (.toolUse toolUseId name)))
    (hinput : ∀ d, some d ∈ b.deltas → d.input?.isSome) :
    Triple (At acc) ((b.events index).forM (step id model)) fun _ => At { acc with
      toolCalls := acc.toolCalls.insert index.toUInt32
        ⟨toolUseId, ⟨name, joined (·.input?) b.deltas⟩⟩ } := by
  simp only [BlockCut.events, hstart, Option.toList_some, map_cons, map_nil, cons_append,
    nil_append]
  refine triple_bind (triple_toolStart hnew toolUseId name) fun _ => ?_
  refine triple_forM_append (triple_toolDeltas acc index toolUseId name "" hinput) ?_
  rw [String.empty_append]
  exact triple_mono (triple_stop _ index) (fun _ _ h => h.folded) fun _ _ _ h => h

theorem triple_block (hcuts : b.Cuts js) (hnew : acc.toolCalls.get? index.toUInt32 = none) :
    Triple (At acc) ((b.events index).forM (step id model))
      fun _ => At (block acc index.toUInt32 b) := by
  have htext := hcuts.joined_text
  have hreasoning := hcuts.joined_reasoning
  have hwhole := hcuts.whole
  have hfits := hcuts.fits
  obtain ⟨b, start, deltas⟩ := b
  cases b with
  | toolUse toolUseId name input =>
    refine triple_mono (triple_toolBlock hnew hwhole.1 fun d hd => ?_) (fun _ _ h => h)
      fun _ _ _ h => ?_
    · have := hfits d hd
      cases d <;> first | rfl | cases this
    · simpa [block, BlockCut.toolUse?, ContentBlock.text?, ContentBlock.reasoning?, callOf] using h
  | text | reasoningContent =>
    refine triple_mono (triple_plainBlock (fun d hd => ?_) ?_) (fun _ _ h => h) fun _ _ _ h => ?_
    · have := hfits d hd
      rcases d with ((_ | _ | _ | _) | _ | _) <;>
        first | exact absurd this Bool.false_ne_true | exact ⟨rfl, nofun⟩
    · rintro _ rfl id name rfl
      have := hwhole.1
      simp at this
    · rw [htext, hreasoning] at h
      exact h
  | _ => exact hwhole.elim

-- ======== all blocks

/-- What the client has after some blocks. -/
structure Sofar (blocks : List (BlockCut J)) (acc : Folded) : Prop where
  content : acc.content = String.join ((blocks.map (·.block)).filterMap (·.text?))
  reasoning : acc.reasoningContent = String.join ((blocks.map (·.block)).filterMap (·.reasoning?))
  toolCalls : acc.toolCalls.entries = (tools blocks).map fun t => (ofNat t.1, callOf t.2)
  finishReason : acc.finishReason = none
  usage : acc.usage = none

variable {blocks : List (BlockCut J)}

theorem Sofar.fresh (h : Sofar blocks acc) (hplaces : blocks.length < 2 ^ 31) :
    acc.toolCalls.get? (ofNat blocks.length) = none := by
  cases hget : acc.toolCalls.get? (ofNat blocks.length) with
  | none => rfl
  | some call =>
    have hmem := mem_entries.2 hget
    rw [h.toolCalls] at hmem
    obtain ⟨t, ht, heq⟩ := mem_map.1 hmem
    have hlt := lt_of_mem_tools ht
    have hnat := congrArg (fun e => e.1.toNat) heq
    simp only [toNat_ofNat'] at hnat
    omega

theorem Sofar.concat (h : Sofar blocks acc) (hplaces : blocks.length < 2 ^ 31) (b : BlockCut J) :
    Sofar (blocks ++ [b]) (block acc (ofNat blocks.length) b) where
  content := by
    rw [map_append, filterMap_append, String.join_append, block, h.content]
    cases hb : b.block.text? <;> simp [hb]
  reasoning := by
    rw [map_append, filterMap_append, String.join_append, block, h.reasoning]
    cases hb : b.block.reasoning? <;> simp [hb]
  toolCalls := by
    rw [tools_concat, block]
    cases hb : b.toolUse? with
    | none => simpa using h.toolCalls
    | some u =>
      have hnot : acc.toolCalls.contains (ofNat blocks.length) = false := by
        rw [AssocMap.contains, h.fresh hplaces]
        rfl
      simp [entries_insert_of_not_contains hnot, h.toolCalls]
  finishReason := h.finishReason
  usage := h.usage

theorem triple_blocks (blocks rest : List (BlockCut J)) (h : ∀ b ∈ rest, b.Cuts js)
    (hplaces : (blocks ++ rest).length ≤ 2 ^ 31) :
    Triple (fun _ out => Sofar blocks (foldChunks out))
      (((rest.zipIdx blocks.length).flatMap fun b =>
        b.1.events (Int32.ofNat b.2)).forM (step id model))
      fun _ _ out => Sofar (blocks ++ rest) (foldChunks out) := by
  induction rest generalizing blocks with
  | nil =>
    rw [append_nil]
    exact triple_pure fun _ _ h => h
  | cons b rest ih =>
    obtain ⟨hb, hrest⟩ := forall_mem_cons.1 h
    have hsplit : blocks ++ b :: rest = blocks ++ [b] ++ rest := by simp
    have hlt : blocks.length < 2 ^ 31 := by
      rw [length_append, length_cons] at hplaces
      omega
    rw [hsplit] at hplaces ⊢
    have hnext := ih (blocks ++ [b]) hrest hplaces
    rw [length_append, length_singleton] at hnext
    rw [zipIdx_cons, flatMap_cons]
    refine triple_forM_append
      (Q := fun _ _ out => Sofar (blocks ++ [b]) (foldChunks out)) ?_ hnext
    intro s out hsofar
    have hblock : Triple (At (foldChunks out))
        ((b.events (Int32.ofNat blocks.length)).forM (step id model)) _ :=
      triple_block hb (hsofar.fresh hlt)
    exact (hblock s out rfl : foldChunks _ = _) ▸ hsofar.concat hlt b

-- ======== the stream

structure Streamed (resp : ConverseResponse J) (cuts : List (BlockCut J)) (acc : Folded) :
    Prop where
  content : acc.content = String.join ((cuts.map (·.block)).filterMap (·.text?))
  reasoning : acc.reasoningContent = String.join ((cuts.map (·.block)).filterMap (·.reasoning?))
  toolCalls : acc.toolCalls.entries = (tools cuts).map fun t => (ofNat t.1, callOf t.2)
  finishReason : acc.finishReason = some (translateStopReason resp.stopReason)
  usage : acc.usage = resp.usage.map toUsage

theorem streamed_end (id model : Strng) (resp : ConverseResponse J) (cuts : List (BlockCut J)) :
    Triple (fun _ out => Sofar cuts (foldChunks out))
      ([.messageStop resp.stopReason, .metadata resp.usage].forM (step id model))
      fun _ _ out => Streamed resp cuts (foldChunks out) := by
  intro s out hs
  obtain ⟨output, reason, usage⟩ := resp
  let stop : StreamResponse := ⟨id, [⟨{}, some (translateStopReason reason)⟩], model, none, none⟩
  have hstop : Streamed ⟨output, reason, none⟩ cuts (foldChunks (out ++ [stop])) := by
    rw [foldChunks_concat]
    exact ⟨String.append_empty.trans hs.content, String.append_empty.trans hs.reasoning,
      hs.toolCalls, rfl, hs.usage⟩
  cases usage with
  | none => exact hstop
  | some usage =>
    let last : StreamResponse := ⟨id, [], model, none, some (toUsage usage)⟩
    have hsplit : out ++ [stop, last] = out ++ [stop] ++ [last] := by simp
    show Streamed _ cuts (foldChunks (out ++ [stop, last]))
    rw [hsplit, foldChunks_concat]
    exact ⟨hstop.content, hstop.reasoning, hstop.toolCalls, hstop.finishReason, rfl⟩

theorem streamed_translateStream (h : ResponseCut js resp cuts) (id model : Strng) :
    Streamed resp cuts (foldChunks (translateStream id model (cutStream resp cuts))) := by
  rw [translateStream, cutStream, runAll_map, runAll_eq_forM]
  have hstart : Triple (fun s out => s = empty ∧ out = [])
      (translateEvent id model (some .messageStart))
      fun _ _ out => Sofar (J := J) [] (foldChunks out) := by
    rintro _ _ ⟨rfl, rfl⟩
    exact ⟨rfl, rfl, rfl, rfl, rfl⟩
  have hrun := triple_bind hstart fun _ => triple_forM_append
    (triple_blocks [] cuts h.each h.places) (streamed_end id model resp cuts)
  exact hrun _ [] ⟨rfl, rfl⟩

end AgentGateway.Llm.BedrockCompletions
