/-
Where a Converse response comes out the same as a whole and as a stream, for a
Chat Completions client and for a Responses client.

Both sides are brought to the contents of the blocks: the stream by
`streamed_translateStream` and `streamOutcome_silent`, the whole response by
following the fold over its blocks (`foldl_collect`). What is left is when two
lists of contents are the same.

# Where the two part

A whole Chat Completions response has the last text and the last reasoning only,
and it has a usage even where there is none. The index of a streamed tool call is
the place of its block, and a tool use whose input came without text has arguments
that cannot be read. A streamed Responses message has one part for all the text,
and is there even if nothing is said. The identifier of a streamed call is drawn
at random and not that of the tool use, so with a tool use there are draws for
which the two differ (`exists_not_agrees`).
-/
import AgentGateway.Llm.Proofs.BedrockChunks
import AgentGateway.Llm.Proofs.BedrockItems
import Mathlib.Data.Fintype.EquivFin

namespace AgentGateway.Llm

open Lib Converse List ConverseResponseAdapter

variable {J : Type} {js : Serde J} {resp : ConverseResponse J} {cuts : List (BlockCut J)}

-- ======== contents

namespace Converse

variable {b : BlockCut J} {u : ToolUse J} {e : ConverseStreamOutput} {i : Int32}

open ConverseStreamOutput in
/-- The events of a block say what is a part of the whole message. -/
theorem BlockCut.Cuts.join_events (h : b.Cuts js) (i : Int32) :
    String.join ((b.events i).filterMap text?) = (textPart b.block).getD "" := by
  have hstart : (b.start.toList.map (contentBlockStart i)).filterMap text? = [] := by
    cases b.start <;> rfl
  have hdeltas : (b.events i).filterMap text?
      = b.deltas.filterMap (·.bind fun d => (contentBlockDelta i (some d)).text?) := by
    rw [BlockCut.events, filterMap_append, filterMap_append, hstart, filterMap_map]
    refine (append_nil _).trans (filterMap_congr fun d _ => ?_)
    cases d <;> rfl
  rw [hdeltas]
  change joined _ b.deltas = _
  obtain ⟨block, start, deltas⟩ := b
  cases block with
  | text t =>
    refine (h.joined_congr fun d hfits => ?_).trans h.joined_text
    cases d <;> first | rfl | cases hfits
  | reasoningContent r =>
    refine (h.joined_congr fun d hfits => ?_).trans h.joined_reasoning
    rcases d with ((_ | _ | _ | _) | _ | _) <;> first | rfl | cases hfits
  | _ => exact h.joined_eq_empty fun d hfits => by cases d <;> first | rfl | cases hfits

theorem join_cutEvents (h : ∀ b ∈ cuts, b.Cuts js) :
    String.join ((cutEvents cuts).filterMap (·.text?))
      = String.join ((cuts.map (·.block)).filterMap textPart) := by
  rw [cutEvents]
  generalize 0 = n
  induction cuts generalizing n with
  | nil => rfl
  | cons b cuts ih =>
    obtain ⟨hb, hcuts⟩ := forall_mem_cons.1 h
    rw [zipIdx_cons, flatMap_cons, filterMap_append, String.join_append, hb.join_events,
      ih hcuts, map_cons, filterMap_cons]
    cases textPart b.block <;> simp

theorem mem_events : e ∈ b.events i ↔ (∃ start ∈ b.start, e = .contentBlockStart i start)
    ∨ (∃ d ∈ b.deltas, e = .contentBlockDelta i d) ∨ e = .contentBlockStop i := by
  simp [BlockCut.events, eq_comm]

theorem exists_of_mem_cutEvents (h : e ∈ cutEvents cuts) : ∃ b ∈ cuts, ∃ i, e ∈ b.events i := by
  obtain ⟨b, hb, he⟩ := mem_flatMap.1 h
  exact ⟨b.1, fst_mem_of_mem_zipIdx hb, _, he⟩

theorem ofBlock_of_mem (h : e ∈ cutEvents cuts) : FromResponses.ofBlock e := by
  obtain ⟨b, -, i, he⟩ := exists_of_mem_cutEvents h
  rcases mem_events.1 he with ⟨start, -, rfl⟩ | ⟨d, -, rfl⟩ | rfl <;> rfl

-- ======== tool uses

theorem BlockCut.Cuts.ofTool_eq_false (h : b.Cuts js) (hb : b.toolUse? = none)
    (he : e ∈ b.events i) : FromResponses.ofTool e = false := by
  obtain ⟨whole, fits⟩ := h
  obtain ⟨block, start, deltas⟩ := b
  cases block with
  | toolUse => cases hb
  | text | reasoningContent =>
    rcases mem_events.1 he with ⟨s, hs, rfl⟩ | ⟨d, hd, rfl⟩ | rfl
    · have hplain := whole.1
      rw [Option.mem_def.1 hs] at hplain
      rcases s with _ | (_ | _ | _) <;> first | rfl | simp at hplain
    · rcases d with - | d
      · rfl
      · have hfit := fits d hd
        cases d <;> first | rfl | cases hfit
    · rfl
  | _ => exact whole.elim

theorem start_mem_cutEvents (h : ∀ b ∈ cuts, b.Cuts js) (hu : u ∈ cuts.filterMap (·.toolUse?)) :
    ∃ i, .contentBlockStart i (some (.toolUse u.id u.name)) ∈ cutEvents cuts := by
  obtain ⟨b, hb, hbu⟩ := mem_filterMap.1 hu
  obtain ⟨k, hk⟩ := mem_iff_getElem?.1 hb
  refine ⟨Int32.ofNat k, mem_flatMap.2 ⟨(b, k), mem_zipIdx_iff_getElem?.2 hk, ?_⟩⟩
  have hwhole := (h b hb).whole
  obtain ⟨block, start, deltas⟩ := b
  cases block <;> cases hbu
  exact mem_events.2 (.inl ⟨_, hwhole.1, rfl⟩)

theorem ResponseCut.fromStr_iff (hjs : js.Lawful) (h : ResponseCut js resp cuts)
    (hu : u ∈ cuts.filterMap (·.toolUse?)) : js.fromStr u.text = some u.input ↔ u.text ≠ "" := by
  obtain ⟨b, hb, hbu⟩ := mem_filterMap.1 hu
  have hwhole := (h.each b hb).whole
  obtain ⟨block, start, deltas⟩ := b
  cases block <;> cases hbu
  constructor
  · intro hread hempty
    rw [hempty, hjs.fromStr_empty] at hread
    cases hread
  · intro hne
    exact hwhole.2.resolve_right fun hnone => hne hnone.1

/-- The places of tool uses count up from the first block if the tool uses come
first. -/
theorem places_eq_range'_iff (cuts : List (BlockCut J)) (n : Nat) :
    ((cuts.zipIdx n).filterMap fun b => b.1.toolUse?.map fun _ => b.2)
        = range' n (cuts.filterMap (·.toolUse?)).length
      ↔ cuts.Pairwise fun a b => b.toolUse?.isSome → a.toolUse?.isSome := by
  induction cuts generalizing n with
  | nil => simp
  | cons b cuts ih =>
    rw [zipIdx_cons, pairwise_cons, filterMap_cons, filterMap_cons]
    cases hb : b.toolUse? with
    | some u =>
      simp [ih, range'_succ]
    | none =>
      cases hrest : cuts.filterMap (·.toolUse?) with
      | nil =>
        have hnone := filterMap_eq_nil_iff.1 hrest
        have hplaces : ((cuts.zipIdx (n + 1)).filterMap fun b =>
            b.1.toolUse?.map fun _ => b.2) = [] := by
          refine filterMap_eq_nil_iff.2 fun b' hb' => ?_
          rw [hnone b'.1 (fst_mem_of_mem_zipIdx hb')]
          rfl
        refine iff_of_true hplaces ⟨fun b' hb' hsome => ?_, (ih (n + 1)).1 ?_⟩
        · rw [hnone b' hb'] at hsome
          cases hsome
        · rw [hplaces, hrest]
          rfl
      | cons u us =>
        refine iff_of_false (fun heq => ?_) fun hfirst => ?_
        · have hn : n ∈ range' n (u :: us).length := by simp
          rw [← heq] at hn
          obtain ⟨b', hb', hk⟩ := mem_filterMap.1 hn
          obtain ⟨_, -, hk⟩ := Option.map_eq_some_iff.1 hk
          have hle := (mem_zipIdx_iff_le_and_getElem?_sub.1 hb').1
          omega
        · obtain ⟨b', hb', hu⟩ := mem_filterMap.1
            (hrest ▸ mem_cons_self : u ∈ cuts.filterMap (·.toolUse?))
          have hsome := hfirst.1 b' hb' (by rw [hu]; rfl)
          cases hsome

end Converse

-- ======== chat completions

namespace BedrockCompletions

open Completions

/-- The tool call that a block is, with the arguments written anew. -/
def wholeCall? (js : Serde J) : ContentBlock J → Option MessageToolCall
  | .toolUse id name input => (js.toString input).map fun args => ⟨id, ⟨name, args⟩⟩
  | _ => none

theorem foldl_collect (js : Serde J) (blocks : List (ContentBlock J))
    (acc : ConverseResponseAdapter.Collected) : blocks.foldl (collect js) acc = {
      content := (blocks.filterMap (·.text?)).getLast?.or acc.content
      reasoningContent := (blocks.filterMap (·.reasoning?)).getLast?.or acc.reasoningContent
      toolCalls := acc.toolCalls
        ++ (blocks.filterMap (wholeCall? js)).map MessageToolCalls.function } := by
  induction blocks using reverseRecOn with
  | nil => simp
  | append_singleton blocks b ih =>
    rw [foldl_concat, ih]
    cases b with
    | toolUse id name input =>
      simp only [collect]
      cases h : js.toString input <;>
        simp [wholeCall?, ContentBlock.text?, ContentBlock.reasoning?, h]
    | _ =>
      simp [collect, wholeCall?, ContentBlock.text?, ContentBlock.reasoning?]

theorem outcome_toCompletions (js : Serde J) (id : Strng) (a : ConverseResponseAdapter J) :
    (a.toCompletions js id).outcome = some {
      content := (a.message.filterMap (·.text?)).getLast?.getD ""
      reasoningContent := (a.message.filterMap (·.reasoning?)).getLast?.getD ""
      toolCalls := a.message.filterMap (wholeCall? js)
      finishReason := some (translateStopReason a.stopReason)
      usage := some ((a.usage.map toUsage).getD defaultUsage) } := by
  unfold toCompletions Response.outcome
  rw [foldl_collect]
  simp only [nil_append, Option.or_none, head?_cons, Option.map_some,
    MessageToolCalls.filterMap_function?]

theorem fromResponse_cut (h : ResponseCut js resp cuts) (model : Strng) :
    fromResponse resp model = .ok ⟨model, resp.stopReason, resp.usage, cuts.map (·.block)⟩ := by
  rw [fromResponse, h.output]

/-- A response, cut so, comes out the same: content, reasoning, tool calls whose
arguments are read as the same, with indexes counted from 0, finish reason and
usage. -/
def Agrees (js : Serde J) (id model : Strng) (resp : ConverseResponse J)
    (cuts : List (BlockCut J)) : Prop :=
  ∃ a whole, fromResponse resp model = .ok a
    ∧ (a.toCompletions js id).outcome = some whole
    ∧ Outcome.Same js (foldChunks (translateStream id model (cutStream resp cuts))).outcome whole
    ∧ (foldChunks (translateStream id model (cutStream resp cuts))).toolCalls.keys
      = (range whole.toolCalls.length).map UInt32.ofNat

/-- All texts but the last are empty, and so are all reasonings but the last; the
tool uses come first, and their input came as text; there is a usage. -/
structure Fits (resp : ConverseResponse J) (cuts : List (BlockCut J)) : Prop where
  texts : ∀ t ∈ ((cuts.map (·.block)).filterMap (·.text?)).dropLast, t = ""
  reasonings : ∀ t ∈ ((cuts.map (·.block)).filterMap (·.reasoning?)).dropLast, t = ""
  first : cuts.Pairwise fun a b => b.toolUse?.isSome → a.toolUse?.isSome
  inputs : ∀ u ∈ cuts.filterMap (·.toolUse?), u.text ≠ ""
  usage : resp.usage.isSome

theorem wholeCalls_eq (hjs : js.Lawful) (cuts : List (BlockCut J)) :
    (cuts.map (·.block)).filterMap (wholeCall? js) = (cuts.filterMap (·.toolUse?)).map fun u =>
        ⟨u.id, ⟨u.name, (js.toString u.input).getD ""⟩⟩ := by
  rw [filterMap_map, map_filterMap]
  refine filterMap_congr fun b _ => ?_
  rw [Function.comp_apply, BlockCut.toolUse?]
  cases hblock : b.block with
  | toolUse id name input =>
    obtain ⟨args, hargs⟩ := Option.isSome_iff_exists.1 (hjs.toString_isSome input)
    simp [wholeCall?, hargs]
  | _ => rfl

theorem fromStr_written (hjs : js.Lawful) (input : J) :
    js.fromStr ((js.toString input).getD "") = some input := by
  obtain ⟨args, hargs⟩ := Option.isSome_iff_exists.1 (hjs.toString_isSome input)
  rw [hargs]
  exact hjs.fromStr_toString input args hargs

/-- The places are those of 32-bit numbers, so counting is the same on both. -/
theorem keys_eq_iff (h : ResponseCut js resp cuts) :
    (tools cuts).map (fun t => UInt32.ofNat t.1)
        = (range (cuts.filterMap (·.toolUse?)).length).map UInt32.ofNat
      ↔ cuts.Pairwise fun a b => b.toolUse?.isSome → a.toolUse?.isSome := by
  have hplaces : (tools cuts).map Prod.fst
      = cuts.zipIdx.filterMap fun b => b.1.toolUse?.map fun _ => b.2 := by
    rw [tools, map_filterMap]
    refine filterMap_congr fun b _ => ?_
    rw [Option.map_map]
    rfl
  have hback : ∀ l : List Nat, (∀ k ∈ l, k < 2 ^ 31) →
      (l.map UInt32.ofNat).map UInt32.toNat = l := by
    intro l hl
    rw [map_map]
    refine (map_congr_left fun k hk => ?_).trans (map_id _)
    have hlt := hl k hk
    rw [Function.comp_apply, UInt32.toNat_ofNat', id]
    omega
  have hsplit : (tools cuts).map (fun t => UInt32.ofNat t.1)
      = ((tools cuts).map Prod.fst).map UInt32.ofNat := by
    rw [map_map]
    rfl
  rw [hsplit, ← places_eq_range'_iff cuts 0, ← hplaces, ← range_eq_range']
  constructor
  · intro heq
    have hnat := congrArg (map UInt32.toNat) heq
    rw [hback, hback] at hnat
    · exact hnat
    · intro k hk
      have hlt := mem_range.1 hk
      have hle := length_filterMap_le (fun b : BlockCut J => b.toolUse?) cuts
      have hplaces := h.places
      omega
    · intro k hk
      obtain ⟨t, ht, rfl⟩ := mem_map.1 hk
      exact Nat.lt_of_lt_of_le (lt_of_mem_tools ht) h.places
  · intro heq
    rw [heq]

theorem sameCalls_iff (hjs : js.Lawful) (h : ResponseCut js resp cuts) :
    ((cuts.filterMap (·.toolUse?)).map callOf).map
          (fun c => (c.id, c.function.name, js.fromStr c.function.arguments))
        = ((cuts.map (·.block)).filterMap (wholeCall? js)).map
          (fun c => (c.id, c.function.name, js.fromStr c.function.arguments))
      ↔ ∀ u ∈ cuts.filterMap (·.toolUse?), u.text ≠ "" := by
  rw [wholeCalls_eq hjs, map_map, map_map, map_inj_left]
  refine forall₂_congr fun u hu => ?_
  rw [← h.fromStr_iff hjs hu]
  simp [callOf, fromStr_written hjs]

theorem agrees_iff (hjs : js.Lawful) (h : ResponseCut js resp cuts)
    (id model : Strng) : Agrees js id model resp cuts ↔ Fits resp cuts := by
  have hst := streamed_translateStream h id model
  have hvalues : (foldChunks (translateStream id model (cutStream resp cuts))).toolCalls.values
      = (cuts.filterMap (·.toolUse?)).map callOf := by
    rw [AssocMap.values, hst.toolCalls, ← map_snd_tools, map_map, map_map]
    rfl
  have hkeys : (foldChunks (translateStream id model (cutStream resp cuts))).toolCalls.keys
      = (tools cuts).map fun t => UInt32.ofNat t.1 := by
    rw [AssocMap.keys, hst.toolCalls, map_map]
    rfl
  have hlength : ((cuts.map (·.block)).filterMap (wholeCall? js)).length
      = (cuts.filterMap (·.toolUse?)).length := by
    rw [wholeCalls_eq hjs, length_map]
  have husage : resp.usage.map toUsage = some ((resp.usage.map toUsage).getD defaultUsage)
      ↔ resp.usage.isSome := by
    cases resp.usage <;> simp
  constructor
  · rintro ⟨a, whole, ha, hwhole, hsame, hindexes⟩
    rw [fromResponse_cut h] at ha
    cases ha
    rw [outcome_toCompletions] at hwhole
    cases hwhole
    exact {
      texts := (join_eq_getLast_iff _).1 (hst.content.symm.trans hsame.content)
      reasonings := (join_eq_getLast_iff _).1 (hst.reasoning.symm.trans hsame.reasoningContent)
      first := (keys_eq_iff h).1 (by rw [← hkeys, ← hlength]; exact hindexes)
      inputs := (sameCalls_iff hjs h).1 (by rw [← hvalues]; exact hsame.toolCalls)
      usage := husage.1 (hst.usage.symm.trans hsame.usage) }
  · intro hfits
    refine ⟨_, _, fromResponse_cut h model, outcome_toCompletions js id _, ?_, ?_⟩
    · exact {
        content := hst.content.trans ((join_eq_getLast_iff _).2 hfits.texts)
        reasoningContent := hst.reasoning.trans ((join_eq_getLast_iff _).2 hfits.reasonings)
        toolCalls := by
          show (foldChunks _).toolCalls.values.map _ = _
          rw [hvalues]
          exact (sameCalls_iff hjs h).2 hfits.inputs
        finishReason := hst.finishReason
        usage := hst.usage.trans (husage.2 hfits.usage) }
    · rw [hkeys, (keys_eq_iff h).2 hfits.first, ← hlength]

end BedrockCompletions

-- ======== responses

namespace FromResponses

open Responses

/-- A response, cut so, comes out with the same items: the texts of the message,
and calls whose arguments are read as the same, with the same identifiers. -/
def Agrees (js : Serde J) (ids : Ids) (responseId messageId model : Strng)
    (resp : ConverseResponse J) (cuts : List (BlockCut J)) : Prop :=
  ∃ a, fromResponse resp model = .ok a
    ∧ (streamOutcome (translateStream ids model (cutStream resp cuts))).map (·.read js)
      = (a.toResponsesTyped js responseId messageId).2.map (·.outcome.read js)

/-- Something is said, by one block at most unless it is empty, and there is no
tool use. -/
structure Fits (cuts : List (BlockCut J)) : Prop where
  spoken : (cuts.map (·.block)).filterMap textPart ≠ []
  parts : (((cuts.map (·.block)).filterMap textPart).filter (· ≠ "")).length ≤ 1
  silent : cuts.filterMap (·.toolUse?) = []

/-- The items of the whole response. -/
def wholeItems (js : Serde J) (cuts : List (BlockCut J)) : List ItemOutcome :=
  (if (cuts.map (·.block)).filterMap textPart = [] then []
    else [.message (((cuts.map (·.block)).filterMap textPart).filter (· ≠ ""))])
  ++ (cuts.filterMap (·.toolUse?)).map fun u =>
    .functionCall u.id u.name ((js.toString u.input).getD "")

theorem outcome_toResponsesTyped (js : Serde J) (responseId messageId model : Strng)
    (reason : Converse.StopReason) (usage : Option TokenUsage) (cuts : List (BlockCut J)) :
    ((ConverseResponseAdapter.mk model reason usage (cuts.map (·.block))).toResponsesTyped
        js responseId messageId).2.map (·.outcome) = wholeItems js cuts := by
  have htools : (cuts.map (·.block)).filterMap (toolItem js)
      = (cuts.filterMap (·.toolUse?)).map fun u => .functionCall
        ⟨(js.toString u.input).getD "", u.id, u.name, some u.id, some .completed⟩ := by
    rw [filterMap_map, map_filterMap]
    refine filterMap_congr fun b _ => ?_
    rw [Function.comp_apply, BlockCut.toolUse?]
    cases b.block <;> rfl
  rw [toResponsesTyped, map_append, htools, map_map, wholeItems]
  simp only [List.isEmpty_iff]
  split <;> rfl

theorem agrees_iff_items (h : ResponseCut js resp cuts) (ids : Ids)
    (responseId messageId model : Strng) : Agrees js ids responseId messageId model resp cuts
      ↔ (streamOutcome (translateStream ids model (cutStream resp cuts))).map (·.read js)
        = (wholeItems js cuts).map (·.read js) := by
  have hadapter := BedrockCompletions.fromResponse_cut h model
  rw [← outcome_toResponsesTyped js responseId messageId model resp.stopReason resp.usage, map_map]
  constructor
  · rintro ⟨a, ha, heq⟩
    rw [hadapter] at ha
    cases ha
    exact heq
  · exact fun heq => ⟨_, hadapter, heq⟩

/-- Where there are tool uses, an identifier that none of them has may be drawn. -/
theorem exists_not_agrees (h : ResponseCut js resp cuts)
    (htools : cuts.filterMap (·.toolUse?) ≠ []) (responseId messageId model : Strng) :
    ∃ ids, ¬ Agrees js ids responseId messageId model resp cuts := by
  obtain ⟨callId, hfresh⟩ := Infinite.exists_notMem_finset
    ((cuts.filterMap (·.toolUse?)).map (·.id)).toFinset
  let ids : Ids := ⟨"", "", fun _ => callId⟩
  refine ⟨ids, fun hagrees => ?_⟩
  obtain ⟨u, hu⟩ := exists_mem_of_ne_nil _ htools
  obtain ⟨i, hstart⟩ := start_mem_cutEvents h.each hu
  have hids : ∀ n, ids.callId n = callId := fun _ => rfl
  obtain ⟨name, arguments, hcall⟩ :=
    call_mem_streamOutcome (fun _ => ofBlock_of_mem) hstart hids model
  have hmem : .inr (callId, name, js.fromStr arguments)
      ∈ (wholeItems js cuts).map (·.read js) := by
    rw [← (agrees_iff_items h ids responseId messageId model).1 hagrees]
    exact mem_map_of_mem hcall
  obtain ⟨item, hitem, heq⟩ := mem_map.1 hmem
  rcases mem_append.1 hitem with hitem | hitem
  · split at hitem
    · cases hitem
    · cases mem_singleton.1 hitem
      cases heq
  · obtain ⟨u, hu, rfl⟩ := mem_map.1 hitem
    have hid : u.id = callId := congrArg Prod.fst (Sum.inr.inj heq)
    exact hfresh (mem_toFinset.2 (mem_map.2 ⟨u, hu, hid⟩))

theorem agrees_iff (h : ResponseCut js resp cuts) (responseId messageId model : Strng) :
    (∀ ids, Agrees js ids responseId messageId model resp cuts) ↔ Fits cuts := by
  by_cases hsilent : cuts.filterMap (·.toolUse?) = []
  · have hplain : ∀ e ∈ cutEvents cuts, ofTool e = false := by
      intro e he
      obtain ⟨b, hb, i, he⟩ := exists_of_mem_cutEvents he
      exact (h.each b hb).ofTool_eq_false (filterMap_eq_nil_iff.1 hsilent b hb) he
    simp only [agrees_iff_items h, wholeItems, hsilent, map_nil, append_nil, cutStream,
      streamOutcome_silent (fun _ => ofBlock_of_mem) hplain, join_cutEvents h.each]
    by_cases hspoken : (cuts.map (·.block)).filterMap textPart = []
    · -- a stream has a message nevertheless
      rw [if_pos hspoken]
      exact iff_of_false (fun hall => by cases hall ⟨"", "", fun _ => ""⟩)
        fun hfits => hfits.spoken hspoken
    · rw [if_neg hspoken]
      constructor
      · intro hall
        have hread := (cons.inj (hall ⟨"", "", fun _ => ""⟩)).1
        exact ⟨hspoken, (join_eq_parts_iff _).1 (Sum.inl.inj hread), hsilent⟩
      · intro hfits _
        rw [(join_eq_parts_iff _).2 hfits.parts]
  · obtain ⟨ids, hnot⟩ := exists_not_agrees h hsilent responseId messageId model
    exact iff_of_false (fun hall => hnot (hall ids)) fun hfits => hsilent hfits.silent

end FromResponses

-- ======== result

namespace Converse

theorem toolInput_ne : ("[1]" : Strng) ≠ "" := by decide

/-- A tool use whose input comes in two pieces, and text. -/
def toolFirst : List (BlockCut JsonText) :=
  [⟨.toolUse "t" "f" ⟨"[1]", toolInput_ne⟩, some (some (.toolUse "t" "f")),
      [some (.toolUse "["), some (.toolUse "1]")]⟩,
    ⟨.text "hi", none, [some (.text "h"), some (.text "i")]⟩]

/-- The text first, as a model speaks. -/
def textFirst : List (BlockCut JsonText) := toolFirst.reverse

/-- The text alone. -/
def textOnly : List (BlockCut JsonText) := toolFirst.tail

def sampleResponse (cuts : List (BlockCut JsonText)) : ConverseResponse JsonText :=
  ⟨some (cuts.map (·.block)), .toolUse, some ⟨5, 2, 7, none, none⟩⟩

theorem toolFirst_each : ∀ b ∈ toolFirst, b.Cuts textSerde := by
  simp only [toolFirst, forall_mem_cons, not_mem_nil]
  refine ⟨⟨⟨rfl, .inl rfl⟩, ?_⟩, ⟨⟨by decide, rfl⟩, ?_⟩, nofun⟩
  · intro d hd
    rcases (by simpa using hd : _ ∨ _) with rfl | rfl <;> rfl
  · intro d hd
    rcases (by simpa using hd : _ ∨ _) with rfl | rfl <;> rfl

theorem toolFirst_cut : ResponseCut textSerde (sampleResponse toolFirst) toolFirst :=
  ⟨rfl, toolFirst_each, by decide⟩

theorem textFirst_cut : ResponseCut textSerde (sampleResponse textFirst) textFirst :=
  ⟨rfl, fun b hb => toolFirst_each b (mem_reverse.1 hb), by decide⟩

theorem textOnly_cut : ResponseCut textSerde (sampleResponse textOnly) textOnly :=
  ⟨rfl, fun b hb => toolFirst_each b (mem_of_mem_tail hb), by decide⟩

end Converse

end AgentGateway.Llm
