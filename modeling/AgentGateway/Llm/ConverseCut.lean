/-
A Converse response, cut into the events of a stream.

The events of a block come together, and the blocks one after another. Of each
block there is a start, which may be missing unless the block is a tool use,
deltas that put its content together, and a stop (`BlockCut`). A delta may be
empty, reasoning may be signed, and a tool use without input may come without
text.
-/
import AgentGateway.Llm.Conversion.Bedrock
import Mathlib.Algebra.Group.Nat.Defs
import Mathlib.Data.List.Induction

namespace AgentGateway.Llm.Converse

open List

variable {J : Type}

-- ======== pieces

namespace ContentBlockDelta

def text? : ContentBlockDelta → Option Strng
  | .text t => some t
  | _ => none

def reasoning? : ContentBlockDelta → Option Strng
  | .reasoningContent (.text t) => some t
  | _ => none

def input? : ContentBlockDelta → Option Strng
  | .toolUse input => some input
  | _ => none

end ContentBlockDelta

/-- The pieces of one kind, put together. -/
def joined (f : ContentBlockDelta → Option Strng)
    (deltas : List (Option ContentBlockDelta)) : Strng :=
  String.join (deltas.filterMap (·.bind f))

namespace ContentBlock

def text? : ContentBlock J → Option Strng
  | .text t => some t
  | _ => none

def reasoning? : ContentBlock J → Option Strng
  | .reasoningContent r => some r.text
  | _ => none

/-- The delta is one of the block. -/
def fits : ContentBlock J → ContentBlockDelta → Bool
  | .text _, .text _ => true
  | .reasoningContent _, .reasoningContent (.text _) => true
  | .reasoningContent _, .reasoningContent (.signature _) => true
  | .toolUse _ _ _, .toolUse _ => true
  | _, _ => false

end ContentBlock

-- ======== blocks

/-- A block, and what it is cut into. -/
structure BlockCut (J : Type) where
  block : ContentBlock J
  start : Option (Option ContentBlockStart)
  deltas : List (Option ContentBlockDelta)

/-- A tool use, with the text that its input came as. -/
structure ToolUse (J : Type) where
  id : Strng
  name : Strng
  input : J
  text : Strng

namespace BlockCut

/-- The events of the block at a place. -/
def events (index : Int32) (b : BlockCut J) : List ConverseStreamOutput :=
  b.start.toList.map (.contentBlockStart index)
    ++ (b.deltas.map (.contentBlockDelta index) ++ [.contentBlockStop index])

/-- The start and the content are those of the block. -/
def Whole (js : Serde J) (b : BlockCut J) : Prop :=
  match b.block with
  | .text t =>
    b.start ∈ [none, some none, some (some .text)] ∧ joined (·.text?) b.deltas = t
  | .reasoningContent r =>
    b.start ∈ [none, some none, some (some .reasoningContent)]
      ∧ joined (·.reasoning?) b.deltas = r.text
  | .toolUse id name input =>
    b.start = some (some (.toolUse id name)) ∧ (js.fromStr (joined (·.input?) b.deltas) = some input
        ∨ joined (·.input?) b.deltas = "" ∧ input = js.emptyObject)
  | _ => False

structure Cuts (js : Serde J) (b : BlockCut J) : Prop where
  whole : b.Whole js
  fits : ∀ d, some d ∈ b.deltas → b.block.fits d

def toolUse? (b : BlockCut J) : Option (ToolUse J) :=
  match b.block with
  | .toolUse id name input => some ⟨id, name, input, joined (·.input?) b.deltas⟩
  | _ => none

end BlockCut

/-- The response is cut into these blocks. Their places are 32-bit numbers. -/
structure ResponseCut (js : Serde J) (resp : ConverseResponse J)
    (cuts : List (BlockCut J)) : Prop where
  output : resp.output = some (cuts.map (·.block))
  each : ∀ b ∈ cuts, b.Cuts js
  places : cuts.length ≤ 2 ^ 31

def cutEvents (cuts : List (BlockCut J)) : List ConverseStreamOutput :=
  cuts.zipIdx.flatMap fun b => b.1.events (Int32.ofNat b.2)

def cutStream (resp : ConverseResponse J) (cuts : List (BlockCut J)) :
    List (Option ConverseStreamOutput) :=
  (converse (cutEvents cuts) resp.stopReason resp.usage).map some

-- ======== contents

section

variable {js : Serde J} {f g : ContentBlockDelta → Option Strng} {b : BlockCut J}

theorem joined_cons (d : Option ContentBlockDelta) (deltas : List (Option ContentBlockDelta)) :
    joined f (d :: deltas) = (d.bind f).getD "" ++ joined f deltas := by
  cases h : d.bind f <;> simp [joined, h]

variable (h : b.Cuts js)
include h

/-- Only the deltas that fit the block count. -/
theorem BlockCut.Cuts.joined_congr (hfg : ∀ d, b.block.fits d → f d = g d) :
    joined f b.deltas = joined g b.deltas := by
  refine congrArg String.join (filterMap_congr ?_)
  rintro (_ | d) hd
  · rfl
  · exact hfg d (h.fits d hd)

theorem BlockCut.Cuts.joined_eq_empty (hf : ∀ d, b.block.fits d → f d = none) :
    joined f b.deltas = "" := by
  rw [h.joined_congr hf]
  simp [joined]

theorem BlockCut.Cuts.joined_text : joined (·.text?) b.deltas = b.block.text?.getD "" := by
  obtain ⟨block, start, deltas⟩ := b
  cases block with
  | text t => exact h.whole.2
  | _ => exact h.joined_eq_empty fun d hfits => by cases d <;> first | rfl | cases hfits

theorem BlockCut.Cuts.joined_reasoning :
    joined (·.reasoning?) b.deltas = b.block.reasoning?.getD "" := by
  obtain ⟨block, start, deltas⟩ := b
  cases block with
  | reasoningContent r => exact h.whole.2
  | _ => exact h.joined_eq_empty fun d hfits => by cases d <;> first | rfl | cases hfits

end

-- ======== tool uses

/-- The tool uses among blocks, with their places. -/
def tools (cuts : List (BlockCut J)) : List (Nat × ToolUse J) :=
  cuts.zipIdx.filterMap fun b => b.1.toolUse?.map (b.2, ·)

theorem tools_concat (cuts : List (BlockCut J)) (b : BlockCut J) :
    tools (cuts ++ [b]) = tools cuts ++ (b.toolUse?.map (cuts.length, ·)).toList := by
  rw [tools, zipIdx_append, filterMap_append, tools]
  cases h : b.toolUse? <;> simp [h]

theorem map_snd_tools (cuts : List (BlockCut J)) :
    (tools cuts).map Prod.snd = cuts.filterMap (·.toolUse?) := by
  induction cuts using reverseRecOn with
  | nil => rfl
  | append_singleton cuts b ih =>
    rw [tools_concat, map_append, ih, filterMap_append]
    cases h : b.toolUse? <;> simp [h]

theorem lt_of_mem_tools {cuts : List (BlockCut J)} {t : Nat × ToolUse J} (h : t ∈ tools cuts) :
    t.1 < cuts.length := by
  obtain ⟨b, hb, ht⟩ := mem_filterMap.1 h
  obtain ⟨u, -, rfl⟩ := Option.map_eq_some_iff.1 ht
  exact snd_lt_of_mem_zipIdx hb

end AgentGateway.Llm.Converse
