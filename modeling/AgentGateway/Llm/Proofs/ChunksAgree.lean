/-
A Chat Completions response comes out the same for a Messages client,
whether it is translated as a whole or as a stream.

The response is cut into chunks (`Cutting`). The pieces that the chunks
carry are text and then tool calls, one after another; the finish reason
comes no earlier than the last piece, and the usage whenever it likes. The
client puts the events it gets together (`Messages.foldEvents`).

The translator is followed with what is left of the pieces (`Left`). Text
goes to the first block. A tool call is at first kept back
(`InTool.waiting`) and from its name on has a block, the last one
(`InTool.opened`). The chunks then only add when the message ends: with the
chunk that completes the finish reason and the usage, or at `[DONE]`.

# Where the two part

A block starts with the id that is known when the name comes, and gets one
made of the index of the call if there is none (`shownId`). A response that was
filtered is a refusal in a stream, and the end of a turn as a whole.
-/
import AgentGateway.Llm.Proofs.StreamOrder

namespace AgentGateway.Llm.FromMessages

open Lib Lib.Emitter Messages List AssocMap
open Completions hiding Outcome

variable {J : Type}

-- ======== cutting

inductive Piece
  | text (text : Strng)
  | tool (chunk : ToolCallChunk)

/-- What a chunk carries, in the order in which it is translated. -/
def pieces (f : StreamResponse) : List Piece :=
  match f.choices.head? with
  | some choice =>
    choice.delta.content.toList.map .text ++ (choice.delta.toolCalls.getD []).map .tool
  | none => []

def finish? (f : StreamResponse) : Option FinishReason :=
  f.choices.head?.bind (·.finishReason)

def name? (chunk : ToolCallChunk) : Option Strng :=
  chunk.function.bind (·.name)

def arguments? (chunk : ToolCallChunk) : Option Strng :=
  chunk.function.bind (·.arguments)

/-- A tool call and the deltas it is cut into. -/
structure ToolGroup where
  index : UInt32
  call : MessageToolCall
  deltas : List ToolCallChunk

/-- Its id and its name come, once or more often, and its arguments come
in pieces. -/
structure ToolGroup.Cuts (g : ToolGroup) : Prop where
  index : ∀ d ∈ g.deltas, d.index = g.index
  id : ∀ d ∈ g.deltas, ∀ id ∈ d.id, id = g.call.id
  id_comes : ∃ d ∈ g.deltas, d.id.isSome
  name : ∀ d ∈ g.deltas, ∀ name ∈ name? d, name = g.call.function.name
  name_comes : ∃ d ∈ g.deltas, (name? d).isSome
  arguments : String.join (g.deltas.filterMap arguments?) = g.call.function.arguments

/-- The deltas up to the first that has a name. -/
def ToolGroup.known (g : ToolGroup) : List ToolCallChunk :=
  g.deltas.take (g.deltas.findIdx (name? · |>.isSome) + 1)

/-- The id that a call gets if none is known. -/
def ToolGroup.fallbackId (g : ToolGroup) : Strng := "tool_call_" ++ toString g.index.toNat

/-- The id is known when the name comes, or is the one that the call gets
otherwise. -/
def ToolGroup.IdFirst (g : ToolGroup) : Prop :=
  (∃ d ∈ g.known, d.id.isSome) ∨ g.call.id = g.fallbackId

structure ChunkCutting where
  texts : List Strng
  tools : List ToolGroup
  chunks : List StreamResponse

structure ChunkCutting.Cuts (js : Serde J) (c : ChunkCutting) (resp : Response)
    (choice : ChatChoice) : Prop where
  choices : resp.choices = [choice]
  /-- text before tool calls, the deltas of one call together -/
  pieces : c.chunks.flatMap pieces = c.texts.map .text ++ (c.tools.flatMap (·.deltas)).map .tool
  text : String.join c.texts = choice.message.content.getD ""
  calls : choice.message.toolCalls.getD [] = c.tools.map (.function ·.call)
  groups : ∀ g ∈ c.tools, g.Cuts
  distinct : (c.tools.map (·.index)).Nodup
  valid : ∀ g ∈ c.tools, (js.fromStr g.call.function.arguments).isSome
  /-- the finish reason comes, and no piece after it -/
  finish : ∀ f ∈ c.chunks, ∀ r ∈ finish? f, choice.finishReason = some r
  finish_comes : choice.finishReason.isSome → ∃ f ∈ c.chunks, (finish? f).isSome
  finish_last : c.chunks.Pairwise fun f g =>
    (finish? f).isSome → FromMessages.pieces g = []
  /-- the usage comes -/
  usage : ∀ f ∈ c.chunks, ∀ u ∈ f.usage, resp.usage = some u
  usage_comes : resp.usage.isSome → ∃ f ∈ c.chunks, f.usage.isSome

-- ======== the translator

/-- The state of the translator, and the blocks the client has. -/
def Here (s₀ : StreamState) (blocks : IndexMap Nat (Messages.Part J)) (s : StreamState)
    (out : List (MessagesStreamEvent J)) : Prop :=
  s = s₀ ∧ (foldEvents out).blocks = blocks

variable {s₀ s₁ : StreamState} {blocks : IndexMap Nat (Messages.Part J)} {α : Type}

theorem here_get {f : StreamState → Translate J α}
    {R : α → StreamState → List (MessagesStreamEvent J) → Prop}
    (h : Triple (Here s₀ blocks) (f s₀) R) : Triple (Here s₀ blocks) (get >>= f) R := by
  refine triple_get fun s => ?_
  rintro _ out ⟨rfl, rfl, hblocks⟩
  exact h _ out ⟨rfl, hblocks⟩

theorem here_set : Triple (Here s₀ blocks) (set s₁ : Translate J PUnit) fun _ => Here s₁ blocks :=
  triple_set fun _ _ h => ⟨rfl, h.2⟩

theorem here_pushEvent (e : MessagesStreamEvent J) {blocks' : IndexMap Nat (Messages.Part J)}
    (h : ∀ acc : Assembled J, acc.blocks = blocks → (acc.add e).blocks = blocks') :
    Triple (Here s₀ blocks) (pushEvent e) fun _ => Here s₀ blocks' := by
  refine triple_emit fun s out hs => ⟨hs.1, ?_⟩
  rw [foldEvents_concat]
  exact h _ hs.2

theorem here_closeTextBlock : Triple (Here s₀ blocks) closeTextBlock
    fun _ => Here { s₀ with textBlockIndex := none } blocks := by
  refine here_get ?_
  cases htext : s₀.textBlockIndex with
  | none =>
    refine triple_pure ?_
    rintro _ out ⟨rfl, hblocks⟩
    exact ⟨by rw [← htext], hblocks⟩
  | some i => exact triple_bind here_set fun _ => here_pushEvent _ fun _ h => h

variable {i : Nat} {d : ToolCallChunk} {g : ToolGroup} {seen ds : List ToolCallChunk}
  {s : StreamState} {parts : List (Messages.Part J)} {js : Serde J}

/-- The text of the input goes to the block, if there is any. -/
def addJson (blocks : IndexMap Nat (Messages.Part J)) (index : Nat) (json : Strng) :
    IndexMap Nat (Messages.Part J) :=
  if json.isEmpty then blocks
  else blocks.modify index (·.add (.inputJsonDelta json))

theorem here_json (index : Nat) (json : Strng) : Triple (Here s₀ blocks)
      (if json.isEmpty then pure ()
        else pushEvent (.contentBlockDelta index (.inputJsonDelta json)))
      fun _ => Here s₀ (addJson blocks index json) := by
  unfold addJson
  split
  · exact triple_pure fun _ _ h => h
  · exact here_pushEvent _ fun _ h => h ▸ rfl

/-- What is known of a tool call with one delta more. -/
def entryWith (s : StreamState) (d : ToolCallChunk) : PendingToolCall :=
  ((s.pendingToolCalls.get? d.index).getD ⟨none, none, ""⟩).add d

theorem here_onToolCall_wait (js : Serde J) (hname : (entryWith s₀ d).name = none) :
    Triple (Here s₀ blocks) (onToolCall js d) fun _ => Here { s₀ with
      pendingToolCalls := s₀.pendingToolCalls.insert d.index (entryWith s₀ d) }
      blocks := by
  refine here_get ?_
  dsimp only
  rw [← entryWith, hname]
  exact here_set

variable {name : Strng} {used : List UInt32} {t : UInt32}

theorem here_onToolCall_new (js : Serde J)
    (hname : (entryWith s₀ d).name = some name) (hindex : s₀.toolBlockIndices.get? d.index = none)
    (hopen : s₀.openToolBlocks.contains d.index = false) :
    Triple (Here s₀ blocks) (onToolCall js d) fun _ => Here { s₀ with
        pendingToolCalls := s₀.pendingToolCalls.insert d.index
          { entryWith s₀ d with pendingJson := "" }
        textBlockIndex := none
        nextBlockIndex := s₀.nextBlockIndex + 1
        toolBlockIndices := s₀.toolBlockIndices.insert d.index s₀.nextBlockIndex
        openToolBlocks := s₀.openToolBlocks.insert d.index () }
      (addJson (blocks.insert s₀.nextBlockIndex (.toolUse
        ((entryWith s₀ d).id.getD ("tool_call_" ++ toString d.index.toNat)) name
        js.emptyObject "")) s₀.nextBlockIndex (entryWith s₀ d).pendingJson) := by
  refine here_get ?_
  dsimp only
  rw [← entryWith, hname]
  simp only [openToolBlock, toolBlockIndex, startToolBlock, bind_assoc]
  refine triple_bind here_set fun _ => triple_bind here_closeTextBlock fun _ => here_get ?_
  simp only [hindex, bind_assoc, pure_bind]
  refine triple_bind here_set fun _ => here_get ?_
  rw [if_neg (by simp [hopen]), bind_assoc]
  exact triple_bind here_set fun _ =>
    triple_bind (here_pushEvent _ fun _ h => h ▸ rfl) fun _ => here_json _ _

theorem here_onToolCall_old (js : Serde J)
    (hname : (entryWith s₀ d).name = some name) (hindex : s₀.toolBlockIndices.get? d.index = some i)
    (hopen : s₀.openToolBlocks.contains d.index) :
    Triple (Here s₀ blocks) (onToolCall js d) fun _ => Here { s₀ with
        pendingToolCalls := s₀.pendingToolCalls.insert d.index
          { entryWith s₀ d with pendingJson := "" }
        textBlockIndex := none }
      (addJson blocks i (entryWith s₀ d).pendingJson) := by
  refine here_get ?_
  dsimp only
  rw [← entryWith, hname]
  simp only [openToolBlock, toolBlockIndex, startToolBlock, bind_assoc]
  refine triple_bind here_set fun _ => triple_bind here_closeTextBlock fun _ => here_get ?_
  simp only [hindex, pure_bind]
  refine here_get ?_
  rw [if_pos hopen]
  exact here_json _ _

-- ======== pieces

/-- What the translator keeps for the end of the message. -/
structure Status where
  started : Bool
  stopped : Bool
  reason : Option StopReason
  usage : Option Completions.Usage

def StreamState.status (s : StreamState) : Status :=
  ⟨s.sentMessageStart, s.sentMessageStop, s.pendingStopReason, s.pendingUsage⟩

def StreamState.withStatus (s : StreamState) (status : Status) : StreamState :=
  { s with
    sentMessageStart := status.started
    sentMessageStop := status.stopped
    pendingStopReason := status.reason
    pendingUsage := status.usage }

/-- The status, and what holds of the state without it and of the blocks of
the client. -/
def Apart (P : StreamState → IndexMap Nat (Messages.Part J) → Prop) (status : Status)
    (s : StreamState) (out : List (MessagesStreamEvent J)) : Prop :=
  s.status = status ∧ P (s.withStatus ⟨false, false, none, none⟩) (foldEvents out).blocks

/-- The blocks of the client are numbered, and the translator knows of no
tool calls but some. -/
structure Parts (used : List UInt32) (parts : List (Messages.Part J))
    (s : StreamState) (blocks : IndexMap Nat (Messages.Part J)) : Prop where
  numbered : Numbered (fun i => i) blocks parts
  next : s.nextBlockIndex = parts.length
  fresh : ∀ t ∉ used, s.toolBlockIndices.get? t = none
    ∧ s.openToolBlocks.get? t = none ∧ s.pendingToolCalls.get? t = none

/-- What is known of a tool call after some of its deltas, with all of its
arguments. -/
def entryOf (seen : List ToolCallChunk) : PendingToolCall :=
  seen.foldl PendingToolCall.add ⟨none, none, ""⟩

theorem entryOf_concat (seen : List ToolCallChunk) (d : ToolCallChunk) :
    entryOf (seen ++ [d]) = (entryOf seen).add d :=
  foldl_concat ..

theorem foldl_orElse {β : Type} {f : α → Option β} {v : β} {l : List α}
    (h : ∀ a ∈ l, ∀ b ∈ f a, b = v) : l.foldl (fun acc a => f a <|> acc) none
      = if l.any (fun a => (f a).isSome) then some v else none := by
  induction l using reverseRecOn with
  | nil => rfl
  | append_singleton l a ih =>
    rw [foldl_concat, ih fun a ha => h a (mem_append_left _ ha)]
    cases hf : f a with
    | none => simp [hf]
    | some b =>
      rw [h a (mem_append_right _ (mem_singleton_self a)) b hf]
      simp [hf]

theorem entryOf_eq (seen : List ToolCallChunk) : entryOf seen = {
      id := seen.foldl (fun acc d => d.id <|> acc) none
      name := seen.foldl (fun acc d => name? d <|> acc) none
      pendingJson := String.join (seen.filterMap arguments?) } := by
  induction seen using reverseRecOn with
  | nil => rfl
  | append_singleton seen d ih =>
    rw [entryOf_concat, ih, foldl_concat, foldl_concat, filterMap_append, String.join_append]
    refine congrArg (PendingToolCall.mk _ _) (congrArg _ ?_)
    show (arguments? d).getD "" = _
    cases h : arguments? d <;> simp [h]

theorem ToolGroup.Cuts.entry_id (h : g.Cuts) (hsplit : g.deltas = seen ++ ds) :
    (entryOf seen).id = if seen.any (·.id.isSome) then some g.call.id else none := by
  rw [entryOf_eq]
  exact foldl_orElse fun d hd =>
    h.id d (hsplit ▸ mem_append_left _ hd)

theorem ToolGroup.Cuts.entry_name (h : g.Cuts) (hsplit : g.deltas = seen ++ ds) :
    (entryOf seen).name
      = if seen.any (name? · |>.isSome) then some g.call.function.name else none := by
  rw [entryOf_eq]
  exact foldl_orElse fun d hd =>
    h.name d (hsplit ▸ mem_append_left _ hd)

/-- The id that the block of a call starts with. -/
def ToolGroup.shownId (g : ToolGroup) : Strng := (entryOf g.known).id.getD g.fallbackId

theorem ToolGroup.Cuts.shownId_eq_iff (h : g.Cuts) : g.shownId = g.call.id ↔ g.IdFirst := by
  have hsplit : g.deltas = g.known ++ g.deltas.drop _ := (take_append_drop _ _).symm
  rw [shownId, h.entry_id hsplit, IdFirst, ← any_eq_true]
  cases g.known.any (·.id.isSome) with
  | true => simp
  | false => simp [eq_comm]

/-- In the middle of a tool call. -/
inductive InTool (js : Serde J) (used : List UInt32)
    (parts : List (Messages.Part J)) (g : ToolGroup) (seen : List ToolCallChunk)
    (s : StreamState) (blocks : IndexMap Nat (Messages.Part J)) : Prop
  /-- its name is not known yet -/
  | waiting (hparts : Parts (used ++ [g.index]) parts s blocks)
      (hname : (entryOf seen).name = none)
      (hpending : (s.pendingToolCalls.get? g.index).getD ⟨none, none, ""⟩ = entryOf seen)
      (hindex : s.toolBlockIndices.get? g.index = none)
      (hopen : s.openToolBlocks.contains g.index = false)
  /-- it has the last block -/
  | opened (hparts : Parts (used ++ [g.index])
        (parts ++ [.toolUse g.shownId g.call.function.name js.emptyObject
          (entryOf seen).pendingJson]) s blocks)
      (hname : (entryOf seen).name.isSome)
      (hpending : s.pendingToolCalls.get? g.index = some { entryOf seen with pendingJson := "" })
      (hindex : s.toolBlockIndices.get? g.index = some parts.length)
      (hopen : s.openToolBlocks.contains g.index)

theorem Parts.pend (h : Parts used parts s blocks) (ht : t ∈ used) (entry : PendingToolCall) :
    Parts used parts { s with pendingToolCalls := s.pendingToolCalls.insert t entry } blocks := by
  refine { h with fresh := fun t' ht' => ?_ }
  have hne : t' ≠ t := fun heq => ht' (heq ▸ ht)
  rw [get?_insert_ne _ _ hne]
  exact h.fresh t' ht'

theorem Parts.closeText (h : Parts used parts s blocks) :
    Parts used parts { s with textBlockIndex := none } blocks :=
  { h with }

theorem Parts.openTool (h : Parts used parts s blocks)
    (ht : t ∈ used) (part : Messages.Part J) : Parts used (parts ++ [part]) { s with
        nextBlockIndex := s.nextBlockIndex + 1
        toolBlockIndices := s.toolBlockIndices.insert t s.nextBlockIndex
        openToolBlocks := s.openToolBlocks.insert t () }
      (blocks.insert s.nextBlockIndex part) where
  numbered := by
    rw [h.next]
    exact h.numbered.insert_next (h.numbered.get?_next fun i hi heq => absurd heq (by omega)) part
  next := by rw [length_append, h.next]; rfl
  fresh t' ht' := by
    have hne : t' ≠ t := fun heq => ht' (heq ▸ ht)
    rw [get?_insert_ne _ _ hne, get?_insert_ne _ _ hne]
    exact h.fresh t' ht'

theorem Parts.json {id json : Strng} {input : J}
    (h : Parts used (parts ++ [.toolUse id name input json]) s blocks) (more : Strng) :
    Parts used (parts ++ [.toolUse id name input (json ++ more)]) s
      (addJson blocks parts.length more) where
  numbered := by
    unfold addJson
    split
    · next hempty =>
      rw [String.isEmpty_iff.1 hempty, String.append_empty]
      exact h.numbered
    · exact h.numbered.modify_last (fun i hi heq => absurd heq (by omega)) _
  next := by rw [h.next]; simp
  fresh := h.fresh

variable {status : Status} {c : ChunkCutting} {rest : List Piece} {started : Bool}
  {done : List ToolGroup}

theorem triple_of_here {m : Translate J α}
    {P Q : StreamState → IndexMap Nat (Messages.Part J) → Prop}
    (h : ∀ s blocks, P (s.withStatus ⟨false, false, none, none⟩) blocks →
      ∃ s' blocks', Triple (Here s blocks) m (fun _ => Here s' blocks')
        ∧ s'.status = s.status ∧ Q (s'.withStatus ⟨false, false, none, none⟩) blocks') :
    Triple (Apart P status) m fun _ => Apart Q status := by
  rintro s out ⟨hstatus, hP⟩
  obtain ⟨s', blocks', hm, hstatus', hQ⟩ := h s _ hP
  obtain ⟨hs, hblocks⟩ := hm s out ⟨rfl, rfl⟩
  rw [Apart, hs, hblocks]
  exact ⟨hstatus'.trans hstatus, hQ⟩

theorem ToolGroup.Cuts.known_eq (h : g.Cuts) (hsplit : g.deltas = seen ++ d :: ds)
    (hnone : (entryOf seen).name = none) (hsome : (entryOf (seen ++ [d])).name.isSome) :
    g.known = seen ++ [d] := by
  have hsplit' : g.deltas = (seen ++ [d]) ++ ds := by simp [hsplit]
  rw [h.entry_name hsplit] at hnone
  rw [h.entry_name hsplit'] at hsome
  have hseen : ¬ ∃ e ∈ seen, (name? e).isSome := by
    rw [← any_eq_true]
    intro hany
    simp [hany] at hnone
  have hd : (name? d).isSome := by
    simpa [any_eq_true, hseen] using hsome
  have hidx : g.deltas.findIdx (name? · |>.isSome) = seen.length := by
    have hnot : seen.findIdx (name? · |>.isSome) = seen.length :=
      findIdx_eq_length.2 fun e he => Bool.eq_false_iff.2 fun h => hseen ⟨e, he, h⟩
    simp [hsplit, findIdx_append, hnot, findIdx_cons, hd]
  rw [known, hidx, hsplit']
  exact take_left' length_append

theorem triple_inTool (js : Serde J)
    (hcuts : g.Cuts) (hsplit : g.deltas = seen ++ d :: ds) :
    Triple (Apart (InTool js used parts g seen) status) (onToolCall js d)
      fun _ => Apart (InTool js used parts g (seen ++ [d])) status := by
  have hd : d.index = g.index := hcuts.index d (by simp [hsplit])
  have hsplit' : g.deltas = (seen ++ [d]) ++ ds := by simp [hsplit]
  have hused : d.index ∈ used ++ [g.index] := by simp [hd]
  refine triple_of_here fun s blocks h => ?_
  cases h with
  | waiting hparts hname hpending hindex hopen =>
    rw [← hd] at hpending hindex hopen
    dsimp only [StreamState.withStatus] at hpending hindex hopen
    have hentry : entryWith s d = entryOf (seen ++ [d]) := by
      rw [entryWith, hpending, entryOf_concat]
    cases hname' : (entryOf (seen ++ [d])).name with
    | none =>
      refine ⟨_, _, here_onToolCall_wait js (hentry ▸ hname'), rfl,
        .waiting (hparts.pend hused _) hname' ?_ (hd ▸ hindex) (hd ▸ hopen)⟩
      simp only [StreamState.withStatus, ← hd, get?_insert_self, hentry]
      rfl
    | some name =>
      have hsome : (entryOf (seen ++ [d])).name.isSome := by
        rw [hname']
        rfl
      have hcall : name = g.call.function.name := by
        have := hcuts.entry_name hsplit'
        split at this <;> simp_all
      have hid : (entryOf (seen ++ [d])).id.getD ("tool_call_" ++ toString d.index.toNat)
          = g.shownId := by
        rw [ToolGroup.shownId, hcuts.known_eq hsplit hname hsome, hd]
        rfl
      have hnext : s.nextBlockIndex = parts.length := hparts.next
      subst hcall
      refine ⟨_, _, here_onToolCall_new js (hentry ▸ hname') (by exact hindex)
        (by exact hopen), rfl, .opened ?_ hsome ?_ ?_ ?_⟩
      · have hnew := ((hparts.pend hused { entryWith s d with pendingJson := "" }
          ).openTool hused (.toolUse g.shownId g.call.function.name
            js.emptyObject "")).closeText.json (entryWith s d).pendingJson
        rw [hentry, hid] at *
        rw [hparts.next] at hnew
        rw [hnext]
        exact hnew
      · simp only [StreamState.withStatus, ← hd, get?_insert_self, hentry]
      · simp only [StreamState.withStatus, ← hd, get?_insert_self, hnext]
      · rw [← hd]
        exact contains_insert.2 (.inl rfl)
  | opened hparts hname hpending hindex hopen =>
    rw [← hd] at hpending hindex hopen
    dsimp only [StreamState.withStatus] at hpending hindex hopen
    have hentry : entryWith s d = { entryOf (seen ++ [d]) with
        pendingJson := (arguments? d).getD "" } := by
      rw [entryWith, hpending, entryOf_concat]
      simp [PendingToolCall.add, arguments?]
    have hsome : (entryOf (seen ++ [d])).name.isSome := by
      rw [entryOf_concat]
      cases hchunk : name? d <;> simp_all [PendingToolCall.add, name?]
    obtain ⟨name, hname'⟩ := Option.isSome_iff_exists.1 hsome
    refine ⟨_, _, here_onToolCall_old js (by rw [hentry, hname']) (by exact hindex)
      (by exact hopen), rfl, .opened ?_ hsome ?_ (hd ▸ hindex) (hd ▸ hopen)⟩
    · have hmore := (hparts.pend hused { entryWith s d with pendingJson := "" }
        ).closeText.json (entryWith s d).pendingJson
      have hjson : (entryOf (seen ++ [d])).pendingJson
          = (entryOf seen).pendingJson ++ (entryWith s d).pendingJson := by
        rw [hentry, entryOf_concat]
        rfl
      rw [hjson]
      exact hmore
    · simp only [StreamState.withStatus, ← hd, get?_insert_self, hentry]

-- ======== text

theorem openBlocks_eq_nil (h : ∀ t, s.openToolBlocks.contains t = false) : openBlocks s = [] := by
  refine eq_nil_iff_forall_not_mem.2 ?_
  rintro ⟨t, i⟩ hmem
  have hopen := (mem_openBlocks.1 hmem).1
  rw [h t] at hopen
  cases hopen

theorem here_onContent_new (htext : s₀.textBlockIndex = none)
    (hopen : ∀ t, s₀.openToolBlocks.contains t = false) (text : Strng) :
    Triple (Here s₀ blocks) (onContent text) fun _ => Here { s₀ with
        nextBlockIndex := s₀.nextBlockIndex + 1
        textBlockIndex := some s₀.nextBlockIndex }
      ((blocks.insert s₀.nextBlockIndex (.text "")).modify s₀.nextBlockIndex
        (·.add (.textDelta text))) := by
  simp only [onContent, openTextBlock, closeAllToolBlocks, bind_assoc]
  refine here_get ?_
  simp only [htext, bind_assoc]
  refine here_get ?_
  simp only [openBlocks_eq_nil hopen, forM_eq_forM, forM_nil, pure_bind]
  refine here_get ?_
  refine triple_bind here_set fun _ => triple_bind (here_pushEvent _ fun _ h =>
    congrArg (·.insert s₀.nextBlockIndex (.text "")) h) fun _ => ?_
  exact here_pushEvent _ fun _ h => h ▸ rfl

theorem here_onContent_old (htext : s₀.textBlockIndex = some i) (text : Strng) :
    Triple (Here s₀ blocks) (onContent text)
      fun _ => Here s₀ (blocks.modify i (·.add (.textDelta text))) := by
  simp only [onContent, openTextBlock, bind_assoc]
  refine here_get ?_
  simp only [htext, pure_bind]
  exact here_pushEvent _ fun _ h => h ▸ rfl

/-- Some text has come, and nothing else. -/
inductive TextSofar (sofar : Strng) (s : StreamState)
    (blocks : IndexMap Nat (Messages.Part J)) : Prop
  | none (hparts : Parts [] [] s blocks) (htext : s.textBlockIndex = none) (hsofar : sofar = "")
  | some (hparts : Parts [] [.text sofar] s blocks) (htext : s.textBlockIndex = some 0)

theorem triple_textSofar (status : Status) (sofar text : Strng) :
    Triple (Apart (J := J) (TextSofar sofar) status) (onContent text)
      fun _ => Apart (TextSofar (sofar ++ text)) status := by
  refine triple_of_here fun s blocks h => ?_
  cases h with
  | none hparts htext hsofar =>
    have hopen : ∀ t, s.openToolBlocks.contains t = false := by
      intro t
      rw [AssocMap.contains, show s.openToolBlocks.get? t = none from
        (hparts.fresh t not_mem_nil).2.1]
      rfl
    have hnext : s.nextBlockIndex = 0 := hparts.next
    refine ⟨_, _, here_onContent_new (by exact htext) hopen text, rfl,
      .some ?_ (congrArg some hnext)⟩
    rw [hnext, hsofar]
    refine ⟨?_, rfl, hparts.fresh⟩
    exact (hparts.numbered.insert_next (hparts.numbered.get?_next (by simp))
      (.text "")).modify_last (l := []) (by simp) _
  | some hparts htext =>
    refine ⟨_, _, here_onContent_old (by exact htext) text, rfl, .some ?_ htext⟩
    exact ⟨hparts.numbered.modify_last (l := []) (by simp) _, hparts.next, hparts.fresh⟩

-- ======== what is left

/-- A tool call as it is read, under some id. -/
def ToolGroup.read (js : Serde J) (id : ToolGroup → Strng) (g : ToolGroup) :
    Strng × Strng × Option J :=
  (id g, g.call.function.name, js.fromStr g.call.function.arguments)

/-- The blocks of the client read as the text and the tool calls. -/
def Reads (js : Serde J) (text : Strng) (tools : List ToolGroup)
    (parts : List (Messages.Part J)) : Prop :=
  String.join (parts.filterMap (·.text?)) = text
    ∧ parts.filterMap (·.toolUse? js) = tools.map (·.read js ToolGroup.shownId)

theorem TextSofar.reads (js : Serde J) {sofar : Strng} (h : TextSofar sofar s blocks) :
    ∃ parts, Parts [] parts s blocks ∧ Reads js sofar [] parts := by
  cases h with
  | none hparts _ hsofar => exact ⟨[], hparts, by rw [hsofar]; rfl, rfl⟩
  | some hparts _ => exact ⟨_, hparts, by simp [Part.text?], rfl⟩

/-- The pieces that are left, at a state of the translator. -/
inductive Left (js : Serde J) (c : ChunkCutting) :
    List Piece → StreamState → IndexMap Nat (Messages.Part J) → Prop
  | text {s : StreamState} {blocks : IndexMap Nat (Messages.Part J)} (sofar : Strng)
      (texts : List Strng) (h : TextSofar sofar s blocks)
      (htext : sofar ++ String.join texts = String.join c.texts) :
      Left js c (texts.map .text ++ (c.tools.flatMap (·.deltas)).map .tool) s blocks
  | tool {s : StreamState} {blocks : IndexMap Nat (Messages.Part J)}
      (done later : List ToolGroup) (g : ToolGroup)
      (seen ds : List ToolCallChunk) (parts : List (Messages.Part J))
      (htools : c.tools = done ++ g :: later) (hsplit : g.deltas = seen ++ ds)
      (hreads : Reads js (String.join c.texts) done parts)
      (h : InTool js (done.map (·.index)) parts g seen s blocks) :
      Left js c ((ds ++ later.flatMap (·.deltas)).map .tool) s blocks

/-- The pieces that are left, and the status. -/
abbrev LeftAt (js : Serde J) (c : ChunkCutting) (status : Status) (rest : List Piece) :
    StreamState → List (MessagesStreamEvent J) → Prop :=
  Apart (Left js c rest) status

/-- What is asked of the tool calls. -/
structure ToolsOk (js : Serde J) (tools : List ToolGroup) : Prop where
  groups : ∀ g ∈ tools, g.Cuts
  distinct : (tools.map (·.index)).Nodup
  arguments : ∀ g ∈ tools, g.call.function.arguments ≠ ""

theorem ToolGroup.Cuts.deltas_ne_nil (h : g.Cuts) : g.deltas ≠ [] := by
  obtain ⟨d, hd, -⟩ := h.name_comes
  exact ne_nil_of_mem hd

theorem InTool.begin (h : Parts used parts s blocks) (hnew : g.index ∉ used) :
    InTool js used parts g [] s blocks := by
  obtain ⟨hindex, hopen, hpending⟩ := h.fresh g.index hnew
  refine .waiting ⟨h.numbered, h.next, fun t ht => h.fresh t fun hmem =>
    ht (mem_append_left _ hmem)⟩ rfl ?_ hindex ?_
  · rw [hpending]
    rfl
  · rw [AssocMap.contains, hopen]
    rfl

theorem InTool.complete {text : Strng}
    (h : InTool js (done.map (·.index)) parts g g.deltas s blocks)
    (hcuts : g.Cuts) (hargs : g.call.function.arguments ≠ "") (hreads : Reads js text done parts) :
    ∃ parts', Parts ((done ++ [g]).map (·.index)) parts' s blocks
      ∧ Reads js text (done ++ [g]) parts' := by
  cases h with
  | waiting _ hname _ _ _ =>
    rw [hcuts.entry_name (append_nil _).symm] at hname
    obtain ⟨d, hd, hsome⟩ := hcuts.name_comes
    rw [if_pos (any_eq_true.2 ⟨d, hd, hsome⟩)] at hname
    cases hname
  | opened hparts _ _ _ _ =>
    rw [entryOf_eq, hcuts.arguments] at hparts
    refine ⟨_, by simpa using hparts, ?_, ?_⟩
    · rw [filterMap_append, String.join_append, hreads.1]
      simp [Part.text?]
    · rw [filterMap_append, hreads.2]
      simp [Part.toolUse?, ToolGroup.read, hargs]

theorem next_group (hc : ToolsOk js c.tools) {later : List ToolGroup}
    (htools : c.tools = done ++ later) (h : Parts (done.map (·.index)) parts s blocks)
    {rest : List ToolCallChunk} (hnext : later.flatMap (·.deltas) = d :: rest) :
    ∃ g later' ds, later = g :: later' ∧ g.deltas = d :: ds ∧ rest = ds ++ later'.flatMap (·.deltas)
      ∧ InTool js (done.map (·.index)) parts g [] s blocks := by
  cases later with
  | nil => cases hnext
  | cons g later' =>
    have hg : g ∈ c.tools := by simp [htools]
    obtain ⟨d', ds, hds⟩ := exists_cons_of_ne_nil (hc.groups g hg).deltas_ne_nil
    rw [flatMap_cons, hds] at hnext
    cases hnext
    refine ⟨g, later', ds, rfl, hds, rfl, InTool.begin h ?_⟩
    have hnodup := hc.distinct
    rw [htools, map_append] at hnodup
    exact fun hmem => (nodup_append.1 hnodup).2.2 _ hmem _ mem_cons_self rfl

theorem Left.tool_inv (hc : ToolsOk js c.tools) (h : Left js c (.tool d :: rest) s blocks) :
    ∃ done later g seen ds parts, c.tools = done ++ g :: later ∧ g.deltas = seen ++ d :: ds
      ∧ rest = (ds ++ later.flatMap (·.deltas)).map .tool
      ∧ Reads js (String.join c.texts) done parts
      ∧ InTool js (done.map (·.index)) parts g seen s blocks := by
  generalize hpieces : Piece.tool d :: rest = ps at h
  cases h with
  | text sofar texts h htext =>
    cases texts with
    | cons => cases hpieces
    | nil =>
      rw [String.join_nil, String.append_empty] at htext
      obtain ⟨d, rest', hflat, heq, rfl⟩ := map_eq_cons_iff.1 hpieces.symm
      cases heq
      obtain ⟨parts, hparts, hreads⟩ := h.reads js
      rw [htext] at hreads
      have hall : c.tools = [] ++ c.tools := rfl
      obtain ⟨g, later, ds, htools, hds, rfl, hin⟩ := next_group hc hall hparts hflat
      exact ⟨[], later, g, [], ds, parts, htools, hds, rfl, hreads, hin⟩
  | tool done later g seen ds parts htools hsplit hreads h =>
    have hg : g ∈ c.tools := by simp [htools]
    cases ds with
    | cons d' ds =>
      cases hpieces
      exact ⟨done, later, g, seen, ds, parts, htools, hsplit, rfl, hreads, h⟩
    | nil =>
      obtain ⟨d, rest', hflat, heq, rfl⟩ := map_eq_cons_iff.1 hpieces.symm
      cases heq
      rw [append_nil] at hsplit
      subst hsplit
      obtain ⟨parts', hparts, hreads'⟩ := h.complete (hc.groups g hg) (hc.arguments g hg) hreads
      have htools' : c.tools = (done ++ [g]) ++ later := by simp [htools]
      obtain ⟨g', later', ds, rfl, hds, rfl, hin⟩ := next_group hc htools' hparts hflat
      exact ⟨done ++ [g], later', g', [], ds, parts', htools', hds, rfl, hreads', hin⟩

theorem triple_left_tool (hc : ToolsOk js c.tools) (d : ToolCallChunk) (rest : List Piece) :
    Triple (LeftAt js c status (.tool d :: rest)) (onToolCall js d)
      fun _ => LeftAt js c status rest := by
  rintro s out ⟨hstatus, h⟩
  obtain ⟨done, later, g, seen, ds, parts, htools, hsplit, rfl, hreads, hin⟩ := h.tool_inv hc
  have hg : g ∈ c.tools := by simp [htools]
  have hstep := triple_inTool js (hc.groups g hg) hsplit s out ⟨hstatus, hin⟩
  exact ⟨hstep.1, .tool done later g (seen ++ [d]) ds parts htools (by simp [hsplit])
    hreads hstep.2⟩

theorem triple_left_text (text : Strng) (rest : List Piece) :
    Triple (LeftAt js c status (.text text :: rest)) (onContent text)
      fun _ => LeftAt js c status rest := by
  rintro s out ⟨hstatus, h⟩
  generalize hpieces : Piece.text text :: rest = ps at h
  cases h with
  | tool done later g seen ds parts htools hsplit hreads h =>
    obtain ⟨d, rest', -, heq, -⟩ := map_eq_cons_iff.1 hpieces.symm
    cases heq
  | text sofar texts h htext =>
    cases texts with
    | nil =>
      obtain ⟨d, rest', -, heq, -⟩ := map_eq_cons_iff.1 hpieces.symm
      cases heq
    | cons text' texts =>
      cases hpieces
      have hstep := triple_textSofar status sofar text s out ⟨hstatus, h⟩
      refine ⟨hstep.1, .text (sofar ++ text) texts hstep.2 ?_⟩
      rw [← htext, String.join_cons, String.append_assoc]

theorem Left.complete (hc : ToolsOk js c.tools) (h : Left js c [] s blocks) :
    Reads js (String.join c.texts) c.tools blocks.values := by
  generalize hpieces : ([] : List Piece) = ps at h
  cases h with
  | text sofar texts h htext =>
    obtain ⟨htexts, htools⟩ := append_eq_nil_iff.1 hpieces.symm
    rw [map_eq_nil_iff] at htexts htools
    have hnil : c.tools = [] := by
      refine eq_nil_iff_forall_not_mem.2 fun g hg => ?_
      exact (hc.groups g hg).deltas_ne_nil (flatMap_eq_nil_iff.1 htools g hg)
    rw [htexts, String.join_nil, String.append_empty] at htext
    obtain ⟨parts, hparts, hreads⟩ := h.reads js
    rw [hnil, ← htext, hparts.numbered.values]
    exact hreads
  | tool done later g seen ds parts htools hsplit hreads h =>
    have hg : g ∈ c.tools := by simp [htools]
    obtain ⟨rfl, hlater⟩ := append_eq_nil_iff.1 (map_eq_nil_iff.1 hpieces.symm)
    have hnil : later = [] := by
      refine eq_nil_iff_forall_not_mem.2 fun g' hg' => ?_
      refine (hc.groups g' ?_).deltas_ne_nil (flatMap_eq_nil_iff.1 hlater g' hg')
      simp [htools, hg']
    rw [append_nil] at hsplit
    subst hsplit hnil
    obtain ⟨parts', hparts, hreads'⟩ := h.complete (hc.groups g hg) (hc.arguments g hg) hreads
    rw [hparts.numbered.values, htools]
    exact hreads'

-- ======== status

theorem triple_left_status {m : Translate J Unit} {f : Status → Status}
    (hm : ∀ s (blocks : IndexMap Nat (Messages.Part J)), Triple (Here s blocks) m
      fun _ => Here (s.withStatus (f s.status)) blocks) :
    Triple (LeftAt js c status rest) m fun _ => LeftAt js c (f status) rest := by
  rintro s out ⟨rfl, h⟩
  obtain ⟨hs, hblocks⟩ := hm s _ s out ⟨rfl, rfl⟩
  rw [LeftAt, Apart, hs, hblocks]
  exact ⟨rfl, h⟩

theorem triple_left_start (f : StreamResponse) : Triple (LeftAt js c status rest) (startMessage f)
      fun _ => LeftAt js c { status with started := true } rest := by
  refine triple_left_status (f := fun st => { st with started := true }) fun s blocks => here_get ?_
  cases hstart : s.sentMessageStart with
  | true =>
    refine triple_pure ?_
    rintro _ out ⟨rfl, hblocks⟩
    exact ⟨by rw [← hstart]; rfl, hblocks⟩
  | false => exact triple_bind here_set fun _ => here_pushEvent _ fun _ h => h

theorem triple_left_usage (usage : Option Completions.Usage) :
    Triple (LeftAt js c status rest) (usage.forM fun usage =>
        modify fun state => { state with pendingUsage := some usage })
      fun _ => LeftAt js c { status with usage := usage <|> status.usage } rest := by
  cases usage with
  | none => exact triple_pure fun _ _ h => h
  | some usage =>
    refine triple_modify ?_
    rintro _ out ⟨rfl, hblocks⟩
    exact ⟨rfl, hblocks⟩

theorem triple_left_finish (finishReason : Option FinishReason) :
    Triple (LeftAt js c status rest) (finishReason.forM fun finishReason => modify fun state =>
          { state with pendingStopReason := some (streamStopReason finishReason) })
      fun _ => LeftAt js c { status with
        reason := finishReason.map streamStopReason <|> status.reason } rest := by
  cases finishReason with
  | none => exact triple_pure fun _ _ h => h
  | some finishReason =>
    refine triple_modify ?_
    rintro _ out ⟨rfl, hblocks⟩
    exact ⟨rfl, hblocks⟩

theorem triple_left_choice (hc : ToolsOk js c.tools) (choice : ChatChoiceStream) :
    Triple (LeftAt js c status (choice.delta.content.toList.map .text
        ++ (choice.delta.toolCalls.getD []).map .tool ++ rest)) (onChoice js choice)
      fun _ => LeftAt js c { status with
        reason := choice.finishReason.map streamStopReason <|> status.reason } rest := by
  refine triple_bind (Q := fun _ => LeftAt js c status
    ((choice.delta.toolCalls.getD []).map .tool ++ rest))
    ?_ fun _ => ?_
  · cases choice.delta.content with
    | none => exact triple_pure fun _ _ h => h
    | some content => exact triple_left_text content _
  · refine triple_bind (triple_forM (fun ds => LeftAt js c status (ds.map .tool ++ rest)) _
      fun d ds => triple_left_tool hc d _) fun _ => ?_
    exact triple_left_finish choice.finishReason

-- ======== end of the message

/-- What the client has in the end, with some ids of the tool calls. -/
def expected (js : Serde J) (c : ChunkCutting) (id : ToolGroup → Strng) (stopReason : StopReason)
    (usage : Option Completions.Usage) : Outcome J where
  text := String.join c.texts
  toolUses := c.tools.map (·.read js id)
  stopReason := some stopReason
  inputTokens := (usage.map (·.promptTokens.toUInt64)).getD 0
  outputTokens := (usage.map (·.completionTokens.toUInt64)).getD 0

/-- The end of the message has been sent. -/
structure Finished (js : Serde J) (outcome : Outcome J) (started : Bool)
    (s : StreamState) (out : List (MessagesStreamEvent J)) : Prop where
  outcome : (foldEvents out).outcome js = outcome
  started : s.sentMessageStart = started
  stopped : s.sentMessageStop

theorem left_get {f : StreamState → Translate J Unit}
    {R : Unit → StreamState → List (MessagesStreamEvent J) → Prop}
    (h : ∀ s, s.status = status → Triple (LeftAt js c status rest) (f s) R) :
    Triple (LeftAt js c status rest) (get >>= f) R := by
  refine triple_get fun s => ?_
  rintro _ out ⟨rfl, hleft⟩
  exact h _ hleft.1 _ out hleft

/-- The client has these blocks, and the message has begun or not. -/
def Having (blocks : IndexMap Nat (Messages.Part J)) (started : Bool) (s : StreamState)
    (out : List (MessagesStreamEvent J)) : Prop :=
  (foldEvents out).blocks = blocks ∧ s.sentMessageStart = started

theorem having_closeAllToolBlocks :
    Triple (Having blocks started) closeAllToolBlocks fun _ => Having blocks started := by
  refine triple_get fun s => ?_
  refine triple_mono (triple_forM (fun _ => Having blocks started) (openBlocks s) ?_)
    (fun _ _ h => h.2) fun _ _ _ h => h
  rintro ⟨t, i⟩ _
  refine triple_emit_modify fun _ out h => ⟨?_, h.2⟩
  rw [foldEvents_concat]
  exact h.1

theorem having_finish (hreads : Reads js (String.join c.texts) c.tools blocks.values)
    (stopReason : StopReason) (usage : Option Completions.Usage) :
    Triple (Having blocks started) (flushMessageEnd.finish stopReason usage)
      fun _ => Finished js (expected js c (·.shownId) stopReason usage) started := by
  refine triple_keep (triple_modify fun _ _ h => h) fun _ => ?_
  refine triple_keep ?_ fun _ => ?_
  · rintro s out ⟨hblocks, hstarted⟩
    obtain ⟨hs, hblocks'⟩ := here_closeTextBlock s out ⟨rfl, hblocks⟩
    exact ⟨hblocks', by rw [hs]; exact hstarted⟩
  refine triple_bind having_closeAllToolBlocks fun _ => ?_
  refine triple_bind (Q := fun _ s out => s.sentMessageStart = started
    ∧ (foldEvents out).outcome js = expected js c (·.shownId) stopReason usage)
    (triple_emit ?_) fun _ => ?_
  · rintro s out ⟨rfl, hstarted⟩
    refine ⟨hstarted, ?_⟩
    rw [foldEvents_concat, expected, ← hreads.1, ← hreads.2]
    rfl
  · refine triple_emit_modify fun s out h => ⟨?_, h.1, rfl⟩
    rw [foldEvents_concat]
    exact h.2

theorem triple_left_end (hc : ToolsOk js c.tools) (stopReason : StopReason)
    (usage : Option Completions.Usage) :
    Triple (LeftAt js c status []) (flushMessageEnd.finish stopReason usage)
      fun _ => Finished js (expected js c (·.shownId) stopReason usage) status.started :=
  fun s out h => having_finish (h.2.complete hc) stopReason usage s out
    ⟨rfl, congrArg Status.started h.1⟩

theorem triple_left_done (hc : ToolsOk js c.tools) (started : Bool)
    (stopReason : Option StopReason) (usage : Option Completions.Usage) :
    Triple (LeftAt js c ⟨started, false, stopReason, usage⟩ []) (flushMessageEnd true)
      fun _ =>
        Finished js (expected js c (·.shownId) (stopReason.getD .endTurn) usage) started := by
  refine left_get fun s hs => ?_
  injection hs with _ hstop hreason husage
  rw [if_neg (by simp [hstop]), hreason, husage]
  cases stopReason with
  | none => exact triple_left_end hc .endTurn usage
  | some stopReason =>
    cases usage with
    | none => exact triple_left_end hc stopReason none
    | some usage => exact triple_left_end hc stopReason (some usage)

-- ======== runs

/-- One value comes with some of the chunks, besides what has come. -/
structure Awaits {α : Type} (get : StreamResponse → Option α) (v : Option α)
    (chunks : List StreamResponse) (now : Option α) : Prop where
  same : ∀ f ∈ chunks, ∀ a ∈ get f, v = some a
  now_eq : now = none ∨ now = v
  comes : v.isSome → now = none → ∃ f ∈ chunks, (get f).isSome

variable {f : StreamResponse} {usage : Option Completions.Usage} {chunks : List StreamResponse}
  {reason : Option StopReason} {get : StreamResponse → Option α} {U : Option Completions.Usage}
  {R : Option StopReason} {choice : ChatChoice} {resp : Response}

theorem Awaits.next {v now : Option α} (h : Awaits get v (f :: chunks) now) :
    Awaits get v chunks (get f <|> now) where
  same g hg := h.same g (mem_cons_of_mem _ hg)
  now_eq := by
    cases hf : get f with
    | none => exact h.now_eq
    | some a => exact .inr (h.same f mem_cons_self a hf).symm
  comes hv hnone := by
    rw [Option.orElse_eq_orElse, Option.orElse_eq_or, Option.or_eq_none_iff] at hnone
    simpa [hnone.1] using h.comes hv hnone.2

theorem Awaits.complete {v now : Option α} (h : Awaits get v [] now) : now = v := by
  refine h.now_eq.elim (fun hnone => ?_) id
  cases v with
  | none => exact hnone
  | some a =>
    obtain ⟨f, hf, -⟩ := h.comes rfl hnone
    cases hf

def reason? (f : StreamResponse) : Option StopReason := (finish? f).map streamStopReason

/-- What is still to come of the finish reason and the usage, besides what
has come. -/
structure Coming (R : Option StopReason) (U : Option Completions.Usage)
    (chunks : List StreamResponse) (reason : Option StopReason)
    (usage : Option Completions.Usage) : Prop where
  awaits_reason : Awaits reason? R chunks reason
  awaits_usage : Awaits (·.usage) U chunks usage
  last : chunks.Pairwise fun f g => (reason? f).isSome → pieces g = []
  quiet : reason.isSome → ∀ f ∈ chunks, pieces f = []

theorem Coming.next (h : Coming R U (f :: chunks) reason usage) :
    Coming R U chunks (reason? f <|> reason) (f.usage <|> usage) where
  awaits_reason := h.awaits_reason.next
  awaits_usage := h.awaits_usage.next
  last := (pairwise_cons.1 h.last).2
  quiet hsome := by
    cases hf : reason? f with
    | some r => exact fun g hg => (pairwise_cons.1 h.last).1 g hg (by simp [hf])
    | none =>
      rw [hf] at hsome
      exact fun g hg => h.quiet hsome g (mem_cons_of_mem _ hg)

section Run

variable {outcome : Outcome J}

/-- The client has in the end what it is to have. -/
inductive Translating (js : Serde J) (c : ChunkCutting) (R : Option StopReason)
    (U : Option Completions.Usage) : List SseJsonEvent → StreamState →
    List (MessagesStreamEvent J) → Prop
  | pieces {chunks : List StreamResponse} {started : Bool}
      {reason : Option StopReason} {usage : Option Completions.Usage}
      {s : StreamState} {out : List (MessagesStreamEvent J)}
      (hcoming : Coming R U chunks reason usage)
      (h : LeftAt js c ⟨started, false, reason, usage⟩ (chunks.flatMap pieces) s out) :
      Translating js c R U (chunks.map .data ++ [.done]) s out
  | finished {chunks : List StreamResponse} {s : StreamState}
      {out : List (MessagesStreamEvent J)}
      (hquiet : ∀ f ∈ chunks, FromMessages.pieces f = [])
      (h : Finished js (expected js c (·.shownId) (R.getD .endTurn) U) true s out) :
      Translating js c R U (chunks.map .data ++ [.done]) s out
  | done {s : StreamState} {out : List (MessagesStreamEvent J)}
      (h : (foldEvents out).outcome js = expected js c (·.shownId) (R.getD .endTurn) U) :
      Translating js c R U [] s out

theorem triple_left_chunk (hc : ToolsOk js c.tools) (f : StreamResponse)
    {Q : Unit → StreamState → List (MessagesStreamEvent J) → Prop}
    (hstatus : status = ⟨true, false, reason? f <|> reason, f.usage <|> usage⟩)
    (hflush : ∀ s : StreamState, s.status = status → Triple (LeftAt js c status rest)
      (if s.pendingStopReason.isSome && s.pendingUsage.isSome then flushMessageEnd false
        else pure ()) Q) : Triple (LeftAt js c ⟨started, false, reason, usage⟩ (pieces f ++ rest))
      (onEvent js (.data f)) Q := by
  subst hstatus
  refine triple_bind (triple_left_start f) fun _ => ?_
  refine triple_bind (triple_left_usage f.usage) fun _ => ?_
  refine triple_bind ?_ fun _ => left_get hflush
  unfold pieces reason? finish?
  cases f.choices.head? with
  | none => exact triple_pure fun _ _ h => h
  | some choice => exact triple_left_choice hc choice

theorem triple_finished_flush (force : Bool) :
    Triple (Finished js outcome started) (flushMessageEnd force)
      fun _ => Finished js outcome started := by
  refine triple_get fun s => ?_
  split
  · exact triple_pure fun _ _ h => h.2
  · next hstop =>
    rintro _ out ⟨rfl, h⟩
    exact absurd h.stopped hstop

theorem triple_finished_chunk (hquiet : pieces f = []) :
    Triple (Finished js outcome true) (onEvent js (.data f)) fun _ => Finished js outcome true := by
  refine triple_keep (triple_get fun s => ?_) fun _ => ?_
  · split
    · exact triple_pure fun _ _ h => h.2
    · next hstart =>
      rintro _ out ⟨rfl, h⟩
      exact absurd h.started hstart
  refine triple_keep ?_ fun _ => ?_
  · cases f.usage with
    | none => exact triple_pure fun _ _ h => h
    | some usage =>
      exact triple_modify fun _ _ h => { h with }
  refine triple_keep ?_ fun _ => ?_
  · unfold pieces at hquiet
    cases hchoice : f.choices.head? with
    | none => exact triple_pure fun _ _ h => h
    | some choice =>
      rw [hchoice] at hquiet
      obtain ⟨hcontent, htools⟩ := append_eq_nil_iff.1 hquiet
      exact triple_onChoice_quiet js (by simpa using hcontent) (by simpa using htools)
        fun _ _ _ h => { h with }
  refine triple_get fun s => ?_
  split
  · exact triple_mono (triple_finished_flush false) (fun _ _ h => h.2) fun _ _ _ h => h
  · exact triple_pure fun _ _ h => h.2

theorem triple_pieces_chunk (hc : ToolsOk js c.tools)
    (hcoming : Coming R U (f :: chunks) reason usage) :
    Triple (LeftAt js c ⟨started, false, reason, usage⟩ (pieces f ++ chunks.flatMap pieces))
      (onEvent js (.data f)) fun _ => Translating js c R U (chunks.map .data ++ [.done]) := by
  refine triple_left_chunk hc f rfl fun s hs => ?_
  have hnext := hcoming.next
  injection hs with _ _ hreason husage
  rw [hreason, husage]
  generalize (reason? f <|> reason) = reason' at hnext ⊢
  generalize (f.usage <|> usage) = usage' at hnext ⊢
  cases reason' with
  | none => exact triple_pure fun _ _ h => .pieces hnext h
  | some r =>
    cases usage' with
    | none => exact triple_pure fun _ _ h => .pieces hnext h
    | some u =>
      -- both are there, and no pieces are left
      have hquiet := hnext.quiet rfl
      have hR := hnext.awaits_reason.now_eq.resolve_left nofun
      have hU := hnext.awaits_usage.now_eq.resolve_left nofun
      rw [flatMap_eq_nil_iff.2 hquiet]
      refine left_get fun s hs => ?_
      injection hs with _ hstop hreason husage
      rw [if_neg (by simp [hstop]), hreason, husage]
      refine triple_mono (triple_left_end hc r (some u))
        (fun _ _ h => h) fun _ _ _ h => .finished hquiet ?_
      rw [← hR, ← hU]
      exact h

theorem triple_translating (hc : ToolsOk js c.tools) (x : SseJsonEvent) (rest : List SseJsonEvent) :
    Triple (Translating js c R U (x :: rest)) (onEvent js x)
      fun _ => Translating js c R U rest := by
  intro s out h
  generalize hxs : x :: rest = xs at h
  cases h with
  | pieces hcoming h =>
    next chunks started reason usage =>
    cases chunks with
    | nil =>
      cases hxs
      obtain rfl := hcoming.awaits_reason.complete
      obtain rfl := hcoming.awaits_usage.complete
      exact .done (triple_left_done hc started _ _ s out h).outcome
    | cons f chunks =>
      cases hxs
      exact triple_pieces_chunk hc hcoming s out h
  | finished hquiet h =>
    next chunks =>
    cases chunks with
    | nil =>
      cases hxs
      exact .done (triple_finished_flush true _ _ h).outcome
    | cons f chunks =>
      cases hxs
      obtain ⟨hf, hchunks⟩ := forall_mem_cons.1 hquiet
      exact .finished hchunks (triple_finished_chunk hf _ _ h)
  | done h => cases hxs

end Run

-- ======== agree

theorem outcome_translateStream (hcut : c.Cuts js resp choice) (hc : ToolsOk js c.tools) :
    (foldEvents (translateStream js (c.chunks.map .data ++ [.done]))).outcome js
      = expected js c (·.shownId) ((choice.finishReason.map streamStopReason).getD .endTurn)
        resp.usage := by
  have hstart : LeftAt js c ⟨false, false, none, none⟩ (c.chunks.flatMap pieces)
      StreamState.default [] := by
    rw [hcut.pieces]
    exact ⟨rfl, .text "" c.texts
      (.none ⟨rfl, rfl, fun _ _ => ⟨rfl, rfl, rfl⟩⟩ rfl rfl) String.empty_append⟩
  have hcoming : Coming (choice.finishReason.map streamStopReason) resp.usage c.chunks
      none none := {
    awaits_reason := {
      same := fun f hf _ hr => by
        obtain ⟨r, hfinish, rfl⟩ := Option.map_eq_some_iff.1 hr
        rw [hcut.finish f hf r hfinish]
        rfl
      now_eq := .inl rfl
      comes := fun hR _ => by
        simpa [reason?] using hcut.finish_comes (by simpa using hR) }
    awaits_usage := ⟨hcut.usage, .inl rfl, fun hU _ => hcut.usage_comes hU⟩
    last := by simpa [reason?] using hcut.finish_last
    quiet := nofun }
  have hrun := runAll_triple _ (triple_translating hc) _ (.pieces hcoming hstart)
  generalize hxs : ([] : List SseJsonEvent) = xs at hrun
  cases hrun with
  | pieces | finished => simp at hxs
  | done h => exact h

theorem outcome_translateResponse (hcut : c.Cuts js resp choice) :
    ∃ whole, translateResponseInternal js resp = .ok whole ∧
      whole.outcome = expected js c (·.call.id)
        ((choice.finishReason.map translateFinishReason).getD .endTurn) resp.usage := by
  unfold translateResponseInternal
  rw [hcut.choices]
  refine ⟨_, rfl, ?_⟩
  have htext : ((c.tools.map (MessageToolCalls.function ·.call)).filterMap
      (translateToolCall js)).filterMap (·.text?) = [] := by
    simp [filterMap_map, Function.comp_def, translateToolCall, ContentBlock.text?]
  have htools : ((c.tools.map (MessageToolCalls.function ·.call)).filterMap
      (translateToolCall js)).filterMap (·.toolUse?) = c.tools.map (·.read js (·.call.id)) := by
    rw [filterMap_filterMap, filterMap_map, ← filterMap_eq_map']
    refine filterMap_congr fun g hg => ?_
    obtain ⟨input, hinput⟩ := Option.isSome_iff_exists.1 (hcut.valid g hg)
    simp [translateToolCall, ContentBlock.toolUse?, ToolGroup.read, hinput]
  simp only [MessagesResponse.outcome, expected, hcut.calls, filterMap_append,
    htext, htools, hcut.text]
  cases choice.message.content <;> simp [ContentBlock.text?, ContentBlock.toolUse?]

/-- A response, cut so, comes out the same. -/
def AgreesOn (js : Serde J) (resp : Response) (c : ChunkCutting) : Prop :=
  ∃ whole, translateResponseInternal js resp = .ok whole
    ∧ (foldEvents (translateStream js (c.chunks.map .data ++ [.done]))).outcome js = whole.outcome

/-- The two tell a finish reason alike, unless it is that of a filter. -/
theorem stopReason_eq_iff (r : Option FinishReason) :
    (r.map streamStopReason).getD .endTurn = (r.map translateFinishReason).getD .endTurn
      ↔ r ≠ some .contentFilter := by
  rcases r with _ | r
  · exact iff_of_true rfl nofun
  · cases r with
    | contentFilter => exact iff_of_false nofun fun h => h rfl
    | _ => exact iff_of_true rfl nofun

/-- A response comes out the same if it was not filtered and the id of each
tool call is known when its name comes, and in no other case. -/
theorem chunks_as_whole (js : Serde J) (hjs : js.Lawful) (resp : Response)
    (choice : ChatChoice) (c : ChunkCutting) (hcut : c.Cuts js resp choice) :
    AgreesOn js resp c
      ↔ choice.finishReason ≠ some .contentFilter ∧ ∀ g ∈ c.tools, g.IdFirst := by
  have hc : ToolsOk js c.tools := {
    groups := hcut.groups
    distinct := hcut.distinct
    arguments := fun g hg hempty => by
      have hvalid := hcut.valid g hg
      rw [hempty, hjs.fromStr_empty] at hvalid
      cases hvalid }
  have hids : c.tools.map (·.read js ToolGroup.shownId) = c.tools.map (·.read js (·.call.id))
      ↔ ∀ g ∈ c.tools, g.IdFirst := by
    rw [map_inj_left]
    refine forall₂_congr fun g hg => ?_
    rw [← (hcut.groups g hg).shownId_eq_iff]
    simp [ToolGroup.read]
  obtain ⟨whole, hwhole, houtcome⟩ := outcome_translateResponse hcut
  have hstream := outcome_translateStream hcut hc
  constructor
  · rintro ⟨whole', hwhole', heq⟩
    cases hwhole.symm.trans hwhole'
    rw [hstream, houtcome] at heq
    exact ⟨(stopReason_eq_iff _).1 (Option.some.inj (congrArg Outcome.stopReason heq)),
      hids.1 (congrArg Outcome.toolUses heq)⟩
  · rintro ⟨hfiltered, hfirst⟩
    refine ⟨whole, hwhole, ?_⟩
    rw [hstream, houtcome, expected, hids.2 hfirst, (stopReason_eq_iff _).2 hfiltered]
    rfl

def sampleChoice (finishReason : FinishReason) : ChatChoice :=
  ⟨⟨some "ab", some [.function ⟨"a", ⟨"f", "[1]"⟩⟩], none⟩, some finishReason⟩

def sampleUsage : Completions.Usage := ⟨1, 2, 3, none, none, none, none⟩

def sampleResponse (finishReason : FinishReason) : Response :=
  ⟨"chatcmpl-1", [sampleChoice finishReason], "m", none, some sampleUsage⟩

/-- The deltas of the tool call. The id comes with the name, or late. -/
def sampleDeltas (late : Bool) : List ToolCallChunk :=
  if late then [⟨0, none, some ⟨some "f", some "[1]"⟩⟩, ⟨0, some "a", none⟩]
  else [⟨0, some "a", some ⟨some "f", none⟩⟩, ⟨0, none, some ⟨none, some "[1"⟩⟩,
    ⟨0, none, some ⟨none, some "]"⟩⟩]

/-- Two chunks of text, one for each delta of the tool call, one for the
finish reason and one for the usage. -/
def sampleChunks (late : Bool) (finishReason : FinishReason) : ChunkCutting where
  texts := ["a", "b"]
  tools := [⟨0, ⟨"a", ⟨"f", "[1]"⟩⟩, sampleDeltas late⟩]
  chunks := [textChunk "a", textChunk "b"]
    ++ (sampleDeltas late).map (fun d => chunkOf { toolCalls := some [d] })
    ++ [chunkOf {} (some finishReason), ⟨"chatcmpl-1", [], "m", none, some sampleUsage⟩]

theorem cuts_sampleChunks (late : Bool) (finishReason : FinishReason) :
    (sampleChunks late finishReason).Cuts textSerde
      (sampleResponse finishReason) (sampleChoice finishReason) where
  choices := rfl
  pieces := by cases late <;> rfl
  text := rfl
  calls := rfl
  groups := by
    simp only [sampleChunks, forall_mem_singleton]
    cases late <;> exact ⟨by decide, by decide, by decide, by decide, by decide, rfl⟩
  distinct := by simp [sampleChunks]
  valid := by
    simp only [sampleChunks, forall_mem_singleton]
    rfl
  finish := by cases late <;> cases finishReason <;> decide
  finish_comes := by cases late <;> cases finishReason <;> decide
  finish_last := by cases late <;> cases finishReason <;> decide
  usage := by cases late <;> cases finishReason <;> decide
  usage_comes := by cases late <;> cases finishReason <;> decide

/-- A response that was filtered, and an id that comes late. -/
theorem chunks_unlike_whole : ¬ (∀ resp choice (c : ChunkCutting), c.Cuts textSerde resp choice →
        AgreesOn textSerde resp c) ∧ ¬ AgreesOn textSerde (sampleResponse .contentFilter)
        (sampleChunks false .contentFilter) ∧ ¬ AgreesOn textSerde (sampleResponse .toolCalls)
        (sampleChunks true .toolCalls) := by
  have hfiltered : ¬ AgreesOn textSerde (sampleResponse .contentFilter)
      (sampleChunks false .contentFilter) := by
    rintro ⟨whole, hwhole, houtcome⟩
    cases hwhole
    exact absurd (congrArg Outcome.stopReason houtcome) (by decide +kernel)
  refine ⟨fun h => hfiltered (h _ _ _ (cuts_sampleChunks false .contentFilter)), hfiltered, ?_⟩
  rintro ⟨whole, hwhole, houtcome⟩
  cases hwhole
  exact absurd (congrArg Outcome.toolUses houtcome) (by decide +kernel)

theorem chunks_as_whole_sample :
    AgreesOn textSerde (sampleResponse .toolCalls) (sampleChunks false .toolCalls) := by
  refine (chunks_as_whole textSerde textSerde_lawful _ _ _
    (cuts_sampleChunks false .toolCalls)).2 ⟨nofun, ?_⟩
  simp only [sampleChunks, forall_mem_singleton]
  exact .inl ⟨⟨0, some "a", some ⟨some "f", none⟩⟩, by decide, rfl⟩

end AgentGateway.Llm.FromMessages
