/-
The events a stream of chunks is translated into come in order.

The translator is followed with the automaton of the stream grammar. Its
state says which blocks are open (`Blocks`), and what it knows comes from
the chunks it has seen (`Known`), which are looked at apart from it
(`Seen`).

# Where the order breaks

A tool block that text has closed keeps its index, so more of the same
tool call starts that index again; text and tool calls that come when the
end of the message has been sent are translated all the same; and a
stream that is done before its first chunk gets an end without a start.
`Orderly` rules the first two out, chunk by chunk.
-/
import AgentGateway.Lib.Run
import AgentGateway.Llm.Conversion.Chat
import AgentGateway.Llm.Outcome

namespace AgentGateway.Llm.FromMessages

open Lib Lib.Emitter Completions Messages List AssocMap

variable {J : Type}

-- ======== what was received

/-- What the chunks so far have brought: the tool calls whose name is
known, those of them that text came after, and whether a finish reason
and usage have come. -/
structure Seen where
  named : List UInt32
  stale : List UInt32
  finish : Bool
  usage : Bool

namespace Seen

def init : Seen := ⟨[], [], false, false⟩

def content (seen : Seen) (content : Option Strng) : Seen :=
  if content.isSome then { seen with stale := seen.named } else seen

def toolCall (seen : Seen) (toolCall : ToolCallChunk) : Seen :=
  if (toolCall.function.bind (·.name)).isSome then
    { seen with named := toolCall.index :: seen.named }
  else seen

def choice (seen : Seen) (choice : ChatChoiceStream) : Seen :=
  let seen := (choice.delta.toolCalls.getD []).foldl toolCall (seen.content choice.delta.content)
  { seen with finish := seen.finish || choice.finishReason.isSome }

def chunk (seen : Seen) (f : StreamResponse) : Seen :=
  let seen := { seen with usage := seen.usage || f.usage.isSome }
  match f.choices.head? with
  | some choice => seen.choice choice
  | none => seen

end Seen

/-- A chunk brings no text and no tool call when the finish reason and
usage have come, and no more of a tool call that text came after. -/
def Orderly (seen : Seen) (f : StreamResponse) : Prop :=
  ∀ choice ∈ f.choices.head?, (seen.finish → seen.usage →
        choice.delta.content = none ∧ choice.delta.toolCalls.getD [] = [])
      ∧ ∀ toolCall ∈ choice.delta.toolCalls.getD [],
        toolCall.index ∉ (seen.content choice.delta.content).stale

instance (seen : Seen) (f : StreamResponse) : Decidable (Orderly seen f) := by
  unfold Orderly
  infer_instance

-- ======== invariant

/-- The open blocks, as the translator and the automaton have them. -/
structure Blocks (s : StreamState) (p : Progress) : Prop where
  live : ∀ i, i ∈ p.live ↔ s.textBlockIndex = some i
    ∨ ∃ t, s.openToolBlocks.contains t ∧ s.toolBlockIndices.get? t = some i
  started_lt : ∀ i ∈ p.started, i < s.nextBlockIndex
  text_lt : ∀ i, s.textBlockIndex = some i → i < s.nextBlockIndex
  tool_lt : ∀ t i, s.toolBlockIndices.get? t = some i → i < s.nextBlockIndex
  tool_inj : ∀ t t' i, s.toolBlockIndices.get? t = some i →
    s.toolBlockIndices.get? t' = some i → t = t'
  text_apart : ∀ t i, s.textBlockIndex = some i → s.toolBlockIndices.get? t ≠ some i
  open_indexed : ∀ t, s.openToolBlocks.contains t → (s.toolBlockIndices.get? t).isSome

/-- What the translator knows it has from the chunks. -/
structure Known (seen : Seen) (s : StreamState) : Prop where
  indexed : ∀ t i, s.toolBlockIndices.get? t = some i → t ∈ seen.named
  pending : ∀ t entry, s.pendingToolCalls.get? t = some entry → entry.name.isSome → t ∈ seen.named
  reason : s.pendingStopReason.isSome → seen.finish
  usage : s.pendingUsage.isSome → seen.usage

/-- Tool blocks that were closed are stale. -/
def Closed (seen : Seen) (s : StreamState) : Prop :=
  ∀ t i, s.toolBlockIndices.get? t = some i → s.openToolBlocks.contains t = false → t ∈ seen.stale

/-- The events so far, with the message at the given phase. -/
def At (phase : Phase) (s : StreamState) (out : List (MessagesStreamEvent J)) : Prop :=
  ∃ p, Progress.init.follow out = some p ∧ p.phase = phase ∧ Blocks s p

/-- The content of the message is being sent, as far as the state goes. -/
structure Told (seen : Seen) (s : StreamState) : Prop where
  started : s.sentMessageStart
  unstopped : s.sentMessageStop = false
  known : Known seen s

/-- The content of the message is being sent. -/
def InContent (seen : Seen) (s : StreamState) (out : List (MessagesStreamEvent J)) : Prop :=
  At .content s out ∧ Told seen s ∧ Closed seen s

/-- The end of the message has been sent. -/
structure Ended (s : StreamState) (out : List (MessagesStreamEvent J)) : Prop where
  follow : ∃ p, Progress.init.follow out = some p ∧ p.phase = .stop
  started : s.sentMessageStart
  stopped : s.sentMessageStop

/-- The message has begun, and ends once there is a finish reason and
usage. -/
def Reached (seen : Seen) (s : StreamState) (out : List (MessagesStreamEvent J)) : Prop :=
  InContent seen s out ∨ Ended s out ∧ seen.finish ∧ seen.usage

variable {s : StreamState} {out : List (MessagesStreamEvent J)} {t : UInt32} {i : Nat}
  {seen : Seen} {toolCall : ToolCallChunk} {F : StreamState → Prop} {s' : StreamState}
  {p : Progress}

theorem At.congr {phase : Phase} (h : At phase s out)
    (hnext : s'.nextBlockIndex = s.nextBlockIndex) (htext : s'.textBlockIndex = s.textBlockIndex)
    (hindices : s'.toolBlockIndices = s.toolBlockIndices)
    (hopen : s'.openToolBlocks = s.openToolBlocks) : At phase s' out := by
  obtain ⟨p, hp, hphase, hb⟩ := h
  refine ⟨p, hp, hphase, ?_⟩
  constructor <;> simp only [hnext, htext, hindices, hopen]
  exacts [hb.live, hb.started_lt, hb.text_lt, hb.tool_lt, hb.tool_inj, hb.text_apart,
    hb.open_indexed]

-- ======== closing blocks

theorem triple_closeTextBlock (hF : ∀ s, F s → F { s with textBlockIndex := none }) :
    Triple (fun s (out : List (MessagesStreamEvent J)) => At .content s out ∧ F s) closeTextBlock
      fun _ s out => At .content s out ∧ F s ∧ s.textBlockIndex = none := by
  refine triple_get fun s => ?_
  cases htext : s.textBlockIndex with
  | none =>
    refine triple_pure ?_
    rintro _ out ⟨rfl, hat, hF⟩
    exact ⟨hat, hF, htext⟩
  | some i =>
    rintro _ out ⟨rfl, ⟨p, hp, hphase, hb⟩, hs⟩
    refine ⟨⟨{ p with live := p.live.filter (· ≠ i) },
      Progress.follow_concat hp ?_, hphase, ?_⟩, hF _ hs, rfl⟩
    · have hlive := (hb.live i).2 (.inl htext)
      simp [Progress.next, hphase, hlive]
    · exact { hb with
        live := fun j => by
          rw [mem_filter, hb.live, htext, decide_eq_true_eq]
          constructor
          · rintro ⟨heq | htool, hne⟩
            · exact absurd (Option.some.inj heq).symm hne
            · exact .inr htool
          · rintro (hnone | ⟨t, ht, hj⟩)
            · cases hnone
            · refine ⟨.inr ⟨t, ht, hj⟩, ?_⟩
              rintro rfl
              exact hb.text_apart t j htext hj
        text_lt := fun j hj => by cases hj
        text_apart := fun t j hj => by cases hj }

theorem mem_openBlocks : (t, i) ∈ openBlocks s ↔ s.openToolBlocks.contains t
      ∧ s.toolBlockIndices.get? t = some i := by
  unfold openBlocks
  rw [mem_mergeSort, mem_filterMap]
  constructor
  · rintro ⟨t', ht', heq⟩
    obtain ⟨j, hj, heq⟩ := Option.map_eq_some_iff.1 heq
    cases heq
    exact ⟨contains_iff_mem_keys.2 ht', hj⟩
  · rintro ⟨ht, hi⟩
    exact ⟨t, contains_iff_mem_keys.1 ht, by rw [hi]; rfl⟩

theorem nodup_openBlocks (s : StreamState) : (openBlocks s).Nodup := by
  unfold openBlocks
  rw [(mergeSort_perm _ _).nodup_iff]
  refine List.Nodup.filterMap ?_ s.openToolBlocks.nodup
  intro t t' b ht ht'
  obtain ⟨i, -, rfl⟩ := Option.map_eq_some_iff.1 ht
  obtain ⟨i', -, heq⟩ := Option.map_eq_some_iff.1 ht'
  cases heq
  rfl

/-- Some of the tool blocks are closed; those that are open are left. -/
structure Closing (rest : List (UInt32 × Nat)) (s : StreamState) : Prop where
  left : ∀ t i, (t, i) ∈ rest ↔ s.openToolBlocks.contains t ∧ s.toolBlockIndices.get? t = some i
  nodup : rest.Nodup

theorem At.closeToolBlock (hat : At .content s out) (hopen : s.openToolBlocks.contains t)
    (hi : s.toolBlockIndices.get? t = some i) :
    At .content { s with openToolBlocks := s.openToolBlocks.erase t }
      (out ++ [.contentBlockStop i]) := by
  obtain ⟨p, hp, hphase, hb⟩ := hat
  refine ⟨{ p with live := p.live.filter (· ≠ i) }, Progress.follow_concat hp ?_, hphase, ?_⟩
  · have hlive := (hb.live i).2 (.inr ⟨t, hopen, hi⟩)
    simp [Progress.next, hphase, hlive]
  · exact { hb with
      live := fun j => by
        rw [mem_filter, hb.live, decide_eq_true_eq]
        constructor
        · rintro ⟨htext | ⟨t', ht', hj⟩, hne⟩
          · exact .inl htext
          · refine .inr ⟨t', contains_erase.2 ⟨?_, ht'⟩, hj⟩
            rintro rfl
            rw [hi] at hj
            exact hne (Option.some.inj hj).symm
        · rintro (htext | ⟨t', ht', hj⟩)
          · refine ⟨.inl htext, ?_⟩
            rintro rfl
            exact hb.text_apart t j htext hi
          · obtain ⟨hne, ht'⟩ := contains_erase.1 ht'
            refine ⟨.inr ⟨t', ht', hj⟩, ?_⟩
            rintro rfl
            exact hne (hb.tool_inj t' t j hj hi)
      open_indexed := fun t' ht' =>
        hb.open_indexed t' (contains_erase.1 ht').2 }

theorem Closing.next {rest : List (UInt32 × Nat)} (h : Closing ((t, i) :: rest) s) :
    Closing rest { s with openToolBlocks := s.openToolBlocks.erase t } where
  left t' i' := by
    obtain ⟨hnot, -⟩ := nodup_cons.1 h.nodup
    have hi := ((h.left t i).1 mem_cons_self).2
    rw [contains_erase]
    constructor
    · intro hmem
      obtain ⟨hopen, hi'⟩ := (h.left t' i').1 (mem_cons_of_mem _ hmem)
      refine ⟨⟨?_, hopen⟩, hi'⟩
      rintro rfl
      rw [hi] at hi'
      cases hi'
      exact hnot hmem
    · rintro ⟨⟨hne, hopen⟩, hi'⟩
      cases mem_cons.1 ((h.left t' i').2 ⟨hopen, hi'⟩) with
      | inl heq => exact absurd (congrArg Prod.fst heq) hne
      | inr hmem => exact hmem
  nodup := (nodup_cons.1 h.nodup).2

theorem triple_closeAllToolBlocks (hF : ∀ s blocks, F s → F { s with openToolBlocks := blocks }) :
    Triple (fun s (out : List (MessagesStreamEvent J)) => At .content s out ∧ F s)
      closeAllToolBlocks
      fun _ s out => At .content s out ∧ F s ∧ ∀ t, s.openToolBlocks.contains t = false := by
  refine triple_get fun s => ?_
  refine triple_mono (triple_forM (fun rest s' out =>
    At .content s' out ∧ F s' ∧ Closing rest s') (openBlocks s) ?_) ?_ ?_
  · rintro ⟨t, i⟩ rest
    rintro s out ⟨hat, hs, hc⟩
    obtain ⟨hopen, hi⟩ := (hc.left t i).1 mem_cons_self
    exact ⟨hat.closeToolBlock hopen hi, hF _ _ hs, hc.next⟩
  · rintro _ out ⟨rfl, hat, hs⟩
    exact ⟨hat, hs, fun t i => mem_openBlocks, nodup_openBlocks _⟩
  · rintro _ s' out ⟨hat, hs, hc⟩
    refine ⟨hat, hs, fun t => ?_⟩
    -- an open block would have an index, and be left
    cases hopen : s'.openToolBlocks.contains t with
    | false => rfl
    | true =>
      obtain ⟨p, -, -, hb⟩ := hat
      obtain ⟨i, hi⟩ := Option.isSome_iff_exists.1 (hb.open_indexed t hopen)
      exact absurd ((hc.left t i).2 ⟨hopen, hi⟩) not_mem_nil

-- ======== opening blocks

theorem At.start_next (hp : Progress.init.follow out = some p) (hphase : p.phase = .content)
    (hb : Blocks s p) (b : ContentBlock J) (hb' : Blocks s' { p with
      started := s.nextBlockIndex :: p.started
      live := s.nextBlockIndex :: p.live }) :
    At .content s' (out ++ [.contentBlockStart s.nextBlockIndex b]) := by
  refine ⟨{ p with
    started := s.nextBlockIndex :: p.started
    live := s.nextBlockIndex :: p.live }, Progress.follow_concat hp ?_, hphase, hb'⟩
  have hfresh : s.nextBlockIndex ∉ p.started := fun h =>
    absurd (hb.started_lt _ h) (Nat.lt_irrefl _)
  simp [Progress.next, hphase, hfresh]

theorem Blocks.started_lt_succ (hb : Blocks s p) :
    ∀ i ∈ s.nextBlockIndex :: p.started, i < s.nextBlockIndex + 1 := by
  intro i hi
  rw [mem_cons] at hi
  cases hi with
  | inl heq => omega
  | inr hi => exact Nat.lt_succ_of_lt (hb.started_lt i hi)

theorem At.startText (hat : At .content s out) (htext : s.textBlockIndex = none) :
    At .content { s with
        nextBlockIndex := s.nextBlockIndex + 1
        textBlockIndex := some s.nextBlockIndex }
      (out ++ [.contentBlockStart s.nextBlockIndex (.text "")]) := by
  obtain ⟨p, hp, hphase, hb⟩ := hat
  refine At.start_next hp hphase hb (.text "") {
    live := fun j => ?_
    started_lt := hb.started_lt_succ
    text_lt := fun i hi => ?_
    tool_lt := fun t i hi => Nat.lt_succ_of_lt (hb.tool_lt t i hi)
    tool_inj := hb.tool_inj
    text_apart := fun t i hi ht => ?_
    open_indexed := hb.open_indexed }
  · rw [mem_cons, hb.live, htext]
    constructor
    · rintro (rfl | hnone | htool)
      · exact .inl rfl
      · cases hnone
      · exact .inr htool
    · rintro (heq | htool)
      · exact .inl (Option.some.inj heq).symm
      · exact .inr (.inr htool)
  · cases hi
    exact Nat.lt_succ_self _
  · cases hi
    exact absurd (hb.tool_lt t _ ht) (Nat.lt_irrefl _)

theorem At.startTool (hat : At .content s out)
    (hfresh : s.toolBlockIndices.get? t = none) (b : ContentBlock J) : At .content { s with
        nextBlockIndex := s.nextBlockIndex + 1
        toolBlockIndices := s.toolBlockIndices.insert t s.nextBlockIndex
        openToolBlocks := s.openToolBlocks.insert t () }
      (out ++ [.contentBlockStart s.nextBlockIndex b]) := by
  obtain ⟨p, hp, hphase, hb⟩ := hat
  -- the other tool calls keep their indexes
  have hget : ∀ t' i, (s.toolBlockIndices.insert t s.nextBlockIndex).get? t' = some i
      ↔ (t' = t ∧ i = s.nextBlockIndex) ∨ (t' ≠ t ∧ s.toolBlockIndices.get? t' = some i) := by
    intro t' i
    rw [get?_insert]
    split <;> simp_all [eq_comm]
  refine At.start_next hp hphase hb b {
    live := fun j => ?_
    started_lt := hb.started_lt_succ
    text_lt := fun i hi => Nat.lt_succ_of_lt (hb.text_lt i hi)
    tool_lt := fun t' i hi => ?_
    tool_inj := fun t₁ t₂ i h₁ h₂ => ?_
    text_apart := fun t' i hi ht' => ?_
    open_indexed := fun t' ht' => ?_ }
  · rw [mem_cons, hb.live]
    simp only [hget, AssocMap.contains_insert]
    constructor
    · rintro (rfl | htext | ⟨t', ht', hj⟩)
      · exact .inr ⟨t, .inl rfl, .inl ⟨rfl, rfl⟩⟩
      · exact .inl htext
      · refine .inr ⟨t', .inr ht', .inr ⟨?_, hj⟩⟩
        rintro rfl
        rw [hfresh] at hj
        cases hj
    · rintro (htext | ⟨t', ht', ⟨-, rfl⟩ | ⟨hne, hj⟩⟩)
      · exact .inr (.inl htext)
      · exact .inl rfl
      · exact .inr (.inr ⟨t', ht'.resolve_left hne, hj⟩)
  · rcases (hget t' i).1 hi with ⟨-, rfl⟩ | ⟨-, hi⟩
    · exact Nat.lt_succ_self _
    · exact Nat.lt_succ_of_lt (hb.tool_lt t' i hi)
  · rcases (hget t₁ i).1 h₁ with ⟨rfl, rfl⟩ | ⟨-, hold₁⟩
    · rcases (hget t₂ _).1 h₂ with ⟨rfl, -⟩ | ⟨-, hold₂⟩
      · rfl
      · exact absurd (hb.tool_lt t₂ _ hold₂) (Nat.lt_irrefl _)
    · rcases (hget t₂ i).1 h₂ with ⟨rfl, rfl⟩ | ⟨-, hold₂⟩
      · exact absurd (hb.tool_lt t₁ _ hold₁) (Nat.lt_irrefl _)
      · exact hb.tool_inj t₁ t₂ i hold₁ hold₂
  · rcases (hget t' i).1 ht' with ⟨-, rfl⟩ | ⟨-, ht'⟩
    · exact absurd (hb.text_lt _ hi) (Nat.lt_irrefl _)
    · exact hb.text_apart t' i hi ht'
  · rw [get?_insert]
    split
    · rfl
    · next hne =>
      rcases AssocMap.contains_insert.1 ht' with heq | ht'
      · exact absurd heq hne
      · exact hb.open_indexed t' ht'

theorem At.delta (hat : At .content s out) (hlive : s.textBlockIndex = some i
      ∨ ∃ t, s.openToolBlocks.contains t ∧ s.toolBlockIndices.get? t = some i)
    (d : ContentBlockDelta) : At .content s (out ++ [.contentBlockDelta i d]) := by
  obtain ⟨p, hp, hphase, hb⟩ := hat
  refine ⟨p, Progress.follow_concat hp ?_, hphase, hb⟩
  simp [Progress.next, hphase, (hb.live i).2 hlive]

-- ======== content

/-- What came before a text is stale. -/
def Seen.staled (seen : Seen) : Seen := { seen with stale := seen.named }

theorem Told.staled (h : Told seen s) : Told seen.staled s ∧ Closed seen.staled s :=
  ⟨⟨h.started, h.unstopped, { h.known with }⟩, fun t i hi _ => h.known.indexed t i hi⟩

theorem Told.blocks (h : Told seen s) (next : Nat) (text : Option Nat) (tools : HashSet UInt32) :
    Told seen { s with
      nextBlockIndex := next
      textBlockIndex := text
      openToolBlocks := tools } :=
  ⟨h.started, h.unstopped, { h.known with }⟩

theorem triple_openTextBlock (seen : Seen) :
    Triple (InContent (J := J) seen) openTextBlock fun index s out =>
      InContent seen.staled s out ∧ s.textBlockIndex = some index := by
  refine triple_get fun s => ?_
  cases htext : s.textBlockIndex with
  | some index =>
    refine triple_pure ?_
    rintro _ out ⟨rfl, hat, htold, -⟩
    exact ⟨⟨hat, htold.staled⟩, htext⟩
  | none =>
    have hclose := triple_closeAllToolBlocks (J := J)
      (F := fun s => Told seen s ∧ s.textBlockIndex = none)
      fun s tools h => ⟨h.1.blocks _ _ tools, h.2⟩
    refine triple_bind (triple_mono hclose ?_ fun _ _ _ h => h) fun _ => ?_
    · rintro _ out ⟨rfl, hat, htold, -⟩
      exact ⟨hat, htold, htext⟩
    · refine triple_update ?_
      rintro s out ⟨hat, ⟨htold, hnone⟩, -⟩
      exact ⟨⟨hat.startText hnone, (htold.blocks _ _ _).staled⟩, rfl⟩

theorem triple_onContent (seen : Seen) (content : Strng) :
    Triple (InContent (J := J) seen) (onContent content) fun _ => InContent seen.staled := by
  refine triple_bind (triple_openTextBlock seen) fun index => triple_emit ?_
  rintro s out ⟨⟨hat, htold, hclosed⟩, htext⟩
  exact ⟨hat.delta (.inl htext) (.textDelta content), htold, hclosed⟩

-- ======== tool calls

/-- Between the choice of an index and the start of the block: the block
is open, or the index is new. -/
inductive Chosen (seen : Seen) (t : UInt32) (index : Nat) (s : StreamState)
    (out : List (MessagesStreamEvent J)) : Prop
  | known (h : InContent seen s out)
      (hopen : s.openToolBlocks.contains t)
      (hi : s.toolBlockIndices.get? t = some index)
  | fresh (s₀ : StreamState) (h : InContent seen s₀ out)
      (hi : s₀.toolBlockIndices.get? t = none) (hindex : index = s₀.nextBlockIndex)
      (hs : s = { s₀ with
        nextBlockIndex := s₀.nextBlockIndex + 1
        toolBlockIndices := s₀.toolBlockIndices.insert t index })

theorem triple_toolBlockIndex (hstale : t ∉ seen.stale) :
    Triple (InContent (J := J) seen) (toolBlockIndex t) (Chosen seen t) := by
  refine triple_get fun s => ?_
  cases hi : s.toolBlockIndices.get? t with
  | some index =>
    refine triple_pure ?_
    rintro _ out ⟨rfl, h⟩
    -- a block that was closed is stale
    refine .known h ?_ hi
    cases hopen : AssocMap.contains _ t with
    | true => rfl
    | false => exact absurd (h.2.2 t index hi hopen) hstale
  | none =>
    refine triple_bind (Q := fun _ => Chosen seen t s.nextBlockIndex)
      (triple_set ?_) fun _ => triple_pure fun _ _ h => h
    rintro _ out ⟨rfl, h⟩
    exact .fresh _ h hi rfl rfl

variable (js : Serde J) {choice : ChatChoiceStream}

theorem triple_startToolBlock (hnamed : t ∈ seen.named) (index : Nat) (id name : Strng) :
    Triple (Chosen seen t index) (startToolBlock js t index id name)
      fun _ s out => InContent seen s out ∧ s.openToolBlocks.contains t
        ∧ s.toolBlockIndices.get? t = some index := by
  refine triple_get fun s => ?_
  split
  · next hopen =>
    refine triple_pure ?_
    rintro _ out ⟨rfl, hc⟩
    cases hc with
    | known h _ hi => exact ⟨h, hopen, hi⟩
    | fresh s₀ h hi hindex hs =>
      -- a block without an index is not open
      obtain ⟨⟨p, -, -, hb⟩, -⟩ := h
      subst hs
      have hsome := hb.open_indexed t hopen
      rw [hi] at hsome
      cases hsome
  · next hopen =>
    refine triple_set_emit ?_
    rintro _ out ⟨rfl, hc⟩
    cases hc with
    | known _ hopen' _ => exact absurd hopen' hopen
    | fresh s₀ h hi hindex hs =>
      subst hs hindex
      obtain ⟨hat, htold, hclosed⟩ := h
      refine ⟨⟨hat.startTool hi _, ⟨htold.started, htold.unstopped, ?_,
        htold.known.pending, htold.known.reason, htold.known.usage⟩, ?_⟩,
        contains_insert.2 (.inl rfl), get?_insert_self _ _ _⟩
      · intro t' i hi'
        by_cases ht : t' = t
        · exact ht ▸ hnamed
        · rw [get?_insert_ne _ _ ht] at hi'
          exact htold.known.indexed t' i hi'
      · intro t' i hi' hclose
        by_cases ht : t' = t
        · rw [ht, contains_insert.2 (.inl rfl)] at hclose
          cases hclose
        · rw [get?_insert_ne _ _ ht] at hi'
          refine hclosed t' i hi' ?_
          cases hopen' : s₀.openToolBlocks.contains t' with
          | false => rfl
          | true =>
            rw [contains_insert.2 (.inr hopen')] at hclose
            cases hclose

theorem triple_openToolBlock (hnamed : t ∈ seen.named) (hstale : t ∉ seen.stale) (id name : Strng) :
    Triple (InContent seen) (openToolBlock js t id name)
      fun index s out => InContent seen s out ∧ s.openToolBlocks.contains t
        ∧ s.toolBlockIndices.get? t = some index := by
  have hclose := triple_closeTextBlock (J := J) (F := fun s => Told seen s ∧ Closed seen s)
    fun s h => ⟨h.1.blocks _ _ _, h.2⟩
  refine triple_keep (triple_mono hclose (fun _ _ h => h) fun _ _ _ h => ⟨h.1, h.2.1⟩) fun _ => ?_
  refine triple_bind (triple_toolBlockIndex hstale) fun index => ?_
  exact triple_bind (triple_startToolBlock js hnamed index id name) fun _ =>
    triple_pure fun _ _ h => h

theorem Seen.mem_named_toolCall (h : t ∈ seen.named) : t ∈ (seen.toolCall toolCall).named := by
  unfold Seen.toolCall
  split
  · exact mem_cons_of_mem _ h
  · exact h

@[simp] theorem Seen.toolCall_rest (seen : Seen) (toolCall : ToolCallChunk) :
    (seen.toolCall toolCall).stale = seen.stale
      ∧ (seen.toolCall toolCall).finish = seen.finish
      ∧ (seen.toolCall toolCall).usage = seen.usage := by
  unfold Seen.toolCall
  split <;> exact ⟨rfl, rfl, rfl⟩

theorem Known.add_named (h : Known seen s)
    (hname : (((s.pendingToolCalls.get? toolCall.index).getD ⟨none, none, ""⟩).add
      toolCall).name.isSome) : toolCall.index ∈ (seen.toolCall toolCall).named := by
  unfold Seen.toolCall
  cases hchunk : toolCall.function.bind (·.name) with
  | some name => exact mem_cons_self
  | none =>
    cases hpending : s.pendingToolCalls.get? toolCall.index with
    | none =>
      rw [hpending] at hname
      simp [PendingToolCall.add, hchunk] at hname
    | some entry =>
      rw [hpending] at hname
      refine h.pending toolCall.index entry hpending ?_
      simpa [PendingToolCall.add, hchunk] using hname

theorem InContent.pend (h : InContent seen s out) {entry : PendingToolCall}
    (hname : entry.name.isSome → toolCall.index ∈ (seen.toolCall toolCall).named) :
    InContent (seen.toolCall toolCall) { s with
      pendingToolCalls := s.pendingToolCalls.insert toolCall.index entry } out := by
  obtain ⟨hat, htold, hclosed⟩ := h
  refine ⟨hat.congr rfl rfl rfl rfl, ⟨htold.started, htold.unstopped, ⟨?_, ?_, ?_, ?_⟩⟩, ?_⟩
  · exact fun t i hi => Seen.mem_named_toolCall (htold.known.indexed t i hi)
  · intro t e he hsome
    by_cases ht : t = toolCall.index
    · subst ht
      rw [get?_insert_self] at he
      cases he
      exact hname hsome
    · rw [get?_insert_ne _ _ ht] at he
      exact Seen.mem_named_toolCall (htold.known.pending t e he hsome)
  · simpa using htold.known.reason
  · simpa using htold.known.usage
  · simpa [Closed] using hclosed

theorem triple_onToolCall (hstale : toolCall.index ∉ seen.stale) :
    Triple (InContent seen) (onToolCall js toolCall)
      fun _ => InContent (seen.toolCall toolCall) := by
  refine triple_get fun s => ?_
  dsimp only
  split
  · next hname =>
    refine triple_set ?_
    rintro _ out ⟨rfl, h⟩
    refine h.pend fun hsome => ?_
    rw [hname] at hsome
    cases hsome
  · next name hname =>
    by_cases hin : ∃ out : List (MessagesStreamEvent J), InContent seen s out
    · obtain ⟨out, hin⟩ := hin
      have hnamed : toolCall.index ∈ (seen.toolCall toolCall).named :=
        hin.2.1.known.add_named (by rw [hname]; rfl)
      refine triple_bind (Q := fun _ => InContent (seen.toolCall toolCall))
        (triple_set fun _ _ h => (h.1 ▸ h.2).pend fun _ => hnamed) fun _ => ?_
      refine triple_bind (triple_openToolBlock js hnamed
        (by simpa using hstale) _ name) fun index => ?_
      split
      · exact triple_pure fun _ _ h => h.1
      · refine triple_emit ?_
        rintro s out ⟨⟨hat, hrest⟩, hopen, hi⟩
        exact ⟨hat.delta (.inr ⟨_, hopen, hi⟩) _, hrest⟩
    · rintro _ out ⟨rfl, h⟩
      exact absurd ⟨out, h⟩ hin

theorem triple_toolCalls (seen : Seen) (toolCalls : List ToolCallChunk)
    (hstale : ∀ toolCall ∈ toolCalls, toolCall.index ∉ seen.stale) :
    Triple (InContent seen) (toolCalls.forM (onToolCall js))
      fun _ => InContent (toolCalls.foldl Seen.toolCall seen) := by
  induction toolCalls generalizing seen with
  | nil => exact triple_pure fun _ _ h => h
  | cons toolCall toolCalls ih =>
    obtain ⟨hfirst, hrest⟩ := forall_mem_cons.1 hstale
    exact triple_bind (triple_onToolCall js hfirst) fun _ => ih _ (by simpa using hrest)

-- ======== end of the message

theorem triple_finish (stopReason : StopReason) (usage : Option Completions.Usage) :
    Triple (fun s (out : List (MessagesStreamEvent J)) =>
        At .content s out ∧ s.sentMessageStart)
      (flushMessageEnd.finish stopReason usage) fun _ => Ended := by
  refine triple_keep (triple_modify fun s out h => ⟨h.1.congr rfl rfl rfl rfl, h.2⟩) fun _ => ?_
  refine triple_bind (triple_closeTextBlock fun s h => h) fun _ => ?_
  refine triple_bind (triple_closeAllToolBlocks
    fun s _ h => h) fun _ => ?_
  -- with all blocks closed the automaton takes the end of the message
  refine triple_bind (Q := fun _ s out => s.sentMessageStart
    ∧ ∃ p, Progress.init.follow out = some p ∧ p.phase = .delta)
    (triple_emit ?_) fun _ => ?_
  · rintro s out ⟨⟨p, hp, hphase, hb⟩, ⟨hstart, htext⟩, hopen⟩
    refine ⟨hstart, { p with phase := .delta }, Progress.follow_concat hp ?_, rfl⟩
    have hlive : p.live = [] := by
      refine eq_nil_iff_forall_not_mem.2 fun i hi => ?_
      rcases (hb.live i).1 hi with heq | ⟨t, ht, -⟩
      · rw [htext] at heq
        cases heq
      · rw [hopen t] at ht
        cases ht
    simp [Progress.next, hphase, hlive]
  rintro s out ⟨hstart, p, hp, hphase⟩
  refine ⟨⟨{ p with phase := .stop }, Progress.follow_concat hp ?_, rfl⟩, hstart, rfl⟩
  simp [Progress.next, hphase]

theorem Reached.inContent (h : Reached seen s out) (hstop : s.sentMessageStop ≠ true) :
    InContent seen s out :=
  h.resolve_right fun h => hstop h.1.stopped

theorem triple_flushMessageEnd (seen : Seen) :
    Triple (Reached (J := J) seen) (flushMessageEnd false) fun _ => Reached seen := by
  refine triple_get fun s => ?_
  split
  · exact triple_pure fun _ _ h => h.2
  next hstop =>
  split
  · exact triple_pure fun _ _ h => h.2
  · next stopReason usage hreason husage =>
    by_cases hseen : seen.finish ∧ seen.usage
    · refine triple_mono (triple_finish stopReason (some usage)) ?_ fun _ _ _ h => .inr ⟨h, hseen⟩
      rintro _ out ⟨rfl, h⟩
      exact ⟨(h.inContent hstop).1, (h.inContent hstop).2.1.started⟩
    · rintro _ out ⟨rfl, h⟩
      obtain ⟨-, htold, -⟩ := h.inContent hstop
      exact absurd ⟨htold.known.reason (by rw [hreason]; rfl),
        htold.known.usage (by rw [husage]; rfl)⟩ hseen
  · exact triple_pure fun _ _ h => h.2

/-- The message has begun, and its events are in order. -/
def Sent (out : List (MessagesStreamEvent J)) : Prop :=
  ∃ p, Progress.init.follow out = some p ∧ p.phase ≠ .start

theorem Sent.wellFormed (h : Sent out) : WellFormed out := by
  obtain ⟨p, hp, hphase⟩ := h
  refine Progress.wellFormed_of_follow ?_ hp
  rintro rfl
  cases hp
  exact hphase rfl

theorem Ended.sent (h : Ended s out) : Sent out := by
  obtain ⟨p, hp, hphase⟩ := h.follow
  exact ⟨p, hp, by rw [hphase]; nofun⟩

theorem Reached.sent (h : Reached seen s out) : Sent out := by
  rcases h with ⟨⟨p, hp, hphase, -⟩, -⟩ | ⟨hend, -⟩
  · exact ⟨p, hp, by rw [hphase]; nofun⟩
  · exact hend.sent

/-- At `[DONE]` the message is ended, if it was not. -/
theorem triple_done (seen : Seen) :
    Triple (Reached (J := J) seen) (flushMessageEnd true) fun _ _ out => Sent out := by
  have hfinish : ∀ (s : StreamState) stopReason usage, s.sentMessageStop ≠ true →
      Triple (fun s' (out : List (MessagesStreamEvent J)) =>
          s' = s ∧ Reached seen s' out)
        (flushMessageEnd.finish stopReason usage) fun _ _ out => Sent out := by
    intro s stopReason usage hstop
    refine triple_mono (triple_finish stopReason usage) ?_ fun _ _ _ h => h.sent
    rintro _ out ⟨rfl, h⟩
    exact ⟨(h.inContent hstop).1, (h.inContent hstop).2.1.started⟩
  refine triple_get fun s => ?_
  split
  · exact triple_pure fun _ _ h => h.2.sent
  next hstop =>
  split
  · exact hfinish s _ _ hstop
  · exact hfinish s _ _ hstop
  · exact hfinish s _ _ hstop

-- ======== runs

theorem InContent.pending (h : InContent seen s out) {finish usage : Bool}
    {reason : Option StopReason} {tokens : Option Completions.Usage}
    (hfinish : reason.isSome → finish)
    (husage : tokens.isSome → usage) :
    InContent { seen with finish := finish, usage := usage }
      { s with pendingStopReason := reason, pendingUsage := tokens } out :=
  ⟨h.1.congr rfl rfl rfl rfl,
    ⟨h.2.1.started, h.2.1.unstopped, h.2.1.known.indexed, h.2.1.known.pending, hfinish, husage⟩,
    h.2.2⟩

theorem triple_onChoice (hstale : ∀ toolCall ∈ choice.delta.toolCalls.getD [],
      toolCall.index ∉ (seen.content choice.delta.content).stale) :
    Triple (InContent seen) (onChoice js choice) fun _ => InContent (seen.choice choice) := by
  unfold onChoice
  refine triple_bind (Q := fun _ => InContent (seen.content choice.delta.content)) ?_ fun _ => ?_
  · cases choice.delta.content with
    | none => exact triple_pure fun _ _ h => h
    | some content => exact triple_onContent seen content
  refine triple_bind (triple_toolCalls js _ _ hstale) fun _ => ?_
  unfold Seen.choice
  cases choice.finishReason with
  | none =>
    refine triple_pure fun _ _ h => ?_
    simpa using h
  | some finishReason =>
    refine triple_modify fun _ _ h => ?_
    simpa using h.pending (fun _ => rfl) h.2.1.known.usage

theorem triple_onChoice_quiet (hcontent : choice.delta.content = none)
    (htools : choice.delta.toolCalls.getD [] = [])
    {F : StreamState → List (MessagesStreamEvent J) → Prop}
    (hF : ∀ s out r, F s out → F { s with pendingStopReason := r } out) :
    Triple F (onChoice js choice) fun _ => F := by
  unfold onChoice
  rw [hcontent, htools]
  cases choice.finishReason with
  | none => exact triple_pure fun _ _ h => h
  | some _ => exact triple_modify fun s out h => hF s out _ h

def Fresh (seen : Seen) (s : StreamState) (out : List (MessagesStreamEvent J)) : Prop :=
  seen = Seen.init ∧ s = StreamState.default ∧ out = []

theorem triple_startMessage (seen : Seen) (f : StreamResponse) :
    Triple (fun s (out : List (MessagesStreamEvent J)) => Fresh seen s out ∨ Reached seen s out)
      (startMessage f) fun _ => Reached seen := by
  refine triple_get fun s => ?_
  split
  · next hstart =>
    refine triple_pure ?_
    rintro _ out ⟨rfl, ⟨-, rfl, -⟩ | h⟩
    · cases hstart
    · exact h
  · next hstart =>
    rintro _ out ⟨rfl, ⟨rfl, rfl, rfl⟩ | ⟨-, htold, -⟩ | ⟨hend, -⟩⟩
    · refine .inl ⟨⟨⟨.content, [], []⟩, rfl, rfl, ?_⟩,
        ⟨rfl, rfl, nofun, nofun, nofun, nofun⟩, nofun⟩
      exact ⟨fun i => ⟨nofun, by rintro (h | ⟨t, h, -⟩) <;> cases h⟩,
        nofun, nofun, nofun, nofun, nofun, nofun⟩
    · exact absurd htold.started hstart
    · exact absurd hend.started hstart

theorem triple_usage (seen : Seen) (usage : Option Completions.Usage) :
    Triple (Reached (J := J) seen) (usage.forM fun usage =>
        modify fun state => { state with pendingUsage := some usage })
      fun _ s out =>
        InContent { seen with usage := seen.usage || usage.isSome } s out
          ∨ Ended s out ∧ seen.finish ∧ seen.usage := by
  cases usage with
  | none =>
    refine triple_pure fun _ _ h => ?_
    simpa [Reached] using h
  | some usage =>
    refine triple_modify ?_
    rintro s out (h | ⟨h, hseen⟩)
    · refine .inl ?_
      simpa using h.pending h.2.1.known.reason fun _ => rfl
    · exact .inr ⟨{ h with }, hseen⟩

@[simp] theorem Seen.foldl_toolCall_rest (seen : Seen) (toolCalls : List ToolCallChunk) :
    (toolCalls.foldl Seen.toolCall seen).finish = seen.finish
      ∧ (toolCalls.foldl Seen.toolCall seen).usage = seen.usage := by
  induction toolCalls generalizing seen with
  | nil => exact ⟨rfl, rfl⟩
  | cons toolCall toolCalls ih => simpa using ih (seen.toolCall toolCall)

@[simp] theorem Seen.content_rest (seen : Seen) (content : Option Strng) :
    (seen.content content).finish = seen.finish ∧ (seen.content content).usage = seen.usage := by
  cases content <;> exact ⟨rfl, rfl⟩

theorem Seen.content_stale_usage (seen : Seen) (usage : Bool) (content : Option Strng) :
    ({ seen with usage := usage }.content content).stale = (seen.content content).stale := by
  cases content <;> rfl

theorem triple_chunk {f : StreamResponse} (hok : Orderly seen f) :
    Triple (fun s out => Fresh seen s out ∨ Reached seen s out)
      (onEvent js (.data f)) fun _ => Reached (seen.chunk f) := by
  refine triple_bind (triple_startMessage seen f) fun _ => ?_
  refine triple_bind (triple_usage seen f.usage) fun _ => ?_
  refine triple_bind (Q := fun _ => Reached (seen.chunk f)) ?_ fun _ => ?_
  · rintro s out (h | ⟨h, hfinish, husage⟩)
    · refine .inl ?_
      unfold Seen.chunk
      cases hchoice : f.choices.head? with
      | none => exact triple_pure (fun _ _ h => h) s out h
      | some choice =>
        refine triple_onChoice js ?_ s out h
        rw [Seen.content_stale_usage]
        exact (hok choice hchoice).2
    · have hended : (seen.chunk f).finish ∧ (seen.chunk f).usage := by
        unfold Seen.chunk
        split <;> simp [Seen.choice, hfinish, husage]
      refine .inr ⟨?_, hended⟩
      cases hchoice : f.choices.head? with
      | none =>
        exact triple_pure (P := Ended) (Q := fun _ => Ended) (fun _ _ h => h) s out h
      | some choice =>
        obtain ⟨hcontent, htools⟩ := (hok choice hchoice).1 hfinish husage
        exact triple_onChoice_quiet js hcontent htools (fun _ _ _ h => { h with }) s out h
  · refine triple_get fun s => ?_
    split
    · exact triple_mono (triple_flushMessageEnd _) (fun _ _ h => h.2) fun _ _ _ h => h
    · exact triple_pure fun _ _ h => h.2

/-- How a stream may end. -/
def ending (done : Bool) : List SseJsonEvent := if done then [.done] else []

/-- What is left of a stream, and what has been sent for it. -/
inductive Running (done : Bool) : List SseJsonEvent → StreamState →
    List (MessagesStreamEvent J) → Prop
  | fresh {f : StreamResponse} {chunks : List StreamResponse}
      (hok : RunOk Seen.chunk Orderly Seen.init (f :: chunks)) :
      Running done ((f :: chunks).map .data ++ ending done) StreamState.default []
  | reached {seen : Seen} {chunks : List StreamResponse} {s : StreamState}
      {out : List (MessagesStreamEvent J)}
      (hok : RunOk Seen.chunk Orderly seen chunks) (h : Reached seen s out) :
      Running done (chunks.map .data ++ ending done) s out
  | sent {s : StreamState} {out : List (MessagesStreamEvent J)} (h : Sent out) :
      Running done [] s out

theorem triple_running (done : Bool) (x : SseJsonEvent) (rest : List SseJsonEvent) :
    Triple (Running done (x :: rest)) (onEvent js x) fun _ => Running done rest := by
  intro s out h
  generalize hxs : x :: rest = xs at h
  cases h with
  | fresh hok =>
    cases hxs
    exact .reached hok.2 (triple_chunk js hok.1 _ _ (.inl ⟨rfl, rfl, rfl⟩))
  | reached hok h =>
    next seen chunks =>
    cases chunks with
    | cons f chunks =>
      cases hxs
      exact .reached hok.2 (triple_chunk js hok.1 _ _ (.inr h))
    | nil =>
      cases done with
      | false => cases hxs
      | true =>
        cases hxs
        exact .sent (triple_done seen _ _ h)
  | sent h => cases hxs

theorem Running.wellFormed {done : Bool} (h : Running done [] s out) : WellFormed out := by
  generalize hxs : [] = xs at h
  cases h with
  | fresh _ => cases hxs
  | reached _ h => exact h.sent.wellFormed
  | sent h => exact h.wellFormed

/-- The events of a stream whose chunks come in order are well formed. -/
theorem translateStream_wellFormed (js : Serde J) (chunks : List StreamResponse)
    (hne : chunks ≠ []) (hok : RunOk Seen.chunk Orderly Seen.init chunks) (done : Bool) :
    WellFormed (translateStream js (chunks.map .data ++ ending done)) := by
  obtain ⟨f, chunks, rfl⟩ := exists_cons_of_ne_nil hne
  exact (runAll_triple (Running done) (triple_running js done) _ (.fresh hok)).wellFormed

def chunkOf (delta : StreamResponseDelta) (finishReason : Option FinishReason := none)
    (usage : Option Completions.Usage := none) : StreamResponse :=
  ⟨"chatcmpl-1", [⟨delta, finishReason⟩], "m", none, usage⟩

def textChunk (text : Strng) : StreamResponse := chunkOf { content := some text }

def toolChunk (index : UInt32) (id name arguments : Option Strng) : StreamResponse :=
  chunkOf { toolCalls := some [⟨index, id, some ⟨name, arguments⟩⟩] }

/-- Text between two chunks of one tool call: its block is started
twice. -/
def textAmidTool : List StreamResponse :=
  [toolChunk 0 (some "a") (some "f") (some "["), textChunk "x", toolChunk 0 none none (some "]")]

/-- Text after the finish reason and usage. -/
def textAtEnd : List StreamResponse :=
  [chunkOf { content := some "x" } (some .stop) (some ⟨1, 2, 3, none, none, none, none⟩),
    textChunk "y"]

/-- Text amid a tool call, text after the end, and no chunk at all. -/
theorem translateStream_out_of_order :
    ¬ WellFormed (translateStream textSerde (textAmidTool.map .data))
      ∧ ¬ WellFormed (translateStream textSerde (textAtEnd.map .data))
      ∧ ¬ WellFormed (translateStream textSerde [.done]) := by
  refine ⟨fun h => ?_, fun h => ?_, fun h => ?_⟩
  · exact absurd (h.block_start 0) (by decide +kernel)
  · -- the stop of the message is the sixth of eight events
    obtain ⟨hpost, -⟩ := h.message_stop ((translateStream textSerde (textAtEnd.map .data)).take 5)
      ((translateStream textSerde (textAtEnd.map .data)).drop 6) (by decide +kernel)
    exact absurd hpost (by decide +kernel)
  · obtain ⟨message, rest, heq, -⟩ := h.message_start
    have hhead : (translateStream textSerde [.done]).head?.map
        MessagesStreamEvent.isMessageStart = some true := by
      rw [heq]
      rfl
    exact absurd hhead (by decide +kernel)

/-- Text, then two tool calls at a time, then the finish reason and usage. -/
def orderlyChunks : List StreamResponse :=
  [textChunk "x", toolChunk 0 (some "a") (some "f") (some "["),
    toolChunk 1 (some "b") (some "g") none, toolChunk 0 none none (some "]"),
    chunkOf {} (some .toolCalls), ⟨"chatcmpl-1", [], "m", none,
      some ⟨1, 2, 3, none, none, none, none⟩⟩]

theorem translateStream_wellFormed_sample :
    WellFormed (translateStream textSerde (orderlyChunks.map .data ++ ending true)) :=
  translateStream_wellFormed textSerde orderlyChunks nofun (by decide) true

end AgentGateway.Llm.FromMessages
