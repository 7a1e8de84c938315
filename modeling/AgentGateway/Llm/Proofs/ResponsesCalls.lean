/-
The grammar of a Responses stream, and following the translators into such
streams, event by event.

What a stream says about one item is the list of its marks: it is added, gets
deltas, and is done. For a tool call the arguments are done before the item
is, and both have all that the deltas had (`ToolStory`). For the message the
deltas are text (`MessageLife`); the text at the end should be the whole text
(`MessageStory`). A content part has marks of its own (`PartStory`).

The places from 1 on are for tool calls. `Calls` says what was told about
them: the calls in a set are open, each at a place of its own, and at every
other place the call is told to the end. A call is opened, gets arguments and
is finished (`Calls.add`, `Calls.extend`, `Calls.finish`); events about the
message change nothing (`Calls.other`).

`Tracks` ties this to the state of a translator: the open calls are those in
its table, and the number of the last event is the number of events. `Live` is
what holds of a response that is created and not at its end, and `Finished`
what holds of it at the end.
-/
import AgentGateway.Llm.Types
import Mathlib.Data.Set.Function

namespace AgentGateway.Llm.Responses

-- ======== marks

/-- What an event says about an item. -/
inductive ItemMark
  | added (item : OutputItem)
  | delta (itemId text : Strng)
  | argumentsDone (itemId name arguments : Strng)
  | done (item : OutputItem)

/-- What an event says about a content part. -/
inductive PartMark
  | added (itemId text : Strng)
  | delta (itemId text : Strng)
  | done (itemId text : Strng)
  deriving DecidableEq

namespace ResponseStreamEvent

def itemMark (i : Nat) : ResponseStreamEvent → Option ItemMark
  | .outputItemAdded j item => if j = i then some (.added item) else none
  | .outputTextDelta itemId j _ delta => if j = i then some (.delta itemId delta) else none
  | .functionCallArgumentsDelta itemId j delta =>
    if j = i then some (.delta itemId delta) else none
  | .functionCallArgumentsDone name itemId j arguments =>
    if j = i then some (.argumentsDone itemId name arguments) else none
  | .outputItemDone j item => if j = i then some (.done item) else none
  | _ => none

def partMark (i c : Nat) : ResponseStreamEvent → Option PartMark
  | .contentPartAdded itemId j d text =>
    if j = i ∧ d = c then some (.added itemId text) else none
  | .outputTextDelta itemId j d delta =>
    if j = i ∧ d = c then some (.delta itemId delta) else none
  | .contentPartDone itemId j d text =>
    if j = i ∧ d = c then some (.done itemId text) else none
  | _ => none

def isCreated : ResponseStreamEvent → Bool
  | .created _ => true
  | _ => false

def isCompleted : ResponseStreamEvent → Bool
  | .completed _ => true
  | _ => false

/-- The response is completed, incomplete or failed. -/
def isTerminal : ResponseStreamEvent → Bool
  | .completed _ | .incomplete _ | .failed _ => true
  | _ => false

end ResponseStreamEvent

def itemMarks (i : Nat) (out : List StreamEvent) : List ItemMark :=
  out.filterMap fun e => e.event.itemMark i

def partMarks (i c : Nat) (out : List StreamEvent) : List PartMark :=
  out.filterMap fun e => e.event.partMark i c

-- ======== stories

/-- The message is added, gets deltas, and is done. -/
def MessageLife (texts content : List Strng) (marks : List ItemMark) : Prop :=
  ∃ id, marks = .added (.message ⟨[], id, .inProgress⟩)
    :: texts.map (.delta id) ++ [.done (.message ⟨content, id, .completed⟩)]

/-- At the end the message has the text of its deltas. -/
def MessageStory (marks : List ItemMark) : Prop :=
  ∃ texts content, MessageLife texts content marks ∧ String.join content = String.join texts

/-- A tool call is added, gets deltas, and is done with all the arguments. -/
def ToolStory (marks : List ItemMark) : Prop :=
  ∃ id name name' deltas, marks = .added (.functionCall ⟨"", id, name, some id, some .inProgress⟩)
      :: deltas.map (.delta id) ++ [.argumentsDone id name' (String.join deltas),
        .done (.functionCall ⟨String.join deltas, id, name', some id, some .completed⟩)]

/-- A part is added, gets deltas, and is done. -/
def PartLife (texts : List Strng) (text : Strng) (marks : List PartMark) : Prop :=
  ∃ id, marks = .added id "" :: texts.map (.delta id) ++ [.done id text]

/-- At the end the part has the text of its deltas. -/
def PartStory (marks : List PartMark) : Prop :=
  ∃ texts, PartLife texts (String.join texts) marks

/-- The numbers count from 1. -/
def Consecutive (out : List StreamEvent) : Prop :=
  out.map (·.sequenceNumber) = List.range' 1 out.length

/-- The response is created first, and once. -/
def CreatedFirst (out : List StreamEvent) : Prop :=
  ∃ e rest, out = e :: rest ∧ e.event.isCreated ∧ ∀ e ∈ rest, e.event.isCreated = false

structure WellFormed (out : List StreamEvent) : Prop where
  consecutive : Consecutive out
  created : out = [] ∨ CreatedFirst out
  items : ∀ i, itemMarks i out = [] ∨ MessageStory (itemMarks i out) ∨ ToolStory (itemMarks i out)
  parts : ∀ i c, partMarks i c out = [] ∨ PartStory (partMarks i c out)
  /-- nothing follows the completion -/
  completed : ∀ pre e post, out = pre ++ e :: post → e.event.isCompleted → post = []

open Lib List AssocMap ResponseStreamEvent

variable {K α : Type} {out out' : List StreamEvent} {call' call : ToolCall} (i c : Nat)
  (e : StreamEvent)

-- ======== marks

@[simp] theorem itemMarks_append (out out' : List StreamEvent) :
    itemMarks i (out ++ out') = itemMarks i out ++ itemMarks i out' :=
  filterMap_append

@[simp] theorem itemMarks_cons (out : List StreamEvent) :
    itemMarks i (e :: out) = (e.event.itemMark i).toList ++ itemMarks i out := by
  cases h : e.event.itemMark i with
  | none | some => simp [itemMarks, h]

@[simp] theorem itemMarks_nil : itemMarks i [] = [] := rfl

@[simp] theorem partMarks_append (out out' : List StreamEvent) :
    partMarks i c (out ++ out') = partMarks i c out ++ partMarks i c out' :=
  filterMap_append

@[simp] theorem partMarks_cons (out : List StreamEvent) :
    partMarks i c (e :: out) = (e.event.partMark i c).toList ++ partMarks i c out := by
  cases h : e.event.partMark i c with
  | none | some => simp [partMarks, h]

@[simp] theorem partMarks_nil : partMarks i c [] = [] := rfl

-- ======== calls

/-- The call is added and has got its arguments so far. -/
def ToolOpen (call : ToolCall) (marks : List ItemMark) : Prop :=
  ∃ name deltas, marks = .added (.functionCall
          ⟨"", call.itemId, name, some call.itemId, some .inProgress⟩)
        :: deltas.map (.delta call.itemId)
    ∧ String.join deltas = call.buffer

structure Calls (live : Set ToolCall) (next : Nat) (out : List StreamEvent) : Prop where
  first : 1 ≤ next
  placed : ∀ call ∈ live, 1 ≤ call.outputIndex ∧ call.outputIndex < next
  opened : ∀ call ∈ live, ToolOpen call (itemMarks call.outputIndex out)
  distinct : live.InjOn ToolCall.outputIndex
  told : ∀ i, 1 ≤ i → i < next → (∃ call ∈ live, call.outputIndex = i) ∨ ToolStory (itemMarks i out)
  fresh : ∀ i, next ≤ i → itemMarks i out = []

namespace Calls

variable {live : Set ToolCall} {next : Nat}

section

variable (h : Calls live next out)
include h

theorem congr (hout : ∀ i, 1 ≤ i → itemMarks i out' = itemMarks i out) : Calls live next out' :=
  { h with
    opened := fun c hc => by
      rw [hout _ (h.placed c hc).1]
      exact h.opened c hc
    told := fun i h1 hi => by
      rw [hout i h1]
      exact h.told i h1 hi
    fresh := fun i hi => by
      rw [hout i (h.first.trans hi)]
      exact h.fresh i hi }

theorem other {e : StreamEvent} (he : ∀ i, 1 ≤ i → e.event.itemMark i = none) :
    Calls live next (out ++ [e]) :=
  h.congr fun i hi => by simp [he i hi]

theorem ne_of_mem_diff (hcall : call ∈ live)
    {c : ToolCall} (hc : c ∈ live \ {call}) : c.outputIndex ≠ call.outputIndex :=
  fun heq => hc.2 (h.distinct hc.1 hcall heq)

theorem add (hidx : call.outputIndex = next) (hbuf : call.buffer = "") (n : Nat) :
    Calls (insert call live) (next + 1) (out ++
      [⟨n, .outputItemAdded call.outputIndex (call.item "" .inProgress)⟩]) where
  first := h.first.trans (Nat.le_succ _)
  placed c hc := by
    rcases hc with rfl | hc
    · have := h.first
      omega
    · have := h.placed c hc
      omega
  opened c hc := by
    rcases hc with rfl | hc
    · refine ⟨c.name, [], ?_, hbuf.symm⟩
      rw [itemMarks_append, h.fresh _ hidx.ge]
      simp [itemMark, ToolCall.item]
    · have hne : call.outputIndex ≠ c.outputIndex := by
        have := h.placed c hc
        omega
      simpa [itemMark, hne] using h.opened c hc
  distinct := by
    rw [Set.injOn_insert]
    · refine ⟨h.distinct, ?_⟩
      rintro ⟨c, hc, heq⟩
      have := h.placed c hc
      omega
    · intro hc
      have := h.placed call hc
      omega
  told i h1 hi := by
    rcases Nat.lt_succ_iff_lt_or_eq.1 hi with hlt | rfl
    · have hne : call.outputIndex ≠ i := by omega
      rcases h.told i h1 hlt with ⟨c, hc, heq⟩ | hstory
      · exact Or.inl ⟨c, Or.inr hc, heq⟩
      · refine Or.inr ?_
        simpa [itemMark, hne] using hstory
    · exact Or.inl ⟨call, Or.inl rfl, hidx⟩
  fresh i hi := by
    have hne : call.outputIndex ≠ i := by omega
    have := h.fresh i (Nat.le_of_succ_le hi)
    simpa [itemMark, hne] using this

/-- What is open at the place of a call changes, and only that place is spoken
of. -/
theorem change {new : Set ToolCall} (hcall : call ∈ live) (hone : new.Subsingleton)
    (hopen : ∀ c ∈ new, c.outputIndex = call.outputIndex
      ∧ ToolOpen c (itemMarks call.outputIndex out'))
    (htold : new.Nonempty ∨ ToolStory (itemMarks call.outputIndex out'))
    (hout : ∀ i, i ≠ call.outputIndex → itemMarks i out' = itemMarks i out) :
    Calls (new ∪ live \ {call}) next out' where
  first := h.first
  placed c hc := by
    rcases hc with hc | hc
    · rw [(hopen c hc).1]
      exact h.placed call hcall
    · exact h.placed c hc.1
  opened c hc := by
    rcases hc with hc | hc
    · rw [(hopen c hc).1]
      exact (hopen c hc).2
    · rw [hout _ (h.ne_of_mem_diff hcall hc)]
      exact h.opened c hc.1
  distinct := by
    intro c hc d hd heq
    rcases hc with hc | hc
    · rcases hd with hd | hd
      · exact hone hc hd
      · exact absurd (heq.symm.trans (hopen c hc).1) (h.ne_of_mem_diff hcall hd)
    · rcases hd with hd | hd
      · exact absurd (heq.trans (hopen d hd).1) (h.ne_of_mem_diff hcall hc)
      · exact h.distinct hc.1 hd.1 heq
  told i h1 hi := by
    rcases eq_or_ne i call.outputIndex with rfl | hne
    · exact htold.imp_left fun ⟨c, hc⟩ => ⟨c, Or.inl hc, (hopen c hc).1⟩
    · rw [hout i hne]
      refine (h.told i h1 hi).imp_left ?_
      rintro ⟨c, hc, rfl⟩
      refine ⟨c, Or.inr ⟨hc, ?_⟩, rfl⟩
      rintro rfl
      exact hne rfl
  fresh i hi := by
    have hne : i ≠ call.outputIndex := by
      have := h.placed call hcall
      omega
    rw [hout i hne]
    exact h.fresh i hi

theorem replace (hcall : call ∈ live) (hidx : call'.outputIndex = call.outputIndex)
    (hopen : ToolOpen call' (itemMarks call.outputIndex out'))
    (hout : ∀ i, i ≠ call.outputIndex → itemMarks i out' = itemMarks i out) :
    Calls (insert call' (live \ {call})) next out' := by
  refine h.change hcall Set.subsingleton_singleton ?_ (Or.inl ⟨call', rfl⟩) hout
  rintro _ rfl
  exact ⟨hidx, hopen⟩

theorem extend (hcall : call ∈ live) (name args : Strng) (n : Nat) :
    Calls (insert { call with name := name, buffer := call.buffer ++ args } (live \ {call})) next
      (out ++ [⟨n, .functionCallArgumentsDelta call.itemId call.outputIndex args⟩]) := by
  refine h.replace hcall rfl ?_ ?_
  · obtain ⟨name₀, deltas, hmarks, hjoin⟩ := h.opened call hcall
    refine ⟨name₀, deltas ++ [args], ?_, by simp [hjoin]⟩
    simp [hmarks, itemMark]
  · intro i hne
    simp [itemMark, hne.symm]

theorem rename (hcall : call ∈ live) (name : Strng) :
    Calls (insert { call with name := name } (live \ {call})) next out :=
  h.replace hcall rfl (h.opened call hcall) fun _ _ => rfl

theorem finish (hcall : call ∈ live) (n n' : Nat) : Calls (live \ {call}) next (out ++
      [⟨n, .functionCallArgumentsDone call.name call.itemId call.outputIndex call.buffer⟩,
        ⟨n', .outputItemDone call.outputIndex (call.item call.buffer .completed)⟩]) := by
  rw [← Set.empty_union (live \ {call})]
  refine h.change hcall Set.subsingleton_empty nofun (Or.inr ?_) ?_
  · obtain ⟨name₀, deltas, hmarks, hjoin⟩ := h.opened call hcall
    refine ⟨call.itemId, name₀, call.name, deltas, ?_⟩
    simp [hmarks, hjoin, itemMark, ToolCall.item]
  · intro i hne
    simp [itemMark, hne.symm]

end

theorem all_told (h : Calls ∅ next out) (i : Nat) (h1 : 1 ≤ i) :
    itemMarks i out = [] ∨ ToolStory (itemMarks i out) := by
  rcases Nat.lt_or_ge i next with hlt | hge
  · rcases h.told i h1 hlt with ⟨c, hc, -⟩ | hstory
    · exact hc.elim
    · exact Or.inr hstory
  · exact Or.inl (h.fresh i hge)

end Calls

-- ======== counts

/-- The events are numbered, and `n` is the last number. -/
structure Counts (n : Nat) (out : List StreamEvent) : Prop where
  count : n = out.length
  consecutive : Consecutive out

variable {event : ResponseStreamEvent} {s : State K α} {texts : List Strng} {ids : Ids} {n : Nat}
  {key : K}

theorem Counts.sent (h : Counts n out) (event : ResponseStreamEvent) :
    Counts (n + 1) (out ++ [⟨n + 1, event⟩]) where
  count := by
    rw [h.count, length_append]
    rfl
  consecutive := by
    rw [Consecutive, map_append, h.consecutive, length_append,
      length_singleton, range'_concat, map_singleton, h.count,
      Nat.one_mul, Nat.add_comm 1]

def State.sent (s : State K α) : State K α :=
  { s with sequenceNumber := s.sequenceNumber + 1 }

def State.stamp (s : State K α) (event : ResponseStreamEvent) : StreamEvent :=
  ⟨s.sequenceNumber + 1, event⟩

-- ======== tracks

structure Tracks (s : State K α) (out : List StreamEvent) : Prop where
  counts : Counts s.sequenceNumber out
  keyed : s.toolCalls.values.Nodup
  calls : Calls {c | c ∈ s.toolCalls.values} s.nextOutputIndex out

namespace Tracks

theorem init (rest : α) : Tracks (State.init rest : State K α) [] where
  counts := ⟨rfl, rfl⟩
  keyed := nodup_nil
  calls := by
    refine ⟨le_rfl, nofun, nofun, nofun, fun i h1 hi => ?_, fun _ _ => rfl⟩
    exact absurd hi (Nat.not_lt.2 h1)

section

variable (h : Tracks s out)
include h

theorem setRest (rest : α) : Tracks { s with rest := rest } out :=
  { h with }

theorem other (he : ∀ i, 1 ≤ i → event.itemMark i = none) :
    Tracks s.sent (out ++ [s.stamp event]) :=
  ⟨h.counts.sent event, h.keyed, h.calls.other he⟩

variable [DecidableEq K]

theorem eq_of_outputIndex (hkey : s.toolCalls.get? key = some call)
    {key' : K} (hkey' : s.toolCalls.get? key' = some call')
    (hidx : call'.outputIndex = call.outputIndex) : key' = key := by
  have heq : call' = call := h.calls.distinct
    (mem_values.2 ⟨key', hkey'⟩) (mem_values.2 ⟨key, hkey⟩) hidx
  exact nodup_values_iff.1 h.keyed _ _ _ (heq ▸ hkey') hkey

theorem add (hkey : s.toolCalls.get? key = none)
    (hidx : call.outputIndex = s.nextOutputIndex) (hbuf : call.buffer = "") : Tracks { s.sent with
        nextOutputIndex := s.nextOutputIndex + 1
        toolCalls := s.toolCalls.insert key call }
      (out ++ [s.stamp (.outputItemAdded call.outputIndex (call.item "" .inProgress))]) where
  counts := h.counts.sent _
  keyed := nodup_values_insert h.keyed fun k hk => by
    have := h.calls.placed call (mem_values.2 ⟨k, hk⟩)
    omega
  calls := by
    have hset : {c | c ∈ (s.toolCalls.insert key call).values}
        = insert call {c | c ∈ s.toolCalls.values} :=
      Set.ext fun c => mem_values_insert_of_none hkey
    exact hset ▸ h.calls.add hidx hbuf _

theorem replace (hkey : s.toolCalls.get? key = some call) (hcounts : Counts n out')
    (hcalls : Calls (insert call' ({c | c ∈ s.toolCalls.values} \ {call}))
      s.nextOutputIndex out') (hidx : call'.outputIndex = call.outputIndex) : Tracks { s with
      sequenceNumber := n
      toolCalls := s.toolCalls.insert key call' } out' where
  counts := hcounts
  keyed := nodup_values_insert h.keyed fun k hk =>
    h.eq_of_outputIndex hkey hk hidx
  calls := by
    have hset : {c | c ∈ (s.toolCalls.insert key call').values}
        = insert call' ({c | c ∈ s.toolCalls.values} \ {call}) :=
      Set.ext fun c => mem_values_insert h.keyed hkey
    exact hset ▸ hcalls

theorem extend (hkey : s.toolCalls.get? key = some call) (name args : Strng) : Tracks { s.sent with
        toolCalls := s.toolCalls.insert key
          { call with name := name, buffer := call.buffer ++ args } }
      (out ++ [s.stamp (.functionCallArgumentsDelta call.itemId call.outputIndex args)]) :=
  h.replace hkey (h.counts.sent _) (h.calls.extend (mem_values.2 ⟨key, hkey⟩) name args _) rfl

theorem rename (hkey : s.toolCalls.get? key = some call) (name : Strng) :
    Tracks { s with toolCalls := s.toolCalls.insert key { call with name := name } }
      out :=
  h.replace hkey h.counts (h.calls.rename (mem_values.2 ⟨key, hkey⟩) name) rfl

theorem finish (hkey : s.toolCalls.get? key = some call) :
    Tracks { s.sent.sent with toolCalls := s.toolCalls.erase key }
      (out ++ [s.stamp (.functionCallArgumentsDone call.name call.itemId
          call.outputIndex call.buffer),
        s.sent.stamp (.outputItemDone call.outputIndex (call.item call.buffer .completed))]) where
  counts := by
    rw [append_cons]
    exact (h.counts.sent _).sent _
  keyed := h.keyed.sublist (filter_sublist.map Prod.snd)
  calls := by
    have hset : {c | c ∈ (s.toolCalls.erase key).values} = {c | c ∈ s.toolCalls.values} \ {call} :=
      Set.ext fun c => mem_values_erase h.keyed hkey
    exact hset ▸ h.calls.finish (mem_values.2 ⟨key, hkey⟩) _ _

end

end Tracks

-- ======== live

theorem CreatedFirst.append (h : CreatedFirst out)
    (hout' : ∀ e ∈ out', e.event.isCreated = false) : CreatedFirst (out ++ out') := by
  obtain ⟨e, rest, rfl, he, hrest⟩ := h
  refine ⟨e, rest ++ out', rfl, he, ?_⟩
  intro e' he'
  rcases mem_append.1 he' with hmem | hmem
  · exact hrest e' hmem
  · exact hout' e' hmem

/-- The response is created and not at its end: the message is open, with the
texts it has got. -/
structure Live (ids : Ids) (texts : List Strng) (s : State K α)
    (out : List StreamEvent) : Prop where
  tracks : Tracks s out
  created : CreatedFirst out
  message : itemMarks 0 out = .added (messageItem ids .inProgress)
    :: texts.map (.delta ids.messageItemId)
  running : ∀ e ∈ out, e.event.isTerminal = false

namespace Live

variable {s' : State K α}

theorem start (h : Tracks s []) (model : Strng) :
    Live ids [] s.sent.sent [s.stamp (ResponseBuilder.mk ids.responseId model).createdEvent,
        s.sent.stamp (.outputItemAdded 0 (messageItem ids .inProgress))] where
  tracks := (h.other fun _ _ => rfl).other fun i hi =>
    if_neg (Nat.ne_of_lt hi)
  created := ⟨_, _, rfl, rfl, by simp [State.stamp, isCreated]⟩
  message := rfl
  running := by
    simp [State.stamp, isTerminal, ResponseBuilder.createdEvent]

section

variable (h : Live ids texts s out) {es : List StreamEvent}
include h

/-- Events that keep track of the tool calls, of which only texts are about the
message. -/
theorem append (htracks : Tracks s' (out ++ es)) (more : List Strng)
    (hmessage : itemMarks 0 es = more.map (.delta ids.messageItemId))
    (hes : ∀ e ∈ es, e.event.isCreated = false ∧ e.event.isTerminal = false) :
    Live ids (texts ++ more) s' (out ++ es) where
  tracks := htracks
  created := h.created.append fun e he => (hes e he).1
  message := by
    rw [itemMarks_append, h.message, hmessage, map_append]
    rfl
  running e he := by
    rcases mem_append.1 he with hmem | hmem
    · exact h.running e hmem
    · exact (hes e hmem).2

theorem keep (htracks : Tracks s' (out ++ es)) (hmessage : itemMarks 0 es = [])
    (hes : ∀ e ∈ es, e.event.isCreated = false ∧ e.event.isTerminal = false) :
    Live ids texts s' (out ++ es) := by
  have happend := h.append htracks [] hmessage hes
  rwa [append_nil] at happend

theorem setRest (rest : α) : Live ids texts { s with rest := rest } out :=
  ⟨h.tracks.setRest rest, h.created, h.message, h.running⟩

theorem text (c : Nat) (delta : Strng) : Live ids (texts ++ [delta]) s.sent
      (out ++ [s.stamp (.outputTextDelta ids.messageItemId 0 c delta)]) := by
  refine h.append (h.tracks.other fun i hi => ?_) [delta] rfl ?_
  · exact if_neg (Nat.ne_of_lt hi)
  · simp [State.stamp, isCreated, isTerminal]

theorem quiet (hmark : ∀ i, event.itemMark i = none) (hcreated : event.isCreated = false)
    (hterminal : event.isTerminal = false) : Live ids texts s.sent (out ++ [s.stamp event]) := by
  refine h.keep (h.tracks.other fun i _ => hmark i) ?_ ?_
  · simp [State.stamp, hmark]
  · simp [State.stamp, hcreated, hterminal]

theorem partAdded : Live ids texts s.sent
      (out ++ [s.stamp (.contentPartAdded ids.messageItemId 0 0 "")]) :=
  h.quiet (fun _ => rfl) rfl rfl

theorem partDone : Live ids texts s.sent
      (out ++ [s.stamp (.contentPartDone ids.messageItemId 0 0 "")]) :=
  h.quiet (fun _ => rfl) rfl rfl

variable [DecidableEq K]

theorem place_ne_zero (hkey : s.toolCalls.get? key = some call) : call.outputIndex ≠ 0 := by
  have := h.tracks.calls.placed call (mem_values.2 ⟨key, hkey⟩)
  omega

theorem add (hkey : s.toolCalls.get? key = none)
    (hidx : call.outputIndex = s.nextOutputIndex) (hbuf : call.buffer = "") :
    Live ids texts { s.sent with
        nextOutputIndex := s.nextOutputIndex + 1
        toolCalls := s.toolCalls.insert key call }
      (out ++ [s.stamp (.outputItemAdded call.outputIndex (call.item "" .inProgress))]) := by
  refine h.keep (h.tracks.add hkey hidx hbuf) ?_ ?_
  · have hne : call.outputIndex ≠ 0 := by
      have := h.tracks.calls.first
      omega
    simp [State.stamp, itemMark, hne]
  · simp [State.stamp, isCreated, isTerminal]

theorem extend (hkey : s.toolCalls.get? key = some call) (name args : Strng) :
    Live ids texts { s.sent with
        toolCalls := s.toolCalls.insert key
          { call with name := name, buffer := call.buffer ++ args } }
      (out ++ [s.stamp (.functionCallArgumentsDelta call.itemId call.outputIndex args)]) := by
  refine h.keep (h.tracks.extend hkey name args) ?_ ?_
  · simp [State.stamp, itemMark, h.place_ne_zero hkey]
  · simp [State.stamp, isCreated, isTerminal]

theorem rename (hkey : s.toolCalls.get? key = some call) (name : Strng) : Live ids texts
      { s with toolCalls := s.toolCalls.insert key { call with name := name } } out :=
  ⟨h.tracks.rename hkey name, h.created, h.message, h.running⟩

theorem finish (hkey : s.toolCalls.get? key = some call) :
    Live ids texts { s.sent.sent with toolCalls := s.toolCalls.erase key }
      (out ++ [s.stamp (.functionCallArgumentsDone call.name call.itemId
          call.outputIndex call.buffer),
        s.sent.stamp (.outputItemDone call.outputIndex (call.item call.buffer .completed))]) := by
  refine h.keep (h.tracks.finish hkey) ?_ ?_
  · simp [State.stamp, itemMark, h.place_ne_zero hkey]
  · simp [State.stamp, isCreated, isTerminal]

end

end Live

-- ======== finished

theorem ResponseStreamEvent.itemMark_of_isTerminal (h : event.isTerminal)
    (i : Nat) : event.itemMark i = none := by
  cases event <;> first | rfl | cases h

theorem ResponseStreamEvent.partMark_of_isTerminal (h : event.isTerminal)
    (i c : Nat) : event.partMark i c = none := by
  cases event <;> first | rfl | cases h

theorem ResponseStreamEvent.isCreated_of_isTerminal (h : event.isTerminal) :
    event.isCreated = false := by
  cases event <;> first | rfl | cases h

/-- A response from its creation to its end, with the texts of its message. -/
structure Finished (texts : List Strng) (out : List StreamEvent) : Prop where
  consecutive : Consecutive out
  created : CreatedFirst out
  message : MessageLife texts [] (itemMarks 0 out)
  tools : ∀ i, 1 ≤ i → itemMarks i out = [] ∨ ToolStory (itemMarks i out)
  terminal : ∃ pre e, out = pre ++ [e] ∧ e.event.isTerminal ∧ ∀ e ∈ pre, e.event.isTerminal = false

theorem Live.finished [DecidableEq K]
    (h : Live ids texts s out) (hnone : ∀ key, s.toolCalls.get? key = none)
    (hevent : event.isTerminal) :
    Finished texts (out ++ [s.stamp (.outputItemDone 0 (messageItem ids .completed)),
      s.sent.stamp event]) := by
  have hmark : ∀ i, itemMarks i
      [s.stamp (.outputItemDone 0 (messageItem ids .completed)), s.sent.stamp event]
      = if 0 = i then [.done (messageItem ids .completed)] else [] := by
    intro i
    have hlast := itemMark_of_isTerminal hevent i
    rw [itemMarks_cons, itemMarks_cons, State.stamp, State.stamp, hlast]
    simp only [itemMark]
    split <;> rfl
  have hempty : {c | c ∈ s.toolCalls.values} = ∅ := by
    refine Set.eq_empty_iff_forall_notMem.2 fun c hc => ?_
    obtain ⟨key, hkey⟩ := mem_values.1 hc
    rw [hnone key] at hkey
    cases hkey
  have hcalls := h.tracks.calls
  rw [hempty] at hcalls
  refine ⟨?_, ?_, ?_, ?_, ?_⟩
  · rw [append_cons]
    exact ((h.tracks.counts.sent _).sent _).consecutive
  · refine h.created.append (forall_mem_cons.2 ⟨rfl, forall_mem_singleton.2 ?_⟩)
    exact isCreated_of_isTerminal hevent
  · refine ⟨ids.messageItemId, ?_⟩
    rw [itemMarks_append, h.message, hmark]
    rfl
  · intro i hi
    rw [itemMarks_append, hmark, if_neg (Nat.ne_of_lt hi), append_nil]
    exact hcalls.all_told i hi
  · refine ⟨out ++ [_], _, append_cons _ _ _, hevent, ?_⟩
    intro e he
    rcases mem_append.1 he with hmem | hmem
    · exact h.running e hmem
    · rw [mem_singleton.1 hmem]
      rfl

def sampleIds : Ids := ⟨"resp", "msg", fun n => "call" ++ toString n⟩

end AgentGateway.Llm.Responses
