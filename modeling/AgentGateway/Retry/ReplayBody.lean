/-
Request bodies that can be sent again (`http/retry/body.rs`).

A `ReplayBody` wraps the body of a request and records what is read from
it. When it is dropped, its state goes to a place shared with its clones;
the clone that is polled next takes it from there, replays what was
recorded, and reads on. At most a given number of bytes is recorded.

The inner body is what it answers to the polls to come: chunks, errors
and not-yets in any order, then trailers if it has any, then its end for
ever. Polling a clone while another one has the state panics, which is
`none` here.

At any time what a handle has left to say is a list, `plays`: what it
still replays, the error if recording was given up, the trailers it
still replays, and what the inner body has left. A poll answers the head
of that list and leaves its tail, so polling a handle many times reads
the list off, and then answers the end for ever. `Recorded` says what the
state has kept of the part of the inner body that was read: all its chunks
if they are within the maximum, and no bytes at all if they are not.
-/
import Mathlib.Data.List.Basic
import Mathlib.Algebra.Group.Nat.Defs

namespace AgentGateway.Retry

abbrev Bytes := List UInt8

variable {H E : Type}

/-- What a body answers to a poll. -/
inductive Polled (H E : Type)
  | pending
  | data (chunk : Bytes)
  | trailers (trailers : H)
  | error (error : E)
  | ended
  deriving DecidableEq

-- ======== inner body

inductive Item (E : Type)
  | pending
  | data (chunk : Bytes)
  | error (error : E)

structure Inner (H E : Type) where
  items : List (Item E)
  trailers : Option H
  /-- The lower bound of the size hint. -/
  sizeHint : Nat

/-- The answer to a poll, and what is left. -/
def Inner.poll (b : Inner H E) : Polled H E × Inner H E :=
  match b.items with
  | .pending :: items => (.pending, { b with items := items })
  | .data chunk :: items => (.data chunk, { b with items := items })
  | .error e :: items => (.error e, { b with items := items })
  | [] =>
    match b.trailers with
    | some t => (.trailers t, { b with trailers := none })
    | none => (.ended, b)

-- ======== state

/-- The errors of a replayed body: its own, or those of the inner one. -/
inductive Failure (E : Type)
  | capped
  | inner (error : E)
  deriving DecidableEq

/-- `maxBytes` counts down, from one more than may be recorded. -/
structure BodyState (H E : Type) where
  replay : List Bytes
  replayIdx : Nat
  trailers : Option H
  rest : Inner H E
  isCompleted : Bool
  maxBytes : Nat

namespace BodyState

def isCapped (s : BodyState H E) : Bool := s.maxBytes == 0

def hasRemaining (replay : List Bytes) : Bool :=
  replay.any fun chunk => !chunk.isEmpty

def recordBytes (s : BodyState H E) (data : Bytes) : BodyState H E :=
  let s := { s with maxBytes := s.maxBytes - data.length }
  if s.isCapped then
    if hasRemaining s.replay then { s with replay := [] } else s
  else { s with replay := s.replay ++ [data] }

end BodyState

structure ReplayBody (H E : Type) where
  state : Option (BodyState H E)
  replayBody : Bool
  replayTrailers : Bool

namespace ReplayBody

/-- The maximum is a machine word, and so is one more than it. -/
def tryNew (body : Inner H E) (maxBytes : Nat) : Except (Inner H E) (ReplayBody H E) :=
  if maxBytes < body.sizeHint then .error body
  else
    .ok {
      state := some {
        replay := []
        replayIdx := 0
        trailers := none
        rest := body
        isCompleted := false
        maxBytes := (maxBytes + 1) % 2 ^ 64 }
      replayBody := false
      replayTrailers := false }

def clone : ReplayBody H E := ⟨none, true, true⟩

-- ======== polling

/-- The last part of a poll: what the inner body says. -/
def pollInner (s : BodyState H E) : Polled H (Failure E) × BodyState H E :=
  if s.isCompleted then (.ended, s)
  else
    match s.rest.poll with
    | (.pending, rest) => (.pending, { s with rest := rest })
    | (.data data, rest) =>
      (.data data, { s with rest := rest }.recordBytes data)
    | (.trailers t, rest) =>
      (.trailers t, { s with rest := rest, trailers := some t, isCompleted := true })
    | (.error e, rest) => (.error (.inner e), { s with rest := rest })
    | (.ended, rest) => (.ended, { s with rest := rest, isCompleted := true })

/-- The part before: the trailers that were recorded. -/
def pollTrailers (s : BodyState H E) (replayBody replayTrailers : Bool) :
    Polled H (Failure E) × ReplayBody H E :=
  if replayTrailers then
    match s.trailers with
    | some t => (.trailers t, ⟨some s, replayBody, false⟩)
    | none =>
      let (out, s) := pollInner s
      (out, ⟨some s, replayBody, false⟩)
  else
    let (out, s) := pollInner s
    (out, ⟨some s, replayBody, false⟩)

def pollState (s : BodyState H E) (replayBody replayTrailers : Bool) :
    Polled H (Failure E) × ReplayBody H E :=
  if replayBody then
    match s.replay[s.replayIdx]? with
    | some frame =>
      (.data frame, ⟨some { s with replayIdx := s.replayIdx + 1 }, true, replayTrailers⟩)
    | none =>
      if s.isCapped then (.error .capped, ⟨some s, false, replayTrailers⟩)
      else pollTrailers s false replayTrailers
  else pollTrailers s false replayTrailers

/-- A poll takes the shared state unless the body has it already. -/
def pollFrame (b : ReplayBody H E) (shared : Option (BodyState H E)) :
    Option (Polled H (Failure E) × ReplayBody H E × Option (BodyState H E)) :=
  match b.state with
  | some s =>
    let (out, b) := pollState s b.replayBody b.replayTrailers
    some (out, b, shared)
  | none =>
    match shared with
    | some s =>
      let (out, b) := pollState s b.replayBody b.replayTrailers
      some (out, b, none)
    | none => none

def pollMany : Nat → ReplayBody H E → Option (BodyState H E) →
    Option (List (Polled H (Failure E)) × ReplayBody H E × Option (BodyState H E))
  | 0, b, shared => some ([], b, shared)
  | n + 1, b, shared => do
      let (out, b, shared) ← b.pollFrame shared
      let (outs, b, shared) ← pollMany n b shared
      some (out :: outs, b, shared)

/-- `Drop`: the state is put back. -/
def drop (b : ReplayBody H E) (shared : Option (BodyState H E)) : Option (BodyState H E) :=
  match b.state with
  | some s => some { s with replayIdx := 0 }
  | none => shared

/-- A body is polled so many times, and dropped. -/
def use (b : ReplayBody H E) (n : Nat) (shared : Option (BodyState H E)) :
    Option (List (Polled H (Failure E)) × Option (BodyState H E)) := do
  let (outs, b, shared) ← b.pollMany n shared
  some (outs, b.drop shared)

def useClones : List Nat → Option (BodyState H E) → Option (Option (BodyState H E))
  | [], shared => some shared
  | n :: polls, shared => do
      let (_, shared) ← clone.use n shared
      useClones polls shared

end ReplayBody

open List ReplayBody

variable {H E : Type}

-- ======== inner body

def Item.chunk? : Item E → Option Bytes
  | .data chunk => some chunk
  | _ => none

def Item.polled : Item E → Polled H (Failure E)
  | .pending => .pending
  | .data chunk => .data chunk
  | .error e => .error (.inner e)

def chunks (items : List (Item E)) : List Bytes := items.filterMap Item.chunk?

def size (items : List (Item E)) : Nat := (chunks items).flatten.length

def Inner.data (b : Inner H E) : Bytes := (chunks b.items).flatten

/-- What a body answers to the polls to come. -/
def Inner.answers (b : Inner H E) : List (Polled H (Failure E)) :=
  b.items.map Item.polled ++ b.trailers.toList.map Polled.trailers

theorem chunks_append (items items' : List (Item E)) :
    chunks (items ++ items') = chunks items ++ chunks items' :=
  filterMap_append

-- ======== recording

/-- What the state keeps of the items read. -/
structure Recorded (inner : Inner H E) (max : Nat) (read : List (Item E))
    (s : BodyState H E) : Prop where
  items : inner.items = read ++ s.rest.items
  counter : s.maxBytes = max + 1 - size read
  replay : size read ≤ max → s.replay = chunks read
  capped : max < size read → ∀ chunk ∈ s.replay, chunk = []
  trailers : s.trailers.toList ++ s.rest.trailers.toList = inner.trailers.toList
  completed : s.isCompleted → s.rest.answers = []

variable {inner : Inner H E} {max : Nat} {read : List (Item E)} {s : BodyState H E}
  {b : ReplayBody H E} {items : List (Item E)} (l : List Bytes) (t : Option H)
  (outs : List (Polled H (Failure E)))

theorem Recorded.isCapped (h : Recorded inner max read s) : s.isCapped ↔ max < size read := by
  unfold BodyState.isCapped
  rw [h.counter, beq_iff_eq]
  omega

theorem not_hasRemaining {replay : List Bytes} (h : BodyState.hasRemaining replay ≠ true) :
    ∀ chunk ∈ replay, chunk = [] := by
  intro chunk hmem
  cases chunk with
  | nil => rfl
  | cons x xs => exact absurd (any_eq_true.2 ⟨x :: xs, hmem, rfl⟩) h

theorem recorded_recordBytes {data : Bytes}
    (h : Recorded inner max read s) (hitems : s.rest.items = .data data :: items)
    (hnot : s.isCompleted = false) :
    Recorded inner max (read ++ [.data data]) (BodyState.recordBytes
        { s with rest := { s.rest with items := items } } data) := by
  have hsize : size (read ++ [Item.data (E := E) data]) = size read + data.length := by
    rw [size, chunks_append, flatten_append, length_append]
    exact congrArg (size read + ·) (congrArg length (append_nil data))
  have hcounter : s.maxBytes - data.length
      = max + 1 - size (read ++ [Item.data (E := E) data]) := by
    rw [hsize, h.counter, Nat.sub_sub]
  have hsplit : inner.items = (read ++ [.data data]) ++ items := by
    rw [h.items, hitems, append_assoc, singleton_append]
  have hopen : ∀ {P : Prop}, s.isCompleted → P := by
    intro P hc
    rw [hnot] at hc
    cases hc
  unfold BodyState.recordBytes BodyState.isCapped
  dsimp only
  split
  · next hzero =>
    have hcap : max < size (read ++ [Item.data (E := E) data]) := by
      have := beq_iff_eq.1 hzero
      omega
    split
    · exact ⟨hsplit, hcounter, fun hle => absurd hcap (Nat.not_lt.2 hle), nofun, h.trailers, hopen⟩
    · next hrem =>
      exact ⟨hsplit, hcounter, fun hle => absurd hcap (Nat.not_lt.2 hle),
        fun _ => not_hasRemaining hrem, h.trailers, hopen⟩
  · next hzero =>
    have hle : size (read ++ [Item.data (E := E) data]) ≤ max := by
      have : s.maxBytes - data.length ≠ 0 := fun h0 => hzero (beq_iff_eq.2 h0)
      omega
    refine ⟨hsplit, hcounter, fun _ => ?_, fun hcap => absurd hcap
      (Nat.not_lt.2 hle), h.trailers, hopen⟩
    rw [h.replay (by omega), chunks_append]
    rfl

theorem rest_recordBytes (s : BodyState H E) (data : Bytes) :
    (s.recordBytes data).rest = s.rest := by
  unfold BodyState.recordBytes
  dsimp only
  split
  · split <;> rfl
  · rfl

section

variable (h : Recorded inner max read s)
include h

theorem Recorded.skip {item : Item E} (hitems : s.rest.items = item :: items)
    (hno : item.chunk? = none) (hnot : s.isCompleted = false) :
    Recorded inner max (read ++ [item]) { s with rest := { s.rest with items := items } } := by
  have hchunks : chunks (read ++ [item]) = chunks read := by
    rw [chunks_append]
    unfold chunks
    rw [filterMap_cons_none hno, filterMap_nil, append_nil]
  have hsize : size (read ++ [item]) = size read := by
    unfold size
    rw [hchunks]
  refine ⟨?_, ?_, ?_, ?_, h.trailers, ?_⟩
  · rw [h.items, hitems, append_assoc, singleton_append]
  · rw [hsize]
    exact h.counter
  · rw [hsize, hchunks]
    exact h.replay
  · rw [hsize]
    exact h.capped
  · intro hc
    rw [hnot] at hc
    cases hc

theorem pollInner_spec : (pollInner s).1 = s.rest.answers.headD .ended
      ∧ (pollInner s).2.rest.answers = s.rest.answers.tail
      ∧ ∃ read', Recorded inner max read' (pollInner s).2 := by
  obtain ⟨replay, idx, recorded, ⟨items, trailers, hint⟩, completed, left⟩ := s
  cases completed with
  | true =>
    have hdone : (⟨items, trailers, hint⟩ : Inner H E).answers = [] := h.completed rfl
    show .ended = ((⟨items, trailers, hint⟩ : Inner H E).answers).headD .ended ∧ _
    rw [hdone]
    exact ⟨rfl, hdone, read, h⟩
  | false =>
    cases items with
    | cons item items =>
      cases item with
      | pending | error => exact ⟨rfl, rfl, _, h.skip rfl rfl rfl⟩
      | data data =>
        exact ⟨rfl, congrArg Inner.answers (rest_recordBytes _ data), _,
          recorded_recordBytes h rfl rfl⟩
    | nil =>
      cases trailers with
      | none =>
        exact ⟨rfl, rfl, read, { h with completed := fun _ => rfl }⟩
      | some t =>
        refine ⟨rfl, rfl, read, { h with
          trailers := ?_, completed := fun _ => rfl }⟩
        -- there was no other trailer before
        have htrailers : recorded.toList ++ [t] = inner.trailers.toList := h.trailers
        cases recorded with
        | none => exact htrailers
        | some t' =>
          cases hx : inner.trailers <;> rw [hx] at htrailers <;>
            cases htrailers

-- ======== polling

/-- What a handle has left to say. -/
def plays (s : BodyState H E) (replayBody replayTrailers : Bool) : List (Polled H (Failure E)) :=
  (if replayBody then
      (s.replay.drop s.replayIdx).map Polled.data ++ if s.isCapped then [.error .capped] else []
    else [])
    ++ (if replayTrailers then s.trailers.toList.map Polled.trailers else [])
    ++ s.rest.answers

/-- A handle that has the state, with what it has left to say. -/
def Playing (inner : Inner H E) (max : Nat) (b : ReplayBody H E)
    (left : List (Polled H (Failure E))) : Prop :=
  ∃ s read, b.state = some s ∧ Recorded inner max read s
    ∧ left = plays s b.replayBody b.replayTrailers

theorem pollTrailers_spec (replayTrailers : Bool) : (pollTrailers s false replayTrailers).1
        = (plays s false replayTrailers).headD .ended
      ∧ Playing inner max (pollTrailers s false replayTrailers).2
        (plays s false replayTrailers).tail := by
  obtain ⟨hout, htail, read', h'⟩ := pollInner_spec h
  unfold pollTrailers
  cases replayTrailers with
  | false => exact ⟨hout, _, read', rfl, h', htail.symm⟩
  | true =>
    unfold plays
    cases ht : s.trailers with
    | some t => exact ⟨rfl, s, read, rfl, h, rfl⟩
    | none => exact ⟨hout, _, read', rfl, h', htail.symm⟩

theorem pollState_spec (replayBody replayTrailers : Bool) :
    (pollState s replayBody replayTrailers).1 = (plays s replayBody replayTrailers).headD .ended
      ∧ Playing inner max (pollState s replayBody replayTrailers).2
        (plays s replayBody replayTrailers).tail := by
  cases replayBody with
  | false => exact pollTrailers_spec h replayTrailers
  | true =>
    unfold pollState
    cases hi : s.replay[s.replayIdx]? with
    | some frame =>
      have hdrop : s.replay.drop s.replayIdx = frame :: s.replay.drop (s.replayIdx + 1) := by
        obtain ⟨hlt, hget⟩ := List.getElem?_eq_some_iff.1 hi
        rw [drop_eq_getElem_cons hlt, hget]
      unfold plays
      rw [hdrop]
      exact ⟨rfl, { s with replayIdx := s.replayIdx + 1 }, read, rfl, { h with }, rfl⟩
    | none =>
      have hdrop : s.replay.drop s.replayIdx = [] :=
        drop_eq_nil_of_le (getElem?_eq_none_iff.1 hi)
      cases hcap : s.isCapped with
      | true =>
        have hplays : plays s true replayTrailers
            = .error .capped :: plays s false replayTrailers := by
          unfold plays
          rw [hdrop, hcap]
          rfl
        rw [hplays]
        exact ⟨rfl, s, read, rfl, h, rfl⟩
      | false =>
        have hplays : plays s true replayTrailers = plays s false replayTrailers := by
          unfold plays
          rw [hdrop, hcap]
          rfl
        rw [hplays]
        exact pollTrailers_spec h replayTrailers

end

-- ======== handles

/-- The first `n` answers of a body that says `l` and then ends. -/
def pad (n : Nat) (l : List (Polled H (Failure E))) : List (Polled H (Failure E)) :=
  match n, l with
  | 0, _ => []
  | n + 1, [] => .ended :: pad n []
  | n + 1, x :: l => x :: pad n l

theorem pad_succ (n : Nat) (l : List (Polled H (Failure E))) :
    pad (n + 1) l = l.headD .ended :: pad n l.tail := by
  cases l <;> rfl

theorem pollMany_spec (n : Nat) : ∀ {b : ReplayBody H E} {left : List (Polled H (Failure E))}
      (shared : Option (BodyState H E)), Playing inner max b left →
      ∃ b' left', b.pollMany n shared = some (pad n left, b', shared)
        ∧ Playing inner max b' left' := by
  induction n with
  | zero =>
    intro b left shared h
    exact ⟨b, left, by cases left <;> rfl, h⟩
  | succ n ih =>
    intro b left shared h
    obtain ⟨s, read, hs, hrec, hleft⟩ := h
    obtain ⟨hout, hnext⟩ := pollState_spec hrec b.replayBody b.replayTrailers
    obtain ⟨b', left', hmany, h'⟩ := ih shared hnext
    refine ⟨b', left', ?_, h'⟩
    have hpoll : b.pollFrame shared = some (left.headD .ended,
          (pollState s b.replayBody b.replayTrailers).2, shared) := by
      unfold pollFrame
      rw [hs, hleft, ← hout]
    rw [pollMany, hpoll, Option.bind_eq_bind, Option.bind_some]
    dsimp only
    rw [hmany, pad_succ, hleft]
    rfl

theorem use_spec {left : List (Polled H (Failure E))} (h : Playing inner max b left)
    (n : Nat) (shared : Option (BodyState H E)) :
    ∃ s read, b.use n shared = some (pad n left, some s) ∧ s.replayIdx = 0
      ∧ Recorded inner max read s := by
  obtain ⟨b', left', hmany, s, read, hs, hrec, -⟩ := pollMany_spec n shared h
  have hdrop : b'.drop shared = some { s with replayIdx := 0 } := by
    unfold ReplayBody.drop
    rw [hs]
  refine ⟨{ s with replayIdx := 0 }, read, ?_, rfl, { hrec with }⟩
  rw [use, hmany]
  exact congrArg (fun shared => some (pad n left, shared)) hdrop

theorem clone_use_spec (h : Recorded inner max read s) (hidx : s.replayIdx = 0) (n : Nat) :
    ∃ s' read', clone.use n (some s) = some (pad n (plays s true true), some s')
      ∧ s'.replayIdx = 0 ∧ Recorded inner max read' s' := by
  cases n with
  | zero =>
    refine ⟨s, read, ?_, hidx, h⟩
    cases plays s true true <;> rfl
  | succ n =>
    have hplaying : Playing inner max ⟨some s, true, true⟩ (plays s true true) :=
      ⟨s, read, rfl, h, rfl⟩
    obtain ⟨s', read', huse, hidx', h'⟩ := use_spec hplaying (n + 1) none
    refine ⟨s', read', ?_, hidx', h'⟩
    rw [← huse]
    rfl

theorem useClones_spec (polls : List Nat) :
    ∀ {read : List (Item E)} {s : BodyState H E}, Recorded inner max read s → s.replayIdx = 0 →
      ∃ s' read', useClones polls (some s) = some (some s')
        ∧ s'.replayIdx = 0 ∧ Recorded inner max read' s' := by
  induction polls with
  | nil =>
    intro read s h hidx
    exact ⟨s, read, rfl, hidx, h⟩
  | cons n polls ih =>
    intro read s h hidx
    obtain ⟨s₁, read₁, huse, hidx₁, h₁⟩ := clone_use_spec h hidx n
    obtain ⟨s', read', hclones, hidx', h'⟩ := ih h₁ hidx₁
    refine ⟨s', read', ?_, hidx', h'⟩
    rw [useClones, huse]
    exact hclones

-- ======== result

def dataOf : Bytes :=
  outs.flatMap fun
    | .data chunk => chunk
    | _ => []

def trailersOf : List H :=
  outs.filterMap fun
    | .trailers t => some t
    | _ => none

theorem pad_of_ended {l : List (Polled H (Failure E))} (hno : .ended ∉ l) :
    ∀ {n : Nat}, .ended ∈ pad n l → ∃ m, pad n l = l ++ replicate m .ended := by
  induction l with
  | nil =>
    intro n hmem
    refine ⟨n, ?_⟩
    clear hmem
    induction n with
    | zero => rfl
    | succ n ih => exact congrArg (Polled.ended :: ·) ih
  | cons x l ih =>
    intro n hmem
    cases n with
    | zero => cases hmem
    | succ n =>
      rcases mem_cons.1 hmem with heq | hmem
      · exact absurd (heq ▸ mem_cons_self) hno
      · obtain ⟨m, hm⟩ := ih (fun h => hno (mem_cons_of_mem _ h)) hmem
        exact ⟨m, congrArg (x :: ·) hm⟩

theorem ended_not_mem_answers (b : Inner H E) : (.ended : Polled H (Failure E)) ∉ b.answers := by
  intro hmem
  rcases mem_append.1 hmem with hmem | hmem
  · obtain ⟨item, -, h⟩ := mem_map.1 hmem
    cases item <;> cases h
  · obtain ⟨t, -, h⟩ := mem_map.1 hmem
    cases h

theorem ended_not_mem_plays (s : BodyState H E) :
    (.ended : Polled H (Failure E)) ∉ plays s true true := by
  intro hmem
  rcases mem_append.1 hmem with hmem | hmem
  · rcases mem_append.1 hmem with hmem | hmem
    · rcases mem_append.1 hmem with hmem | hmem
      · obtain ⟨chunk, -, h⟩ := mem_map.1 hmem
        cases h
      · split at hmem
        · cases mem_singleton.1 hmem
        · cases hmem
    · obtain ⟨t, -, h⟩ := mem_map.1 hmem
      cases h
  · exact ended_not_mem_answers s.rest hmem

@[simp] theorem dataOf_append (outs' : List (Polled H (Failure E))) :
    dataOf (outs ++ outs') = dataOf outs ++ dataOf outs' :=
  flatMap_append

@[simp] theorem trailersOf_append (outs' : List (Polled H (Failure E))) :
    trailersOf (outs ++ outs') = trailersOf outs ++ trailersOf outs' :=
  filterMap_append

@[simp] theorem dataOf_data :
    dataOf (l.map Polled.data : List (Polled H (Failure E))) = l.flatten := by
  induction l with
  | nil => rfl
  | cons chunk l ih => exact congrArg (chunk ++ ·) ih

@[simp] theorem trailersOf_data :
    trailersOf (l.map Polled.data : List (Polled H (Failure E))) = [] := by
  induction l with
  | nil => rfl
  | cons chunk l ih => exact ih

@[simp] theorem dataOf_items (items : List (Item E)) :
    dataOf (items.map Item.polled : List (Polled H (Failure E))) = (chunks items).flatten := by
  induction items with
  | nil => rfl
  | cons item items ih =>
    cases item with
    | data chunk => exact congrArg (chunk ++ ·) ih
    | _ => exact ih

@[simp] theorem trailersOf_items (items : List (Item E)) :
    trailersOf (items.map Item.polled : List (Polled H (Failure E))) = [] := by
  induction items with
  | nil => rfl
  | cons item items ih => cases item <;> exact ih

@[simp] theorem dataOf_trailers :
    dataOf (t.toList.map Polled.trailers : List (Polled H (Failure E))) = [] := by
  cases t <;> rfl

@[simp] theorem trailersOf_trailers :
    trailersOf (t.toList.map Polled.trailers : List (Polled H (Failure E))) = t.toList := by
  cases t <;> rfl

@[simp] theorem dataOf_ended (m : Nat) :
    dataOf (replicate m .ended : List (Polled H (Failure E))) = [] := by
  induction m with
  | zero => rfl
  | succ m ih => exact ih

@[simp] theorem trailersOf_ended (m : Nat) :
    trailersOf (replicate m .ended : List (Polled H (Failure E))) = [] := by
  induction m with
  | zero => rfl
  | succ m ih => exact ih

theorem plays_of_le (h : Recorded inner max read s) (hidx : s.replayIdx = 0)
    (hle : size read ≤ max) : plays s true true = (chunks read).map Polled.data
      ++ s.trailers.toList.map Polled.trailers ++ s.rest.answers := by
  have hcap : s.isCapped = false := by
    cases hc : s.isCapped with
    | false => rfl
    | true => exact absurd (h.isCapped.1 hc) (Nat.not_lt.2 hle)
  unfold plays
  rw [if_pos rfl, if_pos rfl, hidx, drop_zero, h.replay hle, hcap,
    if_neg Bool.false_ne_true, append_nil]

/-- A clone for which recording was given up says so before its end, and
no byte before that. -/
theorem capped_of_ended (h : Recorded inner max read s) (hidx : s.replayIdx = 0)
    (hlt : max < size read) {n : Nat} (hended : .ended ∈ pad n (plays s true true)) :
    ∃ (empty : List Bytes) (rest : List (Polled H (Failure E))), (∀ chunk ∈ empty, chunk = [])
      ∧ pad n (plays s true true) = empty.map Polled.data ++ .error .capped :: rest := by
  obtain ⟨m, hm⟩ := pad_of_ended (ended_not_mem_plays s) hended
  refine ⟨s.replay, s.trailers.toList.map Polled.trailers ++ s.rest.answers
    ++ replicate m .ended, h.capped hlt, ?_⟩
  rw [hm]
  unfold plays
  rw [if_pos rfl, if_pos rfl, if_pos (h.isCapped.2 hlt), hidx, drop_zero]
  simp only [append_assoc, cons_append, nil_append]

theorem playing_tryNew (hmax : max + 1 < 2 ^ 64) (hnew : tryNew inner max = .ok b) :
    Playing inner max b inner.answers := by
  unfold tryNew at hnew
  split at hnew
  · cases hnew
  · cases hnew
    refine ⟨_, [], rfl, ⟨rfl, Nat.mod_eq_of_lt hmax, fun _ => rfl, nofun, rfl, nofun⟩, rfl⟩

/-- Whatever was polled of the body and of clones before, each dropped
before the next one was polled: the first handle passes the inner body
through; and a clone replays what was read of the inner body before it,
and passes through the rest, if what was read is within the maximum. It
ends after all bytes and the trailers of the inner body. If what was read
before is not within the maximum, the clone answers an error before it
ends. -/
theorem retries_not_truncated (inner : Inner H E) (max : Nat)
    (b : ReplayBody H E) (hmax : max + 1 < 2 ^ 64)
    (hnew : tryNew inner max = .ok b) (first : Nat) (polls : List Nat) (n : Nat) :
    ∃ s₀ s s' read outs, b.use first none = some (pad first inner.answers, some s₀)
      ∧ useClones polls (some s₀) = some (some s) ∧ inner.items = read ++ s.rest.items
      ∧ clone.use n (some s) = some (outs, some s')
      ∧ (size read ≤ max → outs = pad n ((chunks read).map Polled.data
            ++ s.trailers.toList.map Polled.trailers ++ s.rest.answers)
          ∧ (.ended ∈ outs → dataOf outs = inner.data
            ∧ trailersOf outs = inner.trailers.toList)) ∧ (max < size read → .ended ∈ outs →
        ∃ (empty : List Bytes) (rest : List (Polled H (Failure E))), (∀ chunk ∈ empty, chunk = [])
          ∧ outs = empty.map Polled.data ++ .error .capped :: rest) := by
  obtain ⟨s₀, read₀, hfirst, hidx₀, h₀⟩ := use_spec (playing_tryNew hmax hnew) first none
  obtain ⟨s, read, hclones, hidx, h⟩ := useClones_spec polls h₀ hidx₀
  obtain ⟨s', -, huse, -⟩ := clone_use_spec h hidx n
  refine ⟨s₀, s, s', read, _, hfirst, hclones, h.items, huse, fun hle => ?_,
    fun hlt hended => capped_of_ended h hidx hlt hended⟩
  rw [plays_of_le h hidx hle]
  refine ⟨rfl, fun hended => ?_⟩
  obtain ⟨m, hm⟩ := pad_of_ended (plays_of_le h hidx hle ▸ ended_not_mem_plays s) hended
  rw [hm]
  unfold Inner.answers Inner.data
  refine ⟨?_, ?_⟩
  · rw [h.items, chunks_append]
    simp
  · rw [← h.trailers]
    simp

/-- Two chunks, of which the first is within the maximum of three. -/
def sampleInner : Inner Unit Unit := ⟨[.data [1, 2], .data [3, 4]], none, 0⟩

/-- One chunk is read at first, and all of it by the second clone. -/
theorem retries_not_truncated_sample : ∃ b s₀ s s', tryNew sampleInner 3 = .ok b
      ∧ b.use 1 none = some (pad 1 sampleInner.answers, some s₀)
      ∧ useClones [1] (some s₀) = some (some s)
      ∧ clone.use 3 (some s) = some ([.data [1, 2], .data [3, 4], .ended], some s') := by
  obtain ⟨s₀, s, s', read, outs, hfirst, hclones, hitems, huse, hwithin, -⟩ :=
    retries_not_truncated sampleInner 3 _ (by decide) rfl 1 [1] 3
  cases hfirst
  cases hclones
  have hread : [.data [1, 2]] ++ [.data [3, 4]] = read ++ [.data [3, 4]] := hitems
  rw [← append_cancel_right hread] at hwithin
  rw [(hwithin (by decide)).1] at huse
  exact ⟨_, _, _, s', rfl, rfl, rfl, huse⟩

/-- The clone that itself reads more than the maximum goes on to the end
without an error. -/
theorem reading_clone_not_capped :
    ¬ ∀ (inner : Inner Unit Unit) (max : Nat) (b : ReplayBody Unit Unit)
      (first n : Nat) (outs : List (Polled Unit (Failure Unit)))
      (shared s' : Option (BodyState Unit Unit)), tryNew inner max = .ok b →
      (b.use first none).map Prod.snd = some shared →
      clone.use n shared = some (outs, s') → .ended ∈ outs →
      max < inner.data.length → .error .capped ∈ outs := by
  intro hall
  have hmem := hall sampleInner 3 _ 0 3 [.data [1, 2], .data [3, 4], .ended] _ _
    rfl rfl rfl (by decide) (by decide)
  exact absurd hmem (by decide)

end AgentGateway.Retry
