/-
Transforming a body item by item (`parse/transform.rs`).

`TransformedBody` wraps a body. It decodes items out of the bytes it has
read, hands each to a handler, encodes what the handler gives back, and
yields the encoded bytes; trailers are held back until the end.

# Decoder, encoder, handler

All three have a state of their own. A decoder takes items off the front
of the bytes that are buffered; one that gave items for ever would keep
the loop from ending, so a decoder comes with a weight that every item
lowers. An encoder appends to the output. The errors of all three, and
those of the inner body, are boxed into one type `X`.

The inner body is what it will yield; whether a frame is ready is decided
at every poll.
-/
import AgentGateway.Basic
import AgentGateway.Lib.Pump

namespace AgentGateway.Parse

open Lib

abbrev Bytes := List UInt8

variable {D E F Item T H X : Type}

-- ======== codecs

/-- `tokio_util::codec::Decoder` with states `D`: the outcome, the state
and the bytes that are left. -/
structure Decoder (D Item X : Type) where
  decode : D → Bytes → Except X (Option Item) × D × Bytes
  decodeEof : D → Bytes → Except X (Option Item) × D × Bytes
  weight : D → Bytes → Nat
  decode_lt : ∀ {d buf item d' buf'},
    decode d buf = (.ok (some item), d', buf') → weight d' buf' < weight d buf
  decodeEof_lt : ∀ {d buf item d' buf'}, decodeEof d buf = (.ok (some item), d', buf') →
      weight d' buf' < weight d buf

/-- `decode_eof` once the input is finished. -/
def Decoder.next (dec : Decoder D Item X) (finished : Bool) :
    D → Bytes → Except X (Option Item) × D × Bytes :=
  if finished then dec.decodeEof else dec.decode

/-- A decoder, an encoder of `T` and a handler that makes several `T` of
an item. -/
structure Codec (D E F Item T X : Type) where
  decoder : Decoder D Item X
  encode : E → T → Except X Bytes × E
  handler : F → Item → List T × F

/-- The states of the three and the bytes not yet decoded. -/
structure Coding (D E F : Type) where
  decoder : D
  decodeBuffer : Bytes
  encoder : E
  handler : F

def Coding.feed (c : Coding D E F) (data : Bytes) : Coding D E F :=
  { c with decodeBuffer := c.decodeBuffer ++ data }

namespace Codec

variable (co : Codec D E F Item T X)

/-- The loop over what the handler gave. -/
def encodeAll : E → List T → Except X Unit × E × Bytes
  | e, [] => (.ok (), e, [])
  | e, t :: ts =>
    match co.encode e t with
    | (.ok bytes, e) =>
      let (res, e, rest) := encodeAll e ts
      (res, e, bytes ++ rest)
    | (.error x, e) => (.error x, e, [])

/-- An item is decoded: the handler is called and what it gives encoded.
The item and the bytes are what comes out of the turn. -/
def handle (c : Coding D E F) (item : Item) : Pumped (Coding D E F) (Item × Bytes) X :=
  let (ts, f) := co.handler c.handler item
  match co.encodeAll c.encoder ts with
  | (.ok (), e, bytes) => .item [(item, bytes)] { c with encoder := e, handler := f }
  | (.error x, e, bytes) =>
    .fail [(item, bytes)] x { c with encoder := e, handler := f }

/-- The body of the loop of `try_decode`. -/
def turn (finished : Bool) (c : Coding D E F) : Pumped (Coding D E F) (Item × Bytes) X :=
  match co.decoder.next finished c.decoder c.decodeBuffer with
  | (.ok (some item), d, buf) =>
    co.handle { c with decoder := d, decodeBuffer := buf } item
  | (.ok none, d, buf) => .idle { c with decoder := d, decodeBuffer := buf }
  | (.error x, d, buf) =>
    .fail [] x { c with decoder := d, decodeBuffer := buf }

theorem turn_lt {finished : Bool} {c c' : Coding D E F}
    {out : List (Item × Bytes)} (h : co.turn finished c = .item out c') :
    co.decoder.weight c'.decoder c'.decodeBuffer < co.decoder.weight c.decoder c.decodeBuffer := by
  unfold turn at h
  split at h
  · next hd =>
    -- the handler leaves the decoder and its buffer alone
    unfold handle at h
    dsimp only at h
    split at h
    · cases h
      cases finished with
      | false => exact co.decoder.decode_lt hd
      | true => exact co.decoder.decodeEof_lt hd
    · cases h
  · cases h
  · cases h

def tryDecode (finished : Bool) : Pump (Coding D E F) (Item × Bytes) X where
  step := co.turn finished
  weight c := co.decoder.weight c.decoder c.decodeBuffer
  step_lt := co.turn_lt

end Codec

/-- The bytes that were encoded, `encode_buf`. -/
def encoded (events : List (Item × Bytes)) : Bytes := events.flatMap Prod.snd

-- ======== body

inductive Frame (H : Type)
  | data (data : Bytes)
  | trailers (trailers : H)

/-- What a body answers to a poll. -/
inductive Polled (H X : Type)
  | pending
  | frame (frame : Frame H)
  | error (error : X)
  | ended

/-- `handled` keeps the items the handler was called with, for the proofs
only. -/
structure TransformedBody (D E F Item H X : Type) where
  body : List (Except X (Frame H))
  coding : Coding D E F
  bufferedTrailers : Option H
  finished : Bool
  handled : List Item

namespace TransformedBody

def new (body : List (Except X (Frame H))) (decoder : D) (encoder : E)
    (handler : F) : TransformedBody D E F Item H X where
  body := body
  coding := ⟨decoder, [], encoder, handler⟩
  bufferedTrailers := none
  finished := false
  handled := []

/-- What a run of the loop leaves. -/
def decoded (s : TransformedBody D E F Item H X) (d : Drained (Coding D E F) (Item × Bytes) X) :
    TransformedBody D E F Item H X :=
  { s with coding := d.state, handled := s.handled ++ d.out.map Prod.fst }

/-- Trailers, if there are any left, or the end. -/
def pollTrailers (s : TransformedBody D E F Item H X) :
    Polled H X × TransformedBody D E F Item H X :=
  match s.bufferedTrailers with
  | some trailer => (.frame (.trailers trailer), { s with bufferedTrailers := none })
  | none => (.ended, s)

/-- The inner body has ended: one more run of the loop. -/
def pollEnd (co : Codec D E F Item T X) (s : TransformedBody D E F Item H X) :
    Polled H X × TransformedBody D E F Item H X :=
  let s := { s with finished := true }
  let d := (co.tryDecode true).drain s.coding
  let s := s.decoded d
  match d.result with
  | .ok () =>
    if !(encoded d.out).isEmpty then (.frame (.data (encoded d.out)), s)
    else s.pollTrailers
  | .error e => (.error e, s)

/-- More input is needed. -/
def pollBody (co : Codec D E F Item T X) (s : TransformedBody D E F Item H X)
    (ready : Bool) : Polled H X × TransformedBody D E F Item H X :=
  if !ready then (.pending, s)
  else
    match s.body with
    | .ok (.data data) :: body =>
      (.pending, { s with body := body, coding := s.coding.feed data })
    | .ok (.trailers trailer) :: body =>
      (.pending, { s with body := body, bufferedTrailers := some trailer })
    | .error e :: body => (.error e, { s with body := body })
    | [] => s.pollEnd co

def pollFrame (co : Codec D E F Item T X) (s : TransformedBody D E F Item H X)
    (ready : Bool) : Polled H X × TransformedBody D E F Item H X :=
  if s.finished then s.pollTrailers
  else
    let d := (co.tryDecode false).drain s.coding
    let s := s.decoded d
    match d.result with
    -- the bytes encoded so far go with the local buffer
    | .error e => (.error e, s)
    | .ok () =>
      if !(encoded d.out).isEmpty then (.frame (.data (encoded d.out)), s)
      else s.pollBody co ready

end TransformedBody

-- ======== reader

/-- Reading a body up to its end or its first error. -/
structure Reader (D E F Item H X : Type) where
  body : TransformedBody D E F Item H X
  frames : List (Frame H)
  outcome : Option (Except X Unit)

/-- What the answer to a poll adds to what was read. -/
def Reader.record (r : Reader D E F Item H X) :
    Polled H X × TransformedBody D E F Item H X → Reader D E F Item H X
  | (.pending, s) => { r with body := s }
  | (.frame f, s) => { r with body := s, frames := r.frames ++ [f] }
  | (.error e, s) => { r with body := s, outcome := some (.error e) }
  | (.ended, s) => { r with body := s, outcome := some (.ok ()) }

def Reader.poll (co : Codec D E F Item T X) (r : Reader D E F Item H X)
    (ready : Bool) : Reader D E F Item H X :=
  match r.outcome with
  | some _ => r
  | none => r.record (r.body.pollFrame co ready)

/-- The reader after `n` polls, the `k`-th with the inner body ready if
`sched k` says so. -/
def TransformedBody.read (co : Codec D E F Item T X)
    (s : TransformedBody D E F Item H X) (sched : Nat → Bool) : Nat → Reader D E F Item H X
  | 0 => ⟨s, [], none⟩
  | n + 1 => (s.read co sched n).poll co (sched n)

end AgentGateway.Parse
