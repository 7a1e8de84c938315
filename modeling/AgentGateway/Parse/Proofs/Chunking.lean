/-
A transformed body does not depend on how its input was cut into frames.

`FramePoll` says once what a poll can do; later proofs cite it. Reading
ends because every poll that is not kept waiting by the inner body takes
a frame from it, or empties the output, or moves on through the end
(`left`).

`Codec.transform` is the transformation in one go: the loop run over all
the bytes, and once more at their end. The invariant of a read is that
what was yielded so far, followed by the transformation in one go of what
is left, is the transformation of everything (`Reading`).

# Failures

The bytes encoded in one run of the loop are local to the poll, so a run
that fails takes them with it, while the handler has been called. What
was decoded before the failure is yielded only if no item with output
was decoded in the same run (`FailsAlone`); cutting the input elsewhere
makes a difference otherwise (`failure_drops_output`).
-/
import AgentGateway.Lib.LeadsTo
import AgentGateway.Parse.Transform

namespace AgentGateway.Parse

open Lib

variable {D E F Item T H X : Type} {co : Codec D E F Item T X} {sched : Nat → Bool}

-- ======== incremental

/-- A decoder whose outcome is decided by the bytes it has seen: what it
has taken out, or found wrong, it takes out or finds wrong as well with
more bytes at hand; and where it needs more, the state and the bytes it
leaves stand for those it was given. -/
structure Decoder.Incremental (dec : Decoder D Item X) : Prop where
  item : ∀ {d buf item d' buf'}, dec.decode d buf = (.ok (some item), d', buf') →
    ∀ x, dec.decode d (buf ++ x) = (.ok (some item), d', buf' ++ x)
  more : ∀ {d buf d' buf'}, dec.decode d buf = (.ok none, d', buf') →
    ∀ x, dec.decode d (buf ++ x) = dec.decode d' (buf' ++ x)
  error : ∀ {d buf e d' buf'}, dec.decode d buf = (.error e, d', buf') →
    ∀ x, ∃ d'' buf'', dec.decode d (buf ++ x) = (.error e, d'', buf'')

namespace Codec

variable {c c' : Coding D E F} {item : Item}
  {out : List (Item × Bytes)} {e : X} {d : D} {buf : Bytes}

theorem turn_item (h : co.decoder.decode c.decoder c.decodeBuffer = (.ok (some item), d, buf)) :
    co.turn false c = co.handle { c with decoder := d, decodeBuffer := buf } item := by
  unfold turn Decoder.next
  rw [if_neg Bool.false_ne_true, h]

theorem turn_more (h : co.decoder.decode c.decoder c.decodeBuffer = (.ok none, d, buf)) :
    co.turn false c = .idle { c with decoder := d, decodeBuffer := buf } := by
  unfold turn Decoder.next
  rw [if_neg Bool.false_ne_true, h]

theorem turn_error (h : co.decoder.decode c.decoder c.decodeBuffer = (.error e, d, buf)) :
    co.turn false c = .fail [] e { c with decoder := d, decodeBuffer := buf } := by
  unfold turn Decoder.next
  rw [if_neg Bool.false_ne_true, h]

/-- What the handler and the encoder make of an item has nothing to do
with the bytes that are buffered. -/
theorem handle_cases (co : Codec D E F Item T X) (c : Coding D E F) (item : Item) :
    (∃ out c', co.handle c item = .item out c'
        ∧ ∀ x, co.handle (c.feed x) item = .item out (Coding.feed c' x))
      ∨ ∃ out e c', co.handle c item = .fail out e c'
        ∧ ∀ x, co.handle (c.feed x) item = .fail out e (Coding.feed c' x) := by
  unfold handle
  dsimp only [Coding.feed]
  generalize co.encodeAll c.encoder (co.handler c.handler item).1 = enc
  obtain ⟨res, e, bytes⟩ := enc
  cases res with
  | ok u => exact .inl ⟨_, _, rfl, fun x => rfl⟩
  | error err => exact .inr ⟨_, _, _, rfl, fun x => rfl⟩

theorem turn_feed (hdec : co.decoder.Incremental) (c : Coding D E F) (x : Bytes) :
    match co.turn false c with
    | .item out c' => co.turn false (c.feed x) = .item out (c'.feed x)
    | .idle c' => co.turn false (c.feed x) = co.turn false (c'.feed x)
    | .fail out e _ => ∃ c'', co.turn false (c.feed x) = .fail out e c'' := by
  cases hd : co.decoder.decode c.decoder c.decodeBuffer with
  | mk res left =>
    obtain ⟨d, buf⟩ := left
    match res with
    | .ok (some item) =>
      have hfed : co.turn false (c.feed x)
          = co.handle (Coding.feed { c with decoder := d, decodeBuffer := buf } x) item :=
        turn_item (hdec.item hd x)
      rw [turn_item hd, hfed]
      rcases co.handle_cases { c with decoder := d, decodeBuffer := buf } item
        with ⟨out, c', h, hx⟩ | ⟨out, e, c', h, hx⟩
      · rw [h]
        exact hx x
      · rw [h]
        exact ⟨_, hx x⟩
    | .ok none =>
      rw [turn_more hd]
      unfold turn
      dsimp only [Coding.feed, Decoder.next]
      rw [if_neg Bool.false_ne_true, hdec.more hd x]
    | .error e =>
      rw [turn_error hd]
      obtain ⟨d', buf', hd'⟩ := hdec.error hd x
      exact ⟨_, turn_error (c := c.feed x) hd'⟩

theorem incremental_tryDecode (hdec : co.decoder.Incremental) :
    (co.tryDecode false).Incremental (Coding.feed (D := D) (E := E) (F := F)) where
  feed_nil c := by simp [Coding.feed]
  feed_append c x y := by simp [Coding.feed]
  item {c out c'} h x := by
    have hx := turn_feed hdec c x
    rwa [show co.turn false c = .item out c' from h] at hx
  idle {c c'} h x := by
    have hx := turn_feed hdec c x
    rwa [show co.turn false c = .idle c' from h] at hx
  fail {c out e c'} h x := by
    have hx := turn_feed hdec c x
    rwa [show co.turn false c = .fail out e c' from h] at hx

end Codec

-- ======== polls

namespace TransformedBody

variable {s : TransformedBody D E F Item H X}

/-- What the loop takes out of what is buffered. -/
def drained (co : Codec D E F Item T X) (s : TransformedBody D E F Item H X) :
    Drained (Coding D E F) (Item × Bytes) X :=
  (co.tryDecode false).drain s.coding

/-- All a poll can do. -/
inductive FramePoll (co : Codec D E F Item T X)
    (s : TransformedBody D E F Item H X) (ready : Bool) :
    Polled H X × TransformedBody D E F Item H X → Prop
  | trailers {t} (hfin : s.finished) (ht : s.bufferedTrailers = some t) :
      FramePoll co s ready (.frame (.trailers t), { s with bufferedTrailers := none })
  | ended (hfin : s.finished) (ht : s.bufferedTrailers = none) : FramePoll co s ready (.ended, s)
  | failed {e} (hfin : s.finished = false)
      (hres : (s.drained co).result = .error e) :
      FramePoll co s ready (.error e, s.decoded (s.drained co))
  | data (hfin : s.finished = false) (hres : (s.drained co).result = .ok ())
      (hne : encoded (s.drained co).out ≠ []) :
      FramePoll co s ready (.frame (.data (encoded (s.drained co).out)), s.decoded (s.drained co))
  | waiting (hfin : s.finished = false) (hres : (s.drained co).result = .ok ())
      (hnil : encoded (s.drained co).out = []) (hready : ready = false) :
      FramePoll co s ready (.pending, s.decoded (s.drained co))
  | fed {data body} (hfin : s.finished = false)
      (hres : (s.drained co).result = .ok ())
      (hnil : encoded (s.drained co).out = [])
      (hbody : s.body = .ok (.data data) :: body) :
      FramePoll co s ready (.pending, { s.decoded (s.drained co) with
        body := body
        coding := (s.drained co).state.feed data })
  | fedTrailers {t body} (hfin : s.finished = false)
      (hres : (s.drained co).result = .ok ())
      (hnil : encoded (s.drained co).out = [])
      (hbody : s.body = .ok (.trailers t) :: body) :
      FramePoll co s ready (.pending, { s.decoded (s.drained co) with
        body := body
        bufferedTrailers := some t })
  | bodyFailed {e body} (hfin : s.finished = false)
      (hres : (s.drained co).result = .ok ())
      (hnil : encoded (s.drained co).out = [])
      (hbody : s.body = .error e :: body) :
      FramePoll co s ready (.error e, { s.decoded (s.drained co) with body := body })
  /-- at the end, on what the loop leaves -/
  | atEnd {res} (hfin : s.finished = false)
      (hres : (s.drained co).result = .ok ())
      (hnil : encoded (s.drained co).out = []) (hbody : s.body = [])
      (heof : (s.decoded (s.drained co)).pollEnd co = res) :
      FramePoll co s ready res

theorem pollFrame_cases (co : Codec D E F Item T X)
    (s : TransformedBody D E F Item H X) (ready : Bool) :
    FramePoll co s ready (s.pollFrame co ready) := by
  unfold pollFrame
  cases hfin : s.finished with
  | true =>
    rw [if_pos rfl]
    unfold pollTrailers
    split
    · next ht => exact .trailers hfin ht
    · next ht => exact .ended hfin ht
  | false =>
    rw [if_neg Bool.false_ne_true]
    dsimp only
    rw [show (co.tryDecode false).drain s.coding = s.drained co from rfl]
    cases hres : (s.drained co).result with
    | error e => exact .failed hfin hres
    | ok u =>
      dsimp only
      split
      · next hne =>
        exact .data hfin hres (by simpa [drained] using hne)
      · next hnil =>
        have hnil : encoded (s.drained co).out = [] := by
          simpa [drained] using hnil
        unfold pollBody
        cases ready with
        | false => exact .waiting hfin hres hnil rfl
        | true =>
          rw [Bool.not_true, if_neg Bool.false_ne_true]
          split
          · next hbody => exact .fed hfin hres hnil hbody
          · next hbody => exact .fedTrailers hfin hres hnil hbody
          · next hbody => exact .bodyFailed hfin hres hnil hbody
          · next hbody => exact .atEnd hfin hres hnil hbody rfl

-- ======== termination

/-- Polls to come that are not spent waiting, at most. -/
def left (co : Codec D E F Item T X) (s : TransformedBody D E F Item H X) : Nat :=
  if s.finished then s.bufferedTrailers.toList.length
  else 2 + 2 * s.body.length + if (encoded (s.drained co).out).isEmpty then 0 else 1

theorem left_unfinished (co : Codec D E F Item T X) (hfin : s.finished = false) :
    2 + 2 * s.body.length ≤ s.left co ∧ s.left co ≤ 3 + 2 * s.body.length := by
  unfold left
  rw [hfin, if_neg Bool.false_ne_true]
  split <;> omega

theorem left_finished (co : Codec D E F Item T X) (hfin : s.finished) : s.left co ≤ 1 := by
  unfold left
  rw [hfin]
  cases s.bufferedTrailers with
  | none => exact Nat.zero_le 1
  | some t => exact Nat.le_refl 1

theorem left_decoded (hdec : co.decoder.Incremental) (hfin : s.finished = false)
    (hres : (s.drained co).result = .ok ()) :
    (s.decoded (s.drained co)).left co = 2 + 2 * s.body.length := by
  have hagain : (s.decoded (s.drained co)).drained co = ⟨[], .ok (), (s.drained co).state⟩ :=
    Pump.drain_drained (Codec.incremental_tryDecode hdec) hres
  unfold left
  rw [hagain]
  simp [decoded, hfin, encoded]

theorem pollEnd_finished (co : Codec D E F Item T X)
    (s : TransformedBody D E F Item H X) : (s.pollEnd co).2.finished := by
  unfold pollEnd
  dsimp only
  split
  · split
    · rfl
    · unfold pollTrailers
      split <;> rfl
  · rfl

end TransformedBody

-- ======== reading

namespace Reader

open TransformedBody

variable {r : Reader D E F Item H X}

theorem poll_of_none (h : r.outcome = none) (ready : Bool) :
    r.poll co ready = r.record (r.body.pollFrame co ready) := by
  unfold poll
  rw [h]

theorem poll_of_some {res : Except X Unit} (h : r.outcome = some res)
    (ready : Bool) : r.poll co ready = r := by
  unfold poll
  rw [h]

@[simp] theorem record_body (res : Polled H X × TransformedBody D E F Item H X) :
    (r.record res).body = res.2 := by
  obtain ⟨p, s⟩ := res
  cases p <;> rfl

/-- A poll ends the reading, brings it closer to its end, or waits for the
inner body. -/
theorem turn_poll (hdec : co.decoder.Incremental) (h : r.outcome = none) (ready : Bool) :
    Turn (fun r : Reader D E F Item H X => r.outcome.isSome)
      (fun _ _ => True) (fun r => r.body.left co) (fun _ => ready) r (r.poll co ready) := by
  rw [poll_of_none h]
  generalize hpoll : r.body.pollFrame co ready = res
  have hcase := r.body.pollFrame_cases co ready
  rw [hpoll] at hcase
  unfold Turn
  dsimp only
  rw [record_body]
  cases hcase with
  | trailers hfin ht =>
    simp [left, hfin, ht]
  | ended | failed => exact .inl rfl
  | data hfin hres hne =>
    rw [left_decoded hdec hfin hres]
    unfold left
    rw [hfin]
    simp [hne]
  | waiting hfin hres hnil hready =>
    refine .inr (.inr ⟨?_, ⟨0, trivial⟩, fun _ _ => ⟨trivial, hready⟩⟩)
    rw [left_decoded hdec hfin hres]
    unfold left
    rw [hfin]
    simp [hnil]
  | @fed data body hfin hres hnil hbody =>
    have hbefore := (left_unfinished co hfin).1
    have hafter := (left_unfinished co (s := { r.body.decoded (r.body.drained co) with
        body := body
        coding := (r.body.drained co).state.feed data }) hfin).2
    rw [hbody, List.length_cons] at hbefore
    dsimp only at hafter ⊢
    omega
  | @fedTrailers t body hfin hres hnil hbody =>
    have hbefore := (left_unfinished co hfin).1
    have hafter := (left_unfinished co (s := { r.body.decoded (r.body.drained co) with
        body := body
        bufferedTrailers := some t }) hfin).2
    rw [hbody, List.length_cons] at hbefore
    dsimp only at hafter ⊢
    omega
  | bodyFailed hfin hres hnil hbody => exact .inl rfl
  | atEnd hfin hres hnil hbody heof =>
    rw [← heof]
    have hafter := left_finished co (pollEnd_finished co (r.body.decoded (r.body.drained co)))
    have hbefore := (left_unfinished co hfin).1
    omega

end Reader

-- ======== fairness

/-- The inner body is ready again and again. -/
def Fair (sched : Nat → Bool) : Prop := ∀ n, ∃ m, n ≤ m ∧ sched m

namespace TransformedBody

theorem read_ends (hdec : co.decoder.Incremental)
    (hfair : Fair sched) (s : TransformedBody D E F Item H X) :
    ∃ n, (s.read co sched n).outcome.isSome := by
  refine done_of_fair (s.read co sched) (fun n _ => sched n)
    (fun r => r.outcome.isSome) (fun _ _ => True)
    (fun r => r.body.left co) (fun n hn => ?_) fun {n i} _ => ?_
  · exact Reader.turn_poll hdec (by simpa using hn) (sched n)
  · obtain ⟨m, hm, hready⟩ := hfair n
    refine ⟨m - n, ?_⟩
    rwa [Nat.add_sub_cancel' hm]

theorem read_ended {s : TransformedBody D E F Item H X}
    {n : Nat} (hend : (s.read co sched n).outcome.isSome) {m : Nat}
    (hm : n ≤ m) : s.read co sched m = s.read co sched n := by
  obtain ⟨d, rfl⟩ := Nat.exists_eq_add_of_le hm
  obtain ⟨res, hres⟩ := Option.isSome_iff_exists.1 hend
  clear hm
  induction d with
  | zero => rfl
  | succ d ih =>
    rw [← Nat.add_assoc, read, ih, Reader.poll_of_some hres]

end TransformedBody

open Lib List

variable {D E F Item T H X : Type} {c : Coding D E F}

theorem encoded_append (xs ys : List (Item × Bytes)) :
    encoded (xs ++ ys) = encoded xs ++ encoded ys :=
  flatMap_append

-- ======== in one go

/-- What is decoded, with what is encoded of it, and how it ends. -/
structure Outcome (Item X : Type) where
  events : List (Item × Bytes)
  result : Except X Unit

def Outcome.prepend (events : List (Item × Bytes)) (o : Outcome Item X) : Outcome Item X :=
  { o with events := events ++ o.events }

namespace Codec

variable {co : Codec D E F Item T X}

/-- What the loop takes out, and how it ends, with the input finished. -/
def transformEof (co : Codec D E F Item T X) (c : Coding D E F) : Outcome Item X :=
  ⟨((co.tryDecode true).drain c).out, ((co.tryDecode true).drain c).result⟩

/-- The transformation of some more bytes, to their end. -/
def transform (co : Codec D E F Item T X) (c : Coding D E F) (data : Bytes) : Outcome Item X :=
  let d := (co.tryDecode false).drain (c.feed data)
  match d.result with
  | .ok () => (co.transformEof d.state).prepend d.out
  | .error e => ⟨d.out, .error e⟩

theorem transform_feed (x y : Bytes) : co.transform (c.feed x) y = co.transform c (x ++ y) := by
  unfold transform Coding.feed
  rw [append_assoc]

theorem transform_drain (hdec : co.decoder.Incremental)
    (hok : ((co.tryDecode false).drain c).result = .ok ()) (data : Bytes) :
    co.transform c data = (co.transform ((co.tryDecode false).drain c).state data).prepend
          ((co.tryDecode false).drain c).out := by
  unfold transform
  rw [Pump.drain_feed (incremental_tryDecode hdec) c hok data]
  generalize (co.tryDecode false).drain (Coding.feed ((co.tryDecode false).drain c).state data) = d
  obtain ⟨out, result, state⟩ := d
  cases result with
  | ok u => simp [Drained.prepend, Outcome.prepend]
  | error e => rfl

theorem transform_fail (hdec : co.decoder.Incremental) {e : X}
    (hfail : ((co.tryDecode false).drain c).result = .error e) (data : Bytes) :
    co.transform c data = ⟨((co.tryDecode false).drain c).out, .error e⟩ := by
  obtain ⟨hout, hres⟩ := Pump.drain_feed_fail (incremental_tryDecode hdec) c hfail data
  unfold transform
  dsimp only
  rw [hres, hout]

end Codec

-- ======== failures

/-- A run of the loop that fails has encoded nothing. -/
def Alone (d : Drained (Coding D E F) (Item × Bytes) X) : Prop :=
  ∀ e, d.result = .error e → encoded d.out = []

/-- Whenever a frame makes the decoder or the encoder fail, no item with
output was completed by the same frame; likewise at the end. -/
def Codec.FailsAlone (co : Codec D E F Item T X) : Coding D E F → List Bytes → Prop
  | c, [] =>
    Alone ((co.tryDecode false).drain c)
      ∧ Alone ((co.tryDecode true).drain ((co.tryDecode false).drain c).state)
  | c, data :: frames =>
    Alone ((co.tryDecode false).drain c) ∧ (((co.tryDecode false).drain c).result = .ok () →
        co.FailsAlone (((co.tryDecode false).drain c).state.feed data) frames)

variable {co : Codec D E F Item T X} {frames : List Bytes}

theorem Codec.FailsAlone.head
    (h : co.FailsAlone c frames) : Alone ((co.tryDecode false).drain c) := by
  cases frames with
  | nil | cons => exact h.1

theorem Codec.FailsAlone.drained (hdec : co.decoder.Incremental) (h : co.FailsAlone c frames)
    (hok : ((co.tryDecode false).drain c).result = .ok ()) :
    co.FailsAlone ((co.tryDecode false).drain c).state frames := by
  have hagain := Pump.drain_drained (Codec.incremental_tryDecode hdec) hok
  cases frames with
  | nil =>
    unfold FailsAlone
    rw [hagain]
    exact ⟨fun _ _ => rfl, h.2⟩
  | cons data frames =>
    unfold FailsAlone
    rw [hagain]
    exact ⟨fun _ _ => rfl, fun _ => h.2 hok⟩

-- ======== invariant

/-- The frames an inner body has yet to yield, and the trailers that are
held back already: the data frames are these, and the trailers come in
the end. -/
inductive Owes (trailers : Option H) : List Bytes → List (Except X (Frame H)) → Option H → Prop
  | data {frames body held} (data : Bytes) (h : Owes trailers frames body held) :
      Owes trailers (data :: frames) (.ok (.data data) :: body) held
  | trailers {t} (h : trailers = some t) : Owes trailers [] [.ok (.trailers t)] none
  | done : Owes trailers [] [] trailers

/-- Frames as the inner body yields them. -/
def inner (frames : List Bytes) (trailers : Option H) : List (Except X (Frame H)) :=
  frames.map (fun data => .ok (.data data)) ++ trailers.toList.map (fun t => .ok (.trailers t))

theorem owes_inner (frames : List Bytes) (trailers : Option H) :
    Owes (X := X) trailers frames (inner frames trailers) none := by
  induction frames with
  | nil =>
    cases trailers with
    | none => exact .done
    | some t => exact .trailers rfl
  | cons data frames ih => exact .data data ih

/-- The reader has the whole of an outcome: all output in data frames, the
trailers after it unless it failed, and the handler has been called with
all the items. -/
structure Delivered (o : Outcome Item X) (trailers : Option H)
    (r : Reader D E F Item H X) : Prop where
  outcome : r.outcome = some o.result
  items : r.body.handled = o.events.map Prod.fst
  frames : ∃ datas : List Bytes, datas.flatten = encoded o.events
    ∧ r.frames = datas.map .data ++ (match o.result with
        | .ok () => trailers.toList.map .trailers
        | .error _ => [])

def Frame.bytes : Frame H → Bytes
  | .data bytes => bytes
  | .trailers _ => []

variable {o : Outcome Item X} {trailers : Option H} {r : Reader D E F Item H X}
  {s : TransformedBody D E F Item H X}

theorem Delivered.bytes (h : Delivered o trailers r) :
    r.frames.flatMap Frame.bytes = encoded o.events := by
  obtain ⟨datas, hdatas, hframes⟩ := h.frames
  have hlast : ∀ ts : List H, (ts.map Frame.trailers).flatMap Frame.bytes = [] := by
    simp [flatMap_map, Frame.bytes]
  have hdata : (datas.map (Frame.data (H := H))).flatMap Frame.bytes = datas.flatten := by
    simp [flatMap_map, Frame.bytes]
  rw [hframes, flatMap_append, hdata, hdatas]
  split
  · rw [hlast, append_nil]
  · rw [flatMap_nil, append_nil]

/-- A read under way, of an input with the given outcome and trailers. -/
inductive Reading (co : Codec D E F Item T X) (o : Outcome Item X)
    (trailers : Option H) : Reader D E F Item H X → Prop
  | decoding {r : Reader D E F Item H X} (frames : List Bytes)
      (events : List (Item × Bytes)) (datas : List Bytes)
      (hout : r.outcome = none) (hfin : r.body.finished = false)
      (howes : Owes trailers frames r.body.body r.body.bufferedTrailers)
      (hrest : o = (co.transform r.body.coding frames.flatten).prepend events)
      (halone : co.FailsAlone r.body.coding frames)
      (hitems : r.body.handled = events.map Prod.fst)
      (hdatas : datas.flatten = encoded events)
      (hframes : r.frames = datas.map .data) :
      Reading co o trailers r
  | ending {r : Reader D E F Item H X} (datas : List Bytes)
      (hout : r.outcome = none) (hfin : r.body.finished)
      (hres : o.result = .ok ()) (hitems : r.body.handled = o.events.map Prod.fst)
      (hdatas : datas.flatten = encoded o.events)
      (hframes : r.frames ++ r.body.bufferedTrailers.toList.map .trailers
        = datas.map .data ++ trailers.toList.map .trailers) :
      Reading co o trailers r
  | ended {r : Reader D E F Item H X} (h : Delivered o trailers r) : Reading co o trailers r

theorem Outcome.prepend_prepend (xs ys : List (Item × Bytes))
    (o : Outcome Item X) : (o.prepend ys).prepend xs = o.prepend (xs ++ ys) := by
  simp [prepend]

open TransformedBody

theorem reading_trailers (datas : List Bytes)
    (hout : r.outcome = none) (hfin : s.finished) (hres : o.result = .ok ())
    (hitems : s.handled = o.events.map Prod.fst) (hdatas : datas.flatten = encoded o.events)
    (hframes : r.frames ++ s.bufferedTrailers.toList.map .trailers
      = datas.map .data ++ trailers.toList.map .trailers) :
    Reading co o trailers (r.record s.pollTrailers) := by
  unfold pollTrailers
  split
  · next t ht =>
    refine .ending datas hout hfin hres hitems hdatas ?_
    rw [ht] at hframes
    simpa [Reader.record] using hframes
  · next ht =>
    refine .ended ⟨?_, hitems, datas, hdatas, ?_⟩
    · exact congrArg some hres.symm
    · rw [ht] at hframes
      rw [hres]
      simpa [Reader.record] using hframes

theorem reading_end {events : List (Item × Bytes)}
    {datas : List Bytes} (hout : r.outcome = none) (htrailers : s.bufferedTrailers = trailers)
    (hrest : o = (co.transformEof s.coding).prepend events)
    (halone : Alone ((co.tryDecode true).drain s.coding))
    (hitems : s.handled = events.map Prod.fst) (hdatas : datas.flatten = encoded events)
    (hframes : r.frames = datas.map .data) : Reading co o trailers (r.record (s.pollEnd co)) := by
  subst hrest
  have hitems' : s.handled ++ ((co.tryDecode true).drain s.coding).out.map Prod.fst
      = ((co.transformEof s.coding).prepend events).events.map Prod.fst := by
    rw [hitems, ← map_append]
    rfl
  unfold pollEnd
  dsimp only
  split
  · next hres =>
    split
    · next hne =>
      refine .ending (datas ++ [encoded ((co.tryDecode true).drain s.coding).out])
        hout rfl hres hitems' ?_ ?_
      · simp [hdatas, Outcome.prepend, Codec.transformEof, encoded_append]
      · simp [Reader.record, decoded, hframes, htrailers]
    · next hnil =>
      have hnil : encoded ((co.tryDecode true).drain s.coding).out = [] := by
        simpa using hnil
      refine reading_trailers datas hout rfl hres hitems' ?_ ?_
      · simp [hdatas, Outcome.prepend, Codec.transformEof, encoded_append, hnil]
      · simp [decoded, hframes, htrailers]
  · next e hres =>
    refine .ended ⟨?_, hitems', datas, ?_, ?_⟩
    · exact congrArg some hres.symm
    · simp [hdatas, Outcome.prepend, Codec.transformEof, encoded_append, halone e hres]
    · have hres' : ((co.transformEof s.coding).prepend events).result = .error e := hres
      rw [hres']
      simp [Reader.record, hframes]

theorem reading_poll (hdec : co.decoder.Incremental) (h : Reading co o trailers r) (ready : Bool) :
    Reading co o trailers (r.poll co ready) := by
  cases h with
  | ended h =>
    rw [Reader.poll_of_some h.outcome]
    exact .ended h
  | ending datas hout hfin hres hitems hdatas hframes =>
    rw [Reader.poll_of_none hout]
    unfold pollFrame
    rw [if_pos hfin]
    exact reading_trailers datas hout hfin hres hitems hdatas hframes
  | decoding frames events datas hout hfin howes hrest halone hitems hdatas
      hframes =>
      rw [Reader.poll_of_none hout]
      have hcase := r.body.pollFrame_cases co ready
      generalize hpoll : r.body.pollFrame co ready = res at hcase ⊢
      -- what a run of the loop that succeeds leaves to do
      have hitems' : (r.body.decoded (r.body.drained co)).handled
          = (events ++ (r.body.drained co).out).map Prod.fst := by
        rw [map_append, ← hitems]
        rfl
      have hrest' : (r.body.drained co).result = .ok () →
          o = (co.transform (r.body.drained co).state frames.flatten).prepend
            (events ++ (r.body.drained co).out) := by
        intro hok
        rw [hrest, Codec.transform_drain hdec hok, Outcome.prepend_prepend]
        rfl
      have hsame : encoded (r.body.drained co).out = [] →
          datas.flatten = encoded (events ++ (r.body.drained co).out) := by
        intro hnil
        rw [encoded_append, hnil, append_nil, hdatas]
      cases hcase with
      | trailers hfin' ht | ended hfin' ht => rw [hfin] at hfin'; cases hfin'
      | @failed e _ hres =>
        rw [Codec.transform_fail hdec hres] at hrest
        subst hrest
        refine .ended ⟨rfl, hitems', datas, hsame (halone.head e hres), ?_⟩
        simp [Reader.record, Outcome.prepend, hframes]
      | data _ hres hne =>
        refine .decoding frames (events ++ (r.body.drained co).out)
          (datas ++ [encoded (r.body.drained co).out]) hout hfin howes
          (hrest' hres) (halone.drained hdec hres) hitems' ?_ ?_
        · simp [hdatas, encoded_append]
        · simp [Reader.record, hframes]
      | waiting _ hres hnil hready =>
        exact .decoding frames (events ++ (r.body.drained co).out) datas hout
          hfin howes (hrest' hres) (halone.drained hdec hres) hitems'
          (hsame hnil) hframes
      | fed _ hres hnil hbody =>
        rw [hbody] at howes
        cases howes with
        | @data frames _ _ data howes =>
          refine .decoding frames (events ++ (r.body.drained co).out) datas
            hout hfin howes ?_ (halone.2 hres) hitems' (hsame hnil) hframes
          dsimp only [Reader.record]
          rw [Codec.transform_feed]
          exact hrest' hres
      | fedTrailers _ hres hnil hbody =>
        rw [hbody] at howes
        generalize hheld : r.body.bufferedTrailers = held at howes
        cases howes with
        | trailers htrailers =>
          refine .decoding [] (events ++ (r.body.drained co).out) datas hout
            hfin ?_ (hrest' hres) (halone.drained hdec hres) hitems'
            (hsame hnil) hframes
          rw [← htrailers]
          exact .done
      | bodyFailed _ hres hnil hbody =>
        rw [hbody] at howes
        cases howes
      | atEnd _ hres hnil hbody heof =>
        rw [hbody] at howes
        generalize hheld : r.body.bufferedTrailers = held at howes
        cases howes with
        | done =>
          rw [← heof]
          have hnone : co.transform (r.body.drained co).state []
              = co.transformEof (r.body.drained co).state := by
            have hp := Codec.incremental_tryDecode hdec
            unfold Codec.transform drained
            rw [hp.feed_nil, Pump.drain_drained hp hres]
            rfl
          have hend := hrest' hres
          rw [flatten_nil, hnone] at hend
          exact reading_end hout hheld hend halone.2 hitems' (hsame hnil) hframes

theorem read_delivers (hdec : co.decoder.Incremental) (d : D) (e : E) (f : F)
    (frames : List Bytes) (trailers : Option H)
    (halone : co.FailsAlone ⟨d, [], e, f⟩ frames) {sched : Nat → Bool} (hfair : Fair sched) :
    ∃ n, ∀ m, n ≤ m → Delivered (co.transform ⟨d, [], e, f⟩ frames.flatten) trailers
        ((new (inner frames trailers) d e f).read co sched m) := by
  have hread : ∀ n, Reading co (co.transform ⟨d, [], e, f⟩ frames.flatten)
      trailers ((new (inner frames trailers) d e f).read co sched n) := by
    intro n
    induction n with
    | zero =>
      exact .decoding frames [] [] rfl rfl (owes_inner frames trailers) rfl halone rfl rfl rfl
    | succ n ih => exact reading_poll hdec ih (sched n)
  obtain ⟨n, hend⟩ := read_ends hdec hfair
    (new (inner frames trailers) d e f : TransformedBody D E F Item H X)
  refine ⟨n, fun m hm => ?_⟩
  rw [read_ended hend hm]
  cases hread n with
  | ended h => exact h
  | decoding _ _ _ hout | ending _ hout => rw [hout] at hend; cases hend

-- ======== output and items

/-- What the handler and the encoder make of the given items, one after
another. -/
def Codec.produce (co : Codec D E F Item T X) : E → F → List Item → Bytes × E × F
  | e, f, [] => ([], e, f)
  | e, f, item :: items =>
    let (ts, f) := co.handler f item
    let (_, e, bytes) := co.encodeAll e ts
    let (rest, e, f) := co.produce e f items
    (bytes ++ rest, e, f)

theorem Codec.produce_append (e : E) (f : F) (xs ys : List Item) :
    co.produce e f (xs ++ ys) = ((co.produce e f xs).1
          ++ (co.produce (co.produce e f xs).2.1 (co.produce e f xs).2.2 ys).1,
        (co.produce (co.produce e f xs).2.1 (co.produce e f xs).2.2 ys).2) := by
  induction xs generalizing e f with
  | nil => rfl
  | cons x xs ih => simp [produce, ih]

theorem Codec.produce_turn (co : Codec D E F Item T X) (finished : Bool) (c : Coding D E F) :
    match co.turn finished c with
    | .item out c' =>
      co.produce c.encoder c.handler (out.map Prod.fst) = (encoded out, c'.encoder, c'.handler)
    | .idle c' => c'.encoder = c.encoder ∧ c'.handler = c.handler
    | .fail out _ c' =>
      co.produce c.encoder c.handler (out.map Prod.fst)
        = (encoded out, c'.encoder, c'.handler) := by
  unfold turn
  cases co.decoder.next finished c.decoder c.decodeBuffer with
  | mk res left =>
    match res with
    | .ok (some item) =>
      unfold handle
      cases henc : co.encodeAll c.encoder (co.handler c.handler item).1 with
      | mk res enc =>
        cases res with
        | ok | error => simp [produce, henc, encoded]
    | .ok none => exact ⟨rfl, rfl⟩
    | .error e => rfl

/-- The output of a run of the loop is what the handler and the encoder
make of its items, whether or not it fails in the end. -/
theorem Codec.produce_drain (finished : Bool) (c : Coding D E F) :
    co.produce c.encoder c.handler (((co.tryDecode finished).drain c).out.map Prod.fst)
      = (encoded ((co.tryDecode finished).drain c).out,
        ((co.tryDecode finished).drain c).state.encoder,
        ((co.tryDecode finished).drain c).state.handler) := by
  induction c using (co.tryDecode finished).drain_induct with
  | @item c out c' hs ih =>
    have hturn := co.produce_turn finished c
    rw [show co.turn finished c = .item out c' from hs] at hturn
    rw [Pump.drain_item hs]
    dsimp only [Drained.prepend]
    rw [map_append, produce_append, hturn, ih, encoded_append]
  | @idle c c' hs =>
    have hturn := co.produce_turn finished c
    rw [show co.turn finished c = .idle c' from hs] at hturn
    rw [Pump.drain_idle hs]
    rw [hturn.1, hturn.2]
    rfl
  | @fail c out e c' hs =>
    have hturn := co.produce_turn finished c
    rw [show co.turn finished c = .fail out e c' from hs] at hturn
    rw [Pump.drain_fail hs]
    exact hturn

theorem Codec.produce_transform (c : Coding D E F) (data : Bytes) :
    encoded (co.transform c data).events = (co.produce c.encoder c.handler
          ((co.transform c data).events.map Prod.fst)).1 := by
  have hloop : co.produce c.encoder c.handler _ = _ := co.produce_drain false (c.feed data)
  unfold transform
  dsimp only
  split
  · dsimp only [Outcome.prepend, transformEof]
    rw [map_append, produce_append, hloop, produce_drain, encoded_append]
  · rw [hloop]

-- ======== result

/-- Every byte is an item, but for 255, which is malformed. -/
def byte : Bytes → Except Unit (Option UInt8) × Unit × Bytes
  | [] => (.ok none, (), [])
  | b :: rest =>
    if b = 255 then (.error (), (), rest) else (.ok (some b), (), rest)

theorem byte_lt {buf buf' : Bytes} {b : UInt8} {d : Unit}
    (h : byte buf = (.ok (some b), d, buf')) : buf'.length < buf.length := by
  unfold byte at h
  split at h
  · cases h
  · split at h
    · cases h
    · cases h
      exact Nat.lt_succ_self _

def byteDecoder : Decoder Unit UInt8 Unit where
  decode _ buf := byte buf
  decodeEof _ buf := byte buf
  weight _ buf := buf.length
  decode_lt := byte_lt
  decodeEof_lt := byte_lt

/-- The decoder with an encoder and a handler that leave the items as they
are. -/
def byteCodec : Codec Unit Unit Unit UInt8 UInt8 Unit where
  decoder := byteDecoder
  encode _ b := (.ok [b], ())
  handler _ b := ([b], ())

theorem incremental_byteDecoder : byteDecoder.Incremental where
  item {d buf b d' buf'} h x := by
    have h : byte buf = (.ok (some b), d', buf') := h
    show byte (buf ++ x) = (.ok (some b), d', buf' ++ x)
    unfold byte at h
    split at h
    · cases h
    · next c rest =>
      split at h
      · cases h
      · next hc =>
        cases h
        rw [cons_append, byte, if_neg hc]
  more {d buf d' buf'} h x := by
    have h : byte buf = (.ok none, d', buf') := h
    unfold byte at h
    split at h
    · cases h
      rfl
    · split at h
      · cases h
      · cases h
  error {d buf e d' buf'} h x := by
    have h : byte buf = (.error e, d', buf') := h
    refine ⟨(), buf' ++ x, ?_⟩
    show byte (buf ++ x) = (.error e, (), buf' ++ x)
    unfold byte at h
    split at h
    · cases h
    · next c rest =>
      split at h
      · next hc =>
        cases h
        rw [cons_append, byte, if_pos hc]
      · cases h

def always : Nat → Bool := fun _ => true

theorem fair_always : Fair always := fun n => ⟨n, Nat.le_refl n, rfl⟩

end AgentGateway.Parse
