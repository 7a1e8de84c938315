/-
A body on its way through an external processor (`http/ext_proc.rs`).

`mutate_request` and `mutate_response` send the headers to the processor,
and then three parties run side by side. One task pumps the original body
to the processor (`handleBodyStream`). Whoever called waits for the reply to
the headers, and a second task for what follows; both put what the
processor streams into a channel of one place. The body that is sent on
reads that channel, and for it a closed channel is the end of the data.

The outside decides what the body yields, whether a message to the processor
can be sent, what the processor replies, and when its stream is over. What
the replies do to the headers is left out.

Towards the processor the end is reported when the original body has
ended, and from it the rebuilt body ends when the processor has said so. On
each side the end is the last of a list that only grows (`sent`,
`received`), so that both are invariants of the steps.

# Where it breaks

The pump leaves its loop for an error of the body as it does for its end,
and reports the end after either. The task closes the channel when there
are no more replies, for whatever reason, and the channel has no way to
carry an error: the body that is sent on just ends. It also closes it for a
reply without a body, for an immediate response in the place of the rest of
a request, and for any second reply to a message that had no body.
`Healthy` excludes these.
-/
import AgentGateway.Basic
import AgentGateway.Lib.Run

namespace AgentGateway.ExtProc

abbrev Bytes := List UInt8

abbrev HeaderMap := List (Strng × Strng)

inductive Direction
  | request
  | response
  deriving DecidableEq

inductive FailureMode
  | failClosed
  | failOpen
  deriving DecidableEq

-- ======== messages

inductive ProcessingRequest
  | headers (direction : Direction) (endOfStream : Bool)
  | body (direction : Direction) (body : Bytes) (endOfStream : Bool)
  | trailers (direction : Direction) (trailers : HeaderMap)

def ProcessingRequest.endOfStream : ProcessingRequest → Bool
  | .headers _ eos => eos
  | .body _ _ eos => eos
  | .trailers _ _ => false

inductive Mutation
  | streamedResponse (body : Bytes) (endOfStream : Bool)
  | body (body : Bytes)
  | clearBody (clear : Bool)
  deriving DecidableEq

structure BodyMutation where
  mutation : Option Mutation
  deriving DecidableEq

structure CommonResponse where
  bodyMutation : Option BodyMutation
  deriving DecidableEq

/-- `processing_response::Response`. -/
inductive Response
  | headers (direction : Direction) (response : Option CommonResponse)
  | body (direction : Direction) (response : Option CommonResponse)
  | trailers (direction : Direction)
  | immediateResponse
  deriving DecidableEq

structure ProcessingResponse where
  response : Option Response

/-- Whether the task that sorts the replies hands one to this direction. -/
def ProcessingResponse.isFor (presp : ProcessingResponse) (direction : Direction) : Bool :=
  match presp.response with
  | some (.headers d _) | some (.body d _) | some (.trailers d) => d = direction
  | some .immediateResponse => true
  | none => false

-- ======== replies

/-- What a reply does: whether it is the one to the headers, whether it
ends the body, and what it puts into the channel. -/
structure Handled where
  headersDone : Bool
  eos : Bool
  chunk : Option Bytes

/-- The end that both handlers have in common. -/
def handleBodyMutation (hadBody res : Bool) (cr : CommonResponse) : Handled :=
  match cr.bodyMutation with
  | some ⟨some b⟩ =>
    match b with
    | .streamedResponse body eos => ⟨res, eos, some body⟩
    | .body _ => ⟨res, false, none⟩
    | .clearBody _ => ⟨res, false, none⟩
  | some ⟨none⟩ | none => if !hadBody then ⟨res, true, none⟩ else ⟨res, false, none⟩

def handleResponseForRequestMutation (hadBody : Bool) (presp : ProcessingResponse) : Handled :=
  match presp.response with
  | some (.headers .request none) => ⟨true, !hadBody, none⟩
  | some (.headers .request (some cr)) => handleBodyMutation hadBody true cr
  | some (.body .request none) => ⟨false, true, none⟩
  | some (.body .request (some cr)) => handleBodyMutation hadBody false cr
  | some .immediateResponse => ⟨true, true, none⟩
  | _ => ⟨false, false, none⟩

def handleResponseForResponseMutation (hadBody : Bool) (presp : ProcessingResponse) : Handled :=
  match presp.response with
  | some (.headers .response none) => ⟨true, false, none⟩
  | some (.headers .response (some cr)) => handleBodyMutation hadBody true cr
  | some (.body .response (some cr)) => handleBodyMutation hadBody false cr
  | some (.body .response none) => ⟨false, true, none⟩
  | _ => ⟨false, false, none⟩

def handleResponse : Direction → Bool → ProcessingResponse → Handled
  | .request => handleResponseForRequestMutation
  | .response => handleResponseForResponseMutation

/-- `to_immediate_response`. -/
def ProcessingResponse.isImmediate (presp : ProcessingResponse) : Bool :=
  presp.response = some .immediateResponse

-- ======== state

/-- What the exchange is about. `skipped` is whether the request failed
open, which the response then goes by. -/
structure Config where
  direction : Direction
  failureMode : FailureMode
  hadBody : Bool
  skipped : Bool

inductive Source
  | streaming
  | ended
  | failed

/-- Where `mutate_request` or `mutate_response` is, and the task that it
leaves behind. -/
inductive Phase
  /-- The headers are to be sent. -/
  | start
  /-- It waits for the reply to the headers. -/
  | headers
  /-- It has returned the rebuilt message, and its task waits for more. -/
  | streaming
  /-- It has returned the rebuilt message, and the channel is closed. -/
  | done
  /-- It has returned the original message. -/
  | original
  | failed
  | immediate
  deriving DecidableEq

inductive Pump
  | idle
  | running
  | returned
  deriving DecidableEq

structure Exchange where
  phase : Phase
  source : Source
  pump : Pump
  /-- What the processor was sent. -/
  sent : List ProcessingRequest
  /-- What it has replied, as far as it was received. -/
  received : List ProcessingResponse
  chunks : List Bytes
  /-- What whoever reads the rebuilt body has read. -/
  read : List Bytes
  readEnd : Bool

namespace Exchange

variable (cfg : Config) (s : Exchange)

/-- A body that `is_end_stream` has ended. -/
def init : Exchange :=
  { phase := .start
    source := if cfg.hadBody then .streaming else .ended
    pump := .idle
    sent := []
    received := []
    chunks := []
    read := []
    readEnd := false }

-- ======== steps

def sendHeaders (sends : Bool) : Option Exchange :=
  if s.phase ≠ .start then none
  else if cfg.direction = .response ∧ cfg.skipped then
    some { s with phase := .original }
  else if sends then
    some { s with
      phase := .headers
      pump := if cfg.hadBody then .running else .idle
      sent := s.sent ++ [.headers cfg.direction !cfg.hadBody] }
  else if cfg.direction = .request ∧ cfg.failureMode = .failOpen then
    some { s with phase := .original }
  else some { s with phase := .failed }

inductive Item
  | data (body : Bytes)
  | trailers (trailers : HeaderMap)
  | error
  | ended
  deriving DecidableEq

/-- One round of `handle_body_stream`. Whatever it is that the body yields
other than a frame, the loop is left, and the end is sent. -/
def handleBodyStream (item : Item) (sends : Bool) : Option Exchange :=
  if s.pump ≠ .running then none
  else
    let sent (request : ProcessingRequest) := if sends then s.sent ++ [request] else s.sent
    match item with
    | .data body =>
      some { s with
        pump := if sends then .running else .returned
        sent := sent (.body cfg.direction body false) }
    | .trailers trailers =>
      some { s with
        pump := if sends then .running else .returned
        sent := sent (.trailers cfg.direction trailers) }
    | .error =>
      some { s with
        source := .failed
        pump := .returned
        sent := sent (.body cfg.direction [] true) }
    | .ended =>
      some { s with
        source := .ended
        pump := .returned
        sent := sent (.body cfg.direction [] true) }

/-- The channel takes a chunk if it is empty. -/
def send : Option Bytes → Option Exchange
  | some chunk =>
    if s.chunks = [] then some { s with chunks := [chunk] } else none
  | none => some s

/-- A reply is received: by the loop, up to the one to the headers, and
then by the task. -/
def receive (presp : ProcessingResponse) : Option Exchange :=
  if presp.isFor cfg.direction then
    let s := { s with received := s.received ++ [presp] }
    let handled := handleResponse cfg.direction cfg.hadBody presp
    match s.phase with
    | .headers =>
      if presp.isImmediate then some { s with phase := .immediate }
      else
        (s.send handled.chunk).map fun s =>
          if handled.headersDone then
            { s with phase := if handled.eos then .done else .streaming }
          else s
    | .streaming =>
      (s.send handled.chunk).map fun s =>
        if handled.eos || !cfg.hadBody then { s with phase := .done } else s
    | _ => none
  else none

def close : Option Exchange :=
  match s.phase with
  | .headers =>
    if cfg.direction = .request ∧ cfg.hadBody = false ∧ cfg.failureMode = .failOpen then
      some { s with phase := .done }
    else some { s with phase := .failed }
  | .streaming => some { s with phase := .done }
  | _ => none

def poll : Option Exchange :=
  if s.phase = .streaming ∨ s.phase = .done then
    match s.chunks with
    | chunk :: chunks =>
      some { s with
        chunks
        read := s.read ++ [chunk] }
    | [] => if s.phase = .done then some { s with readEnd := true } else none
  else none

inductive Act
  | sendHeaders (sends : Bool)
  | body (item : Item) (sends : Bool)
  | receive (presp : ProcessingResponse)
  | close
  | poll

def step : Act → Option Exchange
  | .sendHeaders sends => s.sendHeaders cfg sends
  | .body item sends => s.handleBodyStream cfg item sends
  | .receive presp => s.receive cfg presp
  | .close => s.close cfg
  | .poll => s.poll

end Exchange

open Lib

-- ======== replies

/-- The chunk that a reply streams, and whether it is the last. -/
def CommonResponse.streamed (cr : CommonResponse) : Option (Bytes × Bool) :=
  match cr.bodyMutation with
  | some ⟨some (.streamedResponse body eos)⟩ => some (body, eos)
  | _ => none

namespace ProcessingResponse

def streamed (presp : ProcessingResponse) (direction : Direction) : Option (Bytes × Bool) :=
  match presp.response with
  | some (.headers d (some cr)) | some (.body d (some cr)) =>
    if d = direction then cr.streamed else none
  | _ => none

/-- It says that the stream has ended. -/
def confirms (presp : ProcessingResponse) (direction : Direction) : Bool :=
  (presp.streamed direction).any (·.2)

/-- It ends the rebuilt body without saying that the stream has ended. -/
def stopsShort (presp : ProcessingResponse) (direction : Direction) : Bool :=
  presp.response = some (.body direction none)
    || (direction = .request && presp.isImmediate)

end ProcessingResponse

variable {direction : Direction} {hadBody : Bool} {presp : ProcessingResponse}

/-- A reply puts the chunk that it streams into the channel, and ends a body
because it says so or stops short. -/
structure Handled.Faithful (handled : Handled) (direction : Direction)
    (hadBody : Bool) (presp : ProcessingResponse) : Prop where
  chunk : handled.chunk = (presp.streamed direction).map (·.1)
  eos : hadBody → handled.eos → presp.confirms direction
      ∨ presp.stopsShort direction ∧ (handled.headersDone → presp.isImmediate)

theorem handleBodyMutation_faithful {res : Bool} {cr : CommonResponse}
    (hcr : presp.streamed direction = cr.streamed) :
    (handleBodyMutation hadBody res cr).Faithful direction hadBody presp := by
  unfold handleBodyMutation
  unfold CommonResponse.streamed at hcr
  split
  · rename_i b hb
    rw [hb] at hcr
    cases b with
    | streamedResponse body eos =>
      refine ⟨by rw [hcr]; rfl, fun _ heos => .inl ?_⟩
      rw [ProcessingResponse.confirms, hcr]
      exact heos
    | body | clearBody => exact ⟨by rw [hcr]; rfl, nofun⟩
  all_goals
    rename_i hb
    rw [hb] at hcr
    cases hadBody with
    | false | true => exact ⟨by rw [hcr]; rfl, nofun⟩

theorem handleResponse_faithful (hadBody : Bool) (hfor : presp.isFor direction) :
    (handleResponse direction hadBody presp).Faithful direction hadBody presp := by
  obtain ⟨_ | ⟨d, cr⟩ | ⟨d, cr⟩ | d | _⟩ := presp
  · cases hfor
  · obtain rfl : d = direction := of_decide_eq_true hfor
    cases cr with
    | some cr =>
      have hcr : ProcessingResponse.streamed ⟨some (.headers d (some cr))⟩ d
        = cr.streamed := if_pos rfl
      cases d <;> exact handleBodyMutation_faithful hcr
    | none =>
      cases d with
      | request =>
        refine ⟨rfl, fun hbody heos => ?_⟩
        subst hbody
        cases heos
      | response => exact ⟨rfl, nofun⟩
  · obtain rfl : d = direction := of_decide_eq_true hfor
    cases cr with
    | some cr =>
      have hcr : ProcessingResponse.streamed ⟨some (.body d (some cr))⟩ d
        = cr.streamed := if_pos rfl
      cases d <;> exact handleBodyMutation_faithful hcr
    | none => cases d <;> exact ⟨rfl, fun _ _ => .inr ⟨rfl, nofun⟩⟩
  · obtain rfl : d = direction := of_decide_eq_true hfor
    cases d <;> exact ⟨rfl, nofun⟩
  · cases direction with
    | request => exact ⟨rfl, fun _ _ => .inr ⟨rfl, fun _ => rfl⟩⟩
    | response => exact ⟨rfl, nofun⟩

-- ======== invariant

namespace Exchange

def reported (s : Exchange) : Bool := s.sent.any (·.endOfStream)

def confirmed (cfg : Config) (s : Exchange) : Bool :=
  s.received.any (·.confirms cfg.direction)

def rebuilt (s : Exchange) : List Bytes := s.read ++ s.chunks

/-- The end is confirmed, or there was no body in the first place and none
was added. -/
def Concluded (cfg : Config) (s : Exchange) : Prop :=
  s.confirmed cfg ∨ cfg.hadBody = false ∧ s.rebuilt = []

structure Inv (cfg : Config) (s : Exchange) : Prop where
  reported : s.reported → s.source = .ended
  bodyless : cfg.hadBody = false → s.source = .ended ∧ s.Concluded cfg
  done : s.phase = .done → s.Concluded cfg
  readEnd : s.readEnd → s.phase = .done

/-- The original body does not fail; a body that is not confirmed to be at
its end is not left by the processor; and a message without a body is given
one in one piece only. -/
def Healthy (cfg : Config) (s : Exchange) : Act → Prop
  | .body item _ => item ≠ .error
  | .close =>
    cfg.hadBody → s.phase = .streaming → s.confirmed cfg
  | .receive presp =>
    (cfg.hadBody → s.phase = .streaming → presp.stopsShort cfg.direction → s.confirmed cfg)
    ∧ (cfg.hadBody = false → ∀ chunk ∈ presp.streamed cfg.direction, chunk.2)
  | .sendHeaders _ | .poll => True

instance (cfg : Config) (s : Exchange) : ∀ act, Decidable (s.Healthy cfg act)
  | .body _ _ => inferInstanceAs (Decidable (_ ≠ _))
  | .close => inferInstanceAs (Decidable (_ → _))
  | .receive _ => inferInstanceAs (Decidable ((_ → _) ∧ (_ → _)))
  | .sendHeaders _ | .poll => isTrue trivial

variable {cfg : Config} {s s' : Exchange} {act : Act} {sent : List ProcessingRequest} {sends : Bool}

theorem inv_init : (init cfg).Inv cfg where
  reported := nofun
  bodyless h := by
    refine ⟨?_, .inr ⟨h, rfl⟩⟩
    rw [init, h]
    rfl
  done := nofun
  readEnd := nofun

-- ======== steps

theorem Inv.turn (h : s.Inv cfg) (hphase : s.phase ≠ .done) (phase : Phase)
    (hdone : phase = .done → s.Concluded cfg) : Inv cfg { s with phase } :=
  ⟨h.reported, h.bodyless, hdone, fun hr => absurd (h.readEnd hr) hphase⟩

theorem Inv.side (h : s.Inv cfg) {source : Source} {pump : Pump}
    (hreported : sent.any (·.endOfStream) → source = .ended)
    (hsource : s.source = .ended → source = .ended) : Inv cfg { s with source, pump, sent } :=
  ⟨hreported, fun hb => ⟨hsource (h.bodyless hb).1, (h.bodyless hb).2⟩, h.done, h.readEnd⟩

theorem reported_append {r : ProcessingRequest} (h : (sent ++ [r]).any (·.endOfStream)) :
    sent.any (·.endOfStream) ∨ r.endOfStream := by
  rw [List.any_append, Bool.or_eq_true] at h
  exact h.imp_right fun hr => by simpa using hr

theorem Inv.sendHeaders (h : s.Inv cfg)
    (hstep : s.sendHeaders cfg sends = some s') : s'.Inv cfg := by
  unfold Exchange.sendHeaders at hstep
  split at hstep
  · cases hstep
  · rename_i hstart
    have hphase : s.phase ≠ .done := by
      rw [Decidable.not_not.1 hstart]
      nofun
    split at hstep
    · cases hstep
      exact h.turn hphase _ nofun
    · split at hstep
      · cases hstep
        refine (h.turn hphase .headers nofun).side (fun hr => ?_) id
        obtain hr | hr := reported_append hr
        · exact h.reported hr
        · exact (h.bodyless (by simpa [ProcessingRequest.endOfStream] using hr)).1
      · split at hstep <;> (cases hstep; exact h.turn hphase _ nofun)

theorem Inv.handleBodyStream (h : s.Inv cfg) {item : Item} (hitem : item ≠ .error)
    (hstep : s.handleBodyStream cfg item sends = some s') : s'.Inv cfg := by
  -- a frame is sent without the end
  have hframe : ∀ r : ProcessingRequest, r.endOfStream = false →
      (if sends then s.sent ++ [r] else s.sent).any (·.endOfStream) → s.source = .ended := by
    intro r hr hany
    split at hany
    · obtain hany | heos := reported_append hany
      · exact h.reported hany
      · cases hr.symm.trans heos
    · exact h.reported hany
  unfold Exchange.handleBodyStream at hstep
  split at hstep
  · cases hstep
  · cases item with
    | data | trailers =>
      cases hstep
      exact h.side (hframe _ rfl) id
    | error => exact absurd rfl hitem
    | ended =>
      cases hstep
      exact h.side (fun _ => rfl) fun _ => rfl

theorem confirmed_append (hreceived : s'.received = s.received ++ [presp])
    (hpresp : s.confirmed cfg ∨ presp.confirms cfg.direction) :
    s'.confirmed cfg := by
  rw [confirmed, hreceived, List.any_append, Bool.or_eq_true]
  exact hpresp.imp_right fun hc => by simpa using hc

section

variable (h : s.Inv cfg)
include h

theorem Inv.received (hphase : s.phase ≠ .done) (presp : ProcessingResponse) :
    Inv cfg { s with received := s.received ++ [presp] } := by
  refine ⟨h.reported, fun hb => ⟨(h.bodyless hb).1, ?_⟩,
    fun hdone => absurd hdone hphase, h.readEnd⟩
  exact (h.bodyless hb).2.imp_left fun hc => confirmed_append rfl (.inl hc)

theorem Inv.send (hphase : s.phase ≠ .done)
    (hone : cfg.hadBody = false → ∀ chunk ∈ presp.streamed cfg.direction, chunk.2)
    (hsend : send { s with received := s.received ++ [presp] }
      ((presp.streamed cfg.direction).map (·.1)) = some s') :
    s'.Inv cfg ∧ s'.phase = s.phase ∧ s'.received = s.received ++ [presp] := by
  cases hstreamed : presp.streamed cfg.direction with
  | none =>
    rw [hstreamed] at hsend
    cases hsend
    exact ⟨h.received hphase presp, rfl, rfl⟩
  | some chunk =>
    rw [hstreamed, Option.map_some, Exchange.send] at hsend
    split at hsend
    · cases hsend
      refine ⟨⟨h.reported, fun hb => ⟨(h.bodyless hb).1, .inl ?_⟩,
        fun hdone => absurd hdone hphase, h.readEnd⟩, rfl, rfl⟩
      refine confirmed_append rfl (.inr ?_)
      rw [ProcessingResponse.confirms, hstreamed]
      exact hone hb chunk hstreamed
    · cases hsend

theorem Inv.concluded (hbody : cfg.hadBody → s.confirmed cfg) : s.Concluded cfg := by
  cases hb : cfg.hadBody with
  | true => exact .inl (hbody hb)
  | false => exact (h.bodyless hb).2

theorem Inv.receive (hok : s.Healthy cfg (.receive presp))
    (hstep : s.receive cfg presp = some s') : s'.Inv cfg := by
  obtain ⟨hstays, hone⟩ := hok
  unfold Exchange.receive at hstep
  split at hstep
  · rename_i hfor
    have hfaithful := handleResponse_faithful cfg.hadBody hfor
    dsimp only at hstep
    rw [hfaithful.chunk] at hstep
    split at hstep
    · rename_i hphase
      have hne : s.phase ≠ .done := ne_of_eq_of_ne hphase nofun
      split at hstep
      · cases hstep
        exact (h.received hne presp).turn hne .immediate nofun
      · rename_i himm
        obtain ⟨s₁, hsend, rfl⟩ := Option.map_eq_some_iff.1 hstep
        obtain ⟨h₁, hphase₁, hreceived⟩ := h.send hne hone hsend
        split
        · rename_i hdone
          refine h₁.turn (hphase₁ ▸ hne) _ fun hend => h₁.concluded fun hb => ?_
          split at hend
          · -- the reply to the headers ends a body only by saying so
            rename_i heos
            obtain hc | ⟨-, hi⟩ := hfaithful.eos hb heos
            · exact confirmed_append hreceived (.inr hc)
            · exact absurd (hi hdone) himm
          · cases hend
        · exact h₁
    · rename_i hphase
      have hne : s.phase ≠ .done := ne_of_eq_of_ne hphase nofun
      obtain ⟨s₁, hsend, rfl⟩ := Option.map_eq_some_iff.1 hstep
      obtain ⟨h₁, hphase₁, hreceived⟩ := h.send hne hone hsend
      split
      · rename_i hend
        refine h₁.turn (hphase₁ ▸ hne) _ fun _ => h₁.concluded fun hb => ?_
        rw [hb, Bool.not_true, Bool.or_false] at hend
        obtain hc | ⟨hshort, -⟩ := hfaithful.eos hb (hb ▸ hend)
        · exact confirmed_append hreceived (.inr hc)
        · exact confirmed_append hreceived (.inl (hstays hb hphase hshort))
      · exact h₁
    · cases hstep
  · cases hstep

theorem Inv.close (hok : s.Healthy cfg .close) (hstep : s.close cfg = some s') : s'.Inv cfg := by
  unfold Exchange.close at hstep
  split at hstep
  · rename_i hphase
    have hne : s.phase ≠ .done := ne_of_eq_of_ne hphase nofun
    split at hstep
    · rename_i hopen
      cases hstep
      exact h.turn hne .done fun _ => (h.bodyless hopen.2.1).2
    · cases hstep
      exact h.turn hne .failed nofun
  · rename_i hphase
    have hne : s.phase ≠ .done := ne_of_eq_of_ne hphase nofun
    cases hstep
    exact h.turn hne .done fun _ => h.concluded fun hb => hok hb hphase
  · cases hstep

theorem Inv.poll (hstep : s.poll = some s') : s'.Inv cfg := by
  unfold Exchange.poll at hstep
  split at hstep
  · split at hstep
    · rename_i chunk chunks hchunks
      cases hstep
      have hrebuilt : (s.read ++ [chunk]) ++ chunks = s.rebuilt := by
        rw [rebuilt, hchunks, List.append_assoc]
        rfl
      have hconcluded : s.Concluded cfg → Concluded cfg { s with
          chunks
          read := s.read ++ [chunk] } :=
        Or.imp_right fun hnone => ⟨hnone.1, hrebuilt.trans hnone.2⟩
      exact ⟨h.reported, fun hb => (h.bodyless hb).imp_right hconcluded,
        fun hd => hconcluded (h.done hd), h.readEnd⟩
    · split at hstep
      · rename_i hdone
        cases hstep
        exact ⟨h.reported, h.bodyless, h.done, fun _ => hdone⟩
      · cases hstep
  · cases hstep

theorem inv_step (hok : s.Healthy cfg act) (hstep : s.step cfg act = some s') : s'.Inv cfg := by
  cases act with
  | sendHeaders sends => exact h.sendHeaders hstep
  | body item sends => exact h.handleBodyStream hok hstep
  | receive presp => exact h.receive hok hstep
  | close => exact h.close hok hstep
  | poll => exact h.poll hstep

end

-- ======== runs

/-- If the original body does not fail and the processor sees it through,
then the end is reported to the processor when the original body has ended,
and whoever reads the rebuilt body reads its end when the processor has
confirmed it. -/
theorem end_reported_and_confirmed {acts : List Act}
    (hrun : acts.foldlM (step cfg) (init cfg) = some s)
    (hok : StepsOk (step cfg) (Healthy cfg) (init cfg) acts) :
    (s.reported → s.source = .ended) ∧ (s.readEnd → s.confirmed cfg
        ∨ cfg.hadBody = false ∧ s.rebuilt = []) := by
  have h := inv_of_stepsOk inv_step acts inv_init hok hrun
  exact ⟨h.reported, fun hr => h.done (h.readEnd hr)⟩

/-- A request body of one chunk, that the processor hands back in two. -/
theorem end_reported_and_confirmed_sample : ∃ (acts : List Act) (s : Exchange),
      acts.foldlM (step ⟨.request, .failClosed, true, false⟩)
        (init ⟨.request, .failClosed, true, false⟩) = some s
      ∧ s.reported ∧ s.source = .ended ∧ s.readEnd
      ∧ (s.confirmed ⟨.request, .failClosed, true, false⟩ ∨ true = false ∧ s.rebuilt = []) := by
  let acts : List Act := [.sendHeaders true, .body (.data [1]) true,
    .body .ended true, .receive ⟨some (.headers .request (some ⟨none⟩))⟩,
    .receive ⟨some (.body .request (some ⟨some ⟨some (.streamedResponse [1] false)⟩⟩))⟩, .poll,
    .receive ⟨some (.body .request (some ⟨some ⟨some (.streamedResponse [] true)⟩⟩))⟩, .poll, .poll]
  obtain ⟨s, hrun, hreported, hend⟩ : ∃ s, acts.foldlM (step ⟨.request, .failClosed, true, false⟩)
        (init ⟨.request, .failClosed, true, false⟩) = some s
      ∧ s.reported ∧ s.readEnd := ⟨_, rfl, rfl, rfl⟩
  have h := end_reported_and_confirmed hrun (by decide)
  exact ⟨acts, s, hrun, hreported, h.1 hreported, hend, h.2 hend⟩

/-- A body fails after its first chunk, and the processor is told that it
has ended; it confirms that, and the rebuilt body ends. And a processor that
goes away in the middle of a body ends it. -/
theorem failed_body_ends_clean : (∃ (acts : List Act) (s : Exchange),
      acts.foldlM (step ⟨.request, .failClosed, true, false⟩)
        (init ⟨.request, .failClosed, true, false⟩) = some s
      ∧ s.source = .failed ∧ s.reported ∧ s.readEnd)
    ∧ ∃ (acts : List Act) (s : Exchange), acts.foldlM (step ⟨.response, .failClosed, true, false⟩)
        (init ⟨.response, .failClosed, true, false⟩) = some s
      ∧ s.readEnd ∧ s.source = .streaming
      ∧ s.confirmed ⟨.response, .failClosed, true, false⟩ = false := by
  constructor
  · exact ⟨[.sendHeaders true, .body (.data [1]) true, .body .error true,
      .receive ⟨some (.headers .request (some ⟨none⟩))⟩,
      .receive ⟨some (.body .request
        (some ⟨some ⟨some (.streamedResponse [1] true)⟩⟩))⟩, .poll, .poll],
      _, rfl, rfl, rfl, rfl⟩
  · exact ⟨[.sendHeaders true, .body (.data [1]) true,
      .receive ⟨some (.headers .response (some ⟨none⟩))⟩,
      .receive ⟨some (.body .response
        (some ⟨some ⟨some (.streamedResponse [1] false)⟩⟩))⟩, .close, .poll, .poll],
      _, rfl, rfl, rfl, rfl⟩

end Exchange

end AgentGateway.ExtProc
