/-
Delta xDS, both ends: the server's answers to one connection
(`syncer/krtxds/xds.go`) and the client that applies them
(`crates/xds/src/client.rs`).

The server keeps no record of what a client has. Changes reach it as
names, and for a name it sends the resource that there is now, or that
there is none. Only the first request of a connection is answered in full,
and what the client has to drop is what it says it knows and is not
listed.

A name waits from the change until a push with it is made for the
connection; a push may be made of any names, which covers every way to
group and merge the changes. Requests and responses of a connection stay
in order. A connection can break at any time, with everything in it lost.

# Keys

The key of a resource that belongs to a gateway is a text that begins with
the namespace and the name of the gateway. They are names of Kubernetes
and have no slash, which `NamespacedName` records.

# Watched resources

A connection has one map of them, from type URLs, for requests of every
type in any order; the rest is for one type. Go code may panic here: when
it reads a field through a pointer that is nil, and when it writes to a map
that was never made. Both are `none`.

# Left out

Decoding, which fails for no resource here; the version of a push, of
which the nonce of a response is made; the logs and the metrics.
-/
import AgentGateway.Basic
import AgentGateway.Lib.Run

namespace AgentGateway.Krtxds

open Lib

namespace Delta

-- ======== resources

structure NamespacedName where
  ns : Strng
  name : Strng
  ns_plain : '/' ∉ ns.toList
  name_plain : '/' ∉ name.toList
  deriving DecidableEq

namespace NamespacedName

def empty : NamespacedName := ⟨"", "", by decide, by decide⟩

def string (gw : NamespacedName) : Strng := gw.ns ++ "/" ++ gw.name

end NamespacedName

/-- `V` is the type of the message in it. -/
structure DiscoveryResource (V : Type) where
  name : Strng
  resource : V
  forGateway : Option NamespacedName
  deriving DecidableEq

namespace DiscoveryResource

variable {V : Type}

/-- Not scoped, or the collection is but this resource is not, or it is
scoped to this one. -/
def isForGateway (d : DiscoveryResource V) (other : NamespacedName) : Bool :=
  match d.forGateway with
  | none => true
  | some gw => decide (gw = .empty) || decide (gw = other)

def resourceName (d : DiscoveryResource V) : Strng :=
  match d.forGateway with
  | some gw => gw.string ++ "/" ++ d.name
  | none => d.name

end DiscoveryResource

-- ======== messages

structure Request where
  resourceNamesSubscribe : List Strng
  resourceNamesUnsubscribe : List Strng
  /-- the names; the versions are empty -/
  initialResourceVersions : List Strng
  responseNonce : Option Nat
  errorDetail : Option Strng

structure Response (V : Type) where
  nonce : Nat
  resources : List (Strng × V)
  removedResources : List Strng

structure WatchedResource where
  resourceNames : List Strng
  wildcard : Bool
  nonceSent : Option Nat
  nonceAcked : Option Nat
  lastError : Strng
  alwaysRespond : Bool

-- ======== server

/-- What the server knows about the type and the client. -/
structure Config where
  perGateway : Bool
  /-- whether it is the type of addresses -/
  isAddress : Bool
  gateway : NamespacedName

/-- The names after the request, whether it is for everything, and
whether they changed. -/
def deltaWatchedResources (existing : List Strng) (request : Request) : List Strng × Bool × Bool :=
  let inserted := request.resourceNamesSubscribe ++ request.initialResourceVersions
  let (res, changed) := inserted.foldl
    (fun (res, changed) r => (res.insert r, changed || !res.contains r))
    (existing, false)
  let (res, changed) := request.resourceNamesUnsubscribe.foldl
    (fun (res, changed) r => (res.filter (· ≠ r), changed || res.contains r))
    (res, changed)
  let wildcard := res.contains "*" || request.resourceNamesSubscribe.isEmpty
  (res.filter (· ≠ "*"), wildcard, changed)

/-- Whether to answer, and the watched resource after the request. -/
def shouldRespondDelta (cfg : Config) (previousInfo : Option WatchedResource)
    (request : Request) : Bool × Option WatchedResource :=
  match request.errorDetail with
  | some message =>
    (false, previousInfo.map fun wr => { wr with lastError := message })
  | none =>
    match previousInfo with
    | none =>
      let (res, wildcard, _) := deltaWatchedResources [] request
      let res := if cfg.isAddress && wildcard then [] else res
      (true, some
        { resourceNames := res
          wildcard
          nonceSent := none
          nonceAcked := none
          lastError := ""
          alwaysRespond := false })
    | some wr =>
      if request.responseNonce.isSome && request.responseNonce != wr.nonceSent then
        (false, some wr)
      else
        let (res, _, subChanged) := deltaWatchedResources wr.resourceNames request
        let wr' := { wr with resourceNames := res, alwaysRespond := false }
        let wr' :=
          if request.responseNonce.isSome then
            { wr' with lastError := "", nonceAcked := request.responseNonce }
          else wr'
        (subChanged || wr.alwaysRespond, some wr')

variable {V : Type}

/-- `e.Col`. -/
abbrev Collection (V : Type) := HashMap Strng (DiscoveryResource V)

/-- `GenerateDeltas` for a request: everything that is for the gateway. -/
def generateFull (col : Collection V) (gw : NamespacedName)
    (subscribed : List Strng) : List (Strng × V) × List Strng :=
  let res := (col.values.filter (·.isForGateway gw)).map fun e =>
    (e.name, e.resource)
  (res, subscribed.filter fun name => ! (res.map Prod.fst).contains name)

/-- The keys that a changed name may have for a gateway. -/
def lookupKeys (cfg : Config) (name : Strng) : List Strng :=
  if cfg.perGateway then
    [NamespacedName.empty.string ++ "/" ++ name, cfg.gateway.string ++ "/" ++ name]
  else [name]

/-- What there is for the gateway under a changed name. -/
def lookup (cfg : Config) (col : Collection V) (name : Strng) : Option (DiscoveryResource V) :=
  (lookupKeys cfg name).findSome? fun key =>
    (col.get? key).filter (·.isForGateway cfg.gateway)

/-- `GenerateDeltas` for changed names. -/
def generatePush (cfg : Config) (col : Collection V) (names : List Strng) :
    List (Strng × V) × List Strng :=
  (names.filterMap fun name =>
      (lookup cfg col name).map fun v => (v.name, v.resource),
    names.filter fun name => (lookup cfg col name).isNone)

-- ======== client

/-- What the handler holds, and `known_resources`. -/
structure Client (V : Type) where
  held : HashMap Strng V
  knownResources : List Strng

/-- `HandlerWrapper::handle`, with the handler. -/
def Client.handle (c : Client V) (res : Response V) : Client V where
  held :=
    res.removedResources.foldl (·.erase ·)
      (res.resources.foldl (fun held r => held.insert r.1 r.2) c.held)
  knownResources :=
    res.resources.foldl (fun known r => known.insert r.1)
      (c.knownResources.filter fun name => ! res.removedResources.contains name)

def Client.initialRequest (c : Client V) : Request where
  resourceNamesSubscribe := []
  resourceNamesUnsubscribe := []
  initialResourceVersions := c.knownResources
  responseNonce := none
  errorDetail := none

/-- What it sends when it has handled a response. -/
def ack (res : Response V) : Request where
  resourceNamesSubscribe := []
  resourceNamesUnsubscribe := []
  initialResourceVersions := []
  responseNonce := some res.nonce
  errorDetail := none

-- ======== system

structure Stream (V : Type) where
  /-- on their way to the server -/
  requests : List Request
  /-- whether the server pushes to it -/
  registered : Bool
  watched : Option WatchedResource
  /-- on their way to the client -/
  responses : List (Response V)

structure System (V : Type) where
  collection : Collection V
  /-- names that changed and that no push has been made for -/
  pending : List Strng
  nextNonce : Nat
  client : Client V
  stream : Option (Stream V)

namespace System

def init : System V where
  collection := .empty
  pending := []
  nextNonce := 0
  client := ⟨.empty, []⟩
  stream := none

inductive Step (V : Type)
  /-- an entry of the collection is added or updated -/
  | set (gateway : NamespacedName) (name : Strng) (resource : V)
  | delete (key : Strng)
  | connect
  /-- the server gets the first request of the connection -/
  | register
  /-- the server handles a request -/
  | process
  /-- a request to push is dequeued for the connection -/
  | push (names : List Strng)
  /-- the client gets a response -/
  | deliver
  | disconnect

/-- The entry that `PerGatewayCollection` makes of an object. -/
def newResource (cfg : Config) (gateway : NamespacedName) (name : Strng)
    (resource : V) : DiscoveryResource V where
  name
  resource
  forGateway := if cfg.perGateway then some gateway else none

def send (s : System V) (st : Stream V) (wr : WatchedResource)
    (deltas : List (Strng × V) × List Strng) : System V :=
  { s with
    nextNonce := s.nextNonce + 1
    stream := some { st with
      watched := some { wr with nonceSent := some s.nextNonce }
      responses := st.responses ++ [⟨s.nextNonce, deltas.1, deltas.2⟩] } }

def processDeltaRequest (cfg : Config) (s : System V) (st : Stream V) (req : Request) : System V :=
  match shouldRespondDelta cfg st.watched req with
  | (true, some wr) =>
    let subs := (deltaWatchedResources [] req).1
    s.send { st with watched := some wr } wr (generateFull s.collection cfg.gateway subs)
  | (_, watched) => { s with stream := some { st with watched } }

def pushDeltaXds (cfg : Config) (s : System V) (st : Stream V) (names : List Strng) : System V :=
  match st.watched with
  | none => s
  | some wr =>
    let deltas := generatePush cfg s.collection names
    if deltas.1.isEmpty && deltas.2.isEmpty then s
    else s.send st wr deltas

/-- A step that is not possible leaves everything as it is. -/
def step [DecidableEq V] (cfg : Config) (s : System V) : Step V → System V
  | .set gateway name resource =>
    let r := newResource cfg gateway name resource
    if s.collection.get? r.resourceName = some r then s
    else
      { s with
        collection := s.collection.insert r.resourceName r
        pending := s.pending ++ [name] }
  | .delete key =>
    match s.collection.get? key with
    | some r =>
      { s with
        collection := s.collection.erase key
        pending := s.pending ++ [r.name] }
    | none => s
  | .connect =>
    match s.stream with
    | some _ => s
    | none =>
      { s with stream := some ⟨[s.client.initialRequest], false, none, []⟩ }
  | .register =>
    match s.stream with
    | some st =>
      if st.registered then s
      else
        { s with
          pending := []
          stream := some { st with registered := true } }
    | none => s
  | .process =>
    match s.stream with
    | some st =>
      match st.registered, st.requests with
      | true, req :: requests =>
        s.processDeltaRequest cfg { st with requests } req
      | _, _ => s
    | none => s
  | .push names =>
    match s.stream with
    | some st =>
      if st.registered then
        let s := { s with
          pending := s.pending.filter fun name => ! names.contains name }
        s.pushDeltaXds cfg st names
      else s
    | none => s
  | .deliver =>
    match s.stream with
    | some st =>
      match st.responses with
      | res :: responses =>
        { s with
          client := s.client.handle res
          stream := some { st with
            requests := st.requests ++ [ack res]
            responses } }
      | [] => s
    | none => s
  | .disconnect => { s with stream := none }

def run [DecidableEq V] (cfg : Config) (steps : List (Step V)) : System V :=
  steps.foldl (step cfg) init

/-- Every push has been made, delivered and applied, on a connection that
has been answered. -/
def Settled (s : System V) : Prop :=
  s.pending = [] ∧ ∃ st, s.stream = some st ∧ st.watched ≠ none ∧ st.responses = []

instance (s : System V) : Decidable s.Settled :=
  decidable_of_iff (s.pending = [] ∧ s.stream.any fun st =>
      st.watched.isSome && st.responses.isEmpty) (by
      rw [Settled]
      refine and_congr_right fun _ => ?_
      simp [Option.any_eq_true, Option.isSome_iff_ne_none])

/-- No two entries for the gateway have one name. -/
def UniqueNames (cfg : Config) (s : System V) : Prop :=
  ∀ r ∈ s.collection.values, ∀ r' ∈ s.collection.values,
    r.isForGateway cfg.gateway → r'.isForGateway cfg.gateway →
    r.name = r'.name → r = r'

instance [DecidableEq V] (cfg : Config) (s : System V) : Decidable (s.UniqueNames cfg) :=
  inferInstanceAs (Decidable (∀ r ∈ s.collection.values,
    ∀ r' ∈ s.collection.values, r.isForGateway cfg.gateway →
      r'.isForGateway cfg.gateway → r.name = r'.name → r = r'))

end System

end Delta

-- ======== watched resources

open Delta

/-- `none` is the map that was never made. -/
structure Proxy where
  watchedResources : Option (HashMap Strng WatchedResource)

namespace Proxy

/-- As `initConnection` leaves it. -/
def init : Proxy := ⟨some .empty⟩

/-- A map that was never made can be read. -/
def getWatchedResource (node : Proxy) (typeUrl : Strng) : Option WatchedResource :=
  node.watchedResources.bind (·.get? typeUrl)

/-- `node.WatchedResources[typeUrl] = r`. -/
def assign (node : Proxy) (typeUrl : Strng) (r : WatchedResource) : Option Proxy :=
  node.watchedResources.map fun m => ⟨some (m.insert typeUrl r)⟩

def updateWatchedResource (node : Proxy) (typeUrl : Strng)
    (updateFn : Option WatchedResource → Option (Option WatchedResource)) : Option Proxy :=
  match updateFn (node.getWatchedResource typeUrl) with
  | none => none
  | some (some r) => node.assign typeUrl r
  | some none => some ⟨node.watchedResources.map (·.erase typeUrl)⟩

/-- `Config` is what the server knows about the type. -/
def shouldRespondDelta (cfg : Config) (node : Proxy) (typeUrl : Strng) (request : Request) :
    Option (Bool × Proxy) :=
  match request.errorDetail with
  | some message =>
    (node.updateWatchedResource typeUrl fun wr =>
      wr.map fun wr => some { wr with lastError := message }).map (false, ·)
  | none =>
    match node.getWatchedResource typeUrl with
    | none =>
      let (res, wildcard, _) := deltaWatchedResources [] request
      let res := if cfg.isAddress && wildcard then [] else res
      (node.assign typeUrl
        { resourceNames := res
          wildcard
          nonceSent := none
          nonceAcked := none
          lastError := ""
          alwaysRespond := false }).map (true, ·)
    | some previousInfo =>
      if request.responseNonce.isSome && request.responseNonce != previousInfo.nonceSent then
        some (false, node)
      else
        -- from here on as in `Delta`, on what the callback is given
        (node.updateWatchedResource typeUrl fun wr =>
          wr.map fun wr => (Delta.shouldRespondDelta cfg (some wr) request).2).map
            ((Delta.shouldRespondDelta cfg (some previousInfo) request).1, ·)

def sendDelta (node : Proxy) (typeUrl : Strng) (nonce : Nat) : Option Proxy :=
  node.updateWatchedResource typeUrl fun wr =>
    let wr := wr.getD ⟨[], false, none, none, "", false⟩
    some (some { wr with nonceSent := some nonce })

/-- `sent` is the nonce of the response, when one is made and sent. -/
def pushDeltaXds (node : Proxy) (typeUrl : Strng) (sent : Option Nat) : Option Proxy :=
  match node.getWatchedResource typeUrl, sent with
  | some _, some nonce => node.sendDelta typeUrl nonce
  | _, _ => some node

def processDeltaRequest (cfg : Config) (node : Proxy) (typeUrl : Strng) (req : Request)
    (sent : Option Nat) : Option Proxy :=
  match node.shouldRespondDelta cfg typeUrl req with
  | none => none
  | some (false, node) => some node
  | some (true, node) => node.pushDeltaXds typeUrl sent

/-- A push to the connection is a step for each type that it watches. -/
inductive Step
  | request (typeUrl : Strng) (req : Request) (sent : Option Nat)
  | push (typeUrl : Strng) (sent : Option Nat)

def Step.typeUrl : Step → Strng
  | .request typeUrl _ _ => typeUrl
  | .push typeUrl _ => typeUrl

def step (cfg : Strng → Config) (node : Proxy) : Step → Option Proxy
  | .request typeUrl req sent => node.processDeltaRequest (cfg typeUrl) typeUrl req sent
  | .push typeUrl sent => node.pushDeltaXds typeUrl sent

/-- An error is reported only for a type that is watched. -/
def NackIsWatched (node : Proxy) : Step → Prop
  | .request typeUrl req _ =>
    req.errorDetail.isSome → (node.getWatchedResource typeUrl).isSome
  | .push _ _ => True

-- ======== one step

/-- It panics, or changes one type at most. -/
inductive Ends (m : HashMap Strng WatchedResource) (typeUrl : Strng) (ok : Prop) :
    Option Proxy → Prop
  | panic (h : ¬ ok) : Ends m typeUrl ok none
  | done {m' : HashMap Strng WatchedResource} (hok : ok)
      (h : ∀ url ≠ typeUrl, m'.get? url = m.get? url) : Ends m typeUrl ok (some ⟨some m'⟩)

variable {m m' : HashMap Strng WatchedResource} {typeUrl : Strng} {ok ok' : Prop}
  {r : Option Proxy} {cfg : Strng → Config} {node : Proxy} {a : Step}

theorem Ends.congr (h : Ends m typeUrl ok r) (hiff : ok ↔ ok') : Ends m typeUrl ok' r :=
  propext hiff ▸ h

theorem Ends.andThen (hok : ok) (hm : ∀ url ≠ typeUrl, m'.get? url = m.get? url)
    (h : Ends m' typeUrl True r) : Ends m typeUrl ok r := by
  cases h with
  | panic h => exact absurd trivial h
  | done _ h => exact .done hok fun url hne => (h url hne).trans (hm url hne)

theorem updateWatchedResource_ends (m : HashMap Strng WatchedResource) (typeUrl : Strng)
    (updateFn : Option WatchedResource → Option (Option WatchedResource)) :
    Ends m typeUrl ((updateFn (m.get? typeUrl)).isSome)
      (updateWatchedResource ⟨some m⟩ typeUrl updateFn) := by
  rw [updateWatchedResource, getWatchedResource, Option.bind_some]
  cases updateFn (m.get? typeUrl) with
  | none => exact .panic nofun
  | some r =>
    cases r with
    | none => exact .done rfl fun _ hne => AssocMap.get?_erase_ne _ hne
    | some r => exact .done rfl fun _ hne => AssocMap.get?_insert_ne _ _ hne

theorem map_snd_map (b : Bool) (r : Option Proxy) : (r.map (b, ·)).map Prod.snd = r := by
  cases r <;> rfl

/-- Only a report of an error dereferences what may not be there. -/
theorem shouldRespondDelta_ends (cfg : Config) (m : HashMap Strng WatchedResource)
    (typeUrl : Strng) (request : Request) :
    Ends m typeUrl (request.errorDetail.isSome → (m.get? typeUrl).isSome)
      ((shouldRespondDelta cfg ⟨some m⟩ typeUrl request).map Prod.snd) := by
  rw [shouldRespondDelta, getWatchedResource, Option.bind_some]
  cases herr : request.errorDetail with
  | some message =>
    rw [map_snd_map]
    exact (updateWatchedResource_ends m typeUrl _).congr (by simp)
  | none =>
    cases hget : m.get? typeUrl with
    | none => exact .done (by simp) fun _ hne => AssocMap.get?_insert_ne _ _ hne
    | some previousInfo =>
      dsimp only
      split
      · exact .done (by simp) fun _ _ => rfl
      · rw [map_snd_map]
        exact (updateWatchedResource_ends m typeUrl _).congr (by simp [hget])

theorem pushDeltaXds_ends (m : HashMap Strng WatchedResource) (typeUrl : Strng)
    (sent : Option Nat) : Ends m typeUrl True (pushDeltaXds ⟨some m⟩ typeUrl sent) := by
  unfold pushDeltaXds
  split
  · exact (updateWatchedResource_ends m typeUrl _).congr (by simp)
  · exact .done trivial fun _ _ => rfl

theorem step_ends (cfg : Strng → Config) (m : HashMap Strng WatchedResource) (a : Step) :
    Ends m a.typeUrl (NackIsWatched ⟨some m⟩ a) (step cfg ⟨some m⟩ a) := by
  cases a with
  | push typeUrl sent => exact pushDeltaXds_ends m typeUrl sent
  | request typeUrl req sent =>
    have h := shouldRespondDelta_ends (cfg typeUrl) m typeUrl req
    simp only [step, processDeltaRequest]
    cases hr : shouldRespondDelta (cfg typeUrl) ⟨some m⟩ typeUrl req with
    | none =>
      rw [hr] at h
      cases h with
      | panic h => exact .panic h
    | some res =>
      obtain ⟨respond, node⟩ := res
      rw [hr, Option.map_some] at h
      cases h with
      | done hok hm =>
        cases respond with
        | false => exact .done hok hm
        | true => exact .andThen hok hm (pushDeltaXds_ends _ typeUrl sent)

def Made (node : Proxy) : Prop := ∃ m, node = ⟨some m⟩

theorem Made.of_step {node' : Proxy} (h : node.Made) (hstep : node.step cfg a = some node') :
    node'.Made ∧ ∀ url ≠ a.typeUrl, node'.getWatchedResource url = node.getWatchedResource url := by
  obtain ⟨m, rfl⟩ := h
  have h := step_ends cfg m a
  rw [hstep] at h
  cases h with
  | done _ h => exact ⟨⟨_, rfl⟩, h⟩

theorem Made.isSome_iff (h : node.Made) : (node.step cfg a).isSome ↔ node.NackIsWatched a := by
  obtain ⟨m, rfl⟩ := h
  have h := step_ends cfg m a
  generalize step cfg ⟨some m⟩ a = r at h
  cases h with
  | panic h => exact iff_of_false nofun h
  | done h _ => exact iff_of_true rfl h

/-- A connection is served to the end of its requests and pushes just when
no error is reported for a type that is not watched at the time. No step
changes what is watched of another type. -/
theorem requests_served_iff (cfg : Strng → Config) (steps : List Step) :
    ((steps.foldlM (step cfg) init).isSome ↔ StepsOk (step cfg) NackIsWatched init steps) ∧
    ∀ node node' a, steps.foldlM (step cfg) init = some node → node.step cfg a = some node' →
      ∀ url ≠ a.typeUrl, node'.getWatchedResource url = node.getWatchedResource url := by
  have hinit : init.Made := ⟨_, rfl⟩
  constructor
  · exact isSome_foldlM_iff (fun h hs => (h.of_step hs).1) Made.isSome_iff steps hinit
  · intro node node' a hrun hs
    have hmade : node.Made := inv_of_run (fun h hs => (h.of_step hs).1) steps hinit hrun
    exact (hmade.of_step hs).2

/-- The first message is the report of an error. -/
theorem first_request_nack_panics : [Step.request "t" ⟨[], [], [], none, some "bad"⟩ none].foldlM
      (step fun _ => ⟨false, false, .empty⟩) init = none := by
  rfl

end Proxy

end AgentGateway.Krtxds
