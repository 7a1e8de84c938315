/-
The MCP relay (`mcp/handler.rs`, `mcp/mergestream.rs`, the request dispatch
of `mcp/session.rs`, `mcp/rbac.rs`, `UpstreamGroup` of `mcp/upstream/mod.rs`
and `validate_mcp_target_name` of `types/agent.rs`).

`MergeStream` is a polled state machine over one message stream per
target. A poll goes once through the streams that are still there: a
response ends its stream and is kept, an error or the end of a stream
drops it or fails the whole request, and any other message is passed on
at once, which ends the poll. When no stream is left the kept responses
are merged into the answer. A message stream is the list of what it will
yield; which streams are ready is decided anew at every poll by a function
of the stream's index. All orders of readiness are sequences of such
functions.

A backend has one or more targets. With several, or with one that asks
for it, the tools and prompts of a target are listed under the target's
name, a delimiter and their own name; a client that uses such a name has
it taken apart again. With one plain target names pass unchanged.
Listing filters by the authorization rules in the merge of the targets'
answers, calling checks them in the dispatch of the request.

# Left out

The wakers (a poll may come at any time here), the requests that are not
about a tool or a prompt, tracing and the request log, and what connecting
to a target does: it gives a connection or fails.
-/
import AgentGateway.Http.Authorization
import AgentGateway.Lib.Regex

namespace AgentGateway.Mcp

open Lib Http

-- ======== messages

inductive RequestId
  | number (n : Int)
  | string (s : Strng)
  deriving DecidableEq

/-- `rmcp::ErrorData`, without the optional data. -/
structure ErrorData where
  code : Int
  message : Strng

def ErrorData.internalError (message : Strng) : ErrorData := ⟨-32603, message⟩

/-- A message from a server: `Q` are the requests it may make, `N` its
notifications, `R` the results. -/
inductive ServerJsonRpcMessage (Q N R : Type)
  | request (id : RequestId) (request : Q)
  | response (id : RequestId) (result : R)
  | notification (notification : N)
  | error (id : RequestId) (error : ErrorData)

/-- A failure on our side of an upstream connection: the status that an answer
came with, or an error, each as it is displayed. -/
inductive ClientError
  | status (code : Strng)
  | general (error : Strng)
  | proxy (error : Strng)
  deriving DecidableEq

/-- The text of the error. -/
def ClientError.message : ClientError → Strng
  | .status code => "http request failed with code: " ++ code
  | .general error | .proxy error => "http request failed: " ++ error

inductive FailureMode
  | failClosed
  | failOpen
  deriving DecidableEq

variable {Q N R : Type}

abbrev Item (Q N R : Type) := Except ClientError (ServerJsonRpcMessage Q N R)

/-- A message stream, as what it has yet to yield. -/
abbrev Messages (Q N R : Type) := List (Item Q N R)

/-- Merging the results of the targets into one. -/
abbrev MergeFn (R : Type) := List (Strng × R) → Except ClientError R

-- ======== merge stream

structure MergeStream (Q N R : Type) where
  streams : List (Option (Strng × Messages Q N R))
  terminalMessages : List (Option (Strng × R))
  complete : Bool
  reqId : RequestId
  merge : Option (MergeFn R)
  failureMode : FailureMode

inductive Poll (α : Type)
  | ready (a : α)
  | pending

/-- How one stream leaves the loop of a poll. -/
inductive StreamPoll (Q N R : Type)
  /-- on to the next stream -/
  | next (s : MergeStream Q N R)
  | pending
  /-- the poll returns the item -/
  | ret (item : Item Q N R) (s : MergeStream Q N R)

namespace MergeStream

def newInternal (streams : List (Strng × Messages Q N R)) (reqId : RequestId)
    (merge : Option (MergeFn R)) (failureMode : FailureMode) : MergeStream Q N R where
  streams := streams.map some
  terminalMessages := streams.map fun _ => none
  complete := false
  reqId := reqId
  merge := merge
  failureMode := failureMode

def new (streams : List (Strng × Messages Q N R)) (reqId : RequestId)
    (merge : MergeFn R) (failureMode : FailureMode) : MergeStream Q N R :=
  newInternal streams reqId (some merge) failureMode

variable (s : MergeStream Q N R)

/-- `self.streams[i] = None`. -/
def dropStream (i : Nat) : MergeStream Q N R :=
  { s with streams := s.streams.set i none }

/-- The body of the loop over the streams. -/
def pollStream (ready : Nat → Bool) (i : Nat) : StreamPoll Q N R :=
  match s.streams[i]? with
  | some (some (k, msgs)) =>
    if !ready i then .pending
    else
      match msgs with
      | .ok (.response _ result) :: _ =>
        -- this stream is done, never look at it again
        .next (dropStream { s with
          terminalMessages := s.terminalMessages.set i (some (k, result)) } i)
      | .ok msg :: rest =>
        .ret (.ok msg) { s with streams := s.streams.set i (some (k, rest)) }
      | .error e :: rest =>
        if s.failureMode = .failOpen then .next (s.dropStream i)
        else .ret (.error e) { s with
          streams := s.streams.set i (some (k, rest))
          complete := true }
      | [] =>
        if s.failureMode = .failOpen then .next (s.dropStream i)
        else .ret (.error (.general "upstream stream ended unexpectedly"))
          { s with complete := true }
  | _ => .next s

def mergeTerminalMessages (merge : MergeFn R) : Item Q N R × MergeStream Q N R :=
  (match merge (s.terminalMessages.filterMap id) with
    | .ok res => .ok (.response s.reqId res)
    | .error e => .error e,
    { s with
      terminalMessages := s.terminalMessages.map fun _ => none
      merge := none })

/-- The end of a poll that no stream has held up. -/
def finish : Poll (Option (Item Q N R)) × MergeStream Q N R :=
  let s := { s with complete := true }
  match s.merge with
  | some merge =>
    let (item, s) := s.mergeTerminalMessages merge
    (.ready (some item), s)
  | none => (.ready none, s)

/-- The loop over the streams, from the given indexes on. -/
def pollFrom (ready : Nat → Bool) (s : MergeStream Q N R) (anyPending : Bool) :
    List Nat → Poll (Option (Item Q N R)) × MergeStream Q N R
  | [] => if anyPending then (.pending, s) else s.finish
  | i :: is =>
    match s.pollStream ready i with
    | .next s => pollFrom ready s anyPending is
    | .pending => pollFrom ready s true is
    | .ret item s => (.ready (some item), s)

def pollNext (ready : Nat → Bool) : Poll (Option (Item Q N R)) × MergeStream Q N R :=
  if s.complete then (.ready none, s)
  else pollFrom ready s false (List.range s.streams.length)

end MergeStream

-- ======== client

/-- `messages_to_response`: a failure becomes an error answer to the
request. -/
def toMessage (id : RequestId) : Item Q N R → ServerJsonRpcMessage Q N R
  | .ok rpc => rpc
  | .error e => .error id (.internalError e.message)

/-- The errors of sending a request: the ones raised here, and any that
sending to a target gives, as its text. -/
inductive UpstreamError
  | upstream (message : Strng)
  | invalidRequest (message : Strng)
  | authorization (resourceType resourceName : Strng)

-- ======== runs

/-- The stream and what it has yielded after `n` polls, the `k`-th with
the streams of `sched k` ready. -/
def MergeStream.run (s : MergeStream Q N R) (sched : Nat → Nat → Bool) :
    Nat → MergeStream Q N R × List (Item Q N R)
  | 0 => (s, [])
  | n + 1 =>
    let (s, out) := s.run sched n
    match s.pollNext (sched n) with
    | (.ready (some item), s) => (s, out ++ [item])
    | (_, s) => (s, out)

/-- What the client has been sent after `n` polls. -/
def MergeStream.sent (s : MergeStream Q N R) (sched : Nat → Nat → Bool)
    (n : Nat) : List (ServerJsonRpcMessage Q N R) :=
  (s.run sched n).2.map (toMessage s.reqId)

-- ======== target names

/-- Why a target name is refused. -/
inductive TargetNameError
  | empty
  | tooLong (name : Strng) (len : Nat)
  | pattern (name : Strng)
  deriving DecidableEq

def mcpTargetNameMaxLen : Nat := 253

/-- The text of the error; `debug` writes a string in quotes. -/
def TargetNameError.message (debug : Strng → Strng) : TargetNameError → Strng
  | .empty => "invalid MCP target name: must not be empty"
  | .tooLong name len =>
    "invalid MCP target name " ++ debug name ++ ": length " ++ toString len
      ++ " exceeds max " ++ toString mcpTargetNameMaxLen
  | .pattern name =>
    "invalid MCP target name " ++ debug name
      ++ ": must match Gateway API SectionName pattern (lowercase letters, "
      ++ "digits, '-' and '.'; '+' and '_' are reserved MCP delimiters)"

/-- `[a-z0-9]`. -/
def alnum : List Char := "abcdefghijklmnopqrstuvwxyz0123456789".toList

/-- `[a-z0-9]([-a-z0-9]*[a-z0-9])?`. -/
def label : RegularExpression Char :=
  oneOf alnum * opt ((oneOf ('-' :: alnum)).star * oneOf alnum)

/-- `MCP_TARGET_NAME_RE`, which is anchored on both sides: labels with
dots between them. -/
def mcpTargetNameRe : RegularExpression Char :=
  label * (RegularExpression.char '.' * label).star

def validateMcpTargetName (name : Strng) : Except TargetNameError Unit :=
  if name.isEmpty then .error .empty
  else if mcpTargetNameMaxLen < name.utf8ByteSize then
    .error (.tooLong name name.utf8ByteSize)
  else if !mcpTargetNameRe.rmatch name.toList then .error (.pattern name)
  else .ok ()

-- ======== upstream group

structure McpTarget where
  name : Strng
  alwaysUsePrefix : Bool

structure McpBackendGroup where
  targets : List McpTarget
  failureMode : FailureMode

/-- The errors of setting up the upstreams: no target could be connected
to, or one failed, as its text. -/
inductive Error
  | noBackends
  | setup (message : Strng)

/-- Connections `U` to the targets. -/
structure UpstreamGroup (U : Type) where
  failureMode : FailureMode
  backend : McpBackendGroup
  byName : IndexMap Strng U
  defaultTargetName : Option Strng
  isMultiplexing : Bool

namespace UpstreamGroup

variable {U : Type}

def setupConnections (setupUpstream : McpTarget → Except Error U)
    (failureMode : FailureMode) (byName : IndexMap Strng U) :
    List McpTarget → Except Error (IndexMap Strng U)
  | [] => .ok byName
  | tgt :: targets =>
    match setupUpstream tgt with
    | .ok transport =>
      setupConnections setupUpstream failureMode (byName.insert tgt.name transport) targets
    | .error e =>
      if failureMode = .failOpen then
        setupConnections setupUpstream failureMode byName targets
      else .error e

/-- The target that names without a target are for, and whether there are
several targets. -/
def defaultTarget : List McpTarget → Option Strng × Bool
  | [tgt] => (if tgt.alwaysUsePrefix then none else some tgt.name, false)
  | _ => (none, true)

def new (setupUpstream : McpTarget → Except Error U)
    (backend : McpBackendGroup) : Except Error (UpstreamGroup U) := do
  let byName ← setupConnections setupUpstream backend.failureMode .empty backend.targets
  let group := {
    failureMode := backend.failureMode
    backend := backend
    byName := byName
    defaultTargetName := (defaultTarget backend.targets).1
    isMultiplexing := (defaultTarget backend.targets).2 }
  if byName.isEmpty then
    if backend.targets.isEmpty && backend.failureMode = .failOpen then .ok group
    else .error .noBackends
  else .ok group

def iterNamed (group : UpstreamGroup U) : List (Strng × U) :=
  group.byName.entries

def get (group : UpstreamGroup U) (name : Strng) : Option U :=
  group.byName.get? name

end UpstreamGroup

-- ======== resources

def delimiter : Char := '_'

def resourceName (defaultTargetName : Option Strng) (target name : Strng) : Strng :=
  if defaultTargetName.isNone then target ++ delimiter.toString ++ name
  else name

structure ResourceId where
  target : Strng
  id : Strng
  deriving DecidableEq

inductive ResourceType
  | tool (id : ResourceId)
  | prompt (id : ResourceId)
  | resource (id : ResourceId)
  deriving DecidableEq

/-- A tool or a prompt as an upstream lists it: its name, and the rest of
it, which is passed on. -/
structure Listed (D : Type) where
  name : Strng
  detail : D
  deriving DecidableEq

def Listed.rename {D : Type} (t : Listed D) (name : Strng) : Listed D :=
  { t with name := name }

/-- The results the merges tell apart. -/
inductive ServerResult (D : Type)
  | listToolsResult (tools : List (Listed D))
  | listPromptsResult (prompts : List (Listed D))
  | other (detail : D)
  deriving DecidableEq

variable {D : Type}

def ServerResult.tools : ServerResult D → List (Listed D)
  | .listToolsResult tools => tools
  | _ => []

def ServerResult.prompts : ServerResult D → List (Listed D)
  | .listPromptsResult prompts => prompts
  | _ => []

-- ======== relay

/-- Connections `U`, authorization rules `E`, and how a rule evaluates on
a request context `C` and the resource that is accessed. -/
structure Relay (U E C : Type) where
  upstreams : UpstreamGroup U
  policies : RuleSets E
  eval : C → ResourceType → Executor E

namespace Relay

variable {U E C : Type}

/-- `McpAuthorizationSet::validate`. -/
def validate (relay : Relay U E C) (res : ResourceType) (cel : C) : Bool :=
  relay.policies.validate (relay.eval cel res)

def parseResourceName (relay : Relay U E C) (res : Strng) : Except UpstreamError (Strng × Strng) :=
  match relay.upstreams.defaultTargetName with
  | some default => .ok (default, res)
  | none =>
    match splitOnce res delimiter with
    | some parts => .ok parts
    | none => .error (.invalidRequest "invalid resource name")

/-- The filter and the renaming that `merge_tools` and `merge_prompts`
share: `offered` takes the list out of a target's answer. -/
def mergeListed (relay : Relay U E C) (resource : ResourceId → ResourceType)
    (offered : ServerResult D → List (Listed D)) (cel : C)
    (streams : List (Strng × ServerResult D)) : List (Listed D) :=
  streams.flatMap fun (serverName, s) =>
    ((offered s).filter fun t =>
        relay.validate (resource ⟨serverName, t.name⟩) cel).map fun t =>
      t.rename (resourceName relay.upstreams.defaultTargetName serverName t.name)

def mergeTools (relay : Relay U E C) (cel : C) : MergeFn (ServerResult D) :=
  fun streams => .ok (.listToolsResult (relay.mergeListed .tool ServerResult.tools cel streams))

def mergePrompts (relay : Relay U E C) (cel : C) : MergeFn (ServerResult D) :=
  fun streams => .ok (.listPromptsResult
    (relay.mergeListed .prompt ServerResult.prompts cel streams))

/-- The requests that name a tool or a prompt, with arguments `A`. -/
inductive ClientRequest (A : Type)
  | callTool (name : Strng) (arguments : A)
  | getPrompt (name : Strng) (arguments : A)

variable {A : Type}

/-- `send_single`, up to the point where the request goes out: the target
and the request it gets. -/
def sendSingle (relay : Relay U E C) (r : ClientRequest A)
    (serviceName : Strng) : Except UpstreamError (Strng × ClientRequest A) :=
  match relay.upstreams.get serviceName with
  | some _ => .ok (serviceName, r)
  | none => .error (.invalidRequest ("unknown service " ++ serviceName))

def authorizePromptRequest (relay : Relay U E C) (name : Strng) (cel : C) :
    Except UpstreamError (Strng × Strng) := do
  let (serviceName, prompt) ← relay.parseResourceName name
  if !relay.validate (.prompt ⟨serviceName, prompt⟩) cel then
    .error (.authorization "prompt" name)
  else .ok (serviceName, prompt)

/-- The dispatch of `send_internal` for the two requests. -/
def sendInternal (relay : Relay U E C) (cel : C) :
    ClientRequest A → Except UpstreamError (Strng × ClientRequest A)
  | .callTool name arguments => do
      let (serviceName, tool) ← relay.parseResourceName name
      if !relay.validate (.tool ⟨serviceName, tool⟩) cel then
        .error (.authorization "tool" name)
      else relay.sendSingle (.callTool tool arguments) serviceName
  | .getPrompt name arguments => do
      let (serviceName, prompt) ← relay.authorizePromptRequest name cel
      relay.sendSingle (.getPrompt prompt arguments) serviceName

end Relay

-- ======== answers

/-- The answers a merge is given: those of the targets that answer, in
the order of the connections. -/
def UpstreamGroup.answers {U R : Type} (group : UpstreamGroup U)
    (answer : Strng → Option R) : List (Strng × R) :=
  group.iterNamed.filterMap fun (name, _) => (answer name).map (name, ·)

end AgentGateway.Mcp
