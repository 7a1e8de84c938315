/-
The bind store (`store/binds.rs`): binds with their listeners, route
tables per target, policies and backends (`types/agent.rs`), and the
control-plane handler over them, with the messages it gets
(`types/agent_xds.rs`).

The content of a policy and of a backend is stored and handed back
whole, so it is a type parameter here. A message is its decoded content:
the conversions of the parts no store operation reads are assumed to
have succeeded.

The sockets of a bind are granted by the operating system; the store
only reports the bind to its subscriber (`events`) when the key is new.
Trace output and the tokenizer preload are left out.

# Reload

A reload (`sync_local`) inserts everything the new configuration names and
then removes what the previous one named and the new one does not. What was
named before is remembered as six sets of keys (`PreviousState`). The sets do
not depend on the store, so the model computes them in loops of their
own.
-/
import AgentGateway.Routes.RouteSet
import AgentGateway.Lib.IndexTable

namespace AgentGateway.Binds

open Discovery Routes Lib

abbrev BindKey := Strng
abbrev ListenerKey := Strng
abbrev PolicyKey := Strng
abbrev BackendKey := Strng

-- ======== listeners

structure ServerTlsInputs where
  certPem : List UInt8
  keyPem : List UInt8
  rootPem : Option (List UInt8)
  allowInsecureMtls : Bool
  defaultAlpns : List (List UInt8)
  defaultCipherSuites : List Strng
  defaultKeyExchangeGroups : List Strng
  deriving DecidableEq

inductive ServerTlsCertificateSource
  | static
  | istioWorkload (mtls : Bool) (defaultAlpns : List (List UInt8))
  deriving DecidableEq

/-- The part of a TLS configuration that decides equality; what is built
from it is left out. -/
structure ServerTLSConfig where
  source : ServerTlsCertificateSource
  inputs : Option ServerTlsInputs
  deriving DecidableEq

inductive ListenerProtocol
  | http
  | https (tls : ServerTLSConfig)
  | tls (tls : Option ServerTLSConfig)
  | tcp
  | hbone
  deriving DecidableEq

structure ResourceName where
  name : Strng
  ns : Strng
  deriving DecidableEq

structure ListenerName where
  gatewayName : Strng
  gatewayNamespace : Strng
  listenerName : Strng
  listenerSet : Option ResourceName
  deriving DecidableEq

structure Listener where
  key : ListenerKey
  name : ListenerName
  hostname : Strng
  protocol : ListenerProtocol
  deriving DecidableEq

abbrev ListenerSet := HashMap ListenerKey Listener

def ListenerSet.put (ls : ListenerSet) (v : Listener) : ListenerSet :=
  ls.insert v.key v

inductive BindProtocol
  | http
  | tls
  | tcp
  | auto
  deriving DecidableEq

inductive TunnelProtocol
  | direct
  | hboneWaypoint
  | hboneGateway
  | proxy
  deriving DecidableEq

structure SocketAddr where
  ip : IpAddr
  port : UInt16
  deriving DecidableEq

structure Bind where
  key : BindKey
  address : SocketAddr
  protocol : BindProtocol
  tunnelProtocol : TunnelProtocol
  listeners : ListenerSet

-- ======== policies and backends

structure ListenerTarget where
  gatewayName : Strng
  gatewayNamespace : Strng
  listenerName : Option Strng
  port : Option UInt16
  deriving DecidableEq

inductive BackendTarget
  | backend (name ns : Strng) («section» : Option Strng)
  | service (hostname ns : Strng) (port : Option UInt16)
  | invalid
  deriving DecidableEq

structure ListenerSetTarget where
  name : Strng
  ns : Strng
  «section» : Option Strng
  deriving DecidableEq

inductive PolicyTarget
  | gateway (t : ListenerTarget)
  | route (t : RouteName)
  | backend (t : BackendTarget)
  | listenerSet (t : ListenerSetTarget)
  deriving DecidableEq

structure TargetedPolicy (P : Type) where
  key : PolicyKey
  target : PolicyTarget
  policy : P

/-- A backend, with the name `Backend::name` computes for it. -/
structure BackendWithPolicies (B : Type) where
  name : BackendKey
  body : B

-- ======== messages

structure XdsBind where
  key : Strng
  port : UInt32
  protocol : BindProtocol
  tunnelProtocol : TunnelProtocol

/-- Every interface, on the low sixteen bits of the port. -/
def Bind.fromXds (s : XdsBind) (ipv6Enabled : Bool) : Bind where
  key := s.key
  address :=
    if ipv6Enabled then ⟨.v6 (Vector.replicate 16 0), s.port.toUInt16⟩
    else ⟨.v4 (Vector.replicate 4 0), s.port.toUInt16⟩
  protocol := s.protocol
  tunnelProtocol := s.tunnelProtocol
  listeners := AssocMap.empty

structure XdsListener where
  key : Strng
  name : ListenerName
  bindKey : Strng
  hostname : Strng
  protocol : ListenerProtocol

def Listener.fromXds (s : XdsListener) : Listener × BindKey :=
  (⟨s.key, s.name, s.hostname, s.protocol⟩, s.bindKey)

/-- A service key with both parts empty is no key. -/
def serviceKeyFromProto (sk : Option NamespacedHostname) : Option NamespacedHostname :=
  sk.filter fun sk => sk.ns ≠ "" || sk.hostname ≠ ""

structure XdsRoute where
  key : Strng
  name : RouteName
  serviceKey : Option NamespacedHostname
  listenerKey : Strng
  routeGroupKey : Option Strng
  hostnames : List Strng
  matches_ : List RouteMatch

def routeFromXds (s : XdsRoute) : Route × ListenerKey × Option RouteGroupKey :=
  (⟨s.key, serviceKeyFromProto s.serviceKey, s.name, s.hostnames, s.matches_⟩,
    s.listenerKey, s.routeGroupKey.filter fun k => k ≠ "")

structure XdsTcpRoute where
  key : Strng
  name : RouteName
  serviceKey : Option NamespacedHostname
  listenerKey : Strng
  hostnames : List Strng

def tcpRouteFromXds (s : XdsTcpRoute) : TCPRoute × ListenerKey :=
  (⟨s.key, serviceKeyFromProto s.serviceKey, s.name, s.hostnames⟩, s.listenerKey)

/-- The kinds of an `agent.Resource`. -/
inductive Resource (P B : Type)
  | bind (w : XdsBind)
  | listener (w : XdsListener)
  | route (w : XdsRoute)
  | tcpRoute (w : XdsTcpRoute)
  | backend (key : BackendKey) (w : BackendWithPolicies B)
  | policy (w : TargetedPolicy P)

inductive XdsUpdate (P B : Type)
  | update (name : Strng) (resource : Resource P B)
  | remove (name : Strng)

/-- What a resource name stands for, once received. -/
inductive ResourceKind
  | policy (key : PolicyKey)
  | bind (key : BindKey)
  | route (key : RouteKey)
  | tcpRoute (key : RouteKey)
  | listener (key : ListenerKey)
  | backend (key : BackendKey)

/-- What a route is attached to. -/
inductive RouteTarget
  | listener (key : ListenerKey)
  | service (key : NamespacedHostname)
  | routeGroup (key : RouteGroupKey)
  deriving DecidableEq

inductive BindEvent
  | add (bind : Bind)
  | remove (key : BindKey)

abbrev HttpRoutes := IndexTable RouteTarget HostnameMatch RouteKey Route SingleRouteMatch
abbrev TcpRoutes := IndexTable RouteTarget HostnameMatch RouteKey TCPRoute RouteKey

structure Store (P B : Type) where
  ipv6Enabled : Bool
  binds : HashMap BindKey Bind
  resources : HashMap Strng ResourceKind
  policiesByKey : HashMap PolicyKey (TargetedPolicy P)
  policiesByTarget : HashMap PolicyTarget (HashSet PolicyKey)
  backends : HashMap BackendKey (BackendWithPolicies B)
  /-- Listeners that came before their bind. -/
  pendingListeners : HashMap BindKey ListenerSet
  httpRoutes : HttpRoutes
  tcpRoutes : TcpRoutes
  /-- The epoch of the listener-change channel. -/
  listenerEpoch : UInt64
  events : List BindEvent

namespace Store

variable {P B : Type} (s : Store P B)

def empty (ipv6Enabled : Bool) : Store P B where
  ipv6Enabled := ipv6Enabled
  binds := AssocMap.empty
  resources := AssocMap.empty
  policiesByKey := AssocMap.empty
  policiesByTarget := AssocMap.empty
  backends := AssocMap.empty
  pendingListeners := AssocMap.empty
  httpRoutes := AssocMap.empty
  tcpRoutes := AssocMap.empty
  listenerEpoch := 0
  events := []

-- ======== binds, listeners

/-- Saturating, like the source's epoch. -/
def notifyListenerChanged : Store P B :=
  { s with listenerEpoch :=
      if s.listenerEpoch = 0xFFFFFFFFFFFFFFFF then s.listenerEpoch
      else s.listenerEpoch + 1 }

/-- A listener of both versions differs, or one is gone; a new one alone
needs no notice. -/
def bindListenerChanged (old new : Bind) : Bool :=
  (new.listeners.values.any fun newListener =>
    match old.listeners.get? newListener.key with
    | none => false
    | some oldListener => oldListener ≠ newListener)
  || old.listeners.values.any fun oldListener =>
    match new.listeners.get? oldListener.key with
    | none => true
    | some newListener => oldListener ≠ newListener

/-- Take over the listeners waiting for the bind, then publish it. -/
def upsertBind (key : BindKey) (bind : Bind) : Store P B :=
  let oldBind := s.binds.get? key
  let pending := (s.pendingListeners.get? bind.key).getD AssocMap.empty
  let bind := { bind with
    listeners := pending.values.foldl ListenerSet.put bind.listeners }
  let s := { s with pendingListeners := s.pendingListeners.erase bind.key }
  let fresh := !s.binds.contains key
  let s :=
    match oldBind with
    | some old => if bindListenerChanged old bind then s.notifyListenerChanged else s
    | none => s
  { s with
    binds := s.binds.insert key bind
    events := if fresh then s.events ++ [.add bind] else s.events }

def insertBind (bind : Bind) : Store P B :=
  s.upsertBind bind.key bind

def removeBind (bind : BindKey) : Store P B :=
  { s with binds := s.binds.erase bind, events := s.events ++ [.remove bind] }

def insertListener (lis : Listener) (bindName : BindKey) : Store P B :=
  match s.binds.get? bindName with
  | some bind =>
    s.upsertBind bindName { bind with
      listeners := ListenerSet.put (bind.listeners.erase lis.key) lis }
  | none =>
    -- no bind yet: keep the listener pending
    let waiting := (s.pendingListeners.get? bindName).getD AssocMap.empty
    { s with
      pendingListeners := s.pendingListeners.insert bindName (waiting.put lis) }

/-- Remove the listener from the first bind that has it. -/
def removeListener (listener : ListenerKey) : Store P B :=
  match s.binds.entries.find? fun b => b.2.listeners.contains listener with
  | none => s
  | some (bindKey, bind) =>
    s.upsertBind bindKey { bind with listeners := bind.listeners.erase listener }

-- ======== routes

def insertHttpRouteTarget (target : RouteTarget) (route : Route) : Option (Store P B) := do
  let httpRoutes ← IndexTable.insertTarget routeIndex s.httpRoutes target route
  some { s with httpRoutes := httpRoutes }

def insertTcpRouteTarget (target : RouteTarget) (route : TCPRoute) : Option (Store P B) := do
  let tcpRoutes ← IndexTable.insertTarget tcpRouteIndex s.tcpRoutes target route
  some { s with tcpRoutes := tcpRoutes }

/-- Remove the route from every target; a target left empty goes. -/
def removeRoute (route : RouteKey) : Store P B :=
  { s with httpRoutes := IndexTable.removeKey routeIndex s.httpRoutes route }

def removeTcpRoute (tcpRoute : RouteKey) : Store P B :=
  { s with tcpRoutes := IndexTable.removeKey tcpRouteIndex s.tcpRoutes tcpRoute }

def removeRouteGroup (rg : RouteGroupKey) : Store P B :=
  { s with httpRoutes := s.httpRoutes.erase (.routeGroup rg) }

-- ======== policies and backends

/-- Take a key out of the set of a target, which stays even if empty. -/
def unlinkPolicy (m : HashMap PolicyTarget (HashSet PolicyKey))
    (target : PolicyTarget) (key : PolicyKey) : HashMap PolicyTarget (HashSet PolicyKey) :=
  m.modify target fun o => o.erase key

def insertPolicy (pol : TargetedPolicy P) : Store P B :=
  -- the old target loses the key, unless it gets it back
  let byTarget :=
    match s.policiesByKey.get? pol.key with
    | some old => unlinkPolicy s.policiesByTarget old.target pol.key
    | none => s.policiesByTarget
  { s with
    policiesByKey := s.policiesByKey.insert pol.key pol
    policiesByTarget := byTarget.insert pol.target
      (((byTarget.get? pol.target).getD AssocMap.empty).insert pol.key ()) }

def removePolicy (pol : PolicyKey) : Store P B :=
  match s.policiesByKey.get? pol with
  | some old =>
    { s with
      policiesByKey := s.policiesByKey.erase pol
      policiesByTarget := unlinkPolicy s.policiesByTarget old.target pol }
  | none => s

def insertBackend (key : BackendKey) (b : BackendWithPolicies B) : Store P B :=
  { s with backends := s.backends.insert key b }

def removeBackend (backend : BackendKey) : Store P B :=
  { s with backends := s.backends.erase backend }

-- ======== control plane

/-- A second push of a bind keeps the listeners it has. -/
def insertXdsBind (raw : XdsBind) : Store P B :=
  let bind := Bind.fromXds raw s.ipv6Enabled
  let bind :=
    match s.binds.get? bind.key with
    | some old => { bind with listeners := old.listeners }
    | none => bind
  s.insertBind bind

def insertXdsListener (raw : XdsListener) : Store P B :=
  let (lis, bindName) := Listener.fromXds raw
  s.insertListener lis bindName

/-- The target of a route: its group, else its service, else its
listener. -/
def routeTarget (raw : XdsRoute) : RouteTarget :=
  let (route, listenerName, rgk) := routeFromXds raw
  match rgk with
  | some rgk => .routeGroup rgk
  | none =>
    match route.serviceKey with
    | some sk => .service sk
    | none => .listener listenerName

def insertXdsRoute (raw : XdsRoute) : Option (Store P B) :=
  s.insertHttpRouteTarget (routeTarget raw) (routeFromXds raw).1

def tcpRouteTarget (raw : XdsTcpRoute) : RouteTarget :=
  let (route, listenerName) := tcpRouteFromXds raw
  match route.serviceKey with
  | some sk => .service sk
  | none => .listener listenerName

def insertXdsTcpRoute (raw : XdsTcpRoute) : Option (Store P B) :=
  s.insertTcpRouteTarget (tcpRouteTarget raw) (tcpRouteFromXds raw).1

def resourceKind : Resource P B → ResourceKind
  | .bind w => .bind w.key
  | .listener w => .listener w.key
  | .route w => .route w.key
  | .tcpRoute w => .tcpRoute w.key
  | .backend key _ => .backend key
  | .policy w => .policy w.key

def insertXds (name : Strng) (res : Resource P B) : Option (Store P B) :=
  let s := { s with resources := s.resources.insert name (resourceKind res) }
  match res with
  | .bind w => some (s.insertXdsBind w)
  | .listener w => some (s.insertXdsListener w)
  | .route w => s.insertXdsRoute w
  | .tcpRoute w => s.insertXdsTcpRoute w
  | .backend key w => some (s.insertBackend key w)
  | .policy w => some (s.insertPolicy w)

def removeResource (res : Strng) : Store P B :=
  match s.resources.get? res with
  | none => s
  | some old =>
    let s := { s with resources := s.resources.erase res }
    match old with
    | .policy n => s.removePolicy n
    | .bind n => s.removeBind n
    | .route n => s.removeRoute n
    | .tcpRoute n => s.removeTcpRoute n
    | .listener n => s.removeListener n
    | .backend n => s.removeBackend n

/-- One update of the `handle` loop. -/
def handleOne : XdsUpdate P B → Option (Store P B)
  | .update name resource => s.insertXds name resource
  | .remove name => some (s.removeResource name)

def handle (updates : List (XdsUpdate P B)) : Option (Store P B) :=
  updates.foldlM handleOne s

end Store

-- ======== reload

variable {P B : Type} (s : Store P B)

structure PreviousState where
  binds : HashSet BindKey
  routes : HashSet RouteKey
  tcpRoutes : HashSet RouteKey
  policies : HashSet PolicyKey
  backends : HashSet BackendKey
  routeGroups : HashSet RouteGroupKey

def PreviousState.default : PreviousState :=
  ⟨AssocMap.empty, AssocMap.empty, AssocMap.empty, AssocMap.empty, AssocMap.empty, AssocMap.empty⟩

structure LocalConfig (P B : Type) where
  binds : List Bind
  listenerRoutes : List (ListenerKey × List Route)
  listenerTcpRoutes : List (ListenerKey × List TCPRoute)
  policies : List (TargetedPolicy P)
  backends : List (BackendWithPolicies B)
  routeGroups : List (RouteGroupKey × List Route)

namespace LocalConfig

def empty : LocalConfig P B := ⟨[], [], [], [], [], []⟩

variable (cfg : LocalConfig P B)

def bindKeys : List BindKey := cfg.binds.map Bind.key

def backendKeys : List BackendKey :=
  cfg.backends.map BackendWithPolicies.name

def routeKeys : List RouteKey :=
  cfg.listenerRoutes.flatMap fun e => e.2.map Route.key

def tcpRouteKeys : List RouteKey :=
  cfg.listenerTcpRoutes.flatMap fun e => e.2.map TCPRoute.key

def policyKeys : List PolicyKey :=
  cfg.policies.map TargetedPolicy.key

def groupKeys : List RouteGroupKey :=
  cfg.routeGroups.map Prod.fst

end LocalConfig

/-- `next_state.x.insert(key)` for every key. -/
def collectKeys (keys : List Strng) : HashSet Strng :=
  keys.foldl (fun next key => next.insert key ()) AssocMap.empty

/-- `old_x.remove(&key)` for every key. -/
def dropKeys (old : HashSet Strng) (keys : List Strng) : HashSet Strng :=
  keys.foldl (fun old key => old.erase key) old

namespace Store

def insertRouteIntoGroup (r : Route) (ln : RouteGroupKey) : Option (Store P B) :=
  s.insertHttpRouteTarget (.routeGroup ln) r

def insertRoute (r : Route) (ln : ListenerKey) : Option (Store P B) :=
  s.insertHttpRouteTarget (.listener ln) r

def insertTcpRoute (r : TCPRoute) (ln : ListenerKey) : Option (Store P B) :=
  s.insertTcpRouteTarget (.listener ln) r

def syncLocal (cfg : LocalConfig P B) (prev : PreviousState) :
    Option (Store P B × PreviousState) := do
  let s := cfg.binds.foldl insertBind s
  -- the name is the key here, for the local case only
  let s := cfg.backends.foldl (fun s b => s.insertBackend b.name b) s
  let s ← cfg.listenerRoutes.foldlM
    (fun s e => e.2.foldlM (fun s route => s.insertRoute route e.1) s) s
  let s ← cfg.listenerTcpRoutes.foldlM
    (fun s e => e.2.foldlM (fun s route => s.insertTcpRoute route e.1) s) s
  let s := cfg.policies.foldl insertPolicy s
  let s ← cfg.routeGroups.foldlM
    (fun s e => e.2.foldlM (fun s r => s.insertRouteIntoGroup r e.1) s) s
  let s := (dropKeys prev.binds cfg.bindKeys).keys.foldl removeBind s
  let s := (dropKeys prev.routes cfg.routeKeys).keys.foldl removeRoute s
  let s := (dropKeys prev.tcpRoutes cfg.tcpRouteKeys).keys.foldl removeTcpRoute s
  let s := (dropKeys prev.policies cfg.policyKeys).keys.foldl removePolicy s
  let s := (dropKeys prev.backends cfg.backendKeys).keys.foldl removeBackend s
  let s := (dropKeys prev.routeGroups cfg.groupKeys).keys.foldl removeRouteGroup s
  some (s, {
    binds := collectKeys cfg.bindKeys
    routes := collectKeys cfg.routeKeys
    tcpRoutes := collectKeys cfg.tcpRouteKeys
    policies := collectKeys cfg.policyKeys
    backends := collectKeys cfg.backendKeys
    routeGroups := collectKeys cfg.groupKeys })

/-- Load one configuration after the other, each with the state the one
before left behind. -/
def syncAll (ipv6Enabled : Bool) (cfgs : List (LocalConfig P B)) :
    Option (Store P B × PreviousState) :=
  cfgs.foldlM (fun sp cfg => syncLocal sp.1 cfg sp.2) (empty ipv6Enabled, .default)

end Store

end AgentGateway.Binds
