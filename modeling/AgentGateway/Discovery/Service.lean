/-
Services and their endpoint sets (`types/discovery.rs`, and the
endpoint-typed half of `types/loadbalancer.rs`), and how discovery
resources are decoded.

The bucket of an endpoint is the number of routing preferences minus the
length of the matching prefix, so bucket 0 is the best match. What the
stores rely on is `bucketFor_lt`: a bucket handed out by a ranker exists
in every endpoint set built with the same ranker's `priorityLevels`.

A `Service` is immutable and shared (`Arc<Service>`); its endpoint set
is the one mutable thing it carries, and a service update may hand the
same set over to the next version of the service. The set is therefore
a reference here, into the arena a `ServiceStore` keeps.

Of the xDS conversions every check is kept, in its order, with the error
it reports; a protobuf enum arrives as an integer and unknown values are
refused.
-/
import AgentGateway.Discovery.Types
import AgentGateway.Endpoints.EndpointSet

namespace AgentGateway.Endpoints

open Discovery

/-- The load-balancer settings of the service and the gateway's own
workload, each possibly unknown. -/
structure LocalityRanker where
  lb : Option LoadBalancer
  source : Option Workload

namespace LocalityRanker

/-- Modes that do not bucket ignore the preferences. -/
def usesBuckets (lb : LoadBalancer) : Bool :=
  match lb.mode with
  | .standard | .passthrough => false
  | .strict | .failover => true

def priorityLevels (r : LocalityRanker) : Nat :=
  match r.lb with
  | some lb => if usesBuckets lb then lb.routingPreferences.length + 1 else 1
  | none => 1

def scopeMatches (src wl : Workload) : LoadBalancerScopes → Bool
  | .region => src.locality.region = wl.locality.region
  | .zone => src.locality.zone = wl.locality.zone
  | .subzone => src.locality.subzone = wl.locality.subzone
  | .node => src.node = wl.node
  | .cluster => src.clusterId = wl.clusterId
  | .network => src.network = wl.network

/-- The preference loop of `rank`: count matches until the first
mismatch. -/
def rankLoop (src wl : Workload) : List LoadBalancerScopes → Nat
  | [] => 0
  | scope :: rest =>
    if scopeMatches src wl scope then 1 + rankLoop src wl rest else 0

/-- The rank of an endpoint, or `none` when strict mode requires a full
match that was not reached. -/
def rank (r : LocalityRanker) (wl : Workload) : Option Nat :=
  match r.lb, r.source with
  | some lb, some src =>
    let rank := rankLoop src wl lb.routingPreferences
    if lb.mode = .strict ∧ rank ≠ lb.routingPreferences.length then none
    else some rank
  | _, _ => some 0

/-- Bucket index for a destination workload; `none` drops the
endpoint. -/
def bucketFor (r : LocalityRanker) (wl : Workload) : Option Nat :=
  if r.source.isNone then some 0
  else
    match r.lb with
    | some lb =>
      if !usesBuckets lb then some 0
      else (r.rank wl).map fun rank => lb.routingPreferences.length - rank
    | none => (r.rank wl).map fun rank => 0 - rank

theorem bucketFor_lt {r : LocalityRanker} {wl : Workload} {b : Nat}
    (h : r.bucketFor wl = some b) : b < r.priorityLevels := by
  unfold bucketFor at h
  unfold priorityLevels
  split at h
  · -- unknown source: everything sits in bucket 0
    simp only [Option.some.injEq] at h
    split
    · split <;> omega
    · omega
  · split at h
    · split at h
      · simp only [Option.some.injEq] at h
        split <;> omega
      · next hub =>
        obtain ⟨rank, -, hb⟩ := Option.map_eq_some_iff.1 h
        rw [if_pos (by simpa using hub)]
        omega
    · obtain ⟨rank, -, hb⟩ := Option.map_eq_some_iff.1 h
      omega

end LocalityRanker

end AgentGateway.Endpoints

namespace AgentGateway

open Endpoints

namespace Discovery

/-- A reference to a shared, mutable endpoint set. -/
abbrev EndpointsRef := Nat

/-- A service. Subject alternative names and the ingress flag are read
by no modelled function and left out. -/
structure Service where
  name : Strng
  ns : Strng
  hostname : Strng
  vips : List NetworkAddress
  ports : Ports
  appProtocols : HashMap UInt16 AppProtocol
  endpoints : EndpointsRef
  waypoint : Option GatewayAddress
  loadBalancer : Option LoadBalancer
  ipFamilies : Option IpFamily
  deriving DecidableEq

def Service.namespacedHostname (s : Service) : NamespacedHostname :=
  ⟨s.ns, s.hostname⟩

def Service.shouldIncludeEndpoint (s : Service) (epHealth : HealthStatus) : Bool :=
  epHealth = .healthy
    || (s.loadBalancer.map fun lb => decide (lb.healthPolicy = .allowAll)).getD false

end Discovery

open Discovery

/-- `EndpointSet::<Endpoint>::insert`: rank the workload and add the
endpoint to its bucket; a strict-mode mismatch drops it. -/
def Endpoints.EndpointSet.insert {I : Type} [Inhabited I]
    (s : EndpointSet Endpoint I) (ep : Endpoint) (destWorkload : Workload)
    (ranker : LocalityRanker) : EndpointSet Endpoint I :=
  match ranker.bucketFor destWorkload with
  | some bucket =>
    s.event (.add ep.workloadUid (.withCapacity ep destWorkload.capacity) bucket)
  | none => s

end AgentGateway

namespace AgentGateway.Discovery

/-- The conversion errors of `types/proto.rs` these decoders report. -/
inductive ProtoError
  | namespacedHostnameParse (value : Strng)
  | byteAddressParse (bytes : Nat)
  | enumParse (what : Strng)
  | missingGatewayAddress
  | enumError (value : Int)
  deriving DecidableEq

-- ======== messages

structure XdsPort where
  servicePort : UInt32
  targetPort : UInt32
  appProtocol : Int

structure PortList where
  ports : List XdsPort

structure XdsNetworkAddress where
  network : Strng
  address : List UInt8

/-- The `destination` oneof of `workload.GatewayAddress`. -/
inductive XdsGatewayDestination
  | address (addr : XdsNetworkAddress)
  | hostname (ns hostname : Strng)

structure XdsGatewayAddress where
  destination : Option XdsGatewayDestination
  hboneMtlsPort : UInt32

structure XdsWorkload where
  uid : Strng
  name : Strng
  ns : Strng
  addresses : List (List UInt8)
  network : Strng
  tunnelProtocol : Int
  waypoint : Option XdsGatewayAddress
  networkGateway : Option XdsGatewayAddress
  node : Strng
  services : HashMap Strng PortList
  status : Int
  clusterId : Strng
  locality : Option Locality
  networkMode : Int
  capacity : Option UInt32

structure XdsLoadBalancing where
  routingPreference : List Int
  mode : Int
  healthPolicy : Int

structure XdsService where
  name : Strng
  ns : Strng
  hostname : Strng
  addresses : List XdsNetworkAddress
  ports : List XdsPort
  waypoint : Option XdsGatewayAddress
  loadBalancing : Option XdsLoadBalancing
  ipFamilies : Int

-- ======== conversions

def NamespacedHostname.fromStr (value : Strng) : Except ProtoError NamespacedHostname :=
  match splitOnce value '/' with
  | some (ns, hostname) => .ok ⟨ns, hostname⟩
  | none => .error (.namespacedHostnameParse value)

/-- Four octets are IPv4, sixteen are IPv6, anything else is refused. -/
def byteToIp (b : List UInt8) : Except ProtoError IpAddr :=
  if h4 : b.length = 4 then .ok (.v4 ⟨b.toArray, by simpa using h4⟩)
  else if h16 : b.length = 16 then .ok (.v6 ⟨b.toArray, by simpa using h16⟩)
  else .error (.byteAddressParse b.length)

/-- Service port to target port, each truncated to sixteen bits; a later
entry for the same port wins. -/
def portsFromXds (value : PortList) : Ports :=
  Lib.AssocMap.ofList (value.ports.map fun p =>
    (p.servicePort.toUInt16, p.targetPort.toUInt16))

def GatewayAddress.tryFrom (value : XdsGatewayAddress) : Except ProtoError GatewayAddress :=
  match value.destination with
  | some (.address addr) => do
      let ip ← byteToIp addr.address
      .ok ⟨.address (networkAddr addr.network ip), value.hboneMtlsPort.toUInt16⟩
  | some (.hostname ns hostname) =>
    .ok ⟨.hostname ⟨ns, hostname⟩, value.hboneMtlsPort.toUInt16⟩
  | none => .error .missingGatewayAddress

/-- An optional gateway address is decoded only when present. -/
def gatewayFromXds (value : Option XdsGatewayAddress) : Except ProtoError (Option GatewayAddress) :=
  match value with
  | some w => some <$> GatewayAddress.tryFrom w
  | none => .ok none

/-- `TunnelProtocol` as the inbound protocol. -/
def inboundProtocolFromXds : Int → Except ProtoError InboundProtocol
  | 0 => .ok .tcp
  | 1 => .ok .hbone
  | 2 => .ok .legacyIstioMtls
  | v => .error (.enumError v)

def networkModeFromXds : Int → Except ProtoError NetworkMode
  | 0 => .ok .standard
  | 1 => .ok .hostNetwork
  | v => .error (.enumError v)

def healthStatusFromXds : Int → Except ProtoError HealthStatus
  | 0 => .ok .healthy
  | 1 => .ok .unhealthy
  | v => .error (.enumError v)

/-- `LoadBalancing.Scope`; the unspecified scope is known to protobuf
but refused. -/
def scopeFromXds : Int → Except ProtoError LoadBalancerScopes
  | 0 => .error (.enumParse "invalid target")
  | 1 => .ok .region
  | 2 => .ok .zone
  | 3 => .ok .subzone
  | 4 => .ok .node
  | 5 => .ok .cluster
  | 6 => .ok .network
  | v => .error (.enumError v)

def modeFromXds : Int → Except ProtoError LoadBalancerMode
  | 0 => .ok .standard
  | 1 => .ok .strict
  | 2 => .ok .failover
  | 3 => .ok .passthrough
  | v => .error (.enumError v)

def healthPolicyFromXds : Int → Except ProtoError LoadBalancerHealthPolicy
  | 0 => .ok .onlyHealthy
  | 1 => .ok .allowAll
  | v => .error (.enumError v)

/-- `AppProtocol`; an unknown protocol is no entry. -/
def appProtocolFromXds : Int → Except ProtoError (Option AppProtocol)
  | 0 => .ok none
  | 1 => .ok (some .http11)
  | 2 => .ok (some .http2)
  | 3 => .ok (some .grpc)
  | 4 => .ok (some .tcp)
  | 5 => .ok (some .tls)
  | v => .error (.enumError v)

def ipFamilyFromXds : Int → Except ProtoError (Option IpFamily)
  | 0 => .ok none
  | 1 => .ok (some .ipv4)
  | 2 => .ok (some .ipv6)
  | 3 => .ok (some .dual)
  | v => .error (.enumError v)

/-- The membership pairs of a workload, in iteration order. -/
def servicesFromXds (services : HashMap Strng PortList) :
    Except ProtoError (List (NamespacedHostname × Ports)) :=
  services.entries.mapM fun e => do
    let nh ← NamespacedHostname.fromStr e.1
    .ok (nh, portsFromXds e.2)

/-- `Workload::try_from_xds_with_services`: the workload, and the raw
membership map back to the caller. -/
def Workload.tryFromXdsWithServices (resource : XdsWorkload) :
    Except ProtoError (Workload × HashMap Strng PortList) := do
  let wp ← gatewayFromXds resource.waypoint
  let networkGw ← gatewayFromXds resource.networkGateway
  let addresses ← resource.addresses.mapM byteToIp
  let services ← servicesFromXds resource.services
  let protocol ← inboundProtocolFromXds resource.tunnelProtocol
  let networkMode ← networkModeFromXds resource.networkMode
  let status ← healthStatusFromXds resource.status
  .ok ({
    workloadIps := addresses
    waypoint := wp
    networkGateway := networkGw
    protocol := protocol
    networkMode := networkMode
    uid := resource.uid
    name := resource.name
    ns := resource.ns
    network := resource.network
    node := resource.node
    status := status
    clusterId := if resource.clusterId = "" then "Kubernetes" else resource.clusterId
    locality := resource.locality.getD ⟨"", "", ""⟩
    services := Lib.AssocMap.ofList services
    capacity := resource.capacity.getD 1 }, resource.services)

def loadBalancerFromXds (lb : XdsLoadBalancing) : Except ProtoError LoadBalancer := do
  let prefs ← lb.routingPreference.mapM scopeFromXds
  let mode ← modeFromXds lb.mode
  let health ← healthPolicyFromXds lb.healthPolicy
  .ok ⟨prefs, mode, health⟩

/-- `Service::try_from`. The endpoint set is filled in by the store. -/
def Service.tryFrom (s : XdsService) (endpoints : EndpointsRef) : Except ProtoError Service := do
  let vips ← s.addresses.mapM fun addr => do
    let ip ← byteToIp addr.address
    .ok (networkAddr addr.network ip)
  let waypoint ← gatewayFromXds s.waypoint
  let lb ← match s.loadBalancing with
    | some lb => some <$> loadBalancerFromXds lb
    | none => .ok none
  let appProtocols ← s.ports.mapM fun p => do
    let ap ← appProtocolFromXds p.appProtocol
    .ok (ap.map fun ap => (p.servicePort.toUInt16, ap))
  let ipFamilies ← ipFamilyFromXds s.ipFamilies
  .ok {
    name := s.name
    ns := s.ns
    hostname := s.hostname
    vips := vips
    ports := portsFromXds ⟨s.ports⟩
    appProtocols := Lib.AssocMap.ofList (appProtocols.filterMap id)
    endpoints := endpoints
    waypoint := waypoint
    loadBalancer := lb
    ipFamilies := ipFamilies }

end AgentGateway.Discovery
