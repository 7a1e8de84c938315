/-
The discovery records: workloads, load-balancer settings and endpoints
(`types/discovery.rs`).

A record keeps the fields that some modelled function reads or can fail
on; telemetry and identity texts (trust domain, service account,
canonical names, workload type) are read by none of them and are left
out.
-/
import AgentGateway.Basic

namespace AgentGateway.Discovery

-- ======== names and addresses

/-- The xDS primary key of a service. -/
structure NamespacedHostname where
  ns : Strng
  hostname : Strng
  deriving DecidableEq

/-- `std::net::IpAddr`, as the octets it is parsed from. -/
inductive IpAddr
  | v4 (octets : Vector UInt8 4)
  | v6 (octets : Vector UInt8 16)
  deriving DecidableEq

/-- An address on a network, the secondary key of services and
workloads. -/
structure NetworkAddress where
  network : Strng
  address : IpAddr
  deriving DecidableEq

def networkAddr (network : Strng) (vip : IpAddr) : NetworkAddress :=
  ⟨network, vip⟩

/-- Where a gateway is reached (`gatewayaddress::Destination`). -/
inductive GatewayDestination
  | address (addr : NetworkAddress)
  | hostname (name : NamespacedHostname)
  deriving DecidableEq

/-- A waypoint or network gateway. -/
structure GatewayAddress where
  destination : GatewayDestination
  hboneMtlsPort : UInt16
  deriving DecidableEq

-- ======== enumerations

/-- The protocol the final workload expects. -/
inductive InboundProtocol
  | tcp
  | hbone
  | legacyIstioMtls
  deriving DecidableEq

/-- How the addresses of a workload are to be treated. -/
inductive NetworkMode
  | standard
  | hostNetwork
  deriving DecidableEq

inductive HealthStatus
  | healthy
  | unhealthy
  deriving DecidableEq

inductive AppProtocol
  | http11
  | http2
  | grpc
  | tls
  | tcp
  deriving DecidableEq

inductive IpFamily
  | dual
  | ipv4
  | ipv6
  deriving DecidableEq

-- ======== load balancer

/-- A property two workloads may share, in a preference list. -/
inductive LoadBalancerScopes
  | region
  | zone
  | subzone
  | node
  | cluster
  | network
  deriving DecidableEq

/-- Which endpoints of a service are eligible by health. -/
inductive LoadBalancerHealthPolicy
  | onlyHealthy
  | allowAll
  deriving DecidableEq

/-- How the routing preferences are used. -/
inductive LoadBalancerMode
  | standard
  | strict
  | failover
  | passthrough
  deriving DecidableEq

structure LoadBalancer where
  routingPreferences : List LoadBalancerScopes
  mode : LoadBalancerMode
  healthPolicy : LoadBalancerHealthPolicy
  deriving DecidableEq

-- ======== workloads

structure Locality where
  region : Strng
  zone : Strng
  subzone : Strng
  deriving Inhabited

/-- Service port to target port. -/
abbrev Ports := HashMap UInt16 UInt16

/-- A workload with the services it is a member of. -/
structure Workload where
  workloadIps : List IpAddr
  waypoint : Option GatewayAddress
  networkGateway : Option GatewayAddress
  protocol : InboundProtocol
  networkMode : NetworkMode
  uid : Strng
  name : Strng
  ns : Strng
  network : Strng
  node : Strng
  status : HealthStatus
  clusterId : Strng
  locality : Locality
  services : HashMap NamespacedHostname Ports
  capacity : UInt32

/-- One workload as a member of one service. -/
structure Endpoint where
  workloadUid : Strng
  port : Ports
  status : HealthStatus

end AgentGateway.Discovery
