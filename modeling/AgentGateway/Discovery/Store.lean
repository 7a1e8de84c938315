/-
The discovery store (`store/discovery.rs`): the workload indexes, the
service indexes with their endpoint sets, and the xDS entry points that
keep the two in step.

# Sharing

An `Arc<Service>` sits in `by_host` and in `by_vip` at once, and the
endpoint set inside it is mutated in place. `ServiceStore.endpointSets`
is the arena those sets live in: mutating through one holder is seen by
every other, and a service update that keeps the set
(`insertServiceInternal`'s fast path) keeps the reference.

# Reload

As for the binds, everything the new configuration names is inserted and
then what only the previous one named is removed (`sync_local`). Unlike there
a load may fail: a service name of a workload that is not
`namespace/hostname` ends the load where it is, with the workloads up to that
one inserted, nothing removed and nothing remembered. The sets of keys to
remember do not depend on the store, so the model computes them in loops of
their own.

# Left out

The insert notifier (a wake-up channel) and the trace output. A removal
that finds nothing only warns in the source, so it leaves the store as
it is here.
-/
import AgentGateway.Discovery.Service

namespace AgentGateway.Discovery

open Lib Endpoints

-- ======== workload store

/-- The workloads sharing one address: one almost always, rarely
several. -/
inductive WorkloadByAddr
  | single (w : Workload)
  | many (ws : List Workload)

namespace WorkloadByAddr

def insert (a : WorkloadByAddr) (w : Workload) : WorkloadByAddr :=
  match a with
  | .single workload => .many [workload, w]
  | .many ws => .many (ws ++ [w])

/-- Remove a workload by uid; the flag says that none remains. -/
def removeUid (a : WorkloadByAddr) (uid : Strng) : WorkloadByAddr × Bool :=
  match a with
  | .single wl => (.single wl, wl.uid = uid)
  | .many ws =>
    match ws.filter fun w => w.uid ≠ uid with
    | [] => (.many [], true)
    | [wl] => (.single wl, false)
    | rest => (.many rest, false)

end WorkloadByAddr

structure WorkloadStore where
  byService : HashMap NamespacedHostname (HashSet Strng)
  byAddr : HashMap NetworkAddress WorkloadByAddr
  byUid : HashMap Strng Workload

namespace WorkloadStore

def empty : WorkloadStore := ⟨AssocMap.empty, AssocMap.empty, AssocMap.empty⟩

/-- One step of the address loop of `remove`: drop the workload from the
entry, and the entry when it was the last. -/
def removeAddr (prev : Workload) (m : HashMap NetworkAddress WorkloadByAddr)
    (wip : IpAddr) : HashMap NetworkAddress WorkloadByAddr :=
  let k := networkAddr prev.network wip
  match m.get? k with
  | some o =>
    let (rest, gone) := o.removeUid prev.uid
    if gone then m.erase k else m.insert k rest
  | none => m

/-- One step of the service loop of `remove`. -/
def removeMember (uid : Strng) (m : HashMap NamespacedHostname (HashSet Strng))
    (svc : NamespacedHostname) : HashMap NamespacedHostname (HashSet Strng) :=
  match m.get? svc with
  | some set =>
    let set := set.erase uid
    if set.isEmpty then m.erase svc else m.insert svc set
  | none => m

def remove (s : WorkloadStore) (uid : Strng) : WorkloadStore × Option Workload :=
  match s.byUid.get? uid with
  | none => (s, none)
  | some prev =>
    ({ byUid := s.byUid.erase uid
       byAddr :=
         if prev.networkMode ≠ .hostNetwork then
           prev.workloadIps.foldl (removeAddr prev) s.byAddr
         else s.byAddr
       byService := prev.services.keys.foldl (removeMember prev.uid) s.byService },
      some prev)

/-- One step of the address loop of `insert`. -/
def insertAddr (w : Workload) (m : HashMap NetworkAddress WorkloadByAddr)
    (ip : IpAddr) : HashMap NetworkAddress WorkloadByAddr :=
  let k := networkAddr w.network ip
  match m.get? k with
  | some ws => m.insert k (ws.insert w)
  | none => m.insert k (.single w)

/-- One step of the service loop of `insert`. -/
def insertMember (uid : Strng) (m : HashMap NamespacedHostname (HashSet Strng))
    (svc : NamespacedHostname) : HashMap NamespacedHostname (HashSet Strng) :=
  m.insert svc (((m.get? svc).getD AssocMap.empty).insert uid ())

def insert (s : WorkloadStore) (w : Workload) : WorkloadStore :=
  -- first remove the entry entirely, so that things are cleaned up
  let s := (s.remove w.uid).1
  { byAddr :=
      if w.networkMode ≠ .hostNetwork then
        w.workloadIps.foldl (insertAddr w) s.byAddr
      else s.byAddr
    byService := w.services.keys.foldl (insertMember w.uid) s.byService
    byUid := s.byUid.insert w.uid w }

def iterByService (s : WorkloadStore) (svc : NamespacedHostname) : List Workload :=
  match s.byService.get? svc with
  | some uids => uids.keys.filterMap fun uid => s.byUid.get? uid
  | none => []

end WorkloadStore

-- ======== service store

abbrev ServiceEndpoints := EndpointSet Endpoint EndpointInfo

structure ServiceStore where
  /-- Endpoints received before their service, by service and uid. -/
  stagedServices : HashMap NamespacedHostname (HashMap Strng Endpoint)
  byVip : HashMap NetworkAddress Service
  /-- By hostname, then by namespace. -/
  byHost : HashMap Strng (List Service)
  endpointSets : Arena ServiceEndpoints

namespace ServiceStore

def empty : ServiceStore :=
  ⟨AssocMap.empty, AssocMap.empty, AssocMap.empty, Arena.empty⟩

variable (s : ServiceStore)

def getByNamespacedHost (host : NamespacedHostname) : Option Service :=
  match s.byHost.get? host.hostname with
  | none => none
  | some services => services.find? fun service => service.ns = host.ns

def getByVip (vip : NetworkAddress) : Option Service :=
  s.byVip.get? vip

def updateEndpoints (svc : Service) (f : ServiceEndpoints → ServiceEndpoints) : ServiceStore :=
  { s with endpointSets := s.endpointSets.update svc.endpoints f }

def insertEndpoint (serviceName : NamespacedHostname)
    (ep : Endpoint) (destWorkload : Workload) (localitySource : Option Workload) : ServiceStore :=
  match s.getByNamespacedHost serviceName with
  | some svc =>
    if !svc.shouldIncludeEndpoint ep.status then s
    else
      let ranker : LocalityRanker := ⟨svc.loadBalancer, localitySource⟩
      s.updateEndpoints svc fun eps => eps.insert ep destWorkload ranker
  | none =>
    -- the service is not here yet: stage the endpoint for it
    let staged := (s.stagedServices.get? serviceName).getD AssocMap.empty
    { s with stagedServices :=
        s.stagedServices.insert serviceName (staged.insert ep.workloadUid ep) }

/-- The membership loop; it stops at the first name that does not
parse. -/
def insertEndpointForServices (s : ServiceStore) (workload : Workload)
    (localitySource : Option Workload) :
    List (Strng × PortList) → ServiceStore × Except ProtoError Unit
  | [] => (s, .ok ())
  | (namespacedHost, ports) :: rest =>
    match NamespacedHostname.fromStr namespacedHost with
    | .error e => (s, .error e)
    | .ok name =>
      insertEndpointForServices
        (s.insertEndpoint name ⟨workload.uid, portsFromXds ports, workload.status⟩
          workload localitySource)
        workload localitySource rest

/-- The staged half of `remove_endpoint`, for one service. -/
def unstage (uid : Strng) (m : HashMap NamespacedHostname (HashMap Strng Endpoint))
    (svc : NamespacedHostname) : HashMap NamespacedHostname (HashMap Strng Endpoint) :=
  let staged := ((m.get? svc).getD AssocMap.empty).erase uid
  if staged.isEmpty then m.erase svc else m.insert svc staged

/-- The service half of `remove_endpoint`, for one service. -/
def dropEndpoint (uid : Strng) (s : ServiceStore) (svc : NamespacedHostname) : ServiceStore :=
  match s.getByNamespacedHost svc with
  | some svc => s.updateEndpoints svc fun eps => eps.remove uid
  | none => s

def removeEndpoint (prevWorkload : Workload) : ServiceStore :=
  let uid := prevWorkload.uid
  let servicesToUpdate := prevWorkload.services.keys
  let s := { s with
    stagedServices := servicesToUpdate.foldl (unstage uid) s.stagedServices }
  servicesToUpdate.foldl (dropEndpoint uid) s

/-- Remove the service of a host and namespace; the flag says whether
there was one. -/
def remove (namespacedHost : NamespacedHostname) : ServiceStore × Bool :=
  match s.byHost.get? namespacedHost.hostname with
  | none => (s, false)
  | some services =>
    match services.find? fun service => service.ns = namespacedHost.ns with
    | none => (s, false)
    | some prev =>
      let rest := services.eraseP fun service => service.ns = namespacedHost.ns
      ({ s with
          byHost :=
            if rest.isEmpty then s.byHost.erase namespacedHost.hostname
            else s.byHost.insert namespacedHost.hostname rest
          byVip := prev.vips.foldl (fun m addr => m.erase addr) s.byVip
          stagedServices := s.stagedServices.erase namespacedHost },
        true)

/-- Put a service into its slot of the per-hostname list, or append
it. -/
def replaceOrPush (service : Service) : List Service → List Service
  | [] => [service]
  | s :: rest =>
    if s.ns = service.ns then service :: rest
    else s :: replaceOrPush service rest

def insert (s : ServiceStore) (service : Service) : ServiceStore :=
  let s := (s.remove service.namespacedHostname).1
  { s with
    byVip := service.vips.foldl (fun m vip => m.insert vip service) s.byVip
    byHost :=
      match s.byHost.get? service.hostname with
      | none => s.byHost.insert service.hostname [service]
      | some services =>
        s.byHost.insert service.hostname (replaceOrPush service services) }

end ServiceStore

-- ======== store

structure Store where
  workloads : WorkloadStore
  services : ServiceStore
  selfWorkload : Option Workload

namespace Store

/-- `Store::new`, with the self workload it will resolve to. -/
def new (selfWorkload : Option Workload) : Store :=
  ⟨WorkloadStore.empty, ServiceStore.empty, selfWorkload⟩

variable (st : Store)

/-- Remove by xDS name: a workload by uid, else a service by
`namespace/hostname`. -/
def removeInternal (xdsName : Strng) (forWorkloadInsert : Bool) : Store :=
  match st.workloads.remove xdsName with
  | (workloads, some prev) =>
    { st with workloads := workloads
              services := st.services.removeEndpoint prev }
  | (_, none) =>
    if forWorkloadInsert then st
    else
      match NamespacedHostname.fromStr xdsName with
      | .error _ => st
      | .ok name =>
        -- hostnames have no slash, so this is an obvious workload uid
        if '/' ∈ name.hostname.toList then st
        else { st with services := (st.services.remove name).1 }

def remove (xdsName : Strng) : Store :=
  st.removeInternal xdsName false

def insertWorkload (w : XdsWorkload) : Store × Except ProtoError Unit :=
  match Workload.tryFromXdsWithServices w with
  | .error e => (st, .error e)
  | .ok (workload, services) =>
    let st := st.removeInternal workload.uid true
    let (svcs, res) := st.services.insertEndpointForServices workload
      st.selfWorkload services.entries
    ({ st with workloads := st.workloads.insert workload, services := svcs }, res)

/-- The slow path of `insert_service_internal`: rank every workload the
index lists for the service. -/
def rebuildEndpoints (service : Service) : ServiceEndpoints :=
  let key := service.namespacedHostname
  let ranker : LocalityRanker := ⟨service.loadBalancer, st.selfWorkload⟩
  (st.workloads.iterByService key).foldl (fun eps wl =>
      match wl.services.get? key with
      | none => eps
      | some ports =>
        if !service.shouldIncludeEndpoint wl.status then eps
        else eps.insert ⟨wl.uid, ports, wl.status⟩ wl ranker)
    (EndpointSet.newEmpty ranker.priorityLevels)

/-- Register a service over a set built from scratch. -/
def insertServiceRebuilt (services : ServiceStore) (service : Service) : Store :=
  let alloc := services.endpointSets.alloc (st.rebuildEndpoints service)
  let services := { services with endpointSets := alloc.1 }
  { st with services := services.insert { service with endpoints := alloc.2 } }

def insertServiceInternal (service : Service) : Store :=
  let key := service.namespacedHostname
  let hadStaged := st.services.stagedServices.contains key
  let services := { st.services with
    stagedServices := st.services.stagedServices.erase key }
  match st.services.getByNamespacedHost key with
  | some prev =>
    -- unchanged load balancing: the set of the previous version still holds
    if prev.loadBalancer = service.loadBalancer ∧ hadStaged = false then
      { st with services := services.insert { service with endpoints := prev.endpoints } }
    else st.insertServiceRebuilt services service
  | none => st.insertServiceRebuilt services service

def insertService (service : XdsService) : Store × Except ProtoError Unit :=
  -- the endpoints of the decoded service are filled in below
  match Service.tryFrom service 0 with
  | .error e => (st, .error e)
  | .ok service => (st.insertServiceInternal service, .ok ())

end Store

-- ======== runs

inductive Op
  | insertWorkload (w : XdsWorkload)
  | insertService (s : XdsService)
  | insertServiceInternal (s : Service)
  | remove (xdsName : Strng)

def Store.step (st : Store) : Op → Store
  | .insertWorkload w => (st.insertWorkload w).1
  | .insertService s => (st.insertService s).1
  | .insertServiceInternal s => st.insertServiceInternal s
  | .remove xdsName => st.remove xdsName

def Store.run (selfWorkload : Option Workload) (ops : List Op) : Store :=
  ops.foldl Store.step (Store.new selfWorkload)

-- ======== reload

structure PreviousState where
  workloads : HashSet Strng
  services : HashSet NamespacedHostname

def PreviousState.default : PreviousState := ⟨AssocMap.empty, AssocMap.empty⟩

/-- A workload of the configuration file. The record is flattened into
the entry, whose own `services` comes first, so the memberships of the
inner workload are always the default. -/
structure LocalWorkload where
  workload : Workload
  services : HashMap Strng Ports
  flattened : workload.services = AssocMap.empty

structure LocalConfig where
  services : List Service
  workloads : List LocalWorkload

def portListFromPorts (value : Ports) : PortList :=
  ⟨value.entries.map fun e => ⟨e.1.toUInt32, e.2.toUInt32, 0⟩⟩

namespace LocalWorkload

/-- One step of the merge loop; a name without a slash is passed
over. -/
def mergeService (services : HashMap NamespacedHostname Ports)
    (e : Strng × Ports) : HashMap NamespacedHostname Ports :=
  match splitOnce e.1 '/' with
  | none => services
  | some (ns, hostname) => services.insert ⟨ns, hostname⟩ e.2

/-- The workload with the memberships of the entry. -/
def merged (wl : LocalWorkload) : Workload :=
  { wl.workload with
    services := wl.services.entries.foldl mergeService wl.workload.services }

def uid (wl : LocalWorkload) : Strng := wl.workload.uid

/-- The memberships as they go into the services. -/
def portLists (wl : LocalWorkload) : List (Strng × PortList) :=
  wl.services.entries.map fun e => (e.1, portListFromPorts e.2)

end LocalWorkload

namespace LocalConfig

def empty : LocalConfig := ⟨[], []⟩

def uids (cfg : LocalConfig) : List Strng := cfg.workloads.map LocalWorkload.uid

def hosts (cfg : LocalConfig) : List NamespacedHostname :=
  cfg.services.map Service.namespacedHostname

end LocalConfig

namespace Store

def removeWorkloadForInsert (st : Store) (uid : Strng) : Store :=
  st.removeInternal uid true

/-- The body of the workload loop. -/
def insertLocalWorkload (st : Store) (source : Option Workload)
    (wl : LocalWorkload) : Store × Except ProtoError Unit :=
  let w := wl.merged
  let st := st.removeWorkloadForInsert w.uid
  let (services, res) := st.services.insertEndpointForServices w source wl.portLists
  ({ st with workloads := st.workloads.insert w, services := services }, res)

/-- The workload loop, up to the first error. -/
def insertLocalWorkloads (st : Store) (source : Option Workload) :
    List LocalWorkload → Store × Except ProtoError Unit
  | [] => (st, .ok ())
  | wl :: rest =>
    match st.insertLocalWorkload source wl with
    | (st, .error e) => (st, .error e)
    | (st, .ok ()) => insertLocalWorkloads st source rest

def removeService (st : Store) (nh : NamespacedHostname) : Store :=
  { st with services := (st.services.remove nh).1 }

/-- The body of the last loop. -/
def removeRemainingWorkload (st : Store) (uid : Strng) : Store :=
  match st.workloads.remove uid with
  | (workloads, some prev) =>
    -- also remove the service endpoints of the workload
    { st with workloads := workloads
              services := st.services.removeEndpoint prev }
  | (_, none) => st

def syncLocal (st : Store) (cfg : LocalConfig) (prev : PreviousState) :
    Store × Except ProtoError PreviousState :=
  match st.insertLocalWorkloads st.selfWorkload cfg.workloads with
  | (st, .error e) => (st, .error e)
  | (st, .ok ()) =>
    let st := cfg.services.foldl insertServiceInternal st
    let st := (prev.services.eraseAll cfg.hosts).keys.foldl removeService st
    let st := (prev.workloads.eraseAll cfg.uids).keys.foldl removeRemainingWorkload st
    (st, .ok {
      workloads := AssocMap.ofKeys cfg.uids
      services := AssocMap.ofKeys cfg.hosts })

end Store

end AgentGateway.Discovery
