/-
The discovery store over whole runs: every listed service holds exactly
the endpoints it wants.

`Exact src members svc eps` says that `eps` holds, for a table
`members` of workloads by uid, exactly the entries `svc` wants. Two
lemmas carry everything: `exact_place` (the table gains a workload, the
set places it) and `exact_drop` (the table loses a uid, the set drops
it). The rebuild of a service is a fold of the first over the workload
index; the two incremental paths are folds of the first and of the
second over the services of one workload.

While a workload is being added or removed, the services already visited
see the new table and the others still see the old one, so `ServiceInv`
takes one table per service. `ServiceInv.congr` merges them when the loop
is done: a service outside the workload's memberships does not tell the
two tables apart. `StoreInv` joins it with the workload indexes; each
operation keeps it (`storeInv_step`), hence so does every run
(`storeInv_run`).
-/
import AgentGateway.Discovery.Proofs.Services
import AgentGateway.Lib.Except
import Mathlib.Data.List.Induction

namespace AgentGateway.Discovery

open Lib Endpoints EndpointSet

variable {src : Option Workload}

-- ======== one service

/-- The entry `svc` wants for the workload `w`, and its bucket. -/
def Wanted (src : Option Workload) (svc : Service) (w : Workload) (b : Nat)
    (e : EndpointWithInfo Endpoint EndpointInfo) : Prop :=
  ∃ ports, w.services.get? svc.namespacedHostname = some ports
    ∧ svc.shouldIncludeEndpoint w.status
    ∧ LocalityRanker.bucketFor ⟨svc.loadBalancer, src⟩ w = some b
    ∧ e = .withCapacity ⟨w.uid, ports, w.status⟩ w.capacity

/-- `eps` holds the entries `svc` wants for the workloads of the table,
and nothing else. -/
structure Exact (src : Option Workload) (members : Strng → Option Workload)
    (svc : Service) (eps : ServiceEndpoints) : Prop where
  distinct : eps.Distinct
  levels : eps.numBuckets = LocalityRanker.priorityLevels ⟨svc.loadBalancer, src⟩
  holds : ∀ b k e, (∃ p, eps.At b p k e) ↔ ∃ w, members k = some w ∧ Wanted src svc w b e

/-- Ranking and filtering of one workload into the set of one service:
the body of the rebuild loop, and of `insert_endpoint` on a service that
is there. -/
def place (src : Option Workload) (svc : Service) (w : Workload)
    (eps : ServiceEndpoints) : ServiceEndpoints :=
  match w.services.get? svc.namespacedHostname with
  | none => eps
  | some ports =>
    if !svc.shouldIncludeEndpoint w.status then eps
    else eps.insert ⟨w.uid, ports, w.status⟩ w ⟨svc.loadBalancer, src⟩

theorem exact_newEmpty (src : Option Workload) (svc : Service) :
    Exact src (fun _ => none) svc (newEmpty
        (LocalityRanker.priorityLevels ⟨svc.loadBalancer, src⟩)) where
  distinct := distinct_newEmpty _
  levels := numBuckets_newEmpty _
  holds := by
    intro b k e
    constructor
    · rintro ⟨p, hat⟩
      exact absurd hat not_at_newEmpty
    · rintro ⟨w, hw, -⟩
      cases hw

variable {members : Strng → Option Workload} {svc : Service} {eps : ServiceEndpoints} {w : Workload}

theorem Exact.congr {members' : Strng → Option Workload} {svc' : Service}
    (h : Exact src members svc eps) (hkey : svc'.namespacedHostname = svc.namespacedHostname)
    (hlb : svc'.loadBalancer = svc.loadBalancer)
    (hmem : ∀ k w, svc.namespacedHostname ∈ w.services.keys →
      (members' k = some w ↔ members k = some w)) : Exact src members' svc' eps where
  distinct := h.distinct
  levels := by
    rw [hlb]
    exact h.levels
  holds := by
    have hwanted : ∀ w b e, Wanted src svc' w b e ↔ Wanted src svc w b e := by
      intro w b e
      unfold Wanted Service.shouldIncludeEndpoint
      rw [hkey, hlb]
    intro b k e
    rw [h.holds]
    refine exists_congr fun w => ?_
    rw [hwanted]
    refine and_congr_left fun hw => ?_
    obtain ⟨ports, hports, -⟩ := hw
    exact (hmem k w (AssocMap.mem_keys.2 ⟨ports, hports⟩)).symm

theorem wanted_unique {b b' : Nat}
    {e e' : EndpointWithInfo Endpoint EndpointInfo} (h : Wanted src svc w b e)
    (h' : Wanted src svc w b' e') : b = b' ∧ e = e' := by
  obtain ⟨ports, hports, -, hb, he⟩ := h
  obtain ⟨ports', hports', -, hb', he'⟩ := h'
  rw [hb] at hb'
  rw [hports] at hports'
  cases hb'
  cases hports'
  exact ⟨rfl, he.trans he'.symm⟩

theorem place_cases (src : Option Workload) (svc : Service) (w : Workload)
    (eps : ServiceEndpoints) : (place src svc w eps = eps ∧ ∀ b e, ¬ Wanted src svc w b e)
      ∨ ∃ b e, Wanted src svc w b e ∧ place src svc w eps = eps.event (.add w.uid e b) := by
  unfold place
  cases hp : w.services.get? svc.namespacedHostname with
  | none =>
    refine Or.inl ⟨rfl, ?_⟩
    intro b e hw
    obtain ⟨ports, hports, -⟩ := hw
    rw [hp] at hports
    cases hports
  | some ports =>
    cases hinc : svc.shouldIncludeEndpoint w.status with
    | false =>
      refine Or.inl ⟨rfl, ?_⟩
      intro b e hw
      obtain ⟨-, -, hinc', -⟩ := hw
      rw [hinc] at hinc'
      cases hinc'
    | true =>
      unfold EndpointSet.insert
      cases hb : LocalityRanker.bucketFor ⟨svc.loadBalancer, src⟩ w with
      | none =>
        refine Or.inl ⟨rfl, ?_⟩
        intro b e hw
        obtain ⟨-, -, -, hb', -⟩ := hw
        rw [hb] at hb'
        cases hb'
      | some b =>
        exact Or.inr ⟨b, _, ⟨ports, hp, hinc, hb, rfl⟩, rfl⟩

theorem exact_place (h : Exact src members svc eps) (hnew : members w.uid = none) :
    Exact src (Function.update members w.uid (some w)) svc (place src svc w eps) := by
  have hfree : ∀ b p e, ¬ eps.At b p w.uid e := by
    intro b p e hat
    obtain ⟨w', hw', -⟩ := (h.holds b w.uid e).1 ⟨p, hat⟩
    rw [hnew] at hw'
    cases hw'
  rcases place_cases src svc w eps with ⟨heq, hnot⟩ | ⟨b₀, e₀, hw₀, heq⟩
  · rw [heq]
    refine ⟨h.distinct, h.levels, ?_⟩
    intro b k e
    rw [h.holds]
    by_cases hk : k = w.uid
    · subst hk
      rw [Function.update_self, hnew]
      constructor
      · rintro ⟨w', hw', -⟩
        cases hw'
      · rintro ⟨w', hw', hwant⟩
        cases hw'
        exact absurd hwant (hnot b e)
    · rw [Function.update_of_ne hk]
  · have hlt : b₀ < eps.numBuckets := by
      rw [h.levels]
      obtain ⟨-, -, -, hb, -⟩ := hw₀
      exact LocalityRanker.bucketFor_lt hb
    rw [heq]
    refine ⟨distinct_event_add h.distinct (fun b p e hat => absurd hat (hfree b p e)), ?_, ?_⟩
    · rw [numBuckets_event]
      exact h.levels
    · intro b k e
      by_cases hk : k = w.uid
      · subst hk
        rw [Function.update_self]
        constructor
        · rintro ⟨p, hat⟩
          rcases (event_add_at hlt).1 hat with hin | hold
          · obtain ⟨-, hb, -, he⟩ := hin
            subst hb he
            exact ⟨w, rfl, hw₀⟩
          · exact absurd hold.2 (hfree b p e)
        · rintro ⟨w', hw', hwant⟩
          cases hw'
          obtain ⟨rfl, rfl⟩ := wanted_unique hw₀ hwant
          exact ⟨.active, (event_add_at hlt).2 (Or.inl ⟨rfl, rfl, rfl, rfl⟩)⟩
      · rw [Function.update_of_ne hk, ← h.holds]
        refine exists_congr fun p => ?_
        rw [event_add_at hlt]
        simp [hk]

theorem exact_drop (h : Exact src members svc eps) (uid : Strng) :
    Exact src (Function.update members uid none) svc (eps.remove uid) where
  distinct := distinct_event_delete h.distinct uid
  levels := by
    unfold remove
    rw [numBuckets_event]
    exact h.levels
  holds := by
    intro b k e
    unfold remove
    by_cases hk : k = uid
    · subst hk
      rw [Function.update_self]
      constructor
      · rintro ⟨p, hat⟩
        exact absurd rfl ((event_delete_at h.distinct).1 hat).1
      · rintro ⟨w, hw, -⟩
        cases hw
    · rw [Function.update_of_ne hk, ← h.holds]
      refine exists_congr fun p => ?_
      rw [event_delete_at h.distinct]
      simp [hk]

-- ======== the store

open Lib Endpoints List Function NamespacedHostname EndpointSet

variable {src : Option Workload}

/-- One table of workloads per service. -/
abbrev Members := NamespacedHostname → Strng → Option Workload

/-- Every listed service is exact for its own table. -/
structure ServiceInv (src : Option Workload) (members : Members) (s : ServiceStore) : Prop where
  host : HostInv s
  exact : ∀ {svc}, Listed s svc → ∃ eps, s.endpointSets.read? svc.endpoints = some eps
      ∧ Exact src (members svc.namespacedHostname) svc eps

variable {members : Members} {s : ServiceStore} {svc : Service} {w : Workload} {st : Store}
  {table : Strng → Option Workload} {name nh : NamespacedHostname}

section

variable (h : ServiceInv src members s) {members' : Members}
include h

theorem ServiceInv.exchange
    (hex : ∀ {svc eps}, Listed s svc → Exact src (members svc.namespacedHostname) svc eps →
      Exact src (members' svc.namespacedHostname) svc eps) : ServiceInv src members' s where
  host := h.host
  exact := by
    intro svc hlist
    obtain ⟨eps, hread, hexact⟩ := h.exact hlist
    exact ⟨eps, hread, hex hlist hexact⟩

theorem ServiceInv.congr
    (hmem : ∀ nh k w, nh ∈ w.services.keys → (members' nh k = some w ↔ members nh k = some w)) :
    ServiceInv src members' s :=
  h.exchange fun _ hexact => hexact.congr rfl rfl (hmem _)

/-- The store reads the staging area for one purpose, whether to rebuild:
no set depends on it. -/
theorem ServiceInv.restage (staged : HashMap NamespacedHostname (HashMap Strng Endpoint)) :
    ServiceInv src members { s with stagedServices := staged } where
  host := { h.host with keys := { h.host.keys with } }
  exact := h.exact

/-- Mutating the set of one service changes the table of that service
only, since no other service shares the set. -/
theorem serviceInv_updateEndpoints (hsvc : Listed s svc) {f : ServiceEndpoints → ServiceEndpoints}
    (hf : ∀ {eps}, Exact src (members svc.namespacedHostname) svc eps →
      Exact src table svc (f eps)) : ServiceInv src (update members svc.namespacedHostname table)
      (s.updateEndpoints svc f) where
  host := { h.host with
    keys := { h.host.keys with }
    valid := fun hlist => Arena.valid_update.2 (h.host.valid hlist) }
  exact := by
    intro svc' hsvc'
    obtain ⟨eps, hread, hexact⟩ := h.exact hsvc'
    by_cases hkey : svc'.namespacedHostname = svc.namespacedHostname
    · have hsame := listed_unique h.host.keys hsvc' hsvc hkey
      subst hsame
      refine ⟨f eps, ?_, ?_⟩
      · show (s.endpointSets.update svc'.endpoints f).read? _ = _
        rw [Arena.read?_update_self, hread]
        rfl
      · rw [update_self]
        exact hf hexact
    · refine ⟨eps, ?_, ?_⟩
      · show (s.endpointSets.update svc.endpoints f).read? _ = _
        rw [Arena.read?_update_ne _ _ fun heq =>
          hkey (h.host.owned hsvc' hsvc heq)]
        exact hread
      · rw [update_of_ne hkey]
        exact hexact

theorem ServiceInv.update_absent (hnone : s.getByNamespacedHost name = none)
    (table : Strng → Option Workload) : ServiceInv src (update members name table) s := by
  refine h.exchange fun hlist hexact => ?_
  rw [update_of_ne]
  · exact hexact
  · intro hnh
    rw [(getByNamespacedHost_eq_some h.host.keys).2 ⟨hlist, hnh⟩] at hnone
    cases hnone

end

theorem fromStr_eq_ok {key : Strng} :
    fromStr key = .ok nh ↔ splitOnce key '/' = some (nh.ns, nh.hostname) := by
  unfold fromStr
  cases splitOnce key '/' with
  | none => simp
  | some p =>
    obtain ⟨ns, hostname⟩ := p
    obtain ⟨ns', hostname'⟩ := nh
    simp

theorem fromStr_inj {a b : Strng} (ha : fromStr a = .ok nh) (hb : fromStr b = .ok nh) : a = b := by
  rw [splitOnce_eq_some (fromStr_eq_ok.1 ha), splitOnce_eq_some (fromStr_eq_ok.1 hb)]

-- ======== the service loops

/-- The tables with the entry of `uid` set for the given services. -/
def patch (members : Members) (names : List NamespacedHostname)
    (uid : Strng) (w : Option Workload) : Members :=
  fun nh k => if nh ∈ names ∧ k = uid then w else members nh k

theorem patch_cons (members : Members) (name : NamespacedHostname)
    (names : List NamespacedHostname) (uid : Strng) (w : Option Workload) :
    patch (update members name (update (members name) uid w))
        names uid w = patch members (name :: names) uid w := by
  funext nh k
  unfold patch
  by_cases hn : nh = name
  · subst hn
    by_cases hk : k = uid <;> simp [hk]
  · simp [hn]

theorem serviceInv_insertEndpoint (h : ServiceInv src members s) {ports : Ports}
    (hports : w.services.get? name = some ports) (hnew : members name w.uid = none) :
    ServiceInv src (update members name (update (members name) w.uid (some w)))
      (s.insertEndpoint name ⟨w.uid, ports, w.status⟩ w src) := by
  unfold ServiceStore.insertEndpoint
  cases hget : s.getByNamespacedHost name with
  | none =>
    exact (h.update_absent hget _).restage _
  | some svc =>
    obtain ⟨hlist, hkey⟩ := (getByNamespacedHost_eq_some h.host.keys).1 hget
    subst hkey
    have hplace : ∀ eps, place src svc w eps = if !svc.shouldIncludeEndpoint w.status then eps
          else eps.insert ⟨w.uid, ports, w.status⟩ w ⟨svc.loadBalancer, src⟩ := by
      intro eps
      unfold place
      rw [hports]
    dsimp only
    split
    · next hinc =>
      -- excluded by its health: placing it is the identity
      refine h.exchange fun {svc' eps} hlist' hexact => ?_
      by_cases hsame : svc'.namespacedHostname = svc.namespacedHostname
      · have := listed_unique h.host.keys hlist' hlist hsame
        subst this
        rw [update_self, ← show place src svc' w eps = eps by
          rw [hplace, if_pos hinc]]
        exact exact_place hexact hnew
      · rw [update_of_ne hsame]
        exact hexact
    · next hinc =>
      refine serviceInv_updateEndpoints h hlist fun {eps} hexact => ?_
      have hput := exact_place hexact hnew
      rw [hplace, if_neg hinc] at hput
      exact hput

variable {entries : List (Strng × PortList)} {parsed : List (NamespacedHostname × Ports)}
  {bad : Strng → Prop} {services : HashMap Strng PortList} {eps : ServiceEndpoints}

theorem insertEndpointForServices_ok :
    ∀ {s : ServiceStore}, (s.insertEndpointForServices w src entries).2 = .ok ()
        ↔ ∀ e ∈ entries, ∃ nh, fromStr e.1 = .ok nh := by
  induction entries with
  | nil => simp [ServiceStore.insertEndpointForServices]
  | cons e entries ih =>
    intro s
    unfold ServiceStore.insertEndpointForServices
    cases hparse : fromStr e.1 with
    | error err => simp [hparse]
    | ok name =>
      rw [ih]
      simp [hparse]

/-- The membership loop of `insert_workload` adds the workload to the
services it gets to: all of them, unless a name does not parse. -/
theorem serviceInv_insertEndpointForServices (entries : List (Strng × PortList)) :
    ∀ {members : Members} {s : ServiceStore}, ServiceInv src members s →
      (entries.map Prod.fst).Nodup → (∀ e ∈ entries, ∀ {nh}, fromStr e.1 = .ok nh →
        w.services.get? nh = some (portsFromXds e.2) ∧ members nh w.uid = none) →
      ∃ names, ServiceInv src (patch members names w.uid (some w))
          (s.insertEndpointForServices w src entries).1
        ∧ (∀ nh ∈ names, ∃ e ∈ entries, fromStr e.1 = .ok nh)
        ∧ ((s.insertEndpointForServices w src entries).2 = .ok () →
          ∀ e ∈ entries, ∀ {nh}, fromStr e.1 = .ok nh → nh ∈ names) := by
  have hnone : ∀ {members : Members} {s : ServiceStore}, ServiceInv src members s →
      ServiceInv src (patch members [] w.uid (some w)) s :=
    fun h => h.congr fun nh k w' _ => by simp [patch]
  induction entries with
  | nil =>
    intro members s h _ _
    exact ⟨[], hnone h, by simp, nofun⟩
  | cons e entries ih =>
    intro members s h hnd hnew
    rw [map_cons, nodup_cons] at hnd
    unfold ServiceStore.insertEndpointForServices
    cases hparse : fromStr e.1 with
    | error err => exact ⟨[], hnone h, by simp, nofun⟩
    | ok name =>
      obtain ⟨hports, hfree⟩ := hnew e mem_cons_self hparse
      have hput := serviceInv_insertEndpoint h hports hfree
      obtain ⟨names, hinv, hfrom, hall⟩ := ih hput hnd.2 (by
        intro e' he' nh hnh
        refine ⟨(hnew e' (mem_cons_of_mem _ he') hnh).1, ?_⟩
        have hne : nh ≠ name := by
          intro heq
          subst heq
          refine hnd.1 ?_
          rw [fromStr_inj hparse hnh]
          exact mem_map_of_mem he'
        rw [update_of_ne hne]
        exact (hnew e' (mem_cons_of_mem _ he') hnh).2)
      rw [patch_cons] at hinv
      refine ⟨name :: names, hinv, fun nh hnh => ?_, fun hok e' he' nh hnh => ?_⟩
      · rcases mem_cons.1 hnh with rfl | hnh
        · exact ⟨e, mem_cons_self, hparse⟩
        · obtain ⟨e', he', hnh⟩ := hfrom nh hnh
          exact ⟨e', mem_cons_of_mem _ he', hnh⟩
      · rcases mem_cons.1 he' with rfl | he'
        · rw [hparse] at hnh
          cases hnh
          exact mem_cons_self
        · exact mem_cons_of_mem _ (hall hok e' he' hnh)

theorem serviceInv_dropEndpoint (h : ServiceInv src members s) (uid : Strng)
    (name : NamespacedHostname) :
    ServiceInv src (update members name (update (members name) uid none))
      (s.dropEndpoint uid name) := by
  unfold ServiceStore.dropEndpoint
  cases hget : s.getByNamespacedHost name with
  | none => exact h.update_absent hget _
  | some svc =>
    obtain ⟨hlist, hkey⟩ := (getByNamespacedHost_eq_some h.host.keys).1 hget
    subst hkey
    exact serviceInv_updateEndpoints h hlist fun hexact => exact_drop hexact uid

theorem serviceInv_dropEndpoints (uid : Strng) (names : List NamespacedHostname) :
    ∀ {members : Members} {s : ServiceStore}, ServiceInv src members s →
      ServiceInv src (patch members names uid none)
        (names.foldl (ServiceStore.dropEndpoint uid) s) := by
  induction names with
  | nil =>
    intro members s h
    exact h.congr fun nh k w' _ => by simp [patch]
  | cons name names ih =>
    intro members s h
    rw [← patch_cons]
    exact ih (serviceInv_dropEndpoint h uid name)

theorem serviceInv_remove (h : ServiceInv src members s) (nh : NamespacedHostname) :
    ServiceInv src members (s.remove nh).1 where
  host := hostInv_remove h.host nh
  exact := by
    intro svc hlist
    rw [endpointSets_remove]
    exact h.exact ((listed_remove h.host.keys).1 hlist).1

theorem serviceInv_insert (h : ServiceInv src members s) {service : Service}
    (hread : s.endpointSets.read? service.endpoints = some eps)
    (hexact : Exact src table service eps)
    (hown : ∀ svc, Listed s svc → svc.endpoints = service.endpoints →
      svc.namespacedHostname = service.namespacedHostname) :
    ServiceInv src (update members service.namespacedHostname table) (s.insert service) where
  host := hostInv_insert h.host (Arena.valid_of_read? hread) hown
  exact := by
    intro svc hlist
    rw [endpointSets_insert]
    rcases (listed_insert h.host.keys).1 hlist with heq | hold
    · subst heq
      rw [update_self]
      exact ⟨eps, hread, hexact⟩
    · rw [update_of_ne hold.2]
      exact h.exact hold.1

theorem serviceInv_alloc (h : ServiceInv src members s) (eps : ServiceEndpoints) :
    ServiceInv src members { s with endpointSets := (s.endpointSets.alloc eps).1 } where
  host := ⟨{ h.host.keys with },
    fun hlist => Arena.valid_alloc _ (h.host.valid hlist), h.host.owned⟩
  exact := by
    intro svc hlist
    obtain ⟨eps', hread, hexact⟩ := h.exact hlist
    refine ⟨eps', ?_, hexact⟩
    rw [Arena.read?_alloc_of_valid _ (h.host.valid hlist)]
    exact hread

-- ======== the store

/-- The indexes are consistent, and every listed service is exact for the
workloads of the store. -/
structure StoreInv (src : Option Workload) (st : Store) : Prop where
  source : st.selfWorkload = src
  workloads : WorkloadInv st.workloads
  services : ServiceInv src (fun _ => st.workloads.byUid.get?) st.services

/-- The same, but for some uids an entry may be missing from a set: those
of workloads that were left half inserted. -/
structure StoreInvExcept (src : Option Workload) (bad : Strng → Prop) (st : Store) : Prop where
  source : st.selfWorkload = src
  workloads : WorkloadInv st.workloads
  services : ∃ members : Members, ServiceInv src members st.services
    ∧ (∀ {nh k w}, members nh k = some w → st.workloads.byUid.get? k = some w)
    ∧ ∀ {nh k w}, ¬ bad k → nh ∈ w.services.keys →
      st.workloads.byUid.get? k = some w → members nh k = some w

theorem StoreInv.except (h : StoreInv src st) (bad : Strng → Prop) : StoreInvExcept src bad st :=
  ⟨h.source, h.workloads, _, h.services, id, fun _ _ => id⟩

theorem StoreInvExcept.all (h : StoreInvExcept src bad st)
    (hbad : ∀ k, ¬ bad k) : StoreInv src st := by
  obtain ⟨members, hinv, hsound, hcomplete⟩ := h.services
  refine ⟨h.source, h.workloads, hinv.congr fun nh k w hw => ?_⟩
  exact ⟨hcomplete (hbad k) hw, hsound⟩

theorem StoreInvExcept.mono {bad' : Strng → Prop} (h : StoreInvExcept src bad st)
    (hbad : ∀ k w, st.workloads.byUid.get? k = some w → bad k → bad' k) :
    StoreInvExcept src bad' st := by
  obtain ⟨members, hinv, hsound, hcomplete⟩ := h.services
  refine ⟨h.source, h.workloads, members, hinv, hsound, fun hk hw hget => ?_⟩
  exact hcomplete (fun hb => hk (hbad _ _ hget hb)) hw hget

theorem storeInv_new : StoreInv src (Store.new src) where
  source := rfl
  workloads := workloadInv_empty
  services := ⟨hostInv_empty, fun hlist => by
    obtain ⟨h, l, hl, -⟩ := hlist
    cases hl⟩

theorem exact_foldl_place {stored : Strng → Option Workload} (ws : List Workload)
    (hnd : (ws.map Workload.uid).Nodup) (hws : ∀ w ∈ ws, stored w.uid = some w) :
    Exact src (fun k => if k ∈ ws.map Workload.uid then stored k else none) svc
      (ws.foldl (fun eps w => place src svc w eps) (newEmpty
        (LocalityRanker.priorityLevels ⟨svc.loadBalancer, src⟩))) := by
  induction ws using reverseRecOn with
  | nil => simpa using exact_newEmpty src svc
  | append_singleton ws w ih =>
    rw [map_append, nodup_append] at hnd
    obtain ⟨hold, hw⟩ := forall_mem_append.1 hws
    have hnew : w.uid ∉ ws.map Workload.uid := fun hmem =>
      hnd.2.2 _ hmem _ mem_cons_self rfl
    rw [foldl_append]
    refine (exact_place (w := w) (ih hnd.1 hold) (if_neg hnew)).congr rfl rfl ?_
    intro k v _
    by_cases hk : k = w.uid
    · simp [hk, hw w mem_cons_self]
    · simp [hk]

theorem exact_rebuildEndpoints (hsrc : st.selfWorkload = src)
    (h : WorkloadInv st.workloads) (service : Service) :
    Exact src st.workloads.byUid.get? service (st.rebuildEndpoints service) := by
  unfold Store.rebuildEndpoints
  rw [hsrc]
  refine (exact_foldl_place _ (iterByService_nodup h service.namespacedHostname)
    fun w hw => ((mem_iterByService h).1 hw).1).congr rfl rfl fun k w hw => ?_
  constructor
  · intro hget
    have huid := h.uid_key hget
    subst huid
    rw [if_pos (mem_map_of_mem ((mem_iterByService h).2 ⟨hget, hw⟩)), hget]
  · intro hx
    split at hx
    · exact hx
    · cases hx

section Operations

variable {uid : Strng} {prev : Workload}

theorem removeInternal_of_some
    (h : st.workloads.byUid.get? uid = some prev) (forWorkloadInsert : Bool) :
    st.removeInternal uid forWorkloadInsert = { st with
      workloads := (st.workloads.remove uid).1
      services := st.services.removeEndpoint prev } := by
  simp [Store.removeInternal, WorkloadStore.remove, h]

theorem removeInternal_of_none (h : st.workloads.byUid.get? uid = none) :
    st.removeInternal uid true = st := by
  simp [Store.removeInternal, WorkloadStore.remove, h]

section

variable (h : StoreInvExcept src bad st) (service : Service)
include h

theorem StoreInvExcept.insertServiceRebuilt
    (staged : HashMap NamespacedHostname (HashMap Strng Endpoint)) :
    StoreInvExcept src bad (st.insertServiceRebuilt
      { st.services with stagedServices := staged } service) := by
  obtain ⟨members, hinv, hsound, hcomplete⟩ := h.services
  have halloc := serviceInv_alloc (hinv.restage staged) (st.rebuildEndpoints service)
  have hrebuilt : Exact src st.workloads.byUid.get? { service with endpoints :=
          (st.services.endpointSets.alloc (st.rebuildEndpoints service)).2 }
      (st.rebuildEndpoints service) :=
    (exact_rebuildEndpoints h.source h.workloads service).congr rfl rfl fun _ _ _ => Iff.rfl
  have hins : ServiceInv src
      (update members service.namespacedHostname st.workloads.byUid.get?)
      (st.insertServiceRebuilt { st.services with stagedServices := staged } service).services := by
    refine serviceInv_insert halloc (Arena.read?_alloc_self _ _) hrebuilt ?_
    -- every listed set is older than the fresh one
    intro svc hlist heq
    exact absurd heq (Arena.ne_alloc_of_valid (st.rebuildEndpoints service) (hinv.host.valid hlist))
  refine ⟨h.source, h.workloads, _, hins, ?_, ?_⟩
  · intro nh k w hw
    rw [update_apply] at hw
    split at hw
    · exact hw
    · exact hsound hw
  · intro nh k w hk hw hget
    rw [update_apply]
    split
    · exact hget
    · exact hcomplete hk hw hget

theorem StoreInvExcept.insertServiceInternal :
    StoreInvExcept src bad (st.insertServiceInternal service) := by
  unfold Store.insertServiceInternal
  dsimp only
  cases hget : st.services.getByNamespacedHost service.namespacedHostname with
  | none => exact h.insertServiceRebuilt service _
  | some prev =>
    dsimp only
    split
    · next hsame =>
      obtain ⟨members, hinv, hsound, hcomplete⟩ := h.services
      obtain ⟨hlist, hkey⟩ := (getByNamespacedHost_eq_some hinv.host.keys).1 hget
      obtain ⟨eps, hread, hexact⟩ := hinv.exact hlist
      rw [hkey] at hexact
      have hkept : Exact src (members service.namespacedHostname)
          { service with endpoints := prev.endpoints } eps :=
        hexact.congr hkey.symm hsame.1.symm fun _ _ _ => Iff.rfl
      have hown : ∀ svc, Listed st.services svc → svc.endpoints = prev.endpoints →
          svc.namespacedHostname = service.namespacedHostname := by
        intro svc hsvc heq
        rw [hinv.host.owned hsvc hlist heq]
        exact hkey
      have hins : ServiceInv src (update members
            service.namespacedHostname (members service.namespacedHostname))
          ({ st.services with stagedServices :=
              st.services.stagedServices.erase service.namespacedHostname
            }.insert { service with endpoints := prev.endpoints }) := by
        refine serviceInv_insert (hinv.restage _) ?_ hkept hown
        exact hread
      rw [update_eq_self] at hins
      exact ⟨h.source, h.workloads, members, hins, hsound, hcomplete⟩
    · exact h.insertServiceRebuilt service _

/-- Removing a workload takes it out of every service it was in, and out
of the exceptions. -/
theorem StoreInvExcept.removeWorkload (hprev : st.workloads.byUid.get? uid = some prev) :
    StoreInvExcept src (fun k => bad k ∧ k ≠ uid) { st with
      workloads := (st.workloads.remove uid).1
      services := st.services.removeEndpoint prev } := by
  obtain ⟨members, hinv, hsound, hcomplete⟩ := h.services
  have huid := h.workloads.uid_key hprev
  have hgone : ServiceInv src (fun nh k => if k = uid then none else members nh k)
      (st.services.removeEndpoint prev) := by
    refine (serviceInv_dropEndpoints prev.uid _ (hinv.restage _)).congr fun nh k w hw => ?_
    unfold patch
    rw [huid]
    by_cases hk : k = uid
    · subst hk
      by_cases hnh : nh ∈ prev.services.keys
      · simp [hnh]
      · -- not a member before either, so both sides are empty
        simp only [↓reduceIte, hnh, false_and, reduceCtorEq, false_iff]
        intro hmem
        have hsame := hsound hmem
        rw [hprev] at hsame
        cases hsame
        exact hnh hw
    · simp [hk]
  refine ⟨h.source, workloadInv_remove h.workloads uid, _, hgone, ?_, ?_⟩
  · intro nh k w hw
    rw [byUid_remove]
    split at hw
    · cases hw
    · next hk =>
      rw [if_neg hk]
      exact hsound hw
  · intro nh k w hk hw hget
    rw [byUid_remove] at hget
    split at hget
    · cases hget
    · next hne =>
      rw [if_neg hne]
      exact hcomplete (fun hb => hk ⟨hb, hne⟩) hw hget

theorem StoreInvExcept.removeService (nh : NamespacedHostname) : StoreInvExcept src bad
      { st with services := (st.services.remove nh).1 } := by
  obtain ⟨members, hinv, hsound, hcomplete⟩ := h.services
  exact ⟨h.source, h.workloads, members, serviceInv_remove hinv nh, hsound, hcomplete⟩

/-- A workload of a new uid comes in with the services it names. It is
half inserted when one of the names does not parse. -/
theorem StoreInvExcept.insertWorkload
    (hnone : st.workloads.byUid.get? w.uid = none) (hnd : (entries.map Prod.fst).Nodup)
    (hports : ∀ e ∈ entries, ∀ {nh}, fromStr e.1 = .ok nh →
      w.services.get? nh = some (portsFromXds e.2)) (hkeys : ∀ nh ∈ w.services.keys,
      ∃ e ∈ entries, fromStr e.1 = .ok nh) : StoreInvExcept src (fun k => bad k ∨ k = w.uid
        ∧ (st.services.insertEndpointForServices w src entries).2 ≠ .ok ()) { st with
        workloads := st.workloads.insert w
        services := (st.services.insertEndpointForServices w src entries).1 } := by
  obtain ⟨members, hinv, hsound, hcomplete⟩ := h.services
  have hfree : ∀ nh, members nh w.uid = none := by
    intro nh
    refine Option.eq_none_iff_forall_ne_some.2 fun v hv => ?_
    have hstored := hsound hv
    rw [hnone] at hstored
    cases hstored
  obtain ⟨names, hloop, -, hall⟩ := serviceInv_insertEndpointForServices entries
    hinv hnd fun e he nh hnh => ⟨hports e he hnh, hfree nh⟩
  refine ⟨h.source, workloadInv_insert h.workloads w, _, hloop, ?_, ?_⟩
  · intro nh k v hv
    rw [byUid_insert]
    unfold patch at hv
    split at hv
    · next hin =>
      rw [if_pos hin.2]
      exact hv
    · have hk : k ≠ w.uid := by
        intro hk
        rw [hk, hfree] at hv
        cases hv
      rw [if_neg hk]
      exact hsound hv
  · intro nh k v hk hv hget
    rw [byUid_insert] at hget
    unfold patch
    split at hget
    · next heq =>
      subst heq
      cases hget
      have hok : (st.services.insertEndpointForServices w src entries).2 = .ok () := by
        by_contra hne
        exact hk (.inr ⟨rfl, hne⟩)
      obtain ⟨e, he, hnh⟩ := hkeys nh hv
      rw [if_pos ⟨hall hok e he hnh, rfl⟩]
    · next hne =>
      rw [if_neg fun hin => hne hin.2]
      exact hcomplete (fun hb => hk (.inl hb)) hv hget

theorem StoreInvExcept.removeWorkloadForInsert (uid : Strng) :
    StoreInvExcept src (fun k => bad k ∧ k ≠ uid) (st.removeInternal uid true) := by
  cases hget : st.workloads.byUid.get? uid with
  | some prev =>
    rw [removeInternal_of_some hget]
    exact h.removeWorkload hget
  | none =>
    rw [removeInternal_of_none hget]
    refine h.mono fun k w hw hb => ⟨hb, fun heq => ?_⟩
    rw [heq, hget] at hw
    cases hw

end

end Operations

theorem storeInv_insertServiceInternal (h : StoreInv src st) (service : Service) :
    StoreInv src (st.insertServiceInternal service) :=
  ((h.except fun _ => False).insertServiceInternal service).all fun _ => id

theorem storeInv_remove (h : StoreInv src st) (xdsName : Strng) :
    StoreInv src (st.remove xdsName) := by
  unfold Store.remove
  cases hget : st.workloads.byUid.get? xdsName with
  | some prev =>
    rw [removeInternal_of_some hget]
    exact ((h.except fun _ => False).removeWorkload hget).all fun _ hb => hb.1
  | none =>
    simp only [Store.removeInternal, WorkloadStore.remove, hget]
    split
    · exact h
    · split
      · exact h
      · split
        · exact h
        · exact ⟨h.source, h.workloads, serviceInv_remove h.services _⟩

theorem byUid_removeInternal (st : Store) (uid : Strng) :
    (st.removeInternal uid true).workloads.byUid.get? uid = none := by
  cases hget : st.workloads.byUid.get? uid with
  | some prev =>
    rw [removeInternal_of_some hget]
    exact (byUid_remove st.workloads uid uid).trans (if_pos rfl)
  | none =>
    rw [removeInternal_of_none hget]
    exact hget

-- ======== decoding

theorem servicesFromXds_eq_ok (h : servicesFromXds services = .ok parsed) :
    List.Forall₂ (fun e p => fromStr e.1 = .ok p.1
      ∧ p.2 = portsFromXds e.2) services.entries parsed := by
  refine (Lib.Except.mapM_eq_ok.1 h).imp ?_
  intro e p hep
  obtain ⟨nh, hnh, heq⟩ := Lib.Except.bind_eq_ok.1 hep
  cases heq
  exact ⟨hnh, rfl⟩

theorem parsed_nodup
    (h : List.Forall₂ (fun e p => fromStr e.1 = .ok p.1 ∧ p.2 = portsFromXds e.2) entries parsed)
    (hnd : (entries.map Prod.fst).Nodup) : (parsed.map Prod.fst).Nodup := by
  induction h with
  | nil => exact nodup_nil
  | @cons e p entries parsed hep hrest ih =>
    rw [map_cons, nodup_cons] at hnd ⊢
    refine ⟨fun hmem => hnd.1 ?_, ih hnd.2⟩
    obtain ⟨q, hq, heq⟩ := mem_map.1 hmem
    obtain ⟨e', he', hq'⟩ := Lib.Except.forall₂_mem_right hrest hq
    have hname : e'.1 = e.1 := by
      refine fromStr_inj hq'.1 ?_
      rw [heq]
      exact hep.1
    rw [← hname]
    exact mem_map_of_mem he'

/-- What the store relies on in a decoded workload: its memberships are
the collected pairs, and the raw map comes back as it was sent. -/
theorem tryFromXdsWithServices_eq_ok {resource : XdsWorkload}
    (h : Workload.tryFromXdsWithServices resource = .ok (w, services)) :
    ∃ parsed, servicesFromXds services = .ok parsed ∧ w.services = AssocMap.ofList parsed := by
  obtain ⟨wp, -, h⟩ := Lib.Except.bind_eq_ok.1 h
  obtain ⟨networkGw, -, h⟩ := Lib.Except.bind_eq_ok.1 h
  obtain ⟨addresses, -, h⟩ := Lib.Except.bind_eq_ok.1 h
  obtain ⟨parsed, hparsed, h⟩ := Lib.Except.bind_eq_ok.1 h
  obtain ⟨protocol, -, h⟩ := Lib.Except.bind_eq_ok.1 h
  obtain ⟨networkMode, -, h⟩ := Lib.Except.bind_eq_ok.1 h
  obtain ⟨status, -, h⟩ := Lib.Except.bind_eq_ok.1 h
  cases h
  exact ⟨parsed, hparsed, rfl⟩

-- ======== steps

theorem storeInv_insertWorkload (h : StoreInv src st) (resource : XdsWorkload) :
    StoreInv src (st.insertWorkload resource).1 := by
  unfold Store.insertWorkload
  cases hdec : Workload.tryFromXdsWithServices resource with
  | error e => exact h
  | ok decoded =>
    obtain ⟨w, services⟩ := decoded
    obtain ⟨parsed, hparsed, hservices⟩ := tryFromXdsWithServices_eq_ok hdec
    have hpairs := servicesFromXds_eq_ok hparsed
    have hnd := parsed_nodup hpairs services.nodup
    have hget : ∀ {nh ports}, w.services.get? nh = some ports ↔ (nh, ports) ∈ parsed := by
      intro nh ports
      rw [hservices, AssocMap.get?_ofList hnd]
    have hrem := (h.except fun _ => False).removeWorkloadForInsert w.uid
    have hins := hrem.insertWorkload (byUid_removeInternal st w.uid) services.nodup
      (fun e he nh hnh => by
        obtain ⟨p, hp, hep⟩ := Lib.Except.forall₂_mem_left hpairs he
        rw [hep.1] at hnh
        cases hnh
        rw [hget, ← hep.2]
        exact hp)
      (fun nh hnh => by
        obtain ⟨ports, hports⟩ := AssocMap.mem_keys.1 hnh
        obtain ⟨e, he, hep⟩ := Lib.Except.forall₂_mem_right hpairs (hget.1 hports)
        exact ⟨e, he, hep.1⟩)
    rw [hrem.source] at hins
    dsimp only
    rw [hrem.source]
    refine hins.all fun k hb => ?_
    rcases hb with hb | ⟨-, hfail⟩
    · exact hb.1
    · refine hfail (insertEndpointForServices_ok.2 fun e he => ?_)
      obtain ⟨p, -, hep⟩ := Lib.Except.forall₂_mem_left hpairs he
      exact ⟨p.1, hep.1⟩

theorem storeInv_step (h : StoreInv src st) (op : Op) : StoreInv src (st.step op) := by
  cases op with
  | insertWorkload w => exact storeInv_insertWorkload h w
  | insertService s =>
    show StoreInv src (st.insertService s).1
    unfold Store.insertService
    split
    · exact h
    · exact storeInv_insertServiceInternal h _
  | insertServiceInternal s => exact storeInv_insertServiceInternal h s
  | remove xdsName => exact storeInv_remove h xdsName

theorem storeInv_run (src : Option Workload) (ops : List Op) :
    StoreInv src (Store.run src ops) := by
  unfold Store.run
  induction ops using reverseRecOn with
  | nil => exact storeInv_new
  | append_singleton ops op ih =>
    rw [foldl_append]
    exact storeInv_step ih op

-- ======== result

theorem Exact.mem_slots {members : Strng → Option Workload}
    (h : Exact src members svc eps) (huid : ∀ {k w}, members k = some w → w.uid = k)
    (b : Nat) (k : Strng) (e : EndpointWithInfo Endpoint EndpointInfo) :
    (b, k, e) ∈ eps.slots ↔ ∃ w ports, members k = some w
      ∧ w.services.get? svc.namespacedHostname = some ports
      ∧ svc.shouldIncludeEndpoint w.status
      ∧ LocalityRanker.bucketFor ⟨svc.loadBalancer, src⟩ w = some b
      ∧ e = .withCapacity ⟨k, ports, w.status⟩ w.capacity := by
  rw [EndpointSet.mem_slots, h.holds]
  refine exists_congr fun w => ?_
  constructor
  · rintro ⟨hget, ports, hports, hinc, hb, he⟩
    rw [huid hget] at he
    exact ⟨ports, hget, hports, hinc, hb, he⟩
  · rintro ⟨ports, hget, hports, hinc, hb, he⟩
    refine ⟨hget, ports, hports, hinc, hb, ?_⟩
    rw [huid hget]
    exact he

theorem StoreInv.endpoints_same {st' : Store} (h : StoreInv src st)
    (h' : StoreInv src st') {svc' : Service} (hlist : Listed st.services svc)
    (hlist' : Listed st'.services svc') (hkey : svc.namespacedHostname = svc'.namespacedHostname)
    (hlb : svc.loadBalancer = svc'.loadBalancer)
    (hworkloads : ∀ k, st.workloads.byUid.get? k = st'.workloads.byUid.get? k) :
    ∃ eps eps', st.services.endpointSets.read? svc.endpoints = some eps
      ∧ st'.services.endpointSets.read? svc'.endpoints = some eps'
      ∧ eps.numBuckets = eps'.numBuckets ∧ eps.slots.Perm eps'.slots := by
  obtain ⟨eps, hread, hexact⟩ := h.services.exact hlist
  obtain ⟨eps', hread', hexact'⟩ := h'.services.exact hlist'
  refine ⟨eps, eps', hread, hread', ?_, ?_⟩
  · rw [hexact.levels, hexact'.levels, hlb]
  · refine (perm_ext_iff_of_nodup
      (List.Nodup.of_map _ (slots_keys_nodup hexact.distinct))
      (List.Nodup.of_map _ (slots_keys_nodup hexact'.distinct))).2 ?_
    intro slot
    -- the first set is exact for the second store as well
    have hsame : Exact src st'.workloads.byUid.get? svc' eps :=
      hexact.congr hkey.symm hlb.symm fun k w _ => by rw [hworkloads k]
    rw [mem_slots, mem_slots, hsame.holds, hexact'.holds]

/-- After any run, each listed service holds one entry per workload it
wants, in that workload's bucket and with its ports and capacity, and
nothing else. Two runs that end with the same workloads agree on the
entries of every service, whatever came first and whatever came
between. -/
theorem endpoints_exact (src : Option Workload) : (∀ (ops : List Op) (svc : Service),
      Listed (Store.run src ops).services svc →
      ∃ eps, (Store.run src ops).services.endpointSets.read? svc.endpoints = some eps
        ∧ (eps.slots.map fun x => x.2.1).Nodup ∧ ∀ b k e, ((b, k, e) ∈ eps.slots ↔ ∃ w ports,
            (Store.run src ops).workloads.byUid.get? k = some w
            ∧ w.services.get? svc.namespacedHostname = some ports
            ∧ svc.shouldIncludeEndpoint w.status
            ∧ LocalityRanker.bucketFor ⟨svc.loadBalancer, src⟩ w = some b
            ∧ e = .withCapacity ⟨k, ports, w.status⟩ w.capacity)
          ∧ ((b, k, e) ∈ eps.slots → b < eps.numBuckets))
    ∧ ∀ (ops ops' : List Op) (svc svc' : Service), Listed (Store.run src ops).services svc →
      Listed (Store.run src ops').services svc' → svc.namespacedHostname = svc'.namespacedHostname →
      svc.loadBalancer = svc'.loadBalancer → (∀ k, (Store.run src ops).workloads.byUid.get? k
        = (Store.run src ops').workloads.byUid.get? k) →
      ∃ eps eps', (Store.run src ops).services.endpointSets.read? svc.endpoints = some eps
        ∧ (Store.run src ops').services.endpointSets.read? svc'.endpoints = some eps'
        ∧ eps.numBuckets = eps'.numBuckets ∧ eps.slots.Perm eps'.slots := by
  refine ⟨fun ops svc hlist => ?_, fun ops ops' svc svc' hlist hlist' hkey hlb hworkloads => ?_⟩
  · have hinv := storeInv_run src ops
    obtain ⟨eps, hread, hexact⟩ := hinv.services.exact hlist
    refine ⟨eps, hread, slots_keys_nodup hexact.distinct, ?_⟩
    intro b k e
    refine ⟨hexact.mem_slots hinv.workloads.uid_key b k e, fun hmem => ?_⟩
    obtain ⟨p, g, hg, -⟩ := mem_slots.1 hmem
    exact (List.getElem?_eq_some_iff.1 hg).1
  · exact (storeInv_run src ops).endpoints_same (storeInv_run src ops') hlist
      hlist' hkey hlb hworkloads

def sampleWorkload (uid : Strng) : XdsWorkload where
  uid := uid
  name := "pod"
  ns := "ns"
  addresses := [[10, 0, 0, 1]]
  network := ""
  tunnelProtocol := 0
  waypoint := none
  networkGateway := none
  node := "node"
  services := AssocMap.ofList [("ns/svc", ⟨[⟨80, 8080, 0⟩]⟩)]
  status := 0
  clusterId := ""
  locality := none
  networkMode := 0
  capacity := some 3

def sampleService : Service where
  name := "svc"
  ns := "ns"
  hostname := "svc"
  vips := []
  ports := AssocMap.ofList [(80, 8080)]
  appProtocols := AssocMap.empty
  endpoints := 0
  waypoint := none
  loadBalancer := none
  ipFamilies := none

theorem endpoints_exact_sample : ∃ eps, (Store.run none [.insertWorkload (sampleWorkload "a"),
        .insertServiceInternal sampleService,
        .insertWorkload (sampleWorkload "b")]).services.endpointSets.read? 0
      = some eps ∧ (eps.slots.map fun x => x.2.1).Nodup := by
  obtain ⟨eps, hread, hnd, -⟩ := (endpoints_exact none).1
    [.insertWorkload (sampleWorkload "a"), .insertServiceInternal sampleService,
      .insertWorkload (sampleWorkload "b")] sampleService
    ⟨"svc", [sampleService], by decide, by decide⟩
  exact ⟨eps, hread, hnd⟩

end AgentGateway.Discovery
