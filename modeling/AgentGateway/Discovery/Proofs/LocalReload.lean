/-
A reload of the local workloads and services, from whatever failed
reloads have left behind.

`Kept` is what holds between two attempts: the services are those of the
last configuration that was loaded, the workloads have uids it names, and
the endpoint sets hold entries of stored workloads only. A workload that
an attempt failed on may be half inserted, so its entry may be missing
from some set. A reload that succeeds inserts every workload anew or
removes it, which makes the sets exact again (`kept_reload`); one that
fails keeps `Kept` when it names no uid of its own (`kept_failed`).
-/
import AgentGateway.Discovery.Proofs.Contents
import AgentGateway.Discovery.Proofs.Exactness

namespace AgentGateway.Discovery

open Lib Ledger List AssocMap Service NamespacedHostname LocalWorkload

variable {src : Option Workload} {svcs all : List Service} {st : Store} {nh : NamespacedHostname}
  {s : ServiceStore}

-- ======== indexes left unchanged

theorem HoldsServices.insertEndpointForServices
    (h : HoldsServices svcs s) (w : Workload) (source : Option Workload)
    (entries : List (Strng × PortList)) :
    HoldsServices svcs (s.insertEndpointForServices w source entries).1 := by
  induction entries generalizing s with
  | nil => exact h
  | cons e entries ih =>
    unfold ServiceStore.insertEndpointForServices
    cases fromStr e.1 with
    | error err => exact h
    | ok name =>
      refine ih ?_
      unfold ServiceStore.insertEndpoint
      split
      · split
        · exact h
        · exact h.frame rfl rfl
      · exact h.frame rfl rfl

theorem HoldsServices.removeEndpoint (h : HoldsServices svcs s)
    (prev : Workload) : HoldsServices svcs (s.removeEndpoint prev) := by
  refine foldlRecOn _ _ (h.frame rfl rfl) fun s hs nh _ => ?_
  unfold ServiceStore.dropEndpoint
  split
  · exact hs.frame rfl rfl
  · exact hs

/-- A service as the lookups show it, without the reference to its
endpoint set. -/
def Service.bare (svc : Service) : Service := { svc with endpoints := 0 }

theorem bare_key (svc : Service) : svc.bare.namespacedHostname = svc.namespacedHostname :=
  rfl

theorem VipsApart.of_bare (h : VipsApart all)
    (hsub : ∀ svc ∈ svcs, svc.bare ∈ all) : VipsApart svcs := by
  intro svc hsvc svc' hsvc' v hv hv'
  have hkey := h (hsub svc hsvc) (hsub svc' hsvc') v hv hv'
  exact hkey

theorem HoldsServices.insertServiceInternal
    (h : HoldsServices svcs st.services) {service : Service} (hapart : VipsApart all)
    (hsub : ∀ svc ∈ service :: svcs, svc.bare ∈ all) :
    ∃ r, HoldsServices (enter namespacedHostname svcs { service with endpoints := r })
      (st.insertServiceInternal service).services := by
  have hins : ∀ (r : EndpointsRef) {s : ServiceStore},
      s.byHost = st.services.byHost → s.byVip = st.services.byVip →
      HoldsServices (enter namespacedHostname svcs { service with endpoints := r })
        (s.insert { service with endpoints := r }) := by
    intro r s hhost hvip
    refine (h.frame hhost hvip).insert (hapart.of_bare ?_)
    -- the reference does not matter to the addresses
    exact forall_mem_cons.2 (forall_mem_cons.1 hsub)
  unfold Store.insertServiceInternal
  dsimp only
  split
  · split
    · exact ⟨_, hins _ rfl rfl⟩
    · exact ⟨_, hins _ rfl rfl⟩
  · exact ⟨_, hins _ rfl rfl⟩

theorem workloads_insertServiceInternal (st : Store) (service : Service) :
    (st.insertServiceInternal service).workloads = st.workloads := by
  unfold Store.insertServiceInternal
  dsimp only
  split
  · split <;> rfl
  · rfl

-- ======== one local workload

/-- Every service name of the workload is `namespace/hostname`. -/
def LocalWorkload.Accepted (wl : LocalWorkload) : Prop :=
  ∀ key ∈ wl.services.keys, (splitOnce key '/').isSome

instance (wl : LocalWorkload) : Decidable wl.Accepted :=
  inferInstanceAs (Decidable (∀ key ∈ wl.services.keys, (splitOnce key '/').isSome))

theorem portsFromXds_portListFromPorts (ports : Ports) :
    portsFromXds (portListFromPorts ports) = ports := by
  unfold portsFromXds portListFromPorts
  rw [map_map]
  refine Eq.trans (congrArg ofList ?_) (ofList_entries ports)
  exact (map_congr_left fun e _ => by simp).trans (map_id _)

/-- The service that a name of a local workload means. -/
def serviceNamed (key : Strng) : Option NamespacedHostname :=
  (splitOnce key '/').map fun p => ⟨p.1, p.2⟩

theorem serviceNamed_eq_some {key : Strng} : serviceNamed key = some nh ↔ fromStr key = .ok nh := by
  rw [fromStr_eq_ok, serviceNamed]
  cases splitOnce key '/' <;> cases nh <;> simp [Prod.ext_iff]

theorem get?_merged (wl : LocalWorkload) {ports : Ports} :
    wl.merged.services.get? nh = some ports ↔ ∃ key, (key, ports) ∈ wl.services.entries
        ∧ fromStr key = .ok nh := by
  have hread : wl.merged.services = ofList
      (wl.services.entries.filterMap fun e => (serviceNamed e.1).map (·, e.2)) := by
    unfold merged ofList
    rw [wl.flattened, foldl_filterMap]
    refine congrArg (foldl · _ _) (funext₂ fun m e => ?_)
    unfold mergeService serviceNamed
    cases splitOnce e.1 '/' <;> rfl
  -- no two names mean the same service
  have hnd : ((wl.services.entries.filterMap fun e =>
      (serviceNamed e.1).map (·, e.2)).map Prod.fst).Nodup := by
    have hkeys := wl.services.nodup.filterMap (f := serviceNamed) fun a b nh ha hb =>
      fromStr_inj (serviceNamed_eq_some.1 ha) (serviceNamed_eq_some.1 hb)
    rw [filterMap_map] at hkeys
    simpa [map_filterMap, Function.comp_def] using hkeys
  rw [hread, get?_ofList hnd, mem_filterMap]
  simp [serviceNamed_eq_some]

section OneWorkload

variable {bad : Strng → Prop} {ws : List Workload} (wls : List LocalWorkload)

/-- The store holds these workloads and services, and the endpoint sets are
exact but for some uids. -/
structure Held (src : Option Workload) (bad : Strng → Prop) (ws : List Workload)
    (svcs : List Service) (st : Store) : Prop where
  inv : StoreInvExcept src bad st
  workloads : HoldsWorkloads ws st.workloads
  services : HoldsServices svcs st.services

theorem Held.removeInternal (h : Held src bad ws svcs st) (uid : Strng) :
    Held src (fun k => bad k ∧ k ≠ uid) (strike Workload.uid ws uid) svcs
      (st.removeInternal uid true) := by
  have hinv := h.inv.removeWorkloadForInsert uid
  have hws := h.workloads.remove uid
  cases hget : st.workloads.byUid.get? uid with
  | some prev =>
    rw [removeInternal_of_some hget] at hinv ⊢
    exact ⟨hinv, hws, h.services.removeEndpoint prev⟩
  | none =>
    rw [removeInternal_of_none hget] at hinv ⊢
    simp only [WorkloadStore.remove, hget] at hws
    exact ⟨hinv, hws, h.services⟩

theorem insertLocalWorkload_spec (wl : LocalWorkload) (h : Held src bad ws svcs st) :
    Held src (fun k => (bad k ∧ k ≠ wl.uid) ∨ (k = wl.uid ∧ ¬ wl.Accepted))
        (enter Workload.uid ws wl.merged) svcs (st.insertLocalWorkload src wl).1
      ∧ ((st.insertLocalWorkload src wl).2 = .ok () ↔ wl.Accepted) := by
  have hres : ∀ {s : ServiceStore},
      (s.insertEndpointForServices wl.merged src wl.portLists).2 = .ok () ↔ wl.Accepted := by
    intro s
    rw [insertEndpointForServices_ok]
    unfold portLists LocalWorkload.Accepted AssocMap.keys
    simp only [mem_map, forall_exists_index, and_imp,
      forall_apply_eq_imp_iff₂, fromStr_eq_ok, Option.isSome_iff_exists]
    refine forall₂_congr fun e _ => ⟨fun h => ?_, fun h => ?_⟩
    · obtain ⟨nh, hnh⟩ := h
      exact ⟨_, hnh⟩
    · obtain ⟨p, hp⟩ := h
      exact ⟨⟨p.1, p.2⟩, hp⟩
  have hnone := byUid_removeInternal st wl.uid
  have hheld := h.removeInternal wl.uid
  have hports : ∀ e ∈ wl.portLists, ∀ {nh}, fromStr e.1 = .ok nh →
      wl.merged.services.get? nh = some (portsFromXds e.2) := by
    intro e he nh hnh
    obtain ⟨e₀, he₀, rfl⟩ := mem_map.1 he
    rw [portsFromXds_portListFromPorts, get?_merged]
    exact ⟨e₀.1, he₀, hnh⟩
  have hkeys : ∀ nh ∈ wl.merged.services.keys, ∃ e ∈ wl.portLists, fromStr e.1 = .ok nh := by
    intro nh hnh
    obtain ⟨ports, hget⟩ := mem_keys.1 hnh
    obtain ⟨key, hkey, hparse⟩ := (get?_merged wl).1 hget
    exact ⟨_, mem_map_of_mem hkey, hparse⟩
  have hnd : (wl.portLists.map Prod.fst).Nodup := by
    unfold portLists
    rw [map_map]
    exact wl.services.nodup
  refine ⟨⟨?_, ?_, hheld.services.insertEndpointForServices _ _ _⟩, hres⟩
  · refine (hheld.inv.insertWorkload (w := wl.merged) hnone hnd hports
      hkeys).mono fun k w _ hb => ?_
    rcases hb with hb | ⟨hk, hfail⟩
    · exact .inl hb
    · exact .inr ⟨hk, fun hacc => hfail (hres.2 hacc)⟩
  · have hins := hheld.workloads.insert wl.merged
    have hsame : enter Workload.uid (strike Workload.uid ws wl.uid) wl.merged
        = enter Workload.uid ws wl.merged := by
      have hno : ∀ w ∈ strike Workload.uid ws wl.uid,
          w.uid ≠ wl.merged.uid := fun w hw => (mem_strike.1 hw).2
      unfold enter
      rw [strike_of_not_mem hno]
      rfl
    rw [hsame] at hins
    exact hins

-- ======== loops

theorem insertLocalWorkloads_ok (hacc : ∀ wl ∈ wls, wl.Accepted) :
    ∀ {bad : Strng → Prop} {ws : List Workload} {st : Store}, Held src bad ws svcs st →
      ∃ st', st.insertLocalWorkloads src wls = (st', .ok ())
        ∧ Held src (fun k => bad k ∧ k ∉ wls.map uid)
          (enterAll Workload.uid ws (wls.map merged)) svcs st' := by
  induction wls with
  | nil =>
    intro bad ws st h
    exact ⟨st, rfl, h.inv.mono fun _ _ _ hb => ⟨hb, not_mem_nil⟩, h.workloads, h.services⟩
  | cons wl wls ih =>
    intro bad ws st h
    obtain ⟨h₁, hres⟩ := insertLocalWorkload_spec wl h
    have hwl := hacc wl mem_cons_self
    obtain ⟨st', hrun, h'⟩ := ih (fun v hv => hacc v (mem_cons_of_mem _ hv)) h₁
    refine ⟨st', ?_, h'.inv.mono fun k w _ hb => ?_, h'.workloads, h'.services⟩
    · unfold Store.insertLocalWorkloads
      rw [show st.insertLocalWorkload src wl = ((st.insertLocalWorkload src wl).1, .ok ()) from
          Prod.ext rfl (hres.2 hwl)]
      exact hrun
    · obtain ⟨hb | ⟨-, hfail⟩, hk⟩ := hb
      · rw [map_cons, mem_cons]
        exact ⟨hb.1, fun hmem => hmem.elim hb.2 hk⟩
      · exact absurd hwl hfail

theorem insertLocalWorkloads_error (hfail : ¬ ∀ wl ∈ wls, wl.Accepted) :
    ∀ {bad : Strng → Prop} {ws : List Workload} {st : Store}, Held src bad ws svcs st →
      ∃ st' e ws', st.insertLocalWorkloads src wls = (st', .error e)
        ∧ Held src (fun _ => True) ws' svcs st'
        ∧ ∀ w ∈ ws', w ∈ ws ∨ w.uid ∈ wls.map uid := by
  induction wls with
  | nil => exact absurd (fun _ h => (nomatch h)) hfail
  | cons wl wls ih =>
    intro bad ws st h
    obtain ⟨h₁, hres⟩ := insertLocalWorkload_spec wl h
    have hentered : ∀ w ∈ enter Workload.uid ws wl.merged,
        w ∈ ws ∨ w.uid ∈ (wl :: wls).map uid := by
      intro w hw
      rcases mem_enter.1 hw with rfl | hw
      · exact .inr mem_cons_self
      · exact .inl hw.1
    unfold Store.insertLocalWorkloads
    cases hstep : st.insertLocalWorkload src wl with
    | mk st₁ res =>
      rw [hstep] at h₁ hres
      cases res with
      | error e =>
        exact ⟨st₁, e, _, rfl, ⟨h₁.inv.mono fun _ _ _ _ => trivial, h₁.workloads,
          h₁.services⟩, hentered⟩
      | ok u =>
        have hwl := hres.1 rfl
        obtain ⟨st', e, ws', hrun, h', hfrom⟩ :=
          ih (fun hall => hfail (forall_mem_cons.2 ⟨hwl, hall⟩)) h₁
        refine ⟨st', e, ws', hrun, h', fun w hw => ?_⟩
        rcases hfrom w hw with hw | hw
        · exact hentered w hw
        · exact .inr (mem_cons_of_mem _ hw)

theorem insertServices_spec (hapart : VipsApart all)
    (services : List Service) (hnew : ∀ svc ∈ services, svc.bare ∈ all) :
    ∀ {svcs : List Service} {st : Store}, Held src bad ws svcs st → (∀ svc ∈ svcs, svc.bare ∈ all) →
      ∃ svcs', Held src bad ws svcs' (services.foldl Store.insertServiceInternal st)
        ∧ (∀ svc ∈ svcs', svc.bare ∈ all)
        ∧ svcs'.map bare = enterAll namespacedHostname (svcs.map bare) (services.map bare) := by
  induction services with
  | nil => exact fun h hall => ⟨_, h, hall, rfl⟩
  | cons service services ih =>
    intro svcs st h hall
    have hown := hnew service mem_cons_self
    obtain ⟨r, hsvcs₁⟩ :=
      h.services.insertServiceInternal hapart (forall_mem_cons.2 ⟨hown, hall⟩)
    have h₁ := h.workloads
    rw [← workloads_insertServiceInternal st service] at h₁
    obtain ⟨svcs', h', hall', hmap⟩ :=
      ih (fun svc hsvc => hnew svc (mem_cons_of_mem _ hsvc))
        ⟨h.inv.insertServiceInternal service, h₁, hsvcs₁⟩ fun svc hsvc => by
          rcases mem_enter.1 hsvc with rfl | hsvc
          · exact hown
          · exact hall svc hsvc.1
    refine ⟨svcs', h', hall', ?_⟩
    rw [hmap, map_enter bare_key]
    rfl

theorem removeServices_spec (hosts : List NamespacedHostname) :
    ∀ {svcs : List Service} {st : Store}, VipsApart svcs → Held src bad ws svcs st →
      Held src bad ws (hosts.foldl (strike namespacedHostname) svcs)
        (hosts.foldl Store.removeService st) := by
  induction hosts with
  | nil => exact fun _ h => h
  | cons nh hosts ih =>
    intro svcs st hapart h
    exact ih (hapart.subset fun svc hsvc => (mem_strike.1 hsvc).1)
      ⟨h.inv.removeService nh, h.workloads, h.services.remove hapart nh⟩

theorem removeWorkloads_spec (uids : List Strng) :
    ∀ {bad : Strng → Prop} {ws : List Workload} {st : Store}, Held src bad ws svcs st →
      Held src (fun k => bad k ∧ k ∉ uids) (uids.foldl (strike Workload.uid) ws) svcs
        (uids.foldl Store.removeRemainingWorkload st) := by
  induction uids with
  | nil =>
    intro bad ws st h
    exact ⟨h.inv.mono fun _ _ _ hb => ⟨hb, not_mem_nil⟩, h.workloads, h.services⟩
  | cons uid uids ih =>
    intro bad ws st h
    have h' := ih (h.removeInternal uid)
    refine ⟨h'.inv.mono fun k w _ hb => ?_, h'.workloads, h'.services⟩
    rw [mem_cons]
    exact ⟨hb.1.1, fun hmem => hmem.elim hb.1.2 hb.2⟩

end OneWorkload

-- ======== attempts

namespace LocalConfig

def named (cfg : LocalConfig) : PreviousState where
  workloads := ofKeys cfg.uids
  services := ofKeys cfg.hosts

/-- The workloads a load of the configuration leaves, in their order. -/
def heldWorkloads (cfg : LocalConfig) : List Workload :=
  enterAll Workload.uid [] (cfg.workloads.map merged)

def heldServices (cfg : LocalConfig) : List Service :=
  enterAll namespacedHostname [] (cfg.services.map bare)

def Accepted (cfg : LocalConfig) : Prop :=
  ∀ wl ∈ cfg.workloads, wl.Accepted

instance (cfg : LocalConfig) : Decidable cfg.Accepted :=
  inferInstanceAs (Decidable (∀ wl ∈ cfg.workloads, wl.Accepted))

end LocalConfig

/-- The state between two attempts, after `last` was loaded. -/
structure Kept (src : Option Workload) (last : LocalConfig) (st : Store) : Prop where
  inv : StoreInvExcept src (fun _ => True) st
  workloads : ∃ ws, HoldsWorkloads ws st.workloads ∧ ∀ w ∈ ws, w.uid ∈ last.uids
  services : ∃ svcs, HoldsServices svcs st.services ∧ svcs.map bare = last.heldServices

/-- The state right after `cfg` was loaded. -/
structure Loaded (src : Option Workload) (cfg : LocalConfig) (st : Store) : Prop where
  inv : StoreInv src st
  workloads : HoldsWorkloads cfg.heldWorkloads st.workloads
  services : ∃ svcs, HoldsServices svcs st.services ∧ svcs.map bare = cfg.heldServices

variable {cfg : LocalConfig} {last : LocalConfig}

theorem Loaded.kept (h : Loaded src cfg st) : Kept src cfg st where
  inv := h.inv.except _
  workloads := by
    refine ⟨_, h.workloads, fun w hw => ?_⟩
    rcases mem_of_mem_enterAll hw with hmem | hnil
    · obtain ⟨wl, hwl, rfl⟩ := mem_map.1 hmem
      exact mem_map_of_mem (f := uid) hwl
    · cases hnil
  services := h.services

theorem loaded_new : Loaded src LocalConfig.empty (Store.new src) where
  inv := storeInv_new
  workloads := holdsWorkloads_empty
  services := ⟨[], holdsServices_empty, rfl⟩

theorem kept_reload (h : Kept src last st) (hacc : cfg.Accepted)
    (hapart : VipsApart (last.services ++ cfg.services)) :
    ∃ st', st.syncLocal cfg last.named = (st', .ok cfg.named) ∧ Loaded src cfg st' := by
  obtain ⟨ws, hws, huids⟩ := h.workloads
  obtain ⟨svcs, hsvcs, hbare⟩ := h.services
  have hall : VipsApart ((last.services ++ cfg.services).map bare) := by
    intro svc hsvc svc' hsvc' v hv hv'
    obtain ⟨svc₀, h₀, rfl⟩ := mem_map.1 hsvc
    obtain ⟨svc₀', h₀', rfl⟩ := mem_map.1 hsvc'
    have hkey := hapart h₀ h₀' v hv hv'
    exact hkey
  have hold : ∀ svc ∈ svcs, svc.bare ∈ (last.services ++ cfg.services).map bare := by
    intro svc hsvc
    have hmem := mem_map_of_mem (f := bare) hsvc
    rw [hbare] at hmem
    rcases mem_of_mem_enterAll hmem with hmem | hnil
    · rw [map_append]
      exact mem_append_left _ hmem
    · cases hnil
  have hnew : ∀ svc ∈ cfg.services, svc.bare ∈ (last.services ++ cfg.services).map bare :=
    fun svc hsvc => mem_map_of_mem (mem_append_right _ hsvc)
  obtain ⟨st₁, hrun, h₁⟩ := insertLocalWorkloads_ok cfg.workloads hacc ⟨h.inv, hws, hsvcs⟩
  obtain ⟨svcs₂, h₂, hall₂, hmap₂⟩ := insertServices_spec hall cfg.services hnew h₁ hold
  have h₃ := removeServices_spec (last.named.services.eraseAll cfg.hosts).keys
    (hall.of_bare hall₂) h₂
  obtain ⟨hinv₄, hws₄, hsvcs₄⟩ :=
    removeWorkloads_spec (last.named.workloads.eraseAll cfg.uids).keys h₃
  refine ⟨_, ?_, ?_, ?_, _, hsvcs₄, ?_⟩
  · unfold Store.syncLocal
    rw [h.inv.source, hrun]
    rfl
  · -- a uid that is left out was stored, hence named, hence removed
    refine StoreInvExcept.all (hinv₄.mono fun k w hget hb => ?_) fun _ => id
    obtain ⟨hw, rfl⟩ := hws₄.byUid.1 hget
    rw [foldl_strike, mem_filter] at hw
    rcases mem_of_mem_enterAll hw.1 with hmem | hmem
    · obtain ⟨wl, hwl, rfl⟩ := mem_map.1 hmem
      exact hb.1.2 (mem_map_of_mem hwl)
    · exact hb.2 (mem_keys_eraseAll_ofKeys.2 ⟨huids w hmem, hb.1.2⟩)
  · have hreload : (last.named.workloads.eraseAll cfg.uids).keys.foldl (strike Workload.uid)
        (enterAll Workload.uid ws (cfg.workloads.map merged))
        = cfg.heldWorkloads := by
      refine enterAll_reload huids fun k => ?_
      rw [show (cfg.workloads.map merged).map Workload.uid = cfg.uids from map_map]
      exact mem_keys_eraseAll_ofKeys
    rw [hreload] at hws₄
    exact hws₄
  · have hhosts : ∀ svc ∈ last.heldServices, svc.namespacedHostname ∈ last.hosts := by
      intro svc hsvc
      rcases mem_of_mem_enterAll hsvc with hmem | hnil
      · obtain ⟨svc₀, h₀, rfl⟩ := mem_map.1 hmem
        exact mem_map.2 ⟨svc₀, h₀, rfl⟩
      · cases hnil
    rw [map_foldl_strike bare_key, hmap₂, hbare]
    refine enterAll_reload hhosts fun k => ?_
    rw [show (cfg.services.map bare).map namespacedHostname = cfg.hosts from map_map]
    exact mem_keys_eraseAll_ofKeys

theorem kept_failed (h : Kept src last st) (hfail : ¬ cfg.Accepted)
    (huids : ∀ uid ∈ cfg.uids, uid ∈ last.uids) (prev : PreviousState) :
    ∃ st' e, st.syncLocal cfg prev = (st', .error e) ∧ Kept src last st' := by
  obtain ⟨ws, hws, hold⟩ := h.workloads
  obtain ⟨svcs, hsvcs, hbare⟩ := h.services
  obtain ⟨st', e, ws', hrun, h', hfrom⟩ :=
    insertLocalWorkloads_error cfg.workloads hfail ⟨h.inv, hws, hsvcs⟩
  refine ⟨st', e, ?_, h'.inv, ⟨ws', h'.workloads, fun w hw => ?_⟩, svcs, h'.services, hbare⟩
  · unfold Store.syncLocal
    rw [h.inv.source, hrun]
  · rcases hfrom w hw with hw | hw
    · exact hold w hw
    · exact huids _ hw

-- ======== contents

/-- Two stores that answer every lookup alike. What is staged for services
that are not there is no answer to a lookup. -/
structure SameContent (st st' : Store) : Prop where
  byUid : ∀ k, st.workloads.byUid.get? k = st'.workloads.byUid.get? k
  byAddr : ∀ a, st.workloads.byAddr.get? a = st'.workloads.byAddr.get? a
  byService : ∀ svc uid, MemberOf st.workloads.byService svc uid
    ↔ MemberOf st'.workloads.byService svc uid
  byHost : ∀ h, (st.services.byHost.get? h).map (map bare)
    = (st'.services.byHost.get? h).map (map bare)
  byVip : ∀ v, (st.services.byVip.get? v).map bare = (st'.services.byVip.get? v).map bare
  endpoints : ∀ {svc svc'}, Listed st.services svc → Listed st'.services svc' →
    svc.namespacedHostname = svc'.namespacedHostname →
    ∃ eps eps', st.services.endpointSets.read? svc.endpoints = some eps
      ∧ st'.services.endpointSets.read? svc'.endpoints = some eps'
      ∧ eps.numBuckets = eps'.numBuckets ∧ eps.slots.Perm eps'.slots

theorem named_bare (svcs : List Service) (h : Strng) :
    (named svcs h).map bare = named (svcs.map bare) h := by
  unfold named
  rw [filter_map]
  rfl

theorem HoldsServices.byHost_bare (hs : HoldsServices svcs s) (h : Strng) :
    (s.byHost.get? h).map (map bare) = listFor (named (svcs.map bare) h) := by
  rw [hs.byHost, ← named_bare]
  cases named svcs h <;> rfl

theorem HoldsServices.byVip_bare (hs : HoldsServices svcs s) {v : NetworkAddress} {b : Service} :
    (s.byVip.get? v).map bare = some b ↔ b ∈ svcs.map bare ∧ v ∈ b.vips := by
  rw [Option.map_eq_some_iff, mem_map]
  constructor
  · rintro ⟨svc, hsvc, rfl⟩
    obtain ⟨hmem, hv⟩ := hs.byVip.1 hsvc
    exact ⟨⟨svc, hmem, rfl⟩, hv⟩
  · rintro ⟨⟨svc, hmem, rfl⟩, hv⟩
    exact ⟨svc, hs.byVip.2 ⟨hmem, hv⟩, rfl⟩

theorem HoldsServices.mem_of_listed (hs : HoldsServices svcs s) {svc : Service} (h : Listed s svc) :
    svc ∈ svcs := by
  obtain ⟨host, l, hget, hmem⟩ := h
  rw [hs.byHost] at hget
  have hl := listFor_getD (named svcs host)
  rw [hget, Option.getD_some] at hl
  rw [hl] at hmem
  exact (mem_filter.1 hmem).1

theorem Loaded.same {st' : Store} (h : Loaded src cfg st) (h' : Loaded src cfg st') :
    SameContent st st' := by
  obtain ⟨svcs, hsvcs, hbare⟩ := h.services
  obtain ⟨svcs', hsvcs', hbare'⟩ := h'.services
  have hbyUid : ∀ k, st.workloads.byUid.get? k = st'.workloads.byUid.get? k := by
    intro k
    refine Option.ext fun w => ?_
    rw [h.workloads.byUid, h'.workloads.byUid]
  refine ⟨hbyUid, fun a => ?_, fun svc uid => ?_, fun host => ?_, fun v => ?_,
    fun {svc svc'} hlist hlist' hkey => ?_⟩
  · rw [h.workloads.byAddr, h'.workloads.byAddr]
  · rw [h.inv.workloads.members, h'.inv.workloads.members, hbyUid]
  · rw [hsvcs.byHost_bare, hsvcs'.byHost_bare, hbare, hbare']
  · refine Option.ext fun b => ?_
    rw [hsvcs.byVip_bare, hsvcs'.byVip_bare, hbare, hbare']
  · refine h.inv.endpoints_same h'.inv hlist hlist' hkey ?_ hbyUid
    -- one service per key, so the two are the same but for the reference
    have hmem := mem_map_of_mem (f := bare) (hsvcs.mem_of_listed hlist)
    have hmem' := mem_map_of_mem (f := bare) (hsvcs'.mem_of_listed hlist')
    rw [hbare, ← hbare'] at hmem
    have hnd : ((svcs'.map bare).map namespacedHostname).Nodup := by
      rw [map_map]
      exact hsvcs'.keys
    have hsame : svc.bare = svc'.bare := inj_on_of_nodup_map hnd hmem hmem' hkey
    have hlb : svc.bare.loadBalancer = svc'.bare.loadBalancer := by rw [hsame]
    exact hlb

end AgentGateway.Discovery
