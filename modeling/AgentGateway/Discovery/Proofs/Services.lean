/-
The indexes of the discovery store.

A uid is listed under a service exactly when the workload stored under it
names that service. The two loops of the source (`insertMember`,
`removeMember`) are read through `MemberOf`, membership in the `by_service`
index, one service at a time; the fold lemmas then run them over a
workload's whole service map. `WorkloadInv` is what survives every
operation, and `mem_iterByService` is the form the service store consumes.

`Listed s svc` is membership of `svc` anywhere in `by_host`. Under
`HostInv` a listed service is found by its key (`getByNamespacedHost`),
removal and insertion are equivalences on `Listed`, and no two listed
services share an endpoint set, so mutating one set is invisible to
every other service.
-/
import AgentGateway.Discovery.Store

namespace AgentGateway.Discovery

open Lib AssocMap WorkloadStore

section Workloads

-- ======== the membership index

/-- `uid` is listed under `svc`. -/
def MemberOf (m : HashMap NamespacedHostname (HashSet Strng))
    (svc : NamespacedHostname) (uid : Strng) : Prop :=
  ∃ set, m.get? svc = some set ∧ set.contains uid

variable {uid u : Strng} {svc : NamespacedHostname} {s : WorkloadStore}
  {m : HashMap NamespacedHostname (HashSet Strng)} {svc' : NamespacedHostname}

theorem not_contains_of_isEmpty {set : HashSet Strng}
    (h : set.isEmpty) (u : Strng) : ¬ set.contains u := by
  rw [contains, isEmpty_iff.1 h u]
  simp

theorem memberOf_insertMember : MemberOf (insertMember uid m svc) svc' u
      ↔ (svc' = svc ∧ u = uid) ∨ MemberOf m svc' u := by
  unfold MemberOf insertMember
  rw [get?_insert]
  by_cases hs : svc' = svc
  · subst hs
    cases hm : m.get? svc' with
    | none | some => simp [contains_insert]
  · rw [if_neg hs]
    simp [hs]

theorem memberOf_removeMember : MemberOf (removeMember uid m svc) svc' u
      ↔ MemberOf m svc' u ∧ ¬ (svc' = svc ∧ u = uid) := by
  unfold MemberOf removeMember
  cases hm : m.get? svc with
  | none =>
    refine ⟨fun h => ⟨h, ?_⟩, fun h => h.1⟩
    intro hsu
    obtain ⟨set, hset, -⟩ := h
    rw [hsu.1, hm] at hset
    cases hset
  | some set =>
    rw [get?_erase_or_insert]
    by_cases hs : svc' = svc
    · subst hs
      have herase : (set.erase uid).contains u ↔ _ := contains_erase
      rw [if_pos rfl]
      split
      · next hempty =>
        have hnone := not_contains_of_isEmpty hempty u
        rw [herase] at hnone
        simpa [hm] using fun hc hu => hnone ⟨hu, hc⟩
      · simp [hm, herase, and_comm]
    · simp [hs]

theorem memberOf_foldl_insert (uid : Strng) (svcs : List NamespacedHostname) :
    ∀ m, MemberOf (svcs.foldl (insertMember uid) m) svc u
      ↔ (svc ∈ svcs ∧ u = uid) ∨ MemberOf m svc u := by
  induction svcs with
  | nil => intro m; simp
  | cons s rest ih =>
    intro m
    rw [List.foldl_cons, ih, memberOf_insertMember, List.mem_cons]
    tauto

theorem memberOf_foldl_remove (uid : Strng) (svcs : List NamespacedHostname) :
    ∀ m, MemberOf (svcs.foldl (removeMember uid) m) svc u
      ↔ MemberOf m svc u ∧ ¬ (svc ∈ svcs ∧ u = uid) := by
  induction svcs with
  | nil => intro m; simp
  | cons s rest ih =>
    intro m
    rw [List.foldl_cons, ih, memberOf_removeMember, List.mem_cons]
    tauto

-- ======== the invariant

/-- The uid index is keyed by uid, and the service index lists exactly
the members the stored workloads name. -/
structure WorkloadInv (s : WorkloadStore) : Prop where
  uid_key : ∀ {k w}, s.byUid.get? k = some w → w.uid = k
  members : ∀ svc uid, MemberOf s.byService svc uid
    ↔ ∃ w, s.byUid.get? uid = some w ∧ svc ∈ w.services.keys

theorem workloadInv_empty : WorkloadInv empty where
  uid_key := by
    intro k w h
    cases h
  members := by
    intro svc uid
    constructor
    · rintro ⟨set, hset, -⟩
      cases hset
    · rintro ⟨w, hw, -⟩
      cases hw

theorem byUid_remove (s : WorkloadStore) (uid k : Strng) : (s.remove uid).1.byUid.get? k
      = if k = uid then none else s.byUid.get? k := by
  unfold remove
  cases hu : s.byUid.get? uid with
  | none =>
    by_cases hk : k = uid
    · rw [if_pos hk, hk]
      exact hu
    · rw [if_neg hk]
  | some prev => exact get?_erase ..

theorem workloadInv_remove (hs : WorkloadInv s) (uid : Strng) : WorkloadInv (s.remove uid).1 where
  uid_key := by
    intro k w h
    rw [byUid_remove] at h
    split at h
    · cases h
    · exact hs.uid_key h
  members := by
    intro svc u
    rw [byUid_remove]
    have hmem := hs.members svc u
    unfold remove
    cases hu : s.byUid.get? uid with
    | none =>
      refine hmem.trans ?_
      by_cases hk : u = uid
      · rw [if_pos hk, hk, hu]
      · rw [if_neg hk]
    | some prev =>
      have huid := hs.uid_key hu
      rw [memberOf_foldl_remove, hmem, huid]
      by_cases hk : u = uid
      · subst hk
        simp [hu]
      · simp [hk]

theorem byUid_insert (s : WorkloadStore) (w : Workload) (k : Strng) :
    (s.insert w).byUid.get? k = if k = w.uid then some w else s.byUid.get? k := by
  unfold WorkloadStore.insert
  rw [get?_insert, byUid_remove]
  by_cases hk : k = w.uid <;> simp [hk]

theorem workloadInv_insert (hs : WorkloadInv s) (w : Workload) : WorkloadInv (s.insert w) where
  uid_key := by
    intro k w' h
    rw [byUid_insert] at h
    split at h
    · next hk =>
      rw [← Option.some.inj h, hk]
    · exact hs.uid_key h
  members := by
    intro svc u
    have hrem := (workloadInv_remove hs w.uid).members svc u
    rw [byUid_remove] at hrem
    rw [byUid_insert]
    unfold WorkloadStore.insert
    rw [memberOf_foldl_insert, hrem]
    by_cases hk : u = w.uid <;> simp [hk]

-- ======== the service view

theorem mem_iterByService (hs : WorkloadInv s) {w : Workload} : w ∈ s.iterByService svc
      ↔ s.byUid.get? w.uid = some w ∧ svc ∈ w.services.keys := by
  unfold iterByService
  have hmem := hs.members svc
  cases hset : s.byService.get? svc with
  | none =>
    refine ⟨fun h => absurd h (by simp), fun h => ?_⟩
    obtain ⟨set, hset', -⟩ := (hmem w.uid).2 ⟨w, h.1, h.2⟩
    rw [hset] at hset'
    cases hset'
  | some set =>
    rw [List.mem_filterMap]
    have hlisted : ∀ u, set.contains u ↔ ∃ w, s.byUid.get? u = some w ∧ svc ∈ w.services.keys := by
      intro u
      rw [← hmem u]
      unfold MemberOf
      rw [hset]
      simp
    refine ⟨fun h => ?_, fun h => ?_⟩
    · obtain ⟨u, hu, hw⟩ := h
      have huid := hs.uid_key hw
      obtain ⟨w', hw', hsvc⟩ := (hlisted u).1 (contains_iff_mem_keys.2 hu)
      rw [hw] at hw'
      cases hw'
      rw [huid]
      exact ⟨hw, hsvc⟩
    · refine ⟨w.uid, ?_, h.1⟩
      exact contains_iff_mem_keys.1 ((hlisted w.uid).2 ⟨w, h.1, h.2⟩)

theorem iterByService_nodup (hs : WorkloadInv s) (svc : NamespacedHostname) :
    ((s.iterByService svc).map Workload.uid).Nodup := by
  unfold iterByService
  cases hset : s.byService.get? svc with
  | none => exact List.nodup_nil
  | some set =>
    have hsub : ((set.keys.filterMap fun uid => s.byUid.get? uid).map
        Workload.uid).Sublist set.keys := by
      generalize set.keys = l
      induction l with
      | nil => exact List.Sublist.slnil
      | cons u rest ih =>
        rw [List.filterMap_cons]
        cases hu : s.byUid.get? u with
        | none => exact ih.cons u
        | some w =>
          rw [List.map_cons, hs.uid_key hu]
          exact ih.cons_cons u
    exact set.nodup.sublist hsub

end Workloads

-- ======== services

open Endpoints List

/-- `svc` occurs in the hostname index. -/
def Listed (s : ServiceStore) (svc : Service) : Prop :=
  ∃ h l, s.byHost.get? h = some l ∧ svc ∈ l

/-- Services sit under their own hostname, one per namespace. -/
structure HostKeys (s : ServiceStore) : Prop where
  hostname : ∀ {h l svc}, s.byHost.get? h = some l → svc ∈ l → svc.hostname = h
  nodup : ∀ {h l}, s.byHost.get? h = some l → (l.map Service.ns).Nodup

/-- They also own the endpoint set they point to. -/
structure HostInv (s : ServiceStore) : Prop where
  keys : HostKeys s
  valid : ∀ {svc}, Listed s svc → s.endpointSets.Valid svc.endpoints
  owned : ∀ {svc svc'}, Listed s svc → Listed s svc' → svc.endpoints = svc'.endpoints →
      svc.namespacedHostname = svc'.namespacedHostname

theorem hostKeys_empty : HostKeys ServiceStore.empty :=
  ⟨nofun, nofun⟩

theorem hostInv_empty : HostInv ServiceStore.empty where
  keys := hostKeys_empty
  valid := by
    intro svc hlist
    obtain ⟨h, l, hl, -⟩ := hlist
    cases hl
  owned := by
    intro svc svc' hlist
    obtain ⟨h, l, hl, -⟩ := hlist
    cases hl

-- ======== lookup

variable {l : List Service} {svc service : Service} {s : ServiceStore} {nh : NamespacedHostname}

def listedAt (s : ServiceStore) (h : Strng) : List Service :=
  (s.byHost.get? h).getD []

variable {h : Strng}

theorem mem_listedAt : svc ∈ listedAt s h ↔ ∃ l, s.byHost.get? h = some l ∧ svc ∈ l := by
  unfold listedAt
  cases s.byHost.get? h <;> simp

theorem HostKeys.of_listedAt (hostname : ∀ {h svc}, svc ∈ listedAt s h → svc.hostname = h)
    (nodup : ∀ h, ((listedAt s h).map Service.ns).Nodup) : HostKeys s where
  hostname hl hmem := hostname (mem_listedAt.2 ⟨_, hl, hmem⟩)
  nodup {h l} hl := by
    have hnd := nodup h
    rw [listedAt, hl] at hnd
    exact hnd

section

variable (hs : HostKeys s)
include hs

theorem HostKeys.listedAt_nodup (h : Strng) : ((listedAt s h).map Service.ns).Nodup := by
  unfold listedAt
  cases hl : s.byHost.get? h with
  | none => exact nodup_nil
  | some l => exact hs.nodup hl

theorem HostKeys.mem_listedAt_iff : svc ∈ listedAt s h ↔ Listed s svc ∧ svc.hostname = h := by
  rw [mem_listedAt]
  constructor
  · rintro ⟨l, hget, hmem⟩
    exact ⟨⟨h, l, hget, hmem⟩, hs.hostname hget hmem⟩
  · rintro ⟨⟨h', l, hget, hmem⟩, rfl⟩
    rw [← hs.hostname hget hmem] at hget
    exact ⟨l, hget, hmem⟩

theorem HostKeys.listed_iff : Listed s svc ↔ svc ∈ listedAt s svc.hostname := by
  rw [hs.mem_listedAt_iff]
  exact (and_iff_left rfl).symm

end

theorem namespacedHostname_eq_iff :
    svc.namespacedHostname = nh ↔ svc.hostname = nh.hostname ∧ svc.ns = nh.ns := by
  cases nh
  simp only [Service.namespacedHostname, NamespacedHostname.mk.injEq]
  exact and_comm

theorem find?_ns_eq_some (hnd : (l.map Service.ns).Nodup) {ns : Strng} :
    (l.find? fun s => s.ns = ns) = some svc ↔ svc ∈ l ∧ svc.ns = ns := by
  constructor
  · intro h
    exact ⟨mem_of_find?_eq_some h, by simpa using find?_some h⟩
  · rintro ⟨hmem, hns⟩
    cases hfind : l.find? fun s => s.ns = ns with
    | none => exact absurd hns (by simpa using find?_eq_none.1 hfind svc hmem)
    | some found =>
      have hfound : found.ns = ns := by simpa using find?_some hfind
      rw [inj_on_of_nodup_map hnd (mem_of_find?_eq_some hfind) hmem (hfound.trans hns.symm)]

theorem getByNamespacedHost_eq_some (hs : HostKeys s) :
    s.getByNamespacedHost nh = some svc ↔ Listed s svc ∧ svc.namespacedHostname = nh := by
  have hfind : s.getByNamespacedHost nh
      = (listedAt s nh.hostname).find? fun svc => svc.ns = nh.ns := by
    unfold ServiceStore.getByNamespacedHost listedAt
    cases s.byHost.get? nh.hostname <;> rfl
  rw [hfind, find?_ns_eq_some (hs.listedAt_nodup _), hs.mem_listedAt_iff,
    namespacedHostname_eq_iff, and_assoc]

theorem listed_unique (hs : HostKeys s) {svc' : Service} (h : Listed s svc)
    (h' : Listed s svc') (hkey : svc.namespacedHostname = svc'.namespacedHostname) :
    svc = svc' := by
  have hget := (getByNamespacedHost_eq_some hs).2 ⟨h, rfl⟩
  have hget' := (getByNamespacedHost_eq_some hs).2 ⟨h', hkey.symm⟩
  rw [hget] at hget'
  exact Option.some.inj hget'

-- ======== removal

theorem eraseP_ns (hnd : (l.map Service.ns).Nodup) (ns : Strng) :
    l.eraseP (fun svc => svc.ns = ns) = l.filter fun svc => svc.ns ≠ ns := by
  induction l with
  | nil => rfl
  | cons svc l ih =>
    rw [map_cons, nodup_cons] at hnd
    by_cases hsvc : svc.ns = ns
    · rw [eraseP_cons_of_pos (by simpa using hsvc), filter_cons_of_neg (by simpa using hsvc)]
      refine (filter_eq_self.2 fun svc' hsvc' => decide_eq_true ?_).symm
      intro heq
      refine hnd.1 ?_
      rw [hsvc, ← heq]
      exact mem_map_of_mem hsvc'
    · rw [eraseP_cons_of_neg (by simpa using hsvc),
        filter_cons_of_pos (by simpa using hsvc), ih hnd.2]

theorem endpointSets_remove (s : ServiceStore) (nh : NamespacedHostname) :
    (s.remove nh).1.endpointSets = s.endpointSets := by
  unfold ServiceStore.remove
  split
  · rfl
  · split <;> rfl

theorem listedAt_remove (s : ServiceStore) (nh : NamespacedHostname) (h : Strng) :
    listedAt (s.remove nh).1 h = if h = nh.hostname
      then (listedAt s h).eraseP fun svc => svc.ns = nh.ns else listedAt s h := by
  unfold listedAt ServiceStore.remove
  cases hl : s.byHost.get? nh.hostname with
  | none =>
    dsimp only
    split
    · next hh =>
      rw [hh, hl]
      rfl
    · rfl
  | some l =>
    dsimp only
    cases hf : l.find? (fun svc => svc.ns = nh.ns) with
    | none =>
      dsimp only
      split
      · next hh =>
        rw [hh, hl, eraseP_of_forall_not]
        exact find?_eq_none.1 hf
      · rfl
    | some prev =>
      rw [get?_erase_or_insert]
      by_cases hh : h = nh.hostname
      · subst hh
        rw [if_pos rfl, if_pos rfl, hl, Option.getD_some]
        split
        · next hempty => rw [isEmpty_iff.1 hempty, Option.getD_none]
        · rfl
      · rw [if_neg hh, if_neg hh]

theorem mem_listedAt_remove (hs : HostKeys s) :
    svc ∈ listedAt (s.remove nh).1 h ↔ svc ∈ listedAt s h ∧ svc.namespacedHostname ≠ nh := by
  rw [listedAt_remove, ne_eq, namespacedHostname_eq_iff]
  split
  · next hh =>
    rw [eraseP_ns (hs.listedAt_nodup h), mem_filter, decide_eq_true_iff, hs.mem_listedAt_iff]
    refine and_congr_right fun hsvc => not_congr ?_
    exact (and_iff_right (hsvc.2.trans hh)).symm
  · next hh =>
    rw [hs.mem_listedAt_iff]
    refine (and_iff_left_of_imp fun hsvc hkey => ?_).symm
    exact hh (hsvc.2.symm.trans hkey.1)

theorem listed_remove (hs : HostKeys s) : Listed (s.remove nh).1 svc
      ↔ Listed s svc ∧ svc.namespacedHostname ≠ nh := by
  constructor
  · rintro ⟨h, hlist⟩
    obtain ⟨hold, hne⟩ := (mem_listedAt_remove hs).1 (mem_listedAt.2 hlist)
    exact ⟨(hs.mem_listedAt_iff.1 hold).1, hne⟩
  · rintro ⟨hold, hne⟩
    exact ⟨_, mem_listedAt.1 ((mem_listedAt_remove hs).2 ⟨hs.listed_iff.1 hold, hne⟩)⟩

theorem hostKeys_remove (hs : HostKeys s) (nh : NamespacedHostname) : HostKeys (s.remove nh).1 := by
  refine .of_listedAt (fun hmem => ?_) fun h => ?_
  · exact (hs.mem_listedAt_iff.1 ((mem_listedAt_remove hs).1 hmem).1).2
  · rw [listedAt_remove]
    split
    · exact (hs.listedAt_nodup h).sublist (eraseP_sublist.map _)
    · exact hs.listedAt_nodup h

theorem hostInv_remove (hs : HostInv s) (nh : NamespacedHostname) : HostInv (s.remove nh).1 where
  keys := hostKeys_remove hs.keys nh
  valid hlist := by
    rw [endpointSets_remove]
    exact hs.valid ((listed_remove hs.keys).1 hlist).1
  owned hlist hlist' :=
    hs.owned ((listed_remove hs.keys).1 hlist).1 ((listed_remove hs.keys).1 hlist').1

-- ======== insertion

theorem replaceOrPush_of_not_mem (h : ∀ svc ∈ l, svc.ns ≠ service.ns) :
    ServiceStore.replaceOrPush service l = l ++ [service] := by
  induction l with
  | nil => rfl
  | cons svc l ih =>
    unfold ServiceStore.replaceOrPush
    rw [if_neg (h svc mem_cons_self), ih fun svc' hsvc' => h svc' (mem_cons_of_mem _ hsvc')]
    rfl

theorem endpointSets_insert (s : ServiceStore) (service : Service) :
    (s.insert service).endpointSets = s.endpointSets :=
  endpointSets_remove s service.namespacedHostname

/-- The hostname index after an insertion: the service's own list has it
in its slot, every other list is the one removal left. -/
theorem byHost_insert (s : ServiceStore) (service : Service) (h : Strng) :
    (s.insert service).byHost.get? h = if h = service.hostname then
        some (ServiceStore.replaceOrPush service
          (((s.remove service.namespacedHostname).1.byHost.get? service.hostname).getD []))
      else (s.remove service.namespacedHostname).1.byHost.get? h := by
  unfold ServiceStore.insert
  dsimp only
  by_cases hh : h = service.hostname
  · subst hh
    rw [if_pos rfl]
    split
    · next hnone =>
      rw [get?_insert_self, hnone]
      rfl
    · next hsome =>
      rw [get?_insert_self, hsome]
      rfl
  · rw [if_neg hh]
    split
    · rw [get?_insert_ne _ _ hh]
    · rw [get?_insert_ne _ _ hh]

theorem ns_ne_of_removed (hs : HostKeys s) (hmem : svc ∈
      listedAt (s.remove service.namespacedHostname).1 service.hostname) : svc.ns ≠ service.ns := by
  intro hns
  obtain ⟨hold, hne⟩ := (mem_listedAt_remove hs).1 hmem
  exact hne (namespacedHostname_eq_iff.2 ⟨(hs.mem_listedAt_iff.1 hold).2, hns⟩)

theorem listedAt_insert (hs : HostKeys s) (service : Service) (h : Strng) :
    listedAt (s.insert service) h = if h = service.hostname
        then listedAt (s.remove service.namespacedHostname).1 h ++ [service]
        else listedAt (s.remove service.namespacedHostname).1 h := by
  rw [listedAt, byHost_insert]
  split
  · next hh =>
    subst hh
    exact replaceOrPush_of_not_mem fun svc => ns_ne_of_removed hs
  · rfl

theorem mem_listedAt_insert (hs : HostKeys s) :
    svc ∈ listedAt (s.insert service) h ↔ svc = service ∧ service.hostname = h
      ∨ svc ∈ listedAt (s.remove service.namespacedHostname).1 h := by
  rw [listedAt_insert hs]
  split
  · next hh => simp [hh, or_comm]
  · next hh => simp [Ne.symm hh]

theorem listed_insert (hs : HostKeys s) : Listed (s.insert service) svc
      ↔ svc = service ∨ (Listed s svc ∧ svc.namespacedHostname ≠ service.namespacedHostname) := by
  have hlisted : ∀ s' : ServiceStore, Listed s' svc ↔ ∃ h, svc ∈ listedAt s' h :=
    fun s' => exists_congr fun h => mem_listedAt.symm
  rw [← listed_remove hs, hlisted, hlisted]
  simp only [mem_listedAt_insert hs, exists_or, exists_and_left, exists_eq', and_true]

theorem hostKeys_insert (hs : HostKeys s) (service : Service) : HostKeys (s.insert service) := by
  have hr := hostKeys_remove hs service.namespacedHostname
  refine .of_listedAt (fun hmem => ?_) fun h => ?_
  · obtain ⟨rfl, hhost⟩ | hold := (mem_listedAt_insert hs).1 hmem
    · exact hhost
    · exact (hr.mem_listedAt_iff.1 hold).2
  · rw [listedAt_insert hs]
    split
    · next hh =>
      subst hh
      rw [map_append, map_singleton, ← concat_eq_append]
      refine (hr.listedAt_nodup _).concat fun hmem => ?_
      obtain ⟨svc, hsvc, hns⟩ := mem_map.1 hmem
      exact ns_ne_of_removed hs hsvc hns
    · exact hr.listedAt_nodup h

theorem hostInv_insert (hs : HostInv s) (hvalid : s.endpointSets.Valid service.endpoints)
    (hown : ∀ svc, Listed s svc → svc.endpoints = service.endpoints →
      svc.namespacedHostname = service.namespacedHostname) : HostInv (s.insert service) where
  keys := hostKeys_insert hs.keys service
  valid hlist := by
    rw [endpointSets_insert]
    rcases (listed_insert hs.keys).1 hlist with heq | hold
    · rw [heq]
      exact hvalid
    · exact hs.valid hold.1
  owned {svc svc'} hlist hlist' heq := by
    rcases (listed_insert hs.keys).1 hlist with h | h
    · rcases (listed_insert hs.keys).1 hlist' with h' | h'
      · rw [h, h']
      · rw [h] at heq ⊢
        exact (hown svc' h'.1 heq.symm).symm
    · rcases (listed_insert hs.keys).1 hlist' with h' | h'
      · rw [h'] at heq ⊢
        exact hown svc h.1 heq
      · exact hs.owned h.1 h'.1 heq

end AgentGateway.Discovery
