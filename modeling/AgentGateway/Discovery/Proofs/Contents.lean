/-
What the lookups of the discovery store answer.

A store holds a list of workloads and a list of services, each in the
order of last insertion (`HoldsWorkloads`, `HoldsServices`): the indexes
are determined by the two lists, the order of several workloads under one
address and of several services under one hostname included. Insertion
and removal act on the lists as `Ledger.enter` and `Ledger.strike`.

One index is not determined that way in general. Removing a service
removes the entries of its virtual addresses whoever they belong to by
then, so `byVip` follows the list as long as services of different keys
share no address (`VipsApart`).
-/
import AgentGateway.Discovery.Proofs.Services
import AgentGateway.Lib.Reload

namespace AgentGateway.Discovery

open Lib Ledger List AssocMap WorkloadStore

-- ======== addresses

def entryFor : List Workload → Option WorkloadByAddr
  | [] => none
  | [w] => some (.single w)
  | ws => some (.many ws)

def Workload.addresses (w : Workload) : List NetworkAddress :=
  if w.networkMode ≠ .hostNetwork then
    w.workloadIps.map (networkAddr w.network)
  else []

/-- The workload once for each time it names the address. -/
def Workload.at (a : NetworkAddress) (w : Workload) : List Workload :=
  (w.addresses.filter (· = a)).map fun _ => w

theorem ofList_concat (ws : List Workload) (w : Workload) : entryFor (ws ++ [w])
      = some (match entryFor ws with
        | some o => o.insert w
        | none => .single w) := by
  match ws with
  | [] => rfl
  | [v] => rfl
  | v :: v' :: rest => rfl

variable {ws : List Workload} {svcs : List Service} {s : ServiceStore}

theorem ofList_removeUid {o : WorkloadByAddr} (h : entryFor ws = some o) (uid : Strng) :
    entryFor (ws.filter fun w => w.uid ≠ uid)
      = if (o.removeUid uid).2 then none else some (o.removeUid uid).1 := by
  match ws with
  | [] => cases h
  | [v] =>
    cases h
    by_cases hv : v.uid = uid <;>
      simp [WorkloadByAddr.removeUid, entryFor, hv]
  | v :: v' :: rest =>
    cases h
    unfold WorkloadByAddr.removeUid
    match hl : (v :: v' :: rest).filter fun w => w.uid ≠ uid with
    | [] => simp only [hl, entryFor, ↓reduceIte]
    | [u] => simp only [hl, entryFor, Bool.false_eq_true, ↓reduceIte]
    | u :: u' :: l => simp only [hl, entryFor, Bool.false_eq_true, ↓reduceIte]

section Addresses

variable {m : HashMap NetworkAddress WorkloadByAddr} {at_ : NetworkAddress → List Workload}

theorem get?_insertAddrs (w : Workload) (ips : List IpAddr)
    (h : ∀ a, m.get? a = entryFor (at_ a)) (a : NetworkAddress) :
    (ips.foldl (insertAddr w) m).get? a = entryFor (at_ a
          ++ ((ips.map (networkAddr w.network)).filter (· = a)).map fun _ => w) := by
  induction ips generalizing m at_ with
  | nil => simpa using h a
  | cons ip ips ih =>
    have hstep : ∀ a, (insertAddr w m ip).get? a
        = entryFor (if networkAddr w.network ip = a then at_ a ++ [w] else at_ a) := by
      intro a
      have hins : insertAddr w m ip = m.insert (networkAddr w.network ip)
            (match m.get? (networkAddr w.network ip) with
              | some o => o.insert w
              | none => .single w) := by
        unfold insertAddr
        dsimp only
        cases m.get? (networkAddr w.network ip) <;> rfl
      rw [hins, get?_insert]
      by_cases ha : a = networkAddr w.network ip
      · subst ha
        rw [if_pos rfl, if_pos rfl, ofList_concat, h]
      · rw [if_neg ha, if_neg (Ne.symm ha), h]
    rw [foldl_cons, ih hstep, map_cons, filter_cons]
    by_cases ha : networkAddr w.network ip = a <;> simp [ha]

theorem get?_removeAddrs (prev : Workload) (ips : List IpAddr)
    (h : ∀ a, m.get? a = entryFor (at_ a)) (a : NetworkAddress) :
    (ips.foldl (removeAddr prev) m).get? a
      = entryFor (if a ∈ ips.map (networkAddr prev.network) then
          (at_ a).filter fun w => w.uid ≠ prev.uid else at_ a) := by
  induction ips generalizing m at_ with
  | nil => simpa using h a
  | cons ip ips ih =>
    have hstep : ∀ a, (removeAddr prev m ip).get? a
        = entryFor (if a = networkAddr prev.network ip then
            (at_ a).filter fun w => w.uid ≠ prev.uid else at_ a) := by
      intro a
      unfold removeAddr
      dsimp only
      have hm := h (networkAddr prev.network ip)
      cases hget : m.get? (networkAddr prev.network ip) with
      | none =>
        rw [h]
        by_cases ha : a = networkAddr prev.network ip
        · subst ha
          rw [hget] at hm
          have hnil : at_ (networkAddr prev.network ip) = [] := by
            cases hat : at_ (networkAddr prev.network ip) with
            | nil => rfl
            | cons v rest =>
              rw [hat] at hm
              cases rest <;> cases hm
          simp [hnil]
        · rw [if_neg ha]
      | some o =>
        rw [hget] at hm
        have hrem := ofList_removeUid hm.symm prev.uid
        rw [get?_erase_or_insert]
        by_cases ha : a = networkAddr prev.network ip
        · subst ha
          rw [if_pos rfl, if_pos rfl, hrem]
        · rw [if_neg ha, if_neg ha, h]
    rw [foldl_cons, ih hstep]
    by_cases ha : a = networkAddr prev.network ip <;> simp [ha]

end Addresses

-- ======== workloads

/-- The indexes by uid and by address are those of the list. -/
structure HoldsWorkloads (ws : List Workload) (s : WorkloadStore) : Prop where
  uids : (ws.map Workload.uid).Nodup
  byUid : ∀ {k w}, s.byUid.get? k = some w ↔ w ∈ ws ∧ w.uid = k
  byAddr : ∀ a, s.byAddr.get? a = entryFor (ws.flatMap (Workload.at a))

theorem holdsWorkloads_empty : HoldsWorkloads [] empty where
  uids := nodup_nil
  byUid := by
    intro k w
    refine ⟨nofun, fun h => (nomatch h.1)⟩
  byAddr := fun _ => rfl

theorem HoldsWorkloads.remove {s : WorkloadStore} (h : HoldsWorkloads ws s) (uid : Strng) :
    HoldsWorkloads (strike Workload.uid ws uid) (s.remove uid).1 := by
  unfold WorkloadStore.remove
  cases hget : s.byUid.get? uid with
  | none =>
    have hno : ∀ w ∈ ws, w.uid ≠ uid := by
      intro w hw heq
      rw [h.byUid.2 ⟨hw, heq⟩] at hget
      cases hget
    rw [strike_of_not_mem hno]
    exact h
  | some prev =>
    obtain ⟨hprev, huid⟩ := h.byUid.1 hget
    -- a workload of the uid is found under the addresses of `prev` only
    have hfilter : ∀ a, (strike Workload.uid ws uid).flatMap (Workload.at a)
        = (ws.flatMap (Workload.at a)).filter fun w => w.uid ≠ uid := by
      intro a
      unfold strike
      generalize ws = l
      induction l with
      | nil => rfl
      | cons w l ih =>
        rw [flatMap_cons, filter_append, ← ih]
        have hat : (w.at a).filter (fun w => w.uid ≠ uid) = if w.uid ≠ uid then w.at a else [] := by
          unfold Workload.at
          by_cases hw : w.uid = uid <;> simp [hw]
        rw [hat]
        by_cases hw : w.uid = uid <;> simp [hw]
    have helse : ∀ a, a ∉ prev.addresses →
        (ws.flatMap (Workload.at a)).filter (fun w => w.uid ≠ uid)
          = ws.flatMap (Workload.at a) := by
      intro a ha
      refine filter_eq_self.2 fun w hw => decide_eq_true fun heq => ha ?_
      obtain ⟨v, hv, hat⟩ := mem_flatMap.1 hw
      obtain ⟨a', ha', rfl⟩ := mem_map.1 hat
      have hsame := inj_on_of_nodup_map h.uids hv hprev (heq.trans huid.symm)
      subst hsame
      obtain ⟨hmem, haa⟩ := mem_filter.1 ha'
      rw [← of_decide_eq_true haa]
      exact hmem
    refine ⟨nodup_strike h.uids uid, fun {k w} => ?_, fun a => ?_⟩
    · rw [get?_erase, mem_strike]
      by_cases hk : k = uid
      · subst hk
        simp only [↓reduceIte, reduceCtorEq, false_iff]
        exact fun hw => hw.1.2 hw.2
      · rw [if_neg hk, h.byUid]
        refine and_congr_left fun hw => ?_
        rw [hw]
        exact (and_iff_left hk).symm
    · rw [hfilter]
      dsimp only
      unfold Workload.addresses at helse
      split
      · next hmode =>
        rw [get?_removeAddrs prev prev.workloadIps h.byAddr, huid]
        split
        · rfl
        · next hno =>
          rw [helse a (by rwa [if_pos hmode])]
      · next hmode =>
        rw [helse a (by simp [hmode]), h.byAddr]

theorem HoldsWorkloads.insert {s : WorkloadStore} (h : HoldsWorkloads ws s) (w : Workload) :
    HoldsWorkloads (enter Workload.uid ws w) (s.insert w) := by
  have hrem := h.remove w.uid
  refine ⟨nodup_enter h.uids w, fun {k v} => ?_, fun a => ?_⟩
  · unfold WorkloadStore.insert
    rw [get?_insert, mem_enter]
    have hold := @HoldsWorkloads.byUid _ _ hrem k v
    rw [mem_strike] at hold
    by_cases hk : k = w.uid
    · subst hk
      grind
    · grind
  · unfold WorkloadStore.insert enter
    rw [flatMap_append, flatMap_singleton]
    split
    · next hmode =>
      have hat : w.at a = ((w.workloadIps.map (networkAddr w.network)).filter
          (· = a)).map fun _ => w := by
        unfold Workload.at Workload.addresses
        rw [if_pos hmode]
      rw [hat]
      exact get?_insertAddrs w w.workloadIps hrem.byAddr a
    · next hmode =>
      have hat : w.at a = [] := by
        unfold Workload.at Workload.addresses
        rw [if_neg hmode]
        rfl
      rw [hat, append_nil]
      exact hrem.byAddr a

-- ======== services

/-- Services of different keys have different virtual addresses. -/
def VipsApart (svcs : List Service) : Prop :=
  ∀ ⦃svc⦄, svc ∈ svcs → ∀ ⦃svc'⦄, svc' ∈ svcs → ∀ v ∈ svc.vips,
    v ∈ svc'.vips → svc.namespacedHostname = svc'.namespacedHostname

theorem VipsApart.subset {svcs' : List Service} (h : VipsApart svcs)
    (hsub : ∀ svc ∈ svcs', svc ∈ svcs) : VipsApart svcs' :=
  fun _ hsvc _ hsvc' => h (hsub _ hsvc) (hsub _ hsvc')

def listFor (svcs : List Service) : Option (List Service) :=
  if svcs.isEmpty then none else some svcs

theorem listFor_getD (svcs : List Service) : (listFor svcs).getD [] = svcs := by
  cases svcs <;> rfl

def named (svcs : List Service) (h : Strng) : List Service :=
  svcs.filter fun svc => svc.hostname = h

/-- The indexes by hostname and by virtual address are those of the
list. -/
structure HoldsServices (svcs : List Service) (s : ServiceStore) : Prop where
  keys : (svcs.map Service.namespacedHostname).Nodup
  byHost : ∀ h, s.byHost.get? h = listFor (named svcs h)
  byVip : ∀ {v svc}, s.byVip.get? v = some svc ↔ svc ∈ svcs ∧ v ∈ svc.vips

theorem holdsServices_empty : HoldsServices [] ServiceStore.empty where
  keys := nodup_nil
  byHost := fun _ => rfl
  byVip := by
    intro v svc
    exact ⟨nofun, fun h => (nomatch h.1)⟩

theorem HoldsServices.frame {s' : ServiceStore} (h : HoldsServices svcs s)
    (hhost : s'.byHost = s.byHost) (hvip : s'.byVip = s.byVip) : HoldsServices svcs s' where
  keys := h.keys
  byHost := by
    rw [hhost]
    exact h.byHost
  byVip := by
    rw [hvip]
    exact h.byVip

/-- Striking a key takes the service of that namespace out of the list of
its hostname. -/
theorem named_strike (svcs : List Service) (nh : NamespacedHostname) (h : Strng) :
    named (strike Service.namespacedHostname svcs nh) h = if h = nh.hostname then
          (named svcs h).filter fun svc => svc.ns ≠ nh.ns else named svcs h := by
  unfold named strike
  rw [filter_filter]
  split
  · next hh =>
    rw [filter_filter]
    refine filter_congr fun svc _ => ?_
    rw [← Bool.decide_and, ← Bool.decide_and, decide_eq_decide, hh, ne_eq,
      namespacedHostname_eq_iff]
    tauto
  · next hh =>
    refine filter_congr fun svc _ => ?_
    rw [← Bool.decide_and, decide_eq_decide, ne_eq, namespacedHostname_eq_iff]
    grind

theorem HoldsServices.ns_nodup (h : HoldsServices svcs s) (host : Strng) :
    ((named svcs host).map Service.ns).Nodup := by
  have hkeys : ((named svcs host).map Service.namespacedHostname).Nodup :=
    h.keys.sublist (filter_sublist.map _)
  refine List.Nodup.of_map (fun ns => (⟨ns, host⟩ : NamespacedHostname)) ?_
  rw [map_map]
  refine (congrArg List.Nodup (map_congr_left fun svc hsvc => ?_)).mp hkeys
  have hhost := of_decide_eq_true (mem_filter.1 hsvc).2
  show (⟨svc.ns, svc.hostname⟩ : NamespacedHostname) = ⟨svc.ns, host⟩
  rw [hhost]

theorem HoldsServices.remove (h : HoldsServices svcs s) (hapart : VipsApart svcs)
    (nh : NamespacedHostname) :
    HoldsServices (strike Service.namespacedHostname svcs nh) (s.remove nh).1 := by
  have hfind : ∀ svc, ((named svcs nh.hostname).find? fun svc => svc.ns = nh.ns)
      = some svc → svc ∈ svcs ∧ svc.namespacedHostname = nh := by
    intro svc hsvc
    obtain ⟨hmem, hhost⟩ := mem_filter.1 (mem_of_find?_eq_some hsvc)
    have hns : svc.ns = nh.ns := by simpa using find?_some hsvc
    exact ⟨hmem, namespacedHostname_eq_iff.2 ⟨of_decide_eq_true hhost, hns⟩⟩
  have habsent : ((named svcs nh.hostname).find? fun svc => svc.ns = nh.ns)
      = none → strike Service.namespacedHostname svcs nh = svcs := by
    intro hnone
    refine strike_of_not_mem fun svc hsvc heq => ?_
    subst heq
    have hno := find?_eq_none.1 hnone svc (mem_filter.2 ⟨hsvc, decide_eq_true rfl⟩)
    exact hno (decide_eq_true rfl)
  unfold ServiceStore.remove
  have hlist := h.byHost nh.hostname
  cases hget : s.byHost.get? nh.hostname with
  | none =>
    rw [hget] at hlist
    have hnil := listFor_getD (named svcs nh.hostname)
    rw [← hlist] at hnil
    rw [habsent (by rw [← hnil]; rfl)]
    exact h
  | some services =>
    rw [hget] at hlist
    have hservices := listFor_getD (named svcs nh.hostname)
    rw [← hlist] at hservices
    subst hservices
    dsimp only
    cases hprev : (named svcs nh.hostname).find? fun svc => svc.ns = nh.ns with
    | none =>
      rw [habsent hprev]
      exact h
    | some prev =>
      obtain ⟨hmem, hkey⟩ := hfind prev hprev
      refine ⟨nodup_strike h.keys nh, fun host => ?_, fun {v svc} => ?_⟩
      · dsimp only
        rw [named_strike, eraseP_ns (h.ns_nodup _), get?_erase_or_insert]
        by_cases hh : host = nh.hostname
        · subst hh
          rw [if_pos rfl, if_pos rfl, listFor]
        · rw [if_neg hh, if_neg hh, h.byHost]
      · rw [get?_foldl get?_erase, mem_strike]
        split
        · next hv =>
          -- only the service itself has the address
          simp only [reduceCtorEq, false_iff]
          rintro ⟨⟨hsvc, hne⟩, hv'⟩
          refine hne ?_
          rw [hapart hsvc hmem v hv' hv]
          exact hkey
        · next hv =>
          rw [h.byVip]
          refine and_congr_left fun hv' => (and_iff_left_of_imp fun hsvc => ?_).symm
          intro heq
          have hsame := inj_on_of_nodup_map h.keys hsvc hmem (heq.trans hkey.symm)
          subst hsame
          exact hv hv'

theorem HoldsServices.insert (h : HoldsServices svcs s) {service : Service}
    (hapart : VipsApart (service :: svcs)) :
    HoldsServices (enter Service.namespacedHostname svcs service) (s.insert service) := by
  have hrem := h.remove (hapart.subset fun svc => mem_cons_of_mem _) service.namespacedHostname
  refine ⟨nodup_enter h.keys service, fun host => ?_, fun {v svc} => ?_⟩
  · have hpush := @replaceOrPush_of_not_mem (named (strike Service.namespacedHostname svcs
        service.namespacedHostname) service.hostname) service (by
        intro svc hsvc heq
        obtain ⟨hmem, hhost⟩ := mem_filter.1 hsvc
        exact (mem_strike.1 hmem).2 (namespacedHostname_eq_iff.2 ⟨of_decide_eq_true hhost, heq⟩))
    rw [byHost_insert, hrem.byHost, hrem.byHost, listFor_getD, hpush]
    have happ : ∀ l : List Service, named (l ++ [service]) host
        = named l host ++ if service.hostname = host then [service] else [] := by
      intro l
      unfold named
      by_cases hh : service.hostname = host <;> simp [hh]
    unfold enter
    rw [happ]
    by_cases hh : host = service.hostname
    · subst hh
      unfold listFor
      simp
    · rw [if_neg hh, if_neg (Ne.symm hh), append_nil]
  · unfold ServiceStore.insert
    rw [get?_foldl fun m a v => get?_insert m a v service, mem_enter]
    have hold := @HoldsServices.byVip _ _ hrem v svc
    rw [mem_strike] at hold
    split
    · next hv =>
      rw [Option.some.injEq]
      refine ⟨fun heq => ⟨.inl heq.symm, heq ▸ hv⟩, fun hx => ?_⟩
      rcases hx with ⟨rfl | ⟨hsvc, hne⟩, hv'⟩
      · rfl
      · exact absurd (hapart (mem_cons_of_mem _ hsvc) mem_cons_self v hv' hv) hne
    · next hv =>
      rw [hold]
      refine and_congr_left fun hv' => ?_
      refine (or_iff_right fun heq => ?_).symm
      subst heq
      exact hv hv'

end AgentGateway.Discovery
