/-
Lookups by address (`get_by_vip`, `find_address`).

# Services

An address has one owner at a time, and a service that goes takes its
addresses out of the index, whoever owns them by then. So the index is right
until an address goes that another live service lists too (`Keeps`), and wrong
right after.

# Workloads

The store holds a list of workloads (`HoldsWorkloads`), so an entry lists the
live workloads that share the address, and is dropped with the last one.
-/
import AgentGateway.Discovery.Proofs.Contents
import AgentGateway.Endpoints.Selection
import AgentGateway.Lib.Run
import Mathlib.Data.List.Infix

namespace AgentGateway.Discovery

open Lib AssocMap

-- ======== what is live

/-- What happens to a keyed collection. -/
inductive Change (K V : Type)
  | insert (value : V)
  | remove (key : K)

namespace Change

variable {K V : Type}

def keyBy (key : V → K) : Change K V → K
  | .insert v => key v
  | .remove k => k

/-- What is there afterwards. -/
def value : Change K V → Option V
  | .insert v => some v
  | .remove _ => none

/-- What is live, by key. -/
def apply [DecidableEq K] (key : V → K) (live : K → Option V) (c : Change K V) : K → Option V :=
  Function.update live (c.keyBy key) c.value

end Change

-- ======== services

abbrev ServiceChange := Change NamespacedHostname Service

abbrev LiveServices := NamespacedHostname → Option Service

namespace ServiceChange

def key (c : ServiceChange) : NamespacedHostname := c.keyBy Service.namespacedHostname

def live (live : LiveServices) (c : ServiceChange) : LiveServices :=
  c.apply Service.namespacedHostname live

def run (s : ServiceStore) : ServiceChange → ServiceStore
  | .insert service => s.insert service
  | .remove namespacedHost => (s.remove namespacedHost).1

/-- No address that goes is listed by another live service. -/
def Keeps (live : LiveServices) (c : ServiceChange) : Prop :=
  ∀ prev ∈ live c.key, ∀ v ∈ prev.vips, (∀ svc ∈ c.value, v ∉ svc.vips) →
    ∀ name ≠ c.key, ∀ svc ∈ live name, v ∉ svc.vips

end ServiceChange

/-- An address that a live service lists is found, and what is found is a live
service that lists it, the one that is found under its name. -/
structure VipsExact (live : LiveServices) (s : ServiceStore) : Prop where
  complete : ∀ name, ∀ svc ∈ live name, ∀ v ∈ svc.vips, s.getByVip v ≠ none
  sound : ∀ v svc, s.getByVip v = some svc → v ∈ svc.vips
    ∧ live svc.namespacedHostname = some svc
    ∧ s.getByNamespacedHost svc.namespacedHostname = some svc

/-- The hostname index has what is live. -/
structure Tracks (live : LiveServices) (s : ServiceStore) : Prop where
  keys : HostKeys s
  get : ∀ name, s.getByNamespacedHost name = live name

variable {s : ServiceStore} {live : LiveServices} {ws : List Workload} {e : WorkloadByAddr}

theorem getByNamespacedHost_remove (hs : HostKeys s) (nh name : NamespacedHostname) :
    (s.remove nh).1.getByNamespacedHost name
      = if name = nh then none else s.getByNamespacedHost name := by
  refine Option.ext fun svc => ?_
  rw [getByNamespacedHost_eq_some (hostKeys_remove hs nh), listed_remove hs]
  split
  · next h =>
    subst h
    simp
  · next h =>
    rw [getByNamespacedHost_eq_some hs]
    grind

theorem getByNamespacedHost_insert (hs : HostKeys s) (service : Service)
    (name : NamespacedHostname) : (s.insert service).getByNamespacedHost name
      = if name = service.namespacedHostname then some service else s.getByNamespacedHost name := by
  refine Option.ext fun svc => ?_
  rw [getByNamespacedHost_eq_some (hostKeys_insert hs service), listed_insert hs]
  split
  · grind
  · rw [getByNamespacedHost_eq_some hs]
    grind

theorem Tracks.run (h : Tracks live s) (c : ServiceChange) : Tracks (c.live live) (c.run s) := by
  cases c with
  | insert service =>
    refine ⟨hostKeys_insert h.keys service, fun name => ?_⟩
    rw [ServiceChange.run, getByNamespacedHost_insert h.keys, h.get]
    exact (Function.update_apply ..).symm
  | remove nh =>
    refine ⟨hostKeys_remove h.keys nh, fun name => ?_⟩
    rw [ServiceChange.run, getByNamespacedHost_remove h.keys, h.get]
    exact (Function.update_apply ..).symm

theorem getByVip_remove (s : ServiceStore) (nh : NamespacedHostname) (v : NetworkAddress) :
    (s.remove nh).1.getByVip v
      = if ∃ prev ∈ s.getByNamespacedHost nh, v ∈ prev.vips then none else s.getByVip v := by
  unfold ServiceStore.remove ServiceStore.getByNamespacedHost ServiceStore.getByVip
  cases s.byHost.get? nh.hostname with
  | none => simp
  | some services =>
    dsimp only
    split
    · next hfind => simp [hfind]
    · next prev hfind =>
      refine (get?_foldl (r := none) (fun m k k' => get?_erase m k k') _ _ _).trans ?_
      simp [hfind]

theorem getByVip_run (h : Tracks live s) (c : ServiceChange) (v : NetworkAddress) :
    (c.run s).getByVip v = if ∃ svc ∈ c.value, v ∈ svc.vips then c.value
      else if ∃ prev ∈ live c.key, v ∈ prev.vips then none else s.getByVip v := by
  rw [← h.get]
  cases c with
  | insert service =>
    refine (get?_foldl (r := some service) (fun m k k' => get?_insert m k k' service)
      _ _ _).trans ?_
    rw [← ServiceStore.getByVip, getByVip_remove]
    simp [Change.value, ServiceChange.key, Change.keyBy]
  | remove nh =>
    rw [ServiceChange.run, getByVip_remove]
    simp [Change.value, ServiceChange.key, Change.keyBy]

/-- One change keeps the index right exactly when no address goes that is
listed elsewhere. -/
theorem vipsExact_run (ht : Tracks live s) (h : VipsExact live s) (c : ServiceChange) :
    VipsExact (c.live live) (c.run s) ↔ c.Keeps live := by
  have hlive : ∀ name, c.live live name = if name = c.key then c.value else live name :=
    fun name => Function.update_apply ..
  have hkey : ∀ svc ∈ c.value, svc.namespacedHostname = c.key := by
    cases c <;> simp [Change.value, ServiceChange.key, Change.keyBy]
  constructor
  · intro h' prev hprev v hv hnew name hname svc hsvc hmem
    refine h'.complete name svc ?_ v hmem ?_
    · rw [hlive, if_neg hname]
      exact hsvc
    · rw [getByVip_run ht, if_neg (by grind), if_pos ⟨prev, hprev, hv⟩]
  · intro hkeeps
    refine ⟨fun name svc hsvc v hv => ?_, fun v svc hget => ?_⟩
    · rw [Option.mem_def, hlive] at hsvc
      rw [getByVip_run ht]
      split
      · next hnew =>
        obtain ⟨w, hw, -⟩ := hnew
        simp [Option.mem_def.1 hw]
      · next hnew =>
        by_cases hname : name = c.key
        · rw [if_pos hname] at hsvc
          exact absurd ⟨svc, hsvc, hv⟩ hnew
        · rw [if_neg hname] at hsvc
          rw [if_neg]
          · exact h.complete name svc hsvc v hv
          · rintro ⟨prev, hprev, hmem⟩
            exact hkeeps prev hprev v hmem (fun w hw hw' => hnew ⟨w, hw, hw'⟩)
              name hname svc hsvc hv
    · rw [(ht.run c).get, and_self_iff, hlive]
      rw [getByVip_run ht] at hget
      split at hget
      · next hnew =>
        obtain ⟨w, hw, hmem⟩ := hnew
        cases Option.some.inj (hw.symm.trans hget)
        exact ⟨hmem, by rw [if_pos (hkey svc hw)]; exact hw⟩
      · split at hget
        · cases hget
        · next hold =>
          obtain ⟨hmem, hsvc, -⟩ := h.sound v svc hget
          refine ⟨hmem, ?_⟩
          rw [if_neg]
          · exact hsvc
          · intro heq
            rw [heq] at hsvc
            exact hold ⟨svc, hsvc, hmem⟩

/-- The index is right all along exactly when no address goes that another live
service lists. A change makes an object of its own out of the service it is
given: whether two are the same can be told by any field that tells the
changes apart. -/
theorem vips_exact_iff (changes : List ServiceChange) : (∀ before after, changes = before ++ after →
      VipsExact (before.foldl ServiceChange.live fun _ => none)
        (before.foldl ServiceChange.run .empty))
      ↔ RunOk ServiceChange.live ServiceChange.Keeps (fun _ => none) changes := by
  suffices hrun : ∀ live s, Tracks live s → VipsExact live s →
      ((∀ before after, changes = before ++ after →
        VipsExact (before.foldl ServiceChange.live live) (before.foldl ServiceChange.run s))
        ↔ RunOk ServiceChange.live ServiceChange.Keeps live changes) from
    hrun _ _ ⟨hostKeys_empty, fun _ => rfl⟩ ⟨nofun, nofun⟩
  induction changes with
  | nil =>
    intro live s _ h
    simpa [RunOk] using h
  | cons c changes ih =>
    intro live s ht h
    have hstep := vipsExact_run ht h c
    constructor
    · intro hall
      have hc := hall [c] changes rfl
      refine ⟨hstep.1 hc, (ih _ _ (ht.run c) hc).1 fun before after heq => ?_⟩
      exact hall (c :: before) after (by rw [heq]; rfl)
    · intro hok before after heq
      cases before with
      | nil => exact h
      | cons c' before =>
        cases heq
        exact (ih _ _ (ht.run c) (hstep.2 hok.1)).2 hok.2 before after rfl

def sharing (hostname : Strng) : Service :=
  ⟨hostname, "ns", hostname, [⟨"", .v4 #v[10, 0, 0, 1]⟩], empty, empty, 0, none, none, none⟩

/-- Two services list an address, and one of them goes. -/
theorem vip_lost : ¬ VipsExact
    ([.insert (sharing "a"), .insert (sharing "b"), .remove ⟨"ns", "b"⟩].foldl
      ServiceChange.live fun _ => none)
    ([.insert (sharing "a"), .insert (sharing "b"), .remove ⟨"ns", "b"⟩].foldl
      ServiceChange.run .empty) := by
  intro h
  exact h.complete ⟨"ns", "a"⟩ (sharing "a") (by decide) _ (List.mem_singleton_self _) (by decide)

-- ======== workloads

/-- What to prefer where workloads share an address: pods, then HBONE. -/
def Workload.rank (w : Workload) : Nat :=
  match decide ("//Pod/".toList <:+: w.uid.toList), decide (w.protocol = .hbone) with
  | true, true => 3
  | true, false => 2
  | false, true => 1
  | false, false => 0

namespace WorkloadByAddr

/-- It panics where there is none. -/
def get : WorkloadByAddr → Option Workload
  | .single workload => some workload
  | .many workloads => Endpoints.maxBy (fun a b => compare a.rank b.rank) workloads

def workloads : WorkloadByAddr → List Workload
  | .single workload => [workload]
  | .many workloads => workloads

end WorkloadByAddr

namespace WorkloadStore

/-- The inner `none` is a panic. -/
def findAddress (s : WorkloadStore) (addr : NetworkAddress) : Option (Option Workload) :=
  (s.byAddr.get? addr).map WorkloadByAddr.get

def change (s : WorkloadStore) : Change Strng Workload → WorkloadStore
  | .insert w => s.insert w
  | .remove uid => (s.remove uid).1

end WorkloadStore

/-- At an address one of the best live workloads is found that have it; a
service has each live workload once that names it. -/
structure WorkloadsExact (live : Strng → Option Workload) (s : WorkloadStore) : Prop where
  found : ∀ a r, s.findAddress a = some r → ∃ w, r = some w ∧ live w.uid = some w
    ∧ a ∈ w.addresses ∧ ∀ w', live w'.uid = some w' → a ∈ w'.addresses → w'.rank ≤ w.rank
  complete : ∀ a w, live w.uid = some w → a ∈ w.addresses → s.findAddress a ≠ none
  members : ∀ svc w, w ∈ s.iterByService svc ↔ live w.uid = some w ∧ svc ∈ w.services.keys
  once : ∀ svc, (s.iterByService svc).Nodup
  full : ∀ a e, s.byAddr.get? a = some e → e.workloads ≠ []

theorem maxBy_rank {w : Workload}
    (h : Endpoints.maxBy (fun a b => compare a.rank b.rank) ws = some w) :
    ∀ w' ∈ ws, w'.rank ≤ w.rank := by
  cases ws with
  | nil => cases h
  | cons w₀ ws =>
    cases h
    induction ws generalizing w₀ with
    | nil => simp
    | cons w₁ ws ih =>
      rw [List.foldl_cons]
      simp only [List.forall_mem_cons] at ih ⊢
      split
      · next hgt =>
        have hlt : w₁.rank < w₀.rank := Nat.compare_eq_gt.1 hgt
        exact ⟨(ih w₀).1, by have := (ih w₀).1; omega, (ih w₀).2⟩
      · next hle =>
        have hle : ¬ w₁.rank < w₀.rank := mt Nat.compare_eq_gt.2 hle
        exact ⟨by have := (ih w₁).1; omega, ih w₁⟩

theorem get_best (h : e.workloads ≠ []) :
    ∃ w, e.get = some w ∧ w ∈ e.workloads ∧ ∀ w' ∈ e.workloads, w'.rank ≤ w.rank := by
  cases e with
  | single w => exact ⟨w, rfl, List.mem_singleton_self w, by simp [WorkloadByAddr.workloads]⟩
  | many ws =>
    obtain ⟨w₀, hw₀⟩ := List.exists_mem_of_ne_nil ws h
    obtain ⟨w, hw⟩ := Option.isSome_iff_exists.1 (Endpoints.EndpointSet.maxBy_isSome hw₀)
    exact ⟨w, hw, Endpoints.EndpointSet.maxBy_mem hw, maxBy_rank hw⟩

theorem workloads_of_entryFor (h : entryFor ws = some e) : e.workloads = ws ∧ ws ≠ [] := by
  match ws with
  | [] => cases h
  | [_] | _ :: _ :: _ =>
    cases h
    exact ⟨rfl, List.cons_ne_nil _ _⟩

theorem workloadsExact_of_holds {s : WorkloadStore} (hs : WorkloadInv s)
    (h : HoldsWorkloads ws s) : WorkloadsExact s.byUid.get? s := by
  have hlist : ∀ {a w}, w ∈ ws.flatMap (Workload.at a)
      ↔ s.byUid.get? w.uid = some w ∧ a ∈ w.addresses := by
    intro a w
    simp only [h.byUid, Workload.at, List.mem_flatMap, List.mem_map, List.mem_filter]
    grind
  have hentry : ∀ {a e}, s.byAddr.get? a = some e → e.workloads = ws.flatMap (Workload.at a)
      ∧ ws.flatMap (Workload.at a) ≠ [] :=
    fun he => workloads_of_entryFor ((h.byAddr _).symm.trans he)
  refine ⟨fun a r hr => ?_, fun a w hw ha hnone => ?_, fun svc w => mem_iterByService hs,
    fun svc => (iterByService_nodup hs svc).of_map _, fun a e he => ?_⟩
  · obtain ⟨e, he, rfl⟩ := Option.map_eq_some_iff.1 hr
    obtain ⟨heq, hne⟩ := hentry he
    obtain ⟨w, hget, hw, hbest⟩ := get_best (heq ▸ hne)
    rw [heq] at hw hbest
    obtain ⟨hlive, ha⟩ := hlist.1 hw
    exact ⟨w, hget, hlive, ha, fun w' hw' ha' => hbest w' (hlist.2 ⟨hw', ha'⟩)⟩
  · have hempty := (h.byAddr a).symm.trans (Option.map_eq_none_iff.1 hnone)
    have hin := hlist.2 ⟨hw, ha⟩
    cases hat : ws.flatMap (Workload.at a) with
    | nil =>
      rw [hat] at hin
      cases hin
    | cons w₀ rest =>
      rw [hat] at hempty
      cases rest <;> cases hempty
  · obtain ⟨heq, hne⟩ := hentry he
    exact heq ▸ hne

/-- Whatever is inserted and removed, the lookups are exact. -/
theorem workloads_exact (changes : List (Change Strng Workload)) :
    WorkloadsExact (changes.foldl (Change.apply Workload.uid) fun _ => none)
      (changes.foldl WorkloadStore.change .empty) := by
  suffices h : ∀ (s : WorkloadStore) ws, WorkloadInv s → HoldsWorkloads ws s → WorkloadsExact
      (changes.foldl (Change.apply Workload.uid) s.byUid.get?)
      (changes.foldl WorkloadStore.change s) from
    h .empty [] workloadInv_empty holdsWorkloads_empty
  induction changes with
  | nil => exact fun s ws => workloadsExact_of_holds
  | cons c changes ih =>
    intro s ws hs h
    have hlive : Change.apply Workload.uid s.byUid.get? c = (s.change c).byUid.get? := by
      funext uid
      cases c with
      | insert w => exact (Function.update_apply ..).trans (byUid_insert s w uid).symm
      | remove uid' => exact (Function.update_apply ..).trans (byUid_remove s uid' uid).symm
    rw [List.foldl_cons, hlive]
    cases c with
    | insert w => exact ih _ _ (workloadInv_insert hs w) (h.insert w)
    | remove uid => exact ih _ _ (workloadInv_remove hs uid) (h.remove uid)

end AgentGateway.Discovery
