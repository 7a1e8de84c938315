/-
Reload of the configuration file (`LocalClient` in `state_manager.rs`), and
what failed reloads leave behind.

An attempt reads and parses the file, syncs the binds, then syncs
workloads and services. Each store is written where it is, and what to
remove next time is remembered only when the attempt comes to its end: a
failure in the last step leaves both stores changed and the memory as it
was.

Beside the client goes a ghost: the last configuration that was loaded,
and the routes that may be in the store, its own and those of the
attempts that failed since. Between two attempts (`Between`) what the
stores hold is within what the last configuration names, so that the next
load that succeeds accounts for all of it.

That is where the conditions on an attempt come from (`AttemptOk`). One
that will fail must name nothing new, since nothing it names is
remembered (`failed_attempt_leaves_route` is a run where it does). One
that will succeed must meet the conditions of the two stores on
consecutive configurations.

# Left out

Watching the file: a run is the sequence of attempts that the watcher
starts. A process whose first attempt fails does not start; the model
goes on from there as from any other failure.
-/
import AgentGateway.Binds.Proofs.LocalReload
import AgentGateway.Discovery.Proofs.LocalReload

namespace AgentGateway.StateManager

variable {P B : Type}

structure Stores (P B : Type) where
  binds : Binds.Store P B
  discovery : Discovery.Store

structure PreviousState where
  binds : Binds.PreviousState
  discovery : Discovery.PreviousState

def PreviousState.default : PreviousState := ⟨.default, .default⟩

/-- The parts of the parsed file that are synced. -/
structure NormalizedLocalConfig (P B : Type) where
  binds : Binds.LocalConfig P B
  discovery : Discovery.LocalConfig

inductive ReloadError
  | config
  | discovery (e : Discovery.ProtoError)

/-- `reload_config`, on what reading and parsing the file gave. -/
def Stores.reloadConfig (stores : Stores P B)
    (config : Option (NormalizedLocalConfig P B)) (prev : PreviousState) :
    Option (Stores P B × Except ReloadError PreviousState) :=
  match config with
  | none => some (stores, .error .config)
  | some config => do
      let (binds, nextBinds) ← stores.binds.syncLocal config.binds prev.binds
      match stores.discovery.syncLocal config.discovery prev.discovery with
      | (discovery, .error e) =>
        some (⟨binds, discovery⟩, .error (.discovery e))
      | (discovery, .ok nextDiscovery) =>
        some (⟨binds, discovery⟩, .ok ⟨nextBinds, nextDiscovery⟩)

structure LocalClient (P B : Type) where
  stores : Stores P B
  nextState : PreviousState

namespace LocalClient

def new (ipv6Enabled : Bool) (selfWorkload : Option Discovery.Workload) : LocalClient P B :=
  ⟨⟨.empty ipv6Enabled, .new selfWorkload⟩, .default⟩

/-- One turn of the watch loop. -/
def reload (c : LocalClient P B)
    (config : Option (NormalizedLocalConfig P B)) : Option (LocalClient P B) := do
  let (stores, res) ← c.stores.reloadConfig config c.nextState
  match res with
  | .ok nxt => some ⟨stores, nxt⟩
  | .error _ => some ⟨stores, c.nextState⟩

def run (ipv6Enabled : Bool) (selfWorkload : Option Discovery.Workload)
    (configs : List (Option (NormalizedLocalConfig P B))) : Option (LocalClient P B) :=
  configs.foldlM reload (new ipv6Enabled selfWorkload)

end LocalClient

open Lib Slots Routes Binds

variable {P B : Type} {src : Option Discovery.Workload}

-- ======== ghost

namespace NormalizedLocalConfig

def empty : NormalizedLocalConfig P B := ⟨.empty, .empty⟩

/-- What a load of the configuration remembers. -/
def named (cfg : NormalizedLocalConfig P B) : PreviousState :=
  ⟨cfg.binds.named, cfg.discovery.named⟩

/-- Everything the configuration inserts has a key that `last` names. -/
structure Covered (cfg last : NormalizedLocalConfig P B) : Prop where
  binds : ∀ k ∈ cfg.binds.bindKeys, k ∈ last.binds.bindKeys
  backends : ∀ k ∈ cfg.binds.backendKeys, k ∈ last.binds.backendKeys
  policies : ∀ k ∈ cfg.binds.policyKeys, k ∈ last.binds.policyKeys
  http : ∀ {t k}, cfg.binds.HasRoute t k → last.binds.HasRoute t k
  tcp : ∀ {t k}, cfg.binds.HasTcpRoute t k → last.binds.HasTcpRoute t k
  workloads : ∀ uid ∈ cfg.discovery.uids, uid ∈ last.discovery.uids

end NormalizedLocalConfig

structure Ghost (P B : Type) where
  last : NormalizedLocalConfig P B
  routes : List (RouteTarget × Route)

def Ghost.initial : Ghost P B := ⟨.empty, []⟩

def Ghost.next (g : Ghost P B) : Option (NormalizedLocalConfig P B) → Ghost P B
  | none => g
  | some cfg =>
    if cfg.discovery.Accepted then ⟨cfg, cfg.binds.httpRoutes⟩
    else ⟨g.last, g.routes ++ cfg.binds.httpRoutes⟩

def AttemptOk (g : Ghost P B) : Option (NormalizedLocalConfig P B) → Prop
  | none => True
  | some cfg =>
    Tidy (g.routes ++ cfg.binds.httpRoutes) ∧ if cfg.discovery.Accepted then
          ReloadOk g.last.binds cfg.binds ∧ Discovery.VipsApart
              (g.last.discovery.services ++ cfg.discovery.services)
        else cfg.Covered g.last

def AttemptsOk (configs : List (Option (NormalizedLocalConfig P B))) : Prop :=
  RunOk Ghost.next AttemptOk Ghost.initial configs

/-- The state between two attempts. -/
structure Between (src : Option Discovery.Workload) (c : LocalClient P B)
    (g : Ghost P B) : Prop where
  remembered : c.nextState = g.last.named
  binds : ∃ held, Holds g.routes c.stores.binds held ∧ held.Within g.last.binds
  discovery : Discovery.Kept src g.last.discovery c.stores.discovery

-- ======== steps

theorem mem_of_reload {A I V : Type} [DecidableEq I] {slot : A → I}
    {val : A → V} {l : List A} {f : I → Option V} {gone : I → Prop}
    [DecidablePred gone] {i : I} {v : V} (named : I → Prop)
    (hv : clear gone (putAll slot val f l) i = some v)
    (hl : ∀ a ∈ l, named (slot a)) (hf : ∀ {v}, f i = some v → named i) : named i := by
  rcases mem_of_putAll (of_clear hv) with ⟨a, ha, rfl, -⟩ | hbefore
  · exact hl a ha
  · exact hf hbefore

variable {cfg : NormalizedLocalConfig P B} {c : LocalClient P B} {g : Ghost P B}
  {routes : List RouteKey} {service : Strng} {routes' : List RouteKey} {service' : Strng}

theorem within_reload {held : Held P B} {last : NormalizedLocalConfig P B}
    (h : held.Within last.binds) (hcfg : cfg.Covered last) (prev : Binds.PreviousState) :
    (held.reload cfg.binds prev).Within last.binds := by
  unfold Held.reload
  refine ⟨fun {k b} hv => ?_, fun {k b} hv => ?_, fun {k pol} hv => ?_,
    fun {t k r} hv => ?_, fun {t k r} hv => ?_⟩ <;> dsimp only at hv
  · refine mem_of_reload (· ∈ last.binds.bindKeys) hv (fun a ha => ?_) h.binds
    exact hcfg.binds _ (List.mem_map_of_mem ha)
  · refine mem_of_reload (· ∈ last.binds.backendKeys) hv (fun a ha => ?_) h.backends
    exact hcfg.backends _ (List.mem_map_of_mem ha)
  · refine mem_of_reload (· ∈ last.binds.policyKeys) hv (fun a ha => ?_) h.policies
    exact hcfg.policies _ (List.mem_map_of_mem ha)
  · refine mem_of_reload (fun i : RouteTarget × RouteKey =>
      last.binds.HasRoute i.1 i.2) (of_clear hv) (fun a ha => ?_) h.http
    exact hcfg.http ⟨a.2, ha, rfl⟩
  · refine mem_of_reload (fun i : RouteTarget × RouteKey =>
      last.binds.HasTcpRoute i.1 i.2) hv (fun a ha => ?_) h.tcp
    exact hcfg.tcp ⟨a.2, ha, rfl⟩

/-- The binds go through their part of an attempt, whether the rest
succeeds or not. -/
theorem Between.syncBinds (h : Between src c g) (cfg : NormalizedLocalConfig P B)
    (htidy : Tidy (g.routes ++ cfg.binds.httpRoutes)) :
    ∃ (held : Held P B) (s' : Store P B), held.Within g.last.binds
      ∧ c.stores.binds.syncLocal cfg.binds c.nextState.binds
        = some (s', cfg.binds.named) ∧ Holds (g.routes ++ cfg.binds.httpRoutes) s'
        (held.reload cfg.binds g.last.binds.named) := by
  obtain ⟨held, hholds, hwithin⟩ := h.binds
  obtain ⟨s', hs', h'⟩ := hholds.syncLocal c.nextState.binds htidy
  rw [h.remembered] at h'
  exact ⟨held, s', hwithin, hs', h'⟩

/-- The stores right after `cfg` was loaded. -/
structure LoadedStores (src : Option Discovery.Workload)
    (cfg : NormalizedLocalConfig P B) (stores : Stores P B) : Prop where
  binds : Holds cfg.binds.httpRoutes stores.binds cfg.binds.held
  discovery : Discovery.Loaded src cfg.discovery stores.discovery

theorem Between.load (h : Between src c g) (hok : AttemptOk g (some cfg))
    (hacc : cfg.discovery.Accepted) : ∃ stores, c.stores.reloadConfig (some cfg) c.nextState
        = some (stores, .ok cfg.named) ∧ LoadedStores src cfg stores := by
  obtain ⟨htidy, hcond⟩ := hok
  rw [if_pos hacc] at hcond
  obtain ⟨held, s', hwithin, hs', hholds⟩ := h.syncBinds cfg htidy
  obtain ⟨st', hst', hloaded⟩ := Discovery.kept_reload h.discovery hacc hcond.2
  rw [reload_held hwithin hcond.1] at hholds
  refine ⟨⟨s', st'⟩, ?_, hholds.rebound held_within, hloaded⟩
  unfold Stores.reloadConfig
  dsimp only
  rw [hs']
  rw [show c.nextState.discovery = g.last.discovery.named by
    rw [h.remembered]
    rfl, hst']
  rfl

theorem Between.fail (h : Between src c g) (hok : AttemptOk g (some cfg))
    (hfail : ¬ cfg.discovery.Accepted) :
    ∃ stores e, c.stores.reloadConfig (some cfg) c.nextState = some (stores, .error e)
      ∧ Between src ⟨stores, c.nextState⟩ (g.next (some cfg)) := by
  obtain ⟨htidy, hcond⟩ := hok
  rw [if_neg hfail] at hcond
  obtain ⟨held, s', hwithin, hs', hholds⟩ := h.syncBinds cfg htidy
  obtain ⟨st', e, hst', hkept⟩ := Discovery.kept_failed h.discovery hfail
    hcond.workloads c.nextState.discovery
  refine ⟨⟨s', st'⟩, .discovery e, ?_, ?_⟩
  · unfold Stores.reloadConfig
    dsimp only
    rw [hs']
    dsimp only [Option.bind_eq_bind, Option.bind_some]
    rw [hst']
  · unfold Ghost.next
    dsimp only
    rw [if_neg hfail]
    exact ⟨h.remembered, ⟨_, hholds, within_reload hwithin hcond _⟩, hkept⟩

theorem between_step {config : Option (NormalizedLocalConfig P B)} (h : Between src c g)
    (hok : AttemptOk g config) :
    ∃ c', c.reload config = some c' ∧ Between src c' (g.next config) := by
  cases config with
  | none => exact ⟨c, rfl, h⟩
  | some cfg =>
    unfold LocalClient.reload
    by_cases hacc : cfg.discovery.Accepted
    · obtain ⟨stores, hrun, hloaded⟩ := h.load hok hacc
      refine ⟨⟨stores, cfg.named⟩, ?_, ?_⟩
      · rw [hrun]
        rfl
      · unfold Ghost.next
        dsimp only
        rw [if_pos hacc]
        exact ⟨rfl, ⟨_, hloaded.binds, held_within_self _⟩, hloaded.discovery.kept⟩
    · obtain ⟨stores, e, hrun, hbetween⟩ := h.fail hok hacc
      refine ⟨_, ?_, hbetween⟩
      rw [hrun]
      rfl

theorem between_new (ipv6Enabled : Bool) :
    Between src (LocalClient.new ipv6Enabled src : LocalClient P B) Ghost.initial where
  remembered := rfl
  binds := ⟨_, holds_empty ipv6Enabled, held_within_self _⟩
  discovery := Discovery.loaded_new.kept

-- ======== result

/-- Both stores answer every lookup alike. -/
structure SameStores (s s' : Stores P B) : Prop where
  binds : Binds.SameContent s.binds s'.binds
  discovery : Discovery.SameContent s.discovery s'.discovery

theorem attemptOk_first (hacc : cfg.discovery.Accepted) (hok : AttemptOk g (some cfg)) :
    AttemptOk Ghost.initial (some cfg) := by
  obtain ⟨htidy, hcond⟩ := hok
  rw [if_pos hacc] at hcond
  have hown : Tidy cfg.binds.httpRoutes := fun t r r' hr hr' =>
    htidy (List.mem_append_right _ hr) (List.mem_append_right _ hr')
  refine ⟨hown, ?_⟩
  rw [if_pos hacc]
  refine ⟨reloadOk_first hown, hcond.2.subset fun svc hsvc => ?_⟩
  exact List.mem_append_right _ hsvc

/-- After any attempts that meet the condition, some of which may fail, a
load that succeeds gives the stores of its configuration alone. -/
theorem failed_attempts_leave_nothing (ipv6Enabled : Bool) (src : Option Discovery.Workload)
    (configs : List (Option (NormalizedLocalConfig P B))) (cfg : NormalizedLocalConfig P B)
    (hok : AttemptsOk (configs ++ [some cfg])) :
    ∃ c, LocalClient.run ipv6Enabled src configs = some c
      ∧ ∀ stores nxt, c.stores.reloadConfig (some cfg) c.nextState = some (stores, .ok nxt) →
        ∃ fresh, LocalClient.run ipv6Enabled src [some cfg] = some fresh
          ∧ SameStores stores fresh.stores := by
  obtain ⟨hbefore, hlast⟩ := runOk_append.1 hok
  obtain ⟨c, hrun, hbetween⟩ := foldlM_runOk between_step configs (between_new ipv6Enabled) hbefore
  refine ⟨c, hrun, fun stores nxt hres => ?_⟩
  by_cases hacc : cfg.discovery.Accepted
  · obtain ⟨stores₁, hload, hloaded⟩ := hbetween.load hlast.1 hacc
    rw [hload] at hres
    cases hres
    obtain ⟨stores₂, hfresh, hloaded'⟩ := (between_new ipv6Enabled).load
      (attemptOk_first hacc hlast.1) hacc
    refine ⟨⟨stores₂, cfg.named⟩, ?_, hloaded.binds.same hloaded'.binds,
      hloaded.discovery.same hloaded'.discovery⟩
    unfold LocalClient.run LocalClient.reload
    rw [List.foldlM_cons, hfresh]
    rfl
  · obtain ⟨stores₁, e, hload, -⟩ := hbetween.fail hlast.1 hacc
    rw [hload] at hres
    cases hres

def sampleWorkload (service : Strng) : Discovery.LocalWorkload where
  workload := {
    workloadIps := []
    waypoint := none
    networkGateway := none
    protocol := .tcp
    networkMode := .standard
    uid := "w"
    name := "w"
    ns := "ns"
    network := ""
    node := ""
    status := .healthy
    clusterId := ""
    locality := default
    services := AssocMap.empty
    capacity := 1 }
  services := AssocMap.ofList [(service, AssocMap.empty)]
  flattened := rfl

/-- A listener with the routes, and the workload. -/
def sampleFile (routes : List RouteKey) (service : Strng) : NormalizedLocalConfig Unit Unit :=
  ⟨sampleConfig routes [], ⟨[], [sampleWorkload service]⟩⟩

theorem sampleFile_tidy {before : List (RouteTarget × Route)}
    (h : ∀ x ∈ before, x.2.matches_ ≠ []) :
    Tidy (before ++ (sampleFile routes service).binds.httpRoutes) := by
  refine tidy_of_matches fun x hx => ?_
  rcases List.mem_append.1 hx with hx | hx
  · exact h x hx
  · exact sampleConfig_matches hx

theorem sampleFile_hasRoute {t : RouteTarget} {k : RouteKey} :
    (sampleFile routes service).binds.HasRoute t k ↔ t = .listener "l" ∧ k ∈ routes := by
  simp [sampleFile, sampleConfig_hasRoute]

theorem sampleFile_covered (h : ∀ k ∈ routes', k ∈ routes) :
    (sampleFile routes' service').Covered (sampleFile routes service) where
  binds := nofun
  backends := nofun
  policies := nofun
  http := by
    intro t k hk
    rw [sampleFile_hasRoute] at hk ⊢
    exact ⟨hk.1, h k hk.2⟩
  tcp := nofun
  workloads := fun _ hk => hk

theorem sampleFile_reloadOk :
    ReloadOk (sampleFile routes service).binds (sampleFile routes' service').binds where
  moved := by
    intro l k hk hnew
    rw [sampleFile, sampleConfig_routeKeys] at hnew
    rw [sampleFile_hasRoute] at hk ⊢
    exact ⟨hk.1, hnew⟩
  movedTcp := nofun
  shrunk g k hk := nomatch (sampleFile_hasRoute.1 hk).1
  shared g k hk := nomatch (sampleFile_hasRoute.1 hk).1
  tidy := sampleFile_tidy fun _ hx => sampleConfig_matches hx

/-- Two routes are loaded, the file is then unreadable, then it has a name
that does not parse, and at last one route is left. -/
theorem failed_attempts_leave_nothing_sample :
    ∃ c, LocalClient.run false none [some (sampleFile ["a", "b"] "ns/svc"), none,
        some (sampleFile ["b"] "svc")] = some c ∧ ∀ stores nxt, c.stores.reloadConfig
          (some (sampleFile ["a"] "ns/svc")) c.nextState = some (stores, .ok nxt) →
        ∃ fresh, LocalClient.run false none [some (sampleFile ["a"] "ns/svc")]
            = some fresh ∧ SameStores stores fresh.stores := by
  have hacc : ∀ routes, (sampleFile routes "ns/svc").discovery.Accepted :=
    fun routes => by
      have : (⟨[], [sampleWorkload "ns/svc"]⟩ : Discovery.LocalConfig).Accepted := by
        decide
      exact this
  have hfail : ¬ (sampleFile ["b"] "svc").discovery.Accepted := by
    have : ¬ (⟨[], [sampleWorkload "svc"]⟩ : Discovery.LocalConfig).Accepted := by
      decide
    exact this
  have hapart : Discovery.VipsApart [] := nofun
  refine failed_attempts_leave_nothing false none
    [some (sampleFile ["a", "b"] "ns/svc"), none, some (sampleFile ["b"] "svc")]
    (sampleFile ["a"] "ns/svc") ?_
  unfold AttemptsOk
  simp only [List.cons_append, List.nil_append, RunOk, Ghost.next, AttemptOk,
    hacc, hfail, ↓reduceIte, and_true, true_and]
  refine ⟨⟨sampleFile_tidy nofun,
    reloadOk_first (tidy_of_matches fun x hx => sampleConfig_matches hx), hapart⟩,
    ⟨?_, sampleFile_covered (by decide)⟩, ?_, sampleFile_reloadOk, hapart⟩
  · exact sampleFile_tidy fun x hx => sampleConfig_matches hx
  · refine sampleFile_tidy fun x hx => ?_
    rcases List.mem_append.1 hx with hx | hx <;> exact sampleConfig_matches hx

/-- The binds of a failed attempt stay: a route it added outlives the next
successful load, which does not have it. -/
theorem failed_attempt_leaves_route :
    ¬ ∀ (configs : List (Option (NormalizedLocalConfig Unit Unit)))
      (cfg : NormalizedLocalConfig Unit Unit) (c : LocalClient Unit Unit)
      (stores : Stores Unit Unit) (nxt : PreviousState),
      LocalClient.run false none configs = some c →
      c.stores.reloadConfig (some cfg) c.nextState = some (stores, .ok nxt) →
      ∃ fresh, LocalClient.run false none [some cfg] = some fresh
        ∧ SameStores stores fresh.stores := by
  intro hall
  obtain ⟨fresh, hfresh, hsame⟩ := hall [some (sampleFile ["a"] "ns/svc"),
    some (sampleFile ["a", "b"] "svc")] (sampleFile ["a"] "ns/svc") _ _ _ rfl rfl
  cases hfresh
  have hroutes := ((hsame.binds.http (.listener "l")).2 _ _ rfl rfl).1 "b"
  cases hroutes

end AgentGateway.StateManager
