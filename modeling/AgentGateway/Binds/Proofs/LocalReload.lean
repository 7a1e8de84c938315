/-
A reload of a local configuration against a fresh load.

`Held` is what a store holds, slot by slot: a bind, backend or policy
under its key, a route under its target and key. A load of a
configuration is seen on it as filling slots and clearing others
(`holds_syncLocal`, the simulation), and the general fact about reloads
by difference says when the outcome is that of the configuration alone.

`ReloadOk` is that condition for two consecutive configurations. What it
excludes are the places where the remembered keys are coarser than the
slots:

- route keys are remembered for all listeners at once, so a route that
  moves from one listener to another stays with the first;
- a route group is remembered as a whole, so one that loses a route keeps
  it (`shrunk_group_keeps_route`);
- a route no listener has any more is removed from every target, also
  from a group that still has it;
- a route without matches may be dropped with a neighbour, as in the
  control-plane case.
-/
import AgentGateway.Binds.Proofs.Live

namespace AgentGateway.Binds

open Routes Lib Slots List

variable {P B : Type} {among : List (RouteTarget × Route)} {s : Store P B}

-- ======== held

structure Held (P B : Type) where
  binds : BindKey → Option Bind
  backends : BackendKey → Option (BackendWithPolicies B)
  policies : PolicyKey → Option (TargetedPolicy P)
  http : RouteTarget × RouteKey → Option Route
  tcp : RouteTarget × RouteKey → Option TCPRoute

def httpSlot (x : RouteTarget × Route) : RouteTarget × RouteKey :=
  (x.1, x.2.key)

def tcpSlot (x : RouteTarget × TCPRoute) : RouteTarget × RouteKey :=
  (x.1, x.2.key)

/-- The store holds `held`, its HTTP routes among `among`. -/
structure Holds (among : List (RouteTarget × Route)) (s : Store P B) (held : Held P B) : Prop where
  -- local binds come with their listeners, so nothing ever waits
  pending : ∀ key, s.pendingListeners.get? key = none
  binds : ∀ key, s.binds.get? key = held.binds key
  backends : ∀ key, s.backends.get? key = held.backends key
  policies : ∀ key, s.policiesByKey.get? key = held.policies key
  targets : ∀ t key, (attachedIn s.policiesByTarget t).contains key
    ↔ ∃ pol, held.policies key = some pol ∧ pol.target = t
  http : IndexTable.TableInv routeIndex s.httpRoutes fun t k => held.http (t, k)
  tcp : IndexTable.TableInv tcpRouteIndex s.tcpRoutes fun t k => held.tcp (t, k)
  within : ∀ {t k r}, held.http (t, k) = some r → r.key = k ∧ (t, r) ∈ among

/-- Routes under one target that share a hostname matcher have matches. -/
def Tidy (among : List (RouteTarget × Route)) : Prop :=
  ∀ ⦃t r r'⦄, (t, r) ∈ among → (t, r') ∈ among → r.key ≠ r'.key →
    ∀ h ∈ hostnameMatchers r.hostnames, h ∈ hostnameMatchers r'.hostnames → r'.matches_ ≠ []

theorem tcp_keeps (items : RouteKey → Option TCPRoute) (key : RouteKey)
    (after : List HostnameMatch) : IndexTable.Keeps tcpRouteIndex items key after := by
  intro old _ label _ _ hother
  obtain ⟨k, r, hk, hr, hlabel⟩ := hother
  exact ⟨k, r, hk, hr, hlabel, by simp [tcpRouteIndex]⟩

section Operations

variable
  {held : Held P B} (h : Holds among s held)

include h

-- ======== binds and backends

theorem Holds.insertBind (b : Bind) : Holds among (s.insertBind b)
      { held with binds := put Bind.key id held.binds b } := by
  obtain ⟨epoch, heq⟩ := upsertBind_eq s b.key b
  have hmerged : s.merged b = b := by
    unfold Store.merged Store.waiting
    rw [h.pending]
    rfl
  unfold Store.insertBind
  rw [heq, hmerged]
  refine { h with pending := fun key => ?_, binds := fun key => ?_ }
  · rw [AssocMap.get?_erase_of_none (h.pending _)]
    exact h.pending key
  · exact get?_insert_put h.binds Bind.key b key

theorem Holds.removeBind (key : BindKey) : Holds among (s.removeBind key)
      { held with binds := clear (fun k => k = key) held.binds } := by
  refine { h with binds := fun k => ?_ }
  show (s.binds.erase key).get? k = _
  rw [AssocMap.get?_erase, h.binds]
  rfl

theorem Holds.insertBackend (b : BackendWithPolicies B) :
    Holds among (s.insertBackend b.name b) { held with
        backends := put BackendWithPolicies.name id held.backends b } :=
  { h with backends := get?_insert_put h.backends BackendWithPolicies.name b }

theorem Holds.removeBackend (key : BackendKey) : Holds among (s.removeBackend key)
      { held with backends := clear (fun k => k = key) held.backends } := by
  refine { h with backends := fun k => ?_ }
  show (s.backends.erase key).get? k = _
  rw [AssocMap.get?_erase, h.backends]
  rfl

-- ======== policies

theorem Holds.insertPolicy (pol : TargetedPolicy P) : Holds among (s.insertPolicy pol)
      { held with policies := put TargetedPolicy.key id held.policies pol } :=
  { h with
    policies := get?_insert_put h.policies TargetedPolicy.key pol
    targets := PolicyIndex.insertPolicy h.targets h.policies pol }

theorem Holds.removePolicy (key : PolicyKey) : Holds among (s.removePolicy key)
      { held with policies := clear (fun k => k = key) held.policies } := by
  have hget : ∀ k, (s.removePolicy key).policiesByKey.get? k
      = clear (fun k => k = key) held.policies k := by
    intro k
    rw [get?_removePolicy, funext h.policies]
  have htargets := PolicyIndex.removePolicy h.targets h.policies key
  unfold Store.removePolicy at *
  cases hold : s.policiesByKey.get? key with
  | some | none =>
    rw [hold] at hget htargets
    exact { h with policies := hget, targets := htargets }

-- ======== routes

theorem keeps_of_tidy (hU : Tidy among) (t : RouteTarget) (key : RouteKey)
    (after : List HostnameMatch) :
    IndexTable.Keeps routeIndex (fun k => held.http (t, k)) key after := by
  intro old hold label hlabel hafter hother
  obtain ⟨k, r, hk, hr, hlabel'⟩ := hother
  obtain ⟨hkey, hmem⟩ := h.within hold
  obtain ⟨hkey', hmem'⟩ := h.within hr
  refine ⟨k, r, hk, hr, hlabel', ?_⟩
  have hne : old.key ≠ r.key := by
    rw [hkey, hkey']
    exact hk.symm
  have hmatches := hU hmem hmem' hne label hlabel hlabel'
  unfold routeIndex
  simpa using hmatches

theorem Holds.insertHttpRouteTarget (hU : Tidy among) (x : RouteTarget × Route) (hx : x ∈ among) :
    ∃ s', s.insertHttpRouteTarget x.1 x.2 = some s'
      ∧ Holds among s' { held with http := put httpSlot Prod.snd held.http x } := by
  obtain ⟨m', hins, hinv⟩ := IndexTable.tableInv_insert
    (fun r => hostnameMatchers_ne_nil r.hostnames) h.http x.1 x.2
    (keeps_of_tidy h hU _ _ _)
  refine ⟨{ s with httpRoutes := m' }, ?_, { h with http := ?_, within := ?_ }⟩
  · unfold Store.insertHttpRouteTarget
    rw [hins]
    rfl
  · convert hinv using 3 with t k
    dsimp only
    rw [put_apply]
    simp only [httpSlot, Prod.mk.injEq]
    rfl
  · intro t k r hr
    dsimp only at hr
    rw [put_apply] at hr
    split at hr
    · next hslot =>
      cases hr
      obtain ⟨ht, hk⟩ := Prod.mk.inj hslot
      exact ⟨hk.symm, ht ▸ hx⟩
    · exact h.within hr

theorem Holds.insertTcpRouteTarget (x : RouteTarget × TCPRoute) :
    ∃ s', s.insertTcpRouteTarget x.1 x.2 = some s'
      ∧ Holds among s' { held with tcp := put tcpSlot Prod.snd held.tcp x } := by
  obtain ⟨m', hins, hinv⟩ := IndexTable.tableInv_insert
    (fun r => hostnameMatchers_ne_nil r.hostnames) h.tcp x.1 x.2
    (tcp_keeps _ _ _)
  refine ⟨{ s with tcpRoutes := m' }, ?_, { h with tcp := ?_ }⟩
  · unfold Store.insertTcpRouteTarget
    rw [hins]
    rfl
  · convert hinv using 3 with t k
    dsimp only
    rw [put_apply]
    simp only [tcpSlot, Prod.mk.injEq]
    rfl

theorem Holds.removeRoute (hU : Tidy among) (key : RouteKey) :
    Holds among (s.removeRoute key) { held with http := clear (fun i => i.2 = key) held.http } := by
  have hinv := IndexTable.tableInv_remove (fun r => hostnameMatchers_ne_nil r.hostnames) h.http key
    fun t => keeps_of_tidy h hU t key []
  refine { h with http := hinv, within := ?_ }
  intro t k r hr
  dsimp only at hr
  exact h.within (of_clear hr)

theorem Holds.removeTcpRoute (key : RouteKey) : Holds among (s.removeTcpRoute key)
      { held with tcp := clear (fun i => i.2 = key) held.tcp } := by
  have hinv := IndexTable.tableInv_remove (fun r => hostnameMatchers_ne_nil r.hostnames) h.tcp key
    fun t => tcp_keeps _ key []
  exact { h with tcp := hinv }

theorem Holds.removeRouteGroup (rg : RouteGroupKey) :
    Holds among (s.removeRouteGroup rg) { held with
        http := clear (fun i => i.1 = .routeGroup rg) held.http } := by
  have hinv := IndexTable.tableInv_erase h.http (.routeGroup rg)
  refine { h with http := hinv, within := ?_ }
  intro t k r hr
  dsimp only at hr
  exact h.within (of_clear hr)

end Operations

-- ======== one reload

namespace LocalConfig

/-- The HTTP routes, each with the target it is inserted under. -/
def httpRoutes (cfg : LocalConfig P B) : List (RouteTarget × Route) :=
  (cfg.listenerRoutes.flatMap fun e => e.2.map (Prod.mk (.listener e.1)))
    ++ cfg.routeGroups.flatMap fun e => e.2.map (Prod.mk (.routeGroup e.1))

def tcpRoutes (cfg : LocalConfig P B) : List (RouteTarget × TCPRoute) :=
  cfg.listenerTcpRoutes.flatMap fun e => e.2.map (Prod.mk (.listener e.1))

/-- What a load of the configuration leaves behind. -/
def named (cfg : LocalConfig P B) : PreviousState where
  binds := collectKeys cfg.bindKeys
  routes := collectKeys cfg.routeKeys
  tcpRoutes := collectKeys cfg.tcpRouteKeys
  policies := collectKeys cfg.policyKeys
  backends := collectKeys cfg.backendKeys
  routeGroups := collectKeys cfg.groupKeys

/-- What the configuration says should be held. -/
def held (cfg : LocalConfig P B) : Held P B where
  binds := putAll Bind.key id (fun _ => none) cfg.binds
  backends := putAll BackendWithPolicies.name id (fun _ => none) cfg.backends
  policies := putAll TargetedPolicy.key id (fun _ => none) cfg.policies
  http := putAll httpSlot Prod.snd (fun _ => none) cfg.httpRoutes
  tcp := putAll tcpSlot Prod.snd (fun _ => none) cfg.tcpRoutes

end LocalConfig

def remaining (old : HashSet Strng) (keys : List Strng) : List Strng :=
  (dropKeys old keys).keys

def Held.reload (held : Held P B) (cfg : LocalConfig P B) (prev : PreviousState) : Held P B where
  binds := clear (fun k => ∃ key ∈ remaining prev.binds cfg.bindKeys, k = key)
    (putAll Bind.key id held.binds cfg.binds)
  backends :=
    clear (fun k => ∃ key ∈ remaining prev.backends cfg.backendKeys, k = key)
      (putAll BackendWithPolicies.name id held.backends cfg.backends)
  policies :=
    clear (fun k => ∃ key ∈ remaining prev.policies cfg.policyKeys, k = key)
      (putAll TargetedPolicy.key id held.policies cfg.policies)
  http := clear (fun i => ∃ rg ∈ remaining prev.routeGroups cfg.groupKeys, i.1 = .routeGroup rg)
    (clear (fun i => ∃ key ∈ remaining prev.routes cfg.routeKeys, i.2 = key)
      (putAll httpSlot Prod.snd held.http cfg.httpRoutes))
  tcp := clear (fun i => ∃ key ∈ remaining prev.tcpRoutes cfg.tcpRouteKeys, i.2 = key)
    (putAll tcpSlot Prod.snd held.tcp cfg.tcpRoutes)

section Loops

variable {A X : Type} {op : Store P B → A → Store P B} {step : X → A → X} (lift : X → Held P B)

theorem Holds.loop
    (hop : ∀ {s x} (a : A), Holds among s (lift x) → Holds among (op s a) (lift (step x a)))
    (l : List A) {x : X} (h : Holds among s (lift x)) :
    Holds among (l.foldl op s) (lift (l.foldl step x)) := by
  induction l generalizing s x with
  | nil => exact h
  | cons a l ih => exact ih (hop a h)

theorem Holds.loopM {op : Store P B → A → Option (Store P B)} (l : List A)
    (hop : ∀ {s x}, ∀ a ∈ l, Holds among s (lift x) →
      ∃ s', op s a = some s' ∧ Holds among s' (lift (step x a)))
    {x : X} (h : Holds among s (lift x)) :
    ∃ s', l.foldlM op s = some s' ∧ Holds among s' (lift (l.foldl step x)) := by
  induction l generalizing s x with
  | nil => exact ⟨s, rfl, h⟩
  | cons a l ih =>
    obtain ⟨s₁, hs₁, h₁⟩ := hop a mem_cons_self h
    obtain ⟨s', hs', h'⟩ := ih (fun b hb => hop b (mem_cons_of_mem _ hb)) h₁
    refine ⟨s', ?_, h'⟩
    rw [foldlM_cons, hs₁]
    exact hs'

theorem Holds.clears {I V : Type} (lift : (I → Option V) → Held P B) {sel : I → A → Prop}
    [∀ i a, Decidable (sel i a)] (hop : ∀ {s x} (a : A), Holds among s (lift x) →
      Holds among (op s a) (lift (clear (fun i => sel i a) x)))
    (l : List A) {x : I → Option V} (h : Holds among s (lift x)) :
    Holds among (l.foldl op s) (lift (clear (fun i => ∃ a ∈ l, sel i a) x)) := by
  rw [← foldl_clear]
  exact Holds.loop lift hop l h

end Loops

variable {held : Held P B}
  {cfg : LocalConfig P B} {t : RouteTarget} {r : Route} {among' : List (RouteTarget × Route)}
  {k : RouteKey} (ipv6Enabled : Bool)

theorem holds_syncLocal (prev : PreviousState) (hU : Tidy among)
    (hcfg : ∀ x ∈ cfg.httpRoutes, x ∈ among) (h : Holds among s held) :
    ∃ s', s.syncLocal cfg prev = some (s', cfg.named) ∧ Holds among s' (held.reload cfg prev) := by
  obtain ⟨binds, backends, policies, http, tcp⟩ := held
  have h₁ := Holds.loop (fun x => ⟨x, backends, policies, http, tcp⟩)
    (fun b hx => hx.insertBind b) cfg.binds h
  have h₂ := Holds.loop (fun x => ⟨_, x, policies, http, tcp⟩)
    (fun b hx => hx.insertBackend b) cfg.backends h₁
  obtain ⟨s₃, hs₃, h₃⟩ := Holds.loopM (fun x => ⟨_, _, policies, x, tcp⟩)
    (cfg.listenerRoutes.flatMap fun e => e.2.map (Prod.mk (.listener e.1)))
    (fun x hx hheld => hheld.insertHttpRouteTarget hU x (hcfg x (mem_append_left _ hx))) h₂
  obtain ⟨s₄, hs₄, h₄⟩ := Holds.loopM (fun x => ⟨_, _, policies, _, x⟩) cfg.tcpRoutes
    (fun x _ hheld => hheld.insertTcpRouteTarget x) h₃
  have h₅ := Holds.loop (fun x => ⟨_, _, x, _, _⟩)
    (fun pol hx => hx.insertPolicy pol) cfg.policies h₄
  obtain ⟨s₆, hs₆, h₆⟩ := Holds.loopM (fun x => ⟨_, _, _, x, _⟩)
    (cfg.routeGroups.flatMap fun e => e.2.map (Prod.mk (.routeGroup e.1)))
    (fun x hx hheld => hheld.insertHttpRouteTarget hU x (hcfg x (mem_append_right _ hx))) h₅
  have h₇ := Holds.clears (fun x => ⟨x, _, _, _, _⟩) (fun key hx => hx.removeBind key)
    (remaining prev.binds cfg.bindKeys) h₆
  have h₈ := Holds.clears (fun x => ⟨_, _, _, x, _⟩)
    (fun key hx => hx.removeRoute hU key) (remaining prev.routes cfg.routeKeys) h₇
  have h₉ := Holds.clears (fun x => ⟨_, _, _, _, x⟩)
    (fun key hx => hx.removeTcpRoute key) (remaining prev.tcpRoutes cfg.tcpRouteKeys) h₈
  have h₁₀ := Holds.clears (fun x => ⟨_, _, x, _, _⟩)
    (fun key hx => hx.removePolicy key) (remaining prev.policies cfg.policyKeys) h₉
  have h₁₁ := Holds.clears (fun x => ⟨_, x, _, _, _⟩)
    (fun key hx => hx.removeBackend key) (remaining prev.backends cfg.backendKeys) h₁₀
  have h₁₂ := Holds.clears (fun x => ⟨_, _, _, x, _⟩)
    (fun rg hx => hx.removeRouteGroup rg) (remaining prev.routeGroups cfg.groupKeys) h₁₁
  replace hs₃ := (foldlM_pairs _ (fun l => Prod.mk (RouteTarget.listener l))
    cfg.listenerRoutes _).trans hs₃
  replace hs₄ := (foldlM_pairs _ (fun l => Prod.mk (RouteTarget.listener l))
    cfg.listenerTcpRoutes _).trans hs₄
  replace hs₆ := (foldlM_pairs _ (fun rg => Prod.mk (RouteTarget.routeGroup rg))
    cfg.routeGroups _).trans hs₆
  refine ⟨_, ?_, (congrArg (Holds among _) ?_).mp h₁₂⟩
  · unfold Store.syncLocal Store.insertRoute Store.insertTcpRoute Store.insertRouteIntoGroup
    dsimp only at hs₃ hs₄ hs₆ ⊢
    rw [hs₃]
    dsimp only [Option.bind_eq_bind, Option.bind_some]
    rw [hs₄]
    dsimp only [Option.bind_eq_bind, Option.bind_some]
    rw [hs₆]
    rfl
  · unfold Held.reload LocalConfig.httpRoutes
    rw [putAll_append]
    rfl

-- ======== conditions

theorem mem_remaining {old new : List Strng} {k : Strng} :
    k ∈ remaining (collectKeys old) new ↔ k ∈ old ∧ k ∉ new :=
  AssocMap.mem_keys_eraseAll_ofKeys

def LocalConfig.HasRoute (cfg : LocalConfig P B) (t : RouteTarget) (k : RouteKey) : Prop :=
  ∃ r, (t, r) ∈ cfg.httpRoutes ∧ r.key = k

def LocalConfig.HasTcpRoute (cfg : LocalConfig P B) (t : RouteTarget) (k : RouteKey) : Prop :=
  ∃ r, (t, r) ∈ cfg.tcpRoutes ∧ r.key = k

/-- The reload of `new` over `old` forgets nothing and takes nothing too
much. -/
structure ReloadOk (old new : LocalConfig P B) : Prop where
  -- a route key some listener still has is still with each that had it
  moved : ∀ l k, old.HasRoute (.listener l) k → k ∈ new.routeKeys → new.HasRoute (.listener l) k
  movedTcp : ∀ l k, old.HasTcpRoute (.listener l) k → k ∈ new.tcpRouteKeys →
    new.HasTcpRoute (.listener l) k
  -- a group that stays loses only routes that the listeners lose too
  shrunk : ∀ g k, old.HasRoute (.routeGroup g) k → g ∈ new.groupKeys →
    new.HasRoute (.routeGroup g) k ∨ (k ∈ old.routeKeys ∧ k ∉ new.routeKeys)
  -- and has none that the listeners lose
  shared : ∀ g k, new.HasRoute (.routeGroup g) k → k ∈ old.routeKeys → k ∈ new.routeKeys
  tidy : Tidy (old.httpRoutes ++ new.httpRoutes)

theorem mem_httpRoutes : (t, r) ∈ cfg.httpRoutes
      ↔ (∃ l, t = .listener l ∧ ∃ rs, (l, rs) ∈ cfg.listenerRoutes ∧ r ∈ rs)
        ∨ ∃ g, t = .routeGroup g ∧ ∃ rs, (g, rs) ∈ cfg.routeGroups ∧ r ∈ rs := by
  unfold LocalConfig.httpRoutes
  grind

theorem mem_tcpRoutes {r : TCPRoute} : (t, r) ∈ cfg.tcpRoutes ↔ ∃ l, t = .listener l
        ∧ ∃ rs, (l, rs) ∈ cfg.listenerTcpRoutes ∧ r ∈ rs := by
  unfold LocalConfig.tcpRoutes
  grind

theorem key_mem_keys {R : Type} {key : R → RouteKey} {l : ListenerKey} {r : R}
    {rs : List R} {entries : List (ListenerKey × List R)} (hrs : (l, rs) ∈ entries)
    (hr : r ∈ rs) : key r ∈ entries.flatMap fun e => e.2.map key :=
  mem_flatMap.2 ⟨_, hrs, mem_map_of_mem hr⟩

/-- Only slots that the configuration names are full. -/
structure Held.Within (held : Held P B) (cfg : LocalConfig P B) : Prop where
  binds : ∀ {k b}, held.binds k = some b → k ∈ cfg.bindKeys
  backends : ∀ {k b}, held.backends k = some b → k ∈ cfg.backendKeys
  policies : ∀ {k pol}, held.policies k = some pol → k ∈ cfg.policyKeys
  http : ∀ {t k r}, held.http (t, k) = some r → cfg.HasRoute t k
  tcp : ∀ {t k r}, held.tcp (t, k) = some r → cfg.HasTcpRoute t k

theorem reload_keys {A V : Type} {key : A → Strng} {val : A → V}
    {h : Strng → Option V} {old : List Strng}
    (hold : ∀ {k v}, h k = some v → k ∈ old) (new : List A) :
    clear (fun k => ∃ k' ∈ remaining (collectKeys old) (new.map key), k = k')
      (putAll key val h new) = putAll key val (fun _ => none) new := by
  refine clear_putAll (fun a ha hgone => ?_) fun k v hv => ?_
  · obtain ⟨k, hk, rfl⟩ := hgone
    exact (mem_remaining.1 hk).2 (mem_map_of_mem ha)
  · by_cases hnew : k ∈ new.map key
    · exact .inr (mem_map.1 hnew)
    · exact .inl ⟨_, mem_remaining.2 ⟨hold hv, hnew⟩, rfl⟩

section Reload

variable {held : Held P B} {old new : LocalConfig P B}
  (hold : held.Within old) (hok : ReloadOk old new)

include hold hok

theorem reload_tcp :
    clear (fun i => ∃ k ∈ remaining (collectKeys old.tcpRouteKeys) new.tcpRouteKeys, i.2 = k)
      (putAll tcpSlot Prod.snd held.tcp new.tcpRoutes) = new.held.tcp := by
  refine clear_putAll (fun a ha hgone => ?_) fun i v hv => ?_
  · obtain ⟨k, hk, rfl⟩ := hgone
    obtain ⟨l, -, rs, hrs, hr⟩ := mem_tcpRoutes.1 ha
    exact (mem_remaining.1 hk).2 (key_mem_keys hrs hr)
  · obtain ⟨t, k⟩ := i
    obtain ⟨r, ha, rfl⟩ := hold.tcp hv
    obtain ⟨l, rfl, rs, hrs, hr⟩ := mem_tcpRoutes.1 ha
    by_cases hnew : r.key ∈ new.tcpRouteKeys
    · obtain ⟨r', hr', hkey⟩ := hok.movedTcp l r.key ⟨r, ha, rfl⟩ hnew
      exact .inr ⟨_, hr', Prod.ext rfl hkey⟩
    · exact .inl ⟨_, mem_remaining.2 ⟨key_mem_keys hrs hr, hnew⟩, rfl⟩

theorem reload_http : clear (fun i => ∃ rg ∈ remaining (collectKeys old.groupKeys) new.groupKeys,
        i.1 = .routeGroup rg) (clear (fun i => ∃ k ∈ remaining (collectKeys old.routeKeys)
          new.routeKeys, i.2 = k)
        (putAll httpSlot Prod.snd held.http new.httpRoutes)) = new.held.http := by
  rw [clear_clear]
  refine clear_putAll (fun a ha hgone => ?_) fun i v hv => ?_
  · obtain ⟨t, r⟩ := a
    rcases mem_httpRoutes.1 ha with ⟨l, rfl, rs, hrs, hr⟩ | ⟨g, rfl, rs, hrs, hr⟩
    · rcases hgone with ⟨rg, -, heq⟩ | ⟨k, hk, rfl⟩
      · cases heq
      · exact (mem_remaining.1 hk).2 (key_mem_keys hrs hr)
    · rcases hgone with ⟨rg, hrg, heq⟩ | ⟨k, hk, rfl⟩
      · cases heq
        exact (mem_remaining.1 hrg).2 (mem_map_of_mem hrs)
      · obtain ⟨hwas, hnew⟩ := mem_remaining.1 hk
        exact hnew (hok.shared g r.key ⟨r, ha, rfl⟩ hwas)
  · obtain ⟨t, k⟩ := i
    obtain ⟨r, ha, rfl⟩ := hold.http hv
    rcases mem_httpRoutes.1 ha with ⟨l, rfl, rs, hrs, hr⟩ | ⟨g, rfl, rs, hrs, hr⟩
    · by_cases hnew : r.key ∈ new.routeKeys
      · obtain ⟨r', hr', hkey⟩ := hok.moved l r.key ⟨r, ha, rfl⟩ hnew
        exact .inr ⟨_, hr', Prod.ext rfl hkey⟩
      · exact .inl (.inr ⟨_, mem_remaining.2 ⟨key_mem_keys hrs hr, hnew⟩, rfl⟩)
    · by_cases hnew : g ∈ new.groupKeys
      · rcases hok.shrunk g r.key ⟨r, ha, rfl⟩ hnew with ⟨r', hr', hkey⟩ | hlost
        · exact .inr ⟨_, hr', Prod.ext rfl hkey⟩
        · exact .inl (.inr ⟨_, mem_remaining.2 hlost, rfl⟩)
      · exact .inl (.inl ⟨g, mem_remaining.2 ⟨mem_map_of_mem hrs, hnew⟩, rfl⟩)

theorem reload_held : held.reload new old.named = new.held := by
  unfold Held.reload
  congr 1
  · exact reload_keys hold.binds new.binds
  · exact reload_keys hold.backends new.backends
  · exact reload_keys hold.policies new.policies
  · exact reload_http hold hok
  · exact reload_tcp hold hok

end Reload

theorem held_within_self (cfg : LocalConfig P B) : cfg.held.Within cfg := by
  have hkeys : ∀ {A V : Type} {key : A → Strng} {val : A → V} {l : List A}
      {k : Strng} {v : V}, putAll key val (fun _ => none) l k = some v →
      k ∈ l.map key := by
    intro A V key val l k v hv
    obtain ⟨a, ha, rfl, -⟩ := mem_of_putAll_none hv
    exact mem_map_of_mem ha
  refine ⟨hkeys, hkeys, hkeys, fun {t k r} hv => ?_, fun {t k r} hv => ?_⟩
  · obtain ⟨a, ha, hslot, -⟩ := mem_of_putAll_none hv
    obtain ⟨rfl, rfl⟩ := Prod.mk.inj hslot
    exact ⟨a.2, ha, rfl⟩
  · obtain ⟨a, ha, hslot, -⟩ := mem_of_putAll_none hv
    obtain ⟨rfl, rfl⟩ := Prod.mk.inj hslot
    exact ⟨a.2, ha, rfl⟩

-- ======== runs

theorem held_within (hr : cfg.held.http (t, k) = some r) : r.key = k ∧ (t, r) ∈ cfg.httpRoutes := by
  obtain ⟨a, ha, hslot, rfl⟩ := mem_of_putAll_none hr
  obtain ⟨rfl, rfl⟩ := Prod.mk.inj hslot
  exact ⟨rfl, ha⟩

theorem Holds.rebound (h : Holds among s held)
    (hwithin : ∀ {t k r}, held.http (t, k) = some r → r.key = k ∧ (t, r) ∈ among') :
    Holds among' s held :=
  { h with within := hwithin }

theorem Holds.syncLocal (h : Holds among s held) (prev : PreviousState)
    (hU : Tidy (among ++ cfg.httpRoutes)) : ∃ s', s.syncLocal cfg prev = some (s', cfg.named)
      ∧ Holds (among ++ cfg.httpRoutes) s' (held.reload cfg prev) :=
  holds_syncLocal prev hU (fun _ hx => mem_append_right _ hx) <|
    h.rebound fun hr => ⟨(h.within hr).1, mem_append_left _ (h.within hr).2⟩

theorem holds_empty : Holds [] (Store.empty ipv6Enabled : Store P B) LocalConfig.empty.held where
  pending := fun _ => rfl
  binds := fun _ => rfl
  backends := fun _ => rfl
  policies := fun _ => rfl
  targets := by
    intro t key
    refine ⟨nofun, fun h => ?_⟩
    obtain ⟨pol, hpol, -⟩ := h
    cases hpol
  http := IndexTable.tableInv_empty
  tcp := IndexTable.tableInv_empty
  within := nofun

/-- The state between two loads: the store holds the last configuration,
and its keys are remembered. -/
def Loaded (sp : Store P B × PreviousState) (cfg : LocalConfig P B) : Prop :=
  Holds cfg.httpRoutes sp.1 cfg.held ∧ sp.2 = cfg.named

theorem loaded_step {sp : Store P B × PreviousState}
    {old new : LocalConfig P B} (h : Loaded sp old) (hok : ReloadOk old new) :
    ∃ sp', Store.syncLocal sp.1 new sp.2 = some sp' ∧ Loaded sp' new := by
  obtain ⟨s, prev⟩ := sp
  obtain ⟨hholds, rfl⟩ := h
  obtain ⟨s', hs', h'⟩ := hholds.syncLocal old.named hok.tidy
  rw [reload_held (held_within_self old) hok] at h'
  exact ⟨_, hs', h'.rebound held_within, rfl⟩

def LoadsOk (cfgs : List (LocalConfig P B)) : Prop :=
  RunOk (fun _ cfg => cfg) ReloadOk LocalConfig.empty cfgs

theorem loaded_syncAll (cfgs : List (LocalConfig P B)) (hok : LoadsOk cfgs) :
    ∃ sp, Store.syncAll ipv6Enabled cfgs = some sp
      ∧ Loaded sp (cfgs.foldl (fun _ cfg => cfg) LocalConfig.empty) :=
  foldlM_runOk loaded_step cfgs ⟨holds_empty ipv6Enabled, rfl⟩ hok

/-- Two stores that answer every lookup alike. -/
structure SameContent (s s' : Store P B) : Prop where
  binds : ∀ key, s.binds.get? key = s'.binds.get? key
  backends : ∀ key, s.backends.get? key = s'.backends.get? key
  policies : ∀ key, s.policiesByKey.get? key = s'.policiesByKey.get? key
  -- a target without policies may or may not have an empty set
  targets : ∀ t key, (attachedIn s.policiesByTarget t).contains key
    = (attachedIn s'.policiesByTarget t).contains key
  http : IndexTable.Same s.httpRoutes s'.httpRoutes
  tcp : IndexTable.Same s.tcpRoutes s'.tcpRoutes

theorem Holds.same {s' : Store P B}
    (h : Holds among s held) (h' : Holds among' s' held) : SameContent s s' where
  binds := fun key => (h.binds key).trans (h'.binds key).symm
  backends := fun key => (h.backends key).trans (h'.backends key).symm
  policies := fun key => (h.policies key).trans (h'.policies key).symm
  targets := fun t key =>
    Bool.eq_iff_iff.2 ((h.targets t key).trans (h'.targets t key).symm)
  http := IndexTable.table_ext (fun r => hostnameMatchers_ne_nil r.hostnames) h.http h'.http
  tcp := IndexTable.table_ext (fun r => hostnameMatchers_ne_nil r.hostnames) h.tcp h'.tcp

theorem reloadOk_first (hok : Tidy cfg.httpRoutes) : ReloadOk LocalConfig.empty cfg where
  moved := nofun
  movedTcp := nofun
  shrunk := nofun
  shared := nofun
  tidy := hok

/-- After any sequence of loads that meet the condition, the store is that
of the last configuration alone. -/
theorem reload_equals_fresh_load (ipv6Enabled : Bool)
    (cfgs : List (LocalConfig P B)) (cfg : LocalConfig P B) (hok : LoadsOk (cfgs ++ [cfg])) :
    ∃ s prev s' prev', Store.syncAll ipv6Enabled (cfgs ++ [cfg]) = some (s, prev)
        ∧ Store.syncAll ipv6Enabled [cfg] = some (s', prev') ∧ SameContent s s' := by
  have hlast : Tidy cfg.httpRoutes := by
    intro t r r' hr hr'
    exact (runOk_append.1 hok).2.1.tidy (mem_append_right _ hr) (mem_append_right _ hr')
  obtain ⟨⟨s, prev⟩, hrun, h, -⟩ := loaded_syncAll ipv6Enabled _ hok
  obtain ⟨⟨s', prev'⟩, hrun', h', -⟩ := loaded_syncAll ipv6Enabled [cfg]
    ⟨reloadOk_first hlast, trivial⟩
  rw [foldl_append] at h
  exact ⟨s, prev, s', prev', hrun, hrun', h.same h'⟩

theorem tidy_of_matches (h : ∀ x ∈ among, x.2.matches_ ≠ []) : Tidy among :=
  fun _ _ _ _ hr' _ _ _ _ => h _ hr'

def sampleRoute (key : RouteKey) : Route :=
  ⟨key, none, ⟨key, "default", none, none⟩, [], [⟨[], .pathPrefix "/", none, []⟩]⟩

def sampleConfig (listener group : List RouteKey) : LocalConfig Unit Unit where
  binds := []
  listenerRoutes := [("l", listener.map sampleRoute)]
  listenerTcpRoutes := []
  policies := []
  backends := []
  routeGroups := [("g", group.map sampleRoute)]

theorem sampleConfig_matches {l g : List RouteKey} {x : RouteTarget × Route}
    (hx : x ∈ (sampleConfig l g).httpRoutes) : x.2.matches_ ≠ [] := by
  simp only [LocalConfig.httpRoutes, sampleConfig, flatMap_cons] at hx
  have hroute : ∃ key, x.2 = sampleRoute key := by grind
  obtain ⟨key, heq⟩ := hroute
  rw [heq]
  exact cons_ne_nil _ _

theorem sampleConfig_hasRoute {l g : List RouteKey} :
    (sampleConfig l g).HasRoute t k ↔ t = .listener "l" ∧ k ∈ l ∨ t = .routeGroup "g" ∧ k ∈ g := by
  unfold LocalConfig.HasRoute
  simp only [mem_httpRoutes, sampleConfig, mem_singleton, Prod.mk.injEq]
  refine ⟨fun h => by grind [sampleRoute], fun h => ?_⟩
  refine ⟨sampleRoute k, ?_, rfl⟩
  rcases h with ⟨ht, hk⟩ | ⟨ht, hk⟩
  · exact .inl ⟨_, ht, _, ⟨rfl, rfl⟩, mem_map_of_mem hk⟩
  · exact .inr ⟨_, ht, _, ⟨rfl, rfl⟩, mem_map_of_mem hk⟩

theorem sampleConfig_routeKeys (l g : List RouteKey) : (sampleConfig l g).routeKeys = l := by
  simp [LocalConfig.routeKeys, sampleConfig, Function.comp_def, sampleRoute]

/-- The listener loses a route between the two loads. -/
theorem reload_equals_fresh_load_sample : ∃ s prev s' prev',
      Store.syncAll false ([sampleConfig ["a", "b"] ["c"]]
          ++ [sampleConfig ["a"] ["c"]]) = some (s, prev)
        ∧ Store.syncAll false [sampleConfig ["a"] ["c"]] = some (s', prev') ∧ SameContent s s' := by
  refine reload_equals_fresh_load false [sampleConfig ["a", "b"] ["c"]] (sampleConfig ["a"] ["c"])
    ⟨reloadOk_first (tidy_of_matches fun x hx => sampleConfig_matches hx),
      ⟨?_, nofun, ?_, ?_, tidy_of_matches fun x hx => ?_⟩,
      trivial⟩
  case refine_4 =>
    rcases mem_append.1 hx with hx | hx <;> exact sampleConfig_matches hx
  all_goals
    simp only [sampleConfig_hasRoute, sampleConfig_routeKeys]
    grind

/-- A group that loses a route between two loads keeps it. -/
theorem shrunk_group_keeps_route :
    ¬ ∀ (cfgs : List (LocalConfig Unit Unit)) (cfg : LocalConfig Unit Unit),
      ∃ s prev s' prev', Store.syncAll false (cfgs ++ [cfg]) = some (s, prev)
          ∧ Store.syncAll false [cfg] = some (s', prev') ∧ SameContent s s' := by
  intro hall
  obtain ⟨s, prev, s', prev', hrun, hrun', hsame⟩ :=
    hall [sampleConfig [] ["a", "b"]] (sampleConfig [] ["a"])
  cases hrun
  cases hrun'
  have hall := ((hsame.http (.routeGroup "g")).2 _ _ rfl rfl).1 "b"
  cases hall

end AgentGateway.Binds
