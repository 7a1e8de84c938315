/-
Which policies apply to a request: `route_policies`, `backend_policies` and
`BackendPolicies::merge` of `store/binds.rs`, `RequestPolicy` of
`store/policy.rs`, `HTTPAuthorizationSet` of `http/authorization.rs`, and how
`mcp/router.rs` and `mcp/rbac.rs` take the rules for MCP from there.

A lookup goes through the levels from the most specific to the least. For
most kinds of policy the first one found counts. Authorization policies are
collected, all of them.

`E` are the rules, `V` what a policy of another kind says and `F` frontend
policies, none of which is looked into. A policy of another kind may be empty
(`none`), which counts as not found.

Which policies are attached on the path of a request is read off the policies
themselves: those that a lookup comes by (`httpRules`, `mcpRules`), and those of
anything else on the path that a policy can have as its target (`attachedHttp`,
`attachedMcp`, `targetRules`). A lookup collects all the rules that it comes by,
so what it admits is what all of them admit together.

# Where it breaks

There are rules on the path that no lookup comes by, or that are dropped
afterwards:

- an authorization policy of the gateway phase, which the lookup of that
  phase skips with a warning;
- a policy on the listener set of the listener or on its section of the set, or
  on a port of the gateway or service. These targets are looked up for
  frontend policies, and listener sets for the gateway phase;
- an HTTP authorization policy on the backend, and one for MCP on the service
  that was meant;
- the rules on a target of an MCP backend. They are looked up when the
  targets are built, but calls are checked against the rules of the backend;
- the rules of the backend in the policies of a target that has rules of its
  own: the merge keeps only these.

# Left out

The provider and the pinned endpoint in `BackendPolicies`, which the proxy
sets itself, and registering expressions.
-/
import AgentGateway.Http.Authorization
import AgentGateway.Binds.Proofs.Live

namespace AgentGateway.Binds

open Discovery Routes Lib Http List

variable {E V F P B T : Type}

-- ======== policies

/-- The kinds of `TrafficPolicy` but for authorization. -/
inductive TrafficKind
  | timeout
  | retry
  | ai
  | localRateLimit
  | remoteRateLimit
  | extAuthz
  | extProc
  | jwtAuth
  | oidc
  | basicAuth
  | apiKey
  | transformation
  | csrf
  | requestHeaderModifier
  | responseHeaderModifier
  | requestRedirect
  | urlRewrite
  | hostRewrite
  | requestMirror
  | directResponse
  | cors
  deriving DecidableEq

inductive TrafficPolicy (E V : Type)
  | authorization (p : RuleSet E)
  | other (kind : TrafficKind) (p : Option V)

/-- The kinds of `BackendTrafficPolicy` but for MCP authorization. -/
inductive BackendKind
  | a2a
  | backendTLS
  | backendAuth
  | inferenceRouting
  | extAuthz
  | ai
  | http
  | tcp
  | tunnel
  | requestHeaderModifier
  | responseHeaderModifier
  | requestRedirect
  | transformation
  | sessionPersistence
  | health
  | requestMirror
  | mcpAuthentication
  deriving DecidableEq

inductive BackendTrafficPolicy (E V : Type)
  | mcpAuthorization (p : RuleSet E)
  | other (kind : BackendKind) (p : Option V)

inductive PolicyPhase
  | route
  | gateway

inductive PolicyType (F E V : Type)
  | frontend (p : F)
  | traffic (phase : PolicyPhase) (policy : TrafficPolicy E V)
  | backend (policy : BackendTrafficPolicy E V)

namespace PolicyType

def asTrafficRoutePhase : PolicyType F E V → Option (TrafficPolicy E V)
  | .traffic .route policy => some policy
  | _ => none

def asBackend : PolicyType F E V → Option (BackendTrafficPolicy E V)
  | .backend policy => some policy
  | _ => none

end PolicyType

-- ======== targets

def asGatewayTarget (l : ListenerName) : PolicyTarget :=
  .gateway ⟨l.gatewayName, l.gatewayNamespace, none, none⟩

def asListenerTarget (l : ListenerName) : PolicyTarget :=
  .gateway ⟨l.gatewayName, l.gatewayNamespace, some l.listenerName, none⟩

/-- The section of the listener, and the whole listener set. -/
def asListenerSetTargets (l : ListenerName) : List PolicyTarget :=
  l.listenerSet.elim [] fun ls =>
    [.listenerSet ⟨ls.name, ls.ns, some l.listenerName⟩, .listenerSet ⟨ls.name, ls.ns, none⟩]

def asRouteTarget (r : RouteName) : PolicyTarget := .route { r with ruleName := none }

def asRouteRuleTarget (r : RouteName) : PolicyTarget := .route r

def asPolicyTarget (s : NamespacedHostname) : PolicyTarget :=
  .backend (.service s.hostname s.ns none)

def BackendTarget.stripSection : BackendTarget → BackendTarget
  | .backend name ns _ => .backend name ns none
  | .service hostname ns _ => .service hostname ns none
  | .invalid => .invalid

-- ======== request

structure PolicyWithCondition (T E : Type) where
  pol : T
  condition : Option E

inductive RequestPolicy (T E : Type)
  | empty
  | single (p : PolicyWithCondition T E)
  | multiple (ps : List (PolicyWithCondition T E))

namespace RequestPolicy

def iter : RequestPolicy T E → List (PolicyWithCondition T E)
  | .empty => []
  | .single p => [p]
  | .multiple ps => ps

/-- The first policy whose condition is met. -/
def select (pol : RequestPolicy T E) (exec : Executor E) : Option T :=
  (pol.iter.find? fun p => p.condition.all exec).map (·.pol)

def applyWithoutResponse {Err : Type} (apply : T → Executor E → Except Err Unit)
    (pol : RequestPolicy T E) (exec : Executor E) : Except Err Unit :=
  match pol.select exec with
  | some p => apply p exec
  | none => .ok ()

end RequestPolicy

inductive ProxyError
  | authorizationFailed

def HTTPAuthorizationSet.apply (rs : RuleSets E) (exec : Executor E) : Except ProxyError Unit :=
  if !rs.validate exec then .error .authorizationFailed else .ok ()

-- ======== lookup

namespace Store

def policyKeys (s : Store P B) (t : PolicyTarget) : List PolicyKey :=
  ((s.policiesByTarget.get? t).map AssocMap.keys).getD []

def policiesOf (s : Store P B) (keys : List PolicyKey) : List P :=
  keys.filterMap fun n => (s.policiesByKey.get? n).map (·.policy)

/-- The policies of the route phase on a target. -/
def trafficOn (s : Store (PolicyType F E V) B) (t : PolicyTarget) : List (TrafficPolicy E V) :=
  (s.policiesOf (s.policyKeys t)).filterMap (·.asTrafficRoutePhase)

end Store

/-- The first value found for a kind stays. -/
def setIfUnset {K : Type} [DecidableEq K] (found : K → Option V) (kind : K)
    (p : Option V) : K → Option V :=
  fun k => if k = kind ∧ (found k).isNone then p else found k

structure RoutePath where
  listener : ListenerName
  /-- The service that was meant before routing. -/
  service : Option NamespacedHostname
  /-- The delegation chain, the most specific route last. -/
  routes : List RouteName

structure RoutePolicies (E V : Type) where
  authorization : RequestPolicy (RuleSets E) E
  found : TrafficKind → Option V

/-- One turn of the loop of `route_policies`, with the rules collected so
far. -/
def collectTraffic (acc : RuleSets E × (TrafficKind → Option V)) :
    TrafficPolicy E V → RuleSets E × (TrafficKind → Option V)
  | .authorization p => (acc.1 ++ [p], acc.2)
  | .other kind p => (acc.1, setIfUnset acc.2 kind p)

namespace Store

def routeRules (s : Store (PolicyType F E V) B) (path : RoutePath)
    (inline : List (List (TrafficPolicy E V))) : List (TrafficPolicy E V) :=
  path.routes.zipIdx.reverse.flatMap fun (route, idx) =>
    inline.getD idx [] ++ s.trafficOn (asRouteRuleTarget route) ++ s.trafficOn (asRouteTarget route)

def sharedRules (s : Store (PolicyType F E V) B) (path : RoutePath) : List (TrafficPolicy E V) :=
  (path.service.elim [] fun sv => s.trafficOn (asPolicyTarget sv))
    ++ s.trafficOn (asListenerTarget path.listener)
    ++ s.trafficOn (asGatewayTarget path.listener)

def routePolicies (s : Store (PolicyType F E V) B) (path : RoutePath)
    (inline : List (List (TrafficPolicy E V))) : RoutePolicies E V :=
  let rules := s.routeRules path inline ++ s.sharedRules path
  let (authz, found) := rules.foldl collectTraffic ([], fun _ => none)
  { authorization := if authz.isEmpty then .empty else .single ⟨authz, none⟩
    found }

end Store

/-- The authorization step of `apply_request_policies`. -/
def RoutePolicies.authorize (pol : RoutePolicies E V) (exec : Executor E) :
    Except ProxyError Unit :=
  pol.authorization.applyWithoutResponse HTTPAuthorizationSet.apply exec

-- ======== backends

structure BackendPolicies (E V : Type) where
  mcpAuthorization : Option (RuleSets E)
  found : BackendKind → Option V

/-- The other one has precedence. -/
def BackendPolicies.merge (base other : BackendPolicies E V) : BackendPolicies E V where
  mcpAuthorization := other.mcpAuthorization.or base.mcpAuthorization
  found kind := (other.found kind).or (base.found kind)

/-- One turn of the loop of `internal_backend_policies`. -/
def collectBackend (acc : RuleSets E × (BackendKind → Option V)) :
    BackendTrafficPolicy E V → RuleSets E × (BackendKind → Option V)
  | .mcpAuthorization p => (acc.1 ++ [p], acc.2)
  | .other kind p => (acc.1, setIfUnset acc.2 kind p)

namespace Store

variable (s : Store (PolicyType F E V) B)

/-- The keys that a backend lookup goes through, some of them more than
once. -/
def backendKeys (backend subBackend : Option BackendTarget) (gateway : Option ListenerName)
    (routes : List RouteName) : List PolicyKey :=
  (routes.reverse.flatMap fun route =>
      s.policyKeys (asRouteRuleTarget route) ++ s.policyKeys (asRouteTarget route))
    ++ (subBackend.elim [] fun t => s.policyKeys (.backend t))
    ++ (backend.elim [] fun t => s.policyKeys (.backend t))
    ++ (gateway.elim [] fun t => s.policyKeys (asListenerTarget t))
    ++ (gateway.elim [] fun t => s.policyKeys (asGatewayTarget t))

/-- The inline policies come first, the last list before the others. -/
def backendRules (backend subBackend : Option BackendTarget)
    (inlinePolicies : List (List (BackendTrafficPolicy E V)))
    (gateway : Option ListenerName) (routes : List RouteName) : List (BackendTrafficPolicy E V) :=
  inlinePolicies.reverse.flatten
    ++ (s.policiesOf (s.backendKeys backend subBackend gateway routes).eraseDups).filterMap
      (·.asBackend)

def internalBackendPolicies (backend subBackend : Option BackendTarget)
    (inlinePolicies : List (List (BackendTrafficPolicy E V)))
    (gateway : Option ListenerName) (routes : List RouteName) : BackendPolicies E V :=
  let rules := s.backendRules backend subBackend inlinePolicies gateway routes
  let (mcpAuthz, found) := rules.foldl collectBackend ([], fun _ => none)
  { mcpAuthorization := if mcpAuthz.isEmpty then none else some mcpAuthz
    found }

def subBackendPolicies (subBackend : BackendTarget)
    (inlinePolicies : Option (List (BackendTrafficPolicy E V))) : BackendPolicies E V :=
  s.internalBackendPolicies none (some subBackend) inlinePolicies.toList none []

def backendPolicies (backend : BackendTarget)
    (inlinePolicies : List (List (BackendTrafficPolicy E V)))
    (path : Option RoutePath) : BackendPolicies E V :=
  s.internalBackendPolicies (some backend.stripSection) (some backend) inlinePolicies
    (path.map (·.listener)) (path.elim [] (·.routes))

end Store

-- ======== MCP

/-- A target of an MCP backend: its name, and the policies of the backend it
resolves to, if it has one. -/
structure McpTargetSpec (E V : Type) where
  name : Strng
  inlinePolicies : Option (List (BackendTrafficPolicy E V))

structure McpTarget (E V : Type) where
  name : Strng
  backendPolicies : BackendPolicies E V

/-- What the MCP relay is built from. -/
structure RelayInputs (E V : Type) where
  targets : List (McpTarget E V)
  policies : RuleSets E

/-- The policies that `serve` of `mcp/router.rs` hands on. -/
def Store.serve (s : Store (PolicyType F E V) B) (backendGroupName : ResourceName)
    (targets : List (McpTargetSpec E V)) (backendPolicies : BackendPolicies E V) :
    RelayInputs E V where
  targets := targets.map fun t =>
    ⟨t.name, backendPolicies.merge (s.subBackendPolicies
      (.backend backendGroupName.name backendGroupName.ns (some t.name))
      t.inlinePolicies)⟩
  policies := backendPolicies.mcpAuthorization.getD []

-- ======== attached

/-- A policy with this content has the target. -/
def Store.Attached (s : Store P B) (t : PolicyTarget) (p : P) : Prop :=
  ∃ key pol, s.policiesByKey.get? key = some pol ∧ pol.target = t ∧ pol.policy = p

variable {t : PolicyTarget} {key : PolicyKey}

theorem mem_policyKeys {s : Store P B} (h : s.Indexed) :
    key ∈ s.policyKeys t ↔ ∃ pol, s.policiesByKey.get? key = some pol ∧ pol.target = t := by
  rw [← h t key, AssocMap.contains_iff_mem_keys, Store.policyKeys, attachedIn]
  cases s.policiesByTarget.get? t with
  | none => simp [AssocMap.empty, AssocMap.keys]
  | some set => rfl

theorem mem_policiesOf_iff {s : Store P B} (h : s.Indexed) (keys : List PolicyKey)
    (targets : List PolicyTarget)
    (hkeys : ∀ key, key ∈ keys ↔ ∃ t ∈ targets, key ∈ s.policyKeys t) {p : P} :
    p ∈ s.policiesOf keys ↔ ∃ t ∈ targets, s.Attached t p := by
  simp only [Store.policiesOf, mem_filterMap, Option.map_eq_some_iff]
  constructor
  · rintro ⟨key, hkey, pol, hget, rfl⟩
    obtain ⟨t, ht, hkey⟩ := (hkeys key).1 hkey
    obtain ⟨pol', hget', rfl⟩ := (mem_policyKeys h).1 hkey
    rw [hget] at hget'
    cases hget'
    exact ⟨pol.target, ht, key, pol, hget, rfl, rfl⟩
  · rintro ⟨t, ht, key, pol, hget, rfl, rfl⟩
    exact ⟨key, (hkeys key).2 ⟨pol.target, ht, (mem_policyKeys h).2 ⟨pol, hget, rfl⟩⟩,
      pol, hget, rfl⟩

-- ======== collecting

def TrafficPolicy.authorization? : TrafficPolicy E V → Option (RuleSet E)
  | .authorization p => some p
  | .other _ _ => none

def BackendTrafficPolicy.mcpAuthorization? : BackendTrafficPolicy E V → Option (RuleSet E)
  | .mcpAuthorization p => some p
  | .other _ _ => none

theorem foldl_collectTraffic (rules : List (TrafficPolicy E V)) (authz : RuleSets E)
    (found : TrafficKind → Option V) : (rules.foldl collectTraffic (authz, found)).1
      = authz ++ rules.filterMap (·.authorization?) := by
  induction rules generalizing authz found with
  | nil => simp
  | cons rule rules ih =>
    cases rule with
    | authorization | other => simp [collectTraffic, ih, TrafficPolicy.authorization?]

theorem foldl_collectBackend (rules : List (BackendTrafficPolicy E V))
    (authz : RuleSets E) (found : BackendKind → Option V) :
    (rules.foldl collectBackend (authz, found)).1
      = authz ++ rules.filterMap (·.mcpAuthorization?) := by
  induction rules generalizing authz found with
  | nil => simp
  | cons rule rules ih =>
    cases rule with
    | mcpAuthorization | other =>
      simp [collectBackend, ih, BackendTrafficPolicy.mcpAuthorization?]

variable {p : TrafficPolicy E V} {r : RuleSet E}

theorem authorization?_eq_some : p.authorization? = some r ↔ p = .authorization r := by
  cases p <;> simp [TrafficPolicy.authorization?]

theorem mcpAuthorization?_eq_some {p : BackendTrafficPolicy E V} :
    p.mcpAuthorization? = some r ↔ p = .mcpAuthorization r := by
  cases p <;> simp [BackendTrafficPolicy.mcpAuthorization?]

-- ======== HTTP

def routeLevels (routes : List RouteName) : List PolicyTarget :=
  routes.flatMap fun r => [asRouteRuleTarget r, asRouteTarget r]

def listenerLevels (listener : ListenerName) : List PolicyTarget :=
  [asListenerTarget listener, asGatewayTarget listener]

def RoutePath.levels (path : RoutePath) : List PolicyTarget :=
  routeLevels path.routes
    ++ ((path.service.map asPolicyTarget).toList ++ listenerLevels path.listener)

/-- The HTTP authorization rules that a lookup comes by on the path of a
request. Inline policies are of the route phase. -/
def httpRules (s : Store (PolicyType F E V) B) (path : RoutePath)
    (inline : List (List (TrafficPolicy E V))) : Set (RuleSet E) :=
  {r | (∃ t ∈ path.levels, s.Attached t (.traffic .route (.authorization r)))
    ∨ ∃ idx < path.routes.length, .authorization r ∈ inline.getD idx []}

/-- What policies can have as a target on the path of a request that comes to a
port, down to the backend. -/
def RoutePath.allLevels (path : RoutePath) (port : UInt16) (backend : BackendTarget) :
    List PolicyTarget :=
  routeLevels path.routes
    ++ (path.service.elim [] fun sv => [asPolicyTarget sv,
      .backend (.service sv.hostname sv.ns (some port))])
    ++ [.backend backend, .backend backend.stripSection]
    ++ asListenerSetTargets path.listener ++ listenerLevels path.listener
    ++ [.gateway ⟨path.listener.gatewayName, path.listener.gatewayNamespace, none, some port⟩]

/-- The HTTP authorization rules on the path, of any phase. -/
def attachedHttp (s : Store (PolicyType F E V) B) (path : RoutePath) (port : UInt16)
    (backend : BackendTarget) : Set (RuleSet E) :=
  {r | ∃ t ∈ path.allLevels port backend, ∃ phase,
    s.Attached t (.traffic phase (.authorization r))}

variable {s : Store (PolicyType F E V) B} {inline : List (List (TrafficPolicy E V))}
  {q : PolicyType F E V}

theorem asTrafficRoutePhase_eq_some : q.asTrafficRoutePhase = some p ↔ q = .traffic .route p := by
  unfold PolicyType.asTrafficRoutePhase
  split <;> simp_all

theorem asBackend_eq_some {p : BackendTrafficPolicy E V} :
    q.asBackend = some p ↔ q = .backend p := by
  cases q <;> simp [PolicyType.asBackend]

theorem mem_trafficOn (h : s.Indexed) : p ∈ s.trafficOn t ↔ s.Attached t (.traffic .route p) := by
  have hfound : ∀ q, q ∈ s.policiesOf (s.policyKeys t) ↔ s.Attached t q := by
    intro q
    simpa using mem_policiesOf_iff h (s.policyKeys t) [t] (by simp)
  simp [Store.trafficOn, hfound, asTrafficRoutePhase_eq_some]

theorem mem_routeRules (h : s.Indexed) {path : RoutePath} :
    p ∈ s.routeRules path inline ↔ (∃ idx < path.routes.length, p ∈ inline.getD idx [])
        ∨ ∃ t ∈ routeLevels path.routes, s.Attached t (.traffic .route p) := by
  simp only [Store.routeRules, routeLevels, mem_flatMap, mem_reverse, mem_append, mem_trafficOn h]
  constructor
  · rintro ⟨⟨route, idx⟩, hmem, (hp | hp) | hp⟩
    · exact .inl ⟨idx, snd_lt_of_mem_zipIdx hmem, hp⟩
    · exact .inr ⟨_, ⟨route, fst_mem_of_mem_zipIdx hmem, by simp⟩, hp⟩
    · exact .inr ⟨_, ⟨route, fst_mem_of_mem_zipIdx hmem, by simp⟩, hp⟩
  · rintro (⟨idx, hidx, hp⟩ | ⟨t, ⟨route, hroute, ht⟩, hp⟩)
    · exact ⟨(path.routes[idx], idx), mk_mem_zipIdx_iff_getElem?.2
        (getElem?_eq_getElem hidx), .inl (.inl hp)⟩
    · obtain ⟨idx, hidx⟩ := mem_iff_getElem?.1 hroute
      have hmem := mk_mem_zipIdx_iff_getElem?.2 hidx
      obtain rfl | rfl : t = asRouteRuleTarget route ∨ t = asRouteTarget route := by
        simpa using ht
      · exact ⟨(route, idx), hmem, .inl (.inr hp)⟩
      · exact ⟨(route, idx), hmem, .inr hp⟩

theorem mem_sharedRules (h : s.Indexed) {path : RoutePath} :
    p ∈ s.sharedRules path ↔ ∃ t ∈ (path.service.map asPolicyTarget).toList
          ++ listenerLevels path.listener, s.Attached t (.traffic .route p) := by
  cases hservice : path.service with
  | none | some => simp [Store.sharedRules, listenerLevels, hservice, mem_trafficOn h]

theorem mem_routePolicies (h : s.Indexed) {path : RoutePath} :
    r ∈ (s.routeRules path inline ++ s.sharedRules path).filterMap (·.authorization?)
      ↔ r ∈ httpRules s path inline := by
  have hcollect : r ∈ (s.routeRules path inline ++ s.sharedRules path).filterMap (·.authorization?)
      ↔ .authorization r ∈ s.routeRules path inline ++ s.sharedRules path := by
    simp [mem_filterMap, authorization?_eq_some]
  rw [hcollect, mem_append, mem_routeRules h, mem_sharedRules h]
  constructor
  · rintro ((hinline | ⟨t, ht, hp⟩) | ⟨t, ht, hp⟩)
    · exact .inr hinline
    · exact .inl ⟨t, mem_append_left _ ht, hp⟩
    · exact .inl ⟨t, mem_append_right _ ht, hp⟩
  · rintro (⟨t, ht, hp⟩ | hinline)
    · obtain ht | ht := mem_append.1 ht
      · exact .inl (.inr ⟨t, ht, hp⟩)
      · exact .inr ⟨t, ht, hp⟩
    · exact .inl (.inl hinline)

theorem authorize_of_validate (pol : RoutePolicies E V) (authz : RuleSets E)
    (h : pol.authorization = if authz.isEmpty then .empty else .single ⟨authz, none⟩)
    (exec : Executor E) :
    pol.authorize exec = .error .authorizationFailed ↔ authz.validate exec = false := by
  rw [RoutePolicies.authorize, h]
  cases authz with
  | nil => simp [RequestPolicy.applyWithoutResponse, RequestPolicy.select,
      RequestPolicy.iter, RuleSets.validate]
  | cons r rs =>
    show HTTPAuthorizationSet.apply (r :: rs) exec = _ ↔ _
    unfold HTTPAuthorizationSet.apply
    cases RuleSets.validate (r :: rs) exec <;> simp

theorem authorize_iff (h : s.Indexed) (path : RoutePath)
    (inline : List (List (TrafficPolicy E V))) (exec : Executor E) :
    (s.routePolicies path inline).authorize exec = .error .authorizationFailed
      ↔ ¬ Admits (httpRules s path inline) exec := by
  have hsets : {r | r ∈ (s.routeRules path inline
      ++ s.sharedRules path).filterMap (·.authorization?)}
      = httpRules s path inline := Set.ext fun r => mem_routePolicies h
  rw [← hsets, ← validate_iff, Bool.not_eq_true]
  refine authorize_of_validate _ _ ?_ exec
  simp only [Store.routePolicies, foldl_collectTraffic, nil_append]

-- ======== MCP

/-- The levels of an MCP call, down to the backend. -/
def RoutePath.callLevels (path : RoutePath) (backend : BackendTarget) : List PolicyTarget :=
  routeLevels path.routes
    ++ ([.backend backend, .backend backend.stripSection] ++ listenerLevels path.listener)

/-- The MCP authorization rules that a lookup comes by on the path of a call, down
to the backend. -/
def mcpRules (s : Store (PolicyType F E V) B) (path : RoutePath)
    (backend : BackendTarget) (inline : List (List (BackendTrafficPolicy E V))) : Set (RuleSet E) :=
  {r | (∃ t ∈ path.callLevels backend, s.Attached t (.backend (.mcpAuthorization r)))
    ∨ ∃ pols ∈ inline, .mcpAuthorization r ∈ pols}

/-- The MCP authorization rules on the path, down to the backend. -/
def attachedMcp (s : Store (PolicyType F E V) B) (path : RoutePath) (port : UInt16)
    (backend : BackendTarget) : Set (RuleSet E) :=
  {r | ∃ t ∈ path.allLevels port backend, s.Attached t (.backend (.mcpAuthorization r))}

/-- The MCP authorization rules on a target of the backend. -/
def targetRules (s : Store (PolicyType F E V) B) (group : ResourceName)
    (target : McpTargetSpec E V) : Set (RuleSet E) :=
  {r | s.Attached (.backend (.backend group.name group.ns (some target.name)))
      (.backend (.mcpAuthorization r))
    ∨ ∃ pols ∈ target.inlinePolicies, .mcpAuthorization r ∈ pols}

def lookupLevels (backend subBackend : Option BackendTarget)
    (gateway : Option ListenerName) (routes : List RouteName) : List PolicyTarget :=
  routeLevels routes ++ ((subBackend.map PolicyTarget.backend).toList
    ++ (backend.map PolicyTarget.backend).toList ++ gateway.elim [] listenerLevels)

theorem mem_backendKeys {backend subBackend : Option BackendTarget}
    {gateway : Option ListenerName} {routes : List RouteName} :
    key ∈ s.backendKeys backend subBackend gateway routes
      ↔ ∃ t ∈ lookupLevels backend subBackend gateway routes, key ∈ s.policyKeys t := by
  have hroutes : (∃ route ∈ routes, key ∈ s.policyKeys (asRouteRuleTarget route)
        ∨ key ∈ s.policyKeys (asRouteTarget route))
      ↔ ∃ t ∈ routeLevels routes, key ∈ s.policyKeys t := by
    simp only [routeLevels, mem_flatMap]
    grind
  have hbackend : ∀ target : Option BackendTarget,
      (key ∈ target.elim [] fun t => s.policyKeys (.backend t))
        ↔ ∃ t ∈ (target.map PolicyTarget.backend).toList, key ∈ s.policyKeys t := by
    intro target
    cases target <;> simp
  have hgateway : (key ∈ gateway.elim [] fun t => s.policyKeys (asListenerTarget t))
        ∨ (key ∈ gateway.elim [] fun t => s.policyKeys (asGatewayTarget t))
      ↔ ∃ t ∈ gateway.elim [] listenerLevels, key ∈ s.policyKeys t := by
    cases gateway <;> simp [listenerLevels]
  simp only [Store.backendKeys, lookupLevels, mem_append, mem_flatMap,
    mem_reverse, or_and_right, exists_or, hroutes, hbackend, ← hgateway, or_assoc]

theorem mem_internalBackendPolicies (h : s.Indexed) (backend subBackend : Option BackendTarget)
    (inline : List (List (BackendTrafficPolicy E V)))
    (gateway : Option ListenerName) (routes : List RouteName) (r : RuleSet E) :
    r ∈ (s.internalBackendPolicies backend subBackend inline gateway
        routes).mcpAuthorization.getD [] ↔ (∃ pols ∈ inline, .mcpAuthorization r ∈ pols)
        ∨ ∃ t ∈ lookupLevels backend subBackend gateway routes,
          s.Attached t (.backend (.mcpAuthorization r)) := by
  have hkeys : ∀ key, key ∈ (s.backendKeys backend subBackend gateway routes).eraseDups
      ↔ ∃ t ∈ lookupLevels backend subBackend gateway routes, key ∈ s.policyKeys t := by
    intro key
    rw [mem_eraseDups, mem_backendKeys]
  have hgetD : ∀ authz : RuleSets E,
      (if authz.isEmpty then none else some authz : Option (RuleSets E)).getD [] = authz := by
    intro authz
    cases authz <;> rfl
  rw [← mem_policiesOf_iff h _ _ hkeys]
  simp only [Store.internalBackendPolicies, foldl_collectBackend, nil_append, hgetD,
    Store.backendRules, mem_filterMap, mcpAuthorization?_eq_some]
  simp [asBackend_eq_some]

theorem mem_backendPolicies (h : s.Indexed) (path : RoutePath) (backend : BackendTarget)
    (inline : List (List (BackendTrafficPolicy E V))) (r : RuleSet E) :
    r ∈ (s.backendPolicies backend inline (some path)).mcpAuthorization.getD []
      ↔ r ∈ mcpRules s path backend inline := by
  rw [Store.backendPolicies, mem_internalBackendPolicies h]
  exact or_comm

theorem mem_subBackendPolicies (h : s.Indexed) (group : ResourceName)
    (target : McpTargetSpec E V) (r : RuleSet E) :
    r ∈ (s.subBackendPolicies (.backend group.name group.ns (some target.name))
        target.inlinePolicies).mcpAuthorization.getD [] ↔ r ∈ targetRules s group target := by
  rw [Store.subBackendPolicies, mem_internalBackendPolicies h]
  simp [lookupLevels, routeLevels, targetRules, or_comm]

theorem merge_keeps_iff (base other : BackendPolicies E V)
    (hother : other.mcpAuthorization ≠ some []) :
    (∀ r, r ∈ base.mcpAuthorization.getD [] ∨ r ∈ other.mcpAuthorization.getD [] →
        r ∈ (base.merge other).mcpAuthorization.getD []) ↔ other.mcpAuthorization.getD [] = []
        ∨ ∀ r ∈ base.mcpAuthorization.getD [], r ∈ other.mcpAuthorization.getD [] := by
  unfold BackendPolicies.merge
  cases hset : other.mcpAuthorization with
  | none => simp
  | some rs =>
    have hne : rs ≠ [] := fun heq => hother (by rw [hset, heq])
    simp only [Option.some_or, Option.getD_some, hne, false_or]
    constructor
    · intro h r hr
      exact h r (.inl hr)
    · rintro h r (hr | hr)
      · exact h r hr
      · exact hr

-- ======== all levels

section Assembly

variable (s) (path : RoutePath) (port : UInt16) (routeInline : List (List (TrafficPolicy E V)))
  (backend : BackendTarget) (inline : List (List (BackendTrafficPolicy E V)))
  (group : ResourceName) (targets : List (McpTargetSpec E V))

/-- Every rule on the path of a request or of a call to a target of an MCP
backend is respected, and the policies of the target have them all. -/
structure Accumulates : Prop where
  http : ∀ exec,
    (∃ r ∈ httpRules s path routeInline ∪ attachedHttp s path port backend, r.Objects exec) →
    (s.routePolicies path routeInline).authorize exec = .error .authorizationFailed
  mcp : ∀ target ∈ targets, ∀ exec, (∃ r ∈ mcpRules s path backend inline
      ∪ (attachedMcp s path port backend ∪ targetRules s group target), r.Objects exec) →
    (s.serve group targets (s.backendPolicies backend inline
      (some path))).policies.validate exec = false
  merged : List.Forall₂
    (fun spec target => ∀ r ∈ mcpRules s path backend inline ∪ targetRules s group spec,
      r ∈ target.backendPolicies.mcpAuthorization.getD [])
    targets (s.serve group targets (s.backendPolicies backend inline (some path))).targets

/-- Nothing on the path is passed over: what no lookup comes by, and what the
target adds, is there anyway, and a target with rules has those of the backend as
well. -/
structure NothingPassedOver : Prop where
  http : Covers (httpRules s path routeInline) (attachedHttp s path port backend)
  target : ∀ target ∈ targets, Covers (mcpRules s path backend inline)
    (attachedMcp s path port backend ∪ targetRules s group target)
  merged : ∀ target ∈ targets, targetRules s group target = ∅
    ∨ mcpRules s path backend inline ⊆ targetRules s group target

variable {s path port routeInline backend inline group targets} (h : s.Indexed)
include h

theorem http_respected_iff :
    (∀ exec, (∃ r ∈ httpRules s path routeInline ∪ attachedHttp s path port backend,
        r.Objects exec) →
      (s.routePolicies path routeInline).authorize exec = .error .authorizationFailed)
      ↔ Covers (httpRules s path routeInline) (attachedHttp s path port backend) := by
  simp only [authorize_iff h]
  exact union_covers_iff _ _

theorem serve_validate_iff (exec : Executor E) :
    (s.serve group targets (s.backendPolicies backend inline
        (some path))).policies.validate exec = false
      ↔ ¬ Admits (mcpRules s path backend inline) exec := by
  have hsets : {r | r ∈ (s.serve group targets (s.backendPolicies backend inline
      (some path))).policies} = mcpRules s path backend inline :=
    Set.ext fun r => mem_backendPolicies h path backend inline r
  rw [← hsets, ← validate_iff, Bool.not_eq_true]

theorem merged_iff (target : McpTargetSpec E V) :
    (∀ r ∈ mcpRules s path backend inline ∪ targetRules s group target,
      r ∈ ((s.backendPolicies backend inline (some path)).merge
        (s.subBackendPolicies (.backend group.name group.ns (some target.name))
          target.inlinePolicies)).mcpAuthorization.getD []) ↔ targetRules s group target = ∅
        ∨ mcpRules s path backend inline ⊆ targetRules s group target := by
  have hkeeps := merge_keeps_iff (s.backendPolicies backend inline (some path))
    (s.subBackendPolicies (.backend group.name group.ns (some target.name))
      target.inlinePolicies) (by
        -- a lookup that finds nothing sets nothing
        unfold Store.subBackendPolicies Store.internalBackendPolicies
        dsimp only
        split
        · simp
        · rename_i hne
          intro h
          simp [Option.some.inj h] at hne)
  simp only [eq_nil_iff_forall_not_mem, mem_backendPolicies h, mem_subBackendPolicies h] at hkeeps
  rw [Set.eq_empty_iff_forall_notMem]
  exact hkeeps

end Assembly

namespace Sample

def listener : ListenerName := ⟨"gw", "default", "http", some ⟨"set", "default"⟩⟩

def path : RoutePath := ⟨listener, none, []⟩

def group : ResourceName := ⟨"mcp", "default"⟩

def backend : BackendTarget := .backend "mcp" "default" none

def denies (rule : Strng) : RuleSet Strng := ⟨[], [rule], []⟩

abbrev Policy := TargetedPolicy (PolicyType Unit Strng Unit)

abbrev Update := XdsUpdate (PolicyType Unit Strng Unit) Unit

/-- The gateway denies some requests. -/
def gatewayHttp : Policy :=
  ⟨"p1", asGatewayTarget listener, .traffic .route (.authorization (denies "admin"))⟩

/-- The gateway denies some calls. -/
def gatewayMcp : Policy :=
  ⟨"p2", asGatewayTarget listener, .backend (.mcpAuthorization (denies "delete"))⟩

/-- A target denies some calls of its own. -/
def targetMcp : Policy :=
  ⟨"p3", .backend (.backend "mcp" "default" (some "files")),
    .backend (.mcpAuthorization (denies "drop"))⟩

def gatewayUpdates : List Update :=
  [.update "r1" (.policy gatewayHttp), .update "r2" (.policy gatewayMcp)]

def targetUpdates : List Update :=
  gatewayUpdates ++ [.update "r3" (.policy targetMcp)]

def store (updates : List Update) : Store (PolicyType Unit Strng Unit) Unit :=
  ((Store.empty false).handle updates).getD (Store.empty false)

def files : McpTargetSpec Strng Unit := ⟨"files", none⟩

/-- What decides on calls to the target, and what the target gets. -/
def relayInputs (updates : List Update) : RelayInputs Strng Unit :=
  (store updates).serve group [files] ((store updates).backendPolicies backend [] (some path))

end Sample

theorem covers_of_subset {base extra : Set (RuleSet E)} (h : extra ⊆ base) :
    Covers base extra := by
  refine .inr ⟨?_, ?_⟩
  · rintro e ⟨r, hr, he⟩
    exact ⟨r, h hr, he⟩
  · rintro e ⟨r, hr, he⟩
    exact .inl ⟨r, h hr, he⟩

open Sample in
theorem sample_policies {p : PolicyType Unit Strng Unit} (h : (store gatewayUpdates).Attached t p) :
    t = asGatewayTarget listener ∧ (p = gatewayHttp.policy ∨ p = gatewayMcp.policy) := by
  obtain ⟨key, pol, hget, rfl, rfl⟩ := h
  have hmem := AssocMap.mem_values.2 ⟨key, hget⟩
  obtain rfl | rfl : pol = gatewayHttp ∨ pol = gatewayMcp := by
    simpa using (show pol ∈ [gatewayHttp, gatewayMcp] from hmem)
  · exact ⟨rfl, .inl rfl⟩
  · exact ⟨rfl, .inr rfl⟩

open Sample in
theorem sample_nothing_passed_over :
    NothingPassedOver (store gatewayUpdates) path 80 [] backend [] group [files] := by
  have htarget : ∀ r, r ∉ targetRules (store gatewayUpdates) group files := by
    rintro r (hattached | ⟨pols, hpols, -⟩)
    · cases (sample_policies hattached).1
    · cases hpols
  refine ⟨covers_of_subset ?_, fun target ht => covers_of_subset ?_, fun target ht => ?_⟩
  · rintro r ⟨t, -, phase, hattached⟩
    obtain ⟨rfl, h | h⟩ := sample_policies hattached
    · cases h
      exact .inl ⟨_, by decide, hattached⟩
    · cases h
  · obtain rfl := mem_singleton.1 ht
    rintro r (⟨t, -, hattached⟩ | hr)
    · obtain rfl := (sample_policies hattached).1
      exact .inl ⟨_, by decide, hattached⟩
    · exact absurd hr (htarget r)
  · obtain rfl := mem_singleton.1 ht
    exact .inl (Set.eq_empty_iff_forall_notMem.2 htarget)

end AgentGateway.Binds
