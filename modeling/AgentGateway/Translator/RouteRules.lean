/-
The rules of an HTTPRoute (`translator/conversion.go`), as a listener gets them
(`computeRoute`) and as a route group does (`buildDelegatedHTTPRoutes`).

Both call `ConvertHTTPRouteToAgw`. It fails, or it gives a route and, if a backend of
the rule does not resolve, an error with it.

# Where it breaks

A listener gets a rule that has an error with it, so that its requests are answered
with one, and gets no rule at all if one fails. A group gets neither, and the others.

# Left out

Key, listener and group key, service and hostnames, in which the two are to differ;
type and text of conditions. How a match, a filter, a timeout or a reference is
translated is in `RouteContext`.
-/
import AgentGateway.Basic

namespace AgentGateway.Translator

open List

/-- What is translated, and into what. -/
structure Api where
  (Match Filter Settings RouteMatch Policy BackendPolicy Backend : Type)

variable {τ : Api}

/-- The reason of a condition. -/
inductive RouteReason
  | invalidMatch | translationError | backendError | unsupportedValue | refNotPermitted
  | backendNotFound | invalidKind | filterNotSupported | filterConfigInvalid
  | other (reason : Strng)
  deriving DecidableEq

def isInvalidBackend (err : RouteReason) : Bool :=
  err = .refNotPermitted || err = .backendNotFound || err = .invalidKind

def isPolicyErrorCritical (err : RouteReason) : Bool :=
  err = .filterNotSupported || err = .filterConfigInvalid

structure HTTPBackendRef (τ : Api) where
  group : Option Strng
  kind : Option Strng
  ns : Option Strng
  name : Strng
  port : Option Nat
  weight : Option Int
  filters : List τ.Filter

/-- To an HTTPRoute: a delegation. The default is a Service. -/
def HTTPBackendRef.delegates (fwd : HTTPBackendRef τ) : Bool :=
  fwd.group = some "gateway.networking.k8s.io" && fwd.kind = some "HTTPRoute"

/-- The state of backends, grants and filters, for the routes of a namespace. What is
not a `BackendReferenceError` is an `invalidKind` too. -/
structure RouteContext (τ : Api) where
  ns : Strng
  createMatch : τ.Match → Option τ.RouteMatch
  trafficPolicies : List τ.Filter → List τ.Policy × Option RouteReason
  timeouts : τ.Settings → Option (List τ.Policy)
  retries : τ.Settings → Option (List τ.Policy)
  backendPolicies : List τ.Filter → Except RouteReason (List τ.BackendPolicy)
  backendAllowed : HTTPBackendRef τ → Bool
  routeBackend : HTTPBackendRef τ → Option τ.Backend × Option RouteReason

structure RouteBackend (τ : Api) where
  weight : Int
  backend : Option τ.Backend
  routeGroupKey : Option Strng
  backendPolicies : List τ.BackendPolicy

structure HTTPRouteRule (τ : Api) where
  name : Option Strng
  ruleMatches : List τ.Match
  filters : List τ.Filter
  settings : τ.Settings
  backendRefs : List (HTTPBackendRef τ)

structure HTTPRoute (τ : Api) where
  name : Strng
  rules : List (HTTPRouteRule τ)

structure Route (τ : Api) where
  ruleName : Option Strng
  routeMatches : List τ.RouteMatch
  trafficPolicies : List τ.Policy
  backends : List (RouteBackend τ)

variable (ctx : RouteContext τ) (fwd : HTTPBackendRef τ)

/-- To another namespace, without a grant. -/
def HTTPBackendRef.denied : Bool :=
  fwd.ns.any (· ≠ ctx.ns) && !ctx.backendAllowed fwd

def buildAgwDestination : RouteBackend τ × Option RouteReason :=
  if fwd.denied ctx then
    (⟨fwd.weight.getD 1, none, none, []⟩, some .refNotPermitted)
  else
    -- even in the error case, we still populate a partial backend
    (⟨fwd.weight.getD 1, (ctx.routeBackend fwd).1, none, []⟩, (ctx.routeBackend fwd).2)

/-- One backend of a rule of the route `name`. -/
def buildAgwHTTPBackend (name : Strng) (fwd : HTTPBackendRef τ) :
    Except RouteReason (RouteBackend τ × Option RouteReason) := do
  if fwd.delegates then
    return (⟨fwd.weight.getD 1, none, some (ctx.ns ++ "/" ++ name ++ "/"
      ++ fwd.ns.getD ctx.ns ++ "/" ++ fwd.name), []⟩, none)
  let (dst, err) := buildAgwDestination ctx fwd
  if let some err := err then
    if !isInvalidBackend err then throw err
  return ({ dst with backendPolicies := ← ctx.backendPolicies fwd.filters }, err)

/-- The last of the errors is kept. -/
def buildAgwHTTPDestination (name : Strng) : List (HTTPBackendRef τ) →
    Except RouteReason (List (RouteBackend τ) × Option RouteReason)
  | [] => return ([], none)
  | fwd :: forwardTo => do
      let (dst, err) ← buildAgwHTTPBackend ctx name fwd
      let (res, invalidBackendErr) ← buildAgwHTTPDestination name forwardTo
      return (dst :: res, invalidBackendErr.or err)

/-- An error without a route, or a route that may have an error with it. -/
def convertHTTPRouteToAgw (obj : HTTPRoute τ) (r : HTTPRouteRule τ) :
    Except RouteReason (Route τ × Option RouteReason) := do
  let routeMatches ← (r.ruleMatches.mapM ctx.createMatch).getDM (throw .invalidMatch)
  let (policies, policiesErr) := ctx.trafficPolicies r.filters
  let timeouts ← (ctx.timeouts r.settings).getDM (throw .translationError)
  let retries ← (ctx.retries r.settings).getDM (throw .translationError)
  let (backends, backendErr) ← (buildAgwHTTPDestination ctx obj.name
    r.backendRefs).mapError fun _ => .backendError
  if let some err := policiesErr then
    if !isPolicyErrorCritical err then throw err
  return (⟨r.name, routeMatches, policies ++ timeouts ++ retries, backends⟩, backendErr)

/-- `convertRules` of `computeRoute`: the error to report, and the routes. -/
def convertRules (obj : HTTPRoute τ) : List (HTTPRouteRule τ) →
    Option RouteReason × List (Route τ) → Option RouteReason × List (Route τ)
  | [], res => res
  | r :: rules, res =>
    match convertHTTPRouteToAgw ctx obj r with
    | .error err => (some err, [])
    | .ok (vs, err) => convertRules obj rules (err.or res.1, res.2 ++ [vs])

/-- What a listener gets. -/
def computeRoute (obj : HTTPRoute τ) : List (Route τ) :=
  (convertRules ctx obj obj.rules (none, [])).2

/-- A rule with an error is skipped. -/
def delegatedRule (obj : HTTPRoute τ) (rule : HTTPRouteRule τ) : Option (Route τ) :=
  match convertHTTPRouteToAgw ctx obj rule with
  | .ok (route, none) => some route
  | _ => none

/-- What a route group gets. -/
def buildDelegatedHTTPRoutes (obj : HTTPRoute τ) : List (Route τ) :=
  obj.rules.filterMap (delegatedRule ctx obj)

-- ======== what a rule comes to

/-- A backend that its rule cannot have. -/
def HTTPBackendRef.fails : Bool :=
  !fwd.delegates && (!(ctx.backendPolicies fwd.filters).isOk
    || !fwd.denied ctx && (ctx.routeBackend fwd).2.any (!isInvalidBackend ·))

/-- A backend that is denied, not found or of an invalid kind. -/
def HTTPBackendRef.unresolved : Bool :=
  !fwd.delegates && (fwd.denied ctx || (ctx.routeBackend fwd).2.isSome)

def HTTPRouteRule.fails (r : HTTPRouteRule τ) : Bool :=
  !(r.ruleMatches.all fun m => (ctx.createMatch m).isSome)
    || (ctx.timeouts r.settings).isNone || (ctx.retries r.settings).isNone
    || r.backendRefs.any (·.fails ctx)
    || (ctx.trafficPolicies r.filters).2.any (!isPolicyErrorCritical ·)

/-- A rule that can, with every backend in place. -/
def HTTPRouteRule.sound (r : HTTPRouteRule τ) : Bool :=
  !r.fails ctx && !r.backendRefs.any (·.unresolved ctx)

variable {ctx} (name : Strng)

theorem isSome_mapM {α β : Type} (f : α → Option β) (l : List α) :
    (l.mapM f).isSome = l.all fun a => (f a).isSome := by
  induction l with
  | nil => rfl
  | cons a l ih =>
    rw [mapM_cons, all_cons, ← ih]
    cases f a with
    | none => rfl
    | some b => cases l.mapM f <;> rfl

/-- Whether there is a result, and whether an error comes with it. -/
def outcome {α : Type} : Except RouteReason (α × Option RouteReason) → Option Bool
  | .error _ => none
  | .ok (_, err) => some err.isSome

/-- What a reference comes to, told by the reference alone. -/
theorem outcome_backend (fwd : HTTPBackendRef τ) : outcome (buildAgwHTTPBackend ctx name fwd)
      = if fwd.fails ctx then none else some (fwd.unresolved ctx) := by
  unfold buildAgwHTTPBackend buildAgwDestination HTTPBackendRef.fails HTTPBackendRef.unresolved
  cases fwd.delegates with
  | true => rfl
  | false =>
    cases fwd.denied ctx with
    | true => cases ctx.backendPolicies fwd.filters <;> rfl
    | false =>
      rcases ctx.routeBackend fwd with ⟨backend, - | err⟩
      · cases ctx.backendPolicies fwd.filters <;> rfl
      · cases err <;> cases ctx.backendPolicies fwd.filters <;> rfl

theorem outcome_destination (forwardTo : List (HTTPBackendRef τ)) :
    outcome (buildAgwHTTPDestination ctx name forwardTo)
      = if forwardTo.any (·.fails ctx) then none else some (forwardTo.any (·.unresolved ctx)) := by
  induction forwardTo with
  | nil => rfl
  | cons fwd forwardTo ih =>
    have hboth : outcome (buildAgwHTTPDestination ctx name (fwd :: forwardTo))
        = (outcome (buildAgwHTTPBackend ctx name fwd)).bind fun err =>
          (outcome (buildAgwHTTPDestination ctx name forwardTo)).map (err || ·) := by
      rw [buildAgwHTTPDestination]
      rcases buildAgwHTTPBackend ctx name fwd with - | ⟨-, - | -⟩ <;>
        rcases buildAgwHTTPDestination ctx name forwardTo with - | ⟨-, - | -⟩ <;> rfl
    rw [hboth, outcome_backend, ih, any_cons]
    cases fwd.fails ctx <;> cases forwardTo.any (·.fails ctx) <;> rfl

variable (obj : HTTPRoute τ) (r : HTTPRouteRule τ) {rules : List (HTTPRouteRule τ)}

theorem outcome_convert : outcome (convertHTTPRouteToAgw ctx obj r) = if r.fails ctx then none
      else some (r.backendRefs.any (·.unresolved ctx)) := by
  have hdst := @outcome_destination τ ctx obj.name r.backendRefs
  unfold convertHTTPRouteToAgw HTTPRouteRule.fails
  rw [← isSome_mapM]
  rcases r.ruleMatches.mapM ctx.createMatch with - | -
  · rfl
  rcases ctx.timeouts r.settings with - | -
  · rfl
  rcases ctx.retries r.settings with - | -
  · rfl
  generalize buildAgwHTTPDestination ctx obj.name r.backendRefs = dst at hdst ⊢
  generalize r.backendRefs.any (·.fails ctx) = fails at hdst ⊢
  cases fails with
  | true =>
    cases dst with
    | error => rfl
    | ok => cases hdst
  | false =>
    cases dst with
    | error => cases hdst
    | ok dst =>
      rcases ctx.trafficPolicies r.filters with ⟨policies, - | err⟩
      · exact hdst
      · rw [Option.any_some]
        dsimp only
        cases isPolicyErrorCritical err with
        | true => exact hdst
        | false => rfl

theorem convert_cases : (r.fails ctx ∧ r.sound ctx = false
        ∧ ∃ err, convertHTTPRouteToAgw ctx obj r = .error err)
      ∨ ∃ vs err, convertHTTPRouteToAgw ctx obj r = .ok (vs, err)
        ∧ r.fails ctx = false ∧ r.sound ctx = err.isNone := by
  have hout := @outcome_convert τ ctx obj r
  rw [HTTPRouteRule.sound]
  generalize convertHTTPRouteToAgw ctx obj r = conv at hout ⊢
  generalize r.fails ctx = fails at hout ⊢
  cases fails with
  | true =>
    cases conv with
    | error err => exact .inl ⟨rfl, rfl, err, rfl⟩
    | ok => cases hout
  | false =>
    cases conv with
    | error => cases hout
    | ok vs =>
      refine .inr ⟨vs.1, vs.2, rfl, rfl, ?_⟩
      rw [← Option.some.inj hout, Option.not_isSome]
      rfl

theorem isSome_delegatedRule : (delegatedRule ctx obj r).isSome = r.sound ctx := by
  rw [delegatedRule]
  obtain ⟨-, hsound, err, hconv⟩ | ⟨vs, err, hconv, -, hsound⟩ := convert_cases obj r
  · rw [hconv, hsound]
    rfl
  · rw [hconv, hsound]
    cases err <;> rfl

-- ======== the two

theorem convertRules_of_fails
    (h : ∃ r ∈ rules, r.fails ctx) (res : Option RouteReason × List (Route τ)) :
    (convertRules ctx obj rules res).2 = [] := by
  induction rules generalizing res with
  | nil => simp at h
  | cons r rules ih =>
    rw [convertRules]
    obtain ⟨-, -, err, hconv⟩ | ⟨vs, err, hconv, hfails, -⟩ := convert_cases obj r
    · rw [hconv]
    · rw [hconv]
      refine ih ?_ _
      simpa [hfails] using h

/-- If no rule fails there is a route for each, and for sound ones the one that a
group gets. -/
theorem convertRules_of_not_fails
    (h : ∀ r ∈ rules, r.fails ctx = false) (res : Option RouteReason × List (Route τ)) :
    ∃ routes, (convertRules ctx obj rules res).2 = res.2 ++ routes ∧ routes.length = rules.length
      ∧ ((∀ r ∈ rules, r.sound ctx) → routes = rules.filterMap (delegatedRule ctx obj)) := by
  induction rules generalizing res with
  | nil => exact ⟨[], (append_nil _).symm, rfl, fun _ => rfl⟩
  | cons r rules ih =>
    obtain ⟨hr, hrules⟩ := forall_mem_cons.1 h
    obtain ⟨hfails, -⟩ | ⟨vs, err, hconv, -, hsound⟩ := @convert_cases τ ctx obj r
    · cases hr.symm.trans hfails
    obtain ⟨routes, heq, hlen, hall⟩ := ih hrules (err.or res.1, res.2 ++ [vs])
    refine ⟨vs :: routes, ?_, congrArg _ hlen, fun hsounds => ?_⟩
    · rw [convertRules, hconv, append_cons]
      exact heq
    · obtain ⟨hs, hss⟩ := forall_mem_cons.1 hsounds
      cases Option.isNone_iff_eq_none.1 (hsound.symm.trans hs)
      have hvs : delegatedRule ctx obj r = some vs := by rw [delegatedRule, hconv]
      rw [filterMap_cons_some hvs, hall hss]

/-- A group gets what a listener does if and only if all rules are sound, or one
fails and none is sound. -/
theorem delegated_eq_direct_iff (ctx : RouteContext τ) (obj : HTTPRoute τ) :
    buildDelegatedHTTPRoutes ctx obj = computeRoute ctx obj ↔ (∀ r ∈ obj.rules, r.sound ctx)
        ∨ (∃ r ∈ obj.rules, r.fails ctx) ∧ ∀ r ∈ obj.rules, ¬ r.sound ctx := by
  unfold buildDelegatedHTTPRoutes computeRoute
  by_cases hfails : ∃ r ∈ obj.rules, r.fails ctx
  · rw [convertRules_of_fails obj hfails, filterMap_eq_nil_iff, and_iff_right hfails, or_iff_right]
    · refine forall₂_congr fun r _ => ?_
      rw [← isSome_delegatedRule obj, Bool.not_eq_true, Option.isSome_eq_false_iff,
        Option.isNone_iff_eq_none]
    · intro hsound
      obtain ⟨r, hr, hfails⟩ := hfails
      have hr := hsound r hr
      rw [HTTPRouteRule.sound, hfails] at hr
      cases hr
  · obtain ⟨routes, heq, hlen, hall⟩ := convertRules_of_not_fails obj
      (fun r hr => Bool.eq_false_iff.2 fun h => hfails ⟨r, hr, h⟩) (none, [])
    rw [heq, or_iff_left fun h => hfails h.1]
    refine ⟨fun h => ?_, fun h => (hall h).symm⟩
    have hcount := (congrArg length h).trans hlen
    rw [length_filterMap_eq_countP, countP_eq_length] at hcount
    intro r hr
    rw [← isSome_delegatedRule obj]
    exact hcount r hr

/-- A backend that is not there: the listener answers for it, the group does not. -/
theorem unresolved_rule_skipped : ¬ ∀ (τ : Api) (ctx : RouteContext τ) (obj : HTTPRoute τ),
      buildDelegatedHTTPRoutes ctx obj = computeRoute ctx obj := by
  intro h
  have hne := h ⟨Unit, Unit, Unit, Unit, Unit, Unit, Unit⟩
    ⟨"ns", some, fun _ => ([], none), fun _ => some [], fun _ => some [], fun _ => .ok [],
      fun _ => true, fun _ => (none, some .backendNotFound)⟩
    ⟨"r", [⟨none, [()], [], (), [⟨none, none, none, "svc", none, none, []⟩]⟩]⟩
  cases hne

end AgentGateway.Translator
