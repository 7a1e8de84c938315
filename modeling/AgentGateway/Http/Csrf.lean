/-
Protection against forged cross-site requests (`http/csrf.rs`).

Browsers say where a request comes from, by `Sec-Fetch-Site` or by `Origin`;
one that says neither passes.

# Where it breaks

An `Origin` of `null` is taken for none, so without `Sec-Fetch-Site` any page
with an opaque origin passes. An origin is compared with the target as a text,
though it has many spellings. And without an authority, or with a
`Sec-Fetch-Site` that is not text, a request fails before the trusted origins
are looked at.
-/
import AgentGateway.Http.PolicyResponse

namespace AgentGateway.Http

inductive Method
  | get | head | options | other

/-- What `HeaderValue::to_str` makes of a value, whose bytes may be no text. -/
abbrev HeaderText := Option Strng

/-- What the policy reads of a request; of each header, the first value. -/
structure Request where
  method : Method
  secFetchSite : Option HeaderText
  origin : Option HeaderText
  scheme : Option Strng
  authority : Option Strng

/-- `filters::Error`, of which there is one kind here. -/
inductive FilterError
  | invalidFilterConfiguration (message : Strng)

structure Csrf where
  additionalOrigins : List Strng

namespace Csrf

open FilterError

def isSafeMethod : Method → Bool
  | .get | .head | .options => true
  | .other => false

def getOriginHeader (req : Request) : Except FilterError (Option Strng) :=
  match req.origin with
  | none => .ok none
  | some none => .error (invalidFilterConfiguration "malformed origin header")
  | some (some origin) => .ok (if origin = "null" then none else some origin)

def getSecFetchSiteHeader (req : Request) : Except FilterError (Option Strng) :=
  match req.secFetchSite with
  | none => .ok none
  | some none => .error (invalidFilterConfiguration "malformed Sec-Fetch-Site header")
  | some (some site) => .ok (some site)

def targetOrigin (req : Request) (authority : Strng) : Strng :=
  req.scheme.getD "http" ++ "://" ++ authority

def getTargetOrigin (req : Request) : Except FilterError Strng :=
  match req.authority with
  | none => .error (invalidFilterConfiguration "missing authority in URI")
  | some authority => .ok (targetOrigin req authority)

variable (csrf : Csrf) (req : Request)

def isRequestExempt : Except FilterError Bool := do
  match ← getOriginHeader req with
  | some origin => return csrf.additionalOrigins.contains origin
  | none => return false

/-- A response has its status and its body beside the headers. -/
def createForbiddenResponse : PolicyResponse (Nat × Strng) :=
  ⟨some ⟨.empty, 403, "CSRF validation failed"⟩, none⟩

def apply : Except FilterError (PolicyResponse (Nat × Strng)) := do
  if isSafeMethod req.method then return .default
  match ← getSecFetchSiteHeader req with
  | some site =>
    if site = "same-origin" ∨ site = "none" then return .default
    if ← csrf.isRequestExempt req then return .default
    return createForbiddenResponse
  | none =>
    let some origin ← getOriginHeader req | return .default
    let target ← getTargetOrigin req
    if origin = target then return .default
    if ← csrf.isRequestExempt req then return .default
    return createForbiddenResponse

-- ======== what it is for

structure Origin where
  scheme : List Char
  host : List Char
  port : Option Nat

/-- What is before and after `://`. -/
def splitScheme : List Char → Option (List Char × List Char)
  | [] => none
  | c :: text =>
    if (c :: text).take 3 = "://".toList then some ([], text.drop 2)
    else (splitScheme text).map fun (scheme, rest) => (c :: scheme, rest)

def defaultPort (scheme : List Char) : Option Nat :=
  if scheme = "http".toList then some 80
  else if scheme = "https".toList then some 443
  else none

/-- Case does not matter, a port may be left out, and what is before an `@` is
not part of it. -/
def Origin.ofParts (scheme authority : List Char) : Origin :=
  let scheme := scheme.map Char.toLower
  let server := (authority.reverse.takeWhile (· ≠ '@')).map Char.toLower
  let digits := (server.takeWhile Char.isDigit).reverse
  match server.dropWhile Char.isDigit with
  | ':' :: host => ⟨scheme, host.reverse,
      if digits = [] then defaultPort scheme else (String.ofList digits).toNat?⟩
  | _ => ⟨scheme, server.reverse, defaultPort scheme⟩

/-- The origin that a text denotes. -/
def Origin.parse (text : Strng) : Option Origin :=
  (splitScheme text.toList).map fun (scheme, authority) => .ofParts scheme authority

def SameOrigin (a b : Strng) : Prop := ∃ o, Origin.parse a = some o ∧ Origin.parse b = some o

def Trusted (origin : Strng) : Prop := origin ≠ "null" ∧ origin ∈ csrf.additionalOrigins

/-- The requests that should pass. -/
def Admissible : Prop :=
  (∃ site, req.secFetchSite = some site ∧ (site = some "same-origin" ∨ site = some "none"
      ∨ ∃ origin, req.origin = some (some origin) ∧ csrf.Trusted origin))
    ∨ req.secFetchSite = none ∧ (req.origin = none ∨ ∃ origin, req.origin = some (some origin)
      ∧ ((∃ authority, req.authority = some authority
          ∧ SameOrigin origin (targetOrigin req authority)) ∨ csrf.Trusted origin))

/-- None of what breaks it: a trusted origin where there is an error, and, without
`Sec-Fetch-Site`, `null` or another spelling of the target. -/
def Plain : Prop :=
  ∀ origin, req.origin = some (some origin) →
    match req.secFetchSite, req.authority with
    | some (some _), _ => True
    | some none, _ => ¬ csrf.Trusted origin
    | none, none => origin ≠ "null" ∧ ¬ csrf.Trusted origin
    | none, some authority => origin ≠ "null" ∧ (SameOrigin origin (targetOrigin req authority) →
        origin = targetOrigin req authority ∨ csrf.Trusted origin)

theorem splitScheme_append (scheme authority : List Char) :
    splitScheme (scheme ++ "://".toList ++ authority) ≠ none := by
  induction scheme with
  | nil => simp [splitScheme]
  | cons c scheme ih =>
    rw [List.cons_append, List.cons_append, splitScheme]
    split
    · simp
    · simpa using ih

theorem sameOrigin_target (authority : Strng) :
    SameOrigin (targetOrigin req authority) (targetOrigin req authority) := by
  have hsplit := splitScheme_append (req.scheme.getD "http").toList authority.toList
  obtain ⟨parts, hsplit⟩ := Option.ne_none_iff_exists'.1 hsplit
  rw [← String.toList_append, ← String.toList_append] at hsplit
  have hparse := congrArg (Option.map fun parts => Origin.ofParts parts.1 parts.2) hsplit
  exact ⟨_, hparse, hparse⟩

theorem not_sameOrigin_null (text : Strng) : ¬ SameOrigin "null" text := by
  rintro ⟨o, ho, -⟩
  cases ho

/-- Both ways through `apply` end with this. -/
theorem exempt_iff (c : Prop) [Decidable c] : (do
      if c then return .default
      if ← csrf.isRequestExempt req then return .default
      return createForbiddenResponse) = Except.ok (ε := FilterError) PolicyResponse.default
    ↔ c ∨ ∃ origin, req.origin = some (some origin) ∧ csrf.Trusted origin := by
  by_cases hc : c
  · exact iff_of_true (if_pos hc) (.inl hc)
  rw [if_neg hc, or_iff_right hc, isRequestExempt, getOriginHeader]
  rcases req.origin with _ | _ | origin
  · simp [bind, Except.bind, pure, Except.pure, createForbiddenResponse, PolicyResponse.default]
  · simp [bind, Except.bind]
  · simp only [Option.some.injEq, exists_eq_left', Trusted]
    by_cases hnull : origin = "null" <;> simp [hnull, bind, Except.bind, pure, Except.pure,
      createForbiddenResponse, PolicyResponse.default]

theorem apply_eq_default (hmethod : isSafeMethod req.method = false) :
    csrf.apply req = .ok .default ↔
      (∃ site, req.secFetchSite = some (some site) ∧ ((site = "same-origin" ∨ site = "none")
        ∨ ∃ origin, req.origin = some (some origin) ∧ csrf.Trusted origin))
      ∨ req.secFetchSite = none ∧ (req.origin = none ∨ ∃ origin, req.origin = some (some origin)
        ∧ (origin = "null" ∨ ∃ authority, req.authority = some authority
          ∧ (origin = targetOrigin req authority ∨ csrf.Trusted origin))) := by
  have hexempt := csrf.exempt_iff req
  unfold apply getSecFetchSiteHeader
  rw [hmethod]
  rcases req.secFetchSite with _ | _ | site
  · rcases horigin : req.origin with _ | _ | origin
    · rw [getOriginHeader, horigin]
      exact iff_of_true rfl (.inr ⟨rfl, .inl rfl⟩)
    · rw [getOriginHeader, horigin]
      simp [bind, Except.bind]
    · by_cases hnull : origin = "null"
      · rw [getOriginHeader, horigin, hnull]
        exact iff_of_true rfl (.inr ⟨rfl, .inr ⟨_, rfl, .inl rfl⟩⟩)
      · have hget : getOriginHeader req = .ok (some origin) := by
          rw [getOriginHeader, horigin]
          exact congrArg _ (if_neg hnull)
        rw [hget, getTargetOrigin]
        rcases req.authority with _ | authority
        · simp [bind, Except.bind, hnull]
        · refine (hexempt (origin = targetOrigin req authority)).trans ?_
          simp [horigin, hnull]
  · simp [bind, Except.bind]
  · refine (hexempt (site = "same-origin" ∨ site = "none")).trans ?_
    simp

/-- A request passes just when it should, where the headers are plain. -/
theorem passes_iff_admissible (hmethod : isSafeMethod req.method = false) :
    (csrf.apply req = .ok .default ↔ csrf.Admissible req) ↔ csrf.Plain req := by
  have hnull : ¬ csrf.Trusted "null" := fun h => h.1 rfl
  rw [csrf.apply_eq_default req hmethod, Admissible, Plain]
  rcases req.origin with _ | _ | origin
  · rcases req.secFetchSite with _ | _ | site <;> simp
  · rcases req.secFetchSite with _ | _ | site <;> simp
  rcases req.secFetchSite with _ | _ | site
  · rcases req.authority with _ | authority
    · simp
      grind
    · simp
      grind [sameOrigin_target, not_sameOrigin_null]
  · simp
  · simp [or_assoc]

/-- A page of another site, in a frame that hides its origin. -/
theorem null_origin_passes : ∃ (csrf : Csrf) (req : Request), isSafeMethod req.method = false
    ∧ csrf.apply req = .ok .default ∧ ¬ csrf.Admissible req := by
  refine ⟨⟨[]⟩, ⟨.other, none, some (some "null"), none, some "example.com"⟩, rfl, rfl, ?_⟩
  simp [Admissible, Trusted, not_sameOrigin_null]

theorem passes_iff_admissible_same_origin : ∃ (csrf : Csrf) (req : Request),
    isSafeMethod req.method = false ∧ csrf.Plain req
      ∧ (csrf.apply req = .ok .default ↔ csrf.Admissible req) := by
  let req : Request := ⟨.other, none, some (some "http://host"), none, some "host"⟩
  have hplain : Plain ⟨[]⟩ req := by simp [req, Plain, targetOrigin]
  exact ⟨_, req, rfl, hplain, (passes_iff_admissible _ req rfl).2 hplain⟩

end Csrf

end AgentGateway.Http
