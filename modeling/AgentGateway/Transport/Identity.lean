/-
The identity of a client (`transport/tls.rs`, `types/agent.rs`,
`control/caclient.rs`).

The chain of a client's certificate is verified in the handshake, or after it
where the handshake lets every certificate pass. For a workload one of the names
must be of a trust domain that is allowed. Which chains a verifier accepts is
open, and so is how certificates are encoded.

# Where it breaks

The identity that policies get is the first of the names, which may be another
one than the name that is allowed.

# Left out

Why a handshake fails.
-/
import AgentGateway.Basic

namespace AgentGateway.Transport

-- ======== names

structure Identity where
  trustDomain : Strng
  ns : Strng
  serviceAccount : Strng
  deriving DecidableEq

/-- `Identity::from_str`. -/
def Identity.fromStr (s : Strng) : Option Identity :=
  let uriPrefix := "spiffe://".toList
  if uriPrefix.isPrefixOf s.toList then
    match ((s.toList.drop uriPrefix.length).splitOn '/').map String.ofList with
    | [trustDomain, key, ns, key', serviceAccount] =>
      if key ≠ "ns" ∨ key' ≠ "sa" then none else some ⟨trustDomain, ns, serviceAccount⟩
    | _ => none
  else none

/-- A URI, or another name, with the text that a DNS name or an address has. -/
inductive GeneralName
  | uri (uri : Strng)
  | other (text : Option Strng)

/-- The alternative names, if there are any (reading them may fail), and what
`names` gives. -/
structure X509Certificate where
  subjectAlternativeName : Option (Option (List GeneralName))
  issuer : Strng
  subject : Strng
  subjectCn : Option Strng

/-- `sans`, the identities and the texts of all names. -/
def X509Certificate.sans (cert : X509Certificate) : Option (List Identity × List Strng) := do
  let names := (← cert.subjectAlternativeName).getD []
  return (names.filterMap fun
      | .uri uri => Identity.fromStr uri
      | .other _ => none,
    names.filterMap fun
      | .uri uri => some uri
      | .other text => text)

/-- What policies get of a certificate. -/
structure TlsInfo where
  identity : Option Identity
  subjectAltNames : List Strng
  issuer : Strng
  subject : Strng
  subjectCn : Option Strng
  deriving DecidableEq

-- ======== verification

variable {D : Type}

/-- What a verifier makes of an end entity and its intermediates. -/
abbrev Verifier (D : Type) := D → List D → Bool

/-- `verify_trust_domain`; `fromDer` is `X509Certificate::from_der`. -/
def verifyTrustDomain (fromDer : D → Option X509Certificate) (allowedTrustDomains : List Strng)
    (clientCert : D) : Bool :=
  if allowedTrustDomains.isEmpty then true
  else
    match (fromDer clientCert).bind (·.sans) with
    | some (ids, _) => ids.any (allowedTrustDomains.contains ·.trustDomain)
    | none => false

/-- How clients are verified: with the certificate of the workload, or with
one that is configured. -/
inductive ServerTlsConfig (D : Type)
  | istioWorkload (mtls : Bool) (roots : Verifier D) (allowedTrustDomains : List Strng)
      (skipValidateTrustDomain : Bool)
  | static (roots : Option (Verifier D)) (allowInsecureMtls : Bool)

namespace ServerTlsConfig

variable (fromDer : D → Option X509Certificate) (config : ServerTlsConfig D)

/-- The verifier of the handshake (`server_config`, `build_server_config`),
and whether a client must show a certificate. -/
def clientCertVerifier : Option (Verifier D × Bool) :=
  match config with
  | istioWorkload mtls roots allowed skip =>
    if mtls then
      some (if skip then roots
        else fun cert more => roots cert more && verifyTrustDomain fromDer allowed cert, true)
    else none
  | static none _ => none
  | static (some roots) insecure =>
    some (if insecure then (fun _ _ => true, false) else (roots, true))

/-- The certificates of the client after the handshake; `none` if it fails. -/
def handshake (shown : List D) : Option (List D) :=
  match config.clientCertVerifier fromDer, shown with
  | none, _ => some []
  | some (_, mandatory), [] => if mandatory then none else some []
  | some (verify, _), cert :: more => if verify cert more then some (cert :: more) else none

def includeSrcIdentityForConnection (peerCertificates : List D) : Bool :=
  match config, peerCertificates with
  | istioWorkload .., _ | static _ false, _ => true
  | static (some verifier) true, cert :: more => verifier cert more
  | static _ true, _ => false

def identityFromConnection (peerCertificates : List D) : Option TlsInfo := do
  let cert ← fromDer (← peerCertificates.head?)
  let (ids, sans) ← cert.sans
  return ⟨ids.head?, sans, cert.issuer, cert.subject, cert.subjectCn⟩

/-- What a connection gets of the client. -/
def srcIdentity (shown : List D) : Option TlsInfo := do
  let certs ← config.handshake fromDer shown
  if config.includeSrcIdentityForConnection certs then identityFromConnection fromDer certs
  else none

-- ======== what was verified

def roots? : Option (Verifier D) :=
  match config with
  | istioWorkload true roots .. => some roots
  | istioWorkload false .. => none
  | static roots _ => roots

/-- The trust domains that are asked for, none if there is no restriction. -/
def restriction : List Strng :=
  match config with
  | istioWorkload true _ allowed false => allowed
  | _ => []

/-- The chain is good. -/
def Validates (shown : List D) : Prop :=
  ∃ cert more roots, shown = cert :: more ∧ config.roots? = some roots ∧ roots cert more

/-- If the chain is good and some identity of the certificate is allowed, the
first one is. -/
def FirstAllowed (shown : List D) : Prop :=
  ∀ cert ∈ shown.head?, ∀ id rest sans, (fromDer cert).bind (·.sans) = some (id :: rest, sans) →
    config.Validates shown → (∃ other ∈ rest, other.trustDomain ∈ config.restriction) →
    id.trustDomain ∈ config.restriction

variable {fromDer config} {shown : List D} {info : TlsInfo}

@[simp] theorem identityFromConnection_nil : identityFromConnection fromDer [] = none := rfl

theorem identityFromConnection_cons {cert : D} {more : List D} :
    identityFromConnection fromDer (cert :: more) = some info ↔ ∃ x ids sans, fromDer cert = some x
      ∧ x.sans = some (ids, sans)
      ∧ info = ⟨ids.head?, sans, x.issuer, x.subject, x.subjectCn⟩ := by
  cases h : fromDer cert <;>
    simp [identityFromConnection, h, Option.bind_eq_some_iff, eq_comm (a := info)]

theorem verifyTrustDomain_iff {allowed : List Strng} {cert : D} {ids : List Identity}
    {sans : List Strng} (h : (fromDer cert).bind (·.sans) = some (ids, sans)) :
    verifyTrustDomain fromDer allowed cert ↔
      allowed = [] ∨ ∃ i ∈ ids, i.trustDomain ∈ allowed := by
  simp [verifyTrustDomain, h]

/-- Where it comes from. -/
theorem srcIdentity_eq_some : config.srcIdentity fromDer shown = some info ↔
    ∃ cert more x ids sans, shown = cert :: more ∧ config.Validates shown
      ∧ fromDer cert = some x ∧ x.sans = some (ids, sans)
      ∧ info = ⟨ids.head?, sans, x.issuer, x.subject, x.subjectCn⟩
      ∧ (config.restriction = [] ∨ ∃ i ∈ ids, i.trustDomain ∈ config.restriction) := by
  unfold srcIdentity handshake clientCertVerifier includeSrcIdentityForConnection Validates
  -- one case for every kind of configuration
  rcases shown with _ | ⟨cert, more⟩
  · rcases config with ⟨_ | _, roots, allowed, _ | _⟩ | ⟨_ | roots, _ | _⟩ <;> simp
  · rcases config with ⟨_ | _, roots, allowed, _ | _⟩ | ⟨_ | roots, _ | _⟩ <;>
      simp [roots?, restriction] <;>
      grind [verifyTrustDomain_iff, identityFromConnection_cons]

/-- Something of a client is known only if its chain is good, and the identity is
one that was verified, just where the first of the certificate is. -/
theorem identity_verified_iff :
    (∀ info, config.srcIdentity fromDer shown = some info → config.Validates shown
        ∧ ∀ id ∈ info.identity, config.restriction = [] ∨ id.trustDomain ∈ config.restriction)
      ↔ config.FirstAllowed fromDer shown := by
  unfold FirstAllowed
  constructor
  · rintro h cert hcert id rest sans hids hvalid ⟨other, hother, hallowed⟩
    obtain ⟨more, rfl⟩ := List.head?_eq_some_iff.1 hcert
    obtain ⟨x, hx, hsans⟩ := Option.bind_eq_some_iff.1 hids
    have hsome := srcIdentity_eq_some.2 ⟨cert, more, x, _, sans, rfl, hvalid, hx, hsans, rfl,
      .inr ⟨other, .tail _ hother, hallowed⟩⟩
    exact ((h _ hsome).2 id rfl).resolve_left (List.ne_nil_of_mem hallowed)
  · intro h info hsome
    obtain ⟨cert, more, x, ids, sans, rfl, hvalid, hx, hsans, rfl, hnone | ⟨i, hi, hallowed⟩⟩ :=
      srcIdentity_eq_some.1 hsome
    · exact ⟨hvalid, fun _ _ => .inl hnone⟩
    · refine ⟨hvalid, fun id hid => .inr ?_⟩
      obtain ⟨rest, rfl⟩ := List.head?_eq_some_iff.1 hid
      rcases List.mem_cons.1 hi with rfl | hi
      · exact hallowed
      · exact h cert rfl id rest sans (by rw [hx]; exact hsans) hvalid ⟨i, hi, hallowed⟩

theorem second_name_admits_first :
    srcIdentity some (.istioWorkload true (fun _ _ => true) ["good"] false)
        [⟨some (some [.uri "spiffe://bad/ns/a/sa/b", .uri "spiffe://good/ns/a/sa/b"]), "", "",
          none⟩]
      = some ⟨some ⟨"bad", "a", "b"⟩, ["spiffe://bad/ns/a/sa/b", "spiffe://good/ns/a/sa/b"], "", "",
          none⟩ := by
  decide +kernel

end ServerTlsConfig

end AgentGateway.Transport
