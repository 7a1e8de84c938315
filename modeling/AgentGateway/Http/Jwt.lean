/-
The key that a token is validated with (`Provider::from_jwks` and
`Jwt::validate_claims` of `http/jwt.rs`).

A token names its key by an id. Of one key set the last key of an id is kept,
and of several providers the first that has the id is asked; there is no second
attempt with another key. So the verdict is that of one of the keys on offer
under the id (`offers_of_findKey`), and if any is on offer one is found
(`findKey_of_offers`).

# Where it breaks

Two identity providers choose the ids of their keys independently. If they
choose the same one, tokens of the second are refused, which a different order
of the providers would accept.

# Left out

Where the token is in the request, the modes, and what is done with the claims.
-/
import AgentGateway.Basic
import AgentGateway.Lib.Except
import Mathlib.Data.Finset.Dedup
import Mathlib.Data.Finset.Insert

namespace AgentGateway.Http.Jwt

open Lib

inductive Algorithm
  | hs256 | hs384 | hs512 | es256 | es384 | rs256 | rs384 | rs512 | ps256 | ps384 | ps512
  | edDSA
  deriving DecidableEq

inductive EllipticCurve
  | p256 | p384 | p521 | ed25519

/-- The kind of a key, with its components. -/
inductive AlgorithmParameters (P : Type)
  | rsa (components : P)
  | ellipticCurve (components : P)
  | octetKeyPair (curve : EllipticCurve) (components : P)
  | octetKey (components : P)

/-- A key of a key set, with its algorithm if that is one for signatures. -/
structure RawJwk (P : Type) where
  keyId : Option Strng
  keyAlgorithm : Option Algorithm
  algorithm : AlgorithmParameters P

inductive JwkError
  | missingKeyId
  | decodingError (keyId error : Strng)
  | unexpectedAlgorithm (keyId : Strng)
  | unsupportedCurve (keyId : Strng) (curve : EllipticCurve)

/-- What is asked of a token. Without audiences any will do. -/
structure Validation where
  algorithms : List Algorithm
  audiences : Option (Finset Strng)
  issuer : Strng
  requiredSpecClaims : Finset Strng
  deriving DecidableEq

structure Jwk (K : Type) where
  decoding : K
  validation : Validation
  deriving DecidableEq

/-- A provider, of which only the keys are asked. -/
abbrev Provider (K : Type) := HashMap Strng (Jwk K)

structure ProviderConfig (P : Type) where
  jwks : List (RawJwk P)
  issuer : Strng
  audiences : Option (List Strng)
  requiredClaims : Finset Strng

-- ======== key sets

variable {P K C : Type} (parse : AlgorithmParameters P → Except Strng K)

/-- `DecodingKey`, for the kinds that are supported. -/
def decodingKey (kid : Strng) : AlgorithmParameters P → Except JwkError K
  | .octetKeyPair .ed25519 x => (parse (.octetKeyPair .ed25519 x)).mapError (.decodingError kid)
  | .octetKeyPair curve _ => .error (.unsupportedCurve kid curve)
  | .octetKey _ => .error (.unexpectedAlgorithm kid)
  | params => (parse params).mapError (.decodingError kid)

/-- The algorithm that the key is for, or those of its kind. -/
def supportedAlgorithms (jwk : RawJwk P) : List Algorithm :=
  match jwk.keyAlgorithm, jwk.algorithm with
  | some alg, _ => [alg]
  | none, .ellipticCurve _ => [.es256, .es384]
  | none, .rsa _ => [.rs256, .rs384, .rs512, .ps256, .ps384, .ps512]
  | none, .octetKeyPair _ _ => [.edDSA]
  | none, .octetKey _ => []

def validation (pc : ProviderConfig P) (jwk : RawJwk P) : Validation where
  algorithms := supportedAlgorithms jwk
  audiences := pc.audiences.map (·.toFinset)
  issuer := pc.issuer
  requiredSpecClaims := pc.requiredClaims

/-- One round of the loop over the keys. -/
def addKey (pc : ProviderConfig P) (keys : Provider K) (jwk : RawJwk P) :
    Except JwkError (Provider K) := do
  let some kid := jwk.keyId | .error .missingKeyId
  let decoding ← decodingKey parse kid jwk.algorithm
  return keys.insert kid ⟨decoding, validation pc jwk⟩

def fromJwks (pc : ProviderConfig P) : Except JwkError (Provider K) :=
  pc.jwks.foldlM (addKey parse pc) .empty

-- ======== tokens

inductive TokenError
  | invalid (error : Strng)
  | invalidHeader (error : Strng)
  | missingKeyId
  | unknownKeyId (kid : Strng)

/-- A token: the key id that its header decodes to, and its claims if a key
validates it. -/
structure Token (K C : Type) where
  header : Except Strng (Option Strng)
  decode : Jwk K → Except Strng C

def findKey (providers : List (Provider K)) (kid : Strng) : Option (Jwk K) :=
  providers.findSome? (·.get? kid)

def validateClaims (providers : List (Provider K)) (token : Token K C) : Except TokenError C := do
  let header ← token.header.mapError .invalidHeader
  let some kid := header | .error .missingKeyId
  let some key := findKey providers kid | .error (.unknownKeyId kid)
  (token.decode key).mapError .invalid

-- ======== keys on offer

/-- What a key of a key set is kept as. -/
def Makes (pc : ProviderConfig P) (jwk : RawJwk P) (kid : Strng) (key : Jwk K) : Prop :=
  jwk.keyId = some kid ∧ decodingKey parse kid jwk.algorithm = .ok key.decoding
    ∧ key.validation = validation pc jwk

/-- A provider has the key under the id. -/
def Offers (pcs : List (ProviderConfig P)) (kid : Strng) (key : Jwk K) : Prop :=
  ∃ pc ∈ pcs, ∃ jwk ∈ pc.jwks, Makes parse pc jwk kid key

variable {parse} {pc : ProviderConfig P} {pcs : List (ProviderConfig P)} {kid : Strng}
  {providers : List (Provider K)} {keys keys' : Provider K} {key : Jwk K}

theorem addKey_eq_ok {jwk : RawJwk P} (h : addKey parse pc keys jwk = .ok keys') :
    ∃ kid key, Makes parse pc jwk kid key ∧ keys' = keys.insert kid key := by
  unfold addKey at h
  split at h
  · next kid hid =>
    obtain ⟨decoding, hkey, h⟩ := Except.bind_eq_ok.1 h
    cases h
    exact ⟨kid, _, ⟨hid, hkey, rfl⟩, rfl⟩
  · cases h

/-- A map of keys has one for every id of the key set, and that is one of
them. -/
theorem foldlM_addKey {jwks : List (RawJwk P)}
    (h : jwks.foldlM (addKey parse pc) keys = .ok keys') (kid : Strng) :
    (∀ key, keys'.get? kid = some key →
        keys.get? kid = some key ∨ ∃ jwk ∈ jwks, Makes parse pc jwk kid key)
      ∧ (((keys.get? kid).isSome ∨ ∃ jwk ∈ jwks, jwk.keyId = some kid) →
        (keys'.get? kid).isSome) := by
  induction jwks generalizing keys with
  | nil =>
    cases h
    exact ⟨fun key hkey => .inl hkey, fun hsome => hsome.resolve_right nofun⟩
  | cons jwk jwks ih =>
    rw [List.foldlM_cons, Except.bind_eq_ok] at h
    obtain ⟨mid, hadd, h⟩ := h
    obtain ⟨kid', key', hmakes, rfl⟩ := addKey_eq_ok hadd
    obtain ⟨hfrom, hall⟩ := ih h
    rw [AssocMap.get?_insert] at hfrom hall
    refine ⟨fun key hkey => ?_, fun hsome => hall ?_⟩
    · rcases hfrom key hkey with hold | ⟨jwk', hmem, hmakes'⟩
      · split at hold
        · next heq =>
          cases hold
          exact .inr ⟨jwk, List.mem_cons_self, heq ▸ hmakes⟩
        · exact .inl hold
      · exact .inr ⟨jwk', List.mem_cons_of_mem _ hmem, hmakes'⟩
    · simp only [List.exists_mem_cons_iff, hmakes.1, Option.some.injEq] at hsome
      by_cases heq : kid = kid'
      · exact .inl (by simp [heq])
      · rw [if_neg heq]
        exact hsome.imp_right fun hx => hx.resolve_left (Ne.symm heq)

variable (hload : pcs.mapM (fromJwks parse) = .ok providers)

include hload

theorem offers_of_findKey (h : findKey providers kid = some key) : Offers parse pcs kid key := by
  obtain ⟨provider, hmem, hget⟩ := List.exists_of_findSome?_eq_some h
  obtain ⟨pc, hpc, hprovider⟩ := Except.forall₂_mem_right (Except.mapM_eq_ok.1 hload) hmem
  rcases (foldlM_addKey hprovider kid).1 key hget with hnone | hmakes
  · cases hnone
  · exact ⟨pc, hpc, hmakes⟩

theorem findKey_of_offers (h : Offers parse pcs kid key) :
    ∃ key, findKey providers kid = some key := by
  obtain ⟨pc, hpc, jwk, hjwk, hid, -⟩ := h
  obtain ⟨provider, hmem, hprovider⟩ := Except.forall₂_mem_left (Except.mapM_eq_ok.1 hload) hpc
  refine Option.isSome_iff_exists.1 (List.findSome?_isSome_iff.2 ⟨provider, hmem, ?_⟩)
  exact (foldlM_addKey hprovider kid).2 (.inr ⟨jwk, hjwk, hid⟩)

omit hload

/-- Some key on offer under the id of the token validates it. -/
def Deserves (parse : AlgorithmParameters P → Except Strng K)
    (pcs : List (ProviderConfig P)) (token : Token K C) : Prop :=
  ∃ kid key, token.header = .ok (some kid) ∧ Offers parse pcs kid key
    ∧ ∃ claims, token.decode key = .ok claims

theorem validateClaims_eq_ok {token : Token K C} {claims : C} :
    validateClaims providers token = .ok claims ↔ ∃ kid key,
      token.header = .ok (some kid) ∧ findKey providers kid = some key
        ∧ token.decode key = .ok claims := by
  simp only [validateClaims, Except.bind_eq_ok, Except.mapError_eq_ok]
  constructor
  · intro ⟨header, hheader, h⟩
    split at h
    · next kid =>
      split at h
      · next key hkey => exact ⟨kid, key, hheader, hkey, Except.mapError_eq_ok.1 h⟩
      · cases h
    · cases h
  · intro ⟨kid, key, hheader, hkey, hdecode⟩
    refine ⟨some kid, hheader, ?_⟩
    simp only [hkey]
    exact Except.mapError_eq_ok.2 hdecode

/-- Exactly the tokens that some key on offer validates are accepted, whatever
the tokens are, just if there are no two different keys on offer under one
id. -/
theorem acceptance_iff [Inhabited C] (parse : AlgorithmParameters P → Except Strng K)
    (pcs : List (ProviderConfig P)) (providers : List (Provider K))
    (hload : pcs.mapM (fromJwks parse) = .ok providers) :
    (∀ token : Token K C, (∃ claims, validateClaims providers token = .ok claims)
        ↔ Deserves parse pcs token)
      ↔ ∀ kid key key', Offers parse pcs kid key → Offers parse pcs kid key' → key = key' := by
  simp only [validateClaims_eq_ok]
  constructor
  · intro hlaw kid
    -- a token that only this key validates finds this key
    have hfound : ∀ key, Offers parse pcs kid key → findKey providers kid = some key := by
      classical
      intro key hkey
      obtain ⟨_, kid', key', hkid, hfind, hdecode⟩ := (hlaw ⟨.ok (some kid),
        fun k => if k = key then .ok default else .error ""⟩).2
        ⟨kid, key, rfl, hkey, default, if_pos rfl⟩
      cases hkid
      dsimp only at hdecode
      split at hdecode
      · next heq => rw [hfind, heq]
      · cases hdecode
    intro key key' hkey hkey'
    exact Option.some.inj ((hfound key hkey).symm.trans (hfound key' hkey'))
  · intro hone token
    constructor
    · intro ⟨claims, kid, key, hkid, hfind, hdecode⟩
      exact ⟨kid, key, hkid, offers_of_findKey hload hfind, claims, hdecode⟩
    · intro ⟨kid, key, hkid, hoffer, claims, hdecode⟩
      obtain ⟨key', hfind⟩ := findKey_of_offers hload hoffer
      rw [hone kid key key' hoffer (offers_of_findKey hload hfind)] at hdecode
      exact ⟨claims, kid, key', hkid, hfind, hdecode⟩

def sampleParse : AlgorithmParameters Nat → Except Strng Nat
  | .rsa n | .ellipticCurve n | .octetKeyPair _ n | .octetKey n => .ok n

def sampleConfig (issuer : Strng) (audiences : Option (List Strng)) (n : Nat) :
    ProviderConfig Nat :=
  ⟨[⟨some "k", none, .rsa n⟩], issuer, audiences, {"exp"}⟩

/-- Two providers with the same key, whose audiences come in another order. -/
theorem acceptance_iff_sample :
    let pcs := [sampleConfig "a" (some ["x", "y"]) 1, sampleConfig "a" (some ["y", "x"]) 1]
    ∃ providers, pcs.mapM (fromJwks sampleParse) = .ok providers ∧ ∀ token : Token Nat Unit,
      (∃ claims, validateClaims providers token = .ok claims) ↔ Deserves sampleParse pcs token := by
  intro pcs
  have hsame : ∀ kid key, Offers sampleParse pcs kid key →
      key = ⟨1, validation (sampleConfig "a" (some ["x", "y"]) 1) ⟨some "k", none, .rsa 1⟩⟩ := by
    rintro kid ⟨n, v⟩ ⟨pc, hpc, jwk, hjwk, -, hkey, hv⟩
    rcases List.mem_pair.1 hpc with rfl | rfl <;> cases List.mem_singleton.1 hjwk <;> cases hkey
    all_goals exact congrArg _ (hv.trans (by simp [validation, sampleConfig, Finset.pair_comm]))
  refine ⟨_, rfl, (acceptance_iff sampleParse pcs _ rfl).2 fun kid key key' hkey hkey' => ?_⟩
  rw [hsame kid key hkey, hsame kid key' hkey']

/-- A token that the key of the second provider validates is refused, and
accepted when the providers are the other way round. -/
theorem order_decides : let token : Token Nat Unit := ⟨.ok (some "k"),
      fun key => if key.decoding = 2 then .ok () else .error "InvalidSignature"⟩
    let verdict := fun pcs => (pcs.mapM (fromJwks sampleParse)).map (validateClaims · token)
    verdict [sampleConfig "a" none 1, sampleConfig "b" none 2]
        = .ok (.error (.invalid "InvalidSignature"))
      ∧ verdict [sampleConfig "b" none 2, sampleConfig "a" none 1] = .ok (.ok ())
      ∧ Deserves sampleParse [sampleConfig "a" none 1, sampleConfig "b" none 2] token :=
  ⟨rfl, rfl, "k", ⟨2, _⟩, rfl, ⟨_, List.mem_cons_of_mem _ List.mem_cons_self, _,
    List.mem_cons_self, rfl, rfl, rfl⟩, (), rfl⟩

end AgentGateway.Http.Jwt
