/-
What a policy leaves on the response (`PolicyResponse` of `http/mod.rs`): headers to
set, and maybe a direct response. Whatever a response has beside its headers (`R`)
is left out.

# Where it breaks

A header map is iterated with the name at the first of its values only, and
`merge_in_headers` passes over an entry without a name: of a header with
several values, as `Set-Cookie` has, one is left. And `merge` takes a direct
response as it is, so that what the policies before it set is gone.
-/
import AgentGateway.Basic

namespace AgentGateway.Http

open Lib List AssocMap

-- ======== headers

/-- The values of a header, the first one and the others. -/
abbrev Values := Strng × List Strng

abbrev HeaderMap := AssocMap Strng Values

def HeaderMap.intoIter (hm : HeaderMap) : List (Option Strng × Strng) :=
  hm.entries.flatMap fun (k, v, vs) => (some k, v) :: vs.map (none, ·)

def values : Option Values → List Strng
  | none => []
  | some (v, vs) => v :: vs

def mergeInHeaders (additionalHeaders : Option HeaderMap) (dest : HeaderMap) : HeaderMap :=
  match additionalHeaders with
  | none => dest
  | some rh => rh.intoIter.foldl (fun dest (k, v) =>
      match k with
      | none => dest
      | some k => dest.insert k (v, [])) dest

structure Response (R : Type) where
  headers : HeaderMap
  rest : R

structure PolicyResponse (R : Type) where
  directResponse : Option (Response R)
  responseHeaders : Option HeaderMap

namespace PolicyResponse

variable {R : Type} {x : Option Values}

def default : PolicyResponse R := ⟨none, none⟩

/-- The direct response, or the headers of the other one. -/
def apply (p : PolicyResponse R) (hm : HeaderMap) : Except (Response R) HeaderMap :=
  match p.directResponse with
  | some dr => .error { dr with headers := mergeInHeaders p.responseHeaders dr.headers }
  | none => .ok (mergeInHeaders p.responseHeaders hm)

def shouldShortCircuit (p : PolicyResponse R) : Bool := p.directResponse.isSome

def merge (p other : PolicyResponse R) : PolicyResponse R :=
  if other.directResponse.isSome then other
  else
    match p.responseHeaders, other.responseHeaders with
    | none, none => default
    | a, b => ⟨none, some (mergeInHeaders b (mergeInHeaders a .empty))⟩

/-- The policies that run, none after one that short-circuits. -/
def ran : List (PolicyResponse R) → List (PolicyResponse R)
  | [] => []
  | p :: ps => if p.shouldShortCircuit then [p] else p :: ran ps

def sent (ps : List (PolicyResponse R)) (upstream : HeaderMap) : HeaderMap :=
  match ((ran ps).foldl merge default).apply upstream with
  | .error dr => dr.headers
  | .ok hm => hm

-- ======== what was set

/-- The values a policy gives to a header. -/
def sets (p : PolicyResponse R) (k : Strng) : Option Values :=
  p.responseHeaders.bind (·.get? k)

/-- Those of the last policy that gives some. -/
def lastSet (ps : List (PolicyResponse R)) (k : Strng) (last : Option Values) : Option Values :=
  (ran ps).foldl (fun last p => (p.sets k).or last) last

/-- The headers of the response that the policies are applied to. -/
def base (ps : List (PolicyResponse R)) (upstream : HeaderMap) : HeaderMap :=
  (((ps.find? shouldShortCircuit).bind directResponse).map (·.headers)).getD upstream

/-- A header has the values the last policy gave it. -/
def HeadersKept (ps : List (PolicyResponse R)) (upstream : HeaderMap) : Prop :=
  ∀ k, values ((sent ps upstream).get? k)
    = values ((lastSet ps k none).or ((base ps upstream).get? k))

/-- They are one value, given together with the direct response if there is one,
or what that has anyway. -/
def Mergeable (ps : List (PolicyResponse R)) (k : Strng) (x : Values) : Prop :=
  match ps.find? shouldShortCircuit with
  | none => x.2 = []
  | some p =>
    if (p.sets k).isSome then x.2 = []
    else p.directResponse.bind (·.headers.get? k) = some x

theorem values_inj {y : Option Values} : values x = values y ↔ x = y := by
  cases x <;> cases y <;> simp [values, Prod.ext_iff]

/-- The first of the values. -/
def single (x : Option Values) : Option Values := x.map fun x => (x.1, [])

theorem first_eq_iff {x : Values} : (x.1, []) = x ↔ x.2 = [] := by
  simp [Prod.ext_iff, eq_comm]

theorem single_or (x y : Option Values) : single (x.or (single y)) = single (x.or y) := by
  cases x <;> cases y <;> rfl

theorem get?_mergeInHeaders (a : Option HeaderMap) (dest : HeaderMap) (k : Strng) :
    (mergeInHeaders a dest).get? k = (single (a.bind (·.get? k))).or (dest.get? k) := by
  cases a with
  | none => rfl
  | some rh =>
    -- what has no name does nothing
    have hskip (vs : List Strng) (dest : HeaderMap) :
        (vs.map ((none : Option Strng), ·)).foldl (fun dest (k, v) =>
          match k with
          | none => dest
          | some k => dest.insert k (v, [])) dest = dest := by
      induction vs with
      | nil => rfl
      | cons v vs ih => exact ih
    have hfold : mergeInHeaders (some rh) dest = (rh.entries.map fun e => (e.1, e.2.1, [])).foldl
        (fun m e => m.insert e.1 e.2) dest := by
      simp only [mergeInHeaders, HeaderMap.intoIter, foldl_flatMap, foldl_cons, hskip, foldl_map]
    rw [hfold, get?_foldl_insert (by simpa [Function.comp_def] using rh.nodup), find?_map]
    simp only [single, get?, Option.bind_some, Option.map_map]
    rfl

-- ======== folds

theorem sets_merge {p other : PolicyResponse R} (h : other.shouldShortCircuit = false)
    (k : Strng) : (p.merge other).shouldShortCircuit = false
      ∧ (p.merge other).sets k = single ((other.sets k).or (p.sets k)) := by
  rw [shouldShortCircuit] at h
  rw [merge, h, if_neg Bool.false_ne_true]
  split
  · simp_all [default, sets, shouldShortCircuit, single]
  · refine ⟨rfl, ?_⟩
    rw [sets, Option.bind_some, get?_mergeInHeaders, get?_mergeInHeaders, get?_empty,
      Option.or_none]
    exact (Option.map_or ..).symm

variable {ps : List (PolicyResponse R)} {p a : PolicyResponse R} {k : Strng}

theorem foldl_merge (h : ∀ q ∈ ps, ¬ q.shouldShortCircuit)
    (ha : a.shouldShortCircuit = false ∧ a.sets k = single x) :
    ((ran ps).foldl merge a).shouldShortCircuit = false
      ∧ ((ran ps).foldl merge a).sets k = single (lastSet ps k x) := by
  induction ps generalizing a x with
  | nil => exact ha
  | cons q ps ih =>
    have hq := Bool.eq_false_iff.2 (h q mem_cons_self)
    obtain ⟨hdirect, hsets⟩ := sets_merge (p := a) hq k
    rw [ha.2, single_or] at hsets
    rw [lastSet, ran, hq]
    exact ih (fun q' hq' => h q' (mem_cons_of_mem q hq')) ⟨hdirect, hsets⟩

/-- The policy that short-circuits is all that is left. -/
theorem foldl_merge_of_find? (h : ps.find? shouldShortCircuit = some p) :
    (ran ps).foldl merge a = p ∧ ((p.sets k).isSome → lastSet ps k x = p.sets k) := by
  induction ps generalizing a x with
  | nil => cases h
  | cons q ps ih =>
    rw [lastSet, ran]
    cases hq : q.shouldShortCircuit with
    | true =>
      rw [find?_cons_of_pos hq] at h
      cases h
      exact ⟨if_pos hq, Option.or_of_isSome⟩
    | false =>
      rw [find?_cons_of_neg (Bool.eq_false_iff.1 hq)] at h
      exact ih h

theorem headersKept_iff (ps : List (PolicyResponse R)) (upstream : HeaderMap) :
    HeadersKept ps upstream ↔ ∀ k x, lastSet ps k none = some x → Mergeable ps k x := by
  refine forall_congr' fun k => ?_
  unfold sent base Mergeable
  cases hfind : ps.find? shouldShortCircuit with
  | none =>
    obtain ⟨hdirect, hsets⟩ := foldl_merge (a := default) (k := k) (x := none)
      (find?_eq_none.1 hfind) ⟨rfl, rfl⟩
    rw [apply, Option.not_isSome_iff_eq_none.1 (Bool.eq_false_iff.1 hdirect)]
    show values ((mergeInHeaders _ upstream).get? k) = _ ↔ _
    rw [get?_mergeInHeaders, ← sets, hsets, values_inj]
    cases lastSet ps k none <;> simp [single, first_eq_iff]
  | some p =>
    obtain ⟨hfold, hlast⟩ := foldl_merge_of_find? (a := default) (k := k) (x := none) hfind
    have hdirect : p.directResponse.isSome := find?_some (p := shouldShortCircuit) hfind
    obtain ⟨dr, hdr⟩ := Option.isSome_iff_exists.1 hdirect
    rw [hfold, apply, hdr]
    show values ((mergeInHeaders _ dr.headers).get? k) = _ ↔ _
    rw [get?_mergeInHeaders, ← sets, values_inj]
    cases hp : p.sets k with
    | some x =>
      simp [hlast, hp, single, first_eq_iff]
    | none => cases lastSet ps k none <;> simp [single, hp, hdr]

theorem cookies_lost : ¬ HeadersKept
    [(⟨none, some (empty.insert "set-cookie" ("a", ["b"]))⟩ : PolicyResponse Unit)]
    .empty := by
  intro h
  have hcookies := h "set-cookie"
  revert hcookies
  decide

end PolicyResponse

end AgentGateway.Http
