/-
The workload certificate and its renewal (`control/caclient.rs`).

One task fetches certificates: once at the start, and then at every tick at which
the certificate has lived half of its time, or there is none to look at. It leaves
what came of the last attempt in one `CertificateState`, which is all that
`get_identity` looks at.

# Where it breaks

A renewal that fails leaves its error where the certificate was. From then on
callers get the error, though the certificate is good for the other half of its
time (`renewal_loses_certificate`). They are served as they should be in just the
runs where no renewal fails before the certificate has expired
(`served_iff`).

# Left out

The request to the CA and the making of a certificate from its answer, of which an
attempt has the outcome; a channel that is closed.
-/
import AgentGateway.Basic
import Mathlib.Data.List.Induction

namespace AgentGateway.Control

/-- `SystemTime`. -/
abbrev Time := Nat

structure WorkloadCertificate where
  notBefore : Time
  notAfter : Time
  deriving DecidableEq

namespace WorkloadCertificate

def isExpired (cert : WorkloadCertificate) (now : Time) : Bool := cert.notAfter < now

def refreshAt (cert : WorkloadCertificate) : Time :=
  if cert.notBefore ≤ cert.notAfter then
    cert.notBefore + (cert.notAfter - cert.notBefore) / 2
  else cert.notAfter

end WorkloadCertificate

/-- `Error`, with whatever a fetch may fail with. -/
inductive Error (E : Type)
  | expired
  | fetch (err : E)
  deriving DecidableEq

inductive CertificateState (E : Type)
  | notReady
  | available (cert : WorkloadCertificate)
  | error (err : E)

variable {E : Type}

/-- What `get_identity` returns; while there is nothing it waits, and looks again
when the state has changed. -/
def getIdentity (state : CertificateState E) (now : Time) :
    Option (Except (Error E) WorkloadCertificate) :=
  match state with
  | .available cert =>
    some (if !cert.isExpired now then .ok cert else .error .expired)
  | .error err => some (.error (.fetch err))
  | .notReady => none

def CertificateState.shouldRenew (state : CertificateState E) (now : Time) : Bool :=
  match state with
  | .available cert => cert.refreshAt ≤ now
  | .error _ | .notReady => true

/-- A tick, and the attempt made there if it is time for one. -/
structure Tick (E : Type) where
  now : Time
  outcome : Except E WorkloadCertificate
  finished : Time

/-- The state, and the certificates fetched so far, the last one first. -/
structure Fetcher (E : Type) where
  state : CertificateState E
  fetched : List WorkloadCertificate

/-- A turn of the loop of `run_fetcher`. Its first fetch is a turn as well, since it
is always time for one when there is no certificate yet. -/
def Fetcher.tick (f : Fetcher E) (t : Tick E) : Fetcher E :=
  if f.state.shouldRenew t.now then
    match t.outcome with
    | .ok cert => ⟨.available cert, cert :: f.fetched⟩
    | .error err => ⟨.error err, f.fetched⟩
  else f

def runFetcher (ticks : List (Tick E)) : Fetcher E :=
  ticks.foldl Fetcher.tick ⟨.notReady, []⟩

/-- Turns that come one after the other. -/
structure Run (E : Type) where
  ticks : List (Tick E)
  finishes : ∀ t ∈ ticks, t.now ≤ t.finished
  inOrder : ticks.Pairwise fun t u => t.finished ≤ u.now

/-- A certificate that has not expired is not lost, and errors are for its want
only. -/
structure Serves (f : Fetcher E) (now : Time) : Prop where
  kept : ∀ cert, f.fetched.head? = some cert → cert.isExpired now = false →
    ∃ cert', getIdentity f.state now = some (.ok cert') ∧ cert'.isExpired now = false
  want : ∀ err, getIdentity f.state now = some (.error err) →
    ∀ cert, f.fetched.head? = some cert → cert.isExpired now

/-- Whoever asks is served, at every moment: after some of the turns, and before
the next one has ended. -/
def Run.Served (r : Run E) : Prop :=
  ∀ pre post, r.ticks = pre ++ post → ∀ now, (∀ t ∈ pre, t.finished ≤ now) →
    (∀ t ∈ post, now ≤ t.finished) → Serves (runFetcher pre) now

/-- No renewal fails before the certificate has expired. -/
def Run.FailsLate (r : Run E) : Prop :=
  ∀ pre t post, r.ticks = pre ++ t :: post →
    ∀ cert, (runFetcher pre).state = .available cert → cert.refreshAt ≤ t.now →
      ∀ err, t.outcome = .error err → cert.isExpired t.finished

-- ======== turns

theorem tick_cases (f : Fetcher E) (t : Tick E) : f.tick t = f
      ∨ (∃ cert, f.tick t = ⟨.available cert, cert :: f.fetched⟩)
      ∨ ∃ err, f.state.shouldRenew t.now ∧ t.outcome = .error err
        ∧ f.tick t = ⟨.error err, f.fetched⟩ := by
  unfold Fetcher.tick
  split
  · next hrenew =>
    cases t.outcome with
    | ok cert => exact .inr (.inl ⟨cert, rfl⟩)
    | error err => exact .inr (.inr ⟨err, hrenew, rfl, rfl⟩)
  · exact .inl rfl

theorem runFetcher_concat (ticks : List (Tick E)) (t : Tick E) :
    runFetcher (ticks ++ [t]) = (runFetcher ticks).tick t :=
  List.foldl_concat ..

/-- A certificate at hand is the last one fetched. -/
structure Agrees (f : Fetcher E) : Prop where
  notReady : f.state = .notReady → f.fetched = []
  available : ∀ cert, f.state = .available cert → f.fetched.head? = some cert

theorem agrees_run (ticks : List (Tick E)) : Agrees (runFetcher ticks) := by
  induction ticks using List.reverseRecOn with
  | nil => exact ⟨fun _ => rfl, nofun⟩
  | append_singleton ticks t ih =>
    rw [runFetcher_concat]
    obtain heq | ⟨cert, heq⟩ | ⟨err, -, -, heq⟩ := tick_cases (runFetcher ticks) t
    · rw [heq]
      exact ih
    · rw [heq]
      exact ⟨nofun, fun _ h => congrArg some (CertificateState.available.inj h)⟩
    · rw [heq]
      exact ⟨nofun, nofun⟩

/-- An error is left by an attempt that ended after the certificate had expired. -/
theorem expired_of_error {r : Run E} (hlate : r.FailsLate) {pre post : List (Tick E)}
    (hpre : r.ticks = pre ++ post) {err : E} (herr : (runFetcher pre).state = .error err)
    {cert : WorkloadCertificate} (hcert : (runFetcher pre).fetched.head? = some cert) :
    ∃ t ∈ pre, cert.isExpired t.finished := by
  induction pre using List.reverseRecOn generalizing post err with
  | nil => cases herr
  | append_singleton pre t ih =>
    have hsplit : r.ticks = pre ++ t :: post := by simp [hpre]
    rw [runFetcher_concat] at herr hcert
    have hbefore : ∀ err, (runFetcher pre).state = .error err →
        (runFetcher pre).fetched.head? = some cert →
        ∃ u ∈ pre ++ [t], cert.isExpired u.finished := by
      intro err herr hcert
      obtain ⟨u, hu, hexpired⟩ := ih hsplit herr hcert
      exact ⟨u, List.mem_append_left _ hu, hexpired⟩
    obtain heq | ⟨c, heq⟩ | ⟨e, hrenew, houtcome, heq⟩ := tick_cases (runFetcher pre) t
    · rw [heq] at herr hcert
      exact hbefore err herr hcert
    · rw [heq] at herr
      cases herr
    · rw [heq] at hcert
      have hagrees := agrees_run pre
      cases hstate : (runFetcher pre).state with
      | notReady =>
        rw [hagrees.notReady hstate] at hcert
        cases hcert
      | available c =>
        rw [hagrees.available c hstate] at hcert
        cases hcert
        rw [hstate] at hrenew
        exact ⟨t, by simp, hlate pre t post hsplit cert hstate
          (of_decide_eq_true hrenew) e houtcome⟩
      | error err => exact hbefore err hstate hcert

-- ======== serving

theorem serves_of_failsLate {r : Run E} (hlate : r.FailsLate) : r.Served := by
  intro pre post hpre now hnow _
  have hagrees := agrees_run pre
  cases hstate : (runFetcher pre).state with
  | notReady =>
    constructor
    · intro cert hcert
      rw [hagrees.notReady hstate] at hcert
      cases hcert
    · intro err herr
      rw [hstate] at herr
      cases herr
  | available c =>
    have hhead := hagrees.available c hstate
    constructor
    · intro cert hcert hgood
      rw [hhead] at hcert
      cases hcert
      exact ⟨c, by simp [hstate, getIdentity, hgood], hgood⟩
    · intro err herr cert hcert
      rw [hhead] at hcert
      cases hcert
      cases hexpired : c.isExpired now with
      | true => rfl
      | false => simp [hstate, getIdentity, hexpired] at herr
  | error e =>
    have hexpired : ∀ cert, (runFetcher pre).fetched.head? = some cert → cert.isExpired now := by
      intro cert hcert
      obtain ⟨t, ht, hexpired⟩ := expired_of_error hlate hpre hstate hcert
      exact decide_eq_true (Nat.lt_of_lt_of_le (of_decide_eq_true hexpired) (hnow t ht))
    constructor
    · intro cert hcert hgood
      rw [hexpired cert hcert] at hgood
      cases hgood
    · exact fun err _ => hexpired

/-- In just the runs where no renewal fails before the certificate has expired is
every caller served. -/
theorem served_iff (r : Run E) : r.Served ↔ r.FailsLate := by
  refine ⟨fun h pre t post hsplit cert hstate hrefresh err houtcome => ?_, serves_of_failsLate⟩
  -- right after the attempt has ended
  have hpre : r.ticks = (pre ++ [t]) ++ post := by simp [hsplit]
  have hdone : ∀ u ∈ pre ++ [t], u.finished ≤ t.finished := by
    intro u hu
    obtain hu | hu := List.mem_append.1 hu
    · have horder := r.inOrder
      rw [hsplit, List.pairwise_append] at horder
      exact Nat.le_trans (horder.2.2 u hu t List.mem_cons_self) (r.finishes t (by simp [hsplit]))
    · exact Nat.le_of_eq (congrArg _ (List.mem_singleton.1 hu))
  have hnext : ∀ u ∈ post, t.finished ≤ u.finished := by
    intro u hu
    have horder := r.inOrder
    rw [hsplit, List.pairwise_append, List.pairwise_cons] at horder
    exact Nat.le_trans (horder.2.1.1 u hu) (r.finishes u (by simp [hsplit, hu]))
  have htick : runFetcher (pre ++ [t]) = ⟨.error err, (runFetcher pre).fetched⟩ := by
    rw [runFetcher_concat, Fetcher.tick, hstate, houtcome]
    exact if_pos (decide_eq_true hrefresh)
  have hwant := (h _ post hpre t.finished hdone hnext).want (.fetch err)
  rw [htick] at hwant
  exact hwant rfl cert ((agrees_run pre).available cert hstate)

/-- A renewal at half of the lifetime that fails. -/
def failedRenewal : Run Unit where
  ticks := [⟨0, .ok ⟨0, 100⟩, 1⟩, ⟨60, .error (), 61⟩]
  finishes := by decide
  inOrder := by decide

/-- The certificate would be good for as long again. -/
theorem renewal_loses_certificate : ¬ failedRenewal.Served
      ∧ (runFetcher failedRenewal.ticks).fetched.head? = some ⟨0, 100⟩
      ∧ getIdentity (runFetcher failedRenewal.ticks).state 62 = some (.error (.fetch ())) := by
  refine ⟨fun h => ?_, by decide, by decide⟩
  have hwant := (h failedRenewal.ticks [] rfl 62 (by decide) nofun).want (.fetch ()) (by decide)
  exact absurd (hwant ⟨0, 100⟩ (by decide)) (by decide)

end AgentGateway.Control
