/-
The cached sampler of a group (`types/loadbalancer.rs`, `EndpointGroup`), and
the choice of an endpoint (`select_endpoint` without an override).

`update_sampler` keeps the sampler where its kind and the capacity that was
added show that nothing changes. A uniform sampler stands for a pool of
capacities of one, a drained one for a pool of zeros
(`buildSampler_eq_uniform`, `buildSampler_eq_drained`). Neither has the order
of the pool, which a removal changes. A weighted one has, and is built again
each time.

Two endpoints are drawn from the best bucket, and the better one of those that
are viable is taken. Where neither is, the buckets are searched in order. Both
look at the same pool of a bucket, the active one unless it is empty, and pass
over a bucket that is drained, so that the search finds something wherever a
draw may. Scores are left open, and a draw is any position that the sampler can
give. The outer `none` of a result is a panic.

# Left out

The override, and the handle of the request that is started.
-/
import AgentGateway.Discovery.Store

namespace AgentGateway.Endpoints

open Lib AssocMap

variable {T I : Type} {m before rejected : IndexMap EndpointKey (EndpointWithInfo T I)}
  {g : EndpointGroup T I} {k : EndpointKey} {e ep : EndpointWithInfo T I}

-- ======== kinds

theorem isEmpty_eq_values : m.isEmpty = m.values.isEmpty := by
  simp [isEmpty, values]

theorem buildSampler_eq_uniform : buildSampler m = .uniform ↔ ∀ e ∈ m.values, e.capacity = 1 := by
  unfold buildSampler
  rw [isEmpty_eq_values]
  cases m.values with
  | nil => simp
  | cons e es =>
    by_cases hzero : e.capacity = 0
    · simp [hzero]
      split <;> simp
    · by_cases hone : e.capacity = 1 <;> simp [hzero, hone]

theorem buildSampler_eq_drained :
    buildSampler m = .drained ↔ m.isEmpty = false ∧ ∀ e ∈ m.values, e.capacity = 0 := by
  unfold buildSampler
  rw [isEmpty_eq_values]
  cases m.values with
  | nil => simp
  | cons e es =>
    simp only [List.isEmpty_cons, Bool.false_eq_true, if_false, List.all_eq_true, beq_iff_eq,
      true_and]
    split
    · exact iff_of_true rfl ‹_›
    · split <;> exact iff_of_false (by simp) ‹_›

namespace EndpointGroup

-- ======== updates

/-- The sampler is the one that the active pool calls for. -/
def Fresh (g : EndpointGroup T I) : Prop := g.sampler = buildSampler g.active

theorem fresh_updateSampler {cap : Option UInt32} (hs : g.sampler = buildSampler before)
    (hsub : ∀ e ∈ g.active.values, e ∈ before.values ∨ cap = some e.capacity)
    (hsome : cap.isSome → g.active.isEmpty = false) : (g.updateSampler cap).Fresh := by
  unfold updateSampler
  split
  case isFalse => rfl
  case isTrue hkept =>
    unfold samplerPreserved at hkept
    show g.sampler = buildSampler g.active
    cases hkind : g.sampler with
    | weighted ws => simp [hkind] at hkept
    | uniform =>
      have hones := buildSampler_eq_uniform.1 (hs.symm.trans hkind)
      refine (buildSampler_eq_uniform.2 fun e he => ?_).symm
      rcases hsub e he with hold | rfl
      · exact hones e hold
      · simpa [hkind] using hkept
    | drained =>
      have hzeros := buildSampler_eq_drained.1 (hs.symm.trans hkind)
      refine (buildSampler_eq_drained.2 ⟨?_, fun e he => ?_⟩).symm
      · cases cap with
        | none => simpa [hkind] using hkept
        | some c => exact hsome rfl
      · rcases hsub e he with hold | rfl
        · exact hzeros.2 e hold
        · simpa [hkind] using hkept

theorem fresh_gone (h : g.Fresh) :
    (mk (g.active.swapRemove k) rejected g.sampler |>.updateSampler none).Fresh := by
  refine fresh_updateSampler h (fun e he => .inl ?_) (by simp)
  obtain ⟨k', hk'⟩ := mem_values.1 he
  rw [get?_swapRemove] at hk'
  exact mem_values.2 ⟨k', (get?_erase_eq_some.1 hk').2⟩

theorem fresh_came (h : g.Fresh) :
    (mk (g.active.insert k ep) rejected g.sampler |>.updateSampler (some ep.capacity)).Fresh := by
  refine fresh_updateSampler h (fun e he => ?_) fun _ => ?_
  · obtain ⟨k', hk'⟩ := mem_values.1 he
    rw [get?_insert] at hk'
    split at hk'
    · cases hk'
      exact .inr rfl
    · exact .inl (mem_values.2 ⟨k', hk'⟩)
  · by_contra hempty
    have hnone := isEmpty_iff.1 (Bool.of_not_eq_false hempty) k
    simp at hnone

-- ======== operations

inductive Op (T I : Type)
  | add (key : EndpointKey) (ep : EndpointWithInfo T I)
  | remove (key : EndpointKey)
  | evict (key : EndpointKey)
  | unevict (key : EndpointKey)

def apply (g : EndpointGroup T I) : Op T I → EndpointGroup T I
  | .add key ep => g.add key ep
  | .remove key => g.remove key
  | .evict key => g.evict key
  | .unevict key => g.unevict key

def Disjoint (g : EndpointGroup T I) : Prop :=
  ∀ k, g.active.get? k = none ∨ g.rejected.get? k = none

theorem fresh_apply (h : g.Fresh) (op : Op T I) : (g.apply op).Fresh := by
  cases op with
  | add key ep => exact fresh_came h
  | remove key =>
    simp only [apply, remove]
    split
    · exact fresh_gone h
    · split
      · exact fresh_updateSampler h (fun _ he => .inl he) (by simp)
      · exact h
  | evict key =>
    simp only [apply, evict]
    split
    · exact fresh_gone h
    · exact h
  | unevict key =>
    simp only [apply, unevict]
    split
    · exact fresh_came h
    · exact h

theorem disjoint_apply (h : g.Disjoint) (op : Op T I) : (g.apply op).Disjoint := by
  intro k
  have hk := h k
  cases op with
  | add key ep =>
    by_cases hkey : k = key <;> simp [apply, add, get?_insert, get?_erase, hkey, hk]
  | remove key =>
    simp only [apply, remove]
    by_cases hkey : k = key
    · subst hkey
      split
      · simp
      · split
        · simp
        · exact hk
    · split
      · simpa [get?_erase, hkey] using hk
      · split
        · simpa [get?_erase, hkey] using hk
        · exact hk
  | evict key | unevict key =>
    simp only [apply, evict, unevict]
    split
    · by_cases hkey : k = key <;> simp [get?_insert, get?_erase, hkey, hk]
    · exact hk

theorem run_in_step (ops : List (Op T I)) : ∀ {g : EndpointGroup T I}, g.Disjoint → g.Fresh →
    (ops.foldl apply g).Disjoint ∧ (ops.foldl apply g).Fresh := by
  induction ops with
  | nil => exact fun hd hf => ⟨hd, hf⟩
  | cons op ops ih => exact fun hd hf => ih (disjoint_apply hd op) (fresh_apply hf op)

theorem sampler_in_step {g : EndpointGroup T I}
    (hstart : g = empty ∨ ∃ active rejected, g = fromPools active rejected ∧ g.Disjoint)
    (ops : List (Op T I)) : (ops.foldl apply g).Disjoint
      ∧ (ops.foldl apply g).sampler = buildSampler (ops.foldl apply g).active := by
  rcases hstart with rfl | ⟨active, rejected, rfl, hd⟩
  · exact run_in_step ops (fun _ => .inl rfl) rfl
  · exact run_in_step ops hd rfl

theorem sampler_in_step_sample :
    ([.add "a" ⟨(), (), 2⟩].foldl apply (empty (T := Unit) (I := Unit))).sampler = .weighted [2] :=
  (sampler_in_step (.inl rfl) _).2.trans rfl

end EndpointGroup

-- ======== selection

open Discovery Lib List

variable {I : Type}

def viable (workloads : WorkloadStore) (targetPort svcPort : UInt16) (endpoint : Endpoint) :
    Option Workload :=
  match workloads.byUid.get? endpoint.workloadUid with
  | none => none
  | some wl =>
    if targetPort = 0 ∧ endpoint.port.contains svcPort = false then none
    else if wl.capacity = 0 then none
    else some wl

structure Candidate (I : Type) where
  endpoint : Endpoint
  info : I
  workload : Workload

/-- `max_by`, which keeps the last of the greatest. -/
def maxBy {α : Type} (cmp : α → α → Ordering) : List α → Option α
  | [] => none
  | a :: l => some (l.foldl (fun best b => if cmp best b = .gt then best else b) a)

namespace EndpointGroup

def index (g : EndpointGroup Endpoint I) : IndexMap EndpointKey (EndpointWithInfo Endpoint I) :=
  if g.active.isEmpty then g.rejected else g.active

def iterSampler (g : EndpointGroup Endpoint I) : Option Sampler :=
  if g.active.isEmpty then none else some g.sampler

/-- The positions that may be drawn: those of non-zero weight, or all. -/
def Draws (g : EndpointGroup Endpoint I) (i : Nat) : Prop :=
  match g.iterSampler with
  | some (.weighted ws) => ∃ w, ws[i]? = some w ∧ w ≠ 0
  | some .uniform | some .drained | none => i < g.index.values.length

end EndpointGroup

namespace EndpointSet

/-- It indexes a first bucket without looking. -/
def bestBucket (s : EndpointSet Endpoint I) : Option (EndpointGroup Endpoint I) :=
  (s.buckets.find? fun g => !g.active.isEmpty) <|> s.buckets[0]?

section

variable (viable : Endpoint → Option Workload) (cmp : I → I → Ordering)

def best (ewis : List (EndpointWithInfo Endpoint I)) : Option (Candidate I) :=
  maxBy (fun a b => cmp a.info b.info)
    (ewis.filterMap fun ewi => (viable ewi.endpoint).map (⟨ewi.endpoint, ewi.info, ·⟩))

/-- With the positions that are drawn. -/
def selectP2c (s : EndpointSet Endpoint I) (a b : Nat) : Option (Option (Candidate I)) := do
  let g ← s.bestBucket
  if g.index.isEmpty ∨ g.iterSampler = some .drained then return none
  let ewiA ← g.index.values[a]?
  let ewiB ← g.index.values[b]?
  return best viable cmp [ewiA, ewiB]

def selectFallback (s : EndpointSet Endpoint I) : Option (Candidate I) :=
  s.buckets.findSome? fun g =>
    if g.sampler = .drained then none else best viable cmp g.index.values

end

/-- With the ports of the service. -/
def selectEndpoint (s : EndpointSet Endpoint I) (workloads : WorkloadStore)
    (cmp : I → I → Ordering) (ports : Ports) (svcPort : UInt16) (a b : Nat) :
    Option (Option (Candidate I)) :=
  match ports.get? svcPort with
  | none => some none
  | some targetPort =>
    let viable := viable workloads targetPort svcPort
    (s.selectP2c viable cmp a b).map fun c => c <|> s.selectFallback viable cmp

-- ======== sets

/-- The sets a service comes to have: of at least one bucket, with a bucket
changed or all of them filled anew. -/
inductive Reachable : EndpointSet Endpoint I → Prop
  | newEmpty (levels : Nat) : Reachable (newEmpty (levels + 1))
  | apply {s : EndpointSet Endpoint I} (h : Reachable s) (b : Nat)
      (op : EndpointGroup.Op Endpoint I) : Reachable (s.modifyBucket b (·.apply op))
  | rebucket {s : EndpointSet Endpoint I} (h : Reachable s) (ranker : Endpoint → Option Nat) :
      Reachable (s.rebucket ranker)

variable {s : EndpointSet Endpoint I} {g : EndpointGroup Endpoint I}

theorem length_redistribute (n : Nat) (ranker : Endpoint → Option Nat)
    (entries : List (EndpointKey × EndpointWithInfo Endpoint I)) :
    (redistribute n ranker entries).length = n := by
  unfold redistribute
  generalize hinto : replicate n AssocMap.empty = into
  replace hinto : into.length = n := by simp [← hinto]
  induction entries generalizing into with
  | nil => exact hinto
  | cons x entries ih =>
    refine ih _ ?_
    unfold place
    split
    · split <;> simp [hinto]
    · exact hinto

theorem Reachable.sound (h : Reachable s) : s.buckets ≠ [] ∧ ∀ g ∈ s.buckets, g.Fresh := by
  induction h with
  | newEmpty levels =>
    refine ⟨by simp [EndpointSet.newEmpty], fun g hg => ?_⟩
    rw [eq_of_mem_replicate hg]
    rfl
  | @apply s h b op ih =>
    refine ⟨by simpa [modifyBucket] using ih.1, fun g hg => ?_⟩
    obtain ⟨i, hi⟩ := mem_iff_getElem?.1 hg
    rw [modifyBucket, getElem?_modify] at hi
    obtain ⟨g₀, hg₀, rfl⟩ := Option.map_eq_some_iff.1 hi
    have hfresh := ih.2 g₀ (mem_of_getElem? hg₀)
    split
    · exact EndpointGroup.fresh_apply hfresh op
    · exact hfresh
  | @rebucket s h ranker ih =>
    refine ⟨ne_nil_of_length_pos ?_, fun g hg => ?_⟩
    · simpa [EndpointSet.rebucket, length_redistribute, length_pos_iff] using ih.1
    · obtain ⟨i, hi⟩ := mem_iff_getElem?.1 hg
      obtain ⟨active, rejected, -, -, rfl⟩ := getElem?_zipWith_eq_some.1 hi
      rfl

theorem draws_lt (hfresh : g.Fresh) {i : Nat} (h : g.Draws i) : i < g.index.values.length := by
  unfold EndpointGroup.Draws at h
  split at h
  · rename_i ws hws
    obtain ⟨w, hw, -⟩ := h
    obtain ⟨hactive, hws⟩ := Option.ite_none_left_eq_some.1 hws
    have hbuilt := hfresh.symm.trans (Option.some.inj hws)
    rw [buildSampler] at hbuilt
    split_ifs at hbuilt
    cases hbuilt
    rw [EndpointGroup.index, if_neg hactive]
    simpa using (List.getElem?_eq_some_iff.1 hw).1
  all_goals exact h

theorem bestBucket_mem (h : Reachable s) : ∃ g ∈ s.buckets, s.bestBucket = some g := by
  unfold bestBucket
  cases hfind : s.buckets.find? fun g => !g.active.isEmpty with
  | some g => exact ⟨g, mem_of_find?_eq_some hfind, rfl⟩
  | none =>
    have hpos := length_pos_iff.2 h.sound.1
    exact ⟨s.buckets[0], getElem_mem hpos, getElem?_eq_getElem hpos⟩

-- ======== choices

theorem maxBy_mem {α : Type} {cmp : α → α → Ordering} {l : List α} {a : α}
    (h : maxBy cmp l = some a) : a ∈ l := by
  cases l with
  | nil => cases h
  | cons b l =>
    cases h
    refine foldlRecOn (motive := (· ∈ b :: l)) l _ mem_cons_self fun best hb c hc => ?_
    split
    · exact hb
    · exact mem_cons_of_mem b hc

theorem maxBy_isSome {α : Type} {cmp : α → α → Ordering} {l : List α} {a : α} (h : a ∈ l) :
    (maxBy cmp l).isSome := by
  cases l with
  | nil => cases h
  | cons => rfl

/-- A bucket has the endpoint in its pool, and not just drained ones that are
active. -/
def Offers (s : EndpointSet Endpoint I) (endpoint : Endpoint) : Prop :=
  ∃ g ∈ s.buckets, ¬ (g.active.isEmpty = false ∧ ∀ e ∈ g.active.values, e.capacity = 0)
    ∧ ∃ e ∈ g.index.values, e.endpoint = endpoint

variable {V : Endpoint → Option Workload} {cmp : I → I → Ordering} {c : Candidate I}
  {endpoint : Endpoint} {wl : Workload}

theorem offers_of_best (h : Reachable s) (hg : g ∈ s.buckets)
    (hdrained : g.iterSampler ≠ some .drained) {ewis : List (EndpointWithInfo Endpoint I)}
    (hsub : ∀ e ∈ ewis, e ∈ g.index.values) (hc : best V cmp ewis = some c) :
    s.Offers c.endpoint ∧ V c.endpoint = some c.workload := by
  obtain ⟨e, he, hmap⟩ := mem_filterMap.1 (maxBy_mem hc)
  obtain ⟨wl, hwl, rfl⟩ := Option.map_eq_some_iff.1 hmap
  refine ⟨⟨g, hg, fun hzero => hdrained ?_, e, hsub e he, rfl⟩, hwl⟩
  rw [EndpointGroup.iterSampler, hzero.1, if_neg Bool.false_ne_true, h.sound.2 g hg,
    buildSampler_eq_drained.2 hzero]

theorem selectP2c_offers (h : Reachable s) {a b : Nat}
    (hdraw : ∀ g, s.bestBucket = some g → g.index.isEmpty = false → g.Draws a ∧ g.Draws b) :
    ∃ r, s.selectP2c V cmp a b = some r ∧ ∀ c, r = some c →
      s.Offers c.endpoint ∧ V c.endpoint = some c.workload := by
  obtain ⟨g, hg, hbest⟩ := bestBucket_mem h
  simp only [selectP2c, hbest, Option.bind_eq_bind, Option.bind_some]
  split
  · exact ⟨none, rfl, by simp⟩
  · rename_i hnot
    obtain ⟨hempty, hdrained⟩ := not_or.1 hnot
    obtain ⟨ha, hb⟩ := hdraw g hbest (Bool.eq_false_iff.2 hempty)
    have ha := draws_lt (h.sound.2 g hg) ha
    have hb := draws_lt (h.sound.2 g hg) hb
    rw [getElem?_eq_getElem ha, getElem?_eq_getElem hb]
    refine ⟨_, rfl, fun c hc => offers_of_best h hg hdrained (fun e he => ?_) hc⟩
    rcases mem_pair.1 he with rfl | rfl
    · exact getElem_mem ha
    · exact getElem_mem hb

theorem selectFallback_offers (h : Reachable s) (hc : s.selectFallback V cmp = some c) :
    s.Offers c.endpoint ∧ V c.endpoint = some c.workload := by
  obtain ⟨g, hg, hbest⟩ := exists_of_findSome?_eq_some hc
  obtain ⟨hdrained, hbest⟩ := Option.ite_none_left_eq_some.1 hbest
  refine offers_of_best h hg (fun hiter => hdrained ?_) (fun _ he => he) hbest
  exact Option.some.inj (Option.ite_none_left_eq_some.1 hiter).2

theorem selectFallback_isSome (h : Reachable s)
    (hoffers : s.Offers endpoint) (hviable : V endpoint = some wl) :
    (s.selectFallback V cmp).isSome := by
  obtain ⟨g, hg, hzero, e, he, rfl⟩ := hoffers
  refine findSome?_isSome_iff.2 ⟨g, hg, ?_⟩
  rw [if_neg fun hd => hzero (buildSampler_eq_drained.1 ((h.sound.2 g hg).symm.trans hd))]
  refine maxBy_isSome (a := ⟨e.endpoint, e.info, wl⟩) (mem_filterMap.2 ⟨e, he, ?_⟩)
  rw [hviable]
  rfl

/-- The workload is known, has capacity, and serves the port. -/
def Viable (workloads : WorkloadStore) (targetPort svcPort : UInt16) (endpoint : Endpoint)
    (wl : Workload) : Prop :=
  workloads.byUid.get? endpoint.workloadUid = some wl ∧ wl.capacity ≠ 0
    ∧ (targetPort = 0 → endpoint.port.contains svcPort)

theorem viable_eq_some {workloads : WorkloadStore} {targetPort svcPort : UInt16} :
    viable workloads targetPort svcPort endpoint
      = some wl ↔ Viable workloads targetPort svcPort endpoint wl := by
  unfold viable Viable
  cases workloads.byUid.get? endpoint.workloadUid with
  | none => simp
  | some wl' =>
    simp only [Option.some.injEq, Option.ite_none_left_eq_some, not_and, Bool.not_eq_false]
    constructor
    · rintro ⟨hport, hcap, rfl⟩
      exact ⟨rfl, hcap, hport⟩
    · rintro ⟨rfl, hcap, hport⟩
      exact ⟨hport, hcap, rfl⟩

/-- An endpoint that may be taken for a port of the service. -/
def Eligible (s : EndpointSet Endpoint I) (workloads : WorkloadStore) (ports : Ports)
    (svcPort : UInt16) (endpoint : Endpoint) (wl : Workload) : Prop :=
  s.Offers endpoint ∧ ∃ targetPort, ports.get? svcPort = some targetPort
    ∧ Viable workloads targetPort svcPort endpoint wl

/-- Whatever is drawn, an endpoint is found if there is one to take, and it is one
of those. -/
theorem select_endpoint_complete (h : Reachable s) (workloads : WorkloadStore)
    (cmp : I → I → Ordering) (ports : Ports) (svcPort : UInt16) {a b : Nat}
    (hdraw : ∀ g, s.bestBucket = some g → g.index.isEmpty = false → g.Draws a ∧ g.Draws b) :
    ∃ r, s.selectEndpoint workloads cmp ports svcPort a b = some r
      ∧ (∀ c, r = some c → s.Eligible workloads ports svcPort c.endpoint c.workload)
      ∧ ((∃ endpoint wl, s.Eligible workloads ports svcPort endpoint wl) → r.isSome) := by
  unfold selectEndpoint Eligible
  cases ports.get? svcPort with
  | none => exact ⟨none, rfl, by simp⟩
  | some targetPort =>
    obtain ⟨r, hr, hp2c⟩ := selectP2c_offers (V := viable workloads targetPort svcPort) h hdraw
    refine ⟨_, congrArg (Option.map _) hr, fun c hc => ?_, ?_⟩
    · have hboth : s.Offers c.endpoint
          ∧ viable workloads targetPort svcPort c.endpoint = some c.workload := by
        cases r with
        | none => exact selectFallback_offers h hc
        | some => exact hp2c c hc
      exact ⟨hboth.1, targetPort, rfl, viable_eq_some.1 hboth.2⟩
    · rintro ⟨endpoint, wl, hoffers, _, heq, hviable⟩
      cases heq
      cases r with
      | none => exact selectFallback_isSome h hoffers (viable_eq_some.2 hviable)
      | some => rfl

/-- One endpoint whose workload is known, and one whose workload is not. -/
def sampleSet : EndpointSet Endpoint Unit :=
  ((newEmpty 1).modifyBucket 0 (·.apply (.add "w" ⟨⟨"w", .empty, .healthy⟩, (), 1⟩))).modifyBucket
    0 (·.apply (.add "x" ⟨⟨"x", .empty, .healthy⟩, (), 1⟩))

def sampleWorkload : Workload :=
  ⟨[], none, none, .tcp, .standard, "w", "w", "ns", "", "", .healthy, "", ⟨"", "", ""⟩, .empty, 1⟩

def sampleWorkloads : WorkloadStore :=
  { WorkloadStore.empty with byUid := AssocMap.empty.insert "w" sampleWorkload }

/-- Both draws are the endpoint without a workload, and the other one is found. -/
theorem select_endpoint_complete_sample :
    ∃ c, sampleSet.selectEndpoint sampleWorkloads (fun _ _ => .eq) (AssocMap.empty.insert 80 8080)
        80 1 1 = some (some c)
      ∧ sampleSet.Eligible sampleWorkloads (AssocMap.empty.insert 80 8080) 80 c.endpoint
        c.workload := by
  have hreach : Reachable sampleSet := .apply (.apply (.newEmpty 0) 0 _) 0 _
  have hdraw : ∀ g, sampleSet.bestBucket = some g → g.index.isEmpty = false →
      g.Draws 1 ∧ g.Draws 1 := by
    intro g hg _
    cases hg
    exact ⟨Nat.one_lt_two, Nat.one_lt_two⟩
  obtain ⟨r, hr, hfound, hsome⟩ := select_endpoint_complete hreach sampleWorkloads
    (fun _ _ => .eq) (AssocMap.empty.insert 80 8080) 80 hdraw
  obtain ⟨c, rfl⟩ := Option.isSome_iff_exists.1 (hsome ⟨⟨"w", .empty, .healthy⟩, sampleWorkload,
    ⟨_, mem_singleton_self _, by decide, _, mem_cons_self, rfl⟩, 8080, rfl, rfl, by decide, nofun⟩)
  exact ⟨c, hr, hfound c rfl⟩

end EndpointSet

end AgentGateway.Endpoints
