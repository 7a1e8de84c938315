/-
From a change of a collection to the connections (`DiscoveryServer` and
`PushRequest` of `syncer/krtxds/xds.go`, and `syncer/krtxds/pushqueue.go`): the
channel of updates, `debounce`, the pushes it starts and the queue they fill.

A request is shared: one push hands the same pointer to every connection,
and `Merge` works in place, on a map that may be shared in turn and on
sets that may be. So requests, maps and sets are cells here, and what
matters is that a cell only ever grows (`Heap.Grows`): a request that is
merged into may gain keys for somebody else, and nobody loses one.

A connection is in the queue once, with everything it is due in one
request. While it is being pushed to it is not in the queue; what comes
for it in that time is held back and queued when the push is done. Each
function is one critical section of the queue's lock.

The goroutines take turns. A step is one iteration of the loop in
`debounce`, or what another goroutine does between two things that it can
block on; a step that is blocked leaves everything as it is. `debounce`
reads the clock once in an iteration. The log is not part of the server. It
records, for every hand that a request goes through, what the request told
to be pushed at that time.

# Left out

The fields that a request from a client has, since no such request is
merged, and the version, which labels it; `stopCh` and `ShutDown`, which end
it all, and the semaphore that delays `Dequeue`.
-/
import AgentGateway.Basic
import AgentGateway.Lib.Arena

namespace AgentGateway.Krtxds

open Lib AssocMap Arena

-- ======== cells

abbrev TypeUrl := Strng

/-- A changed configuration: its type and its name. -/
abbrev ConfigKey := TypeUrl × Strng

/-- `*PushRequest` and the references in it. -/
abbrev Ref := Nat

structure PushRequest where
  /-- a map of sets, or nil -/
  configsUpdated : Option Ref

structure Heap where
  requests : Arena PushRequest
  maps : Arena (HashMap TypeUrl Ref)
  sets : Arena (List Strng)

namespace Heap

def empty : Heap := ⟨.empty, .empty, .empty⟩

/-- `PushRequest{ConfigsUpdated: {t: names}}`. -/
def newRequest (h : Heap) (t : TypeUrl) (names : List Strng) : Heap × Ref :=
  let (sets, set) := h.sets.alloc names
  let (maps, map) := h.maps.alloc (AssocMap.empty.insert t set)
  let (requests, request) := h.requests.alloc ⟨some map⟩
  (⟨requests, maps, sets⟩, request)

/-- The loop body of `Merge`: a set is merged into the one there is, or
taken over. -/
def mergeEntry (map : Ref) (h : Heap) (entry : TypeUrl × Ref) : Heap :=
  match (h.maps.read? map).bind (·.get? entry.1) with
  | some set =>
    let added := (h.sets.read? entry.2).getD []
    { h with sets := h.sets.update set (· ++ added) }
  | none =>
    { h with maps := h.maps.update map (·.insert entry.1 entry.2) }

def entries (h : Heap) (request : Ref) : List (TypeUrl × Ref) :=
  match ((h.requests.read? request).bind (·.configsUpdated)).bind h.maps.read? with
  | some map => map.entries
  | none => []

/-- `PushRequest.Merge` of two requests. -/
def mergeInto (h : Heap) (pr other : Ref) : Heap :=
  match (h.requests.read? pr).bind (·.configsUpdated) with
  | none =>
    let configsUpdated := (h.requests.read? other).bind (·.configsUpdated)
    { h with requests := h.requests.update pr fun _ => ⟨configsUpdated⟩ }
  | some map => (h.entries other).foldl (mergeEntry map) h

def merge (h : Heap) : Option Ref → Ref → Heap × Ref
  | none, other => (h, other)
  | some pr, other => (h.mergeInto pr other, pr)

/-- What a request tells to be pushed. -/
def configs (h : Heap) (request : Ref) : List ConfigKey :=
  (h.entries request).flatMap fun (t, set) =>
    ((h.sets.read? set).getD []).map (t, ·)

-- ======== growth

structure Wf (h : Heap) : Prop where
  maps : ∀ request map, h.requests.read? request = some ⟨some map⟩ → h.maps.Valid map
  sets : ∀ map m t set, h.maps.read? map = some m → m.get? t = some set → h.sets.Valid set

/-- Cells grow, and stay where they are. -/
structure Grows (h h' : Heap) : Prop where
  requests : ∀ request map, h.requests.read? request = some ⟨some map⟩ →
    h'.requests.read? request = some ⟨some map⟩
  maps : ∀ map m, h.maps.read? map = some m → ∃ m', h'.maps.read? map = some m'
      ∧ ∀ t set, m.get? t = some set → m'.get? t = some set
  sets : ∀ set names, h.sets.read? set = some names →
    ∃ names', h'.sets.read? set = some names' ∧ ∀ k ∈ names, k ∈ names'
  valid : ∀ request, h.requests.Valid request → h'.requests.Valid request

variable {h h' h'' : Heap} {request map set : Ref} {t : TypeUrl} {k : Strng}

theorem Grows.rfl : h.Grows h where
  requests _ _ hr := hr
  maps _ m hm := ⟨m, hm, fun _ _ hg => hg⟩
  sets _ names hs := ⟨names, hs, fun _ hk => hk⟩
  valid _ hv := hv

theorem Grows.trans (h₁ : h.Grows h') (h₂ : h'.Grows h'') : h.Grows h'' where
  requests request map hr := h₂.requests request map (h₁.requests request map hr)
  maps map m hm := by
    obtain ⟨m', hm', hget⟩ := h₁.maps map m hm
    obtain ⟨m'', hm'', hget'⟩ := h₂.maps map m' hm'
    exact ⟨m'', hm'', fun t set hg => hget' t set (hget t set hg)⟩
  sets set names hs := by
    obtain ⟨names', hs', hsub⟩ := h₁.sets set names hs
    obtain ⟨names'', hs'', hsub'⟩ := h₂.sets set names' hs'
    exact ⟨names'', hs'', fun k hk => hsub' k (hsub k hk)⟩
  valid request hv := h₂.valid request (h₁.valid request hv)

def MapHas (h : Heap) (map : Ref) (t : TypeUrl) (k : Strng) : Prop :=
  ∃ m set names, h.maps.read? map = some m ∧ m.get? t = some set
    ∧ h.sets.read? set = some names ∧ k ∈ names

theorem MapHas.grow (hhas : h.MapHas map t k) (hg : h.Grows h') : h'.MapHas map t k := by
  obtain ⟨m, set, names, hm, hset, hnames, hk⟩ := hhas
  obtain ⟨m', hm', hget⟩ := hg.maps map m hm
  obtain ⟨names', hnames', hsub⟩ := hg.sets set names hnames
  exact ⟨m', set, names', hm', hget t set hset, hnames', hsub k hk⟩

theorem mem_entries : (t, set) ∈ h.entries request ↔ ∃ map m,
      h.requests.read? request = some ⟨some map⟩ ∧ h.maps.read? map = some m
        ∧ m.get? t = some set := by
  unfold entries
  constructor
  · intro hentry
    split at hentry
    · next m hm =>
      obtain ⟨map, hr, hm⟩ := Option.bind_eq_some_iff.1 hm
      obtain ⟨⟨_⟩, hr, rfl⟩ := Option.bind_eq_some_iff.1 hr
      exact ⟨map, m, hr, hm, AssocMap.mem_entries.1 hentry⟩
    · cases hentry
  · rintro ⟨map, m, hr, hm, hset⟩
    simp only [hr, hm, Option.bind_some]
    exact AssocMap.mem_entries.2 hset

theorem mem_configs : (t, k) ∈ h.configs request
      ↔ ∃ map, h.requests.read? request = some ⟨some map⟩ ∧ h.MapHas map t k := by
  unfold configs
  rw [List.mem_flatMap]
  constructor
  · rintro ⟨⟨t', set⟩, hentry, hk⟩
    obtain ⟨k', hk, heq⟩ := List.mem_map.1 hk
    cases heq
    obtain ⟨map, m, hr, hm, hset⟩ := mem_entries.1 hentry
    cases hs : h.sets.read? set with
    | none => simp [hs] at hk
    | some names =>
      rw [hs] at hk
      exact ⟨map, hr, m, set, names, hm, hset, hs, hk⟩
  · rintro ⟨map, hr, m, set, names, hm, hset, hs, hk⟩
    refine ⟨(t, set), mem_entries.2 ⟨map, m, hr, hm, hset⟩, ?_⟩
    show (t, k) ∈ ((h.sets.read? set).getD []).map (t, ·)
    rw [hs]
    exact List.mem_map.2 ⟨k, hk, rfl⟩

theorem Grows.configs (hg : h.Grows h') {key : ConfigKey}
    (hk : key ∈ h.configs request) : key ∈ h'.configs request := by
  obtain ⟨map, hr, hhas⟩ := mem_configs.1 hk
  exact mem_configs.2 ⟨map, hg.requests request map hr, hhas.grow hg⟩

-- ======== merging

theorem grows_sets (h : Heap) (set : Ref) (added : List Strng) :
    h.Grows { h with sets := h.sets.update set (· ++ added) } := by
  refine { Grows.rfl (h := h) with sets := fun set' names hs => ?_ }
  by_cases heq : set' = set
  · subst heq
    refine ⟨names ++ added, ?_, fun k hk => List.mem_append_left _ hk⟩
    rw [read?_update_self, hs]
    rfl
  · refine ⟨names, ?_, fun k hk => hk⟩
    show (h.sets.update _ _).read? _ = _
    rw [read?_update_ne _ _ heq, hs]

theorem grows_maps {m : HashMap TypeUrl Ref} (hm : h.maps.read? map = some m)
    (hnone : m.get? t = none) (set : Ref) :
    h.Grows { h with maps := h.maps.update map (·.insert t set) } := by
  refine { Grows.rfl (h := h) with maps := fun map' m' hm' => ?_ }
  by_cases heq : map' = map
  · subst heq
    cases hm.symm.trans hm'
    refine ⟨m.insert t set, ?_, fun t' set' hget => ?_⟩
    · show (h.maps.update _ _).read? _ = _
      rw [read?_update_self, hm]
      rfl
    · have hne : t' ≠ t := fun heq => by
        rw [heq, hnone] at hget
        cases hget
      rw [get?_insert_ne _ _ hne, hget]
  · refine ⟨m', ?_, fun _ _ hg => hg⟩
    show (h.maps.update _ _).read? _ = _
    rw [read?_update_ne _ _ heq, hm']

theorem mergeEntry_spec (hwf : h.Wf) (hmap : h.maps.Valid map)
    {entry : TypeUrl × Ref} (hentry : h.sets.Valid entry.2) :
    h.Grows (mergeEntry map h entry) ∧ (mergeEntry map h entry).Wf
      ∧ ∀ names, h.sets.read? entry.2 = some names → ∀ k ∈ names,
        (mergeEntry map h entry).MapHas map entry.1 k := by
  obtain ⟨m, hm⟩ := exists_read? hmap
  unfold mergeEntry
  rw [hm, Option.bind_some]
  cases hget : m.get? entry.1 with
  | some set =>
    have hvalid := hwf.sets map m entry.1 set hm hget
    obtain ⟨names₀, hnames₀⟩ := exists_read? hvalid
    refine ⟨grows_sets h set _, ⟨hwf.maps, ?_⟩, ?_⟩
    · intro map' m' t' set' hm' hget'
      exact valid_update.2 (hwf.sets map' m' t' set' hm' hget')
    · intro names hnames k hk
      rw [hnames]
      refine ⟨m, set, names₀ ++ names, hm, hget, ?_, List.mem_append_right _ hk⟩
      rw [read?_update_self, hnames₀]
      rfl
  | none =>
    refine ⟨grows_maps hm hget _, ⟨?_, ?_⟩, ?_⟩
    · intro request map' hr
      exact valid_update.2 (hwf.maps request map' hr)
    · intro map' m' t' set' hm' hget'
      by_cases heq : map' = map
      · subst heq
        rw [read?_update_self, hm] at hm'
        cases hm'
        rw [get?_insert] at hget'
        split at hget'
        · cases hget'
          exact hentry
        · exact hwf.sets map' m t' set' hm hget'
      · rw [read?_update_ne _ _ heq] at hm'
        exact hwf.sets map' m' t' set' hm' hget'
    · intro names hnames k hk
      refine ⟨m.insert entry.1 entry.2, entry.2, names, ?_, get?_insert_self .., hnames, hk⟩
      rw [read?_update_self, hm]
      rfl

theorem Grows.valid_map (hg : h.Grows h') (hmap : h.maps.Valid map) : h'.maps.Valid map := by
  obtain ⟨m, hm⟩ := exists_read? hmap
  obtain ⟨m', hm', -⟩ := hg.maps map m hm
  exact valid_of_read? hm'

theorem Grows.valid_set (hg : h.Grows h') (hset : h.sets.Valid set) : h'.sets.Valid set := by
  obtain ⟨names, hnames⟩ := exists_read? hset
  obtain ⟨names', hnames', -⟩ := hg.sets set names hnames
  exact valid_of_read? hnames'

theorem foldl_mergeEntry_spec (list : List (TypeUrl × Ref)) :
    ∀ {h : Heap}, h.Wf → h.maps.Valid map → (∀ entry ∈ list, h.sets.Valid entry.2) →
      h.Grows (list.foldl (mergeEntry map) h) ∧ (list.foldl (mergeEntry map) h).Wf
        ∧ ∀ entry ∈ list, ∀ names, h.sets.read? entry.2 = some names →
          ∀ k ∈ names, (list.foldl (mergeEntry map) h).MapHas map entry.1 k := by
  induction list with
  | nil => exact fun hwf _ _ => ⟨Grows.rfl, hwf, nofun⟩
  | cons entry list ih =>
    intro h hwf hmap hlist
    obtain ⟨hg, hwf', hhas⟩ := mergeEntry_spec hwf hmap (hlist entry List.mem_cons_self)
    obtain ⟨hg', hwf'', hhas'⟩ := ih hwf' (hg.valid_map hmap)
      fun e he => hg.valid_set (hlist e (List.mem_cons_of_mem _ he))
    refine ⟨hg.trans hg', hwf'', ?_⟩
    intro e he names hnames k hk
    cases he with
    | head => exact (hhas names hnames k hk).grow hg'
    | tail _ he =>
      obtain ⟨names', hnames', hsub⟩ := hg.sets e.2 names hnames
      exact hhas' e he names' hnames' k (hsub k hk)

/-- Merging adds the keys of the other request. -/
theorem mergeInto_spec (hwf : h.Wf) {pr : Ref} (hpr : h.requests.Valid pr) (other : Ref) :
    h.Grows (h.mergeInto pr other) ∧ (h.mergeInto pr other).Wf
      ∧ ∀ key ∈ h.configs other, key ∈ (h.mergeInto pr other).configs pr := by
  obtain ⟨⟨configsUpdated⟩, hread⟩ := exists_read? hpr
  unfold mergeInto
  rw [hread, Option.bind_some]
  cases configsUpdated with
  | none =>
    have hself : (h.requests.update pr fun _ =>
        ⟨(h.requests.read? other).bind (·.configsUpdated)⟩).read? pr
        = some ⟨(h.requests.read? other).bind (·.configsUpdated)⟩ := by
      rw [read?_update_self, hread]
      rfl
    refine ⟨{ Grows.rfl (h := h) with
        requests := fun request map hr => ?_
        valid := fun _ hv => valid_update.2 hv }, ⟨?_, hwf.sets⟩, ?_⟩
    · have hne : request ≠ pr := fun heq => by
        rw [heq, hread] at hr
        cases hr
      exact (read?_update_ne _ _ hne).trans hr
    · intro request map hr
      by_cases heq : request = pr
      · have hr := hself.symm.trans (heq ▸ hr)
        obtain ⟨o, ho, hmap⟩ := Option.bind_eq_some_iff.1
          (congrArg PushRequest.configsUpdated (Option.some.inj hr))
        obtain ⟨configsUpdated⟩ := o
        cases hmap
        exact hwf.maps other map ho
      · exact hwf.maps request map ((read?_update_ne _ _ heq).symm.trans hr)
    · intro ⟨t, k⟩ hk
      obtain ⟨map, hr, hhas⟩ := mem_configs.1 hk
      refine mem_configs.2 ⟨map, ?_, hhas⟩
      rw [hself, hr]
      rfl
  | some map =>
    have hmap := hwf.maps pr map hread
    have hentries : ∀ entry ∈ h.entries other, h.sets.Valid entry.2 := by
      intro ⟨t, set⟩ hentry
      obtain ⟨map', m, -, hm, hset⟩ := mem_entries.1 hentry
      exact hwf.sets map' m t set hm hset
    obtain ⟨hg, hwf', hhas⟩ := foldl_mergeEntry_spec (h.entries other) hwf hmap hentries
    refine ⟨hg, hwf', ?_⟩
    intro ⟨t, k⟩ hk
    obtain ⟨map', hr, m, set, names, hm, hset, hnames, hk⟩ := mem_configs.1 hk
    refine mem_configs.2 ⟨map, hg.requests pr map hread, ?_⟩
    exact hhas (t, set) (mem_entries.2 ⟨map', m, hr, hm, hset⟩) names hnames k hk

theorem merge_spec (hwf : h.Wf) {pr : Option Ref} {other : Ref}
    (hpr : ∀ r ∈ pr, h.requests.Valid r) (hother : h.requests.Valid other) :
    h.Grows (h.merge pr other).1 ∧ (h.merge pr other).1.Wf
      ∧ (h.merge pr other).1.requests.Valid (h.merge pr other).2 ∧ (∀ r ∈ pr, ∀ key ∈ h.configs r,
        key ∈ (h.merge pr other).1.configs (h.merge pr other).2) ∧ ∀ key ∈ h.configs other,
        key ∈ (h.merge pr other).1.configs (h.merge pr other).2 := by
  cases pr with
  | none => exact ⟨Grows.rfl, hwf, hother, nofun, fun _ hk => hk⟩
  | some pr =>
    obtain ⟨hg, hwf', hhas⟩ := mergeInto_spec hwf (hpr pr rfl) other
    refine ⟨hg, hwf', hg.valid pr (hpr pr rfl), ?_, hhas⟩
    intro r hr key hk
    cases hr
    exact hg.configs hk

theorem newRequest_spec (hwf : h.Wf) (t : TypeUrl) (names : List Strng) :
    h.Grows (h.newRequest t names).1 ∧ (h.newRequest t names).1.Wf
      ∧ (h.newRequest t names).1.requests.Valid (h.newRequest t names).2 ∧ ∀ k ∈ names,
        (t, k) ∈ (h.newRequest t names).1.configs (h.newRequest t names).2 := by
  have hmap : (h.newRequest t names).1.maps.read? h.maps.cells.length
      = some (AssocMap.empty.insert t h.sets.cells.length) :=
    read?_alloc_self ..
  have hset : (h.newRequest t names).1.sets.read? h.sets.cells.length
      = some names := read?_alloc_self ..
  refine ⟨⟨?_, ?_, ?_, fun _ hv => valid_alloc _ hv⟩, ⟨?_, ?_⟩, valid_alloc_self _ _, ?_⟩
  · intro request map hr
    exact (read?_alloc_of_valid _ (valid_of_read? hr)).trans hr
  · intro map m hm
    exact ⟨m, (read?_alloc_of_valid _ (valid_of_read? hm)).trans hm, fun _ _ hg => hg⟩
  · intro set names' hs
    exact ⟨names', (read?_alloc_of_valid _ (valid_of_read? hs)).trans hs,
      fun _ hk => hk⟩
  · intro request map hr
    rcases read?_alloc_eq_some hr with hr | ⟨-, heq⟩
    · exact valid_alloc _ (hwf.maps request map hr)
    · cases heq
      exact valid_alloc_self _ _
  · intro map m t' set hm hget
    rcases read?_alloc_eq_some hm with hm | ⟨-, heq⟩
    · exact valid_alloc _ (hwf.sets map m t' set hm hget)
    · subst heq
      rw [get?_insert] at hget
      split at hget
      · cases hget
        exact valid_alloc_self _ _
      · cases hget
  · intro k hk
    refine mem_configs.2 ⟨h.maps.cells.length, read?_alloc_self _ _, ?_⟩
    exact ⟨_, _, names, hmap, get?_insert_self .., hset, hk⟩

end Heap

-- ======== queue

/-- `*Connection`. -/
abbrev ConnId := Nat

structure PushQueue where
  pending : HashMap ConnId Ref
  queue : List ConnId
  /-- nil if nothing came since the connection was taken out -/
  processing : HashMap ConnId (Option Ref)
  shuttingDown : Bool

namespace PushQueue

open List

def new : PushQueue := ⟨.empty, [], .empty, false⟩

def enqueue (p : PushQueue) (h : Heap) (con : ConnId) (pushRequest : Ref) : PushQueue × Heap :=
  if p.shuttingDown then (p, h)
  else
    match p.processing.get? con with
    | some request =>
      let (h, merged) := h.merge request pushRequest
      ({ p with processing := p.processing.insert con (some merged) }, h)
    | none =>
      match p.pending.get? con with
      | some request =>
        let (h, merged) := h.merge (some request) pushRequest
        ({ p with pending := p.pending.insert con merged }, h)
      | none =>
        ({ p with
          pending := p.pending.insert con pushRequest
          queue := p.queue ++ [con] }, h)

/-- The next connection and what to push to it; blocks as long as there is
none. -/
def dequeue (p : PushQueue) : Option (ConnId × Option Ref × PushQueue) :=
  match p.queue with
  | [] => none
  | con :: queue =>
    some (con, p.pending.get? con, { p with
      queue
      pending := p.pending.erase con
      processing := p.processing.insert con none })

def markDone (p : PushQueue) (con : ConnId) : PushQueue :=
  let request := (p.processing.get? con).join
  let p := { p with processing := p.processing.erase con }
  match request with
  | some request =>
    { p with
      pending := p.pending.insert con request
      queue := p.queue ++ [con] }
  | none => p

-- ======== invariant

/-- A connection is in the queue once, or being pushed to, or neither. -/
structure Inv (p : PushQueue) : Prop where
  nodup : p.queue.Nodup
  pending : ∀ con, con ∈ p.queue ↔ p.pending.contains con
  apart : ∀ con ∈ p.queue, p.processing.contains con = false

/-- The request that has what is due to a connection. -/
def held (p : PushQueue) (con : ConnId) : Option Ref :=
  p.pending.get? con <|> (p.processing.get? con).join

variable {p : PushQueue} {h : Heap} {con c : ConnId} {r : Ref}

theorem inv_new : new.Inv where
  nodup := nodup_nil
  pending con := by simp [new]
  apart := nofun

variable {request : Option Ref} {h' : Heap} {p' : PushQueue} {key : ConfigKey}

theorem Inv.not_mem_of_processing (hinv : p.Inv)
    (hp : p.processing.get? con = some request) : con ∉ p.queue := by
  intro hmem
  have hnone := hinv.apart con hmem
  rw [AssocMap.contains, hp] at hnone
  cases hnone

def due (p : PushQueue) (h : Heap) (con : ConnId) : List ConfigKey :=
  match p.held con with
  | some request => h.configs request
  | none => []

structure Wf (p : PushQueue) (h : Heap) : Prop where
  pending : ∀ con r, p.pending.get? con = some r → h.requests.Valid r
  processing : ∀ con r, p.processing.get? con = some (some r) → h.requests.Valid r

theorem Wf.grow (hwf : p.Wf h) (hg : h.Grows h') : p.Wf h' where
  pending con r hr := hg.valid r (hwf.pending con r hr)
  processing con r hr := hg.valid r (hwf.processing con r hr)

theorem due_grow (hg : h.Grows h') (hkey : key ∈ p.due h c) : key ∈ p.due h' c := by
  unfold due at hkey ⊢
  split at hkey
  · exact hg.configs hkey
  · cases hkey

theorem due_of_held (hheld : p.held c = some r) : p.due h c = h.configs r := by
  rw [due, hheld]

theorem due_congr (hheld : p'.held c = p.held c) : p'.due h c = p.due h c := by
  rw [due, due, hheld]

theorem held_of_pending (hp : p.pending.get? c = some r) : p.held c = some r := by
  rw [held, hp]
  rfl

theorem held_of_processing (hp : p.pending.get? c = none)
    (hq : p.processing.get? c = some request) : p.held c = request := by
  rw [held, hp, hq]
  rfl

theorem pending_of_not_mem (hinv : p.Inv) (hmem : con ∉ p.queue) : p.pending.get? con = none := by
  rw [hinv.pending, Bool.not_eq_true] at hmem
  exact Option.isNone_iff_eq_none.1 (Option.isSome_eq_false_iff.1 hmem)

-- ---- enqueueing

/-- What is enqueued is due, and what was due still is. -/
structure Enqueued (p p' : PushQueue) (h h' : Heap) (con : ConnId) (r : Ref) : Prop where
  inv : p'.Inv
  grows : h.Grows h'
  heap : h'.Wf
  refs : p'.Wf h'
  running : p'.shuttingDown = p.shuttingDown
  keeps : ∀ c, ∀ key ∈ p.due h c, key ∈ p'.due h' c
  adds : ∀ key ∈ h.configs r, key ∈ p'.due h' con

theorem enqueued_of {merged : Ref} (hinv : p'.Inv) (hg : h.Grows h') (hheap : h'.Wf)
    (hrefs : p'.Wf h') (hrun : p'.shuttingDown = p.shuttingDown) (hself : p'.held con = some merged)
    (hothers : ∀ c, c ≠ con → p'.held c = p.held c)
    (hold : ∀ r' ∈ p.held con, ∀ key ∈ h.configs r', key ∈ h'.configs merged)
    (hnew : ∀ key ∈ h.configs r, key ∈ h'.configs merged) : Enqueued p p' h h' con r := by
  refine ⟨hinv, hg, hheap, hrefs, hrun, fun c key hkey => ?_, due_of_held (h := h') hself ▸ hnew⟩
  by_cases hc : c = con
  · subst hc
    rw [due_of_held hself]
    unfold due at hkey
    split at hkey
    · rename_i r' hheld
      exact hold r' hheld key hkey
    · cases hkey
  · rw [due_congr (hothers c hc)]
    exact due_grow hg hkey

theorem enqueued_processing (hinv : p.Inv) (hheap : h.Wf) (hrefs : p.Wf h)
    (hr : h.requests.Valid r) (hproc : p.processing.get? con = some request) : Enqueued p { p with
        processing := p.processing.insert con (some (h.merge request r).2) }
      h (h.merge request r).1 con r := by
  have hnot := hinv.not_mem_of_processing hproc
  have hpend := pending_of_not_mem hinv hnot
  obtain ⟨hg, hheap', hvalid, hold, hnew⟩ := Heap.merge_spec hheap
    (fun r' hr' => hrefs.processing con r' (hproc.trans (congrArg some hr'))) hr
  refine enqueued_of ⟨hinv.nodup, hinv.pending, ?_⟩ hg hheap' ⟨(hrefs.grow hg).pending, ?_⟩ rfl
    (held_of_processing hpend (get?_insert_self ..)) (fun c hc => ?_)
    (fun r' hr' => hold r' ((held_of_processing hpend hproc).symm.trans hr')) hnew
  · intro c hc
    have hne : c ≠ con := fun heq => hnot (heq ▸ hc)
    rw [AssocMap.contains, get?_insert_ne _ _ hne]
    exact hinv.apart c hc
  · intro c r' hget
    rw [get?_insert] at hget
    split at hget
    · cases hget
      exact hvalid
    · exact (hrefs.grow hg).processing c r' hget
  · unfold held
    rw [get?_insert_ne _ _ hc]

theorem enqueued_pending (hinv : p.Inv) (hheap : h.Wf) (hrefs : p.Wf h)
    (hr : h.requests.Valid r) {request : Ref} (hpend : p.pending.get? con = some request) :
    Enqueued p { p with
        pending := p.pending.insert con (h.merge (some request) r).2 }
      h (h.merge (some request) r).1 con r := by
  obtain ⟨hg, hheap', hvalid, hold, hnew⟩ := Heap.merge_spec hheap
    (fun r' hr' => hrefs.pending con r' (hpend.trans hr')) hr
  refine enqueued_of ⟨hinv.nodup, fun c => ?_, hinv.apart⟩ hg hheap'
    ⟨forall_insert (hrefs.grow hg).pending hvalid, (hrefs.grow hg).processing⟩ rfl
    (held_of_pending (get?_insert_self ..)) (fun c hc => ?_)
    (fun r' hr' => hold r' ((held_of_pending hpend).symm.trans hr')) hnew
  · rw [hinv.pending, AssocMap.contains_insert]
    refine ⟨.inr, fun hc => hc.elim (fun heq => ?_) id⟩
    rw [heq, AssocMap.contains, hpend]
    rfl
  · unfold held
    rw [get?_insert_ne _ _ hc]

theorem Inv.push (hinv : p.Inv) (hproc : p.processing.get? con = none)
    (hpend : p.pending.get? con = none) (r : Ref) : Inv { p with
      pending := p.pending.insert con r
      queue := p.queue ++ [con] } where
  nodup := by
    rw [← concat_eq_append]
    refine hinv.nodup.concat ?_
    rw [hinv.pending, AssocMap.contains, hpend]
    exact Bool.false_ne_true
  pending c := by
    rw [mem_append, mem_singleton, hinv.pending, AssocMap.contains_insert, or_comm]
  apart c hc := by
    rcases List.mem_append.1 hc with hc | hc
    · exact hinv.apart c hc
    · rw [List.mem_singleton.1 hc, AssocMap.contains, hproc]
      rfl

theorem enqueued_new (hinv : p.Inv) (hheap : h.Wf) (hrefs : p.Wf h)
    (hr : h.requests.Valid r) (hproc : p.processing.get? con = none)
    (hpend : p.pending.get? con = none) : Enqueued p { p with
        pending := p.pending.insert con r
        queue := p.queue ++ [con] }
      h h con r := by
  have hfree : p.held con = none := by
    rw [held, hpend, hproc]
    rfl
  refine enqueued_of (hinv.push hproc hpend r) Heap.Grows.rfl hheap
    ⟨forall_insert hrefs.pending hr, hrefs.processing⟩ rfl
    (held_of_pending (get?_insert_self ..)) (fun c hc => ?_) (fun r' hr' => ?_) fun _ hkey => hkey
  · unfold held
    rw [get?_insert_ne _ _ hc]
  · rw [hfree] at hr'
    cases hr'

theorem enqueue_spec (hinv : p.Inv) (hheap : h.Wf) (hrefs : p.Wf h)
    (hr : h.requests.Valid r) (hrun : p.shuttingDown = false) (con : ConnId) :
    Enqueued p (p.enqueue h con r).1 h (p.enqueue h con r).2 con r := by
  simp only [enqueue, hrun, Bool.false_eq_true, if_false]
  rw [← hrun]
  cases hproc : p.processing.get? con with
  | some request => exact enqueued_processing hinv hheap hrefs hr hproc
  | none =>
    cases hpend : p.pending.get? con with
    | some request => exact enqueued_pending hinv hheap hrefs hr hpend
    | none => exact enqueued_new hinv hheap hrefs hr hproc hpend

-- ---- taking it out

theorem dequeue_spec (hinv : p.Inv) (hrefs : p.Wf h) (hdeq : p.dequeue = some (con, request, p')) :
    (∃ r, request = some r ∧ h.requests.Valid r ∧ p.due h con = h.configs r)
      ∧ p'.Inv ∧ p'.Wf h ∧ p'.shuttingDown = p.shuttingDown
      ∧ ∀ c, c ≠ con → p'.due h c = p.due h c := by
  unfold dequeue at hdeq
  cases hq : p.queue with
  | nil =>
    rw [hq] at hdeq
    cases hdeq
  | cons con' queue =>
    rw [hq] at hdeq
    injection hdeq with hdeq
    injection hdeq with hcon hdeq
    injection hdeq with hrequest hp'
    subst hcon hrequest hp'
    have hmem : con' ∈ p.queue := hq ▸ mem_cons_self
    obtain ⟨r, hr⟩ := contains_iff.1 ((hinv.pending con').1 hmem)
    have hnodup : (con' :: queue).Nodup := hq ▸ hinv.nodup
    have hnot := (nodup_cons.1 hnodup).1
    refine ⟨⟨r, hr, hrefs.pending con' r hr, due_of_held (held_of_pending hr)⟩,
      ⟨(nodup_cons.1 hnodup).2, ?_, ?_⟩, ⟨fun c r' hget => ?_, ?_⟩, rfl, ?_⟩
    · intro c
      rw [contains_erase, ← hinv.pending, hq, mem_cons]
      constructor
      · intro hc
        exact ⟨fun heq => hnot (heq ▸ hc), .inr hc⟩
      · rintro ⟨hne, heq | hc⟩
        · exact absurd heq hne
        · exact hc
    · intro c hc
      have hne : c ≠ con' := fun heq => hnot (heq ▸ hc)
      rw [AssocMap.contains, get?_insert_ne _ _ hne]
      exact hinv.apart c (hq ▸ mem_cons_of_mem _ hc)
    · exact hrefs.pending c r' (get?_erase_eq_some.1 hget).2
    · intro c r' hget
      rw [get?_insert] at hget
      split at hget
      · cases hget
      · exact hrefs.processing c r' hget
    · intro c hc
      refine due_congr ?_
      unfold held
      rw [get?_erase_ne _ hc, get?_insert_ne _ _ hc]

theorem markDone_spec (hinv : p.Inv) (hrefs : p.Wf h) (con : ConnId) :
    (p.markDone con).Inv ∧ (p.markDone con).Wf h ∧ (p.markDone con).shuttingDown = p.shuttingDown
      ∧ ∀ c, (p.markDone con).due h c = p.due h c := by
  unfold markDone
  have herased : ∀ c r, (p.processing.erase con).get? c = some (some r) →
      h.requests.Valid r := fun c r hget =>
    hrefs.processing c r (get?_erase_eq_some.1 hget).2
  have hapart : ∀ c ∈ p.queue, (p.processing.erase con).contains c = false := by
    intro c hc
    rw [Bool.eq_false_iff, ne_eq, contains_erase]
    intro hcontains
    exact Bool.eq_false_iff.1 (hinv.apart c hc) hcontains.2
  cases hproc : (p.processing.get? con).join with
  | none =>
    refine ⟨⟨hinv.nodup, hinv.pending, hapart⟩,
      ⟨hrefs.pending, herased⟩, rfl, fun c => due_congr ?_⟩
    unfold held
    by_cases hc : c = con
    · subst hc
      rw [get?_erase_self, hproc]
      rfl
    · rw [get?_erase_ne _ hc]
  | some r =>
    have hproc := Option.join_eq_some_iff.1 hproc
    have hpend := pending_of_not_mem hinv (hinv.not_mem_of_processing hproc)
    have herase : Inv { p with processing := p.processing.erase con } :=
      { hinv with apart := hapart }
    refine ⟨herase.push (get?_erase_self ..) hpend r,
      ⟨forall_insert hrefs.pending (hrefs.processing con r hproc), herased⟩,
      rfl, fun c => due_congr ?_⟩
    by_cases hc : c = con
    · subst hc
      rw [held_of_pending (get?_insert_self p.pending c r), held_of_processing hpend hproc]
    · unfold held
      rw [get?_insert_ne _ _ hc, get?_erase_ne _ hc]

-- ---- first come, first

theorem enqueue_queue (p : PushQueue) (h : Heap) (con : ConnId) (r : Ref) :
    p.queue <+: (p.enqueue h con r).1.queue := by
  unfold enqueue
  split
  · exact prefix_rfl
  · split
    · exact prefix_rfl
    · split
      · exact prefix_rfl
      · exact prefix_append _ _

theorem markDone_queue (p : PushQueue) (con : ConnId) : p.queue <+: (p.markDone con).queue := by
  unfold markDone
  cases (p.processing.get? con).join with
  | none => exact prefix_rfl
  | some request => exact prefix_append _ _

/-- A connection that something is due to and that is not queued is being
pushed to, and is queued when that is done. -/
theorem mem_markDone_of_due (hinv : p.Inv)
    (hdue : key ∈ p.due h con) (hmem : con ∉ p.queue) : con ∈ (p.markDone con).queue := by
  have hpend := pending_of_not_mem hinv hmem
  unfold markDone
  cases hproc : (p.processing.get? con).join with
  | none =>
    rw [due, held, hpend, hproc] at hdue
    cases hdue
  | some request =>
    exact mem_append_right _ (mem_singleton_self con)

end PushQueue

-- ======== debounce

structure DebounceOptions where
  debounceAfter : Nat
  debounceMax : Nat

/-- The variables of `debounce`. -/
structure Debounce where
  /-- when the timer goes off; none if it has -/
  timeChan : Option Nat
  startDebounce : Nat
  lastConfigUpdateTime : Nat
  debouncedEvents : Nat
  req : Option Ref
  free : Bool

/-- A goroutine that runs `push`. The clients are those that `Push` has
yet to enqueue the request for, none before it has asked for them. -/
structure Push where
  req : Ref
  debouncedEvents : Nat
  clients : Option (List ConnId)

namespace Debounce

def init : Debounce := ⟨none, 0, 0, 0, none, true⟩

/-- It has been too long or quiet enough. -/
def stable (opts : DebounceOptions) (now : Nat) (d : Debounce) : Bool :=
  decide (opts.debounceMax ≤ now - d.startDebounce)
    || decide (opts.debounceAfter ≤ now - d.lastConfigUpdateTime)

def pushWorker (opts : DebounceOptions) (now : Nat) (d : Debounce) : Debounce × Option Push :=
  if d.stable opts now then
    match d.req with
    | some req =>
      ({ d with free := false, req := none, debouncedEvents := 0 },
        some ⟨req, d.debouncedEvents, none⟩)
    | none => (d, none)
  else
    let quietTime := now - d.lastConfigUpdateTime
    ({ d with timeChan := some (now + (opts.debounceAfter - quietTime)) }, none)

/-- `case r := <-ch`. -/
def receive (opts : DebounceOptions) (now : Nat) (d : Debounce) (h : Heap)
    (r : Ref) : Debounce × Heap :=
  let d := { d with lastConfigUpdateTime := now }
  let d :=
    if d.debouncedEvents = 0 then
      { d with
        timeChan := some (now + opts.debounceAfter)
        startDebounce := now }
    else d
  let (h, req) := h.merge d.req r
  ({ d with debouncedEvents := d.debouncedEvents + 1, req := some req }, h)

end Debounce

-- ======== server

/-- What a request told to be pushed, each time it was passed on. -/
inductive Entry
  /-- sent on the channel of updates -/
  | event (keys : List ConfigKey)
  /-- given to the push function -/
  | handed (keys : List ConfigKey)
  /-- the push has the clients that it is for -/
  | started (clients : List ConnId) (keys : List ConfigKey)
  | enqueued (con : ConnId) (keys : List ConfigKey)
  | dequeued (con : ConnId) (keys : List ConfigKey)

structure Server where
  heap : Heap
  now : Nat
  pushChannel : List Ref
  debounce : Debounce
  pushes : List Push
  /-- whether the one place in it is taken -/
  freeCh : Bool
  updateSent : Nat
  queue : PushQueue
  adsClients : List ConnId
  log : List Entry

namespace Server

def init : Server where
  heap := .empty
  now := 0
  pushChannel := []
  debounce := .init
  pushes := []
  freeCh := false
  updateSent := 0
  queue := .new
  adsClients := []
  log := []

def pushChannelSize : Nat := 10

variable (opts : DebounceOptions) (s : Server)

/-- `pushWorker`, and the goroutine that it starts. -/
def work : Server :=
  match s.debounce.pushWorker opts s.now with
  | (debounce, some push) =>
    { s with
      debounce
      pushes := s.pushes ++ [push]
      log := s.log ++ [.handed (s.heap.configs push.req)] }
  | (debounce, none) => { s with debounce }

/-- A batch of changes of one collection. -/
def event (t : TypeUrl) (names : List Strng) : Server :=
  if s.pushChannel.length < pushChannelSize then
    let (heap, r) := s.heap.newRequest t names
    { s with
      heap
      pushChannel := s.pushChannel ++ [r]
      log := s.log ++ [.event (names.map (t, ·))] }
  else s

def receive : Server :=
  match s.pushChannel with
  | [] => s
  | r :: pushChannel =>
    let (debounce, heap) := s.debounce.receive opts s.now s.heap r
    { s with heap, pushChannel, debounce }

/-- `case <-timeChan`. -/
def timer : Server :=
  match s.debounce.timeChan with
  | none => s
  | some deadline =>
    if deadline ≤ s.now then
      let s := { s with debounce := { s.debounce with timeChan := none } }
      if s.debounce.free then s.work opts else s
    else s

/-- `case <-freeCh`. -/
def free : Server :=
  if s.freeCh then
    work opts { s with
      freeCh := false
      debounce := { s.debounce with free := true } }
  else s

/-- `Push` asks for the clients. -/
def start (i : Nat) : Server :=
  match s.pushes[i]? with
  | some ⟨req, debouncedEvents, none⟩ =>
    { s with
      pushes := s.pushes.set i ⟨req, debouncedEvents, some s.adsClients⟩
      log := s.log ++ [.started s.adsClients (s.heap.configs req)] }
  | _ => s

/-- `Push` enqueues the request for a client, the next in the order in
which the map of the clients was walked. -/
def enqueue (i : Nat) (con : ConnId) : Server :=
  match s.pushes[i]? with
  | some ⟨req, debouncedEvents, some clients⟩ =>
    if con ∈ clients then
      let (queue, heap) := s.queue.enqueue s.heap con req
      { s with
        heap
        queue
        pushes := s.pushes.set i ⟨req, debouncedEvents, some (clients.erase con)⟩
        log := s.log ++ [.enqueued con (s.heap.configs req)] }
    else s
  | _ => s

def pushed (i : Nat) : Server :=
  match s.pushes[i]? with
  | some ⟨_, debouncedEvents, some []⟩ =>
    if s.freeCh then s
    else
      { s with
        pushes := s.pushes.eraseIdx i
        freeCh := true
        updateSent := s.updateSent + debouncedEvents }
  | _ => s

/-- `sendPushes` takes a connection out of the queue. -/
def dequeue : Server :=
  match s.queue.dequeue with
  | some (con, request, queue) =>
    let keys := (request.map s.heap.configs).getD []
    { s with
      queue
      log := s.log ++ [.dequeued con keys] }
  | none => s

inductive Step
  | tick (d : Nat)
  | connect (con : ConnId)
  | disconnect (con : ConnId)
  | event (t : TypeUrl) (names : List Strng)
  | receive
  | timer
  | free
  | start (i : Nat)
  | enqueue (i : Nat) (con : ConnId)
  | pushed (i : Nat)
  | dequeue
  | markDone (con : ConnId)
  deriving DecidableEq

def step : Step → Server
  | .tick d => { s with now := s.now + d }
  | .connect con => { s with adsClients := s.adsClients.insert con }
  | .disconnect con => { s with adsClients := s.adsClients.erase con }
  | .event t names => s.event t names
  | .receive => s.receive opts
  | .timer => s.timer opts
  | .free => s.free opts
  | .start i => s.start i
  | .enqueue i con => s.enqueue i con
  | .pushed i => s.pushed i
  | .dequeue => s.dequeue
  | .markDone con => { s with queue := s.queue.markDone con }

def run (steps : List Step) : Server :=
  steps.foldl (step opts) init

end Server

end AgentGateway.Krtxds
