/-
Convergence of the route tables under control-plane updates.

The control plane addresses a resource by name; the tables know routes
by key and target. `Projects` says that a table holds exactly the routes
of the live resources. HTTP and TCP routes are two projections of one
resource type, so both tables go through the same lemmas.

A run ends in the tables of its live resources, provided each step is
`RouteStepOk`. The two conditions that are not mere bookkeeping of names
mark where the store falls short:

- a live route that moves to another target leaves its old copy behind,
  since `insert_http_route_target` looks at the new target only
  (`moved_route_stays_behind`);
- a route without matches has no entry in the lists of its hostnames, so
  removing its last neighbour can empty the set's index, and the set is
  then dropped with the route still in it.
-/
import AgentGateway.Binds.Proofs.Live

namespace AgentGateway.Binds

open Routes Lib List AssocMap

variable {P B L R E D : Type} [DecidableEq L]

-- ======== projections

def httpRoute : Projection P B RouteTarget Route
  | .route w => some (Store.routeTarget w, (routeFromXds w).1)
  | _ => none

def tcpRoute : Projection P B RouteTarget TCPRoute
  | .tcpRoute w => some (Store.tcpRouteTarget w, (tcpRouteFromXds w).1)
  | _ => none

/-- The table holds the routes of the live resources, and no others. -/
def Projects (S : IndexSpec L RouteKey R E D) (proj : Projection P B RouteTarget R)
    (m : IndexTable RouteTarget L RouteKey R E) (live : Live P B) : Prop :=
  ∃ holding, IndexTable.TableInv S m holding ∧ Mirrors S.key proj holding live

/-- Taking the resource `name` away orphans no label of another route
under its target. -/
def KeepsLive (S : IndexSpec L RouteKey R E D) (proj : Projection P B RouteTarget R)
    (live : Live P B) (name : Strng) (after : List L) : Prop :=
  ∀ x t old, live.get? name = some x → proj x = some (t, old) →
    ∀ label ∈ S.labels old, label ∉ after → (∃ n' x' r', n' ≠ name ∧ live.get? n' = some x'
        ∧ proj x' = some (t, r') ∧ label ∈ S.labels r') →
      ∃ n' x' r', n' ≠ name ∧ live.get? n' = some x'
        ∧ proj x' = some (t, r') ∧ label ∈ S.labels r' ∧ S.entries r' ≠ []

variable {S : IndexSpec L RouteKey R E D} {kind : RouteKey → ResourceKind}
  {proj : Projection P B RouteTarget R} {m : IndexTable RouteTarget L RouteKey R E}
  {live : Live P B}

theorem projects_empty : Projects S proj (AssocMap.empty : IndexTable RouteTarget L RouteKey R E)
      (AssocMap.empty : Live P B) := by
  refine ⟨fun _ _ => none, IndexTable.tableInv_empty, ?_⟩
  intro t k r
  refine ⟨nofun, fun h => ?_⟩
  obtain ⟨-, n, x, hget, -⟩ := h
  cases hget

variable {t : RouteTarget} {r : R} {name : Strng} {x : Resource P B} {live' : Live P B}

theorem Projects.held (h : Projects S proj m live) {k : RouteKey} :
    (∃ set, m.get? t = some set ∧ set.all.get? k = some r)
      ↔ S.key r = k ∧ HoldsLive proj live (t, r) := by
  obtain ⟨holding, hinv, hholds⟩ := h
  rw [← hholds t k r, ← hinv.holds, Option.bind_eq_some_iff]

omit [DecidableEq L] in
theorem KeepsLive.keeps {holding : RouteTarget → RouteKey → Option R}
    (hholds : Mirrors S.key proj holding live) (hk : Kinded kind S.key proj)
    (hapart : KindsApart live) {old : R} (hx : live.get? name = some x)
    (hold : proj x = some (t, old)) {after : List L} (hkeeps : KeepsLive S proj live name after) :
    ∀ t', IndexTable.Keeps S (holding t') (S.key old) after := by
  intro t' old' hold' label hlabel hafter hother
  -- the key is held under one target, by the resource itself
  obtain ⟨hkey, n, x', hx', hproj'⟩ := (hholds t' (S.key old) old').1 hold'
  have hname := hapart hx' hx (hk.kind_eq hproj' hold hkey)
  subst hname
  rw [hx] at hx'
  cases hx'
  rw [hold] at hproj'
  cases hproj'
  obtain ⟨k, r, hne', hget, hr⟩ := hother
  obtain ⟨hrk, n', x', hx', hproj'⟩ := (hholds t k r).1 hget
  have hne : n' ≠ n := by
    intro heq
    rw [heq, hx] at hx'
    cases hx'
    rw [hold] at hproj'
    cases hproj'
    exact hne' hrk.symm
  obtain ⟨n₂, x₂, r₂, hne₂, hx₂, hproj₂, hlabel₂, hentries⟩ :=
    hkeeps x t old hx hold label hlabel hafter ⟨n', x', r, hne, hx', hproj', hr⟩
  refine ⟨S.key r₂, r₂, ?_, (hholds _ _ _).2 ⟨rfl, n₂, x₂, hx₂, hproj₂⟩, hlabel₂, hentries⟩
  intro heq
  exact hne₂ (hapart hx₂ hx (hk.kind_eq hproj₂ hold heq))

-- ======== steps

/-- A route is received, new or in place of a version with the same key
and target. -/
theorem projects_update [SortedIndex.Lawful S] (hne : ∀ r, S.labels r ≠ [])
    (h : Projects S proj m live) (hk : Kinded kind S.key proj)
    (hapart : KindsApart live) (hok : KeepsKind live name x) (hx : proj x = some (t, r))
    (hplace : ∀ {old t' r'}, live.get? name = some old → proj old = some (t', r') → t' = t)
    (hkeeps : KeepsLive S proj live name (S.labels r)) :
    ∃ m', IndexTable.insertTarget S m t r = some m' ∧ Projects S proj m' (live.insert name x) := by
  obtain ⟨holding, hinv, hholds⟩ := h
  have hslot : IndexTable.Keeps S (holding t) (S.key r) (S.labels r) := by
    intro old hold
    obtain ⟨hkey, n, x₀, hx₀, hproj₀⟩ := (hholds t (S.key r) old).1 hold
    have hname : n = name := by
      by_contra hn
      exact hok.2 n x₀ hn hx₀ (hk.kind_eq hproj₀ hx hkey)
    subst hname
    have hkept := hkeeps.keeps hholds hk hapart hx₀ hproj₀ t
    rw [hkey] at hkept
    exact hkept old hold
  obtain ⟨m', hins, hinv'⟩ := IndexTable.tableInv_insert hne hinv t r hslot
  exact ⟨m', hins, _, hinv', mirrors_insert hholds hk hok hx hplace⟩

theorem projects_remove [SortedIndex.Lawful S] (hne : ∀ r, S.labels r ≠ [])
    (h : Projects S proj m live) (hk : Kinded kind S.key proj)
    (hapart : KindsApart live) (hget : live.get? name = some x) (hx : proj x = some (t, r))
    (hkeeps : KeepsLive S proj live name []) :
    Projects S proj (IndexTable.removeKey S m (S.key r)) (live.erase name) := by
  obtain ⟨holding, hinv, hholds⟩ := h
  exact ⟨_, IndexTable.tableInv_remove hne hinv (S.key r) (hkeeps.keeps hholds hk hapart hget hx),
    mirrors_erase hholds hk hapart hget hx⟩

theorem Projects.frame (h : Projects S proj m live)
    (hsame : ∀ x, HoldsLive proj live' x ↔ HoldsLive proj live x) : Projects S proj m live' := by
  obtain ⟨holding, hinv, hholds⟩ := h
  exact ⟨holding, hinv, hholds.frame hsame⟩

theorem Projects.insert_other (h : Projects S proj m live) (hk : Kinded kind S.key proj)
    (hok : KeepsKind live name x) (hx : proj x = none) : Projects S proj m (live.insert name x) :=
  h.frame (holdsLive_insert (fun old hold => hk.none (hok.1 old hold) hx) hx)

theorem Projects.ext [SortedIndex.Lawful S] (hne : ∀ r, S.labels r ≠ [])
    {m' : IndexTable RouteTarget L RouteKey R E}
    (h : Projects S proj m live) (h' : Projects S proj m' live')
    (hlive : ∀ name, live.get? name = live'.get? name) : IndexTable.Same m m' := by
  obtain ⟨holding, hinv, hholds⟩ := h
  obtain ⟨holding', hinv', hholds'⟩ := h'
  have hsame : holding = holding' := by
    funext t k
    apply Option.ext
    intro r
    rw [hholds t k r, hholds' t k r]
    unfold HoldsLive
    simp only [hlive]
  subst hsame
  exact IndexTable.table_ext hne hinv hinv'

-- ======== conditions

/-- Another live route under the target has the hostname matcher. -/
def Shares (live : Live P B) (name : Strng) (t : RouteTarget)
    (h : HostnameMatch) (w : XdsRoute) : Prop :=
  ∃ name', name' ≠ name ∧ live.get? name' = some (.route w)
    ∧ Store.routeTarget w = t ∧ h ∈ hostnameMatchers w.hostnames

/-- Where the route `name` shares a matcher that it is about to lose, it
shares it with a route that has a match. -/
def NoOrphan (live : Live P B) (name : Strng) (after : List HostnameMatch) : Prop :=
  ∀ old, live.get? name = some (.route old) → ∀ h ∈ hostnameMatchers old.hostnames, h ∉ after →
      (∃ w, Shares live name (Store.routeTarget old) h w) →
      ∃ w, Shares live name (Store.routeTarget old) h w ∧ w.matches_ ≠ []

/-- A name keeps its kind and key, no other live name has them, and a
route keeps its target and orphans no other route. -/
def RouteStepOk (live : Live P B) : XdsUpdate P B → Prop
  | .update name res =>
    KeepsKind live name res
    ∧ match res with
      | .route w =>
        (∀ old, live.get? name = some (.route old) → Store.routeTarget old = Store.routeTarget w)
        ∧ NoOrphan live name (hostnameMatchers w.hostnames)
      | .tcpRoute w =>
        ∀ old, live.get? name = some (.tcpRoute old) →
          Store.tcpRouteTarget old = Store.tcpRouteTarget w
      | _ => True
  | .remove name => NoOrphan live name []

def RouteRunOk (live : Live P B) (us : List (XdsUpdate P B)) : Prop :=
  RunOk liveStep RouteStepOk live us

-- ======== invariant

/-- The store knows the names of the live resources, and its route tables
are theirs. -/
structure RoutesInv (s : Store P B) (live : Live P B) : Prop where
  names : NamesKnown s live
  apart : KindsApart live
  http : Projects routeIndex httpRoute s.httpRoutes live
  tcp : Projects tcpRouteIndex tcpRoute s.tcpRoutes live

variable {s : Store P B} {r : Route}

theorem httpRoute_eq_some : httpRoute x = some (t, r)
      ↔ ∃ w, x = .route w ∧ t = Store.routeTarget w ∧ r = (routeFromXds w).1 := by
  cases x <;> simp [httpRoute, eq_comm]

theorem tcpRoute_eq_some {r : TCPRoute} : tcpRoute x = some (t, r)
      ↔ ∃ w, x = .tcpRoute w ∧ t = Store.tcpRouteTarget w ∧ r = (tcpRouteFromXds w).1 := by
  cases x <;> simp [tcpRoute, eq_comm]

theorem http_kinded :
    Kinded .route routeIndex.key (httpRoute : Projection P B RouteTarget Route) := by
  intro x k
  cases x <;> simp [Store.resourceKind, httpRoute, routeIndex, routeFromXds]

theorem tcp_kinded : Kinded .tcpRoute tcpRouteIndex.key
    (tcpRoute : Projection P B RouteTarget TCPRoute) := by
  intro x k
  cases x <;> simp [Store.resourceKind, tcpRoute, tcpRouteIndex, tcpRouteFromXds]

theorem noOrphan_of_matches (h : ∀ n w, live.get? n = some (.route w) → w.matches_ ≠ [])
    (name : Strng) (after : List HostnameMatch) : NoOrphan live name after := by
  intro old _ hn _ _ hshares
  obtain ⟨w, hw⟩ := hshares
  obtain ⟨n', -, hget, -⟩ := id hw
  exact ⟨w, hw, h n' w hget⟩

theorem entries_ne_nil : routeIndex.entries r ≠ [] ↔ r.matches_ ≠ [] := by
  unfold routeIndex
  simp

theorem NoOrphan.keepsLive {after : List HostnameMatch}
    (h : NoOrphan live name after) : KeepsLive routeIndex httpRoute live name after := by
  intro x t old hx hproj label hlabel hafter hother
  obtain ⟨w, rfl, rfl, rfl⟩ := httpRoute_eq_some.1 hproj
  obtain ⟨n', x', r', hne, hx', hproj', hr'⟩ := hother
  obtain ⟨w', rfl, ht, rfl⟩ := httpRoute_eq_some.1 hproj'
  obtain ⟨w₂, ⟨n₂, hne₂, hx₂, ht₂, hh₂⟩, hm₂⟩ := h w hx label hlabel hafter
    ⟨w', n', hne, hx', ht.symm, hr'⟩
  exact ⟨n₂, _, (routeFromXds w₂).1, hne₂, hx₂, httpRoute_eq_some.2 ⟨w₂, rfl, ht₂.symm, rfl⟩, hh₂,
    entries_ne_nil.2 hm₂⟩

theorem tcp_keepsLive (live : Live P B) (name : Strng) (after : List HostnameMatch) :
    KeepsLive tcpRouteIndex tcpRoute live name after := by
  intro x t old hx hproj label hlabel hafter hother
  obtain ⟨n', x', r', hne, hx', hproj', hr'⟩ := hother
  exact ⟨n', x', r', hne, hx', hproj', hr', by simp [tcpRouteIndex]⟩

theorem http_labels_ne_nil (r : Route) : routeIndex.labels r ≠ [] :=
  hostnameMatchers_ne_nil r.hostnames

theorem tcp_labels_ne_nil (r : TCPRoute) : tcpRouteIndex.labels r ≠ [] :=
  hostnameMatchers_ne_nil r.hostnames

theorem routesInv_empty (ipv6Enabled : Bool) :
    RoutesInv (Store.empty ipv6Enabled : Store P B) empty where
  names := fun name => rfl
  apart := by
    intro n n' x x' hx
    cases hx
  http := projects_empty
  tcp := projects_empty

-- ======== steps

section Update

variable
  {res : Resource P B} (h : RoutesInv s live) {s' : Store P B}

include h

theorem routesInv_insert_other (hok : KeepsKind live name res)
    (hhttp : httpRoute res = none) (htcp : tcpRoute res = none) (hframe : RoutesFrame { s with
      resources := s.resources.insert name (Store.resourceKind res) } s') :
    RoutesInv s' (live.insert name res) where
  names := by
    intro n
    rw [hframe.resources]
    exact names_insert h.names name res n
  apart := kindsApart_insert h.apart hok
  http := by
    rw [hframe.http]
    exact h.http.insert_other http_kinded hok hhttp
  tcp := by
    rw [hframe.tcp]
    exact h.tcp.insert_other tcp_kinded hok htcp

theorem routesInv_update (hok : RouteStepOk live (.update name res)) :
    ∃ s', s.insertXds name res = some s' ∧ RoutesInv s' (live.insert name res) := by
  obtain ⟨hnamed, hroute⟩ := hok
  have hapart := kindsApart_insert h.apart hnamed
  cases res with
  | bind w =>
    refine ⟨_, rfl, routesInv_insert_other h hnamed rfl rfl ?_⟩
    exact frame_upsertBind _ _ _
  | listener w =>
    refine ⟨_, rfl, routesInv_insert_other h hnamed rfl rfl ?_⟩
    exact frame_insertListener _ _ _
  | backend | policy =>
    refine ⟨_, rfl, routesInv_insert_other h hnamed rfl rfl ?_⟩
    exact ⟨rfl, rfl, rfl⟩
  | route w =>
    obtain ⟨htarget, horphan⟩ := hroute
    obtain ⟨m', hins, hproj⟩ := projects_update http_labels_ne_nil h.http
      http_kinded h.apart hnamed rfl
      (by
        intro old t' r' hold hproj
        obtain ⟨w', rfl, rfl, rfl⟩ := httpRoute_eq_some.1 hproj
        exact htarget w' hold)
      horphan.keepsLive
    have hnames := names_insert h.names name (.route w)
    have htcp := h.tcp.insert_other tcp_kinded hnamed rfl
    refine ⟨{ s with
      resources := s.resources.insert name (.route w.key)
      httpRoutes := m' }, ?_, ⟨hnames, hapart, hproj, htcp⟩⟩
    show Option.bind _ _ = _
    rw [hins]
    rfl
  | tcpRoute w =>
    obtain ⟨m', hins, hproj⟩ := projects_update tcp_labels_ne_nil h.tcp
      tcp_kinded h.apart hnamed rfl
      (by
        intro old t' r' hold hproj
        obtain ⟨w', rfl, rfl, rfl⟩ := tcpRoute_eq_some.1 hproj
        exact hroute w' hold)
      (tcp_keepsLive live name _)
    have hnames := names_insert h.names name (.tcpRoute w)
    have hhttp := h.http.insert_other http_kinded hnamed rfl
    refine ⟨{ s with
      resources := s.resources.insert name (.tcpRoute w.key)
      tcpRoutes := m' }, ?_, ⟨hnames, hapart, hhttp, hproj⟩⟩
    show Option.bind _ _ = _
    rw [hins]
    rfl

theorem routesInv_erase_other (hget : live.get? name = some x) (hhttp : httpRoute x = none)
    (htcp : tcpRoute x = none)
    (hframe : RoutesFrame { s with resources := s.resources.erase name } s') :
    RoutesInv s' (live.erase name) where
  names := by
    intro n
    rw [hframe.resources]
    exact names_erase h.names name n
  apart := kindsApart_erase h.apart name
  http := by
    rw [hframe.http]
    exact h.http.frame (holdsLive_erase hget hhttp)
  tcp := by
    rw [hframe.tcp]
    exact h.tcp.frame (holdsLive_erase hget htcp)

theorem routesInv_remove (hok : RouteStepOk live (.remove name)) :
    RoutesInv (s.removeResource name) (live.erase name) := by
  cases hget : live.get? name with
  | none =>
    rw [removeResource_absent h.names hget]
    refine ⟨fun n => ?_, kindsApart_erase h.apart name,
      h.http.frame (holdsLive_erase hget rfl),
      h.tcp.frame (holdsLive_erase hget rfl)⟩
    rw [get?_erase_of_none hget]
    exact h.names n
  | some x =>
    have hname := h.names name
    rw [hget] at hname
    unfold Store.removeResource
    rw [show s.resources.get? name = some (Store.resourceKind x) from hname]
    cases x with
    | bind | backend =>
      exact routesInv_erase_other h hget rfl rfl ⟨rfl, rfl, rfl⟩
    | listener w =>
      exact routesInv_erase_other h hget rfl rfl (frame_removeListener _ _)
    | policy w =>
      exact routesInv_erase_other h hget rfl rfl (frame_removePolicy _ _)
    | route w =>
      have hhttp := projects_remove http_labels_ne_nil h.http http_kinded h.apart
        hget rfl (NoOrphan.keepsLive hok)
      exact ⟨names_erase h.names name, kindsApart_erase h.apart name, hhttp,
        h.tcp.frame (holdsLive_erase hget rfl)⟩
    | tcpRoute w =>
      have htcp := projects_remove tcp_labels_ne_nil h.tcp tcp_kinded h.apart
        hget rfl (tcp_keepsLive live name [])
      exact ⟨names_erase h.names name, kindsApart_erase h.apart name,
        h.http.frame (holdsLive_erase hget rfl), htcp⟩

end Update

theorem routesInv_step {u : XdsUpdate P B} (h : RoutesInv s live) (hok : RouteStepOk live u) :
    ∃ s', s.handleOne u = some s' ∧ RoutesInv s' (liveStep live u) := by
  cases u with
  | update name res => exact routesInv_update h hok
  | remove name => exact ⟨_, rfl, routesInv_remove h hok⟩

theorem routesInv_handle (us : List (XdsUpdate P B))
    (h : RoutesInv s live) (hok : RouteRunOk live us) :
    ∃ s', s.handle us = some s' ∧ RoutesInv s' (us.foldl liveStep live) :=
  foldlM_runOk routesInv_step us h hok

-- ======== result

/-- Only the last version of each live resource, received by a new
store. -/
def freshUpdates (live : Live P B) : List (XdsUpdate P B) :=
  live.entries.map fun e => .update e.1 e.2

theorem liveAfter_freshUpdates (live : Live P B) (name : Strng) :
    (liveAfter (freshUpdates live)).get? name = live.get? name := by
  have hfold : liveAfter (freshUpdates live) = ofList live.entries := by
    unfold liveAfter freshUpdates ofList
    rw [foldl_map]
    rfl
  apply Option.ext
  intro x
  rw [hfold, get?_ofList live.nodup, mem_entries]

theorem routeRunOk_new : ∀ (l : List (Strng × Resource P B)) (acc : Live P B),
    (l.map Prod.fst).Nodup → (l.map fun e => Store.resourceKind e.2).Nodup →
    (∀ e ∈ l, acc.get? e.1 = none) → (∀ e ∈ l, ∀ n x, acc.get? n = some x →
      Store.resourceKind x ≠ Store.resourceKind e.2) →
    RouteRunOk acc (l.map fun e => .update e.1 e.2) := by
  intro l
  induction l with
  | nil =>
    intro acc _ _ _ _
    trivial
  | cons e l ih =>
    intro acc hnames hkinds hnew hother
    rw [map_cons, nodup_cons] at hnames hkinds
    have habs : ∀ {x}, acc.get? e.1 ≠ some x := by
      intro x hx
      rw [hnew e mem_cons_self] at hx
      cases hx
    refine ⟨⟨⟨fun old hold => absurd hold habs, fun n' x' _ hx' =>
      hother e mem_cons_self n' x' hx'⟩, ?_⟩, ih _ hnames.2 hkinds.2 ?_ ?_⟩
    · split
      · exact ⟨fun old hold => absurd hold habs, fun old hold =>
          absurd hold habs⟩
      · exact fun old hold => absurd hold habs
      · trivial
    · intro e' he'
      have hne : e'.1 ≠ e.1 := by
        intro heq
        refine hnames.1 ?_
        rw [← heq]
        exact mem_map_of_mem he'
      show (acc.insert e.1 e.2).get? e'.1 = none
      rw [get?_insert_ne _ _ hne]
      exact hnew e' (mem_cons_of_mem _ he')
    · intro e' he' n x hx
      rw [show liveStep acc (.update e.1 e.2) = acc.insert e.1 e.2 from rfl, get?_insert] at hx
      split at hx
      · cases hx
        intro heq
        refine hkinds.1 ?_
        rw [heq]
        exact mem_map.2 ⟨e', he', rfl⟩
      · exact hother e' (mem_cons_of_mem _ he') n x hx

theorem routeRunOk_freshUpdates (h : KindsApart live) : RouteRunOk empty (freshUpdates live) := by
  refine routeRunOk_new live.entries _ live.nodup ?_ (fun e he => rfl)
    (fun e he n x hx => (nomatch hx))
  have hpw : live.entries.Pairwise fun e e' => e.1 ≠ e'.1 := pairwise_map.1 live.nodup
  refine pairwise_map.2 (List.Pairwise.imp_of_mem ?_ hpw)
  intro e e' he he' hne heq
  exact hne (h (mem_entries.1 he) (mem_entries.1 he') heq)

/-- A run whose steps meet their condition ends with every live route
under the target of its last version and nowhere else, in the tables a
new store has after receiving the last versions alone. -/
theorem routes_converge (ipv6Enabled : Bool) (us : List (XdsUpdate P B))
    (hok : RouteRunOk empty us) : ∃ s, (Store.empty ipv6Enabled).handle us = some s
      ∧ (∀ t k r, (∃ set, s.httpRoutes.get? t = some set ∧ set.all.get? k = some r)
          ↔ ∃ name w, (liveAfter us).get? name = some (.route w) ∧ w.key = k
              ∧ Store.routeTarget w = t ∧ (routeFromXds w).1 = r)
      ∧ (∀ t k r, (∃ set, s.tcpRoutes.get? t = some set ∧ set.all.get? k = some r)
          ↔ ∃ name w, (liveAfter us).get? name = some (.tcpRoute w) ∧ w.key = k
              ∧ Store.tcpRouteTarget w = t ∧ (tcpRouteFromXds w).1 = r)
      ∧ ∃ s', (Store.empty ipv6Enabled).handle (freshUpdates (liveAfter us)) = some s'
          ∧ IndexTable.Same s.httpRoutes s'.httpRoutes
          ∧ IndexTable.Same s.tcpRoutes s'.tcpRoutes := by
  obtain ⟨s, hrun, h⟩ := routesInv_handle us (routesInv_empty ipv6Enabled) hok
  obtain ⟨s', hrun', h'⟩ := routesInv_handle (freshUpdates (liveAfter us))
    (routesInv_empty ipv6Enabled) (routeRunOk_freshUpdates h.apart)
  have hlive : ∀ name, (liveAfter us).get? name
      = (liveAfter (freshUpdates (liveAfter us))).get? name :=
    fun name => (liveAfter_freshUpdates _ name).symm
  refine ⟨s, hrun, fun t k r => ?_, fun t k r => ?_, s', hrun',
    h.http.ext http_labels_ne_nil h'.http hlive,
    h.tcp.ext tcp_labels_ne_nil h'.tcp hlive⟩
  · rw [h.http.held]
    constructor
    · rintro ⟨hkey, name, x, hget, hproj⟩
      obtain ⟨w, rfl, rfl, rfl⟩ := httpRoute_eq_some.1 hproj
      exact ⟨name, w, hget, hkey, rfl, rfl⟩
    · rintro ⟨name, w, hget, rfl, rfl, rfl⟩
      exact ⟨rfl, name, _, hget, rfl⟩
  · rw [h.tcp.held]
    constructor
    · rintro ⟨hkey, name, x, hget, hproj⟩
      obtain ⟨w, rfl, rfl, rfl⟩ := tcpRoute_eq_some.1 hproj
      exact ⟨name, w, hget, hkey, rfl, rfl⟩
    · rintro ⟨name, w, hget, rfl, rfl, rfl⟩
      exact ⟨rfl, name, _, hget, rfl⟩

def sampleXdsRoute (key listenerKey : Strng) : XdsRoute where
  key := key
  name := ⟨key, "default", none, none⟩
  serviceKey := none
  listenerKey := listenerKey
  routeGroupKey := none
  hostnames := []
  matches_ := [⟨[], .pathPrefix "/", none, []⟩]

/-- Received twice under one target, with a neighbour withdrawn in
between. -/
def sampleUpdates : List (XdsUpdate Unit Unit) :=
  [.update "route/r" (.route (sampleXdsRoute "r" "a")),
    .update "route/q" (.route (sampleXdsRoute "q" "a")),
    .remove "route/q",
    .update "route/r" (.route (sampleXdsRoute "r" "a"))]

theorem sampleUpdates_ok : RouteRunOk empty sampleUpdates := by
  have hmatches : ∀ (live : Live Unit Unit),
      (∀ n x, live.get? n = some x → ∃ key, x = .route (sampleXdsRoute key "a")) →
      ∀ n w, live.get? n = some (.route w) → w.matches_ ≠ [] := by
    intro live hall n w hget
    obtain ⟨key, heq⟩ := hall n _ hget
    cases heq
    exact cons_ne_nil _ _
  refine ⟨⟨⟨?_, ?_⟩, ?_, ?_⟩, ⟨⟨?_, ?_⟩, ?_, ?_⟩, ?_, ⟨⟨?_, ?_⟩, ?_, ?_⟩, trivial⟩
  all_goals first
    | (refine noOrphan_of_matches (hmatches _ ?_) _ _
       intro n x hget
       simp only [liveStep, get?_insert, get?_erase, get?_empty] at hget
       grind)
    | (simp only [liveStep, get?_insert, get?_erase, get?_empty]
       grind [Store.resourceKind, sampleXdsRoute])

theorem routes_converge_sample : ∃ s, (Store.empty false).handle sampleUpdates = some s
      ∧ ∃ s', (Store.empty false).handle (freshUpdates (liveAfter sampleUpdates))
            = some s' ∧ IndexTable.Same s.httpRoutes s'.httpRoutes := by
  obtain ⟨s, hs, -, -, s', hs', hhttp, -⟩ := routes_converge false sampleUpdates sampleUpdates_ok
  exact ⟨s, hs, s', hs', hhttp⟩

/-- A live route that moves to another listener is still served by the
old one. -/
theorem moved_route_stays_behind : ¬ ∀ us : List (XdsUpdate Unit Unit), NamesFixed us →
      ∃ s, (Store.empty false).handle us = some s
        ∧ ∀ t k r, (∃ set, s.httpRoutes.get? t = some set ∧ set.all.get? k = some r) →
            ∃ name w, (liveAfter us).get? name = some (.route w) ∧ w.key = k
              ∧ Store.routeTarget w = t := by
  intro hall
  obtain ⟨s, hrun, hheld⟩ := hall [.update "route/r" (.route (sampleXdsRoute "r" "a")),
      .update "route/r" (.route (sampleXdsRoute "r" "b"))] (by
      intro name res res' h h'
      simp only [mem_cons, XdsUpdate.update.injEq, not_mem_nil, or_false] at h h'
      rcases h with ⟨-, rfl⟩ | ⟨-, rfl⟩ <;> rcases h' with ⟨-, rfl⟩ | ⟨-, rfl⟩ <;> rfl)
  obtain rfl := Option.some.inj hrun
  obtain ⟨name, w, hget, -, htarget⟩ := hheld (.listener "a") "r" _ ⟨_, rfl, rfl⟩
  -- the one live resource names the new listener
  have hlive : name = "route/r" ∧ w = sampleXdsRoute "r" "b" := by
    simp only [liveAfter, foldl_cons, foldl_nil, liveStep, get?_insert, get?_empty] at hget
    split at hget
    · next hn =>
      cases hget
      exact ⟨hn, rfl⟩
    · cases hget
  rw [hlive.2] at htarget
  exact absurd htarget (by decide)

end AgentGateway.Binds
