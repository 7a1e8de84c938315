/-
Routes and what they match on, and the tables of them (`types/agent.rs`),
whether a match accepts a request, and route selection over one table
(`http/route.rs`, with the header accessors of `http/mod.rs`).

The regex engine and the query-string parser are third-party code: they
are the two functions of `External`, and nothing is assumed of them. The
backends and inline policies of a route are stored and handed back with
it, but nothing modelled reads them, so they are left out.

Both tables are one structure: the routes by key, and per hostname
matcher a vector kept sorted by binary insertion. They differ in what
they store per route (one entry for each match, or the key alone) and in
the comparison, which is what `routeIndex` and `tcpRouteIndex` say;
`compareRoute` is a lexicographic order, so both are lawful sorted
indexes. The `expect("corrupted state")` of the source is the `none` of the
operations.

# Selection

The answer is the best candidate, and the table is a function of its routes.
`Candidate` states, without the index, which matches compete for a
request; `MoreSpecific` and `compareRoute` are the two orders they
compete by. The index enters through `SortedIndex.lookup_eq_some` alone.
-/
import AgentGateway.Discovery.Types
import AgentGateway.Lib.SortedIndex
import AgentGateway.Lib.Run

namespace AgentGateway.Routes

open Discovery

abbrev RouteKey := Strng
abbrev RouteGroupKey := Strng

/-- `regex::Regex`, by `as_str`. -/
structure Regex where
  pattern : Strng

/-- `http::HeaderValue`: any bytes. -/
abbrev HeaderValue := List UInt8

inductive PathMatch
  | exact (path : Strng)
  | pathPrefix (path : Strng)
  | regex (r : Regex)
  | invalid

structure MethodMatch where
  method : Strng

/-- A header, or one of the pseudo headers. -/
inductive HeaderOrPseudo
  | header (name : Strng)
  | method
  | scheme
  | authority
  | path
  | status

inductive HeaderValueMatch
  | exact (value : HeaderValue)
  | regex (r : Regex)
  | invalid

structure HeaderMatch where
  name : HeaderOrPseudo
  value : HeaderValueMatch

inductive QueryValueMatch
  | exact (value : Strng)
  | regex (r : Regex)
  | invalid

structure QueryMatch where
  name : Strng
  value : QueryValueMatch

structure RouteMatch where
  headers : List HeaderMatch
  path : PathMatch
  method : Option MethodMatch
  query : List QueryMatch

structure RouteName where
  name : Strng
  ns : Strng
  ruleName : Option Strng
  kind : Option Strng
  deriving DecidableEq

structure Route where
  key : RouteKey
  /-- Set when the parent of the route is a service. -/
  serviceKey : Option NamespacedHostname
  name : RouteName
  /-- Each may be a wildcard. -/
  hostnames : List Strng
  matches_ : List RouteMatch

structure TCPRoute where
  key : RouteKey
  serviceKey : Option NamespacedHostname
  name : RouteName
  hostnames : List Strng

-- ======== hostnames

/-- `*.example.com` is `wildcard "example.com"`; `none` is any host. -/
inductive HostnameMatch
  | exact (host : Strng)
  | wildcard (suffix : Strng)
  | none
  deriving DecidableEq

namespace HostnameMatch

def ofStrng (s : Strng) : HostnameMatch :=
  match s.toList with
  | '*' :: '.' :: rest => .wildcard (String.ofList rest)
  | _ => .exact s

/-- The text after each dot, longest first. -/
def afterDots : List Char → List (List Char)
  | [] => []
  | c :: cs => if c = '.' then cs :: afterDots cs else afterDots cs

def allActualMatches (hostname : Strng) : List HostnameMatch :=
  let hasWildcardPrefix := "*.".toList.isPrefixOf hostname.toList
  let exactMatch := if hasWildcardPrefix then [] else [exact hostname]
  let wildcards := (afterDots hostname.toList).map fun s => wildcard (String.ofList s)
  exactMatch ++ wildcards

/-- The matchers a hostname satisfies, most specific first. -/
def allMatches (hostname : Strng) : List HostnameMatch :=
  allActualMatches hostname ++ [none]

end HostnameMatch

/-- The matchers a route is indexed under; one without hostnames takes
any host. -/
def hostnameMatchers (hostnames : List Strng) : List HostnameMatch :=
  if hostnames.isEmpty then [.none] else hostnames.map HostnameMatch.ofStrng

-- ======== matching

open Lib

/-- The library functions the matcher calls. -/
structure External where
  /-- `regex::Regex::find`: the byte span of the leftmost match. -/
  find : Regex → Strng → Option (Nat × Nat)
  /-- `url::form_urlencoded::parse`. -/
  parseQuery : Strng → List (Strng × Strng)

/-- The parts of a request that matching reads. Header names are lower
case, as the http crate keeps them. -/
structure Request where
  method : Strng
  scheme : Option Strng
  authority : Option Strng
  host : Option Strng
  path : Strng
  pathAndQuery : Option Strng
  query : Option Strng
  headers : List (Strng × HeaderValue)

-- ======== headers

/-- `HeaderValue::to_str`: only visible ASCII and tab read as text. -/
def HeaderValue.toStr (v : HeaderValue) : Option Strng :=
  if v.all fun b => (32 ≤ b && b < 127) || b = 9 then
    some (String.ofList (v.map fun b => Char.ofNat b.toNat))
  else none

def HeaderValue.tryFrom (s : Strng) : Option HeaderValue :=
  let bytes := s.toUTF8.toList
  if bytes.all fun b => (32 ≤ b && b ≠ 127) || b = 9 then some bytes else none

namespace Request

def header (req : Request) (name : Strng) : Option HeaderValue :=
  (req.headers.find? fun h => h.1 = name).map Prod.snd

def getPseudoHeaderValue (req : Request) : HeaderOrPseudo → Option Strng
  | .method => some req.method
  | .scheme => req.scheme
  | .authority => req.authority.or ((req.header "host").bind HeaderValue.toStr)
  | .path => some (req.pathAndQuery.getD req.path)
  | .status => none
  | .header _ => none

def getPseudoOrHeaderValue (req : Request) (pseudo : HeaderOrPseudo) : Option HeaderValue :=
  match pseudo with
  | .header v => req.header v
  | _ => (req.getPseudoHeaderValue pseudo).bind HeaderValue.tryFrom

end Request

-- ======== matching

/-- `str::trim_end_matches('/')`. -/
def trimEndSlash (s : Strng) : List Char :=
  (s.toList.reverse.dropWhile (· = '/')).reverse

variable (ext : External) (req : Request)

/-- A regex must match the whole of the text. -/
def fullMatch (r : Regex) (s : Strng) : Bool :=
  match ext.find r s with
  | some (start, stop) => start = 0 && stop = s.utf8ByteSize
  | none => false

def pathMatches : PathMatch → Bool
  | .exact p => req.path = p
  | .regex r => fullMatch ext r req.path
  | .invalid => false
  | .pathPrefix p =>
    match (trimEndSlash p).isPrefixOf? (trimEndSlash req.path) with
    | none => false
    | some suffix => suffix.isEmpty || suffix.head? = some '/'

def headerMatches (m : HeaderMatch) : Bool :=
  match req.getPseudoOrHeaderValue m.name with
  | none => false
  | some have_ =>
    match m.value with
    | .exact want => have_ = want
    | .regex want =>
      match HeaderValue.toStr have_ with
      | none => false
      | some s => fullMatch ext want s
    | .invalid => false

/-- Later query parameters win over earlier ones of the same name. -/
def queryMap : HashMap Strng Strng :=
  match req.query with
  | some q => AssocMap.ofList (ext.parseQuery q)
  | none => AssocMap.empty

def queryMatches (m : QueryMatch) : Bool :=
  match (queryMap ext req).get? m.name with
  | none => false
  | some have_ =>
    match m.value with
    | .exact want => have_ = want
    | .regex want => fullMatch ext want have_
    | .invalid => false

/-- Path, method, every header and every query parameter. -/
def matchesRequest (m : RouteMatch) (req : Request) : Bool :=
  pathMatches ext req m.path && (match m.method with
        | some method => req.method = method.method
        | none => true)
    && m.headers.all (headerMatches ext req)
    && m.query.all (queryMatches ext req)

-- ======== order

def getPathRank : PathMatch → Nat
  | .exact _ => 3
  -- prefix and regex defer to the length
  | .pathPrefix _ => 2
  | .regex _ => 2
  | .invalid => 0

def getPathLength : PathMatch → Nat
  | .exact s => s.utf8ByteSize
  | .pathPrefix s => s.utf8ByteSize
  | .regex r => r.pattern.utf8ByteSize
  | .invalid => 0

/-- The Gateway API precedence: better matches are less. -/
def compareRoute (a b : RouteMatch × RouteKey) : Ordering :=
  let pathRank1 := getPathRank a.1.path
  let pathRank2 := getPathRank b.1.path
  if pathRank1 ≠ pathRank2 then (compare pathRank1 pathRank2).swap
  else
    let pathLen1 := getPathLength a.1.path
    let pathLen2 := getPathLength b.1.path
    -- longer first
    if pathLen1 ≠ pathLen2 then (compare pathLen1 pathLen2).swap
    else
      let method1 := a.1.method.isSome
      let method2 := b.1.method.isSome
      if method1 ≠ method2 then (compare method1 method2).swap
      else
        let headerCount1 := a.1.headers.length
        let headerCount2 := b.1.headers.length
        if headerCount1 ≠ headerCount2 then
          (compare headerCount1 headerCount2).swap
        else
          let queryCount1 := a.1.query.length
          let queryCount2 := b.1.query.length
          if queryCount1 ≠ queryCount2 then
            (compare queryCount1 queryCount2).swap
          else compare a.2 b.2

-- ======== HTTP routes

structure SingleRouteMatch where
  key : RouteKey
  index : Nat
  deriving DecidableEq

/-- A route is indexed once per match, by `compareRoute`. -/
def routeIndex : IndexSpec HostnameMatch RouteKey Route SingleRouteMatch
    (RouteMatch × RouteKey) where
  key := Route.key
  labels r := hostnameMatchers r.hostnames
  entries r := r.matches_.zipIdx.map fun m => (⟨r.key, m.2⟩, (m.1, r.key))
  keyOf := SingleRouteMatch.key
  resolve r e := r.matches_[e.index]?.map fun m => (m, e.key)
  cmp := compareRoute

abbrev RouteSet := SortedIndex HostnameMatch RouteKey Route SingleRouteMatch

namespace RouteSet

def insert (rs : RouteSet) (r : Route) : Option RouteSet :=
  SortedIndex.insert routeIndex rs r

def remove (rs : RouteSet) (key : RouteKey) : RouteSet :=
  SortedIndex.remove routeIndex rs key

/-- The candidates under a hostname matcher, best first. -/
def getHostname (rs : RouteSet) (hnm : HostnameMatch) : Option (List (Route × RouteMatch)) :=
  (SortedIndex.lookup routeIndex rs hnm).map fun cs => cs.map fun c => (c.1, c.2.1)

end RouteSet

-- ======== TCP routes

/-- A TCP route is indexed once, by its key. -/
def tcpRouteIndex : IndexSpec HostnameMatch RouteKey TCPRoute RouteKey RouteKey where
  key := TCPRoute.key
  labels r := hostnameMatchers r.hostnames
  entries r := [(r.key, r.key)]
  keyOf k := k
  resolve _ k := some k
  cmp := compare

-- ======== selection

/-- The matcher loop of `select_best_route_group`: the first candidate
that accepts the request, under the first matcher that has one. -/
def selectLoop (ext : External) (rg : RouteSet) (req : Request) :
    List HostnameMatch → Option (Option (Route × PathMatch))
  | [] => some none
  | hnm :: rest => do
      let candidates ← rg.getHostname hnm
      match candidates.find? fun c => matchesRequest ext c.2 req with
      | some (route, matcher) => some (some (route, matcher.path))
      | none => selectLoop ext rg req rest

/-- `get_host`: the request is normalized, so the host is in its URI. -/
def hostMatchers (req : Request) : List HostnameMatch :=
  match req.host with
  | some host => HostnameMatch.allMatches host
  | none => []

/-- A request without a host selects nothing. -/
def selectBestRouteGroup (ext : External) (rg : RouteSet) (req : Request) :
    Option (Option (Route × PathMatch)) :=
  selectLoop ext rg req (hostMatchers req)

-- ======== runs

inductive RouteOp
  | insert (r : Route)
  | remove (key : RouteKey)

def RouteSet.step (rs : RouteSet) : RouteOp → Option RouteSet
  | .insert r => rs.insert r
  | .remove key => some (rs.remove key)

/-- The table after a sequence of mutations of an empty one. -/
def RouteSet.run (ops : List RouteOp) : Option RouteSet :=
  ops.foldlM RouteSet.step SortedIndex.empty

theorem swap_compare_ite {α : Type} [Ord α] [Std.LawfulEqOrd α]
    [Std.OrientedOrd α] [DecidableEq α] (a b : α) (o : Ordering) :
    (if a ≠ b then (compare a b).swap else o) = (compare b a).then o := by
  by_cases h : a = b
  · subst h
    rw [if_neg (by simp), Std.ReflOrd.compare_self]
    rfl
  · rw [if_pos h, ← Std.OrientedCmp.eq_swap]
    cases hc : compare b a with
    | lt | gt => rfl
    | eq => exact absurd (Std.LawfulEqOrd.eq_of_compare hc).symm h

/-- The documented order: path rank, path length, method, number of headers and of
query parameters, the greater first, and then the key of the route. -/
def precedence (a b : RouteMatch × RouteKey) : Ordering :=
  (compare (getPathRank b.1.path) (getPathRank a.1.path)).then
    ((compare (getPathLength b.1.path) (getPathLength a.1.path)).then
      ((compare b.1.method.isSome a.1.method.isSome).then
        ((compare b.1.headers.length a.1.headers.length).then
          ((compare b.1.query.length a.1.query.length).then (compare a.2 b.2)))))

theorem compareRoute_eq (a b : RouteMatch × RouteKey) : compareRoute a b = precedence a b := by
  unfold compareRoute precedence
  simp only [swap_compare_ite]

instance transCmp_compareRoute : Std.TransCmp compareRoute := by
  have hlex : compareRoute = compareLex (fun a b => compareOn (fun c => getPathRank c.1.path) b a)
          (compareLex (fun a b => compareOn (fun c => getPathLength c.1.path) b a)
            (compareLex (fun a b => compareOn (fun c => c.1.method.isSome) b a)
              (compareLex (fun a b => compareOn (fun c => c.1.headers.length) b a)
                (compareLex (fun a b => compareOn (fun c => c.1.query.length) b a)
                  (compareOn Prod.snd))))) := by
    funext a b
    exact compareRoute_eq a b
  rw [hlex]
  infer_instance

theorem mem_entries_routeIndex {r : Route} {e : SingleRouteMatch} {d : RouteMatch × RouteKey} :
    (e, d) ∈ routeIndex.entries r
      ↔ e.key = r.key ∧ r.matches_[e.index]? = some d.1 ∧ d.2 = r.key := by
  unfold routeIndex
  simp only [List.mem_map, Prod.mk.injEq, Prod.exists, List.mem_zipIdx_iff_getElem?]
  constructor
  · rintro ⟨m, i, hget, rfl, rfl⟩
    exact ⟨rfl, hget, rfl⟩
  · rintro ⟨hkey, hget, hd⟩
    refine ⟨d.1, e.index, hget, ?_, ?_⟩
    · rw [← hkey]
    · rw [← hd]

instance lawful_routeIndex : SortedIndex.Lawful routeIndex where
  trans := transCmp_compareRoute
  keyOf_entries := fun h => (mem_entries_routeIndex.1 h).1
  resolve_entries := by
    intro r e d h
    obtain ⟨hkey, hget, hd⟩ := mem_entries_routeIndex.1 h
    show r.matches_[e.index]?.map (fun m => (m, e.key)) = some d
    rw [hget, Option.map_some, hkey, ← hd]
  key_of_eq := by
    intro r r' e e' d d' h h' heq
    rw [show routeIndex.cmp d d' = compareRoute d d' from rfl, compareRoute_eq, precedence] at heq
    simp only [Ordering.then_eq_eq] at heq
    have hkey := Std.LawfulEqOrd.eq_of_compare heq.2.2.2.2.2
    rw [(mem_entries_routeIndex.1 h).2.2, (mem_entries_routeIndex.1 h').2.2] at hkey
    exact hkey

instance lawful_tcpRouteIndex : SortedIndex.Lawful tcpRouteIndex where
  trans := inferInstanceAs (Std.TransCmp (compare : Strng → Strng → Ordering))
  keyOf_entries := by
    intro r e d h
    cases List.mem_singleton.1 h
    rfl
  resolve_entries := by
    intro r e d h
    cases List.mem_singleton.1 h
    rfl
  key_of_eq := by
    intro r r' e e' d d' h h' heq
    cases List.mem_singleton.1 h
    cases List.mem_singleton.1 h'
    exact Std.LawfulEqOrd.eq_of_compare heq

theorem hostnameMatchers_ne_nil (hostnames : List Strng) : hostnameMatchers hostnames ≠ [] := by
  unfold hostnameMatchers
  split
  · simp
  · next h => simpa using h

open Lib List SortedIndex

-- ======== hostnames

/-- A hostname satisfies a matcher. -/
def Accepts (host : Strng) : HostnameMatch → Prop
  | .exact s => s = host
  | .wildcard suffix => ∃ label, host.toList = label ++ '.' :: suffix.toList
  | .none => True

/-- Exact before wildcard, a longer wildcard before a shorter one, and
anything before no hostname at all. -/
def MoreSpecific : HostnameMatch → HostnameMatch → Prop
  | .exact _, .exact _ => False
  | .exact _, _ => True
  | .wildcard s, .wildcard s' => s'.length < s.length
  | .wildcard _, .none => True
  | _, _ => False

theorem mem_afterDots {cs s : List Char} :
    s ∈ HostnameMatch.afterDots cs ↔ ∃ label, cs = label ++ '.' :: s := by
  induction cs with
  | nil => simp [HostnameMatch.afterDots]
  | cons c cs ih =>
    have hcons : (∃ label, c :: cs = label ++ '.' :: s)
        ↔ (c = '.' ∧ cs = s) ∨ ∃ label, cs = label ++ '.' :: s := by
      refine ⟨fun h => ?_, fun h => ?_⟩
      · obtain ⟨label, h⟩ := h
        cases label with
        | nil => exact Or.inl (by simpa using h)
        | cons d label => exact Or.inr ⟨label, (cons.inj h).2⟩
      · rcases h with ⟨hc, hs⟩ | ⟨label, h⟩
        · exact ⟨[], by rw [hc, hs]; rfl⟩
        · exact ⟨c :: label, by rw [h]; rfl⟩
    unfold HostnameMatch.afterDots
    rw [hcons]
    by_cases hc : c = '.'
    · rw [if_pos hc, mem_cons, ih]
      simp [hc, eq_comm]
    · rw [if_neg hc, ih]
      simp [hc]

theorem afterDots_pairwise (cs : List Char) :
    (HostnameMatch.afterDots cs).Pairwise fun s s' => s'.length < s.length := by
  induction cs with
  | nil => exact List.Pairwise.nil
  | cons c cs ih =>
    unfold HostnameMatch.afterDots
    split
    · refine pairwise_cons.2 ⟨fun s hs => ?_, ih⟩
      obtain ⟨label, rfl⟩ := mem_afterDots.1 hs
      simp only [length_append, length_cons]
      omega
    · exact ih

/-- The matcher of a route is never an exact one that starts like a
wildcard. -/
theorem not_exact_star {hostnames : List Strng} {host : Strng}
    (hstar : "*.".toList.isPrefixOf host.toList) :
    HostnameMatch.exact host ∉ hostnameMatchers hostnames := by
  intro hmem
  unfold hostnameMatchers at hmem
  split at hmem
  · simp at hmem
  · obtain ⟨s, -, hs⟩ := mem_map.1 hmem
    unfold HostnameMatch.ofStrng at hs
    split at hs
    · cases hs
    · next hne =>
      cases hs
      obtain ⟨rest, hrest⟩ := isPrefixOf_iff_prefix.1 hstar
      exact hne rest hrest.symm

/-- The matchers tried for a host are those it satisfies, up to the one
no route can have. -/
theorem mem_allMatches {hostnames : List Strng} {host : Strng}
    {h : HostnameMatch} (hown : h ∈ hostnameMatchers hostnames) :
    h ∈ HostnameMatch.allMatches host ↔ Accepts host h := by
  unfold HostnameMatch.allMatches HostnameMatch.allActualMatches
  rw [mem_append, mem_append, mem_singleton, mem_map]
  cases h with
  | none => simp [Accepts]
  | exact s =>
    simp only [Accepts, reduceCtorEq, and_false, exists_false, or_false]
    split
    · next hstar =>
      refine ⟨nofun, fun h => ?_⟩
      rw [h] at hown
      exact absurd hown (not_exact_star hstar)
    · simp
  | wildcard s =>
    have hnot : HostnameMatch.wildcard s ∉
        (if "*.".toList.isPrefixOf host.toList then [] else [HostnameMatch.exact host]) := by
      split <;> simp
    simp only [hnot, false_or, HostnameMatch.wildcard.injEq, reduceCtorEq, or_false, Accepts]
    refine ⟨fun h => ?_, fun h => ?_⟩
    · obtain ⟨cs, hcs, rfl⟩ := h
      rw [String.toList_ofList]
      exact mem_afterDots.1 hcs
    · exact ⟨s.toList, mem_afterDots.2 h, String.ofList_toList⟩

theorem allMatches_pairwise (host : Strng) :
    (HostnameMatch.allMatches host).Pairwise MoreSpecific := by
  have hwild : ((HostnameMatch.afterDots host.toList).map fun s =>
      HostnameMatch.wildcard (String.ofList s)).Pairwise MoreSpecific := by
    rw [pairwise_map]
    refine (afterDots_pairwise host.toList).imp fun {s s'} h => ?_
    show (String.ofList s').length < (String.ofList s).length
    simpa using h
  unfold HostnameMatch.allMatches HostnameMatch.allActualMatches
  rw [pairwise_append, pairwise_append]
  refine ⟨⟨?_, hwild, ?_⟩, pairwise_singleton _ _, ?_⟩
  · split
    · exact List.Pairwise.nil
    · exact pairwise_singleton _ _
  · intro a ha b hb
    split at ha
    · cases ha
    · obtain ⟨s, -, rfl⟩ := mem_map.1 hb
      rw [mem_singleton.1 ha]
      trivial
  · intro a ha b hb
    rw [mem_singleton.1 hb]
    rcases mem_append.1 ha with ha | ha
    · split at ha
      · cases ha
      · rw [mem_singleton.1 ha]
        trivial
    · obtain ⟨s, -, rfl⟩ := mem_map.1 ha
      trivial

-- ======== candidates

/-- `m` is a match of the route `r` of the table, indexed under `h`. -/
def Pair (rs : RouteSet) (h : HostnameMatch) (r : Route) (m : RouteMatch) : Prop :=
  rs.all.get? r.key = some r ∧ h ∈ hostnameMatchers r.hostnames ∧ m ∈ r.matches_

/-- A pair that competes for the request. -/
def Candidate (ext : External) (rs : RouteSet) (req : Request)
    (h : HostnameMatch) (r : Route) (m : RouteMatch) : Prop :=
  (∃ host, req.host = some host ∧ Accepts host h) ∧ Pair rs h r m ∧ matchesRequest ext m req

theorem exists_entry {r : Route} {d : RouteMatch × RouteKey} :
    (∃ e, (e, d) ∈ routeIndex.entries r) ↔ d.1 ∈ r.matches_ ∧ d.2 = r.key := by
  refine ⟨fun h => ?_, fun h => ?_⟩
  · obtain ⟨e, he⟩ := h
    obtain ⟨-, hget, hd⟩ := mem_entries_routeIndex.1 he
    exact ⟨mem_of_getElem? hget, hd⟩
  · obtain ⟨i, hget⟩ := getElem?_of_mem h.1
    exact ⟨⟨r.key, i⟩, mem_entries_routeIndex.2 ⟨rfl, hget, h.2⟩⟩

variable {rs : RouteSet} (ext : External)

theorem getHostname_eq_some (hinv : SortedIndex.IndexInv routeIndex rs) (h : HostnameMatch) :
    ∃ cs, rs.getHostname h = some cs ∧ cs.Pairwise (fun a b =>
          compareRoute (a.2, a.1.key) (b.2, b.1.key) ≠ .gt)
      ∧ ∀ r m, (r, m) ∈ cs ↔ Pair rs h r m := by
  obtain ⟨cs, hcs, hsorted, hmem⟩ := lookup_eq_some hinv h
  have hkey : ∀ c ∈ cs, c.2.2 = c.1.key := fun c hc =>
    (exists_entry.1 ((hmem c.1 c.2).1 hc).2.2).2
  refine ⟨cs.map fun c => (c.1, c.2.1), ?_, ?_, ?_⟩
  · unfold RouteSet.getHostname
    rw [hcs]
    rfl
  · rw [pairwise_map]
    refine List.Pairwise.imp_of_mem ?_ hsorted
    intro a b ha hb hab
    rw [← hkey a ha, ← hkey b hb]
    exact Ordering.isLE_iff_ne_gt.1 hab
  · intro r m
    rw [mem_map]
    constructor
    · rintro ⟨c, hc, heq⟩
      cases heq
      obtain ⟨hget, hlabel, hentry⟩ := (hmem c.1 c.2).1 hc
      exact ⟨hget, hlabel, (exists_entry.1 hentry).1⟩
    · rintro ⟨hget, hlabel, hm⟩
      refine ⟨(r, (m, r.key)), (hmem _ _).2 ⟨hget, hlabel, ?_⟩, rfl⟩
      exact exists_entry.2 ⟨hm, rfl⟩

theorem find?_least {cs : List (Route × RouteMatch)} (hsorted : cs.Pairwise fun a b =>
      compareRoute (a.2, a.1.key) (b.2, b.1.key) ≠ .gt)
    {p : Route × RouteMatch → Bool} {c : Route × RouteMatch} (hfind : cs.find? p = some c) :
    c ∈ cs ∧ p c ∧ ∀ c' ∈ cs, p c' → compareRoute (c.2, c.1.key) (c'.2, c'.1.key) ≠ .gt := by
  obtain ⟨hpc, pre, post, hsplit, hpre⟩ := find?_eq_some_iff_append.1 hfind
  subst hsplit
  refine ⟨by simp, hpc, ?_⟩
  intro c' hc' hpc'
  rcases mem_append.1 hc' with hin | hin
  · exact absurd hpc' (by simpa using hpre c' hin)
  · rcases mem_cons.1 hin with heq | hin
    · have hrefl : compareRoute (c.2, c.1.key) (c.2, c.1.key) = .eq :=
        Std.ReflCmp.compare_self
      rw [heq, hrefl]
      simp
    · exact (pairwise_cons.1 (pairwise_append.1 hsorted).2.1).1 c' hin

/-- The matcher loop: nothing under any matcher, or the least candidate of
the first matcher that has one. -/
theorem selectLoop_spec
    (hinv : SortedIndex.IndexInv routeIndex rs) (req : Request) (hs : List HostnameMatch) :
    (selectLoop ext rs req hs = some none ∧ ∀ h ∈ hs, ∀ r m,
        Pair rs h r m → matchesRequest ext m req = false) ∨ ∃ pre h post r m, hs = pre ++ h :: post
        ∧ selectLoop ext rs req hs = some (some (r, m.path))
        ∧ (∀ h' ∈ pre, ∀ r' m', Pair rs h' r' m' → matchesRequest ext m' req = false)
        ∧ Pair rs h r m ∧ matchesRequest ext m req
        ∧ ∀ r' m', Pair rs h r' m' → matchesRequest ext m' req →
            compareRoute (m, r.key) (m', r'.key) ≠ .gt := by
  induction hs with
  | nil => exact Or.inl ⟨rfl, by simp⟩
  | cons hnm rest ih =>
    obtain ⟨cs, hcs, hsorted, hmem⟩ := getHostname_eq_some hinv hnm
    unfold selectLoop
    rw [hcs]
    simp only [Option.bind_eq_bind, Option.bind_some]
    cases hfind : cs.find? (fun c => matchesRequest ext c.2 req) with
    | some c =>
      obtain ⟨hc, hpc, hleast⟩ := find?_least hsorted hfind
      refine Or.inr ⟨[], hnm, rest, c.1, c.2, rfl, rfl, by simp, (hmem _ _).1 hc, hpc, ?_⟩
      intro r' m' hpair hm'
      exact hleast (r', m') ((hmem _ _).2 hpair) hm'
    | none =>
      have hno : ∀ r m, Pair rs hnm r m → matchesRequest ext m req = false := by
        intro r m hpair
        simpa using find?_eq_none.1 hfind (r, m) ((hmem r m).2 hpair)
      rcases ih with ⟨hnone, hall⟩ | ⟨pre, h, post, r, m, hsplit, hsel, hpre, hcand⟩
      · exact Or.inl ⟨hnone, forall_mem_cons.2 ⟨hno, hall⟩⟩
      · exact Or.inr ⟨hnm :: pre, h, post, r, m, by rw [hsplit]; rfl, hsel,
          forall_mem_cons.2 ⟨hno, hpre⟩, hcand⟩

theorem mem_hostMatchers {req : Request} {h : HostnameMatch}
    {r : Route} {m : RouteMatch} (hpair : Pair rs h r m) :
    h ∈ hostMatchers req ↔ ∃ host, req.host = some host ∧ Accepts host h := by
  unfold hostMatchers
  cases req.host with
  | none => simp
  | some host => simp [mem_allMatches hpair.2.1]

theorem hostMatchers_pairwise (req : Request) : (hostMatchers req).Pairwise MoreSpecific := by
  unfold hostMatchers
  split
  · exact allMatches_pairwise _
  · exact List.Pairwise.nil

theorem selectBestRouteGroup_spec (hinv : SortedIndex.IndexInv routeIndex rs) (req : Request) :
    ∃ ans, selectBestRouteGroup ext rs req = some ans
      ∧ (ans = none ↔ ∀ h r m, ¬ Candidate ext rs req h r m)
      ∧ ∀ r p, ans = some (r, p) → ∃ h m, Candidate ext rs req h r m ∧ p = m.path
          ∧ ∀ h' r' m', Candidate ext rs req h' r' m' → MoreSpecific h h'
              ∨ (h' = h ∧ compareRoute (m, r.key) (m', r'.key) ≠ .gt) := by
  rcases selectLoop_spec ext hinv req (hostMatchers req) with
    ⟨hsel, hno⟩ | ⟨pre, h, post, r, m, hsplit, hsel, hpre, hpair, hm, hleast⟩
  · refine ⟨none, hsel, ⟨fun _ h r m hcand => ?_, fun _ => rfl⟩, ?_⟩
    · obtain ⟨hhost, hpair, hm⟩ := hcand
      rw [hno h ((mem_hostMatchers hpair).2 hhost) r m hpair] at hm
      cases hm
    · intro r p hans
      cases hans
  · have hin : h ∈ hostMatchers req := by
      rw [hsplit]
      simp
    have hcand : Candidate ext rs req h r m := ⟨(mem_hostMatchers hpair).1 hin, hpair, hm⟩
    refine ⟨some (r, m.path), hsel, ⟨nofun, fun hall =>
      absurd hcand (hall h r m)⟩, ?_⟩
    intro r₁ p hans
    cases hans
    refine ⟨h, m, hcand, rfl, ?_⟩
    intro h' r' m' hcand'
    obtain ⟨hhost', hpair', hm'⟩ := hcand'
    have hin' := (mem_hostMatchers hpair').2 hhost'
    have hspec := hostMatchers_pairwise req
    rw [hsplit] at hin' hspec
    rcases mem_append.1 hin' with hin' | hin'
    · rw [hpre h' hin' r' m' hpair'] at hm'
      cases hm'
    · rcases mem_cons.1 hin' with heq | hin'
      · rw [heq] at hpair'
        exact Or.inr ⟨heq, hleast r' m' hpair' hm'⟩
      · exact Or.inl ((pairwise_cons.1 (pairwise_append.1 hspec).2.1).1 h' hin')

theorem selectBestRouteGroup_ext {rs' : RouteSet}
    (hinv : SortedIndex.IndexInv routeIndex rs) (hinv' : SortedIndex.IndexInv routeIndex rs')
    (hall : ∀ k, rs.all.get? k = rs'.all.get? k) (req : Request) :
    selectBestRouteGroup ext rs req = selectBestRouteGroup ext rs' req := by
  have hget : ∀ h, rs.getHostname h = rs'.getHostname h := by
    intro h
    unfold RouteSet.getHostname
    rw [lookup_ext hinv hinv' hall]
  unfold selectBestRouteGroup
  induction hostMatchers req with
  | nil => rfl
  | cons h rest ih =>
    unfold selectLoop
    rw [hget, ih]

theorem count_entries_routeIndex (r : Route) (e : SingleRouteMatch) :
    ((routeIndex.entries r).map Prod.fst).count e
      = if r.key = e.key ∧ e.index < r.matches_.length then 1 else 0 := by
  have hnd : ((routeIndex.entries r).map Prod.fst).Nodup := by
    have hidx : ((routeIndex.entries r).map Prod.fst).map SingleRouteMatch.index
        = range r.matches_.length := by
      show map SingleRouteMatch.index (map Prod.fst (map _ _)) = _
      rw [map_map, map_map]
      rw [range_eq_range', ← zipIdx_map_snd 0 r.matches_]
      rfl
    refine List.Nodup.of_map SingleRouteMatch.index ?_
    rw [hidx]
    exact nodup_range
  have hmem : e ∈ (routeIndex.entries r).map Prod.fst
      ↔ r.key = e.key ∧ e.index < r.matches_.length := by
    rw [mem_map]
    refine ⟨fun h => ?_, fun h => ?_⟩
    · obtain ⟨a, ha, heq⟩ := h
      obtain ⟨hkey, hget, -⟩ := mem_entries_routeIndex.1 ha
      rw [heq] at hkey hget
      exact ⟨hkey.symm, (List.getElem?_eq_some_iff.1 hget).1⟩
    · refine ⟨(e, (r.matches_[e.index], r.key)), ?_, rfl⟩
      exact mem_entries_routeIndex.2 ⟨h.1.symm, getElem?_eq_getElem h.2, rfl⟩
  rw [List.Nodup.count hnd]
  exact if_congr hmem rfl rfl

-- ======== runs

theorem routeSet_step (hinv : SortedIndex.IndexInv routeIndex rs) (op : RouteOp) :
    ∃ rs', rs.step op = some rs' ∧ SortedIndex.IndexInv routeIndex rs' := by
  cases op with
  | insert r =>
    obtain ⟨rs', hins, hinv', -⟩ := insert_eq_some hinv r
    exact ⟨rs', hins, hinv'⟩
  | remove key => exact ⟨_, rfl, indexInv_remove hinv key⟩

theorem routeSet_run (ops : List RouteOp) :
    ∃ rs, RouteSet.run ops = some rs ∧ SortedIndex.IndexInv routeIndex rs := by
  exact foldlM_inv (fun op hinv => routeSet_step hinv op) ops indexInv_empty

-- ======== result

/-- After any run of insertions and removals: under each matcher every
match of every route that has the matcher is listed once per occurrence
of the matcher, in order, and no read aborts; selection returns the best
candidate, if any; both depend on the routes alone; and the order is the
documented one. -/
theorem routes_selected_best (ext : External) :
    (∀ ops : List RouteOp, ∃ rs, RouteSet.run ops = some rs
      ∧ (∀ h e, ((rs.inner.get? h).getD []).count e = match rs.all.get? e.key with
            | some r => if e.index < r.matches_.length
                then (hostnameMatchers r.hostnames).count h else 0
            | none => 0)
      ∧ (∀ h, ((rs.inner.get? h).getD []).Pairwise fun e e' =>
          ∃ r m r' m', rs.all.get? e.key = some r ∧ r.matches_[e.index]? = some m
            ∧ rs.all.get? e'.key = some r'
            ∧ r'.matches_[e'.index]? = some m'
            ∧ compareRoute (m, r.key) (m', r'.key) ≠ .gt)
      ∧ (∀ h, (rs.getHostname h).isSome)
      ∧ ∀ req, ∃ ans, selectBestRouteGroup ext rs req = some ans
        ∧ (ans = none ↔ ∀ h r m, ¬ Candidate ext rs req h r m)
        ∧ ∀ r p, ans = some (r, p) → ∃ h m, Candidate ext rs req h r m ∧ p = m.path
          ∧ ∀ h' r' m', Candidate ext rs req h' r' m' → MoreSpecific h h'
            ∨ (h' = h ∧ compareRoute (m, r.key) (m', r'.key) ≠ .gt))
    ∧ (∀ ops ops' rs rs', RouteSet.run ops = some rs → RouteSet.run ops' = some rs' →
        (∀ k, rs.all.get? k = rs'.all.get? k) →
        ∀ req, selectBestRouteGroup ext rs req = selectBestRouteGroup ext rs' req)
    ∧ ∀ a b, compareRoute a b = precedence a b := by
  refine ⟨fun ops => ?_, fun ops ops' rs rs' hrun hrun' hall req => ?_, compareRoute_eq⟩
  · obtain ⟨rs, hrun, hinv⟩ := routeSet_run ops
    refine ⟨rs, hrun, fun h e => ?_, fun h => ?_, fun h => ?_, fun req =>
      selectBestRouteGroup_spec ext hinv req⟩
    · rw [count_inner hinv h e, show routeIndex.keyOf e = e.key from rfl]
      cases hget : rs.all.get? e.key with
      | none => rfl
      | some r =>
        dsimp only
        rw [count_entries_routeIndex, show r.key = e.key from hinv.keyed hget]
        simp only [true_and]
        split
        · rw [Nat.mul_one]
          rfl
        · exact Nat.mul_zero _
    · refine (inner_sorted hinv h).imp fun {e e'} hx => ?_
      obtain ⟨r, d, r', d', hget, hentry, hget', hentry', hle⟩ := hx
      obtain ⟨-, hm, hd⟩ := mem_entries_routeIndex.1 hentry
      obtain ⟨-, hm', hd'⟩ := mem_entries_routeIndex.1 hentry'
      refine ⟨r, d.1, r', d'.1, hget, hm, hget', hm', ?_⟩
      rw [← hd, ← hd']
      exact Ordering.isLE_iff_ne_gt.1 hle
    · obtain ⟨cs, hcs, -⟩ := getHostname_eq_some hinv h
      rw [hcs]
      rfl
  · obtain ⟨rs₁, hrun₁, hinv⟩ := routeSet_run ops
    obtain ⟨rs₂, hrun₂, hinv'⟩ := routeSet_run ops'
    rw [hrun] at hrun₁
    rw [hrun'] at hrun₂
    cases hrun₁
    cases hrun₂
    exact selectBestRouteGroup_ext ext hinv hinv' hall req

def sampleMatch : RouteMatch := ⟨[], .pathPrefix "/", none, []⟩

def sampleRoute (key : RouteKey) (hostnames : List Strng) : Route where
  key := key
  serviceKey := none
  name := ⟨key, "default", none, none⟩
  hostnames := hostnames
  matches_ := [sampleMatch]

/-- A route that names a host twice is listed twice under it. -/
theorem not_each_match_once : ¬ ∀ ops : List RouteOp, ∃ rs, RouteSet.run ops = some rs
      ∧ ∀ h, ((rs.inner.get? h).getD []).Nodup := by
  intro hall
  obtain ⟨rs, hrun, hnd⟩ := hall [.insert (sampleRoute "r" ["a.com", "a.com"])]
  obtain rfl := Option.some.inj hrun
  exact absurd (hnd (.exact "a.com")) (by decide)

/-- An engine that never matches, and a parser that finds nothing. -/
def External.trivial : External := ⟨fun _ _ => none, fun _ => []⟩

theorem routes_selected_best_sample : ∃ rs rs', RouteSet.run [.insert (sampleRoute "r" ["a.com"]),
        .insert (sampleRoute "s" ["*.com"])] = some rs
      ∧ RouteSet.run [.insert (sampleRoute "t" []), .remove "t",
        .insert (sampleRoute "r" ["a.com"]), .insert (sampleRoute "s" ["*.com"])] = some rs'
      ∧ ∀ req, selectBestRouteGroup External.trivial rs req
          = selectBestRouteGroup External.trivial rs' req := by
  have hext := (routes_selected_best External.trivial).2.1
  refine ⟨?rs, ?rs', ?run, ?run', hext _ _ _ _ ?run ?run' fun k => ?_⟩
  case run => rfl
  case run' => rfl
  rfl

end AgentGateway.Routes
