/-
The listeners of a Gateway and of the ListenerSets attached to it
(`translator/gateway_collection.go`), and which of them are marked as
conflicting, against the documented precedence.

The Gateway's own listeners come first, then those of the sets. The entries of the
sets are fetched in no fixed order and sorted, by the creation time in `ParentInfo`
and then by the text `namespace/name` of the set; the sort need not be stable. A
fold over the whole list marks the conflicts. It is a greedy choice
(`unmarked_eq`): a listener is marked if one before it in the list is not and
clashes with it.

# Where it breaks

`ListenerSetBuilder` does not fill in the creation time, so the list has the sets by
their names, and the listeners of one set in any order. And the hostnames that the
fold compares are qualified by the namespaces that a listener admits, so two
listeners with one hostname clash only if a namespace is admitted by both. (A
namespace has no slash, so a pair stands for the text here.)

It comes out right if whatever the precedence rejects is rejected by the fold as
well: it clashes, in a common namespace if it is the hostname, with an accepted
listener that the list has before it in any case (`First`).

# Left out

Gateways that are not translated at all, TLS, status, and whether a listener is
valid, which the fold does not look at.
-/
import AgentGateway.Basic
import AgentGateway.Lib.Greedy
import Mathlib.Data.String.Basic

namespace AgentGateway.Translator

open Lib List

/-- `AllowedRoutes`: the default is `same`, and a selector that is not there
allows `all`. A selector has the names that match, none if it is invalid. -/
inductive AllowedRoutes
  | same
  | all
  | selector (names : List Strng)
  deriving DecidableEq

structure Listener where
  port : Nat
  protocol : Strng
  hostname : Option Strng
  allowedRoutes : AllowedRoutes
  deriving DecidableEq

structure ListenerSet where
  ns : Strng
  name : Strng
  creationTimestamp : Nat
  listeners : List Listener
  deriving DecidableEq

/-- `types.NamespacedName.String`. -/
def ListenerSet.text (set : ListenerSet) : Strng := set.ns ++ "/" ++ set.name

/-- A Gateway, and the sets attached to it. -/
structure Gateway where
  ns : Strng
  listeners : List Listener
  sets : List ListenerSet
  distinct : (sets.map (·.text)).Nodup

/-- An entry of the list: the set it is from, if any, its place there, and what
`ParentInfo` has of it. -/
structure GatewayListener where
  parent : Option ListenerSet
  index : Nat
  creationTimestamp : Nat
  port : Nat
  protocol : Strng
  hostname : Strng
  hostnames : List (Strng × Strng)
  deriving DecidableEq

def namespacesFromSelector (localNamespace : Strng) : AllowedRoutes → List Strng
  | .same => [localNamespace]
  | .all => ["*"]
  | .selector names => names

def Listener.host (l : Listener) : Strng := l.hostname.getD "*"

def buildHostnameMatch (localNamespace : Strng) (l : Listener) : List (Strng × Strng) :=
  let resp := ((namespacesFromSelector localNamespace l.allowedRoutes).filter
    (· ≠ "")).map (·, l.host)
  if resp.isEmpty then [("~", l.host)] else resp

/-- The port 0 stands for the error. -/
def detectListenerPortNumber (protocol : Strng) (port : Nat) : Nat :=
  if port ≠ 0 then port
  else if protocol = "HTTP" then 80
  else if protocol = "HTTPS" then 443
  else 0

/-- The creation time stays at its zero value. -/
def listenerSetBuilder (set : ListenerSet) : List GatewayListener :=
  set.listeners.zipIdx.map fun (l, i) =>
    ⟨some set, i, 0, detectListenerPortNumber l.protocol l.port, l.protocol, l.host,
      buildHostnameMatch set.ns l⟩

namespace Gateway

def own (g : Gateway) : List GatewayListener :=
  g.listeners.zipIdx.map fun (l, i) =>
    ⟨none, i, 0, l.port, l.protocol, l.host, buildHostnameMatch g.ns l⟩

def attached (g : Gateway) : List GatewayListener := g.sets.flatMap listenerSetBuilder

end Gateway

def GatewayListener.text (l : GatewayListener) : Strng := (l.parent.map (·.text)).getD ""

/-- The order of the sort. -/
def GatewayListener.compare (a b : GatewayListener) : Ordering :=
  (Ord.compare a.creationTimestamp b.creationTimestamp).then (Ord.compare a.text b.text)

/-- What `slices.SortFunc` may make of the entries, fetched in any order. -/
def Sorted (fetched sorted : List GatewayListener) : Prop :=
  sorted.Perm fetched ∧ sorted.Pairwise fun a b => (a.compare b).isLE

-- ======== conflicts

inductive ListenerConflict
  | hostname
  | protocol

structure PortProtocol where
  hostnames : List (Strng × Strng)
  protocol : Strng

/-- One round of `validateListenerConflicts`: the ports, and the listeners with
what is found. -/
def validateListener
    (acc : HashMap Nat PortProtocol × List (GatewayListener × Option ListenerConflict))
    (l : GatewayListener) :
    HashMap Nat PortProtocol × List (GatewayListener × Option ListenerConflict) :=
  match acc.1.get? l.port with
  | some p =>
    if p.protocol = l.protocol then
      if p.hostnames.any (· ∈ l.hostnames) then (acc.1, acc.2 ++ [(l, some .hostname)])
      else (acc.1.insert l.port ⟨p.hostnames ++ l.hostnames, p.protocol⟩, acc.2 ++ [(l, none)])
    else (acc.1, acc.2 ++ [(l, some .protocol)])
  | none => (acc.1.insert l.port ⟨l.hostnames, l.protocol⟩, acc.2 ++ [(l, none)])

def validateListenerConflicts (listeners : List GatewayListener) :
    List (GatewayListener × Option ListenerConflict) :=
  (listeners.foldl validateListener (.empty, [])).2

def unmarked (listeners : List GatewayListener) : List GatewayListener :=
  (validateListenerConflicts listeners).filterMap fun (l, conflict) =>
    if conflict = none then some l else none

/-- The lists that `GatewayTransformationFunc` may come to. -/
def Gateway.Lists (g : Gateway) (ls : List GatewayListener) : Prop :=
  ∃ sorted, Sorted g.attached sorted ∧ ls = g.own ++ sorted

variable {g : Gateway} {ls : List GatewayListener} {u v : GatewayListener}

-- ======== precedence

/-- The documented precedence. -/
def Before (u v : GatewayListener) : Prop :=
  match u.parent, v.parent with
  | none, none => u.index < v.index
  | none, some _ => True
  | some _, none => False
  | some s, some t => s.creationTimestamp < t.creationTimestamp
      ∨ s.creationTimestamp = t.creationTimestamp ∧ (s.text < t.text ∨ s = t ∧ u.index < v.index)

/-- Two listeners that one port cannot have. -/
def Clash (u v : GatewayListener) : Prop :=
  u.port = v.port ∧ (u.protocol ≠ v.protocol ∨ u.hostname = v.hostname)

def Gateway.all (g : Gateway) : List GatewayListener := g.own ++ g.attached

/-- The marks follow the precedence, whatever the order of the list. -/
def FollowsPrecedence (g : Gateway) : Prop :=
  (∀ ls, g.Lists ls → ∀ v ∈ ls, v ∉ unmarked ls ↔ ∃ u ∈ unmarked ls, Before u v ∧ Clash u v)
    ∧ (∀ ls, g.Lists ls → ∀ u ∈ unmarked ls, ∀ v ∈ unmarked ls, u ≠ v → ¬ Clash u v)
    ∧ ∀ ls ls', g.Lists ls → g.Lists ls' → ∀ v, v ∈ unmarked ls ↔ v ∈ unmarked ls'

local instance : LawfulBEq (Strng × Strng) := inferInstance

/-- What the fold compares. -/
def clashes (u v : GatewayListener) : Bool :=
  u.port = v.port && (u.protocol ≠ v.protocol || u.hostnames.any (· ∈ v.hostnames))

/-- The list has it before the other in any case. -/
def First (u v : GatewayListener) : Prop :=
  match u.parent, v.parent with
  | none, none => u.index < v.index
  | none, some _ => True
  | some _, none => False
  | some s, some t => s.text < t.text

/-- What the precedence accepts, and that the rest is sure to be rejected. -/
def RejectedAlike (g : Gateway) : Prop :=
  ∃ accepted : GatewayListener → Prop,
    (∀ v ∈ g.all, ¬ accepted v ↔ ∃ u ∈ g.all, accepted u ∧ Before u v ∧ Clash u v)
      ∧ ∀ v ∈ g.all, ¬ accepted v → ∃ u ∈ g.all, accepted u ∧ First u v ∧ clashes u v

-- ======== the fold

/-- What the map has of the listeners that were not marked. -/
def Ports (portMap : HashMap Nat PortProtocol) (taken : List GatewayListener) : Prop :=
  ∀ port, match portMap.get? port with
    | none => ∀ u ∈ taken, u.port ≠ port
    | some p => (∃ u ∈ taken, u.port = port)
        ∧ (∀ u ∈ taken, u.port = port → u.protocol = p.protocol)
        ∧ ∀ h, h ∈ p.hostnames ↔ ∃ u ∈ taken, u.port = port ∧ h ∈ u.hostnames

theorem Ports.insert {portMap : HashMap Nat PortProtocol} {taken : List GatewayListener}
    (h : Ports portMap taken) {p : PortProtocol} (hprotocol : p.protocol = v.protocol)
    (hall : ∀ u ∈ taken, u.port = v.port → u.protocol = p.protocol)
    (hhosts : ∀ h, h ∈ p.hostnames ↔ (∃ u ∈ taken, u.port = v.port ∧ h ∈ u.hostnames)
      ∨ h ∈ v.hostnames) : Ports (portMap.insert v.port p) (taken ++ [v]) := by
  intro port
  rw [AssocMap.get?_insert]
  by_cases hport : port = v.port
  · rw [if_pos hport, hport]
    refine ⟨⟨v, by simp, rfl⟩, ?_, fun h => ?_⟩
    · simpa [or_imp, forall_and, hprotocol] using hall
    · rw [hhosts]
      simp [or_and_right, exists_or]
  · rw [if_neg hport]
    have hold := h port
    cases hget : portMap.get? port with
    | none =>
      rw [hget] at hold
      simpa [or_imp, forall_and, Ne.symm hport] using hold
    | some p =>
      rw [hget] at hold
      simpa [or_imp, forall_and, or_and_right, exists_or, Ne.symm hport] using hold

theorem validate_greedy (ls : List GatewayListener) :
    Ports (ls.foldl validateListener (.empty, [])).1 (greedy clashes ls)
      ∧ unmarked ls = greedy clashes ls := by
  induction ls using reverseRecOn with
  | nil =>
    refine ⟨fun _ u hu => ?_, rfl⟩
    cases hu
  | append_singleton ls v ih =>
    obtain ⟨hports, htaken⟩ := ih
    have hv := hports v.port
    rw [unmarked, validateListenerConflicts] at htaken ⊢
    rw [greedy, foldl_concat, foldl_concat, ← greedy, Lib.choose, validateListener]
    generalize ls.foldl validateListener (.empty, []) = acc at hports htaken hv
    cases hget : acc.1.get? v.port with
    | none =>
      rw [hget] at hv
      have hnone : (greedy clashes ls).any (clashes · v) = false := by
        simp only [any_eq_false, clashes]
        exact fun u hu => by simp [hv u hu]
      rw [hnone]
      refine ⟨hports.insert rfl (fun u hu hp => absurd hp (hv u hu)) fun h => ?_, ?_⟩
      · refine ⟨.inr, fun hh => hh.resolve_left ?_⟩
        rintro ⟨u, hu, hp, -⟩
        exact hv u hu hp
      · simp [htaken]
    | some p =>
      rw [hget] at hv
      obtain ⟨⟨w, hw, hwp⟩, hprotocol, hhosts⟩ := hv
      have hany : (greedy clashes ls).any (clashes · v)
          ↔ p.protocol ≠ v.protocol ∨ p.hostnames.any (· ∈ v.hostnames) := by
        simp only [any_eq_true, clashes, Bool.and_eq_true, Bool.or_eq_true,
          decide_eq_true_eq, hhosts]
        constructor
        · rintro ⟨u, hu, hp, hne | ⟨h, hh, hhv⟩⟩
          · exact .inl (hprotocol u hu hp ▸ hne)
          · exact .inr ⟨h, ⟨u, hu, hp, hh⟩, hhv⟩
        · rintro (hne | ⟨h, ⟨u, hu, hp, hh⟩, hhv⟩)
          · exact ⟨w, hw, hwp, .inl (hprotocol w hw hwp ▸ hne)⟩
          · exact ⟨u, hu, hp, .inr ⟨h, hh, hhv⟩⟩
      dsimp only
      by_cases hp : p.protocol = v.protocol
      · by_cases hh : p.hostnames.any (· ∈ v.hostnames)
        · rw [if_pos hp, if_pos hh, if_pos (hany.2 (.inr hh))]
          exact ⟨hports, by simp [htaken]⟩
        · rw [if_pos hp, if_neg hh, if_neg (by simp [hany, hp, hh])]
          refine ⟨hports.insert hp hprotocol fun h => ?_, by simp [htaken]⟩
          rw [mem_append, hhosts]
      · rw [if_neg hp, if_pos (hany.2 (.inl hp))]
        exact ⟨hports, by simp [htaken]⟩

theorem unmarked_eq (ls : List GatewayListener) : unmarked ls = greedy clashes ls :=
  (validate_greedy ls).2

/-- Listeners that are not marked can share their ports, and one that is marked
could not be added to them. -/
theorem unmarked_share_ports (ls : List GatewayListener) :
    (unmarked ls).Pairwise (fun u v => u.port = v.port →
        u.protocol = v.protocol ∧ ∀ h ∈ u.hostnames, h ∉ v.hostnames)
      ∧ ∀ v ∈ ls, v ∈ unmarked ls ∨ ∃ u ∈ unmarked ls, u.port = v.port
        ∧ (u.protocol ≠ v.protocol ∨ ∃ h ∈ u.hostnames, h ∈ v.hostnames) := by
  rw [unmarked_eq]
  obtain ⟨hapart, hcovered⟩ := greedy_spec clashes ls
  simp only [clashes, Bool.and_eq_true, Bool.or_eq_true, decide_eq_true_eq, any_eq_true] at hcovered
  refine ⟨hapart.imp fun {u v} hclash hport => ?_, hcovered⟩
  simpa [clashes, hport] using hclash

-- ======== the entries

theorem parent_own (hv : v ∈ g.own) : v.parent = none := by
  obtain ⟨p, -, rfl⟩ := mem_map.1 hv
  rfl

theorem parent_set {s : ListenerSet} (hv : v ∈ listenerSetBuilder s) : v.parent = some s := by
  obtain ⟨p, -, rfl⟩ := mem_map.1 hv
  rfl

theorem index_increasing {α : Type} {f : α × Nat → GatewayListener}
    (hf : ∀ p, (f p).index = p.2) (l : List α) :
    ((l.zipIdx.map f).map (·.index)).Pairwise (· < ·) := by
  have hindex : (l.zipIdx.map f).map (·.index) = range' 0 l.length := by
    rw [← zipIdx_map_snd, map_map]
    exact map_congr_left fun p _ => hf p
  rw [hindex]
  exact pairwise_lt_range'

theorem own_increasing (g : Gateway) : (g.own.map (·.index)).Pairwise (· < ·) :=
  index_increasing (fun _ => rfl) _

theorem set_increasing (s : ListenerSet) :
    ((listenerSetBuilder s).map (·.index)).Pairwise (· < ·) :=
  index_increasing (fun _ => rfl) _

theorem mem_all : v ∈ g.all ↔ v ∈ g.own ∨ ∃ s ∈ g.sets, v ∈ listenerSetBuilder s := by
  rw [Gateway.all, mem_append, Gateway.attached, mem_flatMap]

theorem hostname_of_mem (hv : v ∈ g.all) {h : Strng × Strng} (hh : h ∈ v.hostnames) :
    h.2 = v.hostname := by
  have hbuild : ∀ ns l, h ∈ buildHostnameMatch ns l → h.2 = l.host := by
    intro ns l hh
    unfold buildHostnameMatch at hh
    dsimp only at hh
    split at hh
    · rw [mem_singleton.1 hh]
    · obtain ⟨n, -, rfl⟩ := mem_map.1 hh
      rfl
  rcases mem_all.1 hv with hv | ⟨s, -, hv⟩
  · obtain ⟨p, -, rfl⟩ := mem_map.1 hv
    exact hbuild _ _ hh
  · obtain ⟨p, -, rfl⟩ := mem_map.1 hv
    exact hbuild _ _ hh

theorem clash_of_clashes (hu : u ∈ g.all) (hv : v ∈ g.all) (h : clashes u v) : Clash u v := by
  simp only [clashes, Bool.and_eq_true, Bool.or_eq_true, decide_eq_true_eq, any_eq_true] at h
  refine ⟨h.1, h.2.imp_right ?_⟩
  rintro ⟨x, hx, hx'⟩
  rw [← hostname_of_mem hu hx, hostname_of_mem hv hx']

theorem before_total (hu : u ∈ g.all) (hv : v ∈ g.all) (hne : u ≠ v) : Before u v ∨ Before v u := by
  unfold Before
  rcases mem_all.1 hu with hu | ⟨s, hs, hu⟩
  · rw [parent_own hu]
    rcases mem_all.1 hv with hv | ⟨t, ht, hv⟩
    · rw [parent_own hv]
      refine Nat.lt_or_gt_of_ne fun heq => hne ?_
      exact inj_on_of_nodup_map ((own_increasing g).imp ne_of_lt) hu hv heq
    · rw [parent_set hv]
      exact .inl trivial
  · rw [parent_set hu]
    rcases mem_all.1 hv with hv | ⟨t, ht, hv⟩
    · rw [parent_own hv]
      exact .inr trivial
    · rw [parent_set hv]
      have hset : s.text = t.text → s = t := inj_on_of_nodup_map g.distinct hs ht
      have hindex : s = t → u.index ≠ v.index := by
        rintro rfl heq
        exact hne (inj_on_of_nodup_map ((set_increasing s).imp ne_of_lt) hu hv heq)
      rcases lt_trichotomy s.creationTimestamp t.creationTimestamp with htime | htime | htime
      · exact .inl (.inl htime)
      · rcases lt_trichotomy s.text t.text with hlt | heq | hlt
        · exact .inl (.inr ⟨htime, .inl hlt⟩)
        · have hst := hset heq
          rcases Nat.lt_or_gt_of_ne (hindex hst) with hlt | hlt
          · exact .inl (.inr ⟨htime, .inr ⟨hst, hlt⟩⟩)
          · exact .inr (.inr ⟨htime.symm, .inr ⟨hst.symm, hlt⟩⟩)
        · exact .inr (.inr ⟨htime.symm, .inl hlt⟩)
      · exact .inr (.inl htime)

-- ======== the list

theorem nodup_all (g : Gateway) : g.all.Nodup := by
  refine nodup_append'.2 ⟨.of_map _ ((own_increasing g).imp ne_of_lt),
    nodup_flatMap.2 ⟨fun s _ => .of_map _ ((set_increasing s).imp ne_of_lt), ?_⟩, ?_⟩
  · refine (List.Nodup.of_map _ g.distinct).imp fun hne v hs ht => hne ?_
    exact Option.some.inj ((parent_set hs).symm.trans (parent_set ht))
  · intro v hown hattached
    obtain ⟨s, -, hv⟩ := mem_flatMap.1 hattached
    cases (parent_own hown).symm.trans (parent_set hv)

theorem parent_attached (hv : v ∈ g.attached) :
    v.creationTimestamp = 0 ∧ ∃ s, v.parent = some s ∧ v.text = s.text := by
  obtain ⟨s, -, hv⟩ := mem_flatMap.1 hv
  obtain ⟨p, -, rfl⟩ := mem_map.1 hv
  exact ⟨rfl, s, rfl, rfl⟩

theorem first_attached (hu : u ∈ g.attached) (hv : v ∈ g.attached) :
    First u v ↔ u.text < v.text := by
  obtain ⟨-, s, hs, hts⟩ := parent_attached hu
  obtain ⟨-, t, ht, htt⟩ := parent_attached hv
  rw [First, hs, ht, hts, htt]

theorem first_own (hu : u ∈ g.own) (hv : v ∈ g.attached) : First u v ∧ ¬ First v u := by
  obtain ⟨-, t, ht, -⟩ := parent_attached hv
  rw [First, First, parent_own hu, ht]
  exact ⟨trivial, id⟩

theorem own_first (g : Gateway) : g.own.Pairwise fun a b => First a b ∧ ¬ First b a := by
  refine (pairwise_map.1 (own_increasing g)).imp_of_mem fun {a b} ha hb hlt => ?_
  rw [First, First, parent_own ha, parent_own hb]
  omega

/-- The time is nowhere filled in, so the entries of the sets are in the order of
the names. -/
theorem lists_iff : g.Lists ls ↔ ∃ sorted, sorted.Perm g.attached
    ∧ sorted.Pairwise (fun a b => a.text ≤ b.text) ∧ ls = g.own ++ sorted := by
  refine exists_congr fun sorted => ?_
  rw [Sorted, and_assoc]
  refine and_congr_right fun hperm => and_congr_left fun _ => ?_
  refine List.Pairwise.iff_of_mem fun {a b} ha hb => ?_
  rw [GatewayListener.compare, (parent_attached (hperm.mem_iff.1 ha)).1,
    (parent_attached (hperm.mem_iff.1 hb)).1]
  show (Ord.compare a.text b.text).isLE ↔ _
  rw [← Ordering.ne_gt_iff_isLE]
  exact compare_le_iff_le

theorem Gateway.Lists.perm (h : g.Lists ls) : ls.Perm g.all := by
  obtain ⟨sorted, ⟨hperm, -⟩, rfl⟩ := h
  exact hperm.append_left _

theorem Gateway.Lists.ordered (h : g.Lists ls) : ls.Pairwise fun a b => ¬ First b a := by
  obtain ⟨sorted, hperm, hsorted, rfl⟩ := lists_iff.1 h
  refine pairwise_append.2 ⟨(own_first g).imp And.right, ?_, fun a ha b hb =>
    (first_own ha (hperm.mem_iff.1 hb)).2⟩
  refine hsorted.imp_of_mem fun {a b} ha hb hle => ?_
  rw [first_attached (hperm.mem_iff.1 hb) (hperm.mem_iff.1 ha)]
  exact not_lt_of_ge hle

theorem exists_first (hv : v ∈ g.all) :
    ∃ pre post, g.Lists (pre ++ v :: post) ∧ ∀ u ∈ pre, First u v := by
  let le (a b : GatewayListener) : Bool := decide (a.text ≤ b.text)
  have htrans : ∀ a b c, le a b → le b c → le a c := by
    simp only [le, decide_eq_true_eq]
    exact fun a b c => le_trans
  have htotal : ∀ a b, (le a b || le b a) := by
    simp only [le, Bool.or_eq_true, decide_eq_true_eq]
    exact fun a b => le_total _ _
  have hlists : ∀ l : List GatewayListener, l.Perm g.attached →
      g.Lists (g.own ++ l.mergeSort le) := by
    intro l hl
    refine lists_iff.2 ⟨_, (mergeSort_perm _ _).trans hl, ?_, rfl⟩
    exact (pairwise_mergeSort htrans htotal l).imp of_decide_eq_true
  rcases mem_append.1 hv with hown | hattached
  · obtain ⟨pre, post, heq⟩ := append_of_mem hown
    have hfirst := own_first g
    have h := hlists _ (.refl _)
    rw [heq] at hfirst h
    rw [append_assoc] at h
    exact ⟨pre, _, h, fun u hu =>
      ((pairwise_append.1 hfirst).2.2 u hu v mem_cons_self).1⟩
  · -- sorted from the front, it comes first of its set
    obtain ⟨l₁, l₂, hl, -, hbefore⟩ := mergeSort_cons htrans htotal v (g.attached.erase v)
    have hperm := (perm_cons_erase hattached).symm
    have h := hlists _ hperm
    have hsorted := (mergeSort_perm _ le).trans hperm
    rw [hl] at h hsorted
    rw [← append_assoc] at h
    refine ⟨_, _, h, fun u hu => ?_⟩
    rcases mem_append.1 hu with hu | hu
    · exact (first_own hu hattached).1
    · rw [first_attached (hsorted.mem_iff.1 (mem_append_left _ hu)) hattached]
      simpa [le] using hbefore u hu

-- ======== result

section

variable {accepted : GatewayListener → Prop} (hrejected : ∀ v ∈ g.all, ¬ accepted v
    ↔ ∃ u ∈ g.all, accepted u ∧ Before u v ∧ Clash u v)

include hrejected

theorem not_clash_of_accepted (hu : u ∈ g.all) (hv : v ∈ g.all) (hne : u ≠ v)
    (haccepted : accepted u) (haccepted' : accepted v) : ¬ Clash u v := by
  intro hclash
  rcases before_total hu hv hne with hbefore | hbefore
  · exact (hrejected v hv).2 ⟨u, hu, haccepted, hbefore, hclash⟩ haccepted'
  · have hclash' : Clash v u := ⟨hclash.1.symm, hclash.2.imp Ne.symm Eq.symm⟩
    exact (hrejected u hu).2 ⟨v, hv, haccepted', hbefore, hclash'⟩ haccepted

theorem mem_unmarked_iff (halike : ∀ v ∈ g.all, ¬ accepted v →
      ∃ u ∈ g.all, accepted u ∧ First u v ∧ clashes u v)
    (h : g.Lists ls) : ∀ v ∈ ls, v ∈ unmarked ls ↔ accepted v := by
  rw [unmarked_eq]
  have hnodup : ls.Nodup := h.perm.nodup_iff.2 (nodup_all g)
  refine mem_greedy_of_left hnodup fun pre v post heq => ?_
  have hmem : ∀ u ∈ pre ++ v :: post, u ∈ g.all := fun u hu =>
    h.perm.mem_iff.1 (heq ▸ hu)
  have hordered := h.ordered
  rw [heq] at hordered hnodup
  have hv : v ∈ g.all := hmem v (by simp)
  constructor
  · intro hnot
    obtain ⟨u, hu, haccepted, hfirst, hclash⟩ := halike v hv hnot
    refine ⟨u, ?_, haccepted, hclash⟩
    rcases mem_append.1 (heq ▸ h.perm.mem_iff.2 hu) with hin | hin
    · exact hin
    · rcases mem_cons.1 hin with rfl | hin
      · exact absurd haccepted hnot
      · have hpost := (pairwise_append.1 hordered).2.1
        exact absurd hfirst ((pairwise_cons.1 hpost).1 u hin)
  · rintro ⟨u, hu, haccepted, hclash⟩ haccepted'
    have hall : u ∈ g.all := hmem u (by simp [hu])
    have hne : u ≠ v := (nodup_append.1 hnodup).2.2 u hu v mem_cons_self
    exact not_clash_of_accepted hrejected hall hv hne haccepted haccepted'
      (clash_of_clashes hall hv hclash)

end

/-- The marks follow the precedence if and only if whatever it rejects is sure to
be rejected. -/
theorem followsPrecedence_iff (g : Gateway) : FollowsPrecedence g ↔ RejectedAlike g := by
  have hin : ∀ {ls v}, g.Lists ls → v ∈ unmarked ls → v ∈ ls ∧ v ∈ g.all := by
    intro ls v h hv
    rw [unmarked_eq] at hv
    exact ⟨mem_greedy hv, h.perm.mem_iff.1 (mem_greedy hv)⟩
  constructor
  · rintro ⟨hmarks, -, hsame⟩
    have hiff : ∀ {ls}, g.Lists ls → ∀ v,
        (∃ ls, g.Lists ls ∧ v ∈ unmarked ls) ↔ v ∈ unmarked ls := by
      intro ls h v
      exact ⟨fun ⟨ls', h', hv⟩ => (hsame ls' ls h' h v).1 hv, fun hv => ⟨ls, h, hv⟩⟩
    refine ⟨fun v => ∃ ls, g.Lists ls ∧ v ∈ unmarked ls, fun v hv => ?_, fun v hv hnot => ?_⟩
    · obtain ⟨pre, post, h, -⟩ := exists_first hv
      simp only [hiff h]
      rw [hmarks _ h v (by simp)]
      exact ⟨fun ⟨u, hu, hbefore⟩ => ⟨u, (hin h hu).2, hu, hbefore⟩, fun ⟨u, _, hu⟩ => ⟨u, hu⟩⟩
    · obtain ⟨pre, post, h, hfirst⟩ := exists_first hv
      have hmarked := mt (hiff h v).2 hnot
      rw [unmarked_eq, not_mem_greedy_iff (h.perm.nodup_iff.2 (nodup_all g))] at hmarked
      obtain ⟨u, hpre, hu, hclash⟩ := hmarked
      exact ⟨u, h.perm.mem_iff.1 (by simp [hpre]), (hiff h u).2 (unmarked_eq _ ▸ hu),
        hfirst u hpre, hclash⟩
  · rintro ⟨accepted, hrejected, halike⟩
    have hiff : ∀ {ls}, g.Lists ls → ∀ v, v ∈ unmarked ls ↔ v ∈ g.all ∧ accepted v := by
      intro ls h v
      have hv := mem_unmarked_iff hrejected halike h v
      exact ⟨fun hu => ⟨(hin h hu).2, (hv (hin h hu).1).1 hu⟩,
        fun hu => (hv (h.perm.mem_iff.2 hu.1)).2 hu.2⟩
    refine ⟨fun ls h v hv => ?_, fun ls h u hu v hv hne => ?_,
      fun ls ls' h h' v => (hiff h v).trans (hiff h' v).symm⟩
    · have hall := h.perm.mem_iff.1 hv
      simp only [hiff h, hall, true_and, hrejected v hall, and_assoc]
    · obtain ⟨hu, haccepted⟩ := (hiff h u).1 hu
      obtain ⟨hv, haccepted'⟩ := (hiff h v).1 hv
      exact not_clash_of_accepted hrejected hu hv hne haccepted haccepted'

def sampleListener (protocol : Strng) (allowedRoutes : AllowedRoutes) : Listener :=
  ⟨80, protocol, some "a.com", allowedRoutes⟩

/-- The set with the later name is older, and the one that is marked. Two listeners of
the Gateway have one hostname and no namespace in common, and neither is marked. Of
two listeners of a set with different protocols, either may be marked. -/
theorem conflicts_against_precedence :
    ¬ FollowsPrecedence ⟨"ns", [], [⟨"ns", "a", 2, [sampleListener "HTTP" .same]⟩,
        ⟨"ns", "b", 1, [sampleListener "HTTP" .same]⟩], by decide⟩
      ∧ ¬ FollowsPrecedence ⟨"ns", [sampleListener "HTTP" .same,
        sampleListener "HTTP" .all], [], by decide⟩
      ∧ ¬ FollowsPrecedence ⟨"ns", [], [⟨"ns", "a", 1, [sampleListener "HTTP" .same,
        sampleListener "TCP" .same]⟩], by decide⟩ := by
  refine ⟨fun h => ?_, fun h => ?_, fun h => ?_⟩
  · obtain ⟨u, hu, hbefore, -⟩ := (h.1 _ ⟨_, ⟨.refl _, by decide +kernel⟩, rfl⟩
      _ (mem_cons_of_mem _ mem_cons_self)).1 (by decide +kernel)
    obtain rfl := mem_singleton.1 hu
    exact absurd hbefore (by simp [Before])
  · exact h.2.1 _ ⟨[], ⟨.refl _, .nil⟩, rfl⟩ _ mem_cons_self _
      (mem_cons_of_mem _ mem_cons_self) (by decide) ⟨rfl, .inr rfl⟩
  · have hsame := h.2.2 _ _ ⟨_, ⟨.refl _, by decide +kernel⟩, rfl⟩
      ⟨_, ⟨.swap _ _ _, by decide +kernel⟩, rfl⟩
    exact absurd ((hsame _).1 mem_cons_self) (by decide +kernel)

end AgentGateway.Translator
