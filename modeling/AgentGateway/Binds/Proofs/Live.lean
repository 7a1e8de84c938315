/-
Live resources: what the control plane believes the store to hold.

`Live` maps each resource name to its last received version. The store
itself keeps, per name, only the kind and key it stands for
(`NamesKnown`), which identifies the resource as long as no two live
names stand for the same thing (`KindsApart`).

A part of the store, such as a route table, sees the live resources of
one kind, each under a place (its target, its bind) and its key.
`Mirrors` says that a part holds exactly those, and the lemmas on it are
the receipt and the withdrawal of one resource.

`policies_by_target` repeats what the policies themselves say, and every
lookup goes through it. A policy that is inserted once more may have another
target, so its key has to leave the old set first. `PolicyIndex` says that
the two tables agree.
-/
import AgentGateway.Binds.Store
import AgentGateway.Lib.Reload

namespace AgentGateway.Binds

open Lib AssocMap

variable {P B T R X : Type}

-- ======== names

/-- The last received version of every resource that was not withdrawn
since. -/
abbrev Live (P B : Type) := HashMap Strng (Resource P B)

def liveStep (live : Live P B) : XdsUpdate P B → Live P B
  | .update name resource => live.insert name resource
  | .remove name => live.erase name

def liveAfter (updates : List (XdsUpdate P B)) : Live P B :=
  updates.foldl liveStep empty

/-- Every name always comes with the same kind and key. -/
def NamesFixed (us : List (XdsUpdate P B)) : Prop :=
  ∀ name res res', XdsUpdate.update name res ∈ us → XdsUpdate.update name res' ∈ us →
      Store.resourceKind res = Store.resourceKind res'

/-- No two live resources have one kind and key. -/
def KindsApart (live : Live P B) : Prop :=
  ∀ ⦃n n' x x'⦄, live.get? n = some x → live.get? n' = some x' →
    Store.resourceKind x = Store.resourceKind x' → n = n'

/-- A name keeps its kind and key, and no other live name has them. -/
def KeepsKind (live : Live P B) (name : Strng) (res : Resource P B) : Prop :=
  (∀ old, live.get? name = some old → Store.resourceKind old = Store.resourceKind res)
  ∧ ∀ name' res', name' ≠ name → live.get? name' = some res' →
    Store.resourceKind res' ≠ Store.resourceKind res

/-- The store knows what each live name stands for. -/
def NamesKnown (s : Store P B) (live : Live P B) : Prop :=
  ∀ name, s.resources.get? name = (live.get? name).map Store.resourceKind

variable {live : Live P B} {s : Store P B} {name : Strng} {res : Resource P B}

theorem kindsApart_insert (h : KindsApart live)
    (hok : KeepsKind live name res) : KindsApart (live.insert name res) := by
  intro n n' x x' hx hx' hkind
  rw [get?_insert] at hx hx'
  split at hx
  · next hn =>
    split at hx'
    · next hn' => rw [hn, hn']
    · next hn' =>
      cases hx
      exact absurd hkind.symm (hok.2 n' x' hn' hx')
  · next hn =>
    split at hx'
    · cases hx'
      exact absurd hkind (hok.2 n x hn hx)
    · exact h hx hx' hkind

theorem kindsApart_erase (h : KindsApart live) (name : Strng) : KindsApart (live.erase name) := by
  intro n n' x x' hx hx' hkind
  rw [get?_erase_eq_some] at hx hx'
  exact h hx.2 hx'.2 hkind

theorem names_insert (h : NamesKnown s live) (name : Strng) (res : Resource P B) (n : Strng) :
    (s.resources.insert name (Store.resourceKind res)).get? n
      = ((live.insert name res).get? n).map Store.resourceKind := by
  rw [get?_insert, get?_insert, h n]
  split <;> rfl

theorem names_erase (h : NamesKnown s live) (name n : Strng) :
    (s.resources.erase name).get? n = ((live.erase name).get? n).map Store.resourceKind := by
  rw [get?_erase, get?_erase, h n]
  split <;> rfl

theorem removeResource_absent (h : NamesKnown s live)
    (hget : live.get? name = none) : s.removeResource name = s := by
  have hname := h name
  rw [hget] at hname
  unfold Store.removeResource
  rw [show s.resources.get? name = none from hname]

-- ======== frames

def Store.waiting (s : Store P B) (key : BindKey) : ListenerSet :=
  (s.pendingListeners.get? key).getD AssocMap.empty

/-- The waiting listeners override those the bind comes with. -/
def Store.merged (s : Store P B) (bind : Bind) : Bind :=
  { bind with
    listeners := (s.waiting bind.key).values.foldl ListenerSet.put bind.listeners }

variable (s : Store P B) (listener : ListenerKey) (lis : Listener) (bindName : BindKey)

/-- Besides its notices, an upsert writes the bind and empties its
waiting list. -/
theorem upsertBind_eq (key : BindKey) (bind : Bind) :
    ∃ epoch, s.upsertBind key bind = { s with
      binds := s.binds.insert key (s.merged bind)
      pendingListeners := s.pendingListeners.erase bind.key
      listenerEpoch := epoch
      events := if !s.binds.contains key then s.events ++ [.add (s.merged bind)]
        else s.events } := by
  unfold Store.upsertBind
  dsimp only
  split
  · split <;> exact ⟨_, rfl⟩
  · exact ⟨_, rfl⟩

theorem insertListener_eq :
    ∃ binds pendingListeners listenerEpoch events, s.insertListener lis bindName
      = { s with binds, pendingListeners, listenerEpoch, events } := by
  unfold Store.insertListener
  split
  · obtain ⟨_, heq⟩ := upsertBind_eq s bindName _
    exact ⟨_, _, _, _, heq⟩
  · exact ⟨_, _, _, _, rfl⟩

theorem removeListener_eq : ∃ binds pendingListeners listenerEpoch events, s.removeListener listener
      = { s with binds, pendingListeners, listenerEpoch, events } := by
  unfold Store.removeListener
  split
  · exact ⟨_, _, _, _, rfl⟩
  · obtain ⟨_, heq⟩ := upsertBind_eq s _ _
    exact ⟨_, _, _, _, heq⟩

/-- An operation on other resources leaves names and routes alone. -/
structure RoutesFrame (s s' : Store P B) : Prop where
  resources : s'.resources = s.resources
  http : s'.httpRoutes = s.httpRoutes
  tcp : s'.tcpRoutes = s.tcpRoutes

theorem frame_upsertBind (key : BindKey) (bind : Bind) : RoutesFrame s (s.upsertBind key bind) := by
  obtain ⟨epoch, heq⟩ := upsertBind_eq s key bind
  rw [heq]
  exact ⟨rfl, rfl, rfl⟩

theorem frame_insertListener : RoutesFrame s (s.insertListener lis bindName) := by
  obtain ⟨_, _, _, _, heq⟩ := insertListener_eq s lis bindName
  rw [heq]
  exact ⟨rfl, rfl, rfl⟩

theorem frame_removeListener : RoutesFrame s (s.removeListener listener) := by
  obtain ⟨_, _, _, _, heq⟩ := removeListener_eq s listener
  rw [heq]
  exact ⟨rfl, rfl, rfl⟩

theorem frame_removePolicy (pol : PolicyKey) : RoutesFrame s (s.removePolicy pol) := by
  unfold Store.removePolicy
  split <;> exact ⟨rfl, rfl, rfl⟩

-- ======== places

/-- Some live resource stands for `x`. -/
def HoldsLive (proj : Resource P B → Option X) (live : Live P B) (x : X) : Prop :=
  ∃ name res, live.get? name = some res ∧ proj res = some x

section Frame

variable {proj : Resource P B → Option X}

/-- What stands for `x` is the resource of that name, or another one. -/
theorem holdsLive_iff (live : Live P B) (name : Strng) (x : X) : HoldsLive proj live x
      ↔ (live.get? name).bind proj = some x ∨ HoldsLive proj (live.erase name) x := by
  constructor
  · rintro ⟨n, res, hget, hx⟩
    by_cases hn : n = name
    · subst hn
      exact .inl (Option.bind_eq_some_iff.2 ⟨res, hget, hx⟩)
    · exact .inr ⟨n, res, get?_erase_eq_some.2 ⟨hn, hget⟩, hx⟩
  · rintro (hx | ⟨n, res, hget, hx⟩)
    · exact ⟨name, Option.bind_eq_some_iff.1 hx⟩
    · exact ⟨n, res, (get?_erase_eq_some.1 hget).2, hx⟩

theorem holdsLive_insert_iff (res : Resource P B) (x : X) : HoldsLive proj (live.insert name res) x
      ↔ proj res = some x ∨ HoldsLive proj (live.erase name) x := by
  rw [holdsLive_iff _ name, get?_insert_self]
  refine or_congr_right (exists_congr fun n => exists_congr fun r => ?_)
  rw [get?_erase_eq_some, get?_erase_eq_some]
  refine and_congr_left fun _ => and_congr_right fun hn => ?_
  rw [get?_insert_ne _ _ hn]

theorem holdsLive_erase {o : Option (Resource P B)} (hget : live.get? name = o)
    (ho : o.bind proj = none) (x : X) :
    HoldsLive proj (live.erase name) x ↔ HoldsLive proj live x := by
  rw [holdsLive_iff live name, hget, ho]
  exact (or_iff_right (Option.some_ne_none x).symm).symm

theorem holdsLive_insert (hold : ∀ old, live.get? name = some old → proj old = none)
    (hres : proj res = none) (x : X) :
    HoldsLive proj (live.insert name res) x ↔ HoldsLive proj live x := by
  rw [holdsLive_insert_iff, hres, holdsLive_erase rfl (Option.bind_eq_none_iff.2 hold)]
  exact or_iff_right (Option.some_ne_none x).symm

end Frame

/-- The place and content a resource stands for. -/
abbrev Projection (P B T R : Type) := Resource P B → Option (T × R)

/-- What is held, by place and key, is what is live. -/
def Mirrors (key : R → Strng) (proj : Projection P B T R)
    (holding : T → Strng → Option R) (live : Live P B) : Prop :=
  ∀ t k r, holding t k = some r ↔ key r = k ∧ HoldsLive proj live (t, r)

/-- The resources of one kind, with the key that they have in it. -/
def Kinded (kind : Strng → ResourceKind) (key : R → Strng) (proj : Projection P B T R) : Prop :=
  ∀ x k, Store.resourceKind x = kind k ↔ ∃ t r, proj x = some (t, r) ∧ key r = k

section Mirrors

variable {kind : Strng → ResourceKind} {key : R → Strng} {proj : Projection P B T R}
  {holding : T → Strng → Option R} {x x' : Resource P B} {t : T}

theorem Kinded.kind_eq {t' : T} {r r' : R} (hk : Kinded kind key proj) (hx : proj x = some (t, r))
    (hx' : proj x' = some (t', r')) (hkey : key r = key r') :
    Store.resourceKind x = Store.resourceKind x' :=
  ((hk x _).2 ⟨t, r, hx, hkey⟩).trans ((hk x' _).2 ⟨t', r', hx', rfl⟩).symm

/-- What is of the kind of `x'` is seen as `x'` is. -/
theorem Kinded.seen {r : R} (hk : Kinded kind key proj)
    (hkind : Store.resourceKind x = Store.resourceKind x') (hx : proj x = some (t, r)) :
    ∃ t' r', proj x' = some (t', r') ∧ key r' = key r :=
  (hk x' _).1 (hkind.symm.trans ((hk x _).2 ⟨t, r, hx, rfl⟩))

theorem Kinded.none (hk : Kinded kind key proj)
    (hkind : Store.resourceKind x = Store.resourceKind x') (hx' : proj x' = none) :
    proj x = none := by
  refine Option.eq_none_iff_forall_ne_some.2 fun y hx => ?_
  obtain ⟨t', r', hseen, -⟩ := hk.seen hkind hx
  cases hx'.symm.trans hseen

theorem Mirrors.frame (h : Mirrors key proj holding live) {live' : Live P B}
    (hsame : ∀ x, HoldsLive proj live' x ↔ HoldsLive proj live x) :
    Mirrors key proj holding live' := by
  intro t k r
  rw [h t k r, hsame]

variable {r : R}

/-- A resource is received, new or in place of a version with the same
key and place. -/
theorem mirrors_insert [DecidableEq T] (h : Mirrors key proj holding live)
    (hk : Kinded kind key proj) (hok : KeepsKind live name x) (hx : proj x = some (t, r))
    (hplace : ∀ {old t' r'}, live.get? name = some old → proj old = some (t', r') → t' = t) :
    Mirrors key proj (fun t' k => if t' = t ∧ k = key r then some r else holding t' k)
      (live.insert name x) := by
  intro t' k r'
  -- the version before has the same place and key, other resources another key
  have hold (hr : (live.get? name).bind proj = some (t', r')) : t' = t ∧ key r' = key r := by
    obtain ⟨old, hget, hproj⟩ := Option.bind_eq_some_iff.1 hr
    obtain ⟨t₁, r₁, hx₁, hkey⟩ := hk.seen (hok.1 old hget) hproj
    cases hx.symm.trans hx₁
    exact ⟨hplace hget hproj, hkey.symm⟩
  have hother (hr : HoldsLive proj (live.erase name) (t', r')) : key r' ≠ key r := by
    obtain ⟨n, x', hget, hproj⟩ := hr
    obtain ⟨hn, hget⟩ := get?_erase_eq_some.1 hget
    exact fun hkey => hok.2 n x' hn hget (hk.kind_eq hproj hx hkey)
  rw [holdsLive_insert_iff, hx]
  dsimp only
  split
  · next hslot =>
    constructor
    · intro heq
      cases heq
      exact ⟨hslot.2.symm, .inl (by rw [hslot.1])⟩
    · rintro ⟨hkey, heq | hlive⟩
      · cases heq
        rfl
      · exact absurd (hkey.trans hslot.2) (hother hlive)
  · next hslot =>
    rw [h t' k r', holdsLive_iff _ name]
    refine and_congr_right fun hkey => or_congr_left (iff_of_false ?_ ?_)
    · exact fun hr => hslot ⟨(hold hr).1, hkey.symm.trans (hold hr).2⟩
    · intro heq
      cases heq
      exact hslot ⟨rfl, hkey.symm⟩

theorem mirrors_erase (h : Mirrors key proj holding live)
    (hk : Kinded kind key proj) (hapart : KindsApart live)
    (hget : live.get? name = some x) (hx : proj x = some (t, r)) :
    Mirrors key proj (fun t' k => if k = key r then none else holding t' k) (live.erase name) := by
  intro t' k r'
  dsimp only
  split
  · next hslot =>
    refine ⟨fun h => (by cases h), ?_⟩
    rintro ⟨hkey, n, x', hx', hproj⟩
    obtain ⟨hn, hx'⟩ := get?_erase_eq_some.1 hx'
    exact absurd (hapart hx' hget (hk.kind_eq hproj hx (hkey.trans hslot))) hn
  · next hslot =>
    rw [h t' k r', holdsLive_iff _ name, hget]
    refine and_congr_right fun hkey => or_iff_right fun heq => ?_
    cases hx.symm.trans heq
    exact hslot hkey.symm

end Mirrors

-- ======== policies by target

open Lib Slots AssocMap

variable {P B : Type} {s : Store P B} (m : HashMap PolicyTarget (HashSet PolicyKey))

def attachedIn (m : HashMap PolicyTarget (HashSet PolicyKey))
    (t : PolicyTarget) : HashSet PolicyKey :=
  (m.get? t).getD empty

theorem contains_unlink (target t : PolicyTarget) (key k : PolicyKey) :
    (attachedIn (Store.unlinkPolicy m target key) t).contains k
      ↔ (attachedIn m t).contains k ∧ ¬ (t = target ∧ k = key) := by
  unfold attachedIn Store.unlinkPolicy
  rw [get?_modify]
  by_cases ht : t = target
  · rw [if_pos ht]
    cases m.get? t with
    | none => simp
    | some set =>
      simp only [Option.map_some, Option.getD_some, contains_erase]
      simp [ht, and_comm]
  · simp [ht]

theorem contains_link (target t : PolicyTarget) (key k : PolicyKey) :
    (attachedIn (m.insert target ((attachedIn m target).insert key ())) t).contains k
      ↔ (t = target ∧ k = key) ∨ (attachedIn m t).contains k := by
  unfold attachedIn
  rw [get?_insert]
  by_cases ht : t = target
  · rw [if_pos ht, Option.getD_some, contains_insert, ht]
    simp
  · simp [ht]

-- ======== index

/-- A key is in the set of a target exactly if its policy has that target. -/
def PolicyIndex (byTarget : HashMap PolicyTarget (HashSet PolicyKey))
    (policies : PolicyKey → Option (TargetedPolicy P)) : Prop :=
  ∀ t key, (attachedIn byTarget t).contains key ↔ ∃ pol, policies key = some pol ∧ pol.target = t

theorem get?_removePolicy (s : Store P B) (key : PolicyKey) :
    (s.removePolicy key).policiesByKey.get? = clear (fun k => k = key) s.policiesByKey.get? := by
  funext k
  unfold Store.removePolicy clear
  split
  · exact get?_erase ..
  · next hold => grind

section Operations

variable {policies : PolicyKey → Option (TargetedPolicy P)}
  (h : PolicyIndex s.policiesByTarget policies)
  (hget : ∀ key, s.policiesByKey.get? key = policies key)
include h hget

theorem PolicyIndex.insertPolicy (pol : TargetedPolicy P) :
    PolicyIndex (s.insertPolicy pol).policiesByTarget (put TargetedPolicy.key id policies pol) := by
  -- the target of the old version loses the key, which is then in no set
  obtain ⟨byTarget, heq, hunlinked⟩ : ∃ byTarget,
      (s.insertPolicy pol).policiesByTarget = byTarget.insert pol.target
        ((attachedIn byTarget pol.target).insert pol.key ())
      ∧ ∀ t key, (attachedIn byTarget t).contains key
        ↔ key ≠ pol.key ∧ ∃ pol', policies key = some pol' ∧ pol'.target = t := by
    refine ⟨_, rfl, fun t key => ?_⟩
    split
    · next old hold =>
      rw [contains_unlink, h]
      grind
    · next hold =>
      rw [h]
      grind
  intro t key
  rw [heq, contains_link, hunlinked, put_apply]
  by_cases hkey : key = pol.key
  · simp [hkey, eq_comm]
  · simp [hkey]

theorem PolicyIndex.removePolicy (key : PolicyKey) :
    PolicyIndex (s.removePolicy key).policiesByTarget (clear (fun k => k = key) policies) := by
  intro t k
  unfold Store.removePolicy
  split
  · next old hold =>
    rw [contains_unlink, h]
    unfold clear
    grind
  · next hold =>
    rw [h]
    unfold clear
    grind

end Operations

-- ======== runs

theorem get?_insert_put {K V : Type} [DecidableEq K] {m : HashMap K V}
    {f : K → Option V} (h : ∀ k, m.get? k = f k) (slot : V → K) (v : V) (k : K) :
    (m.insert (slot v) v).get? k = put slot id f v k := by
  rw [get?_insert, put_apply, h]
  rfl

def Store.Indexed (s : Store P B) : Prop :=
  PolicyIndex s.policiesByTarget s.policiesByKey.get?

variable {s' : Store P B}

theorem Store.Indexed.insertPolicy (h : s.Indexed) (pol : TargetedPolicy P) :
    (s.insertPolicy pol).Indexed := by
  have hput : (s.insertPolicy pol).policiesByKey.get?
      = put TargetedPolicy.key id s.policiesByKey.get? pol :=
    funext fun key => get?_insert_put (fun _ => rfl) TargetedPolicy.key pol key
  unfold Store.Indexed
  rw [hput]
  exact PolicyIndex.insertPolicy h (fun _ => rfl) pol

theorem indexed_insertXds {name : Strng} {res : Resource P B} (h : s.Indexed)
    (heq : s.insertXds name res = some s') : s'.Indexed := by
  cases res with
  | bind w =>
    cases heq
    obtain ⟨_, heq⟩ := upsertBind_eq { s with resources := _ } _ _
    exact (congrArg Store.Indexed heq).mpr h
  | listener w =>
    cases heq
    obtain ⟨_, _, _, _, heq⟩ := insertListener_eq { s with resources := _ } _ _
    exact (congrArg Store.Indexed heq).mpr h
  | route w =>
    obtain ⟨httpRoutes, -, heq⟩ := Option.bind_eq_some_iff.1 heq
    cases heq
    exact h
  | tcpRoute w =>
    obtain ⟨tcpRoutes, -, heq⟩ := Option.bind_eq_some_iff.1 heq
    cases heq
    exact h
  | backend key w =>
    cases heq
    exact h
  | policy w =>
    cases heq
    exact h.insertPolicy w

theorem indexed_removeResource (h : s.Indexed) (res : Strng) : (s.removeResource res).Indexed := by
  unfold Store.removeResource
  split
  · exact h
  · next old _ =>
    have h : Store.Indexed { s with resources := s.resources.erase res } := h
    cases old with
    | policy n =>
      unfold Store.Indexed
      rw [get?_removePolicy]
      exact PolicyIndex.removePolicy h (fun _ => rfl) n
    | bind | route | tcpRoute => exact h
    | listener n =>
      obtain ⟨_, _, _, _, heq⟩ := removeListener_eq { s with resources := _ } n
      exact (congrArg Store.Indexed heq).mpr h
    | backend n => exact h

theorem indexed_handleOne {update : XdsUpdate P B} (h : s.Indexed)
    (heq : s.handleOne update = some s') : s'.Indexed := by
  cases update with
  | update name resource => exact indexed_insertXds h heq
  | remove name =>
    cases heq
    exact indexed_removeResource h name

theorem indexed_empty (ipv6Enabled : Bool) : (Store.empty ipv6Enabled : Store P B).Indexed := by
  intro t key
  simp [Store.empty, attachedIn]

/-- Whatever the updates, a lookup by target finds the policies that have the target. -/
theorem policies_found_by_target (ipv6Enabled : Bool) (updates : List (XdsUpdate P B))
    (hrun : (Store.empty ipv6Enabled).handle updates = some s) (t : PolicyTarget)
    (key : PolicyKey) : (attachedIn s.policiesByTarget t).contains key
      ↔ ∃ pol, s.policiesByKey.get? key = some pol ∧ pol.target = t :=
  inv_of_run indexed_handleOne updates (indexed_empty ipv6Enabled) hrun t key

/-- Of two policies of a target, one moves to another target and one goes. -/
theorem policies_found_sample :
    let t : PolicyTarget := .backend .invalid
    let t' : PolicyTarget := .route ⟨"r", "ns", none, none⟩
    let updates : List (XdsUpdate Unit Unit) := [.update "a" (.policy ⟨"p", t, ()⟩),
      .update "b" (.policy ⟨"q", t, ()⟩), .update "a" (.policy ⟨"p", t', ()⟩), .remove "b"]
    ∃ s, (Store.empty false).handle updates = some s
      ∧ (attachedIn s.policiesByTarget t').contains "p"
      ∧ ∀ key ∈ ["p", "q"], ¬ (attachedIn s.policiesByTarget t).contains key := by
  intro t t' updates
  refine ⟨_, rfl, (policies_found_by_target false updates rfl t' "p").2 ⟨_, rfl, rfl⟩, ?_⟩
  intro key hkey hin
  obtain ⟨pol, hpol, htarget⟩ := (policies_found_by_target false updates rfl t key).1 hin
  rcases List.mem_pair.1 hkey with rfl | rfl
  · cases hpol
    have hmoved : t' = t := htarget
    exact PolicyTarget.noConfusion hmoved
  · cases hpol

end AgentGateway.Binds
