/-
A client converges to what there is for its gateway.

The collection has something for a name and a gateway, or not (`Visible`);
`Fits` says that what is held under the name is that. What counts is not
what the client holds but what it will hold when the responses that are on
their way have arrived (`future`): a name that nothing is pending for fits
there. The first response of a connection makes that so for every name,
because the client knows the names of all it holds; a push makes it so for
its names, and a change spoils it for the name that it makes pending.

# Where it breaks

A resource called `*`. The server takes that name out of what the client
says it knows, since it stands for everything there, so nobody tells the
client that the resource is gone. `Inv` is for runs without such a name.
-/
import AgentGateway.Krtxds.Delta

namespace AgentGateway.Krtxds.Delta

open Lib List

variable {V : Type} {cfg : Config} {α : Type}

-- ======== keys

theorem append_cons_inj {c : α} {a a' b b' : List α}
    (ha : c ∉ a) (ha' : c ∉ a') (h : a ++ c :: b = a' ++ c :: b') : a = a' ∧ b = b' := by
  obtain ⟨as, rfl, hb⟩ | ⟨as, rfl, hb⟩ := append_eq_append_iff.1 h
  · cases as <;> simp_all
  · cases as <;> simp_all

variable {gw : NamespacedName} {n : Strng}

theorem scoped_inj {gw' : NamespacedName} {n' : Strng}
    (h : gw.string ++ "/" ++ n = gw'.string ++ "/" ++ n') : gw = gw' ∧ n = n' := by
  have hlist := congrArg String.toList h
  simp only [NamespacedName.string, String.toList_append, append_assoc] at hlist
  obtain ⟨hns, hrest⟩ := append_cons_inj gw.ns_plain gw'.ns_plain hlist
  obtain ⟨hname, hn⟩ := append_cons_inj gw.name_plain gw'.name_plain hrest
  refine ⟨?_, String.toList_injective hn⟩
  cases gw'
  cases String.toList_injective hns
  cases String.toList_injective hname
  rfl

/-- An entry has the key that its collection gives it. -/
structure Stored (cfg : Config) (key : Strng) (r : DiscoveryResource V) : Prop where
  key : key = r.resourceName
  perGateway : r.forGateway.isSome = cfg.perGateway

/-- The entry is there for the gateway under this name. -/
def Visible (cfg : Config) (col : Collection V) (n : Strng) (r : DiscoveryResource V) : Prop :=
  r ∈ col.values ∧ r.isForGateway cfg.gateway ∧ r.name = n

variable {col : Collection V} {r : DiscoveryResource V} {resources : List (Strng × V)}
  (c : Client V) (res : Response V)

theorem Stored.name_eq {r' : DiscoveryResource V} {key : Strng}
    (h : Stored cfg key r) (h' : Stored cfg key r') : r.name = r'.name := by
  have hkey := h.key.symm.trans h'.key
  have hscoped := h.perGateway.trans h'.perGateway.symm
  unfold DiscoveryResource.resourceName at hkey
  cases hgw : r.forGateway with
  | some gw =>
    rw [hgw] at hscoped
    obtain ⟨gw', hgw'⟩ := Option.isSome_iff_exists.1 hscoped.symm
    rw [hgw, hgw'] at hkey
    exact (scoped_inj hkey).2
  | none =>
    rw [hgw] at hscoped
    have hgw' := Option.isSome_eq_false_iff.1 hscoped.symm
    rw [hgw, Option.isNone_iff_eq_none.1 hgw'] at hkey
    exact hkey

theorem visible_of_lookup (hkeys : ∀ key r, col.get? key = some r → Stored cfg key r)
    (h : lookup cfg col n = some r) : Visible cfg col n r := by
  obtain ⟨key, hkey, hget⟩ := exists_of_findSome?_eq_some h
  obtain ⟨hget, hfor⟩ := Option.filter_eq_some_iff.1 hget
  have hstored := hkeys key r hget
  refine ⟨AssocMap.mem_values.2 ⟨key, hget⟩, hfor, ?_⟩
  have hkey' := hstored.key
  unfold lookupKeys at hkey
  cases hper : cfg.perGateway with
  | true =>
    obtain ⟨gw, hgw⟩ := Option.isSome_iff_exists.1 (hstored.perGateway.trans hper)
    rw [DiscoveryResource.resourceName, hgw] at hkey'
    rw [hper] at hkey
    rcases mem_pair.1 hkey with rfl | rfl
    · exact (scoped_inj hkey').2.symm
    · exact (scoped_inj hkey').2.symm
  | false =>
    have hgw := Option.isSome_eq_false_iff.1 (hstored.perGateway.trans hper)
    rw [DiscoveryResource.resourceName, Option.isNone_iff_eq_none.1 hgw] at hkey'
    rw [hper] at hkey
    exact hkey'.symm.trans (mem_singleton.1 hkey)

theorem lookup_of_visible (hkeys : ∀ key r, col.get? key = some r → Stored cfg key r)
    (h : Visible cfg col n r) : lookup cfg col n ≠ none := by
  obtain ⟨hmem, hfor, rfl⟩ := h
  obtain ⟨key, hget⟩ := AssocMap.mem_values.1 hmem
  have hstored := hkeys key r hget
  have hkey : key ∈ lookupKeys cfg r.name := by
    rw [hstored.key, DiscoveryResource.resourceName, lookupKeys]
    cases hgw : r.forGateway with
    | none =>
      have hper : cfg.perGateway = false := by
        rw [← hstored.perGateway, hgw]
        rfl
      rw [hper]
      exact mem_singleton_self _
    | some gw =>
      have hper : cfg.perGateway := by
        rw [← hstored.perGateway, hgw]
        rfl
      rw [DiscoveryResource.isForGateway, hgw, Bool.or_eq_true,
        decide_eq_true_eq, decide_eq_true_eq] at hfor
      rw [hper]
      rcases hfor with rfl | rfl
      · exact mem_cons_self
      · exact mem_cons_of_mem _ (mem_singleton_self _)
  intro hnone
  have hfound := findSome?_eq_none_iff.1 hnone key hkey
  rw [hget, Option.filter_some, if_pos hfor] at hfound
  cases hfound

-- ======== client

/-- What a response makes of what is held under a name. -/
def Response.view (res : Response V) (n : Strng) (old : Option V) : Option V :=
  if n ∈ res.removedResources then none
  else res.resources.foldl (fun old r => if r.1 = n then some r.2 else old) old

def future (c : Client V) (responses : List (Response V)) (n : Strng) : Option V :=
  responses.foldl (fun old res => res.view n old) (c.held.get? n)

theorem get?_foldl_update (resources : List (Strng × V)) (m : HashMap Strng V) :
    (resources.foldl (fun held r => held.insert r.1 r.2) m).get? n
      = resources.foldl (fun old r => if r.1 = n then some r.2 else old) (m.get? n) := by
  induction resources generalizing m with
  | nil => rfl
  | cons r resources ih =>
    rw [foldl_cons, ih, AssocMap.get?_insert]
    by_cases hn : n = r.1
    · simp [hn]
    · simp [hn, Ne.symm hn]

theorem held_handle (n : Strng) : (c.handle res).held.get? n = res.view n (c.held.get? n) := by
  rw [Client.handle, AssocMap.get?_foldl AssocMap.get?_erase, get?_foldl_update]
  rfl

theorem foldl_of_not_mem {old : Option V} (h : n ∉ resources.map Prod.fst) :
    resources.foldl (fun old r => if r.1 = n then some r.2 else old) old = old := by
  induction resources generalizing old with
  | nil => rfl
  | cons r resources ih =>
    rw [map_cons, mem_cons, not_or] at h
    rw [foldl_cons, if_neg (Ne.symm h.1), ih h.2]

theorem foldl_of_mem (h : n ∈ resources.map Prod.fst) (old : Option V) : ∃ v, (n, v) ∈ resources
      ∧ resources.foldl (fun old r => if r.1 = n then some r.2 else old) old = some v := by
  induction resources generalizing old with
  | nil => cases h
  | cons r resources ih =>
    rw [foldl_cons]
    by_cases htail : n ∈ resources.map Prod.fst
    · obtain ⟨v, hmem, hv⟩ := ih htail _
      exact ⟨v, mem_cons_of_mem _ hmem, hv⟩
    · rw [map_cons, mem_cons] at h
      have hn := h.resolve_right htail
      rw [foldl_of_not_mem htail, if_pos hn.symm, hn]
      exact ⟨r.2, mem_cons_self, rfl⟩

theorem mem_foldl_insert (f : α → Strng) (l : List α) (known : List Strng) :
    n ∈ l.foldl (fun known a => known.insert (f a)) known ↔ n ∈ l.map f ∨ n ∈ known := by
  induction l generalizing known with
  | nil => simp
  | cons a l ih =>
    rw [foldl_cons, ih, mem_insert_iff, map_cons, mem_cons, or_left_comm, or_assoc]

theorem mem_known_handle : n ∈ (c.handle res).knownResources ↔ n ∈ res.resources.map Prod.fst
        ∨ n ∈ c.knownResources ∧ n ∉ res.removedResources := by
  rw [Client.handle, mem_foldl_insert]
  simp

/-- A response does not add and remove one name. -/
def Response.Proper (res : Response V) : Prop :=
  ∀ n ∈ res.resources.map Prod.fst, n ∉ res.removedResources

/-- The client knows the names of what it holds. -/
def Client.Knows (c : Client V) : Prop :=
  ∀ n, n ∈ c.knownResources ↔ c.held.get? n ≠ none

theorem Client.Knows.handle {c : Client V} (h : c.Knows) {res : Response V}
    (hproper : res.Proper) : (c.handle res).Knows := by
  intro n
  rw [mem_known_handle, held_handle, Response.view]
  by_cases hrem : n ∈ res.removedResources
  · rw [if_pos hrem]
    refine iff_of_false ?_ fun h => h rfl
    rintro (hmem | ⟨-, hnot⟩)
    · exact hproper n hmem hrem
    · exact hnot hrem
  · rw [if_neg hrem]
    by_cases hmem : n ∈ res.resources.map Prod.fst
    · obtain ⟨v, -, hv⟩ := foldl_of_mem hmem (c.held.get? n)
      rw [hv]
      exact iff_of_true (.inl hmem) nofun
    · rw [foldl_of_not_mem hmem]
      exact ⟨fun hor => (h n).1 (hor.resolve_left hmem).1, fun hne => .inr ⟨(h n).2 hne, hrem⟩⟩

-- ======== fitting

/-- What is held under a name is what the collection has for it. If it has
several, either may be held; the name is then pending when there is one
again. -/
structure Fits (cfg : Config) (col : Collection V) (n : Strng) (held : Option V) : Prop where
  one : ∀ r, Visible cfg col n r → (∀ r', Visible cfg col n r' → r' = r) → held = some r.resource
  none : (∀ r, ¬ Visible cfg col n r) → held = none

-- ---- full responses

variable {subs : List Strng} {v : V}

theorem mem_generateFull : (n, v) ∈ (generateFull col gw subs).1
      ↔ ∃ r ∈ col.values, r.isForGateway gw ∧ r.name = n ∧ r.resource = v := by
  simp only [generateFull, mem_map, mem_filter, Prod.mk.injEq, and_assoc]

theorem mem_removed_generateFull : n ∈ (generateFull col gw subs).2
      ↔ n ∈ subs ∧ n ∉ (generateFull col gw subs).1.map Prod.fst := by
  simp [generateFull]

theorem fits_full {held : Option V} (nonce : Nat) (hheld : n ∉ subs → held = none) :
    Fits cfg col n (Response.view ⟨nonce, (generateFull col cfg.gateway subs).1,
        (generateFull col cfg.gateway subs).2⟩ n held) := by
  by_cases hmem : n ∈ (generateFull col cfg.gateway subs).1.map Prod.fst
  · have hrem : n ∉ (generateFull col cfg.gateway subs).2 :=
      fun h => (mem_removed_generateFull.1 h).2 hmem
    obtain ⟨v, hv, hview⟩ := foldl_of_mem hmem held
    obtain ⟨r, hr, hfor, hname, rfl⟩ := mem_generateFull.1 hv
    rw [Response.view, if_neg hrem, hview]
    refine ⟨fun r' _ hunique => ?_, fun hnone => ?_⟩
    · rw [hunique r ⟨hr, hfor, hname⟩]
    · exact absurd ⟨hr, hfor, hname⟩ (hnone r)
  · have hnone : ∀ r, ¬ Visible cfg col n r := by
      rintro r ⟨hr, hfor, hname⟩
      refine hmem (mem_map.2 ⟨(n, r.resource), ?_, rfl⟩)
      exact mem_generateFull.2 ⟨r, hr, hfor, hname, rfl⟩
    refine ⟨fun r hr _ => absurd hr (hnone r), fun _ => ?_⟩
    rw [Response.view]
    split
    · rfl
    · rename_i hrem
      rw [foldl_of_not_mem hmem]
      refine hheld fun hsub => ?_
      exact hrem (mem_removed_generateFull.2 ⟨hsub, hmem⟩)

-- ---- pushes

section Push

variable (hkeys : ∀ key r, col.get? key = some r → Stored cfg key r) {names : List Strng}
include hkeys

theorem mem_generatePush : (n, v) ∈ (generatePush cfg col names).1
      ↔ n ∈ names ∧ ∃ r, lookup cfg col n = some r ∧ r.resource = v := by
  simp only [generatePush, mem_filterMap, Option.map_eq_some_iff, Prod.mk.injEq]
  constructor
  · rintro ⟨name, hname, r, hr, rfl, rfl⟩
    rw [(visible_of_lookup hkeys hr).2.2]
    exact ⟨hname, r, hr, rfl⟩
  · rintro ⟨hname, r, hr, rfl⟩
    exact ⟨n, hname, r, hr, (visible_of_lookup hkeys hr).2.2, rfl⟩

theorem mem_names_generatePush : n ∈ (generatePush cfg col names).1.map Prod.fst
      ↔ n ∈ names ∧ lookup cfg col n ≠ none := by
  constructor
  · intro hmem
    obtain ⟨⟨n', v⟩, hv, rfl⟩ := mem_map.1 hmem
    obtain ⟨hname, r, hr, -⟩ := (mem_generatePush hkeys).1 hv
    refine ⟨hname, ?_⟩
    rw [hr]
    nofun
  · rintro ⟨hname, hne⟩
    obtain ⟨r, hr⟩ := Option.ne_none_iff_exists'.1 hne
    exact mem_map.2 ⟨(n, r.resource), (mem_generatePush hkeys).2 ⟨hname, r, hr, rfl⟩, rfl⟩

omit hkeys in
theorem mem_removed_generatePush : n ∈ (generatePush cfg col names).2
      ↔ n ∈ names ∧ lookup cfg col n = none := by
  simp [generatePush]

theorem fits_push (nonce : Nat) (hn : n ∈ names) (held : Option V) :
    Fits cfg col n (Response.view ⟨nonce, (generatePush cfg col names).1,
        (generatePush cfg col names).2⟩ n held) := by
  cases hlook : lookup cfg col n with
  | none =>
    have hrem := mem_removed_generatePush.2 ⟨hn, hlook⟩
    rw [Response.view, if_pos hrem]
    refine ⟨fun r hr _ => ?_, fun _ => rfl⟩
    exact absurd hlook (lookup_of_visible hkeys hr)
  | some r =>
    have hrem : n ∉ (generatePush cfg col names).2 := by
      rw [mem_removed_generatePush, hlook]
      rintro ⟨-, hnone⟩
      cases hnone
    have hmem := (mem_names_generatePush hkeys).2 ⟨hn, hlook.symm ▸ (nofun : some r ≠ none)⟩
    obtain ⟨v, hv, hview⟩ := foldl_of_mem hmem held
    obtain ⟨-, r', hr', rfl⟩ := (mem_generatePush hkeys).1 hv
    cases hlook.symm.trans hr'
    have hvisible := visible_of_lookup hkeys hlook
    rw [Response.view, if_neg hrem, hview]
    refine ⟨fun r' _ hunique => ?_, fun hnone => absurd hvisible (hnone r)⟩
    rw [hunique r hvisible]

end Push

open Lib List AssocMap

variable {V : Type} {cfg : Config} {n : Strng} {wr : WatchedResource}

-- ======== requests

theorem mem_deltaWatchedResources (c : Client V) :
    n ∈ (deltaWatchedResources [] c.initialRequest).1 ↔ n ∈ c.knownResources ∧ n ≠ "*" := by
  have hfst : (c.knownResources.foldl (fun (x : List Strng × Bool) r =>
      (x.1.insert r, x.2 || !x.1.contains r)) ([], false)).1
        = c.knownResources.foldl (fun known r => known.insert (id r)) [] :=
    (foldl_hom Prod.fst fun _ _ => rfl).symm
  rw [deltaWatchedResources, Client.initialRequest]
  simp only [nil_append, foldl_nil, mem_filter, decide_eq_true_eq, ne_eq]
  rw [hfst, mem_foldl_insert]
  simp

def IsAck (req : Request) : Prop :=
  ∃ nonce, req = ⟨[], [], [], some nonce, none⟩

theorem shouldRespondDelta_ack (cfg : Config)
    (hwr : wr.alwaysRespond = false) {req : Request} (hack : IsAck req) :
    ∃ wr', shouldRespondDelta cfg (some wr) req = (false, some wr')
      ∧ wr'.alwaysRespond = false := by
  obtain ⟨nonce, rfl⟩ := hack
  unfold shouldRespondDelta
  simp only [Option.isSome_some, Bool.true_and, if_true]
  split
  · exact ⟨wr, rfl, hwr⟩
  · rw [hwr]
    exact ⟨_, rfl, rfl⟩

-- ======== invariant

namespace System

/-- A connection before and after its first request is answered. -/
structure StreamInv (cfg : Config) (s : System V) (st : Stream V) : Prop where
  registered : st.watched ≠ none → st.registered
  proper : ∀ res ∈ st.responses, res.Proper
  plain : ∀ res ∈ st.responses, "*" ∉ res.resources.map Prod.fst
  first : st.watched = none → st.responses = [] ∧ st.requests = [s.client.initialRequest]
  acks : st.watched ≠ none → ∀ req ∈ st.requests, IsAck req
  wr : ∀ wr, st.watched = some wr → wr.alwaysRespond = false
  fits : st.watched ≠ none → ∀ n, n ∉ s.pending →
    Fits cfg s.collection n (future s.client st.responses n)

/-- The collection and the client, whatever the connection. -/
structure Ends (cfg : Config) (col : Collection V) (c : Client V) : Prop where
  keys : ∀ key r, col.get? key = some r → Stored cfg key r
  plain : ∀ key r, col.get? key = some r → r.name ≠ "*"
  knows : c.Knows
  known : "*" ∉ c.knownResources

structure Inv (cfg : Config) (s : System V) : Prop where
  ends : Ends cfg s.collection s.client
  stream : ∀ st, s.stream = some st → StreamInv cfg s st

variable {s : System V} {st : Stream V} {name : Strng}

theorem inv_init : (init : System V).Inv cfg where
  ends := ⟨nofun, nofun, fun _ => ⟨nofun, fun h => absurd rfl h⟩, nofun⟩
  stream := nofun

theorem Inv.change {collection : Collection V} (h : s.Inv cfg)
    (hkeys : ∀ key r, collection.get? key = some r → Stored cfg key r)
    (hplain : ∀ key r, collection.get? key = some r → r.name ≠ "*") (hsame : ∀ n r, n ≠ name →
      (Visible cfg collection n r ↔ Visible cfg s.collection n r)) :
    { s with collection, pending := s.pending ++ [name] }.Inv cfg where
  ends := ⟨hkeys, hplain, h.ends.knows, h.ends.known⟩
  stream st hst := by
    have hstream := h.stream st hst
    refine { hstream with fits := fun hw n hn => ?_ }
    rw [mem_append, not_or, mem_singleton] at hn
    have hfits := hstream.fits hw n hn.1
    exact
      { one := fun r hr hunique => hfits.one r ((hsame n r hn.2).1 hr) fun r' hr' =>
          hunique r' ((hsame n r' hn.2).2 hr')
        none := fun hnone => hfits.none fun r hr => hnone r ((hsame n r hn.2).2 hr) }

theorem inv_set [DecidableEq V] (h : s.Inv cfg) (gateway : NamespacedName) (resource : V)
    (hname : name ≠ "*") : (s.step cfg (.set gateway name resource)).Inv cfg := by
  have hstored : Stored cfg (newResource cfg gateway name resource).resourceName
      (newResource cfg gateway name resource) :=
    ⟨rfl, by unfold newResource; cases cfg.perGateway <;> rfl⟩
  simp only [step]
  split
  · exact h
  · refine h.change (fun key r hget => ?_) (fun key r hget => ?_) fun n r hn => ?_
    · rw [get?_insert] at hget
      split at hget
      · rename_i hkey
        cases hget
        rw [hkey]
        exact hstored
      · exact h.ends.keys key r hget
    · rw [get?_insert] at hget
      split at hget
      · cases hget
        exact hname
      · exact h.ends.plain key r hget
    · -- the entry that is replaced has the name too
      have hmem : r.name = n → (r ∈ (s.collection.insert
            (newResource cfg gateway name resource).resourceName
            (newResource cfg gateway name resource)).values
          ↔ r ∈ s.collection.values) := by
        intro hrn
        rw [mem_values, mem_values]
        constructor
        · rintro ⟨key, hget⟩
          rw [get?_insert] at hget
          split at hget
          · cases hget
            exact absurd hrn.symm hn
          · exact ⟨key, hget⟩
        · rintro ⟨key, hget⟩
          refine ⟨key, ?_⟩
          rw [get?_insert, if_neg]
          · exact hget
          · intro hkey
            refine hn (hrn.symm.trans ?_)
            exact Stored.name_eq (h.ends.keys key r hget) (hkey ▸ hstored)
      constructor
      · rintro ⟨hr, hfor, hrn⟩
        exact ⟨(hmem hrn).1 hr, hfor, hrn⟩
      · rintro ⟨hr, hfor, hrn⟩
        exact ⟨(hmem hrn).2 hr, hfor, hrn⟩

theorem inv_delete [DecidableEq V] (h : s.Inv cfg) (key : Strng) :
    (s.step cfg (.delete key)).Inv cfg := by
  simp only [step]
  split
  · rename_i r hget
    have herase : ∀ key' r', (s.collection.erase key).get? key' = some r' →
        key' ≠ key ∧ s.collection.get? key' = some r' := by
      exact fun _ _ => get?_erase_eq_some.1
    refine h.change (fun key' r' hget' => h.ends.keys key' r' (herase key' r' hget').2)
      (fun key' r' hget' => h.ends.plain key' r' (herase key' r' hget').2)
      fun n r' hn => ?_
    have hmem : r'.name = n → (r' ∈ (s.collection.erase key).values
        ↔ r' ∈ s.collection.values) := by
      intro hrn
      rw [mem_values, mem_values]
      constructor
      · rintro ⟨key', hget'⟩
        exact ⟨key', (herase key' r' hget').2⟩
      · rintro ⟨key', hget'⟩
        refine ⟨key', ?_⟩
        rw [get?_erase, if_neg]
        · exact hget'
        · rintro rfl
          cases hget.symm.trans hget'
          exact hn hrn.symm
    constructor
    · rintro ⟨hr, hfor, hrn⟩
      exact ⟨(hmem hrn).1 hr, hfor, hrn⟩
    · rintro ⟨hr, hfor, hrn⟩
      exact ⟨(hmem hrn).2 hr, hfor, hrn⟩
  · exact h

theorem inv_send (h : Ends cfg s.collection s.client)
    {deltas : List (Strng × V) × List Strng} (hreg : st.registered)
    (hproper : ∀ res ∈ st.responses, res.Proper)
    (hplain : ∀ res ∈ st.responses, "*" ∉ res.resources.map Prod.fst)
    (hacks : ∀ req ∈ st.requests, IsAck req) (hwr : wr.alwaysRespond = false)
    (hproper' : Response.Proper ⟨s.nextNonce, deltas.1, deltas.2⟩)
    (hplain' : "*" ∉ deltas.1.map Prod.fst)
    (hfits : ∀ n, n ∉ s.pending → Fits cfg s.collection n (Response.view
      ⟨s.nextNonce, deltas.1, deltas.2⟩ n (future s.client st.responses n))) :
    (s.send st wr deltas).Inv cfg := by
  refine ⟨h, fun st' hst' => ?_⟩
  cases hst'
  refine ⟨fun _ => hreg, fun res hres => ?_, fun res hres => ?_, nofun,
    fun _ => hacks, fun wr' hwr' => ?_, fun _ n hn => ?_⟩
  · rcases mem_append.1 hres with hres | hres
    · exact hproper res hres
    · rw [mem_singleton.1 hres]
      exact hproper'
  · rcases mem_append.1 hres with hres | hres
    · exact hplain res hres
    · rw [mem_singleton.1 hres]
      exact hplain'
  · cases hwr'
    exact hwr
  · rw [future, foldl_append]
    exact hfits n hn

theorem plain_names {col : Collection V} (hplain : ∀ key r, col.get? key = some r → r.name ≠ "*")
    {r : DiscoveryResource V} (hr : r ∈ col.values) : r.name ≠ "*" := by
  obtain ⟨key, hget⟩ := mem_values.1 hr
  exact hplain key r hget

theorem inv_process [DecidableEq V] (h : s.Inv cfg) : (s.step cfg .process).Inv cfg := by
  simp only [step]
  split
  · rename_i st hst
    split
    · rename_i req requests hreg hreqs
      have hstream := h.stream st hst
      unfold processDeltaRequest
      cases hw : st.watched with
      | none =>
        -- the first request, which tells what the client knows
        obtain ⟨hnil, hfirst⟩ := hstream.first hw
        rw [hreqs] at hfirst
        obtain ⟨rfl, rfl⟩ := cons.inj hfirst
        obtain ⟨wr, heq, hwr⟩ : ∃ wr, shouldRespondDelta cfg none s.client.initialRequest
            = (true, some wr) ∧ wr.alwaysRespond = false := ⟨_, rfl, rfl⟩
        rw [heq]
        refine inv_send h.ends hreg hstream.proper hstream.plain nofun hwr
          (fun _ hmem hrem => (mem_removed_generateFull.1 hrem).2 hmem) ?_ fun n _ => fits_full _ ?_
        · intro hmem
          obtain ⟨⟨n, v⟩, hv, hn⟩ := mem_map.1 hmem
          obtain ⟨r, hr, -, hname, -⟩ := mem_generateFull.1 hv
          exact plain_names h.ends.plain hr (hname.trans hn)
        · intro hnot
          rw [mem_deltaWatchedResources, not_and_or, not_not] at hnot
          rw [hnil]
          show s.client.held.get? n = none
          refine Classical.not_not.1 (mt (h.ends.knows n).2 ?_)
          rcases hnot with hnot | rfl
          · exact hnot
          · exact h.ends.known
      | some wr =>
        have hsome : st.watched ≠ none := by
          rw [hw]
          nofun
        have hack := hstream.acks hsome
        obtain ⟨wr', heq, hwr'⟩ := shouldRespondDelta_ack cfg
          (hstream.wr wr hw) (hack req (hreqs ▸ mem_cons_self))
        rw [heq]
        refine ⟨h.ends, fun st' hst' => ?_⟩
        cases hst'
        refine ⟨fun _ => hreg, hstream.proper, hstream.plain, nofun,
          fun _ req' hreq' => ?_, fun wr'' hwr'' => ?_,
          fun _ => hstream.fits hsome⟩
        · exact hack req' (hreqs ▸ mem_cons_of_mem _ hreq')
        · cases hwr''
          exact hwr'
    · exact h
  · exact h

theorem inv_push [DecidableEq V] (h : s.Inv cfg) (names : List Strng) :
    (s.step cfg (.push names)).Inv cfg := by
  have hpending : ∀ n, n ∉ s.pending.filter (fun name => ! names.contains name) →
      n ∉ names → n ∉ s.pending := by
    intro n hn hnames hmem
    refine hn (mem_filter.2 ⟨hmem, ?_⟩)
    simpa using hnames
  simp only [step]
  split
  · rename_i st hst
    have hstream := h.stream st hst
    split
    · rename_i hreg
      unfold pushDeltaXds
      cases hw : st.watched with
      | none =>
        refine ⟨h.ends, fun st' hst' => ?_⟩
        cases hst.symm.trans hst'
        exact { hstream with fits := fun hne => absurd hw hne }
      | some wr =>
        have hsome : st.watched ≠ none := by
          rw [hw]
          nofun
        dsimp only
        split
        · -- nothing to send, so there were no names
          rename_i hempty
          rw [Bool.and_eq_true, List.isEmpty_iff, List.isEmpty_iff] at hempty
          refine ⟨h.ends, fun st' hst' => ?_⟩
          cases hst.symm.trans hst'
          refine { hstream with fits := fun _ n hn => ?_ }
          refine hstream.fits hsome n (hpending n hn fun hname => ?_)
          by_cases hlook : lookup cfg s.collection n = none
          · have := mem_removed_generatePush.2 ⟨hname, hlook⟩
            rw [hempty.2] at this
            cases this
          · have := (mem_names_generatePush h.ends.keys).2 ⟨hname, hlook⟩
            rw [hempty.1] at this
            cases this
        · refine inv_send (s := { s with
            pending := s.pending.filter fun name => ! names.contains name })
            h.ends hreg hstream.proper hstream.plain (hstream.acks hsome)
            (hstream.wr wr hw) (fun n hmem hrem => ((mem_names_generatePush h.ends.keys).1 hmem).2
              (mem_removed_generatePush.1 hrem).2) ?_ fun n hn => ?_
          · intro hmem
            have hlook := ((mem_names_generatePush h.ends.keys).1 hmem).2
            obtain ⟨r, hr⟩ := Option.ne_none_iff_exists'.1 hlook
            obtain ⟨hr, -, hname⟩ := visible_of_lookup h.ends.keys hr
            exact plain_names h.ends.plain hr hname
          · by_cases hname : n ∈ names
            · exact fits_push h.ends.keys _ hname _
            · rw [Response.view, if_neg fun hmem => hname (mem_removed_generatePush.1 hmem).1,
                foldl_of_not_mem fun hmem => hname ((mem_names_generatePush h.ends.keys).1 hmem).1]
              exact hstream.fits hsome n (hpending n hn hname)
    · exact h
  · exact h

theorem inv_deliver [DecidableEq V] (h : s.Inv cfg) : (s.step cfg .deliver).Inv cfg := by
  simp only [step]
  split
  · rename_i st hst
    split
    · rename_i res responses hresponses
      have hstream := h.stream st hst
      have hmem : res ∈ st.responses := hresponses ▸ mem_cons_self
      have hsome : st.watched ≠ none := by
        intro hnone
        rw [(hstream.first hnone).1] at hmem
        cases hmem
      have htail : ∀ res' ∈ responses, res' ∈ st.responses :=
        fun res' hres' => hresponses ▸ mem_cons_of_mem _ hres'
      refine ⟨⟨h.ends.keys, h.ends.plain,
        h.ends.knows.handle (hstream.proper res hmem), ?_⟩, fun st' hst' => ?_⟩
      · rw [mem_known_handle]
        rintro (hstar | ⟨hstar, -⟩)
        · exact hstream.plain res hmem hstar
        · exact h.ends.known hstar
      · cases hst'
        refine ⟨hstream.registered, fun res' hres' => hstream.proper res' (htail res' hres'),
          fun res' hres' => hstream.plain res' (htail res' hres'),
          fun hnone => absurd hnone hsome, fun _ req hreq => ?_, hstream.wr,
          fun _ n hn => ?_⟩
        · rcases mem_append.1 hreq with hreq | hreq
          · exact hstream.acks hsome req hreq
          · rw [mem_singleton.1 hreq]
            exact ⟨res.nonce, rfl⟩
        · have hfits := hstream.fits hsome n hn
          rw [hresponses] at hfits
          rw [future, held_handle]
          exact hfits
    · exact h
  · exact h

/-- A step that gives no resource the name that stands for all. -/
def Plain : Step V → Prop
  | .set _ name _ => name ≠ "*"
  | _ => True

instance (a : Step V) : Decidable (Plain a) :=
  match a with
  | .set _ name _ => inferInstanceAs (Decidable (name ≠ "*"))
  | .delete _ | .connect | .register | .process | .push _ | .deliver
  | .disconnect => isTrue trivial

theorem inv_step [DecidableEq V] (h : s.Inv cfg) {a : Step V} (ha : Plain a) :
    (s.step cfg a).Inv cfg := by
  cases a with
  | set gateway name resource => exact inv_set h gateway resource ha
  | delete key => exact inv_delete h key
  | connect =>
    simp only [step]
    split
    · exact h
    · refine ⟨h.ends, fun st hst => ?_⟩
      cases hst
      exact ⟨fun hne => absurd rfl hne, nofun, nofun, fun _ => ⟨rfl, rfl⟩,
        fun hne => absurd rfl hne, nofun, fun hne => absurd rfl hne⟩
  | register =>
    simp only [step]
    split
    · rename_i st hst
      split
      · exact h
      · rename_i hreg
        have hstream := h.stream st hst
        refine ⟨h.ends, fun st' hst' => ?_⟩
        cases hst'
        exact { hstream with
          registered := fun _ => rfl
          fits := fun hne => absurd (hstream.registered hne) hreg }
    · exact h
  | process => exact inv_process h
  | push names => exact inv_push h names
  | deliver => exact inv_deliver h
  | disconnect => exact ⟨h.ends, nofun⟩

-- ======== result

/-- After any history of changes, of pushes for them and of connections
that break, a client that has been answered and has applied every push
holds what the collection has for its gateway, and nothing else. -/
theorem delta_converges [DecidableEq V] (cfg : Config) (steps : List (Step V))
    (hplain : ∀ a ∈ steps, Plain a) (hsettled : (run cfg steps).Settled)
    (hunique : (run cfg steps).UniqueNames cfg) (n : Strng) (v : V) :
    (run cfg steps).client.held.get? n = some v ↔ ∃ r ∈ (run cfg steps).collection.values,
        r.isForGateway cfg.gateway ∧ r.name = n ∧ r.resource = v := by
  have h : (run cfg steps).Inv cfg :=
    foldlRecOn (motive := fun s => s.Inv cfg) steps (step cfg) inv_init
      fun _ h a ha => inv_step h (hplain a ha)
  obtain ⟨hpending, st, hst, hsome, hnil⟩ := hsettled
  have hfits := (h.stream st hst).fits hsome n (hpending ▸ not_mem_nil)
  rw [hnil] at hfits
  have hone : ∀ r, Visible cfg (run cfg steps).collection n r →
      (run cfg steps).client.held.get? n = some r.resource := by
    rintro r ⟨hr, hfor, hname⟩
    refine hfits.one r ⟨hr, hfor, hname⟩ fun r' ⟨hr', hfor', hname'⟩ => ?_
    exact hunique r' hr' r hr hfor' hfor (hname'.trans hname.symm)
  constructor
  · intro hv
    by_cases hex : ∃ r, Visible cfg (run cfg steps).collection n r
    · obtain ⟨r, hr⟩ := hex
      obtain ⟨hmem, hfor, hname⟩ := hr
      refine ⟨r, hmem, hfor, hname, ?_⟩
      exact Option.some.inj ((hone r ⟨hmem, hfor, hname⟩).symm.trans hv)
    · have hnone := hfits.none fun r hr => hex ⟨r, hr⟩
      cases hnone.symm.trans hv
  · rintro ⟨r, hr, hfor, hname, rfl⟩
    exact hone r ⟨hr, hfor, hname⟩

/-- Something is removed while the client is away, and something comes
between the answer to its request and the delivery of it. -/
theorem delta_converges_sample : (run ⟨true, false, ⟨"ns", "gw", by decide, by decide⟩⟩
      [.set ⟨"ns", "gw", by decide, by decide⟩ "a" 1, .connect, .register,
        .process, .deliver, .set .empty "b" 2, .disconnect,
        .delete "ns/gw/a", .connect, .register, .process,
        .set ⟨"ns", "gw", by decide, by decide⟩ "c" 3, .push ["c"],
        .deliver, .deliver]).client.held.get? "c" = some 3 :=
  (delta_converges _ _ (by decide +kernel) (by decide +kernel)
    (by decide +kernel) "c" 3).2 (by decide +kernel)

/-- A resource called `*` stays with the client when it is removed while
the client is away. -/
theorem star_stays : let cfg : Config := ⟨false, false, .empty⟩
    let s := run cfg
      [.set .empty "*" 1, .connect, .register, .process, .deliver, .disconnect,
        .delete "*", .connect, .register, .process, .deliver]
    s.Settled ∧ s.UniqueNames cfg ∧ s.client.held.get? "*" = some 1 ∧ s.collection.values = [] := by
  decide +kernel

end System

end AgentGateway.Krtxds.Delta
