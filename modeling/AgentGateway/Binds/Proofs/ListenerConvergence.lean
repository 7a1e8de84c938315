/-
Convergence of binds and their listeners under control-plane updates.

A listener is kept in its bind once that is there, and in
`pendingListeners` before; `listenersFor` reads whichever of the two
applies. In a run whose steps are `ListenerStepOk` it always reads the
live listeners of the bind. The conditions mark where the store falls
short:

- `remove_listener` searches the binds only, so a listener withdrawn
  while it waits comes back with its bind (`withdrawn_listener_returns`);
- a live listener that names another bind stays in the old one too;
- `remove_bind` drops the listeners, which are not sent again when the
  bind is.
-/
import AgentGateway.Binds.Proofs.Live

namespace AgentGateway.Binds

open Lib AssocMap

variable {P B : Type}

-- ======== conditions

def bindOf : Resource P B → Option BindKey
  | .bind w => some w.key
  | _ => none

def listenerOf : Projection P B BindKey Listener
  | .listener w => some (w.bindKey, (Listener.fromXds w).1)
  | _ => none

/-- Binds and listeners only: a listener stays with its bind and is
withdrawn while the bind is live, a bind after its listeners. -/
def ListenerStepOk (live : Live P B) : XdsUpdate P B → Prop
  | .update name res =>
    KeepsKind live name res
    ∧ match res with
      | .bind _ => True
      | .listener w =>
        ∀ old, live.get? name = some (.listener old) → old.bindKey = w.bindKey
      | _ => False
  | .remove name =>
    (∀ w, live.get? name = some (.bind w) → ∀ lis, ¬ HoldsLive listenerOf live (w.key, lis))
    ∧ ∀ w, live.get? name = some (.listener w) → HoldsLive bindOf live w.bindKey

def ListenerRunOk (live : Live P B) (us : List (XdsUpdate P B)) : Prop :=
  RunOk liveStep ListenerStepOk live us

-- ======== invariant

/-- The listeners of a bind, in it or waiting for it. -/
def Store.listenersFor (s : Store P B) (key : BindKey) : ListenerSet :=
  match s.binds.get? key with
  | some bind => bind.listeners
  | none => s.waiting key

/-- The binds are the live ones, and the store has their listeners in the
one place or the other. -/
structure BindsInv (s : Store P B) (live : Live P B) : Prop where
  present : ∀ key, (∃ bind, s.binds.get? key = some bind) ↔ HoldsLive bindOf live key
  keyed : ∀ {key bind}, s.binds.get? key = some bind → bind.key = key
  -- nothing waits for a bind that is there
  settled : ∀ {key bind}, s.binds.get? key = some bind → s.pendingListeners.get? key = none
  listeners : Mirrors Listener.key listenerOf (fun key l => (s.listenersFor key).get? l) live

structure ListenersInv (s : Store P B) (live : Live P B) : Prop where
  names : NamesKnown s live
  apart : KindsApart live
  binds : BindsInv s live

theorem listenersInv_empty (ipv6Enabled : Bool) :
    ListenersInv (Store.empty ipv6Enabled : Store P B) empty where
  names := fun name => rfl
  apart := by
    intro n n' x x' hx
    cases hx
  binds := by
    refine ⟨fun key => ⟨fun h => ?_, fun h => ?_⟩, nofun, nofun,
      fun key l lis => ⟨nofun, fun h => ?_⟩⟩
    · obtain ⟨bind, hbind⟩ := h
      cases hbind
    · obtain ⟨n, x, hget, -⟩ := h
      cases hget
    · obtain ⟨-, n, x, hget, -⟩ := h
      cases hget

variable {lis : Listener} {live' live : Live P B} {s : Store P B} {x : Resource P B}
  {key₀ : BindKey} {s' : Store P B}

theorem listenerOf_eq_some {key : BindKey} :
    listenerOf x = some (key, lis) ↔ ∃ w, x = .listener w ∧ key = w.bindKey
          ∧ lis = (Listener.fromXds w).1 := by
  cases x <;> simp [listenerOf, eq_comm]

theorem bindOf_eq_some {key : BindKey} : bindOf x = some key ↔ ∃ w, x = .bind w ∧ key = w.key := by
  cases x <;> simp [bindOf, eq_comm]

theorem listener_kinded : Kinded .listener Listener.key
    (listenerOf : Projection P B BindKey Listener) := by
  intro x k
  cases x <;> simp [Store.resourceKind, listenerOf, Listener.fromXds]

-- ======== upsertBind

theorem upsertBind_frame (s : Store P B) (key : BindKey) (bind : Bind) :
    (s.upsertBind key bind).binds = s.binds.insert key (s.merged bind)
      ∧ (s.upsertBind key bind).pendingListeners = s.pendingListeners.erase bind.key := by
  obtain ⟨epoch, heq⟩ := upsertBind_eq s key bind
  rw [heq]
  exact ⟨rfl, rfl⟩

theorem foldl_put {set acc : ListenerSet}
    (hkeyed : ∀ l lis, set.get? l = some lis → lis.key = l) (l : ListenerKey) :
    (set.values.foldl ListenerSet.put acc).get? l = (set.get? l).or (acc.get? l) := by
  have hput : set.values.foldl ListenerSet.put acc
      = set.entries.foldl (fun m e => m.insert e.1 e.2) acc := by
    unfold values
    rw [List.foldl_map]
    refine List.foldl_ext _ _ _ fun m e he => ?_
    unfold ListenerSet.put
    rw [hkeyed e.1 e.2 (mem_entries.1 he)]
  rw [hput, get?_foldl_insert set.nodup]
  rfl

section Upsert

variable {bind : Bind}

theorem waiting_of_absent {key : BindKey} (hbind : s.binds.get? key = none) :
    s.waiting key = s.listenersFor key := by
  unfold Store.listenersFor
  rw [hbind]

theorem listenersFor_of_present {key : BindKey} (hbind : s.binds.get? key = some bind) :
    s.listenersFor key = bind.listeners := by
  unfold Store.listenersFor
  rw [hbind]

theorem present_upsert (key : BindKey) : (∃ b, (s.upsertBind key₀ bind).binds.get? key = some b)
      ↔ key = key₀ ∨ ∃ b, s.binds.get? key = some b := by
  obtain ⟨hbinds, -⟩ := upsertBind_frame s key₀ bind
  rw [hbinds]
  by_cases hkey : key = key₀
  · subst hkey
    simp
  · rw [get?_insert_ne _ _ hkey]
    simp [hkey]

variable (h : BindsInv s live)

include h

theorem waiting_of_present {key : BindKey} (hbind : s.binds.get? key = some bind) :
    s.waiting key = empty := by
  unfold Store.waiting
  rw [h.settled hbind]
  rfl

theorem waiting_keyed {key : BindKey} {l : ListenerKey}
    (hget : (s.waiting key).get? l = some lis) : lis.key = l := by
  cases hbind : s.binds.get? key with
  | some bind =>
    rw [waiting_of_present h hbind] at hget
    cases hget
  | none =>
    rw [waiting_of_absent hbind] at hget
    exact ((h.listeners key l lis).1 hget).1

variable (hkey₀ : bind.key = key₀)

include hkey₀

/-- After an upsert, the listeners of the bind are those it came with,
overridden by those that waited; other binds see nothing. -/
theorem listenersFor_upsert (key : BindKey) (l : ListenerKey) :
    ((s.upsertBind key₀ bind).listenersFor key).get? l
      = if key = key₀ then ((s.waiting key).get? l).or (bind.listeners.get? l)
        else (s.listenersFor key).get? l := by
  obtain ⟨hbinds, hpending⟩ := upsertBind_frame s key₀ bind
  unfold Store.listenersFor
  rw [hbinds, get?_insert]
  by_cases hkey : key = key₀
  · rw [if_pos hkey, if_pos hkey, hkey, ← hkey₀]
    exact foldl_put (fun l' lis hget => waiting_keyed h hget) l
  · rw [if_neg hkey, if_neg hkey]
    unfold Store.waiting
    rw [hpending, hkey₀, get?_erase_ne _ hkey]

theorem settled_upsert {key : BindKey} {b : Bind}
    (hget : (s.upsertBind key₀ bind).binds.get? key = some b) :
    b.key = key ∧ (s.upsertBind key₀ bind).pendingListeners.get? key = none := by
  obtain ⟨hbinds, hpending⟩ := upsertBind_frame s key₀ bind
  rw [hbinds, get?_insert] at hget
  rw [hpending, hkey₀, get?_erase]
  split at hget
  · next hkey =>
    cases hget
    exact ⟨hkey₀.trans hkey.symm, if_pos hkey⟩
  · next hkey =>
    rw [if_neg hkey]
    exact ⟨h.keyed hget, h.settled hget⟩

theorem bindsInv_upsert {holding : BindKey → ListenerKey → Option Listener}
    (hpresent : ∀ key, HoldsLive bindOf live' key ↔ key = key₀ ∨ HoldsLive bindOf live key)
    (hholding : ∀ key l, holding key l
      = if key = key₀ then ((s.waiting key).get? l).or (bind.listeners.get? l)
        else (s.listenersFor key).get? l)
    (hmirrors : Mirrors Listener.key listenerOf holding live') :
    BindsInv (s.upsertBind key₀ bind) live' where
  present := by
    intro key
    rw [present_upsert, hpresent, h.present]
  keyed := fun hget => (settled_upsert h hkey₀ hget).1
  settled := fun hget => (settled_upsert h hkey₀ hget).2
  listeners := by
    intro key l lis
    dsimp only
    rw [listenersFor_upsert h hkey₀, ← hholding]
    exact hmirrors key l lis

end Upsert

-- ======== steps

section Steps

variable {name : Strng} {w : XdsBind}

theorem holdsLive_insert_bind (hok : KeepsKind live name (.bind w)) (key : BindKey) :
    HoldsLive bindOf (live.insert name (.bind w)) key
      ↔ key = w.key ∨ HoldsLive bindOf live key := by
  rw [holdsLive_insert_iff, holdsLive_iff live name, ← or_assoc]
  refine or_congr_left ⟨fun hx => .inl (Option.some.inj hx).symm, ?_⟩
  rintro (rfl | hx)
  · rfl
  · obtain ⟨old, hget, hx⟩ := Option.bind_eq_some_iff.1 hx
    obtain ⟨w', rfl, rfl⟩ := bindOf_eq_some.1 hx
    exact congrArg some (ResourceKind.bind.inj (hok.1 _ hget)).symm

variable (h : BindsInv s live)

include h

/-- A bind is received; it finds the listeners it had, or those that
waited for it. -/
theorem bindsInv_insertXdsBind (hok : KeepsKind live name (.bind w)) :
    BindsInv (s.insertXdsBind w) (live.insert name (.bind w)) := by
  have hmirrors := h.listeners.frame (holdsLive_insert
    (fun old hget => listener_kinded.none (hok.1 old hget) rfl)
    (show listenerOf (.bind w : Resource P B) = none from rfl))
  -- either way the listeners it ends up with are those it had
  have hsame : ∀ bind : Bind, bind.key = w.key →
      (∀ l, ((s.waiting w.key).get? l).or (bind.listeners.get? l) = (s.listenersFor w.key).get? l) →
      BindsInv (s.upsertBind bind.key bind) (live.insert name (.bind w)) := by
    intro bind hkey hlisteners
    refine bindsInv_upsert h rfl (hkey ▸ holdsLive_insert_bind hok) ?_ hmirrors
    intro key l
    split
    · next hkey' => rw [hkey', hkey, hlisteners]
    · rfl
  unfold Store.insertXdsBind Store.insertBind
  dsimp only
  cases hbind : s.binds.get? (Bind.fromXds w s.ipv6Enabled).key with
  | some old =>
    refine hsame _ rfl fun l => ?_
    rw [show s.waiting w.key = empty from waiting_of_present h hbind,
      show s.listenersFor w.key = old.listeners from listenersFor_of_present hbind]
    rfl
  | none =>
    refine hsame _ rfl fun l => ?_
    rw [show s.waiting w.key = s.listenersFor w.key from waiting_of_absent hbind]
    exact Option.or_none

theorem bindsInv_insertListener
    (hpresent : ∀ key, HoldsLive bindOf live' key ↔ HoldsLive bindOf live key)
    (hmirrors : Mirrors Listener.key listenerOf
      (fun key l => if key = key₀ ∧ l = lis.key then some lis
        else (s.listenersFor key).get? l) live') : BindsInv (s.insertListener lis key₀) live' := by
  unfold Store.insertListener
  split
  · next bind hbind =>
    have hkeyed : bind.key = key₀ := h.keyed hbind
    refine bindsInv_upsert h (show ({ bind with
        listeners := ListenerSet.put (bind.listeners.erase lis.key) lis } :
        Bind).key = key₀ from hkeyed)
      (fun key => ?_) (fun key l => ?_) hmirrors
    · rw [hpresent]
      refine ⟨.inr, fun hlive => hlive.elim (fun hkey => ?_) id⟩
      rw [hkey]
      exact (h.present _).1 ⟨bind, hbind⟩
    · by_cases hkey : key = key₀
      · subst hkey
        rw [if_pos rfl, waiting_of_present h hbind, listenersFor_of_present hbind]
        show _ = ((bind.listeners.erase lis.key).insert lis.key lis).get? l
        rw [get?_insert, get?_erase]
        by_cases hl : l = lis.key <;> simp [hl]
      · rw [if_neg hkey, if_neg fun hslot => hkey hslot.1]
  · next hbind =>
    refine ⟨fun key => ?_, h.keyed, fun {key bind} hget => ?_, fun key l lis' => ?_⟩
    · rw [hpresent]
      exact h.present key
    · have hkey : key ≠ key₀ := by
        intro heq
        rw [heq] at hget
        cases hbind.symm.trans hget
      rw [get?_insert_ne _ _ hkey]
      exact h.settled hget
    · rw [← hmirrors key l lis']
      refine iff_of_eq (congrArg (· = some lis') ?_)
      unfold Store.listenersFor Store.waiting
      dsimp only
      by_cases hkey : key = key₀
      · subst hkey
        rw [hbind]
        rw [get?_insert_self]
        show ((s.waiting key).insert lis.key lis).get? l = _
        rw [get?_insert]
        by_cases hl : l = lis.key <;> simp [hl, Store.waiting]
      · rw [get?_insert_ne _ _ hkey, if_neg fun hslot => hkey hslot.1]

theorem bindsInv_insertXdsListener {w : XdsListener} (hok : KeepsKind live name (.listener w))
    (hstays : ∀ old, live.get? name = some (.listener old) → old.bindKey = w.bindKey) :
    BindsInv (s.insertXdsListener w) (live.insert name (.listener w)) := by
  have hold : ∀ old, live.get? name = some old → (bindOf old : Option BindKey) = none := by
    intro old hget
    have hkind := hok.1 old hget
    cases old with
    | listener _ => rfl
    | _ => cases hkind
  have hpresent := holdsLive_insert hold (show bindOf (.listener w : Resource P B) = none from rfl)
  have hmirrors : Mirrors Listener.key listenerOf
      (fun key l => if key = w.bindKey ∧ l = (Listener.fromXds w).1.key then
          some (Listener.fromXds w).1
        else (s.listenersFor key).get? l)
      (live.insert name (.listener w)) :=
    mirrors_insert h.listeners listener_kinded hok rfl (by
      intro old key lis hget hproj
      obtain ⟨w', rfl, rfl, rfl⟩ := listenerOf_eq_some.1 hproj
      exact hstays w' hget)
  exact bindsInv_insertListener h hpresent hmirrors

theorem bindsInv_removeListener {w : XdsListener} (hapart : KindsApart live)
    (hget : live.get? name = some (.listener w)) (hbind : HoldsLive bindOf live w.bindKey) :
    BindsInv (s.removeListener w.key) (live.erase name) := by
  have hproj : listenerOf (.listener w : Resource P B)
      = some (w.bindKey, (Listener.fromXds w).1) := rfl
  have hmirrors := mirrors_erase h.listeners listener_kinded hapart hget hproj
  -- the key is live under its bind only
  have honly : ∀ key lis, (s.listenersFor key).get? w.key = some lis → key = w.bindKey := by
    intro key lis hlis
    obtain ⟨hkey, n, x, hx, hproj'⟩ := (h.listeners key w.key lis).1 hlis
    have hn := hapart hx hget (listener_kinded.kind_eq hproj' hproj hkey)
    rw [hn, hget] at hx
    cases hx
    cases hproj'
    rfl
  obtain ⟨bind, hbind⟩ := (h.present _).2 hbind
  have hhas : (s.listenersFor w.bindKey).get? w.key = some (Listener.fromXds w).1 :=
    (h.listeners _ _ _).2 ⟨rfl, name, _, hget, hproj⟩
  unfold Store.removeListener
  split
  · next hfind =>
    have hno := List.find?_eq_none.1 hfind _ (mem_entries.2 hbind)
    rw [listenersFor_of_present hbind] at hhas
    exact absurd (contains_iff.2 ⟨_, hhas⟩) hno
  · next key b hfind =>
    have hb := mem_entries.1 (List.mem_of_find?_eq_some hfind)
    have hhas' := List.find?_some hfind
    obtain ⟨lis, hlis⟩ := contains_iff.1 hhas'
    have hkey : key = w.bindKey := by
      refine honly key lis ?_
      rw [listenersFor_of_present hb]
      exact hlis
    subst hkey
    have hkeyed : b.key = w.bindKey := h.keyed hb
    refine bindsInv_upsert h
      (show ({ b with listeners := b.listeners.erase w.key } : Bind).key = w.bindKey from hkeyed)
      (fun key => ?_) (fun key l => ?_) hmirrors
    · rw [holdsLive_erase hget rfl]
      refine ⟨.inr, fun hlive => hlive.elim (fun hkey => ?_) id⟩
      rw [hkey]
      exact (h.present _).1 ⟨b, hb⟩
    · split
      · next hl =>
        rw [hl]
        split
        · next hkey =>
          rw [hkey, waiting_of_present h hb]
          exact (get?_erase_self _ _).symm
        · next hkey =>
          refine (Option.eq_none_iff_forall_ne_some.2 fun lis hlis => ?_).symm
          exact hkey (honly key lis hlis)
      · next hl =>
        split
        · next hkey =>
          rw [hkey, waiting_of_present h hb, listenersFor_of_present hb]
          exact (get?_erase_ne _ hl).symm
        · rfl

theorem bindsInv_removeBind (hapart : KindsApart live) (hget : live.get? name = some (.bind w))
    (hno : ∀ lis, ¬ HoldsLive listenerOf live (w.key, lis)) :
    BindsInv (s.removeBind w.key) (live.erase name) := by
  obtain ⟨bind, hbind⟩ := (h.present w.key).2 ⟨name, _, hget, rfl⟩
  have hbinds : ∀ {key b}, (s.binds.erase w.key).get? key = some b →
      key ≠ w.key ∧ s.binds.get? key = some b := get?_erase_eq_some.1
  refine ⟨fun key => ?_, fun hb => h.keyed (hbinds hb).2, fun hb => h.settled (hbinds hb).2, ?_⟩
  · show (∃ b, (s.binds.erase w.key).get? key = some b) ↔ _
    simp only [get?_erase_eq_some, exists_and_left, h.present]
    rw [holdsLive_iff live name, hget]
    constructor
    · rintro ⟨hkey, heq | hlive⟩
      · exact absurd (Option.some.inj heq).symm hkey
      · exact hlive
    · intro hlive
      refine ⟨?_, .inr hlive⟩
      obtain ⟨n, x, hx, hproj⟩ := hlive
      obtain ⟨hn, hx⟩ := get?_erase_eq_some.1 hx
      obtain ⟨w', rfl, rfl⟩ := bindOf_eq_some.1 hproj
      exact fun heq => hn (hapart hx hget (congrArg ResourceKind.bind heq))
  · intro key l lis
    rw [← h.listeners.frame (holdsLive_erase hget rfl) key l lis]
    dsimp only
    by_cases hkey : key = w.key
    · -- nothing waits, and nothing was there
      have hnone : (s.listenersFor key).get? l = none := by
        refine Option.eq_none_iff_forall_ne_some.2 fun lis' hlis => ?_
        rw [hkey] at hlis
        exact hno lis' ((h.listeners w.key l lis').1 hlis).2
      have hgone : (s.removeBind w.key).listenersFor key = empty := by
        rw [hkey, ← waiting_of_absent (s := s.removeBind w.key) (get?_erase_self _ _)]
        exact waiting_of_present h hbind
      rw [hnone, hgone]
      rfl
    · have hsame : (s.removeBind w.key).listenersFor key = s.listenersFor key := by
        unfold Store.listenersFor
        rw [show (s.removeBind w.key).binds.get? key = s.binds.get? key from get?_erase_ne _ hkey]
        rfl
      rw [hsame]

end Steps

theorem BindsInv.frame (h : BindsInv s live) (hbinds : s'.binds = s.binds)
    (hpending : s'.pendingListeners = s.pendingListeners)
    (hb : ∀ key, HoldsLive bindOf live' key ↔ HoldsLive bindOf live key)
    (hl : ∀ x, HoldsLive listenerOf live' x ↔ HoldsLive listenerOf live x) : BindsInv s' live' := by
  refine ⟨fun key => ?_, fun hget => ?_, fun hget => ?_, ?_⟩
  · rw [hbinds, hb, h.present]
  · rw [hbinds] at hget
    exact h.keyed hget
  · rw [hbinds] at hget
    rw [hpending]
    exact h.settled hget
  · have hsame : ∀ key, s'.listenersFor key = s.listenersFor key := by
      intro key
      unfold Store.listenersFor Store.waiting
      rw [hbinds, hpending]
    intro key l lis
    dsimp only
    rw [hsame]
    exact h.listeners.frame hl key l lis

theorem listenersInv_of_binds
    (hresources : s'.resources = s.resources) (hnames : NamesKnown s live')
    (hapart : KindsApart live') (hbinds : BindsInv s' live') : ListenersInv s' live' := by
  refine ⟨fun n => ?_, hapart, hbinds⟩
  rw [hresources]
  exact hnames n

theorem binds_removePolicy (s : Store P B) (pol : PolicyKey) : (s.removePolicy pol).binds = s.binds
      ∧ (s.removePolicy pol).pendingListeners = s.pendingListeners := by
  unfold Store.removePolicy
  split <;> exact ⟨rfl, rfl⟩

theorem listenersInv_step
    {u : XdsUpdate P B} (h : ListenersInv s live) (hok : ListenerStepOk live u) :
    ∃ s', s.handleOne u = some s' ∧ ListenersInv s' (liveStep live u) := by
  cases u with
  | update name res =>
    obtain ⟨hnamed, hres⟩ := hok
    have hapart := kindsApart_insert h.apart hnamed
    -- the store with the name noted, which no bind operation reads
    have hbinds : BindsInv { s with
        resources := s.resources.insert name (Store.resourceKind res) } live :=
      { h.binds with }
    have hnames : NamesKnown { s with
        resources := s.resources.insert name (Store.resourceKind res) }
        (live.insert name res) := names_insert h.names name res
    cases res with
    | bind w =>
      exact ⟨_, rfl, listenersInv_of_binds (frame_upsertBind _ _ _).resources
        hnames hapart (bindsInv_insertXdsBind hbinds hnamed)⟩
    | listener w =>
      exact ⟨_, rfl, listenersInv_of_binds (frame_insertListener _ _ _).resources
        hnames hapart (bindsInv_insertXdsListener hbinds hnamed hres)⟩
    | route | tcpRoute | backend | policy => exact hres.elim
  | remove name =>
    refine ⟨_, rfl, ?_⟩
    cases hget : live.get? name with
    | none =>
      rw [removeResource_absent h.names hget]
      refine ⟨fun n => ?_, kindsApart_erase h.apart name,
        h.binds.frame rfl rfl (holdsLive_erase hget rfl)
          (holdsLive_erase hget rfl)⟩
      rw [show liveStep live (.remove name) = live.erase name from rfl, get?_erase_of_none hget]
      exact h.names n
    | some x =>
      have hname := h.names name
      rw [hget] at hname
      have hbinds : BindsInv { s with
          resources := s.resources.erase name } live :=
        { h.binds with }
      have hnames : NamesKnown { s with
          resources := s.resources.erase name } (live.erase name) :=
        names_erase h.names name
      have hapart := kindsApart_erase h.apart name
      have hother : ∀ {s' : Store P B}, s'.binds = s.binds →
          s'.pendingListeners = s.pendingListeners → bindOf x = none →
          listenerOf x = none → BindsInv s' (live.erase name) := by
        intro s' hbinds hpending hb hl
        exact h.binds.frame hbinds hpending (holdsLive_erase hget hb)
          (holdsLive_erase hget hl)
      unfold Store.removeResource
      rw [show s.resources.get? name = some (Store.resourceKind x) from hname]
      cases x with
      | bind w =>
        exact listenersInv_of_binds rfl hnames hapart
          (bindsInv_removeBind hbinds h.apart hget (hok.1 w hget))
      | listener w =>
        exact listenersInv_of_binds (frame_removeListener _ _).resources
          hnames hapart (bindsInv_removeListener hbinds h.apart hget (hok.2 w hget))
      | policy w =>
        exact listenersInv_of_binds (frame_removePolicy _ _).resources
          hnames hapart (hother (binds_removePolicy _ _).1 (binds_removePolicy _ _).2 rfl rfl)
      | _ => exact ⟨hnames, hapart, hother rfl rfl rfl rfl⟩

-- ======== result

/-- The store has the live binds, each with the last versions of its live
listeners. -/
def BindsConverged (s : Store P B) (live : Live P B) : Prop :=
  (∀ key, (∃ bind, s.binds.get? key = some bind)
    ↔ ∃ name w, live.get? name = some (.bind w) ∧ w.key = key)
  ∧ ∀ key bind, s.binds.get? key = some bind → ∀ l lis, bind.listeners.get? l = some lis
        ↔ ∃ name w, live.get? name = some (.listener w) ∧ w.bindKey = key
            ∧ w.key = l ∧ (Listener.fromXds w).1 = lis

/-- A run whose steps meet their condition ends with the live listeners
in their binds, in whatever order both came. -/
theorem listeners_converge (ipv6Enabled : Bool) (us : List (XdsUpdate P B))
    (hok : ListenerRunOk empty us) :
    ∃ s, (Store.empty ipv6Enabled).handle us = some s ∧ BindsConverged s (liveAfter us) := by
  obtain ⟨s, hrun, h⟩ := foldlM_runOk listenersInv_step us (listenersInv_empty ipv6Enabled) hok
  refine ⟨s, hrun, fun key => ?_, fun key bind hbind l lis => ?_⟩
  · rw [h.binds.present]
    constructor
    · rintro ⟨name, x, hget, hx⟩
      obtain ⟨w, rfl, rfl⟩ := bindOf_eq_some.1 hx
      exact ⟨name, w, hget, rfl⟩
    · rintro ⟨name, w, hget, rfl⟩
      exact ⟨name, _, hget, rfl⟩
  · rw [← listenersFor_of_present hbind]
    refine (h.binds.listeners key l lis).trans ⟨fun hlive => ?_, fun hlive => ?_⟩
    · obtain ⟨hkey, name, x, hget, hx⟩ := hlive
      obtain ⟨w, rfl, rfl, rfl⟩ := listenerOf_eq_some.1 hx
      exact ⟨name, w, hget, rfl, hkey, rfl⟩
    · obtain ⟨name, w, hget, rfl, rfl, rfl⟩ := hlive
      exact ⟨rfl, name, _, hget, rfl⟩

def sampleXdsBind (key : BindKey) : XdsBind := ⟨key, 80, .http, .direct⟩

def sampleXdsListener (key bindKey : Strng) : XdsListener :=
  ⟨key, ⟨"gw", "default", key, none⟩, bindKey, "", .http⟩

/-- The listener first, then its bind; the listener goes, then the bind,
and both come again. -/
def sampleBindUpdates : List (XdsUpdate Unit Unit) :=
  [.update "listener/l" (.listener (sampleXdsListener "l" "b")),
    .update "bind/b" (.bind (sampleXdsBind "b")),
    .remove "listener/l",
    .remove "bind/b",
    .update "bind/b" (.bind (sampleXdsBind "b")),
    .update "listener/l" (.listener (sampleXdsListener "l" "b"))]

theorem listeners_converge_sample : ∃ s, (Store.empty false).handle sampleBindUpdates = some s
      ∧ BindsConverged s (liveAfter sampleBindUpdates) := by
  refine listeners_converge false sampleBindUpdates
    ⟨⟨⟨?_, ?_⟩, ?_⟩, ⟨⟨?_, ?_⟩, trivial⟩, ⟨?_, ?_⟩, ⟨?_, ?_⟩,
      ⟨⟨?_, ?_⟩, trivial⟩, ⟨⟨?_, ?_⟩, ?_⟩, trivial⟩
  -- only the third and fourth step look at other resources
  case refine_7 => exact fun w hget => ⟨"bind/b", _, rfl, by cases hget; rfl⟩
  case refine_8 =>
    intro w hget lis hlive
    obtain ⟨n, x, hx, hproj⟩ := hlive
    simp only [liveStep, get?_insert, get?_erase, get?_empty] at hx
    grind [listenerOf]
  all_goals
    simp only [liveStep, get?_insert, get?_erase, get?_empty]
    grind [Store.resourceKind, sampleXdsBind, sampleXdsListener]

/-- The control plane withdraws a listener before its bind comes: the
bind then has it all the same. -/
theorem withdrawn_listener_returns :
    ¬ ∀ us : List (XdsUpdate Unit Unit), NamesFixed us → (∀ name res, .update name res ∈ us →
        (∃ w, res = .bind w) ∨ ∃ w, res = .listener w) →
      ∃ s, (Store.empty false).handle us = some s ∧ BindsConverged s (liveAfter us) := by
  intro hall
  obtain ⟨s, hrun, -, hlisteners⟩ := hall
    [.update "listener/l" (.listener (sampleXdsListener "l" "b")), .remove "listener/l",
      .update "bind/b" (.bind (sampleXdsBind "b"))]
    (by
      intro name res res' h h'
      grind)
    (by
      intro name res h
      grind)
  obtain rfl := Option.some.inj hrun
  obtain ⟨name, w, hget, -⟩ := (hlisteners "b" _ rfl "l" _).1 rfl
  -- no listener is live
  simp only [liveAfter, List.foldl_cons, List.foldl_nil, liveStep,
    get?_insert, get?_erase, get?_empty] at hget
  grind

-- a listener that names another bind stays in the old one
example : ((Store.empty false : Store Unit Unit).handle
    [.update "bind/a" (.bind (sampleXdsBind "a")),
      .update "bind/b" (.bind (sampleXdsBind "b")),
      .update "listener/l" (.listener (sampleXdsListener "l" "a")),
      .update "listener/l" (.listener (sampleXdsListener "l" "b"))]).map
    (fun s => (s.binds.get? "a").map fun bind => bind.listeners.contains "l")
      = some (some true) := by
  decide

-- a bind that is withdrawn and comes back has lost its listener
example : ((Store.empty false : Store Unit Unit).handle
    [.update "bind/b" (.bind (sampleXdsBind "b")),
      .update "listener/l" (.listener (sampleXdsListener "l" "b")),
      .remove "bind/b",
      .update "bind/b" (.bind (sampleXdsBind "b"))]).map
    (fun s => (s.binds.get? "b").map fun bind => bind.listeners.contains "l")
      = some (some false) := by
  decide

end AgentGateway.Binds
