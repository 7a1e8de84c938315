/-
The `query` tool of the postgres server, over any interleaving of its calls
(`servers/postgres/index.ts`).

A call takes a client from the pool, awaits `BEGIN TRANSACTION READ ONLY` and
then the caller's text on it, sends `ROLLBACK` without awaiting it and releases
the client. A client runs its queries in the order they were sent, so the
`ROLLBACK` of one call comes before the `BEGIN` of the next. `Conn.Ok` lists the
stages a connection goes through.

# Where it breaks

The text goes to the database as it is. A `COMMIT` in it ends the transaction
that the tool began, and what follows is written (`commit_then_insert`).

# Left out

The rows of an answer, connections that are lost, and the handlers of the
resources, which read the catalogue.
-/
import AgentGateway.Lib.Run

namespace AgentGateway.Postgres

open Lib

/-- What a statement or a query came to: what is committed, the session, and
whether it succeeded. -/
structure Outcome (D T : Type) where
  committed : D
  session : T
  ok : Bool

inductive Access
  | readOnly
  | readWrite

/-- The database, with its sessions `T` and statements `Q`. -/
structure Database (D T Q : Type) where
  fresh : T
  exec : Q → D → T → Outcome D T
  beginReadOnly : Q
  rollback : Q
  /-- The transaction that a session is in. -/
  transaction : T → Option Access
  /-- Takes a session out of a `READ ONLY` transaction: `COMMIT`, `ROLLBACK`,
  `SET TRANSACTION READ WRITE`. -/
  leaves : Q → Bool

variable {D T Q : Type} (pg : Database D T Q)

/-- A `READ ONLY` transaction refuses writes, and lasts until it is left. -/
structure Database.Documented : Prop where
  fresh : pg.transaction pg.fresh = none
  begins : ∀ d t, pg.transaction t = none → (pg.exec pg.beginReadOnly d t).committed = d
      ∧ ((pg.exec pg.beginReadOnly d t).ok →
        pg.transaction (pg.exec pg.beginReadOnly d t).session = some .readOnly)
  refuses : ∀ q d t, pg.transaction t = some .readOnly → pg.leaves q = false →
    (pg.exec q d t).committed = d ∧ pg.transaction (pg.exec q d t).session = some .readOnly
  rolls_back : ∀ d t, (pg.exec pg.rollback d t).committed = d
    ∧ pg.transaction (pg.exec pg.rollback d t).session = none

/-- A simple query: its statements in order, up to one that fails. -/
def Database.run : List Q → D → T → Outcome D T
  | [], d, t => ⟨d, t, true⟩
  | q :: text, d, t =>
    let done := pg.exec q d t
    if done.ok then run text done.committed done.session else done

-- ======== calls

inductive Query (Q : Type)
  | begin
  | sql (text : List Q)
  | rollback

def Database.query : Query Q → D → T → Outcome D T
  | .begin => pg.exec pg.beginReadOnly
  | .sql text => pg.run text
  | .rollback => pg.exec pg.rollback

/-- Where the handler of a call stands: it awaits a query, or has its answer. -/
inductive Handler (Q : Type)
  | beginning (text : List Q)
  | begun (text : List Q) (ok : Bool)
  | querying
  | queried

/-- A client of the pool, with the queries it has to run and the call that holds
it. -/
structure Conn (T Q : Type) where
  session : T
  queue : List (Query Q)
  holder : Option (Handler Q)

inductive Event (Q : Type)
  /-- `pool.connect` gives the client to a call. -/
  | connect (text : List Q)
  /-- The database runs the next query of the client. -/
  | execute
  /-- The handler goes on after an `await`. -/
  | resume

/-- Nobody awaits a `ROLLBACK`. -/
def answer (ok : Bool) : Query Q → Option (Handler Q) → Option (Handler Q)
  | .begin, some (.beginning text) => some (.begun text ok)
  | .sql _, some .querying => some .queried
  | _, holder => holder

def Conn.step (d : D) (k : Conn T Q) : Event Q → Option (D × Conn T Q)
  | .connect text =>
    match k.holder with
    | none => some (d, { k with queue := k.queue ++ [.begin], holder := some (.beginning text) })
    | some _ => none
  | .execute =>
    match k.queue with
    | [] => none
    | q :: queue =>
      let done := pg.query q d k.session
      some (done.committed, ⟨done.session, queue, answer done.ok q k.holder⟩)
  | .resume =>
    match k.holder with
    | some (.begun text true) =>
      some (d, { k with queue := k.queue ++ [.sql text], holder := some .querying })
    -- `finally`, after the text or after a `BEGIN` that failed
    | some (.begun _ false) | some .queried =>
      some (d, { k with queue := k.queue ++ [.rollback], holder := none })
    | _ => none

structure State (D T Q : Type) where
  committed : D
  conns : Nat → Conn T Q

def init (d : D) : State D T Q := ⟨d, fun _ => ⟨pg.fresh, [], none⟩⟩

/-- An event at one of the clients. -/
def step (s : State D T Q) (a : Nat × Event Q) : Option (State D T Q) :=
  ((s.conns a.1).step pg s.committed a.2).map fun done =>
    ⟨done.1, Function.update s.conns a.1 done.2⟩

-- ======== stages

/-- The stages of a connection whose texts have the property `P`. -/
inductive Conn.Ok (P : List Q → Prop) : Conn T Q → Prop
  | idle {t : T} (h : pg.transaction t = none) : Ok P ⟨t, [], none⟩
  | released (t : T) : Ok P ⟨t, [.rollback], none⟩
  | beginning {t : T} {text : List Q} (h : pg.transaction t = none) (ht : P text) :
      Ok P ⟨t, [.begin], some (.beginning text)⟩
  | taken (t : T) {text : List Q} (ht : P text) :
      Ok P ⟨t, [.rollback, .begin], some (.beginning text)⟩
  | begun {t : T} {text : List Q} {ok : Bool}
      (h : ok → pg.transaction t = some .readOnly) (ht : P text) :
      Ok P ⟨t, [], some (.begun text ok)⟩
  | querying {t : T} {text : List Q} (h : pg.transaction t = some .readOnly) (ht : P text) :
      Ok P ⟨t, [.sql text], some .querying⟩
  | queried (t : T) : Ok P ⟨t, [], some .queried⟩

/-- No statement of the text leaves the transaction. -/
def Database.Stays (text : List Q) : Prop := ∀ q ∈ text, pg.leaves q = false

variable {pg} {P : List Q → Prop} {d d' : D}

theorem run_stays (hpg : pg.Documented) :
    ∀ (text : List Q) {t : T}, pg.transaction t = some .readOnly → pg.Stays text →
      (pg.run text d t).committed = d := by
  intro text
  induction text with
  | nil =>
    intro t _ _
    rfl
  | cons q text ih =>
    intro t h hstays
    obtain ⟨hd, ht⟩ := hpg.refuses q d t h (hstays q List.mem_cons_self)
    simp only [Database.run]
    split
    · rw [hd]
      exact ih ht fun q' hq' => hstays q' (List.mem_cons_of_mem q hq')
    · exact hd

/-- One event takes a connection to its next stage. Only a text that leaves its
transaction commits something. -/
theorem Conn.Ok.step (hpg : pg.Documented) {k k' : Conn T Q} (hk : k.Ok pg P) {e : Event Q}
    (he : ∀ text, e = .connect text → P text) (hs : k.step pg d e = some (d', k')) :
    k'.Ok pg P ∧ ((∀ text, P text → pg.Stays text) → d' = d) := by
  cases e with
  | connect text =>
    cases hk with
    | idle h =>
      cases hs
      exact ⟨.beginning h (he text rfl), fun _ => rfl⟩
    | released t =>
      cases hs
      exact ⟨.taken t (he text rfl), fun _ => rfl⟩
    | _ => cases hs
  | execute =>
    cases hk with
    | released t =>
      cases hs
      exact ⟨.idle (hpg.rolls_back d t).2, fun _ => (hpg.rolls_back d t).1⟩
    | beginning h ht =>
      cases hs
      exact ⟨.begun (hpg.begins d _ h).2 ht, fun _ => (hpg.begins d _ h).1⟩
    | taken t ht =>
      cases hs
      exact ⟨.beginning (hpg.rolls_back d t).2 ht, fun _ => (hpg.rolls_back d t).1⟩
    | querying h ht =>
      cases hs
      exact ⟨.queried _, fun hP => run_stays hpg _ h (hP _ ht)⟩
    | _ => cases hs
  | resume =>
    cases hk with
    | @begun t text ok h ht =>
      cases ok <;> cases hs
      · exact ⟨.released t, fun _ => rfl⟩
      · exact ⟨.querying (h rfl) ht, fun _ => rfl⟩
    | queried t =>
      cases hs
      exact ⟨.released t, fun _ => rfl⟩
    | _ => cases hs

def Inv (pg : Database D T Q) (P : List Q → Prop) (d : D) (s : State D T Q) : Prop :=
  (∀ c, (s.conns c).Ok pg P) ∧ ((∀ text, P text → pg.Stays text) → s.committed = d)

theorem inv_step (hpg : pg.Documented) {s s' : State D T Q} {a : Nat × Event Q}
    (h : Inv pg P d s) (ha : ∀ text, a.2 = .connect text → P text)
    (hs : step pg s a = some s') : Inv pg P d s' := by
  obtain ⟨⟨d', k⟩, hk, rfl⟩ := Option.map_eq_some_iff.1 hs
  obtain ⟨hok, hd⟩ := (h.1 a.1).step hpg ha hk
  refine ⟨fun c => ?_, fun hP => (hd hP).trans (h.2 hP)⟩
  show (Function.update s.conns a.1 k c).Ok pg P
  by_cases hc : c = a.1
  · rwa [hc, Function.update_self]
  · rw [Function.update_of_ne hc]
    exact h.1 c

/-- In every run, a `BEGIN` that comes next on a connection finds it outside a
transaction. Where no text leaves its transaction, nothing is committed. -/
theorem query_tool_reads_only (hpg : pg.Documented) {events : List (Nat × Event Q)}
    {s : State D T Q} (hrun : events.foldlM (step pg) (init pg d) = some s) :
    (∀ c queue, (s.conns c).queue = .begin :: queue → pg.transaction (s.conns c).session = none)
      ∧ ((∀ c text, (c, .connect text) ∈ events → pg.Stays text) → s.committed = d) := by
  have hinv : Inv pg (fun text => ∃ c, (c, .connect text) ∈ events) d s := by
    refine inv_of_stepsOk (inv_step hpg) events ⟨fun _ => .idle hpg.fresh, fun _ => rfl⟩
      (stepsOk_of_forall ?_ _) hrun
    intro a ha text he
    exact ⟨a.1, he ▸ ha⟩
  constructor
  · intro c queue hqueue
    have hok := hinv.1 c
    generalize s.conns c = k at hqueue hok ⊢
    cases hok with
    | beginning h => exact h
    | _ => cases hqueue
  · intro hstays
    refine hinv.2 fun text h => ?_
    obtain ⟨c, hc⟩ := h
    exact hstays c text hc

-- ======== an example

inductive Statement
  | begin
  | commit
  | rollback
  | insert

/-- A table, by its number of rows. A session is in a `READ ONLY` transaction or
in none. -/
def table : Database Nat Bool Statement where
  fresh := false
  beginReadOnly := .begin
  rollback := .rollback
  transaction t := if t then some .readOnly else none
  leaves
    | .commit | .rollback => true
    | .begin | .insert => false
  exec
    | .begin, d, _ => ⟨d, true, true⟩
    | .commit, d, _ | .rollback, d, _ => ⟨d, false, true⟩
    | .insert, d, t => ⟨if t then d else d + 1, t, !t⟩

theorem table_documented : table.Documented where
  fresh := rfl
  begins _ _ _ := ⟨rfl, fun _ => rfl⟩
  refuses q d t h hq := by
    cases t with
    | false => cases h
    | true => cases q <;> first | exact ⟨rfl, rfl⟩ | cases hq
  rolls_back _ _ := ⟨rfl, rfl⟩

/-- One call, from `pool.connect` to its `ROLLBACK`. -/
def oneCall (text : List Statement) : List (Nat × Event Statement) :=
  [(0, .connect text), (0, .execute), (0, .resume), (0, .execute), (0, .resume), (0, .execute)]

theorem query_tool_reads_only_sample :
    ∃ s, (oneCall [.insert]).foldlM (step table) (init table 5) = some s ∧ s.committed = 5 := by
  have hrun : ∃ s, (oneCall [.insert]).foldlM (step table) (init table 5) = some s := ⟨_, rfl⟩
  obtain ⟨s, hs⟩ := hrun
  refine ⟨s, hs, (query_tool_reads_only table_documented hs).2 ?_⟩
  simp [oneCall, Database.Stays, table]

theorem commit_then_insert : ∃ s,
    (oneCall [.commit, .insert]).foldlM (step table) (init table 5) = some s ∧ s.committed = 6 :=
  ⟨_, rfl, rfl⟩

end AgentGateway.Postgres
