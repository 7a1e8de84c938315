/-
The memory server (`servers/memory/index.ts`).

A tool call loads the whole graph from the file, changes it, and saves the whole
graph. Loading and saving are awaited, and there is no lock: another call may load
or save in between. A save then overwrites what came since its load
(`lost_update`).

Beside the graph goes what names entities have had (`Journal`): a name among
them that no entity has now was deleted and not created again. Each kind of
call keeps the graph well formed; the two calls about observations touch
nothing else (`Observed`). The file has one line for each entity and each
relation, and `JSON.stringify` writes no line break.

# Where it breaks

A batch is compared with the stored graph and not with itself: a name, a
relation or an observation that comes twice in one batch is stored twice
(`batch_stored_twice`). And a relation may be created between any names, those
of deleted entities among them.

# Left out

Failures of the file system, and the calls that only read.
-/
import AgentGateway.Basic
import AgentGateway.Lib.ReadModifyWrite
import Mathlib.Data.List.Permutation

namespace AgentGateway.Memory

open Lib Lib.ReadModifyWrite List

structure Entity where
  name : Strng
  entityType : Strng
  observations : List Strng
  deriving DecidableEq

/-- `from`, `to` and `relationType`. -/
structure Relation where
  source : Strng
  target : Strng
  relationType : Strng
  deriving DecidableEq

structure KnowledgeGraph where
  entities : List Entity
  relations : List Relation
  deriving DecidableEq

inductive Call
  | createEntities (entities : List Entity)
  | createRelations (relations : List Relation)
  | addObservations (observations : List (Strng × List Strng))
  | deleteEntities (entityNames : List Strng)
  | deleteObservations (deletions : List (Strng × List Strng))
  | deleteRelations (relations : List Relation)

inductive Result
  | entities (created : List Entity)
  | relations (created : List Relation)
  | observations (added : List (Strng × List Strng))
  | deleted

namespace KnowledgeGraph

/-- Change the observations of the first entity of the name. -/
def observe (graph : KnowledgeGraph) (entityName : Strng)
    (f : List Strng → List Strng) : KnowledgeGraph :=
  { graph with entities := graph.entities.replaceF fun e =>
      if e.name = entityName then some { e with observations := f e.observations }
      else none }

/-- One round of `observations.map` in `addObservations`. -/
def addObservation (acc : KnowledgeGraph × List (Strng × List Strng)) (o : Strng × List Strng) :
    Except Strng (KnowledgeGraph × List (Strng × List Strng)) :=
  match acc.1.entities.find? (·.name = o.1) with
  | none => .error ("Entity with name " ++ o.1 ++ " not found")
  | some entity =>
    let newObservations := o.2.filter (· ∉ entity.observations)
    .ok (acc.1.observe o.1 (· ++ newObservations), acc.2 ++ [(o.1, newObservations)])

/-- What a tool makes of the graph it has loaded, and returns. -/
def apply (graph : KnowledgeGraph) : Call → Except Strng (KnowledgeGraph × Result)
  | .createEntities entities =>
    let newEntities := entities.filter fun e =>
      !graph.entities.any fun existing => existing.name = e.name
    .ok ({ graph with entities := graph.entities ++ newEntities }, .entities newEntities)
  | .createRelations relations =>
    let newRelations := relations.filter (· ∉ graph.relations)
    .ok ({ graph with relations := graph.relations ++ newRelations }, .relations newRelations)
  | .addObservations observations =>
    (observations.foldlM addObservation (graph, [])).map fun (graph, results) =>
      (graph, .observations results)
  | .deleteEntities entityNames =>
    .ok ({
      entities := graph.entities.filter (·.name ∉ entityNames)
      relations := graph.relations.filter fun r =>
        r.source ∉ entityNames ∧ r.target ∉ entityNames }, .deleted)
  | .deleteObservations deletions =>
    .ok (deletions.foldl (fun graph d => graph.observe d.1 (·.filter (· ∉ d.2))) graph, .deleted)
  | .deleteRelations relations =>
    .ok ({ graph with relations := graph.relations.filter (· ∉ relations) }, .deleted)

end KnowledgeGraph

open KnowledgeGraph

abbrev File := Option KnowledgeGraph

def loadGraph (file : File) : KnowledgeGraph := file.getD ⟨[], []⟩

/-- A tool call by itself: load, change, save. -/
def toolCall (call : Call) (file : File) : Except Strng (File × Result) :=
  ((loadGraph file).apply call).map fun (graph, result) => (some graph, result)

/-- The file and the calls that are running. -/
abbrev Manager := State File Call Strng Result

/-- A call loads or saves. -/
abbrev Manager.step (m : Manager) (t : Turn) : Option Manager :=
  ReadModifyWrite.step toolCall m t

-- ======== updates

/-- When each call finds the file at its save as it was at its load, the calls are
as good as done one after another. -/
theorem no_lost_update (file : File) (calls : List Call) (turns : List Turn)
    (m : Manager) (hrun : turns.foldlM Manager.step (start file calls) = some m)
    (hok : StepsOk Manager.step Undisturbed (start file calls) turns)
    (hdone : ∀ i < calls.length, (m.result? i).isSome) :
    AsIfSequential toolCall file calls m :=
  asIfSequential_of_undisturbed hrun hok hdone

/-- Two entities, and an observation of somebody unknown. -/
def sampleCalls : List Call :=
  [.createEntities [⟨"a", "person", []⟩], .addObservations [("c", ["x"])],
    .createEntities [⟨"b", "person", []⟩]]

/-- The calls one by one, but that the second is overtaken by the third. -/
def sampleTurns : List Turn := [.load 0, .save 0, .load 2, .load 1, .save 2]

theorem no_lost_update_sample : ∃ m,
    sampleTurns.foldlM Manager.step (start none sampleCalls) = some m
      ∧ AsIfSequential toolCall none sampleCalls m :=
  ⟨_, rfl, no_lost_update none sampleCalls sampleTurns _ rfl (by decide +kernel)
    (by decide +kernel)⟩

/-- Two calls that load before either saves: one of the entities is gone, though
both are returned as created. -/
theorem lost_update : ∃ m : Manager,
    [.load 0, .load 1, .load 2, .save 0, .save 2].foldlM Manager.step
        (start none sampleCalls) = some m ∧ (∀ i < sampleCalls.length, (m.result? i).isSome)
      ∧ m.result? 0 = some (.ok (.entities [⟨"a", "person", []⟩]))
      ∧ m.stored = some ⟨[⟨"b", "person", []⟩], []⟩
      ∧ ¬ AsIfSequential toolCall none sampleCalls m := by
  refine ⟨_, rfl, by decide +kernel, rfl, rfl, ?_⟩
  rintro ⟨order, hperm, horder⟩
  have hall : ∀ order ∈ (List.range 3).permutations', (inOrder toolCall sampleCalls none order).1
        ≠ some ⟨[⟨"b", "person", []⟩], []⟩ := by decide +kernel
  exact hall order (List.mem_permutations'.2 hperm) (congrArg Prod.fst horder)

-- ======== file

/-- A line of the file. -/
inductive Item
  | entity (e : Entity)
  | relation (r : Relation)
  deriving DecidableEq

/-- `JSON.stringify` and `JSON.parse` on the lines, and the characters that
`trim` takes off. A line that is no item is skipped. -/
structure Json where
  stringify : Item → Strng
  parse : Strng → Except Strng (Option Item)
  isSpace : Char → Bool

/-- An item is written on one line that is not blank, and read back. -/
def Json.Writes (json : Json) (item : Item) : Prop :=
  json.parse (json.stringify item) = .ok (some item)
    ∧ '\n' ∉ (json.stringify item).toList
    ∧ (json.stringify item).toList.all json.isSpace = false

namespace KnowledgeGraph

def items (graph : KnowledgeGraph) : List Item :=
  graph.entities.map .entity ++ graph.relations.map .relation

/-- One round of `lines.reduce`. -/
def push (graph : KnowledgeGraph) : Option Item → KnowledgeGraph
  | some (.entity e) => { graph with entities := graph.entities ++ [e] }
  | some (.relation r) => { graph with relations := graph.relations ++ [r] }
  | none => graph

end KnowledgeGraph

def Json.save (json : Json) (graph : KnowledgeGraph) : Strng :=
  "\n".intercalate (graph.items.map json.stringify)

/-- What `loadGraph` makes of the text. -/
def Json.load (json : Json) (data : Strng) : Except Strng KnowledgeGraph :=
  ((data.toList.splitOn '\n').filter fun line => !line.all json.isSpace).foldlM
    (fun graph line => (json.parse (String.ofList line)).map graph.push) ⟨[], []⟩

theorem foldl_push (es : List Entity) (rs : List Relation) (graph : KnowledgeGraph) :
    (es.map Item.entity ++ rs.map Item.relation).foldl (fun g item => g.push (some item))
        graph = ⟨graph.entities ++ es, graph.relations ++ rs⟩ := by
  induction es generalizing graph with
  | cons e es ih =>
    refine (ih _).trans ?_
    simp [push]
  | nil =>
    induction rs generalizing graph with
    | nil => simp
    | cons r rs ih =>
      refine (ih _).trans ?_
      simp [push]

theorem foldlM_parse {json : Json} {items : List Item}
    (hjson : ∀ item ∈ items, json.Writes item) (graph : KnowledgeGraph) :
    (items.map fun item => (json.stringify item).toList).foldlM
        (fun graph line => (json.parse (String.ofList line)).map graph.push) graph
      = .ok (items.foldl (fun g item => g.push (some item)) graph) := by
  induction items generalizing graph with
  | nil => rfl
  | cons item items ih =>
    rw [forall_mem_cons] at hjson
    rw [map_cons, foldlM_cons, String.ofList_toList, hjson.1.1]
    exact ih hjson.2 _

theorem load_save {json : Json} {graph : KnowledgeGraph}
    (hjson : ∀ item ∈ graph.items, json.Writes item) : json.load (json.save graph) = .ok graph := by
  have hfold := foldlM_parse hjson ⟨[], []⟩
  rw [items, foldl_push] at hfold
  unfold Json.load Json.save
  rw [String.toList_intercalate, map_map]
  cases hitems : graph.items with
  | nil =>
    -- nothing is written, and the one empty line is skipped
    rw [← items, hitems] at hfold
    exact hfold
  | cons item items =>
    show ((splitOn '\n' (['\n'].intercalate _)).filter _).foldlM _ _ = _
    rw [splitOn_intercalate, filter_eq_self.2, ← hitems]
    · exact hfold
    · intro line hline
      obtain ⟨item, hmem, rfl⟩ := mem_map.1 hline
      exact congrArg _ (hjson item (hitems ▸ hmem)).2.2
    · intro line hline
      obtain ⟨item, hmem, rfl⟩ := mem_map.1 hline
      exact (hjson item (hitems ▸ hmem)).2.1
    · nofun

-- ======== run

def KnowledgeGraph.names (graph : KnowledgeGraph) : List Strng :=
  graph.entities.map (·.name)

/-- The graph after a call. A call that fails has saved nothing. -/
def KnowledgeGraph.call (graph : KnowledgeGraph) (c : Call) : KnowledgeGraph :=
  match graph.apply c with
  | .ok (graph, _) => graph
  | .error _ => graph

/-- The graph, and the names that entities have had. -/
structure Journal where
  known : List Strng
  graph : KnowledgeGraph

def Journal.call (j : Journal) (c : Call) : Journal :=
  ⟨j.known ++ (j.graph.call c).names, j.graph.call c⟩

/-- The names are those of entities that are there, or never were. -/
def Journal.Mentions (j : Journal) (r : Relation) : Prop :=
  ∀ n ∈ [r.source, r.target], n ∈ j.known → n ∈ j.graph.names

structure Journal.WellFormed (j : Journal) : Prop where
  names : j.graph.names.Nodup
  relations : j.graph.relations.Nodup
  observations : ∀ e ∈ j.graph.entities, e.observations.Nodup
  mentions : ∀ r ∈ j.graph.relations, j.Mentions r

/-- What is new in a batch comes once, and no relation is created with the
name of a deleted entity. -/
def Journal.Fits (j : Journal) : Call → Prop
  | .createEntities entities =>
    let newEntities := entities.filter (·.name ∉ j.graph.names)
    (newEntities.map (·.name)).Nodup ∧ ∀ e ∈ newEntities, e.observations.Nodup
  | .createRelations relations =>
    let newRelations := relations.filter (· ∉ j.graph.relations)
    newRelations.Nodup ∧ ∀ r ∈ newRelations, j.Mentions r
  | .addObservations observations => ∀ o ∈ observations, o.2.Nodup
  | _ => True

instance (j : Journal) (r : Relation) : Decidable (j.Mentions r) :=
  inferInstanceAs (Decidable (∀ n ∈ [_, _], _))

instance (j : Journal) (c : Call) : Decidable (j.Fits c) := by
  cases c <;> unfold Journal.Fits <;> infer_instance

/-- Only observations change, and they stay without duplicates. -/
structure Observed (g g' : KnowledgeGraph) : Prop where
  names : g'.names = g.names
  relations : g'.relations = g.relations
  nodup : (∀ e ∈ g.entities, e.observations.Nodup) → ∀ e ∈ g'.entities, e.observations.Nodup

theorem Observed.refl (g : KnowledgeGraph) : Observed g g := ⟨rfl, rfl, id⟩

theorem Observed.trans {g₁ g₂ g₃ : KnowledgeGraph} (h : Observed g₁ g₂)
    (h' : Observed g₂ g₃) : Observed g₁ g₃ :=
  ⟨h'.names.trans h.names, h'.relations.trans h.relations, h'.nodup ∘ h.nodup⟩

theorem observed_observe (g : KnowledgeGraph) {n : Strng} {f : List Strng → List Strng}
    (hf : ∀ e, g.entities.find? (·.name = n) = some e → e.observations.Nodup →
      (f e.observations).Nodup) : Observed g (g.observe n f) := by
  obtain ⟨es, rs⟩ := g
  suffices h : (((mk es rs).observe n f).entities.map (·.name)
      = es.map (·.name)) ∧ _ from ⟨h.1, rfl, h.2⟩
  induction es with
  | nil => exact ⟨rfl, id⟩
  | cons e es ih =>
    by_cases he : e.name = n
    · simp [observe, he] at hf ⊢
      exact fun h hes => ⟨hf h, hes⟩
    · simp [observe, he] at hf ih ⊢
      exact ⟨(ih hf).1, fun h hes => ⟨h, (ih hf).2 hes⟩⟩

theorem observed_foldlM {observations : List (Strng × List Strng)}
    (hnd : ∀ o ∈ observations, o.2.Nodup) {acc acc' : KnowledgeGraph × List (Strng × List Strng)}
    (h : observations.foldlM addObservation acc = .ok acc') : Observed acc.1 acc'.1 := by
  induction observations generalizing acc with
  | nil =>
    cases h
    exact .refl _
  | cons o observations ih =>
    rw [forall_mem_cons] at hnd
    rw [foldlM_cons] at h
    cases hfind : acc.1.entities.find? (·.name = o.1) with
    | none =>
      rw [addObservation, hfind] at h
      cases h
    | some entity =>
      rw [addObservation, hfind] at h
      refine .trans ?_ (ih hnd.2 h)
      dsimp only
      refine observed_observe acc.1 fun e he hobs => ?_
      cases hfind.symm.trans he
      refine nodup_append.2 ⟨hobs, hnd.1.filter _, ?_⟩
      intro a ha b hb hab
      simp [← hab, ha] at hb

theorem Journal.wellFormed_next {known : List Strng} {g : KnowledgeGraph}
    (hnames : g.names.Nodup) (hrelations : g.relations.Nodup)
    (hobs : ∀ e ∈ g.entities, e.observations.Nodup)
    (hmentions : ∀ r ∈ g.relations, ∀ n ∈ [r.source, r.target], n ∈ known → n ∈ g.names) :
    Journal.WellFormed ⟨known ++ g.names, g⟩ where
  names := hnames
  relations := hrelations
  observations := hobs
  mentions r hr n hn hknown := (mem_append.1 hknown).elim (hmentions r hr n hn) id

theorem Journal.WellFormed.observed {j : Journal} (h : j.WellFormed) {g : KnowledgeGraph}
    (ho : Observed j.graph g) : Journal.WellFormed ⟨j.known ++ g.names, g⟩ := by
  refine wellFormed_next (ho.names ▸ h.names) (ho.relations ▸ h.relations)
    (ho.nodup h.observations) ?_
  rw [ho.relations, ho.names]
  exact h.mentions

theorem Journal.WellFormed.call {j : Journal} (h : j.WellFormed) {c : Call}
    (hfits : j.Fits c) : (j.call c).WellFormed := by
  unfold Journal.call KnowledgeGraph.call
  cases c with
  | createEntities entities =>
    have hnew : (entities.filter fun e => !j.graph.entities.any fun existing =>
        existing.name = e.name) = entities.filter (·.name ∉ j.graph.names) := by
      refine filter_congr fun e _ => ?_
      rw [Bool.eq_iff_iff]
      simp [KnowledgeGraph.names]
    simp only [apply, hnew]
    refine wellFormed_next ?_ h.relations ?_ fun r hr n hn hknown => ?_
    · rw [KnowledgeGraph.names, map_append]
      refine List.nodup_append.2 ⟨h.names, hfits.1, ?_⟩
      intro a ha b hb hab
      obtain ⟨e, he, rfl⟩ := List.mem_map.1 hb
      exact of_decide_eq_true (List.mem_filter.1 he).2 (hab ▸ ha)
    · exact List.forall_mem_append.2 ⟨h.observations, hfits.2⟩
    · rw [KnowledgeGraph.names, map_append]
      exact mem_append_left _ (h.mentions r hr n hn hknown)
  | createRelations relations =>
    refine wellFormed_next h.names ?_ h.observations
      (List.forall_mem_append.2 ⟨h.mentions, hfits.2⟩)
    refine List.nodup_append.2 ⟨h.relations, hfits.1, ?_⟩
    intro a ha b hb hab
    exact of_decide_eq_true (List.mem_filter.1 hb).2 (hab ▸ ha)
  | addObservations observations =>
    cases hrun : observations.foldlM addObservation (j.graph, []) with
    | error e =>
      rw [apply, hrun]
      exact h.observed (.refl _)
    | ok acc =>
      rw [apply, hrun]
      exact h.observed (observed_foldlM hfits hrun)
  | deleteEntities entityNames =>
    refine wellFormed_next (h.names.sublist (List.filter_sublist.map _))
      (h.relations.filter _) (fun e he => h.observations e (mem_of_mem_filter he))
      fun r hr n hn hknown => ?_
    -- a relation that is kept mentions none of the names
    obtain ⟨hr, hkept⟩ := List.mem_filter.1 hr
    rw [decide_eq_true_iff] at hkept
    obtain ⟨e, he, rfl⟩ := List.mem_map.1 (h.mentions r hr n hn hknown)
    refine List.mem_map.2 ⟨e, List.mem_filter.2 ⟨he, decide_eq_true ?_⟩, rfl⟩
    rcases List.mem_pair.1 hn with hn | hn
    · exact hn ▸ hkept.1
    · exact hn ▸ hkept.2
  | deleteObservations deletions =>
    refine h.observed (List.foldlRecOn deletions _ (.refl _) fun g hg d _ => ?_)
    exact hg.trans (observed_observe g fun e _ hobs => hobs.filter _)
  | deleteRelations relations =>
    exact wellFormed_next h.names (h.relations.filter _) h.observations fun r hr =>
      h.mentions r (mem_of_mem_filter hr)

theorem Journal.WellFormed.run {j : Journal} (h : j.WellFormed) {calls : List Call}
    (hfits : RunOk Journal.call Journal.Fits j calls) :
    (calls.foldl Journal.call j).WellFormed := by
  induction calls generalizing j with
  | nil => exact h
  | cons c calls ih => exact ih (h.call hfits.1) hfits.2

/-- In a run of calls that fit, the graph is well formed after each of them,
and it is loaded as it was saved. -/
theorem graph_stays_wellFormed (json : Json) (calls later : List Call)
    (hfits : RunOk Journal.call Journal.Fits ⟨[], ⟨[], []⟩⟩ (calls ++ later)) :
    let j := calls.foldl Journal.call ⟨[], ⟨[], []⟩⟩
    j.WellFormed ∧ ((∀ item ∈ j.graph.items, json.Writes item) →
      json.load (json.save j.graph) = .ok j.graph) := by
  have hstart : Journal.WellFormed ⟨[], ⟨[], []⟩⟩ := ⟨.nil, .nil, nofun, nofun⟩
  exact ⟨hstart.run (runOk_append.1 hfits).1, load_save⟩

/-- Some items, each written as a line of its own length. -/
def sampleJson (items : List Item) : Json where
  stringify item := String.ofList (replicate (items.idxOf item + 1) '-')
  parse line := .ok (items[line.length - 1]?)
  isSpace := (· = ' ')

/-- An entity is deleted and created again. -/
def fittingCalls : List Call :=
  [.createEntities [⟨"a", "person", ["x"]⟩, ⟨"b", "person", []⟩],
    .createRelations [⟨"a", "b", "knows"⟩, ⟨"a", "c", "knows"⟩], .deleteEntities ["b"],
    .createEntities [⟨"b", "pet", []⟩, ⟨"a", "pet", []⟩],
    .addObservations [("b", ["x", "y"]), ("b", ["y", "z"])]]

theorem graph_stays_wellFormed_sample : let j := fittingCalls.foldl Journal.call ⟨[], ⟨[], []⟩⟩
    let json := sampleJson j.graph.items
    j.WellFormed ∧ json.load (json.save j.graph) = .ok j.graph := by
  obtain ⟨hj, hjson⟩ := graph_stays_wellFormed (sampleJson _) fittingCalls [] (by decide +kernel)
  exact ⟨hj, hjson (by unfold Json.Writes; decide +kernel)⟩

/-- A batch that names an entity twice, and a relation with a deleted one. -/
theorem batch_stored_twice :
    ¬ Journal.WellFormed ([.createEntities [⟨"a", "person", ["x"]⟩, ⟨"a", "pet", []⟩]].foldl
        Journal.call ⟨[], ⟨[], []⟩⟩) ∧ ¬ Journal.WellFormed ([.createEntities [⟨"a", "person", []⟩],
        .deleteEntities ["a"], .createRelations [⟨"a", "b", "knows"⟩]].foldl Journal.call
          ⟨[], ⟨[], []⟩⟩) := by
  refine ⟨fun h => absurd h.names (by decide), fun h => ?_⟩
  exact absurd (h.mentions ⟨"a", "b", "knows"⟩ (by decide) "a" (by decide) (by decide)) (by decide)

end AgentGateway.Memory
