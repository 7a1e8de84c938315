/-
What is listed is what can be called, and the URIs of merged resource lists
(`resource_uri` and `merge_resources` of `mcp/handler.rs`).

Listing and calling are written apart: the merge of the targets' answers
filters and renames, the dispatch of a request takes the name apart and
checks again. They meet in two facts. A target name has no delimiter
(`not_mem_of_valid`), so a listed name comes apart into the target and
the name it was made of; and the dispatch of either request is one and
the same check (`Dispatched`), made on what the name comes apart into.
From these, `agrees_of_dispatched` gives the agreement for tools and for
prompts at once.

With several targets a resource is listed under its URI with the target's
name and a `+` in front, as `service+http://example.com`. A target name
has no `+`, so a URI that is prefixed comes apart at its first one, and
only a prefixed URI holds `://`. What is listed of a resource besides its
URI is passed on.

# Where it breaks

A URI without `://`, such as `urn:isbn:123` or `mailto:ops`, is listed as
it is. If two targets list the same one, the merged list has it twice and
nothing tells whose it is.
-/
import AgentGateway.Lib.Except
import AgentGateway.Mcp.Relay

namespace AgentGateway.Mcp

open Lib Http

-- ======== target names

def nameChars : List Char := '.' :: '-' :: alnum

theorem mcpTargetNameRe_within : Within {c | c ∈ nameChars} mcpTargetNameRe := by
  have halnum : Within {c | c ∈ nameChars} (oneOf alnum) :=
    within_oneOf fun _ hc => .tail _ (.tail _ hc)
  have hdash : Within {c | c ∈ nameChars} (oneOf ('-' :: alnum)) :=
    within_oneOf fun _ hc => .tail _ hc
  have hlabel : Within {c | c ∈ nameChars} label :=
    within_mul halnum (within_opt (within_mul (within_star hdash) halnum))
  have hdot : Within {c | c ∈ nameChars} (RegularExpression.char '.') := within_char (by decide)
  exact within_mul hlabel (within_star (within_mul hdot hlabel))

theorem not_mem_of_valid {name : Strng} (h : validateMcpTargetName name = .ok ())
    {c : Char} (hc : c ∉ nameChars) : c ∉ name.toList := by
  unfold validateMcpTargetName at h
  split at h
  · cases h
  · split at h
    · cases h
    · split at h
      · cases h
      · next hre =>
        rw [Bool.not_eq_true, Bool.not_eq_false'] at hre
        intro hmem
        exact hc (mcpTargetNameRe_within.of_rmatch hre c hmem)

-- ======== upstream group

namespace UpstreamGroup

variable {U R : Type}
  {name : Strng} {setupUpstream : McpTarget → Except Error U} {targets : List McpTarget}
  {group : UpstreamGroup U}

theorem setupConnections_keys {failureMode : FailureMode} {byName byName' : IndexMap Strng U}
    (h : setupConnections setupUpstream failureMode byName targets = .ok byName')
    (hname : byName'.contains name) : byName.contains name ∨ name ∈ targets.map McpTarget.name := by
  induction targets generalizing byName with
  | nil =>
    cases h
    exact .inl hname
  | cons tgt targets ih =>
    rw [List.map_cons, List.mem_cons]
    unfold setupConnections at h
    split at h
    · rcases ih h with hin | hrest
      · rw [AssocMap.contains_insert] at hin
        exact hin.symm.imp_right .inl
      · exact .inr (.inr hrest)
    · split at h
      · exact (ih h).imp_right .inr
      · cases h

/-- What holds of a group of upstreams once it is set up: only targets
are connected, a default target is the only one, and target names are
free of the delimiter. -/
structure Sound (group : UpstreamGroup U) : Prop where
  connected : ∀ name, group.byName.contains name → name ∈ group.backend.targets.map McpTarget.name
  default_only : ∀ name, group.defaultTargetName = some name →
    group.backend.targets.map McpTarget.name = [name]
  apart : ∀ name ∈ group.backend.targets.map McpTarget.name, delimiter ∉ name.toList

theorem defaultTarget_only (h : (defaultTarget targets).1 = some name) :
    targets.map McpTarget.name = [name] := by
  unfold defaultTarget at h
  split at h
  · dsimp only at h
    split at h
    · cases h
    · cases h
      rfl
  · cases h

theorem sound_new {backend : McpBackendGroup}
    (hvalid : ∀ tgt ∈ backend.targets, validateMcpTargetName tgt.name = .ok ())
    (h : new setupUpstream backend = .ok group) : group.backend = backend ∧ group.Sound := by
  unfold new at h
  cases hset : setupConnections setupUpstream backend.failureMode .empty backend.targets with
  | error e =>
    rw [hset] at h
    cases h
  | ok byName =>
    rw [hset] at h
    dsimp only [bind, Except.bind] at h
    -- whether or not a target is connected to, the same group is returned
    have hgroup : group = {
        failureMode := backend.failureMode
        backend := backend
        byName := byName
        defaultTargetName := (defaultTarget backend.targets).1
        isMultiplexing := (defaultTarget backend.targets).2 } := by
      split at h
      · split at h
        · cases h
          rfl
        · cases h
      · cases h
        rfl
    subst hgroup
    refine ⟨rfl, ?_, fun name hname => defaultTarget_only hname, ?_⟩
    · intro name hname
      cases setupConnections_keys hset hname with
      | inl hempty => rw [AssocMap.contains_empty] at hempty; cases hempty
      | inr hmem => exact hmem
    · intro name hname
      obtain ⟨tgt, htgt, rfl⟩ := List.mem_map.1 hname
      exact not_mem_of_valid (hvalid tgt htgt) (by decide)

theorem mem_answers {answer : Strng → Option R} {result : R} : (name, result) ∈ group.answers answer
      ↔ group.byName.contains name ∧ answer name = some result := by
  unfold answers iterNamed
  rw [List.mem_filterMap, AssocMap.contains_iff_mem_keys]
  unfold AssocMap.keys
  rw [List.mem_map]
  constructor
  · rintro ⟨⟨k, u⟩, hmem, heq⟩
    obtain ⟨r, hr, heq⟩ := Option.map_eq_some_iff.1 heq
    cases heq
    exact ⟨⟨_, hmem, rfl⟩, hr⟩
  · rintro ⟨⟨⟨k, u⟩, hmem, rfl⟩, hr⟩
    refine ⟨_, hmem, ?_⟩
    dsimp only at hr ⊢
    rw [hr]
    rfl

end UpstreamGroup

-- ======== round trips

namespace Relay

variable {U E C D A : Type} {relay : Relay U E C}
  {target : Strng} {cel : C} {resource : ResourceId → ResourceType}

theorem parseResourceName_resourceName (hsound : relay.upstreams.Sound)
    (htarget : target ∈ relay.upstreams.backend.targets.map McpTarget.name) (name : Strng) :
    relay.parseResourceName (resourceName relay.upstreams.defaultTargetName target name)
      = .ok (target, name) := by
  unfold parseResourceName resourceName
  cases hdefault : relay.upstreams.defaultTargetName with
  | none =>
    dsimp only [Option.isNone]
    rw [if_pos rfl, splitOnce_append name (hsound.apart target htarget)]
  | some default =>
    rw [hsound.default_only default hdefault, List.mem_singleton] at htarget
    rw [htarget]
    rfl

theorem resourceName_of_parse {res name : Strng}
    (h : relay.parseResourceName res = .ok (target, name)) :
    res = resourceName relay.upstreams.defaultTargetName target name := by
  unfold parseResourceName at h
  unfold resourceName
  cases hdefault : relay.upstreams.defaultTargetName with
  | none =>
    rw [hdefault] at h
    dsimp only at h
    split at h
    · next hsplit =>
      cases h
      rw [splitOnce_eq_some hsplit]
      simp [String.ext_iff]
    · cases h
  | some default =>
    rw [hdefault] at h
    cases h
    rfl

theorem resourceName_inj (hsound : relay.upstreams.Sound) {target' name name' : Strng}
    (htarget : target ∈ relay.upstreams.backend.targets.map McpTarget.name)
    (htarget' : target' ∈ relay.upstreams.backend.targets.map McpTarget.name)
    (h : resourceName relay.upstreams.defaultTargetName target name
      = resourceName relay.upstreams.defaultTargetName target' name') :
    target = target' ∧ name = name' := by
  have hparse := parseResourceName_resourceName hsound htarget name
  rw [h, parseResourceName_resourceName hsound htarget' name'] at hparse
  cases hparse
  exact ⟨rfl, rfl⟩

-- ======== dispatch

theorem sendSingle_eq_ok {r r' : ClientRequest A} {serviceName : Strng} :
    relay.sendSingle r serviceName = .ok (target, r')
      ↔ relay.upstreams.byName.contains target ∧ serviceName = target ∧ r = r' := by
  unfold sendSingle UpstreamGroup.get
  rw [AssocMap.contains]
  constructor
  · intro h
    split at h
    · next hget =>
      cases h
      exact ⟨by rw [hget]; rfl, rfl, rfl⟩
    · cases h
  · rintro ⟨hin, rfl, rfl⟩
    obtain ⟨u, hu⟩ := Option.isSome_iff_exists.1 hin
    rw [hu]

/-- A request is sent to a target under a name exactly if its own name
comes apart into these, the rules let the resource pass and the target is
connected. -/
def Dispatched (relay : Relay U E C) (cel : C) (resource : ResourceId → ResourceType)
    (request : Strng → A → ClientRequest A) : Prop :=
  ∀ res args target r, relay.sendInternal cel (request res args) = .ok (target, r)
    ↔ ∃ name, relay.parseResourceName res = .ok (target, name)
      ∧ relay.validate (resource ⟨target, name⟩) cel
      ∧ relay.upstreams.byName.contains target ∧ r = request name args

theorem dispatched_callTool (relay : Relay U E C) (cel : C) :
    Dispatched relay cel .tool (ClientRequest.callTool (A := A)) := by
  intro res args target r
  rw [sendInternal, Except.bind_eq_ok]
  constructor
  · rintro ⟨⟨serviceName, tool⟩, hparse, h⟩
    rw [Except.guard_eq_ok, sendSingle_eq_ok] at h
    obtain ⟨hv, hin, rfl, rfl⟩ := h
    exact ⟨tool, hparse, hv, hin, rfl⟩
  · rintro ⟨tool, hparse, hv, hin, rfl⟩
    refine ⟨_, hparse, ?_⟩
    rw [Except.guard_eq_ok, sendSingle_eq_ok]
    exact ⟨hv, hin, rfl, rfl⟩

theorem authorizePromptRequest_eq_ok {res prompt : Strng} :
    relay.authorizePromptRequest res cel = .ok (target, prompt)
      ↔ relay.parseResourceName res = .ok (target, prompt)
        ∧ relay.validate (.prompt ⟨target, prompt⟩) cel := by
  unfold authorizePromptRequest
  rw [Except.bind_eq_ok]
  constructor
  · rintro ⟨⟨serviceName, name⟩, hparse, h⟩
    rw [Except.guard_eq_ok] at h
    obtain ⟨hv, heq⟩ := h
    cases heq
    exact ⟨hparse, hv⟩
  · rintro ⟨hparse, hv⟩
    refine ⟨_, hparse, ?_⟩
    rw [Except.guard_eq_ok]
    exact ⟨hv, rfl⟩

theorem dispatched_getPrompt (relay : Relay U E C) (cel : C) :
    Dispatched relay cel .prompt (ClientRequest.getPrompt (A := A)) := by
  intro res args target r
  rw [sendInternal, Except.bind_eq_ok]
  constructor
  · rintro ⟨⟨serviceName, prompt⟩, hauth, h⟩
    obtain ⟨hparse, hv⟩ := authorizePromptRequest_eq_ok.1 hauth
    obtain ⟨hin, rfl, rfl⟩ := sendSingle_eq_ok.1 h
    exact ⟨prompt, hparse, hv, hin, rfl⟩
  · rintro ⟨prompt, hparse, hv, hin, rfl⟩
    exact ⟨_, authorizePromptRequest_eq_ok.2 ⟨hparse, hv⟩, sendSingle_eq_ok.2 ⟨hin, rfl, rfl⟩⟩

-- ======== agreement

theorem mem_mergeListed {offered : ServerResult D → List (Listed D)}
    {streams : List (Strng × ServerResult D)} {entry : Listed D} :
    entry ∈ relay.mergeListed resource offered cel streams
      ↔ ∃ target result, (target, result) ∈ streams ∧ ∃ t ∈ offered result,
        relay.validate (resource ⟨target, t.name⟩) cel
          ∧ entry = t.rename (resourceName relay.upstreams.defaultTargetName target t.name) := by
  simp only [mergeListed, List.mem_flatMap, List.mem_map, List.mem_filter,
    Prod.exists, and_assoc, @eq_comm _ entry]

/-- The list shown to the client, made of what the targets offer, against
the requests that use its names. -/
structure Agrees (relay : Relay U E C) (cel : C) (offered : ServerResult D → List (Listed D))
    (request : Strng → A → ClientRequest A)
    (answers : List (Strng × ServerResult D)) (listed : List (Listed D)) :
    Prop where
  /-- what a target offers is listed exactly if a request under the listed
  name is sent to that target with the name it has there -/
  listed_iff_sent : ∀ target result, (target, result) ∈ answers → ∀ t ∈ offered result, ∀ args,
      t.rename (resourceName relay.upstreams.defaultTargetName target t.name) ∈ listed
        ↔ relay.sendInternal cel (request
            (resourceName relay.upstreams.defaultTargetName target t.name) args)
          = .ok (target, request t.name args)
  /-- nothing hidden can be called, whatever name the client makes up -/
  sent_listed : ∀ res args target r, relay.sendInternal cel (request res args) = .ok (target, r) →
      ∃ name, r = request name args ∧ ∀ result, (target, result) ∈ answers → ∀ t ∈ offered result,
          t.name = name → t.rename res ∈ listed
  /-- nothing listed is refused -/
  listed_sent : ∀ entry ∈ listed, ∀ args, ∃ target result,
    (target, result) ∈ answers ∧ ∃ t ∈ offered result, entry = t.rename entry.name
        ∧ relay.sendInternal cel (request entry.name args) = .ok (target, request t.name args)

/-- A merge that filters by the rules agrees with a dispatch that checks
them. -/
theorem agrees_of_dispatched (hsound : relay.upstreams.Sound)
    {request : Strng → A → ClientRequest A}
    (hdispatch : Dispatched relay cel resource request) (offered : ServerResult D → List (Listed D))
    (answer : Strng → Option (ServerResult D)) :
    Agrees relay cel offered request (relay.upstreams.answers answer)
      (relay.mergeListed resource offered cel (relay.upstreams.answers answer)) where
  listed_iff_sent target result hmem t ht args := by
    have hin := (UpstreamGroup.mem_answers.1 hmem).1
    have htarget := hsound.connected target hin
    have hparse := parseResourceName_resourceName hsound htarget t.name
    rw [hdispatch, mem_mergeListed]
    constructor
    · rintro ⟨target', result', hmem', t', ht', hv, heq⟩
      -- only the same target and name give this listed name
      obtain ⟨rfl, hname⟩ := resourceName_inj hsound htarget
        (hsound.connected target' (UpstreamGroup.mem_answers.1 hmem').1)
        (congrArg Listed.name heq)
      exact ⟨t.name, hparse, hname ▸ hv, hin, rfl⟩
    · rintro ⟨name, hparse', hv, -, -⟩
      rw [hparse] at hparse'
      cases hparse'
      exact ⟨target, result, hmem, t, ht, hv, rfl⟩
  sent_listed res args target r hsent := by
    obtain ⟨name, hparse, hv, -, rfl⟩ := (hdispatch res args target r).1 hsent
    refine ⟨name, rfl, ?_⟩
    rintro result hmem t ht rfl
    rw [mem_mergeListed]
    exact ⟨target, result, hmem, t, ht, hv, by rw [resourceName_of_parse hparse]⟩
  listed_sent entry hentry args := by
    obtain ⟨target, result, hmem, t, ht, hv, rfl⟩ := mem_mergeListed.1 hentry
    have hin := (UpstreamGroup.mem_answers.1 hmem).1
    refine ⟨target, result, hmem, t, ht, rfl, (hdispatch _ _ _ _).2 ?_⟩
    exact ⟨t.name, parseResourceName_resourceName hsound
      (hsound.connected target hin) t.name, hv, hin, rfl⟩

/-- Listing and calling agree: over the targets of a backend, listed
names are unambiguous and come apart again, and the merged lists of tools
and of prompts are exactly what a client can call and get. -/
theorem listing_matches_calling (setupUpstream : McpTarget → Except Error U)
    (backend : McpBackendGroup) (upstreams : UpstreamGroup U)
    (hvalid : ∀ tgt ∈ backend.targets, validateMcpTargetName tgt.name = .ok ())
    (hnew : UpstreamGroup.new setupUpstream backend = .ok upstreams)
    (policies : RuleSets E) (eval : C → ResourceType → Executor E) (cel : C)
    (answer : Strng → Option (ServerResult D)) :
    let relay : Relay U E C := ⟨upstreams, policies, eval⟩
    let listedName := resourceName upstreams.defaultTargetName
    (∀ tgt ∈ backend.targets, ∀ tgt' ∈ backend.targets, ∀ name name',
        listedName tgt.name name = listedName tgt'.name name' →
          tgt.name = tgt'.name ∧ name = name') ∧ (∀ tgt ∈ backend.targets, ∀ name,
        relay.parseResourceName (listedName tgt.name name) = .ok (tgt.name, name))
      ∧ (∃ tools, relay.mergeTools cel (upstreams.answers answer)
            = .ok (.listToolsResult tools) ∧ Agrees relay cel ServerResult.tools
            (ClientRequest.callTool (A := A)) (upstreams.answers answer) tools)
      ∧ (∃ prompts, relay.mergePrompts cel (upstreams.answers answer)
            = .ok (.listPromptsResult prompts)
          ∧ Agrees relay cel ServerResult.prompts
            (ClientRequest.getPrompt (A := A)) (upstreams.answers answer)
            prompts) := by
  intro relay listedName
  obtain ⟨rfl, hgroup⟩ := UpstreamGroup.sound_new hvalid hnew
  have hsound : relay.upstreams.Sound := hgroup
  have hmem : ∀ tgt ∈ upstreams.backend.targets,
      tgt.name ∈ upstreams.backend.targets.map McpTarget.name :=
    fun tgt htgt => List.mem_map_of_mem htgt
  refine ⟨?_, ?_, ⟨_, rfl, ?_⟩, ⟨_, rfl, ?_⟩⟩
  · intro tgt htgt tgt' htgt' name name' heq
    exact resourceName_inj hsound (hmem tgt htgt) (hmem tgt' htgt') heq
  · intro tgt htgt name
    exact parseResourceName_resourceName hsound (hmem tgt htgt) name
  · exact agrees_of_dispatched hsound (dispatched_callTool relay cel) _ answer
  · exact agrees_of_dispatched hsound (dispatched_getPrompt relay cel) _ answer

def sampleUpstreams : UpstreamGroup Unit where
  failureMode := .failClosed
  backend := ⟨[⟨"time", false⟩, ⟨"svc.ns", false⟩], .failClosed⟩
  byName := (AssocMap.empty.insert "time" ()).insert "svc.ns" ()
  defaultTargetName := none
  isMultiplexing := true

/-- A rule that denies one tool, whose name holds the delimiter. -/
def sampleRelay : Relay Unit Unit Unit where
  upstreams := sampleUpstreams
  policies := [⟨[], [()], []⟩]
  eval := fun _ res _ => res = .tool ⟨"time", "get_zone"⟩

def sampleAnswer : Strng → Option (ServerResult Unit) := fun _ =>
  some (.listToolsResult [⟨"get_zone", ()⟩, ⟨"now", ()⟩])

theorem listing_matches_calling_sample :
    (∃ tools, sampleRelay.mergeTools () (sampleUpstreams.answers sampleAnswer)
        = .ok (.listToolsResult tools)
      ∧ Agrees sampleRelay () ServerResult.tools (ClientRequest.callTool (A := Unit))
        (sampleUpstreams.answers sampleAnswer) tools)
      ∧ sampleRelay.mergeTools () (sampleUpstreams.answers sampleAnswer)
        = .ok (.listToolsResult [⟨"time_now", ()⟩, ⟨"svc.ns_get_zone", ()⟩, ⟨"svc.ns_now", ()⟩]) :=
  ⟨(listing_matches_calling (A := Unit) (fun _ => .ok ())
      sampleUpstreams.backend sampleUpstreams (by decide +kernel) rfl
      sampleRelay.policies sampleRelay.eval () sampleAnswer).2.2.1,
    by decide⟩

end Relay

-- ======== resource URIs

open Lib Http List

/-- `str::find`: where the first occurrence of a pattern begins. -/
def find (s pat : List Char) : Option Nat :=
  s.tails.findIdx? pat.isPrefixOf

theorem find_isSome {s pat : List Char} : (find s pat).isSome ↔ pat <:+: s := by
  rw [find, findIdx?_isSome, any_eq_true, infix_iff_prefix_suffix]
  simp only [mem_tails, isPrefixOf_iff_prefix, and_comm]

def resourceUri (defaultTargetName : Option Strng) (target uri : Strng) : Strng :=
  if defaultTargetName.isNone then
    match find uri.toList "://".toList with
    | some schemeEnd =>
      let (scheme, rest) := uri.toList.splitAt schemeEnd
      target ++ "+" ++ String.ofList scheme ++ String.ofList rest
    | none => uri
  else uri

structure Resource (D : Type) where
  uri : Strng
  detail : D

/-- The results `merge_resources` tells apart. -/
inductive ResourcesResult (D : Type)
  | listResourcesResult (resources : List (Resource D))
  | other

variable {U E C D : Type}

def ResourcesResult.resources : ResourcesResult D → List (Resource D)
  | .listResourcesResult resources => resources
  | .other => []

namespace Relay

/-- The list that `merge_resources` answers with. -/
def mergeResources (relay : Relay U E C) (cel : C)
    (streams : List (Strng × ResourcesResult D)) : List (Resource D) :=
  streams.flatMap fun (serverName, s) =>
    (s.resources.filter fun r =>
        relay.validate (.resource ⟨serverName, r.uri⟩) cel).map fun r =>
      { r with uri := resourceUri relay.upstreams.defaultTargetName serverName r.uri }

/-- The target and the URI at the target of every entry of the merged
list. -/
def origins (relay : Relay U E C) (cel : C)
    (streams : List (Strng × ResourcesResult D)) : List (Strng × Strng) :=
  streams.flatMap fun (serverName, s) =>
    (s.resources.filter fun r =>
        relay.validate (.resource ⟨serverName, r.uri⟩) cel).map fun r =>
      (serverName, r.uri)

end Relay

/-- The URI has an authority part, or another `://`. -/
def HasAuthority (uri : Strng) : Prop := "://".toList <:+: uri.toList

theorem resourceUri_of_authority {target uri : Strng} (h : HasAuthority uri) :
    resourceUri none target uri = target ++ '+'.toString ++ uri := by
  obtain ⟨schemeEnd, hfind⟩ := Option.isSome_iff_exists.1 (find_isSome.2 h)
  simp only [resourceUri, hfind, splitAt_eq]
  show target ++ "+" ++ String.ofList _ ++ String.ofList _ = _
  rw [String.append_assoc, ← String.ofList_append, take_append_drop, String.ofList_toList]
  rfl

theorem resourceUri_of_none {target uri : Strng} (h : ¬ HasAuthority uri) :
    resourceUri none target uri = uri := by
  have hfind := Option.not_isSome_iff_eq_none.1 (find_isSome.not.2 h)
  simp only [resourceUri, hfind]
  rfl

theorem hasAuthority_resourceUri (target uri : Strng) :
    HasAuthority (resourceUri none target uri) ↔ HasAuthority uri := by
  by_cases h : HasAuthority uri
  · rw [resourceUri_of_authority h]
    refine iff_of_true (h.trans ?_) h
    rw [String.toList_append]
    exact (suffix_append _ _).isInfix
  · rw [resourceUri_of_none h]

/-- A merged list tells its entries apart and names their targets just if
no URI without `://` is listed by two targets. -/
theorem mergedUris_identify_iff (relay : Relay U E C) (cel : C)
    (streams : List (Strng × ResourcesResult D))
    (hvalid : ∀ name ∈ streams.map Prod.fst, validateMcpTargetName name = .ok ())
    (hmulti : relay.upstreams.defaultTargetName = none) :
    (relay.mergeResources cel streams).map Resource.uri
        = (relay.origins cel streams).map (fun origin => resourceUri none origin.1 origin.2)
      ∧ (Set.InjOn (fun origin => resourceUri none origin.1 origin.2)
            {origin | origin ∈ relay.origins cel streams}
          ↔ ∀ uri, ¬ HasAuthority uri → ∀ target target',
            (target, uri) ∈ relay.origins cel streams →
            (target', uri) ∈ relay.origins cel streams → target = target') := by
  refine ⟨?_, ?_, ?_⟩
  · simp only [← hmulti, Relay.mergeResources, Relay.origins, map_flatMap, map_map,
      Function.comp_def]
  · intro hinj uri huri target target' hmem hmem'
    have heq : resourceUri none target uri = resourceUri none target' uri := by
      rw [resourceUri_of_none huri, resourceUri_of_none huri]
    exact congrArg Prod.fst (hinj hmem hmem' heq)
  · rintro hone ⟨target, uri⟩ hmem ⟨target', uri'⟩ hmem' heq
    dsimp only at heq
    have hsame := hasAuthority_resourceUri target uri
    rw [heq, hasAuthority_resourceUri] at hsame
    by_cases huri : HasAuthority uri
    · -- both are prefixed, and the first `+` is the one put there
      rw [resourceUri_of_authority huri, resourceUri_of_authority (hsame.2 huri)] at heq
      have hplus : ∀ origin ∈ relay.origins cel streams, '+' ∉ origin.1.toList :=
        fun origin ho => by
          obtain ⟨stream, hstream, hmem⟩ := mem_flatMap.1 ho
          obtain ⟨r, -, rfl⟩ := mem_map.1 hmem
          exact not_mem_of_valid (hvalid _ (mem_map_of_mem hstream)) (by decide)
      have hsplit := splitOnce_append uri (hplus _ hmem)
      rw [heq, splitOnce_append uri' (hplus _ hmem')] at hsplit
      exact (Option.some.inj hsplit).symm
    · rw [resourceUri_of_none huri, resourceUri_of_none (hsame.not.2 huri)] at heq
      subst heq
      rw [hone uri huri target target' hmem hmem']

/-- Two targets that list one URI, and the second one more. -/
def sampleListed (shared : Strng) : List (Strng × ResourcesResult Unit) :=
  [("time", .listResourcesResult [⟨shared, ()⟩]),
    ("svc.ns", .listResourcesResult [⟨shared, ()⟩, ⟨"file://logs", ()⟩])]

theorem mergedUris_identify_sample :
    (Relay.sampleRelay.mergeResources () (sampleListed "http://docs")).map Resource.uri
        = ["time+http://docs", "svc.ns+http://docs", "svc.ns+file://logs"]
      ∧ Set.InjOn (fun origin : Strng × Strng => resourceUri none origin.1 origin.2)
          {origin | origin ∈ Relay.sampleRelay.origins () (sampleListed "http://docs")} := by
  refine ⟨by decide, (mergedUris_identify_iff Relay.sampleRelay ()
    (sampleListed "http://docs") (by decide +kernel) rfl).2.2 ?_⟩
  intro uri huri target target' hmem hmem'
  -- both URIs of the lists have an authority part
  have hall : ∀ origin ∈ Relay.sampleRelay.origins () (sampleListed "http://docs"),
      "://".toList <:+: origin.2.toList := by decide
  exact absurd (hall _ hmem) huri

/-- A URI without `://` that two targets list stands in the merged list
twice, and neither entry names its target. -/
theorem mergedUris_collide : (∀ name ∈ (sampleListed "urn:isbn:123").map Prod.fst,
        validateMcpTargetName name = .ok ())
      ∧ Relay.sampleRelay.origins () (sampleListed "urn:isbn:123")
        = [("time", "urn:isbn:123"), ("svc.ns", "urn:isbn:123"), ("svc.ns", "file://logs")]
      ∧ (Relay.sampleRelay.mergeResources () (sampleListed "urn:isbn:123")).map
          Resource.uri = ["urn:isbn:123", "urn:isbn:123", "svc.ns+file://logs"] := by
  refine ⟨by decide +kernel, by decide, by decide⟩

end AgentGateway.Mcp
