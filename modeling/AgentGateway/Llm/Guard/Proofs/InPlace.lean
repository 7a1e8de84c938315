/-
What masking leaves of a body.

A body that was masked should be the old one but for texts in which the
guard found something. Two bodies are the same but for their texts if they
are equal once the texts are blanked (`blank`); the texts have to be what the
guard has made of them, and what stands around a text that it left alone has to
be the same altogether (`Kept`).

The texts are written back by building their messages anew, out of a role
and a text. So a body survives exactly if its messages are of the form that
is built (`Plain`). For a list of messages that is `Rebuilds.onlyText_iff`: a
member that equals the one that is built when both are blanked is built from
its own text.

The system prompt of an Anthropic request comes first in the list of texts,
under a role of its own, and is told by that role when the list is written
back: it comes back in one part of text, and messages under that role go into
it (`setMessages_guarded`). In a response the texts are set where they are,
but a text that is not there is set too, unless the response is a translated
one.

The input of a Responses request is written back as items, one for each text,
in one of two forms (`contentFor`): an item that is not a message has no text
and is lost, and a string of input becomes an item.
-/
import AgentGateway.Lib.Except
import AgentGateway.Llm.Guard.Proofs.Masking

namespace AgentGateway.Llm.Guard

open List

variable {P J X : Type} {e : Engine P} {rgx : RegexRules P} {out : Strng → Strng} {R : Type}
  {msgs : List SimpleMessage}

-- ======== guarded texts

def SimpleMessage.guarded (out : Strng → Strng) (msg : SimpleMessage) : SimpleMessage :=
  { msg with content := out msg.content }

theorem guardMessages_eq {msgs' : List SimpleMessage} {changed : Bool}
    (h : guardMessages e rgx msgs = some (msgs', changed)) :
    msgs' = msgs.map (·.guarded (guardedText e rgx)) := by
  induction msgs generalizing msgs' changed with
  | nil =>
    cases h
    rfl
  | cons msg msgs ih =>
    rw [map_cons, SimpleMessage.guarded, guardedText]
    unfold guardMessages at h
    split at h
    · cases h
    all_goals
      rename_i hguard
      obtain ⟨⟨rest, _⟩, hrest, heq⟩ := Option.map_eq_some_iff.1 h
      cases heq
      rw [hguard, ih hrest]

-- ======== bodies

/-- What has to survive in a body. -/
class Body (B : Type) where
  /-- The texts that the guard sees are blanked. -/
  blank : B → B
  /-- The texts are what the guard makes of them. What the same texts stand in is
  the same. -/
  Kept : (Strng → Strng) → B → B → Prop
  /-- It is of the form that the texts are written back in. -/
  Plain : B → Prop

/-- The bodies are the same but for what the guard has made of the texts. -/
structure OnlyText {B : Type} [Body B] (out : Strng → Strng) (b b' : B) : Prop where
  blank : Body.blank b' = Body.blank b
  kept : Body.Kept out b b'

theorem onlyText_iff {B : Type} [Body B] {b b' : B}
    {same : Prop} (hlist : Body.blank b' = Body.blank b → same)
    (hbody : same → Body.blank b' = Body.blank b) :
    OnlyText out b b' ↔ same ∧ Body.Kept out b b' :=
  ⟨fun h => ⟨hlist h.blank, h.kept⟩, fun h => ⟨hbody h.1, h.2⟩⟩

/-- Written back, the texts leave what is plain, and nothing else. -/
def RequestKeeps (R : Type) [RequestType R] [Body R] : Prop :=
  ∀ (out : Strng → Strng) (r : R), OnlyText out r (RequestType.setMessages r
    ((RequestType.getMessages r).map (·.guarded out))) ↔ Body.Plain r

def ResponseKeeps (R : Type) [ResponseType R] [Body R] : Prop :=
  ∀ (out : Strng → Strng) (r r' : R), ResponseType.setWebhookChoices r
    ((ResponseType.toWebhookChoices r).map (·.guarded out)) = .ok r' →
      (OnlyText out r r' ↔ Body.Plain r)

/-- A request that is masked is the same but for the masked text if and only if it
was of the form that the texts are written back in. -/
def RequestMasks (e : Engine P) (rgx : RegexRules P) (R : Type) [RequestType R] [Body R] : Prop :=
  ∀ r r' : R, applyRegex e rgx r = .masked r' →
    (OnlyText (guardedText e rgx) r r' ↔ Body.Plain r)

def ResponseMasks (e : Engine P) (rgx : RegexRules P) (R : Type) [ResponseType R] [Body R] :
    Prop :=
  ∀ r r' : R, applyRegexResponse e rgx r = .ok (.masked r') →
    (OnlyText (guardedText e rgx) r r' ↔ Body.Plain r)

theorem RequestKeeps.masks [RequestType R] [Body R] (hset : RequestKeeps R) :
    RequestMasks e rgx R := by
  intro r r' h
  unfold applyRegex at h
  split at h
  · cases h
  · rename_i hguard
    cases h
    rw [guardMessages_eq hguard]
    exact hset _ r
  · cases h

theorem ResponseKeeps.masks [ResponseType R] [Body R] (hset : ResponseKeeps R) :
    ResponseMasks e rgx R := by
  intro r r' h
  unfold applyRegexResponse at h
  split at h
  · cases h
  · rename_i hguard
    obtain ⟨r₁, hr₁, heq⟩ := Lib.Except.bind_eq_ok.1 h
    cases heq
    rw [guardMessages_eq hguard] at hr₁
    exact hset _ r r' hr₁
  · cases h

-- ======== a list of messages

section list

variable {M : Type}

/-- The text of a message is what the guard makes of it. If that is the same, or
there is none, the message is. -/
def KeptIn (out : Strng → Strng) (text? : M → Option Strng) (m m' : M) : Prop :=
  text? m' = (text? m).map out ∧ ((text? m).map out = text? m → m' = m)

/-- Messages are built anew from their text, and the plain ones are what is
built. -/
structure Rebuilds (out : Strng → Strng) (text? : M → Option Strng) (build : M → M)
    (blank : M → M) (Plain : M → Prop) : Prop where
  plain : ∀ m, blank (build m) = blank m → Plain m
  same : ∀ m, Plain m → blank (build m) = blank m
  kept : ∀ m, Plain m → KeptIn out text? m (build m)

theorem Rebuilds.onlyText_iff {text? : M → Option Strng} {build blank : M → M} {Plain : M → Prop}
    (h : Rebuilds out text? build blank Plain) (ms : List M) :
    (ms.map build).map blank = ms.map blank ∧ Forall₂ (KeptIn out text?) ms (ms.map build)
      ↔ ∀ m ∈ ms, Plain m := by
  rw [map_map, map_inj_left, forall₂_map_right_iff, forall₂_same]
  constructor
  · rintro ⟨hblank, -⟩ m hm
    exact h.plain m (hblank m hm)
  · intro hplain
    exact ⟨fun m hm => h.same m (hplain m hm), fun m hm => h.kept m (hplain m hm)⟩

theorem zipWith_guarded (set : M → SimpleMessage → M) (text : M → SimpleMessage) (ms : List M) :
    zipWith set ms ((ms.map text).map (·.guarded out))
      = ms.map fun m => set m ((text m).guarded out) := by
  rw [map_map, zipWith_map_right, zipWith_self]
  rfl

end list

-- ======== Chat Completions

namespace Completions

def Content.blank : Content J → Content J
  | .text _ => .text ""
  | .array parts => .array (parts.map fun p => { p with text := p.text.map fun _ => "" })

def RequestMessage.blank (m : RequestMessage J) : RequestMessage J :=
  { m with content := m.content.map Content.blank }

/-- Nothing but a role and a string of text. -/
def RequestMessage.Plain (m : RequestMessage J) : Prop :=
  ∃ t, m = ⟨m.role, none, some (.text t), none, none, []⟩

instance : Body (Request J X) where
  blank r := { r with messages := r.messages.map RequestMessage.blank }
  Kept out r r' := Forall₂ (KeptIn out fun m => some m.text) r.messages r'.messages
  Plain r := ∀ m ∈ r.messages, m.Plain

theorem request_rebuilds (out : Strng → Strng) :
    Rebuilds out (fun m : RequestMessage J => some m.text)
      (fun m => convertMessage ⟨m.role, out m.text⟩) RequestMessage.blank RequestMessage.Plain where
  plain := by
    rintro ⟨role, name, content, toolCallId, toolCalls, rest⟩ h
    simp only [RequestMessage.blank, convertMessage, RequestMessage.mk.injEq, Option.map_some] at h
    obtain ⟨-, rfl, hcontent, rfl, rfl, rfl⟩ := h
    cases content with
    | none => cases hcontent
    | some content =>
      cases content with
      | text t => exact ⟨t, rfl⟩
      | array parts => cases hcontent
  same := by
    rintro m ⟨t, hm⟩
    rw [hm]
    rfl
  kept := by
    rintro m ⟨t, hm⟩
    rw [hm]
    exact ⟨rfl, fun heq => congrArg (RequestMessage.mk m.role none · none none [])
      (congrArg (some <| Content.text ·) (Option.some.inj heq))⟩

theorem request_keeps : RequestKeeps (Request J X) := by
  intro out r
  refine Iff.trans ?_ ((request_rebuilds out).onlyText_iff r.messages)
  have hset : RequestType.setMessages r ((RequestType.getMessages r).map (·.guarded out))
      = ⟨r.messages.map fun m => convertMessage ⟨m.role, out m.text⟩, r.other⟩ := by
    simp only [RequestType.setMessages, RequestType.getMessages, map_map]
    rfl
  rw [hset]
  exact onlyText_iff (congrArg Request.messages) (congrArg (Request.mk · r.other))

def Choice.blank (c : Choice J) : Choice J :=
  { c with message := { c.message with content := c.message.content.map fun _ => "" } }

instance : Body (Response J X) where
  blank r := { r with choices := r.choices.map Choice.blank }
  Kept out r r' :=
    Forall₂ (KeptIn out fun c => some (c.message.content.getD "")) r.choices r'.choices
  Plain r := ∀ c ∈ r.choices, c.message.content.isSome

theorem response_rebuilds (out : Strng → Strng) :
    Rebuilds out (fun c : Choice J => some (c.message.content.getD ""))
      (fun c => c.setContent ⟨c.message.role.getD "", out (c.message.content.getD "")⟩)
      Choice.blank (·.message.content.isSome) where
  plain := by
    rintro ⟨⟨content, role, rest⟩, rest'⟩ h
    cases content with
    | none => cases congrArg (·.message.content) h
    | some t => rfl
  same := by
    rintro ⟨⟨content, role, rest⟩, rest'⟩ h
    cases content with
    | none => cases h
    | some t => rfl
  kept := by
    rintro ⟨⟨content, role, rest⟩, rest'⟩ h
    cases content with
    | none => cases h
    | some t =>
      exact ⟨rfl, fun heq => congrArg (fun t => Choice.mk ⟨t, role, rest⟩ rest') heq⟩

theorem response_keeps : ResponseKeeps (Response J X) := by
  intro out r r' hset
  simp only [ResponseType.setWebhookChoices, ResponseType.toWebhookChoices,
    zipWith_guarded] at hset
  split at hset
  · cases hset
  · cases hset
    refine Iff.trans ?_ ((response_rebuilds out).onlyText_iff r.choices)
    exact onlyText_iff (congrArg Response.choices) (congrArg (Response.mk · r.other))

end Completions

-- ======== Anthropic Messages

namespace Messages

def ContentPart.blank : ContentPart J → ContentPart J
  | .text type_ _ rest => .text type_ "" rest
  | .unknown value => .unknown value

def ContentBlock.blank : ContentBlock J → ContentBlock J
  | .text _ => .text ""
  | .array parts => .array (parts.map ContentPart.blank)

def RequestMessage.blank (m : RequestMessage J) : RequestMessage J :=
  { m with content := m.content.map ContentBlock.blank }

/-- Nothing but a string of text, from somebody else than the system. -/
def RequestMessage.Plain (m : RequestMessage J) : Prop :=
  m.role ≠ "system" ∧ ∃ t, m = ⟨m.role, some (.text t), []⟩

/-- No system prompt, or one in one plain part. -/
def PlainSystem (system : Option (ContentBlock J)) : Prop :=
  system = none ∨ ∃ t, t.isEmpty = false ∧ system = some (.array [.text "text" t []])

instance : Body (Request J X) where
  blank r :=
    { r with
      messages := r.messages.map RequestMessage.blank
      system := r.system.map ContentBlock.blank }
  Kept out r r' :=
    (∀ s ∈ r.system, ∃ s' ∈ r'.system, KeptIn out (fun s => some (systemText s)) s s')
    ∧ Forall₂ (KeptIn out fun m => some m.text) r.messages r'.messages
  Plain r := PlainSystem r.system ∧ ∀ m ∈ r.messages, m.Plain

/-- A message that is built looks like one only if that is nothing but a string of
text. -/
theorem text_of_blank {m : RequestMessage J} {msg : SimpleMessage}
    (h : (convertMessage msg).blank = m.blank) : ∃ t, m = ⟨m.role, some (.text t), []⟩ := by
  obtain ⟨role, content, rest⟩ := m
  simp only [RequestMessage.blank, convertMessage, RequestMessage.mk.injEq, Option.map_some] at h
  obtain ⟨-, hcontent, rfl⟩ := h
  cases content with
  | none => cases hcontent
  | some content =>
    cases content with
    | text t => exact ⟨t, rfl⟩
    | array parts => cases hcontent

theorem request_rebuilds (out : Strng → Strng) :
    Rebuilds out (fun m : RequestMessage J => some m.text)
      (fun m => convertMessage ⟨m.role, out m.text⟩) RequestMessage.blank
      fun m => ∃ t, m = ⟨m.role, some (.text t), []⟩ where
  plain _ h := text_of_blank h
  same := by
    rintro m ⟨t, hm⟩
    rw [hm]
    rfl
  kept := by
    rintro m ⟨t, hm⟩
    rw [hm]
    exact ⟨rfl, fun heq => congrArg (RequestMessage.mk m.role · [])
      (congrArg (some <| ContentBlock.text ·) (Option.some.inj heq))⟩

variable {r : Request J X}

theorem partition_of_roles (h : ∀ msg ∈ msgs, msg.role ≠ "system") :
    msgs.partition (·.role = "system") = ([], msgs) := by
  rw [List.partition_eq_filter_filter, List.filter_eq_nil_iff.2, List.filter_eq_self.2]
  · intro msg hmsg
    simpa using h msg hmsg
  · intro msg hmsg
    simpa using h msg hmsg

/-- The system prompt as it is written back. -/
def guardedSystem (out : Strng → Strng) (system : Option (ContentBlock J)) :
    Option (ContentBlock J) :=
  system.bind fun s =>
    if (systemText s).isEmpty then none
    else some (.array [.text "text" (out (systemText s)) []])

/-- What is written back if nobody but the system prompt has the role of the
system. -/
theorem setMessages_guarded (out : Strng → Strng) (hroles : ∀ m ∈ r.messages, m.role ≠ "system") :
    setMessages r ((RequestType.getMessages r).map (·.guarded out))
      = ⟨r.messages.map fun m => convertMessage ⟨m.role, out m.text⟩, guardedSystem out r.system,
        r.other⟩ := by
  have hmessages : ∀ msg ∈ r.messages.map fun m => (⟨m.role, out m.text⟩ : SimpleMessage),
      msg.role ≠ "system" := by
    intro msg hmsg
    obtain ⟨m, hm, rfl⟩ := mem_map.1 hmsg
    exact hroles m hm
  have hmap : (r.messages.map fun m => (⟨m.role, m.text⟩ : SimpleMessage)).map (·.guarded out)
      = r.messages.map fun m => ⟨m.role, out m.text⟩ := map_map
  have hpartition := partition_of_roles hmessages
  rw [partition_eq_filter_filter, Prod.mk.injEq] at hpartition
  simp only [RequestType.getMessages, getMessagesHelper, map_append, hmap]
  cases hsystem : r.system with
  | none => simp [setMessages, partition_eq_filter_filter, hpartition, guardedSystem]
  | some s =>
    by_cases hempty : systemText s = ""
    · simp [setMessages, partition_eq_filter_filter, hpartition, guardedSystem, hempty]
    · simp [setMessages, partition_eq_filter_filter, hpartition, guardedSystem, hempty,
        SimpleMessage.guarded]

/-- A message that is as it was, but for its text, is not from the system: such
ones are taken out. -/
theorem plain_of_blank (h : (setMessages r msgs).messages.map RequestMessage.blank
      = r.messages.map RequestMessage.blank) : ∀ m ∈ r.messages, m.Plain := by
  intro m hm
  have hmem := List.mem_map_of_mem (f := RequestMessage.blank) hm
  rw [← h, setMessages, List.partition_eq_filter_filter] at hmem
  obtain ⟨m', hm', hblank⟩ := List.mem_map.1 hmem
  obtain ⟨msg, hmsg, rfl⟩ := List.mem_map.1 hm'
  rw [List.mem_filter] at hmsg
  refine ⟨?_, text_of_blank hblank⟩
  have hrole : msg.role = m.role := congrArg RequestMessage.role hblank
  rw [← hrole]
  simpa using hmsg.2

theorem joinTexts_singleton (sep t : Strng) : joinTexts sep [t] = t := by
  show ("" : Strng) ++ t = t
  exact String.empty_append

theorem plainSystem_of_blank {system : Option (ContentBlock J)}
    (h : (guardedSystem out system).map ContentBlock.blank = system.map ContentBlock.blank) :
    PlainSystem system := by
  cases system with
  | none => exact .inl rfl
  | some s =>
    simp only [guardedSystem, Option.bind_some] at h
    split at h
    · cases h
    · rename_i hne
      cases s with
      | text _ => cases h
      | array parts =>
        match parts, h with
        | [.text type_ t rest], h =>
          cases h
          exact .inr ⟨t, joinTexts_singleton "\n" t ▸ Bool.eq_false_iff.2 hne, rfl⟩

theorem guardedSystem_of_plain (out : Strng → Strng) {system : Option (ContentBlock J)}
    (h : PlainSystem system) :
    (guardedSystem out system).map ContentBlock.blank = system.map ContentBlock.blank
      ∧ ∀ s ∈ system, ∃ s' ∈ guardedSystem out system,
        KeptIn out (fun s => some (systemText s)) s s' := by
  obtain rfl | ⟨t, ht, rfl⟩ := h
  · exact ⟨rfl, nofun⟩
  · have hts : ∀ t, systemText (.array [.text "text" t []] : ContentBlock J) = t :=
      fun t => joinTexts_singleton "\n" t
    rw [guardedSystem, Option.bind_some, hts, if_neg (Bool.eq_false_iff.1 ht)]
    refine ⟨rfl, ?_⟩
    rintro _ ⟨⟩
    refine ⟨_, rfl, congrArg some ((hts _).trans (congrArg out (hts t).symm)), fun heq => ?_⟩
    have hout : out t = t := by simpa [hts] using heq
    rw [hout]

theorem request_keeps : RequestKeeps (Request J X) := by
  intro out r
  constructor
  · rintro ⟨hblank, -⟩
    have hplain := plain_of_blank (congrArg Request.messages hblank)
    rw [show RequestType.setMessages r _ = _ from
      setMessages_guarded out fun m hm => (hplain m hm).1] at hblank
    exact ⟨plainSystem_of_blank (congrArg Request.system hblank), hplain⟩
  · rintro ⟨hplainSystem, hplain⟩
    obtain ⟨hblank, hkept⟩ := ((request_rebuilds out).onlyText_iff r.messages).2
      fun m hm => (hplain m hm).2
    obtain ⟨hblankSystem, hkeptSystem⟩ := guardedSystem_of_plain out hplainSystem
    rw [show RequestType.setMessages r _ = _ from
      setMessages_guarded out fun m hm => (hplain m hm).1]
    refine ⟨?_, hkeptSystem, hkept⟩
    exact congrArg₂ (Request.mk · · r.other) hblank hblankSystem

def Content.blank (c : Content J) : Content J :=
  { c with text := c.text.map fun _ => "" }

instance : Body (Response J X) where
  blank r := { r with content := r.content.map Content.blank }
  Kept out r r' := Forall₂ (KeptIn out fun c => some (c.text.getD "")) r.content r'.content
  Plain r := ∀ c ∈ r.content, c.text.isSome

theorem response_rebuilds (out : Strng → Strng) :
    Rebuilds out (fun c : Content J => some (c.text.getD ""))
      (fun c => c.setText ⟨"assistant", out (c.text.getD "")⟩) Content.blank (·.text.isSome) where
  plain := by
    rintro ⟨text, rest⟩ h
    cases text with
    | none => cases congrArg Content.text h
    | some t => rfl
  same := by
    rintro ⟨text, rest⟩ h
    cases text with
    | none => cases h
    | some t => rfl
  kept := by
    rintro ⟨text, rest⟩ h
    cases text with
    | none => cases h
    | some t => exact ⟨rfl, fun heq => congrArg (Content.mk · rest) heq⟩

theorem response_keeps : ResponseKeeps (Response J X) := by
  intro out r r' hset
  simp only [ResponseType.setWebhookChoices, ResponseType.toWebhookChoices,
    zipWith_guarded] at hset
  split at hset
  · cases hset
  · cases hset
    refine Iff.trans ?_ ((response_rebuilds out).onlyText_iff r.content)
    exact onlyText_iff (congrArg Response.content) (congrArg (Response.mk · r.other))

namespace Typed

def ContentBlock.blank : ContentBlock J → ContentBlock J
  | .text _ rest => .text "" rest
  | .other value => .other value

instance : Body (MessagesResponse J X) where
  blank r := { r with content := r.content.map ContentBlock.blank }
  Kept out r r' := Forall₂ (KeptIn out (·.text?)) r.content r'.content
  -- the texts are set where they are
  Plain _ := True

theorem response_rebuilds (out : Strng → Strng) :
    Rebuilds out (·.text?)
      (fun b : ContentBlock J => b.setText ⟨"assistant", out (b.text?.getD "")⟩)
      ContentBlock.blank fun _ => True where
  plain _ _ := trivial
  same
    | .text _ _, _ => rfl
    | .other _, _ => rfl
  kept
    | .text _ rest, _ =>
      ⟨rfl, fun heq => congrArg (ContentBlock.text · rest) (Option.some.inj heq)⟩
    | .other _, _ => ⟨rfl, fun _ => rfl⟩

theorem response_keeps : ResponseKeeps (MessagesResponse J X) := by
  intro out r r' hset
  simp only [ResponseType.setWebhookChoices, ResponseType.toWebhookChoices,
    zipWith_guarded] at hset
  split at hset
  · cases hset
  · cases hset
    refine Iff.trans ?_ (((response_rebuilds out).onlyText_iff r.content).trans
      (iff_of_true (fun _ _ => trivial) trivial))
    exact onlyText_iff (congrArg MessagesResponse.content)
      (congrArg (MessagesResponse.mk · r.other))

end Typed

end Messages

-- ======== Responses

namespace Responses

variable (role : Strng) (msg : SimpleMessage) (text : Strng)

def RawPart.blank (p : RawPart J) : RawPart J :=
  match p, p.text? with
  | .object type_ _ rest, some _ => .object type_ (some (.str "")) rest
  | p, _ => p

def RawContent.blank : RawContent J → RawContent J
  | .text _ => .text ""
  | .array parts => .array (parts.map RawPart.blank)
  | .other value => .other value

def RawInputItem.blank (item : RawInputItem J) : RawInputItem J :=
  match item, item.asSimpleMessage with
  | .object role content rest, some _ =>
    .object role (content.map RawContent.blank) rest
  | item, _ => item

/-- It is as it is written back. -/
def RawInputItem.Plain (item : RawInputItem J) : Prop :=
  ∃ msg, item = .fromSimpleMessage msg

/-- The text that the guard sees of an item. -/
def RawInputItem.shown? (item : RawInputItem J) : Option Strng :=
  item.asSimpleMessage.map (·.content)

instance : Body (Request J X) where
  blank r :=
    { r with input := match r.input with
      | .text _ => .text ""
      | .items items => .items (items.map RawInputItem.blank) }
  Kept out r r' := match r.input, r'.input with
    | .text t, .text t' => t' = out t
    | .items items, .items items' => Forall₂ (KeptIn out (·.shown?)) items items'
    | _, _ => False
  Plain r := ∃ items, r.input = .items items ∧ ∀ item ∈ items, item.Plain

/-- The content that a text is written back as. -/
def contentFor (role text : Strng) : RawContent J :=
  if role = "assistant" then .text text
  else .array [.object (some (.str "input_text")) (some (.str text)) []]

/-- The role that is written back. -/
def roleFor (role : Strng) : Strng := if role ∈ roles then role else "user"

theorem roleFor_mem : roleFor role ∈ roles := by
  unfold roleFor
  split
  · assumption
  · decide

theorem roleFor_roleFor : roleFor (roleFor role) = roleFor role :=
  if_pos (roleFor_mem role)

theorem fromSimpleMessage_eq :
    (RawInputItem.fromSimpleMessage msg : RawInputItem J) = .object (some (.str (roleFor msg.role)))
        (some (contentFor (roleFor msg.role) msg.content)) [("type", .str "message")] := by
  unfold RawInputItem.fromSimpleMessage
  by_cases hknown : msg.role ∈ roles
  · simp only [roles, mem_cons, not_mem_nil, or_false] at hknown
    obtain h | h | h | h := hknown <;> rw [h] <;> rfl
  · rw [roleFor, if_neg hknown]
    simp only [roles, mem_cons, not_mem_nil, or_false, not_or] at hknown
    obtain ⟨-, hassistant, hsystem, hdeveloper⟩ := hknown
    rw [if_neg hassistant, if_neg hsystem, if_neg hdeveloper]
    rfl

theorem contentFor_text : (contentFor role text : RawContent J).text? = some text := by
  unfold contentFor
  split
  · rfl
  · exact congrArg some String.intercalate_singleton

theorem asSimpleMessage_fromSimpleMessage :
    (RawInputItem.fromSimpleMessage msg : RawInputItem J).asSimpleMessage
      = some ⟨roleFor msg.role, msg.content⟩ := by
  rw [fromSimpleMessage_eq]
  simp only [RawInputItem.asSimpleMessage, Member.asStr, contentFor_text,
    Option.bind_eq_bind, Option.bind_some, roleFor_mem, if_true]
  rfl

theorem contentFor_blank : (contentFor role text : RawContent J).blank = contentFor role "" := by
  unfold contentFor
  split <;> rfl

theorem text_of_blank {p : RawPart J} {type_ : Option (Member J)}
    (h : p.blank = .object type_ (some (.str "")) []) :
    ∃ t, p = .object type_ (some (.str t)) [] := by
  unfold RawPart.blank at h
  split at h
  · rename_i type_' text rest t ht
    injection h with htype _ hrest
    subst htype hrest
    cases text with
    | none => simp [RawPart.text?] at ht
    | some member =>
      cases member with
      | str t => exact ⟨t, rfl⟩
      | other value => simp [RawPart.text?, Member.asStr] at ht
  · exact ⟨"", h⟩

theorem contentFor_of_blank {role : Strng} {c : RawContent J}
    (h : c.blank = contentFor role "") : ∃ t, c = contentFor role t := by
  by_cases hrole : role = "assistant"
  · simp only [contentFor, if_pos hrole] at h ⊢
    cases c with
    | text t => exact ⟨t, rfl⟩
    | array | other => cases h
  · simp only [contentFor, if_neg hrole] at h ⊢
    cases c with
    | text | other => cases h
    | array parts =>
      obtain ⟨p, rfl, hp⟩ := map_eq_singleton_iff.1 (RawContent.array.inj h)
      obtain ⟨t, rfl⟩ := text_of_blank hp
      exact ⟨t, rfl⟩

theorem blank_fromSimpleMessage : (RawInputItem.fromSimpleMessage msg : RawInputItem J).blank
      = .object (some (.str (roleFor msg.role)))
        (some (contentFor (roleFor msg.role) "")) [("type", .str "message")] := by
  have hsimple := asSimpleMessage_fromSimpleMessage (J := J) msg
  rw [fromSimpleMessage_eq] at hsimple ⊢
  unfold RawInputItem.blank
  rw [hsimple]
  simp only [Option.map_some, contentFor_blank]

theorem plain_of_blank {item : RawInputItem J} {msg : SimpleMessage}
    (h : (RawInputItem.fromSimpleMessage msg).blank = item.blank) : item.Plain := by
  rw [blank_fromSimpleMessage] at h
  unfold RawInputItem.blank at h
  split at h
  · injection h with hrole hcontent hrest
    obtain ⟨c, rfl, hc⟩ := Option.map_eq_some_iff.1 hcontent.symm
    obtain ⟨t, rfl⟩ := contentFor_of_blank hc
    refine ⟨⟨roleFor msg.role, t⟩, ?_⟩
    rw [fromSimpleMessage_eq, roleFor_roleFor, hrole, hrest]
  · refine ⟨⟨roleFor msg.role, ""⟩, ?_⟩
    rw [fromSimpleMessage_eq, roleFor_roleFor]
    exact h.symm

theorem request_rebuilds (out : Strng → Strng) :
    Rebuilds out (fun item : RawInputItem J => item.shown?)
      (fun item => .fromSimpleMessage ((item.asSimpleMessage.getD ⟨"", ""⟩).guarded out))
      RawInputItem.blank RawInputItem.Plain where
  plain _ h := plain_of_blank h
  same := by
    rintro item ⟨msg, rfl⟩
    rw [asSimpleMessage_fromSimpleMessage, blank_fromSimpleMessage, blank_fromSimpleMessage]
    simp only [Option.getD_some, SimpleMessage.guarded, roleFor_roleFor]
  kept := by
    rintro item ⟨msg, rfl⟩
    simp only [KeptIn, RawInputItem.shown?, asSimpleMessage_fromSimpleMessage, Option.getD_some,
      Option.map_some, Option.some_inj]
    refine ⟨rfl, fun heq => ?_⟩
    rw [SimpleMessage.guarded, heq, fromSimpleMessage_eq, fromSimpleMessage_eq, roleFor_roleFor]

theorem filterMap_of_plain {items : List (RawInputItem J)} (h : ∀ item ∈ items, item.Plain) :
    items.filterMap RawInputItem.asSimpleMessage
      = items.map fun item => item.asSimpleMessage.getD ⟨"", ""⟩ := by
  induction items with
  | nil => rfl
  | cons item items ih =>
    obtain ⟨⟨msg, rfl⟩, hitems⟩ := forall_mem_cons.1 h
    rw [filterMap_cons_some (asSimpleMessage_fromSimpleMessage msg),
      map_cons, ih hitems, asSimpleMessage_fromSimpleMessage]
    rfl

theorem request_keeps : RequestKeeps (Request J X) := by
  intro out r
  obtain ⟨input, other⟩ := r
  cases input with
  | text t =>
    -- a string of text is written back as an item
    refine iff_of_false (fun honly => ?_) ?_
    · cases congrArg Request.input honly.blank
    · rintro ⟨items, hitems, -⟩
      cases hitems
  | items items =>
    constructor
    · intro honly
      refine ⟨items, rfl, fun item hitem => ?_⟩
      have hblank := RequestInput.items.inj (congrArg Request.input honly.blank)
      obtain ⟨_, hmem, hitem⟩ := mem_map.1 (hblank ▸ mem_map_of_mem hitem)
      obtain ⟨msg, -, rfl⟩ := mem_map.1 hmem
      exact plain_of_blank hitem
    · rintro ⟨_, ⟨⟩, hplain⟩
      obtain ⟨hblank, hkept⟩ := ((request_rebuilds out).onlyText_iff items).2 hplain
      simp only [RequestType.setMessages, RequestType.getMessages, filterMap_of_plain hplain,
        map_map]
      exact ⟨congrArg (fun items => Request.mk (.items items) other) hblank, hkept⟩

def Content.blank : Content J → Content J
  | .outputText t => .outputText { t with text := "" }
  | .refusal value => .refusal value

def OutputItem.blank : OutputItem J → OutputItem J
  | .message content rest => .message (content.map Content.blank) rest
  | .other value => .other value

/-- A message has one text, and nothing goes with it. -/
def OutputItem.Plain : OutputItem J → Prop
  | .message content _ => ∃ t, content = [.outputText ⟨[], none, t⟩]
  | .other _ => True

def OutputItem.shown? (item : OutputItem J) : Option Strng := item.choice?.map (·.content)

instance : Body (Response J X) where
  blank r := { r with output := r.output.map OutputItem.blank }
  Kept out r r' := Forall₂ (KeptIn out (·.shown?)) r.output r'.output
  Plain r := ∀ item ∈ r.output, item.Plain

/-- An item as it is written back. -/
def OutputItem.rebuilt (out : Strng → Strng) : OutputItem J → OutputItem J
  | .message content rest =>
    .message [.outputText ⟨[], none, out ("\n".intercalate (content.filterMap (·.text?)))⟩] rest
  | .other value => .other value

theorem setOutputs_guarded (output : List (OutputItem J)) :
    setOutputs output ((output.filterMap OutputItem.choice?).map (·.guarded out))
      = output.map (·.rebuilt out) := by
  induction output with
  | nil => rfl
  | cons item output ih =>
    cases item with
    | message content rest => exact congrArg (_ :: ·) ih
    | other value => exact congrArg (_ :: ·) ih

theorem response_rebuilds (out : Strng → Strng) :
    Rebuilds out (fun item : OutputItem J => item.shown?) (·.rebuilt out) OutputItem.blank
      OutputItem.Plain where
  plain := by
    rintro (⟨content, rest⟩ | value) h
    · obtain ⟨c, rfl, hc⟩ := map_eq_singleton_iff.1 (OutputItem.message.inj h).1.symm
      cases c with
      | refusal value => cases hc
      | outputText t =>
        obtain ⟨annotations, logprobs, text⟩ := t
        cases hc
        exact ⟨text, rfl⟩
    · trivial
  same := by
    rintro (⟨content, rest⟩ | value) h
    · obtain ⟨t, rfl⟩ := h
      rfl
    · rfl
  kept := by
    rintro (⟨content, rest⟩ | value) h
    · obtain ⟨t, rfl⟩ := h
      have hshown : ∀ t, (OutputItem.message [.outputText ⟨[], none, t⟩] rest : OutputItem J).shown?
          = some t := fun t => congrArg some (String.intercalate_singleton (s := "\n"))
      have hbuilt : (OutputItem.message [.outputText ⟨[], none, t⟩] rest : OutputItem J).rebuilt out
          = .message [.outputText ⟨[], none, out t⟩] rest := by
        show OutputItem.message [.outputText ⟨[], none, out ("\n".intercalate [t])⟩] rest = _
        rw [String.intercalate_singleton]
      rw [KeptIn, hbuilt, hshown, hshown]
      exact ⟨rfl, fun heq => by rw [Option.some.inj heq]⟩
    · exact ⟨rfl, fun _ => rfl⟩

theorem response_keeps : ResponseKeeps (Response J X) := by
  intro out r r' hset
  simp only [ResponseType.setWebhookChoices] at hset
  split at hset
  · cases hset
  · cases hset
    refine Iff.trans ?_ ((response_rebuilds out).onlyText_iff r.output)
    rw [← setOutputs_guarded]
    exact onlyText_iff (congrArg Response.output) (congrArg (Response.mk · r.other))

end Responses

-- ======== all

/-- A body that is masked is the same but for the masked text if and only if
it was of the form that the texts are written back in; and of a text only what
the rules match is masked. -/
theorem masked_only_text_iff (e : Engine P) (rules : List (RegexRule P)) :
    (e.Sound → ∀ text, MaskedBy e rules text (guardedText e ⟨.mask, rules⟩ text))
      ∧ RequestMasks e ⟨.mask, rules⟩ (Completions.Request J X)
      ∧ RequestMasks e ⟨.mask, rules⟩ (Messages.Request J X)
      ∧ RequestMasks e ⟨.mask, rules⟩ (Responses.Request J X)
      ∧ ResponseMasks e ⟨.mask, rules⟩ (Completions.Response J X)
      ∧ ResponseMasks e ⟨.mask, rules⟩ (Messages.Response J X)
      ∧ ResponseMasks e ⟨.mask, rules⟩ (Messages.Typed.MessagesResponse J X)
      ∧ ResponseMasks e ⟨.mask, rules⟩ (Responses.Response J X) := by
  refine ⟨fun he text => guardedText_masked he rules text, ?_, ?_, ?_, ?_, ?_, ?_, ?_⟩
  · exact Completions.request_keeps.masks
  · exact Messages.request_keeps.masks
  · exact Responses.request_keeps.masks
  · exact Completions.response_keeps.masks
  · exact Messages.response_keeps.masks
  · exact Messages.Typed.response_keeps.masks
  · exact Responses.response_keeps.masks

/-- A conversation of strings of text, where one of them is masked. -/
theorem masked_only_text_iff_sample : ∃ r r' : Completions.Request Strng Unit,
      applyRegex literal ⟨.mask, [.regex "secret"]⟩ r = .masked r'
      ∧ r'.messages = [⟨"system", none, some (.text "Be kind."), none, none, []⟩,
        ⟨"user", none, some (.text "my <masked>"), none, none, []⟩]
      ∧ OnlyText (guardedText literal ⟨.mask, [.regex "secret"]⟩) r r' := by
  refine ⟨⟨[⟨"system", none, some (.text "Be kind."), none, none, []⟩,
    ⟨"user", none, some (.text "my secret"), none, none, []⟩], ()⟩, ⟨_, ()⟩,
    by decide +kernel, rfl, ?_⟩
  refine ((masked_only_text_iff literal [.regex "secret"]).2.1 _ _ (by decide +kernel)).2 ?_
  intro m hm
  simp only [mem_cons, not_mem_nil, or_false] at hm
  obtain rfl | rfl := hm
  · exact ⟨"Be kind.", rfl⟩
  · exact ⟨"my secret", rfl⟩

/-- The result of a tool is masked, and the call of the tool is lost, and
whose result it is. -/
theorem tool_call_lost : ∃ r r' : Completions.Request Strng Unit,
      r.messages = [⟨"assistant", none, none, none, some ["lookup"], []⟩,
        ⟨"tool", none, some (.text "the secret"), some "call_1", none, []⟩]
      ∧ applyRegex literal ⟨.mask, [.regex "secret"]⟩ r = .masked r'
      ∧ r'.messages = [⟨"assistant", none, some (.text ""), none, none, []⟩,
        ⟨"tool", none, some (.text "the <masked>"), none, none, []⟩]
      ∧ ¬ OnlyText (guardedText literal ⟨.mask, [.regex "secret"]⟩) r r' := by
  refine ⟨⟨_, ()⟩, ⟨_, ()⟩, rfl, by decide +kernel, rfl, fun h => ?_⟩
  exact absurd h.blank (by decide)

end AgentGateway.Llm.Guard
