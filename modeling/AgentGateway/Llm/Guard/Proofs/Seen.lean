/-
What the prompt guard sees of a request.

A request gives the guard the texts of its messages. Which places of a body
these are is said for each dialect by `Seen`, in terms of the body itself;
the texts of several parts are seen as one. `getMessages` gives exactly the
texts seen, and what `setMessages` writes is in places of the same kind
(`Placed`). So a guard that rejects does so for a match in any of the places,
and of a body that was masked every place has a text that all rules have gone
over.

# Where it breaks

Not every text is seen: arguments of tool calls are not, in any dialect.
-/
import AgentGateway.Llm.Guard.Proofs.InPlace

namespace AgentGateway.Llm.Guard

open Lib List

variable {P J X : Type} {e : Engine P} {msgs : List SimpleMessage} {t : Strng} {msg : SimpleMessage}

-- ======== dialects

namespace Completions

/-- The texts of a request that the guard sees. A message without text counts
as the empty one. -/
inductive Seen (r : Request J X) : Strng → Prop
  | text {m : RequestMessage J} {t : Strng} (mem : m ∈ r.messages)
      (content : m.content = some (.text t)) : Seen r t
  | parts {m : RequestMessage J} {parts : List (ContentPart J)}
      (mem : m ∈ r.messages) (content : m.content = some (.array parts))
      (some : parts ≠ []) : Seen r (joinTexts " " (parts.filterMap (·.text)))
  | empty {m : RequestMessage J} (mem : m ∈ r.messages)
      (content : m.content = none ∨ m.content = some (.array [])) : Seen r ""

/-- The texts in the places that the guard sees, each part on its own. -/
inductive Placed (r : Request J X) : Strng → Prop
  | text {m : RequestMessage J} {t : Strng} (mem : m ∈ r.messages)
      (content : m.content = some (.text t)) : Placed r t
  | part {m : RequestMessage J} {parts : List (ContentPart J)}
      {p : ContentPart J} {t : Strng} (mem : m ∈ r.messages)
      (content : m.content = some (.array parts)) (part : p ∈ parts)
      (text : p.text = some t) : Placed r t

theorem seen_iff (r : Request J X) (t : Strng) :
    Seen r t ↔ ∃ msg ∈ RequestType.getMessages r, msg.content = t := by
  constructor
  · intro h
    cases h with
    | text mem content => exact ⟨_, mem_map_of_mem mem, by simp [RequestMessage.text, content]⟩
    | parts mem content some =>
      exact ⟨_, mem_map_of_mem mem, by simp [RequestMessage.text, content, some]⟩
    | empty mem content =>
      refine ⟨_, mem_map_of_mem mem, ?_⟩
      obtain content | content := content <;> simp [RequestMessage.text, content]
  · rintro ⟨_, hmsg, rfl⟩
    obtain ⟨m, mem, rfl⟩ := mem_map.1 hmsg
    show Seen r m.text
    rw [RequestMessage.text]
    cases content : m.content with
    | none => exact .empty mem (.inl content)
    | some c =>
      cases c with
      | text t => exact .text mem content
      | array parts =>
        by_cases h : parts = []
        · subst h
          exact .empty mem (.inr content)
        · simpa [h] using Seen.parts mem content h

theorem placed_setMessages {r : Request J X}
    (h : Placed (RequestType.setMessages r msgs) t) : ∃ msg ∈ msgs, msg.content = t := by
  cases h with
  | text mem content =>
    obtain ⟨msg, hmsg, rfl⟩ := mem_map.1 mem
    cases content
    exact ⟨msg, hmsg, rfl⟩
  | part mem content part text =>
    obtain ⟨msg, hmsg, rfl⟩ := mem_map.1 mem
    cases content

end Completions

namespace Messages

/-- The texts of a request that the guard sees. A system prompt without text
is none; a message without text counts as the empty one. -/
inductive Seen (r : Request J X) : Strng → Prop
  | systemText {t : Strng} (system : r.system = some (.text t)) (ne : t ≠ "") : Seen r t
  | systemParts {parts : List (ContentPart J)}
      (system : r.system = some (.array parts))
      (ne : joinTexts "\n" (parts.filterMap (·.text?)) ≠ "") :
      Seen r (joinTexts "\n" (parts.filterMap (·.text?)))
  | text {m : RequestMessage J} {t : Strng} (mem : m ∈ r.messages)
      (content : m.content = some (.text t)) : Seen r t
  | parts {m : RequestMessage J} {parts : List (ContentPart J)}
      (mem : m ∈ r.messages) (content : m.content = some (.array parts))
      (some : parts ≠ []) : Seen r (joinTexts " " (parts.filterMap (·.text?)))
  | empty {m : RequestMessage J} (mem : m ∈ r.messages)
      (content : m.content = none ∨ m.content = some (.array [])) : Seen r ""

/-- The texts in the places that the guard sees, each part on its own. -/
inductive Placed (r : Request J X) : Strng → Prop
  | systemText {t : Strng} (system : r.system = some (.text t)) : Placed r t
  | systemPart {parts : List (ContentPart J)} {p : ContentPart J} {t : Strng}
      (system : r.system = some (.array parts)) (part : p ∈ parts)
      (text : p.text? = some t) : Placed r t
  | text {m : RequestMessage J} {t : Strng} (mem : m ∈ r.messages)
      (content : m.content = some (.text t)) : Placed r t
  | part {m : RequestMessage J} {parts : List (ContentPart J)}
      {p : ContentPart J} {t : Strng} (mem : m ∈ r.messages)
      (content : m.content = some (.array parts)) (part : p ∈ parts)
      (text : p.text? = some t) : Placed r t

theorem seen_text {r : Request J X} {m : RequestMessage J} (mem : m ∈ r.messages) :
    Seen r m.text := by
  rw [RequestMessage.text]
  cases content : m.content with
  | none => exact .empty mem (.inl content)
  | some c =>
    cases c with
    | text t => exact .text mem content
    | array parts =>
      by_cases h : parts = []
      · subst h
        exact .empty mem (.inr content)
      · simpa [h] using Seen.parts mem content h

theorem mem_getMessagesHelper {messages : List (RequestMessage J)}
    {system : Option (ContentBlock J)} : msg ∈ getMessagesHelper messages system
      ↔ (∃ s, system = some s ∧ systemText s ≠ "" ∧ msg = ⟨"system", systemText s⟩)
        ∨ ∃ m ∈ messages, (⟨m.role, m.text⟩ : SimpleMessage) = msg := by
  unfold getMessagesHelper
  cases system with
  | none => simp
  | some s => by_cases h : systemText s = "" <;> simp [h]

theorem seen_iff (r : Request J X) (t : Strng) :
    Seen r t ↔ ∃ msg ∈ RequestType.getMessages r, msg.content = t := by
  simp only [RequestType.getMessages, mem_getMessagesHelper]
  constructor
  · intro h
    cases h with
    | systemText system ne | systemParts system ne =>
      exact ⟨_, .inl ⟨_, system, ne, rfl⟩, rfl⟩
    | text mem content =>
      exact ⟨_, .inr ⟨_, mem, rfl⟩, by simp [RequestMessage.text, content]⟩
    | parts mem content some =>
      exact ⟨_, .inr ⟨_, mem, rfl⟩, by simp [RequestMessage.text, content, some]⟩
    | empty mem content =>
      refine ⟨_, .inr ⟨_, mem, rfl⟩, ?_⟩
      obtain content | content := content <;> simp [RequestMessage.text, content]
  · rintro ⟨_, ⟨s, system, ne, rfl⟩ | ⟨m, mem, rfl⟩, rfl⟩
    · cases s with
      | text t => exact .systemText system ne
      | array parts => exact .systemParts system ne
    · exact seen_text mem

theorem placed_setMessages {r : Request J X}
    (h : Placed (RequestType.setMessages r msgs) t) : ∃ msg ∈ msgs, msg.content = t := by
  simp only [RequestType.setMessages, setMessages, partition_eq_filter_filter] at h
  cases h with
  | systemText system =>
    split at system <;> cases system
  | systemPart system part text =>
    split at system
    · cases system
    · cases system
      obtain ⟨msg, hmsg, rfl⟩ := mem_map.1 part
      cases text
      exact ⟨msg, (mem_filter.1 hmsg).1, rfl⟩
  | text mem content =>
    obtain ⟨msg, hmsg, rfl⟩ := mem_map.1 mem
    cases content
    exact ⟨msg, (mem_filter.1 hmsg).1, rfl⟩
  | part mem content part text =>
    obtain ⟨msg, hmsg, rfl⟩ := mem_map.1 mem
    cases content

end Messages

namespace Responses

/-- The texts of a request that the guard sees: its input if that is a text,
and the items that are messages. -/
inductive Seen (r : Request J X) : Strng → Prop
  | input {t : Strng} (input : r.input = .text t) : Seen r t
  | text {items : List (RawInputItem J)} {role t : Strng} {rest : Rest (Member J)}
      (input : r.input = .items items)
      (mem : .object (some (.str role)) (some (.text t)) rest ∈ items)
      (known : role ∈ roles) : Seen r t
  | parts {items : List (RawInputItem J)} {role : Strng} {parts : List (RawPart J)}
      {rest : Rest (Member J)} (input : r.input = .items items)
      (mem : .object (some (.str role)) (some (.array parts)) rest ∈ items)
      (known : role ∈ roles) :
      Seen r ("\n".intercalate (parts.filterMap (·.text?)))

/-- The texts in the places that the guard sees, each part on its own. -/
inductive Placed (r : Request J X) : Strng → Prop
  | input {t : Strng} (input : r.input = .text t) : Placed r t
  | text {items : List (RawInputItem J)} {role t : Strng} {rest : Rest (Member J)}
      (input : r.input = .items items)
      (mem : .object (some (.str role)) (some (.text t)) rest ∈ items)
      (known : role ∈ roles) : Placed r t
  | part {items : List (RawInputItem J)} {role : Strng} {parts : List (RawPart J)}
      {rest : Rest (Member J)} {p : RawPart J} {t : Strng}
      (input : r.input = .items items)
      (mem : .object (some (.str role)) (some (.array parts)) rest ∈ items)
      (known : role ∈ roles) (part : p ∈ parts) (text : p.text? = some t) :
      Placed r t

theorem asSimpleMessage_eq_some {item : RawInputItem J} : item.asSimpleMessage = some msg
      ↔ ∃ content rest, item = .object (some (.str msg.role)) (some content) rest
        ∧ msg.role ∈ roles ∧ content.text? = some msg.content := by
  constructor
  · intro h
    cases item with
    | other value => cases h
    | object role content rest =>
      obtain ⟨member, rfl, hmember⟩ := Option.bind_eq_some_iff.1 h
      obtain ⟨role, hrole, hguard⟩ := Option.bind_eq_some_iff.1 hmember
      split at hguard
      · rename_i hknown
        obtain ⟨content, rfl, htext⟩ := Option.bind_eq_some_iff.1 hguard
        obtain ⟨t, ht, hmsg⟩ := Option.bind_eq_some_iff.1 htext
        cases hmsg
        cases member with
        | other value => cases hrole
        | str s =>
          cases hrole
          exact ⟨content, rest, rfl, hknown, ht⟩
      · cases hguard
  · rintro ⟨content, rest, rfl, hknown, ht⟩
    simp [RawInputItem.asSimpleMessage, Member.asStr, hknown, ht]

theorem seen_iff (r : Request J X) (t : Strng) :
    Seen r t ↔ ∃ msg ∈ RequestType.getMessages r, msg.content = t := by
  obtain ⟨input, other⟩ := r
  constructor
  · intro h
    cases h with
    | input input =>
      cases input
      exact ⟨⟨"user", t⟩, mem_singleton_self _, rfl⟩
    | text input mem known | parts input mem known =>
      cases input
      exact ⟨⟨_, _⟩, mem_filterMap.2
        ⟨_, mem, asSimpleMessage_eq_some.2 ⟨_, _, rfl, known, rfl⟩⟩, rfl⟩
  · rintro ⟨msg, hmsg, rfl⟩
    cases input with
    | text t =>
      obtain rfl := mem_singleton.1 hmsg
      exact .input rfl
    | items items =>
      obtain ⟨item, hitem, hsimple⟩ := mem_filterMap.1 hmsg
      obtain ⟨content, rest, rfl, known, htext⟩ := asSimpleMessage_eq_some.1 hsimple
      cases content with
      | text t =>
        cases htext
        exact .text rfl hitem known
      | array parts =>
        rw [← Option.some.inj htext]
        exact .parts rfl hitem known
      | other value => cases htext

theorem placed_setMessages {r : Request J X}
    (h : Placed (RequestType.setMessages r msgs) t) : ∃ msg ∈ msgs, msg.content = t := by
  cases h with
  | input input => cases input
  | text input mem known =>
    cases input
    obtain ⟨msg, hmsg, heq⟩ := mem_map.1 mem
    rw [fromSimpleMessage_eq] at heq
    injection heq with _ hcontent _
    have htext := contentFor_text (J := J) (roleFor msg.role) msg.content
    rw [Option.some.inj hcontent] at htext
    exact ⟨msg, hmsg, (Option.some.inj htext).symm⟩
  | part input mem known part text =>
    cases input
    obtain ⟨msg, hmsg, heq⟩ := mem_map.1 mem
    rw [fromSimpleMessage_eq] at heq
    injection heq with _ hcontent _
    unfold contentFor at hcontent
    split at hcontent
    · cases hcontent
    · cases hcontent
      obtain rfl := mem_singleton.1 part
      exact ⟨msg, hmsg, Option.some.inj text⟩

end Responses

-- ======== any body

/-- `dyn RequestType`: a request in one of the dialects. -/
inductive AnyRequest (J X : Type)
  | completions (r : Completions.Request J X)
  | messages (r : Messages.Request J X)
  | responses (r : Responses.Request J X)
  deriving DecidableEq

namespace AnyRequest

instance : RequestType (AnyRequest J X) where
  getMessages
    | .completions r => RequestType.getMessages r
    | .messages r => RequestType.getMessages r
    | .responses r => RequestType.getMessages r
  setMessages
    | .completions r, msgs => .completions (RequestType.setMessages r msgs)
    | .messages r, msgs => .messages (RequestType.setMessages r msgs)
    | .responses r, msgs => .responses (RequestType.setMessages r msgs)

def Seen : AnyRequest J X → Strng → Prop
  | .completions r => Completions.Seen r
  | .messages r => Messages.Seen r
  | .responses r => Responses.Seen r

def Placed : AnyRequest J X → Strng → Prop
  | .completions r => Completions.Placed r
  | .messages r => Messages.Placed r
  | .responses r => Responses.Placed r

theorem seen_iff (r : AnyRequest J X) (t : Strng) :
    r.Seen t ↔ ∃ msg ∈ RequestType.getMessages r, msg.content = t := by
  cases r with
  | completions r => exact Completions.seen_iff r t
  | messages r => exact Messages.seen_iff r t
  | responses r => exact Responses.seen_iff r t

theorem placed_setMessages {r : AnyRequest J X} (h : (RequestType.setMessages r msgs).Placed t) :
    ∃ msg ∈ msgs, msg.content = t := by
  cases r with
  | completions r => exact Completions.placed_setMessages h
  | messages r => exact Messages.placed_setMessages h
  | responses r => exact Responses.placed_setMessages h

end AnyRequest

-- ======== all messages

theorem guardMessages_reject (he : e.Sound) (rules : List (RegexRule P))
    (msgs : List SimpleMessage) : (∃ msg ∈ msgs, Matches e rules msg.content)
      ∧ guardMessages e ⟨.reject, rules⟩ msgs = none ∨ (∀ msg ∈ msgs, ¬ Matches e rules msg.content)
      ∧ guardMessages e ⟨.reject, rules⟩ msgs = some (msgs, false) := by
  induction msgs with
  | nil => exact .inr ⟨nofun, rfl⟩
  | cons msg msgs ih =>
    rw [guardMessages, applyPromptGuardRegex]
    obtain ⟨hmatch, heq⟩ | ⟨hno, heq⟩ := guardLoop_reject he rules msg.content
    · refine .inl ⟨⟨msg, mem_cons_self, hmatch⟩, ?_⟩
      rw [heq]
    · rw [heq]
      obtain ⟨⟨m, hm, hmatch⟩, h⟩ | ⟨hnone, h⟩ := ih
      · exact .inl ⟨⟨m, mem_cons_of_mem _ hm, hmatch⟩, by rw [h]; rfl⟩
      · exact .inr ⟨forall_mem_cons.2 ⟨hno, hnone⟩, by rw [h]; rfl⟩

theorem guardMessages_mask (he : e.Sound) (rules : List (RegexRule P)) (msgs : List SimpleMessage) :
    ∃ msgs' changed, guardMessages e ⟨.mask, rules⟩ msgs = some (msgs', changed)
      ∧ (∀ msg' ∈ msgs', ∃ msg ∈ msgs, MaskedBy e rules msg.content msg'.content)
      ∧ (changed = false → ∀ msg ∈ msgs, ¬ Matches e rules msg.content) := by
  induction msgs with
  | nil => exact ⟨[], false, rfl, by simp⟩
  | cons msg msgs ih =>
    obtain ⟨msgs', changed, hrest, hmasked, hnone⟩ := ih
    have hmasked : ∀ msg' ∈ msgs', ∃ m ∈ msg :: msgs,
        MaskedBy e rules m.content msg'.content := fun msg' hmsg' =>
      (hmasked msg' hmsg').imp fun _ h => ⟨mem_cons_of_mem _ h.1, h.2⟩
    rw [guardMessages, applyPromptGuardRegex, hrest]
    obtain ⟨text', htext, ⟨-, heq⟩ | ⟨-, hno, rfl, heq⟩⟩ :=
      guardLoop_mask he rules msg.content false
    · rw [heq]
      exact ⟨_, _, rfl, forall_mem_cons.2 ⟨⟨msg, mem_cons_self, htext⟩, hmasked⟩, by simp⟩
    · rw [heq]
      exact ⟨_, _, rfl, forall_mem_cons.2 ⟨⟨msg, mem_cons_self, htext⟩, hmasked⟩,
        fun h => forall_mem_cons.2 ⟨hno, hnone h⟩⟩

theorem applyRegex_reject_iff (he : e.Sound) (rules : List (RegexRule P)) (r : AnyRequest J X) :
    applyRegex e ⟨.reject, rules⟩ r = .rejected ↔ ∃ t, r.Seen t ∧ Matches e rules t := by
  rw [applyRegex]
  simp only [AnyRequest.seen_iff]
  obtain ⟨⟨msg, hmsg, hmatch⟩, heq⟩ | ⟨hnone, heq⟩ :=
    guardMessages_reject he rules (RequestType.getMessages r)
  · simp only [heq, true_iff]
    exact ⟨msg.content, ⟨msg, hmsg, rfl⟩, hmatch⟩
  · simp only [heq, reduceCtorEq, false_iff]
    rintro ⟨_, ⟨msg, hmsg, rfl⟩, hmatch⟩
    exact hnone msg hmsg hmatch

/-- What comes of a request that a guard masks. -/
def Masks (e : Engine P) (rules : List (RegexRule P)) (r : AnyRequest J X) : Prop :=
  match applyRegex e ⟨.mask, rules⟩ r with
  | .none => ∀ t, r.Seen t → ¬ Matches e rules t
  | .masked r' => ∀ t', r'.Placed t' → ∃ t, r.Seen t ∧ MaskedBy e rules t t'
  | .rejected => False

theorem applyRegex_masks (he : e.Sound) (rules : List (RegexRule P))
    (r : AnyRequest J X) : Masks e rules r := by
  obtain ⟨msgs', changed, heq, hmasked, hnone⟩ :=
    guardMessages_mask he rules (RequestType.getMessages r)
  rw [Masks, applyRegex, heq]
  cases changed with
  | false =>
    rintro t hseen
    obtain ⟨msg, hmsg, rfl⟩ := (r.seen_iff t).1 hseen
    exact hnone rfl msg hmsg
  | true =>
    rintro t' hplaced
    obtain ⟨msg', hmsg', rfl⟩ := AnyRequest.placed_setMessages hplaced
    obtain ⟨msg, hmsg, h⟩ := hmasked msg' hmsg'
    exact ⟨msg.content, (r.seen_iff _).2 ⟨msg, hmsg, rfl⟩, h⟩

-- ======== catching

/-- A match in any of the places that are seen is caught, and it does not
matter in which. -/
theorem seen_text_caught (he : e.Sound) (rules : List (RegexRule P)) (r : AnyRequest J X) :
    (applyRegex e ⟨.reject, rules⟩ r = .rejected ↔ ∃ t, r.Seen t ∧ Matches e rules t)
      ∧ Masks e rules r ∧ ∀ (r₂ : AnyRequest J X) (t : Strng), r.Seen t → r₂.Seen t →
        Matches e rules t → applyRegex e ⟨.reject, rules⟩ r = .rejected
          ∧ applyRegex e ⟨.reject, rules⟩ r₂ = .rejected := by
  have hreject := applyRegex_reject_iff (J := J) (X := X) he rules
  refine ⟨hreject r, applyRegex_masks he rules r, fun r₂ t ht ht₂ hmatch => ?_⟩
  exact ⟨(hreject r).2 ⟨t, ht, hmatch⟩, (hreject r₂).2 ⟨t, ht₂, hmatch⟩⟩

-- ======== sample

theorem inOrder_occurrences {pattern : List Char} {n p pos skip : Nat}
    {text : List Char} (hn : pos + text.length = n) (hpos : p ≤ pos + skip)
    (hp : p ≤ n) : Lib.InOrder n p (occurrences pattern pos skip text) := by
  induction text generalizing p pos skip with
  | nil => exact hp
  | cons c cs ih =>
    rw [length_cons] at hn
    rw [occurrences]
    split
    · rename_i h
      have hlen := (List.isPrefixOf_iff_prefix.1 h.2).length_le
      rw [length_cons] at hlen
      have hstart : p ≤ pos := by omega
      exact ⟨hstart, Nat.le_add_right _ _, ih (by omega) (by dsimp only; omega)
        (by dsimp only; omega)⟩
    · exact ih (by omega) (by omega) hp

theorem literal_sound : literal.Sound where
  findIter _ _ := inOrder_occurrences (Nat.zero_add _) (Nat.zero_le _) (Nat.zero_le _)
  inText _ _ := nofun
  notInside _ _ := nofun

def systemPrompt : AnyRequest Strng Unit :=
  .messages ⟨[⟨"user", some (.text "hello"), []⟩], some (.text "the secret"), ()⟩

def toolResult : AnyRequest Strng Unit :=
  .completions ⟨[⟨"tool", none, some (.text "the secret"), some "call_1", none, []⟩], ()⟩

theorem seen_text_caught_sample :
    applyRegex literal ⟨.reject, [.regex "secret"]⟩ systemPrompt = .rejected
      ∧ applyRegex literal ⟨.reject, [.regex "secret"]⟩ toolResult = .rejected := by
  obtain ⟨-, -, h⟩ := seen_text_caught literal_sound [.regex "secret"] systemPrompt
  refine h toolResult "the secret" ?_ ?_ ⟨_, mem_singleton_self _, by decide⟩
  · exact Messages.Seen.systemText rfl (by decide)
  · exact Completions.Seen.text (mem_singleton_self _) rfl

/-- The same text is caught in a message and not in the arguments of a tool
call. And a text can match once more after it was masked, together with what
stands there now. -/
theorem tool_call_not_seen : applyRegex literal ⟨.reject, [.regex "secret"]⟩
        (⟨[⟨"assistant", none, some (.text "the secret"), none, none, []⟩], ()⟩ :
          Completions.Request Strng Unit) = .rejected
      ∧ applyRegex literal ⟨.reject, [.regex "secret"]⟩
        (⟨[⟨"assistant", none, none, none, some ["the secret"], []⟩], ()⟩ :
          Completions.Request Strng Unit) = .none ∧ applyRegex literal ⟨.mask, [.regex "a<"]⟩
        (⟨[⟨"user", none, some (.text "aa<"), none, none, []⟩], ()⟩ :
          Completions.Request Strng Unit)
        = .masked ⟨[⟨"user", none, some (.text "a<masked>"), none, none, []⟩], ()⟩
      ∧ literal.findIter "a<" "a<masked>" ≠ [] := by
  decide +kernel

end AgentGateway.Llm.Guard
