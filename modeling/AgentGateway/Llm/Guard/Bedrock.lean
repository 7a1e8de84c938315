/-
Bedrock guardrails (`llm/policy/bedrock_guardrails.rs`, and where they are
applied in `llm/policy/mod.rs`).

The guardrail is shown the texts of a body and may answer with outputs to put
in their place. Outputs and texts are paired by position (`zip`), so a text
that has no output goes on as it was. If there are enough, they are what the
body has afterwards: for a request by `placed_setMessages`, and for a response
by what its dialect reads back (`Writes`). A translated response shows an empty
text for a block that has none, and drops what is put in its place.

# Left out

The call of the service; what it replies is given.
-/
import AgentGateway.Llm.Guard.Proofs.Seen

namespace AgentGateway.Llm.Guard.Bedrock

open List

variable {R J X : Type} {msgs : List SimpleMessage} {texts : List Strng}
  (r : ApplyGuardrailResponse)

-- ======== replies

/-- `serde_json::Value`. -/
inductive Value
  | string (s : Strng)
  | array (values : List Value)
  | object (members : List (Strng × Value))
  | other

def Value.isBlocked : Value → Bool
  | .string s => s = "BLOCKED"
  | _ => false

mutual

def valueContainsBlocked : Value → Bool
  | .object members => membersBlocked members
  | .array values => valuesBlocked values
  | .string _ | .other => false

def membersBlocked : List (Strng × Value) → Bool
  | [] => false
  | (key, value) :: members =>
    key = "action" && value.isBlocked || valueContainsBlocked value || membersBlocked members

def valuesBlocked : List Value → Bool
  | [] => false
  | value :: values => valueContainsBlocked value || valuesBlocked values

end

inductive GuardrailAction
  | none
  | guardrailIntervened
  deriving DecidableEq

structure ApplyGuardrailResponse where
  action : GuardrailAction
  outputTexts : List Strng
  assessments : List Value

namespace ApplyGuardrailResponse

def hasBlockedAssessment : Bool :=
  r.assessments.any valueContainsBlocked

def isBlocked : Bool :=
  r.action = .guardrailIntervened && r.hasBlockedAssessment

def isAnonymized : Bool :=
  r.action = .guardrailIntervened && !r.hasBlockedAssessment

end ApplyGuardrailResponse

-- ======== bodies

/-- The loop over the messages and the outputs. -/
def mask : List SimpleMessage → List Strng → List SimpleMessage
  | msg :: msgs, text :: texts => { msg with content := text } :: mask msgs texts
  | msgs, _ => msgs

def applyBedrockGuardrailsRequest [RequestType R] (resp : ApplyGuardrailResponse) (req : R) :
    Outcome R :=
  if resp.isBlocked then .rejected
  else if resp.isAnonymized then
    .masked (RequestType.setMessages req (mask (RequestType.getMessages req) resp.outputTexts))
  else .none

def applyBedrockGuardrailsResponse [ResponseType R] (guardrailResp : ApplyGuardrailResponse)
    (resp : R) : Except Strng (Outcome R) :=
  let content := ResponseType.toWebhookChoices resp
  if content.isEmpty then .ok .none
  else if guardrailResp.isBlocked then .ok .rejected
  else if guardrailResp.isAnonymized then do
    let resp ← ResponseType.setWebhookChoices resp (mask content guardrailResp.outputTexts)
    return .masked resp
  else .ok .none

-- ======== masked texts

def contents (msgs : List SimpleMessage) : List Strng := msgs.map (·.content)

/-- There is an output for each text, and it has come in its place. -/
def Replaced (shown outputs shown' : List Strng) : Prop :=
  shown'.length = shown.length ∧ shown' <+: outputs

/-- The request is rejected, or its texts are replaced, and it has no others
where the guardrail looks. -/
def RequestMasked (resp : ApplyGuardrailResponse) (req : AnyRequest J X) : Prop :=
  match applyBedrockGuardrailsRequest resp req with
  | .rejected => True
  | .none => False
  | .masked req' => ∃ msgs, req' = RequestType.setMessages req msgs
    ∧ Replaced (contents (RequestType.getMessages req)) resp.outputTexts (contents msgs)
    ∧ ∀ t, req'.Placed t → t ∈ resp.outputTexts

def ResponseMasked [ResponseType R] (guardrailResp : ApplyGuardrailResponse) (resp : R) : Prop :=
  match applyBedrockGuardrailsResponse guardrailResp resp with
  | .error _ => False
  | .ok .rejected => True
  | .ok .none => ResponseType.toWebhookChoices resp = []
  | .ok (.masked resp') => Replaced (contents (ResponseType.toWebhookChoices resp))
      guardrailResp.outputTexts (contents (ResponseType.toWebhookChoices resp'))

theorem Replaced.length_le {shown : List Strng}
    (h : Replaced (contents msgs) texts shown) : msgs.length ≤ texts.length := by
  simpa [h.1, contents] using h.2.length_le

theorem contents_mask
    (h : msgs.length ≤ texts.length) : contents (mask msgs texts) = texts.take msgs.length := by
  induction msgs generalizing texts with
  | nil => simp [mask, contents]
  | cons msg msgs ih =>
    cases texts with
    | nil => cases h
    | cons text texts => exact congrArg (text :: ·) (ih (Nat.le_of_succ_le_succ h))

theorem length_mask (msgs : List SimpleMessage) (texts : List Strng) :
    (mask msgs texts).length = msgs.length := by
  induction msgs, texts using mask.induct <;> simp_all [mask]

theorem replaced_mask (h : msgs.length ≤ texts.length) :
    Replaced (contents msgs) texts (contents (mask msgs texts)) := by
  rw [contents_mask h]
  exact ⟨by simp [contents, h], take_prefix ..⟩

/-- As many choices as there are can be written, and are read back. -/
def Writes (R : Type) [ResponseType R] : Prop :=
  ∀ (resp : R) (msgs : List SimpleMessage),
    (ResponseType.toWebhookChoices resp).length = msgs.length →
    ∃ resp', ResponseType.setWebhookChoices resp msgs = .ok resp'
      ∧ contents (ResponseType.toWebhookChoices resp') = contents msgs

theorem contents_zipWith {C : Type} {text : C → SimpleMessage} {set : C → SimpleMessage → C}
    (hset : ∀ c msg, (text (set c msg)).content = msg.content) {cs : List C}
    (h : cs.length = msgs.length) : contents ((zipWith set cs msgs).map text) = contents msgs := by
  induction cs generalizing msgs with
  | nil => rw [length_eq_zero_iff.1 h.symm]; rfl
  | cons c cs ih =>
    cases msgs with
    | nil => cases h
    | cons msg msgs => exact congrArg₂ cons (hset c msg) (ih (Nat.succ.inj h))

theorem writes_completions : Writes (Completions.Response J X) := by
  intro resp msgs h
  replace h := (length_map _).symm.trans h
  exact ⟨_, if_neg (not_not.2 h), contents_zipWith (fun _ _ => rfl) h⟩

theorem writes_messages : Writes (Messages.Response J X) := by
  intro resp msgs h
  replace h := (length_map _).symm.trans h
  exact ⟨_, if_neg (not_not.2 h), contents_zipWith (fun _ _ => rfl) h⟩

theorem writes_responses : Writes (Responses.Response J X) := by
  intro ⟨output, other⟩ msgs h
  refine ⟨_, if_neg (not_not.2 h), ?_⟩
  change (output.filterMap Responses.OutputItem.choice?).length = _ at h
  show contents ((Responses.setOutputs output msgs).filterMap _) = _
  induction output, msgs using Responses.setOutputs.induct with
  | case1 content rest output msg msgs ih =>
    exact congrArg (msg.content :: ·) (ih (Nat.succ.inj h))
  | case2 => cases h
  | case3 value output msgs ih => exact ih h
  | case4 msgs => rw [length_eq_zero_iff.1 h.symm]; rfl

theorem not_blocked {resp : ApplyGuardrailResponse} (h : resp.isAnonymized) :
    resp.isBlocked = false := by
  simp_all [ApplyGuardrailResponse.isAnonymized, ApplyGuardrailResponse.isBlocked]

/-- It matters only what is read back once the outputs are written. -/
theorem responseMasked_iff_replaced [ResponseType R] {guardrailResp : ApplyGuardrailResponse}
    (h : guardrailResp.isAnonymized) {resp resp' : R}
    (hset : ResponseType.setWebhookChoices resp
      (mask (ResponseType.toWebhookChoices resp) guardrailResp.outputTexts) = .ok resp')
    (hlength : (ResponseType.toWebhookChoices resp').length
      = (ResponseType.toWebhookChoices resp).length) :
    ResponseMasked guardrailResp resp ↔ Replaced (contents (ResponseType.toWebhookChoices resp))
      guardrailResp.outputTexts (contents (ResponseType.toWebhookChoices resp')) := by
  rw [ResponseMasked, applyBedrockGuardrailsResponse, not_blocked h, h]
  generalize ResponseType.toWebhookChoices resp = shown at *
  cases shown with
  | nil => simp [Replaced, contents, length_eq_zero_iff.1 hlength]
  | cons msg shown => simp [hset]

theorem responseMasked_iff [ResponseType R] (hwrites : Writes R)
    {guardrailResp : ApplyGuardrailResponse} (h : guardrailResp.isAnonymized) (resp : R) :
    ResponseMasked guardrailResp resp
      ↔ (ResponseType.toWebhookChoices resp).length ≤ guardrailResp.outputTexts.length := by
  obtain ⟨resp', hset, hcontents⟩ := hwrites resp _ (length_mask _ guardrailResp.outputTexts).symm
  have hlength : (contents (ResponseType.toWebhookChoices resp')).length
      = (ResponseType.toWebhookChoices resp).length := by
    rw [hcontents, contents, length_map, length_mask]
  rw [responseMasked_iff_replaced h hset ((length_map _).symm.trans hlength), hcontents]
  exact ⟨Replaced.length_le, replaced_mask⟩

open Messages.Typed in
/-- Outputs in the place of blocks without text are dropped. -/
theorem replaced_typed_iff {blocks : List (ContentBlock J)} (h : blocks.length ≤ texts.length) :
    contents ((zipWith ContentBlock.setText blocks (mask (blocks.map fun block =>
        ⟨"assistant", block.text?.getD ""⟩) texts)).map fun block =>
          ⟨"assistant", block.text?.getD ""⟩) <+: texts
      ↔ ∀ p ∈ blocks.zip texts, p.1.text? = none → p.2 = "" := by
  induction blocks generalizing texts with
  | nil => simp [contents]
  | cons block blocks ih =>
    cases texts with
    | nil => cases h
    | cons text texts =>
      rw [zip_cons_cons, forall_mem_cons, ← ih (Nat.le_of_succ_le_succ h)]
      refine cons_prefix_cons.trans (and_congr_left' ?_)
      cases block with
      | text | other => simp [ContentBlock.setText, ContentBlock.text?, eq_comm]

theorem responseMasked_typed_iff {resp : ApplyGuardrailResponse} (h : resp.isAnonymized)
    (r : Messages.Typed.MessagesResponse J X) : ResponseMasked resp r
      ↔ r.content.length ≤ resp.outputTexts.length
        ∧ ∀ p ∈ r.content.zip resp.outputTexts, p.1.text? = none → p.2 = "" := by
  have hlength : r.content.length
      = (mask (ResponseType.toWebhookChoices r) resp.outputTexts).length := by
    simp [ResponseType.toWebhookChoices, length_mask]
  rw [responseMasked_iff_replaced h (if_neg (not_not.2 hlength))
    (by simp [ResponseType.toWebhookChoices, length_mask])]
  constructor
  · intro hreplaced
    have hle : r.content.length ≤ resp.outputTexts.length := by
      simpa [ResponseType.toWebhookChoices] using hreplaced.length_le
    exact ⟨hle, (replaced_typed_iff hle).1 hreplaced.2⟩
  · rintro ⟨hle, hempty⟩
    exact ⟨by simp [contents, ResponseType.toWebhookChoices, length_mask],
      (replaced_typed_iff hle).2 hempty⟩

theorem anonymized_iff {resp : ApplyGuardrailResponse} (h : resp.isAnonymized) :
    (∀ req : AnyRequest J X, RequestMasked resp req
        ↔ (RequestType.getMessages req).length ≤ resp.outputTexts.length)
      ∧ (∀ r : Completions.Response J X, ResponseMasked resp r
        ↔ (ResponseType.toWebhookChoices r).length ≤ resp.outputTexts.length)
      ∧ (∀ r : Messages.Response J X, ResponseMasked resp r
        ↔ (ResponseType.toWebhookChoices r).length ≤ resp.outputTexts.length)
      ∧ (∀ r : Messages.Typed.MessagesResponse J X, ResponseMasked resp r
        ↔ r.content.length ≤ resp.outputTexts.length
          ∧ ∀ p ∈ r.content.zip resp.outputTexts, p.1.text? = none → p.2 = "")
      ∧ ∀ r : Responses.Response J X, ResponseMasked resp r
        ↔ (ResponseType.toWebhookChoices r).length ≤ resp.outputTexts.length := by
  refine ⟨fun req => ?_, responseMasked_iff writes_completions h,
    responseMasked_iff writes_messages h, responseMasked_typed_iff h,
    responseMasked_iff writes_responses h⟩
  rw [RequestMasked, applyBedrockGuardrailsRequest, not_blocked h, h]
  constructor
  · rintro ⟨msgs, -, hreplaced, -⟩
    exact hreplaced.length_le
  · intro hle
    refine ⟨_, rfl, replaced_mask hle, fun t ht => ?_⟩
    obtain ⟨msg, hmsg, rfl⟩ := AnyRequest.placed_setMessages ht
    exact (replaced_mask hle).2.subset (mem_map_of_mem hmsg)

theorem anonymized_iff_sample :
    RequestMasked ⟨.guardrailIntervened, ["the <masked>"], []⟩ toolResult :=
  ((anonymized_iff rfl).1 toolResult).2 (Nat.le_refl 1)

/-- The system prompt is masked, and the message of the user is not. -/
theorem text_unmasked : applyBedrockGuardrailsRequest
    ⟨.guardrailIntervened, ["the <masked>"], []⟩ systemPrompt
      = .masked (.messages ⟨[⟨"user", some (.text "hello"), []⟩],
        some (.array [.text "text" "the <masked>" []]), ()⟩) := by
  decide

end AgentGateway.Llm.Guard.Bedrock
