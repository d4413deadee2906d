import YnabAgent.Dispatch.Classify
import YnabAgent.Dispatch.HtmlText

/-!
# The inbound webhook

What the webhook makes of a signed event (`webhook/app.py`): only a `message.received` is acted on,
and its message is read into the dispatcher's form. The check of the signature is a parameter.
-/

namespace YnabAgent

namespace Dispatch

/-- The message fields read from a webhook. -/
structure WireMessage where
  messageId : MessageId
  fromAddress : String
  subject : String := ""
  text : Option String := none
  extractedText : Option String := none
  html : Option String := none
  threadId : Option ThreadId := none
  headers : Option (List (String × String)) := none
  deriving DecidableEq

structure WebhookPayload where
  eventType : String := ""
  message : Option WireMessage := none
  deriving DecidableEq

/-- A request as it arrives. -/
structure WebhookRequest where
  body : String
  headers : List (String × String)
  deriving DecidableEq

def receivedEvent : String := "message.received"

/-! ## Machine-written mail -/

def autoPrecedence : List String := ["bulk", "auto_reply", "junk"]

def autoMarkerHeaders : List String := ["x-autoreply", "x-autorespond", "list-id"]

section inbound
variable (text : MailText) (reader : HtmlReader)

/-- The headers under their lower-cased names; of several under one, the last. -/
def lowered (headers : List (String × String)) (name : String) : Option String :=
  Lib.dict (headers.map fun h => (text.lower h.1, text.lower (text.strip h.2))) name

/-- Whether the headers mark a message as machine-written. -/
def isAutoReply (headers : Option (List (String × String))) : Bool :=
  match headers with
  | none => false
  | some headers =>
    if (lowered text headers "auto-submitted").any (· ≠ "no") then true
    else if (lowered text headers "precedence").any (· ∈ autoPrecedence) then true
    else autoMarkerHeaders.any fun name => (lowered text headers name).isSome

/-- `a or b`. -/
def orElse (first : Option String) (second : String) : String :=
  match first with
  | some s => if s = "" then second else s
  | none => second

def toInbound (message : WireMessage) (verified : Bool) : DispatchMessage where
  messageId := message.messageId
  body :=
    orElse message.extractedText <| orElse message.text <|
      String.ofList (textFromHtml reader (message.html.map String.toList))
  fromAddress := message.fromAddress
  subject := message.subject
  threadId := message.threadId.filter (· ≠ "")
  signatureVerified := verified
  isAutoReply := isAutoReply text message.headers

/-- What a request is answered with when nothing is started for it. -/
inductive WebhookError
  | notConfigured
  | invalidSignature
  deriving DecidableEq

/-- The endpoint up to the start of a dispatch: the message to dispatch, or `none` for an event that
is ignored. `verify` is the check of the signature with the secret, and the parsed payload. -/
def agentmailWebhook (verify : String → WebhookRequest → Option WebhookPayload)
    (secret : Option String) (request : WebhookRequest) :
    Except WebhookError (Option DispatchMessage) :=
  match secret.filter (· ≠ "") with
  | none => .error .notConfigured
  | some secret =>
    match verify secret request with
    | none => .error .invalidSignature
    | some event =>
      if event.eventType ≠ receivedEvent then .ok none
      else .ok (event.message.map fun message => toInbound text reader message true)

variable {text reader} {verify : String → WebhookRequest → Option WebhookPayload}
  {secret : Option String} {request : WebhookRequest}

/-- The message is that of a received event whose signature was good. -/
def Authentic (text : MailText) (reader : HtmlReader)
    (verify : String → WebhookRequest → Option WebhookPayload) (secret : Option String)
    (request : WebhookRequest) (message : DispatchMessage) : Prop :=
  ∃ key wire, secret = some key ∧ key ≠ "" ∧
    verify key request = some { eventType := receivedEvent, message := some wire } ∧
    message = toInbound text reader wire true

/-- **A message is dispatched only** for a received event whose signature was good. -/
theorem authentic_of_webhook {message : DispatchMessage}
    (h : agentmailWebhook text reader verify secret request = .ok (some message)) :
    Authentic text reader verify secret request message := by
  unfold agentmailWebhook at h
  cases hsecret : secret.filter (· ≠ "") with
  | none =>
    rw [hsecret] at h
    cases h
  | some key =>
    obtain ⟨hkey, hne⟩ := Option.filter_eq_some_iff.1 hsecret
    rw [hsecret] at h
    simp only at h
    cases hverify : verify key request with
    | none =>
      rw [hverify] at h
      cases h
    | some event =>
      rw [hverify] at h
      simp only at h
      split at h
      · cases h
      · rename_i htype
        obtain ⟨wire, hwire, rfl⟩ := Option.map_eq_some_iff.1 (Except.ok.inj h)
        refine ⟨key, wire, hkey, by simpa using hne, ?_, rfl⟩
        rw [hverify, ← hwire, ← not_not.1 htype]

end inbound

end Dispatch

end YnabAgent
