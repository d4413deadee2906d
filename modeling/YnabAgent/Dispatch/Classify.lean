import YnabAgent.Workflow.Balance

/-!
# Inbound classification

The deterministic part of routing an inbound message: the provenance of the webhook, the sender, and
the threads known to the workflows (`dispatch/classify.py`). `Admitted` is the boundary a message
has to pass to be acted on (`admitted_of_acts`).
-/

namespace YnabAgent

/-- What reads a mail header beside the text functions: `email.utils.parseaddr` gives the address of
a `From`, empty where it finds none. -/
structure MailText extends PyText where
  parseaddr : String → String

/-- Bare addresses, on ASCII text. -/
def MailText.ascii : MailText where
  toPyText := PyText.ascii
  parseaddr raw := raw

/-- A normalized inbound email. -/
structure DispatchMessage extends InboundMessage where
  fromAddress : String
  subject : String
  threadId : Option ThreadId := none
  signatureVerified : Bool := false
  isAutoReply : Bool := false
  deriving DecidableEq

namespace Dispatch

/-- The classifier's verdict on a message without a thread. -/
inductive InboundKind
  | receipt | command | noise
  deriving DecidableEq

inductive DispatchDecision
  | quarantine (reason : String)
  | ignore (reason : String)
  | routeToTransaction (txnId : YnabTransactionId)
  | routeToOffer (offerId : String)
  | routeToBalance (balanceId : String)
  | routeToInterpret
  deriving DecidableEq

/-- Local-part prefixes of a bounce or system message. -/
def systemSenders : List String := ["mailer-daemon@", "postmaster@"]

section classify
variable (text : MailText)

/-- The bare, lower-cased address; a `From` without one stands for itself. -/
def senderAddress (raw : String) : String :=
  text.lower (if text.parseaddr raw = "" then raw else text.parseaddr raw)

def isSystemSender (sender : String) : Bool :=
  systemSenders.any fun start => start.toList.isPrefixOf sender.toList

def classify (message : DispatchMessage) (allowlist : List String)
    (txnId : Option YnabTransactionId) (offerId balanceId : Option String) : DispatchDecision :=
  if message.signatureVerified = false then .quarantine "unsigned webhook"
  else
    let sender := senderAddress text message.fromAddress
    if message.isAutoReply || isSystemSender sender then .ignore "autoresponder or bounce"
    else if sender ∉ allowlist then .quarantine "sender not allow-listed"
    else
      match txnId, offerId, balanceId with
      | some txnId, _, _ => .routeToTransaction txnId
      | none, some offerId, _ => .routeToOffer offerId
      | none, none, some balanceId => .routeToBalance balanceId
      | none, none, none => .routeToInterpret

/-- The inbound boundary: the webhook was signed, a person wrote the message, and the sender
may act. -/
structure Admitted (message : DispatchMessage) (allowlist : List String) : Prop where
  signed : message.signatureVerified = true
  personal : message.isAutoReply = false
  notSystem : isSystemSender (senderAddress text message.fromAddress) = false
  allowed : senderAddress text message.fromAddress ∈ allowlist

/-- A decision that acts on the message. -/
def DispatchDecision.acts : DispatchDecision → Bool
  | quarantine _ | ignore _ => false
  | _ => true

variable {text} {message : DispatchMessage} {allowlist : List String}
  {txnId : Option YnabTransactionId} {offerId balanceId : Option String}

/-- Only an admitted message is acted on. -/
theorem admitted_of_acts
    (h : (classify text message allowlist txnId offerId balanceId).acts = true) :
    Admitted text message allowlist := by
  unfold classify at h
  split at h
  · cases h
  · rename_i hsigned
    simp only at h
    split at h
    · cases h
    · rename_i hperson
      split at h
      · cases h
      · rename_i hallowed
        obtain ⟨hauto, hsystem⟩ := Bool.or_eq_false_iff.1 (Bool.eq_false_iff.2 hperson)
        exact ⟨Bool.eq_true_of_not_eq_false hsigned, hauto, hsystem, not_not.1 hallowed⟩

/-- The first thread found, in the order of the lookups, is the one a message goes to. -/
theorem threads_of_classify {decision : DispatchDecision}
    (h : classify text message allowlist txnId offerId balanceId = decision) :
    (∀ id, decision = .routeToTransaction id → txnId = some id) ∧
      (∀ id, decision = .routeToOffer id → txnId = none ∧ offerId = some id) ∧
      (∀ id, decision = .routeToBalance id →
        txnId = none ∧ offerId = none ∧ balanceId = some id) ∧
      (decision = .routeToInterpret → txnId = none ∧ offerId = none ∧ balanceId = none) := by
  rw [← h]
  unfold classify
  split
  · simp
  · simp only
    split
    · simp
    · split
      · simp
      · cases txnId with
        | some txnId => simp
        | none =>
          cases offerId with
          | some offerId => simp
          | none => cases balanceId <;> simp

end classify

end Dispatch

end YnabAgent
