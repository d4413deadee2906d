import YnabAgent.Dispatch.Webhook
import YnabAgent.Lib.Basic
import YnabAgent.Lib.Run

/-!
# The inbound dispatcher

The webhook starts one workflow for each message id; a duplicate start is rejected, while one runs
and after (`webhook/app.py`). The workflow asks which thread the message is on, one lookup after the
other, classifies it, and routes it by one activity (`workflow/dispatch_workflow.py`). A lookup may
answer anything; an activity attempt may have its effect without returning, and is then tried again.

`routed_once`: what is routed is an admitted message of an authentic request, and however often
requests and attempts are repeated, a message goes to one destination.
-/

namespace YnabAgent

namespace Dispatch

/-- Where a message is sent. -/
inductive Destination
  | transaction (txnId : YnabTransactionId)
  | offer (offerId : String)
  | balance (balanceId : String)
  | receipt
  | command
  deriving DecidableEq

inductive Lookup
  | thread | offerThread | balanceThread
  deriving DecidableEq

/-- The activity a dispatch is suspended in, or how it ended. -/
inductive DispatchPhase
  | resolving (lookup : Lookup)
  | classifying
  | routing (destination : Destination)
  | quarantining (reason : String)
  | paging
  | done (action detail : String)
  | failed
  deriving DecidableEq

/-- A dispatch workflow, with the answers of its lookups and the destination it decided on. -/
structure DispatchRun where
  message : DispatchMessage
  allowlist : List String
  phase : DispatchPhase := .resolving .thread
  txnId : Option YnabTransactionId := none
  offerId : Option String := none
  balanceId : Option String := none
  destination : Option Destination := none
  deriving DecidableEq

def Destination.action : Destination → String
  | transaction _ => "transaction"
  | offer _ => "offer"
  | balance _ => "balance"
  | receipt => "receipt"
  | command => "command"

namespace DispatchRun

def route (d : DispatchRun) (destination : Destination) : DispatchRun :=
  { d with phase := .routing destination, destination := some destination }

/-- The decision and the activity it leads to. -/
def decide (text : MailText) (d : DispatchRun) : DispatchRun :=
  match classify text d.message d.allowlist d.txnId d.offerId d.balanceId with
  | .routeToTransaction txnId => d.route (.transaction txnId)
  | .routeToOffer offerId => d.route (.offer offerId)
  | .routeToBalance balanceId => d.route (.balance balanceId)
  | .routeToInterpret => { d with phase := .classifying }
  | .quarantine reason => { d with phase := .quarantining reason }
  | .ignore reason => { d with phase := .done "ignore" reason }

/-- A lookup answers; without a thread it answers none. -/
def found (text : MailText) (d : DispatchRun) (answer : Option String) : Option DispatchRun :=
  if d.message.threadId = none ∧ answer ≠ none then none
  else
    match d.phase with
    | .resolving .thread =>
      let d := { d with txnId := answer }
      some (if answer = none then { d with phase := .resolving .offerThread } else d.decide text)
    | .resolving .offerThread =>
      let d := { d with offerId := answer }
      some (if answer = none then { d with phase := .resolving .balanceThread } else d.decide text)
    | .resolving .balanceThread => some ({ d with balanceId := answer }.decide text)
    | _ => none

/-- The classifier answers. -/
def labelled (d : DispatchRun) (kind : InboundKind) : Option DispatchRun :=
  match d.phase, kind with
  | .classifying, .receipt => some (d.route .receipt)
  | .classifying, .command => some (d.route .command)
  | .classifying, .noise => some { d with phase := .done "ignore" "classified as noise" }
  | _, _ => none

/-- The activity under way returns. -/
def returned (d : DispatchRun) : Option DispatchRun :=
  match d.phase with
  | .routing destination => some { d with phase := .done destination.action "" }
  | .quarantining reason => some { d with phase := .done "quarantine" reason }
  | .paging => some { d with phase := .failed }
  | _ => none

/-- The attempts are used up: the operator is paged once, then the workflow fails. -/
def fails (d : DispatchRun) : Option DispatchRun :=
  match d.phase with
  | .done _ _ | .failed => none
  | .paging => some { d with phase := .failed }
  | _ => some { d with phase := .paging }

end DispatchRun

/-! ## The inbox -/

/-- What an attempt of an activity has done with a message. -/
structure Routed where
  message : DispatchMessage
  destination : Destination
  deriving DecidableEq

/-- The dispatches in the order they were started, and what they routed. -/
structure Inbox where
  dispatches : List DispatchRun := []
  log : List Routed := []
  deriving DecidableEq

/-- `post` is a request at the webhook; `attempt` an attempt of the routing activity that does not
return. -/
inductive InboxAct
  | post (request : WebhookRequest)
  | found (n : Nat) (answer : Option String)
  | labelled (n : Nat) (kind : InboundKind)
  | attempt (n : Nat)
  | returned (n : Nat)
  | fails (n : Nat)

/-- What the webhook is configured with. -/
structure WebhookConfig where
  text : MailText
  reader : HtmlReader
  verify : String → WebhookRequest → Option WebhookPayload
  secret : Option String
  allowlist : List String

def WebhookConfig.webhook (config : WebhookConfig) (request : WebhookRequest) :
    Except WebhookError (Option DispatchMessage) :=
  agentmailWebhook config.text config.reader config.verify config.secret request

namespace Inbox

/-- `start_dispatch`: false where the id was dispatched before. -/
def startDispatch (w : Inbox) (message : DispatchMessage) (allowlist : List String) :
    Inbox × Bool :=
  if message.messageId ∈ w.dispatches.map (·.message.messageId) then (w, false)
  else ({ w with dispatches := w.dispatches ++ [{ message, allowlist }] }, true)

/-- The effect of the activity under way. -/
def effects (d : DispatchRun) : List Routed :=
  match d.phase with
  | .routing destination => [⟨d.message, destination⟩]
  | _ => []

def update (w : Inbox) (n : Nat) (f : DispatchRun → Option DispatchRun)
    (log : DispatchRun → List Routed) : Option Inbox :=
  match w.dispatches[n]? with
  | some d =>
    (f d).map fun d' => { dispatches := w.dispatches.set n d', log := w.log ++ log d }
  | none => none

def step (config : WebhookConfig) (w : Inbox) : InboxAct → Option Inbox
  | .post request =>
    match config.webhook request with
    | .ok (some message) => some (w.startDispatch message config.allowlist).1
    | _ => some w
  | .found n answer => w.update n (·.found config.text answer) fun _ => []
  | .labelled n kind => w.update n (·.labelled kind) fun _ => []
  | .attempt n => w.update n some effects
  | .returned n => w.update n DispatchRun.returned effects
  | .fails n => w.update n DispatchRun.fails fun _ => []

end Inbox

/-! ## One dispatch -/

/-- The lookups that lead to a destination: a message is read by the model only when no workflow
owns its thread. -/
def Destination.Fits (d : DispatchRun) : Destination → Prop
  | transaction txnId => d.txnId = some txnId
  | offer offerId => d.txnId = none ∧ d.offerId = some offerId
  | balance balanceId => d.txnId = none ∧ d.offerId = none ∧ d.balanceId = some balanceId
  | receipt | command => d.txnId = none ∧ d.offerId = none ∧ d.balanceId = none

/-- Before the decision. -/
def DispatchPhase.undecided : DispatchPhase → Bool
  | resolving _ | classifying => true
  | _ => false

namespace DispatchRun

variable {text : MailText} {d d' : DispatchRun}

/-- What holds of every dispatch: it routes where it decided to, after the lookups that lead there,
and only an admitted message. -/
structure Wf (text : MailText) (d : DispatchRun) : Prop where
  undecided : d.phase.undecided = true → d.destination = none
  routing : ∀ destination, d.phase = .routing destination → d.destination = some destination
  fits : ∀ destination, d.destination = some destination → destination.Fits d
  admitted : d.destination.isSome = true ∨ d.phase = .classifying →
    Admitted text d.message d.allowlist
  classifying : d.phase = .classifying → Destination.command.Fits d

/-- A dispatch goes on with its message and keeps its destination. -/
structure Next (text : MailText) (d d' : DispatchRun) : Prop where
  message : d'.message = d.message
  allowlist : d'.allowlist = d.allowlist
  destination : ∀ destination, d.destination = some destination → d'.destination = some destination
  wf : d'.Wf text

theorem wf_init (text : MailText) (message : DispatchMessage) (allowlist : List String) :
    Wf text { message, allowlist } where
  undecided _ := rfl
  routing destination h := by cases h
  fits destination h := by cases h
  admitted h := by rcases h with h | h <;> cases h
  classifying h := by cases h

/-- Routing an admitted message where the lookups lead. -/
theorem route_wf {destination : Destination} (hfits : destination.Fits d)
    (hadmitted : Admitted text d.message d.allowlist) : (d.route destination).Wf text where
  undecided h := by cases h
  routing destination' h := by cases h; rfl
  fits destination' h := by
    cases h
    cases destination <;> exact hfits
  admitted _ := hadmitted
  classifying h := by cases h

/-- A dispatch without a destination past the decision. -/
theorem wf_of_over {phase : DispatchPhase} (hdest : d.destination = none)
    (hrouting : ∀ destination, phase ≠ .routing destination)
    (hundecided : phase.undecided = false) : Wf text { d with phase } where
  undecided h := by rw [hundecided] at h; cases h
  routing destination h := absurd h (hrouting destination)
  fits destination h := by rw [hdest] at h; cases h
  admitted h := by
    rcases h with h | h
    · rw [hdest] at h; cases h
    · have hphase : phase = .classifying := h
      rw [hphase] at hundecided
      cases hundecided
  classifying h := by
    have hphase : phase = .classifying := h
    rw [hphase] at hundecided
    cases hundecided

/-- The decision follows the lookups. -/
theorem decide_wf (hdest : d.destination = none) : (d.decide text).Wf text := by
  unfold decide
  cases hdecision : classify text d.message d.allowlist d.txnId d.offerId d.balanceId with
  | quarantine reason => exact wf_of_over hdest (fun _ h => by cases h) rfl
  | ignore reason => exact wf_of_over hdest (fun _ h => by cases h) rfl
  | routeToTransaction txnId =>
    exact route_wf ((threads_of_classify hdecision).1 txnId rfl)
      (admitted_of_acts (by rw [hdecision]; rfl))
  | routeToOffer offerId =>
    exact route_wf ((threads_of_classify hdecision).2.1 offerId rfl)
      (admitted_of_acts (by rw [hdecision]; rfl))
  | routeToBalance balanceId =>
    exact route_wf ((threads_of_classify hdecision).2.2.1 balanceId rfl)
      (admitted_of_acts (by rw [hdecision]; rfl))
  | routeToInterpret =>
    have hadmitted : Admitted text d.message d.allowlist :=
      admitted_of_acts (by rw [hdecision]; rfl)
    exact
      { undecided := fun _ => hdest
        routing := fun destination h => by cases h
        fits := fun destination h => by rw [hdest] at h; cases h
        admitted := fun _ => hadmitted
        classifying := fun _ => (threads_of_classify hdecision).2.2.2 rfl }

theorem decide_message (text : MailText) (d : DispatchRun) :
    (d.decide text).message = d.message ∧ (d.decide text).allowlist = d.allowlist := by
  unfold decide
  split <;> exact ⟨rfl, rfl⟩

/-- A dispatch that still looks up has no destination to keep. -/
theorem next_decide (hdest : d.destination = none) {d₁ : DispatchRun}
    (hmessage : d₁.message = d.message)
    (hallowlist : d₁.allowlist = d.allowlist) (hdest₁ : d₁.destination = none) :
    Next text d (d₁.decide text) where
  message := (decide_message text d₁).1.trans hmessage
  allowlist := (decide_message text d₁).2.trans hallowlist
  destination destination h := by rw [hdest] at h; cases h
  wf := decide_wf hdest₁

/-- A dispatch that asks on has no destination yet. -/
theorem next_ask (hdest : d.destination = none) {lookup : Lookup}
    (hmessage : d'.message = d.message)
    (hallowlist : d'.allowlist = d.allowlist) (hdest' : d'.destination = none)
    (hphase : d'.phase = .resolving lookup) : Next text d d' where
  message := hmessage
  allowlist := hallowlist
  destination destination h := by rw [hdest] at h; cases h
  wf :=
    { undecided := fun _ => hdest'
      routing := fun destination h => by rw [hphase] at h; cases h
      fits := fun destination h => by rw [hdest'] at h; cases h
      admitted := fun h => by
        rcases h with h | h
        · rw [hdest'] at h; cases h
        · rw [hphase] at h; cases h
      classifying := fun h => by rw [hphase] at h; cases h }

theorem next_found (h : d.Wf text) {answer : Option String}
    (hfound : d.found text answer = some d') : Next text d d' := by
  unfold found at hfound
  split at hfound
  · cases hfound
  · split at hfound
    · rename_i hphase
      have hdest : d.destination = none := h.undecided (by rw [hphase]; rfl)
      simp only [Option.some.injEq] at hfound
      rw [← hfound]
      split
      · exact next_ask hdest rfl rfl hdest rfl
      · exact next_decide hdest rfl rfl hdest
    · rename_i hphase
      have hdest : d.destination = none := h.undecided (by rw [hphase]; rfl)
      simp only [Option.some.injEq] at hfound
      rw [← hfound]
      split
      · exact next_ask hdest rfl rfl hdest rfl
      · exact next_decide hdest rfl rfl hdest
    · rename_i hphase
      have hdest : d.destination = none := h.undecided (by rw [hphase]; rfl)
      simp only [Option.some.injEq] at hfound
      rw [← hfound]
      exact next_decide hdest rfl rfl hdest
    · cases hfound

theorem next_labelled (h : d.Wf text) {kind : InboundKind} (hlabel : d.labelled kind = some d') :
    Next text d d' := by
  cases hphase : d.phase with
  | classifying =>
    have hdest : d.destination = none := h.undecided (by rw [hphase]; rfl)
    have hadmitted := h.admitted (.inr hphase)
    have hfits := h.classifying hphase
    have hnone : ∀ destination, d.destination = some destination →
        d'.destination = some destination := fun _ h => by rw [hdest] at h; cases h
    unfold labelled at hlabel
    rw [hphase] at hlabel
    cases kind with
    | receipt =>
      cases hlabel
      exact ⟨rfl, rfl, hnone, route_wf hfits hadmitted⟩
    | command =>
      cases hlabel
      exact ⟨rfl, rfl, hnone, route_wf hfits hadmitted⟩
    | noise =>
      cases hlabel
      exact ⟨rfl, rfl, fun _ h => h, wf_of_over hdest (fun _ h => by cases h) rfl⟩
  | _ =>
    unfold labelled at hlabel
    rw [hphase] at hlabel
    cases hlabel

/-- A dispatch that leaves its activity keeps its destination. -/
theorem next_over (h : d.Wf text) {phase : DispatchPhase}
    (hrouting : ∀ destination, phase ≠ .routing destination)
    (hundecided : phase.undecided = false) : Next text d { d with phase } where
  message := rfl
  allowlist := rfl
  destination _ h := h
  wf :=
    { undecided := fun h => by rw [hundecided] at h; cases h
      routing := fun destination h => absurd h (hrouting destination)
      fits := fun destination hdest => by
        have hfits := h.fits destination hdest
        cases destination <;> exact hfits
      admitted := fun hor => by
        rcases hor with hdest | hphase
        · exact h.admitted (.inl hdest)
        · have hclassifying : phase = .classifying := hphase
          rw [hclassifying] at hundecided
          cases hundecided
      classifying := fun hphase => by
        have hclassifying : phase = .classifying := hphase
        rw [hclassifying] at hundecided
        cases hundecided }

theorem next_returned (h : d.Wf text) (hreturned : d.returned = some d') : Next text d d' := by
  unfold returned at hreturned
  split at hreturned
  · cases hreturned
    exact next_over h (fun _ h => by cases h) rfl
  · cases hreturned
    exact next_over h (fun _ h => by cases h) rfl
  · cases hreturned
    exact next_over h (fun _ h => by cases h) rfl
  · cases hreturned

theorem next_fails (h : d.Wf text) (hfails : d.fails = some d') : Next text d d' := by
  unfold fails at hfails
  split at hfails
  · cases hfails
  · cases hfails
  · cases hfails
    exact next_over h (fun _ h => by cases h) rfl
  · cases hfails
    exact next_over h (fun _ h => by cases h) rfl

end DispatchRun

/-! ## Runs of the inbox -/

/-- The request an act brings. -/
def InboxAct.requests : InboxAct → List WebhookRequest
  | post request => [request]
  | _ => []

namespace Inbox

/-- The invariant: one dispatch a message id, each with a message one of the requests brought, and
the log says what the dispatches decided. -/
structure Sound (config : WebhookConfig) (requests : List WebhookRequest) (w : Inbox) : Prop where
  nodup : (w.dispatches.map (·.message.messageId)).Nodup
  wf : ∀ d ∈ w.dispatches, d.Wf config.text
  allowlist : ∀ d ∈ w.dispatches, d.allowlist = config.allowlist
  authentic : ∀ d ∈ w.dispatches, ∃ request ∈ requests,
    Authentic config.text config.reader config.verify config.secret request d.message
  log : ∀ e ∈ w.log, ∃ d ∈ w.dispatches, d.message = e.message ∧ d.destination = some e.destination

variable {config : WebhookConfig} {requests : List WebhookRequest} {w w' : Inbox}

theorem sound_init (config : WebhookConfig) : Sound config [] {} where
  nodup := List.nodup_nil
  wf _ hd := absurd hd List.not_mem_nil
  allowlist _ hd := absurd hd List.not_mem_nil
  authentic _ hd := absurd hd List.not_mem_nil
  log _ he := absurd he List.not_mem_nil

/-- More requests leave the invariant. -/
theorem Sound.more (h : Sound config requests w) (more : List WebhookRequest) :
    Sound config (requests ++ more) w where
  nodup := h.nodup
  wf := h.wf
  allowlist := h.allowlist
  authentic d hd := by
    obtain ⟨request, hmem, hauthentic⟩ := h.authentic d hd
    exact ⟨request, List.mem_append_left _ hmem, hauthentic⟩
  log := h.log

theorem Sound.startDispatch (h : Sound config requests w) {message : DispatchMessage}
    {request : WebhookRequest} (hmem : request ∈ requests)
    (hauthentic : Authentic config.text config.reader config.verify config.secret request message) :
    Sound config requests (w.startDispatch message config.allowlist).1 := by
  unfold Inbox.startDispatch
  split
  · exact h
  · rename_i hnew
    refine ⟨?_, ?_, ?_, ?_, ?_⟩
    · rw [List.map_append, List.map_singleton]
      exact List.nodup_append.2 ⟨h.nodup, List.nodup_singleton _, fun a ha b hb hab => hnew (by
        rw [← List.mem_singleton.1 hb, ← hab]; exact ha)⟩
    · intro d hd
      rcases List.mem_append.1 hd with hd | hd
      · exact h.wf d hd
      · rw [List.mem_singleton.1 hd]
        exact DispatchRun.wf_init _ _ _
    · intro d hd
      rcases List.mem_append.1 hd with hd | hd
      · exact h.allowlist d hd
      · rw [List.mem_singleton.1 hd]
    · intro d hd
      rcases List.mem_append.1 hd with hd | hd
      · exact h.authentic d hd
      · rw [List.mem_singleton.1 hd]
        exact ⟨request, hmem, hauthentic⟩
    · intro e he
      obtain ⟨d, hd, hmessage⟩ := h.log e he
      exact ⟨d, List.mem_append_left _ hd, hmessage⟩

/-- A dispatch that goes on keeps the invariant, with what its activity has done. -/
theorem Sound.update (h : Sound config requests w) {n : Nat} {f : DispatchRun → Option DispatchRun}
    {log : DispatchRun → List Routed}
    (hnext : ∀ {d d'}, d.Wf config.text → f d = some d' → d.Next config.text d')
    (hlog : ∀ {d}, ∀ e ∈ log d, e.message = d.message ∧ d.phase = .routing e.destination)
    (hupdate : w.update n f log = some w') : Sound config requests w' := by
  unfold Inbox.update at hupdate
  split at hupdate
  · rename_i d hd
    obtain ⟨d', hf, rfl⟩ := Option.map_eq_some_iff.1 hupdate
    have hmem : d ∈ w.dispatches := List.mem_of_getElem? hd
    have hd' := hnext (h.wf d hmem) hf
    have hset : ∀ {x}, x ∈ w.dispatches.set n d' → x = d' ∨ x ∈ w.dispatches := fun hx =>
      (List.mem_or_eq_of_mem_set hx).symm
    have hn : n < w.dispatches.length := (List.getElem?_eq_some_iff.1 hd).1
    have hids : (w.dispatches.set n d').map (·.message.messageId) =
        w.dispatches.map (·.message.messageId) := by
      rw [List.map_set, hd'.message]
      refine List.ext_getElem? fun m => ?_
      by_cases hm : n = m
      · rw [← hm, List.getElem?_set_self (by rw [List.length_map]; exact hn), List.getElem?_map, hd]
        rfl
      · rw [List.getElem?_set_ne hm]
    have hself : d' ∈ w.dispatches.set n d' := List.mem_set hn d'
    refine ⟨?_, ?_, ?_, ?_, ?_⟩
    · rw [hids]
      exact h.nodup
    · intro x hx
      rcases hset hx with rfl | hx
      · exact hd'.wf
      · exact h.wf x hx
    · intro x hx
      rcases hset hx with rfl | hx
      · exact hd'.allowlist.trans (h.allowlist d hmem)
      · exact h.allowlist x hx
    · intro x hx
      rcases hset hx with rfl | hx
      · rw [hd'.message]
        exact h.authentic d hmem
      · exact h.authentic x hx
    · intro e he
      rcases List.mem_append.1 he with he | he
      · -- an entry of the dispatch that went on is still one of it
        obtain ⟨x, hx, hmessage, hdestination⟩ := h.log e he
        by_cases hsame : x = d
        · rw [hsame] at hmessage hdestination
          exact ⟨d', hself, hd'.message.trans hmessage, hd'.destination _ hdestination⟩
        · refine ⟨x, ?_, hmessage, hdestination⟩
          obtain ⟨m, hm⟩ := List.mem_iff_getElem?.1 hx
          have hne : n ≠ m := by
            rintro rfl
            rw [hd] at hm
            exact hsame (Option.some.inj hm).symm
          exact List.mem_iff_getElem?.2 ⟨m, by rw [List.getElem?_set_ne hne]; exact hm⟩
      · obtain ⟨hmessage, hphase⟩ := hlog e he
        have hdestination := (h.wf d hmem).routing _ hphase
        exact ⟨d', hself, hd'.message.trans hmessage.symm, hd'.destination _ hdestination⟩
  · cases hupdate

/-- What the activity under way has done. -/
theorem mem_effects {d : DispatchRun} {e : Routed} (h : e ∈ effects d) :
    e.message = d.message ∧ d.phase = .routing e.destination := by
  unfold effects at h
  split at h
  · rename_i hphase
    rw [List.mem_singleton.1 h]
    exact ⟨rfl, hphase⟩
  · cases h

/-- One step of the inbox keeps the invariant. -/
theorem Sound.step (h : Sound config requests w) {act : InboxAct}
    (hstep : w.step config act = some w') : Sound config (requests ++ act.requests) w' := by
  have hnothing : ∀ d : DispatchRun, ∀ e ∈ ([] : List Routed),
      e.message = d.message ∧ d.phase = .routing e.destination :=
    fun d e he => absurd he List.not_mem_nil
  cases act with
  | post request =>
    have hmore := h.more [request]
    simp only [Inbox.step] at hstep
    split at hstep
    · rename_i message hwebhook
      cases hstep
      exact hmore.startDispatch (List.mem_append_right _ List.mem_cons_self)
        (authentic_of_webhook hwebhook)
    · cases hstep
      exact hmore
  | found n answer =>
    exact (h.more []).update (fun hd hf => DispatchRun.next_found hd hf) (hnothing _) hstep
  | labelled n kind =>
    exact (h.more []).update (fun hd hf => DispatchRun.next_labelled hd hf) (hnothing _) hstep
  | attempt n =>
    refine (h.more []).update (fun hd hf => ?_) (fun e he => mem_effects he) hstep
    cases hf
    exact ⟨rfl, rfl, fun _ h => h, hd⟩
  | returned n =>
    exact (h.more []).update (fun hd hf => DispatchRun.next_returned hd hf)
      (fun e he => mem_effects he) hstep
  | fails n =>
    exact (h.more []).update (fun hd hf => DispatchRun.next_fails hd hf) (hnothing _) hstep

/-- The messages of two entries under one id are the same, and so are their destinations. -/
theorem Sound.eq_of_messageId (h : Sound config requests w) {e e' : Routed} (he : e ∈ w.log)
    (he' : e' ∈ w.log) (hid : e'.message.messageId = e.message.messageId) : e' = e := by
  obtain ⟨d, hd, hmessage, hdestination⟩ := h.log e he
  obtain ⟨d', hd', hmessage', hdestination'⟩ := h.log e' he'
  have hdd : d' = d := Lib.eq_of_key_eq h.nodup hd' hd (by rw [hmessage', hmessage, hid])
  rw [hdd] at hmessage' hdestination'
  obtain ⟨message, destination⟩ := e
  obtain ⟨message', destination'⟩ := e'
  rw [hdestination] at hdestination'
  rw [Routed.mk.injEq]
  exact ⟨hmessage'.symm.trans hmessage, (Option.some.inj hdestination').symm⟩

/-- What was routed stays routed. -/
theorem log_subset {act : InboxAct} (hstep : w.step config act = some w') : w.log ⊆ w'.log := by
  have hupdate : ∀ {n : Nat} {f : DispatchRun → Option DispatchRun}
      {log : DispatchRun → List Routed},
      w.update n f log = some w' → w.log ⊆ w'.log := by
    intro n f log h
    unfold Inbox.update at h
    split at h
    · obtain ⟨d, -, rfl⟩ := Option.map_eq_some_iff.1 h
      exact List.subset_append_left _ _
    · cases h
  cases act with
  | post request =>
    simp only [Inbox.step] at hstep
    split at hstep
    · cases hstep
      unfold Inbox.startDispatch
      split <;> exact List.Subset.refl _
    · cases hstep
      exact List.Subset.refl _
  | _ => exact hupdate hstep

end Inbox

abbrev InboxBeat := Lib.Beat Inbox InboxAct

abbrev InboxRun (config : WebhookConfig) := Lib.Run (Lib.StepOf (Inbox.step config))

/-- The requests a run met. -/
def posted (beats : List InboxBeat) : List WebhookRequest :=
  beats.flatMap fun beat => beat.act.requests

theorem sound_of_run {config : WebhookConfig} {beats : List InboxBeat} {w : Inbox}
    (h : InboxRun config {} beats w) : Inbox.Sound config (posted beats) w := by
  refine h.history (P := fun beats w => Inbox.Sound config (posted beats) w)
    (Inbox.sound_init config) ?_
  intro beats t beat u _ ih hstep
  cases hstep with
  | step hs =>
    unfold posted
    rw [List.flatMap_append, List.flatMap_singleton]
    exact ih.step hs

/-- **A routed message** came in an authentic request and was admitted; the lookups that lead to its
destination were made; and nothing routed under its id, at any time, is another message or goes
elsewhere. -/
theorem routed_once {config : WebhookConfig} {beats : List InboxBeat} {w : Inbox}
    (h : InboxRun config {} beats w) {e : Routed} (he : e ∈ w.log) :
    (∃ request ∈ posted beats,
      Authentic config.text config.reader config.verify config.secret request e.message) ∧
    Admitted config.text e.message config.allowlist ∧
    (∃ d ∈ w.dispatches, d.message = e.message ∧ e.destination.Fits d) ∧
    ∀ e' ∈ w.log, e'.message.messageId = e.message.messageId → e' = e := by
  have hsound := sound_of_run h
  obtain ⟨d, hd, hmessage, hdestination⟩ := hsound.log e he
  have hwf := hsound.wf d hd
  refine ⟨?_, ?_, ⟨d, hd, hmessage, hwf.fits _ hdestination⟩, ?_⟩
  · rw [← hmessage]
    exact hsound.authentic d hd
  · rw [← hmessage, ← hsound.allowlist d hd]
    exact hwf.admitted (.inl (by rw [hdestination]; rfl))
  · exact fun e' he' hid => hsound.eq_of_messageId he he' hid

/-- A household with one address; a request is signed where its body is the secret. -/
def homeWebhook (wire : WireMessage) : WebhookConfig where
  text := MailText.ascii
  reader := HtmlReader.ascii
  verify secret request :=
    if request.body = secret then some { eventType := receivedEvent, message := some wire }
    else none
  secret := some "s"
  allowlist := ["owner@home"]

def costcoWire : WireMessage where
  messageId := "m1"
  fromAddress := "Owner@home"
  text := some "Always file Costco as Groceries"

/-- The instruction arrives twice; its dispatch finds no thread, and the command is tried twice. -/
def costcoCommand : List InboxAct :=
  [.post ⟨"s", []⟩, .post ⟨"s", []⟩, .found 0 none, .found 0 none, .found 0 none,
    .labelled 0 .command, .attempt 0, .returned 0]

theorem command_routed_once :
    ∃ w : Inbox, ∃ e ∈ w.log, w.log = [e, e] ∧ e.destination = .command ∧
      Admitted MailText.ascii e.message ["owner@home"] ∧
      ∀ e' ∈ w.log, e'.message.messageId = e.message.messageId → e' = e := by
  have hexec : ∃ beats w e, Lib.exec (Inbox.step (homeWebhook costcoWire)) {} costcoCommand =
      some (beats, w) ∧ w.log = [e, e] ∧ e.destination = .command :=
    ⟨_, _, _, rfl, rfl, rfl⟩
  obtain ⟨beats, w, e, hexec, hlog, hdestination⟩ := hexec
  have he : e ∈ w.log := by rw [hlog]; exact List.mem_cons_self
  obtain ⟨-, hadmitted, -, honce⟩ := routed_once (Lib.exec_run hexec) he
  exact ⟨w, e, he, hlog, hdestination, hadmitted, honce⟩

end Dispatch

end YnabAgent
