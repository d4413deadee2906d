import YnabAgent.Mail.Client
import YnabAgent.Workflow.ReceiptMatches

/-!
# The mail about a receipt

A forward read as a receipt is parked and acknowledged, one that is not gets a note saying so
(`workflow/dispatch_activities.py`); a join asks its question, gives the receipt up or tells of the
fold on the receipt's own thread (`workflow/receipt_activities.py`). Each mail goes out under a
label of its kind and the receipt's id, unless that is on record. An attempt may break off behind
any of its effects, the model may read a forward otherwise the next time, and a ledger that cannot
be queried reads as one that does not know the receipt.

`receipts_answered`: no mail goes out twice, each is on its receipt's thread and rests on what a
join did, and the ledger's status of a receipt is true: of an asked one the question is there,
of an expired one the note, unless the receipt could not be read when the note was due, and a
matched one was delivered.
-/

namespace YnabAgent

/-! ## Labels -/

inductive ReceiptMail
  | unread | ack | ask | noMatch | matched
  deriving DecidableEq

def ReceiptMail.word : ReceiptMail → String
  | unread => "unread"
  | ack => "ack"
  | ask => "ask"
  | noMatch => "nomatch"
  | matched => "matched"

def ReceiptMail.label (mail : ReceiptMail) (receiptId : ReceiptId) : String :=
  "yarcpt-" ++ mail.word ++ "-" ++ receiptId

/-- A label tells the kind and the receipt. -/
theorem ReceiptMail.label_inj {mail mail' : ReceiptMail} {receiptId receiptId' : ReceiptId}
    (h : mail.label receiptId = mail'.label receiptId') :
    mail = mail' ∧ receiptId = receiptId' := by
  have hlist := congrArg String.toList h
  cases mail <;> cases mail' <;> simp [label, word] at hlist ⊢ <;> exact String.toList_inj.1 hlist

/-! ## The world -/

/-- What the model read in a forward. -/
structure ReceiptFacts where
  merchant : Option String := none
  date : Option Date := none
  total : Option Money := none
  lineItems : List ReceiptLineItem := []
  splitNotes : Option String := none

def ReceiptFacts.toReceipt (facts : ReceiptFacts) (messageId : MessageId) (threadId : ThreadId)
    (now : Datetime) : Receipt where
  id := messageId
  parkedAt := now
  merchant := facts.merchant
  date := facts.date
  total := facts.total
  lineItems := facts.lineItems
  splitNotes := facts.splitNotes
  sourceMessageId := some messageId
  sourceThreadId := some threadId

/-- How far an attempt to route a forward came. -/
inductive RouteStage
  | read | parked | acknowledged | joined
  deriving DecidableEq

/-- The joins and the mailbox; a mail of a join keeps the number of the attempt that sent it. -/
structure MailedJoins where
  joins : JoinWorld := {}
  box : Mailbox := []

inductive ReceiptMailAct
  /-- Mail of the owner arrives. -/
  | arrive (messageId : MessageId)
  /-- An attempt to route a forward, with what the model read in it. -/
  | route (messageId : MessageId) (facts : Option ReceiptFacts) (now : Datetime)
      (stage : RouteStage)
  | join (act : MatchAct)
  /-- An attempt of a join's action; `live` is whether the transaction has a running workflow,
  `reached` whether the ledger answered the query for the receipt. -/
  | perform (id : ReceiptId) (live reached took mailed returns : Bool)

/-- The steps of the joins that no route and no action makes. -/
def MatchAct.unmailed : MatchAct → Bool
  | join (.forward _) | join (.act _ _ _) => false
  | _ => true

namespace MailedJoins

def send (w : MailedJoins) (threadId : ThreadId) (mail : ReceiptMail) (receiptId : ReceiptId)
    (number : Nat) : MailedJoins :=
  { w with box := w.box.sendOnThread threadId (mail.label receiptId) number }

def withJoins (w : MailedJoins) (act : MatchAct) : Option MailedJoins :=
  (w.joins.matchStep act).map fun joins => { w with joins }

/-- Park the receipt, acknowledge it, start its first join. -/
def routeReceipt (w : MailedJoins) (receipt : Receipt) (threadId : ThreadId) :
    RouteStage → Option MailedJoins
  | .read => some w
  | .parked => w.withJoins (.join (.forward receipt))
  | .acknowledged =>
    (w.withJoins (.join (.forward receipt))).map fun parked =>
      parked.send threadId .ack receipt.id 0
  | .joined =>
    (w.withJoins (.join (.forward receipt))).bind fun parked =>
      (parked.send threadId .ack receipt.id 0).withJoins (.join (.start receipt))

/-- The mail of an action, where it has one. -/
def mailOf (live : Bool) : JoinAction → Option (ReceiptMail × ReceiptId)
  | .signalTransaction _ receiptId => if live then none else some (.matched, receiptId)
  | .askDisambiguation receiptId _ => some (.ask, receiptId)
  | .askNoMatch receiptId => some (.noMatch, receiptId)
  | .park _ | .doNothing _ => none

/-- The receipt by id, as an activity reads it; a ledger out of reach reads as one that has none. -/
def ledgerGet (w : MailedJoins) (reached : Bool) (receiptId : ReceiptId) : Option Receipt :=
  if reached then w.joins.ledger.get receiptId else none

/-- The mail due with the thread it goes to, which the ledger knows. -/
def due (w : MailedJoins) (live reached : Bool) (action : JoinAction) :
    Option (ThreadId × ReceiptMail × ReceiptId) :=
  (mailOf live action).bind fun mail =>
    ((w.ledgerGet reached mail.2).bind (·.sourceThreadId)).map fun threadId => (threadId, mail)

/-- The activities that raise on a receipt they cannot read; without it the note is not sent. -/
def needsReceipt : JoinAction → Bool
  | .signalTransaction _ _ | .askDisambiguation _ _ => true
  | _ => false

/-- An attempt of the action: a question and a note are the mail, a fold comes before its mail. -/
def perform (w : MailedJoins) (id : ReceiptId) (live reached took mailed returns : Bool) :
    Option MailedJoins :=
  match w.joins.running id with
  | some ⟨number, _, .acting action _⟩ =>
    match w.due live reached action with
    | some (threadId, mail, receiptId) =>
      if (mailed → took) ∧ (returns → mailed) ∧ (took → mail ≠ .matched → mailed) then
        (w.withJoins (.join (.act id took returns))).map fun w' =>
          if mailed then w'.send threadId mail receiptId number else w'
      else none
    | none =>
      if ¬ mailed ∧ (took → needsReceipt action → reached) then
        w.withJoins (.join (.act id took returns))
      else none
  | _ => none

variable (threadOf : MessageId → ThreadId)

def step (w : MailedJoins) : ReceiptMailAct → Option MailedJoins
  | .arrive messageId => some { w with box := w.box ++ [{ threadId := threadOf messageId }] }
  | .route messageId facts now stage =>
    if w.box.hasMessage (threadOf messageId) then
      match facts with
      | none =>
        some (if stage = .read then w else w.send (threadOf messageId) .unread messageId 0)
      | some facts =>
        w.routeReceipt (facts.toReceipt messageId (threadOf messageId) now)
          (threadOf messageId) stage
    else none
  | .join act => if act.unmailed then w.withJoins act else none
  | .perform id live reached took mailed returns => w.perform id live reached took mailed returns

end MailedJoins

abbrev ReceiptMailBeat := Lib.Beat MailedJoins ReceiptMailAct

abbrev ReceiptMailRun (threadOf : MessageId → ThreadId) :=
  Lib.Run (Lib.StepOf (MailedJoins.step threadOf))

/-! ## What the mail rests on -/

/-- The box holds a message under the label on the thread. -/
def Mailbox.Holds (box : Mailbox) (threadId : ThreadId) (label : String) : Prop :=
  ∃ message ∈ box, message.threadId = threadId ∧ ∃ number, message.stamp = some (label, number)

/-- The join of that number did what the mail tells. -/
def Caused (log : List JoinEvent) (receiptId : ReceiptId) (number : Nat) : ReceiptMail → Prop
  | .unread | .ack => True
  | .ask => ∃ candidates, .acted number (.askDisambiguation receiptId candidates) ∈ log
  | .noMatch => .acted number (.askNoMatch receiptId) ∈ log
  | .matched => ∃ txnId, .acted number (.signalTransaction txnId receiptId) ∈ log

/-- No label is on record twice, and each message under one is a receipt's, on its thread. -/
structure Mailed (threadOf : MessageId → ThreadId) (box : Mailbox) (log : List JoinEvent) :
    Prop where
  labels : (box.sent.map Prod.fst).Nodup
  stamps : ∀ message ∈ box, ∀ label number, message.stamp = some (label, number) →
    ∃ mail receiptId, label = ReceiptMail.label mail receiptId ∧
      message.threadId = threadOf receiptId ∧ Caused log receiptId number mail

section box
variable {threadOf : MessageId → ThreadId} {box box' : Mailbox} {log log' : List JoinEvent}
  {mail : ReceiptMail} {receiptId : ReceiptId} {threadId : ThreadId} {label : String} {number : Nat}

theorem Mailbox.Holds.mono (h : box.Holds threadId label) (hbox : box ⊆ box') :
    Mailbox.Holds box' threadId label := by
  obtain ⟨message, hmem, hmessage⟩ := h
  exact ⟨message, hbox hmem, hmessage⟩

theorem Mailbox.hasMessage_mono (h : box.hasMessage threadId = true) (hbox : box ⊆ box') :
    Mailbox.hasMessage box' threadId = true := by
  obtain ⟨message, hmem, hthread⟩ := List.any_eq_true.1 h
  exact List.any_eq_true.2 ⟨message, hbox hmem, hthread⟩

theorem Mailbox.subset_sendOnThread (box : Mailbox) (threadId : ThreadId) (label : String)
    (number : Nat) : box ⊆ box.sendOnThread threadId label number := by
  unfold sendOnThread
  split
  · exact List.Subset.refl box
  · split
    · exact List.subset_append_left _ _
    · exact List.Subset.refl box

theorem Caused.mono (h : Caused log receiptId number mail) (hlog : log ⊆ log') :
    Caused log' receiptId number mail := by
  cases mail with
  | unread => trivial
  | ack => trivial
  | ask =>
    obtain ⟨candidates, hmem⟩ := h
    exact ⟨candidates, hlog hmem⟩
  | noMatch => exact hlog h
  | matched =>
    obtain ⟨txnId, hmem⟩ := h
    exact ⟨txnId, hlog hmem⟩

theorem Mailed.mono (h : Mailed threadOf box log) (hlog : log ⊆ log') :
    Mailed threadOf box log' where
  labels := h.labels
  stamps message hmem label number hstamp := by
    obtain ⟨mail, receiptId, hlabel, hthread, hcaused⟩ := h.stamps message hmem label number hstamp
    exact ⟨mail, receiptId, hlabel, hthread, hcaused.mono hlog⟩

/-- Mail of the owner has no label. -/
theorem Mailed.arrive (h : Mailed threadOf box log) (threadId : ThreadId) :
    Mailed threadOf (box ++ [{ threadId := threadId }]) log where
  labels := by
    have hsent : Mailbox.sent (box ++ [{ threadId := threadId }]) = box.sent := by
      simp [Mailbox.sent]
    rw [hsent]
    exact h.labels
  stamps message hmem label number hstamp := by
    rcases List.mem_append.1 hmem with hmem | hmem
    · exact h.stamps message hmem label number hstamp
    · rw [List.mem_singleton.1 hmem] at hstamp
      cases hstamp

/-- A receipt's mail keeps the box in order. -/
theorem Mailed.send (h : Mailed threadOf box log) (hcaused : Caused log receiptId number mail) :
    Mailed threadOf (box.sendOnThread (threadOf receiptId) (mail.label receiptId) number) log := by
  unfold Mailbox.sendOnThread
  split
  · exact h
  · rename_i hnone
    split
    · refine ⟨?_, ?_⟩
      · have hfresh := Mailbox.findThread_eq_none hnone
        rw [Mailbox.sent_snoc, List.map_append, List.nodup_append]
        refine ⟨h.labels, List.nodup_singleton _, ?_⟩
        intro a ha b hb heq
        obtain ⟨e, he, rfl⟩ := List.mem_map.1 ha
        exact hfresh ⟨e, he, heq.trans (List.mem_singleton.1 hb)⟩
      · intro message hmem label' number' hstamp
        rcases List.mem_append.1 hmem with hmem | hmem
        · exact h.stamps message hmem label' number' hstamp
        · rw [List.mem_singleton.1 hmem] at hstamp ⊢
          cases hstamp
          exact ⟨mail, receiptId, rfl, rfl, hcaused⟩
    · exact h

/-- A receipt's mail is on its thread behind the send, sent now or before. -/
theorem Mailed.holds_send (h : Mailed threadOf box log) (mail : ReceiptMail) (number : Nat)
    (hthread : box.hasMessage (threadOf receiptId) = true) :
    (box.sendOnThread (threadOf receiptId) (mail.label receiptId) number).Holds (threadOf receiptId)
      (mail.label receiptId) := by
  unfold Mailbox.sendOnThread
  split
  · rename_i found hfound
    obtain ⟨-, e, he, hlabel⟩ := Mailbox.findThread_eq_some hfound
    obtain ⟨message, hmem, hstamp⟩ := Mailbox.mem_sent.1 he
    have hstamp' : message.stamp = some (mail.label receiptId, e.2) := by rw [hstamp, ← hlabel]
    obtain ⟨mail', receiptId', heq, hon, -⟩ := h.stamps message hmem _ _ hstamp'
    obtain ⟨-, rfl⟩ := ReceiptMail.label_inj heq
    exact ⟨message, hmem, hon, e.2, hstamp'⟩
  · rw [if_pos hthread]
    exact ⟨_, List.mem_append_right _ List.mem_cons_self, rfl, number, rfl⟩

end box

/-! ## What a status says -/

/-- Every status written, on its way or about to be sent has `A`. -/
structure JoinWorld.Truthful (A : ReceiptId → ReceiptStatus → Prop) (w : JoinWorld) : Prop where
  running : ∀ id attempt action sent status, w.running id = some attempt →
    attempt.phase = .saving action sent → resultingStatus action = some status → A id status
  inFlight : ∀ id status, .setStatus id status ∈ w.inFlight → A id status
  ledger : ∀ receipt ∈ w.ledger.receipts, A receipt.id receipt.status

namespace JoinWorld

variable {A A' : ReceiptId → ReceiptStatus → Prop} {w w' : JoinWorld}

theorem Truthful.mono (h : w.Truthful A) (hA : ∀ id status, A id status → A' id status) :
    w.Truthful A' where
  running id attempt action sent status hrun hphase hstatus :=
    hA _ _ (h.running id attempt action sent status hrun hphase hstatus)
  inFlight id status hmem := hA _ _ (h.inFlight id status hmem)
  ledger receipt hmem := hA _ _ (h.ledger receipt hmem)

/-- The running join of an id is replaced by one that saves what has `A`, or saves nothing. -/
theorem Truthful.setRunning (h : w.Truthful A) {id : ReceiptId} {attempt : Option JoinAttempt}
    (hattempt : ∀ a action sent status, attempt = some a → a.phase = .saving action sent →
      resultingStatus action = some status → A id status) :
    (w.setRunning id attempt).Truthful A where
  running id' a action sent status ha hphase hstatus := by
    by_cases hid : id' = id
    · subst hid
      rw [setRunning_running_self] at ha
      exact hattempt a action sent status ha hphase hstatus
    · rw [setRunning_running_of_ne hid] at ha
      exact h.running id' a action sent status ha hphase hstatus
  inFlight := h.inFlight
  ledger := h.ledger

theorem Truthful.setNone (h : w.Truthful A) (id : ReceiptId) : (w.setRunning id none).Truthful A :=
  h.setRunning fun _ _ _ _ ha => by cases ha

/-- A step keeps it, where the activity of an action that returns brings what its status says. -/
theorem Truthful.turn (h : w.Truthful A) (hw : w.Wf) (hparked : ∀ id, A id .parked) {act : JoinAct}
    (hturn : Turn w act w')
    (hact : ∀ id took number receipt action before status, act = .act id took true →
      w.running id = some ⟨number, receipt, .acting action before⟩ →
      resultingStatus action = some status → A id status) : w'.Truthful A := by
  cases hturn with
  | forward receipt hstatus =>
    refine ⟨h.running, fun id status hmem => ?_, h.ledger⟩
    rcases List.mem_append.1 hmem with hmem | hmem
    · exact h.inFlight id status hmem
    · cases List.mem_singleton.1 hmem
  | query => exact ⟨h.running, h.inFlight, h.ledger⟩
  | land signal hmem =>
    refine ⟨h.running, fun id status hin => h.inFlight id status (List.mem_of_mem_erase hin), ?_⟩
    intro receipt hr
    cases signal with
    | park parked =>
      simp only [ReceiptLedgerState.fold, ReceiptLedgerState.park] at hr
      split at hr
      · exact h.ledger receipt hr
      · rcases List.mem_append.1 ((ReceiptLedgerState.bounded_sublist _).subset hr) with hr | hr
        · exact h.ledger receipt hr
        · rw [List.mem_singleton.1 hr, hw.parked parked hmem]
          exact hparked _
    | setStatus receiptId status =>
      simp only [ReceiptLedgerState.fold, ReceiptLedgerState.setStatus] at hr
      rcases Lib.mem_updateAt.1 hr with ⟨hr, -⟩ | ⟨r, hr, hid, rfl⟩
      · exact h.ledger receipt hr
      · show A r.id status
        rw [hid]
        exact h.inFlight receiptId status hmem
  | start receipt =>
    unfold startJoin
    split
    · exact h
    · have hset : (w.setRunning receipt.id (some { number := w.started, receipt })).Truthful A := by
        refine h.setRunning fun a action sent status ha hphase => ?_
        cases ha
        cases hphase
      exact ⟨hset.running, hset.inFlight, hset.ledger⟩
  | leave outcome now hrun => exact h.setNone _
  | plan outcome now hrun hstatus =>
    refine h.setRunning fun a action sent status ha hphase => ?_
    cases ha
    cases hphase
  | @act id number receipt action before took returns hrun htake hreturns =>
    have hset : (w.setRunning id
        (some ⟨number, receipt, .afterAct action before took returns⟩)).Truthful A := by
      refine h.setRunning fun a action' sent status ha hphase hstatus => ?_
      cases ha
      cases returns with
      | false => cases hphase
      | true =>
        cases hphase
        exact hact id took number receipt action before status rfl hrun hstatus
    exact ⟨hset.running, hset.inFlight, hset.ledger⟩
  | @save id number receipt action status before sent returns hrun hstatus hreturns =>
    have hsaved : A id status := h.running id _ action before status hrun rfl hstatus
    have hset : (w.setRunning id (if returns then none
        else some ⟨number, receipt, .saving action (before || sent)⟩)).Truthful A := by
      refine h.setRunning fun a action' sent' status' ha hphase hstatus' => ?_
      cases returns with
      | true => cases ha
      | false =>
        cases ha
        cases hphase
        rw [hstatus] at hstatus'
        cases hstatus'
        exact hsaved
    refine ⟨hset.running, fun id' status' hmem => ?_, hset.ledger⟩
    rcases List.mem_append.1 hmem with hmem | hmem
    · exact h.inFlight id' status' hmem
    · cases sent with
      | false => cases hmem
      | true =>
        cases List.mem_singleton.1 hmem
        have hown : receipt.id = id := hw.own id _ hrun
        rw [hown]
        exact hsaved
  | fail hrun => exact h.setNone _

theorem Turn.log_subset {act : JoinAct} (h : Turn w act w') : w.log ⊆ w'.log := by
  cases h with
  | land signal hmem => exact List.subset_append_left _ _
  | act took returns hrun htake hreturns => exact List.subset_append_left _ _
  | start receipt =>
    unfold startJoin
    split <;> exact List.Subset.refl _
  | _ => exact List.Subset.refl _

/-- An attempt of an action that takes effect is logged. -/
theorem step_act {id : ReceiptId} {took returns : Bool} {number : Nat} {receipt : Receipt}
    {action : JoinAction} {before : Bool} (hstep : w.step (.act id took returns) = some w')
    (hrun : w.running id = some ⟨number, receipt, .acting action before⟩) :
    (took = true → canTake w.ledger action = true ∧ .acted number action ∈ w'.log) ∧
      (returns = true → took = true) := by
  simp only [step, hrun] at hstep
  split at hstep
  · rename_i hguard
    cases hstep
    refine ⟨fun htook => ⟨hguard.1 htook, ?_⟩, hguard.2⟩
    rw [htook]
    exact List.mem_append_right _ List.mem_cons_self
  · cases hstep

theorem matchStep_step {act : MatchAct} (h : w.matchStep act = some w') :
    ∃ joinAct, act.joinAct w = some joinAct ∧ w.step joinAct = some w' :=
  Option.bind_eq_some_iff.1 h

theorem wf_of_matchRun {beats : List MatchBeat} (h : MatchRun {} beats w) : w.Wf := by
  refine h.history (P := fun _ w => w.Wf) Wf.init ?_
  intro beats t beat u _ ih hstep
  cases hstep with
  | step hs =>
    obtain ⟨act, -, hact⟩ := matchStep_step hs
    exact ih.step hact

end JoinWorld

/-! ## Every run -/

/-- The attempt that gave the receipt up returned without its note: the ledger did not have the
receipt, or was out of reach. -/
def Untold (beats : List ReceiptMailBeat) (receiptId : ReceiptId) : Prop :=
  ∃ beat ∈ beats, ∃ number copy before live reached,
    beat.pre.joins.running receiptId = some ⟨number, copy, .acting (.askNoMatch receiptId) before⟩ ∧
      beat.act = .perform receiptId live reached true false true ∧
      beat.pre.ledgerGet reached receiptId = none

section runs
variable (threadOf : MessageId → ThreadId)

/-- What the status says of the receipt was done; a sender is not told of a receipt given up that
could not be read when he was to be told. -/
def Answered (beats : List ReceiptMailBeat) (w : MailedJoins) (receiptId : ReceiptId) :
    ReceiptStatus → Prop
  | .parked => True
  | .asked => w.box.Holds (threadOf receiptId) (ReceiptMail.ask.label receiptId)
  | .expired => w.box.Holds (threadOf receiptId) (ReceiptMail.noMatch.label receiptId) ∨
      Untold beats receiptId
  | .matched => ∃ number txnId, .acted number (.signalTransaction txnId receiptId) ∈ w.joins.log

/-- The receipt is what the model read in a forward. -/
def ReadIn (beats : List ReceiptMailBeat) (receipt : Receipt) : Prop :=
  ∃ beat ∈ beats, ∃ facts now stage, beat.act = .route receipt.id (some facts) now stage ∧
    receipt = facts.toReceipt receipt.id (threadOf receipt.id) now

/-- A join decided in a step of the mail, on what it had read by then. -/
def DecidedIn (beats : List ReceiptMailBeat) (beat : MatchBeat) : Prop :=
  ∀ id transactions verdict now, beat.act = .decide id transactions verdict now →
    ∃ mailed ∈ beats, mailed.pre.joins = beat.pre ∧ mailed.act = .join beat.act

/-- The invariant: the joins ran, on receipts read in forwards that are on their threads, the box is
in order, and no status lies. -/
structure Answering (beats : List ReceiptMailBeat) (w : MailedJoins) : Prop where
  joined : ∃ joins, MatchRun {} joins w.joins ∧ (∀ beat ∈ joins, DecidedIn beats beat) ∧
    ∀ receipt, Forwarded joins receipt →
      ReadIn threadOf beats receipt ∧ w.box.hasMessage (threadOf receipt.id) = true
  mailed : Mailed threadOf w.box w.joins.log
  truthful : w.joins.Truthful (Answered threadOf beats w)

end runs

section runs
variable {threadOf : MessageId → ThreadId} {beats beats' : List ReceiptMailBeat}
  {w w' : MailedJoins}

theorem Answered.mono {receiptId : ReceiptId} {status : ReceiptStatus}
    (h : Answered threadOf beats w receiptId status) (hbeats : beats ⊆ beats')
    (hbox : w.box ⊆ w'.box)
    (hlog : w.joins.log ⊆ w'.joins.log) : Answered threadOf beats' w' receiptId status := by
  cases status with
  | parked => trivial
  | asked => exact Mailbox.Holds.mono h hbox
  | expired =>
    rcases h with h | ⟨beat, hbeat, huntold⟩
    · exact .inl (h.mono hbox)
    · exact .inr ⟨beat, hbeats hbeat, huntold⟩
  | matched =>
    obtain ⟨number, txnId, hmem⟩ := h
    exact ⟨number, txnId, hlog hmem⟩

theorem ReadIn.mono {receipt : Receipt} (h : ReadIn threadOf beats receipt)
    (hbeats : beats ⊆ beats') : ReadIn threadOf beats' receipt := by
  obtain ⟨beat, hmem, hread⟩ := h
  exact ⟨beat, hbeats hmem, hread⟩

theorem DecidedIn.mono {beat : MatchBeat} (h : DecidedIn beats beat) (hbeats : beats ⊆ beats') :
    DecidedIn beats' beat := by
  intro id transactions verdict now hact
  obtain ⟨mailed, hmem, hmailed⟩ := h id transactions verdict now hact
  exact ⟨mailed, hbeats hmem, hmailed⟩

/-- A step that is no decision has nothing to show for it. -/
theorem decidedIn_join {joins : JoinWorld} (act : JoinAct) :
    DecidedIn beats ⟨joins, .join act⟩ := by
  intro id transactions verdict now hact
  cases hact

theorem ReadIn.sourceThreadId {receipt : Receipt} (h : ReadIn threadOf beats receipt) :
    receipt.sourceThreadId = some (threadOf receipt.id) := by
  obtain ⟨-, -, facts, now, stage, -, hreceipt⟩ := h
  rw [hreceipt]
  rfl

theorem answering_init : Answering threadOf [] {} where
  joined := ⟨[], .nil _, fun beat hmem => absurd hmem List.not_mem_nil,
    fun receipt ⟨_, hmem, _⟩ => absurd hmem List.not_mem_nil⟩
  mailed := ⟨List.nodup_nil, fun message hmem => absurd hmem List.not_mem_nil⟩
  truthful := by
    refine ⟨?_, ?_, ?_⟩
    · intro id attempt action sent status hrun
      cases hrun
    · exact fun id status hmem => absurd hmem List.not_mem_nil
    · exact fun receipt hmem => absurd hmem List.not_mem_nil

namespace Answering

theorem mono (h : Answering threadOf beats w) (hbeats : beats ⊆ beats') :
    Answering threadOf beats' w where
  joined := by
    obtain ⟨joins, hrun, hdecided, hforwarded⟩ := h.joined
    exact ⟨joins, hrun, fun beat hbeat => (hdecided beat hbeat).mono hbeats, fun receipt hr =>
      ⟨(hforwarded receipt hr).1.mono hbeats, (hforwarded receipt hr).2⟩⟩
  mailed := h.mailed
  truthful := h.truthful.mono fun _ _ hA =>
    hA.mono hbeats (List.Subset.refl _) (List.Subset.refl _)

theorem wf (h : Answering threadOf beats w) : w.joins.Wf := by
  obtain ⟨joins, hrun, -, -⟩ := h.joined
  exact JoinWorld.wf_of_matchRun hrun

/-- A receipt of the table came on its thread. -/
theorem threaded (h : Answering threadOf beats w) {receiptId : ReceiptId} {receipt : Receipt}
    (hget : w.joins.ledger.get receiptId = some receipt) :
    receipt.id = receiptId ∧ receipt.sourceThreadId = some (threadOf receiptId) ∧
      w.box.hasMessage (threadOf receiptId) = true := by
  obtain ⟨joins, hrun, -, hforwarded⟩ := h.joined
  obtain ⟨hmem, rfl⟩ := Lib.mem_of_lookup hget
  have hissued := (JoinWorld.founded_of_run hrun).ledger receipt hmem
  obtain ⟨hread, hmessage⟩ := hforwarded { receipt with status := .parked } hissued
  exact ⟨rfl, hread.sourceThreadId, hmessage⟩

/-- More in the box does no harm while it is in order. -/
theorem withBox (h : Answering threadOf beats w) {box : Mailbox} (hbox : w.box ⊆ box)
    (hmailed : Mailed threadOf box w.joins.log) : Answering threadOf beats { w with box } where
  joined := by
    obtain ⟨joins, hrun, hdecided, hforwarded⟩ := h.joined
    exact ⟨joins, hrun, hdecided, fun receipt hr =>
      ⟨(hforwarded receipt hr).1, Mailbox.hasMessage_mono (hforwarded receipt hr).2 hbox⟩⟩
  mailed := hmailed
  truthful := h.truthful.mono fun _ _ hA => hA.mono (List.Subset.refl _) hbox (List.Subset.refl _)

theorem send (h : Answering threadOf beats w) {number : Nat} (mail : ReceiptMail)
    (receiptId : ReceiptId) (hcaused : Caused w.joins.log receiptId number mail) :
    Answering threadOf beats (w.send (threadOf receiptId) mail receiptId number) :=
  h.withBox (Mailbox.subset_sendOnThread _ _ _ _) (h.mailed.send hcaused)

/-- A step of the joins, with what was mailed for it. -/
theorem turn (h : Answering threadOf beats w) {act : MatchAct} {joins : JoinWorld} {box : Mailbox}
    (hstep : w.joins.matchStep act = some joins) (hbox : w.box ⊆ box)
    (hmailed : Mailed threadOf box joins.log) (hdecided : DecidedIn beats ⟨w.joins, act⟩)
    (hforward : ∀ receipt, act = .join (.forward receipt) →
      ReadIn threadOf beats receipt ∧ w.box.hasMessage (threadOf receipt.id) = true)
    (hact : ∀ id took number receipt action before status, act = .join (.act id took true) →
      w.joins.running id = some ⟨number, receipt, .acting action before⟩ →
      resultingStatus action = some status → Answered threadOf beats ⟨joins, box⟩ id status) :
    Answering threadOf beats ⟨joins, box⟩ := by
  obtain ⟨joinAct, hjoin, hjoins⟩ := JoinWorld.matchStep_step hstep
  have hturn := JoinWorld.step_turn hjoins
  refine ⟨?_, hmailed, ?_⟩
  · obtain ⟨run, hrun, hdecides, hforwarded⟩ := h.joined
    refine ⟨run ++ [⟨w.joins, act⟩], hrun.snoc (.step hstep), ?_, fun receipt hr => ?_⟩
    · intro beat hmem
      rcases List.mem_append.1 hmem with hmem | hmem
      · exact hdecides beat hmem
      · rw [List.mem_singleton.1 hmem]
        exact hdecided
    obtain ⟨beat, hmem, hbeat⟩ := hr
    have hcame : ReadIn threadOf beats receipt ∧ w.box.hasMessage (threadOf receipt.id) = true := by
      rcases List.mem_append.1 hmem with hmem | hmem
      · exact hforwarded receipt ⟨beat, hmem, hbeat⟩
      · rw [List.mem_singleton.1 hmem] at hbeat
        exact hforward receipt hbeat
    exact ⟨hcame.1, Mailbox.hasMessage_mono hcame.2 hbox⟩
  · have hkept : w.joins.Truthful (Answered threadOf beats ⟨joins, box⟩) :=
      h.truthful.mono fun _ _ hA => hA.mono (List.Subset.refl _) hbox hturn.log_subset
    refine hkept.turn h.wf (fun _ => trivial) hturn ?_
    intro id took number receipt action before status hjact hrun hstatus
    refine hact id took number receipt action before status ?_ hrun hstatus
    rw [hjact] at hjoin
    cases act with
    | join act => cases act <;> cases hjoin; rfl
    | decide id' transactions verdict now =>
      obtain ⟨attempt, -, heq⟩ := Option.map_eq_some_iff.1 hjoin
      cases heq

/-- A step of the joins that mails nothing and is no attempt of an action. -/
theorem withJoins (h : Answering threadOf beats w) {act : MatchAct}
    (hstep : w.withJoins act = some w') (hdecided : DecidedIn beats ⟨w.joins, act⟩)
    (hforward : ∀ receipt, act = .join (.forward receipt) →
      ReadIn threadOf beats receipt ∧ w.box.hasMessage (threadOf receipt.id) = true)
    (hact : ∀ id took returns, act ≠ .join (.act id took returns)) :
    Answering threadOf beats w' := by
  obtain ⟨joins, hjoins, rfl⟩ := Option.map_eq_some_iff.1 hstep
  obtain ⟨joinAct, -, hstep⟩ := JoinWorld.matchStep_step hjoins
  refine h.turn hjoins (List.Subset.refl _) ?_ hdecided hforward ?_
  · exact h.mailed.mono (JoinWorld.step_turn hstep).log_subset
  · exact fun id took _ _ _ _ _ heq => absurd heq (hact id took true)

/-- However far the attempt to route a forward comes. -/
theorem routeReceipt (h : Answering threadOf beats w) {facts : ReceiptFacts} {messageId : MessageId}
    {now : Datetime} {stage : RouteStage}
    (hbeat : ⟨w, .route messageId (some facts) now stage⟩ ∈ beats)
    (hthread : w.box.hasMessage (threadOf messageId) = true)
    (hstep : w.routeReceipt (facts.toReceipt messageId (threadOf messageId) now)
      (threadOf messageId) stage = some w') : Answering threadOf beats w' := by
  have hparked : ∀ parked, w.withJoins
      (.join (.forward (facts.toReceipt messageId (threadOf messageId) now))) = some parked →
      Answering threadOf beats parked := by
    intro parked hpark
    refine h.withJoins hpark (decidedIn_join _) (fun receipt heq => ?_)
      (fun id took returns heq => by cases heq)
    cases heq
    exact ⟨⟨_, hbeat, facts, now, stage, rfl, rfl⟩, hthread⟩
  cases stage <;> simp only [MailedJoins.routeReceipt] at hstep
  case read =>
    cases hstep
    exact h
  case parked => exact hparked w' hstep
  case acknowledged =>
    obtain ⟨parked, hpark, rfl⟩ := Option.map_eq_some_iff.1 hstep
    exact (hparked parked hpark).send .ack messageId trivial
  case joined =>
    obtain ⟨parked, hpark, hstart⟩ := Option.bind_eq_some_iff.1 hstep
    have hacked : Answering threadOf beats (parked.send (threadOf messageId) .ack messageId 0) :=
      (hparked parked hpark).send .ack messageId trivial
    exact hacked.withJoins hstart (decidedIn_join _) (fun receipt heq => by cases heq)
      (fun _ _ _ heq => by cases heq)

/-- What a mail due is about, and where it goes. -/
theorem of_due (h : Answering threadOf beats w) {live reached : Bool} {action : JoinAction}
    {threadId : ThreadId} {mail : ReceiptMail} {receiptId : ReceiptId}
    (hdue : w.due live reached action = some (threadId, mail, receiptId)) :
    MailedJoins.mailOf live action = some (mail, receiptId) ∧ threadId = threadOf receiptId ∧
      w.box.hasMessage (threadOf receiptId) = true := by
  obtain ⟨⟨mail', receiptId'⟩, hmail, hsource⟩ := Option.bind_eq_some_iff.1 hdue
  obtain ⟨source, hsource, heq⟩ := Option.map_eq_some_iff.1 hsource
  cases heq
  obtain ⟨receipt, hget, hthread⟩ := Option.bind_eq_some_iff.1 hsource
  unfold MailedJoins.ledgerGet at hget
  split at hget
  case isFalse => cases hget
  obtain ⟨-, hcame, hmessage⟩ := h.threaded hget
  rw [hcame] at hthread
  cases hthread
  exact ⟨hmail, rfl, hmessage⟩

/-- Without a mail due, the receipt could not be read. -/
theorem of_not_due (h : Answering threadOf beats w) {live reached : Bool} {action : JoinAction}
    (mail : ReceiptMail) (receiptId : ReceiptId) (hdue : w.due live reached action = none)
    (hmail : MailedJoins.mailOf live action = some (mail, receiptId)) :
    w.ledgerGet reached receiptId = none := by
  cases hget : w.ledgerGet reached receiptId with
  | none => rfl
  | some receipt =>
    have hknown := hget
    unfold MailedJoins.ledgerGet at hknown
    split at hknown
    case isFalse => cases hknown
    obtain ⟨-, hcame, -⟩ := h.threaded hknown
    simp [MailedJoins.due, hmail, hget, hcame] at hdue

end Answering

theorem caused_of_acted {log : List JoinEvent} {live : Bool} {number : Nat} {action : JoinAction}
    {mail : ReceiptMail} {receiptId : ReceiptId} (hlog : .acted number action ∈ log)
    (hmail : MailedJoins.mailOf live action = some (mail, receiptId)) :
    Caused log receiptId number mail := by
  cases action with
  | signalTransaction txnId receiptId' =>
    cases live with
    | true => cases hmail
    | false =>
      cases hmail
      exact ⟨txnId, hlog⟩
  | askDisambiguation receiptId' candidates =>
    cases hmail
    exact ⟨candidates, hlog⟩
  | askNoMatch receiptId' =>
    cases hmail
    exact hlog
  | park reason => cases hmail
  | doNothing reason => cases hmail

/-- An action that took effect has done what its status says, if the mail of a question or a note is
out. -/
theorem answered_of_acted {number : Nat} {action : JoinAction} {status : ReceiptStatus}
    {receiptId : ReceiptId} (hlog : .acted number action ∈ w.joins.log)
    (habout : action.receiptId? = some receiptId) (hstatus : resultingStatus action = some status)
    (hask : ∀ candidates, action = .askDisambiguation receiptId candidates →
      Answered threadOf beats w receiptId .asked)
    (hnote : action = .askNoMatch receiptId → Answered threadOf beats w receiptId .expired) :
    Answered threadOf beats w receiptId status := by
  cases action with
  | signalTransaction txnId receiptId' =>
    cases habout
    cases hstatus
    exact ⟨number, txnId, hlog⟩
  | askDisambiguation receiptId' candidates =>
    cases habout
    cases hstatus
    exact hask candidates rfl
  | askNoMatch receiptId' =>
    cases habout
    cases hstatus
    exact hnote rfl
  | park reason => cases habout
  | doNothing reason => cases habout

namespace Answering

/-- An attempt of an action keeps the invariant. -/
theorem perform (h : Answering threadOf beats w) {id : ReceiptId}
    {live reached took mailed returns : Bool}
    (hbeat : ⟨w, .perform id live reached took mailed returns⟩ ∈ beats)
    (hstep : w.perform id live reached took mailed returns = some w') :
    Answering threadOf beats w' := by
  unfold MailedJoins.perform at hstep
  split at hstep
  case h_2 => cases hstep
  rename_i number receipt action before hrun
  have habout : action.receiptId? = some id := h.wf.about id _ action hrun rfl
  split at hstep
  · rename_i threadId mail receiptId hdue
    obtain ⟨hmail, rfl, hmessage⟩ := h.of_due hdue
    split at hstep
    case isFalse => cases hstep
    rename_i hguard
    obtain ⟨hmailed, hreturns, -⟩ := hguard
    obtain ⟨w₁, hjoins, hw'⟩ := Option.map_eq_some_iff.1 hstep
    obtain ⟨joins, hmatch, rfl⟩ := Option.map_eq_some_iff.1 hjoins
    have hact : w.joins.step (.act id took returns) = some joins := hmatch
    obtain ⟨htook, -⟩ := JoinWorld.step_act hact hrun
    have hlogged := (JoinWorld.step_turn hact).log_subset
    cases mailed with
    | false =>
      cases hw'
      refine h.turn hmatch (List.Subset.refl _) (h.mailed.mono hlogged) (decidedIn_join _)
        (fun _ heq => by cases heq) ?_
      intro id' took' _ _ _ _ _ heq
      cases heq
      cases hreturns rfl
    | true =>
      cases hw'
      have hacted := (htook (hmailed rfl)).2
      have hcaused := caused_of_acted hacted hmail
      have hbox :=
        Mailbox.subset_sendOnThread w.box (threadOf receiptId) (mail.label receiptId) number
      have hholds := h.mailed.holds_send mail number hmessage
      refine h.turn hmatch hbox ((h.mailed.mono hlogged).send hcaused) (decidedIn_join _)
        (fun _ heq => by cases heq) ?_
      intro id' took' number' receipt' action' before' status heq hrun' hstatus
      cases heq
      rw [hrun] at hrun'
      cases hrun'
      refine answered_of_acted hacted habout hstatus ?_ ?_
      · rintro candidates rfl
        cases hmail
        exact hholds
      · rintro rfl
        cases hmail
        exact .inl hholds
  · rename_i hdue
    split at hstep
    case isFalse => cases hstep
    rename_i hguard
    obtain ⟨hunmailed, hneeds⟩ := hguard
    obtain ⟨joins, hmatch, rfl⟩ := Option.map_eq_some_iff.1 hstep
    have hact : w.joins.step (.act id took returns) = some joins := hmatch
    obtain ⟨htook, hreturns⟩ := JoinWorld.step_act hact hrun
    have hlogged := (JoinWorld.step_turn hact).log_subset
    refine h.turn hmatch (List.Subset.refl _) (h.mailed.mono hlogged) (decidedIn_join _)
      (fun _ heq => by cases heq) ?_
    intro id' took' number' receipt' action' before' status heq hrun' hstatus
    cases heq
    rw [hrun] at hrun'
    cases hrun'
    have htaken := hreturns rfl
    obtain ⟨hcan, hacted⟩ := htook htaken
    refine answered_of_acted hacted habout hstatus ?_ ?_
    · rintro candidates rfl
      -- the activity raises on a receipt it cannot read
      have hnone := h.of_not_due .ask id hdue rfl
      rw [MailedJoins.ledgerGet, if_pos (hneeds htaken rfl)] at hnone
      rw [JoinWorld.canTake, hnone] at hcan
      cases hcan
    · rintro rfl
      have hnone := h.of_not_due .noMatch id hdue rfl
      rw [htaken, Bool.eq_false_of_not_eq_true hunmailed] at hbeat
      exact .inr ⟨_, hbeat, number, receipt, before, live, reached, hrun, rfl, hnone⟩

/-- One step keeps the invariant. -/
theorem step (h : Answering threadOf beats w) {act : ReceiptMailAct}
    (hstep : w.step threadOf act = some w') : Answering threadOf (beats ++ [⟨w, act⟩]) w' := by
  have hmore := h.mono (List.subset_append_left beats [⟨w, act⟩])
  cases act with
  | arrive messageId =>
    cases hstep
    exact hmore.withBox (List.subset_append_left _ _) (h.mailed.arrive _)
  | route messageId facts now stage =>
    simp only [MailedJoins.step] at hstep
    split at hstep
    case isFalse => cases hstep
    rename_i hthread
    cases facts with
    | some facts =>
      exact hmore.routeReceipt (List.mem_append_right _ List.mem_cons_self) hthread hstep
    | none =>
      cases hstep
      split
      · exact hmore
      · exact hmore.send .unread messageId trivial
  | join act =>
    simp only [MailedJoins.step] at hstep
    split at hstep
    case isFalse => cases hstep
    rename_i hunmailed
    have hdecided : DecidedIn (beats ++ [⟨w, .join act⟩]) ⟨w.joins, act⟩ := by
      intro id transactions verdict now hact
      exact ⟨_, List.mem_append_right _ List.mem_cons_self, rfl, rfl⟩
    refine hmore.withJoins hstep hdecided (fun receipt heq => ?_) (fun id took returns heq => ?_)
    · rw [heq] at hunmailed
      cases hunmailed
    · rw [heq] at hunmailed
      cases hunmailed
  | perform id live reached took mailed returns =>
    exact hmore.perform (List.mem_append_right _ List.mem_cons_self) hstep

end Answering

theorem answering_of_run (h : ReceiptMailRun threadOf {} beats w) : Answering threadOf beats w := by
  refine h.history (P := fun beats w => Answering threadOf beats w) answering_init ?_
  intro beats t beat u _ ih hstep
  cases hstep with
  | step hs => exact ih.step hs

/-- **Receipts are answered.** No mail about a receipt goes out twice; each is on the thread its
receipt came on; a question is that of the join of its number, and offers only transactions
plausible, among those that join had read, for what was read in the forward; and the ledger's status
of a receipt was earned: the question of an asked one is on its thread, so is the note of an expired
one unless the receipt could not be read in the ledger then, and a matched one was delivered. -/
theorem receipts_answered (h : ReceiptMailRun threadOf {} beats w) :
    (w.box.sent.map Prod.fst).Nodup ∧
    (∀ message ∈ w.box, ∀ label number, message.stamp = some (label, number) →
      ∃ mail receiptId, label = ReceiptMail.label mail receiptId ∧
        message.threadId = threadOf receiptId ∧ Caused w.joins.log receiptId number mail) ∧
    (∀ number receiptId candidates,
      .acted number (.askDisambiguation receiptId candidates) ∈ w.joins.log →
        ∃ receipt, ReadIn threadOf beats receipt ∧ receipt.id = receiptId ∧
          ∃ beat ∈ beats, beat.pre.joins.running receiptId = some ⟨number, receipt, .matching⟩ ∧
            ∃ transactions verdict now,
              beat.act = .join (.decide receiptId transactions verdict now) ∧
              ∀ txnId ∈ candidates.ids, Plausible receipt transactions txnId) ∧
    ∀ receiptId status, w.joins.ledger.status? receiptId = some status →
      Answered threadOf beats w receiptId status := by
  have hanswering := answering_of_run h
  refine ⟨hanswering.mailed.labels, hanswering.mailed.stamps, ?_, ?_⟩
  · intro number receiptId candidates hlog
    obtain ⟨joins, hrun, hdecided, hforwarded⟩ := hanswering.joined
    obtain ⟨receipt, hissued, beat, hbeat, hjoin, transactions, verdict, now, hact, haction⟩ :=
      (JoinWorld.founded_of_run hrun).log number _ hlog
    have hfits := planJoin_fits receipt transactions verdict now
    rw [← haction] at hfits
    obtain ⟨rfl, hparked, -, hplausible⟩ := hfits
    have hread := (hforwarded _ hissued).1
    rw [← hparked] at hread
    obtain ⟨mailed, hmem, hpre, hmailed⟩ := hdecided beat hbeat _ _ _ _ hact
    refine ⟨receipt, hread, rfl, mailed, hmem, ?_, transactions, verdict, now, ?_, hplausible⟩
    · rw [hpre]
      exact hjoin
    · rw [hmailed, hact]
  · intro receiptId status hstatus
    obtain ⟨receipt, hget, rfl⟩ := Option.map_eq_some_iff.1 hstatus
    obtain ⟨hmem, rfl⟩ := Lib.mem_of_lookup hget
    exact hanswering.truthful.ledger receipt hmem

end runs

/-- A forward with nothing stated is asked about; the join is read as ambiguous again and again. -/
def forwardAsked : List ReceiptMailAct :=
  [.arrive "m1", .route "m1" (some {}) 0 .joined,
    .join (.join (.land (.park (ReceiptFacts.toReceipt {} "m1" "t1" 0)))),
    .join (.decide "m1" [purchase "y1" 10000 100, purchase "y2" 10000 101]
      { decision := .ambiguous, candidateIds := ["y1", "y2"] } 1),
    .perform "m1" false true true true false, .perform "m1" false true true true true,
    .join (.join (.save "m1" true true)), .join (.join (.land (.setStatus "m1" .asked)))]

/-- An attempt broke off behind the question, and the next one asked nothing more; the two purchases
it names are among those the join had read. -/
theorem forward_asked_once :
    ∃ beats w, ReceiptMailRun (fun _ => "t1") {} beats w ∧
      w.joins.ledger.status? "m1" = some .asked ∧ w.box.Holds "t1" (ReceiptMail.ask.label "m1") ∧
      (w.box.sent.map Prod.fst).Nodup ∧
      ∃ beat ∈ beats, ∃ receipt transactions verdict now,
        beat.act = .join (.decide "m1" transactions verdict now) ∧
        ∀ txnId ∈ ["y1", "y2"], Plausible receipt transactions txnId := by
  have hexec : ∃ beats w,
      Lib.exec (MailedJoins.step fun _ => "t1") {} forwardAsked = some (beats, w) ∧
      w.joins.ledger.status? "m1" = some .asked ∧
      .acted 0 (.askDisambiguation "m1" ⟨["y1", "y2"], Nat.le_refl 2⟩) ∈ w.joins.log :=
    ⟨_, _, rfl, rfl, by decide +kernel⟩
  obtain ⟨beats, w, hexec, hstatus, hlog⟩ := hexec
  have hrun := Lib.exec_run hexec
  obtain ⟨hnodup, -, hasked, hanswered⟩ := receipts_answered hrun
  obtain ⟨receipt, -, -, beat, hbeat, -, hdecided⟩ := hasked 0 "m1" _ hlog
  exact ⟨beats, w, hrun, hstatus, hanswered "m1" .asked hstatus, hnodup, beat, hbeat, receipt,
    hdecided⟩

end YnabAgent
