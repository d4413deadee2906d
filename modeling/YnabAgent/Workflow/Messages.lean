import YnabAgent.Mail.Client
import YnabAgent.Workflow.Calls
import YnabAgent.Workflow.Inbounds

/-!
# The messages of a transaction over all its runs

Every run of a transaction decides messages and sends them into one mailbox
(`workflow/activities.py`, `workflow/txn_workflow.py`). An attempt of a message's activity may send
without reporting, and an earlier one may come late; the activity returns with the attempt that
reports. A closed transaction is started again by the poll after a failed run, or with a reply after
any run (`workflow/poll_activities.py`, `workflow/dispatch_activities.py`); a fresh run knows only
the transaction's id.

The runs are an outbox (`MailWorld.outbox`): its epochs are the runs, its labels the idempotency
labels.
-/

namespace YnabAgent

/-! ## Labels -/

def txnLabel (ynabId : YnabTransactionId) : String :=
  "yatxn-" ++ ynabId

def seqLabel (ynabId : YnabTransactionId) (actionSeq : Nat) : String :=
  "yaseq-" ++ ynabId ++ "-" ++ toString actionSeq

theorem toString_inj {m n : Nat} (h : toString m = toString n) : m = n := by
  have hdigits : Nat.toDigits 10 m = Nat.toDigits 10 n := by
    rw [← Nat.toList_repr, ← Nat.toList_repr]
    exact congrArg String.toList h
  rw [← Nat.ofDigitChars_ten_toDigits (n := m), hdigits, Nat.ofDigitChars_ten_toDigits]

theorem seqLabel_inj {ynabId : YnabTransactionId} {m n : Nat}
    (h : seqLabel ynabId m = seqLabel ynabId n) : m = n :=
  toString_inj (String.append_right_inj _ |>.1 h)

theorem txnLabel_ne_seqLabel (ynabId ynabId' : YnabTransactionId) (n : Nat) :
    txnLabel ynabId ≠ seqLabel ynabId' n := by
  intro h
  have hlist := congrArg String.toList h
  simp [txnLabel, seqLabel] at hlist

namespace Mail

def label (ynabId : YnabTransactionId) : Mail → String
  | .opening => txnLabel ynabId
  | .followUp _ actionSeq => seqLabel ynabId actionSeq

/-- The number of a follow-up. -/
def number? : Mail → Option Nat
  | .opening => none
  | .followUp _ actionSeq => some actionSeq

/-- Messages of a transaction share a label when they are both the opening, or have one number. -/
theorem label_eq_iff {ynabId : YnabTransactionId} {mail mail' : Mail} :
    mail.label ynabId = mail'.label ynabId ↔ mail.number? = mail'.number? := by
  cases mail with
  | opening =>
    cases mail' with
    | opening => exact ⟨fun _ => rfl, fun _ => rfl⟩
    | followUp threadId n =>
      exact ⟨fun h => absurd h (txnLabel_ne_seqLabel _ _ _), fun h => by cases h⟩
  | followUp threadId m =>
    cases mail' with
    | opening => exact ⟨fun h => absurd h.symm (txnLabel_ne_seqLabel _ _ _), fun h => by cases h⟩
    | followUp threadId' n =>
      constructor
      · intro h
        exact congrArg some (seqLabel_inj h)
      · intro h
        cases h
        rfl

end Mail

/-! ## The runs of a transaction -/

/-- A message with the run that decided it. -/
structure DecidedMessage where
  run : Nat
  mail : Mail
  deriving DecidableEq

/-- The current run with its number, the mailbox, the messages decided in order, and the numbers of
those whose activity returned. -/
structure MailWorld where
  ynabId : YnabTransactionId
  driver : Driver
  run : Nat := 0
  mailbox : Mailbox := []
  decided : List DecidedMessage := []
  done : List Nat := []

inductive MailAct
  /-- A step of the run, but for the return of a message's activity. -/
  | drive (act : Driver.Act)
  /-- An attempt of a message that does not report. -/
  | attempt (number : Nat) (fresh : ThreadId)
  /-- The attempt that reports, and the run goes on. -/
  | report (m : Moment) (fresh : ThreadId)
  /-- Other mail on a thread. -/
  | arrive (threadId : ThreadId)
  /-- A fresh run of a closed transaction. -/
  | start (reply? : Option ReplySignal)

/-- A reply is a message on its thread. -/
def InboundSignal.onRecord (mailbox : Mailbox) : InboundSignal → Bool
  | .reply signal => mailbox.hasMessage signal.threadId
  | .receipt _ => true

/-- An attempt to send, with what it reports. -/
def Mailbox.post (mailbox : Mailbox) (ynabId : YnabTransactionId) (mail : Mail) (fresh : ThreadId)
    (number : Nat) : Mailbox × ActivityResult :=
  match mail with
  | .opening =>
    let opened := mailbox.openThread (mail.label ynabId) fresh number
    (opened.1, .thread opened.2)
  | .followUp threadId _ => (mailbox.sendOnThread threadId (mail.label ynabId) number, .done)

/-- Whether an act ends an activity that sends. -/
def Driver.Act.reports (pc : Suspended) : Driver.Act → Bool
  | .returned _ _ => pc.mail?.isSome
  | _ => false

namespace MailWorld

def init (ynabId : YnabTransactionId) : MailWorld where
  ynabId
  driver := .start { ynabId }

/-- The run goes on; where it comes to a message, it has decided it. -/
def goOn (w : MailWorld) (act : Driver.Act) (d : Driver) : MailWorld :=
  { w with
    driver := d
    decided := w.decided ++ if act.resumes then d.pc.mail?.toList.map (⟨w.run, ·⟩) else [] }

/-- The number of the message decided last. -/
def current (w : MailWorld) : Nat :=
  w.decided.length - 1

/-- The poll starts only a transaction whose last run failed. -/
def mayStart (w : MailWorld) (reply? : Option ReplySignal) : Bool :=
  match reply?, w.driver.pc with
  | none, .failed => true
  | some reply, .completed | some reply, .failed => w.mailbox.hasMessage reply.threadId
  | _, _ => false

/-- A fresh run, with the reply it was started with in its queue. -/
def startRun (w : MailWorld) (reply? : Option ReplySignal) : MailWorld :=
  { w with
    driver := { Driver.start { ynabId := w.ynabId } with inbound := reply?.toList.map .reply }
    run := w.run + 1 }

section steps
variable (text : PyText) {δ : Type} [DecidableEq δ] (digest : TargetState → δ)

def step (w : MailWorld) : MailAct → Option MailWorld
  | .drive act =>
    if act.reports w.driver.pc = false ∧ ∀ signal ∈ act.submitted, signal.onRecord w.mailbox then
      (w.driver.step text digest act).map (w.goOn act)
    else none
  | .attempt number fresh =>
    match w.decided[number]? with
    | some message =>
      if w.mailbox.hasMessage fresh then none
      else some { w with mailbox := (w.mailbox.post w.ynabId message.mail fresh number).1 }
    | none => none
  | .report m fresh =>
    match w.driver.pc.mail? with
    | some mail =>
      if w.mailbox.hasMessage fresh then none
      else
        let posted := w.mailbox.post w.ynabId mail fresh w.current
        (w.driver.step text digest (.returned m posted.2)).map fun d =>
          { w with mailbox := posted.1, done := w.done ++ [w.current] }.goOn
            (.returned m posted.2) d
    | none => none
  | .arrive threadId => some { w with mailbox := w.mailbox ++ [{ threadId, stamp := none }] }
  | .start reply? => if w.mayStart reply? then some (w.startRun reply?) else none

end steps

/-- The outbox whose epochs are the runs. -/
def outbox (w : MailWorld) : Lib.Outbox String where
  requests := w.decided.map fun message => ⟨message.run, message.mail.label w.ynabId⟩
  sent := w.mailbox.sent
  done := w.done

/-- How often the message of a number was delivered. -/
def deliveries (w : MailWorld) (number : Nat) : Nat :=
  Lib.Outbox.deliveries w.mailbox.sent number

variable {text : PyText} {δ : Type} [DecidableEq δ] {digest : TargetState → δ} {w w' : MailWorld}
  {act : Driver.Act} {d' : Driver} {mail : Mail}

/-! ### The invariant -/

/-- What every run keeps: a decided message is one the run has come past or is at, and every thread
it may send on has a message. -/
structure Kept (w : MailWorld) : Prop where
  calling : w.driver.Calling
  fits : w.driver.pc.Fits w.driver.txn
  runs : ∀ message ∈ w.decided, message.run ≤ w.run
  opening : ⟨w.run, .opening⟩ ∈ w.decided →
    w.driver.threadId ≠ none ∨ w.driver.pc.mail? = some .opening ∨ w.driver.closed = true
  numbers : ∀ threadId n, ⟨w.run, .followUp threadId n⟩ ∈ w.decided → n ≤ w.driver.actionSeq
  pending : ∀ mail, w.driver.pc.mail? = some mail → w.decided.getLast? = some ⟨w.run, mail⟩
  thread : ∀ threadId, w.driver.threadId = some threadId → w.mailbox.hasMessage threadId = true
  replies : ∀ signal ∈ w.driver.account, signal.onRecord w.mailbox = true
  threads : ∀ message ∈ w.decided, ∀ threadId n, message.mail = .followUp threadId n →
    w.mailbox.hasMessage threadId = true

theorem kept_init (ynabId : YnabTransactionId) : Kept (init ynabId) where
  calling := Driver.start_calling ynabId []
  fits := ⟨rfl, calm_nil, trivial⟩
  runs message hmem := by cases hmem
  opening hmem := by cases hmem
  numbers threadId n hmem := by cases hmem
  pending mail hmail := by cases hmail
  thread threadId hthread := by cases hthread
  replies signal hmem := by cases hmem
  threads message hmem := by cases hmem

/-- A fresh run has decided nothing, and its thread is not known to it. -/
theorem Kept.startRun (h : Kept w) {reply? : Option ReplySignal}
    (hreply : ∀ reply ∈ reply?, w.mailbox.hasMessage reply.threadId = true) :
    Kept (w.startRun reply?) where
  calling := Driver.start_calling w.ynabId (reply?.toList.map .reply)
  fits := ⟨rfl, calm_nil, trivial⟩
  runs message hmem := Nat.le_succ_of_le (h.runs message hmem)
  opening hmem := absurd (h.runs _ hmem) (Nat.not_succ_le_self w.run)
  numbers threadId n hmem := absurd (h.runs _ hmem) (Nat.not_succ_le_self w.run)
  pending mail hmail := by cases hmail
  thread threadId hthread := by cases hthread
  replies signal hmem := by
    obtain ⟨reply, hreply', rfl⟩ := List.mem_map.1 hmem
    exact hreply reply (Option.mem_toList.1 hreply')
  threads := h.threads

/-- More mail changes nothing for the run. -/
theorem Kept.moreMail (h : Kept w) {mailbox : Mailbox}
    (hmore : ∀ threadId, w.mailbox.hasMessage threadId = true → mailbox.hasMessage threadId = true)
    (done : List Nat) : Kept { w with mailbox, done } where
  calling := h.calling
  fits := h.fits
  runs := h.runs
  opening := h.opening
  numbers := h.numbers
  pending := h.pending
  thread threadId hthread := hmore _ (h.thread threadId hthread)
  replies signal hmem := by
    have hold := h.replies signal hmem
    cases signal with
    | reply signal => exact hmore _ hold
    | receipt signal => rfl
  threads message hmem threadId n hmail := hmore _ (h.threads message hmem threadId n hmail)

theorem goOn_quiet (hquiet : act.resumes = true → d'.pc.mail? = none) :
    w.goOn act d' = { w with driver := d' } := by
  have hnothing : (if act.resumes then d'.pc.mail?.toList.map (DecidedMessage.mk w.run) else []) =
      [] := by
    split
    · rename_i hact
      rw [hquiet hact]
      rfl
    · rfl
  unfold goOn
  rw [hnothing, List.append_nil]

theorem goOn_decides (hact : act.resumes = true) (hmail : d'.pc.mail? = some mail) :
    w.goOn act d' = { w with driver := d', decided := w.decided ++ [⟨w.run, mail⟩] } := by
  unfold goOn
  rw [if_pos hact, hmail]
  rfl

/-- A message the run decides is under none of the labels it has used. -/
theorem Kept.fresh (h : Kept w) (hturn : Driver.Turn text digest w.driver act d')
    (hact : act.resumes = true) (hmail : d'.pc.mail? = some mail) :
    ∀ message ∈ w.decided, message.run = w.run → message.mail.number? ≠ mail.number? := by
  rintro ⟨run, mail'⟩ hmem rfl hnumber
  have hstep := hturn.mail h.calling hact
  unfold Driver.MailStep at hstep
  rw [hmail] at hstep
  cases mail with
  | opening =>
    obtain ⟨hnone, -⟩ := hstep
    cases mail' with
    | followUp threadId n => cases hnumber
    | opening =>
      rcases h.opening hmem with hthread | hpc | hclosed
      · obtain ⟨threadId, hthread⟩ := Option.ne_none_iff_exists'.1 hthread
        rw [hturn.threadId h.calling hthread] at hnone
        cases hnone
      · rcases hturn.opened_thread h.calling hact hpc with hsome | hfailed
        · exact hsome hnone
        · rw [hfailed] at hmail
          cases hmail
      · rw [hturn.not_closed] at hclosed
        cases hclosed
  | followUp threadId n =>
    obtain ⟨-, hn, -⟩ := hstep
    cases mail' with
    | opening => cases hnumber
    | followUp threadId' n' =>
      have hle := h.numbers threadId' n' hmem
      have heq : n' = n := Option.some.inj hnumber
      omega

/-- The counter never goes back. -/
theorem Kept.counted (h : Kept w) (hturn : Driver.Turn text digest w.driver act d') :
    w.driver.actionSeq ≤ d'.actionSeq := by
  cases hact : act.resumes with
  | false => exact (hturn.same hact).2.actionSeq_eq.ge
  | true =>
    have hstep := hturn.mail h.calling hact
    unfold Driver.MailStep at hstep
    split at hstep
    · exact hstep.ge
    · exact hstep.2.ge
    · rw [hstep.2.2]
      exact Nat.le_succ _

/-- An opening decided in this run is over, under way, or the run is. -/
theorem Kept.opening_turn (h : Kept w) (hturn : Driver.Turn text digest w.driver act d')
    (hmem : ⟨w.run, .opening⟩ ∈ w.decided) :
    d'.threadId ≠ none ∨ d'.pc.mail? = some .opening ∨ d'.closed = true := by
  rcases h.opening hmem with hthread | hpc | hclosed
  · obtain ⟨threadId, hthread⟩ := Option.ne_none_iff_exists'.1 hthread
    left
    rw [hturn.threadId h.calling hthread]
    exact Option.some_ne_none threadId
  · cases hact : act.resumes with
    | false =>
      rw [← (hturn.same hact).1] at hpc
      exact .inr (.inl hpc)
    | true =>
      rcases hturn.opened_thread h.calling hact hpc with hsome | hfailed
      · exact .inl hsome
      · right; right
        unfold Driver.closed
        rw [hfailed]
  · rw [hturn.not_closed] at hclosed
    cases hclosed

theorem Kept.thread_turn (h : Kept w) (hturn : Driver.Turn text digest w.driver act d')
    (hopened : ∀ m threadId, act = .returned m (.thread threadId) →
      w.mailbox.hasMessage threadId = true) {threadId : ThreadId}
    (hthread : d'.threadId = some threadId) : w.mailbox.hasMessage threadId = true := by
  rcases hturn.threadId_origin h.calling hthread with hold | ⟨signal, hmem, rfl⟩ | ⟨m, hact⟩
  · exact h.thread threadId hold
  · refine h.replies (.reply signal) ?_
    unfold Driver.account
    exact List.mem_append_right _ (List.mem_append_right _ hmem)
  · exact hopened m threadId hact

/-- The run goes on with what it decides. -/
theorem Kept.goOn (h : Kept w) (hturn : Driver.Turn text digest w.driver act d')
    (hsubmitted : ∀ signal ∈ act.submitted, signal.onRecord w.mailbox = true)
    (hopened : ∀ m threadId, act = .returned m (.thread threadId) →
      w.mailbox.hasMessage threadId = true) : Kept (w.goOn act d') := by
  have hreplies : ∀ signal ∈ d'.account, signal.onRecord w.mailbox = true := by
    intro signal hmem
    rw [hturn.account h.fits] at hmem
    exact (List.mem_append.1 hmem).elim (h.replies signal) (hsubmitted signal)
  have hnumbers : ∀ threadId n, ⟨w.run, .followUp threadId n⟩ ∈ w.decided → n ≤ d'.actionSeq :=
    fun threadId n hmem => (h.numbers threadId n hmem).trans (h.counted hturn)
  have hquiet : ∀ hpending : ∀ mail, d'.pc.mail? = some mail →
      w.decided.getLast? = some ⟨w.run, mail⟩, Kept { w with driver := d' } := by
    intro hpending
    exact ⟨hturn.calling h.calling, hturn.fits h.fits, h.runs, h.opening_turn hturn, hnumbers,
      hpending, fun _ => h.thread_turn hturn hopened, hreplies, h.threads⟩
  cases hact : act.resumes with
  | false =>
    rw [goOn_quiet (fun htrue => by rw [hact] at htrue; cases htrue)]
    refine hquiet ?_
    rw [(hturn.same hact).1]
    exact h.pending
  | true =>
    cases hmail : d'.pc.mail? with
    | none =>
      rw [goOn_quiet fun _ => hmail]
      refine hquiet ?_
      rw [hmail]
      intro mail heq
      cases heq
    | some mail =>
      rw [goOn_decides hact hmail]
      have hstep := hturn.mail h.calling hact
      unfold Driver.MailStep at hstep
      rw [hmail] at hstep
      refine ⟨hturn.calling h.calling, hturn.fits h.fits, ?_, ?_, ?_, ?_,
        fun _ => h.thread_turn hturn hopened, hreplies, ?_⟩
      · intro message hmem
        rcases List.mem_append.1 hmem with hold | hnew
        · exact h.runs message hold
        · rw [List.mem_singleton.1 hnew]
      · intro hmem
        rcases List.mem_append.1 hmem with hold | hnew
        · exact h.opening_turn hturn hold
        · cases List.mem_singleton.1 hnew
          exact .inr (.inl hmail)
      · intro threadId n hmem
        rcases List.mem_append.1 hmem with hold | hnew
        · exact hnumbers threadId n hold
        · cases List.mem_singleton.1 hnew
          obtain ⟨-, hn, hcounter⟩ := hstep
          exact (hn.trans hcounter.symm).le
      · intro mail' heq
        rw [hmail] at heq
        cases heq
        exact List.getLast?_concat
      · intro message hmem threadId n hfollow
        rcases List.mem_append.1 hmem with hold | hnew
        · exact h.threads message hold threadId n hfollow
        · rw [List.mem_singleton.1 hnew] at hfollow
          cases hfollow
          exact h.thread_turn hturn hopened hstep.1

/-! ### The outbox of the runs -/

theorem outbox_getElem? {n : Nat} {message : DecidedMessage} (hn : w.decided[n]? = some message) :
    w.outbox.requests[n]? = some ⟨message.run, message.mail.label w.ynabId⟩ := by
  unfold outbox
  rw [List.getElem?_map, hn]
  rfl

/-- Deciding a message is a request. -/
theorem Kept.steps_goOn (h : Kept w) (hturn : Driver.Turn text digest w.driver act d') :
    Lib.Outbox.Steps w.outbox (w.goOn act d').outbox := by
  by_cases hdecides : ∃ mail, act.resumes = true ∧ d'.pc.mail? = some mail
  · obtain ⟨mail, hact, hmail⟩ := hdecides
    rw [goOn_decides hact hmail]
    have hfresh := h.fresh hturn hact hmail
    have hrequests : ∀ r ∈ w.outbox.requests, ∃ message ∈ w.decided,
        r = ⟨message.run, message.mail.label w.ynabId⟩ := by
      intro r hr
      obtain ⟨message, hmem, heq⟩ := List.mem_map.1 hr
      exact ⟨message, hmem, heq.symm⟩
    have hstep : Lib.Outbox.Step w.outbox
        { w.outbox with requests := w.outbox.requests ++ [⟨w.run, mail.label w.ynabId⟩] } := by
      refine .request ?_ ?_
      · intro hmem
        obtain ⟨message, hmem, heq⟩ := hrequests _ hmem
        obtain ⟨hrun, hlabel⟩ := Lib.Request.mk.inj heq
        exact hfresh message hmem hrun.symm (Mail.label_eq_iff.1 hlabel.symm)
      · intro r hr
        obtain ⟨message, hmem, rfl⟩ := hrequests r hr
        exact h.runs message hmem
    have heq :
        ({ w with driver := d', decided := w.decided ++ [⟨w.run, mail⟩] } : MailWorld).outbox =
        { w.outbox with requests := w.outbox.requests ++ [⟨w.run, mail.label w.ynabId⟩] } := by
      unfold outbox
      rw [List.map_append]
      rfl
    rw [heq]
    exact .single hstep
  · rw [goOn_quiet]
    · exact .refl
    · intro hact
      cases hmail : d'.pc.mail? with
      | none => rfl
      | some mail => exact absurd ⟨mail, hact, hmail⟩ hdecides

/-- An attempt delivers the message it is of. -/
theorem sent_post (mailbox : Mailbox) (ynabId : YnabTransactionId) (fresh : ThreadId) (number : Nat)
    (hthread : ∀ threadId n, mail = .followUp threadId n → mailbox.hasMessage threadId = true) :
    (mailbox.post ynabId mail fresh number).1.sent =
      Lib.Outbox.deliver (mail.label ynabId) number mailbox.sent := by
  cases mail with
  | opening => exact Mailbox.sent_openThread mailbox _ fresh number
  | followUp threadId n => exact Mailbox.sent_sendOnThread _ number (hthread threadId n rfl)

theorem hasMessage_post {mailbox : Mailbox} (ynabId : YnabTransactionId) (mail : Mail)
    (fresh : ThreadId) (number : Nat) {threadId : ThreadId}
    (h : mailbox.hasMessage threadId = true) :
    (mailbox.post ynabId mail fresh number).1.hasMessage threadId = true := by
  cases mail with
  | opening => exact Mailbox.hasMessage_openThread _ fresh number h
  | followUp threadId' n => exact Mailbox.hasMessage_sendOnThread _ number h

/-! ### One step -/

/-- The message under way is the one decided last. -/
theorem Kept.current (h : Kept w) (hmail : w.driver.pc.mail? = some mail) :
    w.decided[w.current]? = some ⟨w.run, mail⟩ := by
  have hlast := h.pending mail hmail
  rw [List.getLast?_eq_getElem?] at hlast
  exact hlast

theorem Kept.steps_attempt (h : Kept w) {number : Nat} {message : DecidedMessage}
    (hn : w.decided[number]? = some message) (fresh : ThreadId) :
    Lib.Outbox.Step w.outbox
      { w.outbox with sent := (w.mailbox.post w.ynabId message.mail fresh number).1.sent } := by
  have hthread := h.threads message (List.mem_of_getElem? hn)
  rw [sent_post w.mailbox w.ynabId fresh number hthread]
  exact .attempt (outbox_getElem? hn)

/-- The report of the message under way sends it and is done with it. -/
theorem Kept.steps_report (h : Kept w) (hmail : w.driver.pc.mail? = some mail) (fresh : ThreadId) :
    Lib.Outbox.Steps w.outbox
      { w.outbox with
        sent := (w.mailbox.post w.ynabId mail fresh w.current).1.sent
        done := w.done ++ [w.current] } := by
  have hcurrent := h.current hmail
  have hthread := h.threads _ (List.mem_of_getElem? hcurrent)
  refine .tail (.single (h.steps_attempt hcurrent fresh)) (.finish (outbox_getElem? hcurrent) ?_ ?_)
  · intro r hr
    obtain ⟨message, hmem, rfl⟩ := List.mem_map.1 hr
    exact h.runs message hmem
  · show ∃ e ∈ (w.mailbox.post w.ynabId mail fresh w.current).1.sent, e.1 = _
    rw [sent_post w.mailbox w.ynabId fresh w.current hthread]
    exact Lib.Outbox.exists_label_deliver _ _ _

/-- The thread an opening reports has a message. -/
theorem hasMessage_reported {mailbox : Mailbox} {ynabId : YnabTransactionId} {fresh : ThreadId}
    {number : Nat} {threadId : ThreadId}
    (h : (mailbox.post ynabId mail fresh number).2 = .thread threadId) :
    (mailbox.post ynabId mail fresh number).1.hasMessage threadId = true := by
  cases mail with
  | opening =>
    cases h
    exact Mailbox.hasMessage_opened mailbox _ fresh number
  | followUp threadId' n => cases h

/-- **One step.** The invariant is kept, and the outbox takes its steps. -/
theorem Kept.step (h : Kept w) {act : MailAct} (hstep : w.step text digest act = some w') :
    Kept w' ∧ Lib.Outbox.Steps w.outbox w'.outbox := by
  cases act with
  | drive act =>
    simp only [MailWorld.step] at hstep
    split at hstep
    · rename_i hcond
      obtain ⟨hreports, hsubmitted⟩ := hcond
      obtain ⟨d', hd', heq⟩ := Option.map_eq_some_iff.1 hstep
      cases heq
      have hturn := Driver.step_turn hd'
      refine ⟨h.goOn hturn hsubmitted ?_, h.steps_goOn hturn⟩
      rintro m threadId rfl
      have hopening := hturn.opening_of_thread
      unfold Driver.Act.reports at hreports
      rw [hopening] at hreports
      cases hreports
    · cases hstep
  | attempt number fresh =>
    simp only [MailWorld.step] at hstep
    split at hstep
    · rename_i message hn
      split at hstep
      · cases hstep
      · cases hstep
        exact ⟨h.moreMail (fun _ => hasMessage_post w.ynabId message.mail fresh number) w.done,
          .single (h.steps_attempt hn fresh)⟩
    · cases hstep
  | report m fresh =>
    simp only [MailWorld.step] at hstep
    split at hstep
    · rename_i mail hmail
      split at hstep
      · cases hstep
      · obtain ⟨d', hd', heq⟩ := Option.map_eq_some_iff.1 hstep
        cases heq
        have hturn := Driver.step_turn hd'
        have hsent := h.moreMail (fun _ => hasMessage_post w.ynabId mail fresh w.current)
          (w.done ++ [w.current])
        refine ⟨hsent.goOn hturn ?_ ?_, (h.steps_report hmail fresh).trans (hsent.steps_goOn hturn)⟩
        · intro signal hmem
          cases hmem
        · intro m' threadId hact
          exact hasMessage_reported (Driver.Act.returned.inj hact).2
    · cases hstep
  | arrive threadId =>
    cases hstep
    refine ⟨h.moreMail (fun _ => Mailbox.hasMessage_append _) w.done, ?_⟩
    have hsent : Mailbox.sent (w.mailbox ++ [{ threadId, stamp := none }]) = w.mailbox.sent := by
      simp [Mailbox.sent]
    unfold outbox
    rw [hsent]
  | start reply? =>
    simp only [MailWorld.step] at hstep
    split at hstep
    · rename_i hmay
      cases hstep
      refine ⟨h.startRun ?_, .refl⟩
      intro reply hmem
      rw [Option.mem_def.1 hmem] at hmay
      unfold mayStart at hmay
      split at hmay
      · rename_i hnone _; cases hnone
      · rename_i heq _; cases heq; exact hmay
      · rename_i heq _; cases heq; exact hmay
      · cases hmay
    · cases hstep

/-! ### Every sequence of runs -/

/-- Whether an earlier run sent the same one of its messages: its opening, or the follow-up with
that number. -/
def SentBefore (w : MailWorld) (message : DecidedMessage) : Prop :=
  ∃ n earlier, w.decided[n]? = some earlier ∧ earlier.run < message.run ∧
    earlier.mail.number? = message.mail.number? ∧ 0 < w.deliveries n

abbrev Run (text : PyText) {δ : Type} [DecidableEq δ] (digest : TargetState → δ) :=
  Lib.Run (Lib.StepOf (MailWorld.step text digest))

variable {beats : List (Lib.Beat MailWorld MailAct)} {ynabId : YnabTransactionId}

theorem Run.kept (h : Run text digest (init ynabId) beats w) : Kept w ∧ w.outbox.Sound := by
  have hinit : Kept (init ynabId) ∧ (init ynabId).outbox.Sound :=
    ⟨kept_init ynabId, Lib.Outbox.sound_init⟩
  refine Lib.Run.invariant (I := fun w => Kept w ∧ w.outbox.Sound) ?_ h hinit
  rintro w beat w' ⟨hkept, hsound⟩ ⟨hstep⟩
  obtain ⟨hkept', hsteps⟩ := hkept.step hstep
  exact ⟨hkept', hsound.steps hsteps⟩

theorem deliveries_pos {n : Nat} : 0 < w.deliveries n ↔ ∃ e ∈ w.mailbox.sent, e.2 = n := by
  unfold deliveries Lib.Outbox.deliveries
  rw [List.count_pos_iff, List.mem_map]

/-- What was sent carries the label of the message it is. -/
theorem label_of_sent (h : w.outbox.Sound) {e : String × Nat} (he : e ∈ w.mailbox.sent)
    {message : DecidedMessage} (hn : w.decided[e.2]? = some message) :
    e.1 = message.mail.label w.ynabId := by
  obtain ⟨r, hr, hlabel⟩ := h.honest e he
  rw [outbox_getElem? hn] at hr
  cases hr
  exact hlabel.symm

/-- A message that is done was delivered once exactly if no earlier run sent its like. -/
theorem delivered_iff (h : w.outbox.Sound) {n : Nat} (hdone : n ∈ w.done)
    {message : DecidedMessage} (hn : w.decided[n]? = some message) :
    w.deliveries n = 1 ↔ ¬ w.SentBefore message := by
  have hiff := h.delivered_iff hdone (outbox_getElem? hn)
  refine hiff.trans ?_
  constructor
  · rintro hnone ⟨k, earlier, hk, hrun, hnumber, hsent⟩
    obtain ⟨e, he, rfl⟩ := deliveries_pos.1 hsent
    have hlabel : e.1 = message.mail.label w.ynabId :=
      (label_of_sent h he hk).trans (Mail.label_eq_iff.2 hnumber)
    exact hnone e he hlabel _ (outbox_getElem? hk) hrun
  · intro hfirst e he hlabel r hr hepoch
    have hmap : (w.decided[e.2]?).map
        (fun message => Lib.Request.mk message.run (message.mail.label w.ynabId)) = some r :=
      List.getElem?_map.symm.trans hr
    obtain ⟨earlier, hk, rfl⟩ := Option.map_eq_some_iff.1 hmap
    have hsame := (label_of_sent h he hk).symm.trans hlabel
    exact hfirst ⟨e.2, earlier, hk, hepoch, Mail.label_eq_iff.1 hsame,
      deliveries_pos.2 ⟨e, he, rfl⟩⟩

/-- **Delivered exactly once.** Over every sequence of runs of a transaction and every retry, the
messages of one run have labels of their own, none is delivered twice, and a message that is done
was delivered once exactly if no earlier run sent the one of its number. -/
theorem decided_delivered_iff (h : Run text digest (init ynabId) beats w) :
    (∀ (i j : Nat) (message message' : DecidedMessage), i ≠ j → w.decided[i]? = some message →
      w.decided[j]? = some message' → message.run = message'.run →
        message.mail.label w.ynabId ≠ message'.mail.label w.ynabId) ∧
      (∀ n, w.deliveries n ≤ 1) ∧
        ∀ n ∈ w.done, ∀ message, w.decided[n]? = some message →
          (w.deliveries n = 1 ↔ ¬ w.SentBefore message) := by
  obtain ⟨-, hsound⟩ := h.kept
  refine ⟨?_, ?_, fun n hdone message hn => delivered_iff hsound hdone hn⟩
  · intro i j message message' hne hi hj hrun hlabel
    have hri := outbox_getElem? hi
    have hrj := outbox_getElem? hj
    rw [← hrun, ← hlabel] at hrj
    obtain ⟨hi', hgi⟩ := List.getElem?_eq_some_iff.1 hri
    obtain ⟨hj', hgj⟩ := List.getElem?_eq_some_iff.1 hrj
    exact hne ((List.Nodup.getElem_inj_iff hsound.nodup).1 (hgi.trans hgj.symm))
  · intro n
    exact List.nodup_iff_count_le_one.1 hsound.numbers n

/-! ### A fresh run of an archived charge -/

/-- The charge is proposed, and the owner's answer asked about. -/
def askedAgain : List MailAct :=
  [.drive (.returned ⟨0, 0⟩ (.snapshot (some reconciledSnapshot))),
    .drive (.returned ⟨0, 0⟩ (.enriched (.askHuman diningProposal))), .report ⟨0, 0⟩ "t1",
    .drive (.submitInbound diningReply), .drive (.wake ⟨1, 0⟩),
    .drive (.returned ⟨1, 0⟩ (.interpreted (.clarify "which one?"))), .report ⟨1, 0⟩ "t2"]

theorem asked_delivered :
    ∃ beats w, Run PyText.ascii (fun t : TargetState => t) (init "y1") beats w ∧
      w.done = [0, 1] ∧ w.deliveries 0 = 1 ∧ w.deliveries 1 = 1 := by
  have hexec : ∃ beats w, Lib.exec (step PyText.ascii fun t : TargetState => t) (init "y1")
      askedAgain = some (beats, w) ∧ w.done = [0, 1] ∧ w.decided[0]? = some ⟨0, .opening⟩ ∧
        w.decided[1]? = some ⟨0, .followUp "t1" 1⟩ :=
    ⟨_, _, rfl, rfl, rfl, rfl⟩
  obtain ⟨beats, w, hexec, hdone, hfirst, hsecond⟩ := hexec
  have hrun := Lib.exec_run hexec
  have hiff := (decided_delivered_iff hrun).2.2
  -- no run came before the first
  have hnone : ∀ mail, ¬ w.SentBefore ⟨0, mail⟩ := by
    rintro mail ⟨n, earlier, -, hrun, -⟩
    exact Nat.not_lt_zero _ hrun
  refine ⟨beats, w, hrun, hdone, (hiff 0 ?_ _ hfirst).2 (hnone _),
    (hiff 1 ?_ _ hsecond).2 (hnone _)⟩
  · rw [hdone]; exact List.mem_cons_self
  · rw [hdone]; exact List.mem_cons_of_mem _ List.mem_cons_self

/-- The charge lapses and is archived; a reply starts a fresh run, which proposes it again. -/
def proposedAfresh : List MailAct :=
  askedAgain ++
    [.drive (.timeout ⟨Timedelta.days 8, 0⟩), .report ⟨Timedelta.days 8, 0⟩ "t2",
      .drive (.timeout ⟨Timedelta.days 40, 0⟩), .drive (.returned ⟨Timedelta.days 40, 0⟩ .done),
      .start
        (some { threadId := "t1", messageId := "m2", fromAddress := "owner", text := "gifts" }),
      .drive (.returned ⟨Timedelta.days 41, 0⟩ (.snapshot (some reconciledSnapshot))),
      .drive (.returned ⟨Timedelta.days 41, 0⟩ (.enriched (.askHuman diningProposal))),
      .report ⟨Timedelta.days 41, 0⟩ "t2", .drive (.wake ⟨Timedelta.days 41, 0⟩),
      .drive (.returned ⟨Timedelta.days 41, 0⟩ (.interpreted (.clarify "dining or gifts?"))),
      .report ⟨Timedelta.days 41, 0⟩ "t2"]

/-- The fresh run's proposal and its first question go under the labels of the first run's, and are
never delivered. -/
theorem fresh_run_swallowed :
    ∃ beats w, Run PyText.ascii (fun t : TargetState => t) (init "y1") beats w ∧
      w.decided[3]? = some ⟨1, .opening⟩ ∧ w.decided[4]? = some ⟨1, .followUp "t1" 1⟩ ∧
      3 ∈ w.done ∧ 4 ∈ w.done ∧ w.deliveries 3 = 0 ∧ w.deliveries 4 = 0 := by
  have hexec : ∃ beats w, Lib.exec (step PyText.ascii fun t : TargetState => t) (init "y1")
      proposedAfresh = some (beats, w) ∧ w.done = [0, 1, 2, 3, 4] ∧
        w.decided[3]? = some ⟨1, .opening⟩ ∧ w.decided[4]? = some ⟨1, .followUp "t1" 1⟩ ∧
        w.deliveries 3 = 0 ∧ w.deliveries 4 = 0 :=
    ⟨_, _, rfl, rfl, rfl, rfl, rfl, rfl⟩
  obtain ⟨beats, w, hexec, hdone, hthird, hfourth, hnone, hnone'⟩ := hexec
  refine ⟨beats, w, Lib.exec_run hexec, hthird, hfourth, ?_, ?_, hnone, hnone'⟩
  · rw [hdone]; decide
  · rw [hdone]; decide

end MailWorld

end YnabAgent
