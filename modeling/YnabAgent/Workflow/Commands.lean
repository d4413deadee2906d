import YnabAgent.Learn.Transitions
import YnabAgent.Lib.Run
import YnabAgent.Mail.Client
import YnabAgent.Workflow.Balance

/-!
# The read-back of a standing command

"Always categorize X as Y" is blessed only after its read-back was confirmed
(`workflow/command_workflow.py`). The workflow of a command is started under an id made of its payee
and category; while one is running a resend is a no-op, and a command after it closed starts another
execution (`workflow/dispatch_activities.py`). The executions send into one mailbox, each message
under a label made of the id (`workflow/command_activities.py`). An attempt looks for its label and
sends in one step; it may not report, and may come late.

The executions are an outbox (`CommandWorld.outbox`): every execution is an epoch of its own, and
those under one id share the label of the read-back. One that opened its thread sent its own iff no
earlier one under its id had sent one (`commands_read_back_iff`).
-/

namespace YnabAgent

/-! ## Ids and labels -/

/-- The category an allocation names, for the id. -/
def ProposedAllocation.commandCategory : ProposedAllocation → String
  | .category id _ => id
  | .split _ => "split"

/-- The id of the workflow of a command; `sha256` is the hex digest. -/
def commandConfirmId (sha256 : String → String) (command : ExplicitCommand) : String :=
  let key := command.match.payeePattern ++ "|" ++ command.action.allocation.commandCategory
  "command-confirm-" ++ String.ofList ((sha256 key).toList.take 16)

def readBackLabel (confirmId : String) : String :=
  "yacmd-" ++ confirmId

def acceptLabel (confirmId : String) : String :=
  "yacmd-accept-" ++ confirmId

def declineLabel (confirmId : String) : String :=
  "yacmd-decline-" ++ confirmId

def unclearLabel (messageId : MessageId) : String :=
  "yaoffer-unclear-" ++ messageId

/-- Whether a label is that of a read-back. -/
def isReadBack (label : String) : Bool :=
  "yacmd-command-confirm-".toList.isPrefixOf label.toList

theorem isReadBack_readBackLabel (sha256 : String → String) (command : ExplicitCommand) :
    isReadBack (readBackLabel (commandConfirmId sha256 command)) = true := by
  unfold isReadBack readBackLabel commandConfirmId
  rw [String.toList_append, String.toList_append]
  rfl

theorem isReadBack_acceptLabel (confirmId : String) :
    isReadBack (acceptLabel confirmId) = false := by
  unfold isReadBack acceptLabel
  rw [String.toList_append]
  rfl

theorem isReadBack_declineLabel (confirmId : String) :
    isReadBack (declineLabel confirmId) = false := by
  unfold isReadBack declineLabel
  rw [String.toList_append]
  rfl

theorem isReadBack_unclearLabel (messageId : MessageId) :
    isReadBack (unclearLabel messageId) = false := by
  unfold isReadBack unclearLabel
  rw [String.toList_append]
  rfl

theorem readBackLabel_inj {confirmId confirmId' : String} :
    readBackLabel confirmId = readBackLabel confirmId' ↔ confirmId = confirmId' :=
  String.append_right_inj _

/-! ## One execution -/

inductive OfferVerdict
  | accept | decline | unclear
  deriving DecidableEq

/-- The activities that mail. -/
inductive ConfirmTask
  | openThread | accept | decline
  | clarify (message : InboundMessage)
  deriving DecidableEq

/-- Where an execution is suspended, or that it is over. -/
inductive ConfirmPhase
  | calling (task : ConfirmTask)
  | waiting
  | interpreting (message : InboundMessage)
  | closed
  deriving DecidableEq

/-- How long the read-back waits for the owner's word. -/
def commandConfirmPatience : Timedelta := Timedelta.days 3

/-- An execution, with the activities it called; it has its thread once the read-back is opened. -/
structure CommandConfirm where
  command : ExplicitCommand
  phase : ConfirmPhase := .calling .openThread
  called : List ConfirmTask := [.openThread]
  threadId : Option ThreadId := none
  deadline : Datetime := 0
  responses : List InboundMessage := []
  deriving DecidableEq

namespace CommandConfirm

/-- A signal, or what resumes an execution but for an activity that mails. -/
inductive Act
  | submitResponse (message : InboundMessage)
  | wake
  | interpreted (verdict : OfferVerdict)
  | timeout (now : Datetime)
  | fail

def call (e : CommandConfirm) (task : ConfirmTask) : CommandConfirm :=
  { e with phase := .calling task, called := e.called ++ [task] }

/-- What an execution does on a verdict. -/
def onVerdict (message : InboundMessage) : OfferVerdict → ConfirmTask
  | .accept => .accept
  | .decline => .decline
  | .unclear => .clarify message

def step (e : CommandConfirm) : Act → Option CommandConfirm
  | .submitResponse message =>
    if e.phase = .closed then none else some { e with responses := e.responses ++ [message] }
  | .wake =>
    match e.phase, e.responses with
    | .waiting, message :: rest => some { e with responses := rest, phase := .interpreting message }
    | _, _ => none
  | .interpreted verdict =>
    match e.phase with
    | .interpreting message => some (e.call (onVerdict message verdict))
    | _ => none
  | .timeout now =>
    if e.phase = .waiting ∧ e.deadline ≤ now then some { e with phase := .closed } else none
  | .fail =>
    match e.phase with
    | .calling _ | .interpreting _ => some { e with phase := .closed }
    | _ => none

/-- A reply on the thread of the execution. -/
def reply (e : CommandConfirm) (mailbox : Mailbox) (label : String) (number : Nat) : Mailbox :=
  match e.threadId with
  | some threadId => mailbox.sendOnThread threadId label number
  | none => mailbox

/-- An attempt of an activity that mails, with the thread the execution then has. -/
def post (sha256 : String → String) (e : CommandConfirm) (mailbox : Mailbox) (number : Nat)
    (fresh : ThreadId) : ConfirmTask → Mailbox × Option ThreadId
  | .openThread =>
    let confirmId := commandConfirmId sha256 e.command
    let opened := mailbox.openThread (readBackLabel confirmId) fresh number
    (opened.1, some opened.2)
  | .accept =>
    let confirmId := commandConfirmId sha256 e.command
    (e.reply mailbox (acceptLabel confirmId) number, e.threadId)
  | .decline =>
    let confirmId := commandConfirmId sha256 e.command
    (e.reply mailbox (declineLabel confirmId) number, e.threadId)
  | .clarify message => (e.reply mailbox (unclearLabel message.messageId) number, e.threadId)

/-- What an execution does when an activity that mails returns. -/
def goOn (e : CommandConfirm) (now : Datetime) (threadId : Option ThreadId) :
    ConfirmTask → CommandConfirm
  | .openThread => { e with threadId, deadline := now + commandConfirmPatience, phase := .waiting }
  | .accept | .decline => { e with phase := .closed }
  | .clarify _ => { e with phase := .waiting }

/-- Past the opening of the read-back. -/
def Opened (e : CommandConfirm) : Prop :=
  e.threadId.isSome = true

/-- An execution that is not over is opening its read-back, or past it. -/
def Orderly (e : CommandConfirm) : Prop :=
  e.phase = .calling .openThread ∨ e.phase = .closed ∨ e.Opened

variable {e e' : CommandConfirm}

/-- An execution suspended elsewhere than in the opening is past it. -/
theorem Orderly.opened (h : e.Orderly) (hopening : e.phase ≠ .calling .openThread)
    (hopen : e.phase ≠ .closed) : e.Opened :=
  (h.resolve_left hopening).resolve_left hopen

/-- What an act of an execution can do. -/
theorem step_cases {act : Act} (h : e.step act = some e') :
    e.phase ≠ .closed ∧ e'.command = e.command ∧ e'.threadId = e.threadId ∧
      (e.Orderly → e'.Orderly) := by
  cases act with
  | submitResponse message =>
    simp only [step] at h
    split at h
    · cases h
    · rename_i hopen
      cases h
      exact ⟨hopen, rfl, rfl, id⟩
  | wake =>
    simp only [step] at h
    split at h
    · rename_i hphase _
      cases h
      have hopen : e.phase ≠ .closed := by rw [hphase]; nofun
      refine ⟨hopen, rfl, rfl, fun h => ?_⟩
      have hopened : e.Opened := h.opened (by rw [hphase]; nofun) hopen
      exact .inr (.inr hopened)
    · cases h
  | interpreted verdict =>
    simp only [step] at h
    split at h
    · rename_i hphase
      cases h
      have hopen : e.phase ≠ .closed := by rw [hphase]; nofun
      refine ⟨hopen, rfl, rfl, fun h => ?_⟩
      have hopened : e.Opened := h.opened (by rw [hphase]; nofun) hopen
      exact .inr (.inr hopened)
    · cases h
  | timeout now =>
    simp only [step] at h
    split at h
    · rename_i hwaits
      cases h
      exact ⟨by rw [hwaits.1]; nofun, rfl, rfl, fun _ => .inr (.inl rfl)⟩
    · cases h
  | fail =>
    simp only [step] at h
    split at h
    · rename_i hphase
      cases h
      exact ⟨by rw [hphase]; nofun, rfl, rfl, fun _ => .inr (.inl rfl)⟩
    · rename_i hphase
      cases h
      exact ⟨by rw [hphase]; nofun, rfl, rfl, fun _ => .inr (.inl rfl)⟩
    · cases h

theorem goOn_command (now : Datetime) (threadId : Option ThreadId) (task : ConfirmTask) :
    (e.goOn now threadId task).command = e.command := by
  cases task <;> rfl

/-- Only the opening of the read-back gives an execution a thread. -/
theorem goOn_threadId (now : Datetime) (threadId : Option ThreadId) {task : ConfirmTask}
    (h : task ≠ .openThread) : (e.goOn now threadId task).threadId = e.threadId := by
  cases task with
  | openThread => exact absurd rfl h
  | accept => rfl
  | decline => rfl
  | clarify message => rfl

/-- The thread an attempt returns is that of the execution, unless it opens one. -/
theorem goOn_orderly {sha256 : String → String} {mailbox : Mailbox} {number : Nat}
    {fresh : ThreadId} {now : Datetime} {task : ConfirmTask} (hphase : e.phase = .calling task)
    (h : e.Orderly) : (e.goOn now (e.post sha256 mailbox number fresh task).2 task).Orderly := by
  cases task with
  | openThread => exact .inr (.inr rfl)
  | accept => exact .inr (.inl rfl)
  | decline => exact .inr (.inl rfl)
  | clarify message =>
    have hopened : e.Opened := h.opened (by rw [hphase]; nofun) (by rw [hphase]; nofun)
    exact .inr (.inr hopened)

end CommandConfirm

/-! ## The read-backs in the mailbox -/

/-- The read-backs sent, under their labels. -/
def Mailbox.readBacks (box : Mailbox) : List (String × Nat) :=
  box.sent.filter fun e => isReadBack e.1

theorem Mailbox.readBacks_append {box : Mailbox} {message : Message}
    (h : ∀ e ∈ message.stamp, isReadBack e.1 = false) :
    Mailbox.readBacks (box ++ [message]) = box.readBacks := by
  unfold Mailbox.readBacks Mailbox.sent
  rw [List.filterMap_append, List.filter_append]
  cases hstamp : message.stamp with
  | none => simp [hstamp]
  | some e =>
    have hno := h e hstamp
    simp [hstamp, hno]

theorem Mailbox.readBacks_sendOnThread {box : Mailbox} {label : String} (threadId : ThreadId)
    (number : Nat) (h : isReadBack label = false) :
    (box.sendOnThread threadId label number).readBacks = box.readBacks := by
  unfold Mailbox.sendOnThread
  split
  · rfl
  · split
    · refine Mailbox.readBacks_append fun e he => ?_
      cases he
      exact h
    · rfl

namespace CommandConfirm

variable (sha256 : String → String) (e : CommandConfirm) (mailbox : Mailbox) (number : Nat)

/-- The label of the read-back of an execution. -/
def label : String :=
  readBackLabel (commandConfirmId sha256 e.command)

theorem readBacks_reply {label : String} (h : isReadBack label = false) :
    (e.reply mailbox label number).readBacks = mailbox.readBacks := by
  unfold reply
  split
  · exact Mailbox.readBacks_sendOnThread _ number h
  · rfl

/-- An attempt delivers the read-back, or leaves the read-backs as they are. -/
theorem readBacks_post (fresh : ThreadId) (task : ConfirmTask) :
    (e.post sha256 mailbox number fresh task).1.readBacks =
      if task = .openThread then Lib.Outbox.deliver (e.label sha256) number mailbox.readBacks
      else mailbox.readBacks := by
  cases task with
  | openThread =>
    rw [if_pos rfl]
    unfold Mailbox.readBacks post
    rw [Mailbox.sent_openThread]
    exact Lib.Outbox.filter_deliver isReadBack (isReadBack_readBackLabel sha256 e.command) number _
  | accept => exact readBacks_reply e mailbox number (isReadBack_acceptLabel _)
  | decline => exact readBacks_reply e mailbox number (isReadBack_declineLabel _)
  | clarify message => exact readBacks_reply e mailbox number (isReadBack_unclearLabel _)

end CommandConfirm

/-! ## The executions and the mailbox -/

/-- The executions in the order they were started, and the mailbox they share. -/
structure CommandWorld where
  executions : List CommandConfirm := []
  mailbox : Mailbox := []
  deriving DecidableEq

namespace CommandWorld

/-- `command` is the start of a workflow; `attempt` is an attempt that does not report, `report` the
one the execution goes on from; `arrive` is any other mail. -/
inductive Act
  | command (command : ExplicitCommand)
  | attempt (n : Nat) (task : ConfirmTask) (fresh : ThreadId)
  | report (n : Nat) (fresh : ThreadId) (now : Datetime)
  | drive (n : Nat) (act : CommandConfirm.Act)
  | arrive (message : Message)

variable (sha256 : String → String)

def step (w : CommandWorld) : Act → Option CommandWorld
  | .command command =>
    -- a resend while one is running conflicts, and is swallowed
    if ∃ e ∈ w.executions,
        commandConfirmId sha256 e.command = commandConfirmId sha256 command ∧ e.phase ≠ .closed then
      some w
    else some { w with executions := w.executions ++ [{ command }] }
  | .attempt n task fresh =>
    match w.executions[n]? with
    | some e =>
      if task ∈ e.called then some { w with mailbox := (e.post sha256 w.mailbox n fresh task).1 }
      else none
    | none => none
  | .report n fresh now =>
    match w.executions[n]? with
    | some e =>
      match e.phase with
      | .calling task =>
        let posted := e.post sha256 w.mailbox n fresh task
        some
          { executions := w.executions.set n (e.goOn now posted.2 task)
            mailbox := posted.1 }
      | _ => none
    | none => none
  | .drive n act =>
    match w.executions[n]? with
    | some e => (e.step act).map fun e' => { w with executions := w.executions.set n e' }
    | none => none
  | .arrive message =>
    if ∀ e ∈ message.stamp, isReadBack e.1 = false then
      some { w with mailbox := w.mailbox ++ [message] }
    else none

/-- How often an execution sent its own read-back. -/
def readBacks (w : CommandWorld) (n : Nat) : Nat :=
  Lib.Outbox.deliveries w.mailbox.readBacks n

/-- An earlier execution under the id of the execution `n` sent its read-back. -/
def SentBefore (w : CommandWorld) (n : Nat) : Prop :=
  ∃ m a b, m < n ∧ w.executions[m]? = some a ∧ w.executions[n]? = some b ∧
    commandConfirmId sha256 a.command = commandConfirmId sha256 b.command ∧ 0 < w.readBacks m

/-- The read-backs as an outbox: the request of an execution is done once the thread is opened. -/
def outbox (w : CommandWorld) : Lib.Outbox String where
  requests := w.executions.mapIdx fun n e => ⟨n, e.label sha256⟩
  sent := w.mailbox.readBacks
  done := (List.range w.executions.length).filter fun n =>
    w.executions[n]?.any (·.threadId.isSome)

/-- The invariant. -/
structure Kept (w : CommandWorld) : Prop where
  /-- Of the executions under one id only the last may be running. -/
  alone : ∀ {m n : Nat} {a b : CommandConfirm}, m < n → w.executions[m]? = some a →
    w.executions[n]? = some b → a.label sha256 = b.label sha256 → a.phase = .closed
  orderly : ∀ e ∈ w.executions, e.Orderly
  sound : (w.outbox sha256).Sound

variable {sha256} {w w' : CommandWorld} {n : Nat} {e e' : CommandConfirm}

theorem getElem?_requests :
    (w.outbox sha256).requests[n]? = w.executions[n]?.map fun e => ⟨n, e.label sha256⟩ := by
  simp [outbox]

theorem mem_done : n ∈ (w.outbox sha256).done ↔ ∃ e, w.executions[n]? = some e ∧ e.Opened := by
  unfold outbox CommandConfirm.Opened
  rw [List.mem_filter, Option.any_eq_true, List.mem_range]
  constructor
  · rintro ⟨-, hopened⟩
    exact hopened
  · rintro ⟨e, he, hopened⟩
    exact ⟨(List.getElem?_eq_some_iff.1 he).1, e, he, hopened⟩

theorem label_eq_iff {a b : CommandConfirm} : a.label sha256 = b.label sha256 ↔
    commandConfirmId sha256 a.command = commandConfirmId sha256 b.command :=
  readBackLabel_inj

theorem label_congr (h : e'.command = e.command) : e'.label sha256 = e.label sha256 := by
  unfold CommandConfirm.label
  rw [h]

/-- An execution that goes on under its command keeps its request. -/
theorem requests_set (sha256 : String → String) (hn : w.executions[n]? = some e)
    (hcommand : e'.command = e.command) :
    (outbox sha256 { w with executions := w.executions.set n e' }).requests =
      (w.outbox sha256).requests := by
  refine List.ext_getElem? fun k => ?_
  rw [getElem?_requests, getElem?_requests, List.getElem?_set]
  by_cases hk : n = k
  · subst hk
    rw [if_pos rfl, if_pos (List.getElem?_eq_some_iff.1 hn).1, hn, Option.map_some, Option.map_some,
      label_congr hcommand]
  · rw [if_neg hk]

namespace Kept

theorem init : Kept sha256 {} where
  alone _ hm := by cases hm
  orderly e he := by cases he
  sound := Lib.Outbox.sound_init

/-- A command starts an execution when those under its id are over. -/
theorem command (h : w.Kept sha256) {command : ExplicitCommand}
    (hover : ∀ e ∈ w.executions,
      commandConfirmId sha256 e.command = commandConfirmId sha256 command → e.phase = .closed) :
    Kept sha256 { w with executions := w.executions ++ [{ command }] } where
  alone := by
    intro m k a b hmk ha hb hlabel
    have hk : k < w.executions.length + 1 := by
      have hlt := (List.getElem?_eq_some_iff.1 hb).1
      rwa [List.length_append, List.length_singleton] at hlt
    rw [List.getElem?_append_left (by omega)] at ha
    by_cases hlast : k = w.executions.length
    · subst hlast
      rw [List.getElem?_concat_length] at hb
      cases hb
      have hid := label_eq_iff.1 hlabel
      exact hover a (List.mem_of_getElem? ha) hid
    · rw [List.getElem?_append_left (by omega)] at hb
      exact h.alone hmk ha hb hlabel
  orderly := by
    intro e he
    rcases List.mem_append.1 he with hold | hnew
    · exact h.orderly e hold
    · rw [List.mem_singleton.1 hnew]
      exact .inl rfl
  sound := by
    have hnew : (⟨w.executions.length, CommandConfirm.label sha256 { command }⟩ :
        Lib.Request String) ∉ (w.outbox sha256).requests := by
      intro hmem
      obtain ⟨n, hn⟩ := List.getElem?_of_mem hmem
      rw [getElem?_requests] at hn
      obtain ⟨e, he, heq⟩ := Option.map_eq_some_iff.1 hn
      have hlt := (List.getElem?_eq_some_iff.1 he).1
      have hepoch : n = w.executions.length := congrArg Lib.Request.epoch heq
      omega
    refine (h.sound.request hnew).of_done List.mapIdx_concat rfl fun n hn => ?_
    obtain ⟨e, he, hopened⟩ := mem_done.1 hn
    show n ∈ (w.outbox sha256).done
    refine mem_done.2 ⟨e, ?_, hopened⟩
    by_cases hlast : n < w.executions.length
    · rwa [List.getElem?_append_left hlast] at he
    · rw [List.getElem?_append_right (by omega)] at he
      have hmem := List.mem_of_getElem? he
      rw [List.mem_singleton.1 hmem] at hopened
      cases hopened

/-- An execution that is not over goes on; opening its thread takes a read-back under its label. -/
theorem go (h : w.Kept sha256) (hn : w.executions[n]? = some e) (hopen : e.phase ≠ .closed)
    (hcommand : e'.command = e.command) (horderly : e'.Orderly)
    (hserved : e'.Opened → e.Opened ∨ ∃ m ∈ w.mailbox.readBacks, m.1 = e.label sha256) :
    Kept sha256 { w with executions := w.executions.set n e' } where
  alone := by
    intro m k a b hmk ha hb hlabel
    rw [List.getElem?_set] at ha hb
    by_cases hm : n = m
    · -- an execution after it has another label, since it was running
      subst hm
      rw [if_pos rfl, if_pos (List.getElem?_eq_some_iff.1 hn).1] at ha
      rw [if_neg (by omega)] at hb
      cases ha
      rw [label_congr hcommand] at hlabel
      exact absurd (h.alone hmk hn hb hlabel) hopen
    · rw [if_neg hm] at ha
      by_cases hk : n = k
      · subst hk
        rw [if_pos rfl, if_pos (List.getElem?_eq_some_iff.1 hn).1] at hb
        cases hb
        rw [label_congr hcommand] at hlabel
        exact h.alone hmk ha hn hlabel
      · rw [if_neg hk] at hb
        exact h.alone hmk ha hb hlabel
  orderly := by
    intro b hb
    rcases List.mem_or_eq_of_mem_set hb with hold | rfl
    · exact h.orderly b hold
    · exact horderly
  sound := by
    have hrequests := requests_set sha256 hn hcommand
    -- the executions past their opening are those there were, and this one if it opened now
    have hdone : ∀ k ∈ (outbox sha256 { w with executions := w.executions.set n e' }).done,
        k ∈ (w.outbox sha256).done ∨ k = n ∧ e'.Opened := by
      intro k hk
      obtain ⟨b, hb, hopened⟩ := mem_done.1 hk
      rw [List.getElem?_set] at hb
      by_cases hkn : n = k
      · subst hkn
        rw [if_pos rfl, if_pos (List.getElem?_eq_some_iff.1 hn).1] at hb
        cases hb
        exact .inr ⟨rfl, hopened⟩
      · rw [if_neg hkn] at hb
        exact .inl (mem_done.2 ⟨b, hb, hopened⟩)
    by_cases hnew : e'.Opened ∧ ¬ e.Opened
    · have hsent := (hserved hnew.1).resolve_left hnew.2
      have hr : (w.outbox sha256).requests[n]? = some ⟨n, e.label sha256⟩ := by
        rw [getElem?_requests, hn, Option.map_some]
      have hlast : ∀ r ∈ (w.outbox sha256).requests, r.label = e.label sha256 → r.epoch ≤ n := by
        intro r hr hlabel
        obtain ⟨k, hk⟩ := List.getElem?_of_mem hr
        rw [getElem?_requests] at hk
        obtain ⟨b, hb, rfl⟩ := Option.map_eq_some_iff.1 hk
        refine Nat.not_lt.1 fun hlt => ?_
        exact hopen (h.alone hlt hn hb hlabel.symm)
      refine (h.sound.finish_among hr hlast hsent).of_done hrequests rfl fun k hk => ?_
      rcases hdone k hk with hold | ⟨rfl, -⟩
      · exact List.mem_append_left _ hold
      · exact List.mem_append_right _ (List.mem_singleton.2 rfl)
    · refine h.sound.of_done hrequests rfl fun k hk => ?_
      rcases hdone k hk with hold | ⟨rfl, hopened⟩
      · exact hold
      · have hbefore : e.Opened := by
          by_contra hnot
          exact hnew ⟨hopened, hnot⟩
        exact mem_done.2 ⟨e, hn, hbefore⟩

/-- Mail that delivers the read-back of an execution, or none. -/
theorem mail (h : w.Kept sha256) {box : Mailbox}
    (hmail : box.readBacks = w.mailbox.readBacks ∨ ∃ n e, w.executions[n]? = some e ∧
      box.readBacks = Lib.Outbox.deliver (e.label sha256) n w.mailbox.readBacks) :
    Kept sha256 { w with mailbox := box } where
  alone := h.alone
  orderly := h.orderly
  sound := by
    rcases hmail with hsame | ⟨n, e, hn, hdeliver⟩
    · exact h.sound.of_done rfl hsame fun k hk => hk
    · have hr : (w.outbox sha256).requests[n]? = some ⟨n, e.label sha256⟩ := by
        rw [getElem?_requests, hn, Option.map_some]
      exact (h.sound.attempt hr).of_done rfl hdeliver fun k hk => hk

theorem post (h : w.Kept sha256) (hn : w.executions[n]? = some e) (fresh : ThreadId)
    (task : ConfirmTask) :
    Kept sha256 { w with mailbox := (e.post sha256 w.mailbox n fresh task).1 } := by
  have hpost := CommandConfirm.readBacks_post sha256 e w.mailbox n fresh task
  refine h.mail ?_
  by_cases htask : task = .openThread
  · rw [if_pos htask] at hpost
    exact .inr ⟨n, e, hn, hpost⟩
  · rw [if_neg htask] at hpost
    exact .inl hpost

/-- **A step keeps the invariant.** -/
theorem step (h : w.Kept sha256) {act : Act} (hstep : w.step sha256 act = some w') :
    w'.Kept sha256 := by
  cases act with
  | command command =>
    simp only [CommandWorld.step] at hstep
    split at hstep
    · cases hstep
      exact h
    · rename_i hnone
      cases hstep
      refine h.command fun e he hid => ?_
      by_contra hopen
      exact hnone ⟨e, he, hid, hopen⟩
  | attempt n task fresh =>
    simp only [CommandWorld.step] at hstep
    split at hstep
    · rename_i e hn
      split at hstep
      · cases hstep
        exact h.post hn fresh task
      · cases hstep
    · cases hstep
  | report n fresh now =>
    simp only [CommandWorld.step] at hstep
    split at hstep
    · rename_i e hn
      split at hstep
      · rename_i task hphase
        cases hstep
        refine (h.post hn fresh task).go hn (by rw [hphase]; nofun) (e.goOn_command now _ task)
          (CommandConfirm.goOn_orderly hphase (h.orderly e (List.mem_of_getElem? hn))) ?_
        intro hopened
        by_cases htask : task = .openThread
        · have hpost := CommandConfirm.readBacks_post sha256 e w.mailbox n fresh task
          rw [if_pos htask] at hpost
          refine .inr ?_
          show ∃ m ∈ (e.post sha256 w.mailbox n fresh task).1.readBacks, m.1 = e.label sha256
          rw [hpost]
          exact Lib.Outbox.exists_label_deliver _ n _
        · unfold CommandConfirm.Opened at hopened ⊢
          rw [CommandConfirm.goOn_threadId now _ htask] at hopened
          exact .inl hopened
      · cases hstep
    · cases hstep
  | drive n act =>
    simp only [CommandWorld.step] at hstep
    split at hstep
    · rename_i e hn
      obtain ⟨e', he', rfl⟩ := Option.map_eq_some_iff.1 hstep
      obtain ⟨hopen, hcommand, hthread, horderly⟩ := CommandConfirm.step_cases he'
      refine h.go hn hopen hcommand (horderly (h.orderly e (List.mem_of_getElem? hn))) ?_
      intro hopened
      unfold CommandConfirm.Opened at hopened ⊢
      rw [hthread] at hopened
      exact .inl hopened
    · cases hstep
  | arrive message =>
    simp only [CommandWorld.step] at hstep
    split at hstep
    · rename_i hother
      cases hstep
      exact h.mail (.inl (Mailbox.readBacks_append hother))
    · cases hstep

theorem run {beats : List (Lib.Beat CommandWorld Act)}
    (h : Lib.Run (Lib.StepOf (CommandWorld.step sha256)) {} beats w) : w.Kept sha256 := by
  refine h.invariant (I := Kept sha256) ?_ init
  intro s beat t hs hstep
  obtain ⟨hact⟩ := hstep
  exact hs.step hact

/-- The read-back of an execution that opened its thread is its own unless one was sent before. -/
theorem readBacks_iff (h : w.Kept sha256) (hn : w.executions[n]? = some e) (hopened : e.Opened) :
    w.readBacks n = 1 ↔ ¬ w.SentBefore sha256 n := by
  have hr : (w.outbox sha256).requests[n]? = some ⟨n, e.label sha256⟩ := by
    rw [getElem?_requests, hn, Option.map_some]
  refine (h.sound.delivered_iff (mem_done.2 ⟨e, hn, hopened⟩) hr).trans ?_
  constructor
  · rintro hfresh ⟨m, a, b, hlt, ha, hb, hid, hsent⟩
    rw [hn] at hb
    cases hb
    obtain ⟨mail, hmail, rfl⟩ := List.mem_map.1 (List.count_pos_iff.1 hsent)
    obtain ⟨r, hr, hlabel⟩ := h.sound.honest mail hmail
    have hr' := hr
    rw [getElem?_requests, ha, Option.map_some] at hr
    cases hr
    refine hfresh mail hmail ?_ _ hr' hlt
    rw [← hlabel]
    exact label_eq_iff.2 hid
  · intro hnone mail hmail hlabel r hr hlt
    rw [getElem?_requests] at hr
    obtain ⟨a, ha, rfl⟩ := Option.map_eq_some_iff.1 hr
    obtain ⟨r, hr, hlabel'⟩ := h.sound.honest mail hmail
    rw [getElem?_requests, ha, Option.map_some] at hr
    cases hr
    refine hnone ⟨mail.2, a, e, hlt, ha, hn, label_eq_iff.1 (hlabel'.trans hlabel), ?_⟩
    exact List.count_pos_iff.2 (List.mem_map_of_mem hmail)

end Kept

end CommandWorld

/-! ## The main result -/

/-- Of the executions of a run, one that waits has its thread, none sends its read-back twice, and
one that has its thread sent its own read-back iff no earlier one under its id had sent one. -/
theorem commands_read_back_iff (sha256 : String → String) {w : CommandWorld}
    {beats : List (Lib.Beat CommandWorld CommandWorld.Act)}
    (h : Lib.Run (Lib.StepOf (CommandWorld.step sha256)) {} beats w) {n : Nat} {e : CommandConfirm}
    (hn : w.executions[n]? = some e) :
    (e.phase = .waiting → e.Opened) ∧ w.readBacks n ≤ 1 ∧
      (e.Opened → (w.readBacks n = 1 ↔ ¬ w.SentBefore sha256 n)) := by
  have hkept := CommandWorld.Kept.run h
  refine ⟨?_, List.nodup_iff_count_le_one.1 hkept.sound.numbers n, hkept.readBacks_iff hn⟩
  intro hwaits
  have horderly := hkept.orderly e (List.mem_of_getElem? hn)
  exact horderly.opened (by rw [hwaits]; nofun) (by rw [hwaits]; nofun)

/-- "Always categorize Corner Cafe as dining". -/
def alwaysDining : ExplicitCommand where
  «match» := { payeePattern := "Corner Cafe" }
  action := { allocation := .category "dining" none }

/-- The command is read back, not answered in time, and given again. -/
def repeatedCommand : List CommandWorld.Act :=
  [.command alwaysDining, .attempt 0 .openThread "t0", .report 0 "t1" 0,
    .drive 0 (.timeout commandConfirmPatience), .command alwaysDining,
    .report 1 "t2" commandConfirmPatience]

/-- The first execution sends its read-back, retried, once. -/
theorem first_command_read_back : ∃ beats w e,
    Lib.exec (CommandWorld.step id) {} repeatedCommand = some (beats, w) ∧
      w.executions[0]? = some e ∧ w.readBacks 0 = 1 := by
  have hrun : ∃ beats w e, Lib.exec (CommandWorld.step id) {} repeatedCommand = some (beats, w) ∧
      w.executions[0]? = some e ∧ e.Opened := ⟨_, _, _, rfl, rfl, rfl⟩
  obtain ⟨beats, w, e, hexec, he, hopened⟩ := hrun
  obtain ⟨-, -, hiff⟩ := commands_read_back_iff id (Lib.exec_run hexec) he
  refine ⟨beats, w, e, hexec, he, (hiff hopened).2 ?_⟩
  rintro ⟨m, -, -, hlt, -⟩
  omega

/-- The second waits on a question that was never sent. -/
theorem repeated_command_unread :
    ¬ ∀ (sha256 : String → String) (w : CommandWorld)
      (beats : List (Lib.Beat CommandWorld CommandWorld.Act)) (n : Nat) (e : CommandConfirm),
      Lib.Run (Lib.StepOf (CommandWorld.step sha256)) {} beats w → w.executions[n]? = some e →
      e.phase = .waiting → w.readBacks n = 1 := by
  intro hall
  have hrun : ∃ beats w e, Lib.exec (CommandWorld.step id) {} repeatedCommand = some (beats, w) ∧
      w.executions[1]? = some e ∧ e.phase = .waiting ∧ w.readBacks 1 = 0 :=
    ⟨_, _, _, rfl, rfl, rfl, rfl⟩
  obtain ⟨beats, w, e, hexec, he, hwaits, hnone⟩ := hrun
  have hone := hall id w beats 1 e (Lib.exec_run hexec) he hwaits
  omega

end YnabAgent
