import YnabAgent.Dispatch.Inbox
import YnabAgent.Lib.Dialogue
import YnabAgent.Workflow.Commands
import YnabAgent.Workflow.Offers

/-!
# The talks that may grant autonomy

An autonomy offer and the read-back of a command ask the owner one question, each on its own thread,
and read the replies in one way (`workflow/offer_workflow.py`, `workflow/command_workflow.py`). Both
are a dialogue about a subject: a yes sends the registry the subject's grant.

`CommandConfirm.step_sim`, `CommandConfirm.goOn_sim`: an execution of a read-back is such a
dialogue. `CommandWorld.replies_in_order`: so, whatever runs beside it, it reads its replies in the
order they came.
-/

namespace YnabAgent

open Lib (Dialogue Stage Reading)

/-! ## Subjects -/

/-- The offer of a rule, or a command to be confirmed. -/
inductive Subject
  | offer (rule : Rule)
  | readBack (command : ExplicitCommand)
  deriving DecidableEq

/-- How long an offer waits for an answer. -/
def offerPatience : Timedelta := Timedelta.days 14

def Subject.patience : Subject → Timedelta
  | offer _ => offerPatience
  | readBack _ => commandConfirmPatience

def Subject.workflowId (sha256 : String → String) : Subject → String
  | offer rule => offerWorkflowId rule.id
  | readBack command => commandConfirmId sha256 command

/-- The signal a yes sends the registry. -/
def Subject.grant (now : Datetime) (nextId : RuleId) : Subject → RegistryOp
  | offer rule => .blessExisting rule.id now
  | readBack command => .bless command now nextId

/-- A running or finished talk, with the message whose instruction it reads back. -/
structure Talk where
  subject : Subject
  instruction : Option DispatchMessage := none
  dialogue : Dialogue DispatchMessage := {}
  deriving DecidableEq

/-! ## The read-back of a command is a dialogue -/

def OfferVerdict.reading : OfferVerdict → Reading
  | accept => .accept
  | decline => .decline
  | unclear => .unclear

namespace CommandConfirm

/-- The stage of a dialogue an execution is in; on a yes or a no it has let go of the message. -/
inductive AtStage : ConfirmPhase → Stage InboundMessage → Prop
  | opening : AtStage (.calling .openThread) .opening
  | waiting : AtStage .waiting .waiting
  | reading (message : InboundMessage) : AtStage (.interpreting message) (.reading message)
  | accepting (message : InboundMessage) : AtStage (.calling .accept) (.answering message .accept)
  | declining (message : InboundMessage) : AtStage (.calling .decline) (.answering message .decline)
  | clarifying (message : InboundMessage) :
      AtStage (.calling (.clarify message)) (.answering message .unclear)
  | closed : AtStage .closed .closed

/-- An execution in step with a dialogue. -/
structure Sim (e : CommandConfirm) (d : Dialogue InboundMessage) : Prop where
  stage : AtStage e.phase d.stage
  queue : e.responses = d.queue
  deadline : e.deadline = d.deadline

def Act.move : Act → Dialogue.Move InboundMessage
  | submitResponse message => .hear message
  | wake => .take
  | interpreted verdict => .read verdict.reading
  | timeout now => .lapse now
  | fail => .fail

def answerMove (now : Datetime) : ConfirmTask → Dialogue.Move InboundMessage
  | .openThread => .opened now
  | _ => .answered

variable {e e' : CommandConfirm} {d : Dialogue InboundMessage}

theorem sim_init (command : ExplicitCommand) : Sim { command } {} :=
  ⟨.opening, rfl, rfl⟩

/-- A signal, a wake, a verdict, the timeout and a failure are moves of the dialogue. -/
theorem step_sim (h : Sim e d) {act : Act} (hstep : e.step act = some e') :
    ∃ d', d.step commandConfirmPatience act.move = some d' ∧ Sim e' d' := by
  obtain ⟨hstage, hqueue, hdeadline⟩ := h
  cases act with
  | submitResponse message =>
    simp only [step] at hstep
    split at hstep
    · cases hstep
    · rename_i hopen
      cases hstep
      have hclosed : d.stage ≠ .closed := by
        intro hclosed
        rw [hclosed] at hstage
        generalize e.phase = phase at hstage hopen
        cases hstage
        exact hopen rfl
      refine ⟨{ d with queue := d.queue ++ [message] }, ?_, hstage, ?_, hdeadline⟩
      · simp only [Act.move, Dialogue.step]
      · rw [← hqueue]
  | wake =>
    simp only [step] at hstep
    split at hstep
    · rename_i message rest hphase hresponses
      cases hstep
      rw [hphase] at hstage
      cases hd : d.stage with
      | waiting =>
        refine ⟨{ d with stage := .reading message, queue := rest }, ?_, .reading message, rfl,
          hdeadline⟩
        rw [hresponses] at hqueue
        simp only [Act.move, Dialogue.step, hd, ← hqueue]
      | _ => rw [hd] at hstage; cases hstage
    · cases hstep
  | interpreted verdict =>
    simp only [step] at hstep
    split at hstep
    · rename_i message hphase
      cases hstep
      rw [hphase] at hstage
      cases hd : d.stage with
      | reading message' =>
        rw [hd] at hstage
        cases hstage
        refine ⟨{ d with stage := .answering message verdict.reading }, ?_, ?_, hqueue, hdeadline⟩
        · simp only [Act.move, Dialogue.step, hd]
        · cases verdict with
          | accept => exact .accepting message
          | decline => exact .declining message
          | unclear => exact .clarifying message
      | _ => rw [hd] at hstage; cases hstage
    · cases hstep
  | timeout now =>
    simp only [step] at hstep
    split at hstep
    · rename_i hwaits
      cases hstep
      rw [hwaits.1] at hstage
      cases hd : d.stage with
      | waiting =>
        refine ⟨{ d with stage := .closed }, ?_, .closed, hqueue, hdeadline⟩
        simp only [Act.move, Dialogue.step, hd]
        exact if_pos (hdeadline ▸ hwaits.2)
      | _ => rw [hd] at hstage; cases hstage
    · cases hstep
  | fail =>
    have hopen : e.phase ≠ .waiting ∧ e.phase ≠ .closed ∧ e' = { e with phase := .closed } := by
      simp only [step] at hstep
      cases hphase : e.phase with
      | waiting => rw [hphase] at hstep; cases hstep
      | closed => rw [hphase] at hstep; cases hstep
      | _ =>
        rw [hphase] at hstep
        cases hstep
        exact ⟨(fun h => by cases h), (fun h => by cases h), rfl⟩
    obtain ⟨hwaiting, hclosed, rfl⟩ := hopen
    refine ⟨{ d with stage := .closed }, ?_, .closed, hqueue, hdeadline⟩
    generalize e.phase = phase at hstage hwaiting hclosed
    cases hd : d.stage with
    | waiting => rw [hd] at hstage; cases hstage; exact absurd rfl hwaiting
    | closed => rw [hd] at hstage; cases hstage; exact absurd rfl hclosed
    | _ => simp only [Act.move, Dialogue.step, hd]

/-- The return of an activity that mails is the opening, or the answer to a reading. -/
theorem goOn_sim (h : Sim e d) {task : ConfirmTask} (hphase : e.phase = .calling task)
    (now : Datetime) (threadId : Option ThreadId) :
    ∃ d', d.step commandConfirmPatience (answerMove now task) = some d' ∧
      Sim (e.goOn now threadId task) d' := by
  obtain ⟨hstage, hqueue, hdeadline⟩ := h
  rw [hphase] at hstage
  cases hd : d.stage with
  | opening =>
    rw [hd] at hstage
    cases hstage
    refine ⟨{ d with stage := .waiting, deadline := now + commandConfirmPatience }, ?_, .waiting,
      hqueue, rfl⟩
    simp only [answerMove, Dialogue.step, hd]
  | answering message reading =>
    rw [hd] at hstage
    refine ⟨{ d with stage := Dialogue.onAnswer reading }, ?_, ?_, ?_, ?_⟩
    · cases hstage <;> simp only [answerMove, Dialogue.step, hd]
    · cases hstage with
      | accepting => exact .closed
      | declining => exact .closed
      | clarifying => exact .waiting
    · cases hstage <;> exact hqueue
    · cases hstage <;> exact hdeadline
  | _ => rw [hd] at hstage; cases hstage

/-- A message an execution is reading. -/
def inHand (e : CommandConfirm) : List InboundMessage :=
  match e.phase with
  | .interpreting message => [message]
  | _ => []

theorem Sim.inHand_eq (h : Sim e d) : e.inHand = Dialogue.inHand d.stage := by
  obtain ⟨hstage, -, -⟩ := h
  unfold inHand
  generalize e.phase = phase at hstage ⊢
  generalize d.stage = stage at hstage ⊢
  cases hstage <;> rfl

theorem Sim.closed_iff (h : Sim e d) : e.phase = .closed ↔ d.stage = .closed := by
  obtain ⟨hstage, -, -⟩ := h
  generalize e.phase = phase at hstage ⊢
  generalize d.stage = stage at hstage ⊢
  cases hstage <;> simp

end CommandConfirm

/-! ## The replies of a run -/

namespace CommandWorld

abbrev Beats := List (Lib.Beat CommandWorld Act)

/-- The reply a beat delivers to the execution. -/
def heardOf (n : Nat) (beat : Lib.Beat CommandWorld Act) : Option InboundMessage :=
  match beat.act with
  | .drive m (.submitResponse message) => if m = n then some message else none
  | _ => none

/-- The replies delivered to the execution. -/
def heardBy (n : Nat) (beats : Beats) : List InboundMessage := beats.filterMap (heardOf n)

/-- The reply the execution has read in a beat, and what as. -/
def readOf (n : Nat) (beat : Lib.Beat CommandWorld Act) : Option (InboundMessage × OfferVerdict) :=
  match beat.act, beat.pre.executions[n]? with
  | .drive m (.interpreted verdict), some e =>
    match e.phase with
    | .interpreting message => if m = n then some (message, verdict) else none
    | _ => none
  | _, _ => none

def readBy (n : Nat) (beats : Beats) : List (InboundMessage × OfferVerdict) :=
  beats.filterMap (readOf n)

/-- What a step does to one execution. -/
inductive Follows (n : Nat) (e : CommandConfirm) : Act → CommandConfirm → Prop
  | apart {act : Act} (hdrive : ∀ a, act ≠ .drive n a) : Follows n e act e
  | driven {a : CommandConfirm.Act} {e' : CommandConfirm} (h : e.step a = some e') :
      Follows n e (.drive n a) e'
  | reported {task : ConfirmTask} (hphase : e.phase = .calling task) (now : Datetime)
      (fresh : ThreadId) (threadId : Option ThreadId) :
      Follows n e (.report n fresh now) (e.goOn now threadId task)

section runs
variable {sha256 : String → String} {w w' : CommandWorld} {n : Nat} {e e' : CommandConfirm}

/-- An execution after a step was there before it, or was started by it. -/
theorem step_follows {act : Act} (h : w.step sha256 act = some w')
    (hn : w'.executions[n]? = some e') :
    (∃ e, w.executions[n]? = some e ∧ Follows n e act e') ∨
      w.executions[n]? = none ∧ (∃ command, e' = { command }) ∧ ∀ a, act ≠ .drive n a := by
  have hset : ∀ {m : Nat} {x : CommandConfirm}, (w.executions.set m x)[n]? = some e' →
      m = n ∧ e' = x ∧ (∃ e, w.executions[n]? = some e) ∨ m ≠ n ∧ w.executions[n]? = some e' := by
    intro m x hget
    by_cases hm : m = n
    · rw [hm] at hget
      have hlt : n < w.executions.length := by
        have hlt := (List.getElem?_eq_some_iff.1 hget).1
        rwa [List.length_set] at hlt
      rw [List.getElem?_set_self hlt] at hget
      exact .inl ⟨hm, (Option.some.inj hget).symm, _, List.getElem?_eq_getElem hlt⟩
    · rw [List.getElem?_set_ne hm] at hget
      exact .inr ⟨hm, hget⟩
  cases act with
  | command command =>
    simp only [step] at h
    split at h
    · cases h
      exact .inl ⟨e', hn, .apart fun a ha => by cases ha⟩
    · cases h
      by_cases hlt : n < w.executions.length
      · rw [List.getElem?_append_left hlt] at hn
        exact .inl ⟨e', hn, .apart fun a ha => by cases ha⟩
      · rw [List.getElem?_append_right (Nat.le_of_not_lt hlt)] at hn
        have hmem := List.mem_singleton.1 (List.mem_of_getElem? hn)
        exact .inr ⟨List.getElem?_eq_none (Nat.le_of_not_lt hlt), ⟨command, hmem⟩,
          fun a ha => by cases ha⟩
  | attempt m task fresh =>
    simp only [step] at h
    split at h
    · split at h
      · cases h
        exact .inl ⟨e', hn, .apart fun a ha => by cases ha⟩
      · cases h
    · cases h
  | report m fresh now =>
    simp only [step] at h
    split at h
    · rename_i x hx
      split at h
      · rename_i task hphase
        cases h
        rcases hset hn with ⟨rfl, rfl, -⟩ | ⟨hm, hget⟩
        · exact .inl ⟨x, hx, .reported hphase now fresh _⟩
        · exact .inl ⟨e', hget, .apart fun a ha => by cases ha⟩
      · cases h
    · cases h
  | drive m a =>
    simp only [step] at h
    split at h
    · rename_i x hx
      obtain ⟨x', hx', rfl⟩ := Option.map_eq_some_iff.1 h
      rcases hset hn with ⟨rfl, rfl, -⟩ | ⟨hm, hget⟩
      · exact .inl ⟨x, hx, .driven hx'⟩
      · refine .inl ⟨e', hget, .apart fun a ha => ?_⟩
        cases ha
        exact hm rfl
    · cases h
  | arrive message =>
    simp only [step] at h
    split at h
    · cases h
      exact .inl ⟨e', hn, .apart fun a ha => by cases ha⟩
    · cases h

/-- Executions stay. -/
theorem length_mono {act : Act} (h : w.step sha256 act = some w') :
    w.executions.length ≤ w'.executions.length := by
  cases act with
  | command command =>
    simp only [step] at h
    split at h
    · cases h
      exact Nat.le_refl _
    · cases h
      rw [List.length_append]
      exact Nat.le_add_right _ _
  | attempt m task fresh =>
    simp only [step] at h
    split at h
    · split at h
      · cases h
        exact Nat.le_refl _
      · cases h
    · cases h
  | report m fresh now =>
    simp only [step] at h
    split at h
    · split at h
      · cases h
        exact Nat.le_of_eq List.length_set.symm
      · cases h
    · cases h
  | drive m a =>
    simp only [step] at h
    split at h
    · obtain ⟨x', -, rfl⟩ := Option.map_eq_some_iff.1 h
      exact Nat.le_of_eq List.length_set.symm
    · cases h
  | arrive message =>
    simp only [step] at h
    split at h
    · cases h
      exact Nat.le_refl _
    · cases h

/-- An execution that is not there after a step was not there before it, and not driven by it. -/
theorem absent_step {act : Act} (h : w.step sha256 act = some w') (hn : w'.executions[n]? = none) :
    w.executions[n]? = none ∧ ∀ a, act ≠ .drive n a := by
  have hlen : w'.executions.length ≤ n := List.getElem?_eq_none_iff.1 hn
  have hle : w.executions.length ≤ w'.executions.length := length_mono h
  refine ⟨List.getElem?_eq_none (Nat.le_trans hle hlen), fun a ha => ?_⟩
  rw [ha] at h
  simp only [step] at h
  split at h
  · rename_i x hx
    have hlt := (List.getElem?_eq_some_iff.1 hx).1
    exact absurd (Nat.lt_of_lt_of_le hlt (Nat.le_trans hle hlen)) (Nat.lt_irrefl n)
  · cases h

/-- A beat that does not drive the execution delivers nothing to it and reads nothing of it. -/
theorem silent_of_apart {beat : Lib.Beat CommandWorld Act} (h : ∀ a, beat.act ≠ .drive n a) :
    heardOf n beat = none ∧ readOf n beat = none := by
  constructor
  · unfold heardOf
    split
    · rename_i m message hact
      exact if_neg fun hm => h _ (by rw [hact, hm])
    · rfl
  · unfold readOf
    split
    · rename_i m verdict x hact hx
      split
      · exact if_neg fun hm => h _ (by rw [hact, hm])
      · rfl
    · rfl

theorem heardBy_snoc (n : Nat) (beats : Beats) (beat : Lib.Beat CommandWorld Act) :
    heardBy n (beats ++ [beat]) = heardBy n beats ++ (heardOf n beat).toList := by
  unfold heardBy
  rw [List.filterMap_append]
  cases h : heardOf n beat <;> simp [h]

theorem readBy_snoc (n : Nat) (beats : Beats) (beat : Lib.Beat CommandWorld Act) :
    readBy n (beats ++ [beat]) = readBy n beats ++ (readOf n beat).toList := by
  unfold readBy
  rw [List.filterMap_append]
  cases h : readOf n beat <;> simp [h]

/-- An execution is a dialogue that heard and read what the run delivered to it and read of it, and
it called one activity for each reading. -/
structure Answers (n : Nat) (beats : Beats) (e : CommandConfirm) : Prop where
  dialogue : ∃ (talk : Dialogue.Beats InboundMessage) (d : Dialogue InboundMessage),
    Dialogue.DialogueRun commandConfirmPatience {} talk d ∧ CommandConfirm.Sim e d ∧
      Dialogue.heard talk = heardBy n beats ∧
      Dialogue.reads talk = (readBy n beats).map fun r => (r.1, r.2.reading)
  called : e.called =
    .openThread :: (readBy n beats).map fun r => CommandConfirm.onVerdict r.1 r.2

/-- A beat that does not drive the execution adds nothing. -/
theorem Answers.apart {beats : Beats} (h : Answers n beats e) {beat : Lib.Beat CommandWorld Act}
    (hbeat : ∀ a, beat.act ≠ .drive n a) : Answers n (beats ++ [beat]) e := by
  obtain ⟨hheard, hread⟩ := silent_of_apart hbeat
  have hheards : heardBy n (beats ++ [beat]) = heardBy n beats := by
    rw [heardBy_snoc, hheard, Option.toList_none, List.append_nil]
  have hreads : readBy n (beats ++ [beat]) = readBy n beats := by
    rw [readBy_snoc, hread, Option.toList_none, List.append_nil]
  constructor
  · rw [hheards, hreads]
    exact h.dialogue
  · rw [hreads]
    exact h.called

/-- The return of an activity that mails is a move that hears and reads nothing. -/
theorem Answers.reported {beats : Beats} (h : Answers n beats e) {task : ConfirmTask}
    (hphase : e.phase = .calling task) (now : Datetime) (threadId : Option ThreadId) :
    Answers n beats (e.goOn now threadId task) := by
  obtain ⟨⟨talk, d, hrun, hsim, hheard, hread⟩, hcalled⟩ := h
  obtain ⟨d', hstep, hsim'⟩ := CommandConfirm.goOn_sim hsim hphase now threadId
  constructor
  · refine ⟨talk ++ [⟨d, CommandConfirm.answerMove now task⟩], d', hrun.snoc (.step hstep), hsim',
      ?_, ?_⟩
    · rw [Dialogue.heard_snoc, hheard]
      cases task <;> exact List.append_nil _
    · rw [Dialogue.reads_snoc, hread,
        Dialogue.readOf_eq_none fun reading h => by cases task <;> cases h]
      exact List.append_nil _
  · cases task <;> exact hcalled

/-- A step of the execution is a move of the dialogue. -/
theorem Answers.driven {beats : Beats} (h : Answers n beats e) (hn : w.executions[n]? = some e)
    {a : CommandConfirm.Act} (hstep : e.step a = some e') :
    Answers n (beats ++ [⟨w, .drive n a⟩]) e' := by
  obtain ⟨⟨talk, d, hrun, hsim, hheard, hread⟩, hcalled⟩ := h
  obtain ⟨d', hmove, hsim'⟩ := CommandConfirm.step_sim hsim hstep
  have hheard' : Dialogue.heard [⟨d, a.move⟩] = (heardOf n ⟨w, .drive n a⟩).toList := by
    cases a with
    | submitResponse message =>
      have hself : heardOf n ⟨w, .drive n (.submitResponse message)⟩ = some message := by
        simp only [heardOf, if_true]
      rw [hself]
      rfl
    | _ => rfl
  have hread' : (Dialogue.readOf ⟨d, a.move⟩).toList =
      (readOf n ⟨w, .drive n a⟩).toList.map (fun r => (r.1, r.2.reading)) ∧
      e'.called = e.called ++ (readOf n ⟨w, .drive n a⟩).toList.map
        fun r => CommandConfirm.onVerdict r.1 r.2 := by
    cases a with
    | interpreted verdict =>
      have hsim := hsim.stage
      simp only [CommandConfirm.step] at hstep
      split at hstep
      · rename_i message hphase
        cases hstep
        rw [hphase] at hsim
        have hreads : readOf n ⟨w, .drive n (.interpreted verdict)⟩ = some (message, verdict) := by
          unfold readOf
          simp only [hn, hphase, if_true]
        rw [hreads]
        refine ⟨?_, rfl⟩
        unfold Dialogue.readOf
        generalize d.stage = stage at hsim ⊢
        cases hsim
        rfl
      · cases hstep
    | submitResponse message =>
      simp only [CommandConfirm.step] at hstep
      split at hstep
      · cases hstep
      · cases hstep
        rw [Dialogue.readOf_eq_none fun reading h => by cases h]
        exact ⟨rfl, (List.append_nil _).symm⟩
    | wake =>
      simp only [CommandConfirm.step] at hstep
      split at hstep
      · cases hstep
        rw [Dialogue.readOf_eq_none fun reading h => by cases h]
        exact ⟨rfl, (List.append_nil _).symm⟩
      · cases hstep
    | timeout now =>
      simp only [CommandConfirm.step] at hstep
      split at hstep
      · cases hstep
        rw [Dialogue.readOf_eq_none fun reading h => by cases h]
        exact ⟨rfl, (List.append_nil _).symm⟩
      · cases hstep
    | fail =>
      simp only [CommandConfirm.step] at hstep
      rw [Dialogue.readOf_eq_none fun reading h => by cases h]
      split at hstep
      · cases hstep
        exact ⟨rfl, (List.append_nil _).symm⟩
      · cases hstep
        exact ⟨rfl, (List.append_nil _).symm⟩
      · cases hstep
  constructor
  · refine ⟨talk ++ [⟨d, a.move⟩], d', hrun.snoc (.step hmove), hsim', ?_, ?_⟩
    · rw [Dialogue.heard_snoc, heardBy_snoc, hheard, hheard']
    · rw [Dialogue.reads_snoc, readBy_snoc, hread, hread'.1, List.map_append]
  · rw [hread'.2, hcalled, readBy_snoc, List.map_append, List.cons_append]

/-- Every execution of a run is a dialogue; one that is not started has heard nothing. -/
theorem answers_of_run {beats : Beats}
    (h : Lib.Run (Lib.StepOf (CommandWorld.step sha256)) {} beats w) (n : Nat) :
    (∀ e, w.executions[n]? = some e → Answers n beats e) ∧
      (w.executions[n]? = none → heardBy n beats = [] ∧ readBy n beats = []) := by
  refine h.history (P := fun beats w => (∀ e, w.executions[n]? = some e → Answers n beats e) ∧
    (w.executions[n]? = none → heardBy n beats = [] ∧ readBy n beats = [])) ?_ ?_
  · refine ⟨fun e hn => ?_, fun _ => ⟨rfl, rfl⟩⟩
    cases hn
  · intro beats t beat u _ ih hstep
    obtain ⟨ihsome, ihnone⟩ := ih
    cases hstep with
    | @step _ act hs =>
      constructor
      · intro e' hn'
        rcases step_follows hs hn' with ⟨e, hn, hfollows⟩ | ⟨hn, ⟨command, rfl⟩, hdrive⟩
        · have he := ihsome e hn
          cases hfollows with
          | apart hdrive => exact he.apart hdrive
          | driven ha => exact he.driven hn ha
          | reported hphase now fresh threadId =>
            exact (he.reported hphase now threadId).apart fun a ha => by cases ha
        · obtain ⟨hheard, hread⟩ := ihnone hn
          refine Answers.apart
            ⟨⟨[], {}, .nil _, CommandConfirm.sim_init command, ?_, ?_⟩, ?_⟩ hdrive
          · exact hheard.symm
          · rw [hread]
            rfl
          · rw [hread]
            rfl
      · intro hn'
        have hdrive : t.executions[n]? = none ∧ ∀ a, act ≠ .drive n a := absent_step hs hn'
        obtain ⟨hheard, hread⟩ := ihnone hdrive.1
        have hsilent : heardOf n ⟨t, act⟩ = none ∧ readOf n ⟨t, act⟩ = none :=
          silent_of_apart hdrive.2
        obtain ⟨hnone, hnone'⟩ := hsilent
        rw [heardBy_snoc, readBy_snoc, hheard, hread, hnone, hnone']
        exact ⟨rfl, rfl⟩

/-- **Replies are read in the order they came, each once**, whatever runs beside; an execution calls
one activity for each reading, and a reading that is not its last is unclear. -/
theorem replies_in_order {beats : Beats}
    (h : Lib.Run (Lib.StepOf (CommandWorld.step sha256)) {} beats w)
    (hn : w.executions[n]? = some e) :
    (∃ lost, heardBy n beats = (readBy n beats).map Prod.fst ++
      (e.inHand ++ (lost ++ e.responses)) ∧
      lost.length ≤ 1 ∧ (e.phase ≠ .closed → lost = [])) ∧
    e.called = .openThread :: (readBy n beats).map (fun r => CommandConfirm.onVerdict r.1 r.2) ∧
    (∃ before last, readBy n beats = before ++ last ∧ last.length ≤ 1 ∧
      ∀ r ∈ before, r.2 = .unclear) ∧
    (e.phase = .waiting → ∀ r ∈ readBy n beats, r.2 = .unclear) := by
  obtain ⟨⟨talk, d, hrun, hsim, hheard, hread⟩, hcalled⟩ := (answers_of_run h n).1 e hn
  have haccounted := Dialogue.accounted_of_run hrun
  have hunclear : ∀ {rs : List (InboundMessage × OfferVerdict)},
      (∀ r ∈ rs.map fun r => (r.1, r.2.reading), r.2 = Reading.unclear) →
      ∀ r ∈ rs, r.2 = .unclear := by
    intro rs hrs r hr
    have hreading : r.2.reading = .unclear := hrs _ (List.mem_map_of_mem hr)
    cases hverdict : r.2 with
    | unclear => rfl
    | _ => rw [hverdict] at hreading; cases hreading
  refine ⟨?_, hcalled, ?_, ?_⟩
  · obtain ⟨lost, hlost, hlen, hnil⟩ := haccounted.heard
    refine ⟨lost, ?_, hlen, fun hopen => hnil fun hclosed => hopen (hsim.closed_iff.2 hclosed)⟩
    rw [← hheard, hlost, hread, List.map_map, hsim.inHand_eq, hsim.queue]
    rfl
  · obtain ⟨before, last, heq, hlen, hbefore⟩ := haccounted.course.close
    rw [hread] at heq
    obtain ⟨before', last', hsplit, rfl, rfl⟩ := List.map_eq_append_iff.1 heq
    exact ⟨before', last', hsplit, by rwa [List.length_map] at hlen, hunclear hbefore⟩
  · intro hwaiting
    have hcourse := haccounted.course
    have hstage := hsim.stage
    rw [hwaiting] at hstage
    rw [hread] at hcourse
    generalize d.stage = stage at hstage hcourse
    cases hstage
    exact hunclear hcourse

end runs

/-- Two replies to a read-back come at once; the first is unclear, the second a yes. -/
def hesitantYes : List Act :=
  [.command alwaysDining, .report 0 "t1" 0, .drive 0 (.submitResponse ⟨"m1", "Which one?"⟩),
    .drive 0 (.submitResponse ⟨"m2", "Yes"⟩), .drive 0 .wake, .drive 0 (.interpreted .unclear),
    .report 0 "t1" 0, .drive 0 .wake, .drive 0 (.interpreted .accept)]

theorem hesitantYes_in_order : ∃ beats w e, Lib.exec (step id) {} hesitantYes = some (beats, w) ∧
    w.executions[0]? = some e ∧ (readBy 0 beats).map Prod.snd = [.unclear, .accept] ∧
    (∃ lost, heardBy 0 beats = (readBy 0 beats).map Prod.fst ++
      (e.inHand ++ (lost ++ e.responses)) ∧
      lost.length ≤ 1 ∧ (e.phase ≠ .closed → lost = [])) ∧
    e.called = .openThread :: (readBy 0 beats).map (fun r => CommandConfirm.onVerdict r.1 r.2) := by
  have hexec : ∃ beats w e, Lib.exec (step id) {} hesitantYes = some (beats, w) ∧
      w.executions[0]? = some e ∧ (readBy 0 beats).map Prod.snd = [.unclear, .accept] :=
    ⟨_, _, _, rfl, rfl, rfl⟩
  obtain ⟨beats, w, e, hexec, he, hreads⟩ := hexec
  obtain ⟨hheard, hcalled, -, -⟩ := replies_in_order (Lib.exec_run hexec) he
  exact ⟨beats, w, e, hexec, he, hreads, hheard, hcalled⟩

end CommandWorld

end YnabAgent
