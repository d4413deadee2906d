import YnabAgent.Domain.Values
import Mathlib.Logic.Function.Iterate

/-!
# The alert thread

`alertOnThread` opens the thread of an alert, or replies an update on it (`mail/client.py`). The
first label keys the thread and the second the update, so that an attempt at what is on record sends
nothing. A message keeps its labels, its text, and its subject where it opened a thread.
-/

namespace YnabAgent

structure LabelledMessage where
  threadId : ThreadId
  subject : Option String := none
  body : String
  labels : List String := []
  deriving DecidableEq

abbrev AlertBox := List LabelledMessage

/-- The label of everything the agent sends. -/
def agentLabel : String := "ynab-agent"

namespace AlertBox

/-- The thread of the first message carrying the label. -/
def findThread (box : AlertBox) (label : String) : Option ThreadId :=
  (box.find? fun message => decide (label ∈ message.labels)).map LabelledMessage.threadId

/-- Whether the thread has a latest message, the target of a reply. -/
def hasMessage (box : AlertBox) (threadId : ThreadId) : Bool :=
  box.any fun message => message.threadId = threadId

/-- Open the alert thread, or reply the update on it unless its label is on record; `fresh` is the
thread the server makes. -/
def alertOnThread (box : AlertBox) (subject body threadLabel updateLabel : String)
    (fresh : ThreadId) : AlertBox × ThreadId :=
  match box.findThread threadLabel with
  | none =>
    (box ++ [{ threadId := fresh, subject := some subject, body
               labels := [agentLabel, threadLabel, updateLabel] }], fresh)
  | some existing =>
    if (box.findThread updateLabel).isNone && box.hasMessage existing then
      (box ++ [{ threadId := existing, body, labels := [agentLabel, updateLabel] }], existing)
    else (box, existing)

/-- How many messages carry a label. -/
def posted (box : AlertBox) (label : String) : Nat :=
  box.countP fun message => decide (label ∈ message.labels)

variable {box : AlertBox} {label threadLabel updateLabel subject body : String} {fresh : ThreadId}

theorem findThread_isSome_iff : (box.findThread label).isSome = true ↔ 0 < box.posted label := by
  unfold findThread posted
  rw [Option.isSome_map, List.find?_isSome, List.countP_pos_iff]

theorem findThread_eq_none_iff : box.findThread label = none ↔ box.posted label = 0 := by
  rw [← Option.not_isSome_iff_eq_none, findThread_isSome_iff]
  omega

/-- A thread that is found can be replied on. -/
theorem hasMessage_of_findThread {existing : ThreadId} (h : box.findThread label = some existing) :
    box.hasMessage existing = true := by
  obtain ⟨message, hfind, hthread⟩ := Option.map_eq_some_iff.1 h
  exact List.any_eq_true.2 ⟨message, List.mem_of_find?_eq_some hfind, decide_eq_true hthread⟩

theorem posted_snoc (box : AlertBox) (message : LabelledMessage) (label : String) :
    posted (box ++ [message]) label =
      box.posted label + if label ∈ message.labels then 1 else 0 := by
  unfold posted
  rw [List.countP_append, List.countP_singleton]
  simp only [decide_eq_true_eq]

/-- Nothing else is posted. -/
theorem posted_alertOnThread_of_ne (hagent : label ≠ agentLabel) (hthread : label ≠ threadLabel)
    (hupdate : label ≠ updateLabel) :
    (box.alertOnThread subject body threadLabel updateLabel fresh).1.posted label =
      box.posted label := by
  unfold alertOnThread
  split
  · rw [posted_snoc, if_neg (by simp [hagent, hthread, hupdate]), Nat.add_zero]
  · split
    · rw [posted_snoc, if_neg (by simp [hagent, hupdate]), Nat.add_zero]
    · rfl

/-- An update that is not on record is posted, once. -/
theorem posted_alertOnThread (h : box.posted updateLabel = 0) :
    (box.alertOnThread subject body threadLabel updateLabel fresh).1.posted updateLabel = 1 := by
  unfold alertOnThread
  split
  · rw [posted_snoc, h, if_pos (by simp)]
  · rename_i existing hfound
    rw [findThread_eq_none_iff.2 h, hasMessage_of_findThread hfound]
    simp only [Option.isNone_none, Bool.and_self, if_true]
    rw [posted_snoc, h, if_pos (by simp)]

/-- After a send the thread and the update are on record. -/
theorem recorded_alertOnThread :
    0 < (box.alertOnThread subject body threadLabel updateLabel fresh).1.posted threadLabel ∧
    0 < (box.alertOnThread subject body threadLabel updateLabel fresh).1.posted updateLabel := by
  unfold alertOnThread
  split
  · rw [posted_snoc, posted_snoc, if_pos (by simp), if_pos (by simp)]
    omega
  · rename_i existing hfound
    have hthread : 0 < box.posted threadLabel := by
      rw [← findThread_isSome_iff, hfound]
      rfl
    split
    · rw [posted_snoc, posted_snoc, if_pos (show updateLabel ∈ [agentLabel, updateLabel] by simp)]
      omega
    · rename_i hskipped
      rw [hasMessage_of_findThread hfound, Bool.and_true, Option.isNone_iff_eq_none,
        findThread_eq_none_iff] at hskipped
      exact ⟨hthread, Nat.pos_of_ne_zero hskipped⟩

/-- A retry of a send that is on record sends nothing. -/
theorem alertOnThread_recorded (hthread : 0 < box.posted threadLabel)
    (hupdate : 0 < box.posted updateLabel) :
    (box.alertOnThread subject body threadLabel updateLabel fresh).1 = box := by
  rw [← findThread_isSome_iff] at hthread hupdate
  unfold alertOnThread
  split
  · rename_i hnone
    rw [hnone] at hthread
    cases hthread
  · rw [Option.isNone_eq_false_iff.2 hupdate]
    rfl

/-- So however often the send is attempted, it is as if once. -/
theorem iterate_alertOnThread (retries : Nat) :
    (fun box : AlertBox => (box.alertOnThread subject body threadLabel updateLabel fresh).1)^[
      retries + 1] box =
      (box.alertOnThread subject body threadLabel updateLabel fresh).1 := by
  induction retries with
  | zero => rfl
  | succ retries ih =>
    rw [Function.iterate_succ_apply', ih]
    exact alertOnThread_recorded recorded_alertOnThread.1 recorded_alertOnThread.2

end AlertBox

end YnabAgent
