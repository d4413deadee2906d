import YnabAgent.Domain.Values
import YnabAgent.Lib.Outbox

/-!
# The mailbox and the idempotent sends

`openThread` and `sendOnThread` skip a send whose label is already on record (`mail/client.py`). A
message the agent sent keeps its idempotency label and the number of the decided message it
renders; any other mail has neither. A thread has a message to reply to when some mail is on it.
-/

namespace YnabAgent

structure Message where
  threadId : ThreadId
  stamp : Option (String × Nat) := none
  deriving DecidableEq

abbrev Mailbox := List Message

namespace Mailbox

/-- The thread of the first message carrying the label. -/
def findThread (box : Mailbox) (label : String) : Option ThreadId :=
  (box.find? fun message => message.stamp.any (·.1 = label)).map (·.threadId)

/-- Whether the thread has a latest message, the target of a reply. -/
def hasMessage (box : Mailbox) (threadId : ThreadId) : Bool :=
  box.any (·.threadId = threadId)

/-- Open the thread of a label, or return the one there is; `fresh` is the thread the
server makes. -/
def openThread (box : Mailbox) (label : String) (fresh : ThreadId) (number : Nat) :
    Mailbox × ThreadId :=
  match box.findThread label with
  | some existing => (box, existing)
  | none => (box ++ [{ threadId := fresh, stamp := some (label, number) }], fresh)

/-- Reply on a thread unless the label is on record, or there is nothing to reply to. -/
def sendOnThread (box : Mailbox) (threadId : ThreadId) (label : String) (number : Nat) : Mailbox :=
  match box.findThread label with
  | some _ => box
  | none =>
    if box.hasMessage threadId then box ++ [{ threadId, stamp := some (label, number) }] else box

/-- What the agent sent. -/
def sent (box : Mailbox) : List (String × Nat) :=
  box.filterMap (·.stamp)

variable {box : Mailbox} {label : String} {threadId fresh : ThreadId} {number : Nat}

theorem mem_sent {e : String × Nat} : e ∈ box.sent ↔ ∃ message ∈ box, message.stamp = some e := by
  simp [sent]

theorem findThread_eq_some {found : ThreadId} (h : box.findThread label = some found) :
    box.hasMessage found = true ∧ ∃ e ∈ box.sent, e.1 = label := by
  obtain ⟨message, hfind, hthread⟩ := Option.map_eq_some_iff.1 h
  have hmem := List.mem_of_find?_eq_some hfind
  have hany := List.find?_some hfind
  obtain ⟨e, he, hlabel⟩ := (Option.any_eq_true _ _).1 hany
  refine ⟨?_, e, mem_sent.2 ⟨message, hmem, he⟩, of_decide_eq_true hlabel⟩
  exact List.any_eq_true.2 ⟨message, hmem, decide_eq_true hthread⟩

theorem findThread_eq_none (h : box.findThread label = none) : ¬ ∃ e ∈ box.sent, e.1 = label := by
  rintro ⟨e, he, hlabel⟩
  obtain ⟨message, hmem, hstamp⟩ := mem_sent.1 he
  have hnone := List.find?_eq_none.1 (Option.map_eq_none_iff.1 h) message hmem
  rw [hstamp] at hnone
  exact hnone (decide_eq_true hlabel)

theorem sent_snoc (box : Mailbox) (threadId : ThreadId) (e : String × Nat) :
    Mailbox.sent (box ++ [{ threadId, stamp := some e }]) = box.sent ++ [e] := by
  simp [sent]

/-! ### The sends deliver -/

/-- Opening a thread delivers the message under its label. -/
theorem sent_openThread (box : Mailbox) (label : String) (fresh : ThreadId) (number : Nat) :
    (box.openThread label fresh number).1.sent = Lib.Outbox.deliver label number box.sent := by
  unfold openThread Lib.Outbox.deliver
  split
  · rename_i existing h
    rw [if_pos (findThread_eq_some h).2]
  · rename_i h
    rw [if_neg (findThread_eq_none h)]
    exact sent_snoc box fresh (label, number)

/-- So does a reply on a thread there is. -/
theorem sent_sendOnThread (label : String) (number : Nat) (h : box.hasMessage threadId = true) :
    (box.sendOnThread threadId label number).sent = Lib.Outbox.deliver label number box.sent := by
  unfold sendOnThread Lib.Outbox.deliver
  split
  · rename_i existing hfound
    rw [if_pos (findThread_eq_some hfound).2]
  · rename_i hnone
    rw [if_neg (findThread_eq_none hnone), if_pos h]
    exact sent_snoc box threadId (label, number)

/-! ### Threads stay -/

theorem hasMessage_append (more : Mailbox) (h : box.hasMessage threadId = true) :
    Mailbox.hasMessage (box ++ more) threadId = true := by
  unfold hasMessage at h ⊢
  rw [List.any_append, h]
  rfl

theorem hasMessage_openThread (label : String) (fresh : ThreadId) (number : Nat)
    (h : box.hasMessage threadId = true) :
    (box.openThread label fresh number).1.hasMessage threadId = true := by
  unfold openThread
  split
  · exact h
  · exact hasMessage_append _ h

theorem hasMessage_sendOnThread {threadId' : ThreadId} (label : String) (number : Nat)
    (h : box.hasMessage threadId = true) :
    (box.sendOnThread threadId' label number).hasMessage threadId = true := by
  unfold sendOnThread
  split
  · exact h
  · split
    · exact hasMessage_append _ h
    · exact h

/-- The thread returned has a message. -/
theorem hasMessage_opened (box : Mailbox) (label : String) (fresh : ThreadId) (number : Nat) :
    (box.openThread label fresh number).1.hasMessage (box.openThread label fresh number).2 =
      true := by
  unfold openThread
  split
  · rename_i existing h
    exact (findThread_eq_some h).1
  · simp [hasMessage]

end Mailbox

end YnabAgent
