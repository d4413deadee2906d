import YnabAgent.Domain.MemoFold
import YnabAgent.Workflow.Autonomy

/-!
# Standing instructions, answered

What `handle_command` does with an instruction that is no grant (`workflow/dispatch_activities.py`):
it looks at the rule table and answers on the message's own thread, and "stop" is signalled to the
registry before it is confirmed. A registry that cannot be queried reads as one without rules. The
table may change between the look and the signal; an attempt may break off behind any effect, the
next one looks again and the model may read the message otherwise.

`instructions_answered`: no answer goes out twice, each is on the thread of an admitted message,
and it tells the truth of the table: a confirmed "stop" was carried out after a look that met a
grant, and the payee stays stripped until the owner next says yes; "nothing changed" met none;
and a list of rules names as auto-handled the rules the gate may apply, as earned the ones an
offer may be made of, and counts the rest. An attempt that could not reach the registry finds
nothing changed and no rule.
-/

namespace YnabAgent

open Dispatch (Routed)

/-! ## The replies -/

/-- What a reply says. -/
inductive DeskReply
  | revoked (payee : String)
  | revokeNothing (payee : String)
  | rulesList (blessed eligible : List (String × String)) (observing : Nat)
  | help
  deriving DecidableEq

def renderRevoked (payee : String) : String :=
  "Done — I've stopped auto-handling " ++ payee ++
    ". I'll go back to asking you about each one; if you keep confirming the same category, I " ++
    "may offer to take it over again later."

def renderRevokeNothing (payee : String) : String :=
  "I'm not auto-handling " ++ payee ++
    " right now, so nothing changed. If you meant a specific charge, reply on that " ++
    "transaction's own email thread and I'll fix it there."

/-- Another part of a text, behind a blank line if there is one before it. -/
def withPart (lines part : List String) : List String :=
  if part = [] then lines else if lines = [] then part else lines ++ "" :: part

def rulePairs (heading : String) (pairs : List (String × String)) : List String :=
  if pairs = [] then [] else heading :: pairs.map fun pair => "  - " ++ pair.1 ++ " → " ++ pair.2

/-- The ladder of autonomy in plain words. -/
def renderRulesList (blessed eligible : List (String × String)) (observing : Nat) : String :=
  let observed :=
    if observing = 0 then []
    else ["Plus " ++ toString observing ++ " payee" ++ (if observing = 1 then "" else "s") ++
      " I'm still observing."]
  let lines := withPart (withPart (rulePairs "Auto-handled (you've approved these):" blessed)
    (rulePairs "Earned trust, awaiting your go-ahead:" eligible)) observed
  let lines :=
    if lines = [] then
      ["No standing rules yet — I'm still learning your habits from the categories you " ++
        "confirm."]
    else lines
  joinText "\n"
    (lines ++ ["", "Say \"always categorize X as Y\" to add a rule, or " ++
      "\"stop auto-handling X\" to revoke one."])

def renderHelp : String :=
  joinText "\n"
    ["Here's what I do and how to talk to me:",
      "",
      "- I email you each new transaction with a suggested category. Just reply in your own " ++
        "words — confirm it, name a different category, or add context (it becomes the memo).",
      "- \"always categorize X as Y\" sets a standing rule (I'll read it back for a YES before " ++
        "it takes effect).",
      "- \"stop auto-handling X\" revokes one, effective immediately.",
      "- \"list my rules\" shows everything I auto-handle or am learning.",
      "- Forward a purchase receipt and I'll match it to the charge and fold the items into its " ++
        "memo (asking when several charges fit).",
      "- When a category is over budget I'll email options to cover it — reply with the option " ++
        "you want (or your own tweak, like \"option 2 but only $50\").",
      "",
      "I never change anything without either your reply or a rule you've explicitly approved, " ++
        "and every automatic move is flagged in YNAB and undoable with a one-word reply."]

namespace DeskReply

def body : DeskReply → String
  | revoked payee => renderRevoked payee
  | revokeNothing payee => renderRevokeNothing payee
  | rulesList blessed eligible observing => renderRulesList blessed eligible observing
  | help => renderHelp

def tag : DeskReply → String
  | revoked _ | revokeNothing _ => "revoke"
  | rulesList _ _ _ => "rules"
  | help => "help"

def label (reply : DeskReply) (messageId : MessageId) : String :=
  "yacmd-" ++ reply.tag ++ "-" ++ messageId

end DeskReply

/-! ## The desk -/

/-- A rule's category by name; a split is a split. -/
def categoryDisplay (names : List CandidateCategory) (rule : Rule) : String :=
  match rule.action.allocation with
  | .category category _ =>
    (Lib.dict (names.map fun candidate => (candidate.id, candidate.name)) category).getD category
  | .split _ => "a split"

def rulePair (names : List CandidateCategory) (rule : Rule) : String × String :=
  (rule.match.payeePattern, categoryDisplay names rule)

/-- The answer to "list my rules". -/
def rulesReply (names : List CandidateCategory) (rules : List Rule) : DeskReply :=
  .rulesList
    ((rules.filter fun rule => rule.source = .humanExplicit).map (rulePair names))
    ((rules.filter fun rule => rule.source = .learned ∧ rule.trust = .trusted).map (rulePair names))
    (rules.countP fun rule => rule.source = .learned ∧ rule.trust ≠ .trusted)

/-- The granted rules of a payee. -/
def grantedFor (text : PyText) (rules : List Rule) (payee : String) : List Rule :=
  rules.filter fun rule =>
    rule.source = .humanExplicit ∧
      isInText (text.lower rule.match.payeePattern) (text.lower payee) = true

/-- An attempt of `handle_command`: how the model read the message, the candidates, the table it
looked at, and whether it signalled the revocation. -/
structure DeskAttempt where
  message : DispatchMessage
  reading : CommandReading
  names : List CandidateCategory
  view : List Rule
  signalled : Bool := false

namespace DeskAttempt

/-- The payee of a "stop". -/
def revokes (a : DeskAttempt) : Option String :=
  if a.reading.kind = .revoke then a.reading.payeePattern.filter (· ≠ "") else none

/-- The payee that is to be stripped, since the view holds a grant for it. -/
def strips (a : DeskAttempt) (text : PyText) : Option String :=
  a.revokes.filter fun payee => decide (grantedFor text a.view payee ≠ [])

/-- The answer the attempt has come to. -/
def reply (a : DeskAttempt) (text : PyText) : Option DeskReply :=
  match a.reading.kind with
  | .revoke =>
    a.revokes.bind fun payee =>
      if grantedFor text a.view payee = [] then some (.revokeNothing payee)
      else if a.signalled then some (.revoked payee)
      else none
  | .listRules => some (rulesReply a.names a.view)
  | .help => some .help
  | _ => none

end DeskAttempt

/-- A mail of the desk, with the reply its body renders. -/
structure DeskMail where
  threadId : ThreadId
  label : String
  body : String
  reply : DeskReply

structure Desk where
  autonomy : Autonomy := {}
  attempts : List DeskAttempt := []
  mail : List DeskMail := []

/-- A step of the rest of the system; an attempt that looks at the table, which it may not reach;
its signal; its reply. -/
inductive DeskAct
  | autonomy (act : AutonomyAct)
  | look (message : DispatchMessage) (reading : CommandReading)
      (candidates : List CandidateCategory) (reached : Bool)
  | revoke (n : Nat) (now : Datetime)
  | reply (n : Nat)

namespace Desk

def rules (w : Desk) : List Rule := w.autonomy.offers.registry.rules

/-- The rules an attempt sees. -/
def view (w : Desk) (reached : Bool) : List Rule := if reached then w.rules else []

/-- Reply on the message's own thread, unless the label is on record; the message is there to
reply to. -/
def send (w : Desk) (message : DispatchMessage) (reply : DeskReply) : Desk :=
  match message.threadId with
  | some threadId =>
    if reply.label message.messageId ∈ w.mail.map DeskMail.label then w
    else
      { w with mail := w.mail ++ [⟨threadId, reply.label message.messageId, reply.body, reply⟩] }
  | none => w

variable (config : AutonomyConfig)

def step (w : Desk) : DeskAct → Option Desk
  | .autonomy act => (w.autonomy.step config act).map fun autonomy => { w with autonomy }
  | .look message reading candidates reached =>
    -- without candidates nothing is read
    if ⟨message, .command⟩ ∈ w.autonomy.inbox.log ∧ candidates ≠ [] then
      some { w with
        attempts := w.attempts ++
          [{ message, reading, names := candidates, view := w.view reached }] }
    else none
  | .revoke n now =>
    match w.attempts[n]? with
    | some a =>
      (a.strips config.text).bind fun payee =>
        if a.signalled then none
        else
          (w.autonomy.step config (.registry (.signal (.revoke payee now)))).map fun autonomy =>
            { w with autonomy, attempts := w.attempts.set n { a with signalled := true } }
    | none => none
  | .reply n =>
    match w.attempts[n]? with
    | some a => (a.reply config.text).map fun reply => w.send a.message reply
    | none => none

end Desk

abbrev DeskBeat := Lib.Beat Desk DeskAct

abbrev DeskRun (config : AutonomyConfig) := Lib.Run (Lib.StepOf (Desk.step config))

/-! ## The table under the system -/

/-- The step answers a yes: a talk grants what it is about. -/
def AnswersYes (w : Autonomy) (act : AutonomyAct) : Prop :=
  ∃ n now nextId returns t message, act = .answer n now nextId returns ∧ w.talks[n]? = some t ∧
    t.dialogue.stage = .answering message .accept

section table
variable {config : AutonomyConfig} {beats : List AutonomyBeat} {w w' : Autonomy}

theorem Autonomy.move_offers {n : Nat} {m : Lib.Dialogue.Move DispatchMessage}
    (h : w.move n m = some w') : w'.offers = w.offers := by
  unfold Autonomy.move at h
  split at h
  · obtain ⟨dialogue, -, rfl⟩ := Option.map_eq_some_iff.1 h
    rfl
  · cases h

theorem Autonomy.move_inbox {n : Nat} {m : Lib.Dialogue.Move DispatchMessage}
    (h : w.move n m = some w') : w'.inbox = w.inbox := by
  unfold Autonomy.move at h
  split at h
  · obtain ⟨dialogue, -, rfl⟩ := Option.map_eq_some_iff.1 h
    rfl
  · cases h

/-- A step leaves the table or folds one signal into it, and only a yes makes that a grant. -/
theorem Autonomy.step_registry {act : AutonomyAct} (h : w.step config act = some w') :
    w'.offers.registry = w.offers.registry ∨ ∃ op, w.offers.registry.Fresh op ∧
      w'.offers.registry = w.offers.registry.apply config.text op ∧
      (op.grants = true → AnswersYes w act) := by
  have hmoved : ∀ {u : Autonomy} {n : Nat} {m : Lib.Dialogue.Move DispatchMessage},
      u.move n m = some w' → w'.offers.registry = u.offers.registry := fun hmove => by
    rw [Autonomy.move_offers hmove]
  cases act with
  | inbox act =>
    obtain ⟨inbox, -, rfl⟩ := Option.map_eq_some_iff.1 h
    exact .inl rfl
  | registry act =>
    simp only [Autonomy.step] at h
    split at h
    · cases h
    · rename_i hgranting
      obtain ⟨offers, hoffers, rfl⟩ := Option.map_eq_some_iff.1 h
      obtain ⟨-, hsame | ⟨op, hop, hfresh, happly⟩⟩ :=
        OfferWorld.step_nongranting hoffers (by simpa using hgranting)
      · exact .inl hsame
      · refine .inr ⟨op, hfresh, happly, fun hgrants => ?_⟩
        rw [hop] at hgrants
        cases hgrants
  | command message reading candidates =>
    simp only [Autonomy.step] at h
    split at h
    · split at h
      · split at h
        · cases h
          exact .inl rfl
        · cases h
          exact .inl rfl
      · cases h
        exact .inl rfl
    · cases h
  | deliver n message =>
    simp only [Autonomy.step] at h
    split at h
    · split at h
      · exact .inl (hmoved h)
      · cases h
    · cases h
  | opened n now => exact .inl (hmoved h)
  | take n => exact .inl (hmoved h)
  | read n reading => exact .inl (hmoved h)
  | answer n now nextId returns =>
    simp only [Autonomy.step, Autonomy.answer] at h
    split at h
    · rename_i t ht
      split at h
      · rename_i message hstage
        split at h
        · rename_i hfresh
          refine .inr ⟨_, hfresh, ?_, fun _ =>
            ⟨n, now, nextId, returns, t, message, rfl, ht, hstage⟩⟩
          split at h
          · exact hmoved h
          · cases h
            rfl
        · cases h
      · split at h
        · exact .inl (hmoved h)
        · cases h
          exact .inl rfl
      · cases h
    · cases h
  | lapse n now => exact .inl (hmoved h)
  | fail n => exact .inl (hmoved h)
  | enrich snapshot candidates counters now =>
    simp only [Autonomy.step] at h
    split at h
    · cases h
      exact .inl rfl
    · cases h
      exact .inl rfl

/-- The table of a run of the system is the table of a run of the registry. -/
theorem autonomy_registryRun (h : AutonomyRun config {} beats w) :
    ∃ registryBeats, RegistryRun config.text {} registryBeats w.offers.registry := by
  refine Lib.Run.invariant (I := fun u : Autonomy => ∃ registryBeats,
    RegistryRun config.text {} registryBeats u.offers.registry) ?_ h ⟨[], .nil _⟩
  rintro u beat v ⟨registryBeats, hrun⟩ hstep
  cases hstep with
  | step hs =>
    rcases Autonomy.step_registry hs with hsame | ⟨op, hfresh, happly, -⟩
    · exact ⟨registryBeats, by rwa [hsame]⟩
    · refine ⟨registryBeats ++ [⟨u.offers.registry, op⟩], ?_⟩
      rw [happly]
      exact hrun.snoc (.fold hfresh)

theorem autonomy_grantsTrusted (h : AutonomyRun config {} beats w) :
    GrantsTrusted w.offers.registry := by
  obtain ⟨registryBeats, hrun⟩ := autonomy_registryRun h
  refine grantsTrusted_of_run hrun List.nodup_nil ?_
  intro r hr
  cases hr

theorem Autonomy.step_log {act : AutonomyAct} (h : w.step config act = some w') :
    w.inbox.log ⊆ w'.inbox.log := by
  have hkept : ∀ {u : Autonomy}, u.inbox = w.inbox → w.inbox.log ⊆ u.inbox.log := fun hsame => by
    rw [hsame]
    exact List.Subset.refl _
  cases act with
  | inbox act =>
    obtain ⟨inbox, hinbox, rfl⟩ := Option.map_eq_some_iff.1 h
    exact Dispatch.Inbox.log_subset hinbox
  | registry act =>
    simp only [Autonomy.step] at h
    split at h
    · cases h
    · obtain ⟨offers, -, rfl⟩ := Option.map_eq_some_iff.1 h
      exact hkept rfl
  | command message reading candidates =>
    simp only [Autonomy.step] at h
    split at h
    · split at h
      · split at h
        · cases h
          exact hkept rfl
        · cases h
          exact hkept rfl
      · cases h
        exact hkept rfl
    · cases h
  | deliver n message =>
    simp only [Autonomy.step] at h
    split at h
    · split at h
      · exact hkept (Autonomy.move_inbox h)
      · cases h
    · cases h
  | opened n now => exact hkept (Autonomy.move_inbox h)
  | take n => exact hkept (Autonomy.move_inbox h)
  | read n reading => exact hkept (Autonomy.move_inbox h)
  | answer n now nextId returns =>
    simp only [Autonomy.step, Autonomy.answer] at h
    split at h
    · split at h
      · split at h
        · split at h
          · have hinbox := Autonomy.move_inbox h
            exact hkept hinbox
          · cases h
            exact hkept rfl
        · cases h
      · split at h
        · exact hkept (Autonomy.move_inbox h)
        · cases h
          exact hkept rfl
      · cases h
    · cases h
  | lapse n now => exact hkept (Autonomy.move_inbox h)
  | fail n => exact hkept (Autonomy.move_inbox h)
  | enrich snapshot candidates counters now =>
    simp only [Autonomy.step] at h
    split at h
    · cases h
      exact hkept rfl
    · cases h
      exact hkept rfl

/-- The signal of a "stop" strips the payee. -/
theorem Autonomy.step_revoke {payee : String} {now : Datetime}
    (h : w.step config (.registry (.signal (.revoke payee now))) = some w') :
    Stripped config.text payee w'.offers.registry := by
  simp only [Autonomy.step] at h
  split at h
  · cases h
  · obtain ⟨offers, hoffers, rfl⟩ := Option.map_eq_some_iff.1 h
    unfold OfferWorld.step at hoffers
    simp only at hoffers
    split at hoffers
    · cases hoffers
      exact revokePayee_stripped config.text w.offers.registry payee now
    · cases hoffers

/-- A payee stays stripped until a yes is answered. -/
theorem Stripped.step {payee : String} {act : AutonomyAct}
    (h : Stripped config.text payee w.offers.registry)
    (hstep : w.step config act = some w') (hyes : ¬ AnswersYes w act) :
    Stripped config.text payee w'.offers.registry := by
  rcases Autonomy.step_registry hstep with hsame | ⟨op, -, happly, hgrants⟩
  · rwa [hsame]
  · rw [happly]
    refine h.apply ?_
    cases hop : op.grants with
    | true => exact absurd (hgrants hop) hyes
    | false => rfl

end table

/-! ## What the answers rest on -/

namespace DeskBeat

def registry (beat : DeskBeat) : RegistryState := beat.pre.autonomy.offers.registry

/-- The steps of the system under a step of the desk. -/
def under (text : PyText) (beat : DeskBeat) : List AutonomyBeat :=
  match beat.act with
  | .autonomy act => [⟨beat.pre.autonomy, act⟩]
  | .revoke n now =>
    match (beat.pre.attempts[n]?).bind fun a => a.strips text with
    | some payee => [⟨beat.pre.autonomy, .registry (.signal (.revoke payee now))⟩]
    | none => []
  | _ => []

/-- The owner's yes is answered. -/
def SaysYes (beat : DeskBeat) : Prop :=
  ∃ act, beat.act = .autonomy act ∧ AnswersYes beat.pre.autonomy act

/-- An attempt on the message looks at the table. -/
def LooksFor (message : DispatchMessage) (beat : DeskBeat) : Prop :=
  ∃ reading names, beat.act = .look message reading names true

/-- An attempt on the message could not reach the registry. -/
def Misses (message : DispatchMessage) (beat : DeskBeat) : Prop :=
  ∃ reading names, beat.act = .look message reading names false

/-- An attempt on the message strips the payee. -/
def Strips (text : PyText) (message : DispatchMessage) (payee : String) (beat : DeskBeat) : Prop :=
  ∃ n now a, beat.act = .revoke n now ∧ beat.pre.attempts[n]? = some a ∧ a.message = message ∧
    a.strips text = some payee

end DeskBeat

/-- The attempt looked at a table that a run came to, or saw none. -/
def DeskAttempt.Looked (a : DeskAttempt) (beats : List DeskBeat) : Prop :=
  ∃ beat ∈ beats, ∃ reached, beat.act = .look a.message a.reading a.names reached ∧
    a.view = beat.pre.view reached ∧ GrantsTrusted (DeskBeat.registry beat)

/-- The payee was stripped for the message, after a look that met a grant, and no yes was answered
since or it is not stripped any more. -/
def CarriedOut (text : PyText) (beats : List DeskBeat) (w : Autonomy) (message : DispatchMessage)
    (payee : String) : Prop :=
  ∃ before beat after, beats = before ++ beat :: after ∧ DeskBeat.Strips text message payee beat ∧
    (∃ look ∈ before, DeskBeat.LooksFor message look ∧
      ¬ Stripped text payee (DeskBeat.registry look)) ∧
    ((∀ later ∈ after, ¬ DeskBeat.SaysYes later) → Stripped text payee w.offers.registry)

section desk
variable {config : AutonomyConfig} {beats : List DeskBeat} {w w' : Desk}

theorem grantedFor_eq_nil_iff {text : PyText} {s : RegistryState} {payee : String} :
    grantedFor text s.rules payee = [] ↔ Stripped text payee s := by
  unfold grantedFor Stripped
  rw [List.filter_eq_nil_iff]
  constructor
  · intro h r hr hpayee hsource
    exact h r hr (decide_eq_true ⟨hsource, hpayee⟩)
  · intro h r hr hgranted
    obtain ⟨hsource, hpayee⟩ := of_decide_eq_true hgranted
    exact h r hr hpayee hsource

theorem DeskAttempt.strips_eq_some {a : DeskAttempt} {text : PyText} {payee : String}
    (h : a.strips text = some payee) :
    a.revokes = some payee ∧ grantedFor text a.view payee ≠ [] := by
  obtain ⟨hrevokes, hgranted⟩ := Option.filter_eq_some_iff.1 h
  exact ⟨hrevokes, of_decide_eq_true hgranted⟩

theorem DeskAttempt.Looked.mono {a : DeskAttempt} (h : a.Looked beats) (beat : DeskBeat) :
    a.Looked (beats ++ [beat]) := by
  obtain ⟨look, hlook, hrest⟩ := h
  exact ⟨look, List.mem_append_left _ hlook, hrest⟩

theorem CarriedOut.snoc {text : PyText} {message : DispatchMessage} {payee : String}
    {beat : DeskBeat} (h : CarriedOut text beats w.autonomy message payee)
    (hkeeps : Stripped text payee w.autonomy.offers.registry → ¬ DeskBeat.SaysYes beat →
      Stripped text payee w'.autonomy.offers.registry) :
    CarriedOut text (beats ++ [beat]) w'.autonomy message payee := by
  obtain ⟨before, strip, after, rfl, hstrips, hlook, hstripped⟩ := h
  refine ⟨before, strip, after ++ [beat], by simp, hstrips, hlook, fun hquiet => ?_⟩
  refine hkeeps (hstripped fun later hlater => hquiet later (List.mem_append_left _ hlater)) ?_
  exact hquiet beat (List.mem_append_right _ List.mem_cons_self)

/-- What a step of the desk does to the system under it. -/
theorem Desk.step_under {act : DeskAct} (h : w.step config act = some w') :
    (w'.autonomy = w.autonomy ∧ DeskBeat.under config.text ⟨w, act⟩ = []) ∨
    ∃ inner, DeskBeat.under config.text ⟨w, act⟩ = [⟨w.autonomy, inner⟩] ∧
      w.autonomy.step config inner = some w'.autonomy ∧
      (AnswersYes w.autonomy inner → DeskBeat.SaysYes ⟨w, act⟩) := by
  cases act with
  | autonomy act =>
    obtain ⟨autonomy, hstep, rfl⟩ := Option.map_eq_some_iff.1 h
    exact .inr ⟨act, rfl, hstep, fun hyes => ⟨act, rfl, hyes⟩⟩
  | look message reading candidates reached =>
    simp only [Desk.step] at h
    split at h
    · cases h
      exact .inl ⟨rfl, rfl⟩
    · cases h
  | revoke n now =>
    simp only [Desk.step] at h
    split at h
    · rename_i a ha
      obtain ⟨payee, hstrips, h⟩ := Option.bind_eq_some_iff.1 h
      split at h
      · cases h
      · obtain ⟨autonomy, hstep, rfl⟩ := Option.map_eq_some_iff.1 h
        refine .inr ⟨.registry (.signal (.revoke payee now)), ?_, hstep, ?_⟩
        · simp [DeskBeat.under, ha, hstrips]
        · rintro ⟨n, now, nextId, returns, t, message, hact, -⟩
          cases hact
    · cases h
  | reply n =>
    simp only [Desk.step] at h
    split at h
    · rename_i a ha
      obtain ⟨reply, -, rfl⟩ := Option.map_eq_some_iff.1 h
      refine .inl ⟨?_, rfl⟩
      unfold Desk.send
      split
      · split <;> rfl
      · rfl
    · cases h

/-- **The desk runs on the system**: a run of it is one of the system under it. -/
theorem desk_autonomyRun (h : DeskRun config {} beats w) :
    AutonomyRun config {} (beats.flatMap (DeskBeat.under config.text)) w.autonomy := by
  refine h.history (P := fun beats w =>
    AutonomyRun config {} (beats.flatMap (DeskBeat.under config.text)) w.autonomy) (.nil _) ?_
  intro beats u beat v _ ih hstep
  cases hstep with
  | step hs =>
    rw [List.flatMap_append, List.flatMap_singleton]
    rcases Desk.step_under hs with ⟨hsame, hunder⟩ | ⟨inner, hunder, hinner, -⟩
    · rw [hsame, hunder, List.append_nil]
      exact ih
    · rw [hunder]
      exact ih.snoc (.step hinner)

theorem Stripped.desk {payee : String} {act : DeskAct} (hstep : w.step config act = some w')
    (h : Stripped config.text payee w.autonomy.offers.registry)
    (hyes : ¬ DeskBeat.SaysYes ⟨w, act⟩) :
    Stripped config.text payee w'.autonomy.offers.registry := by
  rcases Desk.step_under hstep with ⟨hsame, -⟩ | ⟨inner, -, hinner, hyields⟩
  · rwa [hsame]
  · exact h.step hinner fun hanswers => hyes (hyields hanswers)

/-! ## The invariant -/

/-- An attempt is on a routed instruction, and what it signalled was carried out. -/
structure DeskAttempt.Sound (text : PyText) (beats : List DeskBeat) (w : Autonomy)
    (a : DeskAttempt) : Prop where
  looked : a.Looked beats
  routed : ⟨a.message, .command⟩ ∈ w.inbox.log
  signalled : a.signalled = true → ∃ payee, a.strips text = some payee ∧
    CarriedOut text beats w a.message payee

/-- A mail is what an attempt came to. -/
structure DeskMail.Sound (text : PyText) (beats : List DeskBeat) (w : Autonomy) (m : DeskMail)
    (a : DeskAttempt) : Prop where
  attempt : a.Sound text beats w
  threadId : a.message.threadId = some m.threadId
  label : m.label = m.reply.label a.message.messageId
  body : m.body = m.reply.body
  reply : a.reply text = some m.reply

structure Desk.Sound (text : PyText) (beats : List DeskBeat) (w : Desk) : Prop where
  attempts : ∀ a ∈ w.attempts, a.Sound text beats w.autonomy
  mail : ∀ m ∈ w.mail, ∃ a, m.Sound text beats w.autonomy a
  labels : (w.mail.map DeskMail.label).Nodup

theorem Desk.sound_init (text : PyText) : Desk.Sound text [] {} where
  attempts _ ha := absurd ha List.not_mem_nil
  mail _ hm := absurd hm List.not_mem_nil
  labels := List.nodup_nil

theorem Desk.step_log {act : DeskAct} (h : w.step config act = some w') :
    w.autonomy.inbox.log ⊆ w'.autonomy.inbox.log := by
  rcases Desk.step_under h with ⟨hsame, -⟩ | ⟨inner, -, hinner, -⟩
  · rw [hsame]
    exact List.Subset.refl _
  · exact Autonomy.step_log hinner

theorem DeskAttempt.Sound.step {act : DeskAct} {a : DeskAttempt}
    (h : a.Sound config.text beats w.autonomy) (hstep : w.step config act = some w') :
    a.Sound config.text (beats ++ [⟨w, act⟩]) w'.autonomy where
  looked := h.looked.mono _
  routed := Desk.step_log hstep h.routed
  signalled hsignalled := by
    obtain ⟨payee, hstrips, hcarried⟩ := h.signalled hsignalled
    exact ⟨payee, hstrips, hcarried.snoc fun hstripped hyes => hstripped.desk hstep hyes⟩

theorem DeskMail.Sound.step {act : DeskAct} {m : DeskMail} {a : DeskAttempt}
    (h : m.Sound config.text beats w.autonomy a) (hstep : w.step config act = some w') :
    m.Sound config.text (beats ++ [⟨w, act⟩]) w'.autonomy a where
  attempt := h.attempt.step hstep
  threadId := h.threadId
  label := h.label
  body := h.body
  reply := h.reply

/-- What an attempt that signals carries out. -/
theorem carriedOut_revoke {n : Nat} {now : Datetime} {a : DeskAttempt} {payee : String}
    {autonomy : Autonomy} (h : a.Sound config.text beats w.autonomy)
    (ha : w.attempts[n]? = some a)
    (hstrips : a.strips config.text = some payee)
    (hstripped : Stripped config.text payee autonomy.offers.registry) :
    CarriedOut config.text (beats ++ [⟨w, .revoke n now⟩]) autonomy a.message payee := by
  refine ⟨beats, _, [], rfl, ⟨n, now, a, rfl, ha, rfl, hstrips⟩, ?_, fun _ => hstripped⟩
  obtain ⟨look, hlook, reached, hact, hview, -⟩ := h.looked
  obtain ⟨-, hgranted⟩ := DeskAttempt.strips_eq_some hstrips
  rw [hview, Desk.view] at hgranted
  cases reached with
  | false => exact absurd rfl hgranted
  | true =>
    refine ⟨look, hlook, ⟨a.reading, a.names, hact⟩, fun hnone => hgranted ?_⟩
    exact grantedFor_eq_nil_iff.2 hnone

/-- A send leaves the desk, or appends one mail under a label of its own. -/
theorem Desk.send_cases (w : Desk) (message : DispatchMessage) (reply : DeskReply) :
    w.send message reply = w ∨ ∃ threadId, message.threadId = some threadId ∧
      reply.label message.messageId ∉ w.mail.map DeskMail.label ∧
      w.send message reply =
        { w with
          mail := w.mail ++ [⟨threadId, reply.label message.messageId, reply.body, reply⟩] } := by
  unfold Desk.send
  split
  · rename_i threadId hthread
    split
    · exact .inl rfl
    · rename_i hfresh
      exact .inr ⟨threadId, hthread, hfresh, rfl⟩
  · exact .inl rfl

/-- One step keeps the invariant. -/
theorem Desk.Sound.step (hrun : DeskRun config {} beats w) (h : w.Sound config.text beats)
    {act : DeskAct} (hstep : w.step config act = some w') :
    w'.Sound config.text (beats ++ [⟨w, act⟩]) := by
  have hattempts : ∀ a ∈ w.attempts, a.Sound config.text (beats ++ [⟨w, act⟩]) w'.autonomy :=
    fun a ha => (h.attempts a ha).step hstep
  have hmail : ∀ m ∈ w.mail, ∃ a, m.Sound config.text (beats ++ [⟨w, act⟩]) w'.autonomy a := by
    intro m hm
    obtain ⟨a, hsound⟩ := h.mail m hm
    exact ⟨a, hsound.step hstep⟩
  have hfull := hstep
  cases act with
  | autonomy act =>
    obtain ⟨autonomy, -, rfl⟩ := Option.map_eq_some_iff.1 hstep
    exact ⟨hattempts, hmail, h.labels⟩
  | look message reading candidates reached =>
    simp only [Desk.step] at hstep
    split at hstep
    · rename_i hrouted
      cases hstep
      refine ⟨fun a ha => ?_, hmail, h.labels⟩
      rcases List.mem_append.1 ha with ha | ha
      · exact hattempts a ha
      · rw [List.mem_singleton.1 ha]
        refine ⟨⟨_, List.mem_append_right _ List.mem_cons_self, reached, rfl, rfl, ?_⟩, hrouted.1,
          fun hs => by cases hs⟩
        exact autonomy_grantsTrusted (desk_autonomyRun hrun)
    · cases hstep
  | revoke n now =>
    simp only [Desk.step] at hstep
    split at hstep
    · rename_i a ha
      obtain ⟨payee, hstrips, hstep⟩ := Option.bind_eq_some_iff.1 hstep
      split at hstep
      · cases hstep
      · obtain ⟨autonomy, hinner, rfl⟩ := Option.map_eq_some_iff.1 hstep
        refine ⟨fun a' ha' => ?_, hmail, h.labels⟩
        rcases List.mem_or_eq_of_mem_set ha' with ha' | rfl
        · exact hattempts a' ha'
        · have hsound := h.attempts a (List.mem_of_getElem? ha)
          have hnow := hsound.step hfull
          have hcarried :
              CarriedOut config.text (beats ++ [⟨w, .revoke n now⟩]) autonomy a.message payee :=
            carriedOut_revoke hsound ha hstrips (Autonomy.step_revoke hinner)
          exact ⟨hnow.looked, hnow.routed, fun _ => ⟨payee, hstrips, hcarried⟩⟩
    · cases hstep
  | reply n =>
    simp only [Desk.step] at hstep
    split at hstep
    · rename_i a ha
      obtain ⟨reply, hreply, rfl⟩ := Option.map_eq_some_iff.1 hstep
      have hsound := hattempts a (List.mem_of_getElem? ha)
      rcases Desk.send_cases w a.message reply with hsame | ⟨threadId, hthread, hfresh, hsent⟩
      · rw [hsame] at hattempts hmail ⊢
        exact ⟨hattempts, hmail, h.labels⟩
      · rw [hsent] at hattempts hmail hsound ⊢
        refine ⟨hattempts, fun m hm => ?_, ?_⟩
        · rcases List.mem_append.1 hm with hm | hm
          · exact hmail m hm
          · rw [List.mem_singleton.1 hm]
            exact ⟨a, hsound, hthread, rfl, rfl, hreply⟩
        · rw [List.map_append, List.map_singleton]
          exact List.nodup_append_comm.1 (List.nodup_cons.2 ⟨hfresh, h.labels⟩)
    · cases hstep

theorem desk_sound (h : DeskRun config {} beats w) : w.Sound config.text beats := by
  refine h.history (P := fun beats w => Desk.Sound config.text beats w) (Desk.sound_init _) ?_
  intro beats t beat u hrun ih hstep
  cases hstep with
  | step hs => exact ih.step hrun hs

/-! ## The main result -/

/-- What a reply claims, at the message it answers; it claims nothing of a registry that was not
reached. -/
def DeskReply.Holds (text : PyText) (beats : List DeskBeat) (w : Desk) (message : DispatchMessage) :
    DeskReply → Prop
  | .revoked payee => CarriedOut text beats w.autonomy message payee
  | .revokeNothing payee => ∃ look ∈ beats, DeskBeat.Misses message look ∨
      DeskBeat.LooksFor message look ∧ Stripped text payee (DeskBeat.registry look)
  | .rulesList blessed eligible observing => ∃ look ∈ beats,
      DeskBeat.Misses message look ∧ blessed = [] ∧ eligible = [] ∧ observing = 0 ∨
      ∃ reading names, look.act = .look message reading names true ∧
        blessed = ((DeskBeat.registry look).rules.filter fun rule => decide rule.Blessed).map
          (rulePair names) ∧
        eligible = (DeskBeat.registry look).eligibleForBless.map (rulePair names) ∧
        blessed.length + eligible.length + observing = (DeskBeat.registry look).rules.length
  | .help => True

/-- The ladder has every rule on one rung. -/
theorem ladder_length (rules : List Rule) :
    (rules.filter fun rule => rule.source = .humanExplicit).length +
      (rules.filter fun rule => rule.source = .learned ∧ rule.trust = .trusted).length +
      (rules.countP fun rule => rule.source = .learned ∧ rule.trust ≠ .trusted) = rules.length := by
  induction rules with
  | nil => rfl
  | cons rule rules ih =>
    rw [List.length_cons, ← ih]
    cases hsource : rule.source with
    | humanExplicit => simp [hsource]; omega
    | learned =>
      by_cases htrust : rule.trust = .trusted
      · simp [hsource, htrust]; omega
      · simp [hsource, htrust]; omega

/-- The list names the rules the gate may apply, and those an offer may be made of. -/
theorem rulesReply_holds {text : PyText} {message : DispatchMessage} {look : DeskBeat}
    {reading : CommandReading} {names : List CandidateCategory} {reached : Bool}
    (hlook : look ∈ beats) (hact : look.act = .look message reading names reached)
    (htrusted : GrantsTrusted (DeskBeat.registry look)) :
    (rulesReply names (look.pre.view reached)).Holds text beats w message := by
  refine ⟨look, hlook, ?_⟩
  cases reached with
  | false => exact .inl ⟨⟨reading, names, hact⟩, rfl, rfl, rfl⟩
  | true =>
    refine .inr ⟨reading, names, hact, ?_, ?_, ?_⟩
    · refine congrArg _ (List.filter_congr fun rule hrule =>
        decide_eq_decide.2 ⟨fun hsource => ?_, ?_⟩)
      · exact ⟨htrusted rule hrule hsource, hsource⟩
      · exact fun hblessed => hblessed.2
    · refine congrArg _ (List.filter_congr fun rule _ => ?_)
      exact decide_eq_decide.2 and_comm
    · rw [List.length_map, List.length_map]
      exact ladder_length look.pre.rules

theorem DeskMail.Sound.holds {m : DeskMail} {a : DeskAttempt}
    (h : m.Sound config.text beats w.autonomy a) : m.reply.Holds config.text beats w a.message := by
  obtain ⟨look, hlook, reached, hact, hview, htrusted⟩ := h.attempt.looked
  have hreply := h.reply
  unfold DeskAttempt.reply at hreply
  split at hreply
  · obtain ⟨payee, hpayee, hreply⟩ := Option.bind_eq_some_iff.1 hreply
    split at hreply
    · rename_i hnone
      rw [← Option.some.inj hreply]
      refine ⟨look, hlook, ?_⟩
      rw [hview] at hnone
      cases reached with
      | false => exact .inl ⟨a.reading, a.names, hact⟩
      | true => exact .inr ⟨⟨a.reading, a.names, hact⟩, grantedFor_eq_nil_iff.1 hnone⟩
    · split at hreply
      · rename_i hsignalled
        rw [← Option.some.inj hreply]
        obtain ⟨payee', hstrips, hcarried⟩ := h.attempt.signalled hsignalled
        rw [(DeskAttempt.strips_eq_some hstrips).1] at hpayee
        cases hpayee
        exact hcarried
      · cases hreply
  · rw [← Option.some.inj hreply, hview]
    exact rulesReply_holds hlook hact htrusted
  · rw [← Option.some.inj hreply]
    trivial
  · cases hreply

/-- **Instructions are answered truly.** No answer goes out twice; each is on the thread of a
message of the owner and reads as its reply is rendered, and what that claims holds. The desk itself
grants nothing. -/
theorem instructions_answered (h : DeskRun config {} beats w) :
    (w.mail.map DeskMail.label).Nodup ∧
    (∀ m ∈ w.mail, ∃ message,
      FromOwner config (beats.flatMap (DeskBeat.under config.text)) message ∧
      message.threadId = some m.threadId ∧ m.label = m.reply.label message.messageId ∧
      m.body = m.reply.body ∧ m.reply.Holds config.text beats w message) ∧
    ∀ rule ∈ w.rules, rule.source = .humanExplicit →
      Consented config (beats.flatMap (DeskBeat.under config.text)) rule := by
  have hsound := desk_sound h
  have hautonomy := autonomy_sound (desk_autonomyRun h)
  refine ⟨hsound.labels, ?_, ?_⟩
  · intro m hm
    obtain ⟨a, hmail⟩ := hsound.mail m hm
    exact ⟨a.message, hautonomy.fromOwner hmail.attempt.routed, hmail.threadId, hmail.label,
      hmail.body, hmail.holds⟩
  · intro rule hrule hsource
    obtain ⟨subject, yes, hconsent⟩ := hautonomy.granted rule hrule hsource
    exact hautonomy.consented hconsent

end desk

/-! ## A stop -/

/-- The owner takes the grant back. -/
def stopWire : Dispatch.WireMessage where
  messageId := "m3"
  fromAddress := "owner@home"
  text := some "Stop auto-handling Market"
  threadId := some "th3"

def stopHome : AutonomyConfig :=
  { marketHome with
    webhook :=
      { marketHome.webhook with
        verify := fun secret request =>
          if request.body = "stop" then
            some { eventType := Dispatch.receivedEvent, message := some stopWire }
          else marketHome.webhook.verify secret request } }

/-- Behind a grant, the message is read as a question first and as a "stop" by the next attempt,
which replies twice. -/
def marketStop : List DeskAct :=
  let stop := Dispatch.toInbound MailText.ascii HtmlReader.ascii stopWire true
  marketTalk.map DeskAct.autonomy ++
    [.autonomy (.inbox (.post ⟨"stop", []⟩)), .autonomy (.inbox (.found 2 none)),
      .autonomy (.inbox (.found 2 none)), .autonomy (.inbox (.found 2 none)),
      .autonomy (.inbox (.labelled 2 .command)), .autonomy (.inbox (.attempt 2)),
      .look stop ⟨.listRules, none, none⟩ marketCandidates true, .reply 0,
      .look stop ⟨.revoke, some "market", none⟩ marketCandidates true, .revoke 1 1, .reply 1,
      .reply 1]

theorem market_stopped :
    ∃ beats w, DeskRun stopHome {} beats w ∧
      w.mail.map DeskMail.reply = [.rulesList [("Market", "Groceries")] [] 0, .revoked "market"] ∧
      (w.mail.map DeskMail.label).Nodup ∧
      (∀ m ∈ w.mail, ∃ message,
        FromOwner stopHome (beats.flatMap (DeskBeat.under PyText.ascii)) message ∧
        message.threadId = some m.threadId ∧ m.label = m.reply.label message.messageId ∧
        m.body = m.reply.body ∧ m.reply.Holds PyText.ascii beats w message) ∧
      ∀ rule ∈ w.rules, rule.source = .humanExplicit →
        Consented stopHome (beats.flatMap (DeskBeat.under PyText.ascii)) rule := by
  have hexec : ∃ beats w, Lib.exec (Desk.step stopHome) {} marketStop = some (beats, w) ∧
      w.mail.map DeskMail.reply = [.rulesList [("Market", "Groceries")] [] 0, .revoked "market"] :=
    ⟨_, _, rfl, by decide +kernel⟩
  obtain ⟨beats, w, hexec, hmail⟩ := hexec
  have hrun := Lib.exec_run hexec
  exact ⟨beats, w, hrun, hmail, instructions_answered hrun⟩

end YnabAgent
