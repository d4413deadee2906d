import YnabAgent.Lib.Run

/-!
# Dialogues

A party asks one question and waits for a yes or a no until its patience ends. What is said to it is
queued; it takes one message at a time and reads it. An unclear one it acknowledges, and waits on; a
yes, a no, the end of its patience or a failure ends the dialogue.

`accounted_of_run`: on every run the messages are read in the order they were heard, none twice and
none skipped but the one in hand when a failure ends the dialogue; the readings are answered in that
order, and none comes after a yes or a no.
-/

namespace Lib

/-- What a message is read as. -/
inductive Reading
  | accept | decline | unclear
  deriving DecidableEq

/-- Where the party is: asking, waiting, reading a message, answering it, or done. -/
inductive Stage (M : Type*)
  | opening
  | waiting
  | reading (message : M)
  | answering (message : M) (reading : Reading)
  | closed
  deriving DecidableEq

structure Dialogue (M : Type*) where
  stage : Stage M := .opening
  deadline : Int := 0
  queue : List M := []
  deriving DecidableEq

namespace Dialogue

variable {M : Type*}

inductive Move (M : Type*)
  | hear (message : M)
  | opened (now : Int)
  | take
  | read (reading : Reading)
  | answered
  | lapse (now : Int)
  | fail

/-- Where an answer leads. -/
def onAnswer : Reading → Stage M
  | .unclear => .waiting
  | _ => .closed

def step (patience : Int) (d : Dialogue M) : Move M → Option (Dialogue M)
  | .hear message =>
    match d.stage with
    | .closed => none
    | _ => some { d with queue := d.queue ++ [message] }
  | .opened now =>
    match d.stage with
    | .opening => some { d with stage := .waiting, deadline := now + patience }
    | _ => none
  | .take =>
    match d.stage, d.queue with
    | .waiting, message :: rest => some { d with stage := .reading message, queue := rest }
    | _, _ => none
  | .read reading =>
    match d.stage with
    | .reading message => some { d with stage := .answering message reading }
    | _ => none
  | .answered =>
    match d.stage with
    | .answering _ reading => some { d with stage := onAnswer reading }
    | _ => none
  | .lapse now =>
    match d.stage with
    | .waiting => if d.deadline ≤ now then some { d with stage := .closed } else none
    | _ => none
  | .fail =>
    match d.stage with
    | .waiting | .closed => none
    | _ => some { d with stage := .closed }

/-- What one step can do. -/
inductive Turn (patience : Int) (d : Dialogue M) : Move M → Dialogue M → Prop
  | hear (message : M) (h : d.stage ≠ .closed) :
      Turn patience d (.hear message) { d with queue := d.queue ++ [message] }
  | opened (now : Int) (h : d.stage = .opening) :
      Turn patience d (.opened now) { d with stage := .waiting, deadline := now + patience }
  | take {message : M} {rest : List M} (h : d.stage = .waiting)
      (hqueue : d.queue = message :: rest) :
      Turn patience d .take { d with stage := .reading message, queue := rest }
  | read {message : M} (reading : Reading) (h : d.stage = .reading message) :
      Turn patience d (.read reading) { d with stage := .answering message reading }
  | answered {message : M} {reading : Reading} (h : d.stage = .answering message reading) :
      Turn patience d .answered { d with stage := onAnswer reading }
  | lapse {now : Int} (h : d.stage = .waiting) (hnow : d.deadline ≤ now) :
      Turn patience d (.lapse now) { d with stage := .closed }
  | fail (h : d.stage ≠ .waiting) (hopen : d.stage ≠ .closed) :
      Turn patience d .fail { d with stage := .closed }

variable {patience : Int} {d d' : Dialogue M}

theorem step_turn {move : Move M} (h : d.step patience move = some d') :
    Turn patience d move d' := by
  cases move with
  | hear message =>
    simp only [step] at h
    split at h
    · cases h
    · rename_i hopen
      cases h
      exact .hear message hopen
  | opened now =>
    simp only [step] at h
    split at h
    · rename_i hstage
      cases h
      exact .opened now hstage
    · cases h
  | take =>
    simp only [step] at h
    split at h
    · rename_i hstage hqueue
      cases h
      exact .take hstage hqueue
    · cases h
  | read reading =>
    simp only [step] at h
    split at h
    · rename_i hstage
      cases h
      exact .read reading hstage
    · cases h
  | answered =>
    simp only [step] at h
    split at h
    · rename_i hstage
      cases h
      exact .answered hstage
    · cases h
  | lapse now =>
    simp only [step] at h
    split at h
    · rename_i hstage
      split at h
      · rename_i hnow
        cases h
        exact .lapse hstage hnow
      · cases h
    · cases h
  | fail =>
    simp only [step] at h
    split at h
    · cases h
    · cases h
    · rename_i hwaiting hclosed
      cases h
      exact .fail hwaiting hclosed

/-! ## What a run heard, read and answered -/

abbrev Beats (M : Type*) := List (Beat (Dialogue M) (Move M))

/-- The messages said to the party. -/
def heard (beats : Beats M) : List M :=
  beats.filterMap fun beat =>
    match beat.act with
    | .hear message => some message
    | _ => none

/-- The message a beat reads, and what as. -/
def readOf (beat : Beat (Dialogue M) (Move M)) : Option (M × Reading) :=
  match beat.pre.stage, beat.act with
  | .reading message, .read reading => some (message, reading)
  | _, _ => none

def reads (beats : Beats M) : List (M × Reading) := beats.filterMap readOf

/-- The reading a beat has answered. -/
def answerOf (beat : Beat (Dialogue M) (Move M)) : Option (M × Reading) :=
  match beat.pre.stage, beat.act with
  | .answering message reading, .answered => some (message, reading)
  | _, _ => none

def answers (beats : Beats M) : List (M × Reading) := beats.filterMap answerOf

/-- The message taken and not read yet. -/
def inHand : Stage M → List M
  | .reading message => [message]
  | _ => []

/-- The reading not answered yet. -/
def owed : Stage M → List (M × Reading)
  | .answering message reading => [(message, reading)]
  | _ => []

theorem length_inHand_le (stage : Stage M) : (inHand stage).length ≤ 1 := by
  cases stage <;> simp [inHand]

theorem length_owed_le (stage : Stage M) : (owed stage).length ≤ 1 := by
  cases stage <;> simp [owed]

/-- How far the readings have come when the party is at `stage`: all were unclear while it goes on;
the last may be a yes or a no once it answers it, or is done. -/
def Course (reads : List (M × Reading)) : Stage M → Prop
  | .opening => reads = []
  | .waiting | .reading _ => ∀ r ∈ reads, r.2 = .unclear
  | .answering message reading =>
    ∃ before, reads = before ++ [(message, reading)] ∧ ∀ r ∈ before, r.2 = .unclear
  | .closed => ∃ before last, reads = before ++ last ∧ last.length ≤ 1 ∧
      ∀ r ∈ before, r.2 = .unclear

/-- A course that goes on may end. -/
theorem Course.close {rs : List (M × Reading)} {stage : Stage M} (h : Course rs stage) :
    Course rs .closed := by
  cases stage with
  | opening =>
    have hnil : rs = [] := h
    exact ⟨[], [], by rw [hnil]; rfl, Nat.zero_le 1, by simp⟩
  | waiting => exact ⟨rs, [], by rw [List.append_nil], Nat.zero_le 1, h⟩
  | reading message => exact ⟨rs, [], by rw [List.append_nil], Nat.zero_le 1, h⟩
  | answering message reading =>
    obtain ⟨before, hrs, hbefore⟩ := h
    exact ⟨before, [(message, reading)], hrs, Nat.le_refl 1, hbefore⟩
  | closed => exact h

theorem readOf_eq_none {beat : Beat (Dialogue M) (Move M)}
    (h : ∀ reading, beat.act ≠ .read reading) : readOf beat = none := by
  unfold readOf
  split
  · rename_i hact
    exact absurd hact (h _)
  · rfl

theorem answerOf_eq_none {beat : Beat (Dialogue M) (Move M)} (h : beat.act ≠ .answered) :
    answerOf beat = none := by
  unfold answerOf
  split
  · rename_i hact
    exact absurd hact h
  · rfl

theorem heard_snoc (beats : Beats M) (beat : Beat (Dialogue M) (Move M)) :
    heard (beats ++ [beat]) = heard beats ++ heard [beat] := by
  unfold heard
  rw [List.filterMap_append]

theorem reads_snoc (beats : Beats M) (beat : Beat (Dialogue M) (Move M)) :
    reads (beats ++ [beat]) = reads beats ++ (readOf beat).toList := by
  unfold reads
  rw [List.filterMap_append]
  cases h : readOf beat <;> simp [h]

theorem answers_snoc (beats : Beats M) (beat : Beat (Dialogue M) (Move M)) :
    answers (beats ++ [beat]) = answers beats ++ (answerOf beat).toList := by
  unfold answers
  rw [List.filterMap_append]
  cases h : answerOf beat <;> simp [h]

/-! ## Runs -/

abbrev DialogueRun (patience : Int) := Run (StepOf (step (M := M) patience))

/-- The invariant: the messages heard are those read, the one in hand and those queued, in this
order, and the readings are those answered and the one owed; the failure that closes the dialogue
may lose the one in hand or the one owed. -/
structure Accounted (beats : Beats M) (d : Dialogue M) : Prop where
  heard : ∃ lost, heard beats = (reads beats).map Prod.fst ++
    (inHand d.stage ++ (lost ++ d.queue)) ∧
    lost.length ≤ 1 ∧ (d.stage ≠ .closed → lost = [])
  answered : ∃ unsaid, reads beats = answers beats ++ (owed d.stage ++ unsaid) ∧
    unsaid.length ≤ 1 ∧ (d.stage ≠ .closed → unsaid = [])
  course : Course (reads beats) d.stage

theorem Accounted.init : Accounted ([] : Beats M) {} where
  heard := ⟨[], rfl, Nat.zero_le 1, fun _ => rfl⟩
  answered := ⟨[], rfl, Nat.zero_le 1, fun _ => rfl⟩
  course := rfl

/-- A beat that hears, reads and answers nothing leaves the accounts as they are, if the stage holds
what it held. -/
theorem Accounted.silent {beats : Beats M} (h : Accounted beats d)
    {beat : Beat (Dialogue M) (Move M)} (hheard : Dialogue.heard [beat] = [])
    (hread : readOf beat = none) (hanswer : answerOf beat = none) (hqueue : d'.queue = d.queue)
    (hopen : d.stage ≠ .closed) (hhand : d'.stage ≠ .closed → inHand d'.stage = inHand d.stage)
    (howed : d'.stage ≠ .closed → owed d'.stage = owed d.stage)
    (hcourse : Course (reads beats) d.stage → Course (reads beats) d'.stage) :
    Accounted (beats ++ [beat]) d' := by
  obtain ⟨lost, hlost, hlen, hnil⟩ := h.heard
  obtain ⟨unsaid, hunsaid, -, hsaid⟩ := h.answered
  have hreads : reads (beats ++ [beat]) = reads beats := by rw [reads_snoc, hread]; simp
  have hanswers : answers (beats ++ [beat]) = answers beats := by rw [answers_snoc, hanswer]; simp
  have hsame : Dialogue.heard (beats ++ [beat]) = Dialogue.heard beats := by
    rw [heard_snoc, hheard, List.append_nil]
  rw [hnil hopen, List.nil_append] at hlost
  rw [hsaid hopen, List.append_nil] at hunsaid
  constructor
  · rw [hsame, hreads, hlost, hqueue]
    by_cases hclosed : d'.stage = .closed
    · refine ⟨inHand d.stage, ?_, length_inHand_le d.stage, fun h => absurd hclosed h⟩
      rw [hclosed]
      rfl
    · exact ⟨[], by rw [hhand hclosed]; rfl, Nat.zero_le 1, fun _ => rfl⟩
  · rw [hreads, hanswers]
    by_cases hclosed : d'.stage = .closed
    · refine ⟨owed d.stage, ?_, length_owed_le d.stage, fun h => absurd hclosed h⟩
      rw [hclosed]
      exact hunsaid
    · exact ⟨[], by rw [howed hclosed, List.append_nil]; exact hunsaid, Nat.zero_le 1,
        fun _ => rfl⟩
  · rw [hreads]
    exact hcourse h.course

/-- One step keeps the accounts. -/
theorem Accounted.turn {beats : Beats M} (h : Accounted beats d) {move : Move M}
    (hturn : Turn patience d move d') : Accounted (beats ++ [⟨d, move⟩]) d' := by
  cases hturn with
  | hear message hopen =>
    obtain ⟨lost, hlost, hlen, hnil⟩ := h.heard
    have hread : readOf (⟨d, .hear message⟩ : Beat (Dialogue M) (Move M)) = none :=
      readOf_eq_none fun _ h => by cases h
    have hanswer : answerOf (⟨d, .hear message⟩ : Beat (Dialogue M) (Move M)) = none :=
      answerOf_eq_none fun h => by cases h
    constructor
    · refine ⟨lost, ?_, hlen, hnil⟩
      rw [heard_snoc, reads_snoc, hread, hlost]
      simp [Dialogue.heard]
    · rw [reads_snoc, answers_snoc, hread, hanswer]
      simpa using h.answered
    · rw [reads_snoc, hread]
      simpa using h.course
  | opened now hstage =>
    refine h.silent rfl (readOf_eq_none fun _ h => by cases h)
      (answerOf_eq_none fun h => by cases h)
      rfl (by rw [hstage]; nofun) (fun _ => by rw [hstage]; rfl) (fun _ => by rw [hstage]; rfl) ?_
    intro hcourse
    rw [hstage] at hcourse
    have hnil : reads beats = [] := hcourse
    rw [hnil]
    exact fun r hr => absurd hr List.not_mem_nil
  | @take message rest hstage hqueue =>
    obtain ⟨lost, hlost, hlen, hnil⟩ := h.heard
    have hopen : d.stage ≠ .closed := by rw [hstage]; nofun
    have hread : readOf (⟨d, .take⟩ : Beat (Dialogue M) (Move M)) = none :=
      readOf_eq_none fun _ h => by cases h
    have hanswer : answerOf (⟨d, .take⟩ : Beat (Dialogue M) (Move M)) = none :=
      answerOf_eq_none fun h => by cases h
    constructor
    · refine ⟨[], ?_, Nat.zero_le 1, fun _ => rfl⟩
      rw [heard_snoc, reads_snoc, hread, hlost, hnil hopen, hstage, hqueue]
      simp [Dialogue.heard, inHand]
    · rw [reads_snoc, answers_snoc, hread, hanswer]
      obtain ⟨unsaid, hunsaid, -, hsaid⟩ := h.answered
      rw [hsaid hopen, hstage] at hunsaid
      simp only [Option.toList_none, List.append_nil]
      exact ⟨[], hunsaid, Nat.zero_le 1, fun _ => rfl⟩
    · rw [reads_snoc, hread, Option.toList_none, List.append_nil]
      have hcourse := h.course
      rw [hstage] at hcourse
      exact hcourse
  | @read message reading hstage =>
    obtain ⟨lost, hlost, hlen, hnil⟩ := h.heard
    obtain ⟨unsaid, hunsaid, -, hsaid⟩ := h.answered
    have hopen : d.stage ≠ .closed := by rw [hstage]; nofun
    have hread : readOf (⟨d, .read reading⟩ : Beat (Dialogue M) (Move M))
        = some (message, reading) := by
      unfold readOf
      simp only [hstage]
    have hanswer : answerOf (⟨d, .read reading⟩ : Beat (Dialogue M) (Move M)) = none :=
      answerOf_eq_none fun h => by cases h
    constructor
    · refine ⟨[], ?_, Nat.zero_le 1, fun _ => rfl⟩
      rw [heard_snoc, reads_snoc, hread, hlost, hnil hopen, hstage]
      simp [Dialogue.heard, inHand]
    · refine ⟨[], ?_, Nat.zero_le 1, fun _ => rfl⟩
      rw [reads_snoc, answers_snoc, hread, hanswer, hunsaid, hsaid hopen, hstage]
      simp [owed]
    · rw [reads_snoc, hread]
      have hcourse := h.course
      rw [hstage] at hcourse
      exact ⟨reads beats, rfl, hcourse⟩
  | @answered message reading hstage =>
    obtain ⟨lost, hlost, hlen, hnil⟩ := h.heard
    obtain ⟨unsaid, hunsaid, -, hsaid⟩ := h.answered
    have hopen : d.stage ≠ .closed := by rw [hstage]; nofun
    have hread : readOf (⟨d, .answered⟩ : Beat (Dialogue M) (Move M)) = none :=
      readOf_eq_none fun _ h => by cases h
    have hanswer : answerOf (⟨d, .answered⟩ : Beat (Dialogue M) (Move M))
        = some (message, reading) := by
      unfold answerOf
      simp only [hstage]
    have hhand : inHand (onAnswer (M := M) reading) = [] := by cases reading <;> rfl
    have howed : owed (onAnswer (M := M) reading) = [] := by cases reading <;> rfl
    constructor
    · refine ⟨[], ?_, Nat.zero_le 1, fun _ => rfl⟩
      rw [heard_snoc, reads_snoc, hread, hlost, hnil hopen, hstage, hhand]
      simp [Dialogue.heard, inHand]
    · refine ⟨[], ?_, Nat.zero_le 1, fun _ => rfl⟩
      rw [reads_snoc, answers_snoc, hread, hanswer, hunsaid, hsaid hopen, hstage, howed]
      simp [owed]
    · rw [reads_snoc, hread]
      have hcourse := h.course
      rw [hstage] at hcourse
      obtain ⟨before, hrs, hbefore⟩ := hcourse
      simp only [Option.toList_none, List.append_nil]
      cases reading with
      | accept => exact ⟨before, _, hrs, Nat.le_refl 1, hbefore⟩
      | decline => exact ⟨before, _, hrs, Nat.le_refl 1, hbefore⟩
      | unclear =>
        intro r hr
        rw [hrs] at hr
        rcases List.mem_append.1 hr with hr | hr
        · exact hbefore r hr
        · rw [List.mem_singleton.1 hr]
  | lapse hstage hnow =>
    exact h.silent rfl (readOf_eq_none fun _ h => by cases h) (answerOf_eq_none fun h => by cases h)
      rfl (by rw [hstage]; nofun) (fun hclosed => absurd rfl hclosed)
      (fun hclosed => absurd rfl hclosed) Course.close
  | fail hwaiting hopen =>
    exact h.silent rfl (readOf_eq_none fun _ h => by cases h) (answerOf_eq_none fun h => by cases h)
      rfl hopen (fun hclosed => absurd rfl hclosed) (fun hclosed => absurd rfl hclosed) Course.close

/-- Every run keeps the accounts. -/
theorem accounted_of_run {beats : Beats M} (h : DialogueRun patience {} beats d) :
    Accounted beats d := by
  refine h.history Accounted.init ?_
  intro beats t beat u _ ih hstep
  cases hstep with
  | step hs => exact ih.turn (step_turn hs)

/-! ## What the party holds -/

/-- The message being answered. -/
def answered? : Stage M → List M
  | .answering message _ => [message]
  | _ => []

/-- The messages the party has not done with. -/
def holds (d : Dialogue M) : List M :=
  answered? d.stage ++ (inHand d.stage ++ d.queue)

/-- A party holds nothing that was not said to it. -/
theorem Turn.mem_holds {move : Move M} (h : Turn patience d move d') {message : M}
    (hmem : message ∈ d'.holds) : message ∈ d.holds ∨ move = .hear message := by
  cases h with
  | hear heard hopen =>
    simp only [holds, List.mem_append, List.mem_singleton] at hmem ⊢
    rcases hmem with hmem | hmem | hmem | rfl
    · exact .inl (.inl hmem)
    · exact .inl (.inr (.inl hmem))
    · exact .inl (.inr (.inr hmem))
    · exact .inr rfl
  | opened now hstage =>
    left
    simp only [holds, hstage] at hmem ⊢
    exact hmem
  | take hstage hqueue =>
    left
    simp only [holds, hstage, hqueue] at hmem ⊢
    exact hmem
  | read reading hstage =>
    left
    simp only [holds, hstage] at hmem ⊢
    exact hmem
  | @answered answered reading hstage =>
    left
    have hhand : inHand (onAnswer (M := M) reading) = [] := by cases reading <;> rfl
    have hdone : answered? (onAnswer (M := M) reading) = [] := by cases reading <;> rfl
    simp only [holds, hhand, hdone, List.nil_append] at hmem
    exact List.mem_append_right _ (List.mem_append_right _ hmem)
  | lapse hstage hnow =>
    left
    exact List.mem_append_right _ (List.mem_append_right _ hmem)
  | fail hwaiting hopen =>
    left
    exact List.mem_append_right _ (List.mem_append_right _ hmem)

/-- What is being answered was read. -/
theorem Turn.answering {move : Move M} (h : Turn patience d move d') {message : M}
    {reading : Reading} (hstage : d'.stage = .answering message reading) :
    d.stage = .answering message reading ∨ d.stage = .reading message ∧ move = .read reading := by
  cases h with
  | hear heard hopen => exact .inl hstage
  | opened now h => cases hstage
  | take h hqueue => cases hstage
  | read reading h =>
    cases hstage
    exact .inr ⟨h, rfl⟩
  | @answered answered reading h =>
    cases reading <;> cases hstage
  | lapse h hnow => cases hstage
  | fail hwaiting hopen => cases hstage

end Dialogue

end Lib
