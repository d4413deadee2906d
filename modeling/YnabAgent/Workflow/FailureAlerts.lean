import YnabAgent.Alert.Ledger
import YnabAgent.Lib.Admission
import YnabAgent.Lib.Run

/-!
# The failure alerts

Any number of `alert_failure` executions run side by side (`workflow/alert_activities.py`): each
reads its clock, asks the ledger, pushes, and signals the record, which the ledger folds in when it
comes to it (`workflow/alert_ledger_workflow.py`). The ledger is born with the first record; a query
that finds none, or does not reach it, lets the alert through.

To the rate cap and to the cooldown of each key the executions are an admission
(`AlertWorld.admission`): one is admitted when the ledger lets it through, and pushes after it.
-/

namespace YnabAgent

/-! ## The executions -/

/-- Where an execution is, or its record. -/
inductive AlertPhase
  | asking (now : Datetime)
  | letThrough
  | pushed
  | signalled
  | landed (time : Datetime)
  | closed
  deriving DecidableEq

structure AlertExecution where
  key : String
  phase : AlertPhase
  deriving DecidableEq

/-- The entry its record became. -/
def AlertExecution.landing (e : AlertExecution) : Option AlertEntry :=
  match e.phase with
  | .landed time => some ⟨e.key, time⟩
  | _ => none

/-- Past the push, or where none will come. -/
def AlertPhase.Past : AlertPhase → Prop
  | .asking _ | .letThrough => False
  | _ => True

/-- A notification that went out. -/
structure AlertPush where
  number : Nat
  key : String
  «at» : Datetime
  deriving DecidableEq

/-- The time, the executions in the order they were started, the ledger, and the notifications, the
latest first. -/
structure AlertWorld where
  clock : Datetime
  executions : List AlertExecution := []
  ledger : Option LedgerState := none
  pushes : List AlertPush := []
  deriving DecidableEq

inductive AlertAct
  | tick (now : Datetime)
  | start (key : String)
  | ask (n : Nat) (reached : Bool)
  /-- The push goes out; the activity goes on unless it raises all the same. -/
  | notify (n : Nat) (raises : Bool)
  | record (n : Nat) (sent : Bool)
  /-- A failure, swallowed, or there is no client. -/
  | drop (n : Nat)
  | land (n : Nat)
  deriving DecidableEq

/-- Whether an act is a query of the ledger. -/
def AlertAct.asks : AlertAct → Bool
  | .ask _ _ => true
  | _ => false

namespace AlertWorld

def put (w : AlertWorld) (n : Nat) (e : AlertExecution) : AlertWorld :=
  { w with executions := w.executions.set n e }

/-- The ledger's answer, as the activity takes it. -/
def shouldNotify (w : AlertWorld) (reached : Bool) (key : String) (now : Datetime) : Bool :=
  match reached, w.ledger with
  | true, some state => state.shouldNotify key now defaultCooldown defaultRateWindow defaultRateCap
  | _, _ => true

def step (w : AlertWorld) : AlertAct → Option AlertWorld
  | .tick now => if w.clock ≤ now then some { w with clock := now } else none
  | .start key => some { w with executions := w.executions ++ [⟨key, .asking w.clock⟩] }
  | .ask n reached =>
    match w.executions[n]? with
    | some ⟨key, .asking now⟩ =>
      some (w.put n ⟨key, if w.shouldNotify reached key now then .letThrough else .closed⟩)
    | _ => none
  | .notify n raises =>
    match w.executions[n]? with
    | some ⟨key, .letThrough⟩ =>
      some { w.put n ⟨key, if raises then .closed else .pushed⟩ with
        pushes := ⟨n, key, w.clock⟩ :: w.pushes }
    | _ => none
  | .record n sent =>
    match w.executions[n]? with
    | some ⟨key, .pushed⟩ => some (w.put n ⟨key, if sent then .signalled else .closed⟩)
    | _ => none
  | .drop n =>
    match w.executions[n]? with
    | some ⟨key, .asking _⟩ | some ⟨key, .letThrough⟩ => some (w.put n ⟨key, .closed⟩)
    | _ => none
  | .land n =>
    match w.executions[n]? with
    | some ⟨key, .signalled⟩ =>
      some { w.put n ⟨key, .landed w.clock⟩ with
        ledger := some ((w.ledger.getD {}).record key w.clock defaultCooldown) }
    | _ => none

/-! ## What the rules are about -/

/-- The notifications of the window of this width that ends at a time. -/
def notified (w : AlertWorld) (width : Timedelta) (time : Datetime) : Nat :=
  w.pushes.countP fun push => decide (push.at ≤ time ∧ time - push.at < width)

/-- The executions that notified in the window that ends now. -/
def pushedWithin (w : AlertWorld) (width : Timedelta) : Set Nat :=
  {n | ∃ push ∈ w.pushes, push.number = n ∧ w.clock - push.at < width}

/-- The executions let through that have not pushed yet. -/
def live (w : AlertWorld) : Set Nat :=
  {n | ∃ key, w.executions[n]? = some ⟨key, .letThrough⟩}

/-- The executions whose record was folded in. -/
def recorded (w : AlertWorld) : Set Nat :=
  {n | ∃ e, w.executions[n]? = some e ∧ e.landing.isSome = true}

/-- The alerts a query reads for a window. -/
def counted (w : AlertWorld) (reached : Bool) (now : Datetime) (width : Timedelta) : Nat :=
  if reached then (w.ledger.getD {}).recent now width else 0

/-- The executions a query does not see: let through and not pushed yet, or pushed in the window and
not recorded. -/
def unseen (w : AlertWorld) (reached : Bool) (width : Timedelta) : Set Nat :=
  w.live ∪ {n | n ∈ w.pushedWithin width ∧ (reached = true → n ∉ w.recorded)}

/-- An alert is let through with nothing unseen by the query, or with room for it in the rate
window; and no unseen one of the cooldown is under its key. -/
def Clear (w : AlertWorld) : AlertAct → Prop
  | .ask n reached =>
    ∀ key now, w.executions[n]? = some ⟨key, .asking now⟩ → w.shouldNotify reached key now = true →
      (w.unseen reached defaultRateWindow = ∅ ∨
        w.counted reached now defaultRateWindow + (w.unseen reached defaultRateWindow).encard <
          defaultRateCap) ∧
      ∀ m ∈ w.unseen reached defaultCooldown, ∀ e, w.executions[m]? = some e → e.key ≠ key
  | _ => True

/-- What one step does. -/
inductive Turn (w : AlertWorld) : AlertAct → AlertWorld → Prop
  | tick {now : Datetime} (hnow : w.clock ≤ now) : Turn w (.tick now) { w with clock := now }
  | start (key : String) :
      Turn w (.start key) { w with executions := w.executions ++ [⟨key, .asking w.clock⟩] }
  | ask {n : Nat} {key : String} {now : Datetime} (reached : Bool)
      (he : w.executions[n]? = some ⟨key, .asking now⟩) :
      Turn w (.ask n reached)
        (w.put n ⟨key, if w.shouldNotify reached key now then .letThrough else .closed⟩)
  | notify {n : Nat} {key : String} (raises : Bool)
      (he : w.executions[n]? = some ⟨key, .letThrough⟩) :
      Turn w (.notify n raises) { w.put n ⟨key, if raises then .closed else .pushed⟩ with
        pushes := ⟨n, key, w.clock⟩ :: w.pushes }
  | record {n : Nat} {key : String} (sent : Bool) (he : w.executions[n]? = some ⟨key, .pushed⟩) :
      Turn w (.record n sent) (w.put n ⟨key, if sent then .signalled else .closed⟩)
  | drop {n : Nat} {key : String} {phase : AlertPhase} (he : w.executions[n]? = some ⟨key, phase⟩)
      (hphase : phase = .letThrough ∨ ∃ now, phase = .asking now) :
      Turn w (.drop n) (w.put n ⟨key, .closed⟩)
  | land {n : Nat} {key : String} (he : w.executions[n]? = some ⟨key, .signalled⟩) :
      Turn w (.land n) { w.put n ⟨key, .landed w.clock⟩ with
        ledger := some ((w.ledger.getD {}).record key w.clock defaultCooldown) }

theorem step_turn {w w' : AlertWorld} {act : AlertAct} (h : w.step act = some w') :
    Turn w act w' := by
  cases act with
  | tick now =>
    simp only [step] at h
    split at h
    · rename_i hnow
      cases h
      exact .tick hnow
    · cases h
  | start key =>
    cases h
    exact .start key
  | ask n reached =>
    simp only [step] at h
    split at h
    · rename_i key now he
      cases h
      exact .ask reached he
    · cases h
  | notify n raises =>
    simp only [step] at h
    split at h
    · rename_i key he
      cases h
      exact .notify raises he
    · cases h
  | record n sent =>
    simp only [step] at h
    split at h
    · rename_i key he
      cases h
      exact .record sent he
    · cases h
  | drop n =>
    simp only [step] at h
    split at h
    · rename_i key now he
      cases h
      exact .drop he (.inr ⟨now, rfl⟩)
    · rename_i key he
      cases h
      exact .drop he (.inl rfl)
    · cases h
  | land n =>
    simp only [step] at h
    split at h
    · rename_i key he
      cases h
      exact .land he
    · cases h

/-! ## The ledger of the executions -/

/-- What every run keeps; of the records folded in the ledger has all but those a cooldown old. -/
structure Kept (w : AlertWorld) : Prop where
  began : ∀ (n : Nat) key now, w.executions[n]? = some ⟨key, .asking now⟩ → now ≤ w.clock
  past : ∀ push ∈ w.pushes, push.at ≤ w.clock
  order : w.pushes.Pairwise fun later earlier => earlier.at ≤ later.at
  once : (w.pushes.map (·.number)).Nodup
  made : ∀ push ∈ w.pushes, ∃ e, w.executions[push.number]? = some e ∧ e.key = push.key ∧
    e.phase.Past ∧ ∀ entry ∈ e.landing, push.at ≤ entry.at
  booked : ∀ p : AlertEntry → Bool,
    (∀ entry, p entry = true → w.clock - entry.at < defaultCooldown) →
      w.executions.countP (fun e => e.landing.any p) ≤ (w.ledger.getD {}).entries.countP p

variable {w w' : AlertWorld} {n : Nat} {e e' : AlertExecution}

theorem kept_init (clock : Datetime) : Kept { clock } where
  began n key now he := by cases he
  past push hmem := by cases hmem
  order := .nil
  once := List.nodup_nil
  made push hmem := by cases hmem
  booked p hp := Nat.le_refl 0

theorem getElem?_put (he : w.executions[n]? = some e) (e' : AlertExecution) (m : Nat) :
    (w.put n e').executions[m]? = if n = m then some e' else w.executions[m]? := by
  unfold put
  rw [List.getElem?_set]
  by_cases hm : n = m
  · rw [if_pos hm, if_pos hm, if_pos (List.getElem?_eq_some_iff.1 he).1]
  · rw [if_neg hm, if_neg hm]

/-- An execution put in the place of one that was not recorded adds its own record. -/
theorem countP_put (he : w.executions[n]? = some e) (hlanding : e.landing = none)
    (e' : AlertExecution) (p : AlertEntry → Bool) :
    (w.put n e').executions.countP (fun e => e.landing.any p) =
      w.executions.countP (fun e => e.landing.any p) + if e'.landing.any p then 1 else 0 := by
  obtain ⟨hn, hget⟩ := List.getElem?_eq_some_iff.1 he
  unfold put
  rw [List.countP_set hn, hget, hlanding]
  rfl

theorem Kept.tick (h : Kept w) {now : Datetime} (hnow : w.clock ≤ now) :
    Kept { w with clock := now } where
  began n key time he := (h.began n key time he).trans hnow
  past push hmem := (h.past push hmem).trans hnow
  order := h.order
  once := h.once
  made := h.made
  booked p hp := by
    refine h.booked p fun entry hentry => ?_
    exact (Int.sub_le_sub_right hnow entry.at).trans_lt (hp entry hentry)

theorem Kept.start (h : Kept w) (key : String) :
    Kept { w with executions := w.executions ++ [⟨key, .asking w.clock⟩] } where
  began n key' now he := by
    by_cases hn : n < w.executions.length
    · rw [List.getElem?_append_left hn] at he
      exact h.began n key' now he
    · rw [List.getElem?_append_right (by omega)] at he
      have hmem := List.mem_singleton.1 (List.mem_of_getElem? he)
      cases hmem
      exact Int.le_refl _
  past := h.past
  order := h.order
  once := h.once
  made push hmem := by
    obtain ⟨e, he, hrest⟩ := h.made push hmem
    refine ⟨e, ?_, hrest⟩
    rw [List.getElem?_append_left (List.getElem?_eq_some_iff.1 he).1]
    exact he
  booked p hp := by
    rw [List.countP_append]
    exact h.booked p hp

theorem Kept.began_put (h : Kept w) (he : w.executions[n]? = some e)
    (hasks : ∀ now, e'.phase ≠ .asking now) (m : Nat) (key : String) (now : Datetime)
    (hm : (w.put n e').executions[m]? = some ⟨key, .asking now⟩) : now ≤ w.clock := by
  rw [getElem?_put he] at hm
  split at hm
  · cases hm
    exact absurd rfl (hasks now)
  · exact h.began m key now hm

/-- What was pushed stays so; a record comes after its push. -/
theorem Kept.made_put (h : Kept w) (he : w.executions[n]? = some e) (hkey : e'.key = e.key)
    (hpast : e.phase.Past → e'.phase.Past)
    (hlanding : ∀ entry ∈ e'.landing, ∀ push ∈ w.pushes, push.at ≤ entry.at) :
    ∀ push ∈ w.pushes, ∃ e, (w.put n e').executions[push.number]? = some e ∧ e.key = push.key ∧
      e.phase.Past ∧ ∀ entry ∈ e.landing, push.at ≤ entry.at := by
  intro push hmem
  obtain ⟨a, ha, hkey', hpast', hentry⟩ := h.made push hmem
  rw [getElem?_put he]
  by_cases hn : n = push.number
  · subst hn
    rw [he] at ha
    cases ha
    exact ⟨e', if_pos rfl, hkey.trans hkey', hpast hpast',
      fun entry hlanded => hlanding entry hlanded push hmem⟩
  · exact ⟨a, (if_neg hn).trans ha, hkey', hpast', hentry⟩

/-- An execution that was not recorded goes on, and is not recorded by it. -/
theorem Kept.put (h : Kept w) (he : w.executions[n]? = some e) (hlanding : e.landing = none)
    (hkey : e'.key = e.key) (hasks : ∀ now, e'.phase ≠ .asking now)
    (hpast : e.phase.Past → e'.phase.Past) (hlanding' : e'.landing = none) : Kept (w.put n e') where
  began := h.began_put he hasks
  past := h.past
  order := h.order
  once := h.once
  made := h.made_put he hkey hpast (by rw [hlanding']; nofun)
  booked p hp := by
    rw [countP_put he hlanding, hlanding']
    exact h.booked p hp

/-- A push of an execution that has not pushed. -/
theorem Kept.notify (h : Kept w) {key : String} (he : w.executions[n]? = some ⟨key, .letThrough⟩)
    (raises : Bool) :
    Kept { w.put n ⟨key, if raises then .closed else .pushed⟩ with
      pushes := ⟨n, key, w.clock⟩ :: w.pushes } := by
  have hput : Kept (w.put n ⟨key, if raises then .closed else .pushed⟩) := by
    refine h.put he rfl rfl ?_ nofun ?_
    · cases raises <;> nofun
    · cases raises <;> rfl
  refine ⟨hput.began, ?_, ?_, ?_, ?_, hput.booked⟩
  · intro push hmem
    rcases List.mem_cons.1 hmem with rfl | hold
    · exact Int.le_refl _
    · exact h.past push hold
  · exact List.pairwise_cons.2 ⟨fun push hmem => h.past push hmem, h.order⟩
  · rw [List.map_cons, List.nodup_cons]
    refine ⟨?_, h.once⟩
    intro hmem
    obtain ⟨push, hpush, hnumber⟩ := List.mem_map.1 hmem
    obtain ⟨e, he', -, hpast, -⟩ := h.made push hpush
    rw [hnumber] at he'
    rw [he] at he'
    cases he'
    exact hpast
  · intro push hmem
    rcases List.mem_cons.1 hmem with rfl | hold
    · refine ⟨⟨key, if raises then .closed else .pushed⟩, ?_, rfl, ?_, ?_⟩
      · exact (getElem?_put he _ n).trans (if_pos rfl)
      · cases raises <;> trivial
      · cases raises <;> nofun
    · exact hput.made push hold

/-- A record is folded in. -/
theorem Kept.land (h : Kept w) {key : String} (he : w.executions[n]? = some ⟨key, .signalled⟩) :
    Kept { w.put n ⟨key, .landed w.clock⟩ with
      ledger := some ((w.ledger.getD {}).record key w.clock defaultCooldown) } where
  began := h.began_put he nofun
  past := h.past
  order := h.order
  once := h.once
  made := by
    refine h.made_put he rfl (fun _ => trivial) ?_
    intro entry hlanded push hmem
    cases hlanded
    exact h.past push hmem
  booked p hp := by
    have hrecord := LedgerState.countP_record (w.ledger.getD {}) key w.clock hp
    have hput := countP_put he rfl ⟨key, .landed w.clock⟩ p
    have hbooked := h.booked p hp
    show (w.put n ⟨key, .landed w.clock⟩).executions.countP (fun e => e.landing.any p) ≤
      ((w.ledger.getD {}).record key w.clock defaultCooldown).entries.countP p
    rw [hrecord, hput]
    exact Nat.add_le_add_right hbooked _

/-- **A step keeps the invariant.** -/
theorem Kept.turn (h : Kept w) {act : AlertAct} (hturn : Turn w act w') : Kept w' := by
  cases hturn with
  | tick hnow => exact h.tick hnow
  | start key => exact h.start key
  | @ask n key now reached he =>
    cases w.shouldNotify reached key now with
    | true => exact h.put he rfl rfl nofun nofun rfl
    | false => exact h.put he rfl rfl nofun nofun rfl
  | notify raises he => exact h.notify he raises
  | record sent he =>
    cases sent with
    | true => exact h.put he rfl rfl nofun (fun _ => trivial) rfl
    | false => exact h.put he rfl rfl nofun (fun _ => trivial) rfl
  | drop he hphase =>
    rcases hphase with rfl | ⟨now, rfl⟩
    · exact h.put he rfl rfl nofun (fun _ => trivial) rfl
    · exact h.put he rfl rfl nofun (fun _ => trivial) rfl
  | land he => exact h.land he

/-! ## The admissions of the executions -/

/-- The executions under the keys of the scope, as an admission. -/
def admission (w : AlertWorld) (scope : String → Bool) : Lib.Admission Nat where
  clock := w.clock
  live := {n | ∃ key, w.executions[n]? = some ⟨key, .letThrough⟩ ∧ scope key = true}
  commits := (w.pushes.filter fun push => scope push.key).map fun push => (push.number, push.at)

variable {scope : String → Bool} {width : Timedelta} {cap : Nat}

theorem mem_window {time : Datetime} :
    n ∈ Lib.Admission.window (w.admission scope).commits width time ↔ ∃ push ∈ w.pushes,
      scope push.key = true ∧ push.number = n ∧ push.at ≤ time ∧ time - push.at < width := by
  unfold Lib.Admission.window admission
  constructor
  · rintro ⟨t, hmem, hwindow⟩
    obtain ⟨push, hpush, heq⟩ := List.mem_map.1 hmem
    obtain ⟨hmem', hscope⟩ := List.mem_filter.1 hpush
    cases heq
    exact ⟨push, hmem', hscope, rfl, hwindow⟩
  · rintro ⟨push, hmem, hscope, rfl, hwindow⟩
    exact ⟨push.at, List.mem_map.2 ⟨push, List.mem_filter.2 ⟨hmem, hscope⟩, rfl⟩, hwindow⟩

/-- An execution put in the place of one is the only one that may have become live. -/
theorem live_put (he : w.executions[n]? = some e) {m : Nat}
    (hm : m ∈ ((w.put n e').admission scope).live) : m ∈ (w.admission scope).live ∨
      m = n ∧ e'.phase = .letThrough ∧ scope e'.key = true := by
  obtain ⟨key, hget, hscope⟩ := hm
  rw [getElem?_put he] at hget
  split at hget
  · rename_i heq
    cases hget
    exact .inr ⟨heq.symm, rfl, hscope⟩
  · exact .inl ⟨key, hget, hscope⟩

theorem live_put_subset (he : w.executions[n]? = some e) (hphase : e'.phase ≠ .letThrough) :
    ((w.put n e').admission scope).live ⊆ (w.admission scope).live := by
  intro m hm
  rcases live_put he hm with hold | ⟨-, hthrough, -⟩
  · exact hold
  · exact absurd hthrough hphase

theorem steps_put (he : w.executions[n]? = some e) (hphase : e'.phase ≠ .letThrough) :
    Lib.Admission.Steps width cap (w.admission scope) ((w.put n e').admission scope) :=
  .single (.release (live_put_subset he hphase))

/-- A push is the commit of an admitted execution, if it is in the scope. -/
theorem steps_notify {key : String} (he : w.executions[n]? = some ⟨key, .letThrough⟩)
    (raises : Bool) :
    Lib.Admission.Steps width cap (w.admission scope)
      (admission { w.put n ⟨key, if raises then .closed else .pushed⟩ with
        pushes := ⟨n, key, w.clock⟩ :: w.pushes } scope) := by
  have hlive : ((w.put n ⟨key, if raises then .closed else .pushed⟩).admission scope).live ⊆
      (w.admission scope).live := live_put_subset he (by cases raises <;> nofun)
  by_cases hscope : scope key = true
  · have hcommit : Lib.Admission.Step width cap (w.admission scope)
        { w.admission scope with commits := (n, w.clock) :: (w.admission scope).commits } :=
      .commit ⟨key, he, hscope⟩
    have hcommits : ((⟨n, key, w.clock⟩ :: w.pushes).filter fun push => scope push.key) =
        ⟨n, key, w.clock⟩ :: w.pushes.filter fun push => scope push.key :=
      List.filter_cons_of_pos hscope
    refine .tail (.single hcommit) ?_
    unfold admission
    simp only
    rw [hcommits]
    exact .release hlive
  · have hcommits : ((⟨n, key, w.clock⟩ :: w.pushes).filter fun push => scope push.key) =
        w.pushes.filter fun push => scope push.key :=
      List.filter_cons_of_neg hscope
    refine .single ?_
    unfold admission
    simp only
    rw [hcommits]
    exact .release hlive

/-- Where the query lets an alert of the scope through, the window has room for it. -/
def Room (w : AlertWorld) (scope : String → Bool) (width : Timedelta) (cap : Nat) : AlertAct → Prop
  | .ask n reached =>
    ∀ key now, w.executions[n]? = some ⟨key, .asking now⟩ → w.shouldNotify reached key now = true →
      scope key = true →
      (insert n (Lib.Admission.window (w.admission scope).commits width w.clock ∪
        (w.admission scope).live)).encard ≤ cap
  | _ => True

/-- An alert let through in the scope is admitted. -/
theorem steps_ask {key : String} {now : Datetime} {reached : Bool}
    (he : w.executions[n]? = some ⟨key, .asking now⟩)
    (hroom : w.Room scope width cap (.ask n reached)) :
    Lib.Admission.Steps width cap (w.admission scope) ((w.put n
      ⟨key, if w.shouldNotify reached key now then .letThrough else .closed⟩).admission scope) := by
  cases hnotify : w.shouldNotify reached key now with
  | true =>
    by_cases hscope : scope key = true
    · have hadmitted : Lib.Admission.Step width cap (w.admission scope)
          { w.admission scope with live := insert n (w.admission scope).live } :=
        .allow (hroom key now he hnotify hscope)
      refine .tail (.single hadmitted) (.release ?_)
      intro m hm
      rcases live_put he hm with hold | ⟨heq, -⟩
      · exact .inr hold
      · exact .inl heq
    · refine .single (.release ?_)
      intro m hm
      rcases live_put he hm with hold | ⟨-, -, hin⟩
      · exact hold
      · exact absurd hin hscope
  | false => exact steps_put he nofun

/-- **One step.** With room for what is let through, the admission takes its steps. -/
theorem steps_of_room {act : AlertAct} (hroom : w.Room scope width cap act)
    (hturn : Turn w act w') :
    Lib.Admission.Steps width cap (w.admission scope) (w'.admission scope) := by
  cases hturn with
  | tick hnow => exact .single (.tick hnow)
  | start key =>
    refine .single (.release ?_)
    rintro m ⟨key', hget, hscope⟩
    by_cases hm : m < w.executions.length
    · rw [List.getElem?_append_left hm] at hget
      exact ⟨key', hget, hscope⟩
    · rw [List.getElem?_append_right (by omega)] at hget
      have hmem := List.mem_singleton.1 (List.mem_of_getElem? hget)
      cases hmem
  | ask reached he => exact steps_ask he hroom
  | notify raises he => exact steps_notify he raises
  | record sent he => exact steps_put he (by cases sent <;> nofun)
  | drop he _ => exact steps_put he nofun
  | land he => exact .single (.release (live_put_subset he nofun))

/-! ### The room an alert is let through with -/

section asks
variable {key : String} {now : Datetime} {reached : Bool}

/-- What an answer that lets an alert through says of the ledger. -/
theorem of_shouldNotify (h : w.shouldNotify reached key now = true) :
    w.counted reached now defaultRateWindow < defaultRateCap ∧
      (reached = true → ∀ entry ∈ (w.ledger.getD {}).entries,
        entry.key = key → defaultCooldown ≤ now - entry.at) := by
  unfold shouldNotify at h
  unfold counted
  cases reached with
  | false => exact ⟨Nat.succ_pos 4, nofun⟩
  | true =>
    cases hledger : w.ledger with
    | none =>
      refine ⟨Nat.succ_pos 4, fun _ entry hmem => ?_⟩
      cases hmem
    | some state =>
      rw [hledger] at h
      obtain ⟨hquiet, hrecent⟩ := LedgerState.shouldNotify_iff.1 h
      exact ⟨hrecent, fun _ => hquiet⟩

/-- The executions a query sees: pushed in the rate window, and recorded. -/
def shown (w : AlertWorld) (reached : Bool) : Set Nat :=
  {n | reached = true ∧ n ∈ w.pushedWithin defaultRateWindow ∧ n ∈ w.recorded}

/-- **The ledger is read right.** The query counts what was pushed in the window and recorded. -/
theorem Kept.encard_shown_le (h : Kept w) (hnow : now ≤ w.clock) :
    (w.shown reached).encard ≤ w.counted reached now defaultRateWindow := by
  unfold shown counted
  cases reached with
  | false => simp
  | true =>
    let inWindow : AlertEntry → Bool := fun entry => decide (w.clock - entry.at < defaultRateWindow)
    have hsub : {n | true = true ∧ n ∈ w.pushedWithin defaultRateWindow ∧ n ∈ w.recorded} ⊆
        {n | ∃ e, w.executions[n]? = some e ∧ e.landing.any inWindow = true} := by
      rintro n ⟨-, ⟨push, hmem, rfl, hpush⟩, e, he, hsome⟩
      obtain ⟨entry, hentry⟩ := Option.isSome_iff_exists.1 hsome
      obtain ⟨e', he', -, -, hlater⟩ := h.made push hmem
      rw [he] at he'
      cases he'
      refine ⟨e, he, ?_⟩
      rw [hentry]
      have hle : push.at ≤ entry.at := hlater entry hentry
      exact decide_eq_true ((Int.sub_le_sub_left hle w.clock).trans_lt hpush)
    have hbooked := h.booked inWindow fun entry hentry =>
      (of_decide_eq_true hentry).trans_le (by decide)
    have hcounted : (w.ledger.getD {}).entries.countP inWindow ≤
        (w.ledger.getD {}).recent now defaultRateWindow := by
      refine List.countP_mono_left fun entry _ hentry => decide_eq_true ?_
      exact (Int.sub_le_sub_right hnow entry.at).trans_lt (of_decide_eq_true hentry)
    calc {n | true = true ∧ n ∈ w.pushedWithin defaultRateWindow ∧ n ∈ w.recorded}.encard
        ≤ {n | ∃ e, w.executions[n]? = some e ∧ e.landing.any inWindow = true}.encard :=
          Set.encard_le_encard hsub
      _ ≤ w.executions.countP fun e => e.landing.any inWindow :=
          Lib.Admission.encard_places_le_countP w.executions _
      _ ≤ (w.ledger.getD {}).recent now defaultRateWindow := by
          exact_mod_cast hbooked.trans hcounted

/-- A clear answer leaves room in the rate window. -/
theorem Kept.room_rate (h : Kept w) {act : AlertAct} (hclear : Clear w act) :
    w.Room (fun _ => true) defaultRateWindow defaultRateCap act := by
  cases act with
  | ask n reached =>
    intro key now he hnotify _
    have hnow := h.began n key now he
    have hlt := (of_shouldNotify hnotify).1
    have hroom : (w.counted reached now defaultRateWindow : ℕ∞) +
        (w.unseen reached defaultRateWindow).encard < defaultRateCap := by
      rcases (hclear key now he hnotify).1 with hempty | hclear
      · rw [hempty, Set.encard_empty, add_zero]
        exact_mod_cast hlt
      · exact hclear
    have hsub : insert n (Lib.Admission.window (w.admission fun _ => true).commits
        defaultRateWindow w.clock ∪ (w.admission fun _ => true).live) ⊆
        insert n (w.shown reached ∪ w.unseen reached defaultRateWindow) := by
      refine Set.insert_subset_insert ?_
      rintro m (hm | ⟨key', hget, -⟩)
      · obtain ⟨push, hmem, -, hnumber, -, hpush⟩ := mem_window.1 hm
        have hwithin : m ∈ w.pushedWithin defaultRateWindow := ⟨push, hmem, hnumber, hpush⟩
        by_cases hseen : reached = true ∧ m ∈ w.recorded
        · exact .inl ⟨hseen.1, hwithin, hseen.2⟩
        · exact .inr (.inr ⟨hwithin, fun hreached hrec => hseen ⟨hreached, hrec⟩⟩)
      · exact .inr (.inl ⟨key', hget⟩)
    calc (insert n (Lib.Admission.window (w.admission fun _ => true).commits
          defaultRateWindow w.clock ∪ (w.admission fun _ => true).live)).encard
        ≤ (insert n (w.shown reached ∪ w.unseen reached defaultRateWindow)).encard :=
          Set.encard_le_encard hsub
      _ ≤ (w.shown reached ∪ w.unseen reached defaultRateWindow).encard + 1 :=
          Set.encard_insert_le _ _
      _ ≤ (w.shown reached).encard + (w.unseen reached defaultRateWindow).encard + 1 := by
          gcongr
          exact Set.encard_union_le _ _
      _ ≤ w.counted reached now defaultRateWindow +
            (w.unseen reached defaultRateWindow).encard + 1 := by
          gcongr
          exact h.encard_shown_le hnow
      _ ≤ defaultRateCap := Order.add_one_le_of_lt hroom
  | _ => trivial

/-- A key that was recorded within the cooldown is in the ledger. -/
theorem Kept.booked_key (h : Kept w) {entry : AlertEntry} (he : w.executions[n]? = some e)
    (hentry : e.landing = some entry) (hrecent : w.clock - entry.at < defaultCooldown) :
    entry ∈ (w.ledger.getD {}).entries := by
  have hbooked := h.booked (fun other => decide (other = entry)) fun other hother => by
    rw [of_decide_eq_true hother]
    exact hrecent
  have hpos : 0 < w.executions.countP
      (fun e => e.landing.any fun other => decide (other = entry)) := by
    refine List.countP_pos_iff.2 ⟨e, List.mem_of_getElem? he, ?_⟩
    rw [hentry]
    exact decide_eq_true rfl
  obtain ⟨other, hmem, hother⟩ := List.countP_pos_iff.1 (hpos.trans_le hbooked)
  rwa [of_decide_eq_true hother] at hmem

/-- A clear answer finds no other alert of its key within the cooldown. -/
theorem Kept.room_key (h : Kept w) (key : String) {act : AlertAct} (hclear : Clear w act) :
    w.Room (fun other => decide (other = key)) defaultCooldown 1 act := by
  cases act with
  | ask n reached =>
    intro key' now he hnotify hscope
    have hkey : key' = key := of_decide_eq_true hscope
    subst hkey
    have hnow := h.began n key' now he
    obtain ⟨-, hquiet⟩ := of_shouldNotify hnotify
    obtain ⟨-, hunseen⟩ := hclear key' now he hnotify
    have hempty : Lib.Admission.window (w.admission fun other => decide (other = key')).commits
        defaultCooldown w.clock ∪ (w.admission fun other => decide (other = key')).live = ∅ := by
      rw [Set.eq_empty_iff_forall_notMem]
      rintro m (hm | ⟨key, hget, hsame⟩)
      · obtain ⟨push, hmem, hsame, rfl, -, hpush⟩ := mem_window.1 hm
        obtain ⟨e, he', hkey, -, hlater⟩ := h.made push hmem
        have hkey' : e.key = key' := hkey.trans (of_decide_eq_true hsame)
        by_cases hseen : reached = true ∧ push.number ∈ w.recorded
        · -- its record is in the ledger, which would have answered otherwise
          obtain ⟨hreached, e', he'', hsome⟩ := hseen
          rw [he'] at he''
          cases he''
          obtain ⟨entry, hentry⟩ := Option.isSome_iff_exists.1 hsome
          have hrecent : w.clock - entry.at < defaultCooldown :=
            (Int.sub_le_sub_left (hlater entry hentry) w.clock).trans_lt hpush
          have hbooked := h.booked_key he' hentry hrecent
          have hentryKey : entry.key = e.key := by
            unfold AlertExecution.landing at hentry
            split at hentry
            · cases hentry
              rfl
            · cases hentry
          have hcool := hquiet hreached entry hbooked (hentryKey.trans hkey')
          exact absurd (hcool.trans (Int.sub_le_sub_right hnow entry.at)) (Int.not_le.2 hrecent)
        · have hmiss : push.number ∈ w.unseen reached defaultCooldown :=
            .inr ⟨⟨push, hmem, rfl, hpush⟩, fun hreached hrec => hseen ⟨hreached, hrec⟩⟩
          exact hunseen _ hmiss e he' hkey'
      · exact hunseen m (.inl ⟨key, hget⟩) _ hget (of_decide_eq_true hsame)
    rw [hempty, insert_empty_eq, Set.encard_singleton]
    exact le_refl _
  | _ => trivial

end asks

/-! ## Every interleaving -/

abbrev Run := Lib.Run (Lib.StepOf AlertWorld.step)

variable {beats : List (Lib.Beat AlertWorld AlertAct)} {clock : Datetime}

theorem admission_init (clock : Datetime) (scope : String → Bool) :
    admission { clock } scope = { clock } := by
  unfold admission
  have hlive : {n : Nat | ∃ key, ([] : List AlertExecution)[n]? = some ⟨key, .letThrough⟩ ∧
      scope key = true} = ∅ := by
    rw [Set.eq_empty_iff_forall_notMem]
    rintro n ⟨key, hget, -⟩
    cases hget
  rw [hlive]
  rfl

/-- An admission for which every clear answer leaves room stays sound. -/
theorem Run.sound (h : Run { clock } beats w) (hclear : ∀ beat ∈ beats, Clear beat.pre beat.act)
    (hroom : ∀ {w act}, Kept w → Clear w act → w.Room scope width cap act) :
    Kept w ∧ Lib.Admission.Sound width cap (w.admission scope) := by
  refine Lib.Run.invariant_of (C := fun beat => Clear beat.pre beat.act)
    (I := fun w => Kept w ∧ Lib.Admission.Sound width cap (w.admission scope)) ?_ h hclear
    ⟨kept_init clock, ?_⟩
  · rintro w beat w' ⟨hkept, hsound⟩ hbeat ⟨hstep⟩
    have hturn := step_turn hstep
    exact ⟨hkept.turn hturn, hsound.steps (steps_of_room (hroom hkept hbeat) hturn)⟩
  · rw [admission_init]
    exact Lib.Admission.sound_init clock

/-- Each notification is that of an execution of its own. -/
theorem Kept.notified_eq (h : Kept w) (width : Timedelta) (time : Datetime) :
    (w.notified width time : ℕ∞) =
      (Lib.Admission.window (w.admission fun _ => true).commits width time).encard := by
  let inWindow : AlertPush → Bool := fun push => decide (push.at ≤ time ∧ time - push.at < width)
  have hnodup : ((w.pushes.filter inWindow).map (·.number)).Nodup :=
    h.once.sublist (List.filter_sublist.map _)
  have hwindow : Lib.Admission.window (w.admission fun _ => true).commits width time =
      ((w.pushes.filter inWindow).map (·.number)).toFinset := by
    ext n
    rw [mem_window, Finset.mem_coe, List.mem_toFinset, List.mem_map]
    constructor
    · rintro ⟨push, hmem, -, hnumber, hpush⟩
      exact ⟨push, List.mem_filter.2 ⟨hmem, decide_eq_true hpush⟩, hnumber⟩
    · rintro ⟨push, hmem, hnumber⟩
      obtain ⟨hmem, hpush⟩ := List.mem_filter.1 hmem
      exact ⟨push, hmem, rfl, hnumber, of_decide_eq_true hpush⟩
  rw [hwindow, Set.encard_coe_eq_coe_finsetCard, List.toFinset_card_of_nodup hnodup,
    List.length_map, ← List.countP_eq_length_filter]
  rfl

/-- Notifications of one key within a cooldown would share a window. -/
theorem spaced_of_window {later earlier : AlertPush} (hlater : later ∈ w.pushes)
    (hearlier : earlier ∈ w.pushes) (horder : earlier.at ≤ later.at)
    (hne : later.number ≠ earlier.number) (hkey : later.key = earlier.key)
    (hwindow : (Lib.Admission.window (w.admission fun other => decide (other = later.key)).commits
      defaultCooldown later.at).encard ≤ 1) : defaultCooldown ≤ later.at - earlier.at := by
  by_contra hnot
  have hwithin : later.at - earlier.at < defaultCooldown := Int.not_le.1 hnot
  have hself : later.at - later.at < defaultCooldown := by
    rw [Int.sub_self]
    decide
  have hmem₁ : later.number ∈ Lib.Admission.window
      (w.admission fun other => decide (other = later.key)).commits defaultCooldown later.at :=
    mem_window.2 ⟨later, hlater, decide_eq_true rfl, rfl, Int.le_refl _, hself⟩
  have hmem₂ : earlier.number ∈ Lib.Admission.window
      (w.admission fun other => decide (other = later.key)).commits defaultCooldown later.at :=
    mem_window.2 ⟨earlier, hearlier, decide_eq_true hkey.symm, rfl, horder, hwithin⟩
  exact hne (Set.encard_le_one_iff.1 hwindow _ _ hmem₁ hmem₂)

/-- **The rules of the ledger.** In every interleaving whose answers are clear, no rate window,
wherever it ends, holds more notifications than the cap, and two of one key are a cooldown apart. -/
theorem alerts_spaced (h : Run { clock } beats w)
    (hclear : ∀ beat ∈ beats, Clear beat.pre beat.act) :
    (∀ time, w.notified defaultRateWindow time ≤ defaultRateCap) ∧
      w.pushes.Pairwise fun later earlier =>
        later.key = earlier.key → defaultCooldown ≤ later.at - earlier.at := by
  obtain ⟨hkept, hrate⟩ := h.sound hclear fun hkept hact => hkept.room_rate hact
  constructor
  · intro time
    have hwindow := hrate.window time
    rw [← hkept.notified_eq] at hwindow
    exact_mod_cast hwindow
  · have hnumbers : w.pushes.Pairwise fun later earlier => later.number ≠ earlier.number :=
      List.pairwise_map.1 hkept.once
    refine (hkept.order.and hnumbers).imp_of_mem ?_
    rintro later earlier hlater hearlier ⟨horder, hne⟩ hkey
    have hsound := (h.sound hclear fun hkept hact => hkept.room_key later.key hact).2
    exact spaced_of_window hlater hearlier horder hne hkey (hsound.window later.at)

/-! ### Alerts of one transaction -/

/-- Nothing is let through and to come, and nothing went out within the cooldown. -/
def Quiet (w : AlertWorld) : Prop :=
  (∀ e ∈ w.executions, e.phase ≠ .letThrough) ∧
    ∀ push ∈ w.pushes, defaultCooldown ≤ w.clock - push.at

instance (w : AlertWorld) : Decidable w.Quiet := by
  unfold Quiet; infer_instance

theorem Quiet.unseen (h : w.Quiet) (reached : Bool) {width : Timedelta}
    (hwidth : width ≤ defaultCooldown) : w.unseen reached width = ∅ := by
  rw [Set.eq_empty_iff_forall_notMem]
  rintro n (⟨key, hget⟩ | ⟨⟨push, hmem, -, hpush⟩, -⟩)
  · exact h.1 _ (List.mem_of_getElem? hget) rfl
  · have hcool := h.2 push hmem
    exact absurd (hwidth.trans hcool) (Int.not_le.2 hpush)

theorem Quiet.clear (h : w.Quiet) (act : AlertAct) : Clear w act := by
  cases act with
  | ask n reached =>
    intro key now _ _
    refine ⟨.inl (h.unseen reached (by decide)), ?_⟩
    rw [h.unseen reached (Int.le_refl _)]
    intro m hm
    exact absurd hm (Set.notMem_empty m)
  | _ => trivial

/-- An alert that is let through, goes out and is recorded. -/
def alerted (n : Nat) : List AlertAct :=
  [.start "y1", .ask n true, .notify n false, .record n true, .land n]

/-- Two alerts of one transaction, a cooldown apart. -/
theorem two_alerts_spaced : ∃ beats w, Run { clock := 0 } beats w ∧
    w.pushes = [⟨1, "y1", defaultCooldown⟩, ⟨0, "y1", 0⟩] ∧
    (∀ time, w.notified defaultRateWindow time ≤ defaultRateCap) ∧
      w.pushes.Pairwise fun later earlier =>
        later.key = earlier.key → defaultCooldown ≤ later.at - earlier.at := by
  have hexec : ∃ beats w, Lib.exec step { clock := 0 }
        (alerted 0 ++ .tick defaultCooldown :: alerted 1) = some (beats, w) ∧
      w.pushes = [⟨1, "y1", defaultCooldown⟩, ⟨0, "y1", 0⟩] ∧
      beats.all (fun beat => !beat.act.asks || decide beat.pre.Quiet) = true :=
    ⟨_, _, rfl, rfl, rfl⟩
  obtain ⟨beats, w, hexec, hpushes, hquiet⟩ := hexec
  have hrun : Run { clock := 0 } beats w := Lib.exec_run hexec
  refine ⟨beats, w, hrun, hpushes, alerts_spaced hrun ?_⟩
  intro beat hmem
  have hbeat := List.all_eq_true.1 hquiet beat hmem
  cases hact : beat.act with
  | ask n reached =>
    rw [hact] at hbeat
    exact Quiet.clear (of_decide_eq_true hbeat) _
  | _ => trivial

/-- Six executions ask before the first of them is recorded. -/
def sixAlerts : List AlertAct :=
  List.replicate 6 (.start "y1") ++ (List.range 6).map (.ask · true) ++
    (List.range 6).map (.notify · false)

theorem six_alerts : ∃ beats w, Run { clock := 0 } beats w ∧
    ¬ w.notified defaultRateWindow 0 ≤ defaultRateCap ∧
    ¬ w.pushes.Pairwise fun later earlier =>
      later.key = earlier.key → defaultCooldown ≤ later.at - earlier.at := by
  have hexec : ∃ beats w, Lib.exec step { clock := 0 } sixAlerts = some (beats, w) ∧
      w.pushes = (List.range 6).reverse.map fun n => ⟨n, "y1", 0⟩ :=
    ⟨_, _, rfl, rfl⟩
  obtain ⟨beats, w, hexec, hpushes⟩ := hexec
  refine ⟨beats, w, Lib.exec_run hexec, ?_, ?_⟩
  · unfold notified
    rw [hpushes]
    decide
  · rw [hpushes]
    decide

end AlertWorld

end YnabAgent
