import Mathlib.Data.List.Basic
import Mathlib.Logic.Relation

/-!
# A register that is settled once

A register holds a value that one worker at a time may decide to overwrite. The worker aims at a
value, acts on its decision, and sends the value as a write that lands in any order; it may send
more than once, and be dismissed. Some values are `final`, and aiming at the value `hot` is what the
worker acts on. `Step` is the discipline under which the register is a latch: a worker aims only
at what the final value held and the writes on their way already say, a worker that acted on `hot`
is not dismissed before it has sent it, and a register that was dropped is not created again.

Under it at most one worker acts (`Sound.once`) and a final value stays until the register
is dropped (`Step.final_stays`).
-/

namespace Lib

/-- A worker on the register: what it aims at, once it has decided, whether it has acted on it and
whether it has sent it. -/
structure Worker (S : Type*) where
  ticket : Nat
  aim : Option S := none
  acted : Bool := false
  sent : Bool := false

/-- The register, whether it ever existed, the writes on their way, the worker at work, and the
tickets of those that acted on the hot value. -/
structure Latch (S : Type*) where
  held : Option S := none
  known : Prop := False
  writes : List S := []
  worker : Option (Worker S) := none
  acts : List Nat := []

namespace Latch

variable {S : Type*} (final : S → Prop) (hot : S)

/-- The final value held and the writes on their way are all `s`, and not hot. -/
def Allows (l : Latch S) (s : S) : Prop :=
  (∀ t, l.held = some t → final t → t = s ∧ s ≠ hot) ∧ ∀ t ∈ l.writes, t = s ∧ s ≠ hot

/-- The register holds `s` for good, or will be asked to hold it. -/
inductive Settling (l : Latch S) (s : S) : Prop
  | held (h : l.held = some s) (hs : final s)
  | written (h : s ∈ l.writes)
  | aimed (w : Worker S) (h : l.worker = some w) (hs : w.aim = some s)

/-- A worker that acted still owes its write. -/
def Owes (l : Latch S) : Prop :=
  ∃ w, l.worker = some w ∧ w.aim = some hot ∧ w.acted = true ∧ w.sent = false

/-- The invariant. -/
structure Sound (l : Latch S) : Prop where
  /-- A final value allows no other. -/
  agree : ∀ {s t}, l.Settling final s → l.Settling final t → final s → t = s
  known_of_held : l.held ≠ none → l.known
  known_of_acts : l.acts ≠ [] → l.known
  once : ∀ {m n}, m ∈ l.acts → n ∈ l.acts → m = n
  /-- What was acted on is held, on its way or owed. -/
  settled : ∀ {n}, n ∈ l.acts → l.held ≠ none →
    l.held = some hot ∨ hot ∈ l.writes ∨ l.Owes hot
  /-- Only the worker that acted is still at the hot value. -/
  sole : ∀ {n w}, n ∈ l.acts → l.held ≠ none → l.worker = some w → w.aim = some hot → w.ticket = n

inductive Step [DecidableEq S] : Latch S → Latch S → Prop
  | create {l : Latch S} {s : S} (hknown : ¬ l.known) (hs : ¬ final s) :
      Step l { l with held := some s, known := True }
  | drop {l : Latch S} : Step l { l with held := none }
  | hire {l : Latch S} (n : Nat) (h : l.worker = none) :
      Step l { l with worker := some { ticket := n } }
  | aim {l : Latch S} {w : Worker S} {s : S} (h : l.worker = some w) (hw : w.aim = none)
      (hs : l.Allows final hot s) :
      Step l { l with worker := some { w with aim := some s } }
  | act {l : Latch S} {w : Worker S} (h : l.worker = some w) (hw : w.aim = some hot)
      (hsent : w.sent = false) (hheld : l.held ≠ none) :
      Step l { l with worker := some { w with acted := true }, acts := l.acts ++ [w.ticket] }
  | work {l : Latch S} {w : Worker S} (h : l.worker = some w) (hw : w.aim ≠ some hot) :
      Step l { l with worker := some { w with acted := true } }
  | send {l : Latch S} {w : Worker S} {s : S} (h : l.worker = some w) (hw : w.aim = some s) :
      Step l { l with worker := some { w with sent := true }, writes := l.writes ++ [s] }
  | dismiss {l : Latch S} {w : Worker S} (h : l.worker = some w)
      (hw : w.aim = some hot → w.acted = true → w.sent = true) : Step l { l with worker := none }
  | land {l : Latch S} {s : S} (h : s ∈ l.writes) :
      Step l { l with held := l.held.map fun _ => s, writes := l.writes.erase s }

theorem sound_init : Sound final hot ({} : Latch S) where
  agree hs := by
    cases hs with
    | held h => cases h
    | written h => cases h
    | aimed w h => cases h
  known_of_held h := absurd rfl h
  known_of_acts h := absurd rfl h
  once hm := by cases hm
  settled hn := by cases hn
  sole hn := by cases hn

variable {final hot} {l l' : Latch S}

/-- The agreement survives a step after which nothing new is settling. -/
theorem agree_of_subset (h : Sound final hot l)
    (hsub : ∀ {s}, l'.Settling final s → l.Settling final s) {s t : S} (hs : l'.Settling final s)
    (ht : l'.Settling final t) (hfinal : final s) : t = s :=
  h.agree (hsub hs) (hsub ht) hfinal

namespace Sound

theorem create (h : Sound final hot l) {s : S} (hknown : ¬ l.known) (hs : ¬ final s) :
    Sound final hot { l with held := some s, known := True } where
  agree := by
    refine agree_of_subset h ?_
    intro t ht
    cases ht with
    | held heq hfinal => cases heq; exact absurd hfinal hs
    | written hmem => exact .written hmem
    | aimed w hw haim => exact .aimed w hw haim
  known_of_held _ := trivial
  known_of_acts _ := trivial
  once := h.once
  settled hn := absurd (h.known_of_acts (List.ne_nil_of_mem hn)) hknown
  sole hn := absurd (h.known_of_acts (List.ne_nil_of_mem hn)) hknown

theorem drop (h : Sound final hot l) : Sound final hot { l with held := none } where
  agree := by
    refine agree_of_subset h ?_
    intro t ht
    cases ht with
    | held heq => cases heq
    | written hmem => exact .written hmem
    | aimed w hw haim => exact .aimed w hw haim
  known_of_held hne := absurd rfl hne
  known_of_acts := h.known_of_acts
  once := h.once
  settled _ hne := absurd rfl hne
  sole _ hne := absurd rfl hne

theorem hire (h : Sound final hot l) (n : Nat) (hnone : l.worker = none) :
    Sound final hot { l with worker := some { ticket := n } } where
  agree := by
    refine agree_of_subset h ?_
    intro t ht
    cases ht with
    | held heq hfinal => exact .held heq hfinal
    | written hmem => exact .written hmem
    | aimed w hw haim => cases hw; cases haim
  known_of_held := h.known_of_held
  known_of_acts := h.known_of_acts
  once := h.once
  settled := by
    intro n hn hne
    rcases h.settled hn hne with hheld | hmem | ⟨w, hw, -⟩
    · exact .inl hheld
    · exact .inr (.inl hmem)
    · rw [hnone] at hw; cases hw
  sole _ _ hw haim := by cases hw; cases haim

/-- What has been acted on leaves a worker without an aim nothing to aim at. -/
theorem not_allows_of_acts (h : Sound final hot l) (hhot : final hot) {n : Nat} (hn : n ∈ l.acts)
    (hne : l.held ≠ none) {w : Worker S} (hw : l.worker = some w) (hnoaim : w.aim = none) {s : S}
    (hs : l.Allows final hot s) : False := by
  rcases h.settled hn hne with hheld | hmem | ⟨w', hw', haim, -⟩
  · obtain ⟨heq, hnot⟩ := hs.1 hot hheld hhot
    exact hnot heq.symm
  · obtain ⟨heq, hnot⟩ := hs.2 hot hmem
    exact hnot heq.symm
  · rw [hw] at hw'
    cases hw'
    rw [hnoaim] at haim
    cases haim

theorem aim (h : Sound final hot l) (hhot : final hot) {w : Worker S} {s : S}
    (hw : l.worker = some w) (hnoaim : w.aim = none) (hs : l.Allows final hot s) :
    Sound final hot { l with worker := some { w with aim := some s } } where
  agree := by
    -- whatever was settling is the value now aimed at, unless it is open and held
    have hall : ∀ {t}, Settling final { l with worker := some { w with aim := some s } } t →
        t = s := by
      intro t ht
      cases ht with
      | held heq hfinal => exact (hs.1 t heq hfinal).1
      | written hmem => exact (hs.2 t hmem).1
      | aimed w' hw' haim => cases hw'; cases haim; rfl
    intro t u ht hu _
    rw [hall ht, hall hu]
  known_of_held := h.known_of_held
  known_of_acts := h.known_of_acts
  once := h.once
  settled hn hne := (h.not_allows_of_acts hhot hn hne hw hnoaim hs).elim
  sole hn hne := (h.not_allows_of_acts hhot hn hne hw hnoaim hs).elim

/-- A worker that acts settles nothing new. -/
theorem settling_of_acted {w : Worker S} {acts : List Nat} (hw : l.worker = some w) {s : S}
    (hs : Settling final { l with worker := some { w with acted := true }, acts := acts } s) :
    l.Settling final s := by
  cases hs with
  | held heq hfinal => exact .held heq hfinal
  | written hmem => exact .written hmem
  | aimed v hv haim => cases hv; exact .aimed w hw haim

theorem act (h : Sound final hot l) {w : Worker S} (hw : l.worker = some w)
    (haim : w.aim = some hot) (hsent : w.sent = false) (hheld : l.held ≠ none) :
    Sound final hot
      { l with worker := some { w with acted := true }, acts := l.acts ++ [w.ticket] } := by
  have hall : ∀ n ∈ l.acts ++ [w.ticket], n = w.ticket := by
    intro n hn
    rcases List.mem_append.1 hn with hold | hnew
    · exact (h.sole hold hheld hw haim).symm
    · exact List.mem_singleton.1 hnew
  refine ⟨?_, h.known_of_held, fun _ => h.known_of_held hheld, ?_, ?_, ?_⟩
  · intro s t hs ht hfinal
    exact h.agree (settling_of_acted hw hs) (settling_of_acted hw ht) hfinal
  · intro m n hm hn
    rw [hall m hm, hall n hn]
  · intro n _ _
    exact .inr (.inr ⟨_, rfl, haim, rfl, hsent⟩)
  · intro n v hn _ hv _
    cases hv
    exact (hall n hn).symm

theorem work (h : Sound final hot l) {w : Worker S} (hw : l.worker = some w)
    (haim : w.aim ≠ some hot) :
    Sound final hot { l with worker := some { w with acted := true } } where
  agree := by
    intro s t hs ht hfinal
    exact h.agree (settling_of_acted hw hs) (settling_of_acted hw ht) hfinal
  known_of_held := h.known_of_held
  known_of_acts := h.known_of_acts
  once := h.once
  settled := by
    intro n hn hne
    rcases h.settled hn hne with hheld | hmem | ⟨v, hv, hhot, -⟩
    · exact .inl hheld
    · exact .inr (.inl hmem)
    · rw [hw] at hv; cases hv; exact absurd hhot haim
  sole := by
    intro n v _ _ hv hhot
    cases hv
    exact absurd hhot haim

theorem send (h : Sound final hot l) {w : Worker S} {s : S} (hw : l.worker = some w)
    (haim : w.aim = some s) :
    Sound final hot
      { l with worker := some { w with sent := true }, writes := l.writes ++ [s] } where
  agree := by
    refine agree_of_subset h ?_
    intro t ht
    cases ht with
    | held heq hfinal => exact .held heq hfinal
    | written hmem =>
      rcases List.mem_append.1 hmem with hold | hnew
      · exact .written hold
      · rw [List.mem_singleton.1 hnew]; exact .aimed w hw haim
    | aimed v hv hs => cases hv; exact .aimed w hw hs
  known_of_held := h.known_of_held
  known_of_acts := h.known_of_acts
  once := h.once
  settled := by
    intro n hn hne
    rcases h.settled hn hne with hheld | hmem | ⟨v, hv, hhot, -⟩
    · exact .inl hheld
    · exact .inr (.inl (List.mem_append_left _ hmem))
    · -- what was owed is sent by this very step
      rw [hw] at hv
      cases hv
      rw [haim] at hhot
      cases hhot
      exact .inr (.inl (List.mem_append_right _ (List.mem_singleton.2 rfl)))
  sole := by
    intro n v hn hne hv hhot
    cases hv
    exact (h.sole hn hne hw hhot : w.ticket = n)

theorem dismiss (h : Sound final hot l) {w : Worker S} (hw : l.worker = some w)
    (hsent : w.aim = some hot → w.acted = true → w.sent = true) :
    Sound final hot { l with worker := none } where
  agree := by
    refine agree_of_subset h ?_
    intro t ht
    cases ht with
    | held heq hfinal => exact .held heq hfinal
    | written hmem => exact .written hmem
    | aimed v hv => cases hv
  known_of_held := h.known_of_held
  known_of_acts := h.known_of_acts
  once := h.once
  settled := by
    intro n hn hne
    rcases h.settled hn hne with hheld | hmem | ⟨v, hv, hhot, hacted, howed⟩
    · exact .inl hheld
    · exact .inr (.inl hmem)
    · rw [hw] at hv
      cases hv
      rw [hsent hhot hacted] at howed
      cases howed
  sole _ _ hv := by cases hv

/-- A final value held is what any write on its way asks for. -/
theorem eq_of_written (h : Sound final hot l) {s t : S} (hheld : l.held = some s) (hs : final s)
    (ht : t ∈ l.writes) : t = s :=
  h.agree (.held hheld hs) (.written ht) hs

theorem land [DecidableEq S] (h : Sound final hot l) (hhot : final hot) {s : S}
    (hs : s ∈ l.writes) :
    Sound final hot { l with held := l.held.map fun _ => s, writes := l.writes.erase s } where
  agree := by
    refine agree_of_subset h ?_
    intro t ht
    cases ht with
    | held heq hfinal =>
      obtain ⟨_, -, hst⟩ := Option.map_eq_some_iff.1 heq
      rw [← hst]
      exact .written hs
    | written hmem => exact .written (List.mem_of_mem_erase hmem)
    | aimed w hw haim => exact .aimed w hw haim
  known_of_held hne := by
    refine h.known_of_held ?_
    intro hnone
    exact hne (by rw [hnone]; rfl)
  known_of_acts := h.known_of_acts
  once := h.once
  settled := by
    intro n hn hne
    obtain ⟨old, hold⟩ : ∃ old, l.held = some old := by
      cases hl : l.held with
      | none => rw [hl] at hne; exact absurd rfl hne
      | some old => exact ⟨old, rfl⟩
    by_cases hsh : s = hot
    · left
      rw [hold, hsh]
      rfl
    · rcases h.settled hn (by rw [hold]; exact Option.some_ne_none _) with hheld | hmem | howes
      · exact absurd (h.eq_of_written hheld hhot hs) hsh
      · exact .inr (.inl ((List.mem_erase_of_ne (Ne.symm hsh)).2 hmem))
      · exact .inr (.inr howes)
  sole := by
    intro n w hn hne hw haim
    refine h.sole hn ?_ hw haim
    intro hnone
    exact hne (by rw [hnone]; rfl)

/-- Every step keeps the invariant. -/
theorem step [DecidableEq S] (h : Sound final hot l) (hhot : final hot)
    (hstep : Step final hot l l') : Sound final hot l' := by
  cases hstep with
  | create hknown hs => exact h.create hknown hs
  | drop => exact h.drop
  | hire n hnone => exact h.hire n hnone
  | aim hw hnoaim hs => exact h.aim hhot hw hnoaim hs
  | act hw haim hsent hheld => exact h.act hw haim hsent hheld
  | work hw haim => exact h.work hw haim
  | send hw haim => exact h.send hw haim
  | dismiss hw hsent => exact h.dismiss hw hsent
  | land hs => exact h.land hhot hs

end Sound

/-- The register holds `s`, or was dropped for good. -/
def Stays (l : Latch S) (s : S) : Prop :=
  l.held = some s ∨ l.held = none ∧ l.known

/-- A final value stays through a step. -/
theorem Step.final_stays [DecidableEq S] (hstep : Step final hot l l') (h : Sound final hot l)
    {s : S} (hs : final s) (hstays : l.Stays s) : l'.Stays s := by
  rcases hstays with hheld | ⟨hnone, hknown⟩
  · cases hstep with
    | create hnew _ =>
      exact absurd (h.known_of_held (by rw [hheld]; exact Option.some_ne_none s)) hnew
    | drop => exact .inr ⟨rfl, h.known_of_held (by rw [hheld]; exact Option.some_ne_none s)⟩
    | land ht =>
      left
      rw [h.eq_of_written hheld hs ht, hheld]
      rfl
    | _ => exact .inl hheld
  · cases hstep with
    | create hnew _ => exact absurd hknown hnew
    | drop => exact .inr ⟨rfl, hknown⟩
    | land _ => exact .inr ⟨by rw [hnone]; rfl, hknown⟩
    | _ => exact .inr ⟨hnone, hknown⟩

/-! ### Runs -/

section runs
variable [DecidableEq S]

/-- Any number of steps. -/
abbrev Steps (final : S → Prop) (hot : S) : Latch S → Latch S → Prop :=
  Relation.ReflTransGen (Step final hot)

theorem Sound.steps (h : Sound final hot l) (hhot : final hot) (hsteps : Steps final hot l l') :
    Sound final hot l' := by
  induction hsteps with
  | refl => exact h
  | tail _ hstep ih => exact ih.step hhot hstep

/-- A final value stays through a run. -/
theorem Steps.final_stays (hsteps : Steps final hot l l') (h : Sound final hot l)
    (hhot : final hot) {s : S} (hs : final s) (hstays : l.Stays s) : l'.Stays s := by
  induction hsteps with
  | refl => exact hstays
  | tail hpre hstep ih => exact hstep.final_stays (h.steps hhot hpre) hs ih

end runs

end Latch

end Lib
