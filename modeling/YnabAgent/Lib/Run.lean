import Mathlib.Data.List.Basic

/-!
# Finite runs of a labelled step relation

`Run step s ls t` says that `step` leads from `s` to `t` through the labels `ls`. Every invariant of
a run is one of three rules: a state invariant (`Run.invariant`), a state invariant under a
condition on the labels (`Run.invariant_of`), and an invariant that also reads the labels passed so
far (`Run.history`); `Run.each` is what such an invariant says at each label. `Run.follow` and
`Run.born` are the runs of one member of a system, there from the start or made on the way. A
partial step function is the step relation `StepOf`, whose labels keep the state an action met;
`exec` runs it, `trace` shows what is observed of the states it passes through.
-/

namespace Lib

variable {σ ℓ : Type*}

/-- Finite runs of `step`, with the labels they pass in order. -/
inductive Run (step : σ → ℓ → σ → Prop) : σ → List ℓ → σ → Prop
  | nil (s : σ) : Run step s [] s
  | cons {s t u : σ} {l : ℓ} {ls : List ℓ} :
      step s l t → Run step t ls u → Run step s (l :: ls) u

namespace Run

variable {step : σ → ℓ → σ → Prop} {s t u : σ} {l : ℓ} {ls ls' : List ℓ}

theorem single (h : step s l t) : Run step s [l] t :=
  .cons h (.nil t)

theorem append (h₁ : Run step s ls t) (h₂ : Run step t ls' u) : Run step s (ls ++ ls') u := by
  induction h₁ with
  | nil _ => exact h₂
  | cons hs _ ih => exact .cons hs (ih h₂)

theorem snoc (h : Run step s ls t) (hs : step t l u) : Run step s (ls ++ [l]) u :=
  h.append (single hs)

/-- A run over concatenated labels passes through a state between the two parts. -/
theorem of_append : ∀ {ls ls' : List ℓ} {s u : σ}, Run step s (ls ++ ls') u →
    ∃ t, Run step s ls t ∧ Run step t ls' u
  | [], _, s, _, h => ⟨s, .nil s, h⟩
  | _ :: _, _, _, _, .cons hs h => by
    obtain ⟨t, h₁, h₂⟩ := of_append h
    exact ⟨t, .cons hs h₁, h₂⟩

theorem cons_inv (h : Run step s (l :: ls) u) : ∃ t, step s l t ∧ Run step t ls u := by
  cases h with
  | cons hs hr => exact ⟨_, hs, hr⟩

/-- A property every step preserves holds at the end of a run if it holds at its start. -/
theorem invariant {I : σ → Prop} (hstep : ∀ {s l t}, I s → step s l t → I t)
    (h : Run step s ls t) (hs : I s) : I t := by
  induction h with
  | nil _ => exact hs
  | cons hl _ ih => exact ih (hstep hs hl)

/-- The same for a property that only the steps with a label in `C` preserve. -/
theorem invariant_of {I : σ → Prop} {C : ℓ → Prop}
    (hstep : ∀ {s l t}, I s → C l → step s l t → I t)
    (h : Run step s ls t) (hC : ∀ l ∈ ls, C l) (hs : I s) : I t := by
  induction h with
  | nil _ => exact hs
  | cons hl _ ih =>
    exact ih (fun m hm => hC m (List.mem_cons_of_mem _ hm)) (hstep hs (hC _ List.mem_cons_self) hl)

/-- Where every step takes a rank down, a run is no longer than the rank it begins with. -/
theorem length_le {I : σ → Prop} {C : ℓ → Prop} {rank : σ → ℕ}
    (hstep : ∀ {s l t}, I s → C l → step s l t → I t ∧ rank t < rank s)
    (h : Run step s ls t) (hC : ∀ l ∈ ls, C l) (hs : I s) : ls.length ≤ rank s := by
  induction h with
  | nil _ => exact Nat.zero_le _
  | cons hl _ ih =>
    obtain ⟨ht, hlt⟩ := hstep hs (hC _ List.mem_cons_self) hl
    have hrest := ih (fun m hm => hC m (List.mem_cons_of_mem _ hm)) ht
    exact Nat.le_trans (Nat.succ_le_succ hrest) hlt

/-- Induction along a run from its start, for properties of the labels passed and the state
reached. -/
theorem history {P : List ℓ → σ → Prop} (h : Run step s ls t) (hnil : P [] s)
    (hstep : ∀ {ls t l u}, Run step s ls t → P ls t → step t l u → P (ls ++ [l]) u) : P ls t := by
  suffices H : ∀ {ls' s' ls t}, Run step s' ls t → Run step s ls' s' → P ls' s' →
      P (ls' ++ ls) t from H h (.nil s) hnil
  intro ls' s' ls t hr
  induction hr generalizing ls' with
  | nil _ => intro _ hp; rwa [List.append_nil]
  | @cons a b _ m ms hl _ ih =>
    intro hpre hp
    have := ih (hpre.snoc hl) (hstep hpre hp hl)
    rwa [List.append_assoc, List.singleton_append] at this

/-- The step each label of a run stands for starts from a state where an invariant of the run holds
with the labels before it, if the labels are all in `C`. -/
theorem each {I : List ℓ → σ → Prop} {C : ℓ → Prop} (h : Run step s ls t) (hC : ∀ l ∈ ls, C l)
    (hnil : I [] s) (hstep : ∀ {ls t l u}, I ls t → C l → step t l u → I (ls ++ [l]) u)
    {before after : List ℓ} (hls : ls = before ++ l :: after) :
    ∃ t u, I before t ∧ step t l u := by
  rw [hls] at h hC
  obtain ⟨t, hbefore, hafter⟩ := of_append h
  have hI : (∀ m ∈ before, C m) → I before t := by
    refine hbefore.history (P := fun ls t => (∀ m ∈ ls, C m) → I ls t) (fun _ => hnil) ?_
    intro ls t m u _ ih hs hms
    exact hstep (ih fun k hk => hms k (List.mem_append_left _ hk)) (hms m (by simp)) hs
  cases hafter with
  | cons hs _ => exact ⟨t, _, hI fun m hm => hC m (List.mem_append_left _ hm), hs⟩

end Run

/-! ## Runs of a member -/

section member
variable {τ m : Type*} {step : σ → ℓ → σ → Prop} {own : τ → m → τ → Prop} {view : σ → Option τ}
  {labels : ℓ → List m} {New : τ → Prop} {s t : σ} {ls : List ℓ}

/-- Where every step of a system takes a member of it along a run of its own, so does a run. -/
theorem Run.follow (h : Run step s ls t)
    (hown : ∀ s l t u, step s l t → view s = some u →
      ∃ v, view t = some v ∧ Run own u (labels l) v) {u : τ} (hu : view s = some u) :
    ∃ v, view t = some v ∧ Run own u (ls.flatMap labels) v := by
  induction h generalizing u with
  | nil _ => exact ⟨u, hu, .nil u⟩
  | cons hl _ ih =>
    obtain ⟨v, hv, hfirst⟩ := hown _ _ _ _ hl hu
    obtain ⟨v', hv', hrest⟩ := ih hv
    exact ⟨v', hv', hfirst.append hrest⟩

/-- A member that a run makes has run on its own from a new one. -/
theorem Run.born (h : Run step s ls t)
    (hown : ∀ s l t u, step s l t → view s = some u →
      ∃ v, view t = some v ∧ Run own u (labels l) v)
    (hnew : ∀ s l t, step s l t → view s = none →
      labels l = [] ∧ ∀ v, view t = some v → New v)
    (hs : view s = none) {v : τ} (hv : view t = some v) :
    ∃ u, New u ∧ Run own u (ls.flatMap labels) v := by
  induction h with
  | nil _ =>
    rw [hs] at hv
    cases hv
  | @cons s t w l ls hl hrest ih =>
    obtain ⟨hlabels, hmade⟩ := hnew _ _ _ hl hs
    rw [List.flatMap_cons, hlabels, List.nil_append]
    cases ht : view t with
    | none => exact ih ht hv
    | some u =>
      obtain ⟨v', hv', hrun⟩ := hrest.follow hown ht
      rw [hv] at hv'
      cases hv'
      exact ⟨u, hmade u ht, hrun⟩

end member

/-! ## What came before -/

section after
variable {P : List ℓ → Prop} {Q : ℓ → Prop} {l : ℓ} {ls : List ℓ}

/-- Among the labels is one of `Q`, and those before it satisfy `P`. -/
def After (P : List ℓ → Prop) (Q : ℓ → Prop) (ls : List ℓ) : Prop :=
  ∃ before l after, ls = before ++ l :: after ∧ P before ∧ Q l

theorem After.append (h : After P Q ls) (more : List ℓ) : After P Q (ls ++ more) := by
  obtain ⟨before, l, after, rfl, hP, hQ⟩ := h
  exact ⟨before, l, after ++ more, by rw [List.append_assoc, List.cons_append], hP, hQ⟩

theorem After.snoc (h : After P Q ls) (l : ℓ) : After P Q (ls ++ [l]) :=
  h.append [l]

theorem After.last (hP : P ls) (hQ : Q l) : After P Q (ls ++ [l]) :=
  ⟨ls, l, [], rfl, hP, hQ⟩

/-- A label passed stays passed. -/
theorem exists_mem_snoc (h : ∃ m ∈ ls, Q m) (l : ℓ) : ∃ m ∈ ls ++ [l], Q m := by
  obtain ⟨m, hm, hQ⟩ := h
  exact ⟨m, List.mem_append_left _ hm, hQ⟩

theorem exists_mem_last (hQ : Q l) : ∃ m ∈ ls ++ [l], Q m :=
  ⟨l, List.mem_append_right _ List.mem_cons_self, hQ⟩

end after

/-! ## Runs of a step function -/

section machine
variable {α : Type*}

/-- A step of a machine: the state an action met. -/
structure Beat (σ α : Type*) where
  pre : σ
  act : α

/-- The step relation of a partial step function. -/
inductive StepOf (f : σ → α → Option σ) : σ → Beat σ α → σ → Prop
  | step {s t : σ} {a : α} (h : f s a = some t) : StepOf f s ⟨s, a⟩ t

/-- Take the actions in order; `none` where one is not enabled. -/
def exec (f : σ → α → Option σ) : σ → List α → Option (List (Beat σ α) × σ)
  | s, [] => some ([], s)
  | s, a :: as =>
    match f s a with
    | none => none
    | some t => (exec f t as).map fun r => (⟨s, a⟩ :: r.1, r.2)

theorem exec_run {f : σ → α → Option σ} {as : List α} :
    ∀ {s t : σ} {beats : List (Beat σ α)}, exec f s as = some (beats, t) →
      Run (StepOf f) s beats t := by
  induction as with
  | nil => intro s t beats h; cases h; exact .nil s
  | cons a as ih =>
    intro s t beats h
    unfold exec at h
    split at h
    · cases h
    · rename_i u hu
      obtain ⟨r, hr, heq⟩ := Option.map_eq_some_iff.1 h
      cases heq
      exact .cons (.step hu) (ih hr)

/-- What `obs` shows of the states a machine passes through; `none` where an action is not
enabled. -/
def trace {β : Type*} (f : σ → α → Option σ) (obs : σ → β) : σ → List α → Option (List β)
  | s, [] => some [obs s]
  | s, a :: as =>
    match f s a with
    | none => none
    | some t => (trace f obs t as).map (obs s :: ·)

/-- States a bisimulation relates show the same traces. -/
theorem trace_congr {β : Type*} {f : σ → α → Option σ} {obs : σ → β} {R : σ → σ → Prop}
    (hobs : ∀ {s t}, R s t → obs s = obs t)
    (hstep : ∀ {s t} (a : α), R s t → Option.Rel R (f s a) (f t a)) (as : List α) :
    ∀ {s t : σ}, R s t → trace f obs s as = trace f obs t as := by
  induction as with
  | nil =>
    intro s t h
    unfold trace
    rw [hobs h]
  | cons a as ih =>
    intro s t h
    have hrel := hstep a h
    unfold trace
    rw [hobs h]
    generalize f s a = s' at hrel
    generalize f t a = t' at hrel
    cases hrel with
    | none => rfl
    | some h' => exact congrArg (Option.map _) (ih h')

end machine

end Lib
