import YnabAgent.Workflow.Calls
import YnabAgent.Workflow.Inbounds

/-!
# The thread of a run

A run learns its thread from a reply it was born on, from one that reaches it in `DISCOVERED`, or by
opening one (`workflow/txn_workflow.py`). Whichever it is, the driver and the transaction agree on
it from then on, and nothing that follows clears or replaces it: no transition, no verification in
the middle of another's effects, no continue-as-new.
-/

namespace YnabAgent

namespace Driver

/-- The thread an act brings, where it ends an opening. -/
def Act.thread? : Act → Option ThreadId
  | .returned _ (.thread threadId) => some threadId
  | _ => none

theorem Act.thread?_eq_some {act : Act} {threadId : ThreadId} (h : act.thread? = some threadId) :
    ∃ m, act = .returned m (.thread threadId) := by
  unfold Act.thread? at h
  split at h
  · cases h
    exact ⟨_, rfl⟩
  · cases h

/-- A run is born with the thread it is given. -/
theorem start_calls (ynabId : YnabTransactionId) (threadId : Option ThreadId) :
    Calling (start { ynabId, threadId }) := by
  refine ⟨Option.or_self, ?_⟩
  intro c rest resume hpc
  cases hpc
  exact ⟨trivial, trailing_nil⟩

variable {text : PyText} {δ : Type} [DecidableEq δ] {digest : TargetState → δ} {act : Act}
  {d d' : Driver}

/-- What an opening returns is the driver's thread. -/
theorem Turn.opened_threadId (h : Turn text digest d act d') (hd : Calling d) {threadId : ThreadId}
    (hthread : act.thread? = some threadId) : d.threadId = none ∧ d'.threadId = some threadId := by
  obtain ⟨m, rfl⟩ := Act.thread?_eq_some hthread
  have hmail := h.opening_of_thread
  cases h with
  | fed hfeeds hadv => cases hfeeds
  | raised hfeeds herr => cases hfeeds
  | opened m threadId' hpc =>
    refine ⟨(hd.made _ _ _ hpc).1.2, ?_⟩
    rw [(setThreadId_called hd hpc threadId).threadId_eq]
    rfl

end Driver

/-- The threads a run opened. -/
def opened (beats : List DriverBeat) : List ThreadId :=
  beats.filterMap fun beat => beat.act.thread?

theorem opened_concat (beats : List DriverBeat) (beat : DriverBeat) :
    opened (beats ++ [beat]) = opened beats ++ beat.act.thread?.toList := by
  unfold opened
  rw [List.filterMap_append]
  cases hthread : beat.act.thread? with
  | none => rw [List.filterMap_cons, hthread, List.filterMap_nil, Option.toList_none]
  | some threadId => rw [List.filterMap_cons, hthread, List.filterMap_nil, Option.toList_some]

/-- What a run keeps of its thread. -/
structure Threaded (beats : List DriverBeat) (d : Driver) : Prop where
  calling : d.Calling
  kept : ∀ beat ∈ beats, ∀ threadId, beat.pre.threadId = some threadId → d.threadId = some threadId
  held : ∀ threadId ∈ opened beats, d.threadId = some threadId
  once : (opened beats).length ≤ 1

section runs
variable {text : PyText} {δ : Type} [DecidableEq δ] {digest : TargetState → δ}
  {ynabId : YnabTransactionId} {threadId : Option ThreadId} {beats : List DriverBeat}
  {d d' : Driver} {act : Driver.Act}

theorem Threaded.turn (h : Threaded beats d) (hturn : Driver.Turn text digest d act d') :
    Threaded (beats ++ [⟨d, act⟩]) d' := by
  have hkept : ∀ threadId, d.threadId = some threadId → d'.threadId = some threadId :=
    fun _ => hturn.threadId h.calling
  refine ⟨hturn.calling h.calling, ?_, ?_, ?_⟩
  · intro beat hbeat threadId hthread
    rcases List.mem_append.1 hbeat with hold | hnew
    · exact hkept threadId (h.kept beat hold threadId hthread)
    · rw [List.mem_singleton.1 hnew] at hthread
      exact hkept threadId hthread
  · intro threadId hmem
    rw [opened_concat] at hmem
    rcases List.mem_append.1 hmem with hold | hnew
    · exact hkept threadId (h.held threadId hold)
    · exact (hturn.opened_threadId h.calling (Option.mem_toList.1 hnew)).2
  · rw [opened_concat, List.length_append]
    cases hthread : act.thread? with
    | none =>
      rw [Option.toList_none, List.length_nil]
      exact h.once
    | some threadId =>
      -- A thread opened before would be the driver's, and nothing would be opened now.
      have hnone := (hturn.opened_threadId h.calling hthread).1
      have hempty : opened beats = [] := by
        refine List.eq_nil_iff_forall_not_mem.2 fun old hold => ?_
        rw [h.held old hold] at hnone
        cases hnone
      rw [hempty, Option.toList_some]
      exact Nat.le_refl 1

theorem Threaded.start :
    Threaded [] (Driver.start { ynabId := ynabId, threadId := threadId }) where
  calling := Driver.start_calls ynabId threadId
  kept := by
    intro beat hbeat
    cases hbeat
  held := by
    intro thread hthread
    cases hthread
  once := Nat.zero_le 1

theorem Threaded.run
    (h : Driver.Run text digest (Driver.start { ynabId := ynabId, threadId := threadId }) beats d) :
    Threaded beats d := by
  refine h.history Threaded.start ?_
  intro beats d beat d' _ hd hstep
  cases hstep with
  | step hs => exact hd.turn (Driver.step_turn hs)

/-- **One thread.** At every moment of a run, continue-as-new included: at most one thread was
opened, and none yet where one is being opened; a message under way goes to the thread the driver
knows; the driver and the transaction know the same thread; and it is the one they knew at every
earlier moment. -/
theorem one_thread
    (h : Driver.Run text digest (Driver.start { ynabId := ynabId, threadId := threadId }) beats d) :
    (opened beats).length ≤ 1 ∧
      (d.pc.mail? = some .opening → opened beats = [] ∧ d.threadId = none) ∧
      (∀ thread actionSeq, d.pc.mail? = some (.followUp thread actionSeq) →
        d.threadId = some thread) ∧
      d.threadId = d.txn.threadId? ∧
      ∀ beat ∈ beats, ∀ thread, beat.pre.threadId = some thread →
        d.threadId = some thread ∧ d.txn.threadId? = some thread := by
  obtain ⟨hcalling, hkept, hheld, honce⟩ := Threaded.run h
  have hsynced : d.threadId = d.txn.threadId? := hcalling.synced
  refine ⟨honce, ?_, ?_, hsynced, ?_⟩
  · intro hmail
    have hnone : d.threadId = none := by
      cases hpc : d.pc with
      | calling c rest resume =>
        rw [hpc] at hmail
        have hmade := (hcalling.made c rest resume hpc).1
        cases c with
        | openThread proposal purpose detail decision => exact hmade.2
        | _ => cases hmail
      | _ => rw [hpc] at hmail; cases hmail
    refine ⟨List.eq_nil_iff_forall_not_mem.2 fun old hold => ?_, hnone⟩
    rw [hheld old hold] at hnone
    cases hnone
  · intro thread actionSeq hmail
    cases hpc : d.pc with
    | calling c rest resume =>
      rw [hpc] at hmail
      have hmade := (hcalling.made c rest resume hpc).1
      cases c with
      | sendThreadMessage known purpose number proposal detail decision =>
        cases hmail
        exact hmade.2.1
      | _ => cases hmail
    | _ => rw [hpc] at hmail; cases hmail
  · intro beat hbeat thread hthread
    have hd := hkept beat hbeat thread hthread
    exact ⟨hd, hsynced.symm.trans hd⟩

/-- The run that proposes, clarifies, lapses and closes its thread opens one. -/
theorem one_thread_closing :
    ∃ beats d, Driver.Run PyText.ascii (fun t : TargetState => t)
      (Driver.start { ynabId := "y1" }) beats d ∧ opened beats = ["t1"] ∧
        (opened beats).length ≤ 1 ∧ d.threadId = some "t1" ∧ d.threadId = d.txn.threadId? := by
  have hexec : ∃ beats d, Lib.exec (Driver.step PyText.ascii fun t : TargetState => t)
      (Driver.start { ynabId := "y1" }) lapsedToArchive = some (beats, d) ∧
        opened beats = ["t1"] ∧ d.threadId = some "t1" :=
    ⟨_, _, rfl, rfl, rfl⟩
  obtain ⟨beats, d, hexec, hopened, hthread⟩ := hexec
  have hrun := Lib.exec_run hexec
  obtain ⟨honce, -, -, hsynced, -⟩ := one_thread hrun
  exact ⟨beats, d, hrun, hopened, honce, hthread, hsynced⟩

end runs

end YnabAgent
