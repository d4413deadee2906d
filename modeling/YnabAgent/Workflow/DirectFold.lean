import YnabAgent.Domain.MemoFold
import YnabAgent.Workflow.ReceiptFold

/-!
# Folding a receipt into a memo

A matched receipt is folded into the memo of its charge by a converge run where a workflow owns the
charge, and where none does by a patch of the memo alone that is read back
(`workflow/receipt_activities.py`). Both write `receiptMemo` where it is not the trimmed memo they
read. What they write keeps the memo iff the memo fits the cap (`fold_keeps_memo_iff`), and is left
alone by the next fold iff it needs no trimming (`fold_settles_iff`).
-/

namespace YnabAgent

/-! ## The direct fold -/

section direct
variable (text : PyText) (txnId : YnabTransactionId) (receipt : Receipt)

/-- The memo a direct fold patches, where it patches one. -/
def foldMemoPlan (before : YnabBackend) : Except ActivityFailure (Option String) := do
  match ← before.snapshot text txnId with
  | none => .error ⟨"RuntimeError", "transaction " ++ txnId ++ " unreadable for the receipt fold"⟩
  | some snapshot =>
    let merged := receiptMemo text receipt snapshot.memo
    pure (if merged ≠ text.strip (snapshot.memo.getD "") then some merged else none)

/-- The read after the patch has to show it. -/
def foldMemoVerify (merged : String) (after : YnabBackend) : Except ActivityFailure Unit := do
  let failure : ActivityFailure := ⟨"RuntimeError", "memo fold on " ++ txnId ++ " did not verify"⟩
  match ← after.snapshot text txnId with
  | none => .error failure
  | some read => if text.strip (read.memo.getD "") ≠ merged then .error failure else pure ()

/-- `_fold_memo_directly`: the thread and the label of the confirmation it mails. -/
def foldMemoDirectly (before after : YnabBackend) :
    Except ActivityFailure (Option (ThreadId × String)) := do
  match ← foldMemoPlan text txnId receipt before with
  | none => pure ()
  | some merged => foldMemoVerify text txnId merged after
  pure (receipt.sourceThreadId.map fun thread => (thread, "yarcpt-matched-" ++ receipt.id))

end direct

/-- The transaction after `patch_memo`: its memo is set, and nothing else. -/
def WireTransaction.patchMemo (wire : WireTransaction) (memo : String) : WireTransaction :=
  { wire with memo := some memo }

section direct
variable {text : PyText} {txnId : YnabTransactionId} {receipt : Receipt} {memo : Option String}
  {before after : YnabBackend} {snapshot : YnabSnapshot} {live : WireTransaction} {written : String}

theorem foldMemoPlan_of_snapshot (hread : before.snapshot text txnId = .ok (some snapshot)) :
    foldMemoPlan text txnId receipt before =
      .ok (if receiptMemo text receipt snapshot.memo ≠ trimmedMemo text snapshot.memo then
        some (receiptMemo text receipt snapshot.memo) else none) := by
  unfold foldMemoPlan
  rw [hread]
  rfl

/-- A transaction that is read and whose memo is then patched is read with that memo. -/
theorem snapshot_patchMemo (hfind : before.find txnId = some live)
    (hread : before.snapshot text txnId = .ok (some snapshot))
    (hafter : after.find txnId = some (live.patchMemo written)) :
    snapshot.memo = live.memo ∧
      ∃ read, after.snapshot text txnId = .ok (some read) ∧ read.memo = some written := by
  unfold YnabBackend.snapshot at hread ⊢
  rw [hfind] at hread
  rw [hafter]
  simp only at hread ⊢
  split at hread
  · cases hread
  · rename_i hdeleted
    obtain ⟨snapshot', hlive, heq⟩ := Lib.map_eq_ok hread
    cases heq
    have hreadable := toSnapshot_isOk_iff.1 ⟨_, hlive⟩
    obtain ⟨read, hpatched⟩ : ∃ read, toSnapshot text (live.patchMemo written) = .ok read :=
      toSnapshot_isOk_iff.2 hreadable
    refine ⟨(reads_of_toSnapshot hlive).memo, read, ?_, (reads_of_toSnapshot hpatched).memo⟩
    rw [if_neg (by exact hdeleted), hpatched]
    rfl

/-- The read-back of a patched memo is the memo without the blanks around it. -/
theorem foldMemoVerify_of_snapshot {read : YnabSnapshot}
    (hread : after.snapshot text txnId = .ok (some read)) (hmemo : read.memo = some written) :
    foldMemoVerify text txnId written after =
      if text.strip written ≠ written then
        .error ⟨"RuntimeError", "memo fold on " ++ txnId ++ " did not verify"⟩
      else .ok () := by
  unfold foldMemoVerify
  rw [hread]
  simp only [bind, Except.bind, hmemo, Option.getD_some, pure, Except.pure]

/-- **When a direct fold fails**: it patched a memo that needs trimming, which its read-back never
shows. -/
theorem foldMemoDirectly_patched (hfind : before.find txnId = some live)
    (hread : before.snapshot text txnId = .ok (some snapshot))
    (hafter : after.find txnId = some (live.patchMemo (receiptMemo text receipt live.memo))) :
    foldMemoDirectly text txnId receipt before after =
      if receiptMemo text receipt live.memo ≠ trimmedMemo text live.memo ∧
          text.strip (receiptMemo text receipt live.memo) ≠ receiptMemo text receipt live.memo then
        .error ⟨"RuntimeError", "memo fold on " ++ txnId ++ " did not verify"⟩
      else .ok
        (receipt.sourceThreadId.map fun thread => (thread, "yarcpt-matched-" ++ receipt.id)) := by
  obtain ⟨hmemo, read, hpatched, hwritten⟩ := snapshot_patchMemo hfind hread hafter
  have hverify := foldMemoVerify_of_snapshot hpatched hwritten
  unfold foldMemoDirectly
  rw [foldMemoPlan_of_snapshot hread, hmemo]
  by_cases hpatch : receiptMemo text receipt live.memo ≠ trimmedMemo text live.memo
  · rw [if_pos hpatch]
    by_cases hblank : text.strip (receiptMemo text receipt live.memo) ≠
      receiptMemo text receipt live.memo
    · rw [if_pos hblank] at hverify
      rw [if_pos ⟨hpatch, hblank⟩]
      simp only [bind, Except.bind, hverify]
    · rw [if_neg hblank] at hverify
      rw [if_neg fun h => hblank h.2]
      simp only [bind, Except.bind, hverify]
      rfl
  · rw [if_neg hpatch, if_neg fun h => hpatch h.1]
    rfl

end direct

/-! ## What the memo keeps -/

section laws
variable {text : PyText} {δ : Type} [DecidableEq δ] {digest : TargetState → δ} {receipt : Receipt}
  {memo : Option String} {isSpace : Char → Bool}

variable (text digest receipt memo) in
/-- A fold into the memo keeps it: the text made of it begins with the trimmed memo, and so does
what a converge run or a direct fold that reads the memo writes. -/
structure KeepsMemo : Prop where
  built : (trimmedMemo text memo).toList <+: (receiptMemo text receipt memo).toList
  converged : ∀ snapshot sig prior inputs read decision, sig.receipt = receipt →
    inputs.before.readBack text snapshot.ynabId = .ok (some read) → read.memo = memo →
    convergePlan text digest snapshot (.receipt sig) prior inputs = .ok (.write decision) →
    ∃ written, decision.memo = some written ∧ (trimmedMemo text memo).toList <+: written.toList
  patched : ∀ txnId before snapshot written, before.snapshot text txnId = .ok (some snapshot) →
    snapshot.memo = memo → foldMemoPlan text txnId receipt before = .ok (some written) →
    (trimmedMemo text memo).toList <+: written.toList

/-- What a converge run writes on a receipt is the fold into the memo it read. -/
theorem memo_of_convergePlan {snapshot : YnabSnapshot} {sig : ReceiptSignal}
    {prior : Option Decision} {inputs : ConvergeInputs} {read : TargetState} {decision : Decision}
    (hread : inputs.before.readBack text snapshot.ynabId = .ok (some read))
    (h : convergePlan text digest snapshot (.receipt sig) prior inputs = .ok (.write decision)) :
    receiptMemo text sig.receipt read.memo ≠ trimmedMemo text read.memo ∧
      decision.memo = some (receiptMemo text sig.receipt read.memo) := by
  obtain ⟨-, read', category, tag, hread', -, hne, rfl⟩ := convergePlan_receipt_iff.1 h
  rw [hread] at hread'
  cases hread'
  exact ⟨hne, rfl⟩

/-- What a direct fold patches is the fold into the memo it read. -/
theorem memo_of_foldMemoPlan {txnId : YnabTransactionId} {before : YnabBackend}
    {snapshot : YnabSnapshot} {written : String}
    (hread : before.snapshot text txnId = .ok (some snapshot))
    (h : foldMemoPlan text txnId receipt before = .ok (some written)) :
    receiptMemo text receipt snapshot.memo ≠ trimmedMemo text snapshot.memo ∧
      written = receiptMemo text receipt snapshot.memo := by
  rw [foldMemoPlan_of_snapshot hread] at h
  split at h
  · rename_i hne
    cases h
    exact ⟨hne, rfl⟩
  · cases h

/-- **What a fold keeps.** Every fold of a receipt into a memo keeps the trimmed memo exactly when
it fits the cap. -/
theorem fold_keeps_memo_iff (text : PyText) (digest : TargetState → δ) (receipt : Receipt)
    (memo : Option String) :
    KeepsMemo text digest receipt memo ↔ (trimmedMemo text memo).length ≤ memoCap := by
  rw [← keeps_memo_iff text receipt memo]
  constructor
  · exact fun h => h.built
  · intro hkeeps
    refine ⟨hkeeps, ?_, ?_⟩
    · rintro snapshot sig prior inputs read decision rfl hread rfl hplan
      exact ⟨_, (memo_of_convergePlan hread hplan).2, hkeeps⟩
    · rintro txnId before snapshot written hread rfl hplan
      rw [(memo_of_foldMemoPlan hread hplan).2]
      exact hkeeps

/-! ## Folding again -/

variable (text digest receipt memo) in
/-- The memo a fold makes settles: it is trimmed and folds into itself; no converge run and no
direct fold that reads it writes again; the direct fold that patched it verifies; and it does
not grow. -/
structure FoldSettles : Prop where
  again : receiptMemo text receipt (some (receiptMemo text receipt memo))
    = text.strip (receiptMemo text receipt memo)
  stripped : text.strip (receiptMemo text receipt memo) = receiptMemo text receipt memo
  converged : ∀ snapshot sig prior inputs read decision, sig.receipt = receipt →
    inputs.before.readBack text snapshot.ynabId = .ok (some read) →
    read.memo = some (receiptMemo text receipt memo) →
    convergePlan text digest snapshot (.receipt sig) prior inputs ≠ .ok (.write decision)
  patched : ∀ txnId before snapshot, before.snapshot text txnId = .ok (some snapshot) →
    snapshot.memo = some (receiptMemo text receipt memo) →
    foldMemoPlan text txnId receipt before = .ok none
  verified : ∀ txnId before after live snapshot, before.find txnId = some live → live.memo = memo →
    before.snapshot text txnId = .ok (some snapshot) →
    after.find txnId = some (live.patchMemo (receiptMemo text receipt memo)) →
    ∃ confirmation, foldMemoDirectly text txnId receipt before after = .ok confirmation
  stays : ∀ n, (fun written => receiptMemo text receipt (some written))^[n]
    (receiptMemo text receipt memo) = receiptMemo text receipt memo

/-- **Which folds settle**: those whose ends are no blanks. -/
theorem fold_settles_iff (h : text.Lawful isSpace) (digest : TargetState → δ) (receipt : Receipt)
    (memo : Option String) :
    FoldSettles text digest receipt memo ↔ FoldsClean text isSpace receipt memo := by
  rw [← strip_receiptMemo_iff h]
  constructor
  · exact fun hsettles => hsettles.stripped
  · intro hstrip
    have hagain := receiptMemo_receiptMemo h hstrip
    -- both writers compare the fold with the memo they read
    have hquiet : receiptMemo text receipt (some (receiptMemo text receipt memo))
        = trimmedMemo text (some (receiptMemo text receipt memo)) := hagain.trans hstrip.symm
    refine ⟨hquiet, hstrip, ?_, ?_, ?_, ?_⟩
    · rintro snapshot sig prior inputs read decision rfl hread hmemo hplan
      have hne := (memo_of_convergePlan hread hplan).1
      rw [hmemo] at hne
      exact hne hquiet
    · intro txnId before snapshot hread hmemo
      rw [foldMemoPlan_of_snapshot hread, hmemo, if_neg (not_not.2 hquiet)]
    · rintro txnId before after live snapshot hfind rfl hread hafter
      rw [foldMemoDirectly_patched hfind hread hafter, if_neg fun h => h.2 hstrip]
      exact ⟨_, rfl⟩
    · intro n
      exact Function.iterate_fixed hagain n

end laws

/-! ## Apples folded into a long note -/

/-- A note of `n` letters. -/
def noteOf (n : Nat) : String := String.ofList (List.replicate n 'a')

/-- The café charge with a memo. -/
def noted (memo : String) : YnabBackend := cafeBackend { cafeFiled with memo := some memo }

theorem noted_snapshot (memo : String) : ∃ snapshot,
    (noted memo).snapshot PyText.ascii "t1" = .ok (some snapshot) ∧ snapshot.memo = some memo :=
  ⟨_, rfl, rfl⟩

theorem length_noteOf (n : Nat) : (noteOf n).length = n := by simp [noteOf]

theorem noteOf_inj {n m : Nat} (h : noteOf n = noteOf m) : n = m := by
  rw [← length_noteOf n, h, length_noteOf]

theorem trimmedMemo_noteOf (n : Nat) : trimmedMemo PyText.ascii (some (noteOf n)) = noteOf n := by
  have hletters : ∀ a ∈ (noteOf n).toList, Char.isWhitespace a = false := by
    intro a ha
    rw [noteOf, String.toList_ofList] at ha
    rw [List.eq_of_mem_replicate ha]
    rfl
  exact PyText.ascii_lawful.strip_eq_self_iff.2
    ⟨fun a ha => hletters a (List.mem_of_mem_head? ha),
      fun a ha => hletters a (List.mem_of_getLast? ha)⟩

/-- A note over the cap loses its last letter, in the patch of a direct fold. -/
theorem long_note_cut :
    ¬ KeepsMemo PyText.ascii id marketReceipt.receipt (some (noteOf 201)) ∧
    foldMemoPlan PyText.ascii "t1" marketReceipt.receipt (noted (noteOf 201))
      = .ok (some (noteOf 200)) := by
  have hlong : memoCap < (trimmedMemo PyText.ascii (some (noteOf 201))).length := by
    rw [trimmedMemo_noteOf, length_noteOf]
    decide
  have hcut : receiptMemo PyText.ascii marketReceipt.receipt (some (noteOf 201)) = noteOf 200 := by
    rw [receiptMemo_of_full _ hlong.le, trimmedMemo_noteOf]
    unfold textPrefix noteOf
    rw [String.toList_ofList, List.take_replicate]
    rfl
  refine ⟨fun h => ?_, ?_⟩
  · have hkept := (keeps_memo_iff ..).1 h.built
    omega
  · obtain ⟨snapshot, hread, hmemo⟩ := noted_snapshot (noteOf 201)
    have hne : noteOf 200 ≠ noteOf 201 := fun h => by
      have := noteOf_inj h
      omega
    rw [foldMemoPlan_of_snapshot hread, hmemo, hcut, trimmedMemo_noteOf, if_pos hne]

/-- Apples are not in a note of one letter. -/
theorem receiptMemo_noteOf : receiptMemo PyText.ascii marketReceipt.receipt (some (noteOf 197))
    = noteOf 197 ++ " · " := by
  have hdetail : receiptDetail PyText.ascii marketReceipt.receipt = "apples" := by decide
  have hletters : (PyText.ascii.lower (noteOf 197)).toList = List.replicate 197 'a' := by
    simp only [PyText.ascii, noteOf, String.toList_ofList, List.map_replicate]
    rfl
  have hmissing : ¬ isInText (PyText.ascii.lower "apples") (PyText.ascii.lower (noteOf 197)) := by
    intro hfound
    have hmem : 'p' ∈ (PyText.ascii.lower (noteOf 197)).toList :=
      (of_decide_eq_true hfound).subset (by decide)
    rw [hletters] at hmem
    exact absurd (List.eq_of_mem_replicate hmem) (by decide)
  have hne : noteOf 197 ≠ "" := fun h => by
    have := congrArg String.length h
    rw [length_noteOf] at this
    cases this
  have hmerged : mergedMemo PyText.ascii marketReceipt.receipt (some (noteOf 197))
      = noteOf 197 ++ " · " ++ "apples" := by
    unfold mergedMemo
    rw [trimmedMemo_noteOf, hdetail, if_neg hne, if_neg hmissing]
  have hlength : (noteOf 197 ++ " · ").toList.length = memoCap := by
    rw [String.toList_append, List.length_append, String.length_toList, length_noteOf]
    rfl
  rw [← String.toList_inj, toList_receiptMemo, hmerged, String.toList_append, ← hlength,
    List.take_left]

/-- A note that leaves room for the dot alone: the fold ends in a blank, and the direct fold does
not verify. -/
theorem full_note_unsettled :
    ¬ FoldSettles PyText.ascii id marketReceipt.receipt (some (noteOf 197)) ∧
    foldMemoDirectly PyText.ascii "t1" marketReceipt.receipt (noted (noteOf 197))
        (noted (noteOf 197 ++ " · ")) =
      .error ⟨"RuntimeError", "memo fold on t1 did not verify"⟩ := by
  have hblank : PyText.ascii.strip (noteOf 197 ++ " · ") ≠ noteOf 197 ++ " · " := by
    intro hstrip
    have hend := (PyText.ascii_lawful.strip_eq_self_iff.1 hstrip).2
    rw [String.toList_append] at hend
    have hlast := (Lib.endsOutside_append_iff (by decide)).1 hend ' ' rfl
    exact absurd hlast (by decide)
  have hnote : noteOf 197 ++ " · " ≠ noteOf 197 := fun h => by
    have := String.append_eq_left_iff.1 h
    exact absurd this (by decide)
  constructor
  · intro h
    have hstripped := h.stripped
    rw [receiptMemo_noteOf] at hstripped
    exact hblank hstripped
  · obtain ⟨snapshot, hread, -⟩ := noted_snapshot (noteOf 197)
    have hafter : (noted (noteOf 197 ++ " · ")).find "t1" =
        some ({ cafeFiled with memo := some (noteOf 197) }.patchMemo
          (receiptMemo PyText.ascii marketReceipt.receipt (some (noteOf 197)))) := by
      rw [receiptMemo_noteOf]
      rfl
    rw [foldMemoDirectly_patched rfl hread hafter, receiptMemo_noteOf, trimmedMemo_noteOf,
      if_pos ⟨hnote, hblank⟩]
    rfl

/-- Apples behind a note settle. -/
theorem apples_settle :
    receiptMemo PyText.ascii marketReceipt.receipt (some "weekly shop") = "weekly shop · apples" ∧
      FoldSettles PyText.ascii id marketReceipt.receipt (some "weekly shop") := by
  have hdetail : receiptDetail PyText.ascii marketReceipt.receipt = "apples" := by decide +kernel
  have hcurrent : trimmedMemo PyText.ascii (some "weekly shop") = "weekly shop" := by decide +kernel
  refine ⟨by decide +kernel,
    (fold_settles_iff PyText.ascii_lawful id marketReceipt.receipt (some "weekly shop")).2 ?_⟩
  unfold FoldsClean
  simp only [hdetail, hcurrent]
  rw [if_neg (by decide), if_neg (by decide +kernel)]
  refine .inl ⟨by decide, ?_⟩
  rintro letter ⟨⟩
  rfl

end YnabAgent
