import YnabAgent.Policy.Comparison
import YnabAgent.Ynab.Patch

/-!
# Reading a write back

A decision is written with its patch and the transaction read again, its subtransactions in whatever
order YNAB returns them. `commit_reads_back_iff`: which decisions every such read-back matches.
`retry_settled_iff`: after which writes a converge run that is retried finds nothing left to do.
-/

namespace YnabAgent

/-! ## The end-state after a patch -/

section endState
variable {wire live post : WireTransaction} {decision : Decision} {read : TargetState}

theorem WireTransaction.endState_of_split (h : 1 < (toSplitLines wire.subtransactions).length) :
    wire.endState = some { allocation := .split ⟨toSplitLines wire.subtransactions, h⟩,
                           memo := wire.memo, approved := wire.approved } :=
  dif_pos h

theorem WireTransaction.endState_of_single
    (h : (toSplitLines wire.subtransactions).length ≤ 1) :
    wire.endState = (presentText wire.categoryId).map fun category =>
      { allocation := .category category none, memo := wire.memo, approved := wire.approved } :=
  dif_neg (by omega)

/-- An end-state has the memo and the approval of its transaction. -/
theorem WireTransaction.endState_fields (h : wire.endState = some read) :
    read.memo = wire.memo ∧ read.approved = wire.approved := by
  unfold WireTransaction.endState at h
  split at h
  · cases h; exact ⟨rfl, rfl⟩
  · obtain ⟨category, -, rfl⟩ := Option.map_eq_some_iff.1 h
    exact ⟨rfl, rfl⟩

/-- The memo and the approval of a patched transaction: a decision without a memo
leaves it alone. -/
theorem posted_fields (h : Reordered (live.patched (toPatch decision)) post) :
    post.memo = decision.memo.or live.memo ∧ post.approved = decision.approved := by
  have hrest := h.rest
  obtain ⟨allocation, memo, approved, decidedBy, decidedAt, ruleId⟩ := decision
  cases allocation <;> rw [hrest] <;> exact ⟨rfl, rfl⟩

/-- The read of a patched transaction lands exactly when its allocation does. -/
theorem landed_posted_iff (h : Reordered (live.patched (toPatch decision)) post)
    (hread : post.endState = some read) :
    Landed read (targetOf decision) ↔ SameAllocation read.allocation decision.allocation := by
  obtain ⟨hmemo, happroved⟩ := posted_fields h
  obtain ⟨hmemo', happroved'⟩ := WireTransaction.endState_fields hread
  refine ⟨fun hl => hl.allocation, fun hs => ⟨hs, ?_, happroved'.trans happroved⟩⟩
  intro memo hm
  have hm : decision.memo = some memo := hm
  rw [hmemo', hmemo, hm, Option.some_or]

/-- Reading depends on the flag and the cleared state alone, and a patch sets a flag that reads. -/
theorem toSnapshot_posted {text : PyText} {snapshot : YnabSnapshot}
    (hlive : toSnapshot text live = .ok snapshot)
    (h : Reordered (live.patched (toPatch decision)) post) :
    ∃ snapshot', toSnapshot text post = .ok snapshot' := by
  obtain ⟨⟨flag, hflag⟩, state, hstate⟩ := toSnapshot_isOk_iff.1 ⟨snapshot, hlive⟩
  refine toSnapshot_isOk_iff.2 ⟨?_, state, by rw [h.rest]; exact hstate⟩
  have hcolor : post.flagColor = (toPatch decision).flagColor.or live.flagColor := by
    rw [h.rest]; rfl
  have hpatch : (toPatch decision).flagColor = some "purple" ∨
      (toPatch decision).flagColor = none := by
    obtain ⟨allocation, memo, approved, decidedBy, decidedAt, ruleId⟩ := decision
    cases decidedBy <;> cases allocation <;> simp [toPatch, agentReviewFlag, FlagColor.value]
  rcases hpatch with hp | hp
  · exact ⟨some .purple, by rw [hcolor, hp]; rfl⟩
  · exact ⟨flag, by rw [hcolor, hp, Option.none_or]; exact hflag⟩

end endState

/-! ## Lines that are kept -/

/-- YNAB keeps the line as it is: it is filed under a category, and names no person. -/
def ResolvedSplitLine.Kept (line : ResolvedSplitLine) : Prop :=
  line.category ≠ "" ∧ line.personTag = none

section lines
variable {lines : List ResolvedSplitLine}

theorem toSplitLines_of_kept (h : ∀ line ∈ lines, line.Kept) :
    toSplitLines (lines.map fun line => line.toPatch.created) = lines := by
  rw [toSplitLines_created]
  have hfilter : lines.filter (fun line => line.category ≠ "") = lines :=
    List.filter_eq_self.2 fun line hline => by simpa using (h line hline).1
  rw [hfilter]
  refine (List.map_congr_left fun line hline => ?_).trans (List.map_id lines)
  obtain ⟨category, amount, memo, personTag⟩ := line
  have htag : personTag = none := (h _ hline).2
  rw [htag]
  rfl

/-- Lines that are read back in any order are all kept. -/
theorem kept_of_perm (h : (toSplitLines (lines.map fun line => line.toPatch.created)).Perm lines) :
    ∀ line ∈ lines, line.Kept := by
  rw [toSplitLines_created] at h
  have hlength := h.length_eq
  rw [List.length_map, List.length_filter_eq_length_iff] at hlength
  intro line hline
  refine ⟨by simpa using hlength line hline, ?_⟩
  obtain ⟨line', -, rfl⟩ := List.mem_map.1 (h.mem_iff.2 hline)
  rfl

end lines

/-! ## Decisions that read back -/

/-- What YNAB can show of a decision: a category without a person, on a transaction that is no
split; or a split whose lines are kept and have different sort keys. -/
def ReadsBack (live : WireTransaction) (decision : Decision) : Prop :=
  match decision.allocation with
  | .category category tag =>
    category ≠ "" ∧ tag = none ∧ (toSplitLines live.subtransactions).length ≤ 1
  | .split split => (∀ line ∈ split.lines, line.Kept) ∧ Lib.Separates splitLineLe split.lines

section readsBack
variable {live post : WireTransaction} {decision : Decision}

/-- The allocation of the decision is what the transaction shows. -/
def Shows (post : WireTransaction) (decision : Decision) : Prop :=
  ∃ read, post.endState = some read ∧ SameAllocation read.allocation decision.allocation

/-- A category written on a transaction shows where it is one, and no split hides it. -/
theorem shows_category_iff {category : CategoryId} {tag : Option PersonTag}
    (hdecision : decision.allocation = .category category tag)
    (h : Reordered (live.patched (toPatch decision)) post) :
    Shows post decision ↔ ReadsBack live decision := by
  have hpost : post.categoryId = some category ∧
      post.subtransactions.Perm live.subtransactions := by
    obtain ⟨allocation, memo, approved, decidedBy, decidedAt, ruleId⟩ := decision
    cases hdecision
    exact ⟨by rw [h.rest]; rfl, h.subs⟩
  have hlines := (toSplitLines_perm hpost.2).length_eq
  unfold Shows ReadsBack
  rw [hdecision]
  by_cases hsplit : 1 < (toSplitLines post.subtransactions).length
  · rw [WireTransaction.endState_of_split hsplit]
    refine ⟨?_, fun hr => absurd hr.2.2 (by omega)⟩
    rintro ⟨read, hread, hsame⟩
    cases hread
    exact hsame.elim
  · rw [WireTransaction.endState_of_single (by omega), hpost.1]
    by_cases hempty : category = ""
    · subst hempty
      refine ⟨?_, fun hr => absurd rfl hr.1⟩
      rintro ⟨read, hread, -⟩
      cases hread
    · rw [presentText_of_ne hempty]
      constructor
      · rintro ⟨read, hread, hsame⟩
        cases hread
        exact ⟨hempty, hsame.2.symm, by omega⟩
      · rintro ⟨-, htag, -⟩
        exact ⟨_, rfl, rfl, htag.symm⟩

/-- A split written on a transaction shows in every order exactly when its lines are kept and the
sort tells them apart. -/
theorem shows_split_iff {split : ResolvedSplit} (hdecision : decision.allocation = .split split) :
    (∀ post, Reordered (live.patched (toPatch decision)) post → Shows post decision) ↔
      ReadsBack live decision := by
  have hsubs : (live.patched (toPatch decision)).subtransactions
      = split.lines.map fun line => line.toPatch.created := by
    obtain ⟨allocation, memo, approved, decidedBy, decidedAt, ruleId⟩ := decision
    cases hdecision
    simp [WireTransaction.patched, toPatch]
  -- what shows is the lines read back, sorted
  have hshows : ∀ post, Shows post decision → (toSplitLines post.subtransactions).insertionSort
      splitLineLe = split.lines.insertionSort splitLineLe := by
    rintro post ⟨read, hread, hsame⟩
    rw [hdecision] at hsame
    by_cases hlt : 1 < (toSplitLines post.subtransactions).length
    · rw [WireTransaction.endState_of_split hlt] at hread
      cases hread
      exact hsame
    · rw [WireTransaction.endState_of_single (by omega)] at hread
      obtain ⟨category, -, rfl⟩ := Option.map_eq_some_iff.1 hread
      exact hsame.elim
  unfold ReadsBack
  rw [hdecision]
  constructor
  · intro hall
    have hkept : ∀ line ∈ split.lines, line.Kept := by
      have h := hshows _ (hall _ (Reordered.refl _))
      rw [hsubs] at h
      exact kept_of_perm (Lib.perm_of_insertionSort_eq h)
    refine ⟨hkept, (Lib.insertionSort_perm_iff split.lines).1 fun lines hperm => ?_⟩
    -- the lines in another order are a read-back of their own
    have hkept' : ∀ line ∈ lines, line.Kept := fun line hline => hkept line (hperm.mem_iff.1 hline)
    have h := hshows _ (hall { live.patched (toPatch decision) with
      subtransactions := lines.map fun line => line.toPatch.created }
      ⟨by rw [hsubs]; exact hperm.map _, rfl⟩)
    rwa [toSplitLines_of_kept hkept'] at h
  · rintro ⟨hkept, hsep⟩ post hpost
    have hperm : (toSplitLines post.subtransactions).Perm split.lines := by
      have h := toSplitLines_perm hpost.subs
      rwa [hsubs, toSplitLines_of_kept hkept] at h
    have hlt : 1 < (toSplitLines post.subtransactions).length := by
      have h := hperm.length_eq
      have := split.two_le
      omega
    refine ⟨_, WireTransaction.endState_of_split hlt, ?_⟩
    rw [hdecision]
    exact Lib.insertionSort_eq_of_perm hperm hsep

theorem shows_iff :
    (∀ post, Reordered (live.patched (toPatch decision)) post → Shows post decision) ↔
      ReadsBack live decision := by
  cases hdecision : decision.allocation with
  | category category tag =>
    exact ⟨fun h => (shows_category_iff hdecision (.refl _)).1 (h _ (.refl _)),
      fun h post hpost => (shows_category_iff hdecision hpost).2 h⟩
  | split split => exact shows_split_iff hdecision

end readsBack

section hash
variable {text : PyText} {δ : Type} [DecidableEq δ] {digest : TargetState → δ}
  {live post : WireTransaction} {decision : Decision} {snapshot : YnabSnapshot}

/-- A read-back matches exactly when the transaction shows the decision. -/
theorem classifyVerify_posted_iff (hdigest : Function.Injective digest)
    (hpost : Reordered (live.patched (toPatch decision)) post)
    (hread : toSnapshot text post = .ok snapshot) :
    classifyVerify digest (toTarget snapshot) (targetOf decision) = .match ↔
      Shows post decision := by
  rw [classifyVerify_match_iff hdigest, toTarget_of_toSnapshot hread]
  exact exists_congr fun read =>
    and_congr_right fun hread => landed_posted_iff hpost hread

/-- **A write is read back as a match** in every order of the subtransactions exactly when YNAB can
show the decision. -/
theorem commit_reads_back_iff (hdigest : Function.Injective digest)
    (hlive : toSnapshot text live = .ok snapshot) (decision : Decision) :
    (∀ post snapshot', Reordered (live.patched (toPatch decision)) post →
      toSnapshot text post = .ok snapshot' →
      classifyVerify digest (toTarget snapshot') (targetOf decision) = .match) ↔
      ReadsBack live decision := by
  rw [← shows_iff]
  constructor
  · intro h post hpost
    obtain ⟨snapshot', hread⟩ := toSnapshot_posted hlive hpost
    exact (classifyVerify_posted_iff hdigest hpost hread).1 (h post snapshot' hpost hread)
  · intro h post snapshot' hpost hread
    exact (classifyVerify_posted_iff hdigest hpost hread).2 (h post hpost)

end hash

/-- A charge at a bookshop, with a note of the owner's. -/
def bookWire : WireTransaction :=
  { id := "t1", accountId := "checking", date := 739000, amount := -60000, approved := true
    memo := some "for the trip", categoryId := some "books" }

/-- The owner's answer that it was a present, for a person or not. -/
def present (person : Option PersonTag) (memo : Option String) : Decision :=
  { allocation := .category "gifts" person, memo, approved := true, decidedBy := .human,
    decidedAt := 0 }

/-- The present lands, the note left alone. -/
theorem present_reads_back : ∃ post snapshot',
    Reordered (bookWire.patched (toPatch (present none none))) post ∧
    toSnapshot PyText.ascii post = .ok snapshot' ∧
    classifyVerify id (toTarget snapshot') (targetOf (present none none)) = .match := by
  have hlive : ∃ snapshot, toSnapshot PyText.ascii bookWire = .ok snapshot := ⟨_, rfl⟩
  obtain ⟨snapshot, hlive⟩ := hlive
  have hreads : ReadsBack bookWire (present none none) := ⟨by decide, rfl, by decide⟩
  have hmatch := (commit_reads_back_iff Function.injective_id hlive (present none none)).2 hreads
  exact ⟨_, _, .refl _, rfl, hmatch _ _ (.refl _) rfl⟩

/-- YNAB has no field for the person, so a present for somebody never reads back. -/
theorem person_diverges : ∃ post snapshot',
    Reordered (bookWire.patched (toPatch (present (some "guest") none))) post ∧
    toSnapshot PyText.ascii post = .ok snapshot' ∧
    classifyVerify id (toTarget snapshot') (targetOf (present (some "guest") none)) = .diverged :=
  ⟨_, _, .refl _, rfl, by decide⟩

/-! ## A retried revision -/

section retry
variable {text : PyText} {δ : Type} [DecidableEq δ] {digest : TargetState → δ}
  {live post : WireTransaction} {decision : Decision} {snapshot : YnabSnapshot}

/-- A converge run on the written transaction has nothing left to do exactly when the decision shows
and the memo is the one it has or, where it has none, absent. -/
theorem precommitAction_posted_iff (hdigest : Function.Injective digest)
    (hpost : Reordered (live.patched (toPatch decision)) post)
    (hread : toSnapshot text post = .ok snapshot) (prior : Option TargetState) :
    (precommitAction digest (toTarget snapshot) (targetOf decision) prior = .noChange ∨
      precommitAction digest (toTarget snapshot) (targetOf decision) prior = .alreadyTarget) ↔
      Shows post decision ∧ (decision.memo = none → live.memo = none) := by
  rw [toTarget_of_toSnapshot hread]
  obtain ⟨hmemo, happroved⟩ := posted_fields hpost
  unfold Shows
  cases hend : post.endState with
  | none => simp [precommitAction, needsWrite]
  | some read =>
    obtain ⟨hmemo', happroved'⟩ := WireTransaction.endState_fields hend
    -- the memos agree where the decision has one, or there was none before
    have hagree : read.memo = (targetOf decision).memo ↔
        (decision.memo = none → live.memo = none) := by
      rw [hmemo', hmemo]
      change decision.memo.or live.memo = decision.memo ↔ _
      cases decision.memo <;> simp
    rw [precommitAction_settled_iff, contentHash_eq_iff hdigest, hagree]
    simp only [Option.some.injEq, exists_eq_left']
    exact ⟨fun h => ⟨h.1, h.2.1⟩, fun h => ⟨h.1, h.2, happroved'.trans happroved⟩⟩

/-- **A retried revision settles**, whatever the transaction stood on before, exactly when its write
reads back and it sets the memo or there is none to leave alone. -/
theorem retry_settled_iff (hdigest : Function.Injective digest)
    (hlive : toSnapshot text live = .ok snapshot) (decision : Decision)
    (prior : Option TargetState) :
    (∀ post snapshot', Reordered (live.patched (toPatch decision)) post →
      toSnapshot text post = .ok snapshot' →
      precommitAction digest (toTarget snapshot') (targetOf decision) prior = .noChange ∨
      precommitAction digest (toTarget snapshot') (targetOf decision) prior = .alreadyTarget) ↔
      ReadsBack live decision ∧ (decision.memo = none → live.memo = none) := by
  rw [← shows_iff]
  constructor
  · intro h
    have hall : ∀ post, Reordered (live.patched (toPatch decision)) post →
        Shows post decision ∧ (decision.memo = none → live.memo = none) := by
      intro post hpost
      obtain ⟨snapshot', hread⟩ := toSnapshot_posted hlive hpost
      exact (precommitAction_posted_iff hdigest hpost hread prior).1 (h post snapshot' hpost hread)
    exact ⟨fun post hpost => (hall post hpost).1, (hall _ (.refl _)).2⟩
  · rintro ⟨h, hmemo⟩ post snapshot' hpost hread
    exact (precommitAction_posted_iff hdigest hpost hread prior).2 ⟨h post hpost, hmemo⟩

end retry

/-- A revision that sets the memo settles when it is retried. -/
theorem present_settles : ∃ post snapshot',
    Reordered (bookWire.patched (toPatch (present none (some "for Mary")))) post ∧
    toSnapshot PyText.ascii post = .ok snapshot' ∧
    (precommitAction id (toTarget snapshot') (targetOf (present none (some "for Mary"))) none
      = .noChange ∨
    precommitAction id (toTarget snapshot') (targetOf (present none (some "for Mary"))) none
      = .alreadyTarget) := by
  have hlive : ∃ snapshot, toSnapshot PyText.ascii bookWire = .ok snapshot := ⟨_, rfl⟩
  obtain ⟨snapshot, hlive⟩ := hlive
  have hreads : ReadsBack bookWire (present none (some "for Mary")) := ⟨by decide, rfl, by decide⟩
  have hsettled := (retry_settled_iff Function.injective_id hlive (present none (some "for Mary"))
    none).2 ⟨hreads, fun h => by cases h⟩
  exact ⟨_, _, .refl _, rfl, hsettled _ _ (.refl _) rfl⟩

/-- A revision without a memo, written over a note and verified: retried, it writes again, or finds
that YNAB has drifted from the books it stood on. -/
theorem present_retried : ∃ post snapshot',
    Reordered (bookWire.patched (toPatch (present none none))) post ∧
    toSnapshot PyText.ascii post = .ok snapshot' ∧
    classifyVerify id (toTarget snapshot') (targetOf (present none none)) = .match ∧
    precommitAction id (toTarget snapshot') (targetOf (present none none)) none = .write ∧
    precommitAction id (toTarget snapshot') (targetOf (present none none)) bookWire.endState
      = .diverged :=
  ⟨_, _, .refl _, rfl, by decide, by decide, by decide⟩

end YnabAgent
