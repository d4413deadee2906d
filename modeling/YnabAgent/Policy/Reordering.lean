import YnabAgent.Policy.Comparison

/-!
# End-states up to the order of their lines

YNAB returns the lines of a split in any order. The content hash puts them in a canonical one, by a
key that leaves out the person tag and reads a missing memo as an empty one: it forgets the order
exactly as far as the keys tell the lines apart (`contentHash_upToOrder_iff`). The pre-write check
compares hashes, and past that the allocations as they are returned: its action is free of their
order only where one of the two comparisons cannot see it (`precommitAction_orderFree_iff`).
-/

namespace YnabAgent

/-! ## The same up to order -/

/-- The sort key of a line. -/
def splitLineKey (line : ResolvedSplitLine) : CategoryId × Money × String :=
  (line.category, line.amount, line.memo.getD "")

theorem tied_iff {a b : ResolvedSplitLine} :
    Lib.Tied splitLineLe a b ↔ splitLineKey a = splitLineKey b := by
  constructor
  · rintro ⟨hab, hba⟩
    obtain ⟨hcategory, hamount, hmemo⟩ := key_eq_of_tied hab hba
    unfold splitLineKey
    rw [hcategory, hamount, hmemo]
  · intro h
    obtain ⟨hcategory, hamount, hmemo⟩ : a.category = b.category ∧ a.amount = b.amount ∧
        a.memo.getD "" = b.memo.getD "" := by simpa [splitLineKey] using h
    exact ⟨.inr ⟨hcategory, .inr ⟨hamount, le_of_eq hmemo⟩⟩,
      .inr ⟨hcategory.symm, .inr ⟨hamount.symm, le_of_eq hmemo.symm⟩⟩⟩

/-- The same allocation, up to the order of the split lines. -/
def AllocationUpToOrder : ResolvedAllocation → ResolvedAllocation → Prop
  | .category c t, .category c' t' => c = c' ∧ t = t'
  | .split s, .split s' => s.lines.Perm s'.lines
  | _, _ => False

/-- The same end-state, up to the order of the split lines. -/
structure UpToOrder (a b : TargetState) : Prop where
  allocation : AllocationUpToOrder a.allocation b.allocation
  memo : a.memo = b.memo
  approved : a.approved = b.approved

def ResolvedAllocation.lines : ResolvedAllocation → List ResolvedSplitLine
  | .category _ _ => []
  | .split s => s.lines

/-- No two different lines have the same key. -/
def KeysApart (lines : List ResolvedSplitLine) : Prop :=
  ∀ a ∈ lines, ∀ b ∈ lines, splitLineKey a = splitLineKey b → a = b

/-- The lines of one key stand in the same order. -/
def TiesAgree (lines lines' : List ResolvedSplitLine) : Prop :=
  ∀ key, lines.filter (splitLineKey · = key) = lines'.filter (splitLineKey · = key)

section reordered
variable {a b c : ResolvedAllocation}

theorem keysApart_iff (lines : List ResolvedSplitLine) :
    KeysApart lines ↔ Lib.Separates splitLineLe lines := by
  unfold KeysApart Lib.Separates
  simp only [← tied_iff]
  exact forall₄_congr fun a _ b _ =>
    ⟨fun h hab hba => h ⟨hab, hba⟩, fun h htied => h htied.1 htied.2⟩

theorem AllocationUpToOrder.refl (a : ResolvedAllocation) : AllocationUpToOrder a a := by
  cases a with
  | category c t => exact ⟨rfl, rfl⟩
  | split s => exact List.Perm.refl _

/-- Allocations that are the same up to order are one category, or splits of the same lines. -/
theorem AllocationUpToOrder.inv (h : AllocationUpToOrder a b) :
    a = b ∨ ∃ s s' : ResolvedSplit, a = .split s ∧ b = .split s' ∧ s.lines.Perm s'.lines := by
  cases a with
  | category c t =>
    cases b with
    | category c' t' =>
      obtain ⟨rfl, rfl⟩ := h
      exact .inl rfl
    | split s => exact h.elim
  | split s =>
    cases b with
    | category c t => exact h.elim
    | split s' => exact .inr ⟨s, s', rfl, rfl, h⟩

theorem AllocationUpToOrder.symm (h : AllocationUpToOrder a b) : AllocationUpToOrder b a := by
  obtain rfl | ⟨s, s', rfl, rfl, hperm⟩ := h.inv
  · exact h
  · exact hperm.symm

theorem AllocationUpToOrder.trans (h : AllocationUpToOrder a b) (h' : AllocationUpToOrder b c) :
    AllocationUpToOrder a c := by
  obtain rfl | ⟨s₁, s₂, rfl, rfl, hperm⟩ := h.inv
  · exact h'
  · obtain rfl | ⟨s, s₃, hs, rfl, hperm'⟩ := h'.inv
    · exact h
    · cases hs
      exact hperm.trans hperm'

theorem AllocationUpToOrder.lines (h : AllocationUpToOrder a b) : a.lines.Perm b.lines := by
  obtain rfl | ⟨s, s', rfl, rfl, hperm⟩ := h.inv
  · exact List.Perm.refl _
  · exact hperm

/-- They are one where their lines are. -/
theorem AllocationUpToOrder.eq_of_lines (h : AllocationUpToOrder a b) (hlines : a.lines = b.lines) :
    a = b := by
  obtain rfl | ⟨⟨lines, two_le⟩, ⟨lines', two_le'⟩, rfl, rfl, -⟩ := h.inv
  · rfl
  · obtain rfl : lines = lines' := hlines
    rfl

/-- The lines of an allocation may be put in any order. -/
theorem exists_upToOrder {lines : List ResolvedSplitLine} (h : lines.Perm a.lines) :
    ∃ b, AllocationUpToOrder b a ∧ b.lines = lines := by
  cases a with
  | category c t =>
    obtain rfl : lines = [] := h.eq_nil
    exact ⟨.category c t, ⟨rfl, rfl⟩, rfl⟩
  | split s => exact ⟨.split ⟨lines, h.length_eq ▸ s.two_le⟩, h, rfl⟩

/-- The canonical order is the same where the lines are, those of one key in one order. -/
theorem sameAllocation_iff :
    SameAllocation a b ↔ AllocationUpToOrder a b ∧ TiesAgree a.lines b.lines := by
  have hlines : ∀ l l' : List ResolvedSplitLine,
      l.insertionSort splitLineLe = l'.insertionSort splitLineLe ↔ l.Perm l' ∧ TiesAgree l l' := by
    intro l l'
    rw [Lib.insertionSort_eq_iff]
    refine and_congr_right fun hperm => ?_
    have hfilter : ∀ x l, List.filter (fun y => decide (Lib.Tied splitLineLe x y)) l =
        List.filter (fun y => decide (splitLineKey y = splitLineKey x)) l := by
      intro x l
      congr 1
      funext y
      simp only [tied_iff, eq_comm]
    simp only [hfilter]
    constructor
    · intro h key
      by_cases hkey : ∃ x ∈ l', splitLineKey x = key
      · obtain ⟨x, hx, rfl⟩ := hkey
        exact h x hx
      · have hnone : ∀ y ∈ l', ¬ splitLineKey y = key := fun y hy heq => hkey ⟨y, hy, heq⟩
        rw [List.filter_eq_nil_iff.2 fun y hy => by simpa using hnone y (hperm.mem_iff.1 hy),
          List.filter_eq_nil_iff.2 fun y hy => by simpa using hnone y hy]
    · intro h x _
      exact h (splitLineKey x)
  cases a with
  | category c t =>
    cases b with
    | category c' t' => exact ⟨fun h => ⟨h, fun _ => rfl⟩, fun h => h.1⟩
    | split s => exact ⟨fun h => h.elim, fun h => h.1.elim⟩
  | split s =>
    cases b with
    | category c' t' => exact ⟨fun h => h.elim, fun h => h.1.elim⟩
    | split s' => exact hlines s.lines s'.lines

theorem SameAllocation.refl (a : ResolvedAllocation) : SameAllocation a a := by
  cases a with
  | category c t => exact ⟨rfl, rfl⟩
  | split s => rfl

/-- Where no two lines share a key, any order of them has the same canonical one. -/
theorem sameAllocation_of_keysApart (hkeys : KeysApart b.lines) (h : AllocationUpToOrder a b) :
    SameAllocation a b := by
  obtain rfl | ⟨s, s', rfl, rfl, hperm⟩ := h.inv
  · exact .refl a
  · exact Lib.insertionSort_eq_of_perm hperm ((keysApart_iff _).1 hkeys)

/-- And only there. -/
theorem keysApart_of_sameAllocation
    (h : ∀ a, AllocationUpToOrder a b → SameAllocation a b) : KeysApart b.lines := by
  cases b with
  | category c t =>
    intro x hx
    cases hx
  | split s =>
    rw [keysApart_iff]
    refine (Lib.insertionSort_perm_iff s.lines).1 fun lines hlines => ?_
    exact h (.split ⟨lines, hlines.length_eq ▸ s.two_le⟩) hlines

end reordered

section states
variable {a b c : TargetState}

theorem UpToOrder.refl (a : TargetState) : UpToOrder a a :=
  ⟨.refl _, rfl, rfl⟩

theorem UpToOrder.symm (h : UpToOrder a b) : UpToOrder b a :=
  ⟨h.allocation.symm, h.memo.symm, h.approved.symm⟩

theorem UpToOrder.trans (h : UpToOrder a b) (h' : UpToOrder b c) : UpToOrder a c :=
  ⟨h.allocation.trans h'.allocation, h.memo.trans h'.memo, h.approved.trans h'.approved⟩

/-- The end-state with its allocation reordered. -/
theorem UpToOrder.of_allocation {allocation : ResolvedAllocation}
    (h : AllocationUpToOrder allocation a.allocation) : UpToOrder { a with allocation } a :=
  ⟨h, rfl, rfl⟩

end states

/-! ## The hash -/

section hash
variable {δ : Type} [DecidableEq δ] {digest : TargetState → δ}

omit [DecidableEq δ] in
theorem contentHash_eq_iff_upToOrder (hdigest : Function.Injective digest) {a b : TargetState} :
    contentHash digest a = contentHash digest b ↔
      UpToOrder a b ∧ TiesAgree a.allocation.lines b.allocation.lines := by
  rw [contentHash_eq_iff hdigest, sameAllocation_iff]
  constructor
  · rintro ⟨⟨halloc, hties⟩, hmemo, happroved⟩
    exact ⟨⟨halloc, hmemo, happroved⟩, hties⟩
  · rintro ⟨⟨halloc, hmemo, happroved⟩, hties⟩
    exact ⟨⟨halloc, hties⟩, hmemo, happroved⟩

omit [DecidableEq δ] in
/-- Where no two lines have one key the hash stands for every order of them. -/
theorem contentHash_eq_iff_of_keysApart (hdigest : Function.Injective digest) {a b : TargetState}
    (hkeys : KeysApart a.allocation.lines) :
    contentHash digest a = contentHash digest b ↔ UpToOrder a b := by
  constructor
  · intro h
    exact ((contentHash_eq_iff_upToOrder hdigest).1 h).1
  · intro h
    have hsame := sameAllocation_of_keysApart hkeys h.symm.allocation
    exact ((contentHash_eq_iff hdigest).2 ⟨hsame, h.symm.memo, h.symm.approved⟩).symm

omit [DecidableEq δ] in
/-- **The hash and the order of the lines.** Two end-states hash alike exactly when they are the
same up to the order of their lines, unless they are and differ in the order of lines with one
key; so a hash stands for all the orders of an end-state exactly where no two different lines
have one key. -/
theorem contentHash_upToOrder_iff (hdigest : Function.Injective digest) (a : TargetState) :
    (∀ b, (contentHash digest a = contentHash digest b ↔ UpToOrder a b) ↔
      (UpToOrder a b → TiesAgree a.allocation.lines b.allocation.lines)) ∧
    ((∀ b, contentHash digest a = contentHash digest b ↔ UpToOrder a b) ↔
      KeysApart a.allocation.lines) := by
  constructor
  · intro b
    rw [contentHash_eq_iff_upToOrder hdigest]
    exact ⟨fun h hab => (h.2 hab).2, fun h => ⟨fun hab => hab.1, fun hab => ⟨hab, h hab⟩⟩⟩
  · constructor
    · intro h
      apply keysApart_of_sameAllocation
      intro allocation hreordered
      have hhash := (h { a with allocation }).2 (UpToOrder.of_allocation hreordered).symm
      exact ((contentHash_eq_iff hdigest).1 hhash.symm).1
    · intro hkeys b
      exact contentHash_eq_iff_of_keysApart hdigest hkeys

end hash

/-! ## The pre-write check -/

section precommit
variable {δ : Type} [DecidableEq δ] {digest : TargetState → δ}
  {current current' : Option TargetState}
  {target target' : TargetState} {prior prior' : Option TargetState} {c c' p p' : TargetState}

variable (digest current target prior) in
/-- The action is the same for every order of the lines of any one of the three end-states. -/
def OrderFree : Prop :=
  (∀ current', Option.Rel UpToOrder current' current →
    precommitAction digest current' target prior = precommitAction digest current target prior) ∧
  (∀ target', UpToOrder target' target →
    precommitAction digest current target' prior = precommitAction digest current target prior) ∧
  ∀ prior', Option.Rel UpToOrder prior' prior →
    precommitAction digest current target prior' = precommitAction digest current target prior

variable (current target prior) in
/-- Where the current end-state is the target up to order, no two different lines of it have one
key; where it is not, and its allocation is that of the prior up to order, all its lines are one. -/
def OrderSafe : Prop :=
  ∀ c, current = some c →
    (UpToOrder c target → KeysApart c.allocation.lines) ∧
    (¬ UpToOrder c target → ∀ p, prior = some p → AllocationUpToOrder c.allocation p.allocation →
      ∀ a ∈ c.allocation.lines, ∀ b ∈ c.allocation.lines, a = b)

/-- The action of a check without a prior is read off one comparison of hashes. -/
theorem precommitAction_congr_none
    (htarget : contentHash digest c' = contentHash digest target' ↔
      contentHash digest c = contentHash digest target) :
    precommitAction digest (some c') target' none =
      precommitAction digest (some c) target none := by
  unfold precommitAction needsWrite
  by_cases h : contentHash digest c = contentHash digest target
  · simp only [ne_eq, h, htarget.2 h, not_true_eq_false, decide_false, Bool.not_false, if_true]
  · simp only [ne_eq, h, htarget.not.2 h, not_false_eq_true, decide_true, Bool.not_true,
      Bool.false_eq_true, if_false]

/-- And with one off another of hashes, or one of allocations. -/
theorem precommitAction_congr_some
    (htarget : contentHash digest c' = contentHash digest target' ↔
      contentHash digest c = contentHash digest target)
    (hprior : contentHash digest c = contentHash digest target →
      (contentHash digest c' = contentHash digest p' ↔ contentHash digest c = contentHash digest p))
    (hallocation : contentHash digest c ≠ contentHash digest target →
      (c'.allocation = p'.allocation ↔ c.allocation = p.allocation)) :
    precommitAction digest (some c') target' (some p') =
      precommitAction digest (some c) target (some p) := by
  unfold precommitAction needsWrite
  by_cases h : contentHash digest c = contentHash digest target
  · simp only [ne_eq, htarget, h, not_true_eq_false, decide_false, Bool.not_false, if_true]
    have hiff := hprior h
    rw [h] at hiff
    simp only [hiff]
  · simp only [ne_eq, htarget, h, not_false_eq_true, decide_true, Bool.not_true, Bool.false_eq_true,
      if_false, hallocation h]

/-- What is not the target is written over where it is still the prior. -/
theorem precommitAction_unsettled_iff
    (hne : contentHash digest c ≠ contentHash digest target) :
    precommitAction digest (some c) target (some p) = .write ↔ c.allocation = p.allocation := by
  unfold precommitAction needsWrite
  simp only [ne_eq, hne, not_false_eq_true, decide_true, Bool.not_true, Bool.false_eq_true,
    if_false]
  by_cases h : c.allocation = p.allocation
  · simp [h]
  · simp [h]

/-- A reordered allocation with one line, however often, is the same. -/
theorem AllocationUpToOrder.eq_of_one {a b : ResolvedAllocation} (h : AllocationUpToOrder a b)
    (hone : ∀ x ∈ b.lines, ∀ y ∈ b.lines, x = y) : a = b := by
  refine h.eq_of_lines ?_
  have hpairwise : ∀ l : List ResolvedSplitLine, l.Pairwise fun _ _ => True :=
    fun l => List.pairwise_of_forall fun _ _ => trivial
  refine h.lines.eq_of_pairwise ?_ (hpairwise _) (hpairwise _)
  intro x y hx hy _ _
  exact hone x (h.lines.mem_iff.1 hx) y hy

/-- A safe check takes the same action whatever the orders. -/
theorem precommitAction_of_orderSafe (hdigest : Function.Injective digest)
    (hsafe : OrderSafe current target prior) (hcurrent : Option.Rel UpToOrder current' current)
    (htarget : UpToOrder target' target) (hprior : Option.Rel UpToOrder prior' prior) :
    precommitAction digest current' target' prior' =
      precommitAction digest current target prior := by
  cases hcurrent with
  | none => rfl
  | @some c' c hc =>
    obtain ⟨hsettled, hdrifted⟩ := hsafe c rfl
    by_cases hreordered : UpToOrder c target
    · -- every order of the current lines hashes alike
      have hhash : ∀ b, contentHash digest c = contentHash digest b ↔ UpToOrder c b :=
        fun b => contentHash_eq_iff_of_keysApart hdigest (hsettled hreordered)
      have hcc : contentHash digest c' = contentHash digest c := ((hhash c').2 hc.symm).symm
      have hother : ∀ {b b' : TargetState}, UpToOrder b' b →
          (contentHash digest c' = contentHash digest b' ↔
            contentHash digest c = contentHash digest b) := by
        intro b b' hb
        rw [hcc, hhash, hhash]
        exact ⟨fun h => h.trans hb, fun h => h.trans hb.symm⟩
      cases hprior with
      | none => exact precommitAction_congr_none (hother htarget)
      | @some p' p hp =>
        refine precommitAction_congr_some (hother htarget) (fun _ => hother hp) fun hne => ?_
        exact absurd ((hhash target).2 hreordered) hne
    · -- no order of them hashes as the target
      have hne : ∀ {b b' : TargetState}, UpToOrder b c → UpToOrder b' target →
          contentHash digest b ≠ contentHash digest b' := by
        intro b b' hb hb' heq
        exact hreordered
          (hb.symm.trans ((contentHash_eq_iff_upToOrder hdigest).1 heq).1 |>.trans hb')
      have htargets : contentHash digest c' = contentHash digest target' ↔
          contentHash digest c = contentHash digest target :=
        iff_of_false (hne hc htarget) (hne (.refl c) (.refl target))
      cases hprior with
      | none => exact precommitAction_congr_none htargets
      | @some p' p hp =>
        refine precommitAction_congr_some htargets (fun heq => ?_) fun _ => ?_
        · exact absurd heq (hne (.refl c) (.refl target))
        · by_cases hcp : AllocationUpToOrder c.allocation p.allocation
          · have hone := hdrifted hreordered p rfl hcp
            have hc' := hc.allocation.eq_of_one hone
            have hp₀ := hcp.symm.eq_of_one hone
            have hp' := (hp.allocation.trans hcp.symm).eq_of_one hone
            rw [hc', hp', hp₀]
          · refine iff_of_false (fun heq => hcp ?_) (fun heq => hcp (heq ▸ .refl _))
            exact (hc.allocation.symm.trans (heq ▸ .refl _)).trans hp.allocation

/-- Settled in every order, an end-state has no two lines with one key. -/
theorem keysApart_of_orderFree (hdigest : Function.Injective digest)
    (hfree : OrderFree digest (some c) target prior) (hreordered : UpToOrder c target) :
    KeysApart c.allocation.lines := by
  -- in the order of the target it is settled
  have hsettled : ∀ b : TargetState, UpToOrder b c →
      contentHash digest b = contentHash digest target := by
    intro b hb
    have hsame := (hfree.1 _ (.some hb)).trans (hfree.1 _ (.some hreordered.symm)).symm
    have hdone : precommitAction digest (some b) target prior = .noChange ∨
        precommitAction digest (some b) target prior = .alreadyTarget := by
      rw [hsame]
      exact precommitAction_settled_iff.2 rfl
    exact precommitAction_settled_iff.1 hdone
  apply keysApart_of_sameAllocation
  intro allocation h
  have hhash := (hsettled _ (UpToOrder.of_allocation h)).trans (hsettled c (.refl c)).symm
  exact ((contentHash_eq_iff hdigest).1 hhash).1

/-- Written over in every order, it is one line, however often. -/
theorem eq_of_orderFree (hdigest : Function.Injective digest)
    (hfree : OrderFree digest (some c) target (some p)) (hne : ¬ UpToOrder c target)
    (hcp : AllocationUpToOrder c.allocation p.allocation) {a b : ResolvedSplitLine}
    (ha : a ∈ c.allocation.lines) (hb : b ∈ c.allocation.lines) : a = b := by
  -- in the order of the prior it is written over, so no other order is another allocation
  have hcurrent : ∀ allocation, AllocationUpToOrder allocation c.allocation →
      precommitAction digest (some { c with allocation }) target (some p) =
        precommitAction digest (some c) target (some p) :=
    fun allocation h => hfree.1 _ (.some (UpToOrder.of_allocation h))
  have hwrite : ∀ allocation, AllocationUpToOrder allocation c.allocation →
      (precommitAction digest (some { c with allocation }) target (some p) = .write ↔
        allocation = p.allocation) := by
    intro allocation h
    refine precommitAction_unsettled_iff fun heq => hne ?_
    exact (UpToOrder.of_allocation h).symm.trans ((contentHash_eq_iff_upToOrder hdigest).1 heq).1
  have hall : ∀ allocation, AllocationUpToOrder allocation c.allocation →
      allocation = p.allocation := by
    intro allocation h
    rw [← hwrite allocation h, hcurrent allocation h, ← hcurrent p.allocation hcp.symm,
      hwrite p.allocation hcp.symm]
  by_contra hab
  obtain ⟨rest, hrest⟩ := Lib.exists_perm_cons ha hb hab
  obtain ⟨first, hfirst, hlines⟩ := exists_upToOrder hrest
  obtain ⟨second, hsecond, hlines'⟩ := exists_upToOrder ((List.Perm.swap a b rest).trans hrest)
  have heq := (hall first hfirst).trans (hall second hsecond).symm
  rw [heq, hlines'] at hlines
  exact hab (List.cons.inj hlines).1.symm

/-- **The pre-write check and the order of the lines.** The action is the same for every order of
the lines of any one of the three end-states exactly where the check is safe. -/
theorem precommitAction_orderFree_iff (hdigest : Function.Injective digest)
    (current : Option TargetState) (target : TargetState) (prior : Option TargetState) :
    OrderFree digest current target prior ↔ OrderSafe current target prior := by
  have hrefl : ∀ o : Option TargetState, Option.Rel UpToOrder o o := by
    intro o
    cases o with
    | none => exact .none
    | some s => exact .some (.refl s)
  constructor
  · rintro hfree c rfl
    refine ⟨keysApart_of_orderFree hdigest hfree, ?_⟩
    rintro hne p rfl hcp a ha b hb
    exact eq_of_orderFree hdigest hfree hne hcp ha hb
  · intro hsafe
    refine ⟨fun current' h => ?_, fun target' h => ?_, fun prior' h => ?_⟩
    · exact precommitAction_of_orderSafe hdigest hsafe h (.refl target) (hrefl prior)
    · exact precommitAction_of_orderSafe hdigest hsafe (hrefl current) h (hrefl prior)
    · exact precommitAction_of_orderSafe hdigest hsafe (hrefl current) (.refl target) h

end precommit

/-! ## Two lines in two orders -/

/-- Half for one of the two, half for the other. -/
def sharedLine (tag : Option PersonTag) : ResolvedSplitLine :=
  { category := "dining", amount := ⟨-5000⟩, personTag := tag }

def sharedDinner (first second : Option PersonTag) : TargetState :=
  { allocation := .split ⟨[sharedLine first, sharedLine second], Nat.le_refl 2⟩ }

/-- Lines that differ in the person alone hash by their order. -/
theorem shared_dinner_hashes :
    ¬ ∀ a b : TargetState, contentHash id a = contentHash id b ↔ UpToOrder a b := by
  intro h
  have hswapped :
      UpToOrder (sharedDinner (some "a") (some "b")) (sharedDinner (some "b") (some "a")) :=
    ⟨List.Perm.swap _ _ _, rfl, rfl⟩
  exact absurd ((h _ _).2 hswapped) (by decide)

/-- The hash of a dinner stands for both orders where the lines have different keys. -/
theorem dinner_and_tip_hash :
    contentHash id
      { allocation := .split ⟨[sharedLine none, { category := "tip", amount := ⟨-900⟩ }],
        Nat.le_refl 2⟩ } =
      contentHash id
        { allocation := .split ⟨[{ category := "tip", amount := ⟨-900⟩ }, sharedLine none],
          Nat.le_refl 2⟩ } :=
  ((contentHash_upToOrder_iff Function.injective_id _).2.2 (by unfold KeysApart; decide) _).2
    ⟨List.Perm.swap _ _ _, rfl, rfl⟩

/-- A split of two categories, in either order. -/
def marketRun (first second : CategoryId) : TargetState :=
  { allocation := .split ⟨[{ category := first, amount := ⟨-5000⟩ },
      { category := second, amount := ⟨-5000⟩ }], Nat.le_refl 2⟩ }

def filedUnder (category : CategoryId) : TargetState := { allocation := .category category none }

/-- The split last applied, read back in the other order, stops the write of a correction. -/
theorem market_run_diverges :
    ¬ ∀ current target prior, OrderFree id current target prior := by
  intro h
  have hcurrent := (h (some (marketRun "food" "home")) (filedUnder "dining")
    (some (marketRun "food" "home"))).1 (some (marketRun "home" "food"))
    (.some ⟨List.Perm.swap _ _ _, rfl, rfl⟩)
  exact absurd hcurrent (by decide)

/-- Where it is the target it is settled in either order. -/
theorem market_run_settled :
    precommitAction id (some (marketRun "home" "food")) (marketRun "food" "home")
        (some (filedUnder "dining")) =
      precommitAction id (some (marketRun "food" "home")) (marketRun "food" "home")
        (some (filedUnder "dining")) := by
  have hsafe : OrderSafe (some (marketRun "food" "home")) (marketRun "food" "home")
      (some (filedUnder "dining")) := by
    rintro c ⟨⟩
    exact ⟨fun _ => (by unfold KeysApart; decide), fun h => absurd (.refl _) h⟩
  exact ((precommitAction_orderFree_iff Function.injective_id _ _ _).2 hsafe).1 _
    (.some ⟨List.Perm.swap _ _ _, rfl, rfl⟩)

end YnabAgent
