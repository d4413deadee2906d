import YnabAgent.Domain.Allocation

/-!
# Resolving a template

Binding a proposed allocation to a transaction total (`policy/resolve.py`): fixed lines first, in
the direction of the total, then the remainder over the percent lines, the last of which absorbs
the residue. `resolveSplit_total`: the lines sum exactly to the total.
-/

namespace YnabAgent

/-- The indices of the percent lines, counted from `i`. -/
def percentPositions : Nat → List SplitLine → List Nat
  | _, [] => []
  | i, line :: rest =>
    match line.share with
    | .percent _ => i :: percentPositions (i + 1) rest
    | .fixed _ => percentPositions (i + 1) rest

/-- The sum of the fixed lines, in the given direction. -/
def fixedTotal (direction : Int) : List SplitLine → Int
  | [] => 0
  | line :: rest =>
    match line.share with
    | .fixed a => direction * a.milliunits.natAbs + fixedTotal direction rest
    | .percent _ => fixedTotal direction rest

def resolveLine (line : SplitLine) (amount : Int) : ResolvedSplitLine :=
  { category := line.category, amount := ⟨amount⟩, memo := line.memoTemplate,
    personTag := line.personTag }

/-- The resolving loop at line `i`, with `distributed` already handed to earlier percent lines. -/
def resolveLines (direction remainder : Int) (lastPercent : Nat) :
    Nat → Int → List SplitLine → List ResolvedSplitLine
  | _, _, [] => []
  | i, distributed, line :: rest =>
    match line.share with
    | .fixed a =>
      resolveLine line (direction * a.milliunits.natAbs)
        :: resolveLines direction remainder lastPercent (i + 1) distributed rest
    | .percent s =>
      if i = lastPercent then
        resolveLine line (remainder - distributed)
          :: resolveLines direction remainder lastPercent (i + 1) distributed rest
      else
        let amount := remainder * s.percent / 100
        resolveLine line amount
          :: resolveLines direction remainder lastPercent (i + 1) (distributed + amount) rest

section lines
variable {direction remainder : Int} {lastPercent : Nat}

theorem length_resolveLines (i : Nat) (d : Int) (lines : List SplitLine) :
    (resolveLines direction remainder lastPercent i d lines).length = lines.length := by
  induction lines generalizing i d with
  | nil => rfl
  | cons line rest ih =>
    unfold resolveLines
    split
    · rw [List.length_cons, ih, List.length_cons]
    · split <;> simp only [List.length_cons, ih]

theorem le_of_mem_percentPositions {i j : Nat} {lines : List SplitLine}
    (h : j ∈ percentPositions i lines) : i ≤ j := by
  induction lines generalizing i with
  | nil => cases h
  | cons line rest ih =>
    unfold percentPositions at h
    split at h
    · rcases List.mem_cons.1 h with rfl | h
      · exact le_refl _
      · exact Nat.le_of_succ_le (ih h)
    · exact Nat.le_of_succ_le (ih h)

/-! ### The loop, line by line -/

section step
variable {line : SplitLine} {rest : List SplitLine}

theorem percentPositions_fixed {a : Money} (h : line.share = .fixed a) (i : Nat) :
    percentPositions i (line :: rest) = percentPositions (i + 1) rest := by
  rw [percentPositions, h]

theorem percentPositions_percent {s : PercentShare} (h : line.share = .percent s) (i : Nat) :
    percentPositions i (line :: rest) = i :: percentPositions (i + 1) rest := by
  rw [percentPositions, h]

theorem fixedTotal_fixed {a : Money} (h : line.share = .fixed a) :
    fixedTotal direction (line :: rest) =
      direction * a.milliunits.natAbs + fixedTotal direction rest := by
  rw [fixedTotal, h]

theorem fixedTotal_percent {s : PercentShare} (h : line.share = .percent s) :
    fixedTotal direction (line :: rest) = fixedTotal direction rest := by
  rw [fixedTotal, h]

theorem resolveLines_fixed {a : Money} (h : line.share = .fixed a) (i : Nat) (d : Int) :
    resolveLines direction remainder lastPercent i d (line :: rest) =
      resolveLine line (direction * a.milliunits.natAbs)
        :: resolveLines direction remainder lastPercent (i + 1) d rest := by
  rw [resolveLines, h]

/-- The last percent line takes what is left. -/
theorem resolveLines_last {s : PercentShare} (h : line.share = .percent s) (d : Int) :
    resolveLines direction remainder lastPercent lastPercent d (line :: rest) =
      resolveLine line (remainder - d)
        :: resolveLines direction remainder lastPercent (lastPercent + 1) d rest := by
  rw [resolveLines, h]
  exact if_pos rfl

/-- An earlier one takes its share, rounded down. -/
theorem resolveLines_earlier {s : PercentShare} (h : line.share = .percent s) {i : Nat}
    (hne : i ≠ lastPercent) (d : Int) :
    resolveLines direction remainder lastPercent i d (line :: rest) =
      resolveLine line (remainder * s.percent / 100)
        :: resolveLines direction remainder lastPercent (i + 1) (d + remainder * s.percent / 100)
          rest := by
  rw [resolveLines, h]
  exact if_neg hne

end step

/-- Induction over lines without a percent line. -/
theorem noPercent_induction {Q : Nat → List SplitLine → Prop} (nil : ∀ i, Q i [])
    (fixed : ∀ i line rest a, line.share = .fixed a → Q (i + 1) rest → Q i (line :: rest)) {i : Nat}
    {lines : List SplitLine} (hnone : percentPositions i lines = []) : Q i lines := by
  induction lines generalizing i with
  | nil => exact nil i
  | cons line rest ih =>
    cases hs : line.share with
    | fixed a =>
      rw [percentPositions_fixed hs] at hnone
      exact fixed i line rest a hs (ih hnone)
    | percent s =>
      rw [percentPositions_percent hs] at hnone
      cases hnone

/-- Induction up to the last percent line: behind it all lines are fixed. -/
theorem lastPercent_induction {Q : Nat → List SplitLine → Prop}
    (fixed : ∀ i line rest a, line.share = .fixed a → Q (i + 1) rest → Q i (line :: rest))
    (last : ∀ line rest s, line.share = .percent s → percentPositions (lastPercent + 1) rest = [] →
      Q lastPercent (line :: rest))
    (earlier : ∀ i line rest s, line.share = .percent s → i ≠ lastPercent →
      percentPositions (i + 1) rest ≠ [] → Q (i + 1) rest → Q i (line :: rest)) {i : Nat}
    {lines : List SplitLine} (hlast : (percentPositions i lines).getLast? = some lastPercent) :
    Q i lines := by
  induction lines generalizing i with
  | nil => cases hlast
  | cons line rest ih =>
    cases hs : line.share with
    | fixed a =>
      rw [percentPositions_fixed hs] at hlast
      exact fixed i line rest a hs (ih hlast)
    | percent s =>
      rw [percentPositions_percent hs] at hlast
      cases hrest : percentPositions (i + 1) rest with
      | nil =>
        rw [hrest, List.getLast?_singleton] at hlast
        obtain rfl := Option.some.inj hlast
        exact last line rest s hs hrest
      | cons j js =>
        rw [hrest, List.getLast?_cons_cons, ← hrest] at hlast
        -- a later percent line exists, so this one is not the last
        have hle : i + 1 ≤ lastPercent :=
          le_of_mem_percentPositions (List.mem_of_getLast? hlast)
        exact earlier i line rest s hs (by omega) (by rw [hrest]; exact List.cons_ne_nil _ _)
          (ih hlast)

/-- The amounts a run of lines resolves to. -/
def amountSum (lines : List ResolvedSplitLine) : Int :=
  (lines.map (·.amount.milliunits)).sum

@[simp] theorem amountSum_nil : amountSum [] = 0 := rfl

@[simp] theorem amountSum_cons (line : ResolvedSplitLine) (lines : List ResolvedSplitLine) :
    amountSum (line :: lines) = line.amount.milliunits + amountSum lines := by
  simp [amountSum]

@[simp] theorem resolveLine_milliunits (line : SplitLine) (amount : Int) :
    (resolveLine line amount).amount.milliunits = amount := rfl

/-- Past the last percent line only the fixed lines are left. -/
theorem amountSum_resolveLines_fixed {i : Nat} {d : Int} {lines : List SplitLine}
    (hnone : percentPositions i lines = []) :
    amountSum (resolveLines direction remainder lastPercent i d lines)
      = fixedTotal direction lines := by
  revert d
  apply noPercent_induction ?_ ?_ hnone
  · intro i d
    rfl
  · intro i line rest a hs ih d
    rw [resolveLines_fixed hs, amountSum_cons, resolveLine_milliunits, ih, fixedTotal_fixed hs]

/-- Up to the last percent line the loop hands out what it still holds. -/
theorem amountSum_resolveLines {i : Nat} {d : Int} {lines : List SplitLine}
    (hlast : (percentPositions i lines).getLast? = some lastPercent) :
    amountSum (resolveLines direction remainder lastPercent i d lines)
      = fixedTotal direction lines + (remainder - d) := by
  revert d
  apply lastPercent_induction ?_ ?_ ?_ hlast
  · intro i line rest a hs ih d
    rw [resolveLines_fixed hs, amountSum_cons, resolveLine_milliunits, ih, fixedTotal_fixed hs]
    omega
  · intro line rest s hs hnone d
    rw [resolveLines_last hs, amountSum_cons, resolveLine_milliunits,
      amountSum_resolveLines_fixed hnone, fixedTotal_percent hs]
    omega
  · intro i line rest s hs hne _ ih d
    rw [resolveLines_earlier hs hne, amountSum_cons, resolveLine_milliunits, ih,
      fixedTotal_percent hs]
    omega

end lines

theorem percentPositions_ne_nil (i : Nat) {lines : List SplitLine} {line : SplitLine}
    (hmem : line ∈ lines) {s : PercentShare} (hs : line.share = .percent s) :
    percentPositions i lines ≠ [] := by
  induction lines generalizing i with
  | nil => cases hmem
  | cons first rest ih =>
    unfold percentPositions
    split
    · exact List.cons_ne_nil _ _
    · rename_i a ha
      rcases List.mem_cons.1 hmem with rfl | hmem
      · rw [hs] at ha; cases ha
      · exact ih (i + 1) hmem

theorem ProposedSplit.percentPositions_ne_nil (split : ProposedSplit) :
    percentPositions 0 split.lines ≠ [] := by
  obtain ⟨line, hmem, s, hs⟩ := split.exists_percent
  exact YnabAgent.percentPositions_ne_nil 0 hmem hs

def resolveSplit (split : ProposedSplit) (total : Money) : ResolvedSplit :=
  let direction : Int := if total.milliunits < 0 then -1 else 1
  let remainder := total.milliunits - fixedTotal direction split.lines
  let lastPercent := (percentPositions 0 split.lines).getLast split.percentPositions_ne_nil
  { lines := resolveLines direction remainder lastPercent 0 0 split.lines
    two_le := by rw [length_resolveLines]; exact split.two_le }

def resolveAllocation (proposed : ProposedAllocation) (total : Money) : ResolvedAllocation :=
  match proposed with
  | .category category personTag => .category category personTag
  | .split split => .split (resolveSplit split total)

/-- The lines of a resolved split sum exactly to the total. -/
theorem resolveSplit_total (split : ProposedSplit) (total : Money) :
    (resolveSplit split total).total = total := by
  apply Money.ext_milliunits
  rw [ResolvedSplit.total_milliunits]
  change amountSum (resolveLines _ _ _ 0 0 split.lines) = _
  rw [amountSum_resolveLines (List.getLast?_eq_getLast_of_ne_nil split.percentPositions_ne_nil)]
  omega

theorem resolveAllocation_total {proposed : ProposedAllocation} {total : Money}
    {split : ResolvedSplit} (h : resolveAllocation proposed total = .split split) :
    split.total = total := by
  cases proposed with
  | category c p => cases h
  | split p => cases h; exact resolveSplit_total p total

end YnabAgent
