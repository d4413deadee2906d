import YnabAgent.Agentic.ReceiptParse

/-!
# Renderings of an amount

How an amount is written on a receipt: digits, in groups of three or not, one or two decimals behind
a mark, and around them whatever has no digit, such as a sign or a currency. `money_reads_iff`: the
parser (`agentic/receipt_parse.py`) reads the amount or nothing exactly on the `Legible` ones.
-/

namespace YnabAgent

inductive DecimalMark
  | point | comma
  deriving DecidableEq, Repr

def DecimalMark.char : DecimalMark → Char
  | .point => '.'
  | .comma => ','

/-- What stands behind the units. -/
structure Cents (digits : DecimalDigits) where
  mark : DecimalMark
  text : List Char
  isDigit : ∀ c ∈ text, digits.isDigit c = true
  length : text.length = 1 ∨ text.length = 2

/-- A text without a digit. -/
def Digitless (digits : DecimalDigits) (text : List Char) : Prop :=
  ∀ c ∈ text, digits.isDigit c = false

theorem Digitless.keep {digits : DecimalDigits} {text : List Char} (h : Digitless digits text) :
    Digitless digits (text.filter (· ≠ ',')) :=
  fun c hc => h c (List.mem_of_mem_filter hc)

theorem Digitless.head {digits : DecimalDigits} {text : List Char} (h : Digitless digits text) :
    ∀ c ∈ text.head?, digits.isDigit c = false :=
  fun c hc => h c (List.mem_of_mem_head? hc)

/-- A rendering of an amount with at most two decimals: before and behind it, what has no digit; the
units, the first group of them and the further ones; and the cents. -/
structure Rendering (digits : DecimalDigits) (amount : Money) where
  lead : List Char
  first : List Char
  groups : List (List Char)
  separator : Char
  cents : Option (Cents digits)
  trail : List Char
  lead_plain : Digitless digits lead
  trail_plain : Digitless digits trail
  separator_plain : digits.isDigit separator = false
  first_isDigit : ∀ c ∈ first, digits.isDigit c = true
  groups_isDigit : ∀ group ∈ groups, group.length = 3 ∧ ∀ c ∈ group, digits.isDigit c = true
  grouped : groups ≠ [] → first ≠ [] ∧ first.length ≤ 3
  separated : groups ≠ [] → ∀ c ∈ cents, separator ≠ c.mark.char
  written : first = [] → cents.isSome = true
  /-- No needless zero in front. -/
  canonical : 1 < (first ++ groups.flatten).length → ∀ c ∈ first.head?, digits.value c ≠ some 0
  denotes : amount.milliunits.natAbs = 1000 * digits.number (first ++ groups.flatten) +
    (cents.map fun c => digits.number c.text * 10 ^ (3 - c.text.length)).getD 0

namespace Rendering

variable {digits : DecimalDigits} {amount : Money}

/-- The digits of the units. -/
def units (r : Rendering digits amount) : List Char := r.first ++ r.groups.flatten

def text (r : Rendering digits amount) : String :=
  String.ofList (r.lead ++ ((r.first ++ r.groups.flatMap (r.separator :: ·)) ++
    ((r.cents.map fun c => c.mark.char :: c.text).getD [] ++ r.trail)))

/-- The amount is zero; or at most seven digits of units, in groups by a comma or in none,
with a point before the cents, if any; or seven digits of units in no groups, and zero cents
behind a comma. -/
def Legible (r : Rendering digits amount) : Prop :=
  amount.milliunits = 0 ∨
    (r.first ≠ [] ∧ (r.groups = [] ∨ r.separator = ',') ∧ r.units.length ≤ 7 ∧
      ∀ c ∈ r.cents, c.mark = .point) ∨
    (r.groups = [] ∧ r.first.length = 7 ∧
      ∃ c ∈ r.cents, c.mark = .comma ∧ digits.number c.text = 0)

/-! ## Without the commas -/

theorem keep_digits {text : List Char} (h : ∀ c ∈ text, digits.isDigit c = true) :
    text.filter (· ≠ ',') = text :=
  List.filter_eq_self.2 fun c hc => decide_eq_true (DecimalDigits.plain (h c hc)).2.2

theorem units_isDigit (r : Rendering digits amount) : ∀ c ∈ r.units, digits.isDigit c = true := by
  intro c hc
  rcases List.mem_append.1 hc with h | h
  · exact r.first_isDigit c h
  · obtain ⟨group, hgroup, hc⟩ := List.mem_flatten.1 h
    exact (r.groups_isDigit group hgroup).2 c hc

/-- The units stay one run of digits where the commas alone separate their groups. -/
theorem keep_units (r : Rendering digits amount) (h : r.groups = [] ∨ r.separator = ',') :
    (r.first ++ r.groups.flatMap (r.separator :: ·)).filter (· ≠ ',') = r.units := by
  have hgroups : (r.groups.flatMap (r.separator :: ·)).filter (· ≠ ',') = r.groups.flatten := by
    rcases h with h | h
    · rw [h]
      rfl
    · rw [h, List.filter_flatMap, List.flatten_eq_flatMap]
      refine List.flatMap_congr fun group hgroup => ?_
      rw [List.filter_cons_of_neg (by decide)]
      exact keep_digits (r.groups_isDigit group hgroup).2
  rw [List.filter_append, hgroups, keep_digits r.first_isDigit]
  rfl

/-- A separator other than a comma stays where it is. -/
theorem keep_separator (r : Rendering digits amount) {group : List Char} {groups : List (List Char)}
    (hgroups : r.groups = group :: groups) (h : r.separator ≠ ',') :
    ∃ rest, (r.first ++ r.groups.flatMap (r.separator :: ·)).filter (· ≠ ',') =
      r.first ++ r.separator :: (group ++ rest) := by
  have hgroup := (r.groups_isDigit group (by rw [hgroups]; exact List.mem_cons_self)).2
  rw [hgroups, List.filter_append, keep_digits r.first_isDigit, List.flatMap_cons,
    List.filter_append, List.filter_cons_of_pos (by simpa using h), keep_digits hgroup]
  exact ⟨_, rfl⟩

theorem keep_text (r : Rendering digits amount) : r.text.toList.filter (· ≠ ',') =
    r.lead.filter (· ≠ ',') ++ ((r.first ++ r.groups.flatMap (r.separator :: ·)).filter (· ≠ ',') ++
      (((r.cents.map fun c => c.mark.char :: c.text).getD []).filter (· ≠ ',') ++
        r.trail.filter (· ≠ ','))) := by
  unfold text
  simp only [String.toList_ofList, List.filter_append]

/-! ## Numbers -/

theorem scale {places : Nat} (h : places ≤ 3) : 10 ^ places * 10 ^ (3 - places) = 1000 := by
  rw [← pow_add, Nat.add_sub_cancel' h]
  rfl

theorem reading_iff {n : Nat} {amount : Money} :
    ReceiptParse.reading n = none ∨ ReceiptParse.reading n = some amount.abs ↔
      n = 0 ∨ n = amount.milliunits.natAbs := by
  unfold ReceiptParse.reading Money.abs
  split
  · rename_i h
    exact ⟨fun _ => .inl h, fun _ => .inl rfl⟩
  · rename_i h
    constructor
    · rintro (hnone | hsome)
      · cases hnone
      · cases hsome
        exact .inr rfl
    · rintro (hzero | heq)
      · exact absurd hzero h
      · exact .inr (by rw [heq])

/-- Units of more than one digit stay positive however they are cut. -/
theorem number_take_pos (r : Rendering digits amount) (h : 1 < r.units.length) {k : Nat}
    (hk : 0 < k) (rest : List Char) : 0 < digits.number ((r.units ++ rest).take k) := by
  obtain ⟨k, rfl⟩ := Nat.exists_eq_succ_of_ne_zero (Nat.ne_of_gt hk)
  have hfirst : ∀ c ∈ r.units.head?, digits.value c ≠ some 0 := by
    have hne : r.first ≠ [] := by
      intro hnil
      by_cases hgroups : r.groups = []
      · unfold units at h
        rw [hnil, hgroups] at h
        simp at h
      · exact (r.grouped hgroups).1 hnil
    unfold units
    rw [List.head?_append_of_ne_nil _ hne]
    exact r.canonical h
  cases hunits : r.units with
  | nil => rw [hunits] at h; simp at h
  | cons c units =>
    rw [List.cons_append, List.take_succ_cons]
    refine DecimalDigits.number_pos (r.units_isDigit c (by rw [hunits]; exact List.mem_cons_self))
      ?_ _
    exact hfirst c (by rw [hunits]; rfl)

theorem units_ne_nil (r : Rendering digits amount) (h : r.first ≠ []) : r.units ≠ [] :=
  List.append_ne_nil_of_left_ne_nil h _

/-- A run of digits that is cut has no fraction. -/
theorem fractionOf_cut {run : List Char} (hrun : ∀ c ∈ run, digits.isDigit c = true)
    (h : 7 < run.length) (post : List Char) :
    ReceiptParse.fractionOf digits (run.drop 7 ++ post) = [] := by
  cases hdrop : run.drop 7 with
  | nil =>
    have hlength := congrArg List.length hdrop
    rw [List.length_drop, List.length_nil] at hlength
    omega
  | cons c rest =>
    have hc := hrun c (List.mem_of_mem_drop (by rw [hdrop]; exact List.mem_cons_self))
    have hpoint := (DecimalDigits.plain hc).2.1
    rw [List.cons_append]
    unfold ReceiptParse.fractionOf
    split
    · rename_i heq
      cases heq
      exact absurd rfl hpoint
    · rfl

theorem fractionOf_digitless {post : List Char} (h : Digitless digits post) :
    ReceiptParse.fractionOf digits post = [] := by
  unfold ReceiptParse.fractionOf
  split
  · rename_i rest
    have hrest : rest.takeWhile digits.isDigit = [] := by
      cases rest with
      | nil => rfl
      | cons c rest =>
        refine List.takeWhile_cons_of_neg ?_
        rw [h c (List.mem_cons_of_mem _ List.mem_cons_self)]
        exact Bool.false_ne_true
    rw [hrest]
    rfl
  · rfl

/-- Behind a whole run of digits, nothing without a digit is a fraction. -/
theorem fractionOf_run {run post : List Char} (hrun : ∀ c ∈ run, digits.isDigit c = true)
    (hpost : Digitless digits post) : ReceiptParse.fractionOf digits (run.drop 7 ++ post) = [] := by
  rcases Nat.lt_or_ge 7 run.length with h | h
  · exact fractionOf_cut hrun h post
  · rw [List.drop_of_length_le h, List.nil_append]
    exact fractionOf_digitless hpost

/-! ## What is read of a rendering -/

/-- Of units alone. -/
theorem money_units (r : Rendering digits amount) (hsep : r.groups = [] ∨ r.separator = ',')
    (hcents : r.cents = none) : ReceiptParse.money digits (some r.text) =
      ReceiptParse.reading (digits.number (r.units.take 7) * 1000) := by
  have hfirst : r.first ≠ [] := by
    intro h
    have hwritten := r.written h
    rw [hcents] at hwritten
    cases hwritten
  have htrail := r.trail_plain.keep
  have htext : r.text.toList.filter (· ≠ ',') =
      r.lead.filter (· ≠ ',') ++ (r.units ++ r.trail.filter (· ≠ ',')) := by
    rw [r.keep_text, r.keep_units hsep, hcents]
    rfl
  have hread := ReceiptParse.money_of_run htext r.lead_plain.keep r.units_isDigit
    (r.units_ne_nil hfirst) htrail.head (fractionOf_run r.units_isDigit htrail)
  rwa [List.append_nil] at hread

/-- Behind a comma the cents are read as units. -/
theorem money_comma (r : Rendering digits amount) (hsep : r.groups = [] ∨ r.separator = ',')
    {c : Cents digits} (hcents : r.cents = some c) (hmark : c.mark = .comma) :
    ReceiptParse.money digits (some r.text) =
      ReceiptParse.reading (digits.number ((r.units ++ c.text).take 7) * 1000) := by
  have hrun : ∀ a ∈ r.units ++ c.text, digits.isDigit a = true := by
    intro a ha
    rcases List.mem_append.1 ha with h | h
    · exact r.units_isDigit a h
    · exact c.isDigit a h
  have hne : r.units ++ c.text ≠ [] := by
    intro hnil
    have hlength := congrArg List.length hnil
    rw [List.length_append, List.length_nil] at hlength
    have := c.length
    omega
  have htrail := r.trail_plain.keep
  have htext : r.text.toList.filter (· ≠ ',') =
      r.lead.filter (· ≠ ',') ++ ((r.units ++ c.text) ++ r.trail.filter (· ≠ ',')) := by
    rw [r.keep_text, r.keep_units hsep, hcents, Option.map_some, Option.getD_some, hmark,
      List.filter_cons_of_neg (by decide), keep_digits c.isDigit, List.append_assoc r.units]
  have hread := ReceiptParse.money_of_run htext r.lead_plain.keep hrun hne htrail.head
    (fractionOf_run hrun htrail)
  rwa [List.append_nil] at hread

/-- Behind a point they are read as cents, if there are units, and no more than seven. -/
theorem money_point (r : Rendering digits amount) (hsep : r.groups = [] ∨ r.separator = ',')
    {c : Cents digits} (hcents : r.cents = some c) (hmark : c.mark = .point) (hne : r.units ≠ []) :
    ReceiptParse.money digits (some r.text) =
      if r.units.length ≤ 7 then
        ReceiptParse.reading (digits.number (r.units ++ c.text) * 10 ^ (3 - c.text.length))
      else ReceiptParse.reading (digits.number (r.units.take 7) * 1000) := by
  have htrail := r.trail_plain.keep
  have htext : r.text.toList.filter (· ≠ ',') =
      r.lead.filter (· ≠ ',') ++ (r.units ++ '.' :: (c.text ++ r.trail.filter (· ≠ ','))) := by
    rw [r.keep_text, r.keep_units hsep, hcents, Option.map_some, Option.getD_some, hmark,
      List.filter_cons_of_pos (by decide), keep_digits c.isDigit]
    rfl
  have hhead : ∀ a ∈ ('.' :: (c.text ++ r.trail.filter (· ≠ ','))).head?,
      digits.isDigit a = false := by
    intro a ha
    cases ha
    rw [DecimalDigits.isDigit, digits.point]
    rfl
  split
  · rename_i hlength
    have hfraction : ReceiptParse.fractionOf digits
        (r.units.drop 7 ++ '.' :: (c.text ++ r.trail.filter (· ≠ ','))) = c.text := by
      rw [List.drop_of_length_le hlength, List.nil_append]
      show ((c.text ++ r.trail.filter (· ≠ ',')).takeWhile digits.isDigit).take 2 = c.text
      rw [Lib.Matcher.takeWhile_append_of_stops c.isDigit htrail.head]
      refine List.take_of_length_le ?_
      have := c.length
      omega
    have hread := ReceiptParse.money_of_run htext r.lead_plain.keep r.units_isDigit hne hhead
      hfraction
    rwa [List.take_of_length_le hlength] at hread
  · rename_i hlength
    have hread := ReceiptParse.money_of_run htext r.lead_plain.keep r.units_isDigit hne hhead
      (fractionOf_cut r.units_isDigit (Nat.lt_of_not_le hlength) _)
    rwa [List.append_nil] at hread

/-- Without units they are read as units. -/
theorem money_bare (r : Rendering digits amount) (hnil : r.units = []) {c : Cents digits}
    (hcents : r.cents = some c) (hmark : c.mark = .point) :
    ReceiptParse.money digits (some r.text) =
      ReceiptParse.reading (digits.number c.text * 1000) := by
  obtain ⟨hfirst, hflatten⟩ := List.append_eq_nil_iff.1 hnil
  have hgroups : r.groups = [] := by
    by_contra hne
    exact (r.grouped hne).1 hfirst
  have htrail := r.trail_plain.keep
  have htext : r.text.toList.filter (· ≠ ',') =
      (r.lead.filter (· ≠ ',') ++ ['.']) ++ (c.text ++ r.trail.filter (· ≠ ',')) := by
    rw [r.keep_text, r.keep_units (.inl hgroups), hcents, Option.map_some, Option.getD_some, hmark,
      List.filter_cons_of_pos (by decide), keep_digits c.isDigit, hnil]
    simp [DecimalMark.char]
  have hlead : Digitless digits (r.lead.filter (· ≠ ',') ++ ['.']) := by
    intro a ha
    rcases List.mem_append.1 ha with h | h
    · exact r.lead_plain.keep a h
    · rw [List.mem_singleton.1 h, DecimalDigits.isDigit, digits.point]
      rfl
  have hne : c.text ≠ [] := by
    intro h
    have hlength := c.length
    rw [h] at hlength
    simp at hlength
  have hshort : c.text.take 7 = c.text := by
    refine List.take_of_length_le ?_
    have := c.length
    omega
  have hread := ReceiptParse.money_of_run htext hlead c.isDigit hne htrail.head
    (fractionOf_run c.isDigit htrail)
  rwa [List.append_nil, hshort] at hread

/-- Groups that no comma separates are cut off: what is read stays below a thousand units. -/
theorem money_cut (r : Rendering digits amount) (hgroups : r.groups ≠ [])
    (hsep : r.separator ≠ ',') :
    ∃ n, ReceiptParse.money digits (some r.text) = ReceiptParse.reading n ∧ 0 < n ∧
      n < 1000 * (digits.number r.first + 1) := by
  obtain ⟨hne, hshort⟩ := r.grouped hgroups
  obtain ⟨group, groups, hcons⟩ := List.exists_cons_of_ne_nil hgroups
  obtain ⟨rest, hkeep⟩ := r.keep_separator hcons hsep
  have htext : r.text.toList.filter (· ≠ ',') = r.lead.filter (· ≠ ',') ++ (r.first ++
      r.separator :: (group ++ (rest ++
        (((r.cents.map fun c => c.mark.char :: c.text).getD []).filter (· ≠ ',') ++
          r.trail.filter (· ≠ ','))))) := by
    rw [r.keep_text, hkeep]
    simp only [List.append_assoc, List.cons_append]
  generalize rest ++ (((r.cents.map fun c => c.mark.char :: c.text).getD []).filter
    (· ≠ ',') ++ r.trail.filter (· ≠ ',')) = left at htext
  have hhead : ∀ a ∈ (r.separator :: (group ++ left)).head?, digits.isDigit a = false := by
    intro a ha
    cases ha
    exact r.separator_plain
  have hread := ReceiptParse.money_of_run htext r.lead_plain.keep r.first_isDigit hne hhead rfl
  have hlength := (ReceiptParse.fractionOf_digits digits
    (r.first.drop 7 ++ r.separator :: (group ++ left))).2
  generalize ReceiptParse.fractionOf digits (r.first.drop 7 ++ r.separator :: (group ++ left)) =
    cents at hread hlength
  have hpos : 0 < digits.number r.first := by
    have hunits : 1 < r.units.length := by
      have hgroup := (r.groups_isDigit group (by rw [hcons]; exact List.mem_cons_self)).1
      unfold units
      rw [hcons, List.length_append, List.flatten_cons, List.length_append, hgroup]
      omega
    have htake := r.number_take_pos hunits (List.length_pos_of_ne_nil hne) []
    rwa [List.append_nil, units, List.take_left] at htake
  rw [List.take_of_length_le (by omega), DecimalDigits.number_append, Nat.add_mul, Nat.mul_assoc,
    scale (by omega)] at hread
  refine ⟨_, hread, Nat.add_pos_left (Nat.mul_pos hpos (by decide)) _, ?_⟩
  have hcents := Nat.mul_lt_mul_of_pos_right (digits.number_lt cents)
    (Nat.pow_pos (by decide) : 0 < 10 ^ (3 - cents.length))
  rw [scale (by omega)] at hcents
  omega

/-! ## Legible renderings -/

/-- The number of a text is the number of what is cut off it behind that of what is left. -/
theorem number_take_drop (digits : DecimalDigits) (text : List Char) (k : Nat) :
    digits.number text = digits.number (text.take k) * 10 ^ (text.drop k).length +
      digits.number (text.drop k) := by
  rw [← DecimalDigits.number_append, List.take_append_drop]

/-- Cut after seven of more digits, the units are ten times too few. -/
theorem number_cut (r : Rendering digits amount) (h : 7 < r.units.length) :
    0 < digits.number (r.units.take 7) ∧
      10 * digits.number (r.units.take 7) ≤ digits.number r.units := by
  have hpos := r.number_take_pos (by omega) (by decide : 0 < 7) []
  rw [List.append_nil] at hpos
  have hsum := number_take_drop digits r.units 7
  have hten : 10 ≤ 10 ^ (r.units.drop 7).length := by
    rw [List.length_drop]
    exact Nat.le_self_pow (by omega) 10
  have hmul := Nat.mul_le_mul_left (digits.number (r.units.take 7)) hten
  exact ⟨hpos, by omega⟩

theorem amount_eq_zero_iff : amount.milliunits = 0 ↔ amount.milliunits.natAbs = 0 :=
  Int.natAbs_eq_zero.symm

theorem units_iff (r : Rendering digits amount) (hsep : r.groups = [] ∨ r.separator = ',')
    (hcents : r.cents = none) :
    digits.number (r.units.take 7) * 1000 = 0 ∨
      digits.number (r.units.take 7) * 1000 = amount.milliunits.natAbs ↔ r.Legible := by
  have hfirst : r.first ≠ [] := by
    intro h
    have hwritten := r.written h
    rw [hcents] at hwritten
    cases hwritten
  have hamount : amount.milliunits.natAbs = 1000 * digits.number r.units := by
    rw [r.denotes, hcents]
    rfl
  unfold Legible
  rw [amount_eq_zero_iff, hamount, hcents]
  rcases Nat.lt_or_ge 7 r.units.length with hlong | hshort
  · obtain ⟨hpos, hcut⟩ := r.number_cut hlong
    constructor
    · intro h
      omega
    · rintro (h | ⟨-, -, h, -⟩ | ⟨-, -, c, hc, -⟩)
      · omega
      · omega
      · cases hc
  · rw [List.take_of_length_le hshort]
    refine ⟨fun _ => .inr (.inl ⟨hfirst, hsep, hshort, ?_⟩), fun _ => .inr (Nat.mul_comm _ _)⟩
    intro c hc
    cases hc

theorem natAbs_cents (r : Rendering digits amount) {c : Cents digits} (hcents : r.cents = some c) :
    amount.milliunits.natAbs =
      1000 * digits.number r.units + digits.number c.text * 10 ^ (3 - c.text.length) := by
  rw [r.denotes, hcents]
  rfl

/-- Cents behind a comma leave seven digits of units, or nothing. -/
theorem legible_comma_iff (r : Rendering digits amount) (hsep : r.groups = [] ∨ r.separator = ',')
    {c : Cents digits} (hcents : r.cents = some c) (hmark : c.mark = .comma) :
    r.Legible ↔ amount.milliunits.natAbs = 0 ∨ r.units.length = 7 ∧ digits.number c.text = 0 := by
  have hgroups : r.groups = [] := by
    by_contra hne
    rcases hsep with h | h
    · exact hne h
    · refine r.separated hne c hcents ?_
      rw [h, hmark]
      rfl
  have hunits : r.units = r.first := by
    unfold units
    rw [hgroups]
    exact List.append_nil _
  unfold Legible
  rw [amount_eq_zero_iff, hunits]
  refine or_congr_right ⟨?_, ?_⟩
  · rintro (⟨-, -, -, h⟩ | ⟨-, hseven, c', hc', -, hzero⟩)
    · rw [h c hcents] at hmark
      cases hmark
    · rw [hcents] at hc'
      cases hc'
      exact ⟨hseven, hzero⟩
  · rintro ⟨hseven, hzero⟩
    exact .inr ⟨hgroups, hseven, c, hcents, hmark, hzero⟩

/-- Behind a comma the amount is a power of ten too small, unless the cut takes the cents off. -/
theorem comma_iff (r : Rendering digits amount) (hsep : r.groups = [] ∨ r.separator = ',')
    {c : Cents digits} (hcents : r.cents = some c) (hmark : c.mark = .comma) :
    digits.number ((r.units ++ c.text).take 7) * 1000 = 0 ∨
      digits.number ((r.units ++ c.text).take 7) * 1000 = amount.milliunits.natAbs ↔ r.Legible := by
  have hlength := c.length
  have hnumber := DecimalDigits.number_append digits r.units c.text
  have hsum := number_take_drop digits (r.units ++ c.text) 7
  have hleft := digits.number_lt ((r.units ++ c.text).drop 7)
  rw [r.legible_comma_iff hsep hcents hmark, r.natAbs_cents hcents]
  rcases Nat.lt_or_ge 7 (r.units ++ c.text).length with hlong | hshort
  · rw [List.length_append] at hlong
    have hpos := r.number_take_pos (by omega) (by decide : 0 < 7) c.text
    have hdrop : ((r.units ++ c.text).drop 7).length = r.units.length + c.text.length - 7 := by
      rw [List.length_drop, List.length_append]
    rw [hdrop] at hsum hleft
    rcases Nat.lt_trichotomy r.units.length 7 with hless | hseven | hmore
    · -- one of the two cents is cut off
      have hf : c.text.length = 2 := by omega
      rw [hf, show r.units.length + 2 - 7 = 1 by omega, pow_one] at hsum
      rw [hf, show r.units.length + 2 - 7 = 1 by omega, pow_one] at hleft
      rw [hf, show 10 ^ 2 = 100 from rfl] at hnumber
      rw [hf, show 10 ^ (3 - 2) = 10 from rfl]
      omega
    · -- the cents are
      rw [List.take_left' hseven] at hpos ⊢
      rcases hlength with h | h
      · rw [h, show 10 ^ (3 - 1) = 100 from rfl]
        omega
      · rw [h, show 10 ^ (3 - 2) = 10 from rfl]
        omega
    · have hpow := Nat.mul_le_mul_left (digits.number ((r.units ++ c.text).take 7))
        (Nat.pow_le_pow_right (by decide : 0 < 10)
          (by omega : c.text.length + 1 ≤ r.units.length + c.text.length - 7))
      rcases hlength with h | h
      · rw [h, show 10 ^ (1 + 1) = 100 from rfl] at hpow
        rw [h, pow_one] at hnumber
        rw [h] at hsum
        rw [h, show 10 ^ (3 - 1) = 100 from rfl]
        omega
      · rw [h, show 10 ^ (2 + 1) = 1000 from rfl] at hpow
        rw [h, show 10 ^ 2 = 100 from rfl] at hnumber
        rw [h] at hsum
        rw [h, show 10 ^ (3 - 2) = 10 from rfl]
        omega
  · rw [List.take_of_length_le hshort, hnumber]
    rw [List.length_append] at hshort
    rcases hlength with h | h
    · rw [h, pow_one, show 10 ^ (3 - 1) = 100 from rfl]
      omega
    · rw [h, show 10 ^ 2 = 100 from rfl, show 10 ^ (3 - 2) = 10 from rfl]
      omega

theorem point_iff (r : Rendering digits amount) (hsep : r.groups = [] ∨ r.separator = ',')
    {c : Cents digits} (hcents : r.cents = some c) (hmark : c.mark = .point) (hne : r.units ≠ []) :
    ReceiptParse.money digits (some r.text) = none ∨
      ReceiptParse.money digits (some r.text) = some amount.abs ↔ r.Legible := by
  have hlength := c.length
  have hfirst : r.first ≠ [] := by
    intro hnil
    refine hne ?_
    have hgroups : r.groups = [] := by
      by_contra h
      exact (r.grouped h).1 hnil
    unfold units
    rw [hnil, hgroups]
    rfl
  have hpoint : ∀ c' ∈ r.cents, c'.mark = .point := by
    intro c' hc'
    rw [hcents] at hc'
    cases hc'
    exact hmark
  have hamount := r.natAbs_cents hcents
  rw [r.money_point hsep hcents hmark hne]
  split
  · rename_i hshort
    rw [reading_iff]
    refine ⟨fun _ => .inr (.inl ⟨hfirst, hsep, hshort, hpoint⟩), fun _ => .inr ?_⟩
    rw [hamount, DecimalDigits.number_append, Nat.add_mul, Nat.mul_assoc, scale (by omega),
      Nat.mul_comm (digits.number r.units)]
  · rename_i hlong
    obtain ⟨hpos, hcut⟩ := r.number_cut (Nat.lt_of_not_le hlong)
    rw [reading_iff]
    constructor
    · intro h
      omega
    · rintro (h | ⟨-, -, h, -⟩ | ⟨-, -, c', hc', hcomma, -⟩)
      · rw [amount_eq_zero_iff] at h
        omega
      · exact absurd h hlong
      · rw [hpoint c' hc'] at hcomma
        cases hcomma

theorem bare_iff (r : Rendering digits amount) (hnil : r.units = []) {c : Cents digits}
    (hcents : r.cents = some c) :
    digits.number c.text * 1000 = 0 ∨ digits.number c.text * 1000 = amount.milliunits.natAbs ↔
      r.Legible := by
  have hlength := c.length
  obtain ⟨hfirst, -⟩ := List.append_eq_nil_iff.1 hnil
  have hamount : amount.milliunits.natAbs = digits.number c.text * 10 ^ (3 - c.text.length) := by
    rw [r.natAbs_cents hcents, hnil]
    exact Nat.zero_add _
  have hlegible : r.Legible ↔ amount.milliunits.natAbs = 0 := by
    unfold Legible
    rw [amount_eq_zero_iff]
    constructor
    · rintro (h | ⟨h, -⟩ | ⟨-, h, -⟩)
      · exact h
      · exact absurd hfirst h
      · rw [hfirst] at h
        cases h
    · exact .inl
  rw [hlegible, hamount]
  rcases hlength with h | h
  · rw [h, show 10 ^ (3 - 1) = 100 from rfl]
    omega
  · rw [h, show 10 ^ (3 - 2) = 10 from rfl]
    omega

/-- Groups that no comma separates are never read as the amount. -/
theorem cut_iff (r : Rendering digits amount) (hgroups : r.groups ≠ []) (hsep : r.separator ≠ ',')
    {n : Nat} (hpos : 0 < n) (hlt : n < 1000 * (digits.number r.first + 1)) :
    n = 0 ∨ n = amount.milliunits.natAbs ↔ r.Legible := by
  obtain ⟨group, groups, hcons⟩ := List.exists_cons_of_ne_nil hgroups
  have hgroup := (r.groups_isDigit group (by rw [hcons]; exact List.mem_cons_self)).1
  have hunits : r.units = r.first ++ (group ++ groups.flatten) := by
    unfold units
    rw [hcons]
    rfl
  have hne := (r.grouped hgroups).1
  have hfirst : 0 < digits.number r.first := by
    have hlong : 1 < r.units.length := by
      rw [hunits, List.length_append, List.length_append, hgroup]
      omega
    have htake := r.number_take_pos hlong (List.length_pos_of_ne_nil hne) []
    rwa [List.append_nil, hunits, List.take_left] at htake
  have hthousand : 1000 * digits.number r.first ≤ digits.number r.units := by
    rw [hunits, DecimalDigits.number_append, List.length_append, hgroup, pow_add]
    have hpow : 1 ≤ 10 ^ groups.flatten.length := Nat.pow_pos (by decide)
    have hmul := Nat.mul_le_mul_left (digits.number r.first * 1000) hpow
    rw [show 10 ^ 3 = 1000 from rfl, ← Nat.mul_assoc]
    omega
  have hamount : 1000 * digits.number r.units ≤ amount.milliunits.natAbs := by
    rw [r.denotes]
    exact Nat.le_add_right _ _
  constructor
  · intro h
    omega
  · rintro (h | ⟨-, h, -⟩ | ⟨h, -⟩)
    · rw [amount_eq_zero_iff] at h
      omega
    · rcases h with h | h
      · exact absurd h hgroups
      · exact absurd h hsep
    · exact absurd h hgroups

end Rendering

/-- **What the parser reads.** Of a rendering of an amount it gives the absolute value of that
amount, or nothing, exactly if the rendering is legible. -/
theorem money_reads_iff (digits : DecimalDigits) (amount : Money) (r : Rendering digits amount) :
    ReceiptParse.money digits (some r.text) = none ∨
        ReceiptParse.money digits (some r.text) = some amount.abs ↔
      r.Legible := by
  by_cases hsep : r.groups = [] ∨ r.separator = ','
  · cases hcents : r.cents with
    | none =>
      rw [r.money_units hsep hcents, Rendering.reading_iff]
      exact r.units_iff hsep hcents
    | some c =>
      cases hmark : c.mark with
      | comma =>
        rw [r.money_comma hsep hcents hmark, Rendering.reading_iff]
        exact r.comma_iff hsep hcents hmark
      | point =>
        by_cases hnil : r.units = []
        · rw [r.money_bare hnil hcents hmark, Rendering.reading_iff]
          exact r.bare_iff hnil hcents
        · exact r.point_iff hsep hcents hmark hnil
  · obtain ⟨hgroups, hcomma⟩ := not_or.1 hsep
    obtain ⟨n, hread, hpos, hlt⟩ := r.money_cut hgroups hcomma
    rw [hread, Rendering.reading_iff]
    exact r.cut_iff hgroups hcomma hpos hlt

/-- Twelve euros and thirty-four cents. -/
def lunchInEuros : Rendering .ascii ⟨-12340⟩ where
  lead := []
  first := ['1', '2']
  groups := []
  separator := '.'
  cents := some
    { mark := .comma, text := ['3', '4'], length := .inr rfl,
      isDigit := List.forall_mem_cons.2 ⟨rfl, List.forall_mem_singleton.2 rfl⟩ }
  trail := [' ', '€']
  lead_plain := nofun
  trail_plain := List.forall_mem_cons.2 ⟨rfl, List.forall_mem_singleton.2 rfl⟩
  separator_plain := rfl
  first_isDigit := List.forall_mem_cons.2 ⟨rfl, List.forall_mem_singleton.2 rfl⟩
  groups_isDigit := nofun
  grouped := fun h => absurd rfl h
  separated := fun h => absurd rfl h
  written := nofun
  canonical := by simp [DecimalDigits.ascii]
  denotes := by decide +kernel

/-- The comma is taken out, and the amount read is a hundred times too large. -/
theorem money_misreads_comma :
    lunchInEuros.text = "12,34 €" ∧
      ReceiptParse.money .ascii (some lunchInEuros.text) = some ⟨1234000⟩ ∧
      ¬ (ReceiptParse.money .ascii (some lunchInEuros.text) = none ∨
        ReceiptParse.money .ascii (some lunchInEuros.text) = some (Money.abs ⟨-12340⟩)) := by
  have htext : lunchInEuros.text = "12,34 €" := by decide +kernel
  have hread : ReceiptParse.money .ascii (some lunchInEuros.text) = some ⟨1234000⟩ := by
    decide +kernel
  refine ⟨htext, hread, ?_⟩
  rw [hread]
  decide

end YnabAgent
