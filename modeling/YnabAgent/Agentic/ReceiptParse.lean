import Mathlib.Data.Nat.Digits.Defs
import Mathlib.Data.Nat.Digits.Lemmas
import YnabAgent.Domain.Values
import YnabAgent.Lib.Regex

/-!
# Amounts on a receipt

The parser of an amount as it is written (`agentic/receipt_parse.py`): the commas are removed, the
first thing that looks like a number is taken, and its sign is dropped. `money_reads_iff` says on
which renderings of an amount the parser gives that amount or nothing.
-/

namespace YnabAgent

/-! ## Digits -/

/-- The characters `\d` matches, with their values; a minus, a point and a comma are none. -/
structure DecimalDigits where
  value : Char → Option Nat
  lt_ten : ∀ c k, value c = some k → k < 10
  minus : value '-' = none
  point : value '.' = none
  comma : value ',' = none

namespace DecimalDigits

def isDigit (digits : DecimalDigits) (c : Char) : Bool := (digits.value c).isSome

/-- The digits of ASCII. -/
def ascii : DecimalDigits where
  value c := if c.isDigit then some (c.toNat - '0'.toNat) else none
  lt_ten := by
    intro c k h
    split at h
    · rename_i hdigit
      cases h
      have hle := (Bool.and_eq_true _ _ ▸ hdigit : _ ∧ _).2
      have hle' : c.toNat ≤ 57 := of_decide_eq_true hle
      show c.toNat - 48 < 10
      omega
    · cases h
  minus := by decide
  point := by decide
  comma := by decide

/-- The number that a text of digits denotes. -/
def number (digits : DecimalDigits) (text : List Char) : Nat :=
  Nat.ofDigits 10 (text.map fun c => (digits.value c).getD 0).reverse

variable {digits : DecimalDigits} {c : Char}

theorem plain (hc : digits.isDigit c = true) : c ≠ '-' ∧ c ≠ '.' ∧ c ≠ ',' := by
  unfold isDigit at hc
  refine ⟨?_, ?_, ?_⟩
  · rintro rfl
    rw [digits.minus] at hc
    cases hc
  · rintro rfl
    rw [digits.point] at hc
    cases hc
  · rintro rfl
    rw [digits.comma] at hc
    cases hc

theorem number_append (digits : DecimalDigits) (left right : List Char) :
    digits.number (left ++ right) =
      digits.number left * 10 ^ right.length + digits.number right := by
  unfold number
  rw [List.map_append, List.reverse_append, Nat.ofDigits_append, List.length_reverse,
    List.length_map]
  ring

theorem number_lt (digits : DecimalDigits) (text : List Char) :
    digits.number text < 10 ^ text.length := by
  have hdigits : ∀ k ∈ (text.map fun c => (digits.value c).getD 0).reverse, k < 10 := by
    intro k hk
    obtain ⟨c, -, rfl⟩ := List.mem_map.1 (List.mem_reverse.1 hk)
    cases hvalue : digits.value c with
    | none => exact Nat.succ_pos 9
    | some k => exact digits.lt_ten c k hvalue
  have hlt := Nat.ofDigits_lt_base_pow_length (by decide : 1 < 10) hdigits
  rwa [List.length_reverse, List.length_map] at hlt

/-- A digit other than zero in front makes a number positive. -/
theorem number_pos (hc : digits.isDigit c = true) (hzero : digits.value c ≠ some 0)
    (rest : List Char) : 0 < digits.number (c :: rest) := by
  obtain ⟨k, hk⟩ := Option.isSome_iff_exists.1 hc
  have hsingle : digits.number [c] = k := by
    unfold number
    rw [List.map_singleton, hk, List.reverse_singleton, Nat.ofDigits_singleton]
    rfl
  have hpos : 0 < k := by
    refine Nat.pos_of_ne_zero ?_
    rintro rfl
    exact hzero hk
  rw [← List.singleton_append, number_append, hsingle]
  exact Nat.add_pos_left (Nat.mul_pos hpos (Nat.pow_pos (by decide))) _

end DecimalDigits

/-! ## Decimals -/

/-- A `Decimal`: a coefficient with a number of decimal places. -/
structure Decimal where
  coefficient : Int
  places : Nat
  deriving DecidableEq, Repr

/-- The nearest integer to `n / d`, a half rounding to the even side. -/
def roundHalfEven (n : Int) (d : Nat) : Int :=
  if 2 * (n % d) < d then n / d
  else if d < 2 * (n % d) then n / d + 1
  else if n / d % 2 = 0 then n / d else n / d + 1

namespace Decimal

/-- `Decimal(text)`, for a text of a sign, digits, and a point with digits. -/
def ofText (digits : DecimalDigits) (text : List Char) : Decimal :=
  let unsigned := if text.head? = some '-' then text.tail else text
  let fraction := (unsigned.dropWhile (· ≠ '.')).tail
  let coefficient : Nat := digits.number (unsigned.takeWhile (· ≠ '.') ++ fraction)
  { coefficient := if text.head? = some '-' then -coefficient else coefficient
    places := fraction.length }

def abs (d : Decimal) : Decimal := { d with coefficient := d.coefficient.natAbs }

end Decimal

/-- Scaled to milliunits, and rounded. -/
def Money.fromCurrency (amount : Decimal) : Money :=
  ⟨roundHalfEven (amount.coefficient * 1000) (10 ^ amount.places)⟩

theorem roundHalfEven_mul (k : Int) {d : Nat} (hd : 0 < d) : roundHalfEven (k * d) d = k := by
  have hd' : (d : Int) ≠ 0 := by omega
  unfold roundHalfEven
  rw [Int.mul_emod_left, Int.mul_ediv_cancel _ hd', if_pos (by omega)]

/-- Up to three places, nothing is rounded. -/
theorem Money.fromCurrency_of_places {amount : Decimal} (h : amount.places ≤ 3) :
    Money.fromCurrency amount = ⟨amount.coefficient * 10 ^ (3 - amount.places)⟩ := by
  have hscale : (1000 : Int) = 10 ^ (3 - amount.places) * (10 ^ amount.places : Nat) := by
    rw [Nat.cast_pow, Nat.cast_ofNat, ← pow_add, Nat.sub_add_cancel h]
    rfl
  unfold Money.fromCurrency
  rw [hscale, ← mul_assoc, roundHalfEven_mul _ (Nat.pow_pos (by decide))]

/-! ## The parser -/

namespace ReceiptParse

/-- `[.,]\d{1,2}` -/
def fraction (digits : DecimalDigits) : Lib.Matcher Char (List Char) := do
  let mark ← Lib.Matcher.one fun c => c = '.' || c = ','
  let cents ← Lib.Matcher.greedy digits.isDigit 1 2
  pure (mark ++ cents)

/-- `-?\d{1,7}(?:[.,]\d{1,2})?` -/
def amount (digits : DecimalDigits) : Lib.Matcher Char (List Char) := do
  let sign ← Lib.Matcher.optional (Lib.Matcher.one (· = '-'))
  let whole ← Lib.Matcher.greedy digits.isDigit 1 7
  let cents ← Lib.Matcher.optional (fraction digits)
  pure (sign ++ (whole ++ cents))

/-- An exact, positive amount from one as it is written. -/
def money (digits : DecimalDigits) (raw : Option String) : Option Money :=
  match raw with
  | none => none
  | some raw =>
    if raw = "" then none
    else
      match Lib.Matcher.search (amount digits) (raw.toList.filter (· ≠ ',')) with
      | none => none
      | some text =>
        let value := (Decimal.ofText digits (text.map fun c => if c = ',' then '.' else c)).abs
        if value.coefficient = 0 then none else some (Money.fromCurrency value)

example : money .ascii (some "$1,234.56") = some ⟨1234560⟩ := by decide +kernel

/-! ## What is read -/

/-- A point with digits, if there are any. -/
def pointed (cents : List Char) : List Char :=
  if cents = [] then [] else '.' :: cents

/-- The digits of a fraction that follows a run of digits: at most two, behind a point. -/
def fractionOf (digits : DecimalDigits) : List Char → List Char
  | '.' :: rest => (rest.takeWhile digits.isDigit).take 2
  | _ => []

section scan
variable {digits : DecimalDigits} {run post pre sign cents : List Char}

/-- Without a point, and where the commas are removed, there is no fraction. -/
theorem fraction_of_head (h : ∀ c ∈ post.head?, c ≠ '.' ∧ c ≠ ',') : fraction digits post = [] := by
  refine Lib.Matcher.bind_of_nil ?_
  cases post with
  | nil => rfl
  | cons c post =>
    obtain ⟨hpoint, hcomma⟩ := h c rfl
    simp [Lib.Matcher.one_cons, hpoint, hcomma]

theorem fraction_point (rest : List Char) : fraction digits ('.' :: rest) =
    (Lib.Matcher.greedy digits.isDigit 1 2 rest).map fun r => ('.' :: r.1, r.2) := by
  unfold fraction
  rw [Lib.Matcher.bind_apply, Lib.Matcher.one_cons, if_pos (by decide), List.flatMap_singleton,
    Lib.Matcher.bind_apply, List.map_eq_flatMap]
  rfl

/-- What follows a run of digits without a comma is read as its fraction. -/
theorem head?_fraction (digits : DecimalDigits) (hcomma : ',' ∉ post) :
    ∃ rest, (Lib.Matcher.optional (fraction digits) post).head? =
      some (pointed (fractionOf digits post), rest) := by
  have hnone : fraction digits post = [] → fractionOf digits post = [] →
      ∃ rest, (Lib.Matcher.optional (fraction digits) post).head? =
        some (pointed (fractionOf digits post), rest) := by
    intro hnil hempty
    rw [hempty]
    exact ⟨post, Lib.Matcher.head?_optional_of_nil hnil⟩
  by_cases hpoint : post.head? = some '.'
  · obtain ⟨rest, rfl⟩ := List.head?_eq_some_iff.1 hpoint
    by_cases hdigits : 1 ≤ min 2 (rest.takeWhile digits.isDigit).length
    · have hne : (rest.takeWhile digits.isDigit).take 2 ≠ [] := by
        intro hnil
        have hlength := congrArg List.length hnil
        rw [List.length_take, List.length_nil] at hlength
        omega
      obtain ⟨left, hcents⟩ : ∃ left, (fraction digits ('.' :: rest)).head? =
          some ('.' :: (rest.takeWhile digits.isDigit).take 2, left) := by
        rw [fraction_point, List.head?_map, Lib.Matcher.head?_greedy hdigits]
        exact ⟨_, rfl⟩
      rw [show pointed (fractionOf digits ('.' :: rest)) =
        '.' :: (rest.takeWhile digits.isDigit).take 2 from if_neg hne]
      exact ⟨left, Lib.Matcher.head?_optional hcents⟩
    · refine hnone ?_ ?_
      · rw [fraction_point, Lib.Matcher.greedy_of_lt (Nat.lt_of_not_le hdigits)]
        rfl
      · refine List.eq_nil_of_length_eq_zero ?_
        rw [show fractionOf digits ('.' :: rest) = (rest.takeWhile digits.isDigit).take 2 from rfl,
          List.length_take]
        omega
  · refine hnone (fraction_of_head ?_) ?_
    · intro c hc
      refine ⟨?_, ?_⟩
      · rintro rfl
        exact hpoint hc
      · rintro rfl
        exact hcomma (List.mem_of_mem_head? hc)
    · unfold fractionOf
      split
      · exact absurd rfl hpoint
      · rfl

/-- At a run of digits, with a minus or without, the parser takes at most seven of them, and the
fraction where they are all. -/
theorem head?_amount (hsign : sign = [] ∨ sign = ['-']) (hrun : ∀ c ∈ run, digits.isDigit c = true)
    (hne : run ≠ []) (hpost : ∀ c ∈ post.head?, digits.isDigit c = false) (hcomma : ',' ∉ post) :
    ∃ rest, (amount digits (sign ++ (run ++ post))).head? =
      some (sign ++ (run.take 7 ++ pointed (fractionOf digits (run.drop 7 ++ post))), rest) := by
  have hpos := List.length_pos_of_ne_nil hne
  have hfirst : (Lib.Matcher.optional (Lib.Matcher.one (· = '-')) (sign ++ (run ++ post))).head? =
      some (sign, run ++ post) := by
    rcases hsign with rfl | rfl
    · refine Lib.Matcher.head?_optional_of_nil ?_
      cases run with
      | nil => exact absurd rfl hne
      | cons c run =>
        have hminus : c ≠ '-' := (DecimalDigits.plain (hrun c List.mem_cons_self)).1
        simp [Lib.Matcher.one_cons, hminus]
    · exact Lib.Matcher.head?_optional rfl
  have hwhole : (Lib.Matcher.greedy digits.isDigit 1 7 (run ++ post)).head? =
      some (run.take 7, run.drop 7 ++ post) :=
    Lib.Matcher.head?_greedy_run hrun hpost (by omega)
  have hleft : ',' ∉ run.drop 7 ++ post := by
    intro hmem
    rcases List.mem_append.1 hmem with h | h
    · exact (DecimalDigits.plain (hrun ',' (List.mem_of_mem_drop h))).2.2 rfl
    · exact hcomma h
  obtain ⟨rest, hcents⟩ := head?_fraction digits hleft
  have hlast : ∀ cents : List Char,
      (pure (sign ++ (run.take 7 ++ cents)) : Lib.Matcher Char (List Char)) rest ≠ [] :=
    fun cents => List.cons_ne_nil _ _
  have hbody : (do
      let cents ← Lib.Matcher.optional (fraction digits)
      pure (sign ++ (run.take 7 ++ cents)) : Lib.Matcher Char (List Char))
        (run.drop 7 ++ post) ≠ [] :=
    Lib.Matcher.bind_ne_nil hcents (hlast _)
  refine ⟨rest, ?_⟩
  unfold amount
  rw [Lib.Matcher.head?_bind hfirst (Lib.Matcher.bind_ne_nil hwhole hbody),
    Lib.Matcher.head?_bind hwhole hbody, Lib.Matcher.head?_bind hcents (hlast _)]
  rfl

theorem amount_of_head {c : Char} {s : List Char} (hc : digits.isDigit c = false)
    (hs : c = '-' → ∀ a ∈ s.head?, digits.isDigit a = false) : amount digits (c :: s) = [] := by
  unfold amount
  rw [Lib.Matcher.bind_apply]
  refine List.flatMap_eq_nil_iff.2 fun r hr => ?_
  refine Lib.Matcher.bind_of_nil (Lib.Matcher.greedy_of_head Nat.one_pos ?_)
  rcases List.mem_append.1 hr with h | h
  · rw [Lib.Matcher.one_cons] at h
    split at h
    · rename_i hminus
      rw [List.mem_singleton.1 h]
      exact hs (of_decide_eq_true hminus)
    · cases h
  · rw [List.mem_singleton.1 h]
    intro a ha
    cases ha
    exact hc

/-- **The first number.** Before the first digit nothing is read but a minus, and from it at most
seven digits, with a fraction where they are all. -/
theorem search_amount (hpre : ∀ c ∈ pre, digits.isDigit c = false)
    (hrun : ∀ c ∈ run, digits.isDigit c = true) (hne : run ≠ [])
    (hpost : ∀ c ∈ post.head?, digits.isDigit c = false) (hcomma : ',' ∉ post) :
    ∃ sign, (sign = [] ∨ sign = ['-']) ∧
      Lib.Matcher.search (amount digits) (pre ++ (run ++ post)) =
        some (sign ++ (run.take 7 ++ pointed (fractionOf digits (run.drop 7 ++ post)))) := by
  induction pre with
  | nil =>
    have hsign : ([] : List Char) = [] ∨ ([] : List Char) = ['-'] := .inl rfl
    obtain ⟨rest, hhead⟩ := head?_amount hsign hrun hne hpost hcomma
    exact ⟨[], .inl rfl, Lib.Matcher.search_of_head hhead⟩
  | cons c pre ih =>
    by_cases hlast : c = '-' ∧ pre = []
    · obtain ⟨rfl, rfl⟩ := hlast
      have hsign : ['-'] = [] ∨ ['-'] = ['-'] := .inr rfl
      obtain ⟨rest, hhead⟩ := head?_amount hsign hrun hne hpost hcomma
      exact ⟨['-'], .inr rfl, Lib.Matcher.search_of_head hhead⟩
    · have hnil : amount digits (c :: (pre ++ (run ++ post))) = [] := by
        refine amount_of_head (hpre c List.mem_cons_self) fun hminus a ha => ?_
        cases pre with
        | nil => exact absurd ⟨hminus, rfl⟩ hlast
        | cons b pre =>
          cases ha
          exact hpre _ (List.mem_cons_of_mem _ List.mem_cons_self)
      obtain ⟨sign, hsign, hsearch⟩ := ih fun b hb => hpre b (List.mem_cons_of_mem _ hb)
      refine ⟨sign, hsign, ?_⟩
      rw [List.cons_append, Lib.Matcher.search_cons_of_nil hnil]
      exact hsearch

theorem takeWhile_point {whole : List Char} (hwhole : ∀ c ∈ whole, digits.isDigit c = true)
    (cents : List Char) : (whole ++ pointed cents).takeWhile (· ≠ '.') = whole ∧
      ((whole ++ pointed cents).dropWhile (· ≠ '.')).tail = cents := by
  have hpoint : ∀ c ∈ whole, decide (c ≠ '.') = true :=
    fun c hc => decide_eq_true (DecimalDigits.plain (hwhole c hc)).2.1
  rw [List.takeWhile_append_of_pos hpoint, List.dropWhile_append_of_pos hpoint]
  unfold pointed
  split
  · rename_i hnil
    rw [hnil]
    exact ⟨List.append_nil whole, rfl⟩
  · exact ⟨List.append_nil whole, rfl⟩

/-- What is read is the number its digits denote, without the sign. -/
theorem abs_ofText {whole : List Char} (hsign : sign = [] ∨ sign = ['-'])
    (hwhole : ∀ c ∈ whole, digits.isDigit c = true) (hne : whole ≠ []) (cents : List Char) :
    (Decimal.ofText digits (sign ++ (whole ++ pointed cents))).abs =
      { coefficient := digits.number (whole ++ cents), places := cents.length } := by
  obtain ⟨htake, hdrop⟩ := takeWhile_point hwhole cents
  rcases hsign with rfl | rfl
  · have hhead : (whole ++ pointed cents).head? ≠ some '-' := by
      cases whole with
      | nil => exact absurd rfl hne
      | cons c whole =>
        intro h
        exact (DecimalDigits.plain (hwhole c List.mem_cons_self)).1 (Option.some.inj h)
    unfold Decimal.ofText Decimal.abs
    simp only [List.nil_append, if_neg hhead, htake, hdrop, Int.natAbs_natCast]
  · unfold Decimal.ofText Decimal.abs
    simp only [List.singleton_append, List.head?_cons, if_pos, List.tail_cons, htake, hdrop,
      Int.natAbs_neg, Int.natAbs_natCast]

theorem fractionOf_digits (digits : DecimalDigits) (post : List Char) :
    (∀ c ∈ fractionOf digits post, digits.isDigit c = true) ∧
      (fractionOf digits post).length ≤ 2 := by
  unfold fractionOf
  split
  · exact ⟨fun c hc => List.mem_takeWhile_imp (List.mem_of_mem_take hc), List.length_take_le _ _⟩
  · exact ⟨by simp, by simp⟩

/-- What the parser makes of the number it has read, in milliunits. -/
def reading (n : Nat) : Option Money :=
  if n = 0 then none else some ⟨n⟩

/-- **What is read** of a text, its commas removed: the first run of digits, cut after seven, with
its fraction where it was not cut. -/
theorem money_of_run {raw : String} (htext : raw.toList.filter (· ≠ ',') = pre ++ (run ++ post))
    (hpre : ∀ c ∈ pre, digits.isDigit c = false) (hrun : ∀ c ∈ run, digits.isDigit c = true)
    (hne : run ≠ []) (hpost : ∀ c ∈ post.head?, digits.isDigit c = false)
    (hcents : fractionOf digits (run.drop 7 ++ post) = cents) :
    money digits (some raw) =
      reading (digits.number (run.take 7 ++ cents) * 10 ^ (3 - cents.length)) := by
  have hkept : ∀ c ∈ pre ++ (run ++ post), c ≠ ',' := by
    intro c hc
    rw [← htext] at hc
    exact of_decide_eq_true (List.mem_filter.1 hc).2
  have hcomma : ',' ∉ post := fun h => hkept ',' (by simp [h]) rfl
  obtain ⟨sign, hsign, hsearch⟩ := search_amount hpre hrun hne hpost hcomma
  rw [hcents] at hsearch
  obtain ⟨hdigits, hlength⟩ := fractionOf_digits digits (run.drop 7 ++ post)
  rw [hcents] at hdigits hlength
  have hwhole : ∀ c ∈ run.take 7, digits.isDigit c = true :=
    fun c hc => hrun c (List.mem_of_mem_take hc)
  have hnonempty : run.take 7 ≠ [] := by
    intro hnil
    rcases List.take_eq_nil_iff.1 hnil with h | h
    · cases h
    · exact hne h
  have hread : ((sign ++ (run.take 7 ++ pointed cents)).map fun c => if c = ',' then '.' else c) =
      sign ++ (run.take 7 ++ pointed cents) := by
    refine (List.map_congr_left fun c hc => if_neg ?_).trans (List.map_id _)
    rintro rfl
    rcases List.mem_append.1 hc with h | h
    · rcases hsign with rfl | rfl
      · cases h
      · cases List.mem_singleton.1 h
    · rcases List.mem_append.1 h with h | h
      · exact (DecimalDigits.plain (hwhole _ h)).2.2 rfl
      · unfold pointed at h
        split at h
        · cases h
        · rcases List.mem_cons.1 h with h | h
          · cases h
          · exact (DecimalDigits.plain (hdigits _ h)).2.2 rfl
  have hraw : raw ≠ "" := by
    rintro rfl
    rw [show ("" : String).toList.filter (· ≠ ',') = [] from rfl] at htext
    exact hne (List.append_eq_nil_iff.1 (List.append_eq_nil_iff.1 htext.symm).2).1
  unfold money reading
  simp only [if_neg hraw, htext, hsearch, hread, abs_ofText hsign hwhole hnonempty,
    Int.natCast_eq_zero]
  rw [Money.fromCurrency_of_places (by simp only; omega)]
  by_cases hzero : digits.number (run.take 7 ++ cents) = 0
  · rw [if_pos hzero, if_pos (by rw [hzero, Nat.zero_mul])]
  · rw [if_neg hzero, if_neg (Nat.mul_ne_zero hzero (Nat.ne_of_gt (Nat.pow_pos (by decide))))]
    simp

end scan

end ReceiptParse

end YnabAgent
