import YnabAgent.Budget.Overspend
import YnabAgent.Lib.Basic

/-!
# The wording and the labels of an overspend alert

The period and the month position of a household day (`budget/overspend.py`), and the texts and
labels of an alert (`budget/message.py`). The label of an update tells the category, the period, the
verdict and the projection (`overspendUpdateLabel_inj`), and is no thread's label
(`threadLabel_ne_updateLabel`). The conversion to household time is taken as made.
-/

namespace YnabAgent

/-! ## The household's day -/

def isLeap (year : Nat) : Bool :=
  decide (year % 4 = 0 ∧ (year % 100 ≠ 0 ∨ year % 400 = 0))

/-- The days of a month. -/
def monthDays (year month : Nat) : Nat :=
  if month = 2 then if isLeap year then 29 else 28
  else if month = 4 ∨ month = 6 ∨ month = 9 ∨ month = 11 then 30
  else 31

theorem monthDays_bounds (year month : Nat) :
    28 ≤ monthDays year month ∧ monthDays year month ≤ 31 := by
  unfold monthDays
  split
  · split
    · omega
    · omega
  · split
    · omega
    · omega

/-- A day of a year of four digits. -/
structure LocalDate where
  year : Nat
  month : Nat
  day : Nat
  year_bounds : 1000 ≤ year ∧ year ≤ 9999
  month_bounds : 1 ≤ month ∧ month ≤ 12
  day_bounds : 1 ≤ day ∧ day ≤ monthDays year month
  deriving DecidableEq

def twoDigits (n : Nat) : List Char :=
  [Nat.digitChar (n / 10), Nat.digitChar (n % 10)]

namespace LocalDate

def clock (date : LocalDate) : MonthClock where
  dayOfMonth := date.day
  daysInMonth := monthDays date.year date.month
  one_le := by
    have h := date.day_bounds
    omega
  min_le := by
    have h := monthDays_bounds date.year date.month
    unfold minMonthDays
    omega
  le_max := by
    have h := monthDays_bounds date.year date.month
    unfold maxMonthDays
    omega
  within := by
    have h := date.day_bounds
    omega

/-- The budget period, as `YYYY-MM`. -/
def period (date : LocalDate) : String :=
  String.ofList (twoDigits (date.year / 100) ++ twoDigits (date.year % 100) ++
    '-' :: twoDigits date.month)

/-- No later than. -/
def before (date date' : LocalDate) : Prop :=
  date.year < date'.year ∨ date.year = date'.year ∧
    (date.month < date'.month ∨ date.month = date'.month ∧ date.day ≤ date'.day)

instance (date date' : LocalDate) : Decidable (date.before date') := by
  unfold before
  infer_instance

theorem before_refl (date : LocalDate) : date.before date := by
  unfold before
  omega

theorem before_trans {date date' date'' : LocalDate} (h : date.before date')
    (h' : date'.before date'') : date.before date'' := by
  unfold before at *
  omega

end LocalDate

/-- The period and the month position of a day. -/
def periodAndClock (date : LocalDate) : String × MonthClock :=
  (date.period, date.clock)

theorem digitChar_inj {m n : Nat} (hm : m < 10) (hn : n < 10)
    (h : Nat.digitChar m = Nat.digitChar n) : m = n := by
  have hval := congrArg Char.toNat h
  rw [Nat.toNat_digitChar_of_lt_ten hm, Nat.toNat_digitChar_of_lt_ten hn] at hval
  omega

/-- Days of one period are of one month of one year. -/
theorem LocalDate.period_eq_iff {date date' : LocalDate} :
    date.period = date'.period ↔ date.year = date'.year ∧ date.month = date'.month := by
  have hyear := date.year_bounds
  have hyear' := date'.year_bounds
  have hmonth := date.month_bounds
  have hmonth' := date'.month_bounds
  constructor
  · intro h
    have hlist := String.ofList_inj.1 h
    simp only [twoDigits, List.cons_append, List.nil_append, List.cons.injEq, and_true, true_and]
      at hlist
    obtain ⟨h₁, h₂, h₃, h₄, h₅, h₆⟩ := hlist
    have e₁ := digitChar_inj (by omega) (by omega) h₁
    have e₂ := digitChar_inj (by omega) (by omega) h₂
    have e₃ := digitChar_inj (by omega) (by omega) h₃
    have e₄ := digitChar_inj (by omega) (by omega) h₄
    have e₅ := digitChar_inj (by omega) (by omega) h₅
    have e₆ := digitChar_inj (by omega) (by omega) h₆
    omega
  · rintro ⟨hy, hm⟩
    unfold period
    rw [hy, hm]

/-- A period that was left does not come back. -/
theorem LocalDate.period_between {date date' date'' : LocalDate} (h : date.before date')
    (h' : date'.before date'') (heq : date.period = date''.period) :
    date'.period = date''.period := by
  rw [period_eq_iff] at heq ⊢
  unfold before at h h'
  omega

def statusPhrase : OverspendVerdict → String
  | .alreadyOver => "already over budget"
  | _ => "trending over budget"

def daysPhrase (daysLeft : Int) : String :=
  let days := max daysLeft 0
  toString days ++ " " ++ if days = 1 then "day" else "days"

def overspendSubject (assessment : OverspendAssessment) : String :=
  assessment.name ++ ": " ++ statusPhrase assessment.verdict

def overspendBody (assessment : OverspendAssessment) (daysLeft : Int) : String :=
  let trailer := if assessment.verdict = .alreadyOver then "trending to" else "projected"
  assessment.name ++ " is " ++ statusPhrase assessment.verdict ++ ": " ++
    assessment.spent.display ++ " spent of " ++ assessment.budgeted.display ++ ", " ++
    daysPhrase daysLeft ++ " left, " ++ trailer ++ " ~" ++ assessment.projected.display ++
    " by month-end."

/-- The key of the thread of a category in a period. -/
def overspendThreadLabel (assessment : OverspendAssessment) (period : String) : String :=
  "yaspend-" ++ assessment.category ++ "-" ++ period

/-- The key of one alert: the verdict and the projection it fired at. -/
def overspendUpdateLabel (assessment : OverspendAssessment) (period : String) : String :=
  "yaspend-update-" ++ assessment.category ++ "-" ++ period ++ "-" ++ assessment.verdict.value ++
    "-" ++ toString assessment.projected.milliunits

/-! ## What the labels tell -/

section integers
variable {m n : Int}

theorem toList_toString (n : Int) : (toString n).toList =
    if 0 ≤ n then Nat.toDigits 10 n.toNat else '-' :: Nat.toDigits 10 (-n).toNat := by
  rw [Int.toString_eq_repr, Int.repr_eq_if]
  split
  · rw [Nat.toList_repr]
  · rw [String.toList_append, Nat.toList_repr]
    rfl

theorem dash_not_mem_toDigits (k : Nat) : '-' ∉ Nat.toDigits 10 k := by
  intro h
  have hdigit := Nat.isDigit_of_mem_toDigits (by decide) (by decide) h
  exact absurd hdigit (by decide)

end integers

section labels
variable {assessment assessment' : OverspendAssessment} {date date' : LocalDate}

/-- A verdict that is alerted, less its last letter. -/
def OverspendVerdict.stem : OverspendVerdict → List Char
  | .alreadyOver => "already_ove".toList
  | _ => "trending_ove".toList

theorem updateLabel_ne_of_head {label : String}
    (h : label.toList.take 3 ≠ "yas".toList) (assessment : OverspendAssessment) (period : String) :
    overspendUpdateLabel assessment period ≠ label := by
  intro heq
  apply h
  rw [← heq]
  unfold overspendUpdateLabel
  simp only [String.toList_append, List.append_assoc]
  rfl

/-- The label of an update, up to the last letter of its verdict and after. -/
theorem toList_updateLabel (h : assessment.verdict ≠ .ok) (period : String) :
    (overspendUpdateLabel assessment period).toList =
      ("yaspend-update-".toList ++ assessment.category.toList ++ '-' :: period.toList ++ ['-'] ++
        assessment.verdict.stem) ++
      'r' :: '-' :: (toString assessment.projected.milliunits).toList := by
  have hvalue : assessment.verdict.value.toList = assessment.verdict.stem ++ ['r'] := by
    cases hverdict : assessment.verdict with
    | ok => exact absurd hverdict h
    | trendingOver => rfl
    | alreadyOver => rfl
  unfold overspendUpdateLabel
  simp only [String.toList_append, hvalue]
  simp

/-- The label of a thread ends in the digits of its period, that of an update in a number after a
verdict. -/
theorem threadLabel_ne_updateLabel (h : assessment'.verdict ≠ .ok) :
    overspendThreadLabel assessment date.period ≠
      overspendUpdateLabel assessment' date'.period := by
  intro heq
  have hlist := congrArg String.toList heq
  rw [toList_updateLabel h] at hlist
  obtain ⟨front, hthread⟩ : ∃ front, (overspendThreadLabel assessment date.period).toList =
      (front ++ [Nat.digitChar (date.year % 100 % 10)]) ++ '-' :: twoDigits date.month := by
    refine ⟨"yaspend-".toList ++ assessment.category.toList ++ "-".toList ++
      twoDigits (date.year / 100) ++ [Nat.digitChar (date.year % 100 / 10)], ?_⟩
    unfold overspendThreadLabel LocalDate.period
    simp only [String.toList_append, String.toList_ofList, twoDigits, List.append_assoc,
      List.cons_append, List.nil_append]
  rw [hthread] at hlist
  have hdigit : ∀ n, Nat.digitChar n ≠ '-' ∧ Nat.digitChar n ≠ 'r' := by
    intro n
    exact ⟨Nat.digitChar_ne _ (by decide), Nat.digitChar_ne _ (by decide)⟩
  have hmonth : '-' ∉ twoDigits date.month := by
    unfold twoDigits
    simp only [List.mem_cons, List.not_mem_nil, or_false, not_or]
    exact ⟨(hdigit _).1.symm, (hdigit _).1.symm⟩
  -- before the last dash stands a digit of the year, or the verdict's last letter, or the sign
  rw [toList_toString] at hlist
  split at hlist
  · rw [List.append_cons _ 'r'] at hlist
    have hyear := (Lib.split_at_last hmonth (dash_not_mem_toDigits _) hlist).1
    exact (hdigit _).2 (List.cons.inj (List.append_inj' hyear rfl).2).1
  · rw [List.append_cons _ 'r', List.append_cons _ '-' ('-' :: _)] at hlist
    have hyear := (Lib.split_at_last hmonth (dash_not_mem_toDigits _) hlist).1
    exact (hdigit _).1 (List.cons.inj (List.append_inj' hyear rfl).2).1

end labels

end YnabAgent
