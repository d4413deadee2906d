import Mathlib.Data.List.Infix

/-!
# Value types of the domain

Identifiers are strings, a moment is its count of microseconds and a day its ordinal, and an amount
is an integer count of milliunits (`domain/ids.py`, `domain/enums.py`, `domain/money.py`). The
string methods that depend on the Unicode tables are the fields of `PyText`; every other string
operation is computed.
-/

namespace YnabAgent

/-! ## Identifiers and moments -/

abbrev YnabTransactionId := String
abbrev AccountId := String
abbrev CategoryId := String
abbrev PayeeId := String
abbrev ImportId := String
abbrev ThreadId := String
abbrev ReceiptId := String
abbrev RuleId := String
abbrev MessageId := String
abbrev PersonTag := String

/-- An aware `datetime`, in microseconds. -/
abbrev Datetime := Int

/-- A `timedelta`, in microseconds. -/
abbrev Timedelta := Int

/-- A calendar day, by its ordinal. -/
abbrev Date := Int

def Timedelta.hours (n : Int) : Timedelta := n * 3600000000

def Timedelta.days (n : Int) : Timedelta := Timedelta.hours (24 * n)

/-! ## Text -/

/-- `str.lower`, `str.strip` and `repr`, which read the Unicode tables. -/
structure PyText where
  lower : String → String
  strip : String → String
  repr : String → String

/-- The three on printable ASCII text without quotes or backslashes. -/
def PyText.ascii : PyText where
  lower s := String.ofList (s.toList.map Char.toLower)
  strip s :=
    String.ofList (((s.toList.dropWhile Char.isWhitespace).reverse.dropWhile
      Char.isWhitespace).reverse)
  repr s := "'" ++ s ++ "'"

/-- `needle in text`. -/
def isInText (needle text : String) : Bool :=
  decide (needle.toList <:+: text.toList)

/-- `text[:n]`. -/
def textPrefix (n : Nat) (text : String) : String :=
  String.ofList (text.toList.take n)

/-- `sep.join(parts)`. -/
def joinText (sep : String) (parts : List String) : String :=
  sep.intercalate parts

/-! ## The closed vocabularies -/

inductive TxnState
  | discovered | holdAmazon | enriching | autoApplied | awaitingHuman
  | applied | «open» | lapsed | revising | archived
  deriving DecidableEq, Repr

def TxnState.value : TxnState → String
  | .discovered => "discovered"
  | .holdAmazon => "hold_amazon"
  | .enriching => "enriching"
  | .autoApplied => "auto_applied"
  | .awaitingHuman => "awaiting_human"
  | .applied => "applied"
  | .open => "open"
  | .lapsed => "lapsed"
  | .revising => "revising"
  | .archived => "archived"

inductive TrustState
  | suggested | confirmed | trusted
  deriving DecidableEq, Repr

inductive Confidence
  | high | medium | low
  deriving DecidableEq, Repr

inductive DecidedBy
  | human | agent
  deriving DecidableEq, Repr

inductive SourceKind
  | rule | ynabHistory | receipt | model | webSearch
  deriving DecidableEq, Repr

inductive RuleSource
  | humanExplicit | learned
  deriving DecidableEq, Repr

inductive ReceiptStatus
  | parked | matched | asked | expired
  deriving DecidableEq, Repr

inductive ClearedState
  | uncleared | cleared | reconciled
  deriving DecidableEq, Repr

inductive FlagColor
  | red | orange | yellow | green | blue | purple
  deriving DecidableEq, Repr

inductive ReviewVerdict
  | proceed | escalateToHuman
  deriving DecidableEq, Repr

inductive RevisingOrigin
  | applied | lapsed
  deriving DecidableEq, Repr

inductive AwaitingFlag
  | none | possiblyInconsistent | diverged
  deriving DecidableEq, Repr

/-! ## Money -/

/-- An exact amount; outflows are negative. -/
structure Money where
  milliunits : Int
  deriving DecidableEq, Repr

namespace Money

def zero : Money := ⟨0⟩

instance : Add Money := ⟨fun a b => ⟨a.milliunits + b.milliunits⟩⟩
instance : Sub Money := ⟨fun a b => ⟨a.milliunits - b.milliunits⟩⟩
instance : Neg Money := ⟨fun a => ⟨-a.milliunits⟩⟩
instance : LT Money := ⟨fun a b => a.milliunits < b.milliunits⟩
instance : LE Money := ⟨fun a b => a.milliunits ≤ b.milliunits⟩

instance (a b : Money) : Decidable (a < b) :=
  inferInstanceAs (Decidable (a.milliunits < b.milliunits))
instance (a b : Money) : Decidable (a ≤ b) :=
  inferInstanceAs (Decidable (a.milliunits ≤ b.milliunits))

def abs (a : Money) : Money := ⟨a.milliunits.natAbs⟩

/-- A whole number of currency units. -/
def ofUnits (n : Int) : Money := ⟨n * 1000⟩

@[simp] theorem add_milliunits (a b : Money) : (a + b).milliunits = a.milliunits + b.milliunits :=
  rfl

@[simp] theorem sub_milliunits (a b : Money) : (a - b).milliunits = a.milliunits - b.milliunits :=
  rfl

@[simp] theorem neg_milliunits (a : Money) : (-a).milliunits = -a.milliunits := rfl

@[simp] theorem zero_milliunits : zero.milliunits = 0 := rfl

theorem lt_iff {a b : Money} : a < b ↔ a.milliunits < b.milliunits := .rfl

theorem le_iff {a b : Money} : a ≤ b ↔ a.milliunits ≤ b.milliunits := .rfl

theorem ext_milliunits {a b : Money} (h : a.milliunits = b.milliunits) : a = b := by
  cases a; cases b; simp only at h; rw [h]

/-- Cents of a magnitude, a half cent rounding to the even side. -/
def cents (m : Nat) : Nat :=
  if m % 10 < 5 then m / 10
  else if 5 < m % 10 then m / 10 + 1
  else if m / 10 % 2 = 0 then m / 10 else m / 10 + 1

/-- `str(amount)`: the sign leads the symbol (`-$13.07`). -/
def display (a : Money) : String :=
  let c := cents a.milliunits.natAbs
  let sign := if a.milliunits < 0 then "-" else ""
  let pad := if c % 100 < 10 then "0" else ""
  sign ++ "$" ++ toString (c / 100) ++ "." ++ pad ++ toString (c % 100)

example : display ⟨-13070⟩ = "-$13.07" := by decide

end Money

end YnabAgent
