import YnabAgent.Lib.Split

/-!
# Escaped text between tags

A markup document is a list of pieces, tags and texts, and its source is the tags as they are
with the texts escaped. A reader that knows nothing of the pieces, but only where a `<` opens a
tag and a `>` closes it, finds the tags and the escaped texts again (`scan_source`), and
unescaping gives the texts (`unescape_escape`).
-/

namespace Lib.Markup

/-! ## Escaping -/

def escapeChar (c : Char) : List Char :=
  if c = '&' then "&amp;".toList
  else if c = '<' then "&lt;".toList
  else if c = '>' then "&gt;".toList
  else if c = '"' then "&quot;".toList
  else if c = '\'' then "&#x27;".toList
  else [c]

/-- `html.escape(text, quote=True)` -/
def escape (text : List Char) : List Char := text.flatMap escapeChar

/-- The character references of `escape`, read. -/
def unescape : List Char → List Char
  | '&' :: 'a' :: 'm' :: 'p' :: ';' :: s => '&' :: unescape s
  | '&' :: 'l' :: 't' :: ';' :: s => '<' :: unescape s
  | '&' :: 'g' :: 't' :: ';' :: s => '>' :: unescape s
  | '&' :: 'q' :: 'u' :: 'o' :: 't' :: ';' :: s => '"' :: unescape s
  | '&' :: '#' :: 'x' :: '2' :: '7' :: ';' :: s => '\'' :: unescape s
  | c :: s => c :: unescape s
  | [] => []

theorem escape_append (first rest : List Char) :
    escape (first ++ rest) = escape first ++ escape rest :=
  List.flatMap_append

theorem escape_cons (c : Char) (s : List Char) : escape (c :: s) = escapeChar c ++ escape s := rfl

/-- A character that none of the references stands for. -/
def Plain (c : Char) : Prop := c ≠ '&' ∧ c ≠ '<' ∧ c ≠ '>' ∧ c ≠ '"' ∧ c ≠ '\''

theorem escapeChar_of_plain {c : Char} (h : Plain c) : escapeChar c = [c] := by
  obtain ⟨hamp, hlt, hgt, hquot, hapos⟩ := h
  unfold escapeChar
  rw [if_neg hamp, if_neg hlt, if_neg hgt, if_neg hquot, if_neg hapos]

theorem escape_of_plain {text : List Char} (h : ∀ c ∈ text, Plain c) : escape text = text := by
  induction text with
  | nil => rfl
  | cons c text ih =>
    rw [escape_cons, escapeChar_of_plain (h c List.mem_cons_self),
      ih fun c' hc' => h c' (List.mem_cons_of_mem _ hc')]
    rfl

theorem unescape_cons {c : Char} (h : c ≠ '&') (s : List Char) :
    unescape (c :: s) = c :: unescape s := by
  simp [unescape, h]

theorem unescape_escapeChar (c : Char) (s : List Char) :
    unescape (escapeChar c ++ s) = c :: unescape s := by
  by_cases hamp : c = '&'
  · subst hamp
    rfl
  by_cases hlt : c = '<'
  · subst hlt
    rfl
  by_cases hgt : c = '>'
  · subst hgt
    rfl
  by_cases hquot : c = '"'
  · subst hquot
    rfl
  by_cases hapos : c = '\''
  · subst hapos
    rfl
  rw [escapeChar_of_plain ⟨hamp, hlt, hgt, hquot, hapos⟩]
  exact unescape_cons hamp s

/-- **Unescaping** undoes escaping. -/
theorem unescape_escape (text : List Char) : unescape (escape text) = text := by
  induction text with
  | nil => rfl
  | cons c text ih => rw [escape_cons, unescape_escapeChar, ih]

/-- A character of markup. -/
def isBracket (c : Char) : Bool := c = '<' || c = '>' || c = '"'

theorem escapeChar_safe (c : Char) : (escapeChar c).any isBracket = false := by
  unfold escapeChar
  split
  · rfl
  split
  · rfl
  split
  · rfl
  split
  · rfl
  split
  · rfl
  · rename_i hamp hlt hgt hquot hapos
    simp [isBracket, hlt, hgt, hquot]

/-- Escaped text has no bracket and no quote. -/
theorem escape_safe {text : List Char} {c : Char} (h : c ∈ escape text) :
    c ≠ '<' ∧ c ≠ '>' ∧ c ≠ '"' := by
  obtain ⟨a, -, ha⟩ := List.mem_flatMap.1 h
  have hsafe := List.any_eq_false.1 (escapeChar_safe a) c ha
  simpa [isBracket, and_assoc] using hsafe

/-! ## Pieces -/

/-- A tag, without its brackets, or a text, as it is read. -/
inductive Piece
  | tag (name : List Char)
  | text (content : List Char)
  deriving DecidableEq

namespace Piece

def source : Piece → List Char
  | tag name => '<' :: (name ++ ['>'])
  | text content => escape content

def tag? : Piece → Option (List Char)
  | tag name => some name
  | text _ => none

def content : Piece → List Char
  | tag _ => []
  | text content => content

end Piece

def source (pieces : List Piece) : List Char := pieces.flatMap Piece.source

/-- The tags of a document. -/
def tagsOf (pieces : List Piece) : List (List Char) := pieces.filterMap Piece.tag?

/-- What is read in a document. -/
def contentOf (pieces : List Piece) : List Char := pieces.flatMap Piece.content

theorem source_append (first rest : List Piece) :
    source (first ++ rest) = source first ++ source rest :=
  List.flatMap_append

theorem source_cons (p : Piece) (rest : List Piece) :
    source (p :: rest) = p.source ++ source rest :=
  rfl

theorem contentOf_append (first rest : List Piece) :
    contentOf (first ++ rest) = contentOf first ++ contentOf rest :=
  List.flatMap_append

theorem source_intercalate (sep : List Piece) (parts : List (List Piece)) :
    source (sep.intercalate parts) = (source sep).intercalate (parts.map source) :=
  Lib.flatMap_intercalate Piece.source sep parts

theorem contentOf_intercalate (sep : List Piece) (parts : List (List Piece)) :
    contentOf (sep.intercalate parts) = (contentOf sep).intercalate (parts.map contentOf) :=
  Lib.flatMap_intercalate Piece.content sep parts

theorem tagsOf_append (first rest : List Piece) :
    tagsOf (first ++ rest) = tagsOf first ++ tagsOf rest :=
  List.filterMap_append

theorem tagsOf_intercalate (sep : List Piece) (parts : List (List Piece)) :
    tagsOf (sep.intercalate parts) = (tagsOf sep).intercalate (parts.map tagsOf) := by
  have htags : tagsOf = List.flatMap fun piece => piece.tag?.toList :=
    funext (List.filterMap_eq_flatMap_toList Piece.tag?)
  rw [htags, Lib.flatMap_intercalate]

/-! ## Reading -/

/-- The tags of a source, without their brackets, and the text outside them; the reader is in the
tag with the given beginning, or outside any. -/
def scan : Option (List Char) → List Char → List (List Char) × List Char
  | _, [] => ([], [])
  | none, c :: s =>
    if c = '<' then scan (some []) s else ((scan none s).1, c :: (scan none s).2)
  | some name, c :: s =>
    if c = '>' then (name :: (scan none s).1, (scan none s).2) else scan (some (name ++ [c])) s

/-- The tags of a source. -/
def tags (s : List Char) : List (List Char) := (scan none s).1

/-- A source with its tags removed. -/
def stripTags (s : List Char) : List Char := (scan none s).2

theorem scan_lt (s : List Char) : scan none ('<' :: s) = scan (some []) s := rfl

theorem scan_gt (name s : List Char) :
    scan (some name) ('>' :: s) = (name :: (scan none s).1, (scan none s).2) := rfl

theorem scan_text {c : Char} (h : c ≠ '<') (s : List Char) :
    scan none (c :: s) = ((scan none s).1, c :: (scan none s).2) := if_neg h

theorem scan_name {c : Char} (h : c ≠ '>') (name s : List Char) :
    scan (some name) (c :: s) = scan (some (name ++ [c])) s := if_neg h

theorem scan_escape (text s : List Char) :
    scan none (escape text ++ s) = ((scan none s).1, escape text ++ (scan none s).2) := by
  have hread : ∀ safe : List Char, (∀ c ∈ safe, c ≠ '<') →
      scan none (safe ++ s) = ((scan none s).1, safe ++ (scan none s).2) := by
    intro safe hsafe
    induction safe with
    | nil => rfl
    | cons c safe ih =>
      rw [List.cons_append, scan_text (hsafe c List.mem_cons_self),
        ih fun c' hc' => hsafe c' (List.mem_cons_of_mem _ hc')]
      rfl
  exact hread _ fun c hc => (escape_safe hc).1

theorem scan_tag (begun : List Char) {name : List Char} (h : '>' ∉ name) (s : List Char) :
    scan (some begun) (name ++ '>' :: s) =
      ((begun ++ name) :: (scan none s).1, (scan none s).2) := by
  induction name generalizing begun with
  | nil =>
    rw [List.nil_append, List.append_nil, scan_gt]
  | cons c name ih =>
    have hc : c ≠ '>' := by
      rintro rfl
      exact h List.mem_cons_self
    rw [List.cons_append, scan_name hc, ih (begun ++ [c]) fun hmem =>
      h (List.mem_cons_of_mem _ hmem), List.append_assoc]
    rfl

/-- **Reading a document** finds its tags, and its texts escaped. -/
theorem scan_source {pieces : List Piece} (h : ∀ name ∈ tagsOf pieces, '>' ∉ name) :
    scan none (source pieces) = (tagsOf pieces, escape (contentOf pieces)) := by
  induction pieces with
  | nil => rfl
  | cons piece pieces ih =>
    cases piece with
    | tag name =>
      have hname : '>' ∉ name := h name List.mem_cons_self
      have hrest := ih fun name' hname' => h name' (List.mem_cons_of_mem _ hname')
      have hsource : source (.tag name :: pieces) = '<' :: (name ++ '>' :: source pieces) := by
        rw [source_cons]
        show '<' :: (name ++ ['>']) ++ source pieces = _
        rw [List.cons_append, List.append_assoc]
        rfl
      rw [hsource, scan_lt, scan_tag [] hname, hrest]
      rfl
    | text content =>
      have hrest := ih h
      rw [source_cons]
      show scan none (escape content ++ source pieces) = _
      rw [scan_escape, hrest]
      show (tagsOf pieces, escape content ++ escape (contentOf pieces)) =
        (tagsOf pieces, escape (content ++ contentOf pieces))
      rw [escape_append]

theorem tags_source {pieces : List Piece} (h : ∀ name ∈ tagsOf pieces, '>' ∉ name) :
    tags (source pieces) = tagsOf pieces := by
  unfold tags
  rw [scan_source h]

theorem stripTags_source {pieces : List Piece} (h : ∀ name ∈ tagsOf pieces, '>' ∉ name) :
    stripTags (source pieces) = escape (contentOf pieces) := by
  unfold stripTags
  rw [scan_source h]

end Lib.Markup
