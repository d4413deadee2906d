import YnabAgent.Lib.Substitute
import YnabAgent.Mail.Html

/-!
# The text of an HTML-only message

Some mail programs send the words only as HTML. The webhook then reads them from it: a reply's new
words stand before the quoted history, a forward's stand in the quotation (`webhook/app.py`).

`textFromHtml_of_document`: of a reply, the words above the quotation are read, whatever is quoted;
of a forward, all of them. `textFromHtml_textToHtml`: a reply in the agent's own markup is its text.
-/

namespace YnabAgent

open Lib.Markup (escape Piece source tagsOf contentOf Bracketed)
open Lib.Matcher
  (one many optional either literal lazy sub before search closedBy Consumes Shrinks UpTo)

/-- What reads the Unicode tables or the table of entities: what `(?i)` compares, where
`str.splitlines` cuts, and `html.unescape`. -/
structure HtmlReader extends CharClasses where
  fold : Char → Char
  isLineBreak : Char → Bool
  unescape : List Char → List Char
  fold_ascii : ∀ c, c.val < 128 → fold c = c.toLower
  fold_gt : ∀ c, fold c = '>' → c = '>'
  gt_not_space : isSpace '>' = false
  carriage_space : isSpace '\r' = true
  break_space : ∀ c, isLineBreak c = true → isSpace c = true
  unescape_escape : ∀ text, unescape (escape text) = text

/-- The reader of ASCII text with the entities of `html.escape`. -/
def HtmlReader.ascii : HtmlReader where
  toCharClasses := CharClasses.ascii
  fold := Char.toLower
  isLineBreak c := c = '\n' || c = '\r'
  unescape := Lib.Markup.unescape
  fold_ascii c h := rfl
  fold_gt c h := by
    unfold Char.toLower at h
    split at h
    · rename_i hupper
      have hval := congrArg Char.val h
      simp only [ge_iff_le, UInt32.le_iff_toNat_le] at hupper
      have hnat := congrArg UInt32.toNat hval
      simp at hupper hnat
      omega
    · exact h
  gt_not_space := by decide
  carriage_space := by decide
  break_space c h := by
    rcases Bool.or_eq_true_iff.1 h with h | h <;> rw [decide_eq_true_iff.1 h] <;> decide
  unescape_escape := Lib.Markup.unescape_escape

namespace Dispatch

variable (reader : HtmlReader)

/-! ## The patterns -/

/-- A word of a pattern under `(?i)`. -/
def word (letters : List Char) : Lib.Matcher Char (List Char) :=
  literal (fun a c => reader.fold a = reader.fold c) letters

/-- `<br\s*/?` -/
def lineBreak : Lib.Matcher Char Unit := do
  let _ ← one (· = '<')
  let _ ← word reader "br".toList
  let _ ← many reader.isSpace 0
  let _ ← optional (one (· = '/'))
  pure ()

/-- `</name` -/
def closing (name : List Char) : Lib.Matcher Char Unit := do
  let _ ← one (· = '<')
  let _ ← one (· = '/')
  let _ ← word reader name
  pure ()

/-- The alternatives of `_HTML_BREAKS` up to the `>` they share. -/
def breakTag : Lib.Matcher Char Unit :=
  either (lineBreak reader) <| either (closing reader "p".toList) <|
    either (closing reader "div".toList) <| either (closing reader "blockquote".toList)
      (closing reader "tr".toList)

/-- `_HTML_BREAKS` -/
def htmlBreaks : Lib.Matcher Char Unit := closedBy '>' (breakTag reader)

/-- `<[^>]+` -/
def anyTag : Lib.Matcher Char Unit := do
  let _ ← one (· = '<')
  let _ ← many (· ≠ '>') 1
  pure ()

/-- `_HTML_TAGS` -/
def htmlTags : Lib.Matcher Char Unit := closedBy '>' anyTag

/-- `(style|script|head)` -/
def hiddenName : Lib.Matcher Char (List Char) :=
  either (word reader "style".toList) <| either (word reader "script".toList)
    (word reader "head".toList)

/-- `_HTML_INVISIBLE`: what the group took is looked for again. -/
def htmlInvisible : Lib.Matcher Char Unit := do
  let _ ← one (· = '<')
  let name ← hiddenName reader
  let _ ← many (· ≠ '>') 0
  let _ ← one (· = '>')
  let _ ← lazy fun _ => true
  let _ ← one (· = '<')
  let _ ← one (· = '/')
  let _ ← word reader name
  let _ ← one (· = '>')
  pure ()

/-- `(?i)<blockquote` -/
def quotation : Lib.Matcher Char Unit := do
  let _ ← one (· = '<')
  let _ ← word reader "blockquote".toList
  pure ()

/-- `_FORWARD_MARKER` -/
def forwardMarker : Lib.Matcher Char (List Char) :=
  either (word reader "forwarded message".toList) (word reader "original message".toList)

/-! ## The text -/

/-- `str.splitlines`, in the line `line`; a carriage return and a newline are one break. -/
def splitLines (line : List Char) : List Char → List (List Char)
  | [] => if line = [] then [] else [line]
  | '\r' :: '\n' :: s => line :: splitLines [] s
  | c :: s => if reader.isLineBreak c then line :: splitLines [] s else splitLines (line ++ [c]) s

/-- An HTML fragment reduced to readable lines. -/
def plainText (fragment : List Char) : List Char :=
  let visible := sub (htmlInvisible reader) [' '] fragment
  let text := sub htmlTags [' '] (sub (htmlBreaks reader) ['\n'] visible)
  let lines := (splitLines reader [] (reader.unescape text)).map (Lib.trim reader.isSpace)
  Lib.trim reader.isSpace (['\n'].intercalate (lines.filter (· ≠ [])))

/-- Plain text salvaged from an HTML-only message. -/
def textFromHtml : Option (List Char) → List Char
  | none => []
  | some htmlPart =>
    if htmlPart = [] then []
    else
      let headText := plainText reader (before (quotation reader) htmlPart)
      if headText = [] ∨ (search (forwardMarker reader) headText).isSome then
        plainText reader htmlPart
      else headText

/-! ## Readable documents -/

/-- A document of tags and texts none of whose tags opens a hidden element. -/
structure Readable (pieces : List Piece) : Prop where
  bracketed : Bracketed pieces
  named : ∀ name ∈ tagsOf pieces, name ≠ []
  visible : ∀ name ∈ tagsOf pieces, hiddenName reader (name ++ ['>']) = []

/-- No tag of the document opens a quotation. -/
def Unquoted (pieces : List Piece) : Prop :=
  ∀ name ∈ tagsOf pieces, word reader "blockquote".toList (name ++ ['>']) = []

section patterns
variable {reader}

theorem fold_gt : reader.fold '>' = '>' :=
  reader.fold_ascii '>' (by decide)

/-- A word without a bracket is looked for up to the end of the tag only. -/
theorem word_upTo {letters : List Char} (h : '>' ∉ letters) : UpTo '>' (word reader letters) := by
  refine UpTo.literal fun a ha => ?_
  rw [decide_eq_false_iff_not, fold_gt]
  intro hfold
  rw [reader.fold_gt a hfold] at ha
  exact h ha

theorem hiddenName_upTo : UpTo '>' (hiddenName reader) :=
  (word_upTo (by decide)).either ((word_upTo (by decide)).either (word_upTo (by decide)))

/-- What is found up to the end of a tag does not depend on what follows it. -/
theorem eq_nil_of_upTo {β : Type} {m : Lib.Matcher Char β} (hm : UpTo '>' m) {name : List Char}
    (hname : '>' ∉ name) (h : m (name ++ ['>']) = []) (s : List Char) :
    m (name ++ '>' :: s) = [] := by
  obtain ⟨rs, -, heq⟩ := hm name hname
  have hnil := heq []
  rw [h] at hnil
  rw [heq, List.map_eq_nil_iff.1 hnil.symm]
  rfl

theorem closing_upTo {name : List Char} (h : '>' ∉ name) : UpTo '>' (closing reader name) :=
  (UpTo.one (by decide)).bind fun _ => (UpTo.one (by decide)).bind fun _ =>
    (word_upTo h).bind fun _ => UpTo.pure _ _

theorem lineBreak_upTo : UpTo '>' (lineBreak reader) :=
  (UpTo.one (by decide)).bind fun _ => (word_upTo (by decide)).bind fun _ =>
    (UpTo.many reader.gt_not_space 0).bind fun _ =>
      (UpTo.one (by decide)).optional.bind fun _ => UpTo.pure _ _

theorem breakTag_upTo : UpTo '>' (breakTag reader) :=
  lineBreak_upTo.either <| (closing_upTo (by decide)).either <| (closing_upTo (by decide)).either <|
    (closing_upTo (by decide)).either (closing_upTo (by decide))

theorem anyTag_upTo : UpTo '>' anyTag :=
  (UpTo.one (by decide)).bind fun _ => (UpTo.many (by decide) 1).bind fun _ => UpTo.pure _ _

theorem one_shrinks (p : Char → Bool) : Shrinks (one p) :=
  (Lib.Matcher.one_consumes p).shrinks

theorem word_shrinks (letters : List Char) : Shrinks (word reader letters) :=
  Lib.Matcher.literal_shrinks _ _

theorem closing_shrinks (name : List Char) : Shrinks (closing reader name) :=
  (one_shrinks _).bind fun _ => (one_shrinks _).bind fun _ => (word_shrinks name).bind fun _ =>
    Shrinks.pure ()

theorem lineBreak_shrinks : Shrinks (lineBreak reader) :=
  (one_shrinks _).bind fun _ => (word_shrinks _).bind fun _ =>
    (Lib.Matcher.many_shrinks _ _).bind fun _ => (one_shrinks _).optional.bind fun _ =>
      Shrinks.pure ()

theorem breakTag_shrinks : Shrinks (breakTag reader) :=
  lineBreak_shrinks.either <| (closing_shrinks _).either <| (closing_shrinks _).either <|
    (closing_shrinks _).either (closing_shrinks _)

theorem anyTag_shrinks : Shrinks anyTag :=
  (one_shrinks _).bind fun _ => (Lib.Matcher.many_shrinks _ _).bind fun _ => Shrinks.pure ()

theorem breakTag_opens : Lib.Markup.Opens (breakTag reader) :=
  Lib.Markup.opens_one.bind.either <| Lib.Markup.opens_one.bind.either <|
    Lib.Markup.opens_one.bind.either <| Lib.Markup.opens_one.bind.either Lib.Markup.opens_one.bind

theorem htmlInvisible_consumes : Consumes (htmlInvisible reader) := by
  refine (Lib.Matcher.one_consumes _).bind fun _ => ?_
  refine ((word_shrinks _).either ((word_shrinks _).either (word_shrinks _))).bind fun name => ?_
  refine (Lib.Matcher.many_shrinks _ _).bind fun _ => (one_shrinks _).bind fun _ => ?_
  refine (Lib.Matcher.lazy_shrinks _).bind fun _ => (one_shrinks _).bind fun _ => ?_
  refine (one_shrinks _).bind fun _ => (word_shrinks name).bind fun _ => ?_
  exact (one_shrinks _).bind fun _ => Shrinks.pure ()

/-- A tag that names no hidden element is not where one begins. -/
theorem htmlInvisible_tag {name : List Char} (hname : '>' ∉ name)
    (h : hiddenName reader (name ++ ['>']) = []) (s : List Char) :
    htmlInvisible reader ('<' :: (name ++ '>' :: s)) = [] := by
  unfold htmlInvisible
  rw [Lib.Matcher.bind_one_cons (by decide)]
  exact Lib.Matcher.bind_of_nil (eq_nil_of_upTo hiddenName_upTo hname h s)

theorem quotation_tag {name : List Char} (hname : '>' ∉ name)
    (h : word reader "blockquote".toList (name ++ ['>']) = []) (s : List Char) :
    quotation reader ('<' :: (name ++ '>' :: s)) = [] := by
  unfold quotation
  rw [Lib.Matcher.bind_one_cons (by decide)]
  exact Lib.Matcher.bind_of_nil (eq_nil_of_upTo (word_upTo (by decide)) hname h s)

/-- `_HTML_TAGS` takes every tag with a name. -/
theorem htmlTags_tag {name : List Char} (hname : '>' ∉ name) (hne : name ≠ []) :
    (htmlTags (Piece.tag name).source).head?.isSome = true := by
  have hrun : ∀ c ∈ name, (decide (c ≠ '>')) = true := by
    intro c hc
    rw [decide_eq_true_iff]
    rintro rfl
    exact hname hc
  have hmany : (many (· ≠ '>') 1 (name ++ ['>'])).head? = some (name, ['>']) := by
    have hlo : 1 ≤ min (name ++ ['>']).length name.length := by
      have hpos := List.length_pos_iff.2 hne
      rw [List.length_append]
      omega
    have hlen : name.length ≤ (name ++ ['>']).length := by
      rw [List.length_append]
      omega
    refine (Lib.Matcher.head?_greedy_run hrun (by simp) hlo).trans ?_
    rw [List.take_of_length_le hlen, List.drop_of_length_le hlen]
    rfl
  have hinner : ((many (· ≠ '>') 1 >>= fun _ => (pure () : Lib.Matcher Char Unit))
      (name ++ ['>'])).head? = some ((), ['>']) := by
    rw [Lib.Matcher.head?_bind hmany (List.cons_ne_nil _ _)]
    rfl
  have hopen : (anyTag ('<' :: (name ++ ['>']))).head? = some ((), ['>']) := by
    unfold anyTag
    rw [Lib.Matcher.bind_one_cons (by decide)]
    exact hinner
  unfold htmlTags closedBy Piece.source
  rw [Lib.Matcher.head?_bind hopen (List.cons_ne_nil _ _)]
  rfl

/-! ## What is read of a document -/

/-- The break tags. -/
def isBreak (reader : HtmlReader) (name : List Char) : Bool :=
  (htmlBreaks reader (Piece.tag name).source).head?.isSome

/-- A document with its break tags as newlines and the others as blanks. -/
def linesOf (reader : HtmlReader) (pieces : List Piece) : List Piece :=
  (pieces.map (Piece.replace (isBreak reader) ['\n'])).map (Piece.replace (fun _ => true) [' '])

variable {pieces : List Piece}

theorem tagsOf_replace_subset (hits : List Char → Bool) (repl : List Char) (pieces : List Piece) :
    tagsOf (pieces.map (Piece.replace hits repl)) ⊆ tagsOf pieces := by
  intro name hname
  obtain ⟨piece, hpiece, htag⟩ := List.mem_filterMap.1 hname
  obtain ⟨before, hbefore, rfl⟩ := List.mem_map.1 hpiece
  refine List.mem_filterMap.2 ⟨before, hbefore, ?_⟩
  cases before with
  | text content => cases htag
  | tag name' =>
    by_cases h : hits name' = true
    · rw [Lib.Markup.replace_hit h] at htag
      cases htag
    · rw [Lib.Markup.replace_miss h] at htag
      exact htag

/-- No hidden element is found. -/
theorem sub_htmlInvisible (h : Readable reader pieces) :
    sub (htmlInvisible reader) [' '] (source pieces) = source pieces := by
  have hnone : ∀ name ∈ tagsOf pieces, ∀ s,
      (htmlInvisible reader ('<' :: (name ++ '>' :: s))).head?.map Prod.snd =
        if (fun _ => false) name then some s else none := by
    intro name hname s
    rw [htmlInvisible_tag (h.bracketed name hname).2 (h.visible name hname)]
    rfl
  have hopens : Lib.Markup.Opens (htmlInvisible reader) := Lib.Markup.opens_one.bind
  refine (Lib.Markup.sub_source hopens htmlInvisible_consumes (by decide) h.bracketed hnone).trans
    ?_
  refine congrArg source ((List.map_congr_left fun piece _ => ?_).trans (List.map_id pieces))
  cases piece <;> rfl

/-- The break tags become newlines. -/
theorem sub_htmlBreaks (h : Bracketed pieces) :
    sub (htmlBreaks reader) ['\n'] (source pieces) =
      source (pieces.map (Piece.replace (isBreak reader) ['\n'])) := by
  refine Lib.Markup.sub_source breakTag_opens.bind
    (Lib.Matcher.closedBy_consumes _ breakTag_shrinks)
    (by decide) h fun name hname s => ?_
  exact Lib.Markup.closedBy_tag breakTag_upTo (h name hname).2 s

/-- All tags with names become blanks. -/
theorem sub_htmlTags (h : Bracketed pieces) (hnamed : ∀ name ∈ tagsOf pieces, name ≠ []) :
    sub htmlTags [' '] (source pieces) =
      source (pieces.map (Piece.replace (fun _ => true) [' '])) := by
  have hopens : Lib.Markup.Opens anyTag := Lib.Markup.opens_one.bind
  refine Lib.Markup.sub_source hopens.bind (Lib.Matcher.closedBy_consumes _ anyTag_shrinks)
    (by decide) h fun name hname s => ?_
  have hgt := (h name hname).2
  refine (Lib.Markup.closedBy_tag anyTag_upTo hgt s).trans ?_
  rw [if_pos rfl]
  exact if_pos (htmlTags_tag hgt (hnamed name hname))

/-- What has no tags is its text, escaped. -/
theorem source_eq_escape (repl : List Char) (pieces : List Piece) :
    source (pieces.map (Piece.replace (fun _ => true) repl)) =
      escape (contentOf (pieces.map (Piece.replace (fun _ => true) repl))) := by
  induction pieces with
  | nil => rfl
  | cons piece pieces ih =>
    rw [List.map_cons, Lib.Markup.source_cons, ih]
    cases piece with
    | tag name => exact (Lib.Markup.escape_append repl _).symm
    | text content => exact (Lib.Markup.escape_append content _).symm

/-- The three substitutions leave of a document the text of its lines, escaped. -/
theorem substitutions (h : Readable reader pieces) :
    sub htmlTags [' '] (sub (htmlBreaks reader) ['\n']
        (sub (htmlInvisible reader) [' '] (source pieces))) =
      escape (contentOf (linesOf reader pieces)) := by
  have hsubset := tagsOf_replace_subset (isBreak reader) ['\n'] pieces
  rw [sub_htmlInvisible h, sub_htmlBreaks h.bracketed,
    sub_htmlTags (fun name hname => h.bracketed name (hsubset hname))
      fun name hname => h.named name (hsubset hname)]
  exact source_eq_escape _ _

/-! ## The words -/

open Html (squeeze)

theorem squeeze_append (classes : CharClasses) (s t : List Char) :
    squeeze classes (s ++ t) = squeeze classes s ++ squeeze classes t :=
  List.filter_append s t

theorem squeeze_dropWhile (classes : CharClasses) (s : List Char) :
    squeeze classes (s.dropWhile classes.isSpace) = squeeze classes s := by
  induction s with
  | nil => rfl
  | cons c s ih =>
    by_cases hc : classes.isSpace c = true
    · rw [List.dropWhile_cons_of_pos hc, ih]
      unfold squeeze
      rw [List.filter_cons_of_neg (by simp [hc])]
    · rw [List.dropWhile_cons_of_neg hc]

/-- Stripping takes blanks only. -/
theorem squeeze_trim (classes : CharClasses) (s : List Char) :
    squeeze classes (Lib.trim classes.isSpace s) = squeeze classes s := by
  have hreverse : ∀ t : List Char, squeeze classes t.reverse = (squeeze classes t).reverse :=
    fun t => List.filter_reverse
  unfold Lib.trim List.rdropWhile
  rw [hreverse, squeeze_dropWhile, hreverse, List.reverse_reverse, squeeze_dropWhile]

theorem squeeze_blank {classes : CharClasses} {c : Char} (h : classes.isSpace c = true)
    (s : List Char) : squeeze classes (c :: s) = squeeze classes s :=
  List.filter_cons_of_neg (by simp [h])

/-- Cutting into lines drops blanks only. -/
theorem squeeze_splitLines (line s : List Char) :
    squeeze reader.toCharClasses (splitLines reader line s).flatten =
      squeeze reader.toCharClasses (line ++ s) := by
  induction line, s using splitLines.induct reader with
  | case1 => simp [splitLines]
  | case2 line hline => simp [splitLines, hline]
  | case3 line s ih =>
    rw [splitLines, List.flatten_cons, squeeze_append, ih, List.nil_append, squeeze_append,
      squeeze_blank reader.carriage_space, squeeze_blank reader.newline]
  | case4 line c s hne hbreak ih =>
    rw [splitLines, if_pos hbreak, List.flatten_cons, squeeze_append, ih, List.nil_append,
      squeeze_append, squeeze_blank (reader.break_space c hbreak)]
    exact hne
  | case5 line c s hne hbreak ih =>
    rw [splitLines, if_neg hbreak, ih, List.append_assoc]
    · rfl
    · exact hne

theorem squeeze_linesOf (pieces : List Piece) :
    squeeze reader.toCharClasses (contentOf (linesOf reader pieces)) =
      squeeze reader.toCharClasses (contentOf pieces) := by
  unfold linesOf
  induction pieces with
  | nil => rfl
  | cons piece pieces ih =>
    rw [List.map_cons, List.map_cons]
    show squeeze _ (_ ++ contentOf (List.map _ (List.map _ pieces))) =
      squeeze _ (_ ++ contentOf pieces)
    rw [squeeze_append, squeeze_append, ih]
    congr 1
    cases piece with
    | text content => rfl
    | tag name =>
      by_cases h : isBreak reader name = true
      · rw [Lib.Markup.replace_hit h]
        exact squeeze_blank reader.newline []
      · rw [Lib.Markup.replace_miss h, Lib.Markup.replace_hit rfl]
        exact squeeze_blank reader.space []

/-- The lines of a text have its words. -/
theorem squeeze_lines (text : List Char) :
    squeeze reader.toCharClasses (['\n'].intercalate
        (((splitLines reader [] text).map (Lib.trim reader.isSpace)).filter (· ≠ []))) =
      squeeze reader.toCharClasses text := by
  have hnewline : squeeze reader.toCharClasses ['\n'] = [] := squeeze_blank reader.newline []
  refine (Lib.filter_intercalate hnewline _).trans ?_
  rw [List.flatten_filter_ne_nil]
  have htrim : ∀ lines : List (List Char),
      squeeze reader.toCharClasses (lines.map (Lib.trim reader.isSpace)).flatten =
        squeeze reader.toCharClasses lines.flatten := by
    intro lines
    induction lines with
    | nil => rfl
    | cons line lines ih =>
      rw [List.map_cons, List.flatten_cons, List.flatten_cons, squeeze_append, squeeze_append, ih,
        squeeze_trim]
  exact (htrim _).trans (squeeze_splitLines [] text)

/-- **Reading a document** finds its text, blanks aside. -/
theorem squeeze_plainText (h : Readable reader pieces) :
    squeeze reader.toCharClasses (plainText reader (source pieces)) =
      squeeze reader.toCharClasses (contentOf pieces) := by
  unfold plainText
  simp only
  rw [squeeze_trim, squeeze_lines, substitutions h, reader.unescape_escape, squeeze_linesOf]

/-! ## Replies and forwards -/

/-- The words above the quotation are a reply's: there are some, and they are no
forward's preamble. -/
def IsReply (reader : HtmlReader) (head : List Piece) : Prop :=
  squeeze reader.toCharClasses (contentOf head) ≠ [] ∧
    search (forwardMarker reader) (plainText reader (source head)) = none

/-- Where a quotation begins, or nothing is left. -/
def OpensQuotation (reader : HtmlReader) (quoted : List Char) : Prop :=
  quoted = [] ∨ quotation reader quoted ≠ []

theorem before_quotation (h : Bracketed pieces) (hunquoted : Unquoted reader pieces)
    {quoted : List Char} (hquoted : OpensQuotation reader quoted) :
    before (quotation reader) (source pieces ++ quoted) = source pieces := by
  have hopens : Lib.Markup.Opens (quotation reader) := Lib.Markup.opens_one.bind
  have hnone : before (quotation reader) quoted = [] := by
    cases quoted with
    | nil => rfl
    | cons c quoted =>
      have hmatch : quotation reader (c :: quoted) ≠ [] :=
        hquoted.resolve_left (List.cons_ne_nil _ _)
      exact Lib.Matcher.before_of_some (List.head?_eq_some_head hmatch)
  rw [Lib.Markup.before_source hopens h, hnone, List.append_nil]
  exact fun name hname s => quotation_tag (h name hname).2 (hunquoted name hname) s

theorem trim_eq_nil {classes : CharClasses} {s : List Char} (h : squeeze classes s = []) :
    Lib.trim classes.isSpace s = [] := by
  have hblank : ∀ c ∈ s, classes.isSpace c = true := by
    intro c hc
    simpa using List.filter_eq_nil_iff.1 h c hc
  unfold Lib.trim
  rw [List.dropWhile_eq_nil_iff.2 hblank]
  rfl

/-- What is read has words, or is empty. -/
theorem plainText_eq_nil {fragment : List Char}
    (h : squeeze reader.toCharClasses (plainText reader fragment) = []) :
    plainText reader fragment = [] := by
  unfold plainText at h ⊢
  simp only at h ⊢
  rw [squeeze_trim] at h
  exact trim_eq_nil h

theorem readable_nil (reader : HtmlReader) : Readable reader [] := by
  constructor <;> (intro name hname; cases hname)

/-- Of a reply, the words above the quotation. -/
theorem textFromHtml_reply {head : List Piece} (h : Readable reader head)
    (hunquoted : Unquoted reader head) (hreply : IsReply reader head) {quoted : List Char}
    (hquoted : OpensQuotation reader quoted) :
    textFromHtml reader (some (source head ++ quoted)) = plainText reader (source head) := by
  have hwords := squeeze_plainText h
  have hne : source head ++ quoted ≠ [] := by
    intro hnil
    have hempty := squeeze_plainText (readable_nil reader)
    have hhead : source head = source [] := (List.append_eq_nil_iff.1 hnil).1
    rw [hhead] at hwords
    exact hreply.1 (hwords.symm.trans hempty)
  have hsome : ¬ (plainText reader (source head) = [] ∨
      (search (forwardMarker reader) (plainText reader (source head))).isSome = true) := by
    rintro (hnil | hmarker)
    · rw [hnil] at hwords
      exact hreply.1 hwords.symm
    · rw [hreply.2] at hmarker
      cases hmarker
  unfold textFromHtml
  simp only
  rw [if_neg hne, before_quotation h.bracketed hunquoted hquoted, if_neg hsome]

/-- Of anything else, the words of the whole document. -/
theorem textFromHtml_forward {head quoted : List Piece} (h : Readable reader head)
    (hunquoted : Unquoted reader head) (hforward : ¬ IsReply reader head)
    (hquoted : OpensQuotation reader (source quoted)) :
    textFromHtml reader (some (source (head ++ quoted))) =
        plainText reader (source (head ++ quoted)) ∨
      source (head ++ quoted) = [] := by
  by_cases hne : source (head ++ quoted) = []
  · exact .inr hne
  · left
    unfold textFromHtml
    simp only
    rw [if_neg hne, Lib.Markup.source_append, before_quotation h.bracketed hunquoted hquoted,
      if_pos]
    by_contra hcontra
    obtain ⟨hnonempty, hmarker⟩ := not_or.1 hcontra
    refine hforward ⟨fun hnil => hnonempty ?_, Option.not_isSome_iff_eq_none.1 hmarker⟩
    exact plainText_eq_nil ((squeeze_plainText h).trans hnil)

/-- **An HTML-only message** is read as its words: a reply's are those above the quotation, whatever
is quoted; a forward's are all of them. -/
theorem textFromHtml_of_document {head : List Piece} (h : Readable reader head)
    (hunquoted : Unquoted reader head) :
    (IsReply reader head → ∀ quoted, OpensQuotation reader quoted →
      squeeze reader.toCharClasses (textFromHtml reader (some (source head ++ quoted))) =
        squeeze reader.toCharClasses (contentOf head)) ∧
    (¬ IsReply reader head → ∀ quoted, OpensQuotation reader (source quoted) →
      Readable reader (head ++ quoted) →
      squeeze reader.toCharClasses (textFromHtml reader (some (source (head ++ quoted)))) =
        squeeze reader.toCharClasses (contentOf (head ++ quoted))) := by
  constructor
  · intro hreply quoted hquoted
    rw [textFromHtml_reply h hunquoted hreply hquoted, squeeze_plainText h]
  · intro hforward quoted hquoted hdocument
    have hall := squeeze_plainText hdocument
    rcases textFromHtml_forward h hunquoted hforward hquoted with htext | hnil
    · rw [htext, hall]
    · rw [hnil] at hall ⊢
      exact ((squeeze_plainText (readable_nil reader)).symm.trans hall)

/-- A "yes" in a paragraph of its own. -/
def yesParagraph : List Piece := [.tag "p".toList, .text "Yes, please".toList, .tag "/p".toList]

theorem yesParagraph_readable : Readable HtmlReader.ascii yesParagraph where
  bracketed := by unfold Bracketed; decide
  named := by decide
  visible := by decide

/-- Above a quotation, the "yes" is all that is read. -/
theorem yes_reply :
    squeeze CharClasses.ascii (textFromHtml HtmlReader.ascii
        (some (source yesParagraph ++ "<blockquote><p>May I?</p></blockquote>".toList))) =
      "Yes,please".toList := by
  have hreply : IsReply HtmlReader.ascii yesParagraph := by
    constructor
    · decide
    · decide +kernel
  have hquoted : OpensQuotation HtmlReader.ascii "<blockquote><p>May I?</p></blockquote>".toList :=
    .inr (by decide)
  have hunquoted : Unquoted HtmlReader.ascii yesParagraph := by unfold Unquoted; decide
  exact (textFromHtml_of_document yesParagraph_readable hunquoted).1 hreply _ hquoted

/-! ## The agent's own pages -/

/-- A word of at least two ASCII letters is not found where another pair begins. -/
theorem word_of_ne {a b c d : Char} (hascii : ∀ x ∈ [a, b, c, d], x.val < 128)
    (h : a.toLower ≠ c.toLower ∨ b.toLower ≠ d.toLower) (letters s : List Char) :
    word reader (a :: b :: letters) (c :: d :: s) = [] := by
  have hfold : ∀ x ∈ [a, b, c, d], reader.fold x = x.toLower :=
    fun x hx => reader.fold_ascii x (hascii x hx)
  unfold word
  rw [Lib.Matcher.literal_cons]
  by_cases hac : reader.fold a = reader.fold c
  · rw [if_pos (decide_eq_true hac), Lib.Matcher.literal_cons]
    have hbd : ¬ reader.fold b = reader.fold d := by
      rw [hfold a (by simp), hfold c (by simp)] at hac
      rw [hfold b (by simp), hfold d (by simp)]
      exact h.resolve_left fun hne => hne hac
    rw [if_neg (by simpa using hbd)]
    rfl
  · rw [if_neg (by simpa using hac)]

/-- How the tags of the templates begin. -/
def templateHeads : List (Char × Char) :=
  [('d', 'i'), ('p', ' '), ('b', 'r'), ('/', 'p'), ('s', 'p'), ('/', 's'), ('/', 'd')]

theorem templates_heads : ∀ name ∈ Html.templates,
    name.head?.bind (fun c => name.tail.head?.map fun d => (c, d)) ∈ templateHeads.map some := by
  decide +kernel

theorem lt_not_mem_templates : ∀ name ∈ Html.templates, '<' ∉ name := by
  decide +kernel

theorem template_head {name : List Char} (h : name ∈ Html.templates) :
    ∃ e ∈ templateHeads, ∃ rest, name = e.1 :: e.2 :: rest := by
  obtain ⟨e, he, heq⟩ := List.mem_map.1 (templates_heads name h)
  refine ⟨e, he, ?_⟩
  cases name with
  | nil => cases heq
  | cons c name =>
    cases name with
    | nil => cases heq
    | cons d rest =>
      cases heq
      exact ⟨rest, rfl⟩

/-- How the names of hidden elements and of a quotation begin. -/
def hiddenHeads : List (Char × Char) := [('s', 't'), ('s', 'c'), ('h', 'e'), ('b', 'l')]

def asciiHead (e : Char × Char) : Bool := e.1.val < 128 && e.2.val < 128

/-- The heads differ, whatever the case of their letters. -/
def headsApart (e w : Char × Char) : Bool :=
  w.1.toLower ≠ e.1.toLower || w.2.toLower ≠ e.2.toLower

theorem templateHeads_apart :
    templateHeads.all (fun e => asciiHead e && hiddenHeads.all (headsApart e)) = true := by
  decide +kernel

theorem hiddenHeads_ascii : hiddenHeads.all asciiHead = true := by
  decide +kernel

/-- No template opens a hidden element or a quotation. -/
theorem template_readable (reader : HtmlReader) {name : List Char} (h : name ∈ Html.templates) :
    hiddenName reader (name ++ ['>']) = [] ∧
      word reader "blockquote".toList (name ++ ['>']) = [] := by
  obtain ⟨e, he, rest, rfl⟩ := template_head h
  have hhead := List.all_eq_true.1 templateHeads_apart e he
  rw [Bool.and_eq_true] at hhead
  obtain ⟨hascii, hapart⟩ := hhead
  simp only [asciiHead, Bool.and_eq_true, decide_eq_true_eq] at hascii
  have hword : ∀ w ∈ hiddenHeads, ∀ letters,
      word reader (w.1 :: w.2 :: letters) (e.1 :: e.2 :: (rest ++ ['>'])) = [] := by
    intro w hw letters
    have hletters := List.all_eq_true.1 hiddenHeads_ascii w hw
    have hne := List.all_eq_true.1 hapart w hw
    simp only [asciiHead, Bool.and_eq_true, decide_eq_true_eq] at hletters
    simp only [headsApart, Bool.or_eq_true, decide_eq_true_eq] at hne
    refine word_of_ne ?_ hne letters _
    intro x hx
    simp only [List.mem_cons, List.not_mem_nil, or_false] at hx
    rcases hx with rfl | rfl | rfl | rfl
    · exact hletters.1
    · exact hletters.2
    · exact hascii.1
    · exact hascii.2
  refine ⟨?_, hword ('b', 'l') (by simp [hiddenHeads]) _⟩
  show word reader _ _ ++ (word reader _ _ ++ word reader _ _) = []
  have hstyle := hword ('s', 't') (by simp [hiddenHeads]) "yle".toList
  have hscript := hword ('s', 'c') (by simp [hiddenHeads]) "ript".toList
  have hhead := hword ('h', 'e') (by simp [hiddenHeads]) "ad".toList
  exact List.append_eq_nil_iff.2 ⟨hstyle, List.append_eq_nil_iff.2 ⟨hscript, hhead⟩⟩

theorem page_readable (reader : HtmlReader) (text : List Char) :
    Readable reader (Html.page reader.toCharClasses text) ∧
      Unquoted reader (Html.page reader.toCharClasses text) := by
  have hsubset : ∀ name ∈ tagsOf (Html.page reader.toCharClasses text), name ∈ Html.templates := by
    intro name hname
    rw [Html.tagsOf_page] at hname
    exact Html.layout_subset _ hname
  refine ⟨⟨?_, ?_, ?_⟩, ?_⟩
  · intro name hname
    exact ⟨lt_not_mem_templates name (hsubset name hname),
      Html.gt_not_mem_templates name (hsubset name hname)⟩
  · intro name hname
    obtain ⟨e, -, rest, rfl⟩ := template_head (hsubset name hname)
    exact List.cons_ne_nil _ _
  · exact fun name hname => (template_readable reader (hsubset name hname)).1
  · exact fun name hname => (template_readable reader (hsubset name hname)).2

/-- **A reply in the agent's own markup** is read back as its text, whatever mail it quotes. -/
theorem textFromHtml_textToHtml (text : String)
    (hreply : IsReply reader (Html.page reader.toCharClasses text.toList)) {quoted : List Char}
    (hquoted : OpensQuotation reader quoted) :
    ∃ shown, List.Forall₂ (Html.Shows reader.toCharClasses)
        (Html.bodies reader.toCharClasses text.toList) shown ∧
      squeeze reader.toCharClasses
          (textFromHtml reader
            (some ((Html.textToHtml reader.toCharClasses text).toList ++ quoted))) =
        squeeze reader.toCharClasses shown.flatten := by
  obtain ⟨hreadable, hunquoted⟩ := page_readable reader text.toList
  have hread := textFromHtml_reply hreadable hunquoted hreply hquoted
  refine ⟨(Html.bodies reader.toCharClasses text.toList).map (Html.blockShown reader.toCharClasses),
    ?_, ?_⟩
  · refine List.forall₂_map_right_iff.2 (List.forall₂_same.2 fun block _ => ?_)
    exact Html.shows_blockShown reader.toCharClasses block
  · rw [Html.source_page, hread, squeeze_plainText hreadable]
    exact Html.squeeze_page reader.toCharClasses text.toList

/-- A "yes" the agent's pages would show, above a quotation. -/
theorem yes_page :
    ∃ shown, List.Forall₂ (Html.Shows CharClasses.ascii)
        (Html.bodies CharClasses.ascii "Yes".toList) shown ∧
      squeeze CharClasses.ascii (textFromHtml HtmlReader.ascii
          (some ((Html.textToHtml CharClasses.ascii "Yes").toList ++
            "<blockquote>May I?".toList))) =
        squeeze CharClasses.ascii shown.flatten := by
  have hreply : IsReply HtmlReader.ascii (Html.page CharClasses.ascii "Yes".toList) := by
    constructor
    · decide +kernel
    · decide +kernel
  exact textFromHtml_textToHtml "Yes" hreply (.inr (by decide))

end patterns

end Dispatch

end YnabAgent
