import Mathlib.Data.List.Forall2
import YnabAgent.Lib.Markup
import YnabAgent.Lib.Regex
import YnabAgent.Lib.Split
import YnabAgent.Lib.Trim

/-!
# The HTML part of an email

The rendering of a plain text (`mail/html.py`): blank lines separate blocks, a block whose lines are
all numbered becomes rows of options, any other a paragraph, and every text is escaped where it is
put into its template. `textToHtml_safe`: the tags depend on the shapes of the blocks alone, and
without them the text is read again.
-/

namespace YnabAgent

open Lib.Markup (escape unescape Piece source tagsOf contentOf tags stripTags)

/-- The characters `\s` and `str.strip` take for blank, and those `\d` matches. -/
structure CharClasses where
  isSpace : Char → Bool
  isDigit : Char → Bool
  space : isSpace ' ' = true
  newline : isSpace '\n' = true
  digit_plain : ∀ c, isDigit c = true → Lib.Markup.Plain c

/-- The classes on ASCII. -/
def CharClasses.ascii : CharClasses where
  isSpace := Char.isWhitespace
  isDigit := Char.isDigit
  space := by decide
  newline := by decide
  digit_plain := by
    intro c h
    refine ⟨?_, ?_, ?_, ?_, ?_⟩ <;> (rintro rfl; revert h; decide)

namespace Html

/-! ## Templates -/

def ink : String := "#1f2937"
def muted : String := "#6b7280"
def font : String :=
  "-apple-system,BlinkMacSystemFont,'Segoe UI',Roboto,Helvetica,Arial,sans-serif"

def columnTag : List Char :=
  ("div style=\"font-family:" ++ font ++ ";color:" ++ ink ++
    ";font-size:14px;line-height:1.55;max-width:560px;\"").toList
def paragraphTag : List Char := "p style=\"margin:0 0 14px;\"".toList
def rowTag : List Char := "div style=\"margin:0 0 10px;\"".toList
def numberTag : List Char := "span style=\"font-weight:700;\"".toList
def labelTag : List Char := "span style=\"font-weight:600;\"".toList
def restTag : List Char :=
  ("div style=\"font-size:13px;color:" ++ muted ++ ";margin-left:1.5em;\"").toList

/-- A tag with its brackets. -/
def tag (name : List Char) : List Char := '<' :: (name ++ ['>'])

/-- The shell around the blocks. -/
def wrapEmail (blocks : List (List Char)) : List Char :=
  [tag columnTag, ['\n'].intercalate (blocks.filter (· ≠ [])), tag "/div".toList].flatten

/-! ## Blocks -/

section blocks
variable (classes : CharClasses)

/-- `^(\d+)\.\s+(.*)$`, with its two groups. -/
def numberedLine : Lib.Matcher Char (List Char × List Char) := do
  let number ← Lib.Matcher.many classes.isDigit 1
  let _ ← Lib.Matcher.one (· = '.')
  let _ ← Lib.Matcher.many classes.isSpace 1
  let content ← Lib.Matcher.many (· ≠ '\n') 0
  let _ ← Lib.Matcher.atEnd (· = '\n')
  pure (number, content)

/-- The groups of `_NUMBERED.match(line)`. -/
def numbered (line : List Char) : Option (List Char × List Char) :=
  (numberedLine classes line).head?.map (·.1)

/-- `content.partition(" — ")`: the label, and what follows a separator. -/
def partition (content : List Char) : List Char × Option (List Char) :=
  match Lib.cutAt " — ".toList content with
  | some r => (r.1, some r.2)
  | none => (content, none)

def breakLines (block : List Char) : List Char :=
  (tag "br".toList).intercalate ((Lib.split ['\n'] block).map escape)

/-- The part of an option behind its separator. -/
def restHtml : Option (List Char) → List Char
  | some rest => [tag restTag, escape rest, tag "/div".toList].flatten
  | none => []

def optionRow (line : List Char) : List Char :=
  match numbered classes line with
  | none => [tag paragraphTag, escape line, tag "/p".toList].flatten
  | some (number, content) =>
    [tag rowTag,
      tag "div".toList, tag numberTag, number, ['.'], tag "/span".toList, [' '],
      tag labelTag, escape (partition content).1, tag "/span".toList, tag "/div".toList,
      restHtml (partition content).2,
      tag "/div".toList].flatten

/-- Blocks between blank lines as paragraphs, numbered ones as options. -/
def paragraphs (text : List Char) : List Char :=
  ['\n'].intercalate <| (Lib.split ['\n', '\n'] text).flatMap fun block =>
    if Lib.trim classes.isSpace block = [] then []
    else
      let lines := Lib.split ['\n'] block
      if lines.all fun line => (numbered classes line).isSome then lines.map (optionRow classes)
      else [[tag paragraphTag, breakLines block, tag "/p".toList].flatten]

/-- A rendering of any plain-text body. -/
def textToHtml (text : String) : String :=
  String.ofList (wrapEmail [paragraphs classes text.toList])

end blocks

/-! ## Pieces -/

def restPieces : Option (List Char) → List Piece
  | some rest => [.tag restTag, .text rest, .tag "/div".toList]
  | none => []

/-- The template of an option. -/
def rowPieces (number label : List Char) (rest? : Option (List Char)) : List Piece :=
  [.tag rowTag, .tag "div".toList, .tag numberTag, .text number, .text ['.'], .tag "/span".toList,
      .text [' '], .tag labelTag, .text label, .tag "/span".toList, .tag "/div".toList] ++
    (restPieces rest? ++ [.tag "/div".toList])

/-- The template of a paragraph. -/
def paragraphPieces (lines : List (List Char)) : List Piece :=
  .tag paragraphTag :: ([.tag "br".toList].intercalate (lines.map fun line => [.text line]) ++
    [.tag "/p".toList])

section pieces
variable (classes : CharClasses)

def linePieces (line : List Char) : List Piece :=
  match numbered classes line with
  | none => paragraphPieces [line]
  | some (number, content) => rowPieces number (partition content).1 (partition content).2

/-- Every line of the block is numbered. -/
def Options (block : List Char) : Prop :=
  ∀ line ∈ Lib.split ['\n'] block, (numbered classes line).isSome = true

instance (block : List Char) : Decidable (Options classes block) :=
  inferInstanceAs (Decidable (∀ line ∈ Lib.split ['\n'] block, (numbered classes line).isSome =
    true))

/-- The blocks of a text that are not blank. -/
def bodies (text : List Char) : List (List Char) :=
  (Lib.split ['\n', '\n'] text).filter fun block => Lib.trim classes.isSpace block ≠ []

/-- The elements a block is laid out in. -/
def blockPieces (block : List Char) : List (List Piece) :=
  if Options classes block then (Lib.split ['\n'] block).map (linePieces classes)
  else [paragraphPieces (Lib.split ['\n'] block)]

/-- The document of a text. -/
def page (text : List Char) : List Piece :=
  .tag columnTag ::
  ([.text ['\n']].intercalate ((bodies classes text).flatMap (blockPieces classes)) ++
    [.tag "/div".toList])

variable {classes} {block line : List Char} {text : List Char}

/-- What `_NUMBERED` captures of a line, and what it leaves out. -/
theorem numbered_eq_some {number content : List Char}
    (h : numbered classes line = some (number, content))
    (hline : '\n' ∉ line) : (∀ c ∈ number, classes.isDigit c = true) ∧
      ∃ spaces, (∀ c ∈ spaces, classes.isSpace c = true) ∧
        line = number ++ '.' :: (spaces ++ content) := by
  obtain ⟨r, hr, heq⟩ := Option.map_eq_some_iff.1 h
  have hmem := List.mem_of_mem_head? hr
  obtain ⟨q₁, h₁, hmem⟩ := Lib.Matcher.mem_bind.1 hmem
  obtain ⟨q₂, h₂, hmem⟩ := Lib.Matcher.mem_bind.1 hmem
  obtain ⟨q₃, h₃, hmem⟩ := Lib.Matcher.mem_bind.1 hmem
  obtain ⟨q₄, h₄, hmem⟩ := Lib.Matcher.mem_bind.1 hmem
  obtain ⟨q₅, h₅, hmem⟩ := Lib.Matcher.mem_bind.1 hmem
  rw [List.mem_singleton.1 hmem] at heq
  cases heq
  obtain ⟨hline₁, hdigits⟩ := Lib.Matcher.mem_many h₁
  obtain ⟨point, hpoint, hline₂⟩ := Lib.Matcher.mem_one h₂
  obtain ⟨hline₃, hspaces⟩ := Lib.Matcher.mem_many h₃
  obtain ⟨hline₄, -⟩ := Lib.Matcher.mem_many h₄
  rw [hline₂, hline₃, hline₄, of_decide_eq_true hpoint] at hline₁
  have hend : q₄.2 = [] := by
    rcases Lib.Matcher.mem_atEnd h₅ with hnil | ⟨c, hc, hlast⟩
    · exact hnil
    · refine absurd ?_ hline
      rw [hline₁, hlast, of_decide_eq_true hc]
      simp
  rw [hend, List.append_nil] at hline₁
  exact ⟨hdigits, q₃.1, hspaces, hline₁⟩

example : numbered .ascii "2.  Gas — 40".toList = some (['2'], "Gas — 40".toList) := by
  decide +kernel

/-- What `content.partition` gives, joined, is the content. -/
theorem partition_eq (content : List Char) :
    (∃ rest, (partition content).2 = some rest ∧
      content = (partition content).1 ++ (" — ".toList ++ rest)) ∨
    (partition content).2 = none ∧ content = (partition content).1 := by
  unfold partition
  cases hcut : Lib.cutAt " — ".toList content with
  | none => exact .inr ⟨rfl, rfl⟩
  | some r => exact .inl ⟨r.2, rfl, Lib.cutAt_eq_some hcut⟩

/-- The label has no separator. -/
theorem cutAt_label (content : List Char) :
    Lib.cutAt " — ".toList (partition content).1 = none := by
  unfold partition
  cases hcut : Lib.cutAt " — ".toList content with
  | none => exact hcut
  | some r => exact Lib.cutAt_before (by decide) hcut

/-! ## The source of the pieces -/

theorem source_tag (name : List Char) (rest : List Piece) :
    source (.tag name :: rest) = tag name ++ source rest := rfl

theorem source_text (content : List Char) (rest : List Piece) :
    source (.text content :: rest) = escape content ++ source rest := rfl

theorem source_paragraph (lines : List (List Char)) : source (paragraphPieces lines) =
    [tag paragraphTag, (tag "br".toList).intercalate (lines.map escape),
      tag "/p".toList].flatten := by
  have hlines : source ([.tag "br".toList].intercalate (lines.map fun line => [.text line])) =
      (tag "br".toList).intercalate (lines.map escape) := by
    rw [Lib.Markup.source_intercalate, List.map_map, source_tag]
    have hbreak : tag "br".toList ++ source [] = tag "br".toList := List.append_nil _
    rw [hbreak]
    refine congrArg _ (List.map_congr_left fun line _ => ?_)
    exact List.append_nil _
  unfold paragraphPieces
  rw [source_tag, Lib.Markup.source_append, hlines]
  simp only [List.flatten_cons, List.flatten_nil]
  rfl

theorem source_rest (rest? : Option (List Char)) : source (restPieces rest?) = restHtml rest? := by
  cases rest? with
  | none => rfl
  | some rest =>
    unfold restPieces restHtml
    simp only [source_tag, source_text, List.flatten_cons, List.flatten_nil]
    rfl

theorem source_row {number : List Char} (hnumber : ∀ c ∈ number, classes.isDigit c = true)
    (label : List Char) (rest? : Option (List Char)) : source (rowPieces number label rest?) =
      [tag rowTag,
        tag "div".toList, tag numberTag, number, ['.'], tag "/span".toList, [' '],
        tag labelTag, escape label, tag "/span".toList, tag "/div".toList, restHtml rest?,
        tag "/div".toList].flatten := by
  have hplain : escape number = number :=
    Lib.Markup.escape_of_plain fun c hc => classes.digit_plain c (hnumber c hc)
  have hpoint : escape ['.'] = ['.'] := rfl
  have hspace : escape [' '] = [' '] := rfl
  unfold rowPieces
  simp only [List.cons_append, List.nil_append, source_tag, source_text, hplain, hpoint, hspace,
    List.flatten_cons, List.flatten_nil, Lib.Markup.source_append, source_rest]
  rfl

theorem source_line (hline : '\n' ∉ line) :
    source (linePieces classes line) = optionRow classes line := by
  unfold linePieces optionRow
  cases hnumbered : numbered classes line with
  | none =>
    simp only [source_paragraph, List.map_singleton, List.intercalate_singleton]
  | some groups =>
    obtain ⟨number, content⟩ := groups
    exact source_row (numbered_eq_some hnumbered hline).1 _ _

/-- The lines of a block have no newline. -/
theorem newline_not_mem (h : line ∈ Lib.split ['\n'] block) : '\n' ∉ line :=
  Lib.not_mem_of_cutAt (Lib.cutAt_of_mem_split (List.cons_ne_nil _ _) h)

theorem source_block (classes : CharClasses) (block : List Char) :
    (blockPieces classes block).map source =
      if (Lib.split ['\n'] block).all fun line => (numbered classes line).isSome then
        (Lib.split ['\n'] block).map (optionRow classes)
      else [[tag paragraphTag, breakLines block, tag "/p".toList].flatten] := by
  unfold blockPieces
  by_cases hoptions : Options classes block
  · rw [if_pos hoptions, if_pos (List.all_eq_true.2 hoptions), List.map_map]
    exact List.map_congr_left fun line hline => source_line (newline_not_mem hline)
  · rw [if_neg hoptions, if_neg (fun h => hoptions (List.all_eq_true.1 h)), List.map_singleton,
      source_paragraph]
    rfl

/-- **The page** of a text is its HTML. -/
theorem source_page (classes : CharClasses) (text : String) :
    (textToHtml classes text).toList = source (page classes text.toList) := by
  have hparagraphs : paragraphs classes text.toList = source ([.text ['\n']].intercalate
      ((bodies classes text.toList).flatMap (blockPieces classes))) := by
    unfold paragraphs bodies
    rw [Lib.Markup.source_intercalate, List.map_flatMap, Lib.flatMap_filter]
    refine congrArg _ (List.flatMap_congr fun block _ => ?_)
    by_cases hblank : Lib.trim classes.isSpace block = []
    · simp [hblank]
    · simp only [hblank, source_block, if_false, ne_eq, not_false_eq_true, decide_true, if_true]
  have hinner : ∀ inner : List Char, ['\n'].intercalate ([inner].filter (· ≠ [])) = inner := by
    intro inner
    by_cases hnil : inner = []
    · rw [hnil]
      rfl
    · have hkept : [inner].filter (· ≠ []) = [inner] :=
        List.filter_cons_of_pos (decide_eq_true hnil)
      rw [hkept]
      exact List.intercalate_singleton
  unfold textToHtml wrapEmail page
  rw [String.toList_ofList, hinner, hparagraphs, source_tag, Lib.Markup.source_append]
  simp only [List.flatten_cons, List.flatten_nil]
  rfl

/-! ## The tags -/

/-- The elements of a block, without their texts: a paragraph by its line breaks, an option by
whether something follows its separator. -/
inductive Shape
  | paragraph (breaks : Nat)
  | option (rest : Bool)

def Shape.tags : Shape → List (List Char)
  | paragraph breaks => paragraphTag :: (List.replicate breaks "br".toList ++ ["/p".toList])
  | option rest =>
    [rowTag, "div".toList, numberTag, "/span".toList, labelTag, "/span".toList, "/div".toList] ++
      ((if rest then [restTag, "/div".toList] else []) ++ ["/div".toList])

/-- Whether an option has something behind its separator. -/
def hasRest (classes : CharClasses) (line : List Char) : Bool :=
  (numbered classes line).any fun groups => (Lib.cutAt " — ".toList groups.2).isSome

def shapes (classes : CharClasses) (block : List Char) : List Shape :=
  if Options classes block then
    (Lib.split ['\n'] block).map fun line => .option (hasRest classes line)
  else [.paragraph ((Lib.split ['\n'] block).length - 1)]

/-- The tags of an email. -/
def layout (shapes : List Shape) : List (List Char) :=
  columnTag :: (shapes.flatMap Shape.tags ++ ["/div".toList])

theorem tagsOf_paragraph (lines : List (List Char)) :
    tagsOf (paragraphPieces lines) = (Shape.paragraph (lines.length - 1)).tags := by
  have hbreaks : tagsOf ([.tag "br".toList].intercalate (lines.map fun line => [.text line])) =
      List.replicate (lines.length - 1) "br".toList := by
    rw [Lib.Markup.tagsOf_intercalate, List.map_map]
    exact Lib.intercalate_map_nil "br".toList lines
  unfold paragraphPieces
  show paragraphTag :: tagsOf (_ ++ _) = _
  rw [Lib.Markup.tagsOf_append, hbreaks]
  rfl

theorem tagsOf_line (h : (numbered classes line).isSome = true) :
    tagsOf (linePieces classes line) = (Shape.option (hasRest classes line)).tags := by
  obtain ⟨⟨number, content⟩, hnumbered⟩ := Option.isSome_iff_exists.1 h
  unfold linePieces hasRest partition
  rw [hnumbered]
  show tagsOf (rowPieces _ _ _) = (Shape.option (Lib.cutAt " — ".toList content).isSome).tags
  cases Lib.cutAt " — ".toList content with
  | none => rfl
  | some r => rfl

theorem tagsOf_block (classes : CharClasses) (block : List Char) :
    (blockPieces classes block).map tagsOf = (shapes classes block).map Shape.tags := by
  unfold blockPieces shapes
  by_cases hoptions : Options classes block
  · rw [if_pos hoptions, if_pos hoptions, List.map_map, List.map_map]
    exact List.map_congr_left fun line hline => tagsOf_line (hoptions line hline)
  · rw [if_neg hoptions, if_neg hoptions, List.map_singleton, List.map_singleton, tagsOf_paragraph]

/-- The input gives no tag, only the shapes. -/
theorem tagsOf_page (classes : CharClasses) (text : List Char) :
    tagsOf (page classes text) = layout ((bodies classes text).flatMap (shapes classes)) := by
  have hblocks :
      tagsOf ([.text ['\n']].intercalate ((bodies classes text).flatMap (blockPieces classes))) =
      ((bodies classes text).flatMap (shapes classes)).flatMap Shape.tags := by
    have hshapes : ∀ all : List Shape, all.flatMap Shape.tags = (all.map Shape.tags).flatten :=
      fun _ => List.flatMap_def
    rw [Lib.Markup.tagsOf_intercalate, List.map_flatMap, hshapes, List.map_flatMap]
    refine (Lib.intercalate_nil _).trans (congrArg _ (List.flatMap_congr fun block _ => ?_))
    exact tagsOf_block classes block
  unfold page layout
  show columnTag :: tagsOf (_ ++ _) = _
  rw [Lib.Markup.tagsOf_append, hblocks]
  rfl

/-- The tags of the templates. -/
def templates : List (List Char) :=
  [columnTag, paragraphTag, "br".toList, "/p".toList, rowTag, "div".toList, numberTag,
    "/span".toList, labelTag, restTag, "/div".toList]

theorem gt_not_mem_templates : ∀ name ∈ templates, '>' ∉ name := by
  decide +kernel

theorem Shape.tags_subset (shape : Shape) : shape.tags ⊆ templates := by
  intro name h
  cases shape with
  | paragraph breaks =>
    simp only [tags, List.mem_cons, List.mem_append, List.mem_replicate, List.not_mem_nil,
      or_false] at h
    rcases h with rfl | ⟨-, rfl⟩ | rfl <;> simp [templates]
  | option rest =>
    cases rest with
    | false =>
      simp only [tags, List.cons_append, List.nil_append, List.mem_cons, List.not_mem_nil, or_false,
        Bool.false_eq_true, if_false] at h
      rcases h with rfl | rfl | rfl | rfl | rfl | rfl | rfl | rfl <;> simp [templates]
    | true =>
      simp only [tags, List.cons_append, List.nil_append, List.mem_cons, List.not_mem_nil, or_false,
        if_true] at h
      rcases h with rfl | rfl | rfl | rfl | rfl | rfl | rfl | rfl | rfl | rfl <;> simp [templates]

theorem layout_subset (shapes : List Shape) : layout shapes ⊆ templates := by
  intro name h
  rcases List.mem_cons.1 h with heq | h
  · rw [heq]
    simp [templates]
  rcases List.mem_append.1 h with h | h
  · obtain ⟨shape, -, hname⟩ := List.mem_flatMap.1 h
    exact shape.tags_subset hname
  · cases List.mem_singleton.1 h
    simp [templates]

/-! ## The text -/

/-- The characters that are not blank. -/
def squeeze (classes : CharClasses) (s : List Char) : List Char :=
  s.filter fun c => !classes.isSpace c

/-- The row of a line `N. label — rest` has all of it but the separator, and one blank before the
label. -/
def ShowsRow (classes : CharClasses) (line shown : List Char) : Prop :=
  ∃ number spaces label separator rest : List Char,
    (∀ c ∈ number, classes.isDigit c = true) ∧ (∀ c ∈ spaces, classes.isSpace c = true) ∧
    Lib.cutAt " — ".toList label = none ∧
    (separator = " — ".toList ∨ separator = [] ∧ rest = []) ∧
    line = number ++ '.' :: (spaces ++ (label ++ (separator ++ rest))) ∧
    shown = number ++ '.' :: ' ' :: (label ++ rest)

/-- What is read of a block: its rows, or all of it. -/
def Shows (classes : CharClasses) (block shown : List Char) : Prop :=
  (Options classes block ∧ ∃ rows, List.Forall₂ (ShowsRow classes) (Lib.split ['\n'] block) rows ∧
    shown = rows.flatten) ∨
  ¬ Options classes block ∧ shown = block

theorem showsRow (hline : '\n' ∉ line) (h : (numbered classes line).isSome = true) :
    ShowsRow classes line (contentOf (linePieces classes line)) := by
  obtain ⟨⟨number, content⟩, hnumbered⟩ := Option.isSome_iff_exists.1 h
  obtain ⟨hdigits, spaces, hspaces, hline'⟩ := numbered_eq_some hnumbered hline
  have hpieces : linePieces classes line =
      rowPieces number (partition content).1 (partition content).2 := by
    unfold linePieces
    rw [hnumbered]
  rw [hpieces]
  have hlabel := cutAt_label content
  rcases partition_eq content with ⟨rest, hrest, hcontent⟩ | ⟨hrest, hcontent⟩
  · refine ⟨number, spaces, (partition content).1, " — ".toList, rest, hdigits, hspaces, hlabel,
      .inl rfl, ?_, ?_⟩
    · rw [hline', ← hcontent]
    · rw [hrest]
      simp [contentOf, rowPieces, restPieces, Piece.content]
  · refine ⟨number, spaces, (partition content).1, [], [], hdigits, hspaces, hlabel,
      .inr ⟨rfl, rfl⟩, ?_, ?_⟩
    · rw [List.append_nil, List.append_nil, ← hcontent]
      exact hline'
    · rw [hrest]
      simp [contentOf, rowPieces, restPieces, Piece.content]

theorem contentOf_paragraph (lines : List (List Char)) :
    contentOf (paragraphPieces lines) = ([] : List Char).intercalate lines := by
  have hlines : contentOf ([.tag "br".toList].intercalate (lines.map fun line => [.text line])) =
      ([] : List Char).intercalate lines := by
    rw [Lib.Markup.contentOf_intercalate, List.map_map]
    have hread : lines.map (contentOf ∘ fun line => [.text line]) = lines := by
      refine (List.map_congr_left fun line _ => ?_).trans (List.map_id lines)
      exact List.append_nil _
    rw [hread]
    rfl
  unfold paragraphPieces
  show contentOf (_ ++ _) = _
  rw [Lib.Markup.contentOf_append, hlines]
  exact List.append_nil _

/-- What is read of a block. -/
def blockShown (classes : CharClasses) (block : List Char) : List Char :=
  if Options classes block then
    ((Lib.split ['\n'] block).map fun line => contentOf (linePieces classes line)).flatten
  else block

theorem shows_blockShown (classes : CharClasses) (block : List Char) :
    Shows classes block (blockShown classes block) := by
  unfold blockShown
  by_cases hoptions : Options classes block
  · rw [if_pos hoptions]
    refine .inl ⟨hoptions, _, ?_, rfl⟩
    refine List.forall₂_map_right_iff.2 (List.forall₂_same.2 ?_)
    exact fun line hline => showsRow (newline_not_mem hline) (hoptions line hline)
  · rw [if_neg hoptions]
    exact .inr ⟨hoptions, rfl⟩

theorem squeeze_block (classes : CharClasses) (block : List Char) :
    squeeze classes ((blockPieces classes block).map contentOf).flatten =
      squeeze classes (blockShown classes block) := by
  have hnewline : squeeze classes ['\n'] = [] := by
    simp [squeeze, classes.newline]
  unfold blockPieces blockShown
  by_cases hoptions : Options classes block
  · rw [if_pos hoptions, if_pos hoptions, List.map_map]
    rfl
  · rw [if_neg hoptions, if_neg hoptions, List.map_singleton, List.flatten_singleton,
      contentOf_paragraph]
    calc squeeze classes (([] : List Char).intercalate (Lib.split ['\n'] block))
      _ = squeeze classes (Lib.split ['\n'] block).flatten := Lib.filter_intercalate rfl _
      _ = squeeze classes (['\n'].intercalate (Lib.split ['\n'] block)) :=
          (Lib.filter_intercalate hnewline _).symm
      _ = squeeze classes block := by rw [Lib.intercalate_split]

theorem squeeze_page (classes : CharClasses) (text : List Char) :
    squeeze classes (contentOf (page classes text)) =
      squeeze classes ((bodies classes text).map (blockShown classes)).flatten := by
  have hnewline : squeeze classes (contentOf [.text ['\n']]) = [] := by
    simp [squeeze, contentOf, Piece.content, classes.newline]
  have hpage : contentOf (page classes text) = contentOf ([.text ['\n']].intercalate
      ((bodies classes text).flatMap (blockPieces classes))) := by
    unfold page
    show contentOf (_ ++ _) = _
    rw [Lib.Markup.contentOf_append]
    exact List.append_nil _
  rw [hpage, Lib.Markup.contentOf_intercalate]
  refine (Lib.filter_intercalate hnewline _).trans ?_
  show squeeze classes _ = _
  induction bodies classes text with
  | nil => rfl
  | cons block blocks ih =>
    have happend : ∀ first rest : List Char, squeeze classes (first ++ rest) =
        squeeze classes first ++ squeeze classes rest := fun _ _ => List.filter_append _ _
    rw [List.flatMap_cons, List.map_append, List.flatten_append, happend, squeeze_block, ih,
      List.map_cons, List.flatten_cons, happend]

/-- **The HTML of a text** has the tags of its layout and no other, every character of the text is
escaped, and what is read in it is the text, block for block. -/
theorem textToHtml_safe (classes : CharClasses) (text : String) :
    tags (textToHtml classes text).toList =
        layout ((bodies classes text.toList).flatMap (shapes classes)) ∧
      stripTags (textToHtml classes text).toList =
        escape (unescape (stripTags (textToHtml classes text).toList)) ∧
      ∃ shown, List.Forall₂ (Shows classes) (bodies classes text.toList) shown ∧
        squeeze classes (unescape (stripTags (textToHtml classes text).toList)) =
          squeeze classes shown.flatten := by
  have htags : ∀ name ∈ tagsOf (page classes text.toList), '>' ∉ name := by
    intro name hname
    rw [tagsOf_page] at hname
    exact gt_not_mem_templates name (layout_subset _ hname)
  rw [source_page, Lib.Markup.tags_source htags, Lib.Markup.stripTags_source htags,
    Lib.Markup.unescape_escape]
  refine ⟨tagsOf_page classes _, rfl, _, ?_, squeeze_page classes _⟩
  refine List.forall₂_map_right_iff.2 (List.forall₂_same.2 ?_)
  exact fun block _ => shows_blockShown classes block

end pieces

end Html

end YnabAgent
