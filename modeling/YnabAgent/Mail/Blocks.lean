import YnabAgent.Lib.Nesting
import YnabAgent.Mail.Html

/-!
# The blocks of an email

Besides paragraphs an email has a card of the facts, a box with the suggestion, a question and a
footer (`mail/html.py`), in a shared shell. A block is given as the characters the templates make of
it and as pieces; the pieces are nested, their tags are those of the templates, and they say the
block's texts (`email_safe`).
-/

namespace YnabAgent

open Lib.Markup
  (escape unescape Piece source tagsOf contentOf tags stripTags closing element Nested)

namespace Html

/-! ## Templates -/

def hairline : String := "#e5e7eb"
def boxBg : String := "#f6f7f9"

def cardTag : List Char := "div style=\"margin:0 0 16px;\"".toList
def payeeTag : List Char := "div style=\"font-size:15px;font-weight:600;\"".toList
def amountTag : List Char :=
  "div style=\"font-size:24px;font-weight:700;letter-spacing:-0.01em;margin:2px 0;\"".toList
def dateTag : List Char := ("div style=\"font-size:13px;color:" ++ muted ++ ";\"").toList
def memoTag : List Char :=
  ("div style=\"font-size:13px;color:" ++ muted ++ ";margin-top:2px;\"").toList
def boxTag : List Char :=
  ("div style=\"margin:16px 0;padding:12px 14px;background:" ++ boxBg ++
    ";border-radius:8px;\"").toList
def suggestedTag : List Char :=
  ("div style=\"font-size:11px;font-weight:600;letter-spacing:0.08em;text-transform:uppercase;" ++
    "color:" ++ muted ++ ";\"").toList
def categoryTag : List Char := "div style=\"font-size:16px;font-weight:600;margin-top:2px;\"".toList
def alternativesTag : List Char :=
  ("div style=\"font-size:13px;color:" ++ muted ++ ";margin-top:2px;\"").toList
def rationaleTag : List Char :=
  ("div style=\"font-size:13px;color:" ++ muted ++ ";margin-top:6px;\"").toList
def promptTag : List Char := "div style=\"font-size:15px;font-weight:500;margin:0 0 14px;\"".toList
def footerTag : List Char :=
  ("div style=\"margin-top:18px;padding-top:10px;border-top:1px solid " ++ hairline ++
    ";font-size:12.5px;color:" ++ muted ++ ";\"").toList

/-- A text in an element of its own. -/
def line (name text : List Char) : List Char := [tag name, escape text, tag "/div".toList].flatten

/-- The line of a text there is. -/
def optionalLine (name : List Char) : Option (List Char) → List Char
  | some text => line name text
  | none => []

section blocks
variable (classes : CharClasses)

/-- The memo stripped, if anything is left of it. -/
def memoShown (memo : Option (List Char)) : Option (List Char) :=
  (memo.map (Lib.trim classes.isSpace)).filter (· ≠ [])

/-- The facts: the payee, the amount, the date and the memo. -/
def factsBlock (payee amount date : List Char) (memo : Option (List Char)) : List Char :=
  [tag cardTag, line payeeTag payee, line amountTag amount, line dateTag date,
    optionalLine memoTag (memoShown classes memo), tag "/div".toList].flatten

end blocks

def alternativesShown (alternatives : List (List Char)) : Option (List Char) :=
  if alternatives = [] then none else some (", ".toList.intercalate alternatives)

/-- The line of the alternatives, if there are any. -/
def alternativesHtml (alternatives : List (List Char)) : List Char :=
  match alternativesShown alternatives with
  | some text => [tag alternativesTag, "or: ".toList, escape text, tag "/div".toList].flatten
  | none => []

/-- The suggested category in its box. -/
def suggestionBlock (category : List Char) (alternatives : List (List Char))
    (rationale : Option (List Char)) : List Char :=
  [tag boxTag, tag suggestedTag, "Suggested".toList, tag "/div".toList, line categoryTag category,
    alternativesHtml alternatives, optionalLine rationaleTag (rationale.filter (· ≠ [])),
    tag "/div".toList].flatten

def promptBlock (text : List Char) : List Char :=
  [tag promptTag, breakLines text, tag "/div".toList].flatten

def footerBlock (text : List Char) : List Char := line footerTag text

/-- A block of an email. -/
inductive Block
  | facts (payee amount date : List Char) (memo : Option (List Char))
  | suggestion (category : List Char) (alternatives : List (List Char))
      (rationale : Option (List Char))
  | prompt (text : List Char)
  | footer (text : List Char)
  | paragraphs (text : List Char)

def Block.html (classes : CharClasses) : Block → List Char
  | facts payee amount date memo => factsBlock classes payee amount date memo
  | suggestion category alternatives rationale => suggestionBlock category alternatives rationale
  | prompt text => promptBlock text
  | footer text => footerBlock text
  | paragraphs text => Html.paragraphs classes text

/-! ## Pieces -/

def textElement (name text : List Char) : List Piece := element name [.text text]

def optionalElement (name : List Char) : Option (List Char) → List Piece
  | some text => textElement name text
  | none => []

def alternativesPieces (alternatives : List (List Char)) : List Piece :=
  match alternativesShown alternatives with
  | some text => element alternativesTag [.text "or: ".toList, .text text]
  | none => []

/-- Lines with breaks between them. -/
def brokenLines (text : List Char) : List Piece :=
  [.tag "br".toList].intercalate ((Lib.split ['\n'] text).map fun line => [.text line])

section pieces
variable (classes : CharClasses)

def Block.pieces : Block → List Piece
  | facts payee amount date memo =>
    element cardTag (textElement payeeTag payee ++ (textElement amountTag amount ++
      (textElement dateTag date ++ optionalElement memoTag (memoShown classes memo))))
  | suggestion category alternatives rationale =>
    element boxTag (textElement suggestedTag "Suggested".toList ++
      (textElement categoryTag category ++
        (alternativesPieces alternatives ++
          optionalElement rationaleTag (rationale.filter (· ≠ [])))))
  | prompt text => element promptTag (brokenLines text)
  | footer text => textElement footerTag text
  | paragraphs text =>
    [.text ['\n']].intercalate ((bodies classes text).flatMap (blockPieces classes))

/-- The email of the blocks: those with anything in them, in the shell. -/
def emailPieces (blocks : List Block) : List Piece :=
  element columnTag
    ([.text ['\n']].intercalate ((blocks.map (Block.pieces classes)).filter (source · ≠ [])))

/-- The tags of the blocks' elements. -/
def blockTags : List (List Char) :=
  [cardTag, payeeTag, amountTag, dateTag, memoTag, boxTag, suggestedTag, categoryTag,
    alternativesTag, rationaleTag, promptTag, footerTag, columnTag]

theorem closing_blockTags : ∀ name ∈ blockTags, closing name = "/div".toList := by
  decide +kernel

theorem source_textElement {name : List Char} (hname : name ∈ blockTags) (text : List Char) :
    source (textElement name text) = line name text := by
  unfold textElement line
  rw [Lib.Markup.source_element, closing_blockTags name hname]
  simp [source, Piece.source, tag]

theorem source_optionalElement {name : List Char} (hname : name ∈ blockTags)
    (text : Option (List Char)) : source (optionalElement name text) = optionalLine name text := by
  cases text with
  | none => rfl
  | some text => exact source_textElement hname text

theorem source_alternatives (alternatives : List (List Char)) :
    source (alternativesPieces alternatives) = alternativesHtml alternatives := by
  unfold alternativesPieces alternativesHtml
  cases alternativesShown alternatives with
  | none => rfl
  | some text =>
    have hor : escape ['o', 'r', ':', ' '] = ['o', 'r', ':', ' '] := by decide +kernel
    simp only [Lib.Markup.source_element, closing_blockTags alternativesTag (by simp [blockTags])]
    simp [source, Piece.source, tag, hor]

theorem source_brokenLines (text : List Char) : source (brokenLines text) = breakLines text := by
  unfold brokenLines breakLines
  rw [Lib.Markup.source_intercalate, List.map_map]
  have hbreak : source [.tag "br".toList] = tag "br".toList := List.append_nil _
  rw [hbreak]
  refine congrArg _ (List.map_congr_left fun line _ => ?_)
  exact List.append_nil _

/-- The shell around one block, or none where it is empty. -/
theorem wrapEmail_single (block : List Char) :
    wrapEmail [block] = [tag columnTag, block, tag "/div".toList].flatten := by
  unfold wrapEmail
  by_cases hnil : block = []
  · rw [hnil]
    rfl
  · have hkept : [block].filter (· ≠ []) = [block] := List.filter_cons_of_pos (decide_eq_true hnil)
    rw [hkept, List.intercalate_singleton]

theorem source_paragraphs (text : List Char) : source ((Block.paragraphs text).pieces classes) =
    paragraphs classes text := by
  have hpage := source_page classes (String.ofList text)
  unfold textToHtml page at hpage
  rw [String.toList_ofList, String.toList_ofList, wrapEmail_single, source_tag,
    Lib.Markup.source_append] at hpage
  simp only [List.flatten_cons, List.flatten_nil, List.append_nil] at hpage
  exact (List.append_cancel_right (List.append_cancel_left hpage)).symm

/-- **The pieces** of a block are its HTML. -/
theorem Block.source_pieces (block : Block) :
    source (block.pieces classes) = block.html classes := by
  cases block with
  | facts payee amount date memo =>
    simp only [pieces, html, factsBlock, Lib.Markup.source_element, Lib.Markup.source_append,
      source_textElement (show payeeTag ∈ blockTags by simp [blockTags]),
      source_textElement (show amountTag ∈ blockTags by simp [blockTags]),
      source_textElement (show dateTag ∈ blockTags by simp [blockTags]),
      source_optionalElement (show memoTag ∈ blockTags by simp [blockTags]),
      closing_blockTags cardTag (by simp [blockTags]), List.flatten_cons, List.flatten_nil]
    simp [tag]
  | suggestion category alternatives rationale =>
    have hsuggested : line suggestedTag "Suggested".toList =
        [tag suggestedTag, "Suggested".toList, tag "/div".toList].flatten := by decide +kernel
    simp only [pieces, html, suggestionBlock, Lib.Markup.source_element, Lib.Markup.source_append,
      source_textElement (show suggestedTag ∈ blockTags by simp [blockTags]),
      source_textElement (show categoryTag ∈ blockTags by simp [blockTags]), source_alternatives,
      source_optionalElement (show rationaleTag ∈ blockTags by simp [blockTags]), hsuggested,
      closing_blockTags boxTag (by simp [blockTags]), List.flatten_cons, List.flatten_nil]
    simp [tag]
  | prompt text =>
    simp only [pieces, html, promptBlock, Lib.Markup.source_element, source_brokenLines,
      closing_blockTags promptTag (by simp [blockTags]), List.flatten_cons, List.flatten_nil]
    simp [tag]
  | footer text => exact source_textElement (by simp [blockTags]) text
  | paragraphs text => exact source_paragraphs classes text

theorem source_emailPieces (blocks : List Block) :
    source (emailPieces classes blocks) = wrapEmail (blocks.map (Block.html classes)) := by
  have hkept : ((blocks.map (Block.pieces classes)).filter (source · ≠ [])).map source =
      (blocks.map (Block.html classes)).filter (· ≠ []) := by
    have hhtml : blocks.map (Block.html classes) =
        (blocks.map (Block.pieces classes)).map source := by
      rw [List.map_map]
      exact List.map_congr_left fun block _ => (block.source_pieces classes).symm
    rw [hhtml]
    exact (List.filter_map (p := fun s => decide (s ≠ [])) (f := source)).symm
  have hnewline : source [.text ['\n']] = ['\n'] := rfl
  unfold emailPieces wrapEmail
  rw [Lib.Markup.source_element, Lib.Markup.source_intercalate, hkept, hnewline,
    closing_blockTags columnTag (by simp [blockTags])]
  simp [tag]

/-! ## Their nesting and their tags -/

/-- A line break has no element. -/
def isVoid (name : List Char) : Bool := name = "br".toList

variable {classes}

theorem nested_texts (texts : List (List Char)) : Nested isVoid (texts.map Piece.text) := by
  induction texts with
  | nil => exact .nil
  | cons text texts ih => exact .text text ih

theorem nested_textElement (name text : List Char) : Nested isVoid (textElement name text) :=
  .single (nested_texts [text])

theorem nested_optionalElement (name : List Char) (text : Option (List Char)) :
    Nested isVoid (optionalElement name text) := by
  cases text with
  | none => exact .nil
  | some text => exact nested_textElement name text

theorem nested_brokenLines (lines : List (List Char)) :
    Nested isVoid ([.tag "br".toList].intercalate (lines.map fun line => [.text line])) := by
  refine Nested.intercalate (.void (by decide) .nil) fun part hpart => ?_
  obtain ⟨line, -, rfl⟩ := List.mem_map.1 hpart
  exact nested_texts [line]

theorem nested_paragraphPieces (lines : List (List Char)) :
    Nested isVoid (paragraphPieces lines) := by
  have hclosing : closing paragraphTag = "/p".toList := by decide +kernel
  have hparagraph : Nested isVoid (element paragraphTag
      ([.tag "br".toList].intercalate (lines.map fun line => [.text line]))) :=
    (nested_brokenLines lines).single
  unfold element at hparagraph
  rw [hclosing] at hparagraph
  exact hparagraph

theorem nested_rowPieces (number label : List Char) (rest? : Option (List Char)) :
    Nested isVoid (rowPieces number label rest?) := by
  have hrow : rowPieces number label rest? = element rowTag
      (element "div".toList
        (element numberTag [.text number, .text ['.']] ++
          (.text [' '] :: element labelTag [.text label])) ++ restPieces rest?) := by
    have hclosing : closing rowTag = "/div".toList ∧ closing "div".toList = "/div".toList ∧
        closing numberTag = "/span".toList ∧ closing labelTag = "/span".toList := by decide +kernel
    obtain ⟨hrow, hdiv, hnumber, hlabel⟩ := hclosing
    unfold rowPieces element
    rw [hrow, hdiv, hnumber, hlabel]
    simp
  have hrest : Nested isVoid (restPieces rest?) := by
    cases rest? with
    | none => exact .nil
    | some rest =>
      have hclosing : closing restTag = "/div".toList := by decide +kernel
      have hline := nested_textElement restTag rest
      unfold textElement element at hline
      rw [hclosing] at hline
      exact hline
  have hnumber : Nested isVoid (element numberTag [.text number, .text ['.']]) :=
    (nested_texts [number, ['.']]).single
  have hlabel : Nested isVoid (element labelTag [.text label]) := (nested_texts [label]).single
  rw [hrow]
  exact ((hnumber.append (.text [' '] hlabel)).single.append hrest).single

theorem nested_blockPieces (block : List Char) :
    ∀ part ∈ blockPieces classes block, Nested isVoid part := by
  intro part hpart
  unfold blockPieces at hpart
  split at hpart
  · obtain ⟨line, -, rfl⟩ := List.mem_map.1 hpart
    unfold linePieces
    split
    · exact nested_paragraphPieces [line]
    · exact nested_rowPieces _ _ _
  · rw [List.mem_singleton.1 hpart]
    exact nested_paragraphPieces _

theorem Block.nested (block : Block) : Nested isVoid (block.pieces classes) := by
  cases block with
  | facts payee amount date memo =>
    exact ((nested_textElement payeeTag payee).append ((nested_textElement amountTag amount).append
      ((nested_textElement dateTag date).append (nested_optionalElement memoTag _)))).single
  | suggestion category alternatives rationale =>
    have halternatives : Nested isVoid (alternativesPieces alternatives) := by
      unfold alternativesPieces
      split
      · exact (nested_texts ["or: ".toList, _]).single
      · exact .nil
    exact ((nested_textElement suggestedTag _).append
      ((nested_textElement categoryTag category).append
      (halternatives.append (nested_optionalElement rationaleTag _)))).single
  | prompt text => exact (nested_brokenLines _).single
  | footer text => exact nested_textElement footerTag text
  | paragraphs text =>
    refine Nested.intercalate (nested_texts [['\n']]) fun part hpart => ?_
    obtain ⟨block, -, hpart⟩ := List.mem_flatMap.1 hpart
    exact nested_blockPieces block part hpart

theorem nested_emailPieces (blocks : List Block) : Nested isVoid (emailPieces classes blocks) := by
  refine Nested.single (Nested.intercalate (nested_texts [['\n']]) fun part hpart => ?_)
  obtain ⟨block, -, rfl⟩ := List.mem_map.1 (List.mem_of_mem_filter hpart)
  exact block.nested

/-- The tags of an email with blocks. -/
def emailTemplates : List (List Char) := blockTags ++ templates

theorem gt_not_mem_emailTemplates : ∀ name ∈ emailTemplates, '>' ∉ name := by
  decide +kernel

theorem tagsOf_texts (texts : List (List Char)) : tagsOf (texts.map Piece.text) = [] := by
  induction texts with
  | nil => rfl
  | cons text texts ih => exact ih

/-- An element of a block has tags of the templates if what is in it has. -/
theorem tagsOf_element_subset {name : List Char} {inner : List Piece} (hname : name ∈ blockTags)
    (hinner : tagsOf inner ⊆ emailTemplates) : tagsOf (element name inner) ⊆ emailTemplates := by
  have hdiv : "/div".toList ∈ emailTemplates := by decide +kernel
  rw [Lib.Markup.tagsOf_element, closing_blockTags name hname]
  refine List.cons_subset.2 ⟨List.mem_append_left _ hname, List.append_subset.2 ⟨hinner, ?_⟩⟩
  exact List.cons_subset.2 ⟨hdiv, List.nil_subset _⟩

theorem tagsOf_textElement_subset {name : List Char} (hname : name ∈ blockTags) (text : List Char) :
    tagsOf (textElement name text) ⊆ emailTemplates := by
  refine tagsOf_element_subset hname ?_
  rw [show tagsOf [.text text] = [] from tagsOf_texts [text]]
  exact List.nil_subset _

theorem tagsOf_optionalElement_subset {name : List Char} (hname : name ∈ blockTags)
    (text : Option (List Char)) : tagsOf (optionalElement name text) ⊆ emailTemplates := by
  cases text with
  | none => exact List.nil_subset _
  | some text => exact tagsOf_textElement_subset hname text

theorem tagsOf_append_subset {first rest : List Piece} (hfirst : tagsOf first ⊆ emailTemplates)
    (hrest : tagsOf rest ⊆ emailTemplates) : tagsOf (first ++ rest) ⊆ emailTemplates := by
  rw [Lib.Markup.tagsOf_append]
  exact List.append_subset.2 ⟨hfirst, hrest⟩

theorem tagsOf_intercalate_subset {separator : List Piece} {parts : List (List Piece)}
    (hseparator : tagsOf separator ⊆ emailTemplates)
    (hparts : ∀ part ∈ parts, tagsOf part ⊆ emailTemplates) :
    tagsOf (separator.intercalate parts) ⊆ emailTemplates := by
  induction parts with
  | nil => exact List.nil_subset _
  | cons part parts ih =>
    have hpart := hparts part List.mem_cons_self
    cases parts with
    | nil => simpa using hpart
    | cons next parts =>
      rw [List.intercalate_cons_cons]
      refine tagsOf_append_subset (tagsOf_append_subset hpart hseparator) ?_
      exact ih fun p hp => hparts p (List.mem_cons_of_mem _ hp)

theorem tagsOf_blockPieces_subset (block : List Char) :
    ∀ part ∈ blockPieces classes block, tagsOf part ⊆ emailTemplates := by
  intro part hpart
  have hmem := List.mem_map_of_mem (f := tagsOf) hpart
  rw [tagsOf_block] at hmem
  obtain ⟨shape, -, hshape⟩ := List.mem_map.1 hmem
  rw [← hshape]
  exact fun name hname => List.mem_append_right _ (shape.tags_subset hname)

theorem Block.tags_subset (block : Block) : tagsOf (block.pieces classes) ⊆ emailTemplates := by
  cases block with
  | facts payee amount date memo =>
    refine tagsOf_element_subset (by simp [blockTags]) (tagsOf_append_subset ?_
      (tagsOf_append_subset ?_ (tagsOf_append_subset ?_ ?_)))
    · exact tagsOf_textElement_subset (by simp [blockTags]) payee
    · exact tagsOf_textElement_subset (by simp [blockTags]) amount
    · exact tagsOf_textElement_subset (by simp [blockTags]) date
    · exact tagsOf_optionalElement_subset (by simp [blockTags]) _
  | suggestion category alternatives rationale =>
    refine tagsOf_element_subset (by simp [blockTags]) (tagsOf_append_subset ?_
      (tagsOf_append_subset ?_ (tagsOf_append_subset ?_ ?_)))
    · exact tagsOf_textElement_subset (by simp [blockTags]) _
    · exact tagsOf_textElement_subset (by simp [blockTags]) category
    · unfold alternativesPieces
      split
      · refine tagsOf_element_subset (by simp [blockTags]) ?_
        rw [show tagsOf [.text _, .text _] = [] from tagsOf_texts [_, _]]
        exact List.nil_subset _
      · exact List.nil_subset _
    · exact tagsOf_optionalElement_subset (by simp [blockTags]) _
  | prompt text =>
    refine tagsOf_element_subset (by simp [blockTags])
      (tagsOf_intercalate_subset ?_ fun part hpart => ?_)
    · decide +kernel
    · obtain ⟨line, -, rfl⟩ := List.mem_map.1 hpart
      exact List.nil_subset _
  | footer text => exact tagsOf_textElement_subset (by simp [blockTags]) text
  | paragraphs text =>
    refine tagsOf_intercalate_subset (List.nil_subset _) fun part hpart => ?_
    obtain ⟨block, -, hpart⟩ := List.mem_flatMap.1 hpart
    exact tagsOf_blockPieces_subset block part hpart

theorem tagsOf_emailPieces_subset (blocks : List Block) :
    tagsOf (emailPieces classes blocks) ⊆ emailTemplates := by
  refine tagsOf_element_subset (by simp [blockTags])
    (tagsOf_intercalate_subset (List.nil_subset _) fun part hpart => ?_)
  obtain ⟨block, -, rfl⟩ := List.mem_map.1 (List.mem_of_mem_filter hpart)
  exact block.tags_subset

/-! ## Their words -/

/-- A character that is neither blank nor one of the marks the layouts put between texts. -/
def isWord (classes : CharClasses) (c : Char) : Bool :=
  !classes.isSpace c && ['—', ':', '(', ')'].all (c != ·)

def words (classes : CharClasses) (s : List Char) : List Char := s.filter (isWord classes)

@[simp] theorem words_nil : words classes [] = [] := rfl

@[simp] theorem words_append (first rest : List Char) :
    words classes (first ++ rest) = words classes first ++ words classes rest :=
  List.filter_append first rest

theorem words_eq_nil {s : List Char} (h : ∀ c ∈ s, isWord classes c = false) :
    words classes s = [] :=
  List.filter_eq_nil_iff.2 fun c hc => by simp [h c hc]

theorem isWord_space {c : Char} (h : classes.isSpace c = true) : isWord classes c = false := by
  simp [isWord, h]

theorem words_intercalate {separator : List Char} (h : words classes separator = [])
    (parts : List (List Char)) :
    words classes (separator.intercalate parts) = (parts.map (words classes)).flatten := by
  have hflatten : ∀ parts : List (List Char),
      words classes parts.flatten = (parts.map (words classes)).flatten := by
    intro parts
    induction parts with
    | nil => rfl
    | cons part parts ih => simp [ih]
  rw [← hflatten]
  exact Lib.filter_intercalate h parts

theorem words_squeeze (s : List Char) : words classes (squeeze classes s) = words classes s := by
  unfold words squeeze
  rw [List.filter_filter]
  refine List.filter_congr fun c _ => ?_
  cases hspace : classes.isSpace c with
  | true => simp [isWord, hspace]
  | false => simp

theorem words_newlines (n : Nat) : words classes (List.replicate n '\n') = [] := by
  refine words_eq_nil fun c hc => ?_
  rw [List.eq_of_mem_replicate hc]
  exact isWord_space classes.newline

/-- A row has the words of its line. -/
theorem words_row {line shown : List Char} (h : ShowsRow classes line shown) :
    words classes shown = words classes line := by
  obtain ⟨number, spaces, label, separator, rest, -, hspaces, -, hseparator, rfl, rfl⟩ := h
  have hblank : words classes spaces = [] := words_eq_nil fun c hc => isWord_space (hspaces c hc)
  have hdash : words classes separator = [] := by
    rcases hseparator with rfl | ⟨rfl, -⟩
    · refine words_eq_nil fun c hc => ?_
      have hc' : c = ' ' ∨ c = '—' ∨ c = ' ' := by simpa using hc
      rcases hc' with rfl | rfl | rfl
      · exact isWord_space classes.space
      · simp [isWord]
      · exact isWord_space classes.space
    · rfl
  have hspace : words classes [' '] = [] := words_eq_nil fun c hc => by
    rw [List.mem_singleton.1 hc]
    exact isWord_space classes.space
  show words classes (number ++ (['.'] ++ ([' '] ++ (label ++ rest)))) =
    words classes (number ++ (['.'] ++ (spaces ++ (label ++ (separator ++ rest)))))
  simp only [words_append, hblank, hdash, hspace, List.nil_append]

theorem words_rows {lines rows : List (List Char)}
    (h : List.Forall₂ (ShowsRow classes) lines rows) :
    rows.map (words classes) = lines.map (words classes) := by
  induction h with
  | nil => rfl
  | cons hrow _ ih => rw [List.map_cons, List.map_cons, ih, words_row hrow]

theorem words_lines (text : List Char) :
    ((Lib.split ['\n'] text).map (words classes)).flatten = words classes text := by
  have hnewline : words classes ['\n'] = [] := words_newlines 1
  rw [← words_intercalate hnewline, Lib.intercalate_split]

theorem words_flatten (parts : List (List Char)) :
    words classes parts.flatten = (parts.map (words classes)).flatten := by
  rw [← words_intercalate words_nil, Lib.intercalate_nil]

/-- What is shown of a block has the block's words. -/
theorem words_shown {block shown : List Char} (h : Shows classes block shown) :
    words classes shown = words classes block := by
  rcases h with ⟨-, rows, hrows, rfl⟩ | ⟨-, rfl⟩
  · rw [words_flatten, words_rows hrows, words_lines]
  · rfl

/-- What is stripped to nothing is blank. -/
theorem blank_of_trim {s : List Char} (h : Lib.trim classes.isSpace s = []) :
    ∀ c ∈ s, classes.isSpace c = true := by
  have hdropped := List.rdropWhile_eq_nil_iff.1 h
  intro c hc
  rw [← List.takeWhile_append_dropWhile (p := classes.isSpace) (l := s)] at hc
  rcases List.mem_append.1 hc with hc | hc
  · exact List.mem_takeWhile_imp hc
  · exact hdropped c hc

/-- The blank blocks of a text have no words. -/
theorem words_bodies (text : List Char) :
    ((bodies classes text).map (words classes)).flatten = words classes text := by
  have hnewlines : words classes ['\n', '\n'] = [] := words_newlines 2
  have htext := words_intercalate hnewlines (Lib.split ['\n', '\n'] text)
  rw [Lib.intercalate_split] at htext
  rw [htext]
  unfold bodies
  induction Lib.split ['\n', '\n'] text with
  | nil => rfl
  | cons block blocks ih =>
    by_cases hblank : Lib.trim classes.isSpace block = []
    · have hwords : words classes block = [] :=
        words_eq_nil fun c hc => isWord_space (blank_of_trim hblank c hc)
      simp [hblank, hwords, ← ih]
    · simp [hblank, ← ih]

theorem words_paragraphs (text : List Char) :
    words classes (contentOf ((Block.paragraphs text).pieces classes)) = words classes text := by
  have hcontent : contentOf ((Block.paragraphs text).pieces classes) =
      contentOf (page classes text) := by
    unfold page
    simp [Block.pieces, contentOf, Piece.content]
  rw [hcontent, ← words_squeeze, squeeze_page, words_squeeze, ← words_bodies text]
  induction bodies classes text with
  | nil => rfl
  | cons block blocks ih => simp [words_shown (shows_blockShown classes block), ih]

theorem words_brokenLines (text : List Char) :
    words classes (contentOf (brokenLines text)) = words classes text := by
  have hlines : contentOf (brokenLines text) = (Lib.split ['\n'] text).flatten := by
    unfold brokenLines
    rw [Lib.Markup.contentOf_intercalate, List.map_map]
    have hread : (Lib.split ['\n'] text).map (contentOf ∘ fun line => [.text line]) =
        Lib.split ['\n'] text := by
      refine (List.map_congr_left fun line _ => ?_).trans (List.map_id _)
      exact List.append_nil _
    rw [hread]
    exact Lib.intercalate_nil _
  rw [hlines, words_flatten, words_lines]

/-- What a block says. -/
def Block.said (classes : CharClasses) : Block → List Char
  | facts payee amount date memo =>
    words classes payee ++ (words classes amount ++ (words classes date ++
      words classes ((memoShown classes memo).getD [])))
  | suggestion category alternatives rationale =>
    words classes "Suggested".toList ++ (words classes category ++
      (((alternativesShown alternatives).map fun text =>
          words classes "or".toList ++ words classes text).getD [] ++
        words classes ((rationale.filter (· ≠ [])).getD [])))
  | prompt text | footer text | paragraphs text => words classes text

theorem contentOf_textElement (name text : List Char) :
    contentOf (textElement name text) = text := by
  unfold textElement
  rw [Lib.Markup.contentOf_element]
  exact List.append_nil text

theorem contentOf_optionalElement (name : List Char) (text : Option (List Char)) :
    contentOf (optionalElement name text) = text.getD [] := by
  cases text with
  | none => rfl
  | some text => exact contentOf_textElement name text

theorem words_alternatives (alternatives : List (List Char)) :
    words classes (contentOf (alternativesPieces alternatives)) =
      ((alternativesShown alternatives).map fun text =>
        words classes "or".toList ++ words classes text).getD [] := by
  unfold alternativesPieces
  cases alternativesShown alternatives with
  | none => rfl
  | some text =>
    have hor : words classes "or: ".toList = words classes "or".toList := by
      have hmarks : words classes ": ".toList = [] := by
        refine words_eq_nil fun c hc => ?_
        have hc' : c = ':' ∨ c = ' ' := by simpa using hc
        rcases hc' with rfl | rfl
        · simp [isWord]
        · exact isWord_space classes.space
      have happend : "or: ".toList = "or".toList ++ ": ".toList := by decide +kernel
      rw [happend, words_append, hmarks, List.append_nil]
    simp only [Lib.Markup.contentOf_element, Option.map_some, Option.getD_some]
    simp only [contentOf, List.flatMap_cons, List.flatMap_nil, Piece.content, words_append, hor,
      List.append_nil]

/-- **What is read** of a block is what it says. -/
theorem Block.words_content (block : Block) :
    words classes (contentOf (block.pieces classes)) = block.said classes := by
  cases block with
  | facts payee amount date memo =>
    simp only [pieces, said, Lib.Markup.contentOf_element, Lib.Markup.contentOf_append,
      contentOf_textElement, contentOf_optionalElement, words_append]
  | suggestion category alternatives rationale =>
    simp only [pieces, said, Lib.Markup.contentOf_element, Lib.Markup.contentOf_append,
      contentOf_textElement, contentOf_optionalElement, words_append, words_alternatives]
  | prompt text =>
    simp only [pieces, said, Lib.Markup.contentOf_element]
    exact words_brokenLines text
  | footer text =>
    simp only [pieces, said, contentOf_textElement]
  | paragraphs text => exact words_paragraphs text

/-- Empty blocks say nothing. -/
theorem words_emailPieces (blocks : List Block) :
    words classes (contentOf (emailPieces classes blocks)) =
      (blocks.map (Block.said classes)).flatten := by
  have hnewline : words classes (contentOf [.text ['\n']]) = [] := words_newlines 1
  unfold emailPieces
  rw [Lib.Markup.contentOf_element, Lib.Markup.contentOf_intercalate, words_intercalate hnewline]
  induction blocks with
  | nil => rfl
  | cons block blocks ih =>
    by_cases hnil : source (block.pieces classes) = []
    · have hcontent : contentOf (block.pieces classes) = [] := by
        have hstrip : stripTags (source (block.pieces classes)) =
            escape (contentOf (block.pieces classes)) :=
          Lib.Markup.stripTags_source fun name hname =>
            gt_not_mem_emailTemplates name (block.tags_subset hname)
        rw [hnil] at hstrip
        have hread := Lib.Markup.unescape_escape (contentOf (block.pieces classes))
        rw [← hstrip] at hread
        exact hread.symm
      have hsaid : block.said classes = [] := by
        rw [← block.words_content, hcontent]
        rfl
      simp [hnil, hsaid, ← ih]
    · simp [hnil, block.words_content, ← ih]

/-- **An email of blocks** is read as nested elements with the tags of the templates, its texts
escaped, and says what its blocks say. -/
theorem email_safe (classes : CharClasses) (blocks : List Block) :
    ∃ pieces, wrapEmail (blocks.map (Block.html classes)) = source pieces ∧ Nested isVoid pieces ∧
      tags (source pieces) = tagsOf pieces ∧ tagsOf pieces ⊆ emailTemplates ∧
      stripTags (source pieces) = escape (contentOf pieces) ∧
      words classes (contentOf pieces) = (blocks.map (Block.said classes)).flatten := by
  have htags : ∀ name ∈ tagsOf (emailPieces classes blocks), '>' ∉ name := fun name hname =>
    gt_not_mem_emailTemplates name (tagsOf_emailPieces_subset blocks hname)
  exact ⟨emailPieces classes blocks, (source_emailPieces classes blocks).symm,
    nested_emailPieces blocks, Lib.Markup.tags_source htags, tagsOf_emailPieces_subset blocks,
    Lib.Markup.stripTags_source htags, words_emailPieces blocks⟩

end pieces

end Html

end YnabAgent
