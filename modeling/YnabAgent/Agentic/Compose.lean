import YnabAgent.Domain.Lifecycle
import YnabAgent.Mail.Blocks

/-!
# The body of a transaction email

The text part and the HTML part of the email on a transaction, each laid out from the same
facts (`agentic/compose.py`). The text is the canonical copy and the HTML a styled view of
it: `renderBodyHtml_says`: the HTML is read as nested elements of the templates, every fact
escaped, and says what the text says, word for word, whatever the payee, the memo and the
model's rationale contain.
-/

namespace YnabAgent

open Lib.Markup (escape unescape Piece source tagsOf contentOf tags stripTags Nested)
open Html (Block words wrapEmail memoShown alternativesShown isWord)

def MessagePurpose.value : MessagePurpose → String
  | .proposal => "proposal"
  | .fyi => "fyi"
  | .confirm => "confirm"
  | .clarify => "clarify"
  | .handoff => "handoff"
  | .reviseSummary => "revise_summary"
  | .possiblyInconsistent => "possibly_inconsistent"
  | .divergedReadback => "diverged_readback"
  | .archiveNotice => "archive_notice"
  | .overrideNotice => "override_notice"

/-- The facts laid out for one email; categories by name. -/
structure ComposeRequest where
  purpose : String
  payee : String
  amountDisplay : String
  txnDate : String
  memo : Option String := none
  proposedCategory : Option String := none
  alternatives : List String := []
  rationale : Option String := none
  question : Option String := none
  detail : Option String := none
  decidedCategory : Option String := none

namespace Compose

def replyHint : String :=
  "Just reply in your own words — confirm it, suggest a different category, or ask a question."

/-- A text that is there and not empty. -/
def truthy (text : Option String) : Option String := text.filter (· ≠ "")

/-- The first of two texts that is there and not empty. -/
def orElse (text : Option String) (other : String) : String := (truthy text).getD other

section body
variable (classes : CharClasses) (request : ComposeRequest)

/-- The header line, and the memo line where there is one. -/
def facts : String :=
  let header := request.payee ++ " — " ++ request.amountDisplay ++ " — " ++ request.txnDate
  match memoShown classes (request.memo.map String.toList) with
  | some memo => header ++ "\n" ++ String.ofList memo
  | none => header

def suggested : String :=
  "Suggested: " ++ orElse request.proposedCategory "(needs a category)" ++
    if request.alternatives = [] then ""
    else "   (or: " ++ joinText ", " request.alternatives ++ ")"

def proposalBody : String :=
  joinText "\n" ([facts classes request, "", suggested request] ++
    ((truthy request.rationale).toList ++ ["", replyHint]))

/-- The sentences after the facts. -/
def note : String :=
  if request.purpose = MessagePurpose.confirm.value then
    let category := (truthy request.decidedCategory).getD
      (orElse request.proposedCategory "the category you picked")
    "Done — set to " ++ category ++ " and approved."
  else if request.purpose = MessagePurpose.fyi.value then
    let filed := match truthy request.decidedCategory with
      | some category => "Filed automatically as " ++ category
      | none => "Filed automatically"
    filed ++
      " under your standing rule and flagged in YNAB so you can spot it. Reply here any time to " ++
        "change it."
  else if request.purpose = MessagePurpose.clarify.value then
    (truthy request.detail).getD (orElse request.question "Which category should this be?")
  else if request.purpose = MessagePurpose.reviseSummary.value then
    let updated := match truthy request.decidedCategory with
      | some category => "Updated — now " ++ category ++ ", re-approved."
      | none => "Updated and re-approved."
    updated ++ " Reply if that's not right."
  else if request.purpose = MessagePurpose.handoff.value then
    "I haven't heard back, so I'm leaving this one for you to handle in YNAB — no more nudges " ++
      "from me. A reply here still works any time."
  else if request.purpose = MessagePurpose.possiblyInconsistent.value then
    "I tried to update this in YNAB and couldn't confirm the change landed — please check it " ++
      "there, and reply with what you see so we end up in the right place."
  else if request.purpose = MessagePurpose.divergedReadback.value then
    orElse request.detail
      ("YNAB now shows something different from what was asked for — which should " ++
        "win? Reply with your choice and I'll set it.")
  else if request.purpose = MessagePurpose.archiveNotice.value then
    "This one is still uncategorized and its window is closing. Reply with a category and I'll " ++
      "file it — or reply 'handled' if you've taken care of it."
  else if request.purpose = MessagePurpose.overrideNotice.value then
    let what := match truthy request.decidedCategory with
      | some category => "you set this to " ++ category ++ " yourself"
      | none => "you recategorized this one yourself"
    "Noticed " ++ what ++ " — I've backed off auto-handling this payee and will go back to asking."
  else (truthy request.detail).getD (orElse request.question "A quick note on this transaction.")

/-- The text part. -/
def renderBody : String :=
  if request.purpose = MessagePurpose.proposal.value then proposalBody classes request
  else facts classes request ++ "\n\n" ++ note request

/-- The purposes that ask the owner to decide something. -/
def promptPurposes : List String :=
  [MessagePurpose.clarify.value, MessagePurpose.divergedReadback.value,
    MessagePurpose.archiveNotice.value]

/-- The blocks of the HTML part. -/
def bodyBlocks : List Block :=
  let card := .facts request.payee.toList request.amountDisplay.toList request.txnDate.toList
    (request.memo.map String.toList)
  if request.purpose = MessagePurpose.proposal.value then
    [card,
      .suggestion (orElse request.proposedCategory "(needs a category)").toList
        (request.alternatives.map String.toList) (request.rationale.map String.toList),
      .footer replyHint.toList]
  else if request.purpose ∈ promptPurposes then [card, .prompt (note request).toList]
  else [card, .paragraphs (note request).toList]

/-- The HTML part. -/
def renderBodyHtml : String :=
  String.ofList (wrapEmail ((bodyBlocks request).map (Block.html classes)))

end body

/-! ## The words of the text -/

section words
variable {classes : CharClasses} {request : ComposeRequest}

/-- What the layouts put between texts has no words. -/
theorem words_marks {s : List Char} (h : s.all [' ', '\n', '—', ':', '(', ')'].contains = true) :
    words classes s = [] := by
  refine Html.words_eq_nil fun c hc => ?_
  have hc' : c = ' ' ∨ c = '\n' ∨ c = '—' ∨ c = ':' ∨ c = '(' ∨ c = ')' := by
    simpa using List.all_eq_true.1 h c hc
  rcases hc' with rfl | rfl | rfl | rfl | rfl | rfl
  · exact Html.isWord_space classes.space
  · exact Html.isWord_space classes.newline
  all_goals simp [isWord]

theorem words_facts : words classes (facts classes request).toList =
    (Block.facts request.payee.toList request.amountDisplay.toList request.txnDate.toList
      (request.memo.map String.toList)).said classes := by
  have hdash : words classes " — ".toList = [] := words_marks (by decide +kernel)
  have hnewline : words classes "\n".toList = [] := words_marks (by decide +kernel)
  simp only [facts, Block.said]
  cases memoShown classes (request.memo.map String.toList) with
  | none =>
    simp only [String.toList_append, Html.words_append, hdash, Option.getD_none, Html.words_nil,
      List.append_nil, List.nil_append, List.append_assoc]
  | some memo =>
    simp only [String.toList_append, Html.words_append, hdash, hnewline, String.toList_ofList,
      Option.getD_some, List.nil_append, List.append_assoc]

theorem words_joinText {sep : String} (hsep : words classes sep.toList = []) (parts : List String) :
    words classes (joinText sep parts).toList =
      (parts.map fun part => words classes part.toList).flatten := by
  unfold joinText
  rw [String.toList_intercalate, Html.words_intercalate hsep, List.map_map]
  rfl

theorem toList_ne_nil_iff (s : String) : s.toList ≠ [] ↔ s ≠ "" := by
  rw [← String.toList_inj.ne]
  rfl

/-- A text shown if it is not empty has the words it has. -/
theorem words_truthy (text : Option String) :
    ((truthy text).toList.map fun part => words classes part.toList).flatten =
      words classes (((text.map String.toList).filter (· ≠ [])).getD []) := by
  cases text with
  | none => rfl
  | some text =>
    by_cases hempty : text = ""
    · simp [truthy, Option.filter, hempty]
    · have hnil : text.toList ≠ [] := (toList_ne_nil_iff text).2 hempty
      simp [truthy, Option.filter, hempty, hnil]

theorem words_suggested : words classes (suggested request).toList =
    words classes "Suggested".toList ++
      (words classes (orElse request.proposedCategory "(needs a category)").toList ++
        ((alternativesShown (request.alternatives.map String.toList)).map fun text =>
          words classes "or".toList ++ words classes text).getD []) := by
  have hsuggested : "Suggested: ".toList = "Suggested".toList ++ ": ".toList := by decide +kernel
  have hor : "   (or: ".toList = "   (".toList ++ ("or".toList ++ ": ".toList) := by decide +kernel
  have hcolon : words classes ": ".toList = [] := words_marks (by decide +kernel)
  have hopen : words classes "   (".toList = [] := words_marks (by decide +kernel)
  have hclose : words classes ")".toList = [] := words_marks (by decide +kernel)
  unfold suggested alternativesShown
  by_cases hnone : request.alternatives = []
  · simp only [hnone, if_true, List.map_nil, String.toList_append, Html.words_append, hsuggested,
      hcolon]
    simp
  · have hmap : request.alternatives.map String.toList ≠ [] := by simpa using hnone
    simp only [hnone, hmap, if_false, String.toList_append, Html.words_append, hsuggested, hor,
      hcolon, hopen, hclose, joinText, String.toList_intercalate]
    simp

theorem words_proposalBody : words classes (proposalBody classes request).toList =
    (Block.facts request.payee.toList request.amountDisplay.toList request.txnDate.toList
        (request.memo.map String.toList)).said classes ++
      ((Block.suggestion (orElse request.proposedCategory "(needs a category)").toList
          (request.alternatives.map String.toList)
          (request.rationale.map String.toList)).said classes ++
        words classes replyHint.toList) := by
  have hnewline : words classes "\n".toList = [] := words_marks (by decide +kernel)
  unfold proposalBody
  rw [words_joinText hnewline]
  simp only [List.map_append, List.flatten_append, List.map_cons, List.map_nil, List.flatten_cons,
    List.flatten_nil, words_facts, words_suggested, words_truthy, Block.said]
  simp

/-- **The HTML part says what the text part says.** For every request the HTML is nested elements
with the tags of the templates and no other, the texts in it are escaped, and what is read in it has
the words of the text part, in their order. -/
theorem renderBodyHtml_says (classes : CharClasses) (request : ComposeRequest) :
    ∃ pieces, (renderBodyHtml classes request).toList = source pieces ∧ Nested Html.isVoid pieces ∧
      tags (source pieces) = tagsOf pieces ∧ tagsOf pieces ⊆ Html.emailTemplates ∧
      stripTags (source pieces) = escape (contentOf pieces) ∧
      words classes (contentOf pieces) = words classes (renderBody classes request).toList := by
  obtain ⟨pieces, hsource, hnested, htags, htemplates, hstrip, hwords⟩ :=
    Html.email_safe classes (bodyBlocks request)
  refine ⟨pieces, ?_, hnested, htags, htemplates, hstrip, hwords.trans ?_⟩
  · unfold renderBodyHtml
    rw [String.toList_ofList, hsource]
  have hnewlines : words classes "\n\n".toList = [] := words_marks (by decide +kernel)
  have hnote : words classes (facts classes request ++ "\n\n" ++ note request).toList =
      (Block.facts request.payee.toList request.amountDisplay.toList request.txnDate.toList
        (request.memo.map String.toList)).said classes ++ words classes (note request).toList := by
    simp only [String.toList_append, Html.words_append, hnewlines, words_facts, List.append_nil]
  unfold bodyBlocks renderBody
  by_cases hproposal : request.purpose = MessagePurpose.proposal.value
  · simp only [hproposal, if_true, words_proposalBody]
    simp [Block.said]
  · simp only [hproposal, if_false, hnote]
    split
    · simp [Block.said]
    · simp [Block.said]

end words

end Compose

end YnabAgent
