import YnabAgent.Lib.Markup

/-!
# Nested elements

A document is nested when each tag in it is closed, by the tag that ends its element and behind what
is nested in it, unless the element is void. Nested documents put together are nested.
-/

namespace Lib.Markup

/-- The tag that ends the element of a tag. -/
def closing (name : List Char) : List Char := '/' :: name.takeWhile (· ≠ ' ')

/-- An element with its tags. -/
def element (name : List Char) (inner : List Piece) : List Piece :=
  .tag name :: (inner ++ [.tag (closing name)])

inductive Nested (isVoid : List Char → Bool) : List Piece → Prop
  | nil : Nested isVoid []
  | text (content : List Char) {rest : List Piece} (hrest : Nested isVoid rest) :
      Nested isVoid (.text content :: rest)
  | void {name : List Char} {rest : List Piece} (hvoid : isVoid name = true)
      (hrest : Nested isVoid rest) : Nested isVoid (.tag name :: rest)
  | element {name : List Char} {inner rest : List Piece} (hinner : Nested isVoid inner)
      (hrest : Nested isVoid rest) : Nested isVoid (element name inner ++ rest)

variable {isVoid : List Char → Bool} {first rest : List Piece} {parts : List (List Piece)}

theorem Nested.single {name : List Char} {inner : List Piece} (h : Nested isVoid inner) :
    Nested isVoid (Markup.element name inner) := by
  simpa using h.element .nil

theorem Nested.append (h : Nested isVoid first) (hrest : Nested isVoid rest) :
    Nested isVoid (first ++ rest) := by
  induction h with
  | nil => exact hrest
  | text content _ ih => exact .text content ih
  | void hvoid _ ih => exact .void hvoid ih
  | element hinner _ _ ih =>
    rw [List.append_assoc]
    exact .element hinner ih

theorem Nested.intercalate {separator : List Piece} (hseparator : Nested isVoid separator)
    (h : ∀ part ∈ parts, Nested isVoid part) : Nested isVoid (separator.intercalate parts) := by
  induction parts with
  | nil => exact .nil
  | cons part parts ih =>
    have hpart := h part List.mem_cons_self
    cases parts with
    | nil => simpa using hpart
    | cons next parts =>
      rw [List.intercalate_cons_cons]
      have hrest := ih fun p hp => h p (List.mem_cons_of_mem _ hp)
      exact (hpart.append hseparator).append hrest

theorem source_element (name : List Char) (inner : List Piece) :
    source (element name inner) =
      '<' :: (name ++ ['>']) ++ (source inner ++ ('<' :: (closing name ++ ['>']))) := by
  unfold element
  rw [source_cons, source_append]
  simp [source, Piece.source]

theorem contentOf_element (name : List Char) (inner : List Piece) :
    contentOf (element name inner) = contentOf inner := by
  simp [element, contentOf, Piece.content]

theorem tagsOf_element (name : List Char) (inner : List Piece) :
    tagsOf (element name inner) = name :: (tagsOf inner ++ [closing name]) := by
  simp [element, tagsOf, Piece.tag?]

end Lib.Markup
