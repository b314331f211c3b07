/-! The blocks of Markdown text. -/

namespace StaticSite.Markdown

inductive Alignment where
  | none
  | left
  | center
  | right
  deriving DecidableEq, Repr, Inhabited

/-- A block; the texts in it are still to be read. -/
inductive Block where
  /-- A paragraph, with the state of the box in front of it, if there is one. -/
  | paragraph (box : Option Bool) (text : List Char)
  /-- The box of a task that has no text. -/
  | box (checked : Bool)
  | heading (depth : Nat) (text : List Char)
  | rule
  | code (language : List Char) (text : List Char)
  | html (text : List Char)
  | quote (content : List Block)
  | list (start : Option Nat) (isTight : Bool) (items : List (List Block))
  | table (columns : List Alignment) (rows : List (List (List Char)))
  deriving Inhabited

end StaticSite.Markdown
