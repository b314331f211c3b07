import StaticSite.Markdown.Level
import StaticSite.Markdown.Marker

/-! Tables of Markdown text.

The first line of a table names its columns, and the second aligns them. A row ends with its line. -/

namespace StaticSite.Markdown

/-- The cells of a row, which bars set apart. A bar after a backslash is part of its cell, and loses
the backslash. -/
def splitCells : List Char → List (List Char)
  | [] => [[]]
  | '\\' :: '|' :: r =>
    match splitCells r with
    | [] => [['|']]
    | c :: cs => ('|' :: c) :: cs
  | '|' :: r => [] :: splitCells r
  | d :: r =>
    match splitCells r with
    | [] => [[d]]
    | c :: cs => (d :: c) :: cs

/-- The cells of a row, without what stands outside the bars at its ends. -/
def readCells (s : List Char) : List (List Char) :=
  let s := match s.dropWhile isSpace with
    | '|' :: r => r
    | r => r
  let cells := splitCells s
  if cells.getLast?.any isBlank then cells.dropLast else cells

def hasBar (s : List Char) : Bool := 1 < (splitCells s).length

def readAlignment? (cell : List Char) : Option Alignment :=
  let marks := cell.filter (· != ' ')
  let body := marks.filter (· == '-')
  if body.isEmpty || !(marks.all fun c => c == '-' || c == ':') then none
  else
    some (match marks with
      | ':' :: rest => if rest.contains ':' then .center else .left
      | _ => if marks.contains ':' then .right else .none)

/-- The alignments of the columns that a line under the head of a table sets. -/
def readAlignments? (s : List Char) : Option (List Alignment) :=
  if s.contains '|' then
    let cells := readCells s
    let columns := cells.filterMap readAlignment?
    if columns.isEmpty || columns.length < cells.length then none else some columns
  else none

/-- The columns of a table that has its head in a line and their alignments in the next. -/
def Reading.tableColumns? (r : Reading) (head : List Char) (next : List Line) :
    Option (List Alignment) :=
  match next with
  | [] => none
  | l :: _ =>
    let (isContinued, t) := r.continues l
    let (indent, t) := t.take 4
    if !isContinued || 3 < indent || !hasBar head then none
    else (readAlignments? t.chars).filter fun cs => cs.length = (readCells head).length

/-- A row with as many cells as the table has columns. -/
def fitRow (columns : Nat) (cells : List (List Char)) : List (List Char) :=
  cells.take columns ++ List.replicate (columns - cells.length) []

/-- The rows of a table after its head, and the lines that follow. -/
def Reading.readRows (r : Reading) (columns : Nat) :
    List Line → List (List (List Char)) × List Line
  | [] => ([], [])
  | l :: next =>
    let (isContinued, t) := r.continues l
    let s := t.chars.dropWhile isSpace
    if !isContinued || interrupts s true next || (readCells s).isEmpty then ([], l :: next)
    else
      let (rows, rest) := r.readRows columns next
      (fitRow columns (readCells s) :: rows, rest)

end StaticSite.Markdown
