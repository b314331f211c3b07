import StaticSite.Markdown.Table

/-! The blocks that hold no others.

A leaf starts at the end of the levels of a line, and takes the lines that belong to it. -/

namespace StaticSite.Markdown

open Text

/-- The lines of an indented code block, each with whether it is blank. -/
def Reading.indentedLines (r : Reading) : List Line → List (List Char × Bool)
  | [] => []
  | l :: next =>
    let (isContinued, t) := r.continues l
    let (indent, t) := t.take 4
    if isContinued && (indent = 4 || t.atEnd) then
      (t.text ++ l.written, isBlank t.chars) :: r.indentedLines next
    else []

/-- An indented code block, of which the blank lines at the end are no part. -/
def Reading.readIndented (r : Reading) (first : List Char) (next : List Line) :
    Reading × List Line :=
  let more := ((r.indentedLines next).reverse.dropWhile (·.2)).reverse
  (r.add (.code [] (first ++ (more.map (·.1)).flatten)), next.drop more.length)

/-- The lines up to a closing fence, and the lines that follow it. -/
def Reading.fencedLines (r : Reading) (indent : Nat) (c : Char) (n : Nat) :
    List Line → List Char × List Line
  | [] => ([], [])
  | l :: next =>
    let (isContinued, t) := r.continues l
    if !isContinued then ([], l :: next)
    else
      let t := (t.take indent).2
      let (more, inside) := t.take (4 - indent)
      if more < 4 - indent && closesFence c n inside.chars then ([], next)
      else
        let (text, rest) := r.fencedLines indent c n next
        (t.text ++ l.written ++ text, rest)

def trimInfo (s : List Char) : List Char :=
  ((s.dropWhile isSpace).reverse.dropWhile isSpace).reverse

/-- The lines of raw HTML after a line that has not ended it. -/
def Reading.rawLines (r : Reading) (ending : List Char) : List Line → List Char × List Line
  | [] => ([], [])
  | l :: next =>
    let (isContinued, t) := r.continues l
    if !isContinued then ([], l :: next)
    else
      let text := t.text ++ l.written
      if (cut? ending t.chars).isSome then (text, next)
      else
        let (more, rest) := r.rawLines ending next
        (text ++ more, rest)

/-- The lines of HTML up to a blank one. -/
def Reading.htmlLines (r : Reading) : List Line → List Char × List Line
  | [] => ([], [])
  | l :: next =>
    let (isContinued, t) := r.continues l
    if !isContinued || isBlank t.chars then ([], l :: next)
    else
      let (more, rest) := r.htmlLines next
      (t.text ++ l.written ++ more, rest)

/-- A block of HTML, if the line starts one. -/
def Reading.readHtml? (r : Reading) (indent : Nat) (t : Tail) (l : Line) (next : List Line) :
    Option (Reading × List Line) :=
  match t.chars with
  | '<' :: s =>
    let first := List.replicate (max t.spare indent) ' ' ++ t.chars ++ l.written
    let found (lines : List Char × List Line) : Reading × List Line :=
      (r.endList.add (.html (first ++ lines.1)), lines.2)
    match htmlBlockEnd? s with
    | some ending =>
      some (found (if (cut? ending t.chars).isSome then ([], next)
        else r.endList.rawLines ending next))
    | none =>
      if startsBlockElement s || isLoneTag s then some (found (r.endList.htmlLines next)) else none
  | _ => none

/-- The lines that a text goes on with, and how it ends: with an underline that makes it a heading,
or without. -/
def Reading.textLines (r : Reading) : List Line → List (List Char) × Option Nat × List Line
  | [] => ([], none, [])
  | l :: next =>
    let (isContinued, t) := r.continues l
    let (indent, inside) := t.take 4
    let underline := if indent < 4 && isContinued then readUnderline? inside.chars else none
    let stops := indent < 4 && (interrupts inside.chars isContinued next ||
      (inside.chars.head? == some '|' && (r.tableColumns? inside.chars next).isSome))
    if underline.isSome then ([], underline, next)
    else if stops || isBlank inside.chars then ([], none, l :: next)
    else
      let (more, underline, rest) := r.textLines next
      (t.chars :: more, underline, rest)

def joinLines (lines : List (List Char)) : List Char := ['\n'].intercalate lines

/-- A paragraph, a heading with an underline, or a table. -/
def Reading.readText (r : Reading) (first : List Char) (next : List Line) : Reading × List Line :=
  let r' := { r with box := none }
  match r.tableColumns? first next with
  | some columns =>
    let row := fitRow columns.length
    let (rows, rest) := r.readRows columns.length (next.drop 1)
    (r'.add (.table columns (row (readCells first) :: rows)), rest)
  | none =>
    let (more, underline, rest) := r.textLines next
    let text := joinLines (first :: more)
    match underline with
    | some depth => (r'.add (.heading depth text), rest)
    | none => (r'.add (.paragraph r.box text), rest)

/-- The lines that the definition of a label may go on with. -/
def Reading.definitionLines (r : Reading) : List Line → List (List Char)
  | [] => []
  | l :: next =>
    let (isContinued, t) := r.continues l
    let (indent, inside) := t.take 4
    if isBlank inside.chars || (indent < 4 && interrupts inside.chars isContinued next) then []
    else t.chars :: r.definitionLines next

/-- The definition of a label, if the line starts one. -/
def Reading.readDefinition? (r : Reading) (first : List Char) (next : List Line) :
    Option (Reading × List Line) :=
  match first with
  | '[' :: _ =>
    let text := joinLines (first :: r.definitionLines next)
    (Markdown.readDefinition? text).map fun (label, target, rest) =>
      let lines := text.count '\n' - rest.count '\n'
      let used := if rest.isEmpty then lines else lines - 1
      ({ r with definitions := r.definitions ++ [(label, target)] }, next.drop used)
  | _ => none

/-- Reads a leaf at the end of the levels of a line. -/
def Reading.readLeaf (r : Reading) (t : Tail) (l : Line) (next : List Line) :
    Reading × List Line :=
  let spare := t.spare
  let (indent, t) := t.take 4
  if indent = 4 then r.endList.readIndented (t.text ++ l.written) next
  else
    let s := t.chars
    match r.readHtml? indent { t with spare } l next, readHeading? s with
    | some found, _ => found
    | none, heading =>
      if isRule s then (r.endList.add .rule, next)
      else
        match heading with
        | some (depth, text) => (r.endList.add (.heading depth (trimHeading text)), next)
        | none =>
          let r := r.endList
          match r.readDefinition? s next, readFence? s with
          | some found, _ => found
          | none, some (c, n, info) =>
            let (text, rest) := r.fencedLines indent c n next
            (r.add (.code (unescape (trimInfo info)) text), rest)
          | none, none => r.readText s next

end StaticSite.Markdown
