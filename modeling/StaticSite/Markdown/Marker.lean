import StaticSite.Markdown.HtmlTag
import StaticSite.Markdown.Line

/-! What a line of Markdown text can start with: the marks of blocks. -/

namespace StaticSite.Markdown

/-- A thematic break. -/
def isRule (s : List Char) : Bool :=
  match s with
  | c :: _ =>
    (c == '*' || c == '-' || c == '_') && 3 ≤ s.count c &&
      s.all fun d => d == c || d == ' ' || d == '\t'
  | [] => false

/-- The depth of a heading that starts here, and its text with the marks at its end. -/
def readHeading? (s : List Char) : Option (Nat × List Char) :=
  let marks := s.takeWhile (· == '#')
  let rest := s.drop marks.length
  if marks.isEmpty || 6 < marks.length then none
  else if rest.head?.all isSpace then some (marks.length, rest.dropWhile isSpace) else none

def trimBlanks (s : List Char) : List Char := (s.reverse.dropWhile (· == ' ')).reverse

/-- The text of a heading without the marks at its end, which a blank sets apart. -/
def trimHeading (s : List Char) : List Char :=
  let s := trimBlanks s
  let body := (s.reverse.dropWhile (· == '#')).reverse
  if body.isEmpty then []
  else
    let trimmed := trimBlanks body
    if trimmed.length < body.length then trimmed else s

/-- The depth of the heading that an underline makes of the lines before it. -/
def readUnderline? (s : List Char) : Option Nat :=
  match s with
  | c :: _ =>
    if (c == '=' || c == '-') && isBlank (s.dropWhile (· == c)) then
      some (if c == '=' then 1 else 2)
    else none
  | [] => none

/-- The fence of a code block: its character and length, and what follows. -/
def readFence? (s : List Char) : Option (Char × Nat × List Char) :=
  match s with
  | c :: _ =>
    let marks := s.takeWhile (· == c)
    let rest := s.drop marks.length
    if (c == '`' || c == '~') && 3 ≤ marks.length && !(c == '`' && rest.contains '`') then
      some (c, marks.length, rest)
    else none
  | [] => none

def closesFence (c : Char) (n : Nat) (s : List Char) : Bool :=
  let marks := s.takeWhile (· == c)
  n ≤ marks.length && (s.drop marks.length).all (· == ' ')

/-- The marker of an item: its character and number, and what follows. -/
def readMarker? (s : List Char) : Option (Char × Nat × List Char) :=
  match s with
  | [] => none
  | c :: r =>
    if c == '-' || c == '+' || c == '*' then some (c, 0, r)
    else
      let digits := s.takeWhile Char.isDigit
      if digits.isEmpty || 9 < digits.length then none
      else
        match s.drop digits.length with
        | d :: r =>
          if d == '.' || d == ')' then
            some (d, digits.foldl (fun n c => 10 * n + (c.toNat - '0'.toNat)) 0, r)
          else none
        | [] => none

/-- The marker of an item at this indent: its character and number, the indent of the content, and
the content. -/
def openItem? (indent : Nat) (t : Tail) : Option (Char × Nat × Nat × Tail) :=
  match readMarker? t.chars with
  | none => none
  | some (c, n, r) =>
    let width := t.chars.length - r.length
    let (blank, rest) := (t.drop width).take 1
    if isRule t.chars || (blank = 0 && !rest.atEnd) then none
    else
      let indent := indent + width + 1
      if isBlank rest.chars then some (c, n, indent, rest)
      else
        let (more, inside) := rest.take 4
        if more < 4 then some (c, n, indent + more, inside) else some (c, n, indent, rest)

/-- The box of a task. -/
def openBox? (t : Tail) : Option (Bool × Tail) :=
  let t := (t.take 3).2
  match t.chars with
  | '[' :: c :: ']' :: d :: _ =>
    let checked := c == 'x' || c == 'X'
    if (checked || isSpace c) && isSpace d then some (checked, t.drop 3) else none
  | _ => none

/-- Whether an item starts here that may end the paragraph before it, on a line of the same level.
An item that begins with two blank lines may not, nor one with another number than 1. -/
def endsParagraphAsItem (s : List Char) (next : List Line) : Bool :=
  match readMarker? s with
  | none => false
  | some (c, n, r) =>
    ((c != '.' && c != ')') || n = 1) && !(isBlank r && next.head?.all fun l => isBlank l.chars)

/-- Whether an item starts here. -/
def startsItem (s : List Char) : Bool :=
  match readMarker? s with
  | some (_, _, r) => r.head?.all fun c => c == ' ' || c == '\t'
  | none => false

/-- Whether a line that may continue a paragraph starts something else. -/
def interrupts (s : List Char) (isContinued : Bool) (next : List Line) : Bool :=
  s.isEmpty || isRule s || (readHeading? s).isSome || (readFence? s).isSome ||
    s.head? == some '>' ||
    (startsItem s && (!isContinued || endsParagraphAsItem s next)) ||
    match s with
    | '<' :: r => (htmlBlockEnd? r).isSome || startsBlockElement r
    | _ => false

end StaticSite.Markdown
