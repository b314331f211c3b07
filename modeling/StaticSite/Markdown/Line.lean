import StaticSite.Text.Cut

/-! Lines of Markdown text, and their indentation.

A tab reaches to the next of the stops, which lie four columns apart. -/

namespace StaticSite.Markdown

/-- A line with the characters that end it. -/
structure Line where
  chars : List Char
  ending : List Char
  deriving DecidableEq, Repr, Inhabited

/-- Adds a character in front of the first line. -/
def Line.cons (c : Char) : List Line → List Line
  | [] => [⟨[c], []⟩]
  | l :: ls => { l with chars := c :: l.chars } :: ls

def splitLines : List Char → List Line
  | [] => []
  | '\r' :: '\n' :: s => ⟨[], ['\r', '\n']⟩ :: splitLines s
  | '\n' :: s => ⟨[], ['\n']⟩ :: splitLines s
  | '\r' :: s => ⟨[], ['\r']⟩ :: splitLines s
  | c :: s => Line.cons c (splitLines s)

/-- The end of a line as it is written out. -/
def Line.written (l : Line) : List Char := if l.ending = ['\r', '\n'] then ['\n'] else l.ending

/-- White space within a line. -/
def isSpace (c : Char) : Bool := c == ' ' || c == '\t' || c == '\x0b' || c == '\x0c'

def isBlank (s : List Char) : Bool := s.all isSpace

/-- The rest of a line: `column` characters after the last tab, or the start, with `spare` columns of
that tab not yet used. -/
structure Tail where
  chars : List Char
  column : Nat
  spare : Nat
  deriving DecidableEq, Repr, Inhabited

namespace Tail

def ofLine (l : Line) : Tail := ⟨l.chars, 0, 0⟩

def atEnd (t : Tail) : Bool := t.chars.isEmpty

/-- Uses up to `n` columns of white space; gives the number of those that are lacking. -/
def skipColumns (column : Nat) : Nat → List Char → Nat × Tail
  | n + 1, ' ' :: cs => skipColumns (column + 1) n cs
  | n + 1, '\t' :: cs =>
    let width := 4 - column % 4
    if n + 1 ≤ width then (0, ⟨cs, 0, width - (n + 1)⟩) else skipColumns 0 (n + 1 - width) cs
  | n, cs => (n, ⟨cs, column, 0⟩)

/-- Uses up to `n` columns of white space; gives the number of those used. -/
def take (n : Nat) (t : Tail) : Nat × Tail :=
  if n ≤ t.spare then (n, { t with spare := t.spare - n })
  else
    let (lacking, t) := skipColumns t.column (n - t.spare) t.chars
    (n - lacking, t)

/-- Drops characters that are not white space. -/
def drop (n : Nat) (t : Tail) : Tail := { t with chars := t.chars.drop n, column := t.column + n }

/-- The text with the columns of a tab that have not been used. -/
def text (t : Tail) : List Char := List.replicate t.spare ' ' ++ t.chars

end Tail

end StaticSite.Markdown
