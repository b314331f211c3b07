import StaticSite.Markdown.Block
import StaticSite.Markdown.Line
import StaticSite.Markdown.Link

/-! The blocks that are open while Markdown text is read: quotes, lists and items, one in another.

A line first matches the levels that it continues; the others are closed. -/

namespace StaticSite.Markdown

/-- An open block that holds others, those newest first. -/
inductive Level where
  | quote (done : List Block)
  | list (marker : Char) (start : Nat) (isTight : Bool) (items : List (List Block))
  /-- The content of an item is indented by so many columns. -/
  | item (indent : Nat) (done : List Block)
  deriving Inhabited

namespace Level

def isList : Level → Bool
  | list _ _ _ _ => true
  | _ => false

def isItem : Level → Bool
  | item _ _ => true
  | _ => false

def loosen : Level → Level
  | list m n _ is => list m n false is
  | l => l

def add (b : Block) : Level → Level
  | quote bs => quote (b :: bs)
  | item i bs => item i (b :: bs)
  | l => l

end Level

/-- What has been read so far. -/
structure Reading where
  /-- The open levels, innermost first. -/
  levels : List Level
  /-- The blocks outside of all open levels, newest first. -/
  done : List Block
  /-- The last line was blank. -/
  afterBlank : Bool
  /-- The innermost level is an item that has nothing in it but the line of its marker. -/
  inEmptyItem : Bool
  /-- A box read for the next paragraph. -/
  box : Option Bool
  definitions : Definitions
  deriving Inhabited

/-! ## Levels -/

/-- Matches a line with one level. -/
def Level.match? (t : Tail) : Level → Option Tail
  | .quote _ =>
    let t := (t.take 3).2
    if t.chars.head? == some '>' then some ((t.drop 1).take 1).2 else none
  | .list _ _ _ _ => some t
  | .item indent _ =>
    let (n, rest) := t.take indent
    if n = indent || rest.atEnd then some rest else none

/-- Matches a line with levels, outermost first; gives the number of those it continues. -/
def matchLevels (t : Tail) : List Level → Nat × Tail
  | [] => (0, t)
  | l :: ls =>
    match l.match? t with
    | none => (0, t)
    | some t =>
      let (n, t) := matchLevels t ls
      (n + 1, t)

namespace Reading

def start : Reading := ⟨[], [], false, false, none, []⟩

/-- Matches a line with the open levels; gives whether it continues all of them. -/
def continues (r : Reading) (l : Line) : Bool × Tail :=
  let (n, t) := matchLevels (Tail.ofLine l) r.levels.reverse
  (n == r.levels.length, t)

def add (r : Reading) (b : Block) : Reading :=
  match r.levels with
  | l :: ls => { r with levels := l.add b :: ls }
  | [] => { r with done := b :: r.done }

def push (r : Reading) (l : Level) : Reading := { r with levels := l :: r.levels }

/-- Closes the innermost level. -/
def close (r : Reading) : Reading :=
  match r.levels with
  | [] => r
  | .quote bs :: ls => { r with levels := ls }.add (.quote bs.reverse)
  | .item _ bs :: .list m n isTight is :: ls =>
    { r with levels := .list m n isTight (bs.reverse :: is) :: ls }
  | .item _ _ :: ls => { r with levels := ls }
  | .list m n isTight is :: ls =>
    let start := if m == '.' || m == ')' then some n else none
    { r with levels := ls, inEmptyItem := r.inEmptyItem && !isTight }.add
      (.list start isTight is.reverse)

def closeMany : Nat → Reading → Reading
  | 0, r => r
  | n + 1, r => closeMany n r.close

/-- An item that starts with a blank line ends at the next. -/
def closeEmptyItem (r : Reading) : Reading :=
  let r' := if r.inEmptyItem && r.afterBlank && r.levels.head?.any Level.isItem then r.close else r
  { r' with inEmptyItem := false }

/-- Makes the list loose whose item is the innermost level. -/
def loosenOuter (r : Reading) : Reading :=
  match r.levels with
  | l :: outer :: ls => { r with levels := l :: outer.loosen :: ls }
  | _ => r

/-- Before a block that is no item: an open list is closed, and a blank line before the block makes
the list around it loose. -/
def endList (r : Reading) : Reading :=
  let r := r.closeEmptyItem
  let r := if r.levels.head?.any Level.isList then r.close else r
  if r.afterBlank then { r.loosenOuter with afterBlank := false } else r

/-- Before an item with this marker: goes on with the open list, or opens a new one. -/
def openList (r : Reading) (marker : Char) (n : Nat) : Reading :=
  let r := r.closeEmptyItem
  let fresh (r : Reading) : Reading :=
    { r.push (.list marker n true []) with afterBlank := false }
  match r.levels with
  | [] => fresh r
  | .list m k isTight is :: ls =>
    if m == marker then
      { r with levels := .list m k (isTight && !r.afterBlank) is :: ls, afterBlank := false }
    else fresh r.endList
  | _ => fresh r.endList

end Reading

end StaticSite.Markdown
