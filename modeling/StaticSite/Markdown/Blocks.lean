import StaticSite.Markdown.Leaf

/-! The block structure of Markdown text.

Blocks are read line by line. A line continues some of the open levels and may open new ones; the
rest of it starts a leaf. -/

namespace StaticSite.Markdown

/-- Opens the levels that a line starts; no rest is left where the line holds nothing more. -/
def Reading.openLevels : Nat → Reading → Tail → Reading × Option Tail
  | 0, r, t => (r, some t)
  | fuel + 1, r, t =>
    let (indent, inside) := t.take 4
    if indent = 4 then (r, some t)
    else
      match openItem? indent inside with
      | some (marker, n, width, rest) =>
        let r := (r.openList marker n).push (.item width [])
        if isBlank rest.chars then ({ r with inEmptyItem := true }, none)
        else
          match openBox? rest with
          | some (checked, rest) =>
            if isBlank rest.chars then ({ r.add (.box checked) with inEmptyItem := true }, none)
            else Reading.openLevels fuel { r with box := some checked } rest
          | none => Reading.openLevels fuel r rest
      | none =>
        if inside.chars.head? == some '>' then
          Reading.openLevels fuel (r.endList.push (.quote [])) ((inside.drop 1).take 1).2
        else (r, some t)

/-- Notes a blank line. A blank line of a quote does not count for the lists around it. -/
def Reading.noteBlank (r : Reading) : Reading :=
  match r.levels with
  | .quote _ :: _ => r
  | .item indent bs :: ls =>
    { r with levels := .item (if r.inEmptyItem then 0 else indent) bs :: ls, afterBlank := true }
  | _ => { r with afterBlank := true }

/-- Reads a line, with the lines that its leaf takes; gives the lines that follow. -/
def Reading.readLine (r : Reading) (l : Line) (next : List Line) : Reading × List Line :=
  let (n, t) := matchLevels (Tail.ofLine l) r.levels.reverse
  let r := closeMany (r.levels.length - n) r
  match r.openLevels (t.chars.length + 1) t with
  | (r, none) => (r, next)
  | (r, some t) => if isBlank t.chars then (r.noteBlank, next) else r.readLeaf t l next

def Reading.readLines (r : Reading) (lines : List Line) : Reading :=
  match lines with
  | [] => r
  | l :: next =>
    let (r, rest) := r.readLine l next
    if rest.length ≤ next.length then r.readLines rest else r
termination_by lines.length

/-- The blocks of a text, and the definitions in it. -/
def readBlocks (s : List Char) : List Block × Definitions :=
  let r := Reading.start.readLines (splitLines s)
  let r := Reading.closeMany r.levels.length r
  (r.done.reverse, r.definitions)

end StaticSite.Markdown
