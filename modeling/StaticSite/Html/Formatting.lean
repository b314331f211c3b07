import StaticSite.Html.Construction

/-! Formatting that blocks cut short or that ends out of order. -/

namespace StaticSite.Html

open Construction

/-- Whether an entry is a barrier or an element that is still open. -/
def FormatEntry.isSettled (stack : List NodeId) : FormatEntry → Bool
  | barrier => true
  | element id _ => stack.contains id

def FormatEntry.isOf (id : NodeId) : FormatEntry → Bool
  | barrier => false
  | element i _ => i == id

/-- Opens entries, given oldest first, again; gives the new entries, newest first. -/
def reopen : List FormatEntry → Build (List FormatEntry)
  | [] => return []
  | .barrier :: es => reopen es
  | .element _ tag :: es => do
    let id ← openTag tag
    let newer ← reopen es
    return newer ++ [.element id tag]

/-- Opens the formatting again that has been closed since the last barrier. -/
def reopenFormatting : Build Unit := do
  let c ← get
  let closed := c.formatting.takeWhile (!·.isSettled c.stack)
  let opened ← reopen closed.reverse
  modify fun c => { c with formatting := opened ++ c.formatting.drop closed.length }

/-- The formatting elements since the last barrier, newest first. -/
def Construction.recentFormatting (c : Construction) : List (NodeId × Tag) :=
  (c.formatting.takeWhile (· != .barrier)).filterMap fun
    | .element id t => some (id, t)
    | .barrier => none

def Construction.formatted (c : Construction) (id : NodeId) : Bool := c.formatting.any (·.isOf id)

def Tag.sameAs (t u : Tag) : Bool :=
  t.name == u.name && t.attributes.length == u.attributes.length &&
    t.attributes.all u.attributes.contains

/-- Opens a formatting element. Of four alike since the last barrier the oldest is forgotten. -/
def openFormatting (t : Tag) : Build Unit := do
  let c ← get
  let alike := c.recentFormatting.filter fun (_, u) => t.sameAs u
  if 3 ≤ alike.length then
    match alike.getLast? with
    | some (id, _) =>
      modify fun c => { c with formatting := c.formatting.filter (!·.isOf id) }
    | none => pure ()
  let id ← openTag t
  modify fun c => { c with formatting := .element id t :: c.formatting }

/-- An end tag with no rule of its own closes the element of its name, unless a special one is
open inside it. -/
def closeOrdinary (n : String) : Build Unit := do
  let c ← get
  match c.stack.find? fun id => c.name id == (.html, n) || isSpecial (c.name id) with
  | none => pure ()
  | some id =>
    if c.name id == (.html, n) then
      set { c with stack := (c.stack.dropWhile (· != id)).tail }

/-! ## Formatting that ends inside a block -/

/-- Where the formatting moved into the block stands among the formatting: in place of the
element that ends, or just after the copy of another. -/
inductive Bookmark where
  | here
  | after (id : NodeId)

/-- Goes up from the block to the element that ends, through elements given innermost first. Each
of the first three that is formatting is replaced by a copy which takes the last node into it; all
others are closed. -/
def rewrap (block : NodeId) :
    List NodeId → Nat → NodeId → Bookmark → Build (NodeId × Bookmark)
  | [], _, last, mark => return (last, mark)
  | node :: outer, count, last, mark => do
    let c ← get
    match c.formatting.find? (·.isOf node) with
    | some (.element _ tag) =>
      if 3 ≤ count then
        set { c with formatting := c.formatting.filter (!·.isOf node), stack := c.stack.erase node }
        rewrap block outer (count + 1) last mark
      else
        let copy ← create (.element .html tag.name (plainAttributes tag))
        modify fun c => { c with
          stack := c.stack.map fun id => if id == node then copy else id
          formatting := c.formatting.map fun e => if e.isOf node then .element copy tag else e }
        modifySketch (·.append copy last)
        rewrap block outer (count + 1) copy (if last == block then .after copy else mark)
    | _ =>
      set { c with stack := c.stack.erase node }
      rewrap block outer (count + 1) last mark

/-- Puts the entry of the formatting moved into the block in its place. -/
def placeEntry (ended : NodeId) (entry : FormatEntry) (mark : Bookmark) (es : List FormatEntry) :
    List FormatEntry :=
  match mark with
  | .here => es.map fun e => if e.isOf ended then entry else e
  | .after id =>
    (es.flatMap fun e => if e.isOf id then [entry, e] else [e]).filter (!·.isOf ended)

/-- Ends a formatting element that a block lies in: the part of the block that follows the end tag
is not formatted, so the formatting moves inside the block. -/
def moveIntoBlock (ended : NodeId) (tag : Tag) (block : NodeId) : Build Unit := do
  let c ← get
  let between := ((c.stack.dropWhile (· != block)).tail).takeWhile (· != ended)
  let ancestor := ((c.stack.dropWhile (· != ended)).tail).head?.getD c.root
  let (last, mark) ← rewrap block between 0 block .here
  modifySketch (·.detach last)
  place last ancestor
  let inside ← create (.element .html tag.name (plainAttributes tag))
  modifySketch fun t => (t.moveChildren block inside).append block inside
  modify fun c => { c with
    formatting := placeEntry ended (.element inside tag) mark c.formatting
    stack := (c.stack.erase ended).flatMap fun id =>
      if id == block then [inside, block] else [id] }

/-- Ends the formatting of this name, at most `n` elements of it. -/
def endFormattingUpTo (name : String) : Nat → Build Unit
  | 0 => return
  | n + 1 => do
    let c ← get
    match c.recentFormatting.find? fun (_, t) => t.name == name with
    | none => closeOrdinary name
    | some (id, tag) =>
      if !c.stack.contains id then
        set { c with formatting := c.formatting.filter (!·.isOf id) }
      else if c.inScopeWhere boundsScope (· == id) then
        match ((c.stack.takeWhile (· != id)).reverse).find? fun b => isSpecial (c.name b) with
        | none =>
          set { c with
            stack := (c.stack.dropWhile (· != id)).tail
            formatting := c.formatting.filter (!·.isOf id) }
        | some block =>
          moveIntoBlock id tag block
          endFormattingUpTo name n

/-- Ends the formatting of this name. -/
def endFormatting (name : String) : Build Unit := do
  let c ← get
  if c.currentIs name && !c.formatted c.current then pop
  else endFormattingUpTo name 8

/-- Ends a link that is open when another starts. -/
def endLink : Build Unit := do
  match (← get).recentFormatting.find? fun (_, t) => t.name == "a" with
  | none => pure ()
  | some (id, _) =>
    endFormatting "a"
    modify fun c => { c with
      formatting := c.formatting.filter (!·.isOf id)
      stack := c.stack.erase id }

end StaticSite.Html
