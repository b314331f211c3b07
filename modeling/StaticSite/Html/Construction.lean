import StaticSite.Html.Foreign
import StaticSite.Html.Sketch

/-! A document under construction: the sketch of its tree, the elements still open, and the
formatting to be opened again. -/

namespace StaticSite.Html

/-- What part of a document is being read. -/
inductive Mode where
  | start
  | beforeHtml
  | beforeHead
  | inHead
  | afterHead
  | inBody
  | rawText
  | inTable
  | inTableText
  | inCaption
  | inColumns
  | inSection
  | inRow
  | inCell
  | inSelect
  | inTableSelect
  | inTemplate
  | afterBody
  | inFrames
  | afterFrames
  | afterHtml
  | afterFramesHtml
  deriving DecidableEq, Repr, Inhabited

/-- A formatting element with the tag that opened it, or a place that formatting does not pass. -/
inductive FormatEntry where
  | barrier
  | element (id : NodeId) (tag : Tag)
  deriving DecidableEq, Inhabited

structure Construction where
  sketch : Sketch
  mode : Mode
  /-- The mode to return to after raw text or the text of a table. -/
  returnMode : Mode
  /-- The modes of the open templates, innermost first. -/
  templateModes : List Mode
  /-- The open elements, innermost first. -/
  stack : List NodeId
  /-- The formatting, newest first. -/
  formatting : List FormatEntry
  head : Option NodeId
  form : Option NodeId
  /-- What is put into a table goes before it. -/
  fostering : Bool
  framesAllowed : Bool
  /-- A line feed that comes next is dropped. -/
  skipsLineFeed : Bool
  /-- A table may stand in a paragraph. -/
  tableInParagraph : Bool
  /-- The text is the content of a body, not a document. -/
  isFragment : Bool
  textMode : TextMode
  /-- The text of a table that has not been placed, newest first. -/
  tableText : List (List Char)
  deriving Inhabited

/-- A step of the construction. -/
abbrev Build := StateM Construction

/-- Whether a token has been used up, or is to be read once more in the mode that is now set. -/
inductive Outcome where
  | done
  | again
  deriving DecidableEq, Repr, Inhabited

namespace Construction

/-! ## Looking at the open elements -/

def name (c : Construction) (id : NodeId) : Name :=
  match c.sketch.content? id with
  | some (.element v n _) => (v, n)
  | _ => (.html, "")

def current (c : Construction) : NodeId := c.stack.head?.getD Sketch.document

def currentName (c : Construction) : Name := c.name c.current

def currentIs (c : Construction) (n : String) : Bool := c.currentName == (.html, n)

/-- Whether an HTML element of this name is open. -/
def isOpen (c : Construction) (n : String) : Bool := c.stack.any fun id => c.name id == (.html, n)

/-- Whether a wanted element is open and not hidden by one that bounds the scope. -/
def inScopeWhere (c : Construction) (bounds : Name → Bool) (wanted : NodeId → Bool) : Bool :=
  match c.stack.find? fun id => wanted id || bounds (c.name id) with
  | some id => wanted id
  | none => false

def inScope (c : Construction) (bounds : Name → Bool) (n : String) : Bool :=
  c.inScopeWhere bounds fun id => c.name id == (.html, n)

def inScopeAmong (c : Construction) (bounds : Name → Bool) (names : List String) : Bool :=
  c.inScopeWhere bounds fun id => among names (c.name id)

/-- The outermost open element, which is the root of the document. -/
def root (c : Construction) : NodeId := c.stack.getLast?.getD Sketch.document

/-- The body, if it is open just below the root. -/
def body? (c : Construction) : Option NodeId :=
  match c.stack.reverse with
  | _ :: b :: _ => if c.name b == (.html, "body") then some b else none
  | _ => none

/-- The name that decides how the next token is read: that of the innermost open element. The
root of a fragment stands for a body. -/
def adjustedName (c : Construction) : Name :=
  match c.stack with
  | [_] => if c.isFragment then (.html, "body") else c.currentName
  | _ => c.currentName

/-! ## The mode that the open elements call for -/

/-- The mode of a select, by the elements around it. -/
def selectMode (c : Construction) (around : List NodeId) : Mode :=
  match around.find? fun id => among ["template", "table"] (c.name id) with
  | some id => if c.name id == (.html, "table") then .inTableSelect else .inSelect
  | none => .inSelect

/-- The mode for the innermost of some open elements, the root last. -/
def modeFor (c : Construction) : List NodeId → Mode
  | [] => .inBody
  | id :: around =>
    let isLast := around.isEmpty
    let n := if isLast && c.isFragment then (.html, "body") else c.name id
    let isCell := among cells n && !isLast
    if n == (.html, "select") then c.selectMode around
    else if isCell then .inCell
    else if n == (.html, "tr") then .inRow
    else if among tableSections n then .inSection
    else if n == (.html, "caption") then .inCaption
    else if n == (.html, "colgroup") then .inColumns
    else if n == (.html, "table") then .inTable
    else if n == (.html, "template") then c.templateModes.head?.getD .inBody
    else if n == (.html, "head") && !isLast then .inHead
    else if n == (.html, "body") then .inBody
    else if n == (.html, "frameset") then .inFrames
    else if n == (.html, "html") then if c.head.isNone then .beforeHead else .afterHead
    else c.modeFor around

end Construction

open Construction

/-- Ends the reading of a token in another mode, which reads it again. -/
def againIn (m : Mode) : Build Outcome := do
  modify fun c => { c with mode := m }
  return .again

def setMode (m : Mode) : Build Unit := modify fun c => { c with mode := m }

/-- Sets the mode that the open elements call for. -/
def resetMode : Build Unit := modify fun c => { c with mode := c.modeFor c.stack }

def forbidFrames : Build Unit := modify fun c => { c with framesAllowed := false }

def modifySketch (f : Sketch → Sketch) : Build Unit :=
  modify fun c => { c with sketch := f c.sketch }

/-! ## Closing elements -/

def pop : Build Unit := modify fun c => { c with stack := c.stack.tail }

def push (id : NodeId) : Build Unit := modify fun c => { c with stack := id :: c.stack }

/-- Closes elements as long as their names have a property. -/
def closeWhile (p : Name → Bool) : Build Unit :=
  modify fun c => { c with stack := c.stack.dropWhile fun id => p (c.name id) }

/-- Closes elements down to the first whose name has a property, and that one too. -/
def closeThrough (p : Name → Bool) : Build Unit :=
  modify fun c => { c with stack := (c.stack.dropWhile fun id => !p (c.name id)).tail }

def closeThroughNamed (n : String) : Build Unit := closeThrough (· == (.html, n))

/-- Closes elements down to the first among some names, which stays open. -/
def closeTo (names : List String) : Build Unit := closeWhile (!among names ·)

def removeFromStack (id : NodeId) : Build Unit :=
  modify fun c => { c with stack := c.stack.erase id }

/-- Drops the formatting back to the last barrier, and the barrier. -/
def dropFormatting : Build Unit :=
  modify fun c => { c with formatting := (c.formatting.dropWhile (· != .barrier)).tail }

def pushBarrier : Build Unit := modify fun c => { c with formatting := .barrier :: c.formatting }

/-- Closes the open paragraph. -/
def closeParagraph : Build Unit := do
  closeWhile (except ["p"] closesSilently)
  closeThroughNamed "p"

/-- Closes the paragraph that a block would otherwise lie in. -/
def leaveParagraph : Build Unit := do
  if (← get).inScope boundsButtonScope "p" then closeParagraph

/-! ## Placing nodes -/

/-- A place in a tree: at the end of a node, or just before one. -/
inductive Place where
  | endOf (id : NodeId)
  | before (id : NodeId)

/-- The end of a node, or of what a template contains. -/
def Construction.endOf (c : Construction) (id : NodeId) : Place :=
  .endOf (match c.sketch.cell? id with
    | some cell => cell.inner.getD id
    | none => id)

/-- Where what a table cannot hold goes: before the innermost open table, or at the end of the
element around it if the table lies nowhere. -/
def Construction.fosterPlace (c : Construction) : List NodeId → Place
  | [] => .endOf c.root
  | id :: around =>
    if c.name id == (.html, "template") then c.endOf id
    else if c.name id == (.html, "table") then
      if (c.sketch.parent? id).isSome then .before id else .endOf (around.head?.getD c.root)
    else c.fosterPlace around

/-- Where a node meant for `target` goes. -/
def Construction.placeFor (c : Construction) (target : NodeId) : Place :=
  if c.fostering && among tableParts (c.name target) then c.fosterPlace c.stack
  else c.endOf target

def Sketch.place (t : Sketch) (id : NodeId) : Place → Sketch
  | .endOf p => t.append p id
  | .before s => t.insertBefore s id

def Sketch.placeText (t : Sketch) (s : String) : Place → Sketch
  | .endOf p => t.appendText p s
  | .before sibling => t.insertTextBefore sibling s

def insertText (s : List Char) : Build Outcome := do
  modify fun c =>
    { c with sketch := c.sketch.placeText (String.ofList s) (c.placeFor c.current) }
  return .done

/-- Adds a node that lies nowhere yet. -/
def create (content : Content) : Build NodeId := do
  let c ← get
  let (id, t) := c.sketch.add content
  let isTemplate := match content with
    | .element .html "template" _ => true
    | _ => false
  set { c with sketch := if isTemplate then t.addInner id else t }
  return id

def place (id target : NodeId) : Build Unit :=
  modify fun c => { c with sketch := c.sketch.place id (c.placeFor target) }

def insertComment (s : String) : Build Outcome := do
  let id ← create (.comment s)
  place id (← get).current
  return .done

/-- Puts a comment at the end of a node. -/
def appendComment (target : NodeId) (s : String) : Build Outcome := do
  let id ← create (.comment s)
  modifySketch (·.append target id)
  return .done

def insertElement (v : Vocabulary) (n : String) (as : List Attribute) : Build NodeId := do
  let id ← create (.element v n as)
  place id (← get).current
  return id

/-- Opens the HTML element of a tag. -/
def openTag (t : Tag) : Build NodeId := do
  let id ← insertElement .html t.name (plainAttributes t)
  push id
  return id

/-- Opens an HTML element that no tag opened. -/
def openPlain (n : String) : Build NodeId := openTag ⟨n, [], false⟩

/-- Inserts the HTML element of a tag, with nothing in it. -/
def insertTag (t : Tag) : Build NodeId := insertElement .html t.name (plainAttributes t)

/-- Opens the element of a tag whose content is read as text. -/
def openText (t : Tag) (m : TextMode) : Build Outcome := do
  let _ ← openTag t
  modify fun c => { c with returnMode := c.mode, mode := .rawText, textMode := m }
  return .done

/-- Opens the root of the document. -/
def openRoot (as : List Attribute) : Build Unit := do
  let id ← create (.element .html "html" as)
  push id
  modifySketch (·.append Sketch.document id)

end StaticSite.Html
