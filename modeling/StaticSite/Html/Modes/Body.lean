import StaticSite.Html.Modes.Head

/-! What a body holds. -/

namespace StaticSite.Html

open Construction

/-- An element of a drawing or a formula, which a tag that closes itself leaves empty. -/
def openForeign (v : Vocabulary) (t : Tag) : Build Outcome := do
  let id ← insertElement v (foreignName v t.name) (foreignAttributes v t)
  if !t.selfClosing then push id
  return .done

/-- The end of the text inside of templates closes the innermost and is read again. -/
def templateEnd : Build Outcome := do
  if (← get).isOpen "template" then
    leaveTemplate
    return .again
  else return .done

/-! ## Start tags -/

/-- A block that starts outside of a paragraph. -/
def openBlock (t : Tag) : Build Outcome := do
  leaveParagraph
  let _ ← openTag t
  return .done

/-- An element that starts inside the formatting. -/
def openInline (t : Tag) : Build Outcome := do
  reopenFormatting
  let _ ← openTag t
  return .done

def openHeading (t : Tag) : Build Outcome := do
  leaveParagraph
  if among headings (← get).currentName then pop
  let _ ← openTag t
  return .done

def openForm (t : Tag) : Build Outcome := do
  let c ← get
  let inTemplate := c.isOpen "template"
  if c.form.isNone || inTemplate then
    leaveParagraph
    let id ← openTag t
    if !inTemplate then modify fun c => { c with form := some id }
  return .done

/-- An item closes the item before it, unless a block is open between them. -/
def openItem (t : Tag) : Build Outcome := do
  forbidFrames
  let siblings := if t.name == "li" then ["li"] else ["dd", "dt"]
  let c ← get
  let stops (n : Name) : Bool := except ["address", "div", "p"] isSpecial n
  match c.stack.find? fun id => among siblings (c.name id) || stops (c.name id) with
  | some id => if among siblings (c.name id) then closeThroughNamed (c.name id).2
  | none => pure ()
  leaveParagraph
  let _ ← openTag t
  return .done

def openButton (t : Tag) : Build Outcome := do
  if (← get).inScope boundsScope "button" then
    closeThroughNamed "button"
  reopenFormatting
  let _ ← openTag t
  forbidFrames
  return .done

def openFormattingTag (t : Tag) : Build Outcome := do
  if t.name == "a" then endLink
  reopenFormatting
  if t.name == "nobr" && (← get).inScope boundsScope "nobr" then
    endFormatting "nobr"
    reopenFormatting
  openFormatting t
  return .done

/-- An element whose formatting does not pass its bounds. -/
def openBarrier (t : Tag) : Build Outcome := do
  reopenFormatting
  let _ ← openTag t
  pushBarrier
  forbidFrames
  return .done

def openTable (t : Tag) : Build Outcome := do
  if !(← get).tableInParagraph then leaveParagraph
  let _ ← openTag t
  forbidFrames
  setMode .inTable
  return .done

def Tag.isHidden (t : Tag) : Bool :=
  match t.attributes.lookup "type" with
  | some v => lower v.toList == "hidden".toList
  | none => false

/-- An element that holds nothing. -/
def insertEmpty (t : Tag) : Build Outcome := do
  reopenFormatting
  let _ ← insertTag t
  if !(t.name == "input" && t.isHidden) then forbidFrames
  return .done

def openSelect (t : Tag) : Build Outcome := do
  reopenFormatting
  let _ ← openTag t
  forbidFrames
  let inTable := [.inTable, .inCaption, .inSection, .inRow, .inCell].contains (← get).mode
  setMode (if inTable then .inTableSelect else .inSelect)
  return .done

def mergeBody (t : Tag) : Build Outcome := do
  let c ← get
  match c.body? with
  | some b =>
    if !c.isOpen "template" then
      forbidFrames
      modifySketch (·.addAttributes b (plainAttributes t))
  | none => pure ()
  return .done

/-- A set of frames takes the place of a body that has nothing in it yet. -/
def openFrames (t : Tag) : Build Outcome := do
  let c ← get
  match c.framesAllowed, c.body? with
  | true, some b =>
    modifySketch (·.detach b)
    modify fun c => { c with stack := [c.root] }
    let _ ← openTag t
    setMode .inFrames
  | _, _ => pure ()
  return .done

def skipLineFeed : Build Unit := modify fun c => { c with skipsLineFeed := true }

def startInBody (t : Tag) : Build Outcome := do
  let n := t.name
  if n == "html" then mergeRoot t
  else if headParts.contains n then headPart t
  else if n == "body" then mergeBody t
  else if n == "frameset" then openFrames t
  else if blocks.contains n then openBlock t
  else if headings.contains n then openHeading t
  else if n == "pre" || n == "listing" then
    let r ← openBlock t
    skipLineFeed
    forbidFrames
    return r
  else if n == "form" then openForm t
  else if ["li", "dd", "dt"].contains n then openItem t
  else if n == "plaintext" then
    let r ← openBlock t
    modify fun c => { c with textMode := .plain }
    return r
  else if n == "button" then openButton t
  else if formattingNames.contains n then openFormattingTag t
  else if ["applet", "marquee", "object"].contains n then openBarrier t
  else if n == "table" then openTable t
  else if ["area", "br", "embed", "img", "keygen", "wbr", "input"].contains n then insertEmpty t
  else if n == "image" then insertEmpty { t with name := "img" }
  else if ["param", "source", "track"].contains n then
    let _ ← insertTag t
    return .done
  else if n == "hr" then
    leaveParagraph
    let _ ← insertTag t
    forbidFrames
    return .done
  else if n == "textarea" then
    skipLineFeed
    forbidFrames
    openText t .escapable
  else if n == "xmp" then
    leaveParagraph
    reopenFormatting
    forbidFrames
    openText t .raw
  else if n == "iframe" then
    forbidFrames
    openText t .raw
  else if n == "noembed" || n == "noscript" then openText t .raw
  else if n == "select" then openSelect t
  else if n == "optgroup" || n == "option" then
    if (← get).currentIs "option" then pop
    openInline t
  else if ["rb", "rtc", "rp", "rt"].contains n then
    let kept := if n == "rb" || n == "rtc" then [] else ["rtc"]
    if (← get).inScope boundsScope "ruby" then closeWhile (except kept closesSilently)
    let _ ← openTag t
    return .done
  else if n == "math" then openForeign .math t
  else if n == "svg" then openForeign .svg t
  else if misplaced.contains n then return .done
  else openInline t

/-! ## End tags -/

/-- Closes the element of an end tag, if it is in scope. -/
def closeInScope (bounds : Name → Bool) (n : String) : Build Outcome := do
  if (← get).inScope bounds n then closeThroughNamed n
  return .done

def closeForm : Build Outcome := do
  let c ← get
  if c.isOpen "template" then closeInScope boundsScope "form"
  else
    set { c with form := none }
    match c.form with
    | some id =>
      if c.inScopeWhere boundsScope (· == id) then
        closeWhile closesSilently
        removeFromStack id
    | none => pure ()
    return .done

def endInBody (t : Tag) : Build Outcome := do
  let n := t.name
  if n == "template" then closeTemplate
  else if n == "body" then
    if (← get).inScope boundsScope "body" then setMode .afterBody
    return .done
  else if n == "html" then
    if (← get).inScope boundsScope "body" then againIn .afterBody else return .done
  else if closableBlocks.contains n then closeInScope boundsScope n
  else if n == "form" then closeForm
  else if n == "p" then
    if !(← get).inScope boundsButtonScope "p" then
      let _ ← openPlain "p"
    closeParagraph
    return .done
  else if n == "li" then closeInScope boundsItemScope n
  else if n == "dd" || n == "dt" then closeInScope boundsScope n
  else if headings.contains n then
    if (← get).inScopeAmong boundsScope headings then closeThrough (among headings)
    return .done
  else if formattingNames.contains n then
    endFormatting n
    return .done
  else if ["applet", "marquee", "object"].contains n then
    if (← get).inScope boundsScope n then
      closeThroughNamed n
      dropFormatting
    return .done
  else if n == "br" then insertEmpty ⟨"br", [], false⟩
  else
    closeOrdinary n
    return .done

def inBody (k : Token) : Build Outcome := do
  match k with
  | .chars s =>
    reopenFormatting
    if !isBlankText s then forbidFrames
    insertText s
  | .comment s => insertComment s
  | .startTag t => startInBody t
  | .endTag t => endInBody t
  | .eof => if (← get).templateModes.isEmpty then return .done else templateEnd
  | _ => return .done

/-- Reads a token as in a body, but puts what a table cannot hold before the table. -/
def inBodyFostered (k : Token) : Build Outcome := do
  modify fun c => { c with fostering := true }
  let r ← inBody k
  modify fun c => { c with fostering := false }
  return r

end StaticSite.Html
