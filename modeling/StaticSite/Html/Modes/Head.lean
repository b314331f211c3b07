import StaticSite.Html.Formatting

/-! What a document holds before its body. -/

namespace StaticSite.Html

open Construction

/-- White space before or around the parts of a document. -/
def isBlankText (s : List Char) : Bool := s.all isSpace

/-- A second start tag of the root adds the attributes that the root lacks. -/
def mergeRoot (t : Tag) : Build Outcome := do
  let c ← get
  if !c.isOpen "template" then modifySketch (·.addAttributes c.root (plainAttributes t))
  return .done

def openTemplate (t : Tag) : Build Outcome := do
  let _ ← openTag t
  pushBarrier
  forbidFrames
  modify fun c => { c with mode := .inTemplate, templateModes := .inTemplate :: c.templateModes }
  return .done

/-- Closes the innermost template and all that is open in it. -/
def leaveTemplate : Build Unit := do
  closeThroughNamed "template"
  dropFormatting
  modify fun c => { c with templateModes := c.templateModes.tail }
  resetMode

def closeTemplate : Build Outcome := do
  if (← get).isOpen "template" then
    closeWhile closesSilentlyInTemplate
    leaveTemplate
  return .done

/-- A part of a head, wherever it stands. -/
def headPart (t : Tag) : Build Outcome := do
  match t.name with
  | "title" => openText t .escapable
  | "noframes" | "style" | "noscript" => openText t .raw
  | "script" => openText t .script
  | "template" => openTemplate t
  | _ =>
    let _ ← insertTag t
    return .done

def inHead (k : Token) : Build Outcome := do
  match k with
  | .chars s =>
    if isBlankText s then insertText s
    else
      pop
      againIn .afterHead
  | .comment s => insertComment s
  | .startTag t =>
    if t.name == "html" then mergeRoot t
    else if t.name == "noscript" || headParts.contains t.name then headPart t
    else if t.name == "head" then return .done
    else
      pop
      againIn .afterHead
  | .endTag t =>
    if t.name == "head" then
      pop
      setMode .afterHead
      return .done
    else if ["body", "html", "br"].contains t.name then
      pop
      againIn .afterHead
    else if t.name == "template" then closeTemplate
    else return .done
  | _ =>
    pop
    againIn .afterHead

/-- End tags that open what they should have closed. -/
def opensAnyway : List String := ["head", "body", "html", "br"]

def startMode (k : Token) : Build Outcome := do
  match k with
  | .chars s => if isBlankText s then return .done else againQuietly
  | .comment s => appendComment Sketch.document s
  | _ => againQuietly
where
  againQuietly : Build Outcome := do
    modify fun c => { c with tableInParagraph := true }
    againIn .beforeHtml

def beforeHtml (k : Token) : Build Outcome := do
  match k with
  | .chars s => if isBlankText s then return .done else openAndContinue
  | .comment s => appendComment Sketch.document s
  | .startTag t =>
    if t.name == "html" then
      openRoot (plainAttributes t)
      setMode .beforeHead
      return .done
    else openAndContinue
  | .endTag t => if opensAnyway.contains t.name then openAndContinue else return .done
  | _ => openAndContinue
where
  openAndContinue : Build Outcome := do
    openRoot []
    againIn .beforeHead

def openHead (t : Tag) : Build Unit := do
  let id ← openTag t
  modify fun c => { c with head := some id }

def beforeHead (k : Token) : Build Outcome := do
  match k with
  | .chars s => if isBlankText s then return .done else openAndContinue
  | .comment s => insertComment s
  | .startTag t =>
    if t.name == "html" then mergeRoot t
    else if t.name == "head" then
      openHead t
      setMode .inHead
      return .done
    else openAndContinue
  | .endTag t => if opensAnyway.contains t.name then openAndContinue else return .done
  | _ => openAndContinue
where
  openAndContinue : Build Outcome := do
    openHead ⟨"head", [], false⟩
    againIn .inHead

def afterHead (k : Token) : Build Outcome := do
  match k with
  | .chars s => if isBlankText s then insertText s else openAndContinue
  | .comment s => insertComment s
  | .startTag t =>
    if t.name == "html" then mergeRoot t
    else if t.name == "body" then
      let _ ← openTag t
      forbidFrames
      setMode .inBody
      return .done
    else if t.name == "frameset" then
      let _ ← openTag t
      setMode .inFrames
      return .done
    else if headParts.contains t.name then
      let head := (← get).head.getD Sketch.document
      push head
      let r ← headPart t
      removeFromStack head
      return r
    else if t.name == "head" then return .done
    else openAndContinue
  | .endTag t =>
    if t.name == "template" then closeTemplate
    else if ["body", "html", "br"].contains t.name then openAndContinue
    else return .done
  | _ => openAndContinue
where
  openAndContinue : Build Outcome := do
    let _ ← openPlain "body"
    againIn .inBody

end StaticSite.Html
