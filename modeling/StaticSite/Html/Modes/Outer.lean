import StaticSite.Html.Modes.Body

/-! Templates, frames, and what follows the body. -/

namespace StaticSite.Html

open Construction

def inTemplate (k : Token) : Build Outcome := do
  let readAs (m : Mode) : Build Outcome := do
    modify fun c => { c with templateModes := m :: c.templateModes.tail }
    againIn m
  match k with
  | .chars _ | .comment _ => inBody k
  | .startTag t =>
    if headParts.contains t.name then headPart t
    else if "caption" :: "colgroup" :: tableSections |>.contains t.name then readAs .inTable
    else if t.name == "col" then readAs .inColumns
    else if t.name == "tr" then readAs .inSection
    else if cells.contains t.name then readAs .inRow
    else readAs .inBody
  | .endTag t => if t.name == "template" then closeTemplate else return .done
  | .eof => templateEnd
  | _ => return .done

def afterBody (k : Token) : Build Outcome := do
  match k with
  | .chars s => if isBlankText s then inBody k else againIn .inBody
  | .comment s => appendComment (← get).root s
  | .startTag t => if t.name == "html" then mergeRoot t else againIn .inBody
  | .endTag t =>
    if t.name == "html" then
      if !(← get).isFragment then setMode .afterHtml
      return .done
    else againIn .inBody
  | .eof => return .done
  | _ => againIn .inBody

def afterHtml (k : Token) : Build Outcome := do
  match k with
  | .chars s => if isBlankText s then inBody k else againIn .inBody
  | .comment s => appendComment Sketch.document s
  | .startTag t => if t.name == "html" then mergeRoot t else againIn .inBody
  | .eof => return .done
  | _ => againIn .inBody

def inFrames (k : Token) : Build Outcome := do
  match k with
  | .chars s => if isBlankText s then insertText s else return .done
  | .comment s => insertComment s
  | .startTag t =>
    if t.name == "html" then mergeRoot t
    else if t.name == "frameset" then
      let _ ← openTag t
      return .done
    else if t.name == "frame" then
      let _ ← insertTag t
      return .done
    else if t.name == "noframes" then headPart t
    else return .done
  | .endTag t =>
    if t.name == "frameset" && 1 < (← get).stack.length then
      pop
      let c ← get
      if !c.isFragment && !c.currentIs "frameset" then setMode .afterFrames
    return .done
  | _ => return .done

def afterFrames (k : Token) : Build Outcome := do
  match k with
  | .chars s => if isBlankText s then insertText s else return .done
  | .comment s => insertComment s
  | .startTag t =>
    if t.name == "html" then mergeRoot t
    else if t.name == "noframes" then headPart t
    else return .done
  | .endTag t =>
    if t.name == "html" then setMode .afterFramesHtml
    return .done
  | _ => return .done

def afterFramesHtml (k : Token) : Build Outcome := do
  match k with
  | .chars s => if isBlankText s then inBody k else return .done
  | .comment s => appendComment Sketch.document s
  | .startTag t =>
    if t.name == "html" then mergeRoot t
    else if t.name == "noframes" then headPart t
    else return .done
  | _ => return .done

end StaticSite.Html
