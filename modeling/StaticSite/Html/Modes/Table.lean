import StaticSite.Html.Modes.Body

/-! What tables hold. -/

namespace StaticSite.Html

open Construction

/-- End tags that a table ignores. -/
def strayInTable : List String :=
  ["body", "caption", "col", "colgroup", "html", "tbody", "td", "tfoot", "th", "thead", "tr"]

def clearToTable : Build Unit := closeTo ["table", "template", "html"]

def clearToSection : Build Unit := closeTo ["tbody", "tfoot", "thead", "template", "html"]

def clearToRow : Build Unit := closeTo ["tr", "template", "html"]

/-- Text in a table is kept until it is known whether all of it is white space. -/
def textInTable (k : Token) : Build Outcome := do
  let c ← get
  if among tableParts c.currentName then
    set { c with returnMode := c.mode }
    againIn .inTableText
  else inBodyFostered k

def inTable (k : Token) : Build Outcome := do
  match k with
  | .chars _ | .null => textInTable k
  | .comment s => insertComment s
  | .startTag t =>
    let n := t.name
    if n == "caption" then
      clearToTable
      pushBarrier
      let _ ← openTag t
      setMode .inCaption
      return .done
    else if n == "colgroup" then
      clearToTable
      let _ ← openTag t
      setMode .inColumns
      return .done
    else if n == "col" then
      clearToTable
      let _ ← openPlain "colgroup"
      againIn .inColumns
    else if tableSections.contains n then
      clearToTable
      let _ ← openTag t
      setMode .inSection
      return .done
    else if n == "tr" || cells.contains n then
      clearToTable
      let _ ← openPlain "tbody"
      againIn .inSection
    else if n == "table" then
      if (← get).inScope boundsTableScope "table" then
        closeThroughNamed "table"
        resetMode
        return .again
      else return .done
    else if ["style", "script", "template"].contains n then headPart t
    else if n == "input" && t.isHidden then
      let _ ← insertTag t
      return .done
    else if n == "form" then
      let c ← get
      if !c.isOpen "template" && c.form.isNone then
        let id ← insertTag t
        modify fun c => { c with form := some id }
      return .done
    else inBodyFostered k
  | .endTag t =>
    if t.name == "table" then
      if (← get).inScope boundsTableScope "table" then
        closeThroughNamed "table"
        resetMode
      return .done
    else if strayInTable.contains t.name then return .done
    else if t.name == "template" then closeTemplate
    else inBodyFostered k
  | .eof => inBody k
  | .doctype _ => return .done

/-- Places the text of a table: inside it if all is white space, else before it. -/
def placeTableText : List (List Char) → Bool → Build Unit
  | [], _ => return
  | s :: rest, isBlank => do
    let _ ← if isBlank then insertText s else inBodyFostered (.chars s)
    placeTableText rest isBlank

def inTableText (k : Token) : Build Outcome := do
  match k with
  | .null => return .done
  | .chars s =>
    modify fun c => { c with tableText := s :: c.tableText }
    return .done
  | _ =>
    let c ← get
    set { c with tableText := [] }
    placeTableText c.tableText.reverse (c.tableText.all isBlankText)
    againIn c.returnMode

def inCaption (k : Token) : Build Outcome := do
  let leave : Build Bool := do
    if (← get).inScope boundsTableScope "caption" then
      closeThroughNamed "caption"
      dropFormatting
      return true
    else return false
  match k with
  | .startTag t =>
    if (misplaced.erase "frame").erase "head" |>.contains t.name then
      if ← leave then againIn .inTable else return .done
    else inBody k
  | .endTag t =>
    if t.name == "caption" then
      if ← leave then setMode .inTable
      return .done
    else if t.name == "table" then
      if ← leave then againIn .inTable else return .done
    else if strayInTable.contains t.name then return .done
    else inBody k
  | _ => inBody k

def inColumns (k : Token) : Build Outcome := do
  let leave : Build Outcome := do
    if (← get).currentIs "colgroup" then
      pop
      againIn .inTable
    else return .done
  match k with
  | .chars s => if isBlankText s then insertText s else leave
  | .comment s => insertComment s
  | .startTag t =>
    if t.name == "html" then mergeRoot t
    else if t.name == "col" then
      let _ ← insertTag t
      return .done
    else if t.name == "template" then headPart t
    else leave
  | .endTag t =>
    if t.name == "colgroup" then
      if (← get).currentIs "colgroup" then
        pop
        setMode .inTable
      return .done
    else if t.name == "col" then return .done
    else if t.name == "template" then closeTemplate
    else leave
  | .eof => inBody k
  | _ => leave

def inSection (k : Token) : Build Outcome := do
  let leave : Build Outcome := do
    if (← get).inScopeAmong boundsTableScope ["table", "tbody", "tfoot"] then
      clearToSection
      pop
      againIn .inTable
    else return .done
  match k with
  | .startTag t =>
    if t.name == "tr" then
      clearToSection
      let _ ← openTag t
      setMode .inRow
      return .done
    else if cells.contains t.name then
      clearToSection
      let _ ← openPlain "tr"
      againIn .inRow
    else if ["caption", "col", "colgroup", "tbody", "tfoot", "thead"].contains t.name then leave
    else inTable k
  | .endTag t =>
    if tableSections.contains t.name then
      if (← get).inScope boundsTableScope t.name then
        clearToSection
        pop
        setMode .inTable
      return .done
    else if t.name == "table" then leave
    else inTable k
  | _ => inTable k

def inRow (k : Token) : Build Outcome := do
  let leave : Build Bool := do
    if (← get).inScope boundsTableScope "tr" then
      clearToRow
      pop
      return true
    else return false
  match k with
  | .startTag t =>
    if cells.contains t.name then
      clearToRow
      let _ ← openTag t
      setMode .inCell
      pushBarrier
      return .done
    else if ["caption", "col", "colgroup", "tbody", "tfoot", "thead", "tr"].contains t.name then
      if ← leave then againIn .inSection else return .done
    else inTable k
  | .endTag t =>
    if t.name == "tr" then
      if ← leave then setMode .inSection
      return .done
    else if t.name == "table" then
      if ← leave then againIn .inSection else return .done
    else if tableSections.contains t.name then
      if (← get).inScope boundsTableScope t.name then
        if ← leave then againIn .inSection else return .done
      else return .done
    else inTable k
  | _ => inTable k

def closeCell : Build Unit := do
  closeWhile closesSilently
  closeThrough (among cells)
  dropFormatting

def inCell (k : Token) : Build Outcome := do
  match k with
  | .startTag t =>
    if (misplaced.erase "frame").erase "head" |>.contains t.name then
      if (← get).inScopeAmong boundsTableScope cells then
        closeCell
        againIn .inRow
      else return .done
    else inBody k
  | .endTag t =>
    if cells.contains t.name then
      if (← get).inScope boundsTableScope t.name then
        closeThroughNamed t.name
        dropFormatting
        setMode .inRow
      return .done
    else if ["body", "caption", "col", "colgroup", "html"].contains t.name then return .done
    else if tableParts.contains t.name then
      if (← get).inScope boundsTableScope t.name then
        closeCell
        againIn .inRow
      else return .done
    else inBody k
  | _ => inBody k

end StaticSite.Html
