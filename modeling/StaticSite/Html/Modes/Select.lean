import StaticSite.Html.Modes.Body

/-! What selects hold. -/

namespace StaticSite.Html

open Construction

/-- Closes the innermost select, and reads the token again. -/
def leaveSelect : Build Outcome := do
  closeThroughNamed "select"
  resetMode
  return .again

def inSelect (k : Token) : Build Outcome := do
  match k with
  | .chars s => insertText s
  | .comment s => insertComment s
  | .startTag t =>
    if t.name == "html" then mergeRoot t
    else if t.name == "option" || t.name == "optgroup" then
      if (← get).currentIs "option" then pop
      if t.name == "optgroup" && (← get).currentIs "optgroup" then pop
      let _ ← openTag t
      return .done
    else if t.name == "select" then
      if (← get).inScope boundsSelectScope "select" then
        let _ ← leaveSelect
      return .done
    else if ["input", "keygen", "textarea"].contains t.name then
      if (← get).inScope boundsSelectScope "select" then leaveSelect else return .done
    else if t.name == "script" || t.name == "template" then headPart t
    else return .done
  | .endTag t =>
    if t.name == "optgroup" then
      let c ← get
      match c.stack with
      | inner :: outer :: _ =>
        if c.name inner == (.html, "option") && c.name outer == (.html, "optgroup") then pop
      | _ => pure ()
      if (← get).currentIs "optgroup" then pop
      return .done
    else if t.name == "option" then
      if (← get).currentIs "option" then pop
      return .done
    else if t.name == "select" then
      if (← get).inScope boundsSelectScope "select" then
        let _ ← leaveSelect
      return .done
    else if t.name == "template" then closeTemplate
    else return .done
  | .eof => inBody k
  | _ => return .done

def inTableSelect (k : Token) : Build Outcome := do
  let parts := "caption" :: tableParts ++ cells
  match k with
  | .startTag t => if parts.contains t.name then leaveSelect else inSelect k
  | .endTag t =>
    if parts.contains t.name then
      if (← get).inScope boundsTableScope t.name then leaveSelect else return .done
    else inSelect k
  | _ => inSelect k

end StaticSite.Html
