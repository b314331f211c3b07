import StaticSite.Html.Names

/-! Writing a tree as HTML text. -/

namespace StaticSite.Html

/-- The spelling of a character in text. -/
def escapeChar : Char → List Char
  | '&' => "&amp;".toList
  | '<' => "&lt;".toList
  | '>' => "&gt;".toList
  | '\u00A0' => "&nbsp;".toList
  | c => [c]

/-- The spelling of a character in the value of an attribute. -/
def escapeValueChar : Char → List Char
  | '&' => "&amp;".toList
  | '"' => "&quot;".toList
  | '\u00A0' => "&nbsp;".toList
  | c => [c]

def escapeText (s : List Char) : List Char := s.flatMap escapeChar

def escapeValue (s : List Char) : List Char := s.flatMap escapeValueChar

/-- Elements that hold nothing and have no end tag. -/
def isVoid : Name → Bool :=
  among ["area", "base", "basefont", "bgsound", "br", "col", "embed", "frame", "hr", "img", "input",
    "keygen", "link", "meta", "param", "source", "track", "wbr"]

/-- Elements whose text is written as it is. -/
def holdsRawText : Name → Bool :=
  among ["style", "script", "xmp", "iframe", "noembed", "noframes", "plaintext", "noscript"]

def writeSpace (a : Attribute) : String :=
  match a.space with
  | .none => ""
  | .xml => "xml:"
  | .xlink => "xlink:"
  | .xmlns => if a.name == "xmlns" then "" else "xmlns:"

def writeAttribute (a : Attribute) : String :=
  " " ++ writeSpace a ++ a.name ++ "=\"" ++ String.ofList (escapeValue a.value.toList) ++ "\""

def writeAttributes (as : List Attribute) : String := String.join (as.map writeAttribute)

/-- Writes nodes after `done`; `raw` says that their text is written as it is. -/
def writeAfter (done : String) (raw : Bool) : Markup → String
  | .nil => done
  | .node (.text s) _ rest =>
    writeAfter (done ++ if raw then s else String.ofList (escapeText s.toList)) raw rest
  | .node (.comment s) _ rest => writeAfter (done ++ "<!--" ++ s ++ "-->") raw rest
  | .node (.doctype n) _ rest => writeAfter (done ++ "<!DOCTYPE " ++ n ++ ">") raw rest
  | .node (.element v n as) children rest =>
    let done := done ++ "<" ++ n ++ writeAttributes as ++ ">"
    if isVoid (v, n) then writeAfter done raw rest
    else
      let done := writeAfter done (holdsRawText (v, n)) children
      writeAfter (done ++ "</" ++ n ++ ">") raw rest

/-- The text of a tree. What a template contains is not part of the tree. -/
def serialize (m : Markup) : String := writeAfter "" false m

end StaticSite.Html
