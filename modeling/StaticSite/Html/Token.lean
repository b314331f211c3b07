import StaticSite.Markup.Content

/-! Tokens of HTML text. -/

namespace StaticSite.Html

/-- A tag with its name and attributes as read, each attribute name once. -/
structure Tag where
  name : String
  attributes : List (String × String)
  selfClosing : Bool
  deriving DecidableEq, Repr, Inhabited

structure Doctype where
  name : Option String
  publicId : Option String
  systemId : Option String
  /-- The declaration is broken. -/
  broken : Bool
  deriving DecidableEq, Repr, Inhabited

inductive Token where
  | doctype (d : Doctype)
  | startTag (t : Tag)
  | endTag (t : Tag)
  | comment (s : String)
  /-- Characters that are all white space, or none of them. -/
  | chars (s : List Char)
  | null
  | eof
  deriving DecidableEq, Repr, Inhabited

/-- How text is read. In all but `data` only the end tag of the open element, if any, ends it. -/
inductive TextMode where
  | data
  /-- Text with references. -/
  | escapable
  | raw
  | script
  | plain
  deriving DecidableEq, Repr, Inhabited

def isSpace (c : Char) : Bool :=
  c == ' ' || c == '\n' || c == '\t' || c == '\x0c' || c == '\r'

def lower (s : List Char) : List Char := s.map Char.toLower

end StaticSite.Html
