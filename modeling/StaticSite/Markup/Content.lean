import StaticSite.Forest

/-! The nodes of a markup tree. -/

namespace StaticSite

/-- The vocabulary that an element belongs to. -/
inductive Vocabulary where
  | html
  | math
  | svg
  deriving DecidableEq, Repr, Inhabited

/-- The prefix that an attribute is written with. -/
inductive AttributeSpace where
  | none
  | xlink
  | xml
  | xmlns
  deriving DecidableEq, Repr, Inhabited

structure Attribute where
  space : AttributeSpace
  name : String
  value : String
  deriving DecidableEq, Repr, Inhabited

/-- A node without its children. -/
inductive Content where
  | text (s : String)
  | comment (s : String)
  | doctype (name : String)
  | element (vocabulary : Vocabulary) (name : String) (attributes : List Attribute)
  deriving DecidableEq, Repr, Inhabited

namespace Content

/-- The name of an element, in any vocabulary. -/
def name? : Content → Option String
  | element _ n _ => some n
  | _ => none

def attributes : Content → List Attribute
  | element _ _ as => as
  | _ => []

/-- The value of the first attribute with this name, whatever its prefix. -/
def attribute? (c : Content) (name : String) : Option String :=
  (c.attributes.find? (·.name == name)).map (·.value)

end Content

/-- A tree of markup, as the nodes at its top. -/
abbrev Markup := Forest Content

/-- The operations on markup and Markdown text that expansion rests on. -/
structure Formats where
  /-- Reads a complete document. -/
  parseDocument : String → Markup
  /-- Reads the content of a body. -/
  parseFragment : String → Markup
  serialize : Markup → String
  /-- Renders Markdown as markup text. -/
  renderMarkdown : String → String

end StaticSite
