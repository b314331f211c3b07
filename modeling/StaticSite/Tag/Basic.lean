/-! Placeholder tags: references to the names of a scope, and includes of files.

A variable tag stands between three braces, an include tag between three angle brackets, raw or
in the escaped spelling that survives a markup tree. -/

namespace StaticSite

/-- The expression of a variable tag: a plain name, the next item of a repeated list, or a field
of the current record of a repeated list. -/
inductive Reference where
  | name (name : String)
  | item (list : String)
  | field (field list : String)
  deriving DecidableEq, Repr

namespace Reference

/-- The repeated list that a reference reads, if any. -/
def list? : Reference → Option String
  | name _ => none
  | item l | field _ l => some l

end Reference

/-- A tag as read. The kind of an include is kept as written, so that an unknown one can be
named in an error. -/
inductive Tag where
  | file (kind path : String)
  | reference (ref : Reference)
  deriving DecidableEq, Repr

/-- What is wrong with the expression of a variable tag. -/
inductive TagFault where
  | emptyName
  | emptyList
  | emptyField
  | notAReference
  deriving DecidableEq, Repr

def TagFault.message : TagFault → String
  | .emptyName => "empty variable name"
  | .emptyList => "empty list name"
  | .emptyField => "empty field name"
  | .notAReference => "expected `name`, `#:list` or `field:list`"

/-- A variable tag outside the grammar, with its whole text. -/
structure TagError where
  text : String
  fault : TagFault
  deriving DecidableEq, Repr

def TagError.message (e : TagError) : String :=
  "malformed placeholder `" ++ e.text ++ "`: " ++ e.fault.message

end StaticSite
