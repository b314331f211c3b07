/-! The syntax of JSON text. -/

namespace StaticSite

/-- A JSON text as written: members of an object in order, with repeated keys. A number out of
range and a string with a lone surrogate are well formed, but have no value. -/
inductive Json where
  | null
  | boolean (b : Bool)
  | number (x : Option Float)
  | string (s : Option String)
  | array (items : List Json)
  | object (members : List (Option String × Json))

end StaticSite
