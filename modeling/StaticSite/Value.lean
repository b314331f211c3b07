import StaticSite.Json.Decode
import StaticSite.Json.Encode

/-! Values of input data, and the text that a placeholder for one is replaced with. -/

namespace StaticSite

/-- A value of input data. The fields of a record are sorted by name, each name once. -/
inductive Value where
  | null
  | boolean (b : Bool)
  | number (x : Float)
  | string (s : String)
  | list (items : List Value)
  | record (fields : List (String × Value))
  deriving Inhabited

/-- Values by name, sorted by name. -/
abbrev Fields := List (String × Value)

namespace Fields

/-- Binds a name, in place of any earlier binding of it. -/
def insert (name : String) (v : Value) : Fields → Fields
  | [] => [(name, v)]
  | (n, w) :: rest =>
    if name = n then (name, v) :: rest
    else if name < n then (name, v) :: (n, w) :: rest
    else (n, w) :: insert name v rest

/-- The bindings of a list, of which a later one of a name wins. -/
def ofList (ms : List (String × Value)) : Fields := ms.foldl (fun fs (n, v) => fs.insert n v) []

def get? (fs : Fields) (name : String) : Option Value := fs.lookup name

end Fields

namespace Value

/-- Values nest to a depth below this. -/
def maxDepth : Nat := 128

mutual

/-- The value of a JSON text, read with so many levels of nesting left. -/
def ofJson? : Nat → Json → Option Value
  | _, .null => some .null
  | _, .boolean b => some (.boolean b)
  | _, .number x => x.map .number
  | _, .string s => s.map .string
  | depth, .array items => if depth ≤ 1 then none else (ofItems? (depth - 1) items).map .list
  | depth, .object members =>
    if depth ≤ 1 then none else (ofMembers? (depth - 1) members).map fun ms => .record (Fields.ofList ms)

def ofItems? : Nat → List Json → Option (List Value)
  | _, [] => some []
  | depth, j :: js => do
    let v ← ofJson? depth j
    let vs ← ofItems? depth js
    return v :: vs

def ofMembers? : Nat → List (Option String × Json) → Option (List (String × Value))
  | _, [] => some []
  | depth, (name, j) :: ms => do
    let name ← name
    let v ← ofJson? depth j
    let vs ← ofMembers? depth ms
    return (name, v) :: vs

end

/-- The value written by a JSON text. -/
def decode? (text : String) : Option Value := (Json.parse? text.toList).bind (ofJson? maxDepth)

def isFalsy : Value → Bool
  | null | boolean false => true
  | number x => x == 0 || x.isNaN
  | string s => s.isEmpty
  | _ => false

def isScalar : Value → Bool
  | list _ | record _ => false
  | _ => true

def typeName : Value → String
  | null => "null"
  | boolean _ => "boolean"
  | number _ => "number"
  | string _ => "string"
  | list _ => "list"
  | record _ => "record"

mutual

/-- The compact JSON text of a value. -/
def encode : Value → List Char
  | null => "null".toList
  | boolean b => (if b then "true" else "false").toList
  | number x => Json.encodeNumber x
  | string s => Json.encodeString s
  | list items => ['['] ++ encodeItems items ++ [']']
  | record fields => ['{'] ++ encodeFields fields ++ ['}']

def encodeItems : List Value → List Char
  | [] => []
  | [v] => v.encode
  | v :: vs => v.encode ++ [','] ++ encodeItems vs

def encodeFields : List (String × Value) → List Char
  | [] => []
  | [(n, v)] => Json.encodeString n ++ [':'] ++ v.encode
  | (n, v) :: fs => Json.encodeString n ++ [':'] ++ v.encode ++ [','] ++ encodeFields fs

end

/-- Numbers in text are positional always, and whole ones have no point. -/
def numberLayout : Decimal.Layout := ⟨"", none⟩

/-- The text of a number; zero has no sign. -/
def numberText (x : Float) : List Char :=
  (if Json.isNegative x && !(x == 0) then ['-'] else []) ++
    numberLayout.magnitude (Decimal.ofFloat x)

mutual

/-- The text of a value: the items of a list with commas between them, a record as JSON. -/
def text : Value → List Char
  | null => []
  | boolean b => (if b then "true" else "false").toList
  | number x => numberText x
  | string s => s.toList
  | list items => itemsText items
  | v@(record _) => v.encode

def itemsText : List Value → List Char
  | [] => []
  | [v] => v.text
  | v :: vs => v.text ++ [','] ++ itemsText vs

end

/-- What a placeholder for the value is replaced with: nothing for a falsy one. -/
def placeholder (v : Value) : List Char := if v.isFalsy then [] else v.text

end Value

end StaticSite
