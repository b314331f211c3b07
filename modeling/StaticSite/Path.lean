import StaticSite.Text.Cut

/-! Paths as written, with `/` between their components.

Joining does not normalize. Comparisons go by components, which skip empty pieces and every `.`
but a leading one. -/

namespace StaticSite

structure Path where
  text : String
  deriving DecidableEq, Repr, Inhabited

namespace Path

/-- A component of a path. -/
inductive Component where
  | root
  | current
  | parent
  | name (s : String)
  deriving DecidableEq, Repr

open Text

def pieces (p : Path) : List (List Char) := splitOn '/' p.text.toList

def isAbsolute (p : Path) : Bool := p.text.toList.head? == some '/'

/-- The component a piece stands for, if any. -/
def Component.ofPiece? : List Char → Option Component
  | [] | ['.'] => none
  | ['.', '.'] => some .parent
  | cs => some (.name (String.ofList cs))

/-- The components in order. A `.` counts only at the start of a relative path. -/
def components (p : Path) : List Component :=
  match p.pieces with
  | [] => []
  | first :: rest =>
    let start :=
      if p.isAbsolute then [.root]
      else if first = ['.'] then [.current]
      else (Component.ofPiece? first).toList
    start ++ rest.filterMap Component.ofPiece?

def Component.text : Component → List Char
  | root => ['/']
  | current => ['.']
  | parent => ['.', '.']
  | name s => s.toList

/-- The path `p/q`, or `q` where it is absolute. -/
def join (p q : Path) : Path :=
  if q.isAbsolute then q
  else if p.text.isEmpty || p.text.toList.getLast? == some '/' then ⟨p.text ++ q.text⟩
  else ⟨p.text ++ "/" ++ q.text⟩

/-- The path with these components. -/
def ofComponents (cs : List Component) : Path :=
  cs.foldl (fun p c => p.join ⟨String.ofList c.text⟩) ⟨""⟩

/-- The components of `p` after those of `q`, if `p` starts with them. -/
def componentsAfter? (p q : Path) : Option (List Component) :=
  let cs := p.components
  let ds := q.components
  if cs.take ds.length = ds then some (cs.drop ds.length) else none

def startsWith (p q : Path) : Bool := (p.componentsAfter? q).isSome

/-- The path `r` with `q/r` being `p`. -/
def relativeTo? (p q : Path) : Option Path := (p.componentsAfter? q).map ofComponents

/-- The last component, where it is a name. -/
def fileName? (p : Path) : Option String :=
  match p.components.getLast? with
  | some (.name s) => some s
  | _ => none

/-- A name cut at its last point; a leading point does not count. -/
def splitName (name : List Char) : List Char × Option (List Char) :=
  match cutAt? '.' name.reverse with
  | none => (name, none)
  | some (ext, stem) => if stem.isEmpty then (name, none) else (stem.reverse, some ext.reverse)

def extension? (p : Path) : Option String :=
  p.fileName?.bind fun n => (splitName n.toList).2.map String.ofList

def stem? (p : Path) : Option String :=
  p.fileName?.map fun n => String.ofList (splitName n.toList).1

/-- Whether the path has this extension, in any letter case. -/
def hasExtension (p : Path) (ext : String) : Bool :=
  p.extension?.any fun e => e.toList.map Char.toLower == ext.toList

/-- Drops the pieces at the end that are no component. -/
def trimPieces (ps : List (List Char)) : List (List Char) :=
  (ps.reverse.dropWhile fun p => p.isEmpty || p == ['.']).reverse

def ofPieces (ps : List (List Char)) : Path := ⟨String.ofList (['/'].intercalate ps)⟩

/-- The pieces of a path without the ones at its end that are no component. -/
def body (p : Path) : List (List Char) :=
  match p.pieces with
  | [] => []
  | first :: rest => first :: trimPieces rest

/-- The path with its last name given another extension. -/
def withExtension (p : Path) (ext : String) : Path :=
  match p.fileName?, p.body.reverse with
  | some name, _ :: rest =>
    let stem := (splitName name.toList).1
    ofPieces (rest.reverse ++ [stem ++ (if ext.isEmpty then [] else '.' :: ext.toList)])
  | _, _ => p

/-- The path without its last component. -/
def parent? (p : Path) : Option Path :=
  match p.components.getLast?, p.body.reverse with
  | none, _ | some .root, _ => none
  | _, [] => none
  | _, [_] => some ⟨""⟩
  | _, _ :: rest =>
    match (ofPieces rest.reverse).body with
    | [[]] => some ⟨"/"⟩
    | ps => some (ofPieces ps)

/-- The directory that a path lies in. -/
def directory (p : Path) : Path := p.parent?.getD ⟨"."⟩

end Path

end StaticSite
