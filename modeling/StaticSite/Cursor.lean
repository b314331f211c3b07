/-! Reading positions in repeated lists.

A placeholder names no record. The cursor of a list moves to the next record when a field is read
a second time before the record is left. -/

namespace StaticSite

structure Cursor where
  index : Nat
  /-- The fields already read of the current record. -/
  consumed : List String
  deriving DecidableEq, Repr, Inhabited

/-- The cursors of the lists that are being repeated. -/
abbrev Cursors := List (String × Cursor)

namespace Cursors

def get? (t : Cursors) (list : String) : Option Cursor := t.lookup list

def isActive (t : Cursors) (list : String) : Bool := (t.get? list).isSome

def set (t : Cursors) (list : String) (c : Cursor) : Cursors :=
  (list, c) :: t.filter (·.1 != list)

/-- Starts the list at its first item, from wherever it was. -/
def start (t : Cursors) (list : String) : Cursors := t.set list ⟨0, []⟩

/-- The index to read an item at; the cursor moves past it. -/
def nextItem (t : Cursors) (list : String) : Option Nat × Cursors :=
  match t.get? list with
  | none => (none, t)
  | some c => (some c.index, t.set list { c with index := c.index + 1 })

/-- The cursor on which a field is read: a second read of it is one of the next record. -/
def readField (c : Cursor) (field : String) : Cursor :=
  if field ∈ c.consumed then ⟨c.index + 1, [field]⟩ else ⟨c.index, field :: c.consumed⟩

/-- The index to read a field at. -/
def nextField (t : Cursors) (list field : String) : Option Nat × Cursors :=
  match t.get? list with
  | none => (none, t)
  | some c =>
    let c := readField c field
    (some c.index, t.set list c)

end Cursors

end StaticSite
