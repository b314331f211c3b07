import StaticSite.Cursor
import StaticSite.Log
import StaticSite.Scope
import StaticSite.Source
import StaticSite.Tag.Lexer

/-! Replacing the tags of a text by their values.

A line is rewritten in place: the first tag after the starting point gives way to its value, and
the search goes on after the value, which is not searched itself. -/

namespace StaticSite

/-! ## References -/

/-- The item of a list at an index. -/
def itemAt (items : List Value) (list : String) (index : Nat) : Except Unresolved Value :=
  match items[index]? with
  | some v => .ok v
  | none => .error (.outOfRange list index items.length)

/-- The text that a reference stands for, and the cursors after it has been read. -/
def Scope.read (s : Scope) (t : Cursors) : Reference → Except Unresolved (List Char × Cursors)
  | .name n =>
    match s.get? n with
    | some v => .ok (v.placeholder, t)
    | none => .error (.unbound n)
  | .item l =>
    match t.nextItem l with
    | (none, _) => .error (.noCursor l)
    | (some i, t) => do
      let v ← itemAt (← s.list l) l i
      if v.isScalar then return (v.placeholder, t)
      else throw (.notAScalar l i v.typeName)
  | .field f l =>
    match t.nextField l f with
    | (none, _) => .error (.noCursor l)
    | (some i, t) => do
      match ← itemAt (← s.list l) l i with
      | .record fields =>
        match Fields.get? fields f with
        | some v => return (v.placeholder, t)
        | none => throw (.missingField f l i)
      | v => throw (.notARecord l i v.typeName)

/-! ## Texts -/

/-- What the tags of a text can see: a scope, and the files that includes name, which are read
for a line of the text. -/
structure Frame where
  origin : Origin
  scope : Scope
  fileText : SourceKind → String → Nat → Logged SiteError String

namespace Frame

/-- The value of a tag in a line, and the cursors after it. -/
def value (fr : Frame) (line : Nat) (f : Tag.Found) (t : Cursors) :
    Logged SiteError (List Char × Cursors) :=
  let text := String.ofList f.text
  match f.tag with
  | .file kind path =>
    match SourceKind.ofTag? kind with
    | none => .fail (.unsupportedInclude fr.origin.text line text kind)
    | some k => do
      let s ← fr.fileText k path line
      return (s.toList, t)
  | .reference r =>
    match fr.scope.read t r with
    | .ok vt => .ok vt
    | .error why => .fail (.unresolvedPlaceholder fr.origin.text line text why)

/-- Rewrites a line, of which what comes before `start` is done. -/
def resolveFrom (fr : Frame) (number : Nat) (line : List Char) (start : Nat) (t : Cursors) :
    Logged SiteError (List Char × Cursors) :=
  match _h : Tag.find (line.drop start) with
  | .error e => .fail (.malformedTag fr.origin.text number e)
  | .ok none => .ok (line, t)
  | .ok (some f) => do
    let (v, t) ← fr.value number f t
    let stop := start + f.before.length
    fr.resolveFrom number (line.take stop ++ v ++ f.after) (stop + v.length) t
termination_by line.length - start
decreasing_by
  have := Tag.length_after_lt _h
  simp only [List.length_append, List.length_take, List.length_drop] at *
  omega

/-- Rewrites lines, of which the first has this number. -/
def resolveLines (fr : Frame) (number : Nat) (t : Cursors) :
    List (List Char) → Logged SiteError (List Char)
  | [] => .ok []
  | line :: rest => do
    let (line, t) ← fr.resolveFrom number line 0 t
    let rest ← fr.resolveLines (number + 1) t rest
    return line ++ rest

/-- Replaces the tags of a text by their values, in order. -/
def resolve (fr : Frame) (t : Cursors) (markup : String) : Logged SiteError String := do
  let s ← fr.resolveLines 1 t (Text.lines markup.toList)
  return String.ofList s

end Frame

end StaticSite
