import StaticSite.Markup.Content

/-! A tree being drawn up, whose nodes can still be moved.

Nodes are known by number; number 0 is the document. A node lies under at most one other. -/

namespace StaticSite.Html

abbrev NodeId := Nat

structure Cell where
  content : Content
  parent : Option NodeId
  children : Array NodeId
  /-- The node under which the content of a template lies. -/
  inner : Option NodeId
  deriving Inhabited

structure Sketch where
  cells : Array Cell
  deriving Inhabited

namespace Sketch

def document : NodeId := 0

/-- A document with nothing in it. -/
def empty : Sketch := ⟨#[⟨.text "", none, #[], none⟩]⟩

def cell? (t : Sketch) (id : NodeId) : Option Cell := t.cells[id]?

def content? (t : Sketch) (id : NodeId) : Option Content := (t.cell? id).map (·.content)

def parent? (t : Sketch) (id : NodeId) : Option NodeId := (t.cell? id).bind (·.parent)

def children (t : Sketch) (id : NodeId) : Array NodeId := ((t.cell? id).map (·.children)).getD #[]

/-- Adds a node that lies under no other. -/
def add (t : Sketch) (c : Content) : NodeId × Sketch :=
  (t.cells.size, ⟨t.cells.push ⟨c, none, #[], none⟩⟩)

/-- Gives a node a place of its own for what a template contains. -/
def addInner (t : Sketch) (id : NodeId) : Sketch :=
  let (inner, t) := t.add (.text "")
  ⟨t.cells.modify id fun c => { c with inner := some inner }⟩

def setParent (t : Sketch) (id : NodeId) (p : Option NodeId) : Sketch :=
  ⟨t.cells.modify id fun c => { c with parent := p }⟩

def setChildren (t : Sketch) (id : NodeId) (f : Array NodeId → Array NodeId) : Sketch :=
  ⟨t.cells.modify id fun c => { c with children := f c.children }⟩

/-- Takes a node from under the one that it lies under. -/
def detach (t : Sketch) (id : NodeId) : Sketch :=
  match t.parent? id with
  | none => t
  | some p => (t.setChildren p (·.filter (· != id))).setParent id none

/-- Puts a node under another, after its children. -/
def append (t : Sketch) (p id : NodeId) : Sketch :=
  ((t.detach id).setChildren p (·.push id)).setParent id (some p)

/-- Puts a node just before another, under the same one. -/
def insertBefore (t : Sketch) (sibling id : NodeId) : Sketch :=
  match t.parent? sibling with
  | none => t
  | some p =>
    let t := t.detach id
    let i := ((t.children p).idxOf? sibling).getD 0
    (t.setChildren p (·.insertIdxIfInBounds i id)).setParent id (some p)

/-- Adds to a text node; false if the node is no text. -/
def extendText (t : Sketch) (id : NodeId) (s : String) : Bool × Sketch :=
  match t.content? id with
  | some (.text _) =>
    (true, ⟨t.cells.modify id fun c => match c with
      | ⟨.text a, p, cs, i⟩ => ⟨.text (a ++ s), p, cs, i⟩
      | c => c⟩)
  | _ => (false, t)

/-- Puts text at the end of a node, in its last text if that comes last. -/
def appendText (t : Sketch) (p : NodeId) (s : String) : Sketch :=
  let (done, t) := match (t.children p).back? with
    | some last => t.extendText last s
    | none => (false, t)
  if done then t
  else
    let (id, t) := t.add (.text s)
    t.append p id

/-- Puts text just before a node, in the text before it if there is one. -/
def insertTextBefore (t : Sketch) (sibling : NodeId) (s : String) : Sketch :=
  match t.parent? sibling with
  | none => t
  | some p =>
    let siblings := t.children p
    let before := ((siblings.idxOf? sibling).getD 0 : Nat)
    let (done, t) := match before with
      | 0 => (false, t)
      | i + 1 =>
        match siblings[i]? with
        | some id => t.extendText id s
        | none => (false, t)
    if done then t
    else
      let (id, t) := t.add (.text s)
      t.insertBefore sibling id

/-- Moves the children of a node to the end of another. -/
def moveChildren (t : Sketch) (source target : NodeId) : Sketch :=
  (t.children source).foldl (fun t id => t.append target id) t

/-- Adds the attributes whose names an element lacks. -/
def addAttributes (t : Sketch) (id : NodeId) (new : List Attribute) : Sketch :=
  ⟨t.cells.modify id fun c => match c.content with
    | .element v n as =>
      let missing := new.filter fun a => !as.any fun b => b.space == a.space && b.name == a.name
      { c with content := .element v n (as ++ missing) }
    | _ => c⟩

/-- The trees below some nodes, at most `depth` levels of them. -/
def forest (t : Sketch) : Nat → List NodeId → Markup
  | 0, _ => .nil
  | depth + 1, ids =>
    ids.foldr (fun id rest =>
      match t.cell? id with
      | some c => .node c.content (t.forest depth c.children.toList) rest
      | none => rest) .nil

/-- All that lies under a node. No chain of nodes is longer than the number of nodes. -/
def below (t : Sketch) (id : NodeId) : Markup := t.forest t.cells.size (t.children id).toList

end Sketch

end StaticSite.Html
