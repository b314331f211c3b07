import StaticSite.Log
import StaticSite.Source

/-! A document tree with its directive blocks.

A directive is a `section` element whose `type` says what happens to it. Nodes carry numbers, each
used once, so that a block keeps its identity while the tree around it changes. A block that is
held stays readable after it has left the tree. -/

namespace StaticSite

inductive Directive where
  | template
  | repetition
  | marker
  deriving DecidableEq, Repr

namespace Directive

def name : Directive → String
  | template => "template"
  | repetition => "repeat"
  | marker => "innermarker"

def ofName? : String → Option Directive
  | "template" => some template
  | "repeat" => some repetition
  | "innermarker" => some marker
  | _ => none

end Directive

/-- The directive that a node is, if any. -/
def Content.directive? (c : Content) : Option Directive :=
  if c.name? == some "section" then (c.attribute? "type").bind Directive.ofName? else none

/-- A node with its number. -/
abbrev Node := Nat × Content

def Node.isDirective (k : Directive) (n : Node) : Bool := n.2.directive? == some k

/-- The id of an article, if it has one that is not empty. -/
def Content.articleId? (c : Content) : Option String :=
  if c.name? = some "article" then (c.attribute? "id").filter (!·.isEmpty) else none

/-- A directive block of a document. -/
structure Block where
  id : Nat
  kind : Directive
  deriving DecidableEq, Repr

namespace Forest

/-- The first template block that is not among those handled. -/
def firstTemplate? (f : Forest Node) (handled : List Nat) : Option Block :=
  (f.find? fun n => n.isDirective .template && !handled.contains n.1).map fun (n, _) =>
    ⟨n.1, .template⟩

/-- The first repeat block. -/
def firstRepeat? (f : Forest Node) : Option Block :=
  (f.find? (·.isDirective .repetition)).map fun (n, _) => ⟨n.1, .repetition⟩

/-- The articles with an id, in document order. -/
def articles (f : Forest Node) : List (Nat × String) :=
  f.labels.filterMap fun n => n.2.articleId?.map fun id => (n.1, id)

end Forest

/-- What a caller answers when it is asked for an article, and what it remembers. -/
abbrev Caller (ε σ : Type) := σ → String → σ × Except ε (Option String)

/-- A caller that remembers nothing but leaves records. -/
def Caller.logged {ε : Type} (content : String → Logged ε (Option String)) :
    Caller ε (List LogRecord) :=
  fun log id => (log ++ (content id).log, (content id).result)

/-- Appends to articles, in order, what a caller gives for them, up to its first failure; counts
those that got some. The document may have any form, as long as nodes can be appended to its
articles. -/
def embedEach {δ ε σ : Type} (append : δ → Nat → String → δ) (caller : Caller ε σ) :
    List (Nat × String) → σ → δ → δ × σ × Except ε Nat
  | [], s, d => (d, s, .ok 0)
  | (article, id) :: rest, s, d =>
    match caller s id with
    | (s, .error e) => (d, s, .error e)
    | (s, .ok answer) =>
      let d := (answer.map (append d article)).getD d
      let (d, s, r) := embedEach append caller rest s d
      (d, s, r.map (· + if answer.isSome then 1 else 0))

structure Document where
  origin : Origin
  tree : Forest Node
  /-- The held blocks that have left the tree, with what they took along. -/
  detached : Forest Node
  /-- The template blocks that are not to be expanded, in the order they came up. -/
  handled : List Nat
  /-- The blocks that a caller keeps. -/
  kept : List Nat
  /-- The next free number. -/
  fresh : Nat
  deriving Inhabited

namespace Document

/-- Reads markup as a document, or as the content of a body. -/
def load (formats : Formats) (markup : String) (origin : Origin) (isRoot : Bool) : Document :=
  let text := protectIncludes markup
  let m := if isRoot then formats.parseDocument text else formats.parseFragment text
  let (tree, fresh) := m.number 0
  ⟨origin, tree, .nil, [], [], fresh⟩

def serialize (formats : Formats) (d : Document) : String :=
  formats.serialize (d.tree.map Prod.snd)

/-! ## Blocks -/

/-- The node of a block, with its children. -/
def node? (d : Document) (b : Block) : Option (Node × Forest Node) :=
  (d.tree ++ d.detached).find? (·.1 == b.id)

def attribute? (d : Document) (b : Block) (name : String) : Option String :=
  (d.node? b).bind fun (n, _) => n.2.attribute? name

/-- The text between the tags of a block. -/
def inner (formats : Formats) (d : Document) (b : Block) : String :=
  match d.node? b with
  | some (_, children) => formats.serialize (children.map Prod.snd)
  | none => ""

/-- The opening tag of a block as an error message shows it. -/
def describe (d : Document) (b : Block) : String :=
  let attributes := ((d.node? b).map (·.1.2.attributes)).getD []
  "<section" ++ String.join (attributes.map fun a => " " ++ a.name ++ "=\"" ++ a.value ++ "\"") ++
    ">"

def isHandled (d : Document) (n : Node) : Bool := d.handled.contains n.1

def isHeld (d : Document) (n : Node) : Bool := d.handled.contains n.1 || d.kept.contains n.1

/-- Keeps a block readable whatever happens to it. -/
def keep (d : Document) (b : Block) : Document := { d with kept := b.id :: d.kept }

/-- The first template block that has not been handled, now marked as handled. -/
def nextTemplate? (d : Document) : Option (Block × Document) :=
  (d.tree.firstTemplate? d.handled).map fun b => (b, { d with handled := d.handled ++ [b.id] })

/-- The first repeat block. -/
def nextRepeat? (d : Document) : Option Block := d.tree.firstRepeat?

/-! ## Changing the tree -/

/-- What is left of nodes taken out of a tree. A held node among them keeps what lies below it;
in the others all falls apart, and each held node is left by itself. -/
def release (isHeld : Node → Bool) : Forest Node → Forest Node
  | .nil => .nil
  | .node n children rest =>
    if isHeld n then .node n children (release isHeld rest)
    else Forest.ofList (children.labels.filter isHeld) ++ release isHeld rest

/-- The nodes of a text read as the content of a body, with fresh numbers. -/
def parseNodes (formats : Formats) (d : Document) (markup : String) : Forest Node × Document :=
  let (nodes, fresh) := (formats.parseFragment markup).number d.fresh
  (nodes, { d with fresh })

/-- Puts the nodes of a markup text in place of a block. Nothing happens to a block that lies
nowhere. -/
def replace (formats : Formats) (d : Document) (b : Block) (markup : String) : Document :=
  let (nodes, d) := d.parseNodes formats (protectIncludes markup)
  let isBlock (n : Node) : Bool := n.1 == b.id
  let removed := match d.node? b with
    | some (n, children) => release d.isHeld (.tree n children)
    | none => .nil
  match d.tree.replaceFirst? isBlock fun _ => nodes with
  | some tree => { d with tree, detached := d.detached ++ removed }
  | none =>
    match d.detached.replaceBelow? isBlock fun _ => nodes with
    | some detached => { d with detached := detached ++ removed }
    | none => d

/-- Changes the children of a block. Those that it loses are released. -/
def setChildren (d : Document) (b : Block) (nodes : Forest Node) : Document :=
  let isBlock (n : Node) : Bool := n.1 == b.id
  let released := match d.node? b with
    | some (_, children) => release d.isHeld children
    | none => .nil
  match d.tree.changeFirst? isBlock fun _ => nodes with
  | some tree => { d with tree, detached := d.detached ++ released }
  | none =>
    match d.detached.changeFirst? isBlock fun _ => nodes with
    | some detached => { d with detached := detached ++ released }
    | none => d

/-- Fills a template block: its content becomes the expanded template, in which `inner` takes the
place of the first marker. The template's own blocks have been expanded, so they count as handled;
those of `inner` do not. What the parser put inside the marker follows `inner`. The answer is
whether there was a marker. -/
def fill (formats : Formats) (d : Document) (b : Block) (markup inner : String) :
    Bool × Document :=
  let (nodes, d) := d.parseNodes formats (protectIncludes markup)
  let templates := (nodes.labels.filter (·.isDirective .template)).map Prod.fst
  let (content, d') := d.parseNodes formats (protectIncludes inner)
  let (found, nodes, d) :=
    match nodes.replaceFirst? (·.isDirective .marker) (content ++ ·) with
    | some filled => (true, filled, d')
    | none => (false, nodes, d)
  let d := d.setChildren b nodes
  (found, { d with handled := d.handled ++ templates })

/-! ## Articles -/

/-- The articles with an id, in document order. -/
def articles (d : Document) : List (Nat × String) := d.tree.articles

/-- Puts the nodes of a text after what an article holds. -/
def appendTo (formats : Formats) (d : Document) (article : Nat) (markup : String) : Document :=
  let (nodes, d) := d.parseNodes formats markup
  match d.tree.changeFirst? (·.1 == article) (· ++ nodes) with
  | some tree => { d with tree }
  | none => d

/-- Asks a caller for the articles that the document has now, and appends what it gives. -/
def embedAsking {ε σ : Type} (formats : Formats) (d : Document) (caller : Caller ε σ) (s : σ) :
    Document × σ × Except ε Nat :=
  embedEach (appendTo formats) caller d.articles s d

/-- Appends content to the articles that the document has now. -/
def embedArticles {ε : Type} (formats : Formats) (d : Document)
    (content : String → Logged ε (Option String)) : Document × Logged ε Nat :=
  let (d, log, r) := d.embedAsking formats (.logged content) []
  (d, ⟨log, r⟩)

end Document

end StaticSite
