import StaticSite.Document.Basic
import StaticSite.Files.Walk

/-! The articles of a site: Markdown files by their id, which is the name without its extension. -/

namespace StaticSite

/-- The file of each id, each id once. -/
structure ContentIndex where
  entries : List (String × Path)
  deriving DecidableEq, Repr, Inhabited

namespace ContentIndex

def empty : ContentIndex := ⟨[]⟩

def get? (index : ContentIndex) (id : String) : Option Path := index.entries.lookup id

def size (index : ContentIndex) : Nat := index.entries.length

def isEmpty (index : ContentIndex) : Bool := index.entries.isEmpty

/-- Adds a file, unless another has its id. -/
def add (index : ContentIndex) (id : String) (path : Path) : ContentIndex :=
  match index.get? id with
  | some _ => index
  | none => ⟨index.entries ++ [(id, path)]⟩

/-- What is said of a file whose id another file has. -/
def conflict (index : ContentIndex) (id : String) (path : Path) : List LogRecord :=
  match index.get? id with
  | none => []
  | some first =>
    [⟨.warn, .articles,
      "ignoring " ++ path.text ++ ": article '" ++ id ++ "' already comes from " ++ first.text⟩]

/-- The path of a location below a directory. -/
def pathBelow (dir : Path) (loc : Location) : Path := loc.foldl (fun p n => p.join ⟨n⟩) dir

/-- What a walk finds at a place: a Markdown file with its id, or a directory that cannot be listed.
-/
def findAt? (d : Disk) (place : Location) (path : Path) : Option (Except SiteError (String × Path)) :=
  match d.tree.get? place with
  | some (.file _) =>
    if path.hasExtension "md" then path.stem?.map fun id => .ok (id, path) else none
  | some .directory =>
    match d.openDirectory path with
    | .ok _ => none
    | .error e => some (.error (.io path e))
  | _ => none

/-- What a walk finds below a directory, in its order. What lies in a directory that cannot be
listed comes after the failure. -/
def findings (d : Disk) (top : Location) (dir : Path) : List (Except SiteError (String × Path)) :=
  (d.tree.walk top).filterMap fun loc => findAt? d (top ++ loc) (pathBelow dir loc)

/-- The index of the files that are found, of which the first with an id counts, and what is said of
the others. The first failure ends it. -/
def collect : ContentIndex → List (Except SiteError (String × Path)) → Logged SiteError ContentIndex
  | index, [] => .ok index
  | _, .error e :: _ => .fail e
  | index, .ok (id, path) :: rest =>
    let all := collect (index.add id path) rest
    ⟨index.conflict id path ++ all.log, all.result⟩

/-- The index of the Markdown files below a directory. Without a directory it is empty. -/
def scan (d : Disk) (dir : Path) : Logged SiteError ContentIndex :=
  match d.locate ⟨true, false⟩ dir with
  | .ok top => if d.tree.isDirectory top then collect empty (findings d top dir) else missing
  | .error _ => missing
where
  missing : Logged SiteError ContentIndex :=
    ⟨[⟨.debug, .articles, "no content directory at " ++ dir.text⟩], .ok empty⟩

/-- The HTML of an article; none for an id without a file. -/
def content (index : ContentIndex) (formats : Formats) (d : Disk) (id : String) :
    Logged SiteError (Option String) :=
  match index.get? id with
  | none => .ok none
  | some path => Logged.lift ((Source.read d path).map fun text => some (formats.renderMarkdown text))

/-- Appends the articles of the index to the `article` elements of a page with their ids. Where
there are none the page stays as it is written. -/
def embed (index : ContentIndex) (formats : Formats) (d : Disk) (markup : String)
    (origin : Origin) : Logged SiteError String := do
  if index.isEmpty then return markup
  let (document, counted) :=
    (Document.load formats markup origin true).embedArticles formats (index.content formats d)
  let embedded ← counted
  if embedded = 0 then return markup
  Logged.debug .articles <|
    origin.text ++ ": embedded " ++ toString embedded ++ " article(s)"
  return document.serialize formats

end ContentIndex

end StaticSite
