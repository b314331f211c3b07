import StaticSite.Expansion.Blocks
import StaticSite.Expansion.Placeholders

/-! Expanding a file or a text of a site, with all that it refers to.

Every file on the way to a text counts as a level. A file is not read while it is being read, and
not below the deepest level. -/

namespace StaticSite

/-- A site: the files under a root, and how its texts are read and written. -/
structure Site where
  formats : Formats
  disk : Disk
  root : Path
  maxDepth : Nat

namespace Site

def defaultMaxDepth : Nat := 64

/-- A path of the site as a path of the disk. -/
def path (s : Site) (p : String) : Path := s.root.join ⟨p⟩

def isFile (s : Site) (p : String) : Bool := s.disk.isFile (s.path p)

/-- A canonical path as messages show it: relative to the root, if it lies there. -/
def display (s : Site) (p : Path) : Path :=
  let root := match s.disk.canonicalize s.root with
    | .ok r => r
    | .error _ => s.root
  (p.relativeTo? root).getD p

/-- The canonical path of a file that is not among those being read. -/
def enter (s : Site) (chain : List Path) (file : Path) : Except SiteError Path :=
  match s.disk.canonicalize file with
  | .error e => .error (.io file e)
  | .ok canonical =>
    if canonical ∈ chain then
      .error (.cyclicReference ((chain.dropWhile (· != canonical) ++ [canonical]).map s.display))
    else .ok canonical

/-- The way in which files of the site are expanded: the path, the scope, and the markup. -/
abbrev Reader := String → Scope → Logged SiteError String

/-- A file that must exist, for a text that refers to it. -/
def refer (s : Site) (reader : Reader) (path : String) (scope : Scope) (referencedBy : String) :
    Logged SiteError String :=
  if s.isFile path then reader path scope
  else .fail (.missingFile (s.path path) referencedBy)

def templates (s : Site) (reader : Reader) : TemplateSource where
  scope input origin := Scope.ofFile s.disk (s.path input) origin.text
  markup path scope origin := s.refer reader path scope origin.text

/-- What the placeholders of a text can see. A Markdown file is only rendered; an HTML file is
expanded in the scope of the text. -/
def frame (s : Site) (reader : Reader) (origin : Origin) (scope : Scope) : Frame where
  origin := origin
  scope := scope
  fileText kind path line :=
    match kind with
    | .markdown =>
      if s.isFile path then do
        let text ← Logged.lift (Source.read s.disk (s.path path))
        return s.formats.renderMarkdown text
      else
        .fail (.missingFile (s.path path) (origin.text ++ " (line " ++ toString line ++ ")"))
    | .html => s.refer reader path scope origin.text

/-- Expands a text that stands at some depth; `reader` expands what it refers to. -/
def expand (s : Site) (reader : Reader) (depth : Nat) (origin : Origin) (markup : String)
    (scope : Scope) (isRoot : Bool) : Logged SiteError String := do
  Logged.debug .parser <|
    "parsing " ++ origin.text ++ " (root: " ++ toString isRoot ++ ", depth: " ++ toString depth ++
      ")"
  let (d, counted) :=
    (Document.load s.formats markup origin isRoot).expandTemplates s.formats (s.templates reader)
  let _ ← counted
  let (d, cursors, counted) := d.expandRepeats s.formats scope []
  let _ ← counted
  (s.frame reader origin scope).resolve cursors (d.serialize s.formats)

/-- Expands a file, read from the files of the chain, with so many levels left. -/
def parseFile (s : Site) : Nat → List Path → Bool → Reader
  | 0, chain, _, input, _ => do
    let _ ← Logged.lift (s.enter chain (s.path input))
    Logged.fail (.recursionLimit s.maxDepth (s.path input))
  | levels + 1, chain, isRoot, input, scope => do
    let canonical ← Logged.lift (s.enter chain (s.path input))
    let markup ← Source.load s.formats s.disk (s.path input)
    let chain := chain ++ [canonical]
    s.expand (s.parseFile levels chain false) chain.length (.file ⟨input⟩) markup scope isRoot

/-- The files that a text outside of all files refers to. -/
def reader (s : Site) : Reader := s.parseFile s.maxDepth [] false

/-- Expands a file of the site, if the input is its path, and the input itself otherwise. -/
def parse (s : Site) (input : String) (scope : Scope) (isRoot : Bool) :
    Logged SiteError String :=
  if s.isFile input then s.parseFile s.maxDepth [] isRoot input scope
  else s.expand s.reader 0 .inline input scope isRoot

end Site

end StaticSite
