import StaticSite.Error
import StaticSite.Files.Disk
import StaticSite.Log
import StaticSite.Markup.Content
import StaticSite.Tag.Include

/-! Source files: Markdown and HTML, told apart by extension. -/

namespace StaticSite

inductive SourceKind where
  | markdown
  | html
  deriving DecidableEq, Repr

namespace SourceKind

def name : SourceKind → String
  | markdown => "Markdown"
  | html => "Html"

/-- The kind that an include tag names. -/
def ofTag? : String → Option SourceKind
  | "md" => some markdown
  | "html" => some html
  | _ => none

/-- The kind of a path, by its extension in any letter case. -/
def ofPath (p : Path) : Except SiteError SourceKind :=
  if p.hasExtension "md" then .ok markdown
  else if p.hasExtension "html" then .ok html
  else .error (.unsupportedKind p (p.extension?.getD ""))

end SourceKind

/-- Where the text of a document came from. -/
inductive Origin where
  | file (path : Path)
  | inline
  deriving DecidableEq, Repr, Inhabited

def Origin.text : Origin → String
  | file path => path.text
  | inline => "inline text"

/-- Rewrites every raw include tag of markup into its escaped spelling. -/
def protectIncludes (markup : String) : String := String.ofList (Tag.protect markup.toList)

namespace Source

/-- Reads a file as it is. -/
def read (d : Disk) (path : Path) : Except SiteError String :=
  match d.readText path with
  | .ok text => .ok text
  | .error e => .error (.unreadable path e)

/-- Reads a file as markup. -/
def load (formats : Formats) (d : Disk) (path : Path) : Logged SiteError String := do
  let kind ← Logged.lift (SourceKind.ofPath path)
  let text ← Logged.lift (read d path)
  Logged.debug .source <|
    "loaded " ++ path.text ++ " (" ++ kind.name ++ ", " ++ toString text.utf8ByteSize ++ " bytes)"
  return match kind with
    | .markdown => formats.renderMarkdown (protectIncludes text)
    | .html => text

end Source

end StaticSite
