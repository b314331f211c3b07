import StaticSite.Files.Error
import StaticSite.Path
import StaticSite.Tag.Basic

/-! Failures of expansion and of a build, with their messages and notes. -/

namespace StaticSite

/-- Why a placeholder or a repeated list has no value. -/
inductive Unresolved where
  | unbound (name : String)
  | notAList (name found : String)
  | noCursor (list : String)
  | outOfRange (list : String) (index length : Nat)
  | notARecord (list : String) (index : Nat) (found : String)
  | notAScalar (list : String) (index : Nat) (found : String)
  | missingField (field list : String) (index : Nat)
  deriving DecidableEq, Repr

namespace Unresolved

/-- A list and an index into it. -/
def place (list : String) (index : Nat) : String := "'" ++ list ++ "'[" ++ toString index ++ "]"

def message : Unresolved → String
  | unbound name => "'" ++ name ++ "' is not bound in this scope"
  | notAList name found => "'" ++ name ++ "' is a " ++ found ++ ", not a list"
  | noCursor list => "no repeat block iterates '" ++ list ++ "'"
  | outOfRange list index length =>
    "index " ++ toString index ++ " is past the end of '" ++ list ++ "' (" ++ toString length ++
      " item(s))"
  | notARecord list index found => place list index ++ " is a " ++ found ++ ", not a record"
  | notAScalar list index found => place list index ++ " is a " ++ found ++ ", not a scalar"
  | missingField field list index => place list index ++ " has no field '" ++ field ++ "'"

def notes : Unresolved → List String
  | noCursor list =>
    ["indexed placeholders need an enclosing <section type=\"repeat\" input=\"" ++ list ++ "\">"]
  | unbound _ => ["templates only see the data from their own `input` file"]
  | _ => []

end Unresolved

/-- Why a path of a build is refused. -/
inductive PathFault where
  | leavesRoot
  | notRelative
  | empty
  | holdsRoot
  deriving DecidableEq, Repr

def PathFault.message : PathFault → String
  | leavesRoot => "paths may not leave the site root"
  | notRelative => "paths must be relative to the site root"
  | empty => "empty path"
  | holdsRoot => "refusing to clean a directory containing the site root"

/-- A failure that ends the expansion of a page. -/
inductive SiteError where
  | unsupportedKind (path : Path) (extension : String)
  | unreadable (path : Path) (cause : OsError)
  | unsupportedInclude (origin : String) (line : Nat) (tag kind : String)
  | missingFile (path : Path) (referencedBy : String)
  | malformedInput (path : Path)
  | inputNotObject (path : Path) (found : String)
  | missingAttribute (origin directive name : String)
  | unresolvedList (origin directive : String) (reason : Unresolved)
  | unresolvedPlaceholder (origin : String) (line : Nat) (tag : String) (reason : Unresolved)
  | malformedTag (origin : String) (line : Nat) (cause : TagError)
  | cyclicReference (chain : List Path)
  | recursionLimit (limit : Nat) (path : Path)
  | invalidPath (path : Path) (fault : PathFault)
  | io (path : Path) (cause : OsError)
  deriving DecidableEq, Repr

namespace SiteError

def quoted (p : Path) : String := "'" ++ p.text ++ "'"

/-- An origin and a line, as messages end. -/
def position (origin : String) (line : Nat) : String :=
  " (" ++ origin ++ ", line " ++ toString line ++ ")"

def message : SiteError → String
  | unsupportedKind path extension =>
    "unsupported template type '" ++ extension ++ "' for " ++ quoted path ++
      " (expected .md or .html)"
  | unreadable path cause => "cannot read " ++ quoted path ++ ": " ++ cause.message
  | unsupportedInclude origin line tag kind =>
    "unsupported include kind '" ++ kind ++ "' in `" ++ tag ++ "`" ++ position origin line
  | missingFile path referencedBy =>
    "missing file " ++ quoted path ++ " (referenced by " ++ referencedBy ++ ")"
  | malformedInput path => "malformed input data in " ++ quoted path
  | inputNotObject path found =>
    "input data in " ++ quoted path ++ " must be a JSON object, found " ++ found
  | missingAttribute origin directive name =>
    "`" ++ directive ++ "` in " ++ origin ++ " is missing its '" ++ name ++ "' attribute"
  | unresolvedList origin directive reason =>
    "unresolved repeat list in `" ++ directive ++ "` (" ++ origin ++ "): " ++ reason.message
  | unresolvedPlaceholder origin line tag reason =>
    "unresolved placeholder `" ++ tag ++ "`" ++ position origin line ++ ": " ++ reason.message
  | malformedTag origin line cause => cause.message ++ position origin line
  | cyclicReference chain =>
    "cyclic template reference: " ++ " -> ".intercalate (chain.map Path.text)
  | recursionLimit limit path =>
    "template nesting deeper than " ++ toString limit ++ " level(s) at " ++ quoted path
  | invalidPath path fault => "invalid path " ++ quoted path ++ ": " ++ fault.message
  | io path cause => "I/O error on " ++ quoted path ++ ": " ++ cause.message

def notes : SiteError → List String
  | unsupportedKind _ _ => ["templates and includes must be Markdown or HTML files"]
  | unresolvedPlaceholder _ _ _ reason => reason.notes
  | cyclicReference _ | recursionLimit _ _ =>
    ["a template may not include itself, directly or indirectly"]
  | unsupportedInclude _ _ _ _ => ["include tags take the form <<<md:path>>> or <<<html:path>>>"]
  | _ => []

end SiteError

end StaticSite
