import StaticSite.Build.Options
import StaticSite.Config.Settings

/-! The configuration of a site. Each setting is optional; what is not set keeps the value that a build
has by itself. -/

namespace StaticSite

structure SiteConfig where
  output : Option Path := none
  pages : Option (List Path) := none
  content : Option Path := none
  dependencies : Option (List Path) := none
  clean : Option Bool := none
  keepGoing : Option Bool := none
  maxDepth : Option Nat := none
  deriving DecidableEq, Repr, Inhabited

inductive ConfigError where
  | unreadable (path : Path) (cause : OsError)
  | malformed (path : Path)
  | noDepth (path : Path)
  deriving DecidableEq, Repr

def ConfigError.message : ConfigError → String
  | unreadable path cause => "cannot read '" ++ path.text ++ "': " ++ cause.message
  | malformed path => path.text ++ ": invalid TOML"
  | noDepth path => path.text ++ ": max_depth must be at least 1"

namespace SiteConfig

/-- The name of the file in the root that a site is configured by. -/
def fileName : String := "stitch.toml"

open Config in
/-- Makes one setting, of a kind that fits its key. No key is set twice. -/
def set? (c : SiteConfig) : String × Setting → Option SiteConfig
  | ("output", .text s) =>
    if c.output.isNone then some { c with output := some ⟨s⟩ } else none
  | ("pages", .texts ss) =>
    if c.pages.isNone then some { c with pages := some (ss.map Path.mk) } else none
  | ("content", .text s) =>
    if c.content.isNone then some { c with content := some ⟨s⟩ } else none
  | ("dependencies", .texts ss) =>
    if c.dependencies.isNone then some { c with dependencies := some (ss.map Path.mk) } else none
  | ("clean", .flag b) =>
    if c.clean.isNone then some { c with clean := some b } else none
  | ("keep_going", .flag b) =>
    if c.keepGoing.isNone then some { c with keepGoing := some b } else none
  | ("max_depth", .number n) =>
    if c.maxDepth.isNone && 0 ≤ n then some { c with maxDepth := some n.toNat } else none
  | _ => none

/-- The configuration that a text writes. -/
def parse? (text : String) : Option SiteConfig :=
  (Config.readSettings? text).bind fun settings => settings.foldlM set? {}

/-- The configuration in the text of a file. -/
def decode (text : String) (path : Path) : Except ConfigError SiteConfig :=
  match parse? text with
  | none => .error (.malformed path)
  | some c => if c.maxDepth = some 0 then .error (.noDepth path) else .ok c

/-- The configuration in a file. -/
def ofFile (d : Disk) (path : Path) : Logged ConfigError SiteConfig := do
  let text ← Logged.lift ((d.readText path).mapError (.unreadable path))
  Logged.debug .config ("loaded " ++ path.text)
  Logged.lift (decode text path)

/-- The configuration of a site: in the file given, or else in the one in the root, if there is
one. -/
def load (d : Disk) (root : Path) (given : Option Path) : Logged ConfigError SiteConfig :=
  match given with
  | some path => ofFile d path
  | none =>
    let path := root.join ⟨fileName⟩
    if d.isFile path then ofFile d path
    else do
      Logged.debug .config ("no " ++ fileName ++ " in " ++ root.text ++ ", using defaults")
      return {}

/-- What a build of the site is asked to do. -/
def options (c : SiteConfig) (root : Path) : BuildOptions :=
  let o : BuildOptions := {}
  { root
    output := c.output.getD o.output
    dependencies := c.dependencies.getD o.dependencies
    pages := c.pages.getD o.pages
    content := c.content.getD o.content
    clean := c.clean.getD o.clean
    keepGoing := c.keepGoing.getD o.keepGoing
    maxDepth := c.maxDepth.getD o.maxDepth }

end SiteConfig

end StaticSite
