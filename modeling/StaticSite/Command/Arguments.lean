import StaticSite.Build.Options
import StaticSite.Command.Switches

/-! The commands of the program and their arguments. -/

namespace StaticSite.Command

/-- What a command says besides its result. -/
structure Manner where
  isColored : Bool
  verbosity : Nat
  isQuiet : Bool
  deriving DecidableEq, Repr, Inhabited

structure BuildArguments where
  root : Path
  config : Option Path
  output : Option Path
  pages : List Path
  content : Option Path
  dependencies : List Path
  clean : Bool
  keepGoing : Bool
  maxDepth : Option Nat
  deriving DecidableEq, Repr, Inhabited

structure RenderArguments where
  input : String
  root : Path
  data : Option Path
  isFragment : Bool
  maxDepth : Option Nat
  deriving DecidableEq, Repr, Inhabited

inductive Topic where
  | program
  | build
  | render
  | help
  deriving DecidableEq, Repr

inductive Request where
  | build (manner : Manner) (arguments : BuildArguments)
  | render (manner : Manner) (arguments : RenderArguments)
  | help (topic : Topic)
  | version
  deriving DecidableEq, Repr

/-! ## Forms -/

/-- Switches that stand before a command or behind it. -/
def generalSwitches : List Switch :=
  [⟨"no-color", none, .nothing⟩, ⟨"verbose", some 'v', .nothingOften⟩,
    ⟨"quiet", some 'q', .nothing⟩]

def commandNames : List String := ["build", "render", "help"]

def programForm : Form := ⟨generalSwitches, 0, commandNames, true⟩

def buildForm : Form where
  switches := generalSwitches ++
    [⟨"root", none, .path⟩, ⟨"config", none, .path⟩, ⟨"out", some 'o', .path⟩,
      ⟨"page", none, .pathOften⟩, ⟨"content", none, .path⟩, ⟨"dep", none, .pathOften⟩,
      ⟨"clean", none, .nothing⟩, ⟨"keep-going", none, .nothing⟩, ⟨"max-depth", none, .number⟩]
  inputs := 0
  commands := []
  hasVersion := false

def renderForm : Form where
  switches := generalSwitches ++
    [⟨"root", none, .path⟩, ⟨"data", some 'd', .path⟩, ⟨"fragment", none, .nothing⟩,
      ⟨"max-depth", none, .number⟩]
  inputs := 1
  commands := []
  hasVersion := false

/-! ## Requests -/

/-- To be quiet and to say more do not go together in one place. -/
def Given.checkManner (g : Given) : Except UsageError Unit :=
  if g.has "quiet" && g.has "verbose" then .error (.conflict "quiet" "verbose") else .ok ()

/-- The manner asked for before a command and behind it, where the latter counts. -/
def manner (before behind : Given) : Manner where
  isColored := !before.has "no-color" && !behind.has "no-color"
  verbosity := if behind.has "verbose" then behind.count "verbose" else before.count "verbose"
  isQuiet := before.has "quiet" || behind.has "quiet"

def Given.path? (g : Given) (name : String) : Option Path := (g.value? name).map Path.mk

def Given.paths (g : Given) (name : String) : List Path := (g.values name).map Path.mk

def Given.number? (g : Given) (name : String) : Option Nat := (g.value? name).bind readNumber?

def Given.build (g : Given) : BuildArguments where
  root := (g.path? "root").getD ⟨"."⟩
  config := g.path? "config"
  output := g.path? "out"
  pages := g.paths "page"
  content := g.path? "content"
  dependencies := g.paths "dep"
  clean := g.has "clean"
  keepGoing := g.has "keep-going"
  maxDepth := g.number? "max-depth"

def Given.render (g : Given) (input : String) : RenderArguments where
  input
  root := (g.path? "root").getD ⟨"."⟩
  data := g.path? "data"
  isFragment := g.has "fragment"
  maxDepth := g.number? "max-depth"

def readBuild (before : Given) (arguments : List String) : Except UsageError Request := do
  match ← buildForm.read Given.none arguments with
  | .given g =>
    g.checkManner
    before.checkManner
    return .build (manner before g) g.build
  | _ => return .help .build

def readRender (before : Given) (arguments : List String) : Except UsageError Request := do
  match ← renderForm.read Given.none arguments with
  | .given g =>
    match g.inputs with
    | [] => .error .missingInput
    | input :: _ =>
      g.checkManner
      before.checkManner
      return .render (manner before g) (g.render input)
  | _ => return .help .render

def readHelp : List String → Except UsageError Request
  | [] => .ok (.help .program)
  | ["build"] => .ok (.help .build)
  | ["render"] => .ok (.help .render)
  | ["help"] => .ok (.help .help)
  | a :: as => .error (.unexpected (if commandNames.contains a then as.head?.getD a else a))

/-- The arguments with their command written out: an input alone is rendered, and without one the
site is built, unless help or the version is called for. -/
def withCommand (arguments : List String) : List String :=
  let isSwitch (a : String) : Bool := a.toList.head? == some '-'
  let switches := arguments.takeWhile isSwitch
  match arguments.drop switches.length with
  | [] =>
    if arguments.any ["-h", "--help", "-V", "--version"].contains then arguments
    else arguments ++ ["build"]
  | word :: rest =>
    if commandNames.contains word then arguments else switches ++ "render" :: word :: rest

/-- What the arguments of the program ask for. -/
def Request.ofArguments (arguments : List String) : Except UsageError Request := do
  match ← programForm.read Given.none (withCommand arguments) with
  | .help => return .help .program
  | .version => return .version
  | .command "build" before rest => readBuild before rest
  | .command "render" before rest => readRender before rest
  | .command _ _ rest => readHelp rest
  | .given _ => .error .missingInput

end StaticSite.Command
