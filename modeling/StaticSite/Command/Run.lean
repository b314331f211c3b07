import StaticSite.Build.Run
import StaticSite.Command.Help
import StaticSite.Command.Report
import StaticSite.Config.Site

/-! Running the program on a disk. -/

namespace StaticSite.Command

/-- What a run leaves besides the disk. -/
structure Outcome where
  code : Nat
  output : String
  errors : String
  deriving DecidableEq, Repr, Inhabited

namespace Outcome

def success (output errors : String) : Outcome := ⟨0, output, errors⟩

def failure (errors : String) : Outcome := ⟨1, "", errors⟩

end Outcome

def noDepth : String := "--max-depth must be at least 1"

/-! ## Building -/

/-- The options that arguments change. -/
def BuildArguments.apply (a : BuildArguments) (o : BuildOptions) : BuildOptions where
  root := o.root
  output := a.output.getD o.output
  dependencies := if a.dependencies.isEmpty then o.dependencies else a.dependencies
  pages := if a.pages.isEmpty then o.pages else a.pages
  content := a.content.getD o.content
  clean := o.clean || a.clean
  keepGoing := o.keepGoing || a.keepGoing
  maxDepth := a.maxDepth.getD o.maxDepth

/-- What is said of a build that came to its end. -/
def summary (o : BuildOptions) (r : BuildReport) : LogRecord :=
  if r.isSuccess then
    ⟨.info, .main,
      "Built " ++ toString r.written.length ++ " page(s), copied " ++ toString r.copied ++
        " file(s) into " ++ o.output.text⟩
  else
    ⟨.error, .main,
      toString r.failures.length ++ " of " ++ toString o.pages.length ++ " page(s) failed"⟩

def runBuild (formats : Formats) (m : Manner) (a : BuildArguments) (d : Disk) : Disk × Outcome :=
  let config := SiteConfig.load d a.root a.config
  let start := logText m config.log
  match config.result with
  | .error e => (d, .failure (start ++ failureText m e.message []))
  | .ok config =>
    let o := a.apply (config.options a.root)
    if o.maxDepth = 0 then (d, .failure (start ++ failureText m noDepth []))
    else
      let (d, built) := o.build formats d
      let start := start ++ logText m built.log
      match built.result with
      | .error e => (d, .failure (start ++ errorText m e))
      | .ok report =>
        let failures := String.join (report.failures.map fun f => errorText m f.error)
        let errors := start ++ failures ++ logText m [summary o report]
        (d, if report.isSuccess then .success "" errors else .failure errors)

/-! ## Rendering -/

/-- The markup that arguments ask for. -/
def renderInput (formats : Formats) (a : RenderArguments) (maxDepth : Nat) (scope : Scope)
    (d : Disk) : Logged SiteError String :=
  let site : Site := ⟨formats, d, a.root, maxDepth⟩
  site.parse a.input scope (!a.isFragment)

def runRender (formats : Formats) (m : Manner) (a : RenderArguments) (d : Disk) : Outcome :=
  let scope := match a.data with
    | some path => Scope.ofFile d path "--data"
    | none => .ok Scope.empty
  match scope with
  | .error e => .failure (errorText m e)
  | .ok scope =>
    let maxDepth := a.maxDepth.getD Site.defaultMaxDepth
    if maxDepth = 0 then .failure (failureText m noDepth [])
    else
      let rendered := renderInput formats a maxDepth scope d
      let log := logText m rendered.log
      match rendered.result with
      | .ok markup => .success (markup ++ "\n") log
      | .error e => .failure (log ++ errorText m e)

/-! ## The program -/

/-- The exit code of a run that was asked for in a wrong way. -/
def usageCode : Nat := 2

/-- Runs the program with these arguments. -/
def run (formats : Formats) (arguments : List String) (d : Disk) : Disk × Outcome :=
  match Request.ofArguments arguments with
  | .error e => (d, ⟨usageCode, "", "error: " ++ e.message ++ "\n"⟩)
  | .ok .version => (d, .success versionText "")
  | .ok (.help topic) => (d, .success topic.text "")
  | .ok (.build m a) => runBuild formats m a d
  | .ok (.render m a) => (d, runRender formats m a d)

end StaticSite.Command
