import StaticSite.Build.Dependency
import StaticSite.Build.Page

/-! Building a site: the output is made ready, dependencies are copied, then the pages are built in
their order. -/

namespace StaticSite

/-- Removes what an earlier build left. A directory that holds the root, as they are spelled, is
not removed. -/
def cleanOutput (root output : Path) : BuildStep Unit := do
  let found ← .look fun d => .ok (d.pathExists output)
  if found then
    if root.startsWith output then .fail (.invalidPath output .holdsRoot)
    .record .info ("Cleaning " ++ output.text)
    .change (.removeTree output)

/-- Copies dependencies in their order; counts the files. -/
def copyDependencies (root output : Path) : List Path → BuildStep Nat
  | [] => pure 0
  | p :: ps => do
    let relative ← .ofExcept p.withinSite
    let n ← copyDependency root relative output
    let m ← copyDependencies root output ps
    return n + m

/-- The index of the articles in a directory of the site. -/
def indexArticles (root content : Path) : BuildStep ContentIndex := do
  let relative ← .ofExcept content.withinSite
  let index ← .look fun d => ContentIndex.scan d (root.join relative)
  if !index.isEmpty then
    .record .info ("Found " ++ toString index.size ++ " article(s) in " ++ content.text)
  return index

/-- Builds pages in their order, and adds them to a report. The first failure ends the build,
unless it is to go on. -/
def buildPages (b : PageBuilder) (keepGoing : Bool) : List Path → BuildReport → BuildStep BuildReport
  | [], report => pure report
  | page :: rest, report => do
    match ← (b.build page).attempt with
    | .ok target =>
      .record .info ("Processed " ++ page.text)
      buildPages b keepGoing rest { report with written := report.written ++ [target] }
    | .error e =>
      if keepGoing then
        .record .warn ("Skipping " ++ page.text ++ ": " ++ e.message)
        buildPages b keepGoing rest { report with failures := report.failures ++ [⟨page, e⟩] }
      else .fail e

/-- All that a build of a site does. -/
def BuildOptions.steps (o : BuildOptions) (formats : Formats) : BuildStep BuildReport := do
  let output := o.target
  if o.clean then cleanOutput o.root output
  .change (.createDirectories output)
  let copied ← copyDependencies o.root output o.dependencies
  let articles ← indexArticles o.root o.content
  buildPages ⟨formats, o.root, o.maxDepth, output, articles⟩ o.keepGoing o.pages ⟨[], copied, []⟩

/-- Builds a site. -/
def BuildOptions.build (o : BuildOptions) (formats : Formats) (d : Disk) :
    Disk × Logged SiteError BuildReport :=
  let (s, r) := o.steps formats ⟨d, []⟩
  (s.disk, r)

end StaticSite
