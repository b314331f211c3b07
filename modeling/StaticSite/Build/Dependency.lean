import StaticSite.Build.SitePath
import StaticSite.Build.Step
import StaticSite.Files.Walk

/-! Copying dependencies: files, or directories with all that is in them.

The walk follows links. What lies under the output path, as it is spelled, is passed over. -/

namespace StaticSite

/-- Where a walk goes to, and what it passes over. -/
structure CopyPlan where
  root : Path
  output : Path

namespace CopyPlan

/-- A path that a walk has met, relative to the site. -/
def relative (plan : CopyPlan) (p : Path) : Path := (p.relativeTo? plan.root).getD p

def target (plan : CopyPlan) (p : Path) : Path := plan.output.join (plan.relative p)

end CopyPlan

/-- The directories that a walk is in, innermost first. -/
abbrev WalkChain := List (Location × Path)

/-- What a path that is listed leads to: a link is followed, but may not lead back to a directory that
the walk is in. -/
def Disk.visit (d : Disk) (chain : WalkChain) (p : Path) : Except OsError (Location × Entry) := do
  let place ← (d.listed p).mapError (.during p.text)
  match d.tree.get? place with
  | some (.link _) =>
    let loc ← (d.locate ⟨true, false⟩ p).mapError (.during p.text)
    match d.tree.get? loc, chain.lookup loc with
    | some .directory, some ancestor => .error (.loop p.text ancestor.text)
    | some e, _ => .ok (loc, e)
    | none, _ => .error (.during p.text .notFound)
  | some e => .ok (place, e)
  | none => .error (.during p.text .notFound)

/-- Copies each of some paths; counts the files. -/
def copyEach (copy : Path → BuildStep Nat) : List Path → BuildStep Nat
  | [] => pure 0
  | p :: ps => do
    let n ← copy p
    let m ← copyEach copy ps
    return n + m

/-- Copies what a path leads to, down to so many levels; counts the files. A directory is opened before
it is made in the output; where it cannot be opened, the walk ends after that. -/
def CopyPlan.copy (plan : CopyPlan) : Nat → WalkChain → Path → BuildStep Nat
  | 0, _, p => .fail (.io p .nameTooLong)
  | levels + 1, chain, p => do
    let (_, entry) ← .look fun d => Logged.lift ((d.visit chain p).mapError (.io p))
    if p.startsWith plan.output then return 0
    let target := plan.target p
    match entry with
    | .directory =>
      let opened ← .look fun d => .ok (d.openDirectory p)
      .change (.createDirectories target)
      let dir ← .ofExcept (opened.mapError (.io p))
      let names ← .look fun d => .ok (d.tree.names dir)
      copyEach (plan.copy levels ((dir, p) :: chain)) (names.map fun n => p.join ⟨n⟩)
    | _ =>
      if let some parent := target.parent? then
        .change (.createDirectories parent)
      .change (.copyFile p target)
      .record .debug ("copied " ++ (plan.relative p).text)
      return 1

/-- Copies a dependency to the same path in the output. Every level of a walk makes its paths
longer, so none goes deeper than a path is long. -/
def copyDependency (root : Path) (relative output : Path) : BuildStep Nat := do
  let source := root.join relative
  let found ← .look fun d => .ok (d.pathExists source)
  if !found then .fail (.missingFile source "the dependency list")
  let copied ← (CopyPlan.mk root output).copy Disk.maxPathBytes [] source
  .record .info ("Copied " ++ relative.text ++ " (" ++ toString copied ++ " file(s))")
  return copied

end StaticSite
