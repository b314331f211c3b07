import StaticSite.Command.Run
import StaticSite.Formats

/-! The program: reads the files that a run can see, runs it on them, and writes back what has
changed. -/

namespace StaticSite

/-- The location of an absolute path. -/
def locationOf (path : String) : Location := (path.splitOn "/").filter fun n => !n.isEmpty

/-- Where a path leads to; the path itself if that is nowhere. -/
def realPath (path : String) : IO String :=
  try return (← IO.FS.realPath path).toString catch _ => return path

/-- The entries below a directory. A link counts as one to the place that it leads to. -/
partial def readBelow (dir : String) : IO (List (Location × Entry)) := do
  let found ← (← IO.FS.realPath dir).readDir
  let entries ← found.toList.mapM fun e => do
    let path := dir ++ "/" ++ e.fileName
    let loc := locationOf path
    match (← e.path.symlinkMetadata).type with
    | .dir => return (loc, Entry.directory) :: (← readBelow path)
    | .file => return [(loc, .file (← IO.FS.readBinFile path))]
    | .symlink => return [(loc, .link (← realPath path))]
    | .other => return []
  return entries.flatten

/-- The directory of a path that exists: itself, or the one it lies in. -/
def directoryOf? (path : String) : IO (Option String) := do
  try
    let place ← IO.FS.realPath path
    if ← place.isDir then return some place.toString
    else return place.parent.map toString
  catch _ => return none

/-- The directories that a run can see: the working directory, those that its arguments name, and
those that links lead to. -/
partial def readAll (seen : List String) (entries : List (Location × Entry)) :
    List String → IO (List (Location × Entry))
  | [] => return entries
  | dir :: rest => do
    if seen.any fun s => s == dir || FileTree.isBelow (locationOf s) (locationOf dir) then
      readAll seen entries rest
    else
      let place := locationOf dir
      let above := (List.range place.length).map fun n => (place.take (n + 1), Entry.directory)
      let below ← readBelow dir
      let linked ← below.filterMapM fun
        | (_, .link target) => directoryOf? target
        | _ => return none
      readAll (dir :: seen) (above ++ below ++ entries) (linked ++ rest)

/-- The files as they are. -/
def readDisk (arguments : List String) : IO Disk := do
  let here ← realPath "."
  let named ← arguments.filterMapM fun a => directoryOf? ((a.splitOn "=").getLast?.getD a)
  let entries ← readAll [] [] (here :: named)
  let tree := entries.foldl (fun t (loc, e) => t.insert loc e) FileTree.empty
  return ⟨tree, locationOf here⟩

/-- Makes the files as a run left them. -/
def writeChanges (before after : FileTree) : IO Unit := do
  let gone := before.entries.filter fun (loc, e) => after.get? loc != some e && !e.isDirectory
  let closed := before.entries.filter fun (loc, e) => e.isDirectory && (after.get? loc).isNone
  let fresh := after.entries.filter fun (loc, e) => before.get? loc != some e
  let path (loc : Location) : String := (Disk.absolutePath loc).text
  for (loc, _) in gone do IO.FS.removeFile (path loc)
  for (loc, _) in closed.mergeSort fun a b => b.1.length ≤ a.1.length do
    IO.FS.removeDir (path loc)
  for (loc, e) in fresh.mergeSort fun a b => a.1.length ≤ b.1.length do
    match e with
    | .directory => IO.FS.createDir (path loc)
    | .file bytes => IO.FS.writeBinFile (path loc) bytes
    | .link _ => pure ()

end StaticSite

open StaticSite in
/-- Runs the program; gives its exit code. -/
def main (arguments : List String) : IO UInt32 := do
  let before ← readDisk arguments
  let (after, outcome) := Command.run Formats.standard arguments before
  writeChanges before.tree after.tree
  IO.eprint outcome.errors
  IO.print outcome.output
  return outcome.code.toUInt32
