import StaticSite.Files.Disk

/-! The entries below a directory, in the order of a walk: a directory comes before what is in it,
and the names in one directory come in their order. Links are not followed.

A walk knows what an entry is from the directory that lists it, but each directory is opened by its
path, which may be too long for that. -/

namespace StaticSite

namespace FileTree

/-- No location of the tree is longer than this. -/
def depth (t : FileTree) : Nat := t.entries.foldl (fun n e => max n e.1.length) 0

/-- The locations below a directory, as they are seen from it, down to so many levels. -/
def walkFor (t : FileTree) : Nat → Location → List Location
  | 0, _ => []
  | levels + 1, dir =>
    (t.names dir).flatMap fun name =>
      [name] ::
        (if t.isDirectory (dir ++ [name]) then
          (t.walkFor levels (dir ++ [name])).map (name :: ·)
        else [])

/-- The locations below a directory, as they are seen from it. -/
def walk (t : FileTree) (dir : Location) : List Location := t.walkFor t.depth dir

@[simp] theorem walkFor_zero (t : FileTree) (dir : Location) : t.walkFor 0 dir = [] := rfl

end FileTree

/-- Where a path ends, as the directory there lists its last name. A path that is too long to be opened
may be listed. -/
def Disk.listed (d : Disk) (p : Path) : Except OsError Location :=
  walk d.tree ⟨false, false⟩ maxLinks (if p.isAbsolute then [] else d.cwd) (steps p.text)

/-- Opens a directory by its path, to list it. A failure says where the walk met it. -/
def Disk.openDirectory (d : Disk) (p : Path) : Except OsError Location :=
  match d.locate ⟨true, false⟩ p with
  | .ok loc => if d.tree.isDirectory loc then .ok loc else .error (.during p.text .notADirectory)
  | .error e => .error (.during p.text e)

end StaticSite
