import StaticSite.Files.Error
import StaticSite.Files.Tree
import StaticSite.Path

/-! A file tree with a working directory, and the operations on it by path.

`Disk.walk` follows a path piece by piece: every piece but the last must lead to a directory, and
links are followed at most `maxLinks` times. -/

namespace StaticSite

structure Disk where
  tree : FileTree
  cwd : Location
  deriving Inhabited

namespace Disk

open Text

/-- One step of a path as the system reads it. -/
inductive Step where
  /-- The place must be a directory. -/
  | stay
  | up
  | into (name : String)
  deriving DecidableEq, Repr

def Step.ofPiece : List Char → Step
  | [] | ['.'] => stay
  | ['.', '.'] => up
  | cs => into (String.ofList cs)

def steps (text : String) : List Step :=
  match splitOn '/' text.toList with
  | [] :: rest => rest.map Step.ofPiece
  | ps => ps.map Step.ofPiece

def maxLinks : Nat := 40

def maxNameBytes : Nat := 255

/-- A path is no longer than this. -/
def maxPathBytes : Nat := 4095

/-- What a walk may do with the last name. -/
structure Reach where
  /-- Follow a link there. -/
  follow : Bool
  /-- Accept a free place there. -/
  free : Bool

/-- Follows the steps from a location. At a link that is followed, `onLink` goes on with the steps
of its target and those that are left. -/
def follow (t : FileTree) (r : Reach) (onLink : Location → List Step → Except OsError Location)
    (loc : Location) : List Step → Except OsError Location
  | [] => .ok loc
  | .stay :: rest =>
    if t.isDirectory loc then follow t r onLink loc rest else .error .notADirectory
  | .up :: rest =>
    if t.isDirectory loc then follow t r onLink loc.dropLast rest else .error .notADirectory
  | .into n :: rest =>
    if !t.isDirectory loc then .error .notADirectory
    else if maxNameBytes < n.utf8ByteSize then .error .nameTooLong
    else
      match t.get? (loc ++ [n]) with
      | none => if rest.isEmpty && r.free then .ok (loc ++ [n]) else .error .notFound
      | some (.link target) =>
        if rest.isEmpty && !r.follow then .ok (loc ++ [n])
        else onLink (if target.toList.head? == some '/' then [] else loc) (steps target ++ rest)
      | some _ => follow t r onLink (loc ++ [n]) rest

/-- Follows the steps from a location, through so many links at most. -/
def walk (t : FileTree) (r : Reach) : Nat → Location → List Step → Except OsError Location
  | 0 => follow t r fun _ _ => .error .tooManyLinks
  | links + 1 => follow t r (walk t r links)

/-- Where a path leads. -/
def locate (d : Disk) (r : Reach) (p : Path) : Except OsError Location :=
  if p.text.isEmpty then .error .notFound
  else if p.text.toList.contains '\x00' then .error .nullInPath
  else if maxPathBytes < p.text.utf8ByteSize then .error .nameTooLong
  else if p.isAbsolute then walk d.tree r maxLinks [] (steps p.text)
  else if d.tree.isDirectory d.cwd then walk d.tree r maxLinks d.cwd (steps p.text)
  else .error .notFound

/-! ## Reading -/

/-- The entry that a path leads to, links followed. -/
def entry? (d : Disk) (p : Path) : Option Entry :=
  match d.locate ⟨true, false⟩ p with
  | .ok loc => d.tree.get? loc
  | .error _ => none

def isFile (d : Disk) (p : Path) : Bool :=
  match d.entry? p with
  | some (.file _) => true
  | _ => false

def isDirectory (d : Disk) (p : Path) : Bool := (d.entry? p).any Entry.isDirectory

def pathExists (d : Disk) (p : Path) : Bool := (d.entry? p).isSome

def readBytes (d : Disk) (p : Path) : Except OsError ByteArray := do
  let loc ← d.locate ⟨true, false⟩ p
  match d.tree.get? loc with
  | some (.file bytes) => .ok bytes
  | some _ => .error .isADirectory
  | none => .error .notFound

/-- The text of a file, which must be UTF-8. -/
def readText (d : Disk) (p : Path) : Except OsError String := do
  let bytes ← d.readBytes p
  match String.fromUTF8? bytes with
  | some s => .ok s
  | none => .error .invalidText

/-- The absolute path of a location. -/
def absolutePath (loc : Location) : Path := ⟨"/" ++ "/".intercalate loc⟩

/-- The one absolute path, without links, of what a path leads to. The path may be short enough where
the absolute path is not. -/
def canonicalize (d : Disk) (p : Path) : Except OsError Path := do
  let loc ← d.locate ⟨true, false⟩ p
  if maxPathBytes < (absolutePath loc).text.utf8ByteSize then .error .nameTooLong
  else .ok (absolutePath loc)

/-! ## Writing -/

def insert (d : Disk) (loc : Location) (e : Entry) : Disk := { d with tree := d.tree.insert loc e }

/-- The path without the slashes at its end. A path that is too long stays so. -/
def trimSlashes (p : Path) : Path :=
  if maxPathBytes < p.text.utf8ByteSize then p
  else
    match (p.text.toList.reverse.dropWhile (· == '/')).reverse with
    | [] => p
    | cs => ⟨String.ofList cs⟩

/-- Makes one directory. -/
def createDirectory (d : Disk) (p : Path) : Except OsError Disk := do
  let loc ← d.locate ⟨false, true⟩ (trimSlashes p)
  match d.tree.get? loc with
  | some _ => .error .fileExists
  | none => .ok (d.insert loc .directory)

/-- The path and the paths above it, innermost first. -/
def ancestors (p : Path) : Nat → List Path
  | 0 => []
  | fuel + 1 => p :: (match p.parent? with
    | some q => ancestors q fuel
    | none => [])

/-- Makes the first of the directories, each of which lies in the next, with those missing. -/
def createFirst (d : Disk) : List Path → Disk × Except OsError Unit
  | [] => (d, .error .notFound)
  | p :: above =>
    if p.text.isEmpty then (d, .ok ())
    else
      match d.createDirectory p with
      | .ok d => (d, .ok ())
      | .error .notFound =>
        match d.createFirst above with
        | (d, .error e) => (d, .error e)
        | (d, .ok ()) =>
          match d.createDirectory p with
          | .ok d => (d, .ok ())
          | .error e => if d.isDirectory p then (d, .ok ()) else (d, .error e)
      | .error e => if d.isDirectory p then (d, .ok ()) else (d, .error e)

/-- Makes a directory and all that are missing on the way to it. -/
def createDirectories (d : Disk) (p : Path) : Disk × Except OsError Unit :=
  d.createFirst (ancestors p (p.components.length + 1))

/-- The names for temporary files, in the order in which they are tried. -/
def temporaryName (n : Nat) : String := ".tmp" ++ toString (100000 + n)

/-- The first of so many names that is free in a directory, or else the one after them. -/
def freeName (t : FileTree) (dir : Location) : Nat → Nat → String
  | 0, n => temporaryName n
  | tries + 1, n =>
    if (t.get? (dir ++ [temporaryName n])).isNone then temporaryName n
    else freeName t dir tries (n + 1)

/-- The directory that a temporary file is made in. -/
def locateDirectory (d : Disk) (dir : Path) : Except OsError Location :=
  (d.locate ⟨false, true⟩ (dir.join ⟨temporaryName 0⟩)).map List.dropLast

/-- A name for a temporary file in a directory. -/
def temporaryIn (d : Disk) (dir : Path) : Except OsError String :=
  (d.locateDirectory dir).map fun loc => freeName d.tree loc d.tree.entries.length 0

/-- Moves a file to a place that is free, or in place of a file or a link there. -/
def rename (d : Disk) (source : Location) (target : Path) : Except OsError Disk := do
  let loc ← d.locate ⟨false, true⟩ target
  if d.tree.isDirectory loc then .error .isADirectory
  else
    match d.tree.get? source with
    | some e => .ok { d with tree := (d.tree.eraseAll (· == source)).insert loc e }
    | none => .error .notFound

/-- Makes a file at a place, and moves it to a path once it is written. If it cannot be moved it is
removed. -/
def writeThrough (d : Disk) (place : Location) (p : Path) (bytes : ByteArray) :
    Disk × Except OsError Unit :=
  let written := d.insert place (.file bytes)
  match written.rename place p with
  | .ok d => (d, .ok ())
  | .error e => ({ written with tree := written.tree.eraseAll (· == place) }, .error e)

/-- Puts a file in its place all at once, through a new file in the same directory. -/
def replaceFile (d : Disk) (temporary : String) (p : Path) (bytes : ByteArray) :
    Disk × Except OsError Unit :=
  match d.locateDirectory p.directory with
  | .error e => (d, .error e)
  | .ok dir =>
    if (d.tree.get? (dir ++ [temporary])).isSome then (d, .error .fileExists)
    else d.writeThrough (dir ++ [temporary]) p bytes

/-- Empties a file, or makes an empty one; a link at the place is followed. -/
def truncate (d : Disk) (p : Path) : Except OsError (Disk × Location) := do
  let loc ← d.locate ⟨true, true⟩ p
  if d.tree.isDirectory loc then .error .isADirectory
  else .ok (d.insert loc (.file ByteArray.empty), loc)

/-- Copies a file. The target is emptied before the source is read, so a file copied onto itself
is left empty. The system copies the permissions of a file as well, and a target may be the source
under another name, as a hard link; both are left out. -/
def copyFile (d : Disk) (source target : Path) : Disk × Except OsError Unit :=
  match d.readBytes source, d.truncate target with
  | .error e, _ => (d, .error e)
  | _, .error e => (d, .error e)
  | .ok _, .ok (d, loc) =>
    match d.readBytes source with
    | .error e => (d, .error e)
    | .ok bytes => (d.insert loc (.file bytes), .ok ())

/-- Removes an empty directory by path: not the working directory, nor one named from below. -/
def removeEmpty (d : Disk) (p : Path) : Except OsError Disk := do
  let p := trimSlashes p
  let loc ← d.locate ⟨false, false⟩ p
  match (steps p.text).getLast? with
  | some .stay => .error .invalidArgument
  | some .up => .error .directoryNotEmpty
  | _ =>
    match d.tree.get? loc with
    | some .directory =>
      if loc.isEmpty then .error .busy
      else .ok { d with tree := d.tree.eraseAll (· == loc) }
    | _ => .error .notADirectory

/-- Removes a directory with all below it, or a link. What lies below goes first, so it is gone
even where the directory itself cannot go. One that is not found any more is taken to be gone. -/
def removeTree (d : Disk) (p : Path) : Disk × Except OsError Unit :=
  match d.locate ⟨false, false⟩ p with
  | .error e => (d, .error e)
  | .ok loc =>
    match d.tree.get? loc with
    | some (.link _) => ({ d with tree := d.tree.eraseAll (· == loc) }, .ok ())
    | some .directory =>
      let d := { d with tree := d.tree.eraseAll (FileTree.isBelow loc) }
      match d.removeEmpty p with
      | .ok d => (d, .ok ())
      | .error e => (d, if e = .notFound then .ok () else .error e)
    | _ => (d, .error .notADirectory)

end Disk

end StaticSite
