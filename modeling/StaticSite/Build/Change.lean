import StaticSite.Files.Disk

/-! The changes that a build makes to a disk. -/

namespace StaticSite

inductive DiskChange where
  | createDirectories (path : Path)
  | copyFile (source target : Path)
  /-- Puts a file in its place all at once, after it has been written under another name. -/
  | writeFile (temporary : String) (path : Path) (bytes : ByteArray)
  | removeTree (path : Path)
  deriving Inhabited

namespace DiskChange

/-- The path that is made, written or removed. -/
def target : DiskChange → Path
  | createDirectories p | copyFile _ p | writeFile _ p _ | removeTree p => p

/-- The path that is named where the change fails. -/
def subject : DiskChange → Path
  | copyFile source _ => source
  | c => c.target

/-- Makes a change. What it did before it failed stays. -/
def apply (d : Disk) : DiskChange → Disk × Except OsError Unit
  | createDirectories p => d.createDirectories p
  | copyFile source target => d.copyFile source target
  | writeFile temporary p bytes => d.replaceFile temporary p bytes
  | removeTree p => d.removeTree p

end DiskChange

end StaticSite
