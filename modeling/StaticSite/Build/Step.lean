import StaticSite.Build.Change
import StaticSite.Error
import StaticSite.Log

/-! Steps of a build. -/

namespace StaticSite

/-- A disk that a build works on, and the changes tried so far, newest first. -/
structure BuildState where
  disk : Disk
  changes : List DiskChange
  deriving Inhabited

/-- A step works on a disk, leaves records, and may fail; what it did to the disk before stays. -/
def BuildStep (α : Type) : Type := BuildState → BuildState × Logged SiteError α

namespace BuildStep

variable {α β : Type}

def andThen (x : BuildStep α) (f : α → BuildStep β) : BuildStep β := fun s =>
  match x s with
  | (s, ⟨log, .error e⟩) => (s, ⟨log, .error e⟩)
  | (s, ⟨log, .ok a⟩) =>
    let (s, r) := f a s
    (s, ⟨log ++ r.log, r.result⟩)

instance : Monad BuildStep where
  pure a := fun s => (s, .ok a)
  bind := andThen

/-- A step that only looks at the disk. -/
def look (f : Disk → Logged SiteError α) : BuildStep α := fun s => (s, f s.disk)

def record (level : LogLevel) (text : String) : BuildStep Unit :=
  look fun _ => Logged.record level .build text

def fail (e : SiteError) : BuildStep α := look fun _ => .fail e

def ofExcept (r : Except SiteError α) : BuildStep α := look fun _ => Logged.lift r

/-- A step that changes the disk. -/
def change (c : DiskChange) : BuildStep Unit := fun s =>
  let (disk, r) := c.apply s.disk
  (⟨disk, c :: s.changes⟩, Logged.lift (r.mapError (.io c.subject)))

/-- Takes the failure of a step as a result. -/
def attempt (x : BuildStep α) : BuildStep (Except SiteError α) := fun s =>
  let (s, r) := x s
  (s, ⟨r.log, .ok r.result⟩)

@[simp] theorem run_pure (a : α) (s : BuildState) : (pure a : BuildStep α) s = (s, .ok a) := rfl

theorem run_bind (x : BuildStep α) (f : α → BuildStep β) (s : BuildState) :
    (x >>= f) s = x.andThen f s := rfl

end BuildStep

end StaticSite
