/-! A tree of files, as the entries at its locations.

A location is the list of names from the top, whose own location is the empty list.

Of a file there is nothing but its bytes. Owners, permissions and times are left out, so an operation
never fails for want of a right. Hard links are left out, so every file has one location. Names are
texts, so names that are not UTF-8 are left out. -/

namespace StaticSite

abbrev Location := List String

inductive Entry where
  | file (bytes : ByteArray)
  | directory
  | link (target : String)
  deriving Inhabited

instance : DecidableEq Entry
  | .file a, .file b =>
    if h : a.data = b.data then .isTrue (by cases a; cases b; cases h; rfl)
    else .isFalse (by intro e; cases e; exact h rfl)
  | .directory, .directory => .isTrue rfl
  | .link s, .link t => if h : s = t then .isTrue (by rw [h]) else .isFalse (by simpa using h)
  | .file _, .directory | .file _, .link _ => .isFalse nofun
  | .directory, .file _ | .directory, .link _ => .isFalse nofun
  | .link _, .file _ | .link _, .directory => .isFalse nofun

def Entry.isDirectory : Entry → Bool
  | directory => true
  | _ => false

structure FileTree where
  entries : List (Location × Entry)
  deriving Inhabited

namespace FileTree

def empty : FileTree := ⟨[]⟩

/-- The entry at a location. The top is a directory. -/
def get? (t : FileTree) : Location → Option Entry
  | [] => some .directory
  | loc => t.entries.lookup loc

def isDirectory (t : FileTree) (loc : Location) : Bool := (t.get? loc).any Entry.isDirectory

/-- Puts an entry at a location, in place of any other. -/
def insert (t : FileTree) (loc : Location) (e : Entry) : FileTree :=
  ⟨(loc, e) :: t.entries.filter (·.1 != loc)⟩

/-- Removes the entries whose location has a property. -/
def eraseAll (t : FileTree) (p : Location → Bool) : FileTree :=
  ⟨t.entries.filter fun e => !p e.1⟩

/-- Whether a location lies below another. -/
def isBelow (top loc : Location) : Bool := top.length < loc.length && loc.take top.length == top

/-- The names in a directory, in order. -/
def names (t : FileTree) (dir : Location) : List String :=
  (t.entries.filterMap fun (loc, _) =>
    match loc.getLast? with
    | some n => if loc.dropLast = dir then some n else none
    | none => none).mergeSort (· ≤ ·)

@[simp] theorem get?_nil (t : FileTree) : t.get? [] = some .directory := rfl

theorem get?_cons (t : FileTree) (n : String) (loc : Location) :
    t.get? (n :: loc) = t.entries.lookup (n :: loc) := rfl

end FileTree

end StaticSite
