import StaticSite.Error
import StaticSite.Files.Disk
import StaticSite.Value

/-! The names that placeholders of one text can see. A nested template has a scope of its own. -/

namespace StaticSite

structure Scope where
  fields : Fields
  deriving Inhabited

namespace Scope

def empty : Scope := ⟨[]⟩

def get? (s : Scope) (name : String) : Option Value := s.fields.get? name

/-- The items of the list with this name. -/
def list (s : Scope) (name : String) : Except Unresolved (List Value) :=
  match s.get? name with
  | some (.list items) => .ok items
  | some v => .error (.notAList name v.typeName)
  | none => .error (.unbound name)

/-- The scope written by a JSON text, whose top must be an object. -/
def decode (text : String) (path : Path) : Except SiteError Scope :=
  match Value.decode? text with
  | none => .error (.malformedInput path)
  | some (.record fields) => .ok ⟨fields⟩
  | some v => .error (.inputNotObject path v.typeName)

/-- The scope in a file of input data. -/
def ofFile (d : Disk) (path : Path) (referencedBy : String) : Except SiteError Scope :=
  if d.isFile path then
    match d.readText path with
    | .error e => .error (.io path e)
    | .ok text => decode text path
  else .error (.missingFile path referencedBy)

end Scope

end StaticSite
