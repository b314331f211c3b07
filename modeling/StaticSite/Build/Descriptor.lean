import StaticSite.Scope

/-! Page descriptors: JSON texts that name a template and the data to expand it with. -/

namespace StaticSite

structure PageDescriptor where
  template : String
  data : Fields
  deriving Inhabited

namespace PageDescriptor

/-- The data of a page, which nests one level deeper than the text it is in. -/
def dataOf? (j : Json) : Option Fields :=
  match Value.ofJson? (Value.maxDepth - 1) j with
  | some (.record fields) => some fields
  | _ => none

/-- What has been read of the members of a descriptor. -/
structure Draft where
  template : Option String
  data : Option Fields

/-- Reads one member. Neither of the two that count may come twice; others are skipped. -/
def Draft.read? (draft : Draft) (key : String) (j : Json) : Option Draft :=
  match key with
  | "template" =>
    match draft.template, j with
    | none, .string (some s) => some { draft with template := some s }
    | _, _ => none
  | "config" =>
    match draft.data with
    | none => (dataOf? j).map fun fields => { draft with data := some fields }
    | some _ => none
  | _ => some draft

def Draft.readAll? (draft : Draft) : List (Option String × Json) → Option Draft
  | [] => some draft
  | (none, _) :: _ => none
  | (some key, j) :: rest => (draft.read? key j).bind (readAll? · rest)

/-- The descriptor in a JSON text: an object, or an array of the template and the data. -/
def ofJson? : Json → Option PageDescriptor
  | .object members =>
    match Draft.readAll? ⟨none, none⟩ members with
    | some ⟨some template, data⟩ => some ⟨template, data.getD []⟩
    | _ => none
  | .array [.string (some template)] => some ⟨template, []⟩
  | .array [.string (some template), data] => (dataOf? data).map (⟨template, ·⟩)
  | _ => none

def decode (text : String) (path : Path) : Except SiteError PageDescriptor :=
  match (Json.parse? text.toList).bind ofJson? with
  | some descriptor => .ok descriptor
  | none => .error (.malformedInput path)

end PageDescriptor

end StaticSite
