import StaticSite.Error

/-! Paths that a build takes from its options: they must lie within the site root. -/

namespace StaticSite

/-- The names of a path that neither starts at the top nor goes up. -/
def Path.siteNames : List Path.Component → Except PathFault (List String)
  | [] => .ok []
  | .name n :: cs => (siteNames cs).map (n :: ·)
  | .current :: cs => siteNames cs
  | .parent :: _ => .error .leavesRoot
  | .root :: _ => .error .notRelative

/-- The path made of the names in a path, of which there must be one. -/
def Path.withinSite (p : Path) : Except SiteError Path :=
  match Path.siteNames p.components with
  | .error fault => .error (.invalidPath p fault)
  | .ok [] => .error (.invalidPath p .empty)
  | .ok names => .ok ⟨"/".intercalate names⟩

end StaticSite
