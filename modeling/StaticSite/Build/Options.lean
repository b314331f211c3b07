import StaticSite.Error
import StaticSite.Expansion.Page

/-! What a build is asked to do, and what it reports. -/

namespace StaticSite

/-- Paths other than the root are seen from it. -/
structure BuildOptions where
  root : Path := ⟨"."⟩
  output : Path := ⟨"out"⟩
  /-- Files and directories that are copied as they are. -/
  dependencies : List Path := []
  /-- Files to expand, or descriptors of pages. -/
  pages : List Path := [⟨"index.html"⟩]
  /-- The directory of the articles. -/
  content : Path := ⟨"markdown_content"⟩
  /-- Remove what an earlier build left. -/
  clean : Bool := false
  /-- Go on after a page that fails. -/
  keepGoing : Bool := false
  maxDepth : Nat := Site.defaultMaxDepth
  deriving DecidableEq, Repr, Inhabited

/-- The directory that a build writes to. -/
def BuildOptions.target (o : BuildOptions) : Path := o.root.join o.output

structure PageFailure where
  page : Path
  error : SiteError
  deriving DecidableEq, Repr

structure BuildReport where
  /-- The files written, in the order of their pages. -/
  written : List Path
  /-- The number of files copied. -/
  copied : Nat
  failures : List PageFailure
  deriving DecidableEq, Repr

def BuildReport.isSuccess (r : BuildReport) : Bool := r.failures.isEmpty

end StaticSite
