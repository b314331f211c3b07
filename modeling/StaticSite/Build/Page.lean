import StaticSite.Build.ContentIndex
import StaticSite.Build.Descriptor
import StaticSite.Build.Options
import StaticSite.Build.SitePath
import StaticSite.Build.Step

/-! Building one page: it is expanded, gets its articles, and is written. A page that fails before
it is written changes nothing. -/

namespace StaticSite

/-- What the pages of one build share. -/
structure PageBuilder where
  formats : Formats
  root : Path
  maxDepth : Nat
  output : Path
  articles : ContentIndex

namespace PageBuilder

def site (b : PageBuilder) (d : Disk) : Site := ⟨b.formats, d, b.root, b.maxDepth⟩

/-- The markup that a descriptor stands for. -/
def describedMarkup (b : PageBuilder) (d : Disk) (page : Path) : Logged SiteError String := do
  let source := b.root.join page
  let text ← Logged.lift ((d.readText source).mapError (.io source))
  let descriptor ← Logged.lift (PageDescriptor.decode text source)
  Logged.debug .build (page.text ++ " renders '" ++ descriptor.template ++ "'")
  let template := trimmed descriptor.template
  let file := b.root.join ⟨template⟩
  if d.isFile file then (b.site d).parse template ⟨descriptor.data⟩ true
  else .fail (.missingFile file page.text)

/-- The finished markup of a page, and the file it belongs in. -/
def render (b : PageBuilder) (d : Disk) (page : Path) : Logged SiteError (String × Path) := do
  let source := b.root.join page
  if !d.isFile source then .fail (.missingFile source "the page list")
  let isDescriptor := page.hasExtension "json"
  let markup ← if isDescriptor then b.describedMarkup d page
    else (b.site d).parse page.text Scope.empty true
  let markup ← b.articles.embed b.formats d markup (.file page)
  return (markup, b.output.join (if isDescriptor then page.withExtension "html" else page))

/-- Writes a page through a temporary file in its directory, so that it is there all at once. -/
def write (target : Path) (markup : String) : BuildStep Unit := do
  let dir := target.directory
  .change (.createDirectories dir)
  let temporary ← .look fun d => Logged.lift ((d.temporaryIn dir).mapError (.io dir))
  .change (.writeFile temporary target markup.toUTF8)

/-- Builds a page; gives the file written. -/
def build (b : PageBuilder) (page : Path) : BuildStep Path := do
  let relative ← .ofExcept page.withinSite
  let (markup, target) ← .look fun d => b.render d relative
  write target markup
  return target

end PageBuilder

end StaticSite
