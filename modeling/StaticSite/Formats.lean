import StaticSite.Html.Document
import StaticSite.Html.Serialize
import StaticSite.Markdown.Render

/-! The formats of a site: HTML for its trees, and Markdown rendered as HTML. -/

namespace StaticSite

def Formats.standard : Formats where
  parseDocument := Html.parseDocument
  parseFragment := Html.parseFragment
  serialize := Html.serialize
  renderMarkdown := Markdown.render

end StaticSite
