import StaticSite.Markup.Content

/-! Classes of element names that the reading of HTML tells apart. -/

namespace StaticSite.Html

/-- An element name with its vocabulary. -/
abbrev Name := Vocabulary × String

/-- A class of names of HTML elements. -/
def among (names : List String) (n : Name) : Bool := n.1 == .html && names.contains n.2

def except (names : List String) (p : Name → Bool) (n : Name) : Bool := p n && !among names n

/-! ## What hides the elements above it -/

/-- Math elements that hold HTML text. -/
def holdsMathText (n : Name) : Bool :=
  n.1 == .math && ["mi", "mo", "mn", "ms", "mtext"].contains n.2

/-- Drawing elements that hold HTML. -/
def holdsHtml (n : Name) : Bool := n.1 == .svg && ["foreignObject", "desc", "title"].contains n.2

def boundsScope (n : Name) : Bool :=
  among ["applet", "caption", "html", "table", "td", "th", "marquee", "object", "template"] n ||
    holdsMathText n || holdsHtml n

def boundsItemScope (n : Name) : Bool := boundsScope n || among ["ol", "ul"] n

def boundsButtonScope (n : Name) : Bool := boundsScope n || among ["button"] n

def boundsTableScope : Name → Bool := among ["html", "table", "template"]

def boundsSelectScope (n : Name) : Bool := !among ["optgroup", "option"] n

/-! ## What a tag closes without saying so -/

def closesSilently : Name → Bool :=
  among ["dd", "dt", "li", "option", "optgroup", "p", "rb", "rp", "rt", "rtc"]

def closesSilentlyInTemplate (n : Name) : Bool :=
  closesSilently n ||
    among ["caption", "colgroup", "tbody", "td", "tfoot", "th", "thead", "tr"] n

/-! ## Elements by their role -/

def headings : List String := ["h1", "h2", "h3", "h4", "h5", "h6"]

def cells : List String := ["td", "th"]

def tableSections : List String := ["tbody", "tfoot", "thead"]

def tableParts : List String := ["table", "tbody", "tfoot", "thead", "tr"]

/-- Elements with rules of their own, which a stray end tag does not close. -/
def isSpecial : Name → Bool :=
  among (headings ++ cells ++ tableParts ++ [
    "address", "applet", "area", "article", "aside", "base", "basefont", "bgsound", "blockquote",
    "body", "br", "button", "caption", "center", "col", "colgroup", "dd", "details", "dir", "div",
    "dl", "dt", "embed", "fieldset", "figcaption", "figure", "footer", "form", "frame", "frameset",
    "head", "header", "hgroup", "hr", "html", "iframe", "img", "input", "isindex", "li", "link",
    "listing", "main", "marquee", "menu", "meta", "nav", "noembed", "noframes", "noscript",
    "object", "ol", "p", "param", "plaintext", "pre", "script", "section", "select", "source",
    "style", "summary", "template", "textarea", "title", "track", "ul", "wbr", "xmp"])

/-- Blocks that end a paragraph. -/
def blocks : List String :=
  ["address", "article", "aside", "blockquote", "center", "details", "dialog", "dir", "div", "dl",
    "fieldset", "figcaption", "figure", "footer", "header", "hgroup", "main", "menu", "nav", "ol",
    "p", "section", "summary", "ul"]

/-- Blocks that their own end tag closes. -/
def closableBlocks : List String :=
  ["address", "article", "aside", "blockquote", "button", "center", "details", "dialog", "dir",
    "div", "dl", "fieldset", "figcaption", "figure", "footer", "header", "hgroup", "listing",
    "main", "menu", "nav", "ol", "pre", "section", "summary", "ul"]

/-- Formatting elements, which are opened again where a block cuts them short. -/
def formattingNames : List String :=
  ["a", "b", "big", "code", "em", "font", "i", "nobr", "s", "small", "strike", "strong", "tt", "u"]

/-- Elements that belong to a head wherever they stand. -/
def headParts : List String :=
  ["base", "basefont", "bgsound", "link", "meta", "noframes", "script", "style", "template",
    "title"]

/-- Elements that a body ignores outside of their own place. -/
def misplaced : List String :=
  ["caption", "col", "colgroup", "frame", "head", "tbody", "td", "tfoot", "th", "thead", "tr"]

/-- HTML elements that end a drawing or a formula. -/
def breaksOut : List String :=
  ["b", "big", "blockquote", "body", "br", "center", "code", "dd", "div", "dl", "dt", "em",
    "embed", "h1", "h2", "h3", "h4", "h5", "h6", "head", "hr", "i", "img", "li", "listing", "menu",
    "meta", "nobr", "ol", "p", "pre", "ruby", "s", "small", "span", "strong", "strike", "sub",
    "sup", "table", "tt", "u", "ul", "var"]

end StaticSite.Html
