import StaticSite.Text.Cut

/-! HTML tags within Markdown text. Each function gives what follows the thing it reads. -/

namespace StaticSite.Markdown

open Text

def isSpaceOrLineEnd (c : Char) : Bool :=
  c == ' ' || c == '\n' || c == '\t' || c == '\x0b' || c == '\x0c'

def isNameStart (c : Char) : Bool := c.isAlpha || c == '_' || c == ':'

def isNameChar (c : Char) : Bool := c.isAlphanum || c == '_' || c == ':' || c == '.' || c == '-'

def isUnquotedChar (c : Char) : Bool :=
  !isSpaceOrLineEnd c && !(['"', '\'', '=', '<', '>', '`'].contains c)

/-- The value of an attribute. -/
def afterValue? (s : List Char) : Option (List Char) :=
  match s with
  | '"' :: r => (cutAt? '"' r).map (·.2)
  | '\'' :: r => (cutAt? '\'' r).map (·.2)
  | _ =>
    match s.takeWhile isUnquotedChar with
    | [] => none
    | v => some (s.drop v.length)

/-- An attribute, with its value if it has one. -/
def afterAttribute? (s : List Char) : Option (List Char) :=
  match s with
  | [] => none
  | c :: r =>
    if isNameStart c then
      let r := r.dropWhile isNameChar
      match r.dropWhile isSpaceOrLineEnd with
      | '=' :: v => afterValue? (v.dropWhile isSpaceOrLineEnd)
      | _ => some r
    else none

/-- The attributes and the end of an opening tag. -/
def afterAttributes? : Nat → List Char → Option (List Char)
  | 0, _ => none
  | fuel + 1, s =>
    let r := s.dropWhile isSpaceOrLineEnd
    match r with
    | '>' :: r => some r
    | '/' :: '>' :: r => some r
    | _ =>
      if r.length < s.length then (afterAttribute? r).bind (afterAttributes? fuel) else none

/-- What follows the name of a tag; none if it does not start with a letter. -/
def afterTagName? (s : List Char) : Option (List Char) :=
  match s with
  | [] => none
  | c :: r => if c.isAlpha then some (r.dropWhile fun c => c.isAlphanum || c == '-') else none

/-- An opening or closing tag, after its `<`. -/
def afterTag? (s : List Char) : Option (List Char) :=
  match s with
  | '/' :: r =>
    match (afterTagName? r).map (·.dropWhile isSpaceOrLineEnd) with
    | some ('>' :: r) => some r
    | _ => none
  | _ => (afterTagName? s).bind fun r => afterAttributes? (r.length + 1) r

/-- A comment, after its `<!--`. -/
def afterComment? (s : List Char) : Option (List Char) :=
  match s with
  | '>' :: r | '-' :: '>' :: r => some r
  | _ => (cut? "-->".toList s).map (·.2)

/-- A tag, comment, declaration or instruction, after its `<`. -/
def afterInlineHtml? (s : List Char) : Option (List Char) :=
  match s with
  | '?' :: r => (cut? "?>".toList r).map (·.2)
  | '!' :: r =>
    match after? "--".toList r, after? "[CDATA[".toList r, r with
    | some r, _, _ => afterComment? r
    | _, some r, _ => (cut? "]]>".toList r).map (·.2)
    | _, _, c :: r => if c.isAlpha then (cutAt? '>' r).map (·.2) else none
    | _, _, [] => none
  | _ => afterTag? s

/-! ## Blocks -/

/-- Elements whose text is taken as it is up to their end tag. -/
def rawElements : List String := ["pre", "style", "script", "textarea"]

/-- The text that ends a block of raw HTML, by what follows the `<` that starts it. -/
def htmlBlockEnd? (s : List Char) : Option (List Char) :=
  let opens (name : String) : Bool :=
    (s.take name.length).map Char.toLower == name.toList &&
      (s.drop name.length).head?.all fun c => isSpaceOrLineEnd c || c == '>'
  let starts (p : String) : Bool := p.toList.isPrefixOf s
  match rawElements.find? opens with
  | some name => some ("</" ++ name ++ ">").toList
  | none =>
    if starts "!--" then some "-->".toList
    else if starts "?" then some "?>".toList
    else if starts "![CDATA[" then some "]]>".toList
    else
      match s with
      | '!' :: c :: _ => if c.isAlpha then some ['>'] else none
      | _ => none

/-- Elements that start a block which a blank line ends. -/
def blockElements : List String :=
  ["address", "article", "aside", "base", "basefont", "blockquote", "body", "caption", "center",
    "col", "colgroup", "dd", "details", "dialog", "dir", "div", "dl", "dt", "fieldset",
    "figcaption", "figure", "footer", "form", "frame", "frameset", "h1", "h2", "h3", "h4", "h5",
    "h6", "head", "header", "hr", "html", "iframe", "legend", "li", "link", "main", "menu",
    "menuitem", "nav", "noframes", "ol", "optgroup", "option", "p", "param", "search", "section",
    "summary", "table", "tbody", "td", "tfoot", "th", "thead", "title", "tr", "track", "ul"]

/-- Whether what follows a `<` is a tag of such an element. -/
def startsBlockElement (s : List Char) : Bool :=
  let s := match s with
    | '/' :: r => r
    | s => s
  let name := s.takeWhile Char.isAlphanum
  blockElements.contains (String.ofList (name.map Char.toLower)) &&
    match s.drop name.length with
    | [] => true
    | '/' :: '>' :: _ => true
    | c :: _ => c == ' ' || c == '\t' || c == '>'

/-- Whether what follows a `<` is one tag with nothing after it on its line. -/
def isLoneTag (s : List Char) : Bool :=
  match afterTag? s with
  | some r => r.all fun c => isSpaceOrLineEnd c && c != '\n'
  | none => false

end StaticSite.Markdown
