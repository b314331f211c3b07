import StaticSite.Html.Serialize
import StaticSite.Markdown.Blocks
import StaticSite.Markdown.Inline
import StaticSite.Text.Utf8

/-! Writing Markdown text as HTML. -/

namespace StaticSite.Markdown

open Text

/-! ## Escapes -/

/-- The spelling of a character in text. -/
def escapeChar : Char → List Char
  | '&' => "&amp;".toList
  | '<' => "&lt;".toList
  | '>' => "&gt;".toList
  | c => [c]

/-- The spelling of a character in the value of an attribute. -/
def escapeValueChar : Char → List Char
  | '"' => "&quot;".toList
  | '\'' => "&#39;".toList
  | c => escapeChar c

def escape (s : List Char) : String := String.ofList (s.flatMap escapeChar)

def escapeValue (s : List Char) : String := String.ofList (s.flatMap escapeValueChar)

def upperHex (n : Nat) : Char := "0123456789ABCDEF".toList.getD n '0'

def percent (b : UInt8) : List Char := ['%', upperHex (b.toNat / 16), upperHex (b.toNat % 16)]

/-- Characters that an address holds as they are. -/
def isAddressChar (c : Char) : Bool := c.isAlphanum || "!#$%()*+,-./:;=?@_~".toList.contains c

/-- The spelling of a character in an address. -/
def escapeAddressChar (c : Char) : List Char :=
  if isAddressChar c then [c]
  else
    match c with
    | '&' => "&amp;".toList
    | '\'' => "&#x27;".toList
    | c => (String.singleton c).toUTF8.toList.flatMap percent

def escapeAddress (s : List Char) : String := String.ofList (s.flatMap escapeAddressChar)

/-! ## Inlines -/

def writeTitle (s : List Char) : String :=
  if s.isEmpty then "" else "\" title=\"" ++ escapeValue s

def Emphasis.element : Emphasis → String
  | .plain => "em"
  | .strong => "strong"
  | .deleted => "del"

mutual

/-- The text of an image that is not shown. -/
def plainText : Inline → String
  | .text s | .code s | .html s => escapeValue s
  | .softBreak | .hardBreak _ => " "
  | .emphasis _ is | .link _ is | .image _ is => plainTexts is

def plainTexts : List Inline → String
  | [] => ""
  | i :: is => plainText i ++ plainTexts is

end

mutual

def writeInline : Inline → String
  | .text s => escape s
  | .code s => "<code>" ++ escape s ++ "</code>"
  | .html s => String.ofList s
  | .softBreak => "\n"
  | .hardBreak _ => "<br />\n"
  | .emphasis k is => "<" ++ k.element ++ ">" ++ writeInlines is ++ "</" ++ k.element ++ ">"
  | .link t is =>
    "<a href=\"" ++ escapeAddress t.destination ++ writeTitle t.title ++ "\">" ++
      writeInlines is ++ "</a>"
  | .image t is =>
    "<img src=\"" ++ escapeAddress t.destination ++ "\" alt=\"" ++ plainTexts is ++
      writeTitle t.title ++ "\" />"

def writeInlines : List Inline → String
  | [] => ""
  | i :: is => writeInline i ++ writeInlines is

end

def writeBox (checked : Bool) : String :=
  "<input disabled=\"\" type=\"checkbox\"" ++ (if checked then " checked=\"\"" else "") ++ "/>\n"

/-! ## Tables -/

def Alignment.style : Alignment → String
  | .none => ""
  | .left => " style=\"text-align: left\""
  | .center => " style=\"text-align: center\""
  | .right => " style=\"text-align: right\""

/-- The cells of a row, in elements of this name. -/
def writeCells (defs : Definitions) (element : String) (columns : List Alignment)
    (cells : List (List Char)) : String :=
  String.join ((columns.zip cells).map fun (a, c) =>
    "<" ++ element ++ a.style ++ ">" ++ writeInlines (readInlines defs c) ++ "</" ++ element ++ ">")

def writeTable (defs : Definitions) (columns : List Alignment) (rows : List (List (List Char))) :
    String :=
  "<table><thead><tr>" ++ writeCells defs "th" columns (rows.head?.getD []) ++
    "</tr></thead><tbody>\n" ++
    String.join (rows.tail.map fun row =>
      "<tr>" ++ writeCells defs "td" columns row ++ "</tr>\n") ++
    "</tbody></table>\n"

/-! ## Blocks -/

/-- A text ready for a block to start on a line of its own. -/
def onNewLine (done : String) : String :=
  if done.isEmpty || done.toList.getLast? == some '\n' then done else done ++ "\n"

mutual

/-- Writes a block after `done`. A paragraph that lies in a tight list has no element. -/
def writeBlock (defs : Definitions) (isTight : Bool) (done : String) : Block → String
  | .paragraph box s =>
    let content := (box.map writeBox).getD "" ++ writeInlines (readInlines defs s)
    if isTight then done ++ content else onNewLine done ++ "<p>" ++ content ++ "</p>\n"
  | .box checked => done ++ writeBox checked
  | .heading depth s =>
    let element := "h" ++ toString depth
    onNewLine done ++ "<" ++ element ++ ">" ++ writeInlines (readInlines defs s) ++
      "</" ++ element ++ ">\n"
  | .rule => onNewLine done ++ "<hr />\n"
  | .code language s =>
    let name := language.takeWhile (· != ' ')
    onNewLine done ++ "<pre><code" ++
      (if name.isEmpty then "" else " class=\"language-" ++ escapeValue name ++ "\"") ++ ">" ++
      escape s ++ "</code></pre>\n"
  | .html s => done ++ String.ofList s
  | .quote content =>
    writeBlocks defs false (onNewLine done ++ "<blockquote>\n") content ++ "</blockquote>\n"
  | .list start tight items =>
    let (tag, element) := match start with
      | none => ("<ul>\n", "ul")
      | some 1 => ("<ol>\n", "ol")
      | some n => ("<ol start=\"" ++ toString n ++ "\">\n", "ol")
    writeItems defs tight (onNewLine done ++ tag) items ++ "</" ++ element ++ ">\n"
  | .table columns rows => done ++ writeTable defs columns rows

def writeBlocks (defs : Definitions) (isTight : Bool) (done : String) : List Block → String
  | [] => done
  | b :: bs => writeBlocks defs isTight (writeBlock defs isTight done b) bs

def writeItems (defs : Definitions) (isTight : Bool) (done : String) : List (List Block) → String
  | [] => done
  | bs :: rest =>
    writeItems defs isTight (writeBlocks defs isTight (onNewLine done ++ "<li>") bs ++ "</li>\n") rest

end

/-- The HTML of a Markdown text. -/
def render (s : String) : String :=
  let (blocks, defs) := readBlocks s.toList
  writeBlocks defs false "" blocks

end StaticSite.Markdown
