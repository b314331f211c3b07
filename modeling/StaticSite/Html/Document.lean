import StaticSite.Html.Modes.Outer
import StaticSite.Html.Modes.Select
import StaticSite.Html.Modes.Table
import StaticSite.Html.Tokenizer

/-! Reading HTML text as a tree. -/

namespace StaticSite.Html

open Construction

/-- What the end tag of raw text, or the end of all text, closes. -/
def inRawText (k : Token) : Build Outcome := do
  match k with
  | .chars s => insertText s
  | .endTag _ =>
    pop
    setMode (← get).returnMode
    return .done
  | .eof =>
    pop
    againIn (← get).returnMode
  | _ => return .done

def readIn (m : Mode) (k : Token) : Build Outcome :=
  match m with
  | .start => startMode k
  | .beforeHtml => beforeHtml k
  | .beforeHead => beforeHead k
  | .inHead => inHead k
  | .afterHead => afterHead k
  | .inBody => inBody k
  | .rawText => inRawText k
  | .inTable => inTable k
  | .inTableText => inTableText k
  | .inCaption => inCaption k
  | .inColumns => inColumns k
  | .inSection => inSection k
  | .inRow => inRow k
  | .inCell => inCell k
  | .inSelect => inSelect k
  | .inTableSelect => inTableSelect k
  | .inTemplate => inTemplate k
  | .afterBody => afterBody k
  | .inFrames => inFrames k
  | .afterFrames => afterFrames k
  | .afterHtml => afterHtml k
  | .afterFramesHtml => afterFramesHtml k

/-! ## Drawings and formulas -/

/-- Whether a formula's annotation holds HTML. -/
def Construction.annotatesHtml (c : Construction) : Bool :=
  match c.sketch.content? c.current with
  | some (.element .math "annotation-xml" as) =>
    as.any fun a => a.space == .none && a.name == "encoding" &&
      ["text/html", "application/xhtml+xml"].contains (String.ofList (lower a.value.toList))
  | _ => false

/-- Whether a token is read as part of a drawing or a formula. -/
def Construction.isForeign (c : Construction) (k : Token) : Bool :=
  let n := c.adjustedName
  let isText := match k with
    | .chars _ | .null => true
    | _ => false
  let tag? := match k with
    | .startTag t => some t.name
    | _ => none
  if c.stack.isEmpty || n.1 == .html || k == .eof then false
  else if holdsMathText n && (isText || tag?.any fun t => t != "mglyph" && t != "malignmark") then
    false
  else if holdsHtml n && (isText || tag?.isSome) then false
  else if n == (.math, "annotation-xml") && tag? == some "svg" then false
  else if n == (.math, "annotation-xml") && (isText || tag?.isSome) then !c.annotatesHtml
  else true

/-- An HTML tag ends the drawing or formula that it stands in. -/
def breakOut (k : Token) : Build Outcome := do
  closeWhile fun n => n.1 != .html && !holdsMathText n && !holdsHtml n
  readIn (← get).mode k

/-- How many open elements an end tag closes in a drawing or a formula: those up to the first of
its name in any letter case. None where the first HTML element below comes before. -/
def Construction.foreignDepth? (c : Construction) (n : String) :
    Bool → Nat → List NodeId → Option Nat
  | _, _, [] => none
  | isFirst, depth, id :: outer =>
    let (v, name) := c.name id
    if outer.isEmpty then some 0
    else if !isFirst && v == .html then none
    else if String.ofList (lower name.toList) == n then some (depth + 1)
    else c.foreignDepth? n false (depth + 1) outer

def inForeign (k : Token) : Build Outcome := do
  let c ← get
  match k with
  | .null => insertText [replacementChar]
  | .chars s =>
    if !isBlankText s then forbidFrames
    insertText s
  | .comment s => insertComment s
  | .startTag t =>
    let breaks := breaksOut.contains t.name ||
      (t.name == "font" && t.attributes.any fun a => ["color", "face", "size"].contains a.1)
    if breaks then breakOut k else openForeign c.adjustedName.1 t
  | .endTag t =>
    if t.name == "br" || t.name == "p" then breakOut k
    else match c.foreignDepth? t.name true 0 c.stack with
    | some depth =>
      set { c with stack := c.stack.drop depth }
      return .done
    | none => readIn c.mode k
  | _ => return .done

/-! ## Documents -/

/-- Identifiers of document types, in lower case, whose documents let tables stand in
paragraphs. -/
def loosePublicIds : List String :=
  ["-//w3o//dtd w3 html strict 3.0//en//", "-/w3c/dtd html 4.0 transitional/en", "html"]

def looseSystemIds : List String := ["http://www.ibm.com/data/dtd/v11/ibmxhtml1-transitional.dtd"]

/-- The starts of such identifiers. -/
def loosePublicStarts : List String :=
  ["+//silmaril//dtd html pro v0r11 19970101//",
    "-//advasoft ltd//dtd html 3.0 aswedit + extensions//",
    "-//as//dtd html 3.0 aswedit + extensions//",
    "-//ietf//dtd html 2.0 level 1//",
    "-//ietf//dtd html 2.0 level 2//",
    "-//ietf//dtd html 2.0 strict level 1//",
    "-//ietf//dtd html 2.0 strict level 2//",
    "-//ietf//dtd html 2.0 strict//",
    "-//ietf//dtd html 2.0//",
    "-//ietf//dtd html 2.1e//",
    "-//ietf//dtd html 3.0//",
    "-//ietf//dtd html 3.2 final//",
    "-//ietf//dtd html 3.2//",
    "-//ietf//dtd html 3//",
    "-//ietf//dtd html level 0//",
    "-//ietf//dtd html level 1//",
    "-//ietf//dtd html level 2//",
    "-//ietf//dtd html level 3//",
    "-//ietf//dtd html strict level 0//",
    "-//ietf//dtd html strict level 1//",
    "-//ietf//dtd html strict level 2//",
    "-//ietf//dtd html strict level 3//",
    "-//ietf//dtd html strict//",
    "-//ietf//dtd html//",
    "-//metrius//dtd metrius presentational//",
    "-//microsoft//dtd internet explorer 2.0 html strict//",
    "-//microsoft//dtd internet explorer 2.0 html//",
    "-//microsoft//dtd internet explorer 2.0 tables//",
    "-//microsoft//dtd internet explorer 3.0 html strict//",
    "-//microsoft//dtd internet explorer 3.0 html//",
    "-//microsoft//dtd internet explorer 3.0 tables//",
    "-//netscape comm. corp.//dtd html//",
    "-//netscape comm. corp.//dtd strict html//",
    "-//o'reilly and associates//dtd html 2.0//",
    "-//o'reilly and associates//dtd html extended 1.0//",
    "-//o'reilly and associates//dtd html extended relaxed 1.0//",
    "-//softquad software//dtd hotmetal pro 6.0::19990601::extensions to html 4.0//",
    "-//softquad//dtd hotmetal pro 4.0::19971010::extensions to html 4.0//",
    "-//spyglass//dtd html 2.0 extended//",
    "-//sq//dtd html 2.0 hotmetal + extensions//",
    "-//sun microsystems corp.//dtd hotjava html//",
    "-//sun microsystems corp.//dtd hotjava strict html//",
    "-//w3c//dtd html 3 1995-03-24//",
    "-//w3c//dtd html 3.2 draft//",
    "-//w3c//dtd html 3.2 final//",
    "-//w3c//dtd html 3.2//",
    "-//w3c//dtd html 3.2s draft//",
    "-//w3c//dtd html 4.0 frameset//",
    "-//w3c//dtd html 4.0 transitional//",
    "-//w3c//dtd html experimental 19960712//",
    "-//w3c//dtd html experimental 970421//",
    "-//w3c//dtd w3 html//",
    "-//w3o//dtd w3 html 3.0//",
    "-//webtechs//dtd mozilla html 2.0//",
    "-//webtechs//dtd mozilla html//"]

/-- The starts of such identifiers where no system identifier follows. -/
def loosePublicStartsAlone : List String :=
  ["-//w3c//dtd html 4.01 frameset//", "-//w3c//dtd html 4.01 transitional//"]

/-- Whether a document of this type lets tables stand in paragraphs. -/
def Doctype.isLoose (d : Doctype) : Bool :=
  let id (s : Option String) : List Char := lower (s.getD "").toList
  let startsAmong (starts : List String) : Bool :=
    starts.any fun s => s.toList.isPrefixOf (id d.publicId)
  d.broken || d.name != some "html" ||
    (d.publicId.isSome && loosePublicIds.contains (String.ofList (id d.publicId))) ||
    (d.systemId.isSome && looseSystemIds.contains (String.ofList (id d.systemId))) ||
    startsAmong loosePublicStarts ||
    (d.systemId.isNone && startsAmong loosePublicStartsAlone)

/-- Reads a token in the mode that is set, again as long as it asks for it. -/
def readAgain (k : Token) : Nat → Build Unit
  | 0 => return
  | fuel + 1 => do
    let c ← get
    match ← if c.isForeign k then inForeign k else readIn c.mode k with
    | .done => return
    | .again => readAgain k fuel

/-- Reads a token. Each reading of it closes an element or leads to another part of the document,
which bounds their number. -/
def read (k : Token) : Build Unit := do
  let c ← get
  set { c with skipsLineFeed := false }
  let again (k : Token) : Build Unit := readAgain k (4 * c.stack.length + 64)
  match k with
  | .doctype d =>
    if c.mode == .start then
      let _ ← appendDoctype (d.name.getD "")
      modify fun c => { c with tableInParagraph := d.isLoose, mode := .beforeHtml }
  | .chars ('\n' :: s) =>
    if !c.skipsLineFeed then again k
    else if !s.isEmpty then again (.chars s)
  | k => again k
where
  appendDoctype (name : String) : Build Unit := do
    let id ← create (.doctype name)
    modifySketch (·.append Sketch.document id)

/-- Reads tokens; a tag ends the special reading of text, unless its element asks for another. -/
def readAll : List Token → Build Unit
  | [] => return
  | k :: ks => do
    match k with
    | .startTag _ | .endTag _ => modify fun c => { c with textMode := .data }
    | _ => pure ()
    read k
    readAll ks

/-- Reads a text to its end. -/
def build (c : Construction) (s : List Char) : Construction :=
  let foreign := !c.stack.isEmpty && c.adjustedName.1 != .html
  let (tokens, rest) := next c.textMode c.currentName.2 foreign s
  let c := ((readAll tokens).run c).2
  if rest.length < s.length then build c rest else c
termination_by s.length

def startingIn (m : Mode) (isFragment : Bool) : Construction :=
  ⟨Sketch.empty, m, m, [], [], [], none, none, false, true, false, false, isFragment, .data, []⟩

/-- Reads HTML text as a document, which has a head and a body whether the text says so or not. -/
def parseDocument (s : String) : Markup :=
  (build (startingIn .start false) (prepare s.toList)).sketch.below Sketch.document

/-- Reads HTML text as the content of a body. -/
def parseFragment (s : String) : Markup :=
  let c := ((openRoot []).run (startingIn .inBody true)).2
  (build c (prepare s.toList)).sketch.below c.root

end StaticSite.Html
