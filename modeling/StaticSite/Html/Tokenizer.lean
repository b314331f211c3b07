import StaticSite.Html.Reference
import StaticSite.Html.Token

/-! Cutting HTML text into tokens.

`next` reads the tokens at the start of a text, at least one character of it. -/

namespace StaticSite.Html

open Text

/-- Line ends as line feeds. -/
def normalizeLines : List Char → List Char
  | [] => []
  | '\r' :: '\n' :: s => '\n' :: normalizeLines s
  | '\r' :: s => '\n' :: normalizeLines s
  | c :: s => c :: normalizeLines s

/-- The text without a byte order mark at its start, its line ends as line feeds. -/
def prepare (s : List Char) : List Char :=
  normalizeLines (match s with
    | '\uFEFF' :: r => r
    | r => r)

def replaceNull (s : List Char) : List Char :=
  s.map fun c => if c == '\x00' then replacementChar else c

def toText (s : List Char) : String := String.ofList (replaceNull s)

/-- Characters as tokens, white space apart from the rest and each null by itself. -/
def textTokens (s : List Char) : List Token :=
  (s.splitBy fun a b => a != '\x00' && b != '\x00' && isSpace a == isSpace b).map fun run =>
    if run == ['\x00'] then .null else .chars run

/-! ## Tags -/

/-- The characters of an unquoted value, and the rest. -/
def isUnquoted (c : Char) : Bool := !isSpace c && c != '>'

/-- The value of an attribute, after the `=`; none where the text ends inside it. -/
def readValue? (s : List Char) : Option (List Char × List Char) :=
  match s.dropWhile isSpace with
  | '"' :: r => cutAt? '"' r
  | '\'' :: r => cutAt? '\'' r
  | r => some (r.takeWhile isUnquoted, r.dropWhile isUnquoted)

def isNameEnd (c : Char) : Bool := isSpace c || c == '/' || c == '>' || c == '='

/-- The name of an attribute; its first character may be `=`. -/
def readName (s : List Char) : List Char × List Char :=
  match s with
  | [] => ([], [])
  | c :: r => (c :: r.takeWhile (!isNameEnd ·), r.dropWhile (!isNameEnd ·))

/-- Adds an attribute, unless there is one of its name. -/
def addAttribute (as : List (String × String)) (name value : List Char) :
    List (String × String) :=
  let n := toText (lower name)
  if as.any (·.1 == n) then as
  else as ++ [(n, toText (resolveReferences value.length value))]

/-- What follows the name of a tag; none where the text ends inside it. -/
def readAttributes? (as : List (String × String)) :
    Nat → List Char → Option (List (String × String) × Bool × List Char)
  | 0, _ => none
  | fuel + 1, s =>
    match s.dropWhile isSpace with
    | [] => none
    | '>' :: r => some (as, false, r)
    | '/' :: '>' :: r => some (as, true, r)
    | '/' :: r => readAttributes? as fuel r
    | r =>
      let (name, r) := readName r
      match r.dropWhile isSpace with
      | '=' :: v =>
        match readValue? v with
        | none => none
        | some (value, r) => readAttributes? (addAttribute as name value) fuel r
      | r => readAttributes? (addAttribute as name []) fuel r

def isTagNameEnd (c : Char) : Bool := isSpace c || c == '/' || c == '>'

/-- A tag from its name on; none where the text ends inside it. -/
def readTag? (s : List Char) : Option (Tag × List Char) :=
  let name := s.takeWhile (!isTagNameEnd ·)
  let rest := s.drop name.length
  (readAttributes? [] (rest.length + 1) rest).map fun (as, selfClosing, r) =>
    (⟨toText (lower name), as, selfClosing⟩, r)

/-! ## Comments and declarations -/

/-- The text of a comment that the end of the text cuts off. -/
def unfinishedComment (s : List Char) : List Char :=
  match s.reverse with
  | '!' :: '-' :: '-' :: r | '-' :: '-' :: r | '-' :: r => r.reverse
  | r => r.reverse

/-- A comment up to `-->` or `--!>`. -/
def readCommentEnd (done : List Char) : List Char → List Char × List Char
  | [] => (unfinishedComment done.reverse, [])
  | '-' :: '-' :: '>' :: r => (done.reverse, r)
  | '-' :: '-' :: '!' :: '>' :: r => (done.reverse, r)
  | c :: r => readCommentEnd (c :: done) r

/-- A comment, after its `<!--`. -/
def readComment (s : List Char) : List Char × List Char :=
  match s with
  | '>' :: r | '-' :: '>' :: r => ([], r)
  | s => readCommentEnd [] s

/-- A comment up to the first `>`. -/
def readBogusComment (s : List Char) : List Char × List Char :=
  (cutAt? '>' s).getD (s, [])

/-- What follows a keyword in any letter case. -/
def keyword? (word : String) (s : List Char) : Option (List Char) :=
  if lower (s.take word.length) == word.toList then some (s.drop word.length) else none

/-- A quoted identifier of a doctype: its text up to the quote or `>`, and whether it is whole. -/
def readQuoted? (s : List Char) : Option (String × Bool × List Char) :=
  match s with
  | q :: r =>
    if q == '"' || q == '\'' then
      let body := r.takeWhile fun c => c != q && c != '>'
      match r.drop body.length with
      | c :: rest => some (toText body, c == q, if c == q then rest else c :: rest)
      | [] => some (toText body, false, [])
    else none
  | [] => none

/-- The rest of a doctype up to its `>`. -/
def skipDoctype (s : List Char) : List Char := ((cutAt? '>' s).map (·.2)).getD []

/-- The end of a doctype: sound where nothing is left before the `>`. -/
def endDoctype (d : Doctype) (s : List Char) : Doctype × List Char :=
  match s.dropWhile isSpace with
  | '>' :: r => (d, r)
  | [] => ({ d with broken := true }, [])
  | r => (d, skipDoctype r)

/-- The system identifier of a doctype, if any, and its end. -/
def readSystemId (d : Doctype) (required : Bool) (s : List Char) : Doctype × List Char :=
  let s := s.dropWhile isSpace
  match readQuoted? s with
  | some (id, true, r) => endDoctype { d with systemId := some id } r
  | some (id, false, r) => ({ d with systemId := some id, broken := true }, skipDoctype r)
  | none =>
    match s with
    | '>' :: r => ({ d with broken := required }, r)
    | r => ({ d with broken := true }, skipDoctype r)

/-- A doctype, after the keyword. -/
def readDoctype (s : List Char) : Doctype × List Char :=
  match s.dropWhile isSpace with
  | [] => (⟨none, none, none, true⟩, [])
  | '>' :: r => (⟨none, none, none, true⟩, r)
  | s =>
    let name := s.takeWhile fun c => !isSpace c && c != '>'
    let rest := (s.drop name.length).dropWhile isSpace
    let d : Doctype := ⟨some (toText (lower name)), none, none, false⟩
    match rest, keyword? "public" rest, keyword? "system" rest with
    | [], _, _ => ({ d with broken := true }, [])
    | '>' :: r, _, _ => (d, r)
    | _, some r, _ =>
      match readQuoted? (r.dropWhile isSpace) with
      | some (id, true, r) => readSystemId { d with publicId := some id } false r
      | some (id, false, r) => ({ d with publicId := some id, broken := true }, skipDoctype r)
      | none => ({ d with broken := true }, skipDoctype r)
    | _, _, some r => readSystemId d true r
    | r, _, _ => ({ d with broken := true }, skipDoctype r)

/-- What follows `<!`. -/
def readDeclaration (foreign : Bool) (s : List Char) : List Token × List Char :=
  match after? ['-', '-'] s, keyword? "doctype" s, after? "[CDATA[".toList s with
  | some r, _, _ =>
    let (c, r) := readComment r
    ([.comment (toText c)], r)
  | _, some r, _ =>
    let (d, r) := readDoctype r
    ([.doctype d], r)
  | none, none, cdata =>
    match foreign, cdata with
    | true, some r =>
      let (c, r) := (cut? "]]>".toList r).getD (r, [])
      (textTokens c, r)
    | _, _ =>
      let (c, r) := readBogusComment s
      ([.comment (toText c)], r)

/-! ## Text -/

/-- What follows the name of an end tag, for the element with this name. -/
def endTagAt? (name : String) (s : List Char) : Option (List Char) :=
  match keyword? name s with
  | some (c :: r) => if isTagNameEnd c then some (c :: r) else none
  | _ => none

/-- Text up to the end tag of an element. -/
def readRaw (name : String) : List Char → List Char × List Char
  | [] => ([], [])
  | c :: r =>
    if c == '<' && r.head? == some '/' && (endTagAt? name (r.drop 1)).isSome then ([], c :: r)
    else
      let (t, r) := readRaw name r
      (c :: t, r)

/-- Where in a script text stands: outside a comment, in one, or in a script inside one. -/
inductive ScriptPlace where
  | outside
  | comment
  | nested
  deriving DecidableEq

/-- Script text up to its end tag. A comment hides the end tag of a script that starts in it;
`dashes` counts the dashes just before. -/
def readScript (name : String) : ScriptPlace → Nat → List Char → List Char × List Char
  | _, _, [] => ([], [])
  | place, dashes, c :: r =>
    let ends := c == '<' && r.head? == some '/' && (endTagAt? name (r.drop 1)).isSome
    let push (place : ScriptPlace) (dashes : Nat) : List Char × List Char :=
      let (t, r) := readScript name place dashes r
      (c :: t, r)
    match place with
    | .outside =>
      if ends then ([], c :: r)
      else if c == '<' && (after? ['!', '-', '-'] r).isSome then push .comment 0
      else push .outside 0
    | .comment =>
      if ends then ([], c :: r)
      else if c == '-' then push .comment (dashes + 1)
      else if c == '>' && 2 ≤ dashes then push .outside 0
      else if c == '<' && (endTagAt? "script" r).isSome then push .nested 0
      else push .comment 0
    | .nested =>
      if c == '-' then push .nested (dashes + 1)
      else if c == '>' && 2 ≤ dashes then push .outside 0
      else if c == '<' && r.head? == some '/' && (endTagAt? "script" (r.drop 1)).isSome then
        push .comment 0
      else push .nested 0

/-- Text with its references resolved, outside of attributes. -/
def resolveText : Nat → List Char → List Char
  | 0, s => s
  | _, [] => []
  | fuel + 1, '&' :: r =>
    match reference? false r with
    | some (chars, r) => chars ++ resolveText fuel r
    | none => '&' :: resolveText fuel r
  | fuel + 1, c :: r => c :: resolveText fuel r

/-- What follows `<` outside of raw text. -/
def readAngle (foreign : Bool) (s : List Char) : List Token × List Char :=
  match s with
  | '!' :: r => readDeclaration foreign r
  | '?' :: _ =>
    let (c, r) := readBogusComment s
    ([.comment (toText c)], r)
  | '/' :: c :: r =>
    if c.isAlpha then
      match readTag? (c :: r) with
      | some (t, r) => ([.endTag t], r)
      | none => ([], [])
    else if c == '>' then ([], r)
    else
      let (c, r) := readBogusComment (c :: r)
      ([.comment (toText c)], r)
  | ['/'] => ([.chars ['<', '/']], [])
  | c :: r =>
    if c.isAlpha then
      match readTag? (c :: r) with
      | some (t, r) => ([.startTag t], r)
      | none => ([], [])
    else ([.chars ['<']], c :: r)
  | [] => ([.chars ['<']], [])

def isPlainText (c : Char) : Bool := c != '<' && c != '&'

/-- The end tag at the start of the rest, after a raw text. -/
def readRawEnd (s : List Char) : List Token × List Char :=
  match s with
  | '<' :: '/' :: r =>
    match readTag? r with
    | some (t, r) => ([.endTag t], r)
    | none => ([], [])
  | _ => ([], [])

/-- The tokens at the start of a text that is read in this mode; `name` is that of the last start
tag, and `foreign` says that sections of character data are read. -/
def next (mode : TextMode) (name : String) (foreign : Bool) (s : List Char) :
    List Token × List Char :=
  let raw (body : List Char × List Char) (resolve : List Char → List Char) :=
    match body with
    | ([], r) => readRawEnd r
    | (t, r) => (textTokens (resolve (replaceNull t)), r)
  match mode with
  | .data =>
    match s with
    | [] => ([.eof], [])
    | '<' :: r => readAngle foreign r
    | '&' :: r =>
      match reference? false r with
      | some (chars, r) => (textTokens chars, r)
      | none => ([.chars ['&']], r)
    | s => (textTokens (s.takeWhile isPlainText), s.dropWhile isPlainText)
  | .plain => if s.isEmpty then ([.eof], []) else (textTokens (replaceNull s), [])
  | .escapable =>
    if s.isEmpty then ([.eof], []) else raw (readRaw name s) fun t => resolveText t.length t
  | .raw => if s.isEmpty then ([.eof], []) else raw (readRaw name s) id
  | .script => if s.isEmpty then ([.eof], []) else raw (readScript name .outside 0 s) id

end StaticSite.Html
