import StaticSite.Html.Reference
import StaticSite.Markdown.Line
import StaticSite.Text.CaseFold
import StaticSite.Text.Punctuation

/-! The parts of links: destinations, titles, labels, and the definitions that labels refer to. -/

namespace StaticSite.Markdown

open Text

/-! ## Escapes -/

/-- The character with a number. -/
def numbered (n : Nat) : Char :=
  if n = 0 ∨ 0x10FFFF < n ∨ (0xD800 ≤ n ∧ n < 0xE000) then Html.replacementChar else Char.ofNat n

/-- Digits, at most so many, and the semicolon after them. -/
def numericEntity? (isDigit : Char → Bool) (base most : Nat) (s : List Char) :
    Option (List Char × List Char) :=
  let ds := s.takeWhile isDigit
  match s.drop ds.length with
  | ';' :: r =>
    if ds.isEmpty || most < ds.length then none
    else some ([numbered (ds.foldl (fun n c => base * n + (hexDigit? c).getD 0) 0)], r)
  | _ => none

/-- The character reference after an ampersand, and what follows it. -/
def entity? (s : List Char) : Option (List Char × List Char) :=
  match s with
  | '#' :: 'x' :: r | '#' :: 'X' :: r => numericEntity? Html.isHex 16 6 r
  | '#' :: r => numericEntity? Html.isDecimal 10 7 r
  | _ =>
    let name := s.takeWhile Char.isAlphanum
    match s.drop name.length with
    | ';' :: r => (Html.entity? name).map fun cs => (cs, r)
    | _ => none

/-- A text with its escapes and character references resolved. -/
def unescapeFor : Nat → List Char → List Char
  | 0, s => s
  | _, [] => []
  | fuel + 1, '\\' :: c :: r =>
    if isAsciiPunctuation c then c :: unescapeFor fuel r else '\\' :: unescapeFor fuel (c :: r)
  | fuel + 1, '&' :: r =>
    match entity? r with
    | some (cs, r) => cs ++ unescapeFor fuel r
    | none => '&' :: unescapeFor fuel r
  | fuel + 1, c :: r => c :: unescapeFor fuel r

def unescape (s : List Char) : List Char := unescapeFor s.length s

/-! ## Destinations and titles -/

structure Target where
  destination : List Char
  title : List Char
  deriving DecidableEq, Repr, Inhabited

/-- A destination between angle brackets, after the first. -/
def readPointed? : List Char → Option (List Char × List Char)
  | [] | '\n' :: _ | '<' :: _ => none
  | '>' :: r => some ([], r)
  | '\\' :: c :: r =>
    if isAsciiPunctuation c then (readPointed? r).map fun (d, r) => ('\\' :: c :: d, r)
    else (readPointed? (c :: r)).map fun (d, r) => ('\\' :: d, r)
  | c :: r => (readPointed? r).map fun (d, r) => (c :: d, r)

/-- Parentheses of a destination nest no deeper than this. -/
def maxNesting : Nat := 32

/-- A destination without brackets, inside so many parentheses of its own. -/
def readPlain? : Nat → List Char → Option (List Char × List Char)
  | depth, '\\' :: c :: r =>
    if isAsciiPunctuation c then (readPlain? depth r).map fun (d, r) => ('\\' :: c :: d, r)
    else (readPlain? depth (c :: r)).map fun (d, r) => ('\\' :: d, r)
  | depth, c :: r =>
    if c ≤ ' ' then if depth = 0 then some ([], c :: r) else none
    else if c == '(' then
      if maxNesting < depth then none
      else (readPlain? (depth + 1) r).map fun (d, r) => (c :: d, r)
    else if c == ')' then
      match depth with
      | 0 => some ([], c :: r)
      | depth + 1 => (readPlain? depth r).map fun (d, r) => (c :: d, r)
    else (readPlain? depth r).map fun (d, r) => (c :: d, r)
  | depth, [] => if depth = 0 then some ([], []) else none

/-- The destination of a link, escapes resolved, and what follows. -/
def readDestination? (s : List Char) : Option (List Char × List Char) :=
  match s with
  | '<' :: r => (readPointed? r).map fun (d, r) => (unescape d, r)
  | _ => (readPlain? 0 s).map fun (d, r) => (unescape d, r)

/-- The text of a title up to the quote that closes it. A line loses the white space before it. -/
def readTitleTo? (opener closer : Char) : Nat → List Char → Option (List Char × List Char)
  | 0, _ => none
  | _, [] => none
  | fuel + 1, c :: r =>
    if c == closer then some ([], r)
    else if c == opener then none
    else
      match c, r with
      | '\n', _ =>
        (readTitleTo? opener closer fuel (r.dropWhile isSpace)).map fun (t, r) => ('\n' :: t, r)
      | '\\', d :: r' =>
        if isAsciiPunctuation d then
          (readTitleTo? opener closer fuel r').map fun (t, r) => (d :: t, r)
        else (readTitleTo? opener closer fuel r).map fun (t, r) => (c :: t, r)
      | '&', _ =>
        match entity? r with
        | some (cs, r) => (readTitleTo? opener closer fuel r).map fun (t, r) => (cs ++ t, r)
        | none => (readTitleTo? opener closer fuel r).map fun (t, r) => (c :: t, r)
      | _, _ => (readTitleTo? opener closer fuel r).map fun (t, r) => (c :: t, r)

/-- A title in quotes or parentheses, and what follows. -/
def readTitle? (s : List Char) : Option (List Char × List Char) :=
  match s with
  | '"' :: r => readTitleTo? '"' '"' r.length r
  | '\'' :: r => readTitleTo? '\'' '\'' r.length r
  | '(' :: r => readTitleTo? '(' ')' r.length r
  | _ => none

/-- Drops white space with at most one line end in it. -/
def skipSeparator (s : List Char) : List Char :=
  match s.dropWhile isSpace with
  | '\n' :: r => r.dropWhile isSpace
  | r => r

/-- The target of a link between parentheses, and what follows. -/
def readTarget? (s : List Char) : Option (Target × List Char) :=
  match s with
  | '(' :: r =>
    match readDestination? (skipSeparator r) with
    | none => none
    | some (destination, r) =>
      let r := skipSeparator r
      let (title, r) := match readTitle? r with
        | some (t, r) => (t, skipSeparator r)
        | none => ([], r)
      match r with
      | ')' :: r => some (⟨destination, title⟩, r)
      | _ => none
  | _ => none

/-! ## Labels -/

def maxLabelLength : Nat := 999

/-- The text of a label up to its bracket, and what follows that. -/
def readLabelText? : List Char → Option (List Char × List Char)
  | [] | '[' :: _ => none
  | ']' :: r => some ([], r)
  | '\\' :: c :: r => (readLabelText? r).map fun (t, r) => ('\\' :: c :: t, r)
  | c :: r => (readLabelText? r).map fun (t, r) => (c :: t, r)

/-- The words of a label, as labels are compared: by case fold, with single blanks. -/
def normalizeLabel (s : List Char) : List Char :=
  let words := (s.splitBy fun a b => isSpace a == isSpace b).filter fun w => !w.all isSpace
  foldCase ([' '].intercalate words)

/-- A label after its opening bracket, and what follows. It holds more than white space. -/
def readLabel? (s : List Char) : Option (List Char × List Char) :=
  match readLabelText? s with
  | none => none
  | some (t, r) =>
    let t := t.map fun c => if c == '\n' then ' ' else c
    if t.all isSpace || maxLabelLength < t.length then none else some (normalizeLabel t, r)

/-- The targets of labels, the first definition of a label first. -/
abbrev Definitions := List (List Char × Target)

/-- Whether a definition ends here, with its line. -/
def endsLine (s : List Char) : Option (List Char) :=
  match s.dropWhile isSpace with
  | [] => some []
  | '\n' :: r => some r
  | _ => none

/-- A definition at the start of a text: the label, the target, and what follows its last line. -/
def readDefinition? (s : List Char) : Option (List Char × Target × List Char) :=
  match s with
  | '[' :: r =>
    match readLabel? r with
    | some (label, ':' :: r) =>
      let s := skipSeparator r
      match (readDestination? s).filter fun (_, r) => r.length < s.length with
      | none => none
      | some (destination, r) =>
        let titled (s : List Char) : Option (List Char × Target × List Char) :=
          (readTitle? s).bind fun (title, r) =>
            (endsLine r).map fun r => (label, ⟨destination, title⟩, r)
        match endsLine r with
        | some next =>
          match titled (next.dropWhile isSpace) with
          | some d => some d
          | none => some (label, ⟨destination, []⟩, next)
        | none =>
          if r.head?.any isSpace then titled (r.dropWhile isSpace) else none
    | _ => none
  | _ => none

end StaticSite.Markdown
