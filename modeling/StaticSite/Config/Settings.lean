import StaticSite.Config.Literal

/-! The settings in a configuration file: lines of a key and a value.

Of TOML this is what the settings of a site can use. A file with tables, dates or numbers that are not
whole is refused, as no setting takes them. -/

namespace StaticSite.Config

open Text

inductive Setting where
  | text (s : String)
  | texts (ss : List String)
  | flag (b : Bool)
  | number (n : Int)
  deriving DecidableEq, Repr

/-- Drops white space and comments, over several lines. -/
def skipFiller : Nat → List Char → List Char
  | 0, s => s
  | fuel + 1, s =>
    let r := skipComment (skipBlanks s)
    if r.length < s.length then skipFiller fuel r else s

/-- What follows the rest of a line, in which there may be a comment. -/
def afterLine? (s : List Char) : Option (List Char) :=
  match skipComment (skipGaps s) with
  | [] => some []
  | s => afterLineEnd? s

/-- The strings of an array up to its bracket. A comma may follow the last. -/
def readStrings? : Nat → List Char → Option (List String × List Char)
  | 0, _ => none
  | fuel + 1, s =>
    match skipFiller s.length s with
    | ']' :: r => some ([], r)
    | s => do
      let (text, r) ← readString? s
      match skipFiller r.length r with
      | ',' :: r =>
        let (texts, r) ← readStrings? fuel r
        return (text :: texts, r)
      | ']' :: r => return ([text], r)
      | _ => none

def readSetting? (s : List Char) : Option (Setting × List Char) :=
  match after? "true".toList s, after? "false".toList s, s with
  | some r, _, _ => some (.flag true, r)
  | _, some r, _ => some (.flag false, r)
  | _, _, '[' :: r => (readStrings? (r.length + 1) r).map fun (ss, r) => (.texts ss, r)
  | _, _, '"' :: _ | _, _, '\'' :: _ => (readString? s).map fun (t, r) => (.text t, r)
  | _, _, _ => (readInteger? s).map fun (n, r) => (.number n, r)

def isBareKeyChar (c : Char) : Bool := c.isAlphanum || c == '_' || c == '-'

/-- A key, in quotes or bare. -/
def readKey? (s : List Char) : Option (String × List Char) :=
  let read : Option (List Char × List Char) :=
    match s with
    | '"' :: r => readQuoted? (r.length + 1) r
    | '\'' :: r => readVerbatim? r
    | _ =>
      let key := s.takeWhile isBareKeyChar
      if key.isEmpty then none else some (key, s.drop key.length)
  read.map fun (cs, r) => (String.ofList cs, r)

/-- A key, its value, and the end of the line. -/
def readPair? (s : List Char) : Option ((String × Setting) × List Char) := do
  let (key, r) ← readKey? s
  match skipGaps r with
  | '=' :: r =>
    let (setting, r) ← readSetting? (skipGaps r)
    let r ← afterLine? r
    return ((key, setting), r)
  | _ => none

/-- The settings of a text, in order. -/
def readPairs? : Nat → List Char → Option (List (String × Setting))
  | 0, _ => none
  | fuel + 1, s =>
    match skipFiller s.length s with
    | [] => some []
    | s => do
      let (pair, r) ← readPair? s
      let pairs ← readPairs? fuel r
      return pair :: pairs

/-- The settings of a file, which may start with a byte order mark. -/
def readSettings? (text : String) : Option (List (String × Setting)) :=
  let s := match text.toList with
    | '\uFEFF' :: r => r
    | s => s
  readPairs? (s.length + 1) s

end StaticSite.Config
