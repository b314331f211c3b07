import StaticSite.Text.Cut
import StaticSite.Text.Hexadecimal

/-! Strings and numbers of a configuration file, as TOML writes them. -/

namespace StaticSite.Config

open Text

/-! ## Characters and lines -/

def isGap (c : Char) : Bool := c == ' ' || c == '\t'

def skipGaps (s : List Char) : List Char := s.dropWhile isGap

/-- Characters that stand for themselves in a line: no control characters but the tab. -/
def isPlain (c : Char) : Bool := c == '\t' || (' ' ≤ c && c != '\x7f')

/-- What follows the end of a line. -/
def afterLineEnd? : List Char → Option (List Char)
  | '\n' :: r => some r
  | '\r' :: '\n' :: r => some r
  | _ => none

def skipComment : List Char → List Char
  | '#' :: r => r.dropWhile isPlain
  | s => s

/-- Drops white space, over several lines. -/
def skipBlanks : List Char → List Char
  | ' ' :: r | '\t' :: r | '\n' :: r => skipBlanks r
  | '\r' :: '\n' :: r => skipBlanks r
  | s => s

/-! ## Strings -/

/-- The character with a number of so many hexadecimal digits. -/
def readCodePoint? (count : Nat) (s : List Char) : Option (Char × List Char) :=
  let digits := (s.take count).filterMap hexDigit?
  let n := digits.foldl (fun n d => 16 * n + d) 0
  if digits.length = count ∧ n.isValidChar then some (Char.ofNat n, s.drop count) else none

/-- The character of an escape, after its backslash. -/
def readEscape? : List Char → Option (Char × List Char)
  | '"' :: r => some ('"', r)
  | '\\' :: r => some ('\\', r)
  | 'b' :: r => some ('\x08', r)
  | 'f' :: r => some ('\x0c', r)
  | 'n' :: r => some ('\n', r)
  | 'r' :: r => some ('\r', r)
  | 't' :: r => some ('\t', r)
  | 'u' :: r => readCodePoint? 4 r
  | 'U' :: r => readCodePoint? 8 r
  | _ => none

/-- The rest of a string in double quotes, on one line. -/
def readQuoted? : Nat → List Char → Option (List Char × List Char)
  | 0, _ | _, [] => none
  | _, '"' :: r => some ([], r)
  | fuel + 1, '\\' :: r => do
    let (c, r) ← readEscape? r
    let (cs, r) ← readQuoted? fuel r
    return (c :: cs, r)
  | fuel + 1, c :: r =>
    if isPlain c then (readQuoted? fuel r).map fun (cs, r) => (c :: cs, r) else none

/-- The rest of a string in single quotes, on one line. -/
def readVerbatim? (s : List Char) : Option (List Char × List Char) :=
  let isBody (c : Char) : Bool := isPlain c && c != '\''
  match s.dropWhile isBody with
  | '\'' :: r => some (s.takeWhile isBody, r)
  | _ => none

/-- The rest of a string in three quotes. It may hold one or two quotes in a row, also before those
that end it. Only double quotes have escapes; a backslash at the end of a line takes the white space
behind it away. -/
def readLong? (quote : Char) : Nat → List Char → Option (List Char × List Char)
  | 0, _ | _, [] => none
  | fuel + 1, c :: r =>
    if c == quote then
      let count := 1 + (r.takeWhile (· == quote)).length
      let rest := r.dropWhile (· == quote)
      if count < 3 then
        (readLong? quote fuel rest).map fun (cs, r) => (List.replicate count quote ++ cs, r)
      else if count ≤ 5 then some (List.replicate (count - 3) quote, rest)
      else none
    else if c == '\\' && quote == '"' then
      match afterLineEnd? (skipGaps r) with
      | some rest => readLong? quote fuel (skipBlanks rest)
      | none => do
        let (d, r) ← readEscape? r
        let (cs, r) ← readLong? quote fuel r
        return (d :: cs, r)
    else
      match afterLineEnd? (c :: r) with
      | some rest => (readLong? quote fuel rest).map fun (cs, r) => ('\n' :: cs, r)
      | none =>
        if isPlain c then (readLong? quote fuel r).map fun (cs, r) => (c :: cs, r) else none

/-- A string; a line end after three opening quotes is no part of it. -/
def readString? (s : List Char) : Option (String × List Char) :=
  let long (quote : Char) (r : List Char) : Option (List Char × List Char) :=
    readLong? quote (r.length + 1) ((afterLineEnd? r).getD r)
  let read : Option (List Char × List Char) :=
    match s with
    | '"' :: '"' :: '"' :: r => long '"' r
    | '\'' :: '\'' :: '\'' :: r => long '\'' r
    | '"' :: r => readQuoted? (r.length + 1) r
    | '\'' :: r => readVerbatim? r
    | _ => none
  read.map fun (cs, r) => (String.ofList cs, r)

/-! ## Numbers -/

def digitIn? (base : Nat) (c : Char) : Option Nat := (hexDigit? c).filter (· < base)

/-- Digits, with single underscores between them. -/
def readMoreDigits? (base : Nat) : List Char → Option (List Nat × List Char)
  | '_' :: c :: r =>
    match digitIn? base c with
    | some d => (readMoreDigits? base r).map fun (ds, r) => (d :: ds, r)
    | none => none
  | c :: r =>
    match digitIn? base c with
    | some d => (readMoreDigits? base r).map fun (ds, r) => (d :: ds, r)
    | none => some ([], c :: r)
  | [] => some ([], [])

/-- The number that digits in a base make; there is one at least. -/
def readNatural? (base : Nat) (s : List Char) : Option (Nat × List Char) :=
  match s with
  | c :: r =>
    match digitIn? base c with
    | some d =>
      (readMoreDigits? base r).map fun (ds, r) => ((d :: ds).foldl (fun n d => base * n + d) 0, r)
    | none => none
  | [] => none

/-- A decimal number, which starts with a zero only if it is one. -/
def readDecimal? (s : List Char) : Option (Nat × List Char) :=
  match s with
  | '0' :: r => some (0, r)
  | _ => readNatural? 10 s

/-- The end of the numbers that fit 64 bits with a sign. -/
def integerEnd : Int := Nat.pow 2 63

/-- A whole number of 64 bits. Only decimal numbers have a sign. -/
def readInteger? (s : List Char) : Option (Int × List Char) :=
  let read : Option (Int × List Char) :=
    match s with
    | '0' :: 'x' :: r => (readNatural? 16 r).map fun (n, r) => ((n : Int), r)
    | '0' :: 'o' :: r => (readNatural? 8 r).map fun (n, r) => ((n : Int), r)
    | '0' :: 'b' :: r => (readNatural? 2 r).map fun (n, r) => ((n : Int), r)
    | '-' :: r => (readDecimal? r).map fun (n, r) => (-(n : Int), r)
    | '+' :: r => (readDecimal? r).map fun (n, r) => ((n : Int), r)
    | _ => (readDecimal? s).map fun (n, r) => ((n : Int), r)
  read.filter fun (n, _) => -integerEnd ≤ n ∧ n < integerEnd

end StaticSite.Config
