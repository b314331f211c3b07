import StaticSite.Json.Basic
import StaticSite.Json.Number
import StaticSite.Text.Hexadecimal

/-! Reading JSON text. -/

namespace StaticSite.Json

open Text

def isSpace (c : Char) : Bool := c == ' ' || c == '\n' || c == '\t' || c == '\r'

def skipSpace (s : List Char) : List Char := s.dropWhile isSpace

def digit? (c : Char) : Option Nat :=
  if '0' ≤ c ∧ c ≤ '9' then some (c.toNat - '0'.toNat) else none

/-- The digits at the start of a text. -/
def digits (s : List Char) : List Nat × List Char :=
  ((s.takeWhile (digit? · |>.isSome)).filterMap digit?, s.dropWhile (digit? · |>.isSome))

/-- At least one digit. -/
def digits? (s : List Char) : Option (List Nat × List Char) :=
  match digits s with
  | ([], _) => none
  | r => some r

def readFraction? (s : List Char) : Option (Option (List Nat) × List Char) :=
  match s with
  | '.' :: s => (digits? s).map fun (ds, s) => (some ds, s)
  | s => some (none, s)

def readExponent? (s : List Char) : Option (Option (Bool × List Nat) × List Char) :=
  match s with
  | c :: s' =>
    if c = 'e' ∨ c = 'E' then
      let (positive, s') := match s' with
        | '+' :: r => (true, r)
        | '-' :: r => (false, r)
        | r => (true, r)
      (digits? s').map fun (ds, r) => (some (positive, ds), r)
    else some (none, s)
  | [] => some (none, [])

/-- A number: no leading zeros, a digit on both sides of a point. -/
def readNumber? (s : List Char) : Option (NumberText × List Char) := do
  let (negative, s) := match s with
    | '-' :: r => (true, r)
    | r => (false, r)
  let (whole, s) ← digits? s
  if whole.length ≠ 1 ∧ whole.head? = some 0 then none
  let (fraction, s) ← readFraction? s
  let (exponent, s) ← readExponent? s
  return (⟨negative, whole, fraction, exponent⟩, s)

/-- Four hexadecimal digits. -/
def readUnit? : List Char → Option (Nat × List Char)
  | a :: b :: c :: d :: s => do
    let a ← hexDigit? a
    let b ← hexDigit? b
    let c ← hexDigit? c
    let d ← hexDigit? d
    return (((a * 16 + b) * 16 + c) * 16 + d, s)
  | _ => none

def isHighSurrogate (n : Nat) : Bool := 0xD800 ≤ n && n < 0xDC00
def isLowSurrogate (n : Nat) : Bool := 0xDC00 ≤ n && n < 0xE000

/-- The character of an escape of one letter. -/
def simpleEscape? (c : Char) : Option Char :=
  match c with
  | '"' | '\\' | '/' => some c
  | 'b' => some '\x08'
  | 'f' => some '\x0c'
  | 'n' => some '\n'
  | 'r' => some '\r'
  | 't' => some '\t'
  | _ => none

/-- One character of a string literal; the inner option is none for a lone surrogate. -/
def readEscape? : List Char → Option (Option Char × List Char)
  | 'u' :: s => do
    let (n, s) ← readUnit? s
    if isHighSurrogate n then
      match s with
      | '\\' :: 'u' :: r =>
        let (m, r) ← readUnit? r
        if isLowSurrogate m then
          return (some (Char.ofNat (0x10000 + (n - 0xD800) * 0x400 + (m - 0xDC00))), r)
        else return (none, s)
      | _ => return (none, s)
    else if isLowSurrogate n then return (none, s)
    else return (some (Char.ofNat n), s)
  | c :: s => (simpleEscape? c).map fun d => (some d, s)
  | [] => none

/-- The rest of a string literal, after its opening quote. -/
def readString? : Nat → List Char → Option (Option (List Char) × List Char)
  | 0, _ => none
  | fuel + 1, s =>
    match s with
    | [] => none
    | '"' :: r => some (some [], r)
    | '\\' :: r => do
      let (c, r) ← readEscape? r
      let (cs, r) ← readString? fuel r
      return ((· :: ·) <$> c <*> cs, r)
    | c :: r =>
      if c.toNat < 0x20 then none
      else do
        let (cs, r) ← readString? fuel r
        return (cs.map (c :: ·), r)

mutual

/-- A value, after the space before it. -/
def readValue? : Nat → List Char → Option (Json × List Char)
  | 0, _ => none
  | fuel + 1, s =>
    match skipSpace s with
    | '"' :: r => do
      let (cs, r) ← readString? (r.length + 1) r
      return (.string (cs.map String.ofList), r)
    | '[' :: r =>
      match skipSpace r with
      | ']' :: r => some (.array [], r)
      | r => do
        let (items, r) ← readItems? fuel r
        return (.array items, r)
    | '{' :: r =>
      match skipSpace r with
      | '}' :: r => some (.object [], r)
      | r => do
        let (members, r) ← readMembers? fuel r
        return (.object members, r)
    | s =>
      match after? "null".toList s, after? "true".toList s, after? "false".toList s with
      | some r, _, _ => some (.null, r)
      | _, some r, _ => some (.boolean true, r)
      | _, _, some r => some (.boolean false, r)
      | _, _, _ => (readNumber? s).map fun (t, r) => (.number t.value?, r)

/-- The items of an array up to its end; at least one. -/
def readItems? : Nat → List Char → Option (List Json × List Char)
  | 0, _ => none
  | fuel + 1, s => do
    let (j, r) ← readValue? fuel s
    match skipSpace r with
    | ']' :: r => return ([j], r)
    | ',' :: r =>
      let (js, r) ← readItems? fuel r
      return (j :: js, r)
    | _ => none

/-- The members of an object up to its end; at least one. -/
def readMembers? : Nat → List Char → Option (List (Option String × Json) × List Char)
  | 0, _ => none
  | fuel + 1, s =>
    match skipSpace s with
    | '"' :: r => do
      let (key, r) ← readString? (r.length + 1) r
      match skipSpace r with
      | ':' :: r =>
        let (j, r) ← readValue? fuel r
        let m := (key.map String.ofList, j)
        match skipSpace r with
        | '}' :: r => return ([m], r)
        | ',' :: r =>
          let (ms, r) ← readMembers? fuel r
          return (m :: ms, r)
        | _ => none
      | _ => none
    | _ => none

end

/-- The syntax tree of a whole text. A value takes at least one character and each nesting two
calls, so the fuel is enough. -/
def parse? (text : List Char) : Option Json :=
  match readValue? (2 * text.length + 2) text with
  | some (j, rest) => if (skipSpace rest).isEmpty then some j else none
  | none => none

end StaticSite.Json
