import StaticSite.Html.EntityTable
import StaticSite.Text.Hexadecimal
import Std.Data.HashMap

/-! Character references of HTML: by name, or by number. -/

namespace StaticSite.Html

/-- What a name stands for, and whether it is read without a semicolon. -/
structure Entity where
  chars : List Char
  bare : Bool

/-- Reads an item of the entity table. -/
def readEntity (item : List Char) : String × Entity :=
  let name := item.takeWhile Char.isAlphanum
  let points := item.drop (name.length + 1)
  let chars := (Text.splitOn ',' points).map fun p => Char.ofNat (Text.hexadecimal p)
  (String.ofList name, ⟨chars, item[name.length]? == some ':'⟩)

def entities : Std.HashMap String Entity :=
  Std.HashMap.ofList <|
    (Text.tableItems entityTable).map readEntity

/-- The characters of a name that is followed by a semicolon. -/
def entity? (name : List Char) : Option (List Char) :=
  (entities[String.ofList name]?).map (·.chars)

/-- The longest name at the start of the text that is read without a semicolon, by its length. -/
def bareEntity? (s : List Char) : Nat → Option (List Char × List Char)
  | 0 => none
  | n + 1 =>
    match entities[String.ofList (s.take (n + 1))]? with
    | some ⟨chars, true⟩ => some (chars, s.drop (n + 1))
    | _ => bareEntity? s n

/-- The characters that numbers of the C1 control range stand for. -/
def controlReplacements : List Nat :=
  [0x20AC, 0x81, 0x201A, 0x192, 0x201E, 0x2026, 0x2020, 0x2021, 0x2C6, 0x2030, 0x160, 0x2039, 0x152,
    0x8D, 0x17D, 0x8F, 0x90, 0x2018, 0x2019, 0x201C, 0x201D, 0x2022, 0x2013, 0x2014, 0x2DC, 0x2122,
    0x161, 0x203A, 0x153, 0x9D, 0x17E, 0x178]

def replacementChar : Char := '\uFFFD'

/-- The character with a number. -/
def numberedChar (n : Nat) : Char :=
  if n = 0 ∨ 0x10FFFF < n ∨ (0xD800 ≤ n ∧ n < 0xE000) then replacementChar
  else if 0x80 ≤ n ∧ n < 0xA0 then Char.ofNat (controlReplacements.getD (n - 0x80) n)
  else Char.ofNat n

def dropSemicolon : List Char → List Char
  | ';' :: r => r
  | r => r

def isDecimal (c : Char) : Bool := c.isDigit

def isHex (c : Char) : Bool := (Text.hexDigit? c).isSome

/-- A numeric reference, after its `#`. -/
def numericReference? (s : List Char) : Option (Char × List Char) :=
  let (base, isDigit, s) : Nat × (Char → Bool) × List Char := match s with
    | 'x' :: r | 'X' :: r => (16, isHex, r)
    | r => (10, isDecimal, r)
  match s.takeWhile isDigit with
  | [] => none
  | ds =>
    let n := ds.foldl (fun n c => base * n + (Text.hexDigit? c).getD 0) 0
    some (numberedChar n, dropSemicolon (s.drop ds.length))

/-- The reference at the start of the text, which follows an ampersand. In an attribute a name
without a semicolon is no reference where `=` or an alphanumeric follows. -/
def reference? (inAttribute : Bool) (s : List Char) : Option (List Char × List Char) :=
  match s with
  | '#' :: r => (numericReference? r).map fun (c, r) => ([c], r)
  | s =>
    let name := s.takeWhile Char.isAlphanum
    let rest := s.drop name.length
    match rest.head? == some ';', entity? name with
    | true, some chars => some (chars, rest.drop 1)
    | _, _ =>
      match bareEntity? s (min name.length 32) with
      | none => none
      | some (chars, r) =>
        let blocked := match r with
          | c :: _ => c == '=' || c.isAlphanum
          | [] => false
        if inAttribute && blocked then none else some (chars, r)

/-- An attribute's value with its references resolved. -/
def resolveReferences : Nat → List Char → List Char
  | 0, s => s
  | _, [] => []
  | fuel + 1, '&' :: r =>
    match reference? true r with
    | some (chars, r) => chars ++ resolveReferences fuel r
    | none => '&' :: resolveReferences fuel r
  | fuel + 1, c :: r => c :: resolveReferences fuel r

end StaticSite.Html
