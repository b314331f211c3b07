import StaticSite.Decimal.Layout

/-! Writing compact JSON text. -/

namespace StaticSite.Json

/-- JSON numbers keep a fractional part, and are positional from `1e-5` up to `1e16`. -/
def numberLayout : Decimal.Layout := ⟨".0", some (-5, 16)⟩

def isNegative (x : Float) : Bool := x.toBits >>> 63 == 1

def encodeNumber (x : Float) : List Char :=
  (if isNegative x then ['-'] else []) ++ numberLayout.magnitude (Decimal.ofFloat x)

def hexDigit (n : Nat) : Char := Nat.digitChar n

def encodeChar (c : Char) : List Char :=
  match c with
  | '"' => ['\\', '"']
  | '\\' => ['\\', '\\']
  | '\x08' => ['\\', 'b']
  | '\x0c' => ['\\', 'f']
  | '\n' => ['\\', 'n']
  | '\r' => ['\\', 'r']
  | '\t' => ['\\', 't']
  | c =>
    if c.toNat < 0x20 then ['\\', 'u', '0', '0', hexDigit (c.toNat / 16), hexDigit (c.toNat % 16)]
    else [c]

def encodeString (s : String) : List Char := ['"'] ++ s.toList.flatMap encodeChar ++ ['"']

end StaticSite.Json
