/-! Blank characters of text, those with the Unicode property `White_Space`, and trimming. -/

namespace StaticSite.Text

/-- The code points with the property `White_Space`. -/
def isBlank (c : Char) : Bool :=
  let n := c.toNat
  (9 ≤ n && n ≤ 13) || n == 0x20 || n == 0x85 || n == 0xA0 || n == 0x1680 ||
    (0x2000 ≤ n && n ≤ 0x200A) || n == 0x2028 || n == 0x2029 || n == 0x202F ||
    n == 0x205F || n == 0x3000

def trimStart (s : List Char) : List Char := s.dropWhile isBlank

def trimEnd (s : List Char) : List Char := (s.reverse.dropWhile isBlank).reverse

/-- Cuts the blanks off both ends. -/
def trim (s : List Char) : List Char := trimEnd (trimStart s)

def isAllBlank (s : List Char) : Bool := s.all isBlank

end StaticSite.Text
