import StaticSite.Text.Cut

/-! Hexadecimal numbers, and tables of code points written with them. -/

namespace StaticSite.Text

def hexDigit? (c : Char) : Option Nat :=
  let n := c.toNat
  if 0x30 ≤ n ∧ n ≤ 0x39 then some (n - 0x30)
  else if 0x61 ≤ n ∧ n ≤ 0x66 then some (n - 0x61 + 10)
  else if 0x41 ≤ n ∧ n ≤ 0x46 then some (n - 0x41 + 10)
  else none

/-- The number that some digits write. -/
def hexadecimal (s : List Char) : Nat := s.foldl (fun n c => 16 * n + (hexDigit? c).getD 0) 0

/-- The items of a table, which stand between blanks and line ends. -/
def tableItems (table : String) : List (List Char) :=
  splitOn ' ' (table.toList.map fun c => if c == '\n' then ' ' else c)

end StaticSite.Text
