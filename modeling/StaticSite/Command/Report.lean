import StaticSite.Command.Arguments
import StaticSite.Error
import StaticSite.Log

/-! What a command prints about its work: log records and failures. -/

namespace StaticSite.Command

open Text

/-! ## Log records -/

/-- Levels with higher numbers say more. -/
def detail : LogLevel → Nat
  | .error => 0
  | .warn => 1
  | .info => 2
  | .debug => 3

/-- The level up to which a command logs. -/
def Manner.detail (m : Manner) : Nat := if m.isQuiet then 1 else if m.verbosity = 0 then 2 else 3

/-- The name of a level, as wide as the longest. -/
def levelLabel (l : LogLevel) : String :=
  l.name ++ String.ofList (List.replicate (5 - l.name.length) ' ')

/-- A record as a line; further lines of its text are indented. -/
def recordLine (r : LogRecord) : String :=
  let text := String.intercalate "\n    " ((splitOn '\n' r.text.toList).map String.ofList)
  "[" ++ levelLabel r.level ++ " " ++ r.target.name ++ "] " ++ text ++ "\n"

/-- The records that a command shows. -/
def logText (m : Manner) (log : List LogRecord) : String :=
  String.join ((log.filter fun r => Command.detail r.level ≤ m.detail).map recordLine)

/-! ## Failures -/

inductive Style where
  | plain
  | severity
  | message
  | bullet
  deriving DecidableEq, Repr

/-- The control sequence that switches to a style. -/
def Style.code : Style → String
  | plain => "\x1b[0m"
  | severity => "\x1b[0m\x1b[1m\x1b[38;5;9m"
  | message => "\x1b[0m\x1b[1m"
  | bullet => "\x1b[0m\x1b[34m"

def Manner.style (m : Manner) (s : Style) : String := if m.isColored then s.code else ""

def dropReturn (l : List Char) : List Char := if l.getLast? == some '\r' then l.dropLast else l

/-- The lines of a text, without their ends. -/
def textLines (s : String) : List String :=
  let pieces := splitOn '\n' s.toList
  let last := (pieces.getLast?.filter fun l => !l.isEmpty).toList
  ((pieces.dropLast.map dropReturn) ++ last).map String.ofList

/-- A note, with a bullet before its first line. -/
def noteText (m : Manner) (note : String) : String :=
  match textLines note with
  | [] => ""
  | first :: rest =>
    " " ++ m.style .bullet ++ "=" ++ m.style .plain ++ " " ++ first ++ "\n" ++
      String.join (rest.map fun l => "   " ++ l ++ "\n")

/-- A failure with its notes. -/
def failureText (m : Manner) (message : String) (notes : List String) : String :=
  m.style .severity ++ "error" ++ m.style .message ++ ": " ++ message ++ m.style .plain ++ "\n" ++
    String.join (notes.map (noteText m)) ++ "\n"

def errorText (m : Manner) (e : SiteError) : String := failureText m e.message e.notes

end StaticSite.Command
