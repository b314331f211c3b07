import StaticSite.Text.Cut

/-! Reading the arguments of a command: switches with a long name and perhaps a letter, and inputs.

Arguments are read from left to right, and the first fault or call for help ends the reading. -/

namespace StaticSite.Command

open Text

/-- What a switch takes. -/
inductive Takes where
  /-- Nothing; given once. -/
  | nothing
  /-- Nothing; given as often as one likes. -/
  | nothingOften
  /-- A path; given once. -/
  | path
  /-- A path; given as often as one likes. -/
  | pathOften
  /-- A number; given once. -/
  | number
  deriving DecidableEq, Repr

def Takes.hasValue : Takes → Bool
  | nothing | nothingOften => false
  | path | pathOften | number => true

def Takes.isRepeatable : Takes → Bool
  | nothingOften | pathOften => true
  | nothing | path | number => false

structure Switch where
  name : String
  letter : Option Char
  takes : Takes
  deriving DecidableEq, Repr

/-- The form of a command. -/
structure Form where
  switches : List Switch
  /-- The number of inputs it takes. -/
  inputs : Nat
  /-- The commands that may follow, if it is not a command by itself. -/
  commands : List String
  /-- It tells the version. -/
  hasVersion : Bool

inductive UsageError where
  | unexpected (argument : String)
  | repeated (name : String)
  | missingValue (name : String)
  | unwantedValue (name : String)
  | invalidValue (name value : String)
  | conflict (name other : String)
  | missingInput
  deriving DecidableEq, Repr

def UsageError.message : UsageError → String
  | unexpected argument => "unexpected argument '" ++ argument ++ "'"
  | repeated name => "'--" ++ name ++ "' cannot be used more than once"
  | missingValue name => "'--" ++ name ++ "' needs a value"
  | unwantedValue name => "'--" ++ name ++ "' takes no value"
  | invalidValue name value => "invalid value '" ++ value ++ "' for '--" ++ name ++ "'"
  | conflict name other => "'--" ++ name ++ "' cannot be used with '--" ++ other ++ "'"
  | missingInput => "an input is needed"

/-- The switches and inputs given, in order. -/
structure Given where
  switches : List (String × String)
  inputs : List String
  deriving DecidableEq, Repr, Inhabited

/-- Where the reading of arguments ends. -/
inductive Reading where
  | given (g : Given)
  | help
  | version
  /-- A command, and the arguments that are for it. -/
  | command (name : String) (g : Given) (rest : List String)
  deriving Repr, Inhabited

namespace Given

def none : Given := ⟨[], []⟩

def has (g : Given) (name : String) : Bool := g.switches.any (·.1 == name)

def count (g : Given) (name : String) : Nat := (g.switches.filter (·.1 == name)).length

def values (g : Given) (name : String) : List String :=
  (g.switches.filter (·.1 == name)).map (·.2)

def value? (g : Given) (name : String) : Option String := (g.values name).head?

end Given

/-- A number of 64 bits in decimal digits, perhaps after a plus sign. -/
def readNumber? (s : String) : Option Nat :=
  let digits := match s.toList with
    | '+' :: r => r
    | r => r
  let n := digits.foldl (fun n c => 10 * n + (c.toNat - '0'.toNat)) 0
  if !digits.isEmpty && digits.all Char.isDigit && n < Nat.pow 2 64 then some n else none

def Takes.accepts (t : Takes) (value : String) : Bool :=
  match t with
  | nothing | nothingOften => true
  | path | pathOften => !value.isEmpty
  | number => (readNumber? value).isSome

/-- Adds a switch with its value. -/
def Given.give (g : Given) (s : Switch) (value : String) : Except UsageError Given :=
  if !s.takes.accepts value then .error (.invalidValue s.name value)
  else if g.has s.name && !s.takes.isRepeatable then .error (.repeated s.name)
  else .ok { g with switches := g.switches ++ [(s.name, value)] }

def Given.addInput (g : Given) (form : Form) (argument : String) : Except UsageError Given :=
  if g.inputs.length < form.inputs then .ok { g with inputs := g.inputs ++ [argument] }
  else .error (.unexpected argument)

def Given.addInputs (g : Given) (form : Form) : List String → Except UsageError Given
  | [] => .ok g
  | a :: as => (g.addInput form a).bind (addInputs · form as)

/-- What an argument looks like. -/
inductive Shape where
  /-- The rest are inputs. -/
  | separator
  | long (name : String) (value : Option String)
  | letters (cs : List Char)
  | word (s : String)
  deriving DecidableEq, Repr

def Shape.of (argument : String) : Shape :=
  match argument.toList with
  | ['-', '-'] => separator
  | '-' :: '-' :: r =>
    match cutAt? '=' r with
    | some (name, value) => long (String.ofList name) (some (String.ofList value))
    | none => long (String.ofList r) none
  | ['-'] => word argument
  | '-' :: r => letters r
  | _ => word argument

/-- What one argument leads to. -/
inductive Progress where
  | more (g : Given)
  /-- The next argument is the value of a switch. -/
  | awaits (g : Given) (s : Switch)
  | help
  | version

/-- Reads a cluster of letters; the value of a switch may follow its letter. -/
def Form.readLetters (form : Form) : Given → List Char → Except UsageError Progress
  | g, [] => .ok (.more g)
  | g, c :: cs =>
    if c == 'h' then .ok .help
    else if c == 'V' && form.hasVersion then .ok .version
    else
      match form.switches.find? (·.letter == some c) with
      | none => .error (.unexpected (String.ofList ['-', c]))
      | some s =>
        if s.takes.hasValue then
          match cs with
          | [] => .ok (.awaits g s)
          | '=' :: value | value => (g.give s (String.ofList value)).map .more
        else (g.give s "").bind (form.readLetters · cs)

/-- Reads a switch by its long name. -/
def Form.readLong (form : Form) (g : Given) (name : String) (value : Option String) :
    Except UsageError Progress :=
  let isHelp := name == "help"
  if isHelp || (name == "version" && form.hasVersion) then
    if value.isSome then .error (.unwantedValue name)
    else .ok (if isHelp then .help else .version)
  else
    match form.switches.find? (·.name == name), value with
    | none, _ => .error (.unexpected ("--" ++ name))
    | some s, some value =>
      if s.takes.hasValue then (g.give s value).map .more else .error (.unwantedValue name)
    | some s, none =>
      if s.takes.hasValue then .ok (.awaits g s) else (g.give s "").map .more

/-- Reads an argument that starts with a dash. -/
def Form.readSwitch (form : Form) (g : Given) : Shape → Except UsageError Progress
  | .long name value => form.readLong g name value
  | .letters cs => form.readLetters g cs
  | .separator | .word _ => .ok (.more g)

/-- Reads arguments after those given. -/
def Form.read (form : Form) (g : Given) : List String → Except UsageError Reading
  | [] => .ok (.given g)
  | argument :: rest =>
    match Shape.of argument with
    | .separator => (g.addInputs form rest).map .given
    | .word w =>
      if form.commands.contains w then .ok (.command w g rest)
      else (g.addInput form w).bind fun g => form.read g rest
    | shape =>
      match form.readSwitch g shape with
      | .error e => .error e
      | .ok .help => .ok .help
      | .ok .version => .ok .version
      | .ok (.more g) => form.read g rest
      | .ok (.awaits g s) =>
        match rest with
        | [] => .error (.missingValue s.name)
        | value :: rest =>
          match Shape.of value with
          | .word w => (g.give s w).bind fun g => form.read g rest
          | _ => .error (.missingValue s.name)

end StaticSite.Command
