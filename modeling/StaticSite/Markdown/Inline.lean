import StaticSite.Markdown.HtmlTag
import StaticSite.Markdown.Link
import StaticSite.Text.Blank

/-! The inline structure of Markdown text.

The text is read from left to right into items. A closing bracket looks back for its opening one;
runs of `*`, `_` and `~` are matched when the items around them are complete. -/

namespace StaticSite.Markdown

open Text

inductive Emphasis where
  | plain
  | strong
  | deleted
  deriving DecidableEq, Repr

inductive Inline where
  | text (s : List Char)
  | code (s : List Char)
  | html (s : List Char)
  | softBreak
  /-- A break that the text asks for, with the characters that asked. -/
  | hardBreak (mark : List Char)
  | emphasis (kind : Emphasis) (content : List Inline)
  | link (target : Target) (content : List Inline)
  | image (target : Target) (content : List Inline)
  deriving Inhabited

/-- A run of one of `*`, `_` and `~`, and which sides of a text it may stand on. -/
structure Run where
  mark : Char
  length : Nat
  opens : Bool
  closes : Bool
  deriving DecidableEq, Repr, Inhabited

inductive Item where
  | inline (i : Inline)
  | run (r : Run)
  deriving Inhabited

/-! ## Emphasis -/

/-- A run that may open, with as many of its marks as are left and what follows it, newest
first. -/
structure Opener where
  run : Run
  left : Nat
  after : List Inline
  deriving Inhabited

def marks (c : Char) (n : Nat) : Inline := .text (List.replicate n c)

/-- What a run that opened nothing amounts to, newest first. -/
def Opener.dissolved (o : Opener) : List Inline := o.after ++ [marks o.run.mark o.left]

/-- Content between `n` pairs of marks, two pairs first. -/
def wrap (c : Char) : Nat → List Inline → Inline
  | 0, content => .emphasis .plain content
  | 1, content => .emphasis (if c == '~' then .deleted else .plain) content
  | 2, content => .emphasis (if c == '~' then .deleted else .strong) content
  | n + 3, content => wrap c (n + 1) [wrap c 2 content]

/-- Whether a run may close another. Runs that can do both do not match where their lengths add up to
a multiple of three, unless both are multiples. Tildes match runs of their own length only. -/
def Run.matches (closer opener : Run) : Bool :=
  opener.mark == closer.mark && (closer.mark != '~' || opener.length == closer.length) &&
    ((!(closer.opens && closer.closes) && !(opener.opens && opener.closes)) ||
      (closer.length + opener.length) % 3 != 0 || closer.length % 3 == 0)

/-- The runs that wait for their ends, innermost first, and what stands before them all, newest
first. -/
structure Nesting where
  openers : List Opener
  base : List Inline
  deriving Inhabited

namespace Nesting

/-- Adds content, newest first. -/
def add (n : Nesting) (is : List Inline) : Nesting :=
  match n.openers with
  | [] => { n with base := is ++ n.base }
  | o :: os => { n with openers := { o with after := is ++ o.after } :: os }

/-- Dissolves the openers that have a property. -/
def dissolveWhere (p : Opener → Bool) (base : List Inline) : List Opener → Nesting
  | [] => ⟨[], base⟩
  | o :: os =>
    let n := dissolveWhere p base os
    if p o then n.add o.dissolved else { n with openers := o :: n.openers }

/-- What stands after an opener, once the openers inside it are dissolved; newest first. -/
def contentOf (inner : List Opener) (o : Opener) : List Inline :=
  inner.foldr (fun i content => i.dissolved ++ content) o.after

/-- Closes as many marks of a run as find their openers; gives the number of those left. A run of
tildes that finds none bars the tildes before it. -/
def close (r : Run) : Nat → Nat → Nesting → Nat × Nesting
  | 0, left, n => (left, n)
  | _, 0, n => (0, n)
  | fuel + 1, left, n =>
    let inner := n.openers.takeWhile fun o => !r.matches o.run
    match n.openers.drop inner.length with
    | [] =>
      (left, if r.mark == '~' then dissolveWhere (·.run.mark == '~') n.base n.openers else n)
    | o :: os =>
      let paired := min left o.left
      let node := wrap r.mark paired (contentOf inner o).reverse
      let outer : Nesting := ⟨os, n.base⟩
      let n := if paired < o.left then
          { outer with openers := ⟨o.run, o.left - paired, [node]⟩ :: os }
        else outer.add [node]
      close r fuel (left - paired) n

def step (n : Nesting) : Item → Nesting
  | .inline i => n.add [i]
  | .run r =>
    let (left, n) := if r.closes then close r r.length r.length n else (r.length, n)
    if left = 0 then n
    else if r.opens then { n with openers := ⟨r, left, []⟩ :: n.openers }
    else n.add [marks r.mark left]

end Nesting

/-- Matches the runs among some items. -/
def resolveRuns (items : List Item) : List Inline :=
  let n := items.foldl Nesting.step ⟨[], []⟩
  (Nesting.dissolveWhere (fun _ => true) n.base n.openers).base.reverse

/-! ## Runs in their context -/

def isGap (c : Char) : Bool := Text.isBlank c

/-- A run between two characters, if it may open or close; none stands for an end of the line. -/
def run? (mark : Char) (length : Nat) (before after : Option Char) : Option Run :=
  let long := mark == '~' && 1 < length
  let opens := match after, before with
    | none, _ => false
    | some a, none => !isGap a
    | some a, some b =>
      !isGap a && ((mark == '*' && !isPunctuation a) || long ||
        (mark == '~' && b == '~' && !isPunctuation a) || isGap b || isPunctuation b)
  let closes := match before, after with
    | none, _ => false
    | some b, none => !isGap b
    | some b, some a =>
      !isGap b && (((mark == '*' || long) && !isPunctuation b) || (mark == '~' && b == '~') ||
        isGap a || isPunctuation a)
  if (opens || closes) && (mark != '~' || length ≤ 2) then some ⟨mark, length, opens, closes⟩
  else none

/-! ## Code and automatic links -/

/-- The text up to a run of exactly `n` backticks, and what follows that. -/
def readCode? (n : Nat) : Nat → List Char → Option (List Char × List Char)
  | 0, _ => none
  | _, [] => none
  | fuel + 1, '`' :: r =>
    let ticks := '`' :: r.takeWhile (· == '`')
    let rest := r.dropWhile (· == '`')
    if ticks.length = n then some ([], rest)
    else (readCode? n fuel rest).map fun (t, rest) => (ticks ++ t, rest)
  | fuel + 1, c :: r => (readCode? n fuel r).map fun (t, rest) => (c :: t, rest)

/-- The content of a code span: lines are joined by blanks, and one blank at each end is dropped. -/
def codeContent (s : List Char) : List Char :=
  let s := s.map fun c => if c == '\n' then ' ' else c
  match s.head? == some ' ' && s.getLast? == some ' ' && !s.all (· == ' ') with
  | true => (s.drop 1).dropLast
  | false => s

def isSchemeChar (c : Char) : Bool := c.isAlphanum || c == '.' || c == '-' || c == '+'

/-- An address with a scheme, up to its closing bracket. -/
def readAddress? (s : List Char) : Option (List Char × List Char) :=
  let scheme := s.takeWhile isSchemeChar
  match s.drop scheme.length with
  | ':' :: r =>
    let body := r.takeWhile fun c => c != '>' && c != '<' && ' ' < c
    match r.drop body.length with
    | '>' :: rest =>
      if s.head?.any Char.isAlpha && 2 ≤ scheme.length && scheme.length ≤ 32 then
        some (scheme ++ ':' :: body, rest)
      else none
    | _ => none
  | _ => none

def isMailboxChar (c : Char) : Bool := c.isAlphanum || ".!#$%&'*+/=?^_\x60\x7b|\x7d~-".toList.contains c

def isHostLabel (s : List Char) : Bool :=
  !s.isEmpty && s.length ≤ 63 && s.head? != some '-' && s.getLast? != some '-' &&
    s.all fun c => c.isAlphanum || c == '-'

/-- A mail address, up to its closing bracket. -/
def readMail? (s : List Char) : Option (List Char × List Char) :=
  let mailbox := s.takeWhile isMailboxChar
  match s.drop mailbox.length with
  | '@' :: r =>
    match cutAt? '>' r with
    | some (host, rest) =>
      if !mailbox.isEmpty && (splitOn '.' host).all isHostLabel then
        some (mailbox ++ '@' :: host, rest)
      else none
    | none => none
  | _ => none

/-- What an angle bracket starts: a link to an address, or HTML. -/
def readAngle? (s : List Char) : Option (Inline × List Char) :=
  match readAddress? s, readMail? s with
  | some (a, r), _ => some (.link ⟨a, []⟩ [.text a], r)
  | none, some (a, r) => some (.link ⟨"mailto:".toList ++ a, []⟩ [.text a], r)
  | none, none =>
    (afterInlineHtml? s).map fun r => (.html ('<' :: s.take (s.length - r.length)), r)

/-! ## Brackets -/

/-- An open bracket: what follows it, as text and as items, those newest first. -/
structure Bracket where
  isImage : Bool
  /-- False for the start of a link around a link that has been found. -/
  isActive : Bool
  source : List Char
  items : List Item
  deriving Inhabited

def Bracket.opening (b : Bracket) : List Char := if b.isImage then ['!', '['] else ['[']

/-- The brackets that are open, innermost first, and the items before them, newest first. -/
structure Scanned where
  brackets : List Bracket
  items : List Item
  deriving Inhabited

namespace Scanned

def add (p : Scanned) (is : List Item) : Scanned :=
  match p.brackets with
  | [] => { p with items := is ++ p.items }
  | b :: bs => { p with brackets := { b with items := is ++ b.items } :: bs }

def addText (p : Scanned) (s : List Char) : Scanned := p.add [.inline (.text s)]

/-- Takes the innermost bracket, which is no link, as text. -/
def dissolve (p : Scanned) : Scanned :=
  match p.brackets with
  | [] => p
  | b :: bs => ({ p with brackets := bs } : Scanned).add (b.items ++ [Item.inline (.text b.opening)])

def dissolveAll : Nat → Scanned → Scanned
  | 0, p => p
  | n + 1, p => dissolveAll n p.dissolve

end Scanned

/-- The target of a bracket that closes here, and what follows the link: a target in parentheses, a
label in brackets, or the text itself as a label. -/
def linkTarget? (defs : Definitions) (b : Bracket) (rest : List Char) :
    Option (Target × List Char) :=
  match readTarget? rest with
  | some found => some found
  | none =>
    let own (after : List Char) : Option (Target × List Char) :=
      match readLabel? b.source with
      | some (label, r) =>
        if r.length = rest.length then (defs.lookup label).map fun t => (t, after) else none
      | none => none
    match rest with
    | '[' :: ']' :: after => own after
    | '[' :: r =>
      match readLabel? r with
      | some (label, after) => (defs.lookup label).map fun t => (t, after)
      | none => own rest
    | _ => own rest

/-- A break at the end of a link is no hard break. -/
def trimBreak (is : List Inline) : List Inline :=
  match is.reverse with
  | .hardBreak ['\\'] :: r => (.text ['\\'] :: r).reverse
  | .hardBreak _ :: r => (.softBreak :: r).reverse
  | _ => is

/-- Closes the innermost bracket; gives what follows. A link ends the chance of the links around
it. -/
def Scanned.closeBracket (defs : Definitions) (p : Scanned) (rest : List Char) :
    Scanned × List Char :=
  match p.brackets with
  | [] => (p.addText [']'], rest)
  | b :: bs =>
    match if b.isActive then linkTarget? defs b rest else none with
    | none => (p.dissolve.addText [']'], rest)
    | some (target, rest) =>
      let content := trimBreak (resolveRuns b.items.reverse)
      let bs := if b.isImage then bs
        else bs.map fun o => if o.isImage then o else { o with isActive := false }
      let node : Inline := if b.isImage then .image target content else .link target content
      ({ p with brackets := bs }.add [.inline node], rest)

/-! ## Reading -/

/-- Characters that stand for themselves. -/
def isOrdinary (c : Char) : Bool :=
  !isSpace c && !(['\n', '\\', '*', '_', '~', '`', '<', '!', '[', ']', '&', '\x00'].contains c)

/-- The last of the characters that one text has before another. -/
def lastBefore (s rest : List Char) : Option Char := (s.take (s.length - rest.length)).getLast?

/-- Reads a text, of which `before` is the character before it on its line. -/
def scanItems (defs : Definitions) : Nat → Option Char → List Char → Scanned → Scanned
  | 0, _, _, p => p
  | _, _, [], p => p
  | fuel + 1, before, c :: r, p =>
    let go (before : Option Char) (rest : List Char) (p : Scanned) : Scanned :=
      scanItems defs fuel before rest p
    let literal (_ : Unit) : Scanned := go (some c) r (p.addText [c])
    let newline (i : Inline) (rest : List Char) : Scanned :=
      go none (rest.dropWhile isSpace) (p.add [.inline i])
    if isSpace c then
      let gap := c :: r.takeWhile isSpace
      match r.dropWhile isSpace with
      | [] => p
      | '\n' :: rest =>
        newline (if 2 ≤ gap.length then .hardBreak [' ', ' '] else .softBreak) rest
      | rest => go gap.getLast? rest (p.addText gap)
    else
      match c, r with
      | '\n', _ => newline .softBreak r
      | '\\', '\n' :: rest => newline (.hardBreak ['\\']) rest
      | '\\', d :: rest =>
        if isAsciiPunctuation d then go (some d) rest (p.addText [d]) else literal ()
      | '\x00', _ => go (some c) r (p.addText [Html.replacementChar])
      | '&', _ =>
        match entity? r with
        | some (cs, rest) => go (some ';') rest (p.addText cs)
        | none => literal ()
      | '`', _ =>
        let ticks := '`' :: r.takeWhile (· == '`')
        let rest := r.dropWhile (· == '`')
        match readCode? ticks.length rest.length rest with
        | some (body, rest) => go (some '`') rest (p.add [.inline (.code (codeContent body))])
        | none => go (some '`') rest (p.addText ticks)
      | '<', _ =>
        match readAngle? r with
        | some (i, rest) => go (some '>') rest (p.add [.inline i])
        | none => literal ()
      | '!', '[' :: rest =>
        go (some '[') rest { p with brackets := ⟨true, true, rest, []⟩ :: p.brackets }
      | '[', _ => go (some '[') r { p with brackets := ⟨false, true, r, []⟩ :: p.brackets }
      | ']', _ =>
        let (p, rest) := p.closeBracket defs r
        go (lastBefore (c :: r) rest) rest p
      | _, _ =>
        if c == '*' || c == '_' || c == '~' then
          let length := 1 + (r.takeWhile (· == c)).length
          let rest := r.dropWhile (· == c)
          match run? c length before rest.head? with
          | some run => go (some c) rest (p.add [.run run])
          | none => go (some c) rest (p.addText (List.replicate length c))
        else
          let word := c :: r.takeWhile isOrdinary
          go word.getLast? (r.dropWhile isOrdinary) (p.addText word)

/-- The inlines of a text. -/
def readInlines (defs : Definitions) (s : List Char) : List Inline :=
  let p := scanItems defs (s.length + 1) none (s.dropWhile isSpace) ⟨[], []⟩
  resolveRuns (Scanned.dissolveAll p.brackets.length p).items.reverse

end StaticSite.Markdown
