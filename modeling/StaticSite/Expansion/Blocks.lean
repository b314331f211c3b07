import StaticSite.Cursor
import StaticSite.Document.Basic
import StaticSite.Scope
import StaticSite.Text.Blank

/-! Expanding the template and repeat blocks of a document, one at a time until none is left. -/

namespace StaticSite

/-- A text without white space at its ends. -/
def trimmed (s : String) : String := String.ofList (Text.trim s.toList)

/-- An attribute that a block must have, and that must not be blank. -/
def Document.required (d : Document) (b : Block) (name : String) : Except SiteError String :=
  match (d.attribute? b name).filter fun v => !(trimmed v).isEmpty with
  | some v => .ok v
  | none => .error (.missingAttribute d.origin.text (d.describe b) name)

/-- Rounds that a loop may take beyond those foreseen, where inserted text brings new blocks. -/
def spareRounds : Nat := Nat.pow 2 62

/-- What a loop over blocks comes to. A loop that stops while blocks are left has not ended by itself,
and would go on for as long as there is memory. -/
def Document.ended (d : Document) (left : Bool) (r : Logged SiteError Nat) :
    Logged SiteError Nat := do
  let n ← r
  if left then .fail (.io ⟨d.origin.text⟩ .outOfMemory)
  return n

@[simp] theorem Document.ended_false (d : Document) (r : Logged SiteError Nat) :
    d.ended false r = r := by
  obtain ⟨log, result⟩ := r
  cases result with
  | error e => rfl
  | ok n =>
    show (⟨log ++ [], .ok n⟩ : Logged SiteError Nat) = _
    rw [List.append_nil]

@[simp] theorem Document.ended_error (d : Document) (left : Bool) (log : List LogRecord)
    (e : SiteError) : d.ended left ⟨log, .error e⟩ = ⟨log, .error e⟩ := rfl

/-! ## Templates -/

/-- What the template blocks of a document can see: the scope in a data file, and the markup of a
template in a scope. -/
structure TemplateSource where
  scope : String → Origin → Except SiteError Scope
  markup : String → Scope → Origin → Logged SiteError String

/-- Expands a block: its template is read in the scope of the block's own data. -/
def Document.expandTemplate (formats : Formats) (source : TemplateSource) (d : Document)
    (b : Block) : Logged SiteError Document := do
  let template ← Logged.lift (d.required b "template")
  let inner := d.inner formats b
  let scope ← Logged.lift <|
    match (d.attribute? b "input").filter fun v => !(trimmed v).isEmpty with
    | some input => source.scope (trimmed input) d.origin
    | none => .ok Scope.empty
  let markup ← source.markup (trimmed template) scope d.origin
  let (found, d) := d.fill formats b markup inner
  if found then
    Logged.debug .sections
      (d.origin.text ++ ": inserted inner content into '" ++ template ++ "'")
  return d

/-- The next template block, with a record of it. -/
def Document.nextTemplate (d : Document) : Logged SiteError (Option (Block × Document)) :=
  match d.nextTemplate? with
  | none => .ok none
  | some r =>
    ⟨[⟨.debug, .tree, d.origin.text ++ ": expanding template block"⟩], .ok (some r)⟩

/-- Expands template blocks for so many rounds, after `done` of them. A failure leaves the document
as the rounds before it made it. -/
def Document.expandTemplatesFor (formats : Formats) (source : TemplateSource) :
    Nat → Nat → Document → Document × Logged SiteError Nat
  | 0, done, d => (d, .ok done)
  | rounds + 1, done, d =>
    match d.nextTemplate with
    | ⟨log, .error e⟩ => (d, ⟨log, .error e⟩)
    | ⟨log, .ok none⟩ => (d, ⟨log, .ok done⟩)
    | ⟨log, .ok (some (b, d))⟩ =>
      match d.expandTemplate formats source b with
      | ⟨log', .error e⟩ => (d, ⟨log ++ log', .error e⟩)
      | ⟨log', .ok d⟩ =>
        let (d, r) := d.expandTemplatesFor formats source rounds (done + 1)
        (d, ⟨log ++ log' ++ r.log, r.result⟩)

/-- The number of template blocks in a forest. -/
def templateCount (f : Forest Node) : Nat := (f.labels.filter (·.isDirective .template)).length

/-- Expands all template blocks; counts them. -/
def Document.expandTemplates (formats : Formats) (source : TemplateSource) (d : Document) :
    Document × Logged SiteError Nat :=
  let r := d.expandTemplatesFor formats source (templateCount d.tree + spareRounds) 0
  (r.1, r.1.ended r.1.nextTemplate?.isSome r.2)

/-! ## Repeat blocks -/

/-- A text several times over. -/
def copies (s : String) (n : Nat) : String := String.join (List.replicate n s)

/-- Expands a block: it gives way to as many copies of its content as its list has items. -/
def Document.expandRepeat (formats : Formats) (scope : Scope) (d : Document) (t : Cursors)
    (b : Block) : Logged SiteError (Document × Cursors) := do
  let list := trimmed (← Logged.lift (d.required b "input"))
  let items ← Logged.lift <| match scope.list list with
    | .ok items => .ok items
    | .error why => .error (.unresolvedList d.origin.text (d.describe b) why)
  let d' := d.replace formats b (copies (d.inner formats b) items.length)
  Logged.debug .sections <|
    d.origin.text ++ ": repeated '" ++ list ++ "' " ++ toString items.length ++ " time(s)"
  return (d', t.start list)

/-- Expands repeat blocks for so many rounds, after `done` of them. -/
def Document.expandRepeatsFor (formats : Formats) (scope : Scope) :
    Nat → Nat → Document → Cursors → Document × Cursors × Logged SiteError Nat
  | 0, done, d, t => (d, t, .ok done)
  | rounds + 1, done, d, t =>
    match d.nextRepeat? with
    | none => (d, t, .ok done)
    | some b =>
      match d.expandRepeat formats scope t b with
      | ⟨log, .error e⟩ => (d, t, ⟨log, .error e⟩)
      | ⟨log, .ok (d, t)⟩ =>
        let (d, t, r) := d.expandRepeatsFor formats scope rounds (done + 1) t
        (d, t, ⟨log ++ r.log, r.result⟩)

/-- How often a repeat block copies its content. -/
def Content.copies (scope : Scope) (c : Content) : Nat :=
  match c.attribute? "input" with
  | some v =>
    match scope.list (trimmed v) with
    | .ok items => items.length
    | .error _ => 0
  | none => 0

/-- The number of repeat blocks that come up while the blocks of a forest are expanded: each block
once, and those in it once for every copy. -/
def repeatCount (scope : Scope) : Forest Node → Nat
  | .nil => 0
  | .node n children rest =>
    (if n.isDirective .repetition then 1 + n.2.copies scope * repeatCount scope children
     else repeatCount scope children) + repeatCount scope rest

/-- Expands all repeat blocks, and starts the cursors of their lists; counts the blocks. -/
def Document.expandRepeats (formats : Formats) (scope : Scope) (d : Document) (t : Cursors) :
    Document × Cursors × Logged SiteError Nat :=
  let r := d.expandRepeatsFor formats scope (repeatCount scope d.tree + spareRounds) 0 t
  (r.1, r.2.1, r.1.ended r.1.nextRepeat?.isSome r.2.2)

end StaticSite
