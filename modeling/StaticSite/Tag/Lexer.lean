import StaticSite.Tag.Include
import StaticSite.Text.Utf8

/-! Finding tags in a line.

`find` looks for the first tag of a text. An opener without its closer is plain text, and so is
an include whose body is not `kind:path`; a variable tag outside the grammar is an error. What is
found depends on the text after the starting point alone. -/

namespace StaticSite.Tag

open Text

/-- The three spellings of a tag. -/
inductive Form where
  | reference
  | rawInclude
  | escapedInclude
  deriving DecidableEq, Repr

namespace Form

def all : List Form := [reference, rawInclude, escapedInclude]

def opener : Form → List Char
  | reference => ['{', '{', '{']
  | rawInclude => rawOpen
  | escapedInclude => escapedOpen

def closer : Form → List Char
  | reference => ['}', '}', '}']
  | rawInclude => rawClose
  | escapedInclude => escapedClose

/-- The form whose opener starts the text, and what follows the opener. -/
def at? (s : List Char) : Option (Form × List Char) :=
  all.findSome? fun f => (after? f.opener s).map fun r => (f, r)

end Form

/-- Reads the expression between the braces of a variable tag. -/
def readReference (body : List Char) : Except TagFault Reference :=
  match (splitOn ':' (trim body)).map trim with
  | [name] => if name.isEmpty then .error .emptyName else .ok (.name (String.ofList name))
  | [field, list] =>
    if list.isEmpty then .error .emptyList
    else if field.isEmpty then .error .emptyField
    else if field = ['#'] then .ok (.item (String.ofList list))
    else .ok (.field (String.ofList field) (String.ofList list))
  | _ => .error .notAReference

/-- Reads a body; none where it makes no tag. -/
def Form.read (body : List Char) : Form → Except TagFault (Option Tag)
  | .reference => (readReference body).map fun r => some (.reference r)
  | .rawInclude => .ok (ofIncludeBody? false body)
  | .escapedInclude => .ok (ofIncludeBody? true body)

/-- A tag found in a text, with what stands before and after it. -/
structure Found where
  before : List Char
  text : List Char
  after : List Char
  tag : Tag
  deriving DecidableEq, Repr

/-- The first tag of a text. -/
def find : List Char → Except TagError (Option Found)
  | [] => .ok none
  | c :: cs =>
    let skip := (find cs).map (·.map fun f => { f with before := c :: f.before })
    match Form.at? (c :: cs) with
    | none => skip
    | some (form, rest) =>
      match cut? form.closer rest with
      | none => skip
      | some (body, rest) =>
        let text := form.opener ++ body ++ form.closer
        match form.read body with
        | .error fault => .error ⟨String.ofList text, fault⟩
        | .ok none => skip
        | .ok (some tag) => .ok (some ⟨[], text, rest, tag⟩)

theorem Form.eq_of_at? {s r : List Char} {f : Form} (h : Form.at? s = some (f, r)) :
    s = f.opener ++ r := by
  obtain ⟨g, _, hg⟩ := List.exists_of_findSome?_eq_some h
  obtain ⟨r', hr, e⟩ := Option.map_eq_some_iff.1 hg
  obtain ⟨rfl, rfl⟩ := Prod.mk.inj e
  exact after?_eq_some_iff.1 hr

theorem find_eq_append {s : List Char} {f : Found} (h : find s = .ok (some f)) :
    s = f.before ++ f.text ++ f.after ∧ f.text ≠ [] := by
  induction s generalizing f with
  | nil => simp [find] at h
  | cons c cs ih =>
    have skip : ∀ {f : Found},
        (find cs).map (Option.map fun f => { f with before := c :: f.before }) = .ok (some f) →
        c :: cs = f.before ++ f.text ++ f.after ∧ f.text ≠ [] := by
      intro f hf
      cases hc : find cs with
      | error e => rw [hc] at hf; simp [Except.map] at hf
      | ok o =>
        cases o with
        | none => rw [hc] at hf; simp [Except.map] at hf
        | some g =>
          rw [hc] at hf
          simp only [Except.map, Option.map_some, Except.ok.injEq, Option.some.injEq] at hf
          obtain ⟨e, hne⟩ := ih hc
          subst hf
          exact ⟨by simp [e], hne⟩
    unfold find at h
    simp only at h
    split at h
    · exact skip h
    · next form rest hform =>
      split at h
      · exact skip h
      · next body rest' hcut =>
        split at h
        · simp at h
        · exact skip h
        · simp only [Except.ok.injEq, Option.some.injEq] at h
          subst h
          refine ⟨?_, ?_⟩
          · rw [Form.eq_of_at? hform, eq_of_cut? hcut]; simp
          · have : form.opener ≠ [] := by cases form <;> decide
            simp [this]

theorem length_after_lt {s : List Char} {f : Found} (h : find s = .ok (some f)) :
    f.after.length < s.length := by
  obtain ⟨e, hne⟩ := find_eq_append h
  have := congrArg List.length e
  have := List.length_pos_iff.2 hne
  simp only [List.length_append] at *
  omega

/-- A tag with its span in a line, in bytes. -/
structure Match where
  start : Nat
  stop : Nat
  tag : Tag
  deriving DecidableEq, Repr

/-- The span of a tag found after `offset` bytes of a line. -/
def Found.toMatch (offset : Nat) (f : Found) : Match :=
  let start := offset + byteLength f.before
  ⟨start, start + byteLength f.text, f.tag⟩

/-- The first tag of a line at or after a byte offset. There is none from an offset inside a
character or past the end. -/
def findFrom (line : List Char) (offset : Nat) : Except TagError (Option Match) :=
  match splitAtByte? offset line with
  | none => .ok none
  | some (_, rest) => (find rest).map (·.map (Found.toMatch offset))

/-- All tags of a text that starts at a byte offset, each searched from the end of the one
before, and the error that ended the search. -/
def scanFrom (offset : Nat) (s : List Char) : List Match × Option TagError :=
  match _h : find s with
  | .error e => ([], some e)
  | .ok none => ([], none)
  | .ok (some f) =>
    let m := f.toMatch offset
    let (ms, e) := scanFrom m.stop f.after
    (m :: ms, e)
termination_by s.length
decreasing_by exact length_after_lt _h

def scan (line : List Char) : List Match × Option TagError := scanFrom 0 line

end StaticSite.Tag
