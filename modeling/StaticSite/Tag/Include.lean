import StaticSite.Tag.Basic
import StaticSite.Text.Blank
import StaticSite.Text.Cut

/-! The body of an include tag is `kind:path`, on one line and without angle brackets.

`protect` rewrites raw include tags into their escaped spelling, because a markup tokenizer would
read the raw one as a start tag. -/

namespace StaticSite.Tag

open Text

def rawOpen : List Char := ['<', '<', '<']
def rawClose : List Char := ['>', '>', '>']
def escapedOpen : List Char := List.flatten (List.replicate 3 ['&', 'l', 't', ';'])
def escapedClose : List Char := List.flatten (List.replicate 3 ['&', 'g', 't', ';'])

def isIncludeBody (body : List Char) : Bool :=
  match cutAt? ':' body with
  | none => false
  | some (kind, path) =>
    !kind.isEmpty && kind.all Char.isAlphanum && !isAllBlank path &&
      body.all fun c => c != '<' && c != '>' && c != '\n'

/-- The include tag with this body. In the escaped spelling an ampersand of the path is written
as an entity. -/
def ofIncludeBody? (escaped : Bool) (body : List Char) : Option Tag :=
  if isIncludeBody body then
    (cutAt? ':' body).map fun (kind, path) =>
      let path := trim path
      .file (String.ofList kind) <| String.ofList <|
        if escaped then replaceAll ['&', 'a', 'm', 'p', ';'] ['&'] path else path
  else none

/-- Rewrites every raw include tag into its escaped spelling, from left to right. -/
def protect : List Char → List Char
  | [] => []
  | c :: cs =>
    match _ho : after? rawOpen (c :: cs) with
    | none => c :: protect cs
    | some rest =>
      match _hc : cut? rawClose rest with
      | none => c :: protect cs
      | some (body, rest) =>
        if isIncludeBody body then escapedOpen ++ body ++ escapedClose ++ protect rest
        else c :: protect cs
termination_by s => s.length
decreasing_by
  all_goals try simp; done
  have h₁ := congrArg List.length (after?_eq_some_iff.1 _ho)
  have h₂ := length_le_of_cut? _hc
  have h₃ : rawOpen.length = 3 := rfl
  simp only [List.length_append, List.length_cons] at h₁ ⊢
  omega

end StaticSite.Tag
