/-! Searching text: what follows a pattern, the cut around its first occurrence, and
replacement of every occurrence from left to right. -/

namespace StaticSite.Text

/-- What follows `p` at the start of the text. -/
def after? : List Char → List Char → Option (List Char)
  | [], s => some s
  | _ :: _, [] => none
  | p :: ps, c :: cs => if p = c then after? ps cs else none

theorem after?_eq_some_iff {p s r : List Char} : after? p s = some r ↔ s = p ++ r := by
  induction p generalizing s with
  | nil => simp [after?, eq_comm]
  | cons a p ih =>
    cases s with
    | nil => simp [after?]
    | cons c s =>
      by_cases h : a = c
      · simp [after?, h, ih]
      · simp [after?, h, Ne.symm h]

/-- The text before and after the first occurrence of `p`. -/
def cut? (p : List Char) : List Char → Option (List Char × List Char)
  | [] => (after? p []).map fun r => ([], r)
  | c :: cs =>
    match after? p (c :: cs) with
    | some r => some ([], r)
    | none => (cut? p cs).map fun (b, r) => (c :: b, r)

theorem eq_of_cut? {p s b r : List Char} (h : cut? p s = some (b, r)) : s = b ++ p ++ r := by
  induction s generalizing b r with
  | nil =>
    obtain ⟨r', hr, e⟩ := Option.map_eq_some_iff.1 h
    obtain ⟨rfl, rfl⟩ := Prod.mk.inj e
    simpa using after?_eq_some_iff.1 hr
  | cons c s ih =>
    unfold cut? at h
    split at h
    · next r' hr =>
      obtain ⟨rfl, rfl⟩ := Prod.mk.inj (Option.some.inj h)
      simpa using after?_eq_some_iff.1 hr
    · obtain ⟨⟨b', r'⟩, hc, e⟩ := Option.map_eq_some_iff.1 h
      obtain ⟨rfl, rfl⟩ := Prod.mk.inj e
      simp [ih hc]

theorem length_le_of_cut? {p s b r : List Char} (h : cut? p s = some (b, r)) :
    r.length + p.length + b.length = s.length := by
  have := congrArg List.length (eq_of_cut? h)
  simp only [List.length_append] at this
  omega

/-- The text before and after the first `c`. -/
def cutAt? (c : Char) : List Char → Option (List Char × List Char)
  | [] => none
  | d :: ds => if d = c then some ([], ds) else (cutAt? c ds).map fun (b, r) => (d :: b, r)

/-- The pieces between the occurrences of `c`, at least one. -/
def splitOn (c : Char) : List Char → List (List Char)
  | [] => [[]]
  | d :: ds =>
    if d = c then [] :: splitOn c ds
    else match splitOn c ds with
      | [] => [[d]]
      | p :: ps => (d :: p) :: ps

/-- Every occurrence of `p`, from left to right, replaced by `new`. -/
def replaceAll (p new : List Char) (s : List Char) : List Char :=
  match s with
  | [] => []
  | c :: cs =>
    match _h : after? p (c :: cs) with
    | some r => if 0 < p.length then new ++ replaceAll p new r else c :: replaceAll p new cs
    | none => c :: replaceAll p new cs
termination_by s.length
decreasing_by
  · have := congrArg List.length (after?_eq_some_iff.1 _h)
    simp only [List.length_append, List.length_cons] at this ⊢
    omega
  · simp
  · simp

/-- The lines of a text, each with the line feed that ends it. -/
def lines : List Char → List (List Char)
  | [] => []
  | c :: cs =>
    if c = '\n' then ['\n'] :: lines cs
    else match lines cs with
      | [] => [[c]]
      | l :: ls => (c :: l) :: ls

@[simp] theorem flatten_lines (s : List Char) : (lines s).flatten = s := by
  induction s with
  | nil => rfl
  | cons c s ih =>
    unfold lines
    split
    · next h => simp [h, ih]
    · split
      · next h => rw [h] at ih; simp at ih; simp [← ih]
      · next h => rw [h] at ih; simp at ih ⊢; exact ih

end StaticSite.Text
