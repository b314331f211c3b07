import StaticSite.Html.Serialize
import StaticSite.Proofs.Expressions

/-!
Variable tags in escaped text.

Text goes through the document tree before its tags are read, and comes out of it escaped: `&`, `<`,
`>` and the no-break space are written as entities. Proved here, for every expression:

* `cut?_escapeText`, `splitOn_escapeText`: what is cut at characters that escaping keeps is cut in
  the same places after escaping;
* `visible_trim`, `visible_escapeText`: trimming keeps the number of visible characters, and each
  entity makes it larger;
* `escaped_reference_iff`: the tag is read as a whole after escaping too, but to the same reference
  only where nothing is escaped;
* `ampersand_name_escaped`: a name with an ampersand cannot be read in text.
-/

namespace StaticSite

open Text

namespace Html

/-! ## Escaping and searching -/

/-- The characters that are written as entities. -/
def IsEscaped (c : Char) : Prop := c = '&' ∨ c = '<' ∨ c = '>' ∨ c = '\u00A0'

theorem escapeChar_eq_self {c : Char} (h : ¬ IsEscaped c) : escapeChar c = [c] := by
  unfold escapeChar
  split
  · exact absurd (.inl rfl) h
  · exact absurd (.inr (.inl rfl)) h
  · exact absurd (.inr (.inr (.inl rfl))) h
  · exact absurd (.inr (.inr (.inr rfl))) h
  · rfl

/-- A character of which escaping makes no other, and that stands in no entity. -/
structure Kept (d : Char) : Prop where
  self : escapeChar d = [d]
  only : ∀ c, c ≠ d → d ∉ escapeChar c

/-- The characters that entities are written with. -/
def entityChars : List Char := "&amp;&lt;&gt;&nbsp;".toList

theorem mem_escapeChar {c d : Char} (h : d ∈ escapeChar c) : d = c ∨ d ∈ entityChars := by
  unfold escapeChar at h
  split at h
  · exact .inr ((by decide : "&amp;".toList ⊆ entityChars) h)
  · exact .inr ((by decide : "&lt;".toList ⊆ entityChars) h)
  · exact .inr ((by decide : "&gt;".toList ⊆ entityChars) h)
  · exact .inr ((by decide : "&nbsp;".toList ⊆ entityChars) h)
  · exact .inl (List.mem_singleton.1 h)

theorem kept_of {d : Char} (h : ¬ IsEscaped d) (hd : d ∉ entityChars) : Kept d :=
  ⟨escapeChar_eq_self h, fun _ hc hmem => (mem_escapeChar hmem).elim (hc ·.symm) hd⟩

theorem kept_brace : Kept '}' := kept_of (by unfold IsEscaped; decide) (by decide)

theorem kept_colon : Kept ':' := kept_of (by unfold IsEscaped; decide) (by decide)

theorem escapeText_cons (c : Char) (s : List Char) :
    escapeText (c :: s) = escapeChar c ++ escapeText s := rfl

theorem escapeText_append (s t : List Char) :
    escapeText (s ++ t) = escapeText s ++ escapeText t := List.flatMap_append

theorem escapeChar_ne_nil (c : Char) : escapeChar c ≠ [] := by
  unfold escapeChar
  split <;> simp

theorem after?_escapeText {p : List Char} (hp : ∀ d ∈ p, Kept d) (s : List Char) :
    after? p (escapeText s) = (after? p s).map escapeText := by
  induction p generalizing s with
  | nil => rfl
  | cons d p ih =>
    have hd := hp d List.mem_cons_self
    cases s with
    | nil => rfl
    | cons c s =>
      rw [escapeText_cons]
      by_cases hc : c = d
      · subst hc
        rw [hd.self]
        simp [after?, ih fun e he => hp e (List.mem_cons_of_mem c he)]
      · have hmem := hd.only c hc
        obtain ⟨e, u, hu⟩ := List.exists_cons_of_ne_nil (escapeChar_ne_nil c)
        have he : d ≠ e := by
          rintro rfl
          exact hmem (by simp [hu])
        simp [after?, hu, he, Ne.symm hc]

theorem cut?_escapeText {d : Char} {p : List Char} (hp : ∀ e ∈ d :: p, Kept e) (s : List Char) :
    cut? (d :: p) (escapeText s) =
      (cut? (d :: p) s).map fun (b, r) => (escapeText b, escapeText r) := by
  have hd := hp d List.mem_cons_self
  induction s with
  | nil => rfl
  | cons c s ih =>
    by_cases hc : c = d
    · subst hc
      have hafter := after?_escapeText hp (c :: s)
      rw [escapeText_cons, hd.self, List.singleton_append] at hafter ⊢
      cases h : after? (c :: p) (c :: s) with
      | some r =>
        rw [h] at hafter
        rw [cut?_of_after? h, cut?_of_after? hafter]
        rfl
      | none =>
        rw [h] at hafter
        rw [cut?_of_after?_eq_none h, cut?_of_after?_eq_none hafter, ih, Option.map_map,
          Option.map_map]
        congr 1
        funext ⟨b, r⟩
        simp [escapeText_cons, hd.self]
    · have hnone : after? (d :: p) (c :: s) = none := by simp [after?, Ne.symm hc]
      rw [escapeText_cons, cut?_append_of_not_mem (hd.only c hc), ih, cut?_of_after?_eq_none hnone,
        Option.map_map, Option.map_map]
      rfl

theorem splitOn_escapeText {d : Char} (hd : Kept d) (s : List Char) :
    splitOn d (escapeText s) = (splitOn d s).map escapeText := by
  induction s with
  | nil => rfl
  | cons c s ih =>
    rw [escapeText_cons, splitOn]
    by_cases hc : c = d
    · subst hc
      rw [hd.self, if_pos rfl, List.singleton_append, splitOn, if_pos rfl, ih]
      rfl
    · obtain ⟨p, ps, hs, hcs⟩ := splitOn_append_left (hd.only c hc) (escapeText s)
      rw [if_neg hc, hcs]
      rw [ih] at hs
      cases h : splitOn d s with
      | nil => simp [h] at hs
      | cons q qs =>
        rw [h, List.map_cons] at hs
        obtain ⟨rfl, rfl⟩ := List.cons.inj hs
        rfl

/-! ## Visible characters -/

/-- The number of characters of a text that are not blank. -/
def visible (s : List Char) : Nat := s.countP fun c => !isBlank c

theorem visible_of_blank {s : List Char} (h : ∀ c ∈ s, isBlank c = true) : visible s = 0 :=
  List.countP_eq_zero.2 fun c hc => by simp [h c hc]

theorem visible_append (s t : List Char) : visible (s ++ t) = visible s + visible t :=
  List.countP_append

theorem visible_trim (s : List Char) : visible (trim s) = visible s := by
  obtain ⟨l, r, hs, hl, hr⟩ := exists_trim s
  have h := congrArg visible hs
  rw [visible_append, visible_append, visible_of_blank hl, visible_of_blank hr] at h
  omega

theorem trim_eq_nil_iff {s : List Char} : trim s = [] ↔ visible s = 0 := by
  constructor
  · intro h
    rw [← visible_trim, h]
    rfl
  · intro h
    refine trim_of_blank fun c hc => ?_
    have := List.countP_eq_zero.1 h c hc
    simpa using this

theorem visible_lt_escapeChar {c : Char} (h : IsEscaped c) :
    visible [c] < visible (escapeChar c) := by
  rcases h with rfl | rfl | rfl | rfl <;> decide

/-- Escaping hides no visible character, and each entity has more of them than what it stands
for. -/
theorem visible_escapeText (s : List Char) :
    visible s ≤ visible (escapeText s) ∧
      ∀ c ∈ s, IsEscaped c → visible s < visible (escapeText s) := by
  induction s with
  | nil => simp [escapeText]
  | cons c s ih =>
    obtain ⟨hle, hlt⟩ := ih
    have hcons : visible (c :: s) = visible [c] + visible s := visible_append [c] s
    rw [escapeText_cons, visible_append, hcons]
    by_cases hc : IsEscaped c
    · have := visible_lt_escapeChar hc
      exact ⟨by omega, fun _ _ _ => by omega⟩
    · rw [escapeChar_eq_self hc]
      refine ⟨by omega, fun d hd hesc => ?_⟩
      rcases List.mem_cons.1 hd with rfl | hd
      · exact absurd hesc hc
      · have := hlt d hd hesc
        omega

theorem escapeText_eq_self {s : List Char} (h : ∀ c ∈ s, ¬ IsEscaped c) : escapeText s = s := by
  induction s with
  | nil => rfl
  | cons c s ih =>
    rw [escapeText_cons, escapeChar_eq_self (h c List.mem_cons_self),
      ih fun d hd => h d (List.mem_cons_of_mem c hd)]
    rfl

/-- Trimming does not undo any escaping. -/
theorem trim_escapeText_eq_iff {s : List Char} :
    trim (escapeText s) = trim s ↔ ∀ c ∈ s, ¬ IsEscaped c := by
  constructor
  · intro h c hc hesc
    have hlt := (visible_escapeText s).2 c hc hesc
    rw [← visible_trim s, ← visible_trim (escapeText s), h] at hlt
    exact Nat.lt_irrefl _ hlt
  · intro h
    rw [escapeText_eq_self h]

end Html

open Html

namespace Tag

/-! ## Variable tags -/

theorem escapeText_write (e : List Char) :
    escapeText (Form.reference.write e) = Form.reference.write (escapeText e) := by
  have hopen : escapeText Form.reference.opener = Form.reference.opener := by decide
  have hclose : escapeText Form.reference.closer = Form.reference.closer := by decide
  rw [Form.write, escapeText_append, escapeText_append, hopen, hclose, Form.write]

theorem Closes.escapeText {e : List Char} (h : Closes e) : Closes (escapeText e) := by
  have hp : ∀ d ∈ Form.reference.closer, Kept d := by
    intro d hd
    obtain rfl : d = '}' := by simpa [Form.closer] using hd
    exact kept_brace
  have hcut : cut? Form.reference.closer (Html.escapeText (e ++ Form.reference.closer)) =
      some (Html.escapeText e, []) := by
    rw [show Form.reference.closer = '}' :: ['}', '}'] from rfl] at hp ⊢
    rw [cut?_escapeText hp]
    exact congrArg _ h
  have hclose : Html.escapeText Form.reference.closer = Form.reference.closer := by decide
  rw [escapeText_append, hclose] at hcut
  exact hcut

theorem parts_escapeText (e : List Char) :
    parts (escapeText e) = (splitOn ':' e).map fun p => trim (escapeText p) := by
  rw [parts, splitOn_escapeText kept_colon, List.map_map]
  rfl

theorem exists_read_escapeText {e : List Char} {v : Reference} (h : readReference e = .ok v) :
    ∃ w, readReference (escapeText e) = .ok w := by
  obtain ⟨hlen, hne⟩ := exists_readReference_iff.1 ⟨v, h⟩
  rw [exists_readReference_iff, parts_escapeText]
  refine ⟨by simpa [parts] using hlen, fun p hp hnil => ?_⟩
  obtain ⟨q, hq, rfl⟩ := List.mem_map.1 hp
  refine hne (trim q) (List.mem_map_of_mem hq) ?_
  rw [trim_eq_nil_iff] at hnil ⊢
  have := (visible_escapeText q).1
  omega

/-- The expression is read to the same reference only where nothing in it is escaped. -/
theorem read_escapeText_iff {e : List Char} {v : Reference} (h : readReference e = .ok v) :
    readReference (escapeText e) = .ok v ↔ ∀ c ∈ e, ¬ IsEscaped c := by
  constructor
  · intro h' c hc hesc
    have hparts : parts (escapeText e) = parts e :=
      (readReference_eq_ok_iff.1 h').2.trans (readReference_eq_ok_iff.1 h).2.symm
    rw [parts_escapeText, parts, List.map_inj_left] at hparts
    have hcolon : c ≠ ':' := by
      rintro rfl
      simp [IsEscaped] at hesc
    obtain ⟨p, hp, hcp⟩ := exists_mem_splitOn hc hcolon
    exact trim_escapeText_eq_iff.1 (hparts p hp) c hcp hesc
  · intro hnone
    rw [escapeText_eq_self hnone, h]

/-- **Tags in text.** A variable tag that is read as a whole is read as a whole after its text has
been escaped. It is the same reference just where its expression has no ampersand, no angle
bracket and no no-break space. -/
theorem escaped_reference_iff {e : List Char} {v : Reference}
    (h : findFrom (Form.reference.write e) 0 =
      .ok (some ⟨0, byteLength (Form.reference.write e), .reference v⟩)) :
    let text := escapeText (Form.reference.write e)
    (∃ w, findFrom text 0 = .ok (some ⟨0, byteLength text, .reference w⟩)) ∧
    (findFrom text 0 = .ok (some ⟨0, byteLength text, .reference v⟩) ↔
      ∀ c ∈ e, c ≠ '&' ∧ c ≠ '<' ∧ c ≠ '>' ∧ c ≠ '\u00A0') := by
  intro text
  obtain ⟨hclose, hread⟩ := findFrom_write_iff.1 h
  have htext : text = Form.reference.write (escapeText e) := escapeText_write e
  rw [htext]
  simp only [findFrom_write_iff, and_iff_right hclose.escapeText]
  refine ⟨exists_read_escapeText hread, ?_⟩
  rw [read_escapeText_iff hread]
  simp only [IsEscaped, not_or, ne_eq]

/-- The tag of a field whose name has an angle bracket. -/
theorem escaped_bracket_field :
    let e := "a<b:list".toList
    let text := escapeText (Form.reference.write e)
    findFrom (Form.reference.write e) 0 =
        .ok (some ⟨0, byteLength (Form.reference.write e), .reference (.field "a<b" "list")⟩) ∧
      (∃ w, findFrom text 0 = .ok (some ⟨0, byteLength text, .reference w⟩)) ∧
      (findFrom text 0 = .ok (some ⟨0, byteLength text, .reference (.field "a<b" "list")⟩) ↔
        ∀ c ∈ e, c ≠ '&' ∧ c ≠ '<' ∧ c ≠ '>' ∧ c ≠ '\u00A0') :=
  ⟨rfl, escaped_reference_iff rfl⟩

/-- A name with an ampersand is read as written, but as another name from escaped text, where the
path of an include stays what it was. -/
theorem ampersand_name_escaped :
    (findFrom "{{{a&b}}}".toList 0).toOption = some (some ⟨0, 9, .reference (.name "a&b")⟩) ∧
      (findFrom (escapeText "{{{a&b}}}".toList) 0).toOption =
        some (some ⟨0, 13, .reference (.name "a&amp;b")⟩) ∧
      (findFrom (escapeText "<<<md:a&b.md>>>".toList) 0).toOption =
        some (some ⟨0, 37, .file "md" "a&b.md"⟩) := by
  decide +kernel

end Tag

end StaticSite
