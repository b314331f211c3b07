import Mathlib.Data.List.DropRight
import Mathlib.Data.List.Induction
import StaticSite.Proofs.Components
import StaticSite.Proofs.Escaping
import StaticSite.Proofs.Protection

/-!
Include tags in escaped text.

A raw include tag comes out of the document tree in the escaped spelling, and the reader of that
spelling takes back the escaping of ampersands only. Proved here, for every body of an include:

* `isIncludeBody_iff`: a body is a kind and a path, and `Sides.escapeText`: escaping a body leaves its
  kind alone and makes no other body of it;
* `cut?_escapedClose`: the closer of an escaped tag is not found in its body;
* `trim_escapeText`: escaped text is trimmed as the text is, but for its no-break spaces;
* `replaceAll_escapeText`: what escaping does is taken back, but for the no-break spaces;
* `escaped_include_iff`: both spellings are read as a whole and to the same kind, and to the same path
  just where the path has no no-break space.
-/

namespace StaticSite

open Text

/-! ## Replacing -/

namespace Text

theorem cutAt?_of_not_mem {c : Char} {a : List Char} (h : c ∉ a) (r : List Char) :
    cutAt? c (a ++ c :: r) = some (a, r) := by
  induction a with
  | nil => simp [cutAt?]
  | cons d a ih =>
    rw [List.mem_cons, not_or] at h
    simp [cutAt?, Ne.symm h.1, ih h.2]

theorem replaceAll_of_after? {p new r : List Char} {c : Char} {s : List Char} (hp : p ≠ [])
    (h : after? p (c :: s) = some r) : replaceAll p new (c :: s) = new ++ replaceAll p new r := by
  rw [replaceAll]
  split
  · next r' h' =>
    obtain rfl : r = r' := Option.some.inj (h.symm.trans h')
    rw [if_pos (List.length_pos_iff.2 hp)]
  · next h' => simp [h] at h'

theorem replaceAll_of_after?_eq_none {p new : List Char} {c : Char} {s : List Char}
    (h : after? p (c :: s) = none) : replaceAll p new (c :: s) = c :: replaceAll p new s := by
  rw [replaceAll]
  split
  · next h' => simp [h] at h'
  · rfl

/-- A text without the first character of a pattern stays as it is. -/
theorem replaceAll_append_of_not_mem {c : Char} {p new u : List Char} (h : c ∉ u) (s : List Char) :
    replaceAll (c :: p) new (u ++ s) = u ++ replaceAll (c :: p) new s := by
  induction u with
  | nil => rfl
  | cons d u ih =>
    rw [List.mem_cons, not_or] at h
    have hd : after? (c :: p) (d :: (u ++ s)) = none := by simp [after?, h.1]
    rw [List.cons_append, replaceAll_of_after?_eq_none hd, ih h.2]
    rfl

end Text

namespace Html

/-! ## Escaped text and its ends -/

/-- The blanks that are written as they are. -/
def isPlainBlank (c : Char) : Bool := isBlank c && c != '\u00A0'

/-- Cuts the blanks off both ends that are written as they are. -/
def trimPlain (s : List Char) : List Char := (s.dropWhile isPlainBlank).rdropWhile isPlainBlank

theorem isPlainBlank_iff {c : Char} : isPlainBlank c = true ↔ isBlank c = true ∧ ¬ IsEscaped c := by
  unfold isPlainBlank IsEscaped
  rw [Bool.and_eq_true, bne_iff_ne]
  constructor
  · rintro ⟨hb, hne⟩
    refine ⟨hb, ?_⟩
    rintro (rfl | rfl | rfl | rfl)
    · exact absurd hb (by decide)
    · exact absurd hb (by decide)
    · exact absurd hb (by decide)
    · exact hne rfl
  · rintro ⟨hb, hne⟩
    exact ⟨hb, fun h => hne (.inr (.inr (.inr h)))⟩

/-- The spelling of any other character begins and ends with visible ones. -/
theorem escapeChar_ends {c : Char} (h : isPlainBlank c = false) :
    (∃ d u, escapeChar c = d :: u ∧ isBlank d = false) ∧
      ∃ u d, escapeChar c = u ++ [d] ∧ isBlank d = false := by
  by_cases hc : IsEscaped c
  · rcases hc with rfl | rfl | rfl | rfl
    · exact ⟨⟨'&', "amp;".toList, rfl, rfl⟩, "&amp".toList, ';', rfl, rfl⟩
    · exact ⟨⟨'&', "lt;".toList, rfl, rfl⟩, "&lt".toList, ';', rfl, rfl⟩
    · exact ⟨⟨'&', "gt;".toList, rfl, rfl⟩, "&gt".toList, ';', rfl, rfl⟩
    · exact ⟨⟨'&', "nbsp;".toList, rfl, rfl⟩, "&nbsp".toList, ';', rfl, rfl⟩
  · have hb : isBlank c = false := by
      rw [← Bool.not_eq_true]
      exact fun hb => by simp [isPlainBlank_iff.2 ⟨hb, hc⟩] at h
    rw [escapeChar_eq_self hc]
    exact ⟨⟨c, [], rfl, hb⟩, [], c, rfl, hb⟩

theorem trimStart_escapeText (s : List Char) :
    trimStart (escapeText s) = escapeText (s.dropWhile isPlainBlank) := by
  induction s with
  | nil => rfl
  | cons c s ih =>
    rw [List.dropWhile_cons, escapeText_cons]
    cases hc : isPlainBlank c with
    | true =>
      obtain ⟨hb, hesc⟩ := isPlainBlank_iff.1 hc
      rw [if_pos rfl, ← ih, escapeChar_eq_self hesc]
      simp [trimStart, hb]
    | false =>
      obtain ⟨d, u, hd, hb⟩ := (escapeChar_ends hc).1
      rw [if_neg Bool.false_ne_true, escapeText_cons, hd]
      simp [trimStart, hb]

theorem trimEnd_escapeText (s : List Char) :
    trimEnd (escapeText s) = escapeText (s.rdropWhile isPlainBlank) := by
  induction s using List.reverseRecOn with
  | nil => rfl
  | append_singleton s c ih =>
    have hlast : escapeText (s ++ [c]) = escapeText s ++ escapeChar c := by
      rw [escapeText_append]
      simp [escapeText]
    rw [List.rdropWhile_concat, hlast]
    cases hc : isPlainBlank c with
    | true =>
      obtain ⟨hb, hesc⟩ := isPlainBlank_iff.1 hc
      rw [if_pos rfl, ← ih, escapeChar_eq_self hesc]
      exact trimEnd_append_blank _ (by simpa using hb)
    | false =>
      obtain ⟨u, d, hd, hb⟩ := (escapeChar_ends hc).2
      rw [if_neg Bool.false_ne_true, hlast, hd]
      simp [trimEnd, hb]

/-- **Trimming.** Escaped text is trimmed as the text is, but for its no-break spaces. -/
theorem trim_escapeText (s : List Char) : trim (escapeText s) = escapeText (trimPlain s) := by
  rw [trim, trimStart_escapeText, trimEnd_escapeText, trimPlain]

theorem trimPlain_eq_trim {s : List Char} (h : '\u00A0' ∉ s) : trimPlain s = trim s := by
  have hplain {u : List Char} (hu : u ⊆ s) : u.dropWhile isPlainBlank = u.dropWhile isBlank := by
    induction u with
    | nil => rfl
    | cons c u ih =>
      rw [List.cons_subset] at hu
      have hc : c ≠ '\u00A0' := fun e => h (e ▸ hu.1)
      simp only [List.dropWhile_cons, isPlainBlank, bne_iff_ne.2 hc, Bool.and_true]
      rw [← ih hu.2]
  have hback : (s.dropWhile isBlank).reverse ⊆ s := fun c hc =>
    (List.dropWhile_sublist _).subset (List.mem_reverse.1 hc)
  rw [trimPlain, List.rdropWhile, hplain (List.Subset.refl s), hplain hback, trim, trimEnd,
    trimStart]

theorem exists_trimPlain (s : List Char) :
    ∃ l r, s = l ++ trimPlain s ++ r ∧
      (∀ c ∈ l, isPlainBlank c = true) ∧ ∀ c ∈ r, isPlainBlank c = true := by
  refine ⟨s.takeWhile isPlainBlank, (s.dropWhile isPlainBlank).rtakeWhile isPlainBlank, ?_,
    fun c => List.mem_takeWhile_imp, fun c => List.mem_rtakeWhile_imp⟩
  rw [List.append_assoc, trimPlain, List.rdropWhile_append_rtakeWhile,
    List.takeWhile_append_dropWhile]

/-! ## Taking escaping back -/

/-- What is left of a character when the escaping of ampersands is taken back. -/
def unescaped (c : Char) : List Char := if c = '\u00A0' then "&nbsp;".toList else [c]

/-- **Decoding.** To replace the entity of the ampersand takes escaping back, but for the no-break
spaces. -/
theorem replaceAll_escapeText {s : List Char} (h : ∀ c ∈ s, c ≠ '<' ∧ c ≠ '>') :
    replaceAll "&amp;".toList ['&'] (escapeText s) = s.flatMap unescaped := by
  induction s with
  | nil => simp [replaceAll, escapeText]
  | cons c s ih =>
    obtain ⟨hlt, hgt⟩ := h c List.mem_cons_self
    rw [escapeText_cons, List.flatMap_cons, ← ih fun d hd => h d (List.mem_cons_of_mem c hd)]
    by_cases hamp : c = '&'
    · subst hamp
      exact replaceAll_of_after? (List.cons_ne_nil _ _) (after?_eq_some_iff.2 rfl)
    by_cases hnbsp : c = '\u00A0'
    · subst hnbsp
      have hne : after? "&amp;".toList ('&' :: ("nbsp;".toList ++ escapeText s)) = none := by
        simp [after?]
      refine (replaceAll_of_after?_eq_none hne).trans ?_
      exact congrArg ('&' :: ·) (replaceAll_append_of_not_mem (by decide) _)
    · have hesc : ¬ IsEscaped c := by
        simp [IsEscaped, hamp, hnbsp, hlt, hgt]
      rw [escapeChar_eq_self hesc, unescaped, if_neg hnbsp]
      exact replaceAll_append_of_not_mem (c := '&') (by simpa using Ne.symm hamp) _

theorem visible_unescaped (s : List Char) :
    visible s ≤ visible (s.flatMap unescaped) ∧
      ('\u00A0' ∈ s → visible s < visible (s.flatMap unescaped)) := by
  induction s with
  | nil => simp
  | cons c s ih =>
    have hcons : visible (c :: s) = visible [c] + visible s := visible_append [c] s
    rw [List.flatMap_cons, visible_append, hcons]
    obtain ⟨hle, hlt⟩ := ih
    by_cases hc : c = '\u00A0'
    · subst hc
      have : visible ['\u00A0'] < visible (unescaped '\u00A0') := by decide
      exact ⟨by omega, fun _ => by omega⟩
    · rw [unescaped, if_neg hc]
      refine ⟨by omega, fun hmem => ?_⟩
      have := hlt ((List.mem_cons.1 hmem).resolve_left (Ne.symm hc))
      omega

/-- **Paths.** What is read from the escaped spelling of a text, without angle brackets, is the text
itself just where it has no no-break space. Of visible characters and no-break spaces trimming takes
off none. -/
theorem decode_trim_iff {s : List Char} (h : ∀ c ∈ s, c ≠ '<' ∧ c ≠ '>') :
    trim s = replaceAll "&amp;".toList ['&'] (trim (escapeText s)) ↔ '\u00A0' ∉ s := by
  obtain ⟨l, r, hs, hl, hr⟩ := exists_trimPlain s
  have hplain : ∀ c ∈ trimPlain s, c ≠ '<' ∧ c ≠ '>' := fun c hc => h c (by rw [hs]; simp [hc])
  rw [trim_escapeText, replaceAll_escapeText hplain]
  constructor
  · intro e hc
    have hout {u : List Char} (hu : ∀ c ∈ u, isPlainBlank c = true) :
        visible u = 0 ∧ '\u00A0' ∉ u :=
      ⟨visible_of_blank fun c hc => (isPlainBlank_iff.1 (hu c hc)).1,
        fun hc => absurd (hu _ hc) (by decide)⟩
    have hmem : '\u00A0' ∈ trimPlain s := by
      rw [hs] at hc
      simpa [(hout hl).2, (hout hr).2] using hc
    have hvisible := congrArg visible hs
    rw [visible_append, visible_append, (hout hl).1, (hout hr).1] at hvisible
    have hlt := (visible_unescaped (trimPlain s)).2 hmem
    rw [← e, visible_trim] at hlt
    omega
  · intro hc
    have hspell : (trim s).flatMap unescaped = (trim s).flatMap fun c => [c] := by
      refine List.flatMap_congr fun c hmem => if_neg ?_
      rintro rfl
      exact hc (by rw [hs, trimPlain_eq_trim hc]; simp [hmem])
    rw [trimPlain_eq_trim hc, hspell, List.flatMap_singleton']

end Html

open Html

namespace Tag

/-! ## Bodies of includes -/

/-- The two sides of an include body: its kind, and its path up to the blanks around it. -/
structure Sides (b kind path : List Char) : Prop where
  eq : b = kind ++ ':' :: path
  kind_ne : kind ≠ []
  alphanumeric : ∀ c ∈ kind, c.isAlphanum = true
  visible : ∃ c ∈ path, isBlank c = false
  plain : ∀ c ∈ b, c ≠ '<' ∧ c ≠ '>' ∧ c ≠ '\n'

namespace Sides

variable {b kind path : List Char}

theorem cutAt?_eq (h : Sides b kind path) : cutAt? ':' b = some (kind, path) := by
  rw [h.eq]
  exact cutAt?_of_not_mem (fun hc => absurd (h.alphanumeric _ hc) (by decide)) path

theorem plain_path (h : Sides b kind path) : ∀ c ∈ path, c ≠ '<' ∧ c ≠ '>' := by
  intro c hc
  have := h.plain c (by rw [h.eq]; simp [hc])
  exact ⟨this.1, this.2.1⟩

end Sides

theorem isIncludeBody_iff {b : List Char} :
    isIncludeBody b = true ↔ ∃ kind path, Sides b kind path := by
  constructor
  · intro h
    unfold isIncludeBody at h
    split at h
    · simp at h
    · next kind path hcut =>
      simp only [Bool.and_eq_true, Bool.not_eq_true', List.isEmpty_eq_false_iff, List.all_eq_true,
        isAllBlank, List.all_eq_false, bne_iff_ne] at h
      obtain ⟨⟨⟨hkind, halnum⟩, hpath⟩, hplain⟩ := h
      refine ⟨kind, path, eq_of_cutAt? hcut, hkind, halnum, ?_, fun c hc => ?_⟩
      · simpa using hpath
      · obtain ⟨⟨hlt, hgt⟩, hlf⟩ := hplain c hc
        exact ⟨hlt, hgt, hlf⟩
  · rintro ⟨kind, path, h⟩
    unfold isIncludeBody
    rw [h.cutAt?_eq]
    simp only [Bool.and_eq_true, Bool.not_eq_true', List.isEmpty_eq_false_iff, List.all_eq_true,
      isAllBlank, List.all_eq_false, bne_iff_ne]
    refine ⟨⟨⟨h.kind_ne, h.alphanumeric⟩, by simpa using h.visible⟩, fun c hc => ?_⟩
    obtain ⟨hlt, hgt, hlf⟩ := h.plain c hc
    exact ⟨⟨hlt, hgt⟩, hlf⟩

/-- Escaping a body leaves its kind alone. -/
theorem Sides.escapeText {b kind path : List Char} (h : Sides b kind path) :
    Sides (Html.escapeText b) kind (Html.escapeText path) := by
  have hkind : Html.escapeText kind = kind := escapeText_eq_self fun c hc hesc => by
    have halnum := h.alphanumeric c hc
    rcases hesc with rfl | rfl | rfl | rfl <;> exact absurd halnum (by decide)
  refine ⟨?_, h.kind_ne, h.alphanumeric, ?_, fun c hc => ?_⟩
  · rw [h.eq, escapeText_append, hkind, escapeText_cons, kept_colon.self]
    rfl
  · obtain ⟨c, hc, hb⟩ := h.visible
    have hpos : 0 < Html.visible path := List.countP_pos_iff.2 ⟨c, hc, by simp [hb]⟩
    have hle := (visible_escapeText path).1
    obtain ⟨d, hd, hdb⟩ := List.countP_pos_iff.1 (Nat.lt_of_lt_of_le hpos hle)
    exact ⟨d, hd, by simpa using hdb⟩
  · obtain ⟨d, hd, hcd⟩ := List.mem_flatMap.1 hc
    rcases mem_escapeChar hcd with rfl | hent
    · exact h.plain c hd
    · have hall : entityChars.all (fun c => c != '<' && c != '>' && c != '\n') = true := by decide
      simpa [and_assoc] using List.all_eq_true.1 hall c hent

/-- The tag that a body is read to. -/
theorem Sides.read {b kind path : List Char} (h : Sides b kind path) (escaped : Bool) :
    ofIncludeBody? escaped b = some (.file (String.ofList kind) (String.ofList
      (if escaped then replaceAll "&amp;".toList ['&'] (trim path) else trim path))) := by
  rw [ofIncludeBody?, if_pos (isIncludeBody_iff.2 ⟨kind, path, h⟩), h.cutAt?_eq]
  rfl

/-! ## Escaped tags -/

/-- An entity with another second character than the closer is passed over. -/
theorem cut?_escapedClose_entity {d : Char} {u : List Char} (hd : d ≠ 'g') (hu : '&' ∉ d :: u)
    (s : List Char) :
    cut? escapedClose ('&' :: (d :: u) ++ s) =
      (cut? escapedClose s).map fun (b, r) => ('&' :: (d :: u) ++ b, r) := by
  have hnone : after? escapedClose ('&' :: (d :: u ++ s)) = none := by
    simp [escapedClose, after?, Ne.symm hd]
  have hpass : cut? escapedClose (d :: u ++ s) = (cut? escapedClose s).map _ :=
    cut?_append_of_not_mem hu s
  rw [List.cons_append, cut?_of_after?_eq_none hnone, hpass, Option.map_map]
  rfl

theorem cut?_escapedClose_escapeChar {c : Char} (h : c ≠ '>') (s : List Char) :
    cut? escapedClose (escapeChar c ++ s) =
      (cut? escapedClose s).map fun (b, r) => (escapeChar c ++ b, r) := by
  by_cases hc : IsEscaped c
  · rcases hc with rfl | rfl | rfl | rfl
    · exact cut?_escapedClose_entity (by decide) (by decide : '&' ∉ "amp;".toList) s
    · exact cut?_escapedClose_entity (by decide) (by decide : '&' ∉ "lt;".toList) s
    · exact absurd rfl h
    · exact cut?_escapedClose_entity (by decide) (by decide : '&' ∉ "nbsp;".toList) s
  · rw [escapeChar_eq_self hc]
    exact cut?_append_of_not_mem (by simpa using fun e => hc (.inl e.symm)) s

/-- The closer of an escaped tag is not found in escaped text without brackets. -/
theorem cut?_escapedClose {s : List Char} (h : '>' ∉ s) (r : List Char) :
    cut? escapedClose (escapeText s ++ (escapedClose ++ r)) = some (escapeText s, r) := by
  induction s with
  | nil => exact cut?_of_after? (after?_eq_some_iff.2 rfl)
  | cons c s ih =>
    rw [List.mem_cons, not_or] at h
    rw [escapeText_cons, List.append_assoc, cut?_escapedClose_escapeChar (Ne.symm h.1), ih h.2]
    rfl

theorem escapeText_write_rawInclude (b : List Char) :
    escapeText (Form.rawInclude.write b) = Form.escapedInclude.write (escapeText b) := by
  have hopen : escapeText Form.rawInclude.opener = Form.escapedInclude.opener := by decide
  have hclose : escapeText Form.rawInclude.closer = Form.escapedInclude.closer := by decide
  rw [Form.write, escapeText_append, escapeText_append, hopen, hclose, Form.write]

/-- **Includes in text.** A raw include tag is read as a whole, and so is its text after it has been
escaped, with the same kind. It is the same path just where what follows the first colon has no
no-break space. -/
theorem escaped_include_iff {b : List Char} (h : isIncludeBody b = true) :
    let tag := Form.rawInclude.write b
    let text := escapeText tag
    ∃ kind path p q, b = kind ++ ':' :: path ∧ ':' ∉ kind ∧
      findFrom tag 0 = .ok (some ⟨0, byteLength tag, .file (String.ofList kind) p⟩) ∧
      findFrom text 0 = .ok (some ⟨0, byteLength text, .file (String.ofList kind) q⟩) ∧
      (p = q ↔ '\u00A0' ∉ path) := by
  intro tag text
  obtain ⟨kind, path, hb⟩ := isIncludeBody_iff.1 h
  have hgt : '>' ∉ b := fun hc => (hb.plain _ hc).2.1 rfl
  have hraw : cut? Form.rawInclude.closer (b ++ Form.rawInclude.closer) = some (b, []) := by
    simpa [Form.closer] using cut?_rawClose h []
  have hescaped : cut? Form.escapedInclude.closer (escapeText b ++ Form.escapedInclude.closer) =
      some (escapeText b, []) := by
    simpa [Form.closer] using cut?_escapedClose hgt []
  have hcounts : isIncludeBody (escapeText b) = true :=
    isIncludeBody_iff.2 ⟨kind, escapeText path, hb.escapeText⟩
  refine ⟨kind, path, String.ofList (trim path),
    String.ofList (replaceAll "&amp;".toList ['&'] (trim (escapeText path))), hb.eq,
    fun hc => absurd (hb.alphanumeric _ hc) (by decide), ?_, ?_, ?_⟩
  · rw [findFrom_write (.inr h) hraw, Form.read, hb.read]
    rfl
  · rw [show text = Form.escapedInclude.write (escapeText b) from escapeText_write_rawInclude b,
      findFrom_write (.inr hcounts) hescaped, Form.read, hb.escapeText.read]
    rfl
  · rw [String.ofList_inj]
    exact decode_trim_iff hb.plain_path

/-- A path that holds an entity as text, with a blank that is trimmed off and one that is written as
an entity. -/
theorem escaped_include_with_space :
    let b := "md: a&gt;\u00A0b.md".toList
    let tag := Form.rawInclude.write b
    let text := escapeText tag
    isIncludeBody b = true ∧ ∃ kind path p q, b = kind ++ ':' :: path ∧ ':' ∉ kind ∧
      findFrom tag 0 = .ok (some ⟨0, byteLength tag, .file (String.ofList kind) p⟩) ∧
      findFrom text 0 = .ok (some ⟨0, byteLength text, .file (String.ofList kind) q⟩) ∧
      (p = q ↔ '\u00A0' ∉ path) :=
  ⟨rfl, escaped_include_iff rfl⟩

end Tag

end StaticSite
