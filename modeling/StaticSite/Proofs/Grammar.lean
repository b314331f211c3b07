import Mathlib.Data.List.DropRight
import StaticSite.Proofs.Components
import StaticSite.Proofs.Expressions

/-!
The grammar of variable tags, and references written as tags.

An expression is a name, or two parts with a colon between them. Proved here:

* `trim_trim`: what has been trimmed stays as it is;
* `splitOn_eq_singleton_iff`, `splitOn_eq_pair_iff`, `length_splitOn`: the parts of a text by its
  separators;
* `closes_of`: where the braces of a tag close;
* `exists_body_of_findFrom`: a reference that was found has an expression without the closer;
* `Reference.read_write`: such a reference is read back from its tag;
* `reference_grammar`: what a tag is read to, for every expression, and what is found in any line.
-/

namespace StaticSite

/-! ## Trimmed texts and parts -/

namespace Text

theorem trim_eq (s : List Char) : trim s = (s.dropWhile isBlank).rdropWhile isBlank := rfl

/-- The first character that is left has not been dropped, so it is not blank. -/
theorem trim_trim (s : List Char) : trim (trim s) = trim s := by
  have hstart : (trim s).dropWhile isBlank = trim s := by
    rw [List.dropWhile_eq_self_iff]
    intro hpos
    have hpre : trim s <+: s.dropWhile isBlank := List.rdropWhile_prefix isBlank _
    rw [hpre.getElem hpos]
    exact List.dropWhile_get_zero_not isBlank s (Nat.lt_of_lt_of_le hpos hpre.length_le)
  rw [trim_eq (trim s), hstart, trim_eq s, List.rdropWhile_idempotent]

theorem trim_infix_self (s : List Char) : trim s <:+: s := by
  obtain ⟨l, r, h, -, -⟩ := exists_trim s
  exact ⟨l, r, h.symm⟩

theorem length_splitOn (c : Char) (s : List Char) : (s.splitOn c).length = s.count c + 1 := by
  induction s with
  | nil => rfl
  | cons d s ih =>
    rw [List.splitOn_cons_eq_if_modifyHead]
    by_cases h : d = c
    · simp [h, ih]
    · simp [h, ih]

theorem infix_of_mem_splitOn {c : Char} {s p : List Char} (h : p ∈ s.splitOn c) : p <:+: s := by
  have hinfix {ps : List (List Char)} (hp : p ∈ ps) : p <:+: [c].intercalate ps := by
    induction ps with
    | nil => cases hp
    | cons q ps ih =>
      cases ps with
      | nil => simpa using (List.mem_singleton.1 hp) ▸ List.infix_refl p
      | cons r rs =>
        rw [List.intercalate_cons_cons]
        rcases List.mem_cons.1 hp with rfl | hp
        · exact ⟨[], [c] ++ [c].intercalate (r :: rs), by simp⟩
        · exact (ih hp).trans (List.suffix_append _ _).isInfix
  have := hinfix h
  rwa [List.intercalate_splitOn] at this

theorem splitOn_eq_singleton_iff {c : Char} {s x : List Char} :
    s.splitOn c = [x] ↔ s = x ∧ c ∉ s := by
  constructor
  · intro h
    have hx : [c].intercalate (s.splitOn c) = s := List.intercalate_splitOn c
    have hc := length_splitOn c s
    rw [h] at hx hc
    exact ⟨by simpa using hx.symm, List.count_eq_zero.1 (by simpa using hc.symm)⟩
  · rintro ⟨rfl, h⟩
    exact List.splitOn_eq_singleton h

theorem splitOn_eq_pair_iff {c : Char} {s x y : List Char} :
    s.splitOn c = [x, y] ↔ s = x ++ c :: y ∧ c ∉ x ∧ c ∉ y := by
  constructor
  · intro h
    have hs : [c].intercalate (s.splitOn c) = s := List.intercalate_splitOn c
    have hmem (p : List Char) (hp : p ∈ s.splitOn c) : c ∉ p :=
      not_mem_of_mem_splitOn (by rwa [splitOn_eq])
    rw [h] at hs hmem
    exact ⟨by simpa [List.intercalate] using hs.symm, hmem x (by simp), hmem y (by simp)⟩
  · rintro ⟨rfl, hx, hy⟩
    rw [List.splitOn_append_cons_self, List.splitOn_eq_singleton hx, List.splitOn_eq_singleton hy]
    rfl

/-- A text that does not hold a separator stands on one of its sides: if it begins before the
separator, it ends before it. -/
theorem infix_append_cons {u a b : List Char} {c : Char} (hc : c ∉ u) (h : u <:+: a ++ c :: b) :
    u <:+: a ∨ u <:+: b := by
  obtain ⟨x, y, h⟩ := h
  have hout {w v : List Char} (e : c :: b = w ++ v) (hw : ∀ d ∈ w, d ∈ u) : w = [] := by
    cases w with
    | nil => rfl
    | cons d w =>
      obtain ⟨rfl, -⟩ := List.cons.inj e
      exact absurd (hw c List.mem_cons_self) hc
  rcases List.append_eq_append_iff.1 h with ⟨t, ha, -⟩ | ⟨t, hxu, ht⟩
  · exact .inl ⟨x, t, ha.symm⟩
  rcases List.append_eq_append_iff.1 hxu with ⟨w, ha, hu⟩ | ⟨w, hx, htw⟩
  · obtain rfl := hout ht fun d hd => by simp [hu, hd]
    exact .inl ⟨x, [], by rw [ha, hu]; simp⟩
  · rw [htw, List.append_assoc] at ht
    cases w with
    | nil =>
      obtain rfl : u = [] := hout ht fun _ hd => hd
      exact .inl List.nil_infix
    | cons d w =>
      obtain ⟨-, hb⟩ := List.cons.inj ht
      exact .inr ⟨w, y, by rw [hb, List.append_assoc]; rfl⟩

theorem infix_intercalate {u : List Char} {c : Char} {ps : List (List Char)} (hc : c ∉ u)
    (hne : ps ≠ []) (h : u <:+: [c].intercalate ps) : ∃ p ∈ ps, u <:+: p := by
  induction ps with
  | nil => exact absurd rfl hne
  | cons p ps ih =>
    cases ps with
    | nil => exact ⟨p, List.mem_cons_self, by simpa using h⟩
    | cons q qs =>
      rw [List.intercalate_cons_cons, List.append_assoc, List.singleton_append] at h
      rcases infix_append_cons hc h with h | h
      · exact ⟨p, List.mem_cons_self, h⟩
      · obtain ⟨r, hr, hu⟩ := ih (List.cons_ne_nil _ _) h
        exact ⟨r, List.mem_cons_of_mem _ hr, hu⟩

end Text

open Text

namespace Tag

/-! ## Braces -/

/-- The braces of a tag close at its end only if the expression neither holds the closer nor ends in
a brace: an earlier closer would stand in the expression, or begin with braces at its end. -/
theorem closes_of {e : List Char} (h : ¬ Form.reference.closer <:+: e)
    (hlast : e.getLast? ≠ some '}') : Closes e := by
  rw [Closes, cut?_eq_some_iff]
  refine ⟨by simp, fun x y hxy => Nat.le_of_not_lt fun hlt => ?_⟩
  rcases List.append_eq_append_iff.1 (List.append_assoc x _ y ▸ hxy) with ⟨t, hx, -⟩ | ⟨t, he, hy⟩
  · rw [hx, List.length_append] at hlt
    omega
  · have hends {t : List Char} : t.getLast? = some '}' → e ≠ x ++ t := by
      rintro ht rfl
      exact hlast (by rw [List.getLast?_append, ht]; rfl)
    rcases t with _ | ⟨c₁, _ | ⟨c₂, _ | ⟨c₃, t⟩⟩⟩
    · rw [he, List.append_nil] at hlt
      exact Nat.lt_irrefl _ hlt
    · obtain ⟨rfl, -⟩ := List.cons.inj hy
      exact hends rfl he
    · obtain ⟨rfl, hy₁⟩ := List.cons.inj hy
      obtain ⟨rfl, -⟩ := List.cons.inj hy₁
      exact hends rfl he
    · obtain ⟨rfl, hy₁⟩ := List.cons.inj hy
      obtain ⟨rfl, hy₂⟩ := List.cons.inj hy₁
      obtain ⟨rfl, -⟩ := List.cons.inj hy₂
      exact h ⟨x, t, by rw [he, List.append_assoc]; rfl⟩

theorem Form.read_eq_reference_iff {f : Form} {body : List Char} {v : Reference} :
    f.read body = .ok (some (.reference v)) ↔ f = .reference ∧ readReference body = .ok v := by
  have hfile (escaped : Bool) : ofIncludeBody? escaped body ≠ some (.reference v) := by
    unfold ofIncludeBody?
    split
    · cases cutAt? ':' body <;> simp
    · simp
  cases f with
  | reference => cases h : readReference body <;> simp [Form.read, h, Except.map]
  | rawInclude => simp [Form.read, hfile]
  | escapedInclude => simp [Form.read, hfile]

/-- A reference that was found has an expression without the closer, as its body goes up to the
first closer only. -/
theorem exists_body_of_findFrom {line : List Char} {offset : Nat} {m : Match} {v : Reference}
    (h : findFrom line offset = .ok (some m)) (hv : m.tag = .reference v) :
    ∃ body, ¬ Form.reference.closer <:+: body ∧ readReference body = .ok v := by
  have hsplit : ∃ a b, line = a ++ b ∧ byteLength a = offset := by
    unfold findFrom at h
    split at h
    · cases h
    · next a b hab => exact ⟨a, b, eq_of_splitAtByte? hab⟩
  obtain ⟨a, b, rfl, rfl⟩ := hsplit
  rcases findFrom_cases a b with ⟨-, h'⟩ | ⟨_, _, _, -, -, h'⟩ | ⟨m', f, body, hfirst, hread, -, h'⟩
  · exact absurd (h.symm.trans h') (by simp)
  · exact absurd (h.symm.trans h') (by simp)
  obtain rfl : m = m' := Option.some.inj (Except.ok.inj (h.symm.trans h'))
  obtain ⟨⟨_, r, rest, -, -, hcut⟩, -⟩ := hfirst.stands
  rw [hv, Form.read_eq_reference_iff] at hread
  obtain ⟨rfl, hread⟩ := hread
  refine ⟨body, ?_, hread⟩
  rintro ⟨x, y, hbody⟩
  have hle := hcut.least x (y ++ Form.reference.closer ++ rest) (by rw [hcut.eq, ← hbody]; simp)
  rw [← hbody] at hle
  simp only [List.length_append] at hle
  have : Form.reference.closer.length = 3 := rfl
  omega

end Tag

open Tag

/-! ## References as text -/

namespace Reference

variable {v : Reference} {e : List Char}

/-- A reference as a tag: its parts with a colon between them, and a blank inside the braces. -/
def write (v : Reference) : List Char :=
  Form.reference.write (' ' :: [':'].intercalate v.parts ++ [' '])

/-- The parts of a reference that has been read are those of an expression. -/
theorem parts_of_read (h : readReference e = .ok v) :
    v.WellFormed ∧ v.parts = (e.splitOn ':').map trim := by
  obtain ⟨hv, hparts⟩ := readReference_eq_ok_iff.1 h
  rw [← hparts, Tag.parts, splitOn_eq]
  exact ⟨hv, rfl⟩

theorem WellFormed.parts_ne_nil (h : v.WellFormed) : ∀ p ∈ v.parts, p ≠ [] := by
  cases v <;> simp_all [WellFormed, parts]

theorem exists_of_mem_parts (h : readReference e = .ok v) {p : List Char} (hp : p ∈ v.parts) :
    p <:+: e ∧ trim p = p ∧ ':' ∉ p := by
  rw [(parts_of_read h).2] at hp
  obtain ⟨q, hq, rfl⟩ := List.mem_map.1 hp
  refine ⟨(trim_infix_self q).trans (infix_of_mem_splitOn hq), trim_trim q, fun hc => ?_⟩
  exact not_mem_of_mem_splitOn (by rwa [splitOn_eq]) ((trim_infix_self q).subset hc)

/-- **Printing.** A reference is read back from its tag, if it has been read from an expression
without the closer. This holds neither blank nor colon, so it would stand in one of the parts. -/
theorem read_write (h : readReference e = .ok v) (he : ¬ Form.reference.closer <:+: e) :
    findFrom v.write 0 = .ok (some ⟨0, byteLength v.write, .reference v⟩) := by
  have hparts : v.parts ≠ [] := by cases v <;> simp [parts]
  refine findFrom_write_iff.2 ⟨closes_of (fun hin => ?_) ?_, ?_⟩
  · have hblank : ' ' ∉ Form.reference.closer := by decide
    rcases infix_append_cons (a := []) hblank hin with hin | hin
    · cases List.eq_nil_of_infix_nil hin
    rcases infix_append_cons hblank hin with hin | hin
    · obtain ⟨p, hp, hin⟩ := infix_intercalate (by decide) hparts hin
      exact he (hin.trans (exists_of_mem_parts h hp).1)
    · cases List.eq_nil_of_infix_nil hin
  · rw [List.getLast?_concat]
    simp
  · obtain ⟨hv, -⟩ := parts_of_read h
    rw [readReference_eq_ok_iff]
    refine ⟨hv, ?_⟩
    have htrim : trim (' ' :: [':'].intercalate v.parts ++ [' ']) =
        trim ([':'].intercalate v.parts) := by
      have hblank : ∀ c ∈ [' '], isBlank c = true := List.forall_mem_singleton.2 (by decide)
      rw [trim_append_blank _ hblank]
      exact trim_blank_append _ hblank
    calc Tag.parts (' ' :: [':'].intercalate v.parts ++ [' '])
        = Tag.parts ([':'].intercalate v.parts) := by rw [← parts_trim, htrim, parts_trim]
      _ = v.parts.map trim := by
        rw [Tag.parts, splitOn_eq,
          List.splitOn_intercalate _ (fun p hp => (exists_of_mem_parts h hp).2.2) hparts]
      _ = v.parts := by
        conv_rhs => rw [← List.map_id v.parts]
        exact List.map_congr_left fun p hp => (exists_of_mem_parts h hp).2.1

end Reference

namespace Tag

variable {b : List Char}

/-! ## Expressions and their references -/

theorem parts_eq_pair_iff {f l : List Char} :
    parts b = [f, l] ↔
      ∃ x y, b = x ++ ':' :: y ∧ ':' ∉ x ∧ ':' ∉ y ∧ trim x = f ∧ trim y = l := by
  rw [parts, splitOn_eq]
  constructor
  · intro h
    obtain ⟨x, ps, hs, rfl, hps⟩ := List.map_eq_cons_iff.1 h
    obtain ⟨y, qs, rfl, rfl, hqs⟩ := List.map_eq_cons_iff.1 hps
    obtain rfl := List.map_eq_nil_iff.1 hqs
    obtain ⟨hb, hx, hy⟩ := splitOn_eq_pair_iff.1 hs
    exact ⟨x, y, hb, hx, hy, rfl, rfl⟩
  · rintro ⟨x, y, hb, hx, hy, rfl, rfl⟩
    rw [splitOn_eq_pair_iff.2 ⟨hb, hx, hy⟩]
    rfl

theorem read_name_iff {n : String} :
    readReference b = .ok (.name n) ↔ ':' ∉ b ∧ trim b = n.toList ∧ n ≠ "" := by
  rw [readReference_eq_ok_iff, parts, splitOn_eq]
  constructor
  · rintro ⟨hn, hparts⟩
    obtain ⟨x, ps, hs, hx, hps⟩ := List.map_eq_cons_iff.1 hparts
    obtain rfl := List.map_eq_nil_iff.1 hps
    obtain ⟨rfl, hb⟩ := splitOn_eq_singleton_iff.1 hs
    exact ⟨hb, hx, hn⟩
  · rintro ⟨hb, hx, hn⟩
    rw [splitOn_eq_singleton_iff.2 ⟨rfl, hb⟩, List.map_singleton, hx]
    exact ⟨hn, rfl⟩

theorem read_item_iff {l : String} :
    readReference b = .ok (.item l) ↔ l ≠ "" ∧ ∃ x y,
      b = x ++ ':' :: y ∧ ':' ∉ x ∧ ':' ∉ y ∧ trim x = ['#'] ∧ trim y = l.toList := by
  rw [readReference_eq_ok_iff, Reference.parts, parts_eq_pair_iff]
  rfl

theorem read_field_iff {f l : String} :
    readReference b = .ok (.field f l) ↔ (f ≠ "" ∧ f ≠ "#" ∧ l ≠ "") ∧ ∃ x y,
      b = x ++ ':' :: y ∧ ':' ∉ x ∧ ':' ∉ y ∧ trim x = f.toList ∧ trim y = l.toList := by
  rw [readReference_eq_ok_iff, Reference.parts, parts_eq_pair_iff]
  rfl

theorem read_error_iff :
    (∃ fault, readReference b = .error fault) ↔
      2 ≤ b.count ':' ∨ ∃ p ∈ b.splitOn ':', trim p = [] := by
  have hread : (∃ fault, readReference b = .error fault) ↔ ¬ ∃ v, readReference b = .ok v := by
    cases readReference b <;> simp
  have hlength : (parts b).length = b.count ':' + 1 := by
    rw [parts, splitOn_eq, List.length_map, length_splitOn]
  rw [hread, exists_readReference_iff, hlength, parts, splitOn_eq, List.forall_mem_map]
  simp only [ne_eq, not_and_or, not_forall, not_not, exists_prop]
  rw [show ¬ b.count ':' + 1 ≤ 2 ↔ 2 ≤ b.count ':' by omega]

/-- **The grammar of variable tags.** A tag whose expression neither holds three closing braces nor
ends in one is looked at as a whole. It is a name if there is no colon and something is left of the
expression when it is trimmed, an item or a field if there is one colon with something on both
sides, and an error, with the whole tag as its text, if there are more colons or nothing is left of
some part. Of every reference that is found in a line the parts are trimmed, not empty and without
colons, no field is named as the items are, and the reference is read back from its own tag. -/
theorem reference_grammar :
    (∀ b : List Char, ¬ Form.reference.closer <:+: b → b.getLast? ≠ some '}' →
      let tag := Form.reference.write b
      let whole (v : Reference) : Except TagError (Option Match) :=
        .ok (some ⟨0, byteLength tag, .reference v⟩)
      ((∃ v, findFrom tag 0 = whole v) ∨ ∃ fault, findFrom tag 0 = .error ⟨String.ofList tag, fault⟩) ∧
      (∀ n, findFrom tag 0 = whole (.name n) ↔ ':' ∉ b ∧ trim b = n.toList ∧ n ≠ "") ∧
      (∀ l, findFrom tag 0 = whole (.item l) ↔ l ≠ "" ∧ ∃ x y,
        b = x ++ ':' :: y ∧ ':' ∉ x ∧ ':' ∉ y ∧ trim x = ['#'] ∧ trim y = l.toList) ∧
      (∀ f l, findFrom tag 0 = whole (.field f l) ↔ (f ≠ "" ∧ f ≠ "#" ∧ l ≠ "") ∧ ∃ x y,
        b = x ++ ':' :: y ∧ ':' ∉ x ∧ ':' ∉ y ∧ trim x = f.toList ∧ trim y = l.toList) ∧
      ((∃ e, findFrom tag 0 = .error e) ↔
        2 ≤ b.count ':' ∨ ∃ p ∈ b.splitOn ':', trim p = [])) ∧
    ∀ line offset m v, findFrom line offset = .ok (some m) → m.tag = .reference v →
      (∀ p ∈ v.parts, p ≠ [] ∧ trim p = p ∧ ':' ∉ p) ∧ (∀ l, v ≠ .field "#" l) ∧
      findFrom v.write 0 = .ok (some ⟨0, byteLength v.write, .reference v⟩) := by
  constructor
  · intro b hb hlast tag whole
    have hclose : Closes b := closes_of hb hlast
    have hfind : findFrom tag 0 = match readReference b with
        | .ok v => whole v
        | .error fault => .error ⟨String.ofList tag, fault⟩ := by
      have := findFrom_write (f := .reference) (.inl rfl) hclose
      cases hr : readReference b <;> simpa [Form.read, hr, Except.map] using this
    have hwhole (v : Reference) : findFrom tag 0 = whole v ↔ readReference b = .ok v :=
      findFrom_write_iff.trans (and_iff_right hclose)
    refine ⟨?_, fun n => (hwhole _).trans read_name_iff, fun l => (hwhole _).trans read_item_iff,
      fun f l => (hwhole _).trans read_field_iff, ?_⟩
    · rw [hfind]
      cases readReference b with
      | ok v => exact .inl ⟨v, rfl⟩
      | error fault => exact .inr ⟨fault, rfl⟩
    · rw [← read_error_iff, hfind]
      cases readReference b <;> simp [whole]
  · intro line offset m v h hv
    obtain ⟨e, he, hread⟩ := exists_body_of_findFrom h hv
    obtain ⟨hv, -⟩ := Reference.parts_of_read hread
    refine ⟨fun p hp => ⟨hv.parts_ne_nil p hp, (Reference.exists_of_mem_parts hread hp).2⟩, ?_,
      Reference.read_write hread he⟩
    rintro l rfl
    exact hv.2.1 rfl

/-- A field whose name ends in a brace, with blanks that are trimmed off. -/
theorem spaced_field_read_back :
    let b := " a\x7d :b\u00A0".toList
    let tag := Form.reference.write b
    let v : Reference := .field "a\x7d" "b"
    ¬ Form.reference.closer <:+: b ∧ b.getLast? ≠ some '}' ∧
      findFrom tag 0 = .ok (some ⟨0, byteLength tag, .reference v⟩) ∧
      findFrom v.write 0 = .ok (some ⟨0, byteLength v.write, .reference v⟩) := by
  have hin : ¬ Form.reference.closer <:+: " a\x7d :b\u00A0".toList := by decide +kernel
  have hlast : " a\x7d :b\u00A0".toList.getLast? ≠ some '}' := by decide
  have hfound := ((reference_grammar.1 _ hin hlast).2.2.2.1 "a\x7d" "b").2
    ⟨by decide, " a\x7d ".toList, "b\u00A0".toList, rfl, by decide, by decide, rfl, rfl⟩
  exact ⟨hin, hlast, hfound, (reference_grammar.2 _ 0 _ (.field "a\x7d" "b") hfound rfl).2.2⟩

end Tag

end StaticSite
