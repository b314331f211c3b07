import StaticSite.Proofs.Protection

/-!
Protecting a text that has been protected before.

The first pass takes away the angle brackets of the tags that it rewrites, so that brackets around
such a tag can enclose the body of a tag only then. Proved here, for every text:

* `protect_eq_self_iff`: a pass keeps just the texts without a raw include tag;
* `exists_of_protect_eq_append`: each angle bracket that a pass leaves stood in the text before;
* `protectIncludes_twice_iff`: a second pass changes nothing exactly if no brackets enclose a text
  that is the body of a tag once it has been protected, and is none before;
* `enclosing_brackets_protected`: a text with such brackets.
-/

namespace StaticSite

open Text

namespace Tag

/-! ## Texts that a pass keeps -/

/-- A raw include tag stands in the text. -/
def HasTag (s : List Char) : Prop :=
  ∃ a b r, isIncludeBody b = true ∧ s = a ++ (Form.rawInclude.write b ++ r)

theorem protect_around (a b r : List Char) (hb : isIncludeBody b = true) :
    protect (a ++ (Form.rawInclude.write b ++ r)) =
      protect a ++ (Form.escapedInclude.write b ++ protect r) := by
  have ha : Apart a (Form.rawInclude.write b ++ r) := by
    rw [write_rawInclude]
    exact apart_rawOpen a _
  rw [protect_append ha, protect_tag hb]

theorem length_write_lt (b : List Char) :
    (Form.rawInclude.write b).length < (Form.escapedInclude.write b).length := by
  simp only [Form.write, List.length_append]
  have ho : Form.rawInclude.opener.length < Form.escapedInclude.opener.length := by decide
  have hc : Form.rawInclude.closer.length < Form.escapedInclude.closer.length := by decide
  omega

theorem length_le_protect (s : List Char) : s.length ≤ (protect s).length := by
  induction s using tag_induction with
  | nil => simp
  | tag b r hb ih =>
    have := length_write_lt b
    rw [protect_tag hb, List.length_append, List.length_append]
    omega
  | char c r hc ih =>
    rw [protect_cons hc, List.length_cons, List.length_cons]
    omega

theorem eq_nil_of_protect {s : List Char} (h : protect s = []) : s = [] := by
  have := length_le_protect s
  rw [h] at this
  exact List.length_eq_zero_iff.1 (Nat.le_zero.1 this)

theorem protect_eq_self_iff {s : List Char} : protect s = s ↔ ¬ HasTag s := by
  constructor
  · rintro h ⟨a, b, r, hb, rfl⟩
    have hlen := congrArg List.length h
    have := length_le_protect a
    have := length_le_protect r
    have := length_write_lt b
    rw [protect_around a b r hb] at hlen
    simp only [List.length_append] at hlen
    omega
  · intro h
    induction s using tag_induction with
    | nil => simp [protect]
    | tag b r hb ih => exact absurd ⟨[], b, r, hb, rfl⟩ h
    | char c r hc ih =>
      have hr : ¬ HasTag r := by
        rintro ⟨a, b, r', hb, rfl⟩
        exact h ⟨c :: a, b, r', hb, rfl⟩
      rw [protect_cons hc, ih hr]

/-! ## The brackets that a pass leaves -/

/-- An angle bracket. -/
def IsBracket (c : Char) : Prop := c = '<' ∨ c = '>'

theorem bracket_not_mem_escaped {b : List Char} {d : Char} (hd : IsBracket d)
    (hb : isIncludeBody b = true) : d ∉ Form.escapedInclude.write b := by
  obtain ⟨hlt, hgt, -, -⟩ := isIncludeBody_plain hb
  rcases hd with rfl | rfl
  · simp [Form.write, Form.opener, Form.closer, escapedOpen, escapedClose, hlt]
  · simp [Form.write, Form.opener, Form.closer, escapedOpen, escapedClose, hgt]

/-- An angle bracket that a pass leaves stood in the text, and what stands before and after it was
protected by itself. -/
theorem exists_of_protect_eq_append {s x y : List Char} {d : Char} (hd : IsBracket d)
    (h : protect s = x ++ d :: y) : ∃ a c, s = a ++ d :: c ∧ protect a = x ∧ protect c = y := by
  induction s using tag_induction generalizing x with
  | nil => simp [protect] at h
  | tag b r hb ih =>
    rw [protect_tag hb] at h
    have hx : ∃ z, x = Form.escapedInclude.write b ++ z ∧ protect r = z ++ d :: y := by
      rcases List.append_eq_append_iff.1 h with ⟨z, hx, hr⟩ | ⟨z, hw, hr⟩
      · exact ⟨z, hx, hr⟩
      · cases z with
        | nil => exact ⟨[], by simpa using hw.symm, by simpa using hr.symm⟩
        | cons e z =>
          obtain ⟨rfl, -⟩ := List.cons.inj hr
          exact absurd (by simp [hw]) (bracket_not_mem_escaped hd hb)
    obtain ⟨z, rfl, hr⟩ := hx
    obtain ⟨a, c, rfl, ha, hc⟩ := ih hr
    exact ⟨Form.rawInclude.write b ++ a, c, by simp, by rw [protect_tag hb, ha], hc⟩
  | char c r hc ih =>
    rw [protect_cons hc] at h
    cases x with
    | nil =>
      obtain ⟨rfl, hr⟩ := List.cons.inj h
      exact ⟨[], r, rfl, by simp [protect], hr⟩
    | cons e x =>
      obtain ⟨rfl, hr⟩ := List.cons.inj h
      obtain ⟨a, c', rfl, ha, hc'⟩ := ih hr
      have hca : ∀ b v, isIncludeBody b = true → c :: a ≠ Form.rawInclude.write b ++ v := by
        intro b v hb e
        exact hc b (v ++ d :: c') hb (by rw [← List.append_assoc, ← e]; rfl)
      exact ⟨c :: a, c', rfl, by rw [protect_cons hca, ha], hc'⟩

theorem exists_of_protect_eq_cons {s y : List Char} {d : Char} (hd : IsBracket d)
    (h : protect s = d :: y) : ∃ c, s = d :: c ∧ protect c = y := by
  obtain ⟨a, c, rfl, ha, hc⟩ := exists_of_protect_eq_append hd (x := []) h
  obtain rfl := eq_nil_of_protect ha
  exact ⟨c, rfl, hc⟩

/-- A raw include tag that is there after a pass was made from the same brackets. -/
theorem exists_of_protect_eq_tag {s x b y : List Char}
    (h : protect s = x ++ (Form.rawInclude.write b ++ y)) :
    ∃ a t c, s = a ++ (Form.rawInclude.write t ++ c) ∧ protect a = x ∧ protect t = b := by
  have hlt : IsBracket '<' := .inl rfl
  have hgt : IsBracket '>' := .inr rfl
  rw [write_rawInclude] at h
  simp only [List.cons_append, List.append_assoc] at h
  obtain ⟨a, s₁, rfl, ha, h₁⟩ := exists_of_protect_eq_append hlt h
  obtain ⟨s₂, rfl, h₂⟩ := exists_of_protect_eq_cons hlt h₁
  obtain ⟨s₃, rfl, h₃⟩ := exists_of_protect_eq_cons hlt h₂
  obtain ⟨t, s₄, rfl, ht, h₄⟩ := exists_of_protect_eq_append hgt h₃
  obtain ⟨s₅, rfl, h₅⟩ := exists_of_protect_eq_cons hgt h₄
  obtain ⟨c, rfl, -⟩ := exists_of_protect_eq_cons hgt h₅
  exact ⟨a, t, c, by simp [write_rawInclude], ha, ht⟩

/-! ## Brackets around a tag -/

theorem protect_cons_of_ne {c : Char} {s : List Char} (h : c ≠ '<') :
    protect (c :: s) = c :: protect s :=
  protect_cons fun b v _ e => h (by rw [write_rawInclude] at e; exact (List.cons.inj e).1)

/-- Where nothing but tags of a text has angle brackets, the text after it is protected by
itself. -/
theorem protect_append_of_not_mem {t s : List Char} (h : '<' ∉ protect t) :
    protect (t ++ s) = protect t ++ protect s := by
  induction t using tag_induction with
  | nil => simp [protect]
  | tag b r hb ih =>
    rw [protect_tag hb, List.mem_append, not_or] at h
    rw [List.append_assoc, protect_tag hb, protect_tag hb, ih h.2, List.append_assoc]
  | char c r hc ih =>
    rw [protect_cons hc, List.mem_cons, not_or] at h
    rw [List.cons_append, protect_cons_of_ne (Ne.symm h.1), protect_cons hc, ih h.2,
      List.cons_append]

/-- A text that a pass changes has a tag, in front of which no bracket is left. -/
theorem exists_open_of_protect_ne {t : List Char} (h : '>' ∉ protect t) (hne : protect t ≠ t) :
    ∃ u v, t = u ++ '<' :: '<' :: '<' :: v ∧ '>' ∉ u := by
  induction t using tag_induction with
  | nil => exact absurd (by simp [protect]) hne
  | tag b r hb ih => exact ⟨[], _, by rw [write_rawInclude]; rfl, List.not_mem_nil⟩
  | char c r hc ih =>
    rw [protect_cons hc] at h hne
    rw [List.mem_cons, not_or] at h
    have hr : protect r ≠ r := fun e => hne (by rw [e])
    obtain ⟨u, v, rfl, hu⟩ := ih h.2 hr
    exact ⟨c :: u, v, rfl, by simp [h.1, hu]⟩

/-- No tag starts where the third character is followed by an opening bracket before a closing
one. -/
theorem protect_cons_of_open {c : Char} {s u v : List Char} (h : s.drop 2 = u ++ '<' :: v)
    (hu : '>' ∉ u) : protect (c :: s) = c :: protect s := by
  refine protect_cons fun b w hb e => ?_
  rw [write_rawInclude] at e
  have hs : s.drop 2 = b ++ '>' :: (['>', '>'] ++ w) := by
    rw [(List.cons.inj e).2]
    simp
  exact append_ne_append_of_brackets (isIncludeBody_plain hb).1 hu (hs.symm.trans h)

/-- After one or two characters less, an opener is still followed by an opening bracket. -/
theorem exists_drop_open {u v : List Char} {k : Nat} (hk : k ≤ 2) (hu : '>' ∉ u) :
    ∃ u' v', (u ++ '<' :: '<' :: '<' :: v).drop k = u' ++ '<' :: v' ∧ '>' ∉ u' := by
  have hv : ∃ v', ('<' :: '<' :: '<' :: v).drop (k - u.length) = '<' :: v' := by
    obtain h | h | h : k - u.length = 0 ∨ k - u.length = 1 ∨ k - u.length = 2 := by omega
    all_goals exact ⟨_, by rw [h]; rfl⟩
  obtain ⟨v', hv'⟩ := hv
  exact ⟨u.drop k, v', by rw [List.drop_append, hv'], fun h => hu (List.mem_of_mem_drop h)⟩

/-- An opener is left where another follows before a closing bracket: what follows its third
character lies one character further on in each step. -/
theorem protect_open {u : List Char} (v : List Char) (hu : '>' ∉ u) :
    protect ('<' :: '<' :: '<' :: (u ++ '<' :: '<' :: '<' :: v)) =
      '<' :: '<' :: '<' :: protect (u ++ '<' :: '<' :: '<' :: v) := by
  obtain ⟨u₁, v₁, h₁, hu₁⟩ := exists_drop_open (v := v) (k := 1) (by decide) hu
  obtain ⟨u₂, v₂, h₂, hu₂⟩ := exists_drop_open (v := v) (k := 2) (by decide) hu
  rw [protect_cons_of_open (s := '<' :: '<' :: _) rfl hu,
    protect_cons_of_open (s := '<' :: _) h₁ hu₁, protect_cons_of_open h₂ hu₂]

/-- Brackets that enclose a tag are no tag: they are left, and what they enclose is protected. -/
theorem protect_enclosing {t : List Char} (a c : List Char) (ht : isIncludeBody (protect t) = true)
    (hnt : isIncludeBody t = false) :
    protect (a ++ (Form.rawInclude.write t ++ c)) =
      protect a ++ (Form.rawInclude.write (protect t) ++ protect c) := by
  obtain ⟨hlt, hgt, -, -⟩ := isIncludeBody_plain ht
  have hne : protect t ≠ t := fun e => by simp [e, hnt] at ht
  obtain ⟨u, v, htuv, hu⟩ := exists_open_of_protect_ne hgt hne
  have hclose : protect ('>' :: '>' :: '>' :: c) = '>' :: '>' :: '>' :: protect c := by
    rw [protect_cons_of_ne (by decide), protect_cons_of_ne (by decide),
      protect_cons_of_ne (by decide)]
  have hopen : protect ('<' :: '<' :: '<' :: (t ++ '>' :: '>' :: '>' :: c)) =
      '<' :: '<' :: '<' :: protect (t ++ '>' :: '>' :: '>' :: c) := by
    rw [htuv, List.append_assoc]
    exact protect_open _ hu
  have ha : Apart a (Form.rawInclude.write t ++ c) := by
    rw [write_rawInclude]
    exact apart_rawOpen a _
  rw [protect_append ha, write_rawInclude, write_rawInclude]
  simp only [List.cons_append, List.append_assoc, List.nil_append]
  rw [hopen, protect_append_of_not_mem hlt, hclose]

/-- A tag that had been there before would have been rewritten by the first pass. -/
theorem protect_protect_eq_iff {s : List Char} :
    protect (protect s) = protect s ↔
      ∀ a t c, s = a ++ (Form.rawInclude.write t ++ c) → isIncludeBody (protect t) = true →
        isIncludeBody t = true := by
  rw [protect_eq_self_iff]
  constructor
  · rintro h a t c rfl ht
    cases hnt : isIncludeBody t with
    | true => rfl
    | false =>
      exact absurd ⟨protect a, protect t, protect c, ht, protect_enclosing a c ht hnt⟩ h
  · rintro h ⟨x, b, y, hb, hxy⟩
    obtain ⟨a, t, c, rfl, rfl, rfl⟩ := exists_of_protect_eq_tag hxy
    rw [protect_around a t c (h a t c rfl hb)] at hxy
    have := List.append_cancel_left hxy
    rw [write_rawInclude] at this
    simp [Form.write, Form.opener, escapedOpen] at this

end Tag

/-- **Twice.** Protecting a protected text changes it exactly if, before the first pass, three
brackets on either side enclosed a text that is no body of a tag but becomes one in that pass, by
the rewriting of tags that stand in it. -/
theorem protectIncludes_twice_iff (markup : String) :
    protectIncludes (protectIncludes markup) = protectIncludes markup ↔
      ∀ a t c, markup.toList = a ++ (Tag.Form.rawInclude.write t ++ c) →
        Tag.isIncludeBody (Tag.protect t) = true → Tag.isIncludeBody t = true := by
  rw [← Tag.protect_protect_eq_iff]
  simp only [protectIncludes, String.toList_ofList]
  exact ⟨fun h => String.ofList_injective h, congrArg String.ofList⟩

/-- The brackets around the tag of `b.md` enclose a body only when that tag has been escaped. A
second pass rewrites them too, after which another path is read. -/
theorem enclosing_brackets_protected :
    let markup := "<<<md:x<<<md:b.md>>>y>>>"
    let once := "<<<md:x&lt;&lt;&lt;md:b.md&gt;&gt;&gt;y>>>"
    let twice := "&lt;&lt;&lt;md:x&lt;&lt;&lt;md:b.md&gt;&gt;&gt;y&gt;&gt;&gt;"
    protectIncludes markup = once ∧ protectIncludes (protectIncludes markup) = twice ∧
      protectIncludes (protectIncludes markup) ≠ protectIncludes markup ∧
      (Tag.findFrom once.toList 0).toOption =
        some (some ⟨0, 42, .file "md" "x&lt;&lt;&lt;md:b.md&gt;&gt;&gt;y"⟩) ∧
      (Tag.findFrom twice.toList 0).toOption =
        some (some ⟨0, 47, .file "md" "x&lt;&lt;&lt;md:b.md"⟩) := by
  intro markup once twice
  decide +kernel

end StaticSite
