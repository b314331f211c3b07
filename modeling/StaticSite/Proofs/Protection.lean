import StaticSite.Proofs.FirstTag
import StaticSite.Source

/-!
Raw include tags, and the escaped spelling that they are given.

Proved here, for every text:

* `apart_tag`: raw include tags do not overlap;
* `protect_append`, `includes_append_iff`: where no tag lies across the border of two texts, both
  rewriting and the places of tags go text by text;
* `exists_stretches`: rewriting changes the delimiters of all raw include tags and nothing else;
* `tagsOfLines_lists`: where no other opener stands, searching line by line finds just these tags.
-/

namespace StaticSite

open Text

namespace Tag

/-! ## Raw include tags -/

/-- The body of an include holds no angle bracket and no line feed, and is not empty. -/
theorem isIncludeBody_plain {b : List Char} (h : isIncludeBody b = true) :
    '<' ∉ b ∧ '>' ∉ b ∧ '\n' ∉ b ∧ b ≠ [] := by
  unfold isIncludeBody at h
  split at h
  · simp at h
  · next kind path hcut =>
    simp only [Bool.and_eq_true, List.all_eq_true, bne_iff_ne] at h
    refine ⟨fun hc => (h.2 _ hc).1.1 rfl, fun hc => (h.2 _ hc).1.2 rfl,
      fun hc => (h.2 _ hc).2 rfl, ?_⟩
    rintro rfl
    simp [cutAt?] at hcut

/-- In front of the first angle bracket of a text there is none. -/
theorem append_ne_append_of_brackets {b u s t : List Char} (hb : '<' ∉ b) (hu : '>' ∉ u) :
    b ++ '>' :: s ≠ u ++ '<' :: t := by
  intro h
  rcases List.append_eq_append_iff.1 h with ⟨w, rfl, hw⟩ | ⟨w, rfl, hw⟩
  · cases w with
    | nil => simp at hw
    | cons c w =>
      obtain ⟨rfl, -⟩ := List.cons.inj hw
      simp at hu
  · cases w with
    | nil => simp at hw
    | cons c w =>
      obtain ⟨rfl, -⟩ := List.cons.inj hw
      simp at hb

theorem write_rawInclude (b : List Char) :
    Form.rawInclude.write b = '<' :: '<' :: '<' :: (b ++ '>' :: ['>', '>']) := by
  simp [Form.write, Form.opener, Form.closer, rawOpen, rawClose]

/-- No raw include tag starts behind the first character of another, be it behind one, two or all
three of the brackets of its opener. -/
theorem rawOpen_ne_tail {b x y v s : List Char} (hb : isIncludeBody b = true)
    (h : Form.rawInclude.write b = x ++ y) (hx : x ≠ []) (hy : y ≠ []) :
    y ++ v ≠ '<' :: '<' :: '<' :: s := by
  have hlt : '<' ∉ b := (isIncludeBody_plain hb).1
  have hbody : ∀ t, b ++ '>' :: t ≠ '<' :: s := fun t =>
    append_ne_append_of_brackets hlt List.not_mem_nil
  rw [write_rawInclude] at h
  rcases x with _ | ⟨c₁, _ | ⟨c₂, _ | ⟨c₃, x⟩⟩⟩
  · exact absurd rfl hx
  · obtain rfl := (List.cons.inj h).2
    intro e
    exact hbody (['>', '>'] ++ v) (by simpa using e)
  · obtain rfl := (List.cons.inj (List.cons.inj h).2).2
    intro e
    have : b ++ '>' :: (['>', '>'] ++ v) = '<' :: '<' :: s := by simpa using e
    exact append_ne_append_of_brackets hlt List.not_mem_nil this
  · have h3 : b ++ ['>', '>', '>'] = x ++ y := by
      simpa using (List.cons.inj (List.cons.inj (List.cons.inj h).2).2).2
    obtain ⟨c, y, rfl⟩ := List.exists_cons_of_ne_nil hy
    intro e
    obtain ⟨rfl, -⟩ := List.cons.inj e
    have : '<' ∈ b ++ ['>', '>', '>'] := by simp [h3]
    simp [hlt] at this

theorem cut?_rawClose {b : List Char} (hb : isIncludeBody b = true) (r : List Char) :
    cut? rawClose (b ++ (rawClose ++ r)) = some (b, r) := by
  have hclose : cut? rawClose (rawClose ++ r) = some ([], r) :=
    cut?_of_after? (after?_eq_some_iff.2 rfl)
  refine (cut?_append_of_not_mem (isIncludeBody_plain hb).2.1 (rawClose ++ r)).trans ?_
  rw [← rawClose, hclose]
  simp

theorem write_rawInclude_inj {b b' r r' : List Char} (hb : isIncludeBody b = true)
    (hb' : isIncludeBody b' = true)
    (h : Form.rawInclude.write b ++ r = Form.rawInclude.write b' ++ r') : b = b' ∧ r = r' := by
  have e : b ++ (rawClose ++ r) = b' ++ (rawClose ++ r') := by
    simpa [Form.write, Form.opener, Form.closer] using h
  have := cut?_rawClose hb r
  rw [e, cut?_rawClose hb'] at this
  simpa [eq_comm] using this

/-- No raw include tag that starts in `a` goes on in `s`, which follows. -/
def Apart (a s : List Char) : Prop :=
  ∀ x y b v, a = x ++ y → y ≠ [] → isIncludeBody b = true →
    y ++ s = Form.rawInclude.write b ++ v → ∃ z, y = Form.rawInclude.write b ++ z

/-- **Raw include tags do not overlap.** -/
theorem apart_tag {b : List Char} (hb : isIncludeBody b = true) (s : List Char) :
    Apart (Form.rawInclude.write b) s := by
  intro x y b' v hxy hy hb' e
  by_cases hx : x = []
  · subst hx
    obtain rfl : y = Form.rawInclude.write b := hxy.symm
    obtain ⟨rfl, -⟩ := write_rawInclude_inj hb hb' e
    exact ⟨[], (List.append_nil _).symm⟩
  · rw [write_rawInclude b'] at e
    exact absurd e (rawOpen_ne_tail hb hxy hx hy)

theorem apart_singleton {c : Char} {s : List Char}
    (h : ∀ b v, isIncludeBody b = true → c :: s ≠ Form.rawInclude.write b ++ v) :
    Apart [c] s := by
  intro x y b v hxy hy hb e
  cases x with
  | nil =>
    obtain rfl : y = [c] := hxy.symm
    exact absurd e (h b v hb)
  | cons d x => exact absurd (List.append_eq_nil_iff.1 (List.cons.inj hxy).2.symm).2 hy

/-- In front of an opener a text ends without a tag that goes on. -/
theorem apart_rawOpen (a s : List Char) : Apart a ('<' :: '<' :: '<' :: s) := by
  intro x y b v hxy hy hb e
  rcases List.append_eq_append_iff.1 e with ⟨z, hw, hz⟩ | ⟨z, rfl, -⟩
  · by_cases hne : z = []
    · subst hne
      exact ⟨[], by simpa using hw.symm⟩
    · exact absurd hz.symm (rawOpen_ne_tail hb hw hy hne)
  · exact ⟨z, rfl⟩

theorem Apart.tail {a s : List Char} {c : Char} (h : Apart (c :: a) s) : Apart a s :=
  fun x y b v e => h (c :: x) y b v (by simp [e])

theorem Apart.drop {a x s : List Char} (h : Apart (x ++ a) s) : Apart a s :=
  fun x' y b v e => h (x ++ x') y b v (by simp [e])

/-! ## Rewriting -/

theorem protect_tag {b : List Char} (hb : isIncludeBody b = true) (r : List Char) :
    protect (Form.rawInclude.write b ++ r) = Form.escapedInclude.write b ++ protect r := by
  have ho : after? rawOpen (Form.rawInclude.write b ++ r) = some (b ++ (rawClose ++ r)) :=
    after?_eq_some_iff.2 (by simp [Form.write, Form.opener, Form.closer])
  rw [write_rawInclude, List.cons_append] at ho ⊢
  rw [protect]
  split
  · next h => exact absurd (h.symm.trans ho) (by simp)
  · next r' h =>
    obtain rfl : b ++ (rawClose ++ r) = r' := Option.some.inj (ho.symm.trans h)
    split
    · next h' => simp [cut?_rawClose hb] at h'
    · next b' r'' h' =>
      obtain ⟨rfl, rfl⟩ : b = b' ∧ r = r'' := by simpa [cut?_rawClose hb] using h'
      rw [if_pos hb]
      rfl

theorem protect_cons {c : Char} {s : List Char}
    (h : ∀ b v, isIncludeBody b = true → c :: s ≠ Form.rawInclude.write b ++ v) :
    protect (c :: s) = c :: protect s := by
  rw [protect]
  split
  · rfl
  · next r ho =>
    split
    · rfl
    · next b r' hc =>
      have hs : c :: s = Form.rawInclude.write b ++ r' := by
        rw [after?_eq_some_iff.1 ho, eq_of_cut? hc]
        simp [Form.write, Form.opener, Form.closer]
      rw [if_neg fun hb => h b r' hb hs]

/-- Induction along the steps of the rewriting: a text is empty, starts with a raw include tag, or
has a first character that starts none. -/
@[elab_as_elim]
theorem tag_induction {motive : List Char → Prop} (nil : motive [])
    (tag : ∀ b r, isIncludeBody b = true → motive r → motive (Form.rawInclude.write b ++ r))
    (char : ∀ c r, (∀ b v, isIncludeBody b = true → c :: r ≠ Form.rawInclude.write b ++ v) →
      motive r → motive (c :: r)) (s : List Char) : motive s := by
  induction hn : s.length using Nat.strongRecOn generalizing s with
  | _ n ih =>
    subst hn
    by_cases h : ∃ b r, isIncludeBody b = true ∧ s = Form.rawInclude.write b ++ r
    · obtain ⟨b, r, hb, rfl⟩ := h
      have hlt : r.length < (Form.rawInclude.write b ++ r).length := by
        rw [write_rawInclude]
        simp only [List.cons_append, List.length_cons, List.length_append]
        omega
      exact tag b r hb (ih r.length hlt r rfl)
    · cases s with
      | nil => exact nil
      | cons c r =>
        exact char c r (fun b v hb e => h ⟨b, v, hb, e⟩) (ih r.length (by simp) r rfl)

/-- **Text by text.** Where no raw include tag lies across the border of two texts, each is
rewritten by itself. -/
theorem protect_append {a s : List Char} (h : Apart a s) :
    protect (a ++ s) = protect a ++ protect s := by
  induction a using tag_induction with
  | nil => simp [protect]
  | tag b r hb ih =>
    rw [List.append_assoc, protect_tag hb, protect_tag hb, ih h.drop, List.append_assoc]
  | char c r hc ih =>
    have hs : ∀ b v, isIncludeBody b = true → c :: (r ++ s) ≠ Form.rawInclude.write b ++ v := by
      intro b v hb e
      obtain ⟨z, hz⟩ := h [] (c :: r) b v rfl (List.cons_ne_nil _ _) hb e
      exact hc b z hb hz
    rw [List.cons_append, protect_cons hs, protect_cons hc, ih h.tail, List.cons_append]

/-! ## Places of tags -/

/-- A raw include tag stands in the text after `p` bytes. -/
def Includes (s : List Char) (p : Nat) (body : List Char) : Prop :=
  isIncludeBody body = true ∧
    ∃ a b, s = a ++ (Form.rawInclude.write body ++ b) ∧ byteLength a = p

theorem includes_append_iff {a s body : List Char} {p : Nat} (h : Apart a s) :
    Includes (a ++ s) p body ↔
      Includes a p body ∨ ∃ q, p = byteLength a + q ∧ Includes s q body := by
  constructor
  · rintro ⟨hb, u, v, e, rfl⟩
    rcases List.append_eq_append_iff.1 e with ⟨z, rfl, hz⟩ | ⟨z, rfl, hz⟩
    · exact .inr ⟨byteLength z, by simp, hb, z, v, hz, rfl⟩
    · by_cases hne : z = []
      · subst hne
        exact .inr ⟨0, by simp, hb, [], v, by simpa using hz.symm, rfl⟩
      · obtain ⟨w, rfl⟩ := h u z body v rfl hne hb hz.symm
        exact .inl ⟨hb, u, w, rfl, rfl⟩
  · rintro (⟨hb, u, v, rfl, rfl⟩ | ⟨q, rfl, hb, u, v, rfl, rfl⟩)
    · exact ⟨hb, u, v ++ s, by simp, rfl⟩
    · exact ⟨hb, a ++ u, v, by simp, by simp⟩

theorem not_includes_nil (p : Nat) (body : List Char) : ¬ Includes [] p body := by
  rintro ⟨-, a, b, e, -⟩
  rw [write_rawInclude] at e
  simp at e

theorem includes_tag_iff {b body : List Char} {p : Nat} (hb : isIncludeBody b = true) :
    Includes (Form.rawInclude.write b) p body ↔ p = 0 ∧ body = b := by
  constructor
  · rintro ⟨hbody, x, v, e, rfl⟩
    by_cases hx : x = []
    · subst hx
      have e' : Form.rawInclude.write b ++ [] = Form.rawInclude.write body ++ v := by simpa using e
      exact ⟨rfl, (write_rawInclude_inj hb hbody e').1.symm⟩
    · have hy : Form.rawInclude.write body ++ v ≠ [] := by simp [write_rawInclude]
      have hne := rawOpen_ne_tail (v := []) (s := body ++ '>' :: ['>', '>'] ++ v) hb e hx hy
      exact absurd (by simp [write_rawInclude]) hne
  · rintro ⟨rfl, rfl⟩
    exact ⟨hb, [], [], by simp, rfl⟩

theorem not_includes_singleton {c : Char} (p : Nat) (body : List Char) : ¬ Includes [c] p body := by
  rintro ⟨-, a, b, e, -⟩
  have := congrArg List.length e
  simp only [write_rawInclude, List.length_append, List.length_cons] at this
  simp at this
  omega

/-- Of two raw include tags of a text, one ends before the other starts. -/
theorem Includes.apart {s b c : List Char} {p q : Nat} (hb : Includes s p b) (hc : Includes s q c)
    (hle : p ≤ q) : p = q ∧ b = c ∨ p + byteLength (Form.rawInclude.write b) ≤ q := by
  obtain ⟨hb, a, r, rfl, rfl⟩ := hb
  obtain ⟨hc, a', r', e, rfl⟩ := hc
  obtain ⟨x, rfl, hx⟩ := exists_append_of_byteLength_le e hle
  rcases List.append_eq_append_iff.1 hx with ⟨z, rfl, -⟩ | ⟨z, hw, hz⟩
  · exact .inr (by simp)
  · by_cases hxn : x = []
    · subst hxn
      exact .inl ⟨by simp, (write_rawInclude_inj hb hc hx).1⟩
    · by_cases hzn : z = []
      · subst hzn
        exact .inr (by simp [hw])
      · rw [write_rawInclude c] at hz
        exact absurd hz.symm (rawOpen_ne_tail hb hw hxn hzn)

/-- `list n` holds what `g` makes of the raw include tags of a text that starts after `n` bytes. -/
def Lists {α : Type} (g : Nat → List Char → α) (s : List Char) (list : Nat → List α) : Prop :=
  ∀ n x, x ∈ list n ↔ ∃ p body, Includes s p body ∧ x = g (n + p) body

section Lists

variable {α : Type} (g : Nat → List Char → α)

theorem lists_none {s : List Char} (h : ∀ p body, ¬ Includes s p body) : Lists g s fun _ => [] := by
  simp [Lists, h]

theorem lists_tag {b : List Char} (hb : isIncludeBody b = true) :
    Lists g (Form.rawInclude.write b) fun n => [g n b] := by
  intro n x
  simp only [List.mem_singleton, includes_tag_iff hb]
  constructor
  · rintro rfl
    exact ⟨0, b, ⟨rfl, rfl⟩, rfl⟩
  · rintro ⟨p, body, ⟨rfl, rfl⟩, rfl⟩
    rfl

variable {g} in
/-- The tags of two texts are listed one text after the other. -/
theorem Lists.append {a s : List Char} {f l : Nat → List α} (ha : Lists g a f) (hs : Lists g s l)
    (h : Apart a s) : Lists g (a ++ s) fun n => f n ++ l (n + byteLength a) := by
  intro n x
  rw [List.mem_append, ha, hs]
  simp only [includes_append_iff h]
  constructor
  · rintro (⟨p, body, hp, rfl⟩ | ⟨p, body, hp, rfl⟩)
    · exact ⟨p, body, .inl hp, rfl⟩
    · exact ⟨byteLength a + p, body, .inr ⟨p, rfl, hp⟩, by rw [Nat.add_assoc]⟩
  · rintro ⟨p, body, hp | ⟨q, rfl, hq⟩, rfl⟩
    · exact .inl ⟨p, body, hp, rfl⟩
    · exact .inr ⟨q, body, hq, by rw [Nat.add_assoc]⟩

end Lists

/-! ## Stretches of a text -/

/-- A part of a text: plain text that is kept, or an include tag with this body. -/
inductive Stretch where
  | plain (s : List Char)
  | file (body : List Char)

namespace Stretch

/-- A part with its tag in this form. -/
def write (f : Form) : Stretch → List Char
  | plain s => s
  | file body => f.write body

/-- The tags among the parts of a text that starts after `n` bytes, with their places. -/
def tags : List Stretch → Nat → List (Nat × List Char)
  | [], _ => []
  | plain s :: rest, n => tags rest (n + byteLength s)
  | file body :: rest, n => (n, body) :: tags rest (n + byteLength (Form.rawInclude.write body))

end Stretch

/-- **Rewriting.** A text is made of raw include tags and of what stands between them; it is
rewritten by writing the tags in the escaped form. -/
theorem exists_stretches (s : List Char) :
    ∃ ps : List Stretch, s = ps.flatMap (Stretch.write .rawInclude) ∧
      protect s = ps.flatMap (Stretch.write .escapedInclude) ∧
      Lists Prod.mk s (Stretch.tags ps) := by
  induction s using tag_induction with
  | nil => exact ⟨[], rfl, by simp [protect], lists_none _ not_includes_nil⟩
  | tag b r hb ih =>
    obtain ⟨ps, hraw, hesc, htags⟩ := ih
    refine ⟨.file b :: ps, ?_, ?_, (lists_tag _ hb).append htags (apart_tag hb r)⟩
    · rw [List.flatMap_cons, ← hraw]
      rfl
    · rw [protect_tag hb, hesc]
      rfl
  | char c r hc ih =>
    obtain ⟨ps, hraw, hesc, htags⟩ := ih
    refine ⟨.plain [c] :: ps, ?_, ?_,
      (lists_none _ not_includes_singleton).append htags (apart_singleton hc)⟩
    · rw [List.flatMap_cons, ← hraw]
      rfl
    · rw [protect_cons hc, hesc]
      rfl

/-! ## What the search finds -/

theorem starts_of_tag {b : List Char} (hb : isIncludeBody b = true) (r : List Char) :
    Starts (Form.rawInclude.write b ++ r) .rawInclude b r := by
  refine starts_iff.2 ⟨b ++ (rawClose ++ r), Form.at?_eq_some_iff.2 ?_, cut?_rawClose hb r, .inr hb⟩
  simp [Form.write, Form.closer]

/-- No other opener than that of raw include tags stands in a text. -/
structure OnlyRaw (s : List Char) : Prop where
  reference : ¬ Form.reference.opener <:+: s
  escaped : ¬ Form.escapedInclude.opener <:+: s

theorem OnlyRaw.part {s t : List Char} (h : OnlyRaw t) (hs : s <:+: t) : OnlyRaw s :=
  ⟨fun ho => h.reference (ho.trans hs), fun ho => h.escaped (ho.trans hs)⟩

theorem OnlyRaw.tag {x y body rest : List Char} {f : Form} (h : OnlyRaw (x ++ y))
    (hy : Starts y f body rest) :
    f = .rawInclude ∧ isIncludeBody body = true ∧ y = Form.rawInclude.write body ++ rest := by
  have hopen : f.opener <:+: x ++ y := ⟨x, body ++ f.closer ++ rest, by rw [hy.eq]; simp⟩
  cases f with
  | reference => exact absurd hopen h.reference
  | escapedInclude => exact absurd hopen h.escaped
  | rawInclude => exact ⟨rfl, hy.counts.resolve_left (by simp), hy.write⟩

theorem NoneWithin.not_includes {a s : List Char} (h : NoneWithin a s) (p : Nat)
    (body : List Char) : ¬ Includes a p body := by
  rintro ⟨hb, x, v, rfl, -⟩
  refine h x (Form.rawInclude.write body ++ v) rfl (by simp [write_rawInclude]) .rawInclude body
    (v ++ s) ?_
  rw [List.append_assoc]
  exact starts_of_tag hb _

/-- The answer for a raw include tag that stands after `n` bytes. -/
def includeMatch? (n : Nat) (body : List Char) : Option Match :=
  (ofIncludeBody? false body).map fun tag =>
    ⟨n, n + byteLength (Form.rawInclude.write body), tag⟩

/-- **The search.** Where no other opener stands in a text, all of its raw include tags are found,
and nothing else. -/
theorem scanFrom_lists {s : List Char} (h : OnlyRaw s) :
    (∀ n, (scanFrom n s).2 = none) ∧
      Lists includeMatch? s fun n => (scanFrom n s).1.map some := by
  induction hn : s.length using Nat.strongRecOn generalizing s with
  | _ n ih =>
    subst hn
    rcases noneWithin_or_exists_starts s with hs | ⟨x, y, f, body, rest, rfl, hx, hy⟩
    · have hscan := fun n => scanFrom_none n (find_of_noneWithin hs)
      refine ⟨fun n => congrArg Prod.snd (hscan n), ?_⟩
      simp only [hscan]
      exact lists_none _ hs.not_includes
    · obtain ⟨rfl, hb, rfl⟩ := h.tag hy
      obtain ⟨tag, htag⟩ := isSome_ofIncludeBody? false hb
      have hfind : find (x ++ (Form.rawInclude.write body ++ rest)) =
          .ok (some ⟨x, Form.rawInclude.write body, rest, tag⟩) := by
        rw [find_append hx, find_of_starts hy]
        simp [Form.read, htag, Except.map, Found.behind]
      have hrest : OnlyRaw rest := h.part ⟨x ++ Form.rawInclude.write body, [], by simp⟩
      obtain ⟨hnone, hlist⟩ := ih rest.length (length_after_lt hfind) hrest rfl
      have hscan := fun n => scanFrom_some n hfind
      simp only [hscan]
      refine ⟨fun n => hnone _, ?_⟩
      have hx' : Apart x (Form.rawInclude.write body ++ rest) := by
        rw [write_rawInclude]
        exact apart_rawOpen x _
      have := (lists_none includeMatch? hx.not_includes).append
        ((lists_tag includeMatch? hb).append hlist (apart_tag hb rest)) hx'
      simpa [Found.toMatch, includeMatch?, htag] using this

/-- The tags of lines, searched line by line, with their places in the whole text. -/
def tagsOfLines : List (List Char) → Nat → List Match
  | [], _ => []
  | line :: rest, n =>
    (scan line).1.map (Match.shift n) ++ tagsOfLines rest (n + byteLength line)

theorem scanFrom_shift (n k : Nat) (s : List Char) :
    (scanFrom (n + k) s).1 = (scanFrom k s).1.map (Match.shift n) := by
  induction hn : s.length using Nat.strongRecOn generalizing s k with
  | _ l ih =>
    subst hn
    cases hf : find s with
    | error e => simp [scanFrom_error _ hf]
    | ok o =>
      cases o with
      | none => simp [scanFrom_none _ hf]
      | some f =>
        have hshift : f.toMatch (n + k) = (f.toMatch k).shift n := by
          simp [Found.toMatch, Match.shift, Nat.add_assoc]
        rw [scanFrom_some _ hf, scanFrom_some _ hf, hshift]
        exact congrArg _ (ih f.after.length (length_after_lt hf) (f.toMatch k).stop f.after rfl)

/-- A raw include tag does not go on behind a line feed. -/
theorem apart_newline (l s : List Char) : Apart (l ++ ['\n']) s := by
  intro x y b v hxy hy hb e
  rcases List.append_eq_append_iff.1 e with ⟨z, hw, -⟩ | ⟨z, rfl, -⟩
  · have hlast : '\n' ∈ y := by
      obtain ⟨y', d, rfl⟩ := (List.eq_nil_or_concat y).resolve_left hy
      have := congrArg List.getLast? hxy
      simp only [List.concat_eq_append, ← List.append_assoc, List.getLast?_concat] at this
      obtain rfl := Option.some.inj this
      simp
    have hmem : '\n' ∈ Form.rawInclude.write b := by
      rw [hw]
      exact List.mem_append_left z hlast
    have hb' := (isIncludeBody_plain hb).2.2.1
    simp [write_rawInclude, hb'] at hmem
  · exact ⟨z, rfl⟩

theorem apart_line {s line r : List Char} {rest : List (List Char)} (h : lines s = line :: rest)
    (hr : rest = lines r) (hcount : rest ≠ [] → line.count '\n' = 1) : Apart line r := by
  by_cases hne : rest = []
  · have hnil : r = [] := by
      have := flatten_lines r
      rw [← hr, hne] at this
      exact this.symm
    subst hnil
    exact fun x y b v _ _ _ e => ⟨v, by simpa using e⟩
  · have hmem : '\n' ∈ line := List.count_pos_iff.1 (by rw [hcount hne]; exact Nat.one_pos)
    have hlast : '\n' ∉ line.dropLast := no_newline_in_line (by rw [h]; exact List.mem_cons_self)
    have hline : line ≠ [] := List.ne_nil_of_mem hmem
    have hend : line.getLast hline = '\n' := by
      rw [← List.dropLast_concat_getLast hline, List.mem_append] at hmem
      simpa [eq_comm] using hmem.resolve_left hlast
    rw [← List.dropLast_concat_getLast hline, hend]
    exact apart_newline _ r

theorem tagsOfLines_lists {s : List Char} (h : OnlyRaw s) :
    Lists includeMatch? s fun n => (tagsOfLines (lines s) n).map some := by
  induction hl : lines s generalizing s with
  | nil =>
    have hs : s = [] := by
      have := flatten_lines s
      rw [hl] at this
      exact this.symm
    subst hs
    exact lists_none _ not_includes_nil
  | cons line rest ih =>
    obtain ⟨r, rfl, hr, hcount⟩ := lines_eq_cons hl
    have hline := (scanFrom_lists (h.part (s := line) ⟨[], r, by simp⟩)).2
    have hrest := ih (h.part (s := r) ⟨line, [], by simp⟩) hr.symm
    have := hline.append hrest (apart_line hl hr hcount)
    have hscan : ∀ n, (scan line).1.map (Match.shift n) = (scanFrom n line).1 :=
      fun n => (scanFrom_shift n 0 line).symm
    simpa only [tagsOfLines, List.map_append, hscan] using this

/-- **Protection and search agree.** The raw include tags of a text do not overlap. The text is made
of them and of what stands between them, and protecting it writes just these tags in the escaped
form. Where no other opener stands in the text, searching its lines one by one finds these tags
and nothing else. -/
theorem protectIncludes_tags (markup : String) :
    (∀ p q b c, Includes markup.toList p b → Includes markup.toList q c →
      p = q ∧ b = c ∨ p + byteLength (Form.rawInclude.write b) ≤ q ∨
        q + byteLength (Form.rawInclude.write c) ≤ p) ∧
    (∃ ps : List Stretch, markup.toList = ps.flatMap (Stretch.write .rawInclude) ∧
      (protectIncludes markup).toList = ps.flatMap (Stretch.write .escapedInclude) ∧
      ∀ p body, (p, body) ∈ Stretch.tags ps 0 ↔ Includes markup.toList p body) ∧
    (¬ Form.reference.opener <:+: markup.toList → ¬ Form.escapedInclude.opener <:+: markup.toList →
      (∀ line ∈ lines markup.toList, Calls line 0 (scan line).1 none) ∧
      ∀ m : Match, m ∈ tagsOfLines (lines markup.toList) 0 ↔
        ∃ body, Includes markup.toList m.start body ∧
          m.stop = m.start + byteLength (Form.rawInclude.write body) ∧
          ofIncludeBody? false body = some m.tag) := by
  refine ⟨fun p q b c hb hc => ?_, ?_, fun href hesc => ?_⟩
  · rcases Nat.le_total p q with hle | hle
    · rcases hb.apart hc hle with h | h
      · exact .inl h
      · exact .inr (.inl h)
    · rcases hc.apart hb hle with ⟨h, h'⟩ | h
      · exact .inl ⟨h.symm, h'.symm⟩
      · exact .inr (.inr h)
  · obtain ⟨ps, hraw, hesc, htags⟩ := exists_stretches markup.toList
    refine ⟨ps, hraw, by rw [protectIncludes, String.toList_ofList, hesc], fun p body => ?_⟩
    simp [htags 0 (p, body)]
  · have hs : OnlyRaw markup.toList := ⟨href, hesc⟩
    constructor
    · intro line hline
      have hinfix : line <:+: markup.toList := by
        rw [← flatten_lines markup.toList]
        exact List.infix_of_mem_flatten hline
      have hcalls := calls_scan line
      rw [scan, (scanFrom_lists (hs.part hinfix)).1 0] at hcalls
      exact hcalls
    · intro m
      have hlist := tagsOfLines_lists hs 0 (some m)
      constructor
      · intro hm
        obtain ⟨p, body, hp, e⟩ := hlist.1 (List.mem_map_of_mem hm)
        obtain ⟨tag, htag, rfl⟩ := Option.map_eq_some_iff.1 e.symm
        rw [Nat.zero_add]
        exact ⟨body, hp, rfl, htag⟩
      · rintro ⟨body, hp, hstop, htag⟩
        have hm : includeMatch? (0 + m.start) body = some m := by
          simp [includeMatch?, htag, ← hstop]
        simpa using hlist.2 ⟨m.start, body, hp, hm.symm⟩

end Tag

end StaticSite
