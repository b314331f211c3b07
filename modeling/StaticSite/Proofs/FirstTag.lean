import StaticSite.Proofs.OnePass

/-!
The first tag of a line.

Several openers can stand in a line, overlap each other, lack their closers or enclose a body that
makes no tag. Proved here, for every line and every offset between two characters:

* `cut?_eq_some_iff`: a cut is made at the first occurrence of a pattern;
* `find_of_starts`, `find_append`: the search passes over the places where no tag starts, and the
  tag that starts at the first other place is the answer;
* `findFrom_first`: the answer of a search in terms of the places of the line, in bytes;
* `Calls.spans`: searches that go on behind the tag before find tags that do not overlap.
-/

namespace StaticSite

/-! ## First occurrences -/

namespace Text

/-- The text `s` is `b`, the pattern `p` and `r`, and `p` does not occur earlier. -/
structure FirstCut (p s b r : List Char) : Prop where
  eq : s = b ++ p ++ r
  least : ∀ x y, s = x ++ p ++ y → b.length ≤ x.length

theorem cut?_nil_eq_some_iff {p b r : List Char} :
    cut? p [] = some (b, r) ↔ p = [] ∧ b = [] ∧ r = [] := by
  cases p with
  | nil => simp [cut?, after?, eq_comm]
  | cons c p => simp [cut?, after?]

theorem cut?_of_after? {p s r : List Char} (h : after? p s = some r) : cut? p s = some ([], r) := by
  cases s with
  | nil => simp [cut?, h]
  | cons c s => simp [cut?, h]

theorem cut?_of_after?_eq_none {p s : List Char} {c : Char} (h : after? p (c :: s) = none) :
    cut? p (c :: s) = (cut? p s).map fun (b, r) => (c :: b, r) := by
  simp [cut?, h]

/-- Where a pattern does not stand at the start, each of its occurrences lies in the rest. -/
theorem exists_cons_of_after?_eq_none {p s x y : List Char} {c : Char}
    (h : after? p (c :: s) = none) (e : c :: s = x ++ p ++ y) :
    ∃ x', x = c :: x' ∧ s = x' ++ p ++ y := by
  cases x with
  | nil =>
    have : after? p (c :: s) = some y := after?_eq_some_iff.2 (by simpa using e)
    simp [h] at this
  | cons d x =>
    obtain ⟨rfl, htail⟩ := List.cons.inj e
    exact ⟨x, rfl, htail⟩

theorem cut?_eq_none_iff {p s : List Char} : cut? p s = none ↔ ∀ x y, s ≠ x ++ p ++ y := by
  induction s with
  | nil =>
    cases p with
    | nil => simp [cut?, after?]
    | cons c p => simp [cut?, after?]
  | cons c s ih =>
    cases h : after? p (c :: s) with
    | some r =>
      rw [cut?_of_after? h]
      have := after?_eq_some_iff.1 h
      simpa using ⟨[], r, by simpa using this⟩
    | none =>
      rw [cut?_of_after?_eq_none h, Option.map_eq_none_iff, ih]
      constructor
      · intro hs x y e
        obtain ⟨x', -, e'⟩ := exists_cons_of_after?_eq_none h e
        exact hs x' y e'
      · intro hs x y e
        exact hs (c :: x) y (by simp [e])

theorem cut?_eq_some_iff {p s b r : List Char} : cut? p s = some (b, r) ↔ FirstCut p s b r := by
  induction s generalizing b r with
  | nil =>
    rw [cut?_nil_eq_some_iff]
    constructor
    · rintro ⟨rfl, rfl, rfl⟩
      exact ⟨rfl, fun _ _ _ => Nat.zero_le _⟩
    · intro h
      simpa [and_assoc, and_left_comm] using h.eq.symm
  | cons c s ih =>
    cases h : after? p (c :: s) with
    | some r' =>
      rw [cut?_of_after? h, Option.some.injEq, Prod.mk.injEq]
      have hs := after?_eq_some_iff.1 h
      constructor
      · rintro ⟨rfl, rfl⟩
        exact ⟨by simpa using hs, fun _ _ _ => Nat.zero_le _⟩
      · intro hb
        have hlen : b.length ≤ 0 := hb.least [] r' (by simpa using hs)
        obtain rfl := List.length_eq_zero_iff.1 (Nat.le_zero.1 hlen)
        have := hb.eq
        rw [hs] at this
        exact ⟨rfl, by simpa using this⟩
    | none =>
      rw [cut?_of_after?_eq_none h]
      constructor
      · intro hm
        obtain ⟨⟨b', r'⟩, hc, e⟩ := Option.map_eq_some_iff.1 hm
        obtain ⟨rfl, rfl⟩ := Prod.mk.inj e
        have hb := ih.1 hc
        refine ⟨by simp [hb.eq], fun x y e => ?_⟩
        obtain ⟨x', rfl, e'⟩ := exists_cons_of_after?_eq_none h e
        simpa using hb.least x' y e'
      · intro hb
        obtain ⟨b', rfl, e'⟩ := exists_cons_of_after?_eq_none h hb.eq
        rw [ih.2 ⟨e', fun x y e => by simpa using hb.least (c :: x) y (by simp [e])⟩]
        rfl

/-- A text without the first character of a pattern is passed over. -/
theorem cut?_append_of_not_mem {c : Char} {p u : List Char} (h : c ∉ u) (s : List Char) :
    cut? (c :: p) (u ++ s) = (cut? (c :: p) s).map fun (b, r) => (u ++ b, r) := by
  induction u with
  | nil => simp
  | cons d u ih =>
    rw [List.mem_cons, not_or] at h
    have hd : after? (c :: p) (d :: (u ++ s)) = none := by simp [after?, h.1]
    rw [List.cons_append, cut?_of_after?_eq_none hd, ih h.2, Option.map_map]
    rfl

/-! ## Offsets between characters -/

/-- The byte offsets between two characters of a text, or at one of its ends. -/
def Boundary (s : List Char) (n : Nat) : Prop := ∃ a b, s = a ++ b ∧ byteLength a = n

theorem eq_nil_of_byteLength {s : List Char} (h : byteLength s = 0) : s = [] := by
  cases s with
  | nil => rfl
  | cons c s =>
    have := c.utf8Size_pos
    rw [byteLength_cons] at h
    omega

/-- Of two cuts of a text, the one at the larger offset goes further. -/
theorem exists_append_of_byteLength_le {a b u v : List Char} (h : a ++ b = u ++ v)
    (hle : byteLength a ≤ byteLength u) : ∃ x, u = a ++ x ∧ b = x ++ v := by
  rcases List.append_eq_append_iff.1 h with ⟨x, hu, hb⟩ | ⟨x, ha, hv⟩
  · exact ⟨x, hu, hb⟩
  · have hx : x = [] := by
      apply eq_nil_of_byteLength
      rw [ha, byteLength_append] at hle
      omega
    subst hx
    exact ⟨[], by simpa using ha.symm, by simpa using hv.symm⟩

theorem append_inj_of_byteLength {a b u v : List Char} (h : a ++ b = u ++ v)
    (he : byteLength a = byteLength u) : a = u ∧ b = v := by
  obtain ⟨x, rfl, rfl⟩ := exists_append_of_byteLength_le h (Nat.le_of_eq he)
  have hx : x = [] := by
    apply eq_nil_of_byteLength
    rw [byteLength_append] at he
    omega
  simp [hx]

end Text

open Text

namespace Tag

/-! ## Tags that start a text -/

/-- A tag as written. -/
def Form.write (f : Form) (body : List Char) : List Char := f.opener ++ body ++ f.closer

/-- A closed tag counts if it is a variable tag, or an include with a body of its grammar. -/
def Form.Counts (f : Form) (body : List Char) : Prop := f = .reference ∨ isIncludeBody body = true

/-- A tag that counts starts the text: the opener stands there, the body goes up to the first closer
behind it, and `rest` follows. -/
structure Starts (s : List Char) (f : Form) (body rest : List Char) : Prop where
  eq : s = f.opener ++ (body ++ f.closer ++ rest)
  least : ∀ x y, body ++ f.closer ++ rest = x ++ f.closer ++ y → body.length ≤ x.length
  counts : f.Counts body

/-- The openers start with different characters, so one form fits at most. -/
theorem Form.at?_eq_some_iff {s r : List Char} {f : Form} :
    Form.at? s = some (f, r) ↔ s = f.opener ++ r := by
  constructor
  · exact Form.eq_of_at?
  · rintro rfl
    cases f <;> simp [Form.at?, Form.all, Form.opener, rawOpen, escapedOpen, after?]

theorem starts_iff {s body rest : List Char} {f : Form} :
    Starts s f body rest ↔
      ∃ r, Form.at? s = some (f, r) ∧ cut? f.closer r = some (body, rest) ∧ f.Counts body := by
  constructor
  · intro h
    exact ⟨_, Form.at?_eq_some_iff.2 h.eq, cut?_eq_some_iff.2 ⟨rfl, h.least⟩, h.counts⟩
  · rintro ⟨r, hat, hcut, hc⟩
    have hr := cut?_eq_some_iff.1 hcut
    refine ⟨by rw [Form.at?_eq_some_iff.1 hat, hr.eq], fun x y e => ?_, hc⟩
    exact hr.least x y (by rw [← e]; exact hr.eq)

theorem Starts.write {s body rest : List Char} {f : Form} (h : Starts s f body rest) :
    s = f.write body ++ rest := by
  rw [h.eq, Form.write]
  simp

theorem Starts.unique {s body body' rest rest' : List Char} {f g : Form}
    (h : Starts s f body rest) (h' : Starts s g body' rest') :
    f = g ∧ body = body' ∧ rest = rest' := by
  obtain ⟨r, hat, hcut, -⟩ := starts_iff.1 h
  obtain ⟨r', hat', hcut', -⟩ := starts_iff.1 h'
  rw [hat, Option.some.injEq, Prod.mk.injEq] at hat'
  obtain ⟨rfl, rfl⟩ := hat'
  rw [hcut, Option.some.injEq, Prod.mk.injEq] at hcut'
  exact ⟨rfl, hcut'⟩

theorem isSome_ofIncludeBody? (escaped : Bool) {body : List Char} (h : isIncludeBody body = true) :
    ∃ tag, ofIncludeBody? escaped body = some tag := by
  rw [ofIncludeBody?, if_pos h]
  cases hc : cutAt? ':' body with
  | none => simp [isIncludeBody, hc] at h
  | some kp => exact ⟨_, rfl⟩

/-- The body of a tag is read to no tag exactly where the tag does not count. -/
theorem Form.read_eq_none_iff {f : Form} {body : List Char} :
    f.read body = .ok none ↔ ¬ f.Counts body := by
  have include_iff (escaped : Bool) :
      ofIncludeBody? escaped body = none ↔ ¬ isIncludeBody body = true := by
    constructor
    · intro h hb
      obtain ⟨tag, ht⟩ := isSome_ofIncludeBody? escaped hb
      simp [h] at ht
    · intro h
      rw [ofIncludeBody?, if_neg h]
  cases f with
  | reference =>
    cases h : readReference body <;> simp [Form.read, Form.Counts, h, Except.map]
  | rawInclude => simp [Form.read, Form.Counts, include_iff]
  | escapedInclude => simp [Form.read, Form.Counts, include_iff]

/-! ## The search -/

/-- A tag that was found behind a text. -/
def Found.behind (a : List Char) (f : Found) : Found := { f with before := a ++ f.before }

theorem find_of_starts {s body rest : List Char} {f : Form} (h : Starts s f body rest) :
    find s = match f.read body with
      | .error fault => .error ⟨String.ofList (f.write body), fault⟩
      | .ok tag => .ok (tag.map fun tag => ⟨[], f.write body, rest, tag⟩) := by
  obtain ⟨r, hat, hcut, hc⟩ := starts_iff.1 h
  cases s with
  | nil =>
    have := h.eq
    cases f <;> simp [Form.opener, rawOpen, escapedOpen] at this
  | cons c s =>
    rw [find]
    simp only [hat, hcut]
    cases hread : f.read body with
    | error fault => rfl
    | ok o =>
      cases o with
      | none => exact absurd hc (Form.read_eq_none_iff.1 hread)
      | some tag => rfl

theorem find_cons {s : List Char} {c : Char}
    (h : ∀ f body rest, ¬ Starts (c :: s) f body rest) :
    find (c :: s) = (find s).map (·.map (Found.behind [c])) := by
  rw [find]
  simp only
  split
  · rfl
  · next f r hat =>
    split
    · rfl
    · next body rest hcut =>
      have hnone : f.read body = .ok none :=
        Form.read_eq_none_iff.2 fun hc => h f body rest (starts_iff.2 ⟨r, hat, hcut, hc⟩)
      simp only [hnone]
      rfl

/-- No tag that counts starts within `a`, where `s` follows. -/
def NoneWithin (a s : List Char) : Prop :=
  ∀ x y, a = x ++ y → y ≠ [] → ∀ f body rest, ¬ Starts (y ++ s) f body rest

theorem noneWithin_nil (s : List Char) : NoneWithin [] s :=
  fun _ _ e hy => absurd (List.append_eq_nil_iff.1 e.symm).2 hy

theorem NoneWithin.tail {a s : List Char} {c : Char} (h : NoneWithin (c :: a) s) :
    NoneWithin a s :=
  fun x y e => h (c :: x) y (by simp [e])

theorem NoneWithin.cons {a s : List Char} {c : Char}
    (hc : ∀ f body rest, ¬ Starts (c :: (a ++ s)) f body rest) (h : NoneWithin a s) :
    NoneWithin (c :: a) s := by
  intro x y e hy
  cases x with
  | nil =>
    obtain rfl : y = c :: a := e.symm
    exact hc
  | cons d x => exact h x y (List.cons.inj e).2 hy

theorem find_append {a s : List Char} (h : NoneWithin a s) :
    find (a ++ s) = (find s).map (·.map (Found.behind a)) := by
  induction a with
  | nil =>
    rw [List.nil_append]
    cases find s with
    | error e => rfl
    | ok o => cases o <;> rfl
  | cons c a ih =>
    have hc : find (c :: (a ++ s)) = (find (a ++ s)).map (·.map (Found.behind [c])) :=
      find_cons (h [] (c :: a) rfl (List.cons_ne_nil _ _))
    rw [List.cons_append, hc, ih h.tail]
    cases find s with
    | error e => rfl
    | ok o => cases o <;> rfl

/-- No tag that counts stands in a text, or there is a first one. -/
theorem noneWithin_or_exists_starts (s : List Char) :
    NoneWithin s [] ∨ ∃ a b f body rest, s = a ++ b ∧ NoneWithin a b ∧ Starts b f body rest := by
  induction s with
  | nil => exact .inl (noneWithin_nil [])
  | cons c s ih =>
    by_cases hc : ∃ f body rest, Starts (c :: s) f body rest
    · obtain ⟨f, body, rest, h⟩ := hc
      exact .inr ⟨[], c :: s, f, body, rest, rfl, noneWithin_nil _, h⟩
    · have hc' : ∀ f body rest, ¬ Starts (c :: s) f body rest :=
        fun f body rest h => hc ⟨f, body, rest, h⟩
      rcases ih with hs | ⟨a, b, f, body, rest, rfl, ha, h⟩
      · exact .inl (.cons (by simpa using hc') hs)
      · exact .inr ⟨c :: a, b, f, body, rest, rfl, .cons hc' ha, h⟩

theorem find_of_noneWithin {s : List Char} (h : NoneWithin s []) : find s = .ok none := by
  have := find_append h
  rw [List.append_nil] at this
  rw [this]
  rfl

/-! ## Places of a line, in bytes -/

/-- An opener stands in the line after `p` bytes. -/
def Opens (line : List Char) (p : Nat) (f : Form) : Prop :=
  ∃ a b, line = a ++ (f.opener ++ b) ∧ byteLength a = p

/-- An opener stands in the line after `p` bytes with its closer behind it, and `body` goes up to
the first of those. -/
def Closed (line : List Char) (p : Nat) (f : Form) (body : List Char) : Prop :=
  ∃ a b rest, line = a ++ (f.opener ++ b) ∧ byteLength a = p ∧ FirstCut f.closer b body rest

/-- A closed tag that counts stands in the line after `p` bytes. -/
def Stands (line : List Char) (p : Nat) (f : Form) (body : List Char) : Prop :=
  Closed line p f body ∧ f.Counts body

/-- Of the closed tags that count, this one is the first from an offset on. -/
structure First (line : List Char) (offset p : Nat) (f : Form) (body : List Char) : Prop where
  stands : Stands line p f body
  le : offset ≤ p
  least : ∀ q g body', Stands line q g body' → offset ≤ q → p ≤ q

theorem stands_iff {line body : List Char} {p : Nat} {f : Form} :
    Stands line p f body ↔
      ∃ a b rest, line = a ++ b ∧ byteLength a = p ∧ Starts b f body rest := by
  constructor
  · rintro ⟨⟨a, b, rest, hline, hp, hb⟩, hc⟩
    refine ⟨a, _, rest, hline, hp, ?_⟩
    rw [hb.eq]
    exact ⟨rfl, fun x y e => hb.least x y (hb.eq.trans e), hc⟩
  · rintro ⟨a, b, rest, hline, hp, hb⟩
    exact ⟨⟨a, _, rest, by rw [hline, hb.eq], hp, rfl, hb.least⟩, hb.counts⟩

theorem Stands.unique {line body body' : List Char} {p : Nat} {f g : Form}
    (h : Stands line p f body) (h' : Stands line p g body') : f = g ∧ body = body' := by
  obtain ⟨a, b, rest, rfl, rfl, hb⟩ := stands_iff.1 h
  obtain ⟨a', b', rest', hline, hp, hb'⟩ := stands_iff.1 h'
  obtain ⟨rfl, rfl⟩ := append_inj_of_byteLength hline hp.symm
  obtain ⟨hf, hbody, -⟩ := hb.unique hb'
  exact ⟨hf, hbody⟩

theorem First.unique {line body body' : List Char} {offset p q : Nat} {f g : Form}
    (h : First line offset p f body) (h' : First line offset q g body') :
    p = q ∧ f = g ∧ body = body' := by
  obtain rfl : p = q :=
    Nat.le_antisymm (h.least q g body' h'.stands h'.le) (h'.least p f body h.stands h.le)
  exact ⟨rfl, h.stands.unique h'.stands⟩

/-- A tag that stands in the line `a ++ b` from the end of `a` on starts the text at some place of
`b`. -/
theorem Stands.exists_starts {a b body : List Char} {p : Nat} {f : Form}
    (h : Stands (a ++ b) p f body) (hp : byteLength a ≤ p) :
    ∃ x y rest, b = x ++ y ∧ byteLength (a ++ x) = p ∧ Starts y f body rest := by
  obtain ⟨u, y, rest, hline, rfl, hy⟩ := stands_iff.1 h
  obtain ⟨x, rfl, rfl⟩ := exists_append_of_byteLength_le hline hp
  exact ⟨x, y, rest, rfl, rfl, hy⟩

theorem not_stands_of_noneWithin {a b body : List Char} {p : Nat} {f : Form}
    (h : NoneWithin b []) (hp : byteLength a ≤ p) : ¬ Stands (a ++ b) p f body := by
  intro hs
  obtain ⟨x, y, rest, rfl, -, hy⟩ := hs.exists_starts hp
  have hne : y ≠ [] := by
    rintro rfl
    have := hy.eq
    cases f <;> simp [Form.opener, rawOpen, escapedOpen] at this
  exact h x y rfl hne f body rest (by rwa [List.append_nil])

/-- A tag that started earlier would start within `x`. -/
theorem first_of_noneWithin {x y body rest : List Char} {f : Form} (a : List Char)
    (hx : NoneWithin x y) (hy : Starts y f body rest) :
    First (a ++ (x ++ y)) (byteLength a) (byteLength (a ++ x)) f body := by
  refine ⟨stands_iff.2 ⟨a ++ x, y, rest, by simp, rfl, hy⟩, by simp, ?_⟩
  intro q g body' hq hle
  obtain ⟨u, v, rest', huv, rfl, hv⟩ := hq.exists_starts hle
  rcases List.append_eq_append_iff.1 huv with ⟨t, rfl, -⟩ | ⟨t, rfl, rfl⟩
  · simp
  · have ht : t = [] := Decidable.byContradiction fun hne => hx u t rfl hne g body' rest' hv
    simp [ht]

/-- Nothing that counts stands in the line `a ++ b` from the end of `a` on. -/
def Bare (a b : List Char) : Prop := ∀ p f body, byteLength a ≤ p → ¬ Stands (a ++ b) p f body

theorem bare_or_exists_first (a b : List Char) :
    Bare a b ∧ NoneWithin b [] ∨
      ∃ x y f body rest, b = x ++ y ∧ NoneWithin x y ∧ Starts y f body rest ∧
        First (a ++ b) (byteLength a) (byteLength (a ++ x)) f body := by
  rcases noneWithin_or_exists_starts b with h | ⟨x, y, f, body, rest, rfl, hx, hy⟩
  · exact .inl ⟨fun _ _ _ => not_stands_of_noneWithin h, h⟩
  · exact .inr ⟨x, y, f, body, rest, rfl, hx, hy, first_of_noneWithin a hx hy⟩

theorem findFrom_of_bare {a b : List Char} (h : Bare a b) :
    findFrom (a ++ b) (byteLength a) = .ok none := by
  rcases bare_or_exists_first a b with ⟨-, hb⟩ | ⟨x, y, f, body, rest, -, -, -, hfirst⟩
  · rw [find_of_findFrom, find_of_noneWithin hb]
    rfl
  · exact absurd hfirst.stands (h _ _ _ hfirst.le)

theorem findFrom_of_first {a b body : List Char} {p : Nat} {f : Form}
    (h : First (a ++ b) (byteLength a) p f body) :
    findFrom (a ++ b) (byteLength a) = match f.read body with
      | .error fault => .error ⟨String.ofList (f.write body), fault⟩
      | .ok tag => .ok (tag.map fun tag => ⟨p, p + byteLength (f.write body), tag⟩) := by
  rcases bare_or_exists_first a b with ⟨hb, -⟩ | ⟨x, y, g, body', rest, rfl, hx, hy, hfirst⟩
  · exact absurd h.stands (hb _ _ _ h.le)
  · obtain ⟨rfl, rfl, rfl⟩ := h.unique hfirst
    rw [find_of_findFrom, find_append hx, find_of_starts hy]
    cases f.read body with
    | error fault => rfl
    | ok o =>
      cases o with
      | none => rfl
      | some tag => simp [Except.map, Found.behind, Found.toMatch]

theorem Form.read_eq_error_iff {f : Form} {body : List Char} {fault : TagFault} :
    f.read body = .error fault ↔ f = .reference ∧ readReference body = .error fault := by
  cases f with
  | reference => cases h : readReference body <;> simp [Form.read, h, Except.map]
  | rawInclude => simp [Form.read]
  | escapedInclude => simp [Form.read]

/-- The answer of a search. -/
theorem findFrom_cases (a b : List Char) :
    let line := a ++ b
    let offset := byteLength a
    (Bare a b ∧ findFrom line offset = .ok none) ∨
    (∃ p body fault, First line offset p .reference body ∧ readReference body = .error fault ∧
      findFrom line offset = .error ⟨String.ofList (Form.reference.write body), fault⟩) ∨
    (∃ m f body, First line offset m.start f body ∧ f.read body = .ok (some m.tag) ∧
      m.stop = m.start + byteLength (f.write body) ∧ findFrom line offset = .ok (some m)) := by
  intro line offset
  rcases bare_or_exists_first a b with ⟨hb, -⟩ | ⟨x, y, f, body, rest, -, -, -, hfirst⟩
  · exact .inl ⟨hb, findFrom_of_bare hb⟩
  · have hfind := findFrom_of_first hfirst
    cases hr : f.read body with
    | error fault =>
      obtain ⟨rfl, hread⟩ := Form.read_eq_error_iff.1 hr
      rw [hr] at hfind
      exact .inr (.inl ⟨_, body, fault, hfirst, hread, hfind⟩)
    | ok o =>
      cases o with
      | none => exact absurd hfirst.stands.2 (Form.read_eq_none_iff.1 hr)
      | some tag =>
        rw [hr] at hfind
        exact .inr (.inr ⟨_, f, body, hfirst, hr, rfl, hfind⟩)

/-! ## Spans -/

/-- A tag of a line that follows `n` bytes of another text. -/
def Match.shift (n : Nat) (m : Match) : Match := ⟨n + m.start, n + m.stop, m.tag⟩

theorem findFrom_append (a b : List Char) :
    findFrom (a ++ b) (byteLength a) = (findFrom b 0).map (·.map (Match.shift (byteLength a))) := by
  have hb : findFrom b 0 = (find b).map (·.map (Found.toMatch 0)) := find_of_findFrom [] b
  rw [find_of_findFrom, hb]
  cases find b with
  | error e => rfl
  | ok o =>
    cases o with
    | none => rfl
    | some f => simp [Except.map, Found.toMatch, Match.shift, Nat.add_assoc]

theorem eq_of_splitAtByte? {n : Nat} {s a r : List Char} (h : splitAtByte? n s = some (a, r)) :
    s = a ++ r ∧ byteLength a = n := by
  induction s generalizing n a r with
  | nil =>
    cases n with
    | zero =>
      obtain ⟨rfl, rfl⟩ := Prod.mk.inj (Option.some.inj h)
      exact ⟨rfl, rfl⟩
    | succ n => simp [splitAtByte?] at h
  | cons c s ih =>
    cases n with
    | zero =>
      obtain ⟨rfl, rfl⟩ := Prod.mk.inj (Option.some.inj h)
      exact ⟨rfl, rfl⟩
    | succ n =>
      unfold splitAtByte? at h
      split at h
      · next hle =>
        obtain ⟨⟨a', r'⟩, hs, e⟩ := Option.map_eq_some_iff.1 h
        obtain ⟨rfl, rfl⟩ := Prod.mk.inj e
        obtain ⟨rfl, hn⟩ := ih hs
        exact ⟨rfl, by rw [byteLength_cons, hn]; omega⟩
      · simp at h

/-- The span of a tag lies in the line, behind the offset, between characters, and is not empty. -/
theorem span_of_findFrom {line : List Char} {offset : Nat} {m : Match}
    (h : findFrom line offset = .ok (some m)) :
    offset ≤ m.start ∧ m.start < m.stop ∧ m.stop ≤ byteLength line ∧
      Boundary line m.start ∧ Boundary line m.stop := by
  unfold findFrom at h
  split at h
  · simp at h
  · next a b hsplit =>
    obtain ⟨rfl, rfl⟩ := eq_of_splitAtByte? hsplit
    cases hf : find b with
    | error e => simp [hf, Except.map] at h
    | ok o =>
      cases o with
      | none => simp [hf, Except.map] at h
      | some f =>
        obtain rfl : f.toMatch (byteLength a) = m := by simpa [hf, Except.map] using h
        obtain ⟨hb, hne⟩ := find_eq_append hf
        have hpos : 0 < byteLength f.text :=
          Nat.pos_of_ne_zero fun h0 => hne (eq_nil_of_byteLength h0)
        have hline : a ++ b = a ++ f.before ++ f.text ++ f.after := by
          rw [hb]
          simp
        refine ⟨by simp [Found.toMatch], by simpa [Found.toMatch] using hpos, ?_,
          ⟨a ++ f.before, f.text ++ f.after, by simp [hline], by simp [Found.toMatch]⟩,
          ⟨a ++ f.before ++ f.text, f.after, hline, (toMatch_stop a f).symm⟩⟩
        rw [toMatch_stop, hline, byteLength_append _ f.after]
        exact Nat.le_add_right _ _

/-- The tags of a line follow each other without overlap. -/
theorem Calls.spans {line : List Char} {offset : Nat} {ms : List Match} {e : Option TagError}
    (h : Calls line offset ms e) :
    (∀ m ∈ ms, offset ≤ m.start ∧ m.start < m.stop ∧ m.stop ≤ byteLength line) ∧
      ms.Pairwise fun m n => m.stop ≤ n.start := by
  induction h with
  | stop _ => simp
  | fail _ => simp
  | next hm _ ih =>
    obtain ⟨hle, hlt, hend, -, -⟩ := span_of_findFrom hm
    refine ⟨?_, List.pairwise_cons.2 ⟨fun n hn => (ih.1 n hn).1, ih.2⟩⟩
    intro n hn
    rcases List.mem_cons.1 hn with rfl | hn
    · exact ⟨hle, hlt, hend⟩
    · obtain ⟨hle', hrest⟩ := ih.1 n hn
      exact ⟨by omega, hrest⟩

/-- The first character of each opener is one byte. -/
theorem Opens.boundaries {line : List Char} {p : Nat} {f : Form} (h : Opens line p f) :
    Boundary line p ∧ Boundary line (p + 1) ∧ Boundary line (p + byteLength f.opener) := by
  obtain ⟨a, b, rfl, rfl⟩ := h
  obtain ⟨c, o, ho, hc⟩ : ∃ c o, f.opener = c :: o ∧ c.utf8Size = 1 := by
    cases f <;> exact ⟨_, _, rfl, rfl⟩
  refine ⟨⟨a, _, rfl, rfl⟩, ⟨a ++ [c], o ++ b, by simp [ho], by simp [hc]⟩,
    ⟨a ++ f.opener, b, by simp, by simp⟩⟩

theorem Closed.boundaries {line body : List Char} {p : Nat} {f : Form}
    (h : Closed line p f body) :
    Boundary line (p + byteLength f.opener + byteLength body) ∧
      Boundary line (p + byteLength (f.write body)) := by
  obtain ⟨a, b, rest, rfl, rfl, hb⟩ := h
  rw [hb.eq]
  exact ⟨⟨a ++ f.opener ++ body, f.closer ++ rest, by simp, by simp [Nat.add_assoc]⟩,
    ⟨a ++ f.write body, rest, by simp [Form.write], by simp⟩⟩

/-- **The first tag.** From an offset between two characters the search looks at the first closed
tag that counts. There is no answer where no such tag is left; a variable tag outside the grammar is
an error, whatever follows it; and any other is read and reported from its opener to the end of its
closer. All places of the search lie between characters. Searches that each go on behind the tag
before find tags in order that do not overlap, until there are no more. What is found does not
depend on the text before the offset. -/
theorem findFrom_first {line : List Char} {offset : Nat} (h : Boundary line offset) :
    (findFrom line offset = .ok none ↔ ∀ p f body, offset ≤ p → ¬ Stands line p f body) ∧
    (∀ e, findFrom line offset = .error e ↔
      ∃ p body fault, First line offset p .reference body ∧ readReference body = .error fault ∧
        e = ⟨String.ofList (Form.reference.write body), fault⟩) ∧
    (∀ m, findFrom line offset = .ok (some m) ↔
      ∃ f body, First line offset m.start f body ∧ f.read body = .ok (some m.tag) ∧
        m.stop = m.start + byteLength (f.write body)) ∧
    (∀ p f, Opens line p f →
      Boundary line p ∧ Boundary line (p + 1) ∧ Boundary line (p + byteLength f.opener)) ∧
    (∀ p f body, Closed line p f body →
      Boundary line (p + byteLength f.opener + byteLength body) ∧
        Boundary line (p + byteLength (f.write body))) ∧
    (∃ ms e, Calls line offset ms e) ∧
    (∀ ms e, Calls line offset ms e →
      (∀ m ∈ ms, offset ≤ m.start ∧ m.start < m.stop ∧ m.stop ≤ byteLength line) ∧
        ms.Pairwise fun m n => m.stop ≤ n.start) ∧
    ∀ a b, findFrom (a ++ b) (byteLength a) =
      (findFrom b 0).map (·.map (Match.shift (byteLength a))) := by
  obtain ⟨a, b, rfl, rfl⟩ := h
  refine ⟨⟨fun h => ?_, findFrom_of_bare⟩, fun e => ⟨fun h => ?_, ?_⟩, fun m => ⟨fun h => ?_, ?_⟩,
    fun p f => Opens.boundaries, fun p f body => Closed.boundaries, ⟨_, _, calls_scanFrom a b⟩,
    fun ms e => Calls.spans, findFrom_append⟩
  · rcases findFrom_cases a b with ⟨hb, -⟩ | ⟨_, _, _, -, -, h'⟩ | ⟨_, _, _, -, -, -, h'⟩
    · exact hb
    · exact absurd (h.symm.trans h') (by simp)
    · exact absurd (h.symm.trans h') (by simp)
  · rcases findFrom_cases a b with ⟨-, h'⟩ | ⟨p, body, fault, hf, hr, h'⟩ | ⟨_, _, _, -, -, -, h'⟩
    · exact absurd (h.symm.trans h') (by simp)
    · exact ⟨p, body, fault, hf, hr, Except.error.inj (h.symm.trans h')⟩
    · exact absurd (h.symm.trans h') (by simp)
  · rintro ⟨p, body, fault, hfirst, hread, rfl⟩
    rw [findFrom_of_first hfirst, Form.read_eq_error_iff.2 ⟨rfl, hread⟩]
  · rcases findFrom_cases a b with ⟨-, h'⟩ | ⟨_, _, _, -, -, h'⟩ | ⟨m', f, body, hf, hr, hs, h'⟩
    · exact absurd (h.symm.trans h') (by simp)
    · exact absurd (h.symm.trans h') (by simp)
    · obtain rfl : m = m' := Option.some.inj (Except.ok.inj (h.symm.trans h'))
      exact ⟨f, body, hf, hr, hs⟩
  · rintro ⟨f, body, hfirst, hread, hstop⟩
    rw [findFrom_of_first hfirst, hread]
    simp [← hstop]

/-- An escaped opener lacks its closer, and of four brackets in a row the last three open the
tag. -/
theorem first_of_four_brackets :
    Boundary "é&lt;&lt;&lt;<<<<md:x.md>>>".toList 2 ∧
      ∃ f body, First "é&lt;&lt;&lt;<<<<md:x.md>>>".toList 2 15 f body ∧
        f.read body = .ok (some (.file "md" "x.md")) ∧ 28 = 15 + byteLength (f.write body) :=
  have h : Boundary "é&lt;&lt;&lt;<<<<md:x.md>>>".toList 2 := ⟨['é'], _, rfl, rfl⟩
  ⟨h, ((findFrom_first h).2.2.1 ⟨15, 28, .file "md" "x.md"⟩).1 rfl⟩

end Tag

end StaticSite
