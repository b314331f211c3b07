import StaticSite.Document.Basic
import StaticSite.Proofs.Merging

/-!
Expanding the blocks of a forest by structural recursion.

A rule says of which nodes it expands, and what each of them becomes when its content has been
expanded. The recursion goes through the forest in document order, up to the first failure. It
stands for what a loop does that takes the first block of the whole tree again and again, and
changes the tree in between.

* `Outcome.Same`: the same failure, or the same names and the same nodes up to merging;
* `expand_append`, `expand_map`, `expand_of_none`: the recursion over a part of a forest;
* `expand_same`: it does not see where texts are held apart;
* `expand_error`, `expand_step`: the first block is done before the others, and what it becomes may
  take its place;
* `Outcome.Ended`: a loop has ended as the recursion does.
-/

namespace StaticSite

open Forest

universe u v

/-- What an expansion gives: the nodes, and the names of the blocks in the order they came up. -/
abbrev Outcome := Except SiteError (Markup × List String)

def Content.isMarker (c : Content) : Bool := c.directive? == some .marker

namespace Outcome

def empty : Outcome := .ok (.nil, [])

/-- One part of a forest and then another. -/
def seq : Outcome → Outcome → Outcome
  | .error e, _ => .error e
  | .ok _, .error e => .error e
  | .ok (f, ns), .ok (g, ms) => .ok (f ++ g, ns ++ ms)

/-- As the content of a node. -/
def wrap (c : Content) : Outcome → Outcome
  | .error e => .error e
  | .ok (f, ns) => .ok (tree c f, ns)

/-- As what comes of a block with this name. -/
def named (name : String) : Outcome → Outcome
  | .error e => .error e
  | .ok (f, ns) => .ok (f, name :: ns)

/-- Several times in a row; nothing is looked at if it is to be there no time. -/
def times : Nat → Outcome → Outcome
  | 0, _ => empty
  | n + 1, x => x.seq (times n x)

/-- In the place of the first marker of some markup, before what the marker holds. Nothing is
looked at if there is no marker. -/
def into (m : Markup) : Outcome → Outcome
  | .error e =>
    match m.find? Content.isMarker with
    | none => .ok (m, [])
    | some _ => .error e
  | .ok (f, ns) =>
    match m.replaceFirst? Content.isMarker (f ++ ·) with
    | none => .ok (m, [])
    | some r => .ok (r, ns)

/-- The same failure, or the same names and the same nodes up to merging. -/
def Same : Outcome → Outcome → Prop
  | .ok (f, ns), .ok (g, ms) => Forest.Same f g ∧ ns = ms
  | .error e, .error e' => e = e'
  | _, _ => False

theorem empty_seq (x : Outcome) : empty.seq x = x := by
  cases x <;> rfl

theorem seq_empty (x : Outcome) : x.seq empty = x := by
  cases x with
  | error e => rfl
  | ok r => simp [seq, empty]

theorem seq_assoc (x y z : Outcome) : (x.seq y).seq z = x.seq (y.seq z) := by
  cases x with
  | error e => rfl
  | ok r =>
    cases y with
    | error e => rfl
    | ok r =>
      cases z with
      | error e => rfl
      | ok r => simp [seq, Forest.append_assoc]

/-- The name of a block comes before those of what follows. -/
theorem named_seq (name : String) (x y : Outcome) :
    (x.named name).seq y = (x.seq y).named name := by
  cases x with
  | error e => rfl
  | ok r => cases y <;> rfl

theorem seq_named (f : Markup) (name : String) (y : Outcome) :
    seq (.ok (f, [])) (y.named name) = (seq (.ok (f, [])) y).named name := by
  cases y <;> rfl

theorem seq_eq_ok {x y : Outcome} {r : Markup × List String} (h : x.seq y = .ok r) :
    ∃ p q, x = .ok p ∧ y = .ok q ∧ r = (p.1 ++ q.1, p.2 ++ q.2) := by
  cases x with
  | error e => cases h
  | ok p =>
    cases y with
    | error e => cases h
    | ok q => exact ⟨p, q, rfl, rfl, (Except.ok.inj h).symm⟩

theorem length_times {x : Outcome} {k n : Nat} {r : Markup × List String}
    (hx : ∀ p, x = .ok p → p.2.length = k) (h : x.times n = .ok r) : r.2.length = n * k := by
  induction n generalizing r with
  | zero =>
    cases h
    exact (Nat.zero_mul k).symm
  | succ n ih =>
    obtain ⟨p, q, hp, hq, rfl⟩ := seq_eq_ok h
    rw [List.length_append, hx p hp, ih hq, Nat.succ_mul, Nat.add_comm]

theorem wrap_named (c : Content) (name : String) (x : Outcome) :
    (x.named name).wrap c = (x.wrap c).named name := by
  cases x <;> rfl

section

variable {c : Content} {cs fs : Markup}

theorem into_of_none (x : Outcome) (h : cs.find? Content.isMarker = none) :
    x.into cs = .ok (cs, []) := by
  cases x with
  | error e => simp only [into, h]
  | ok r => simp only [into, replaceFirst?_eq_none h]

/-- The marker comes first. -/
theorem into_marker (x : Outcome) (h : c.isMarker = true) :
    x.into (.node c cs fs) = (x.seq (.ok (cs, []))).seq (.ok (fs, [])) := by
  cases x with
  | error e => simp [into, find?, h, seq]
  | ok r => simp [into, replaceFirst?, h, seq]

/-- The first marker is in the content of the first node. -/
theorem into_content (x : Outcome) (h : c.isMarker = false) {r : Content × Markup}
    (hc : cs.find? Content.isMarker = some r) :
    x.into (.node c cs fs) = ((x.into cs).wrap c).seq (.ok (fs, [])) := by
  cases x with
  | error e => simp [into, find?, h, hc, seq, wrap]
  | ok y =>
    obtain ⟨cs', hcs⟩ := exists_first hc (y.1 ++ r.2)
    simp [into, replaceFirst?, h, hcs.replaceFirst?_eq (g := (y.1 ++ ·)), seq, wrap, tree]

/-- The first marker is behind the first node. -/
theorem into_rest (x : Outcome) (h : c.isMarker = false) (hc : cs.find? Content.isMarker = none)
    {r : Content × Markup} (hf : fs.find? Content.isMarker = some r) :
    x.into (.node c cs fs) = seq (.ok (tree c cs, [])) (x.into fs) := by
  cases x with
  | error e => simp [into, find?, h, hc, hf, seq]
  | ok y =>
    obtain ⟨fs', hfs⟩ := exists_first hf (y.1 ++ r.2)
    simp [into, replaceFirst?, h, replaceFirst?_eq_none hc,
      hfs.replaceFirst?_eq (g := (y.1 ++ ·)), seq, tree]

end

namespace Same

variable {x x' y y' z : Outcome}

theorem refl (x : Outcome) : Same x x := by
  cases x with
  | error e => exact rfl
  | ok r => exact ⟨.refl _, rfl⟩

theorem of_eq (h : x = y) : Same x y := h ▸ refl x

theorem symm (h : Same x y) : Same y x := by
  cases x <;> cases y
  · exact Eq.symm h
  · exact h
  · exact h
  · exact ⟨h.1.symm, h.2.symm⟩

theorem trans (h : Same x y) (h' : Same y z) : Same x z := by
  cases x <;> cases y <;> cases z <;> try exact h.elim
  · exact Eq.trans h h'
  · exact h'.elim
  · exact h'.elim
  · exact ⟨h.1.trans h'.1, h.2.trans h'.2⟩

theorem seq (h : Same x x') (h' : Same y y') : Same (x.seq y) (x'.seq y') := by
  cases x <;> cases x' <;> try exact h.elim
  · exact h
  · cases y <;> cases y' <;> try exact h'.elim
    · exact h'
    · exact ⟨h.1.append h'.1, congr (congrArg HAppend.hAppend h.2) h'.2⟩

theorem wrap (c : Content) (h : Same x x') : Same (x.wrap c) (x'.wrap c) := by
  cases x <;> cases x' <;> try exact h.elim
  · exact h
  · exact ⟨h.1.tree c, h.2⟩

theorem named (name : String) (h : Same x x') : Same (x.named name) (x'.named name) := by
  cases x <;> cases x' <;> try exact h.elim
  · exact h
  · exact ⟨h.1, by rw [h.2]⟩

theorem times (n : Nat) (h : Same x x') : Same (x.times n) (x'.times n) := by
  induction n with
  | zero => exact refl _
  | succ n ih => exact h.seq ih

theorem into (m : Markup) (h : Same x x') : Same (x.into m) (x'.into m) := by
  cases x <;> cases x' <;> try exact h.elim
  · obtain rfl := h
    exact refl _
  · next r r' =>
    obtain ⟨f, ns⟩ := r
    obtain ⟨f', ns'⟩ := r'
    obtain ⟨hf, rfl⟩ := h
    unfold Outcome.into
    dsimp only
    cases hr : m.replaceFirst? Content.isMarker (f ++ ·) with
    | some r =>
      obtain ⟨c, cs, hfirst⟩ := first_of_replaceFirst? hr
      obtain ⟨r', hr', hs⟩ := (hf.append_right cs).first hfirst
      rw [hr'.replaceFirst?_eq (g := (f' ++ ·))]
      exact ⟨hs, rfl⟩
    | none =>
      rw [replaceFirst?_eq_none (replaceFirst?_eq_none_iff.1 hr)]
      exact refl _

end Same

end Outcome

/-! ## The recursion -/

section

variable {α : Type u} {β : Type v} (content : α → Content) (rule : α → Option (Outcome → Outcome))

/-- What comes of a node, from what comes of its content. -/
def expandNode (a : α) (inner : Outcome) : Outcome :=
  match rule a with
  | some g => g inner
  | none => inner.wrap (content a)

/-- Expands the nodes of a forest that the rule is for. The other nodes stay, with their content
expanded. -/
def Forest.expand : Forest α → Outcome
  | .nil => .empty
  | .node a cs fs => (expandNode content rule a (expand cs)).seq (expand fs)

theorem expand_append (f g : Forest α) :
    (f ++ g).expand content rule = (f.expand content rule).seq (g.expand content rule) := by
  induction f with
  | nil => exact (Outcome.empty_seq _).symm
  | node a cs fs _ ih =>
    rw [node_append, expand, expand, ih, Outcome.seq_assoc]

theorem expand_replicate (f : Forest α) (n : Nat) :
    (f.replicate n).expand content rule = (f.expand content rule).times n := by
  induction n with
  | zero => rfl
  | succ n ih => rw [replicate, expand_append, ih, Outcome.times]

theorem expand_map (h : β → α) (f : Forest β) :
    (f.map h).expand content rule = f.expand (fun b => content (h b)) fun b => rule (h b) := by
  induction f with
  | nil => rfl
  | node b cs fs ihc ihf =>
    simp only [map, expand, ihc, ihf]
    rfl

variable {content rule}

/-- Where the rule is for no node, all stays as it is. -/
theorem expand_of_none {f : Forest α} (h : ∀ a ∈ f.labels, rule a = none) :
    f.expand content rule = .ok (f.map content, []) := by
  induction f with
  | nil => rfl
  | node a cs fs ihc ihf =>
    simp only [labels, List.mem_cons, List.mem_append] at h
    simp only [expand, expandNode, h a (.inl rfl), ihc fun a ha => h a (.inr (.inl ha)),
      ihf fun a ha => h a (.inr (.inr ha))]
    rfl

section

variable {p : α → Bool} {f : Forest α} {a : α} {cs : Forest α}

theorem expand_of_find?_none (hp : ∀ a, p a = false → rule a = none) (h : f.find? p = none) :
    f.expand content rule = .ok (f.map content, []) :=
  expand_of_none fun a ha => hp a (find?_eq_none_iff.1 h a ha)

/-- The first block is done before the others. -/
theorem expand_error (hp : ∀ a, p a = false → rule a = none) (h : f.find? p = some (a, cs))
    {e : SiteError} (he : expandNode content rule a (cs.expand content rule) = .error e) :
    f.expand content rule = .error e := by
  obtain ⟨f', hf⟩ := exists_first h .nil
  induction hf with
  | here fs ha =>
    rw [expand, he]
    rfl
  | inside b fs hb hbs ih =>
    rw [expand, expandNode, hp b hb, ih hbs.find?_eq]
    rfl
  | behind b hb hbs hfs ih =>
    rw [expand, expandNode, hp b hb, expand_of_find?_none hp hbs, ih hfs.find?_eq]
    rfl

/-- **One block.** What the first block becomes may take its place, to be expanded with the rest:
that gives the same, but for the name of the block. -/
theorem expand_step (hp : ∀ a, p a = false → rule a = none) {new f' : Forest α}
    (h : First p a cs new f f') {name : String}
    (hnew : (expandNode content rule a (cs.expand content rule)).Same
      ((new.expand content rule).named name)) :
    (f.expand content rule).Same ((f'.expand content rule).named name) := by
  induction h with
  | here fs ha =>
    rw [expand_append, ← Outcome.named_seq, expand]
    exact hnew.seq (.refl _)
  | inside b fs hb _ ih =>
    rw [expand, expand, expandNode, expandNode, hp b hb, ← Outcome.named_seq,
      ← Outcome.wrap_named]
    exact (ih.wrap (content b)).seq (.refl _)
  | behind b hb hbs _ ih =>
    rw [expand, expand, expandNode, hp b hb, expand_of_find?_none hp hbs]
    refine (Outcome.Same.refl _).seq ih |>.trans (.of_eq ?_)
    exact Outcome.seq_named _ name _

end

end

/-- A rule that is for no text, and whose results do not depend on where texts are held apart. -/
structure Respects (rule : Content → Option (Outcome → Outcome)) : Prop where
  text : ∀ s, rule (.text s) = none
  same : ∀ c g, rule c = some g → ∀ x y : Outcome, x.Same y → (g x).Same (g y)

/-- **Merging.** The recursion does not see where texts are held apart. -/
theorem expand_same {rule : Content → Option (Outcome → Outcome)} (hr : Respects rule)
    {f g : Markup} (h : Forest.Same f g) :
    (f.expand (fun c => c) rule).Same (g.expand (fun c => c) rule) := by
  induction h with
  | refl f => exact .refl _
  | symm _ ih => exact ih.symm
  | trans _ _ ih₁ ih₂ => exact ih₁.trans ih₂
  | join s t rest =>
    simp only [expand, expandNode, hr.text]
    cases rest.expand (fun c => c) rule with
    | error e => exact rfl
    | ok r => exact ⟨.join s t r.1, rfl⟩
  | node c _ _ ihc ihf =>
    refine Outcome.Same.seq ?_ ihf
    unfold expandNode
    cases hc : rule c with
    | none => exact ihc.wrap c
    | some g => exact hr.same c g hc _ _ ihc

/-! ## Loops that end as the recursion does -/

namespace Outcome

/-- A loop has ended with the failure of the recursion, or with the count of its names and a tree of
its nodes. In the second case it says more, about the names. -/
def Ended (x : Outcome) (done : Nat) (result : Except SiteError Nat) (tree : Forest Node)
    (more : List String → Prop) : Prop :=
  match x with
  | .error e => result = .error e
  | .ok (m, names) =>
    result = .ok (done + names.length) ∧ Forest.Same (tree.map Prod.snd) m ∧ more names

variable {x y : Outcome} {name : String} {done : Nat} {result : Except SiteError Nat}
  {tree : Forest Node} {more : List String → Prop}

/-- One round before others. -/
theorem Ended.named (h : x.Same (y.named name))
    (hy : y.Ended (done + 1) result tree fun names => more (name :: names)) :
    x.Ended done result tree more := by
  cases y with
  | error e =>
    cases x with
    | error e' =>
      obtain rfl := h
      exact hy
    | ok s => exact h.elim
  | ok t =>
    cases x with
    | error e' => exact h.elim
    | ok s =>
      obtain ⟨m, names⟩ := s
      obtain ⟨hsame, hnames⟩ := h
      obtain ⟨hresult, htree, hmore⟩ := hy
      obtain rfl : names = name :: t.2 := hnames
      refine ⟨?_, htree.trans hsame.symm, hmore⟩
      rw [hresult, List.length_cons, Nat.add_assoc, Nat.add_comm 1]

theorem Ended.cases (h : x.Ended done result tree more) :
    (∃ e, result = .error e) ∨ ∃ names, more names := by
  cases x with
  | error e => exact .inl ⟨e, h⟩
  | ok s => exact .inr ⟨s.2, h.2.2⟩

end Outcome

end StaticSite
