import StaticSite.Proofs.Isolation
import StaticSite.Proofs.Repeats
import StaticSite.Proofs.Templates

/-!
One expansion that follows another.

Two expansions of the same markup may differ in what the files they refer to come to, in their scopes,
and in the origin that failures name. The second follows the first if it ends in the same way, except
that the first may fail where the second goes on. Proved here:

* `Follows.bind`: steps that follow each other step by step make runs that do;
* `expandTemplatesFor_follows`: so it is for the template blocks of a document, by induction on the
  rounds;
* `expandRepeatsFor_mono`: a loop over repeat blocks that ends in a scope ends alike in every larger
  scope, with any number of further rounds;
* `onePass_follows`: so it is for the tags of a text, by induction on its pieces;
* `expand_follows`: and so for a text as a whole.
-/

namespace StaticSite

variable {α β γ δ : Type}

/-! ## Computations -/

/-- The second computation gives a result related to that of the first, or fails as the first does,
unless the first fails in one of some ways. -/
structure Follows (E : SiteError → Prop) (R : α → β → Prop) (x : Logged SiteError α)
    (y : Logged SiteError β) : Prop where
  result_ok : ∀ {a}, x.result = .ok a → ∃ b, y.result = .ok b ∧ R a b
  result_error : ∀ {e}, x.result = .error e → E e ∨ y.result = .error e

namespace Follows

variable {E : SiteError → Prop} {R : α → β → Prop} {x : Logged SiteError α} {y : Logged SiteError β}

theorem ok {a : α} {b : β} (hx : x.result = .ok a) (hy : y.result = .ok b) (h : R a b) :
    Follows E R x y := by
  refine ⟨fun ha => ?_, fun he => ?_⟩
  · obtain rfl := Except.ok.inj (hx.symm.trans ha)
    exact ⟨b, hy, h⟩
  · cases hx.symm.trans he

theorem error {e : SiteError} (hx : x.result = .error e) (hy : E e ∨ y.result = .error e) :
    Follows E R x y := by
  refine ⟨fun ha => ?_, fun he => ?_⟩
  · cases hx.symm.trans ha
  · obtain rfl := Except.error.inj (hx.symm.trans he)
    exact hy

theorem of_result_eq {x y : Logged SiteError α} (h : y.result = x.result) : Follows E Eq x y :=
  ⟨fun ha => ⟨_, h.trans ha, rfl⟩, fun he => .inr (h.trans he)⟩

theorem refl (x : Logged SiteError α) : Follows E Eq x x := .of_result_eq rfl

theorem fail {e : SiteError} (h : E e) : Follows E R (Logged.fail e : Logged SiteError α) y :=
  .error rfl (.inl h)

theorem pure {a : α} {b : β} (h : R a b) :
    Follows E R (Pure.pure a : Logged SiteError α) (Pure.pure b) := .ok rfl rfl h

/-- Only the results count, not the records. -/
theorem of_results {x' : Logged SiteError α} {y' : Logged SiteError β} (h : Follows E R x y)
    (hx : x'.result = x.result) (hy : y'.result = y.result) : Follows E R x' y' := by
  refine ⟨fun ha => ?_, fun he => ?_⟩
  · rw [hy]
    exact h.result_ok (hx ▸ ha)
  · rw [hy]
    exact h.result_error (hx ▸ he)

theorem result_eq_ok {x y : Logged SiteError α} (h : Follows E Eq x y) {a : α}
    (hx : x.result = .ok a) : y.result = .ok a := by
  obtain ⟨b, hy, rfl⟩ := h.result_ok hx
  exact hy

theorem mono {E' : SiteError → Prop} {R' : α → β → Prop} (h : Follows E R x y)
    (hE : ∀ e, E e → E' e) (hR : ∀ a b, R a b → R' a b) : Follows E' R' x y := by
  refine ⟨fun ha => ?_, fun he => (h.result_error he).imp_left (hE _)⟩
  obtain ⟨b, hb, hab⟩ := h.result_ok ha
  exact ⟨b, hb, hR _ b hab⟩

/-- Where every failure of the first may be mended, only its results count. -/
theorem of_ok (hE : ∀ e, E e) (h : ∀ a, x.result = .ok a → ∃ b, y.result = .ok b ∧ R a b) :
    Follows E R x y := ⟨h _, fun _ => .inl (hE _)⟩

/-- Steps in sequence. -/
theorem bind {S : γ → δ → Prop} {f : α → Logged SiteError γ} {g : β → Logged SiteError δ}
    (h : Follows E R x y) (hf : ∀ a b, R a b → Follows E S (f a) (g b)) :
    Follows E S (x >>= f) (y >>= g) := by
  cases hx : x.result with
  | error e =>
    refine .error (e := e) (by rw [Logged.result_bind, hx]; rfl) ?_
    refine (h.result_error hx).imp_right fun hy => ?_
    rw [Logged.result_bind, hy]
    rfl
  | ok a =>
    obtain ⟨b, hy, hab⟩ := h.result_ok hx
    have hxf : (x >>= f).result = (f a).result := by
      rw [Logged.result_bind, hx]
      rfl
    have hyg : (y >>= g).result = (g b).result := by
      rw [Logged.result_bind, hy]
      rfl
    exact (hf a b hab).of_results hxf hyg

/-- The same first step, with steps that follow each other after it. -/
theorem bind_left {S : γ → δ → Prop} {f : α → Logged SiteError γ} {g : α → Logged SiteError δ}
    (x : Logged SiteError α) (hf : ∀ a, Follows E S (f a) (g a)) :
    Follows E S (x >>= f) (x >>= g) := by
  refine (Follows.refl x).bind fun a b hab => ?_
  rw [← hab]
  exact hf a

theorem ite {c : Prop} [Decidable c] {x' : Logged SiteError α} {y' : Logged SiteError β}
    (h : Follows E R x y) (h' : Follows E R x' y') :
    Follows E R (if c then x else x') (if c then y else y') := by
  split
  · exact h
  · exact h'

end Follows

/-- Failures may name one origin for the other: they are the same, or no failure counts. -/
def Harmless (E : SiteError → Prop) (o o' : Origin) : Prop := o' = o ∨ ∀ e, E e

theorem Harmless.fail {E : SiteError → Prop} {o o' : Origin} {R : α → β → Prop} (h : Harmless E o o')
    (e : Origin → SiteError) :
    Follows E R (Logged.fail (e o) : Logged SiteError α) (Logged.fail (e o')) := by
  rcases h with rfl | h
  · exact .error rfl (.inr rfl)
  · exact .fail (h _)

/-! ## Documents with another origin -/

namespace Document

variable {formats : Formats}

def withOrigin (d : Document) (o : Origin) : Document := { d with origin := o }

@[simp] theorem withOrigin_self (d : Document) : d.withOrigin d.origin = d := rfl

theorem withOrigin_of_origin {d : Document} {o : Origin} (h : d.origin = o) : d.withOrigin o = d := by
  rw [← h, withOrigin_self]

@[simp] theorem attribute?_withOrigin (d : Document) (o : Origin) (b : Block) (name : String) :
    (d.withOrigin o).attribute? b name = d.attribute? b name := rfl

@[simp] theorem inner_withOrigin (d : Document) (o : Origin) (b : Block) :
    (d.withOrigin o).inner formats b = d.inner formats b := rfl

theorem serialize_withOrigin (d : Document) (o : Origin) :
    (d.withOrigin o).serialize formats = d.serialize formats := rfl

theorem load_withOrigin (formats : Formats) (markup : String) (o o' : Origin) (isRoot : Bool) :
    load formats markup o' isRoot = (load formats markup o isRoot).withOrigin o' := rfl

theorem nextTemplate?_withOrigin (d : Document) (o : Origin) :
    (d.withOrigin o).nextTemplate? = d.nextTemplate?.map fun (b, d) => (b, d.withOrigin o) := by
  unfold nextTemplate?
  rw [Option.map_map]
  rfl

theorem replace_withOrigin (d : Document) (b : Block) (markup : String) (o : Origin) :
    (d.withOrigin o).replace formats b markup = (d.replace formats b markup).withOrigin o := by
  unfold replace
  dsimp only [withOrigin, parseNodes, node?, isHeld]
  split
  · rfl
  · split <;> rfl

theorem setChildren_withOrigin (d : Document) (b : Block) (nodes : Forest Node) (o : Origin) :
    (d.withOrigin o).setChildren b nodes = (d.setChildren b nodes).withOrigin o := by
  unfold setChildren
  dsimp only [withOrigin, node?, isHeld]
  split
  · rfl
  · split <;> rfl

theorem fill_withOrigin (d : Document) (b : Block) (markup inner : String) (o : Origin) :
    (d.withOrigin o).fill formats b markup inner =
      ((d.fill formats b markup inner).1, (d.fill formats b markup inner).2.withOrigin o) := by
  refine Prod.ext ?_ ?_
  · unfold fill
    dsimp only [withOrigin, parseNodes]
    split <;> rfl
  · rw [fill_eq, fill_eq]
    exact congrArg (fun d' : Document => { d' with handled := d.handled ++ brought formats d markup })
      (setChildren_withOrigin { d with fresh := (filling formats d markup inner).2 } b _ o)

theorem origin_setChildren (d : Document) (b : Block) (nodes : Forest Node) :
    (d.setChildren b nodes).origin = d.origin := by
  unfold setChildren
  dsimp only
  split
  · rfl
  · split <;> rfl

theorem origin_fill (d : Document) (b : Block) (markup inner : String) :
    (d.fill formats b markup inner).2.origin = d.origin := by
  rw [fill_eq]
  exact origin_setChildren _ b _

theorem required_follows {E : SiteError → Prop} {d : Document} {o : Origin}
    (h : Harmless E d.origin o) (b : Block) (name : String) :
    Follows E Eq (Logged.lift (d.required b name))
      (Logged.lift ((d.withOrigin o).required b name)) := by
  unfold required
  rw [attribute?_withOrigin]
  cases (d.attribute? b name).filter fun v => !(trimmed v).isEmpty with
  | some v => exact .refl _
  | none => exact h.fail fun o => .missingAttribute o.text (d.describe b) name

/-- What a loop comes to, where the documents that it leaves differ in the origin alone. -/
theorem ended_follows {E : SiteError → Prop} {d d' : Document} {o o' : Origin} {left left' : Bool}
    {R : Nat → Nat → Prop} {x y : Logged SiteError Nat} (ho : Harmless E o o')
    (h : Follows E R x y)
    (hR : ∀ n n', R n n' → d.origin = o ∧ d' = d.withOrigin o' ∧ left' = left) :
    Follows E R (d.ended left x) (d'.ended left' y) := by
  refine h.bind fun n n' hn => ?_
  obtain ⟨rfl, rfl, rfl⟩ := hR n n' hn
  cases left' with
  | true => exact ho.fail fun o => .io ⟨o.text⟩ .outOfMemory
  | false => exact .pure hn

end Document

/-! ## Template blocks -/

/-- One source of templates follows another, for documents with these origins. -/
structure TemplateSource.Follows (E : SiteError → Prop) (o o' : Origin)
    (source source' : TemplateSource) : Prop where
  scope : ∀ input, StaticSite.Follows E Eq (Logged.lift (source.scope input o))
    (Logged.lift (source'.scope input o'))
  markup : ∀ template sc, StaticSite.Follows E Eq (source.markup template sc o)
    (source'.markup template sc o')

section

variable {E : SiteError → Prop} {formats : Formats} {source source' : TemplateSource} {o o' : Origin}
  {d : Document}

theorem expandTemplate_follows (hs : source.Follows E o o' source') (ho : Harmless E o o')
    (hd : d.origin = o) (b : Block) :
    Follows E (fun d₁ d₂ => d₁.origin = o ∧ d₂ = d₁.withOrigin o')
      (d.expandTemplate formats source b)
      ((d.withOrigin o').expandTemplate formats source' b) := by
  subst hd
  unfold Document.expandTemplate
  refine (Document.required_follows ho b "template").bind fun template _ ht => ?_
  subst ht
  refine Follows.bind (R := Eq) ?_ fun sc _ hsc => ?_
  · rw [Document.attribute?_withOrigin]
    cases (d.attribute? b "input").filter fun v => !(trimmed v).isEmpty with
    | some input => exact hs.scope (trimmed input)
    | none => exact .refl _
  · subst hsc
    refine (hs.markup (trimmed template) sc).bind fun markup _ hm => ?_
    subst hm
    have horigin : (d.fill formats b markup (d.inner formats b)).2.origin = d.origin :=
      Document.origin_fill d b markup _
    rw [Document.inner_withOrigin, Document.fill_withOrigin]
    generalize d.fill formats b markup (d.inner formats b) = r at horigin ⊢
    obtain ⟨found, d₁⟩ := r
    cases found with
    | true => exact .ok rfl rfl ⟨horigin, rfl⟩
    | false => exact .pure ⟨horigin, rfl⟩

/-- **Template blocks.** The loop over the template blocks follows, if their templates do. -/
theorem expandTemplatesFor_follows (hs : source.Follows E o o' source') (ho : Harmless E o o')
    (rounds done : Nat) (hd : d.origin = o) :
    let r := d.expandTemplatesFor formats source rounds done
    let r' := (d.withOrigin o').expandTemplatesFor formats source' rounds done
    Follows E (fun n n' => n = n' ∧ r.1.origin = o ∧ r'.1 = r.1.withOrigin o') r.2 r'.2 := by
  induction rounds generalizing d done with
  | zero => exact .pure ⟨rfl, hd, rfl⟩
  | succ rounds ih =>
    have hnext := d.nextTemplate?_withOrigin o'
    cases hn : d.nextTemplate? with
    | none =>
      rw [hn] at hnext
      rw [expandTemplatesFor_none hn, expandTemplatesFor_none hnext]
      exact .pure ⟨rfl, hd, rfl⟩
    | some r =>
      obtain ⟨b, d₁⟩ := r
      rw [hn] at hnext
      have hd₁ : d₁.origin = o := by
        obtain ⟨n, c, cs, -, hr⟩ := Document.nextTemplate?_eq_some hn
        rw [(Prod.mk.inj hr).2]
        exact hd
      have hround : Follows E _ (d₁.expandTemplate formats source b) _ :=
        expandTemplate_follows hs ho hd₁ b
      cases hy : (d₁.expandTemplate formats source b).result with
      | error e =>
        rw [expandTemplatesFor_error hn hy]
        refine .error rfl ((hround.result_error hy).imp_right fun hy' => ?_)
        rw [expandTemplatesFor_error hnext hy']
      | ok d₂ =>
        obtain ⟨_, hy', hd₂, rfl⟩ := hround.result_ok hy
        rw [expandTemplatesFor_ok hn hy, expandTemplatesFor_ok hnext hy']
        exact (ih (done + 1) hd₂).of_results rfl rfl

theorem exists_templateRounds (formats : Formats) (d : Document) : ∃ rounds : Nat,
    ∀ (source : TemplateSource) (o : Origin), (d.withOrigin o).expandTemplates formats source =
      let r := (d.withOrigin o).expandTemplatesFor formats source rounds 0
      (r.1, r.1.ended r.1.nextTemplate?.isSome r.2) :=
  ⟨templateCount d.tree + spareRounds, fun _ _ => rfl⟩

theorem expandTemplates_follows (hs : source.Follows E o o' source') (ho : Harmless E o o')
    (hd : d.origin = o) :
    let r := d.expandTemplates formats source
    let r' := (d.withOrigin o').expandTemplates formats source'
    Follows E (fun n n' => n = n' ∧ r.1.origin = o ∧ r'.1 = r.1.withOrigin o') r.2 r'.2 := by
  obtain ⟨rounds, hr⟩ := exists_templateRounds formats d
  have hr₁ := hr source d.origin
  rw [Document.withOrigin_self] at hr₁
  rw [hr₁, hr source' o']
  refine Document.ended_follows ho (expandTemplatesFor_follows hs ho rounds 0 hd) fun n n' hn => ?_
  obtain ⟨-, horigin, hdoc⟩ := hn
  refine ⟨horigin, hdoc, ?_⟩
  rw [hdoc, Document.nextTemplate?_withOrigin, Option.isSome_map]

end

/-! ## Larger scopes -/

/-- What one scope binds is bound to the same value in the other. -/
def Scope.Below (sc sc' : Scope) : Prop := ∀ x v, sc.get? x = some v → sc'.get? x = some v

namespace Scope.Below

variable {sc sc' : Scope}

theorem refl (sc : Scope) : sc.Below sc := fun _ _ h => h

theorem list (h : sc.Below sc') {l : String} {items : List Value} (hl : sc.list l = .ok items) :
    sc'.list l = .ok items := by
  unfold Scope.list at hl ⊢
  cases hv : sc.get? l with
  | none =>
    rw [hv] at hl
    cases hl
  | some v =>
    rw [hv] at hl
    rw [h l v hv]
    exact hl

/-- A reference that has a value keeps it. -/
theorem read (h : sc.Below sc') {t : Cursors} {r : Reference} {vt : List Char × Cursors}
    (hr : sc.read t r = .ok vt) : sc'.read t r = .ok vt := by
  cases r with
  | name x =>
    simp only [Scope.read] at hr ⊢
    cases hx : sc.get? x with
    | none =>
      rw [hx] at hr
      cases hr
    | some v =>
      rw [hx] at hr
      rw [h x v hx]
      exact hr
  | item l =>
    simp only [Scope.read] at hr ⊢
    split at hr
    · cases hr
    · cases hl : sc.list l with
      | error e =>
        rw [hl] at hr
        cases hr
      | ok items =>
        rw [hl] at hr
        rw [h.list hl]
        exact hr
  | field f l =>
    simp only [Scope.read] at hr ⊢
    split at hr
    · cases hr
    · cases hl : sc.list l with
      | error e =>
        rw [hl] at hr
        cases hr
      | ok items =>
        rw [hl] at hr
        rw [h.list hl]
        exact hr

theorem copies_le (h : sc.Below sc') (c : Content) : c.copies sc ≤ c.copies sc' := by
  unfold Content.copies
  cases c.attribute? "input" with
  | none => exact Nat.le_refl _
  | some v =>
    dsimp only
    cases hl : sc.list (trimmed v) with
    | error e => exact Nat.zero_le _
    | ok items => exact Nat.le_of_eq (by rw [h.list hl])

theorem repeatCount_le (h : sc.Below sc') (f : Forest Node) :
    repeatCount sc f ≤ repeatCount sc' f := by
  induction f with
  | nil => exact Nat.le_refl _
  | node n cs fs ihc ihf =>
    have hblock := Nat.mul_le_mul (h.copies_le n.2) ihc
    unfold repeatCount
    split
    · omega
    · omega

end Scope.Below

/-! ## Repeat blocks -/

section

variable {formats : Formats} {scope scope' : Scope} {d d₁ : Document} {t t₁ : Cursors} {b : Block}

/-- A block that is expanded in a scope is expanded alike in a larger scope. -/
theorem expandRepeat_mono (hs : scope.Below scope') (o : Origin)
    (h : (d.expandRepeat formats scope t b).result = .ok (d₁, t₁)) :
    ((d.withOrigin o).expandRepeat formats scope' t b).result = .ok (d₁.withOrigin o, t₁) := by
  have hinput := Document.required_follows (E := fun _ => True) (d := d) (o := o)
    (.inr fun _ => trivial) b "input"
  unfold Document.expandRepeat at h ⊢
  obtain ⟨v, hv, h⟩ := Logged.bind_eq_ok h
  obtain ⟨items, hitems, h⟩ := Logged.bind_eq_ok h
  obtain ⟨-, -, h⟩ := Logged.bind_eq_ok h
  obtain ⟨rfl, rfl⟩ := Prod.mk.inj (Except.ok.inj h)
  have hlist : scope.list (trimmed v) = .ok items := by
    cases hl : scope.list (trimmed v) with
    | error e =>
      rw [hl] at hitems
      cases hitems
    | ok xs =>
      rw [hl] at hitems
      cases hitems
      rfl
  rw [Logged.result_bind, hinput.result_eq_ok hv]
  dsimp only [bind, Except.bind]
  rw [hs.list hlist, ← Document.replace_withOrigin]
  rfl

/-- **Repeat blocks.** A loop that ends in a scope ends alike in every larger scope, however many
rounds are left then. -/
theorem expandRepeatsFor_mono (hs : scope.Below scope') (o : Origin) {rounds done n : Nat}
    (more : Nat)
    (h : (d.expandRepeatsFor formats scope rounds done t).2.2.result = .ok n)
    (hend : (d.expandRepeatsFor formats scope rounds done t).1.nextRepeat? = none) :
    let r := d.expandRepeatsFor formats scope rounds done t
    let r' := (d.withOrigin o).expandRepeatsFor formats scope' (rounds + more) done t
    r'.1 = r.1.withOrigin o ∧ r'.2.1 = r.2.1 ∧ r'.2.2.result = .ok n := by
  induction rounds generalizing d done t with
  | zero =>
    have hnone : (d.withOrigin o).nextRepeat? = none := hend
    rw [expandRepeatsFor_none hnone]
    exact ⟨rfl, rfl, h⟩
  | succ rounds ih =>
    rw [Nat.add_right_comm]
    cases hn : d.nextRepeat? with
    | none =>
      have hnone : (d.withOrigin o).nextRepeat? = none := hn
      rw [expandRepeatsFor_none hn] at h ⊢
      rw [expandRepeatsFor_none hnone]
      exact ⟨rfl, rfl, h⟩
    | some b =>
      have hsome : (d.withOrigin o).nextRepeat? = some b := hn
      cases hy : (d.expandRepeat formats scope t b).result with
      | error e =>
        rw [expandRepeatsFor_error hn hy] at h
        cases h
      | ok s =>
        obtain ⟨d₁, t₁⟩ := s
        rw [expandRepeatsFor_ok hn hy] at h hend ⊢
        rw [expandRepeatsFor_ok hsome (expandRepeat_mono hs o hy)]
        exact ih h hend

theorem exists_repeatRounds (formats : Formats) (hs : scope.Below scope') (d : Document)
    (t : Cursors) : ∃ rounds more : Nat,
    (d.expandRepeats formats scope t =
      let r := d.expandRepeatsFor formats scope rounds 0 t
      (r.1, r.2.1, r.1.ended r.1.nextRepeat?.isSome r.2.2)) ∧
    ∀ o, (d.withOrigin o).expandRepeats formats scope' t =
      let r := (d.withOrigin o).expandRepeatsFor formats scope' (rounds + more) 0 t
      (r.1, r.2.1, r.1.ended r.1.nextRepeat?.isSome r.2.2) := by
  obtain ⟨more, hmore⟩ := Nat.exists_eq_add_of_le (hs.repeatCount_le d.tree)
  refine ⟨repeatCount scope d.tree + spareRounds, more, rfl, fun o => ?_⟩
  rw [Nat.add_right_comm, ← hmore]
  rfl

theorem expandRepeats_mono (hs : scope.Below scope') (o : Origin) {n : Nat}
    (h : (d.expandRepeats formats scope t).2.2.result = .ok n) :
    let r := d.expandRepeats formats scope t
    let r' := (d.withOrigin o).expandRepeats formats scope' t
    r'.1 = r.1.withOrigin o ∧ r'.2.1 = r.2.1 ∧ r'.2.2.result = .ok n := by
  obtain ⟨rounds, more, hr, hr'⟩ := exists_repeatRounds formats hs d t
  rw [hr] at h ⊢
  rw [hr' o]
  obtain ⟨m, hm, h⟩ := Logged.bind_eq_ok h
  cases hleft : (d.expandRepeatsFor formats scope rounds 0 t).1.nextRepeat? with
  | some b =>
    rw [hleft] at h
    cases h
  | none =>
    rw [hleft] at h
    obtain rfl : m = n := Except.ok.inj h
    obtain ⟨hdoc, hcursors, hresult⟩ := expandRepeatsFor_mono hs o more hm hleft
    refine ⟨hdoc, hcursors, ?_⟩
    have hnone :
        ((d.withOrigin o).expandRepeatsFor formats scope' (rounds + more) 0 t).1.nextRepeat? = none := by
      rw [hdoc]
      exact hleft
    dsimp only
    rw [hnone, Option.isSome_none, Document.ended_false]
    exact hresult

end

/-! ## Tags -/

namespace Frame

variable {E : SiteError → Prop} {fr fr' : Frame}

/-- A frame follows another, if its references and files do. -/
structure Following (E : SiteError → Prop) (fr fr' : Frame) : Prop where
  origin : Harmless E fr.origin fr'.origin
  reference : fr'.scope = fr.scope ∧ fr'.origin = fr.origin ∨
    (∀ e, E e) ∧ fr.scope.Below fr'.scope
  file : ∀ kind path line, Follows E Eq (fr.fileText kind path line) (fr'.fileText kind path line)

theorem value_follows (h : Following E fr fr') (line : Nat) (f : Tag.Found) (t : Cursors) :
    Follows E Eq (fr.value line f t) (fr'.value line f t) := by
  unfold value
  cases f.tag with
  | file kind path =>
    dsimp only
    cases SourceKind.ofTag? kind with
    | none => exact h.origin.fail fun o => .unsupportedInclude o.text line (String.ofList f.text) kind
    | some k =>
      refine (h.file k path line).bind fun v _ hv => ?_
      subst hv
      exact .refl _
  | reference r =>
    dsimp only
    rcases h.reference with ⟨hscope, horigin⟩ | ⟨hE, hbelow⟩
    · rw [hscope, horigin]
      exact .refl _
    · cases hr : fr.scope.read t r with
      | error why => exact .fail (hE _)
      | ok vt =>
        rw [hbelow.read hr]
        exact .refl _

/-- **Tags.** One pass over a text follows, if the values of its tags do. -/
theorem onePass_follows (h : Following E fr fr') (ps : List Piece) (t : Cursors) :
    Follows E Eq (fr.onePass ps t) (fr'.onePass ps t) := by
  induction ps generalizing t with
  | nil => exact .refl _
  | cons p rest ih =>
    cases p with
    | plain a =>
      refine (ih t).bind fun r _ hr => ?_
      subst hr
      exact .refl _
    | tag line text tag =>
      refine (value_follows h line ⟨[], text, [], tag⟩ t).bind fun v _ hv => ?_
      subst hv
      refine (ih v.2).bind fun r _ hr => ?_
      subst hr
      exact .refl _
    | fault line e => exact h.origin.fail fun o => .malformedTag o.text line e

theorem resolve_follows (h : Following E fr fr') (t : Cursors) (markup : String) :
    Follows E Eq (fr.resolve t markup) (fr'.resolve t markup) := by
  rw [resolve_eq, resolve_eq]
  refine (onePass_follows h _ t).bind fun r _ hr => ?_
  subst hr
  exact .refl _

end Frame

/-! ## Texts -/

section

variable {E : SiteError → Prop} {s : Site} {reader reader' : Site.Reader} {scope scope' : Scope}
  {o o' : Origin}

theorem refer_follows {sc sc' : Scope} {path : String}
    (h : Follows E Eq (reader path sc) (reader' path sc')) (ho : Harmless E o o') :
    Follows E Eq (s.refer reader path sc o.text) (s.refer reader' path sc' o'.text) := by
  unfold Site.refer
  exact .ite h (ho.fail fun o => .missingFile (s.path path) o.text)

theorem templates_follows (hr : ∀ path sc, Follows E Eq (reader path sc) (reader' path sc))
    (ho : Harmless E o o') : (s.templates reader).Follows E o o' (s.templates reader') := by
  refine ⟨fun input => ?_, fun template sc => refer_follows (hr template sc) ho⟩
  show Follows E Eq (Logged.lift (Scope.ofFile s.disk (s.path input) o.text))
    (Logged.lift (Scope.ofFile s.disk (s.path input) o'.text))
  unfold Scope.ofFile
  split
  · exact .refl _
  · exact ho.fail fun o => .missingFile (s.path input) o.text

theorem frame_follows (hr : ∀ path, Follows E Eq (reader path scope) (reader' path scope'))
    (h : scope' = scope ∧ o' = o ∨ (∀ e, E e) ∧ scope.Below scope') (ho : Harmless E o o') :
    (s.frame reader o scope).Following E (s.frame reader' o' scope') := by
  refine ⟨ho, h, fun kind path line => ?_⟩
  cases kind with
  | html => exact refer_follows (hr path) ho
  | markdown =>
    exact .ite (.refl _) (ho.fail fun o =>
      .missingFile (s.path path) (o.text ++ " (line " ++ toString line ++ ")"))

/-- The loops are hidden behind names here, as comparing what follows them would run them. -/
theorem finish_follows {d : Document} (hd : d.origin = o)
    (hr : ∀ path, Follows E Eq (reader path scope) (reader' path scope'))
    (h : scope' = scope ∧ o' = o ∨ (∀ e, E e) ∧ scope.Below scope') (ho : Harmless E o o') :
    Follows E Eq (s.finish reader o d scope) (s.finish reader' o' (d.withOrigin o') scope') := by
  have hframe := frame_follows (s := s) hr h ho
  rcases h with ⟨rfl, rfl⟩ | ⟨hE, hbelow⟩
  · rw [← hd, Document.withOrigin_self, hd]
    exact .bind_left _ fun _ => Frame.resolve_follows hframe _ _
  · refine .of_ok hE fun m hm => ⟨m, ?_, rfl⟩
    unfold Site.finish at hm ⊢
    obtain ⟨n, hn, hm⟩ := Logged.bind_eq_ok hm
    have hloop := expandRepeats_mono hbelow o' hn
    generalize d.expandRepeats s.formats scope [] = r at hm hloop
    generalize (d.withOrigin o').expandRepeats s.formats scope' [] = r' at hloop ⊢
    obtain ⟨hdoc, hcursors, hresult⟩ := hloop
    have hm : ((s.frame reader o scope).resolve r.2.1 (r.1.serialize s.formats)).result = .ok m := hm
    have hmarkup := (Frame.resolve_follows hframe _ _).result_eq_ok hm
    rw [Logged.result_bind, hresult, hdoc, hcursors]
    dsimp only [bind, Except.bind]
    rw [Document.serialize_withOrigin]
    exact hmarkup

theorem filled_follows (hr : ∀ path sc, Follows E Eq (reader path sc) (reader' path sc))
    (ho : Harmless E o o') (markup : String) (isRoot : Bool) :
    Follows E (fun _ _ => (s.filled reader o markup isRoot).1.origin = o ∧
        (s.filled reader' o' markup isRoot).1 = (s.filled reader o markup isRoot).1.withOrigin o')
      (s.filled reader o markup isRoot).2 (s.filled reader' o' markup isRoot).2 := by
  unfold Site.filled
  rw [Document.load_withOrigin s.formats markup o o' isRoot]
  exact (expandTemplates_follows (templates_follows hr ho) ho rfl).mono (fun _ h => h)
    fun _ _ h => h.2

/-- **Texts.** The expansion of a text follows, if the files that it refers to do: those of its
template blocks in scopes of their own, those of its includes in its own scope. The scope is the same
with the same origin, or it may be larger with any origin where no failure counts. -/
theorem expand_follows (ht : ∀ path sc, Follows E Eq (reader path sc) (reader' path sc))
    (hr : ∀ path, Follows E Eq (reader path scope) (reader' path scope'))
    (h : scope' = scope ∧ o' = o ∨ (∀ e, E e) ∧ scope.Below scope')
    (depth depth' : Nat) (markup : String) (isRoot : Bool) :
    Follows E Eq (s.expand reader depth o markup scope isRoot)
      (s.expand reader' depth' o' markup scope' isRoot) := by
  have ho : Harmless E o o' := h.imp And.right And.left
  obtain ⟨record, hx⟩ := expand_eq s reader depth o markup isRoot
  obtain ⟨record', hy⟩ := expand_eq s reader' depth' o' markup isRoot
  rw [hx, hy]
  refine Follows.bind (R := fun _ _ => True) (.ok rfl rfl trivial) fun _ _ _ => ?_
  refine (filled_follows ht ho markup isRoot).bind fun n n' hn => ?_
  rw [hn.2]
  exact finish_follows hn.1 hr h ho

end

end StaticSite
