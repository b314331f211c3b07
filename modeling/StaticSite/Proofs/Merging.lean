import StaticSite.Html.Serialize
import StaticSite.Proofs.Subtrees

/-!
Markup up to the merging of adjacent texts.

A parser makes one text out of texts that stand side by side, and a tree that has been changed may
hold them apart. `merged` is the tree as a parser would make it. `Same` says the same as a
congruence, with the one law that joins two texts.

* `same_iff`: `Same` relates two trees exactly if their merged trees are equal;
* `Same.append`, `Same.first`: `Same` is kept by putting trees together;
* `Same.serialize_eq`: both are written as the same text;
* `Same.filter_labels`, `Same.all_iff`: both have the same nodes other than texts.
-/

namespace StaticSite

namespace Forest

/-- A node before others. A text before a text makes one text with it. -/
def joined : Content → Markup → Markup → Markup
  | .text s, .nil, .node (.text t) .nil rest => .node (.text (s ++ t)) .nil rest
  | c, cs, rest => .node c cs rest

/-- A tree in which adjacent texts have been merged. -/
def merged : Markup → Markup
  | .nil => .nil
  | .node c cs rest => joined c (merged cs) (merged rest)

/-- Equal but for texts that one of the trees holds apart. -/
inductive Same : Markup → Markup → Prop
  | refl (f : Markup) : Same f f
  | symm {f g : Markup} : Same f g → Same g f
  | trans {f g h : Markup} : Same f g → Same g h → Same f h
  | join (s t : String) (rest : Markup) :
      Same (.node (.text s) .nil (.node (.text t) .nil rest)) (.node (.text (s ++ t)) .nil rest)
  | node (c : Content) {cs cs' fs fs' : Markup} :
      Same cs cs' → Same fs fs' → Same (.node c cs fs) (.node c cs' fs')

theorem same_joined (c : Content) (cs rest : Markup) : Same (.node c cs rest) (joined c cs rest) := by
  unfold joined
  split
  · exact .join _ _ _
  · exact .refl _

theorem same_merged (f : Markup) : Same f f.merged := by
  induction f with
  | nil => exact .refl _
  | node c cs fs ihc ihf => exact .trans (.node c ihc ihf) (same_joined c _ _)

/-- It does not matter in which order three texts are merged. -/
theorem joined_joined (s t : String) (rest : Markup) :
    joined (.text s) .nil (joined (.text t) .nil rest) = joined (.text (s ++ t)) .nil rest := by
  cases rest with
  | nil => rfl
  | node c cs fs =>
    cases c with
    | text u =>
      cases cs with
      | nil => simp only [joined, String.append_assoc]
      | node c cs gs => rfl
    | comment u => rfl
    | doctype u => rfl
    | element v n as => rfl

theorem Same.merged_eq {f g : Markup} (h : Same f g) : f.merged = g.merged := by
  induction h with
  | refl f => rfl
  | symm _ ih => exact ih.symm
  | trans _ _ ih₁ ih₂ => exact ih₁.trans ih₂
  | join s t rest => exact joined_joined s t rest.merged
  | node c _ _ ihc ihf => simp only [merged, ihc, ihf]

theorem same_iff {f g : Markup} : Same f g ↔ f.merged = g.merged := by
  refine ⟨Same.merged_eq, fun h => (same_merged f).trans ?_⟩
  rw [h]
  exact (same_merged g).symm

/-! ## Putting trees together -/

namespace Same

variable {f f' g g' : Markup}

theorem append_right (h : Same f f') (g : Markup) : Same (f ++ g) (f' ++ g) := by
  induction h with
  | refl f => exact .refl _
  | symm _ ih => exact ih.symm
  | trans _ _ ih₁ ih₂ => exact ih₁.trans ih₂
  | join s t rest => exact .join s t (rest ++ g)
  | node c hc _ _ ihf => exact .node c hc ihf

theorem append_left (f : Markup) (h : Same g g') : Same (f ++ g) (f ++ g') := by
  induction f with
  | nil => exact h
  | node c cs fs _ ih => exact .node c (.refl cs) ih

theorem append (hf : Same f f') (hg : Same g g') : Same (f ++ g) (f' ++ g') :=
  (hf.append_right g).trans (.append_left f' hg)

theorem tree (c : Content) (h : Same f f') : Same (Forest.tree c f) (Forest.tree c f') :=
  .node c h (.refl _)

theorem replicate (n : Nat) (h : Same f f') : Same (f.replicate n) (f'.replicate n) := by
  induction n with
  | zero => exact .refl _
  | succ n ih => exact h.append ih

/-- What is put in the place of a node. -/
theorem first {p : Content → Bool} {c : Content} {cs new new' m r : Markup} (h : Same new new')
    (hr : First p c cs new m r) : ∃ r', First p c cs new' m r' ∧ Same r r' := by
  induction hr with
  | here fs hc => exact ⟨_, .here fs hc, h.append_right fs⟩
  | inside b fs hb _ ih =>
    obtain ⟨r', hr', hs⟩ := ih
    exact ⟨_, .inside b fs hb hr', .node b hs (.refl fs)⟩
  | behind b hb hbs _ ih =>
    obtain ⟨r', hr', hs⟩ := ih
    exact ⟨_, .behind b hb hbs hr', .node b (.refl _) hs⟩

/-! ## What does not see the difference -/

theorem filter_labels (h : Same f g) {p : Content → Bool} (hp : ∀ s, p (.text s) = false) :
    f.labels.filter p = g.labels.filter p := by
  induction h with
  | refl f => rfl
  | symm _ ih => exact ih.symm
  | trans _ _ ih₁ ih₂ => exact ih₁.trans ih₂
  | join s t rest => simp [labels, hp]
  | node c _ _ ihc ihf => simp only [labels, List.filter_cons, List.filter_append, ihc, ihf]

theorem all_iff (h : Same f g) {P : Content → Markup → Prop} (ht : ∀ s cs, P (.text s) cs)
    (hp : ∀ c cs cs', Same cs cs' → (P c cs ↔ P c cs')) : f.All P ↔ g.All P := by
  induction h with
  | refl f => exact Iff.rfl
  | symm _ ih => exact ih.symm
  | trans _ _ ih₁ ih₂ => exact ih₁.trans ih₂
  | join s t rest => simp [All, ht]
  | node c hc _ ihc ihf => simp only [All, hp c _ _ hc, ihc, ihf]

theorem writeAfter_eq (h : Same f g) (done : String) (raw : Bool) :
    Html.writeAfter done raw f = Html.writeAfter done raw g := by
  induction h generalizing done raw with
  | refl f => rfl
  | symm _ ih => exact (ih done raw).symm
  | trans _ _ ih₁ ih₂ => exact (ih₁ done raw).trans (ih₂ done raw)
  | join s t rest =>
    cases raw with
    | true => simp [Html.writeAfter, String.append_assoc]
    | false => simp [Html.writeAfter, String.append_assoc, Html.escapeText, String.ofList_append]
  | node c _ _ ihc ihf =>
    cases c with
    | text s => exact ihf _ _
    | comment s => exact ihf _ _
    | doctype s => exact ihf _ _
    | element v n as =>
      simp only [Html.writeAfter]
      split
      · exact ihf _ _
      · rw [ihc, ihf]

/-- A tree is written without regard to where its texts are held apart. -/
theorem serialize_eq (h : Same f g) : Html.serialize f = Html.serialize g := h.writeAfter_eq "" false

end Same

end Forest

end StaticSite
