import StaticSite.Expansion.Blocks
import StaticSite.Proofs.Numbering
import StaticSite.Proofs.Outcome

/-!
What a loop over template blocks still has to do.

The loop takes the first template block that has not been handled, out of a tree that every round
changes: content is read again, and so consists of new nodes, and template blocks that a template
has brought along count as handled. What the loop does is told by the tree with a mark on every
block that it will still come to. All template blocks in the content of a marked block are marked,
because they will be read again.

* `templateTree`: the structural recursion that the loop stands for;
* `marks`, `markedTree`: a tree with the blocks that are still to come, and the recursion over it;
* `first_marks`: a block that is done loses its mark, and the marks around it stay;
* `markedTree_filledMarks`: what is still to be done to a template that has been filled.
-/

namespace StaticSite

open Forest

/-! ## The recursion -/

def Content.isTemplate (c : Content) : Bool := c.directive? == some .template

/-- The scope of a block's own data. A block without data has the empty scope. -/
def Content.inputScope (c : Content) (source : TemplateSource) (origin : Origin) :
    Except SiteError Scope :=
  match (c.attribute? "input").filter fun v => !(trimmed v).isEmpty with
  | some input => source.scope (trimmed input) origin
  | none => .ok Scope.empty

/-- The name of the template that a block asks for, and its markup, read in the scope of the block's
own data. -/
def Content.template (c : Content) (source : TemplateSource) (origin : Origin) :
    Except SiteError (String × String) := do
  let template ← c.required origin "template"
  let scope ← c.inputScope source origin
  let markup ← (source.markup (trimmed template) scope origin).result
  return (trimmed template, markup)

/-- What becomes of a template block: its node, with the nodes of the template, in which the
expanded content takes the place of the first marker. -/
def fillBlock (formats : Formats) (source : TemplateSource) (origin : Origin) (c : Content)
    (inner : Outcome) : Outcome :=
  match c.template source origin with
  | .error e => .error e
  | .ok (name, markup) =>
    ((inner.into (formats.read markup)).wrap c).named name

def templateRule (formats : Formats) (source : TemplateSource) (origin : Origin) (c : Content) :
    Option (Outcome → Outcome) :=
  if c.isTemplate then some (fillBlock formats source origin c) else none

/-- A tree with its template blocks expanded, and their templates in the order they came up. -/
def templateTree (formats : Formats) (source : TemplateSource) (origin : Origin) (m : Markup) :
    Outcome :=
  m.expand (fun c => c) (templateRule formats source origin)

theorem respects_templateRule (formats : Formats) (source : TemplateSource) (origin : Origin) :
    Respects (templateRule formats source origin) := by
  refine ⟨fun s => rfl, fun c g hg x y hxy => ?_⟩
  unfold templateRule at hg
  split at hg
  · cases hg
    unfold fillBlock
    split
    · exact .refl _
    · exact ((hxy.into _).wrap c).named _
  · cases hg

/-! ## Marks -/

/-- A tree in which every template block is to be expanded. -/
def allMarked (m : Markup) : Forest (Content × Bool) := m.map fun c => (c, c.isTemplate)

/-- Whether the loop will still come to a node by itself. -/
def pending (handled : List Nat) (n : Node) : Bool :=
  n.isDirective .template && !handled.contains n.1

/-- A tree with the blocks that are still to come. The content of such a block is read again. -/
def marks (handled : List Nat) : Forest Node → Forest (Content × Bool)
  | .nil => .nil
  | .node n cs fs =>
    if pending handled n then .node (n.2, true) (allMarked (cs.map Prod.snd)) (marks handled fs)
    else .node (n.2, false) (marks handled cs) (marks handled fs)

def markRule (formats : Formats) (source : TemplateSource) (origin : Origin) (a : Content × Bool) :
    Option (Outcome → Outcome) :=
  if a.2 then some (fillBlock formats source origin a.1) else none

/-- What is still to be done to a tree with marks. -/
def markedTree (formats : Formats) (source : TemplateSource) (origin : Origin)
    (v : Forest (Content × Bool)) : Outcome :=
  v.expand Prod.fst (markRule formats source origin)

theorem markedTree_allMarked (formats : Formats) (source : TemplateSource) (origin : Origin)
    (m : Markup) :
    markedTree formats source origin (allMarked m) = templateTree formats source origin m :=
  expand_map _ _ _ m

theorem map_fst_allMarked (m : Markup) : (allMarked m).map Prod.fst = m := by
  rw [allMarked, Forest.map_map]
  exact Forest.map_id m

section

variable {handled handled' : List Nat} {f : Forest Node}

theorem marks_append (f g : Forest Node) :
    marks handled (f ++ g) = marks handled f ++ marks handled g := by
  induction f with
  | nil => rfl
  | node n cs fs _ ih =>
    simp only [node_append, marks, ih]
    split <;> rfl

theorem marks_congr (h : ∀ n ∈ f.labels, pending handled' n = pending handled n) :
    marks handled' f = marks handled f := by
  induction f with
  | nil => rfl
  | node n cs fs ihc ihf =>
    simp only [labels, List.mem_cons, List.mem_append] at h
    simp only [marks, h n (.inl rfl), ihc fun n hn => h n (.inr (.inl hn)),
      ihf fun n hn => h n (.inr (.inr hn))]

/-- Where nothing is to come, nothing is marked. -/
theorem marks_of_none (h : ∀ n ∈ f.labels, pending handled n = false) :
    marks handled f = f.map fun n => (n.2, false) := by
  induction f with
  | nil => rfl
  | node n cs fs ihc ihf =>
    simp only [labels, List.mem_cons, List.mem_append] at h
    simp only [marks, h n (.inl rfl), Bool.false_eq_true, if_false, map,
      ihc fun n hn => h n (.inr (.inl hn)), ihf fun n hn => h n (.inr (.inr hn))]

/-- Where nothing has been handled, all is to come. -/
theorem marks_of_all (h : ∀ n ∈ f.labels, pending handled n = n.2.isTemplate) :
    marks handled f = allMarked (f.map Prod.snd) := by
  induction f with
  | nil => rfl
  | node n cs fs ihc ihf =>
    simp only [labels, List.mem_cons, List.mem_append] at h
    have hc := ihc fun n hn => h n (.inr (.inl hn))
    have hf := ihf fun n hn => h n (.inr (.inr hn))
    simp only [marks, h n (.inl rfl), hc, hf]
    cases ht : n.2.isTemplate with
    | true => simp [allMarked, map, ht]
    | false => simp [allMarked, map, ht]

theorem find?_marks :
    (marks handled f).find? Prod.snd =
      (f.find? (pending handled)).map fun r => ((r.1.2, true), allMarked (r.2.map Prod.snd)) := by
  induction f with
  | nil => rfl
  | node n cs fs ihc ihf =>
    unfold marks
    cases hp : pending handled n with
    | true => simp [find?, hp]
    | false =>
      simp only [Bool.false_eq_true, if_false, find?, hp, ihc, ihf]
      cases find? (pending handled) cs <;> rfl

/-- A block that is done loses its mark and gets other content. The numbers tell it from the nodes
around it, whose marks stay. -/
theorem first_marks {n : Nat} {c : Content} {cs nodes f' : Forest Node} (hn : f.numbers.Nodup)
    (hf : First (pending handled) (n, c) cs (tree (n, c) nodes) f f')
    (hdone : pending handled' (n, c) = false)
    (hsame : ∀ m ∈ f.labels, m.1 ≠ n → pending handled' m = pending handled m) :
    First Prod.snd (c, true) (allMarked (cs.map Prod.snd)) (tree (c, false) (marks handled' nodes))
      (marks handled f) (marks handled' f') := by
  induction hf with
  | here fs hb =>
    simp only [numbers, labels, List.map_cons, List.map_append, List.nodup_cons, List.mem_append,
      not_or] at hn
    simp only [labels, List.mem_cons, List.mem_append] at hsame
    have hrest : marks handled' fs = marks handled fs := marks_congr fun m hm =>
      hsame m (.inr (.inr hm)) fun e => hn.1.2 (List.mem_map.2 ⟨m, hm, e⟩)
    simp only [marks, hb, if_true, tree, node_append, nil_append, hdone, Bool.false_eq_true,
      if_false, hrest]
    exact .here (marks handled fs) rfl
  | inside b fs hb h ih =>
    simp only [numbers, labels, List.map_cons, List.map_append, List.nodup_cons,
      List.nodup_append, List.mem_append, not_or] at hn
    obtain ⟨⟨hbs, -⟩, hnb, -, hdisj⟩ := hn
    simp only [labels, List.mem_cons, List.mem_append] at hsame
    have hmem := List.mem_map_of_mem (f := Prod.fst) h.mem.2
    have hrest : marks handled' fs = marks handled fs := marks_congr fun m hm =>
      hsame m (.inr (.inr hm)) fun e => hdisj _ hmem _ (List.mem_map_of_mem hm) e.symm
    have hb' : pending handled' b = false :=
      (hsame b (.inl rfl) fun e => hbs (e ▸ hmem)).trans hb
    simp only [marks, hb, hb', Bool.false_eq_true, if_false, hrest]
    exact .inside _ _ rfl (ih hnb fun m hm => hsame m (.inr (.inl hm)))
  | @behind b bs fs fs' hb hnone h ih =>
    simp only [numbers, labels, List.map_cons, List.map_append, List.nodup_cons,
      List.nodup_append, List.mem_append, not_or] at hn
    obtain ⟨⟨-, hfs⟩, -, hnf, hdisj⟩ := hn
    simp only [labels, List.mem_cons, List.mem_append] at hsame
    have hmem := List.mem_map_of_mem (f := Prod.fst) h.mem.2
    have hinner : marks handled' bs = marks handled bs := marks_congr fun m hm =>
      hsame m (.inr (.inl hm)) fun e => hdisj _ (List.mem_map_of_mem hm) _ hmem e
    have hb' : pending handled' b = false :=
      (hsame b (.inl rfl) fun e => hfs (e ▸ hmem)).trans hb
    simp only [marks, hb, hb', Bool.false_eq_true, if_false, hinner]
    refine .behind _ rfl ?_ (ih hnf fun m hm => hsame m (.inr (.inr hm)))
    rw [find?_marks, hnone]
    rfl

end

/-! ## Filling a block -/

/-- A template without marks, with marked content in the place of its first marker. -/
def filled? (m : Markup) (x : Forest (Content × Bool)) : Option (Forest (Content × Bool)) :=
  (m.map fun c => (c, false)).replaceFirst? (fun a => a.1.isMarker) (x ++ ·)

/-- A template that has been filled with content in which every block is to be expanded. Without a
marker the content is lost. -/
def filledMarks (m inner : Markup) : Forest (Content × Bool) :=
  (filled? m (allMarked inner)).getD (m.map fun c => (c, false))

section

variable {formats : Formats} {source : TemplateSource} {origin : Origin} {m : Markup}
  {x r : Forest (Content × Bool)}

theorem markedTree_plain (m : Markup) :
    markedTree formats source origin (m.map fun c => (c, false)) = .ok (m, []) := by
  unfold markedTree
  rw [expand_of_none, Forest.map_map]
  · exact congrArg (fun m => Except.ok (m, [])) (Forest.map_id m)
  · intro a ha
    rw [labels_map] at ha
    obtain ⟨c, -, rfl⟩ := List.mem_map.1 ha
    rfl

theorem markedTree_append (v w : Forest (Content × Bool)) :
    markedTree formats source origin (v ++ w) =
      (markedTree formats source origin v).seq (markedTree formats source origin w) :=
  expand_append _ _ v w

theorem markedTree_unmarked (c : Content) (v w : Forest (Content × Bool)) :
    markedTree formats source origin (.node (c, false) v w) =
      ((markedTree formats source origin v).wrap c).seq (markedTree formats source origin w) :=
  rfl

theorem filled?_eq_none_iff : filled? m x = none ↔ m.find? Content.isMarker = none := by
  unfold filled?
  rw [replaceFirst?_eq_none_iff, find?_map]
  cases m.find? Content.isMarker <;> simp

theorem exists_filled? (x : Forest (Content × Bool)) {y : Content × Markup}
    (h : m.find? Content.isMarker = some y) : ∃ r, filled? m x = some r := by
  cases hr : filled? m x with
  | some r => exact ⟨r, rfl⟩
  | none => simp [filled?_eq_none_iff.1 hr] at h

/-- What is still to be done to a filled template is what is to be done to the content in it. -/
theorem markedTree_filled (h : filled? m x = some r) :
    markedTree formats source origin r = (markedTree formats source origin x).into m := by
  induction m generalizing r with
  | nil => cases h
  | node c cs fs ihc ihf =>
    unfold filled? at h ihc ihf
    simp only [map, replaceFirst?] at h
    cases hm : c.isMarker with
    | true =>
      simp only [hm, if_true, Option.some.injEq] at h
      subst h
      rw [markedTree_append, markedTree_append, markedTree_plain, markedTree_plain,
        Outcome.into_marker _ hm]
    | false =>
      simp only [hm, Bool.false_eq_true, if_false] at h
      cases hc : cs.find? Content.isMarker with
      | some y =>
        obtain ⟨r₁, hr⟩ := exists_filled? x hc
        unfold filled? at hr
        rw [hr] at h
        cases h
        rw [markedTree_unmarked, markedTree_plain, ihc hr, Outcome.into_content _ hm hc]
      | none =>
        have hr : filled? cs x = none := filled?_eq_none_iff.2 hc
        unfold filled? at hr
        rw [hr] at h
        cases hf : fs.find? Content.isMarker with
        | some y =>
          obtain ⟨r₁, hr⟩ := exists_filled? x hf
          unfold filled? at hr
          rw [hr] at h
          cases h
          rw [markedTree_unmarked, markedTree_plain, ihf hr, Outcome.into_rest _ hm hc hf]
          rfl
        | none =>
          have hr : filled? fs x = none := filled?_eq_none_iff.2 hf
          unfold filled? at hr
          rw [hr] at h
          cases h

end

theorem markedTree_filledMarks (formats : Formats) (source : TemplateSource) (origin : Origin)
    (m inner : Markup) :
    markedTree formats source origin (filledMarks m inner) =
      (templateTree formats source origin inner).into m := by
  unfold filledMarks
  cases hr : filled? m (allMarked inner) with
  | some r => rw [Option.getD_some, markedTree_filled hr, markedTree_allMarked]
  | none =>
    rw [Option.getD_none, markedTree_plain, Outcome.into_of_none _ (filled?_eq_none_iff.1 hr)]

/-- A template in which no block is to come, with content in the place of its marker. -/
theorem marks_replaceFirst? {handled : List Nat} {g : Forest Node} (content : Forest Node)
    (hg : ∀ n ∈ g.labels, pending handled n = false) :
    (g.replaceFirst? (fun n => n.isDirective .marker) (content ++ ·)).map (marks handled) =
      filled? (g.map Prod.snd) (marks handled content) := by
  unfold filled?
  rw [Forest.map_map]
  induction g with
  | nil => rfl
  | node n cs fs ihc ihf =>
    simp only [labels, List.mem_cons, List.mem_append] at hg
    have hcs := marks_of_none fun m hm => hg m (.inr (.inl hm))
    have hfs := marks_of_none fun m hm => hg m (.inr (.inr hm))
    have hc := ihc fun m hm => hg m (.inr (.inl hm))
    have hf := ihf fun m hm => hg m (.inr (.inr hm))
    rw [← hcs] at hc
    rw [← hfs] at hf
    simp only [map, replaceFirst?, ← hcs, ← hfs, ← hc, ← hf]
    cases hm : n.isDirective .marker with
    | true =>
      have hm' : n.2.isMarker = true := hm
      simp only [hm', if_true, Option.map_some, marks_append]
    | false =>
      have hm' : n.2.isMarker = false := hm
      simp only [hm', Bool.false_eq_true, if_false]
      cases cs.replaceFirst? (fun n => n.isDirective .marker) (content ++ ·) with
      | some cs' => simp [marks, hg n (.inl rfl)]
      | none =>
        cases fs.replaceFirst? (fun n => n.isDirective .marker) (content ++ ·) with
        | some fs' => simp [marks, hg n (.inl rfl)]
        | none => rfl

end StaticSite
