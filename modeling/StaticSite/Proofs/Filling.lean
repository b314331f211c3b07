import StaticSite.Proofs.Templates

/-!
What filling a block does to a document, and what it leaves alone.

A block may be filled that lies in the tree, or one that has left it and is still held. In both
cases the content of the block is all that changes where it lies, and the nodes that it loses are
released.

* `Document.Made.bounded`: no number is used before it is given out;
* `Document.setChildren_found`: a block gets other content where it lies;
* `Document.Filled`, `Document.filled_fill`: all that filling does.
-/

namespace StaticSite

open Forest

namespace Document

variable {formats : Formats} {d : Document} {b : Block}

/-! ## What operations leave alone -/

/-- Other content leaves everything but the two forests alone. -/
theorem setChildren_frame (d : Document) (b : Block) (nodes : Forest Node) :
    (d.setChildren b nodes).fresh = d.fresh ∧ (d.setChildren b nodes).kept = d.kept ∧
      (d.setChildren b nodes).origin = d.origin := by
  unfold setChildren
  dsimp only
  split
  · exact ⟨rfl, rfl, rfl⟩
  · split <;> exact ⟨rfl, rfl, rfl⟩

theorem replace_frame (formats : Formats) (d : Document) (b : Block) (markup : String) :
    (d.replace formats b markup).fresh = ((formats.read markup).number d.fresh).2 ∧
      (d.replace formats b markup).handled = d.handled ∧
      (d.replace formats b markup).kept = d.kept ∧
      (d.replace formats b markup).origin = d.origin := by
  unfold replace parseNodes Formats.read
  dsimp only
  split
  · exact ⟨rfl, rfl, rfl, rfl⟩
  · split <;> exact ⟨rfl, rfl, rfl, rfl⟩

theorem appendTo_frame (formats : Formats) (d : Document) (article : Nat) (markup : String) :
    (d.appendTo formats article markup).fresh = ((formats.parseFragment markup).number d.fresh).2 ∧
      (d.appendTo formats article markup).handled = d.handled ∧
      (d.appendTo formats article markup).kept = d.kept ∧
      (d.appendTo formats article markup).origin = d.origin := by
  unfold appendTo parseNodes
  dsimp only
  split <;> exact ⟨rfl, rfl, rfl, rfl⟩

/-! ## Numbers in use -/

/-- What is left of nodes was among them. -/
theorem mem_labels_of_release {p : Node → Bool} {f : Forest Node} {n : Node}
    (hn : n ∈ (release p f).labels) : n ∈ f.labels := by
  have hlist (l : List Node) : (ofList l).labels = l := by
    induction l with
    | nil => rfl
    | cons n l ih => rw [ofList, labels, ih]; rfl
  induction f with
  | nil => exact hn
  | node m cs fs _ ih =>
    unfold release at hn
    split at hn
    · simp only [labels, List.mem_cons, List.mem_append] at hn ⊢
      exact hn.imp_right fun hn => hn.imp_right ih
    · simp only [labels_append, hlist, labels, List.mem_cons, List.mem_append,
        List.mem_filter] at hn ⊢
      exact .inr (hn.imp And.left ih)

/-- The nodes of a document, in the tree or out of it. -/
def nodes (d : Document) : List Node := (d.tree ++ d.detached).labels

/-- A block that is there was there with all that it holds. -/
theorem mem_nodes_of_node? {a : Node} {cs : Forest Node} (hb : d.node? b = some (a, cs)) {n : Node}
    (hn : n ∈ (Forest.tree a cs).labels) : n ∈ d.nodes := by
  obtain ⟨f', hfirst⟩ := exists_first hb .nil
  exact hfirst.labels_sublist.subset hn

/-- What a block loses was there. -/
theorem mem_nodes_of_released {p : Node → Bool} {n : Node} {g : Node → Forest Node → Forest Node}
    (hg : ∀ a cs, ∀ m ∈ (g a cs).labels, m ∈ (Forest.tree a cs).labels)
    (hn : n ∈ (match d.node? b with
      | some (a, cs) => release p (g a cs)
      | none => .nil).labels) : n ∈ d.nodes := by
  cases hb : d.node? b with
  | none =>
    rw [hb] at hn
    cases hn
  | some r =>
    rw [hb] at hn
    exact mem_nodes_of_node? hb (hg _ _ n (mem_labels_of_release hn))

theorem mem_nodes_setChildren {new : Forest Node} {n : Node}
    (hn : n ∈ (d.setChildren b new).nodes) : n ∈ d.nodes ∨ n ∈ new.labels := by
  have hchange {f f' : Forest Node} (hf : f.changeFirst? (·.1 == b.id) (fun _ => new) = some f')
      (hn : n ∈ f'.labels) : n ∈ f.labels ∨ n ∈ new.labels := by
    obtain ⟨a, cs, hfirst⟩ := first_of_changeFirst? hf
    rcases hfirst.mem_labels_or hn with hn | hn
    · exact .inl hn
    · simp only [Forest.tree, labels, List.append_nil, List.mem_cons] at hn
      rcases hn with rfl | hn
      · exact .inl hfirst.mem.2
      · exact .inr hn
  have hreleased (hn : n ∈ (match d.node? b with
      | some (_, cs) => release d.isHeld cs
      | none => .nil).labels) : n ∈ d.nodes :=
    mem_nodes_of_released (g := fun _ cs => cs) (fun a cs m hm => by
      simp only [Forest.tree, labels, List.append_nil]
      exact List.mem_cons_of_mem a hm) hn
  unfold Document.nodes setChildren at hn
  unfold Document.nodes at hreleased ⊢
  dsimp only at hn
  simp only [labels_append, List.mem_append] at hreleased ⊢
  split at hn
  · next tree htree =>
    simp only [labels_append, List.mem_append] at hn
    rcases hn with hn | hn | hn
    · exact (hchange htree hn).imp_left .inl
    · exact .inl (.inr hn)
    · exact .inl (hreleased hn)
  · split at hn
    · next detached hdetached =>
      simp only [labels_append, List.mem_append] at hn
      rcases hn with hn | hn | hn
      · exact .inl (.inl hn)
      · exact (hchange hdetached hn).imp_left .inr
      · exact .inl (hreleased hn)
    · simp only [labels_append, List.mem_append] at hn
      exact .inl hn

theorem mem_nodes_replace {markup : String} {n : Node}
    (hn : n ∈ (d.replace formats b markup).nodes) :
    n ∈ d.nodes ∨ n ∈ ((formats.read markup).number d.fresh).1.labels := by
  have hreleased (hn : n ∈ (match d.node? b with
      | some (a, cs) => release d.isHeld (.tree a cs)
      | none => .nil).labels) : n ∈ d.nodes :=
    mem_nodes_of_released (g := fun a cs => .tree a cs) (fun _ _ _ hm => hm) hn
  unfold Document.nodes replace parseNodes at hn
  unfold Document.nodes at hreleased ⊢
  unfold Formats.read
  dsimp only at hn
  simp only [labels_append, List.mem_append] at hreleased ⊢
  split at hn
  · next tree htree =>
    obtain ⟨a, cs, hfirst⟩ := first_of_replaceFirst? htree
    simp only [labels_append, List.mem_append] at hn
    rcases hn with hn | hn | hn
    · exact (hfirst.mem_labels_or hn).imp_left .inl
    · exact .inl (.inr hn)
    · exact .inl (hreleased hn)
  · split at hn
    · next detached hdetached =>
      simp only [labels_append, List.mem_append] at hn
      rcases hn with hn | hn | hn
      · exact .inl (.inl hn)
      · exact (mem_labels_of_replaceBelow? hdetached hn).imp_left .inr
      · exact .inl (hreleased hn)
    · simp only [labels_append, List.mem_append] at hn
      exact .inl hn

theorem mem_nodes_appendTo {article : Nat} {markup : String} {n : Node}
    (hn : n ∈ (d.appendTo formats article markup).nodes) :
    n ∈ d.nodes ∨ n ∈ ((formats.parseFragment markup).number d.fresh).1.labels := by
  unfold Document.nodes appendTo parseNodes at hn
  unfold Document.nodes
  dsimp only at hn
  simp only [labels_append, List.mem_append] at hn ⊢
  split at hn
  · next tree htree =>
    obtain ⟨a, cs, hfirst⟩ := first_of_changeFirst? htree
    rcases hn with hn | hn
    · rcases hfirst.mem_labels_or hn with hn | hn
      · exact .inl (.inl hn)
      · simp only [Forest.tree, labels, labels_append, List.append_nil, List.mem_cons,
          List.mem_append] at hn
        rcases hn with rfl | hn | hn
        · exact .inl (.inl hfirst.mem.2)
        · refine .inl (.inl (hfirst.labels_sublist.subset ?_))
          simp only [Forest.tree, labels, List.append_nil]
          exact List.mem_cons_of_mem a hn
        · exact .inr hn
    · exact .inl (.inr hn)
  · exact .inl hn

/-- No number is used before it is given out: by no node, also out of the tree, and by no block that
is handled. -/
structure Bounded (d : Document) : Prop where
  nodes : ∀ n ∈ d.nodes, n.1 < d.fresh
  handled : ∀ i ∈ d.handled, i < d.fresh

theorem Made.bounded (h : d.Made formats) : d.Bounded := by
  induction h with
  | load markup origin isRoot =>
    refine ⟨fun n hn => ?_, fun i hi => absurd hi List.not_mem_nil⟩
    rw [Document.nodes, labels_append] at hn
    rcases List.mem_append.1 hn with hn | hn
    · exact (bounds_of_mem_number hn).2
    · exact absurd hn List.not_mem_nil
  | @nextTemplate d _ _ hd hn ih =>
    obtain ⟨n, c, cs, hf, hr⟩ := nextTemplate?_eq_some hn
    cases hr
    refine ⟨ih.nodes, List.forall_mem_append.2 ⟨ih.handled, List.forall_mem_singleton.2 ?_⟩⟩
    exact (hd.numbered.bounds n (List.mem_map_of_mem (mem_labels_of_find? hf).2)).2
  | keep b _ ih => exact ⟨ih.nodes, ih.handled⟩
  | @fill d b markup inner _ ih =>
    have hle := nodes_le_filling formats d markup inner
    obtain ⟨hwithin, hle'⟩ := within_filling formats d markup inner
    have hfresh : (d.fill formats b markup inner).2.fresh = (d.filling formats markup inner).2 := by
      rw [fill_eq]
      exact (setChildren_frame _ _ _).1
    refine ⟨fun n hn => ?_, fun i hi => ?_⟩
    · rw [hfresh]
      rw [fill_eq] at hn
      rcases mem_nodes_setChildren (d := { d with fresh := (d.filling formats markup inner).2 })
        hn with hn | hn
      · exact Nat.lt_of_lt_of_le (ih.nodes n hn) hle'
      · exact (hwithin.bounds n.1 (List.mem_map_of_mem hn)).2
    · rw [hfresh]
      rw [fill_eq] at hi
      rcases List.mem_append.1 hi with hi | hi
      · exact Nat.lt_of_lt_of_le (ih.handled i hi) hle'
      · exact Nat.lt_of_lt_of_le (bounds_of_mem_brought d markup hi).2 hle
  | @replace d b markup _ ih =>
    obtain ⟨hfresh, hhandled, -⟩ := replace_frame formats d b markup
    have hle := le_number (formats.read markup) d.fresh
    refine ⟨fun n hn => ?_, fun i hi => ?_⟩
    · rw [hfresh]
      rcases mem_nodes_replace hn with hn | hn
      · exact Nat.lt_of_lt_of_le (ih.nodes n hn) hle
      · exact (bounds_of_mem_number hn).2
    · rw [hfresh]
      exact Nat.lt_of_lt_of_le (ih.handled i (hhandled ▸ hi)) hle
  | @appendTo d article markup _ ih =>
    obtain ⟨hfresh, hhandled, -⟩ := appendTo_frame formats d article markup
    have hle := le_number (formats.parseFragment markup) d.fresh
    refine ⟨fun n hn => ?_, fun i hi => ?_⟩
    · rw [hfresh]
      rcases mem_nodes_appendTo hn with hn | hn
      · exact Nat.lt_of_lt_of_le (ih.nodes n hn) hle
      · exact (bounds_of_mem_number hn).2
    · rw [hfresh]
      exact Nat.lt_of_lt_of_le (ih.handled i (hhandled ▸ hi)) hle

/-! ## Other content for a block -/

/-- The block with a number, in the tree or in what has left it, has the content `nodes` in `d'`
where in `d` it had `cs`. All else in the two forests stays, and what of `cs` is held comes on
top. -/
def Refilled (d d' : Document) (b : Block) (a : Node) (cs nodes : Forest Node) : Prop :=
  (First (·.1 == b.id) a cs (Forest.tree a nodes) d.tree d'.tree ∧
    d'.detached = d.detached ++ release d.isHeld cs) ∨
  (d'.tree = d.tree ∧ ∃ kept, First (·.1 == b.id) a cs (Forest.tree a nodes) d.detached kept ∧
    d'.detached = kept ++ release d.isHeld cs)

/-- A block gets other content where it lies. -/
theorem setChildren_found {a : Node} {cs : Forest Node} (hb : d.node? b = some (a, cs))
    (nodes : Forest Node) : d.Refilled (d.setChildren b nodes) b a cs nodes := by
  have hor := hb
  rw [node?, find?_append] at hor
  unfold Refilled setChildren
  dsimp only
  cases htree : d.tree.find? (·.1 == b.id) with
  | some r =>
    rw [htree, Option.some_or] at hor
    cases hor
    obtain ⟨f', hfirst⟩ := exists_first htree (Forest.tree a nodes)
    have hchange : (d.tree.changeFirst? (·.1 == b.id) fun _ => nodes) = some f' :=
      hfirst.changeFirst?_eq
    rw [hchange, hb]
    exact .inl ⟨hfirst, rfl⟩
  | none =>
    rw [htree, Option.none_or] at hor
    obtain ⟨f', hfirst⟩ := exists_first hor (Forest.tree a nodes)
    have hchange : (d.detached.changeFirst? (·.1 == b.id) fun _ => nodes) = some f' :=
      hfirst.changeFirst?_eq
    rw [changeFirst?_eq_none htree, hchange, hb]
    exact .inr ⟨rfl, f', hfirst, rfl⟩

/-! ## Filling -/

/-- All that changes when a block is filled: the node `a` with the children `cs`. The template has
the nodes `nodes`, the text for its marker has the nodes `inserted`, and the block ends up with
`content`. -/
structure Filled (d d' : Document) (b : Block) (a : Node) (cs nodes inserted content : Forest Node)
    (found : Bool) : Prop where
  /-- The answer is whether the template has a marker, at any depth. -/
  found_iff : found = true ↔ ∃ m ∈ nodes.labels, m.isDirective .marker = true
  /-- The first marker gives way to the inserted nodes and what it held, in its place. -/
  marked : found = true →
    ∃ m ms, First (fun n : Node => n.isDirective .marker) m ms (inserted ++ ms) nodes content
  unmarked : found = false → content = nodes
  /-- The nodes in the block are new, and each is there once. -/
  new : content.Within d.fresh d'.fresh
  /-- The block has the content, and nothing around it changes. -/
  refilled : d.Refilled d' b a cs content
  kept : d'.kept = d.kept
  origin : d'.origin = d.origin
  /-- Just the template blocks of the template become handled, in document order. -/
  handled : d'.handled =
    d.handled ++ (nodes.labels.filter fun n : Node => n.isDirective .template).map Prod.fst
  count : d'.handled.length = d.handled.length + nodes.labels.countP (·.isDirective .template)
  /-- The blocks in the content that are still to come are those of the inserted text. -/
  unhandled : content.labels.filter (fun n => n.isDirective .template && !d'.isHandled n) =
    if found then inserted.labels.filter (·.isDirective .template) else []

/-- The content is the template with the inner text at its first marker, or the template alone. -/
theorem filling_cases (formats : Formats) (d : Document) (b : Block) (markup inner : String)
    {nodes inserted : Forest Node × Nat} (hnodes : nodes = (formats.read markup).number d.fresh)
    (hinserted : inserted = (formats.read inner).number nodes.2) :
    ((d.fill formats b markup inner).1 = true ∧ ∃ m ms,
      First (fun n : Node => n.isDirective .marker) m ms (inserted.1 ++ ms) nodes.1
        (d.filling formats markup inner).1 ∧
      (d.filling formats markup inner).2 = inserted.2) ∨
    ((d.fill formats b markup inner).1 = false ∧
      nodes.1.find? (fun n : Node => n.isDirective .marker) = none ∧
      d.filling formats markup inner = nodes) := by
  subst hnodes hinserted
  unfold fill filling parseNodes Formats.read
  dsimp only
  cases hf : ((formats.parseFragment (protectIncludes markup)).number d.fresh).1.find?
      (fun n : Node => n.isDirective .marker) with
  | none =>
    rw [replaceFirst?_eq_none hf]
    exact .inr ⟨rfl, rfl, rfl⟩
  | some r =>
    obtain ⟨f', hfirst⟩ := exists_first hf
      (((formats.parseFragment (protectIncludes inner)).number
        ((formats.parseFragment (protectIncludes markup)).number d.fresh).2).1 ++ r.2)
    rw [hfirst.replaceFirst?_eq (g := fun ms => _ ++ ms)]
    exact .inl ⟨rfl, r.1, r.2, hfirst, rfl⟩

/-- The nodes of the template and of the inner text, as they are numbered, and the content that
comes of them are all that there is to filling a block. None of the template's own blocks is to come
then, and all those of the inner text are. -/
theorem filled_fill (hd : d.Made formats) {a : Node} {cs : Forest Node}
    (hb : d.node? b = some (a, cs)) (markup inner : String) {nodes inserted : Forest Node}
    (hnodes : nodes = ((formats.read markup).number d.fresh).1)
    (hinserted : inserted =
      ((formats.read inner).number ((formats.read markup).number d.fresh).2).1) :
    d.Filled (d.fill formats b markup inner).2 b a cs nodes inserted
      (d.filling formats markup inner).1 (d.fill formats b markup inner).1 := by
  have hchildren : d.Refilled ({ d with fresh := (filling formats d markup inner).2 }.setChildren b
      (filling formats d markup inner).1) b a cs (filling formats d markup inner).1 :=
    setChildren_found (d := { d with fresh := (filling formats d markup inner).2 }) hb _
  obtain ⟨hfresh, hkept, horigin⟩ := setChildren_frame
    { d with fresh := (filling formats d markup inner).2 } b (filling formats d markup inner).1
  have hhandled : (d.fill formats b markup inner).2.handled =
      d.handled ++ brought formats d markup := by
    rw [fill_eq]
  have hcases := filling_cases formats d b markup inner rfl rfl
  rw [← hnodes, ← hinserted] at hcases
  refine
    { found_iff := ?_, marked := ?_, unmarked := ?_, new := ?_, refilled := ?_, kept := ?_
      origin := ?_, handled := ?_, count := ?_, unhandled := ?_ }
  · rcases hcases with ⟨hfound, m, ms, hfirst, -⟩ | ⟨hfound, hnone, -⟩
    · exact ⟨fun _ => ⟨m, hfirst.mem.2, hfirst.mem.1⟩, fun _ => hfound⟩
    · rw [find?_eq_none_iff] at hnone
      simp only [hfound, Bool.false_eq_true, false_iff, not_exists, not_and]
      exact fun m hm hmarker => Bool.false_ne_true ((hnone m hm).symm.trans hmarker)
  · intro hfound
    rcases hcases with ⟨-, m, ms, hfirst, -⟩ | ⟨hnot, -⟩
    · exact ⟨m, ms, hfirst⟩
    · exact absurd (hnot.symm.trans hfound) Bool.false_ne_true
  · intro hnot
    rcases hcases with ⟨hfound, -⟩ | ⟨-, -, heq⟩
    · exact absurd (hnot.symm.trans hfound) Bool.false_ne_true
    · rw [heq, hnodes]
  · rw [fill_eq, hfresh]
    exact (within_filling formats d markup inner).1
  · rw [fill_eq]
    exact hchildren
  · rw [fill_eq]
    exact hkept
  · rw [fill_eq]
    exact horigin
  · rw [hhandled, hnodes]
    rfl
  · rw [hhandled, hnodes, List.length_append, List.countP_eq_length_filter]
    unfold brought
    rw [List.length_map]
  · have hold (m : Node) (hm : m ∈ nodes.labels) :
        pending (d.handled ++ brought formats d markup) m = false :=
      pending_of_brought d markup d.handled (hnodes ▸ hm)
    have hnew : inserted.labels.filter (pending (d.handled ++ brought formats d markup)) =
        inserted.labels.filter fun n : Node => n.isDirective .template :=
      List.filter_congr fun m hm => pending_of_content d markup hd.bounded.handled (hinserted ▸ hm)
    have hpending : (fun n : Node => n.isDirective .template &&
        !(d.fill formats b markup inner).2.isHandled n) =
          pending (d.handled ++ brought formats d markup) := by
      rw [← hhandled]
      rfl
    rw [hpending]
    rcases hcases with ⟨hfound, m, ms, hfirst, -⟩ | ⟨hnot, -, heq⟩
    · rw [hfound, if_pos rfl, hfirst.filter_labels hold, hnew]
    · rw [hnot, if_neg Bool.false_ne_true, heq, ← hnodes, List.filter_eq_nil_iff]
      exact fun m hm => Bool.eq_false_iff.1 (hold m hm)

end Document

end StaticSite
