import StaticSite.Expansion.Blocks
import StaticSite.Proofs.Subtrees

/-!
The numbers of a document's nodes.

Blocks are known by number. A number finds the right node as long as each is used once in the tree,
and stays right as long as new nodes get numbers that were never used.

* `Within`: each number is used once, and lies between two bounds;
* `Document.Made`: the documents that come of loading, expanding, replacing and embedding;
* `Document.Made.numbered`: in all of them each number is used once, and the next one is free;
* `Document.node?_eq`: a block that a search has found is the node with its number, so that its
  attributes, its content and its opening tag are those of the node.
-/

namespace StaticSite

open Forest

/-! ## Numbers between bounds -/

namespace Forest

universe u

variable {α : Type u}

def numbers (f : Forest (Nat × α)) : List Nat := f.labels.map Prod.fst

/-- Each number is used once, and is at least `lo` and below `hi`. -/
structure Within (lo hi : Nat) (f : Forest (Nat × α)) : Prop where
  once : f.numbers.Nodup
  bounds : ∀ i ∈ f.numbers, lo ≤ i ∧ i < hi

theorem numbers_append (f g : Forest (Nat × α)) : (f ++ g).numbers = f.numbers ++ g.numbers := by
  simp [numbers]

theorem numbers_tree (a : Nat × α) (cs : Forest (Nat × α)) :
    (tree a cs).numbers = a.1 :: cs.numbers := by
  simp [numbers, tree, labels]

/-- The articles are nodes of their own, in document order. -/
theorem articles_numbers (f : Forest Node) : (f.articles.map Prod.fst).Sublist f.numbers := by
  unfold articles numbers
  induction f.labels with
  | nil => exact List.Sublist.slnil
  | cons n l ih =>
    cases hid : n.2.articleId? with
    | none =>
      rw [List.filterMap_cons_none (by simp [hid])]
      exact ih.cons n.1
    | some id =>
      rw [List.filterMap_cons_some (b := (n.1, id)) (by simp [hid])]
      exact ih.cons_cons n.1

theorem within_number (f : Forest α) (n : Nat) : Within n (f.number n).2 (f.number n).1 := by
  refine ⟨nodup_number f n, fun i hi => ?_⟩
  obtain ⟨a, ha, rfl⟩ := List.mem_map.1 hi
  exact bounds_of_mem_number ha

/-- Parts with numbers from ranges that follow each other may be mixed, in any order and with
losses. -/
theorem Within.mix {lo mid hi : Nat} {f g r : Forest (Nat × α)} (hf : Within lo mid f)
    (hg : Within mid hi g) (hle : lo ≤ mid) (hle' : mid ≤ hi)
    (hr : ∀ i, r.numbers.count i ≤ f.numbers.count i + g.numbers.count i) : Within lo hi r := by
  constructor
  · rw [List.nodup_iff_count]
    intro i
    have hfi := List.nodup_iff_count.1 hf.once i
    have hgi := List.nodup_iff_count.1 hg.once i
    have := hr i
    by_cases hi : i ∈ f.numbers
    · have hgi : g.numbers.count i = 0 := List.count_eq_zero.2 fun h => by
        have := (hf.bounds i hi).2
        have := (hg.bounds i h).1
        omega
      omega
    · have hfi : f.numbers.count i = 0 := List.count_eq_zero.2 hi
      omega
  · intro i hi
    have hpos := List.count_pos_iff.2 hi
    have := hr i
    by_cases hi : i ∈ f.numbers
    · have := hf.bounds i hi
      omega
    · have hfi : f.numbers.count i = 0 := List.count_eq_zero.2 hi
      have := hg.bounds i (List.count_pos_iff.1 (by omega))
      omega

theorem Within.mono {lo hi hi' : Nat} {f : Forest (Nat × α)} (h : Within lo hi f) (hle : hi ≤ hi') :
    Within lo hi' f :=
  ⟨h.once, fun i hi => ⟨(h.bounds i hi).1, Nat.lt_of_lt_of_le (h.bounds i hi).2 hle⟩⟩

section

variable {p : Nat × α → Bool} {a : Nat × α} {cs new new' f f' : Forest (Nat × α)}

/-- How often a number is used after a change. -/
theorem First.count_numbers (h : First p a cs new f f') (i : Nat) :
    f'.numbers.count i + (tree a cs).numbers.count i =
      f.numbers.count i + new.numbers.count i := by
  simp only [numbers, List.count_eq_countP, List.countP_map]
  exact h.countP _

/-- Nodes with higher numbers may be put in the place of a node, beside itself and what it held. -/
theorem First.within {lo mid hi : Nat} (h : First p a cs new f f') (hf : f.Within lo mid)
    (hnew : new'.Within mid hi) (hle : lo ≤ mid) (hle' : mid ≤ hi)
    (hg : ∀ i, new.numbers.count i ≤ (tree a cs).numbers.count i + new'.numbers.count i) :
    f'.Within lo hi := by
  refine hf.mix hnew hle hle' fun i => ?_
  have := h.count_numbers i
  have := hg i
  omega

end

end Forest

/-! ## Documents -/

/-- The nodes of markup text that is put into a document. -/
def Formats.read (formats : Formats) (markup : String) : Markup :=
  formats.parseFragment (protectIncludes markup)

namespace Document

/-- Each number is used once in the tree, and the next one is free. -/
def Numbered (d : Document) : Prop := d.tree.Within 0 d.fresh

/-- The documents that come of loading, and of what is done to a document afterwards. -/
inductive Made (formats : Formats) : Document → Prop
  | load (markup : String) (origin : Origin) (isRoot : Bool) :
      Made formats (load formats markup origin isRoot)
  | nextTemplate {d d' : Document} {b : Block} :
      Made formats d → d.nextTemplate? = some (b, d') → Made formats d'
  | keep {d : Document} (b : Block) : Made formats d → Made formats (d.keep b)
  | fill {d : Document} (b : Block) (markup inner : String) :
      Made formats d → Made formats (d.fill formats b markup inner).2
  | replace {d : Document} (b : Block) (markup : String) :
      Made formats d → Made formats (d.replace formats b markup)
  | appendTo {d : Document} (article : Nat) (markup : String) :
      Made formats d → Made formats (d.appendTo formats article markup)

variable {formats : Formats} {d : Document} {b : Block}

theorem numbered_load (markup : String) (origin : Origin) (isRoot : Bool) :
    (load formats markup origin isRoot).Numbered := by
  exact within_number (if isRoot then formats.parseDocument (protectIncludes markup)
    else formats.parseFragment (protectIncludes markup)) 0

/-- New nodes get numbers that are free. -/
theorem within_parseNodes (formats : Formats) (d : Document) (markup : String) :
    (d.parseNodes formats markup).1.Within d.fresh (d.parseNodes formats markup).2.fresh :=
  within_number _ _

theorem le_parseNodes (formats : Formats) (d : Document) (markup : String) :
    d.fresh ≤ (d.parseNodes formats markup).2.fresh :=
  le_number _ _

theorem Numbered.replace (h : d.Numbered) (b : Block) (markup : String) :
    (d.replace formats b markup).Numbered := by
  have hnew := within_parseNodes formats d (protectIncludes markup)
  have hle := le_parseNodes formats d (protectIncludes markup)
  have hkeep : d.tree.Within 0 (d.parseNodes formats (protectIncludes markup)).2.fresh :=
    Within.mono h hle
  unfold Document.replace
  dsimp only
  split
  · next tree htree =>
    obtain ⟨a, cs, hfirst⟩ := first_of_replaceFirst? htree
    exact hfirst.within h hnew (Nat.zero_le _) hle fun i => Nat.le_add_left _ _
  · split
    · exact hkeep
    · exact hkeep

theorem Numbered.setChildren (h : d.Numbered) (b : Block) {nodes : Forest Node} {hi : Nat}
    (hnodes : nodes.Within d.fresh hi) (hle : d.fresh ≤ hi) :
    ({ d with fresh := hi }.setChildren b nodes).Numbered := by
  have hkeep : d.tree.Within 0 hi := Within.mono h hle
  unfold Document.setChildren
  dsimp only
  split
  · next tree htree =>
    obtain ⟨a, cs, hfirst⟩ := first_of_changeFirst? htree
    refine hfirst.within h hnodes (Nat.zero_le _) hle fun i => ?_
    rw [numbers_tree, numbers_tree, List.count_cons, List.count_cons]
    omega
  · split
    · exact hkeep
    · exact hkeep

theorem Numbered.appendTo (h : d.Numbered) (article : Nat) (markup : String) :
    (d.appendTo formats article markup).Numbered := by
  have hnew := within_parseNodes formats d markup
  have hle := le_parseNodes formats d markup
  unfold Document.appendTo
  dsimp only
  split
  · next tree htree =>
    obtain ⟨a, cs, hfirst⟩ := first_of_changeFirst? htree
    refine hfirst.within h hnew (Nat.zero_le _) hle fun i => ?_
    rw [numbers_tree, numbers_tree, numbers_append, List.count_cons, List.count_cons,
      List.count_append]
    omega
  · exact Within.mono h hle

/-- The nodes that become the content of a template block, and the next free number. -/
def filling (formats : Formats) (d : Document) (markup inner : String) : Forest Node × Nat :=
  let nodes := (formats.read markup).number d.fresh
  let content := (formats.read inner).number nodes.2
  match nodes.1.replaceFirst? (fun n : Node => n.isDirective .marker) (content.1 ++ ·) with
  | some filled => (filled, content.2)
  | none => nodes

/-- The numbers of the template blocks that a template has brought along. -/
def brought (formats : Formats) (d : Document) (markup : String) : List Nat :=
  (((formats.read markup).number d.fresh).1.labels.filter
    fun n : Node => n.isDirective .template).map Prod.fst

/-- What is set on a block that lies in the tree. -/
theorem setChildren_eq {d : Document} {b : Block} {nodes tree : Forest Node}
    (h : (d.tree.changeFirst? (fun n => n.1 == b.id) fun _ => nodes) = some tree) :
    (d.setChildren b nodes).tree = tree ∧ (d.setChildren b nodes).fresh = d.fresh ∧
      (d.setChildren b nodes).origin = d.origin := by
  unfold setChildren
  dsimp only
  rw [h]
  exact ⟨rfl, rfl, rfl⟩

theorem handled_setChildren (d : Document) (b : Block) (nodes : Forest Node) :
    (d.setChildren b nodes).handled = d.handled := by
  unfold setChildren
  dsimp only
  split
  · rfl
  · split <;> rfl

theorem fill_eq (d : Document) (b : Block) (markup inner : String) :
    (d.fill formats b markup inner).2 =
      { { d with fresh := (filling formats d markup inner).2 }.setChildren b
          (filling formats d markup inner).1 with
        handled := d.handled ++ brought formats d markup } := by
  unfold fill filling brought parseNodes Formats.read
  dsimp only
  cases ((formats.parseFragment (protectIncludes markup)).number d.fresh).1.replaceFirst?
      (fun n : Node => n.isDirective .marker)
      (((formats.parseFragment (protectIncludes inner)).number
        ((formats.parseFragment (protectIncludes markup)).number d.fresh).2).1 ++ ·) with
  | some filled => simp only [handled_setChildren]
  | none => simp only [handled_setChildren]

theorem within_filling (formats : Formats) (d : Document) (markup inner : String) :
    (filling formats d markup inner).1.Within d.fresh (filling formats d markup inner).2 ∧
      d.fresh ≤ (filling formats d markup inner).2 := by
  have hnodes := within_number (formats.read markup) d.fresh
  have hcontent := within_number (formats.read inner) ((formats.read markup).number d.fresh).2
  have hle := le_number (formats.read markup) d.fresh
  have hle' := le_number (formats.read inner) ((formats.read markup).number d.fresh).2
  unfold filling
  dsimp only
  split
  · next filled hfilled =>
    obtain ⟨a, cs, hfirst⟩ := first_of_replaceFirst? hfilled
    refine ⟨hfirst.within hnodes hcontent hle hle' fun i => ?_, Nat.le_trans hle hle'⟩
    rw [numbers_append, numbers_tree, List.count_append, List.count_cons]
    omega
  · exact ⟨hnodes, hle⟩

theorem nodes_le_filling (formats : Formats) (d : Document) (markup inner : String) :
    ((formats.read markup).number d.fresh).2 ≤ (filling formats d markup inner).2 := by
  unfold filling
  dsimp only
  split
  · exact le_number _ _
  · exact Nat.le_refl _

theorem Numbered.fill (h : d.Numbered) (b : Block) (markup inner : String) :
    (d.fill formats b markup inner).2.Numbered := by
  obtain ⟨hw, hle⟩ := within_filling formats d markup inner
  rw [fill_eq]
  exact h.setChildren b hw hle

theorem nextTemplate?_eq_some {r : Block × Document} (h : d.nextTemplate? = some r) :
    ∃ n c cs, (d.tree.find? fun n => n.isDirective .template && !d.isHandled n) = some ((n, c), cs) ∧
      r = (⟨n, .template⟩, { d with handled := d.handled ++ [n] }) := by
  obtain ⟨b, hb, rfl⟩ := Option.map_eq_some_iff.1 h
  obtain ⟨⟨⟨n, c⟩, cs⟩, hf, rfl⟩ := Option.map_eq_some_iff.1 hb
  exact ⟨n, c, cs, hf, rfl⟩

/-- **Numbers.** In every document each number is used once, and the next one is free. -/
theorem Made.numbered (h : Made formats d) : d.Numbered := by
  induction h with
  | load markup origin isRoot => exact numbered_load markup origin isRoot
  | nextTemplate _ hn ih =>
    obtain ⟨n, c, cs, -, hr⟩ := nextTemplate?_eq_some hn
    cases hr
    exact ih
  | keep b _ ih => exact ih
  | fill b markup inner _ ih => exact ih.fill b markup inner
  | replace b markup _ ih => exact ih.replace b markup
  | appendTo article markup _ ih => exact ih.appendTo article markup

end Document

/-! ## Blocks as nodes -/

namespace Content

/-- The opening tag of a block as an error message shows it. -/
def openTag (c : Content) : String :=
  "<section" ++ String.join (c.attributes.map fun a => " " ++ a.name ++ "=\"" ++ a.value ++ "\"") ++
    ">"

/-- An attribute that a block must have, and that must not be blank. -/
def required (c : Content) (origin : Origin) (name : String) : Except SiteError String :=
  match (c.attribute? name).filter fun v => !(trimmed v).isEmpty with
  | some v => .ok v
  | none => .error (.missingAttribute origin.text c.openTag name)

end Content

namespace Document

variable {formats : Formats} {d : Document} {p : Node → Bool} {n : Nat} {c : Content}
  {cs : Forest Node}

/-- A block that a search has found is the node with its number. -/
theorem node?_eq (hd : d.Numbered) (h : d.tree.find? p = some ((n, c), cs)) (k : Directive) :
    d.node? ⟨n, k⟩ = some ((n, c), cs) := by
  obtain ⟨f', hfirst⟩ := exists_first h .nil
  exact ((hfirst.key Prod.fst hd.once).append d.detached).find?_eq

variable {b : Block} (hb : d.node? b = some ((n, c), cs))

include hb

theorem attribute?_eq (name : String) : d.attribute? b name = c.attribute? name := by
  simp only [attribute?, hb, Option.bind_some]

theorem inner_eq : d.inner formats b = formats.serialize (cs.map Prod.snd) := by
  simp only [inner, hb]

theorem describe_eq : d.describe b = c.openTag := by
  simp only [describe, hb, Option.map_some, Option.getD_some, Content.openTag]

theorem required_eq (name : String) : d.required b name = c.required d.origin name := by
  unfold required Content.required
  rw [attribute?_eq hb]
  cases (c.attribute? name).filter fun v => !(trimmed v).isEmpty with
  | some v => rfl
  | none =>
    exact congrArg (fun tag => Except.error (SiteError.missingAttribute d.origin.text tag name))
      (describe_eq hb)

end Document

/-! ## Blocks that are found and changed -/

namespace Document

variable {formats : Formats} {d : Document} {p : Node → Bool} {n : Nat} {c : Content}
  {cs : Forest Node}

/-- **Filling.** A block that a search has found gets new content where it was found. -/
theorem fill_found (hd : d.Numbered) (h : d.tree.find? p = some ((n, c), cs)) (k : Directive)
    (markup inner : String) :
    First p (n, c) cs (Forest.tree (n, c) (d.filling formats markup inner).1) d.tree
        (d.fill formats ⟨n, k⟩ markup inner).2.tree ∧
      (d.fill formats ⟨n, k⟩ markup inner).2.fresh = (d.filling formats markup inner).2 ∧
      (d.fill formats ⟨n, k⟩ markup inner).2.origin = d.origin ∧
      (d.fill formats ⟨n, k⟩ markup inner).2.handled = d.handled ++ d.brought formats markup := by
  obtain ⟨tree', hfirst⟩ := exists_first h
    (Forest.tree (n, c) (d.filling formats markup inner).1)
  have hchange : (d.tree.changeFirst? (fun m => m.1 == n) fun _ =>
      (d.filling formats markup inner).1) = some tree' :=
    (hfirst.key Prod.fst hd.once).changeFirst?_eq
  obtain ⟨hset, hfresh, horigin⟩ := setChildren_eq (b := ⟨n, k⟩)
    (d := { d with fresh := (d.filling formats markup inner).2 }) hchange
  rw [fill_eq]
  exact ⟨hset.symm ▸ hfirst, hfresh, horigin, rfl⟩

/-- **Replacing.** A block that a search has found gives way to new nodes where it was found. -/
theorem replace_found (hd : d.Numbered) (h : d.tree.find? p = some ((n, c), cs)) (k : Directive)
    (markup : String) :
    First p (n, c) cs ((formats.read markup).number d.fresh).1 d.tree
        (d.replace formats ⟨n, k⟩ markup).tree ∧
      (d.replace formats ⟨n, k⟩ markup).origin = d.origin := by
  obtain ⟨tree', hfirst⟩ := exists_first h ((formats.read markup).number d.fresh).1
  have hchange : (d.tree.replaceFirst? (fun m => m.1 == n) fun _ =>
      ((formats.read markup).number d.fresh).1) = some tree' :=
    (hfirst.key Prod.fst hd.once).replaceFirst?_eq
  unfold replace
  dsimp only [parseNodes]
  unfold Formats.read at hchange hfirst ⊢
  rw [hchange]
  exact ⟨hfirst, rfl⟩

end Document

end StaticSite
