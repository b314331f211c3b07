import StaticSite.Proofs.Asking
import StaticSite.Proofs.Drawing
import StaticSite.Proofs.Filling

/-!
Documents in memory.

A document keeps its tree as nodes with links, and changes it by setting links and lists, one after
the other. A block is a node, wherever that has got to. What is done so comes to what is done to a
document whose tree is one value, and that for blocks in the tree and for blocks that have left it.

* `Stored`: a document in memory, with the operations on it;
* `Stored.Stores`: a document in memory has the tree of a document, and keeps links and lists sound;
* `Stores.replace`, `Stores.fill`, `Stores.embedArticles`: every operation keeps it so;
* `Document.replace_of_not_mem`, `Document.fill_of_not_mem`: blocks that have left the tree;
* `Document.fill_filled`: what filling a block comes to, in both forms.
-/

namespace StaticSite

open Forest

/-- A document in memory. The nodes at its top are listed by the holder. -/
structure Stored where
  memory : Memory
  /-- The template blocks that are not to be expanded, in the order they came up. -/
  handled : List Nat
  /-- The blocks that a caller keeps. -/
  kept : List Nat

namespace Stored

def load (formats : Formats) (markup : String) (isRoot : Bool) : Stored :=
  let text := protectIncludes markup
  let m := if isRoot then formats.parseDocument text else formats.parseFragment text
  let (nodes, memory) := Memory.empty.enter m
  ⟨memory.append none nodes, [], []⟩

/-- What lies below the holder. -/
def tree (s : Stored) : Forest Node := s.memory.below none

def serialize (formats : Formats) (s : Stored) : String :=
  formats.serialize (s.tree.map Prod.snd)

/-- Whether a node stays when nothing lists it. -/
def isHeld (s : Stored) (i : Nat) : Bool := s.handled.contains i || s.kept.contains i

def keep (s : Stored) (b : Block) : Stored := { s with kept := b.id :: s.kept }

/-- The first template block that has not been handled, now marked as handled. -/
def nextTemplate? (s : Stored) : Option (Block × Stored) :=
  (s.tree.firstTemplate? s.handled).map fun b => (b, { s with handled := s.handled ++ [b.id] })

/-- The first repeat block. -/
def nextRepeat? (s : Stored) : Option Block := s.tree.firstRepeat?

/-- Puts the nodes of a markup text in the place of a block, if it has one. -/
def replace (formats : Formats) (s : Stored) (b : Block) (markup : String) : Stored :=
  let (nodes, memory) := s.memory.enter (formats.read markup)
  let (placed, memory) := memory.exchange b.id nodes
  { s with memory := if placed then memory.letGo s.isHeld [b.id] else memory }

/-- Marks all template blocks among nodes and below them as handled, in document order. -/
def markHandled (s : Stored) (ids : List Nat) : Stored :=
  let templates := (s.memory.forest s.memory.fresh ids).labels.filter (·.isDirective .template)
  { s with handled := s.handled ++ templates.map Prod.fst }

/-- Puts the nodes of a text, and then what the marker lists, in the place of the first marker below
a block. The answer is whether there was a marker. -/
def replaceMarker (formats : Formats) (s : Stored) (b : Block) (inner : String) : Bool × Stored :=
  match (s.memory.below (some b.id)).find? (·.isDirective .marker) with
  | none => (false, s)
  | some (marker, _) =>
    let (nodes, memory) := s.memory.enter (formats.read inner)
    let (taken, memory) := memory.take marker.1
    let (placed, memory) := memory.exchange marker.1 (nodes ++ taken)
    (placed, { s with memory })

/-- Fills a template block. -/
def fill (formats : Formats) (s : Stored) (b : Block) (markup inner : String) : Bool × Stored :=
  let (nodes, memory) := s.memory.enter (formats.read markup)
  let s := { s with memory }.markHandled nodes
  let lost := s.memory.children (some b.id)
  let memory := (s.memory.assign (some b.id) nodes).letGo s.isHeld lost
  { s with memory }.replaceMarker formats b inner

/-- The articles with an id, in document order. -/
def articles (s : Stored) : List (Nat × String) := s.tree.articles

/-- Puts the nodes of a text after what an article lists. -/
def appendTo (formats : Formats) (s : Stored) (article : Nat) (markup : String) : Stored :=
  let (nodes, memory) := s.memory.enter (formats.parseFragment markup)
  { s with memory := memory.append (some article) nodes }

/-- Appends content to the articles that the document has now. -/
def embedArticles {ε : Type} (formats : Formats) (s : Stored)
    (content : String → Logged ε (Option String)) : Stored × Logged ε Nat :=
  let (s, log, r) := embedEach (appendTo formats) (.logged content) s.articles [] s
  (s, ⟨log, r⟩)

end Stored

/-! ## Blocks that have left the tree -/

theorem Forest.exists_find? {f : Forest Node} {i : Nat} (h : i ∈ f.numbers) :
    ∃ c cs, f.find? (·.1 == i) = some ((i, c), cs) := by
  cases hf : f.find? (·.1 == i) with
  | some r =>
    obtain ⟨⟨j, c⟩, cs⟩ := r
    obtain rfl : j = i := eq_of_beq (mem_labels_of_find? hf).1
    exact ⟨c, cs, rfl⟩
  | none =>
    obtain ⟨a, ha, rfl⟩ := List.mem_map.1 h
    exact absurd (find?_eq_none_iff.1 hf a ha) (by simp)

theorem Forest.find?_eq_none_of_not_mem {f : Forest Node} {i : Nat} (h : i ∉ f.numbers) :
    f.find? (·.1 == i) = none := by
  rw [find?_eq_none_iff]
  exact fun a ha => beq_false_of_ne fun e => h (e ▸ List.mem_map_of_mem ha)

namespace Document

variable {formats : Formats} {d : Document} {b : Block}

theorem setChildren_of_not_mem (hb : b.id ∉ d.tree.numbers) (nodes : Forest Node) :
    (d.setChildren b nodes).tree = d.tree := by
  unfold setChildren
  dsimp only
  rw [changeFirst?_eq_none (find?_eq_none_of_not_mem hb)]
  dsimp only
  split <;> rfl

theorem fill_of_not_mem (hb : b.id ∉ d.tree.numbers) (markup inner : String) :
    (d.fill formats b markup inner).2.tree = d.tree := by
  rw [fill_eq]
  exact setChildren_of_not_mem (d := { d with fresh := (d.filling formats markup inner).2 }) hb _

theorem replace_of_not_mem (hb : b.id ∉ d.tree.numbers) (markup : String) :
    (d.replace formats b markup).tree = d.tree := by
  unfold replace parseNodes
  dsimp only
  rw [replaceFirst?_eq_none (find?_eq_none_of_not_mem hb)]
  dsimp only
  split <;> rfl

end Document

/-! ## One document in two forms -/

namespace Stored

/-- A document in memory is a given document: it has its tree, and its links are sound. -/
structure Stores (s : Stored) (d : Document) : Prop where
  sound : s.memory.Sound
  draws : s.memory.Draws none d.tree
  numbered : d.Numbered
  fresh : s.memory.fresh = d.fresh
  handled : s.handled = d.handled
  kept : s.kept = d.kept

variable {formats : Formats} {s : Stored} {d d' : Document} {b : Block}

theorem Stores.tree_eq (h : s.Stores d) : s.tree = d.tree := by
  have hnumbered : d.tree.Within 0 s.memory.fresh := by
    rw [h.fresh]
    exact h.numbered
  exact h.draws.below_eq hnumbered

theorem stores_load (formats : Formats) (markup : String) (origin : Origin) (isRoot : Bool) :
    (load formats markup isRoot).Stores (Document.load formats markup origin isRoot) := by
  obtain ⟨m, hm⟩ : ∃ m, m = if isRoot then formats.parseDocument (protectIncludes markup)
    else formats.parseFragment (protectIncludes markup) := ⟨_, rfl⟩
  have hload : load formats markup isRoot =
      ⟨(Memory.empty.enter m).2.append none (m.number 0).1.roots, [], []⟩ := by
    rw [hm]
    rfl
  have hdocument : Document.load formats markup origin isRoot =
      ⟨origin, (m.number 0).1, .nil, [], [], (m.number 0).2⟩ := by
    rw [hm]
    rfl
  obtain ⟨-, hfresh, he⟩ := Memory.Sound.empty.enter m
  rw [hload, hdocument]
  refine ⟨he.sound.append he.loose nofun, ⟨?_, ?_⟩, within_number m 0, hfresh, rfl,
    rfl⟩
  · rw [Memory.children_append, he.top]
    rfl
  · exact he.shows.congr fun j hj => ⟨rfl, rfl⟩

theorem Stores.nextTemplate?_eq (h : s.Stores d) :
    s.nextTemplate? = d.nextTemplate?.map fun r => (r.1, { s with handled := r.2.handled }) := by
  unfold nextTemplate? Document.nextTemplate?
  rw [h.tree_eq, h.handled, Option.map_map]
  rfl

theorem Stores.nextTemplate (h : s.Stores d) (hn : d.nextTemplate? = some (b, d')) :
    { s with handled := d'.handled }.Stores d' := by
  obtain ⟨n, c, cs, -, hr⟩ := Document.nextTemplate?_eq_some hn
  cases hr
  exact ⟨h.sound, h.draws, h.numbered, h.fresh, rfl, h.kept⟩

theorem Stores.nextRepeat?_eq (h : s.Stores d) : s.nextRepeat? = d.nextRepeat? := by
  unfold nextRepeat? Document.nextRepeat?
  rw [h.tree_eq]

theorem Stores.keep (h : s.Stores d) (b : Block) : (s.keep b).Stores (d.keep b) :=
  ⟨h.sound, h.draws, h.numbered, h.fresh, h.handled, congrArg (b.id :: ·) h.kept⟩

/-- Where a block gives way in memory as it does in a document, the trees stay the same. -/
theorem Stores.draws_replaced (h : s.Stores d) {m : Memory} {new : Forest Node}
    (hr : s.memory.Replaced m b.id new)
    (hmem : ∀ c cs, d.tree.find? (·.1 == b.id) = some ((b.id, c), cs) →
      First (·.1 == b.id) (b.id, c) cs new d.tree d'.tree)
    (hnot : b.id ∉ d.tree.numbers → d'.tree = d.tree) : m.Draws none d'.tree := by
  by_cases hb : b.id ∈ d.tree.numbers
  · obtain ⟨c, cs, hfind⟩ := exists_find? hb
    exact hr.draws_first h.draws h.sound h.numbered.once (hmem c cs hfind)
  · rw [hnot hb]
    exact hr.draws_congr h.draws h.sound hb

/-! ## Replacing and filling -/

theorem Stores.replace (h : s.Stores d) (hb : b.id < d.fresh) (formats : Formats)
    (markup : String) :
    (s.replace formats b markup).Stores (d.replace formats b markup) := by
  obtain ⟨-, hnumber, he⟩ := h.sound.enter (formats.read markup)
  obtain ⟨hfresh, hhandled, hkept, -⟩ := Document.replace_frame formats d b markup
  rw [h.fresh] at hnumber he
  obtain ⟨m, hm⟩ : ∃ m, m = (s.replace formats b markup).memory := ⟨_, rfl⟩
  have hcases : m = ((s.memory.enter (formats.read markup)).2.exchange b.id
        ((formats.read markup).number d.fresh).1.roots).2 ∨
      m = ((s.memory.enter (formats.read markup)).2.exchange b.id
        ((formats.read markup).number d.fresh).1.roots).2.letGo s.isHeld [b.id] := by
    rw [hm, ← h.fresh]
    unfold Stored.replace
    dsimp only
    split
    · exact .inr rfl
    · exact .inl rfl
  have hmfresh : m.fresh = ((formats.read markup).number d.fresh).2 := by
    rw [← hnumber, ← (he.sound.exchange_frame b.id _).2]
    rcases hcases with rfl | rfl <;> rfl
  have hold : b.id < s.memory.fresh := h.fresh ▸ hb
  have hreplaced : s.memory.Replaced m b.id ((formats.read markup).number d.fresh).1 := by
    rcases hcases with rfl | rfl
    · exact he.exchanged hold
    · exact he.exchanged_letGo hold h.sound s.isHeld
  rw [hm] at hreplaced hmfresh
  exact ⟨hreplaced.sound,
    h.draws_replaced hreplaced (fun c cs hfind => (Document.replace_found h.numbered hfind _ _).1)
      fun hnot => Document.replace_of_not_mem hnot markup,
    h.numbered.replace b markup, hmfresh.trans hfresh.symm, h.handled.trans hhandled.symm,
    h.kept.trans hkept.symm⟩

/-- The template blocks among new nodes are those that a template brings along. -/
theorem Stores.markHandled_eq (h : s.Stores d) (formats : Formats) (markup : String) :
    markHandled { s with memory := (s.memory.enter (formats.read markup)).2 }
        (s.memory.enter (formats.read markup)).1 =
      ⟨(s.memory.enter (formats.read markup)).2, d.handled ++ d.brought formats markup,
        d.kept⟩ := by
  obtain ⟨hroots, -, he⟩ := h.sound.enter (formats.read markup)
  have hforest := he.shows.forest_eq
    (Memory.length_labels_le he.within.once fun i hi => (he.within.bounds i hi).2)
  unfold markHandled Document.brought
  rw [hroots]
  dsimp only
  rw [hforest, h.fresh, h.handled, h.kept]

section

variable {m : Memory} {c : Content} {f f' ms : Forest Node} {k : Node}

/-- Without a marker in its content a block stays as it is. -/
theorem replaceMarker_of_none (hr : m.Replaced s.memory b.id (Forest.tree (b.id, c) f))
    (hf : f.Within m.fresh s.memory.fresh)
    (hnone : f.find? (fun n : Node => n.isDirective .marker) = none) (inner : String) :
    s.replaceMarker formats b inner = (false, s) := by
  obtain ⟨⟨-, hlist⟩, hshows, -⟩ := hr.shows
  unfold replaceMarker
  rw [Memory.Draws.below_eq ⟨hlist, hshows⟩ hf, hnone]

/-- The first marker in the content of a block gives way. -/
theorem replaceMarker_first (h : m.Sound) (hb : b.id < m.fresh)
    (hr : m.Replaced s.memory b.id (Forest.tree (b.id, c) f))
    (hf : f.Within m.fresh s.memory.fresh) (hle : m.fresh ≤ s.memory.fresh) {inner : String}
    (hfirst : First (fun n : Node => n.isDirective .marker) k ms
      (((formats.read inner).number s.memory.fresh).1 ++ ms) f f') :
    (s.replaceMarker formats b inner).1 = true ∧
      m.Replaced (s.replaceMarker formats b inner).2.memory b.id (Forest.tree (b.id, c) f') ∧
      (s.replaceMarker formats b inner).2.memory.fresh =
        ((formats.read inner).number s.memory.fresh).2 ∧
      (s.replaceMarker formats b inner).2.handled = s.handled ∧
      (s.replaceMarker formats b inner).2.kept = s.kept := by
  obtain ⟨⟨-, hlist⟩, hshows, -⟩ := hr.shows
  obtain ⟨hroots, hnumber, he⟩ := hr.sound.enter (formats.read inner)
  unfold replaceMarker
  rw [Memory.Draws.below_eq ⟨hlist, hshows⟩ hf, hfirst.find?_eq]
  dsimp only
  rw [hroots]
  obtain ⟨hplaced, hfresh, hmarked⟩ := hr.marked h rfl hb hf hle he hfirst rfl
  exact ⟨hplaced, hmarked, hfresh.trans hnumber, rfl, rfl⟩

end

/-- What filling a block does in memory, in the tree or out of it. Between its two changes the block
has lost its content and holds the template. -/
theorem Stores.fill_memory (h : s.Stores d) (hb : b.id < d.fresh) (formats : Formats)
    (markup inner : String) :
    (s.fill formats b markup inner).1 = (d.fill formats b markup inner).1 ∧
      s.memory.Replaced (s.fill formats b markup inner).2.memory b.id
        (Forest.tree (b.id, s.memory.content b.id) (d.filling formats markup inner).1) ∧
      (s.fill formats b markup inner).2.memory.fresh = (d.filling formats markup inner).2 ∧
      (s.fill formats b markup inner).2.handled = d.handled ++ d.brought formats markup ∧
      (s.fill formats b markup inner).2.kept = d.kept := by
  obtain ⟨hroots, hnumber, he⟩ := h.sound.enter (formats.read markup)
  obtain ⟨nodes, hnodes⟩ : ∃ nodes, nodes = (formats.read markup).number d.fresh := ⟨_, rfl⟩
  rw [h.fresh, ← hnodes] at hroots hnumber he
  replace hb : b.id < s.memory.fresh := h.fresh ▸ hb
  obtain ⟨s₁, hs₁⟩ : ∃ s₁ : Stored, s₁ = ⟨(s.memory.enter (formats.read markup)).2,
    d.handled ++ d.brought formats markup, d.kept⟩ := ⟨_, rfl⟩
  obtain ⟨m, hm⟩ : ∃ m, m = (s₁.memory.assign (some b.id) nodes.1.roots).letGo s₁.isHeld
    (s₁.memory.children (some b.id)) := ⟨_, rfl⟩
  have hfill : s.fill formats b markup inner =
      { s₁ with memory := m }.replaceMarker formats b inner := by
    have hmark := h.markHandled_eq formats markup
    rw [← hs₁] at hmark
    unfold fill
    dsimp only
    rw [hmark, hm, ← hroots]
  have hreplaced : s.memory.Replaced m b.id
      (Forest.tree (b.id, s.memory.content b.id) nodes.1) := by
    rw [hm, hs₁]
    exact he.assigned hb h.sound _
  have hmfresh : m.fresh = nodes.2 := by
    rw [hm, hs₁, ← hnumber]
    rfl
  have hwithin : nodes.1.Within s.memory.fresh m.fresh := by
    rw [hmfresh, ← hnumber]
    exact he.within
  have hle : s.memory.fresh ≤ m.fresh := by
    rw [hmfresh, ← hnumber]
    exact he.le
  rw [hfill]
  rcases Document.filling_cases formats d b markup inner hnodes rfl with
    ⟨hfound, k, ms, hfirst, hfresh⟩ | ⟨hnot, hnone, hfilling⟩
  · rw [← hmfresh] at hfirst hfresh
    rw [hfound, hfresh]
    have hmarker := replaceMarker_first (s := { s₁ with memory := m }) h.sound hb hreplaced hwithin
      hle hfirst
    rwa [hs₁] at hmarker ⊢
  · rw [replaceMarker_of_none (s := { s₁ with memory := m }) hreplaced hwithin hnone, hnot,
      hfilling, hs₁]
    exact ⟨rfl, hreplaced, hmfresh, rfl, rfl⟩

theorem Stores.fill (h : s.Stores d) (hb : b.id < d.fresh) (formats : Formats)
    (markup inner : String) :
    (s.fill formats b markup inner).1 = (d.fill formats b markup inner).1 ∧
      (s.fill formats b markup inner).2.Stores (d.fill formats b markup inner).2 := by
  obtain ⟨hfound, hreplaced, hfresh, hhandled, hkept⟩ :=
    h.fill_memory hb formats markup inner
  obtain ⟨hdfresh, hdkept, -⟩ := Document.setChildren_frame
    { d with fresh := (d.filling formats markup inner).2 } b (d.filling formats markup inner).1
  refine ⟨hfound, hreplaced.sound, h.draws_replaced hreplaced (fun c cs hfind => ?_)
    fun hnot => Document.fill_of_not_mem hnot markup inner, h.numbered.fill b markup inner,
    hfresh.trans ?_, ?_, ?_⟩
  · obtain ⟨f', hfirst⟩ := exists_first hfind .nil
    have hcontent := (hfirst.all h.draws.shows).1.1
    rw [hcontent]
    exact (Document.fill_found h.numbered hfind b.kind markup inner).1
  · rw [Document.fill_eq, hdfresh]
  · rw [hhandled, Document.fill_eq]
  · rw [hkept, Document.fill_eq]
    exact hdkept.symm

/-! ## Embedding -/

/-- An article gets nodes behind what it holds. -/
theorem appendTo_found {article : Nat} {c : Content} {cs : Forest Node}
    (h : d.tree.find? (·.1 == article) = some ((article, c), cs)) (formats : Formats)
    (markup : String) :
    First (·.1 == article) (article, c) cs
      (Forest.tree (article, c) (cs ++ ((formats.parseFragment markup).number d.fresh).1)) d.tree
      (d.appendTo formats article markup).tree := by
  obtain ⟨f', hfirst⟩ := exists_first h
    (Forest.tree (article, c) (cs ++ ((formats.parseFragment markup).number d.fresh).1))
  unfold Document.appendTo Document.parseNodes
  dsimp only
  rw [hfirst.changeFirst?_eq (g := (· ++ ((formats.parseFragment markup).number d.fresh).1))]
  exact hfirst

/-- Nothing leaves the tree when an article gets more. -/
theorem mem_appendTo {article : Nat} (ha : article ∈ d.tree.numbers) (markup : String) {i : Nat}
    (hi : i ∈ d.tree.numbers) : i ∈ (d.appendTo formats article markup).tree.numbers := by
  obtain ⟨c, cs, hfind⟩ := exists_find? ha
  have hcount := (appendTo_found hfind formats markup).count_numbers i
  have := List.count_pos_iff.2 hi
  simp only [numbers_tree, numbers_append, List.count_cons, List.count_append] at hcount
  exact List.count_pos_iff.1 (by omega)

theorem Stores.appendTo (h : s.Stores d) {article : Nat} (ha : article ∈ d.tree.numbers)
    (markup : String) :
    (s.appendTo formats article markup).Stores (d.appendTo formats article markup) := by
  obtain ⟨-, hnumber, he⟩ := h.sound.enter (formats.parseFragment markup)
  obtain ⟨hfresh, hhandled, hkept, -⟩ :=
    Document.appendTo_frame formats d article markup
  obtain ⟨c, cs, hfind⟩ := exists_find? ha
  have hfirst := appendTo_found hfind formats markup
  obtain ⟨⟨hcontent, hlist⟩, hcs⟩ := hfirst.all h.draws.shows
  have hbound (j : Nat) (hj : j ∈ d.tree.numbers) : j < s.memory.fresh :=
    h.fresh ▸ (h.numbered.bounds j hj).2
  have hnodup := h.numbered.once.sublist hfirst.numbers_sublist
  have hsub := hfirst.numbers_sublist.subset
  rw [numbers_tree] at hnodup hsub
  have hreplaced := he.appended (hbound article ha) ⟨hlist, hcs⟩ fun j hj =>
    ⟨hbound j (hsub (List.mem_cons_of_mem _ hj)), fun e => (List.nodup_cons.1 hnodup).1 (e ▸ hj)⟩
  refine ⟨hreplaced.sound, ?_, h.numbered.appendTo article markup, ?_,
    h.handled.trans hhandled.symm, h.kept.trans hkept.symm⟩
  · have hmemory : (s.appendTo formats article markup).memory =
        (s.memory.enter (formats.parseFragment markup)).2.append (some article)
          ((formats.parseFragment markup).number s.memory.fresh).1.roots := rfl
    rw [hcontent] at hreplaced
    rw [← hmemory, h.fresh] at hreplaced
    exact hreplaced.draws_first h.draws h.sound h.numbered.once hfirst
  · rw [hfresh, ← h.fresh]
    exact hnumber

theorem Stores.appendAnswers (h : s.Stores d) {answered : List (Nat × Option String)}
    (ha : ∀ x ∈ answered, x.1 ∈ d.tree.numbers) :
    (StaticSite.appendAnswers (Stored.appendTo formats) s answered).Stores
      (StaticSite.appendAnswers (Document.appendTo formats) d answered) := by
  induction answered generalizing s d with
  | nil => exact h
  | cons x answered ih =>
    obtain ⟨article, answer⟩ := x
    obtain ⟨ha, hrest⟩ := List.forall_mem_cons.1 ha
    cases answer with
    | none => exact ih h hrest
    | some markup => exact ih (h.appendTo ha markup) fun x hx => mem_appendTo ha markup (hrest x hx)

theorem Stores.embedArticles {ε : Type} (h : s.Stores d)
    (content : String → Logged ε (Option String)) :
    (s.embedArticles formats content).2 = (d.embedArticles formats content).2 ∧
      (s.embedArticles formats content).1.Stores (d.embedArticles formats content).1 := by
  have harticles : s.articles = d.articles := congrArg Forest.articles h.tree_eq
  unfold Stored.embedArticles Document.embedArticles Document.embedAsking
  rw [embedEach_eq, embedEach_eq, harticles]
  refine ⟨rfl, h.appendAnswers fun x hx => ?_⟩
  exact d.tree.articles_numbers.subset (List.of_mem_zip hx).1

end Stored

/-! ## Filling, one change after the other -/

namespace Document

/-- **Filling a block.** For every document and every block that lies in it or is still held, and
whatever the parser makes of the two texts: the block ends up with the nodes of the template, in
which the nodes of the inner text, and behind them what was in it, stand in the place of the first
marker; the template blocks of the template become handled; and nothing else changes. In memory,
where links and lists are set one after the other, it comes to the same. -/
theorem fill_filled {formats : Formats} {d : Document} (hd : d.Made formats) {b : Block} {a : Node}
    {cs : Forest Node} (hb : d.node? b = some (a, cs)) (markup inner : String) :
    ∃ nodes inserted content : Forest Node,
      nodes.map Prod.snd = formats.read markup ∧ inserted.map Prod.snd = formats.read inner ∧
      d.Filled (d.fill formats b markup inner).2 b a cs nodes inserted content
        (d.fill formats b markup inner).1 ∧
      ∀ s : Stored, s.Stores d →
        (s.fill formats b markup inner).1 = (d.fill formats b markup inner).1 ∧
        (s.fill formats b markup inner).2.Stores (d.fill formats b markup inner).2 ∧
        (s.fill formats b markup inner).2.memory.below (some b.id) = content := by
  refine ⟨_, _, (d.filling formats markup inner).1, map_number _ _, map_number _ _,
    filled_fill hd hb markup inner rfl rfl, fun s hs => ?_⟩
  obtain ⟨hid, hmem⟩ := mem_labels_of_find? hb
  have hlt : b.id < d.fresh := eq_of_beq hid ▸ hd.bounded.nodes a hmem
  obtain ⟨hfound, hstores⟩ := hs.fill hlt formats markup inner
  obtain ⟨-, hreplaced, hfresh, -⟩ := hs.fill_memory hlt formats markup inner
  obtain ⟨⟨-, hlist⟩, hshows, -⟩ := hreplaced.shows
  have hwithin := (within_filling formats d markup inner).1
  rw [← hfresh] at hwithin
  exact ⟨hfound, hstores, Memory.Draws.below_eq ⟨hlist, hshows⟩ hwithin⟩

/-- A template block with a text in it. -/
def calloutText : String := "<section type=\"template\">x</section>"

/-- A template whose marker has swallowed a template block, as one that closes itself does. -/
def frameText : String :=
  "<p>a</p><section type=\"innermarker\"/><section type=\"template\">t</section>"

theorem fill_swallowing :
    let d := load .standard calloutText .inline false
    let r := d.fill .standard ⟨0, .template⟩ frameText calloutText
    d.node? ⟨0, .template⟩ = some ((0, .element .html "section" [⟨.none, "type", "template"⟩]),
      .tree (1, .text "x") .nil) ∧ r.1 = true ∧ r.2.handled.length = 1 ∧
    ∃ nodes inserted content : Forest Node,
      nodes.map Prod.snd = Formats.standard.read frameText ∧
      inserted.map Prod.snd = Formats.standard.read calloutText ∧
      d.Filled r.2 ⟨0, .template⟩ (0, .element .html "section" [⟨.none, "type", "template"⟩])
        (.tree (1, .text "x") .nil) nodes inserted content r.1 ∧
      let u := (Stored.load .standard calloutText false).fill .standard ⟨0, .template⟩ frameText
        calloutText
      u.1 = r.1 ∧ u.2.Stores r.2 ∧ u.2.memory.below (some 0) = content := by
  have hb : (load .standard calloutText .inline false).node? ⟨0, .template⟩ =
      some ((0, .element .html "section" [⟨.none, "type", "template"⟩]),
        .tree (1, .text "x") .nil) := by
    decide +kernel
  obtain ⟨nodes, inserted, content, hnodes, hinserted, hfilled, hstored⟩ :=
    fill_filled (.load calloutText .inline false) hb frameText calloutText
  exact ⟨hb, by decide +kernel, by decide +kernel, nodes, inserted, content, hnodes, hinserted,
    hfilled, hstored _ (Stored.stores_load .standard calloutText .inline false)⟩

end Document

end StaticSite
