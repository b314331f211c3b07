import StaticSite.Proofs.Stored

/-!
Sessions on a document.

A caller asks for blocks, keeps those that it gets, and fills and replaces them whenever it likes,
also when they have long left the tree. The same requests may be made to a document whose tree is
one value and to one in memory.

* `Request`, `Handling.run`: the requests, and a run of them on documents of either form;
* `Agree`, `agree_step`, `agree_run`: both forms go on alike, one request or many;
* `Orderly`, `session_orderly`: what holds of a document in memory whenever a caller has made its
  requests.
-/

namespace StaticSite

open Forest

/-! ## Requests -/

/-- What a caller asks of a document. Blocks go by their place among those found so far. -/
inductive Request (ε : Type) where
  | nextTemplate
  | nextRepeat
  | fill (k : Nat) (markup inner : String)
  | replace (k : Nat) (markup : String)
  | embed (content : String → Logged ε (Option String))

/-- How documents of some form do what they are asked. -/
structure Handling (ε σ : Type) where
  nextTemplate? : σ → Option (Block × σ)
  nextRepeat? : σ → Option Block
  keep : σ → Block → σ
  fill : σ → Block → String → String → Bool × σ
  replace : σ → Block → String → σ
  embed : σ → (String → Logged ε (Option String)) → σ × Logged ε Nat

def Document.handling (ε : Type) (formats : Formats) : Handling ε Document :=
  ⟨nextTemplate?, nextRepeat?, keep, fill formats, replace formats, embedArticles formats⟩

def Stored.handling (ε : Type) (formats : Formats) : Handling ε Stored :=
  ⟨nextTemplate?, nextRepeat?, keep, fill formats, replace formats, embedArticles formats⟩

structure Session (σ : Type) where
  document : σ
  /-- The blocks that have been found, in order. The caller keeps them all. -/
  found : List Block

namespace Handling

variable {ε σ : Type}

def step (h : Handling ε σ) (s : Session σ) : Request ε → Session σ
  | .nextTemplate =>
    match h.nextTemplate? s.document with
    | some (b, d) => ⟨d, s.found ++ [b]⟩
    | none => s
  | .nextRepeat =>
    match h.nextRepeat? s.document with
    | some b => ⟨h.keep s.document b, s.found ++ [b]⟩
    | none => s
  | .fill k markup inner =>
    match s.found[k]? with
    | some b => { s with document := (h.fill s.document b markup inner).2 }
    | none => s
  | .replace k markup =>
    match s.found[k]? with
    | some b => { s with document := h.replace s.document b markup }
    | none => s
  | .embed content => { s with document := (h.embed s.document content).1 }

def run (h : Handling ε σ) (s : Session σ) (requests : List (Request ε)) : Session σ :=
  requests.foldl h.step s

end Handling

/-! ## What goes on outside the tree -/

/-- What a session never takes back: numbers that are given out, and blocks that are handled. -/
structure Document.Grown (d d' : Document) : Prop where
  fresh : d.fresh ≤ d'.fresh
  handled : ∀ i ∈ d.handled, i ∈ d'.handled

namespace Document

variable {formats : Formats} {d d' d'' : Document}

theorem Grown.refl (d : Document) : d.Grown d := ⟨Nat.le_refl _, fun _ hi => hi⟩

theorem Grown.trans (h : d.Grown d') (h' : d'.Grown d'') : d.Grown d'' :=
  ⟨Nat.le_trans h.fresh h'.fresh, fun i hi => h'.handled i (h.handled i hi)⟩

theorem grown_fill (d : Document) (b : Block) (markup inner : String) :
    d.Grown (d.fill formats b markup inner).2 := by
  rw [fill_eq]
  refine ⟨?_, fun i hi => List.mem_append_left _ hi⟩
  dsimp only
  rw [(setChildren_frame _ _ _).1]
  exact (within_filling formats d markup inner).2

theorem grown_replace (d : Document) (b : Block) (markup : String) :
    d.Grown (d.replace formats b markup) := by
  obtain ⟨hfresh, hhandled, -⟩ := replace_frame formats d b markup
  exact ⟨hfresh ▸ le_number _ _, fun i hi => hhandled ▸ hi⟩

theorem grown_appendTo (d : Document) (article : Nat) (markup : String) :
    d.Grown (d.appendTo formats article markup) := by
  obtain ⟨hfresh, hhandled, -⟩ := appendTo_frame formats d article markup
  exact ⟨hfresh ▸ le_number _ _, fun i hi => hhandled ▸ hi⟩

theorem grown_embedArticles {ε : Type} (content : String → Logged ε (Option String))
    (d : Document) : d.Grown (d.embedArticles formats content).1 := by
  unfold embedArticles embedAsking
  rw [embedEach_eq]
  refine List.foldlRecOn _ _ (.refl d) fun d' hd x _ => ?_
  cases x.2 with
  | none => exact hd
  | some markup => exact hd.trans (grown_appendTo d' x.1 markup)

end Document

/-! ## Both forms -/

section

variable {ε : Type} {formats : Formats} {s : Session Document} {t : Session Stored}

/-- The templates among the blocks that have been found. -/
def Session.templates {σ : Type} (s : Session σ) : List Nat :=
  (s.found.filter fun b => b.kind = .template).map Block.id

/-- Two sessions that have come equally far, on a document and on one in memory. -/
structure Agree (s : Session Document) (t : Session Stored) : Prop where
  stores : t.document.Stores s.document
  found : t.found = s.found
  /-- The blocks that have been found were nodes once. -/
  bound : ∀ b ∈ s.found, b.id < s.document.fresh
  handled : ∀ i ∈ s.templates, i ∈ s.document.handled
  once : s.templates.Nodup

/-- What changes no list of blocks keeps the sessions alike, as long as the documents are. -/
theorem Agree.grown (h : Agree s t) {d : Document} {u : Stored} (hu : u.Stores d)
    (hd : s.document.Grown d) : Agree { s with document := d } { t with document := u } :=
  ⟨hu, h.found, fun b hb => Nat.lt_of_lt_of_le (h.bound b hb) hd.fresh,
    fun i hi => hd.handled i (h.handled i hi), h.once⟩

theorem agree_load (formats : Formats) (markup : String) (origin : Origin) (isRoot : Bool) :
    Agree ⟨.load formats markup origin isRoot, []⟩ ⟨.load formats markup isRoot, []⟩ :=
  ⟨Stored.stores_load formats markup origin isRoot, rfl, fun _ hb => absurd hb List.not_mem_nil,
    fun _ hi => absurd hi List.not_mem_nil, List.nodup_nil⟩

theorem Agree.nextTemplate (h : Agree s t) {b : Block} {d : Document}
    (hn : s.document.nextTemplate? = some (b, d)) :
    Agree ⟨d, s.found ++ [b]⟩ ⟨{ t.document with handled := d.handled }, t.found ++ [b]⟩ := by
  have hstores := h.stores.nextTemplate hn
  obtain ⟨n, c, cs, hfind, hr⟩ := Document.nextTemplate?_eq_some hn
  cases hr
  obtain ⟨hpending, hmem⟩ := mem_labels_of_find? hfind
  have hnew : n ∉ s.document.handled := by
    simpa [Document.isHandled] using (Bool.and_eq_true_iff.1 hpending).2
  have htemplates : Session.templates ⟨{ s.document with handled := s.document.handled ++ [n] },
      s.found ++ [⟨n, .template⟩]⟩ = s.templates ++ [n] := by
    simp [Session.templates]
  refine ⟨hstores, congrArg (· ++ [_]) h.found, List.forall_mem_append.2 ⟨h.bound,
    List.forall_mem_singleton.2 ?_⟩, ?_, ?_⟩
  · exact (h.stores.numbered.bounds n (List.mem_map_of_mem hmem)).2
  · rw [htemplates]
    exact List.forall_mem_append.2 ⟨fun i hi => List.mem_append_left _ (h.handled i hi),
      fun i hi => List.mem_append_right _ hi⟩
  · rw [htemplates, List.nodup_append]
    refine ⟨h.once, List.nodup_singleton n, fun i hi j hj e => hnew ?_⟩
    rw [← List.mem_singleton.1 hj, ← e]
    exact h.handled i hi

theorem Agree.nextRepeat (h : Agree s t) {b : Block} (hn : s.document.nextRepeat? = some b) :
    Agree ⟨s.document.keep b, s.found ++ [b]⟩ ⟨t.document.keep b, t.found ++ [b]⟩ := by
  obtain ⟨⟨⟨n, c⟩, cs⟩, hfind, rfl⟩ := Option.map_eq_some_iff.1 hn
  have htemplates : Session.templates ⟨s.document.keep ⟨n, .repetition⟩,
      s.found ++ [⟨n, .repetition⟩]⟩ = s.templates := by
    simp [Session.templates]
  refine ⟨h.stores.keep _, congrArg (· ++ [_]) h.found, List.forall_mem_append.2 ⟨h.bound,
    List.forall_mem_singleton.2 ?_⟩, htemplates ▸ h.handled, htemplates ▸ h.once⟩
  exact (h.stores.numbered.bounds n (List.mem_map_of_mem (mem_labels_of_find? hfind).2)).2

/-- **One request.** Sessions that agree go on alike. -/
theorem agree_step (formats : Formats) (h : Agree s t) (r : Request ε) :
    Agree ((Document.handling ε formats).step s r) ((Stored.handling ε formats).step t r) := by
  cases r with
  | nextTemplate =>
    have heq := h.stores.nextTemplate?_eq
    unfold Handling.step Document.handling Stored.handling
    dsimp only
    cases hn : s.document.nextTemplate? with
    | none =>
      rw [hn] at heq
      rw [heq]
      exact h
    | some x =>
      rw [hn] at heq
      rw [heq]
      exact h.nextTemplate hn
  | nextRepeat =>
    unfold Handling.step Document.handling Stored.handling
    dsimp only
    rw [h.stores.nextRepeat?_eq]
    cases hn : s.document.nextRepeat? with
    | none => exact h
    | some b => exact h.nextRepeat hn
  | fill k markup inner =>
    unfold Handling.step Document.handling Stored.handling
    have hsame : t.found[k]? = s.found[k]? := by rw [h.found]
    dsimp only
    rw [hsame]
    cases hb : s.found[k]? with
    | none => exact h
    | some b =>
      exact h.grown (h.stores.fill (h.bound b (List.mem_of_getElem? hb)) formats markup inner).2
        (Document.grown_fill _ b markup inner)
  | replace k markup =>
    unfold Handling.step Document.handling Stored.handling
    have hsame : t.found[k]? = s.found[k]? := by rw [h.found]
    dsimp only
    rw [hsame]
    cases hb : s.found[k]? with
    | none => exact h
    | some b =>
      exact h.grown (h.stores.replace (h.bound b (List.mem_of_getElem? hb)) formats markup)
        (Document.grown_replace _ b markup)
  | embed content =>
    exact h.grown (h.stores.embedArticles content).2 (Document.grown_embedArticles content _)

/-- **A run of requests.** -/
theorem agree_run (formats : Formats) (h : Agree s t) (requests : List (Request ε)) :
    Agree ((Document.handling ε formats).run s requests)
      ((Stored.handling ε formats).run t requests) := by
  induction requests generalizing s t with
  | nil => exact h
  | cons r requests ih => exact ih (agree_step formats h r)

end

/-! ## What holds at any time -/

/-- What a caller may rely on, whatever it has asked for. -/
structure Orderly (formats : Formats) (t : Session Stored) : Prop where
  /-- The nodes of the tree are those that are reached from its top. -/
  reached : ∀ i, t.document.memory.InTree i ↔ i ∈ t.document.tree.numbers
  /-- None of them is at two places. -/
  distinct : t.document.tree.numbers.Nodup
  /-- Each of them is listed once, by the owner that its parent link names. -/
  wellLinked : t.document.memory.WellLinked
  /-- A block in the tree gives way to nodes in its place, and nothing else changes. -/
  inTree : ∀ b ∈ t.found, t.document.memory.InTree b.id → ∀ markup, ∃ a cs new,
    new.map Prod.snd = formats.read markup ∧
      First (·.1 == b.id) a cs new t.document.tree (t.document.replace formats b markup).tree ∧
      ¬(t.document.replace formats b markup).memory.InTree b.id
  /-- The next repeat block is in the tree, so that replacing it takes it away. -/
  repeats : ∀ b, t.document.nextRepeat? = some b → t.document.memory.InTree b.id
  /-- A block that has left the tree does nothing to the text of the document. -/
  stale : ∀ b ∈ t.found, ¬t.document.memory.InTree b.id → ∀ markup inner,
    (t.document.replace formats b markup).serialize formats = t.document.serialize formats ∧
      (t.document.fill formats b markup inner).2.serialize formats = t.document.serialize formats
  /-- No template block is found twice. -/
  once : t.templates.Nodup

/-- A block that is replaced was in the tree once, and is not among the new nodes. -/
theorem Agree.orderly {formats : Formats} {s : Session Document} {t : Session Stored}
    (h : Agree s t) : Orderly formats t := by
  have hbound (b : Block) (hb : b ∈ t.found) : b.id < s.document.fresh :=
    h.bound b (h.found ▸ hb)
  have hreplace (b : Block) (hb : b ∈ t.found) (markup : String) :=
    h.stores.replace (hbound b hb) formats markup
  have hin (b : Block) : t.document.memory.InTree b.id ↔ b.id ∈ s.document.tree.numbers :=
    h.stores.draws.inTree_iff
  refine ⟨fun i => ?_, ?_, h.stores.sound.wellLinked, fun b hb hmem markup => ?_, fun b hb => ?_,
    fun b hb hmem markup inner => ?_, ?_⟩
  · rw [h.stores.tree_eq]
    exact h.stores.draws.inTree_iff
  · rw [h.stores.tree_eq]
    exact h.stores.numbered.once
  · obtain ⟨c, cs, hfind⟩ := exists_find? ((hin b).1 hmem)
    obtain ⟨new, hnew⟩ : ∃ new, new = ((formats.read markup).number s.document.fresh).1 := ⟨_, rfl⟩
    have hfirst : First (·.1 == b.id) (b.id, c) cs new s.document.tree
        (s.document.replace formats b markup).tree :=
      hnew ▸ (Document.replace_found h.stores.numbered hfind b.kind markup).1
    refine ⟨(b.id, c), cs, new, hnew ▸ map_number _ _, ?_, ?_⟩
    · rw [h.stores.tree_eq, (hreplace b hb markup).tree_eq]
      exact hfirst
    · rw [(hreplace b hb markup).draws.inTree_iff]
      have hcount := hfirst.count_numbers b.id
      have hone := List.nodup_iff_count.1 h.stores.numbered.once b.id
      have hnone : new.numbers.count b.id = 0 := List.count_eq_zero.2 fun hmem =>
        Nat.not_lt_of_le ((hnew ▸ within_number (formats.read markup) s.document.fresh).bounds
          b.id hmem).1 (hbound b hb)
      rw [numbers_tree, List.count_cons_self] at hcount
      refine List.count_eq_zero.1 ?_
      omega
  · rw [h.stores.nextRepeat?_eq] at hb
    obtain ⟨r, hfind, rfl⟩ := Option.map_eq_some_iff.1 hb
    exact (hin _).2 (List.mem_map_of_mem (mem_labels_of_find? hfind).2)
  · have hnot : b.id ∉ s.document.tree.numbers := fun hi => hmem ((hin b).2 hi)
    have hfill := (h.stores.fill (hbound b hb) formats markup inner).2
    unfold Stored.serialize
    rw [(hreplace b hb markup).tree_eq, hfill.tree_eq, h.stores.tree_eq,
      Document.replace_of_not_mem hnot, Document.fill_of_not_mem hnot]
    exact ⟨rfl, rfl⟩
  · unfold Session.templates
    rw [h.found]
    exact h.once

/-- **Sessions.** Whatever a caller asks of a document, on blocks in the tree or out of it: the
document in memory has the tree, the blocks and the handled blocks of the one whose tree is a value;
its nodes form a tree by their links and lists; a block in the tree is replaced in its place, and
one that has left it changes nothing; and no template block comes up twice. -/
theorem session_orderly {ε : Type} (formats : Formats) (markup : String) (origin : Origin)
    (isRoot : Bool) (requests : List (Request ε)) :
    let s := (Document.handling ε formats).run ⟨.load formats markup origin isRoot, []⟩ requests
    let t := (Stored.handling ε formats).run ⟨.load formats markup isRoot, []⟩ requests
    t.document.tree = s.document.tree ∧ t.found = s.found ∧
      t.document.handled = s.document.handled ∧ Orderly formats t := by
  have h := agree_run formats (agree_load formats markup origin isRoot) requests
  exact ⟨h.stores.tree_eq, h.found, h.stores.handled, h.orderly⟩

/-- A repeat block in a template block. It leaves the tree when the template block is filled. -/
def outdatedText : String :=
  "<section type=\"template\">a<section type=\"repeat\">b</section></section>"

example :
    let t := (Stored.handling Unit .standard).run ⟨.load .standard outdatedText false, []⟩
      [.nextTemplate, .nextRepeat, .fill 0 "c" "", .replace 1 "d"]
    t.found = [⟨0, .template⟩, ⟨2, .repetition⟩] ∧
      t.document.serialize .standard = "<section type=\"template\">c</section>" := by
  decide +kernel

end StaticSite
