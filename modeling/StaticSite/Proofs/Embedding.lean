import StaticSite.Build.ContentIndex
import StaticSite.Proofs.Stored

/-!
What is put into the articles of a page.

Articles are found once, and then get their content one after the other, while the page grows. What
a caller answers may hang on all that it has been asked before. Proved here, for every document and
every caller:

* `Forest.First.grow_eq`, `Forest.grow_grow`: more at the end of a node, and then more of it
  elsewhere, is more at the ends of nodes that all keep their places;
* `embedded_appendAnswers`: each article ends with what was answered for it, by induction on the
  answers;
* `embedAsking_asks`: so a caller is asked for the articles that there were, in their order, up to its
  first failure, and what it has answered before this is what the document gets;
* `embed_result`: a page with articles out of an index is the page with their files at the ends of
  its articles, and it stays as it is written if the index has none of them;
* `articles_embedded`: all of this for one document.
-/

namespace StaticSite

/-! ## Forests that grow -/

namespace Forest

universe u v

variable {α : Type u} {β : Type v} {g h : α → Forest α} {f : Forest α}

/-- Puts more nodes behind the children of each node. -/
def grow (g : α → Forest α) : Forest α → Forest α
  | nil => nil
  | node a cs fs => node a (grow g cs ++ g a) (grow g fs)

theorem grow_append (g : α → Forest α) (f f' : Forest α) :
    (f ++ f').grow g = f.grow g ++ f'.grow g := by
  induction f with
  | nil => rfl
  | node a cs fs _ ih => rw [node_append, grow, ih]; rfl

theorem grow_of_nil (hg : ∀ a ∈ f.labels, g a = nil) : f.grow g = f := by
  induction f with
  | nil => rfl
  | node a cs fs ihc ihf =>
    simp only [labels, List.forall_mem_cons, List.forall_mem_append] at hg
    rw [grow, hg.1, ihc hg.2.1, ihf hg.2.2, append_nil]

/-- Growing twice is growing once, where what has come first does not grow. -/
theorem grow_grow (hnew : ∀ a ∈ f.labels, ∀ b ∈ (g a).labels, h b = nil) :
    (f.grow g).grow h = f.grow fun a => g a ++ h a := by
  induction f with
  | nil => rfl
  | node a cs fs ihc ihf =>
    simp only [labels, List.forall_mem_cons, List.forall_mem_append] at hnew
    simp only [grow, grow_append, ihc hnew.2.1, ihf hnew.2.2, grow_of_nil hnew.1, append_assoc]

theorem map_grow {k : α → β} {h : β → Forest β} (hsame : ∀ a ∈ f.labels, (g a).map k = h (k a)) :
    (f.grow g).map k = (f.map k).grow h := by
  induction f with
  | nil => rfl
  | node a cs fs ihc ihf =>
    simp only [labels, List.forall_mem_cons, List.forall_mem_append] at hsame
    simp only [grow, map, map_append, ihc hsame.2.1, ihf hsame.2.2, hsame.1]

/-- One node that gets more is a forest that grows there. -/
theorem First.grow_eq {i : Nat} {a : Nat × α} {cs new f f' : Forest (Nat × α)}
    (hfirst : First (·.1 == i) a cs (tree a (cs ++ new)) f f') (hn : f.numbers.Nodup) :
    f' = f.grow fun n => if n.1 = i then new else nil := by
  have hother {f : Forest (Nat × α)} (hi : i ∉ f.numbers) :
      (f.grow fun n => if n.1 = i then new else nil) = f :=
    grow_of_nil fun n hn => if_neg fun e : n.1 = i => hi (e ▸ List.mem_map_of_mem hn)
  induction hfirst with
  | here fs ha =>
    rw [numbers_node, List.nodup_cons, List.mem_append, not_or, eq_of_beq ha] at hn
    rw [grow, hother hn.1.1, hother hn.1.2, if_pos (eq_of_beq ha)]
    rfl
  | inside b fs hb hin ih =>
    rw [numbers_node, List.nodup_cons, List.nodup_append] at hn
    have hfs : i ∉ Forest.numbers fs := fun hi => hn.2.2.2 i hin.mem_numbers i hi rfl
    rw [grow, hother hfs, if_neg (ne_of_beq_false hb), append_nil, ih hn.2.1]
  | @behind b bs fs fs' hb hbs _ ih =>
    rw [numbers_node, List.nodup_cons, List.nodup_append] at hn
    have hbs : i ∉ Forest.numbers bs := fun hi => by
      obtain ⟨n, hmem, rfl⟩ := List.mem_map.1 hi
      exact absurd (find?_eq_none_iff.1 hbs n hmem) (by simp)
    rw [grow, hother hbs, if_neg (ne_of_beq_false hb), append_nil, ih hn.2.2.1]

end Forest

open Forest

/-! ## Asking while the document grows -/

namespace Document

variable {ε σ : Type} {formats : Formats} {d d' d'' : Document}

theorem articles_ids (d : Document) :
    d.articles.map Prod.snd = (d.tree.map Prod.snd).labels.filterMap Content.articleId? := by
  rw [articles, Forest.articles, labels_map, List.map_filterMap, List.filterMap_map]
  refine List.filterMap_congr fun n _ => ?_
  show (n.2.articleId?.map fun id => (n.1, id)).map Prod.snd = n.2.articleId?
  cases n.2.articleId? <;> rfl

/-- All that comes of answers for articles: each article has the nodes of its answer after all that
it held, and nothing else has changed. -/
structure Embedded (formats : Formats) (d d' : Document) (answered : List (Nat × Option String)) :
    Prop where
  tree : ∃ added : Nat → Forest Node, (d'.tree = d.tree.grow fun n => added n.1) ∧
    ∀ i, (added i).map Prod.snd = match answered.lookup i with
      | some (some markup) => formats.parseFragment markup
      | _ => .nil
  numbered : d'.Numbered
  detached : d'.detached = d.detached
  handled : d'.handled = d.handled
  kept : d'.kept = d.kept
  origin : d'.origin = d.origin

theorem map_eq_nil {f : Forest Node} (h : f.map Prod.snd = .nil) : f = .nil := by
  cases f with
  | nil => rfl
  | node a cs fs => cases h

theorem Embedded.refl (hd : d.Numbered) : d.Embedded formats d [] where
  tree := ⟨fun _ => .nil, (grow_of_nil fun _ _ => rfl).symm, fun _ => rfl⟩
  numbered := hd
  detached := rfl
  handled := rfl
  kept := rfl
  origin := rfl

theorem Embedded.without {answered : List (Nat × Option String)} {article : Nat}
    (h : d.Embedded formats d' answered) (hnew : answered.lookup article = none) :
    d.Embedded formats d' ((article, none) :: answered) := by
  obtain ⟨⟨added, htree, hadded⟩, hnumbered, hdetached, hhandled, hkept, horigin⟩ := h
  refine ⟨⟨added, htree, fun i => ?_⟩, hnumbered, hdetached, hhandled, hkept, horigin⟩
  rw [hadded i, List.lookup_cons]
  cases hi : i == article with
  | false => rfl
  | true => rw [eq_of_beq hi, hnew]

/-- The nodes of an answer have new numbers, for which nothing is asked. -/
theorem Embedded.append {answered : List (Nat × Option String)} {article : Nat} {markup : String}
    (hd : d.Numbered) (harticle : article ∈ d.tree.numbers)
    (h : (d.appendTo formats article markup).Embedded formats d' answered)
    (hnew : answered.lookup article = none) (hold : ∀ x ∈ answered, x.1 < d.fresh) :
    d.Embedded formats d' ((article, some markup) :: answered) := by
  obtain ⟨⟨added, htree, hadded⟩, hnumbered, hdetached, hhandled, hkept, horigin⟩ := h
  obtain ⟨-, hh, hk, ho⟩ := appendTo_frame formats d article markup
  obtain ⟨c, cs, hfind⟩ := exists_find? harticle
  obtain ⟨new, hparsed⟩ : ∃ new, new = ((formats.parseFragment markup).number d.fresh).1 := ⟨_, rfl⟩
  have hfirst := Stored.appendTo_found hfind formats markup
  rw [← hparsed] at hfirst
  have hgrown := hfirst.grow_eq hd.once
  have hnone : added article = .nil := by
    refine map_eq_nil ?_
    rw [hadded, hnew]
  have hfresh : ∀ a ∈ d.tree.labels, ∀ b ∈ (if a.1 = article then new else Forest.nil).labels,
      added b.1 = .nil := by
    intro a _ b hb
    refine map_eq_nil ?_
    split at hb
    · have hlookup : answered.lookup b.1 = none := by
        rw [List.lookup_eq_none_iff]
        intro x hx
        have hlow := hold x hx
        rw [hparsed] at hb
        have hhigh := (bounds_of_mem_number hb).1
        exact bne_iff_ne.2 (by omega)
      rw [hadded, hlookup]
    · cases hb
  refine ⟨⟨fun i => (if i = article then new else .nil) ++ added i, ?_, fun i => ?_⟩, hnumbered, ?_,
    hhandled.trans hh, hkept.trans hk, horigin.trans ho⟩
  · rw [htree, hgrown, grow_grow hfresh]
  · rw [map_append, List.lookup_cons]
    by_cases hi : i = article
    · subst hi
      rw [if_pos rfl, hnone, BEq.rfl]
      dsimp only
      rw [hparsed, map_number]
      exact append_nil _
    · rw [if_neg hi, beq_false_of_ne hi]
      exact hadded i
  · rw [hdetached]
    unfold appendTo parseNodes
    dsimp only
    split <;> rfl

/-- **Appending.** Each article ends with what was answered for it. -/
theorem embedded_appendAnswers (hd : d.Numbered) {answered : List (Nat × Option String)}
    (hmem : ∀ x ∈ answered, x.1 ∈ d.tree.numbers) (honce : (answered.map Prod.fst).Nodup) :
    d.Embedded formats (appendAnswers (appendTo formats) d answered) answered := by
  induction answered generalizing d with
  | nil => exact .refl hd
  | cons x rest ih =>
    obtain ⟨article, answer⟩ := x
    obtain ⟨harticle, hrest⟩ := List.forall_mem_cons.1 hmem
    rw [List.map_cons, List.nodup_cons] at honce
    have hnew : rest.lookup article = none := by
      rw [List.lookup_eq_none_iff]
      exact fun x hx => bne_iff_ne.2 fun heq => honce.1 (List.mem_map.2 ⟨x, hx, heq.symm⟩)
    cases answer with
    | none => exact (ih hd hrest honce.2).without hnew
    | some markup =>
      have hnext : (d.appendTo formats article markup).Numbered := hd.appendTo article markup
      have hembedded := ih hnext (fun x hx => Stored.mem_appendTo harticle markup (hrest x hx)) honce.2
      exact hembedded.append hd harticle hnew fun x hx => (hd.bounds x.1 (hrest x hx)).2

theorem map_fst_zip_sublist {α β : Type} (l : List α) (l' : List β) :
    ((l.zip l').map Prod.fst).Sublist l := by
  induction l generalizing l' with
  | nil => exact List.nil_sublist _
  | cons a l ih =>
    cases l' with
    | nil => exact List.nil_sublist _
    | cons b l' => exact (ih l').cons_cons a

/-- **Asking.** The articles of a document end with what was answered for them before the first
failure. -/
theorem embedAsking_asks (formats : Formats) (hd : d.Numbered) (caller : Caller ε σ) (s : σ) :
    let asked := caller.ask s (d.articles.map Prod.snd)
    let embedded := d.embedAsking formats caller s
    embedded.2.1 = asked.state ∧ embedded.2.2 = asked.count ∧
      d.Embedded formats embedded.1 ((d.articles.map Prod.fst).zip asked.answers) := by
  intro asked embedded
  have heq : embedded = (appendAnswers (appendTo formats) d
      ((d.articles.map Prod.fst).zip asked.answers), asked.state, asked.count) :=
    embedEach_eq _ caller d.articles s d
  rw [heq]
  have hsub := (map_fst_zip_sublist (d.articles.map Prod.fst) asked.answers).trans
    d.tree.articles_numbers
  exact ⟨rfl, rfl, embedded_appendAnswers hd
    (fun x hx => hsub.subset (List.mem_map_of_mem hx)) (hd.once.sublist hsub)⟩

/-- What a caller that remembers nothing gives for an article. -/
def given (content : String → Logged ε (Option String)) (id : String) : Option String :=
  match (content id).result with
  | .ok answer => answer
  | .error _ => none

theorem mapM_eq_given {content : String → Logged ε (Option String)} {ids : List String}
    {answers : List (Option String)}
    (h : (ids.mapM fun id => (content id).result) = .ok answers) :
    answers = ids.map (given content) := by
  induction ids generalizing answers with
  | nil => exact (Except.ok.inj h).symm
  | cons id rest ih =>
    rw [List.mapM_cons] at h
    obtain ⟨answer, hanswer, h⟩ := Logged.except_bind_eq_ok h
    obtain ⟨all, hall, h⟩ := Logged.except_bind_eq_ok h
    obtain rfl := Except.ok.inj h
    rw [List.map_cons, ih hall, given, hanswer]

/-- No other node has the number of an article. -/
theorem lookup_filterMap_articleId? (g : String → Option String) {n : Node} {l : List Node}
    (honce : (l.map Prod.fst).Nodup) (hn : n ∈ l) :
    (l.filterMap fun m => m.2.articleId?.map fun id => (m.1, g id)).lookup n.1 =
      n.2.articleId?.map g := by
  induction l with
  | nil => cases hn
  | cons m l ih =>
    rw [List.map_cons, List.nodup_cons] at honce
    rcases List.mem_cons.1 hn with rfl | hn
    · cases hid : n.2.articleId? with
      | some id =>
        rw [List.filterMap_cons_some (b := (n.1, g id)) (by simp [hid]), List.lookup_cons_self]
        rfl
      | none =>
        rw [List.filterMap_cons_none (by simp [hid]), Option.map_none, List.lookup_eq_none_iff]
        intro p hp
        obtain ⟨m, hm, hp⟩ := List.mem_filterMap.1 hp
        obtain ⟨id, -, rfl⟩ := Option.map_eq_some_iff.1 hp
        exact bne_iff_ne.2 fun e : n.1 = m.1 => honce.1 (e ▸ List.mem_map_of_mem hm)
    · have hne : n.1 ≠ m.1 := fun e => honce.1 (e ▸ List.mem_map_of_mem hn)
      cases hid : m.2.articleId? with
      | some id =>
        rw [List.filterMap_cons_some (b := (m.1, g id)) (by simp [hid]), List.lookup_cons,
          beq_false_of_ne hne]
        exact ih honce.2 hn
      | none =>
        rw [List.filterMap_cons_none (by simp [hid])]
        exact ih honce.2 hn

/-- The answer for an article is found by its number. -/
theorem lookup_answers (hd : d.Numbered) (g : String → Option String) {n : Node}
    (hn : n ∈ d.tree.labels) :
    ((d.articles.map Prod.fst).zip ((d.articles.map Prod.snd).map g)).lookup n.1 =
      n.2.articleId?.map g := by
  rw [List.map_map, List.zip_map', articles, Forest.articles, List.map_filterMap,
    ← lookup_filterMap_articleId? g hd.once hn]
  congr 1
  refine List.filterMap_congr fun m _ => ?_
  cases m.2.articleId? <;> rfl

/-- The nodes that an element gets if it is an article. -/
def inserted (formats : Formats) (content : String → Logged ε (Option String)) (c : Content) :
    Markup :=
  match c.articleId?.bind (given content) with
  | some markup => formats.parseFragment markup
  | none => .nil

/-- What the articles of a document come to where nothing is remembered between them. -/
theorem embedArticles_cases (formats : Formats) (hd : d.Numbered) (content : String → Logged ε (Option String)) :
    let page := d.tree.map Prod.snd
    let answers := (page.labels.filterMap Content.articleId?).mapM fun id => (content id).result
    (∃ e, answers = .error e ∧ (d.embedArticles formats content).2.result = .error e) ∨
    ∃ all, answers = .ok all ∧
      (d.embedArticles formats content).2.result = .ok (all.countP Option.isSome) ∧
      (d.embedArticles formats content).1.tree.map Prod.snd =
        page.grow (inserted formats content) := by
  intro page answers
  have hids : answers = (d.articles.map Prod.snd).mapM fun id => (content id).result := by
    rw [articles_ids]
  obtain ⟨-, hcount, hembedded⟩ := embedAsking_asks formats hd (Caller.logged content) []
  have hresult : (d.embedArticles formats content).2.result =
      answers.map fun all => all.countP Option.isSome := by
    rw [hids, ← Caller.ask_logged content [], ← Asked.count_eq]
    exact hcount
  rw [hresult]
  cases hanswers : answers with
  | error e => exact .inl ⟨e, rfl, rfl⟩
  | ok all =>
    refine .inr ⟨all, rfl, rfl, ?_⟩
    rw [hids] at hanswers
    have hgiven := mapM_eq_given hanswers
    rw [← Caller.ask_logged content []] at hanswers
    rw [Asked.answers_of_outcome hanswers, hgiven] at hembedded
    obtain ⟨added, htree, hadded⟩ := hembedded.tree
    refine (congrArg (Forest.map Prod.snd) htree).trans (map_grow fun n hn => ?_)
    rw [hadded, lookup_answers hd _ hn, inserted]
    cases n.2.articleId? with
    | none => rfl
    | some id =>
      show (match some (given content id) with
        | some (some markup) => formats.parseFragment markup
        | _ => .nil) = match given content id with
          | some markup => formats.parseFragment markup
          | none => .nil
      cases given content id <;> rfl

end Document

/-! ## Articles out of an index -/

namespace ContentIndex

theorem content_isEmpty {index : ContentIndex} (h : index.isEmpty = true) (formats : Formats)
    (disk : Disk) (id : String) : index.content formats disk id = .ok none := by
  obtain ⟨entries⟩ := index
  obtain rfl := List.isEmpty_iff.1 h
  rfl

theorem mapM_eq_none {ε : Type} {ids : List String} {answer : String → Except ε (Option String)}
    (h : ∀ id ∈ ids, answer id = .ok none) : ids.mapM answer = .ok (ids.map fun _ => none) := by
  induction ids with
  | nil => rfl
  | cons id rest ih =>
    obtain ⟨hid, hrest⟩ := List.forall_mem_cons.1 h
    rw [List.mapM_cons, hid, ih hrest]
    rfl

/-- **Embedding.** Each article of the page has the file of its id behind all that it held. Where the
index has no file for any of them the page stays as it is written. -/
theorem embed_result (index : ContentIndex) (formats : Formats) (disk : Disk) (markup : String)
    (origin : Origin) :
    let page := formats.parseDocument (protectIncludes markup)
    (index.embed formats disk markup origin).result = do
      let answers ← (page.labels.filterMap Content.articleId?).mapM fun id =>
        (index.content formats disk id).result
      return if answers.all Option.isNone then markup
        else formats.serialize (page.grow (Document.inserted formats (index.content formats disk))) := by
  intro page
  unfold embed
  split
  · next hempty =>
    rw [mapM_eq_none fun id _ => congrArg Logged.result (content_isEmpty hempty formats disk id)]
    show _ = Except.ok (ite _ _ _)
    rw [if_pos (by simp)]
    rfl
  · have hpage : (Document.load formats markup origin true).tree.map Prod.snd = page :=
      map_number _ _
    have hd : (Document.load formats markup origin true).Numbered :=
      Document.numbered_load markup origin true
    have hcases := Document.embedArticles_cases formats hd (index.content formats disk)
    rw [hpage] at hcases
    simp only [Logged.result_bind]
    rcases hcases with ⟨e, hanswers, herror⟩ | ⟨answers, hanswers, hok, htree⟩
    · rw [hanswers, herror]
      rfl
    · rw [hanswers, hok]
      show (if answers.countP Option.isSome = 0 then pure markup else _ : Logged SiteError String).result =
        Except.ok (ite _ _ _)
      have hnone : answers.countP Option.isSome = 0 ↔ answers.all Option.isNone = true := by
        rw [List.countP_eq_zero, List.all_eq_true]
        exact forall₂_congr fun answer _ => by cases answer <;> simp
      split
      · next hzero => rw [if_pos (hnone.1 hzero)]; rfl
      · next hzero =>
        rw [if_neg fun hall => hzero (hnone.2 hall), ← htree]
        rfl

end ContentIndex

/-! ## The articles of a page -/

/-- **Articles.** A caller is asked for the articles that the document has, by their ids in document
order, once for each of them, up to the caller's first failure. Each of these articles then holds the
nodes that were given for it behind all that it held, and nothing else has changed; without a failure
the answer is the number of articles that got content. For a page and an index of articles this
means: nothing that is put in is searched or resolved, and without any article of the index the page
is what it was, as it was written. -/
theorem articles_embedded {ε σ : Type} (formats : Formats) (d : Document) (hd : d.Numbered)
    (caller : Caller ε σ) (s : σ) :
    let ids := d.tree.labels.filterMap fun n => n.2.articleId?
    let asked := caller.ask s ids
    let embedded := d.embedAsking formats caller s
    (d.articles = d.tree.labels.filterMap fun n => n.2.articleId?.map fun id => (n.1, id)) ∧
    (embedded.2.1 = asked.state ∧ embedded.2.2 = asked.count ∧
      d.Embedded formats embedded.1 ((d.articles.map Prod.fst).zip asked.answers)) ∧
    (d.embedAsking formats caller.recording (s, [])).2.1 =
      (asked.state, ids.take asked.questions) ∧
    (∀ content : String → Logged ε (Option String),
      d.embedAsking formats (.logged content) [] = ((d.embedArticles formats content).1,
        (d.embedArticles formats content).2.log, (d.embedArticles formats content).2.result)) ∧
    ∀ (index : ContentIndex) (disk : Disk) (markup : String) (origin : Origin),
      let page := formats.parseDocument (protectIncludes markup)
      let ids := page.labels.filterMap Content.articleId?
      ((∀ id ∈ ids, index.get? id = none) →
        (index.embed formats disk markup origin).result = .ok markup) ∧
      (index.embed formats disk markup origin).result = do
        let answers ← ids.mapM fun id => (index.content formats disk id).result
        return if answers.all Option.isNone then markup
          else formats.serialize
            (page.grow (Document.inserted formats (index.content formats disk))) := by
  intro ids asked embedded
  have hasks {σ : Type} (caller : Caller ε σ) (s : σ) :=
    Document.embedAsking_asks formats hd caller s
  have hids : d.articles.map Prod.snd = ids := by
    rw [d.articles_ids, labels_map, List.filterMap_map]
    rfl
  rw [hids] at hasks
  refine ⟨rfl, hasks caller s, ?_, fun content => rfl, fun index disk markup origin =>
    ⟨fun hnone => ?_, index.embed_result formats disk markup origin⟩⟩
  · exact (hasks caller.recording (s, [])).1.trans (caller.ask_recording s ids [])
  · have hcontent : ∀ id ∈ (formats.parseDocument (protectIncludes markup)).labels.filterMap
        Content.articleId?, (index.content formats disk id).result = .ok none := by
      intro id hid
      unfold ContentIndex.content
      rw [hnone id hid]
      rfl
    rw [index.embed_result formats disk markup origin, ContentIndex.mapM_eq_none hcontent]
    show Except.ok (ite _ _ _) = _
    rw [if_pos (by simp)]

/-- Two articles, one of them in another. -/
def nestedArticles : String :=
  "<article id=\"a\">1<article id=\"b\">2</article></article><article id=\"a\">3</article>"

/-- A caller that counts, and gives something else each time. -/
def countingCaller : Caller Unit Nat := fun n id =>
  (n + 1, .ok (if id = "b" then none else
    some (if n = 0 then "<article id=\"b\">new</article>" else "last")))

/-- The article that is put in is not asked for. -/
theorem counting_articles_embedded :
    let d := Document.load .standard nestedArticles .inline false
    d.Numbered ∧ (d.embedAsking .standard countingCaller 0).2 = (3, .ok 2) ∧
      (d.embedAsking .standard countingCaller.recording (0, [])).2.1 = (3, ["a", "b", "a"]) := by
  intro d
  have hd : d.Numbered := Document.numbered_load nestedArticles .inline false
  have hids : (d.tree.labels.filterMap fun n => n.2.articleId?) = ["a", "b", "a"] := by
    decide +kernel
  obtain ⟨-, ⟨hstate, hcount, -⟩, hrecorded, -⟩ := articles_embedded .standard d hd countingCaller 0
  rw [hids] at hstate hcount hrecorded
  refine ⟨hd, Prod.ext ?_ ?_, ?_⟩
  · exact hstate.trans (by decide)
  · exact hcount.trans (by decide)
  · exact hrecorded.trans (by decide)

end StaticSite
