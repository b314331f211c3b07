import StaticSite.Formats
import StaticSite.Proofs.Logged
import StaticSite.Proofs.Marks

/-!
The loop over template blocks as a structural recursion.

Between two rounds the tree with its marks says what is still to come. A round takes the first mark
away, and gives marks to the blocks in the content that it reads again.

* `Document.Underway`: what holds of a document between two rounds;
* `expandTemplate_step`: one round fails as the first marked block does, or leaves a tree for which
  the recursion gives the same but for the name of that block, and which has fewer marks;
* `expandTemplatesFor_reaches`: so the loop gives what the recursion gives, by induction on the
  rounds, if there are as many as marks;
* `expandTemplates_eq_templateTree`: the same for every document that has been loaded.
-/

namespace StaticSite

open Forest

/-! ## The loop under way -/

/-- Markup that is read back as it was written, up to merging. -/
def Formats.Reparses (formats : Formats) (m : Markup) : Prop :=
  (formats.read (formats.serialize m)).merged = m.merged

theorem Formats.reparses_congr {formats : Formats} (hs : formats.serialize = Html.serialize)
    {f g : Markup} (h : Forest.Same f g) : formats.Reparses f ↔ formats.Reparses g := by
  unfold Formats.Reparses
  rw [hs, h.serialize_eq, h.merged_eq]

/-- The content of every template block is read back as it was written. -/
def Formats.ReparsesBlocks (formats : Formats) (m : Markup) : Prop :=
  m.All fun c cs => c.isTemplate = true → formats.Reparses cs

theorem Formats.reparsesBlocks_congr {formats : Formats} (hs : formats.serialize = Html.serialize)
    {f g : Markup} (h : Forest.Same f g) : formats.ReparsesBlocks f ↔ formats.ReparsesBlocks g := by
  refine h.all_iff (fun s cs ht => ?_) fun c cs cs' hc => ?_
  · cases ht
  · rw [Formats.reparses_congr hs hc]

/-- The content of every marked block is read back as it was written. -/
def Formats.ReparsesMarked (formats : Formats) (v : Forest (Content × Bool)) : Prop :=
  v.All fun a cs => a.2 = true → formats.Reparses (cs.map Prod.fst)

theorem Formats.reparsesMarked_allMarked {formats : Formats} {m : Markup} :
    formats.ReparsesMarked (allMarked m) ↔ formats.ReparsesBlocks m := by
  unfold Formats.ReparsesMarked Formats.ReparsesBlocks
  rw [allMarked, all_map]
  simp only [Forest.map_map, Forest.map_id]

/-- What holds of a document between two rounds. -/
structure Document.Underway (formats : Formats) (d : Document) : Prop where
  numbered : d.Numbered
  handled : ∀ i ∈ d.handled, i < d.fresh
  reparses : formats.ReparsesMarked (marks d.handled d.tree)

theorem pending_append (h k : List Nat) (n : Node) :
    pending (h ++ k) n = (pending h n && !k.contains n.1) := by
  simp only [pending, List.contains_eq_mem, List.mem_append, Bool.decide_or, Bool.not_or,
    Bool.and_assoc]

section

variable {formats : Formats} (d : Document) (markup : String)

theorem bounds_of_mem_brought {i : Nat} (h : i ∈ d.brought formats markup) :
    d.fresh ≤ i ∧ i < ((formats.read markup).number d.fresh).2 := by
  obtain ⟨m, hm, rfl⟩ := List.mem_map.1 h
  exact bounds_of_mem_number (List.mem_filter.1 hm).1

/-- Blocks that a template has brought along are not to come. -/
theorem pending_of_brought (handled : List Nat) {m : Node}
    (hm : m ∈ ((formats.read markup).number d.fresh).1.labels) :
    pending (handled ++ d.brought formats markup) m = false := by
  rw [pending_append]
  cases ht : m.isDirective .template with
  | false => simp [pending, ht]
  | true =>
    have hmem : m.1 ∈ d.brought formats markup :=
      List.mem_map_of_mem (List.mem_filter.2 ⟨hm, ht⟩)
    simp [hmem]

/-- Blocks that come with content are to come. -/
theorem pending_of_content {handled : List Nat} (hh : ∀ i ∈ handled, i < d.fresh) {inner : Markup}
    {m : Node} (hm : m ∈ (inner.number ((formats.read markup).number d.fresh).2).1.labels) :
    pending (handled ++ d.brought formats markup) m = m.2.isTemplate := by
  have hlow := (bounds_of_mem_number hm).1
  have hle := le_number (formats.read markup) d.fresh
  have hnot : (handled ++ d.brought formats markup).contains m.1 = false := by
    rw [List.contains_eq_mem, decide_eq_false_iff_not, List.mem_append]
    rintro (hmem | hmem)
    · have := hh _ hmem
      omega
    · have := (bounds_of_mem_brought d markup hmem).2
      omega
  rw [pending, hnot, Bool.not_false, Bool.and_true]
  rfl

/-- Nothing changes for the nodes that were there before. -/
theorem pending_of_old {handled : List Nat} {m : Node} (hm : m.1 < d.fresh) :
    pending (handled ++ d.brought formats markup) m = pending handled m := by
  have hnot : (d.brought formats markup).contains m.1 = false := by
    rw [List.contains_eq_mem, decide_eq_false_iff_not]
    intro hmem
    have := (bounds_of_mem_brought d markup hmem).1
    omega
  rw [pending_append, hnot, Bool.not_false, Bool.and_true]

end

theorem marks_filling {formats : Formats} (handled : List Nat) (d : Document)
    (markup inner : String)
    (hm : ∀ n ∈ ((formats.read markup).number d.fresh).1.labels, pending handled n = false)
    (hc : ∀ n ∈ ((formats.read inner).number ((formats.read markup).number d.fresh).2).1.labels,
      pending handled n = n.2.isTemplate) :
    marks handled (d.filling formats markup inner).1 =
      filledMarks (formats.read markup) (formats.read inner) := by
  have hfilled := marks_replaceFirst?
    ((formats.read inner).number ((formats.read markup).number d.fresh).2).1 hm
  rw [map_number, marks_of_all hc, map_number] at hfilled
  unfold Document.filling filledMarks
  rw [← hfilled]
  dsimp only
  cases ((formats.read markup).number d.fresh).1.replaceFirst? (fun n : Node => n.isDirective .marker)
      (((formats.read inner).number ((formats.read markup).number d.fresh).2).1 ++ ·) with
  | some filled => rfl
  | none =>
    have := marks_of_none hm
    rw [← Forest.map_map (h := Prod.snd) (k := fun c => (c, false)), map_number] at this
    exact this

/-- How many blocks are still to come. -/
def markCount (v : Forest (Content × Bool)) : Nat := v.labels.countP Prod.snd

theorem markCount_allMarked (m : Markup) :
    markCount (allMarked m) = m.labels.countP Content.isTemplate := by
  unfold markCount allMarked
  rw [labels_map, List.countP_map]
  rfl

theorem markCount_congr {f g : Markup} (h : Forest.Same f g) :
    markCount (allMarked f) = markCount (allMarked g) := by
  rw [markCount_allMarked, markCount_allMarked, List.countP_eq_length_filter,
    List.countP_eq_length_filter, h.filter_labels fun _ => rfl]

theorem markCount_plain (m : Markup) : markCount (m.map fun c => (c, false)) = 0 := by
  unfold markCount
  rw [labels_map, List.countP_map]
  exact List.countP_eq_zero.2 fun _ _ h => Bool.false_ne_true h

/-- A filled template has no marks but those of the content. -/
theorem markCount_filledMarks_le (m inner : Markup) :
    markCount (filledMarks m inner) ≤ markCount (allMarked inner) := by
  unfold filledMarks
  cases hr : filled? m (allMarked inner) with
  | none =>
    rw [Option.getD_none, markCount_plain]
    exact Nat.zero_le _
  | some r =>
    obtain ⟨a, cs, hfirst⟩ := first_of_replaceFirst? hr
    have hcount := hfirst.countP Prod.snd
    have hplain := markCount_plain m
    unfold markCount at hplain ⊢
    rw [hplain, labels_append, List.countP_append] at hcount
    simp only [tree, labels, List.countP_cons, List.countP_append, List.countP_nil] at hcount
    rw [Option.getD_some]
    omega

theorem reparsesMarked_filledMarks {formats : Formats} (m : Markup) {inner : Markup}
    (h : formats.ReparsesBlocks inner) : formats.ReparsesMarked (filledMarks m inner) := by
  have hplain : formats.ReparsesMarked (m.map fun c => (c, false)) := by
    refine All.of_labels fun a ha cs hmark => ?_
    rw [labels_map] at ha
    obtain ⟨c, -, rfl⟩ := List.mem_map.1 ha
    cases hmark
  unfold filledMarks
  cases hr : filled? m (allMarked inner) with
  | none => exact hplain
  | some r =>
    obtain ⟨a, cs, hfirst⟩ := first_of_replaceFirst? hr
    refine hfirst.all_right hplain (fun a ha _ cs hmark => ?_)
      (all_append.2 ⟨Formats.reparsesMarked_allMarked.2 h, (hfirst.all hplain).2⟩)
    rw [labels_map] at ha
    obtain ⟨c, -, rfl⟩ := List.mem_map.1 ha
    cases hmark

section

variable {formats : Formats} {source : TemplateSource} {d : Document} {n : Nat} {c : Content}
  {cs : Forest Node} {b : Block}

/-- A round reads the template of its block, and fills the block with it. -/
theorem result_expandTemplate (formats : Formats) (source : TemplateSource)
    (hb : d.node? b = some ((n, c), cs)) :
    (d.expandTemplate formats source b).result = (fun r =>
      (d.fill formats b r.2 (formats.serialize (cs.map Prod.snd))).2) <$>
        c.template source d.origin := by
  unfold Document.expandTemplate Content.template Content.inputScope
  simp only [Logged.result_bind, Document.required_eq hb, Document.attribute?_eq hb,
    Document.inner_eq hb, Logged.lift, map_bind, map_pure]
  refine bind_congr fun template => bind_congr fun scope => bind_congr fun markup => ?_
  split <;> rfl

/-- A filled block has lost its mark; its content is the template, with marks on the blocks that were
in the content. -/
theorem marks_fill (hd : d.Underway formats)
    (hf : d.tree.find? (pending d.handled) = some ((n, c), cs)) {d₁ d₂ : Document}
    (h₁ : d₁ = { d with handled := d.handled ++ [n] }) (markup inner : String)
    (h₂ : d₂ = (d₁.fill formats ⟨n, .template⟩ markup inner).2) :
    d₂.origin = d.origin ∧ d₂.Numbered ∧ (∀ i ∈ d₂.handled, i < d₂.fresh) ∧
      First Prod.snd (c, true) (allMarked (cs.map Prod.snd))
        (tree (c, false) (filledMarks (formats.read markup) (formats.read inner)))
        (marks d.handled d.tree) (marks d₂.handled d₂.tree) := by
  have htree₁ : d₁.tree = d.tree := by rw [h₁]
  have hfresh₁ : d₁.fresh = d.fresh := by rw [h₁]
  have hhandled₁ : d₁.handled = d.handled ++ [n] := by rw [h₁]
  have hnumbered : d₁.Numbered := by
    rw [h₁]
    exact hd.numbered
  have hold (m : Node) (hm : m ∈ d.tree.labels) : m.1 < d₁.fresh := by
    rw [hfresh₁]
    exact (hd.numbered.bounds m.1 (List.mem_map_of_mem hm)).2
  have hn : n < d₁.fresh := hold (n, c) (mem_labels_of_find? hf).2
  have htaken : ∀ i ∈ d₁.handled, i < d₁.fresh := by
    intro i hi
    rw [hhandled₁] at hi
    rcases List.mem_append.1 hi with hi | hi
    · rw [hfresh₁]
      exact hd.handled i hi
    · rwa [List.mem_singleton.1 hi]
  obtain ⟨htree, hfresh, horigin, hhandled⟩ :=
    Document.fill_found hnumbered (htree₁ ▸ hf) .template markup inner
  rw [← h₂, htree₁] at htree
  rw [← h₂] at hfresh horigin hhandled
  refine ⟨by rw [horigin, h₁], h₂ ▸ hnumbered.fill _ markup inner, fun i hi => ?_, ?_⟩
  · have hle := Document.nodes_le_filling formats d₁ markup inner
    have hle' := le_number (formats.read markup) d₁.fresh
    rw [hhandled] at hi
    rw [hfresh]
    rcases List.mem_append.1 hi with hi | hi
    · have := htaken i hi
      omega
    · have := (bounds_of_mem_brought d₁ markup hi).2
      omega
  · rw [← marks_filling d₂.handled d₁ markup inner]
    · refine first_marks hd.numbered.once htree ?_ fun m hm hne => ?_
      · rw [hhandled, pending_of_old _ _ hn, hhandled₁, pending_append]
        simp
      · rw [hhandled, pending_of_old _ _ (hold m hm), hhandled₁, pending_append]
        simp [hne]
    · intro m hm
      rw [hhandled]
      exact pending_of_brought _ _ _ hm
    · intro m hm
      rw [hhandled]
      exact pending_of_content _ _ htaken hm

/-- **One round.** The block that is taken up fails, as the recursion does; or the document that is
left is under way, has fewer marks, and gives what the recursion gives after the name of the block.
The content comes back as it was, up to merging. -/
theorem expandTemplate_step (source : TemplateSource) (hs : formats.serialize = Html.serialize)
    (hd : d.Underway formats) {d₁ : Document} (hn : d.nextTemplate? = some (b, d₁)) :
    (∃ e, (d₁.expandTemplate formats source b).result = .error e ∧
      markedTree formats source d.origin (marks d.handled d.tree) = .error e) ∨
    ∃ d₂ name, (d₁.expandTemplate formats source b).result = .ok d₂ ∧ d₂.Underway formats ∧
      d₂.origin = d.origin ∧
      (markedTree formats source d.origin (marks d.handled d.tree)).Same
        ((markedTree formats source d.origin (marks d₂.handled d₂.tree)).named name) ∧
      markCount (marks d₂.handled d₂.tree) < markCount (marks d.handled d.tree) := by
  obtain ⟨n, c, cs, hf, hr⟩ := Document.nextTemplate?_eq_some hn
  obtain ⟨rfl, h₁⟩ := Prod.mk.inj hr
  replace hf : d.tree.find? (pending d.handled) = some ((n, c), cs) := hf
  have hnode : d₁.node? ⟨n, .template⟩ = some ((n, c), cs) := by
    rw [h₁]
    exact Document.node?_eq (d := { d with handled := d.handled ++ [n] }) hd.numbered hf .template
  have horigin₁ : d₁.origin = d.origin := by rw [h₁]
  have hview : (marks d.handled d.tree).find? Prod.snd =
      some ((c, true), allMarked (cs.map Prod.snd)) := by
    rw [find?_marks, hf]
    rfl
  have hrule (a : Content × Bool) (ha : a.2 = false) :
      markRule formats source d.origin a = none := by
    simp [markRule, ha]
  have hblock : expandNode Prod.fst (markRule formats source d.origin) (c, true)
      ((allMarked (cs.map Prod.snd)).expand Prod.fst (markRule formats source d.origin)) =
        fillBlock formats source d.origin c
          (templateTree formats source d.origin (cs.map Prod.snd)) := by
    rw [← markedTree_allMarked]
    rfl
  have hresult := result_expandTemplate formats source hnode
  rw [horigin₁] at hresult
  cases ht : c.template source d.origin with
  | error e =>
    refine .inl ⟨e, by rw [hresult, ht]; rfl, expand_error hrule hview ?_⟩
    rw [hblock, fillBlock, ht]
  | ok r =>
    obtain ⟨name, markup⟩ := r
    obtain ⟨d₂, h₂⟩ : ∃ d₂, d₂ = (d₁.fill formats ⟨n, .template⟩ markup
      (formats.serialize (cs.map Prod.snd))).2 := ⟨_, rfl⟩
    obtain ⟨horigin, hnumbered, hhandled, hmarks⟩ := marks_fill hd hf h₁ markup _ h₂
    obtain ⟨hread, hrest⟩ := hmarks.all hd.reparses
    have hsame : Forest.Same (formats.read (formats.serialize (cs.map Prod.snd)))
        (cs.map Prod.snd) := by
      have := hread rfl
      rw [map_fst_allMarked] at this
      exact same_iff.2 this
    have hinner : formats.ReparsesBlocks (formats.read (formats.serialize (cs.map Prod.snd))) :=
      (Formats.reparsesBlocks_congr hs hsame).2 (Formats.reparsesMarked_allMarked.1 hrest)
    refine .inr ⟨d₂, name, by rw [hresult, ht, h₂]; rfl, ⟨hnumbered, hhandled, ?_⟩, horigin, ?_, ?_⟩
    · refine hmarks.all_right hd.reparses (fun a _ ha cs hmark => ?_) ?_
      · rw [ha] at hmark
        cases hmark
      · exact ⟨fun hmark => absurd hmark Bool.false_ne_true,
          reparsesMarked_filledMarks _ hinner, trivial⟩
    · refine expand_step hrule hmarks ?_
      rw [hblock, fillBlock, ht]
      have hexpanded : (templateTree formats source d.origin (cs.map Prod.snd)).Same
          (templateTree formats source d.origin
            (formats.read (formats.serialize (cs.map Prod.snd)))) :=
        expand_same (respects_templateRule formats source d.origin) hsame.symm
      refine (((hexpanded.into _).wrap c).named name).trans (.of_eq ?_)
      rw [← markedTree_filledMarks]
      exact congrArg (Outcome.named name) (Outcome.seq_empty _).symm
    · have hcount := hmarks.countP Prod.snd
      have hle := markCount_filledMarks_le (formats.read markup)
        (formats.read (formats.serialize (cs.map Prod.snd)))
      rw [markCount_congr hsame] at hle
      simp only [tree, labels, List.append_nil, List.countP_cons, Bool.false_eq_true, if_true,
        if_false] at hcount
      unfold markCount at hle ⊢
      omega

end

/-! ## The loop -/

/-- The loop has ended as the recursion does, and nothing is left to come. -/
def Reaches (x : Outcome) (done : Nat) (r : Document × Logged SiteError Nat) : Prop :=
  x.Ended done r.2.result r.1.tree fun _ => r.1.nextTemplate? = none

section

variable {formats : Formats} {source : TemplateSource} {d d₁ : Document} {b : Block}

theorem expandTemplatesFor_none (h : d.nextTemplate? = none) (rounds done : Nat) :
    d.expandTemplatesFor formats source rounds done = (d, .ok done) := by
  cases rounds with
  | zero => rfl
  | succ rounds => simp only [Document.expandTemplatesFor, Document.nextTemplate, h, Logged.ok]

theorem expandTemplatesFor_error (h : d.nextTemplate? = some (b, d₁)) {e : SiteError}
    (he : (d₁.expandTemplate formats source b).result = .error e) (rounds done : Nat) :
    d.expandTemplatesFor formats source (rounds + 1) done =
      (d₁, ⟨d.nextTemplate.log ++ (d₁.expandTemplate formats source b).log, .error e⟩) := by
  simp only [Document.expandTemplatesFor, Document.nextTemplate, h]
  generalize d₁.expandTemplate formats source b = y at he ⊢
  obtain ⟨log, r⟩ := y
  obtain rfl : r = .error e := he
  rfl

theorem expandTemplatesFor_ok (h : d.nextTemplate? = some (b, d₁)) {d₂ : Document}
    (h₂ : (d₁.expandTemplate formats source b).result = .ok d₂) (rounds done : Nat) :
    d.expandTemplatesFor formats source (rounds + 1) done =
      let r := d₂.expandTemplatesFor formats source rounds (done + 1)
      (r.1, ⟨d.nextTemplate.log ++ (d₁.expandTemplate formats source b).log ++ r.2.log,
        r.2.result⟩) := by
  simp only [Document.expandTemplatesFor, Document.nextTemplate, h]
  generalize d₁.expandTemplate formats source b = y at h₂ ⊢
  obtain ⟨log, r⟩ := y
  obtain rfl : r = .ok d₂ := h₂
  rfl

theorem map_fst_marks (handled : List Nat) (f : Forest Node) :
    (marks handled f).map Prod.fst = f.map Prod.snd := by
  induction f with
  | nil => rfl
  | node n cs fs ihc ihf =>
    unfold marks
    split
    · simp only [map, ihf, map_fst_allMarked]
    · simp only [map, ihc, ihf]

theorem markCount_eq_zero_iff {v : Forest (Content × Bool)} :
    markCount v = 0 ↔ v.find? Prod.snd = none := by
  rw [markCount, List.countP_eq_zero, find?_eq_none_iff]
  simp

theorem nextTemplate?_eq_none_iff :
    d.nextTemplate? = none ↔ markCount (marks d.handled d.tree) = 0 := by
  rw [markCount_eq_zero_iff, find?_marks, Option.map_eq_none_iff]
  exact Option.map_eq_none_iff.trans Option.map_eq_none_iff

/-- Where nothing is left to come, the loop ends at once. -/
theorem reaches_of_none (h : d.nextTemplate? = none) (rounds done : Nat) :
    Reaches (markedTree formats source d.origin (marks d.handled d.tree)) done
      (d.expandTemplatesFor formats source rounds done) := by
  have hmarks := markCount_eq_zero_iff.1 (nextTemplate?_eq_none_iff.1 h)
  have hrule (a : Content × Bool) (ha : a.2 = false) :
      markRule formats source d.origin a = none := by
    simp [markRule, ha]
  have hplain : markedTree formats source d.origin (marks d.handled d.tree) =
      .ok (d.tree.map Prod.snd, []) := by
    rw [← map_fst_marks d.handled]
    exact expand_of_find?_none hrule hmarks
  rw [hplain, expandTemplatesFor_none h]
  exact ⟨rfl, .refl _, h⟩

/-- **The loop.** With a round for each mark, the loop gives what the recursion gives. -/
theorem expandTemplatesFor_reaches (source : TemplateSource)
    (hs : formats.serialize = Html.serialize) {rounds : Nat} (hd : d.Underway formats)
    (hr : markCount (marks d.handled d.tree) ≤ rounds) (done : Nat) :
    Reaches (markedTree formats source d.origin (marks d.handled d.tree)) done
      (d.expandTemplatesFor formats source rounds done) := by
  induction rounds generalizing d done with
  | zero => exact reaches_of_none (nextTemplate?_eq_none_iff.2 (Nat.le_zero.1 hr)) 0 done
  | succ rounds ih =>
    cases hn : d.nextTemplate? with
    | none => exact reaches_of_none hn (rounds + 1) done
    | some r =>
      obtain ⟨b, d₁⟩ := r
      rcases expandTemplate_step source hs hd hn with
        ⟨e, he, herror⟩ | ⟨d₂, name, h₂, hd₂, horigin, hsame, hcount⟩
      · rw [herror, expandTemplatesFor_error hn he]
        exact rfl
      · have hrest := ih hd₂ (by omega) (done + 1)
        rw [horigin] at hrest
        rw [expandTemplatesFor_ok hn h₂]
        exact Outcome.Ended.named hsame hrest

/-- A loop that has ended by itself is not changed by further rounds. -/
theorem expandTemplatesFor_add {rounds done : Nat}
    (h : (∃ e, (d.expandTemplatesFor formats source rounds done).2.result = .error e) ∨
      (d.expandTemplatesFor formats source rounds done).1.nextTemplate? = none) (more : Nat) :
    d.expandTemplatesFor formats source (rounds + more) done =
      d.expandTemplatesFor formats source rounds done := by
  induction rounds generalizing d done with
  | zero =>
    rcases h with ⟨e, he⟩ | hn
    · cases he
    · exact expandTemplatesFor_none hn _ _
  | succ rounds ih =>
    rw [Nat.add_right_comm]
    cases hn : d.nextTemplate? with
    | none => rw [expandTemplatesFor_none hn, expandTemplatesFor_none hn]
    | some r =>
      obtain ⟨b, d₁⟩ := r
      cases hy : (d₁.expandTemplate formats source b).result with
      | error e => rw [expandTemplatesFor_error hn hy, expandTemplatesFor_error hn hy]
      | ok d₂ =>
        rw [expandTemplatesFor_ok hn hy] at h
        rw [expandTemplatesFor_ok hn hy, expandTemplatesFor_ok hn hy, ih h]

/-- A loop takes up no more blocks than it has rounds. -/
theorem expandTemplatesFor_le {rounds done n : Nat}
    (h : (d.expandTemplatesFor formats source rounds done).2.result = .ok n) : n ≤ done + rounds := by
  induction rounds generalizing d done with
  | zero =>
    cases h
    exact Nat.le_refl _
  | succ rounds ih =>
    cases hn : d.nextTemplate? with
    | none =>
      rw [expandTemplatesFor_none hn] at h
      cases h
      exact Nat.le_add_right _ _
    | some r =>
      obtain ⟨b, d₁⟩ := r
      cases hy : (d₁.expandTemplate formats source b).result with
      | error e =>
        rw [expandTemplatesFor_error hn hy] at h
        cases h
      | ok d₂ =>
        rw [expandTemplatesFor_ok hn hy] at h
        have := ih h
        omega

/-- A loop that has ended by itself gives what it has counted. -/
theorem expandTemplates_eq_of_ended
    (h : (∃ e, (d.expandTemplatesFor formats source (templateCount d.tree + spareRounds) 0).2.result =
        .error e) ∨
      (d.expandTemplatesFor formats source (templateCount d.tree + spareRounds) 0).1.nextTemplate? =
        none) :
    d.expandTemplates formats source =
      d.expandTemplatesFor formats source (templateCount d.tree + spareRounds) 0 := by
  unfold Document.expandTemplates
  generalize d.expandTemplatesFor formats source (templateCount d.tree + spareRounds) 0 = r at h ⊢
  obtain ⟨d', log, result⟩ := r
  rcases h with ⟨e, rfl⟩ | hnone
  · rfl
  · replace hnone : d'.nextTemplate? = none := hnone
    simp only [hnone, Option.isSome_none, Document.ended_false]

/-- **Termination.** A round for each mark is enough: with more rounds the loop does the same. -/
theorem expandTemplatesFor_eq (source : TemplateSource) (hs : formats.serialize = Html.serialize)
    (hd : d.Underway formats) {rounds : Nat}
    (hr : markCount (marks d.handled d.tree) ≤ rounds) (done : Nat) :
    d.expandTemplatesFor formats source rounds done =
      d.expandTemplatesFor formats source (markCount (marks d.handled d.tree)) done := by
  obtain ⟨more, rfl⟩ := Nat.exists_eq_add_of_le hr
  have hreaches := expandTemplatesFor_reaches source hs hd (Nat.le_refl _) done
  exact expandTemplatesFor_add (hreaches.cases.imp_right fun ⟨_, hnone⟩ => hnone) more

end

/-! ## Documents that have been loaded -/

/-- In a document that has been loaded every template block is to come. -/
theorem marks_load (formats : Formats) (markup : String) (origin : Origin) (isRoot : Bool) :
    marks (Document.load formats markup origin isRoot).handled
        (Document.load formats markup origin isRoot).tree =
      allMarked ((Document.load formats markup origin isRoot).tree.map Prod.snd) :=
  marks_of_all fun _ _ => Bool.and_true _

theorem underway_load {formats : Formats} {markup : String} {origin : Origin} {isRoot : Bool}
    (h : formats.ReparsesBlocks
      ((Document.load formats markup origin isRoot).tree.map Prod.snd)) :
    (Document.load formats markup origin isRoot).Underway formats := by
  refine ⟨Document.numbered_load markup origin isRoot, fun i hi => ?_, ?_⟩
  · exact absurd hi List.not_mem_nil
  · rw [marks_load]
    exact Formats.reparsesMarked_allMarked.2 h

theorem markCount_load (formats : Formats) (markup : String) (origin : Origin) (isRoot : Bool) :
    markCount (marks (Document.load formats markup origin isRoot).handled
        (Document.load formats markup origin isRoot).tree) =
      templateCount (Document.load formats markup origin isRoot).tree := by
  rw [marks_load, markCount_allMarked, labels_map, List.countP_map, List.countP_eq_length_filter]
  rfl

/-- **Expanding templates.** Where the content of every template block is read back as it was
written, the loop over a document that has been loaded fails as the recursion does, or leaves the
tree that the recursion gives, up to merging, and has taken up as many blocks as there are names.
It takes no more rounds than the document has template blocks. -/
theorem expandTemplates_eq_templateTree {formats : Formats}
    (hs : formats.serialize = Html.serialize) (source : TemplateSource) (markup : String)
    (origin : Origin) (isRoot : Bool) {d : Document}
    (hd : d = Document.load formats markup origin isRoot)
    (h : formats.ReparsesBlocks (d.tree.map Prod.snd)) :
    (∀ rounds ≥ templateCount d.tree,
      d.expandTemplatesFor formats source rounds 0 = d.expandTemplates formats source) ∧
    match templateTree formats source origin (d.tree.map Prod.snd) with
    | .error e => (d.expandTemplates formats source).2.result = .error e
    | .ok (m, names) =>
      (d.expandTemplates formats source).2.result = .ok names.length ∧
        names.length ≤ templateCount d.tree ∧
        ((d.expandTemplates formats source).1.tree.map Prod.snd).merged = m.merged ∧
        (d.expandTemplates formats source).1.nextTemplate? = none := by
  have hunder : d.Underway formats := by
    rw [hd] at h ⊢
    exact underway_load h
  have hcount : markCount (marks d.handled d.tree) = templateCount d.tree := by
    rw [hd]
    exact markCount_load formats markup origin isRoot
  have horigin : d.origin = origin := by
    rw [hd]
    rfl
  have hmarked : markedTree formats source d.origin (marks d.handled d.tree) =
      templateTree formats source origin (d.tree.map Prod.snd) := by
    rw [← markedTree_allMarked, horigin, hd, marks_load]
  have hall (rounds : Nat) (hr : templateCount d.tree ≤ rounds) :
      d.expandTemplatesFor formats source rounds 0 =
        d.expandTemplatesFor formats source (templateCount d.tree) 0 := by
    rw [← hcount] at hr ⊢
    exact expandTemplatesFor_eq source hs hunder hr 0
  have hreaches := expandTemplatesFor_reaches source hs hunder (Nat.le_of_eq hcount) 0
  have hexpand : d.expandTemplates formats source =
      d.expandTemplatesFor formats source (templateCount d.tree) 0 := by
    rw [← hall _ (Nat.le_add_right _ spareRounds)] at hreaches ⊢
    exact expandTemplates_eq_of_ended (hreaches.cases.imp_right fun ⟨_, hnone⟩ => hnone)
  rw [hmarked] at hreaches
  rw [hexpand]
  refine ⟨hall, ?_⟩
  cases hx : templateTree formats source origin (d.tree.map Prod.snd) with
  | error e =>
    rw [hx] at hreaches
    exact hreaches
  | ok r =>
    obtain ⟨m, names⟩ := r
    rw [hx] at hreaches
    obtain ⟨hresult, hsame, hnone⟩ := hreaches
    rw [Nat.zero_add] at hresult
    have hle := expandTemplatesFor_le hresult
    rw [Nat.zero_add] at hle
    exact ⟨hresult, hle, same_iff.1 hsame, hnone⟩

/-- A block in the content of another one. -/
def nestedText : String :=
  "<section type=\"template\" template=\"a\">x<section type=\"template\" template=\"b\">y</section></section>"

/-- Every template shows its name, and then what is in the block. -/
def namingSource : TemplateSource where
  scope _ _ := .ok Scope.empty
  markup template _ _ := .ok ("<i>" ++ template ++ "</i><section type=\"innermarker\"></section>")

theorem expandTemplates_nested :
    Formats.standard.ReparsesBlocks
      ((Document.load .standard nestedText .inline false).tree.map Prod.snd) ∧
    ((Document.load .standard nestedText .inline false).expandTemplates .standard
      namingSource).2.result = .ok 2 := by
  have hread : Formats.standard.ReparsesBlocks
      ((Document.load .standard nestedText .inline false).tree.map Prod.snd) := by
    unfold Formats.ReparsesBlocks Formats.Reparses
    decide +kernel
  have hnames : (templateTree .standard namingSource .inline
      ((Document.load .standard nestedText .inline false).tree.map Prod.snd)).toOption.map (·.2) =
        some ["a", "b"] := by
    decide +kernel
  obtain ⟨-, h⟩ := expandTemplates_eq_templateTree rfl namingSource nestedText .inline false rfl hread
  refine ⟨hread, ?_⟩
  obtain ⟨x, hx⟩ : ∃ x, x = templateTree .standard namingSource .inline
      ((Document.load .standard nestedText .inline false).tree.map Prod.snd) := ⟨_, rfl⟩
  rw [← hx] at h hnames
  cases x with
  | error e => cases hnames
  | ok r =>
    obtain ⟨m, names⟩ := r
    obtain rfl : names = ["a", "b"] := Option.some.inj hnames
    exact h.1

end StaticSite
