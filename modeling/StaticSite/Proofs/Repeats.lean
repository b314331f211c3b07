import StaticSite.Formats
import StaticSite.Proofs.Logged
import StaticSite.Proofs.Numbering
import StaticSite.Proofs.Outcome

/-!
The loop over repeat blocks as a structural recursion.

The loop takes the first repeat block of the whole tree, and puts as many copies of its content in
its place as its list has items. The copies may hold further repeat blocks, so that there may be
more blocks after a round than before. What goes down by one in every round is the number of blocks
that will still come up, in which a block counts once and those in it once for every copy.

* `repeatTree`: the recursion, on the tree as it is;
* `expandRepeat_step`: one round fails as the first block does, or leaves a document for which the
  recursion gives the same but for the name of the list, and for which one block less is to come;
* `expandRepeatsFor_repeated`: so the loop gives what the recursion gives, by induction on the
  rounds, if there are as many as blocks to come;
* `expandRepeats_eq_repeatTree`: the same with the count of the blocks and the cursors of the lists.
-/

namespace StaticSite

open Forest

/-! ## The recursion -/

def Content.isRepeat (c : Content) : Bool := c.directive? == some .repetition

/-- The list that a block repeats its content for, and how many items it has. -/
def Content.repetition (c : Content) (scope : Scope) (origin : Origin) :
    Except SiteError (String × Nat) := do
  let list := trimmed (← c.required origin "input")
  match scope.list list with
  | .ok items => return (list, items.length)
  | .error why => throw (.unresolvedList origin.text c.openTag why)

/-- What becomes of a repeat block: its expanded content, once for every item. -/
def repeatBlock (scope : Scope) (origin : Origin) (c : Content) (inner : Outcome) : Outcome :=
  match c.repetition scope origin with
  | .error e => .error e
  | .ok (list, n) => (inner.times n).named list

def repeatRule (scope : Scope) (origin : Origin) (c : Content) : Option (Outcome → Outcome) :=
  if c.isRepeat then some (repeatBlock scope origin c) else none

/-- A tree with its repeat blocks expanded, and their lists in the order they came up. -/
def repeatTree (scope : Scope) (origin : Origin) (m : Markup) : Outcome :=
  m.expand (fun c => c) (repeatRule scope origin)

theorem respects_repeatRule (scope : Scope) (origin : Origin) :
    Respects (repeatRule scope origin) := by
  refine ⟨fun s => rfl, fun c g hg x y hxy => ?_⟩
  unfold repeatRule at hg
  split at hg
  · cases hg
    unfold repeatBlock
    split
    · exact .refl _
    · exact (hxy.times _).named _
  · cases hg

theorem repeatRule_of_not {scope : Scope} {origin : Origin} (c : Content)
    (h : c.isRepeat = false) : repeatRule scope origin c = none := by
  simp [repeatRule, h]

theorem copies_of_repetition {c : Content} {scope : Scope} {origin : Origin} {list : String}
    {n : Nat} (h : c.repetition scope origin = .ok (list, n)) : c.copies scope = n := by
  unfold Content.repetition Content.required at h
  cases hf : (c.attribute? "input").filter fun v => !(trimmed v).isEmpty with
  | none =>
    rw [hf] at h
    cases h
  | some v =>
    rw [hf] at h
    have hv : c.attribute? "input" = some v := (Option.filter_eq_some_iff.1 hf).1
    replace h : (match scope.list (trimmed v) with
      | .ok items => .ok (trimmed v, items.length)
      | .error why => .error (.unresolvedList origin.text c.openTag why)) =
        (.ok (list, n) : Except SiteError (String × Nat)) := h
    unfold Content.copies
    rw [hv]
    dsimp only
    cases hl : scope.list (trimmed v) with
    | ok items =>
      rw [hl] at h
      cases h
      rfl
    | error why =>
      rw [hl] at h
      cases h

/-! ## How many blocks are to come -/

/-- The number of repeat blocks that come up: each block once, and those in it once for every copy. -/
def repeatsToCome (scope : Scope) : Markup → Nat
  | .nil => 0
  | .node c cs fs =>
    (if c.isRepeat then 1 + c.copies scope * repeatsToCome scope cs else repeatsToCome scope cs) +
      repeatsToCome scope fs

section

variable {scope : Scope} {f g new f' : Markup} {c : Content} {cs : Markup}

theorem repeatCount_eq (scope : Scope) (f : Forest Node) :
    repeatCount scope f = repeatsToCome scope (f.map Prod.snd) := by
  induction f with
  | nil => rfl
  | node n cs fs ihc ihf =>
    simp only [repeatCount, map, repeatsToCome, ihc, ihf]
    rfl

theorem repeatsToCome_append (scope : Scope) (f g : Markup) :
    repeatsToCome scope (f ++ g) = repeatsToCome scope f + repeatsToCome scope g := by
  induction f with
  | nil => simp [repeatsToCome]
  | node c cs fs _ ih => rw [node_append, repeatsToCome, repeatsToCome, ih, Nat.add_assoc]

theorem repeatsToCome_replicate (scope : Scope) (f : Markup) (n : Nat) :
    repeatsToCome scope (f.replicate n) = n * repeatsToCome scope f := by
  induction n with
  | zero => simp [Forest.replicate, repeatsToCome]
  | succ n ih => rw [Forest.replicate, repeatsToCome_append, ih, Nat.succ_mul, Nat.add_comm]

theorem repeatsToCome_congr (scope : Scope) (h : Forest.Same f g) :
    repeatsToCome scope f = repeatsToCome scope g := by
  induction h with
  | refl f => rfl
  | symm _ ih => exact ih.symm
  | trans _ _ ih₁ ih₂ => exact ih₁.trans ih₂
  | join s t rest => simp [repeatsToCome, Content.isRepeat, Content.directive?, Content.name?]
  | node c _ _ ihc ihf => simp only [repeatsToCome, ihc, ihf]

theorem repeatsToCome_eq_zero_iff :
    repeatsToCome scope f = 0 ↔ f.find? Content.isRepeat = none := by
  induction f with
  | nil => simp [repeatsToCome, find?]
  | node c cs fs ihc ihf =>
    unfold repeatsToCome find?
    cases hc : c.isRepeat with
    | true => simp
    | false =>
      simp only [Bool.false_eq_true, if_false, Nat.add_eq_zero_iff, ihc, ihf]
      cases find? Content.isRepeat cs <;> simp

/-- The nodes above the first block are no blocks, so that what is in the block counts once. -/
theorem repeatsToCome_first (scope : Scope) (h : First Content.isRepeat c cs new f f') :
    repeatsToCome scope f' + repeatsToCome scope (tree c cs) =
      repeatsToCome scope f + repeatsToCome scope new := by
  induction h with
  | here fs hc =>
    simp only [repeatsToCome_append, repeatsToCome, tree, hc]
    omega
  | inside b fs hb _ ih =>
    simp only [repeatsToCome, hb, Bool.false_eq_true, if_false]
    omega
  | behind b hb _ _ ih =>
    simp only [repeatsToCome, hb, Bool.false_eq_true, if_false]
    omega

theorem repeatTree_node (scope : Scope) (origin : Origin) (c : Content) (cs fs : Markup) :
    repeatTree scope origin (.node c cs fs) =
      (if c.isRepeat then repeatBlock scope origin c (repeatTree scope origin cs)
        else (repeatTree scope origin cs).wrap c).seq (repeatTree scope origin fs) := by
  unfold repeatTree
  rw [expand, expandNode]
  cases hc : c.isRepeat with
  | true => simp only [repeatRule, hc, if_true]
  | false => simp only [repeatRule_of_not c hc, Bool.false_eq_true, if_false]

/-- The recursion comes to as many blocks as are to come. -/
theorem length_names {origin : Origin} {r : Markup × List String}
    (h : repeatTree scope origin f = .ok r) : r.2.length = repeatsToCome scope f := by
  induction f generalizing r with
  | nil =>
    cases h
    rfl
  | node c cs fs ihc ihf =>
    rw [repeatTree_node] at h
    obtain ⟨p, q, hp, hq, rfl⟩ := Outcome.seq_eq_ok h
    rw [repeatsToCome, List.length_append, ihf hq, Nat.add_right_cancel_iff]
    cases hc : c.isRepeat with
    | false =>
      rw [hc, if_neg Bool.false_ne_true] at hp
      cases hx : repeatTree scope origin cs with
      | error e =>
        rw [hx] at hp
        cases hp
      | ok s =>
        rw [hx] at hp
        cases hp
        exact (ihc hx : s.2.length = repeatsToCome scope cs)
    | true =>
      rw [hc, if_pos rfl] at hp
      unfold repeatBlock at hp
      cases ht : c.repetition scope origin with
      | error e =>
        rw [ht] at hp
        cases hp
      | ok s =>
        obtain ⟨list, n⟩ := s
        rw [ht] at hp
        rw [copies_of_repetition ht]
        cases hx : (repeatTree scope origin cs).times n with
        | error e => simp [hx, Outcome.named] at hp
        | ok s =>
          have hlen := Outcome.length_times (fun _ => ihc) hx
          simp only [hx, Outcome.named, Except.ok.injEq] at hp
          rw [← hp, List.length_cons, hlen, if_pos rfl, Nat.add_comm]

end

/-! ## The loop under way -/

/-- The content of every repeat block, written as often as the list of the block has items, is read
back as that many copies of it. -/
def Formats.ReparsesCopies (formats : Formats) (scope : Scope) (m : Markup) : Prop :=
  m.All fun c cs => c.isRepeat = true →
    (formats.read (copies (formats.serialize cs) (c.copies scope))).merged =
      (cs.replicate (c.copies scope)).merged

theorem Formats.reparsesCopies_congr {formats : Formats} (hs : formats.serialize = Html.serialize)
    (scope : Scope) {f g : Markup} (h : Forest.Same f g) :
    formats.ReparsesCopies scope f ↔ formats.ReparsesCopies scope g := by
  refine h.all_iff (fun s cs ht => ?_) fun c cs cs' hc => ?_
  · cases ht
  · rw [hs, hc.serialize_eq, (hc.replicate _).merged_eq]

section

variable {formats : Formats} {scope : Scope} {d : Document} {n : Nat} {c : Content}
  {cs : Forest Node} {b : Block}

theorem nextRepeat?_eq_some (h : d.nextRepeat? = some b) :
    ∃ n c cs, d.tree.find? (fun n => n.isDirective .repetition) = some ((n, c), cs) ∧
      b = ⟨n, .repetition⟩ := by
  obtain ⟨⟨⟨n, c⟩, cs⟩, hf, rfl⟩ := Option.map_eq_some_iff.1 h
  exact ⟨n, c, cs, hf, rfl⟩

/-- A round puts copies of the content of its block in the place of the block, and starts the cursor
of the list. -/
theorem result_expandRepeat (formats : Formats) (scope : Scope) (t : Cursors)
    (hb : d.node? b = some ((n, c), cs)) :
    (d.expandRepeat formats scope t b).result = (fun r =>
      (d.replace formats b (copies (formats.serialize (cs.map Prod.snd)) r.2), t.start r.1)) <$>
        c.repetition scope d.origin := by
  unfold Document.expandRepeat Content.repetition
  simp only [Logged.result_bind, Document.required_eq hb, Document.describe_eq hb,
    Document.inner_eq hb, Logged.lift, map_bind]
  refine bind_congr fun list => ?_
  cases scope.list (trimmed list) <;> rfl

/-- **One round.** The block that is taken up fails, as the recursion does; or the document that is
left gives what the recursion gives after the name of the list, and one block less is to come. The
copies come back as they were, up to merging. -/
theorem expandRepeat_step (hs : formats.serialize = Html.serialize) (hd : d.Numbered)
    (hread : formats.ReparsesCopies scope (d.tree.map Prod.snd)) (hn : d.nextRepeat? = some b)
    (t : Cursors) :
    (∃ e, (d.expandRepeat formats scope t b).result = .error e ∧
      repeatTree scope d.origin (d.tree.map Prod.snd) = .error e) ∨
    ∃ d' list, (d.expandRepeat formats scope t b).result = .ok (d', t.start list) ∧ d'.Numbered ∧
      formats.ReparsesCopies scope (d'.tree.map Prod.snd) ∧ d'.origin = d.origin ∧
      (repeatTree scope d.origin (d.tree.map Prod.snd)).Same
        ((repeatTree scope d.origin (d'.tree.map Prod.snd)).named list) ∧
      repeatsToCome scope (d'.tree.map Prod.snd) + 1 =
        repeatsToCome scope (d.tree.map Prod.snd) := by
  obtain ⟨n, c, cs, hf, rfl⟩ := nextRepeat?_eq_some hn
  have hview : (d.tree.map Prod.snd).find? Content.isRepeat = some (c, cs.map Prod.snd) := by
    rw [find?_map, show d.tree.find? (fun n => n.2.isRepeat) = _ from hf]
    rfl
  have hrepeat : c.isRepeat = true := (mem_labels_of_find? hview).1
  have hblock : expandNode (fun c => c) (repeatRule scope d.origin) c
      ((cs.map Prod.snd).expand (fun c => c) (repeatRule scope d.origin)) =
        repeatBlock scope d.origin c (repeatTree scope d.origin (cs.map Prod.snd)) := by
    simp only [expandNode, repeatRule, hrepeat, if_true]
    rfl
  have hresult := result_expandRepeat formats scope t (Document.node?_eq hd hf .repetition)
  cases ht : c.repetition scope d.origin with
  | error e =>
    refine .inl ⟨e, by rw [hresult, ht]; rfl, expand_error repeatRule_of_not hview ?_⟩
    rw [hblock, repeatBlock, ht]
  | ok r =>
    obtain ⟨list, k⟩ := r
    obtain ⟨text, htext⟩ : ∃ text, text = copies (formats.serialize (cs.map Prod.snd)) k :=
      ⟨_, rfl⟩
    obtain ⟨htree, horigin⟩ := Document.replace_found hd hf .repetition text
    have hfirst : First Content.isRepeat c (cs.map Prod.snd) (formats.read text)
        (d.tree.map Prod.snd)
        ((d.replace formats ⟨n, .repetition⟩ text).tree.map Prod.snd) := by
      have := First.map (h := Prod.snd) (p := Content.isRepeat) htree
      rwa [map_number] at this
    obtain ⟨hcopies, hrest⟩ := hfirst.all hread
    have hsame : Forest.Same (formats.read text) ((cs.map Prod.snd).replicate k) := by
      have := hcopies hrepeat
      rw [copies_of_repetition ht, ← htext] at this
      exact same_iff.2 this
    refine .inr ⟨d.replace formats ⟨n, .repetition⟩ text, list, by rw [hresult, ht, htext]; rfl,
      hd.replace _ text, ?_, horigin, ?_, ?_⟩
    · refine hfirst.all_right hread (fun a _ ha cs hmark => ?_) ?_
      · rw [ha] at hmark
        cases hmark
      · exact (Formats.reparsesCopies_congr hs scope hsame).2 (all_replicate hrest k)
    · refine expand_step repeatRule_of_not hfirst ?_
      rw [hblock, repeatBlock, ht]
      refine Outcome.Same.named list (.trans (.of_eq ?_)
        (expand_same (respects_repeatRule scope d.origin) hsame.symm))
      exact (expand_replicate _ _ _ k).symm
    · have hcount := repeatsToCome_first scope hfirst
      have hnew := repeatsToCome_congr scope hsame
      rw [repeatsToCome_replicate] at hnew
      simp only [tree, repeatsToCome, hrepeat, if_true, copies_of_repetition ht] at hcount
      omega

end

/-! ## The loop -/

/-- The loop has ended as the recursion does, and no block is left. -/
def Repeated (x : Outcome) (t : Cursors) (done : Nat)
    (r : Document × Cursors × Logged SiteError Nat) : Prop :=
  x.Ended done r.2.2.result r.1.tree fun names =>
    r.1.nextRepeat? = none ∧ r.2.1 = names.foldl Cursors.start t

section

variable {formats : Formats} {scope : Scope} {d d' : Document} {t t' : Cursors} {b : Block}

theorem expandRepeatsFor_none (h : d.nextRepeat? = none) (rounds done : Nat) (t : Cursors) :
    d.expandRepeatsFor formats scope rounds done t = (d, t, .ok done) := by
  cases rounds with
  | zero => rfl
  | succ rounds => simp only [Document.expandRepeatsFor, h]

theorem expandRepeatsFor_error (h : d.nextRepeat? = some b) {e : SiteError}
    (he : (d.expandRepeat formats scope t b).result = .error e) (rounds done : Nat) :
    d.expandRepeatsFor formats scope (rounds + 1) done t =
      (d, t, ⟨(d.expandRepeat formats scope t b).log, .error e⟩) := by
  simp only [Document.expandRepeatsFor, h]
  generalize d.expandRepeat formats scope t b = y at he ⊢
  obtain ⟨log, r⟩ := y
  obtain rfl : r = .error e := he
  rfl

theorem expandRepeatsFor_ok (h : d.nextRepeat? = some b)
    (h' : (d.expandRepeat formats scope t b).result = .ok (d', t')) (rounds done : Nat) :
    d.expandRepeatsFor formats scope (rounds + 1) done t =
      let r := d'.expandRepeatsFor formats scope rounds (done + 1) t'
      (r.1, r.2.1, ⟨(d.expandRepeat formats scope t b).log ++ r.2.2.log, r.2.2.result⟩) := by
  simp only [Document.expandRepeatsFor, h]
  generalize d.expandRepeat formats scope t b = y at h' ⊢
  obtain ⟨log, r⟩ := y
  obtain rfl : r = .ok (d', t') := h'
  rfl

theorem nextRepeat?_eq_none_iff (scope : Scope) :
    d.nextRepeat? = none ↔ repeatsToCome scope (d.tree.map Prod.snd) = 0 := by
  rw [repeatsToCome_eq_zero_iff, find?_map, Option.map_eq_none_iff]
  exact Option.map_eq_none_iff

/-- Where no block is left, the loop ends at once. -/
theorem repeated_of_none (h : d.nextRepeat? = none) (rounds done : Nat) (t : Cursors) :
    Repeated (repeatTree scope d.origin (d.tree.map Prod.snd)) t done
      (d.expandRepeatsFor formats scope rounds done t) := by
  have hnone := repeatsToCome_eq_zero_iff.1 ((nextRepeat?_eq_none_iff scope).1 h)
  have hplain : repeatTree scope d.origin (d.tree.map Prod.snd) = .ok (d.tree.map Prod.snd, []) :=
    (expand_of_find?_none repeatRule_of_not hnone).trans (by rw [Forest.map_id])
  rw [hplain, expandRepeatsFor_none h]
  exact ⟨rfl, .refl _, h, rfl⟩

/-- **The loop.** With a round for each block to come, the loop gives what the recursion gives. -/
theorem expandRepeatsFor_repeated (hs : formats.serialize = Html.serialize) {rounds : Nat}
    (hd : d.Numbered) (hread : formats.ReparsesCopies scope (d.tree.map Prod.snd))
    (hr : repeatsToCome scope (d.tree.map Prod.snd) ≤ rounds) (done : Nat) (t : Cursors) :
    Repeated (repeatTree scope d.origin (d.tree.map Prod.snd)) t done
      (d.expandRepeatsFor formats scope rounds done t) := by
  induction rounds generalizing d done t with
  | zero => exact repeated_of_none ((nextRepeat?_eq_none_iff scope).2 (Nat.le_zero.1 hr)) 0 done t
  | succ rounds ih =>
    cases hn : d.nextRepeat? with
    | none => exact repeated_of_none hn (rounds + 1) done t
    | some b =>
      rcases expandRepeat_step hs hd hread hn t with
        ⟨e, he, herror⟩ | ⟨d', list, h', hd', hread', horigin, hsame, hcount⟩
      · rw [herror, expandRepeatsFor_error hn he]
        exact rfl
      · have hrest := ih hd' hread' (by omega) (done + 1) (t.start list)
        rw [horigin] at hrest
        rw [expandRepeatsFor_ok hn h']
        exact Outcome.Ended.named hsame hrest

/-- A loop that has ended by itself is not changed by further rounds. -/
theorem expandRepeatsFor_add {rounds done : Nat}
    (h : (∃ e, (d.expandRepeatsFor formats scope rounds done t).2.2.result = .error e) ∨
      (d.expandRepeatsFor formats scope rounds done t).1.nextRepeat? = none) (more : Nat) :
    d.expandRepeatsFor formats scope (rounds + more) done t =
      d.expandRepeatsFor formats scope rounds done t := by
  induction rounds generalizing d done t with
  | zero =>
    rcases h with ⟨e, he⟩ | hn
    · cases he
    · exact expandRepeatsFor_none hn _ _ t
  | succ rounds ih =>
    rw [Nat.add_right_comm]
    cases hn : d.nextRepeat? with
    | none => rw [expandRepeatsFor_none hn, expandRepeatsFor_none hn]
    | some b =>
      cases hy : (d.expandRepeat formats scope t b).result with
      | error e => rw [expandRepeatsFor_error hn hy, expandRepeatsFor_error hn hy]
      | ok s =>
        rw [expandRepeatsFor_ok hn hy] at h
        rw [expandRepeatsFor_ok hn hy, expandRepeatsFor_ok hn hy, ih h]

/-- A loop that has ended by itself gives what it has counted. -/
theorem expandRepeats_eq_of_ended
    (h : (∃ e, (d.expandRepeatsFor formats scope (repeatCount scope d.tree + spareRounds) 0
        t).2.2.result = .error e) ∨
      (d.expandRepeatsFor formats scope (repeatCount scope d.tree + spareRounds) 0
        t).1.nextRepeat? = none) :
    d.expandRepeats formats scope t =
      d.expandRepeatsFor formats scope (repeatCount scope d.tree + spareRounds) 0 t := by
  unfold Document.expandRepeats
  generalize d.expandRepeatsFor formats scope (repeatCount scope d.tree + spareRounds) 0 t = r at h ⊢
  obtain ⟨d', t', log, result⟩ := r
  rcases h with ⟨e, rfl⟩ | hnone
  · rfl
  · replace hnone : d'.nextRepeat? = none := hnone
    simp only [hnone, Option.isSome_none, Document.ended_false]

end

/-! ## Cursors -/

namespace Cursors

variable {t : Cursors}

theorem get?_set (t : Cursors) (list k : String) (c : Cursor) :
    (t.set list c).get? k = if k = list then some c else t.get? k := by
  unfold set get?
  by_cases h : k = list
  · subst h
    rw [if_pos rfl, List.lookup_cons_self]
  · rw [if_neg h, List.lookup_cons, beq_false_of_ne h]
    dsimp only
    induction t with
    | nil => rfl
    | cons x t ih =>
      obtain ⟨l, c⟩ := x
      by_cases hl : l = list
      · subst hl
        simp [List.lookup_cons, beq_false_of_ne h, ih]
      · by_cases hk : k = l
        · subst hk
          simp [hl]
        · simp [List.lookup_cons, hl, beq_false_of_ne hk, ih]

/-- Lists that are started stand at their first item. The others stay where they are. -/
theorem get?_foldl_start (names : List String) (t : Cursors) (k : String) :
    (names.foldl start t).get? k = if k ∈ names then some ⟨0, []⟩ else t.get? k := by
  induction names generalizing t with
  | nil => simp
  | cons list names ih =>
    rw [List.foldl_cons, ih, start, get?_set]
    by_cases h : k ∈ names
    · simp [h]
    · simp [h]

end Cursors

/-! ## All documents -/

/-- **Expanding repeats.** Where copies of the content of a repeat block are read back as such, the
loop over a document fails as the recursion does, or leaves the tree that the recursion gives, up to
merging. Then it has taken up each block once for every copy that it is in, the lists that came up
stand at their first item, and the others stand where they stood. It takes no more rounds than
blocks come up. -/
theorem expandRepeats_eq_repeatTree {formats : Formats} (hs : formats.serialize = Html.serialize)
    {d : Document} (hd : d.Made formats) (scope : Scope) (t : Cursors)
    (h : formats.ReparsesCopies scope (d.tree.map Prod.snd)) :
    (∀ rounds ≥ repeatCount scope d.tree,
      d.expandRepeatsFor formats scope rounds 0 t = d.expandRepeats formats scope t) ∧
    match repeatTree scope d.origin (d.tree.map Prod.snd) with
    | .error e => (d.expandRepeats formats scope t).2.2.result = .error e
    | .ok (m, names) =>
      (d.expandRepeats formats scope t).2.2.result = .ok (repeatCount scope d.tree) ∧
        names.length = repeatCount scope d.tree ∧
        ((d.expandRepeats formats scope t).1.tree.map Prod.snd).merged = m.merged ∧
        (d.expandRepeats formats scope t).1.nextRepeat? = none ∧
        ∀ list, (d.expandRepeats formats scope t).2.1.get? list =
          if list ∈ names then some ⟨0, []⟩ else t.get? list := by
  have hcount : repeatsToCome scope (d.tree.map Prod.snd) = repeatCount scope d.tree :=
    (repeatCount_eq scope d.tree).symm
  have hrepeated := expandRepeatsFor_repeated hs hd.numbered h (Nat.le_of_eq hcount) 0 t
  have hall (rounds : Nat) (hr : repeatCount scope d.tree ≤ rounds) :
      d.expandRepeatsFor formats scope rounds 0 t =
        d.expandRepeatsFor formats scope (repeatCount scope d.tree) 0 t := by
    obtain ⟨more, rfl⟩ := Nat.exists_eq_add_of_le hr
    exact expandRepeatsFor_add (hrepeated.cases.imp_right fun ⟨_, hnone, _⟩ => hnone) more
  have hexpand : d.expandRepeats formats scope t =
      d.expandRepeatsFor formats scope (repeatCount scope d.tree) 0 t := by
    rw [← hall _ (Nat.le_add_right _ spareRounds)] at hrepeated ⊢
    exact expandRepeats_eq_of_ended (hrepeated.cases.imp_right fun ⟨_, hnone, _⟩ => hnone)
  rw [hexpand]
  refine ⟨hall, ?_⟩
  cases hx : repeatTree scope d.origin (d.tree.map Prod.snd) with
  | error e =>
    rw [hx] at hrepeated
    exact hrepeated
  | ok r =>
    obtain ⟨m, names⟩ := r
    rw [hx] at hrepeated
    obtain ⟨hresult, hsame, hnone, hcursors⟩ := hrepeated
    have hlen : names.length = repeatCount scope d.tree := (length_names hx).trans hcount
    rw [Nat.zero_add, hlen] at hresult
    refine ⟨hresult, hlen, same_iff.1 hsame, hnone, fun list => ?_⟩
    rw [hcursors, Cursors.get?_foldl_start]

/-- A block in the content of another one. -/
def repeatingText : String :=
  "<section type=\"repeat\" input=\"xs\">x<section type=\"repeat\" input=\"ys\">y</section></section>"

/-- A list of two items, and one of three. -/
def repeatingScope : Scope := ⟨[("xs", .list [.null, .null]), ("ys", .list [.null, .null, .null])]⟩

theorem expandRepeats_nested :
    (Document.load .standard repeatingText .inline false).Made .standard ∧
    Formats.standard.ReparsesCopies repeatingScope
      ((Document.load .standard repeatingText .inline false).tree.map Prod.snd) ∧
    ((Document.load .standard repeatingText .inline false).expandRepeats .standard
      repeatingScope []).2.2.result = .ok 3 := by
  have hmade : (Document.load .standard repeatingText .inline false).Made .standard :=
    .load repeatingText .inline false
  have hread : Formats.standard.ReparsesCopies repeatingScope
      ((Document.load .standard repeatingText .inline false).tree.map Prod.snd) := by
    unfold Formats.ReparsesCopies
    decide +kernel
  have hcount : repeatCount repeatingScope
      (Document.load .standard repeatingText .inline false).tree = 3 := by
    decide +kernel
  have hnames : (repeatTree repeatingScope .inline
      ((Document.load .standard repeatingText .inline false).tree.map Prod.snd)).toOption.map (·.2) =
        some ["xs", "ys", "ys"] := by
    decide +kernel
  obtain ⟨-, h⟩ := expandRepeats_eq_repeatTree rfl hmade repeatingScope [] hread
  refine ⟨hmade, hread, ?_⟩
  obtain ⟨x, hx⟩ : ∃ x, x = repeatTree repeatingScope
      (Document.load .standard repeatingText .inline false).origin
      ((Document.load .standard repeatingText .inline false).tree.map Prod.snd) := ⟨_, rfl⟩
  rw [← hx] at h
  replace hnames : x.toOption.map (·.2) = some ["xs", "ys", "ys"] := hx ▸ hnames
  cases x with
  | error e => cases hnames
  | ok r =>
    rw [← hcount]
    exact h.1

end StaticSite
