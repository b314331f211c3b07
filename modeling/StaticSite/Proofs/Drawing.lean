import Mathlib.Data.List.Nodup
import Mathlib.Data.List.Perm.Subperm
import StaticSite.Proofs.Memory

/-!
Forests in memory.

A forest is read out of memory by following lists. Changes of lists are changes of the forest, and
what cannot be reached from the nodes that change stays as it is.

* `Memory.Draws`: what lies below an owner is a forest; `Draws.below_eq`: which is what is read out;
* `Draws.first`: nodes in the place of another, in memory as in the forest;
* `Sound.enter`: new nodes, that nothing lists so far;
* `Memory.InTree`, `Sound.wellLinked`: each node of the tree is listed once, by its parent;
* `Memory.Apart`: nodes that a change of another node does not reach;
* `Memory.Replaced`, `Replaced.draws_first`, `Replaced.draws_congr`: nodes in the place of another,
  in the tree and out of it; `Entered.exchanged`, `Entered.assigned`, `Entered.appended` and
  `Replaced.marked` are the changes that come to that.
-/

namespace StaticSite

open Forest

namespace Memory

/-! ## Forests in memory -/

/-- The nodes of a forest have their contents, and list what is below them. -/
def Shows (m : Memory) (f : Forest Node) : Prop :=
  f.All fun a cs => m.content a.1 = a.2 ∧ m.children (some a.1) = cs.roots

/-- What lies below an owner is a forest. -/
structure Draws (m : Memory) (o : Owner) (f : Forest Node) : Prop where
  roots : m.children o = f.roots
  shows : m.Shows f

section

variable {m m' : Memory} {o q : Owner} {i j n : Nat} {ids : List Nat} {f f' cs new : Forest Node}
  {a : Node}

/-- Nodes are shown as long as their contents and lists stay. -/
theorem Shows.congr (h : m.Shows f) (hc : ∀ j ∈ f.numbers,
    m'.content j = m.content j ∧ m'.children (some j) = m.children (some j)) : m'.Shows f := by
  refine h.imp fun b hb bs _ ⟨hcontent, hlist⟩ => ?_
  obtain ⟨hcontent', hlist'⟩ := hc b.1 (List.mem_map_of_mem hb)
  exact ⟨hcontent'.trans hcontent, hlist'.trans hlist⟩

theorem Draws.congr (h : m.Draws o f) (ho : m'.children o = m.children o) (hc : ∀ j ∈ f.numbers,
    m'.content j = m.content j ∧ m'.children (some j) = m.children (some j)) : m'.Draws o f :=
  ⟨ho.trans h.roots, h.shows.congr hc⟩

/-- What a node of a forest lists is in the forest. -/
theorem Shows.mem_of_listed (h : m.Shows f) (hj : j ∈ f.numbers) (hi : i ∈ m.children (some j)) :
    i ∈ f.numbers := by
  obtain ⟨b, hb, rfl⟩ := List.mem_map.1 hj
  obtain ⟨bs, hbs, -, hlist⟩ := All.exists_of_mem h hb
  rw [hlist] at hi
  obtain ⟨c, hc, rfl⟩ := List.mem_map.1 (mem_numbers_of_mem_roots hi)
  exact List.mem_map_of_mem (hbs c hc)

/-- Around a node, to put others in its place changes nothing where it does not occur. -/
theorem Shows.outside (h : m.Shows f) (ids : List Nat) (hi : i ∉ f.numbers) (hc : ∀ j ∈ f.numbers,
    m'.content j = m.content j ∧
      m'.children (some j) = splice i ids (m.children (some j))) : m'.Shows f := by
  refine h.congr fun j hj => ⟨(hc j hj).1, ?_⟩
  rw [(hc j hj).2, splice_of_not_mem fun hij => hi (h.mem_of_listed hj hij)]

/-- **A change in place.** Where memory has new nodes in the place of one in all lists, and shows
the new nodes, it shows the forest with the new nodes in that place. -/
theorem Shows.first (h : m.Shows f) (hn : f.numbers.Nodup)
    (hf : First (·.1 == i) a cs new f f') (hc : ∀ j ∈ f.numbers, j ∉ (tree a cs).numbers →
      m'.content j = m.content j ∧
        m'.children (some j) = splice i new.roots (m.children (some j))) (hnew : m'.Shows new) :
    m'.Shows f' := by
  induction hf with
  | here fs ha =>
    rw [numbers_node, List.nodup_cons, List.nodup_append, List.mem_append, not_or] at hn
    obtain ⟨⟨-, hafs⟩, -, -, hdisj⟩ := hn
    refine all_append.2 ⟨hnew, Shows.outside h.2.2 new.roots (eq_of_beq ha ▸ hafs) ?_⟩
    intro j hj
    refine hc j ?_ ?_
    · rw [numbers_node]
      exact List.mem_cons_of_mem _ (List.mem_append_right _ hj)
    · rw [numbers_tree, List.mem_cons, not_or]
      exact ⟨fun e => hafs (e ▸ hj), fun hcs => hdisj j hcs j hj rfl⟩
  | @inside b fs bs bs' hb hfirst ih =>
    have hroots := hfirst.roots_eq (by
      rw [numbers_node, List.nodup_cons, List.nodup_append] at hn
      exact hn.2.1)
    rw [numbers_node, List.nodup_cons, List.nodup_append, List.mem_append, not_or] at hn
    obtain ⟨⟨hbbs, -⟩, hnbs, -, hdisj⟩ := hn
    have hsub := hfirst.numbers_sublist.subset
    rw [numbers_node] at hc
    obtain ⟨hcontent, hlist⟩ := hc b.1 List.mem_cons_self fun hmem => hbbs (hsub hmem)
    refine ⟨⟨hcontent.trans h.1.1, by rw [hlist, h.1.2, hroots]⟩, ih h.2.1 hnbs fun j hj => ?_,
      Shows.outside h.2.2 new.roots
        (fun hi => hdisj i hfirst.mem_numbers i hi rfl) fun j hj => ?_⟩
    · exact hc j (List.mem_cons_of_mem _ (List.mem_append_left _ hj))
    · exact hc j (List.mem_cons_of_mem _ (List.mem_append_right _ hj)) fun hmem =>
        hdisj j (hsub hmem) j hj rfl
  | @behind b bs fs fs' hb _ hfirst ih =>
    rw [numbers_node, List.nodup_cons, List.nodup_append, List.mem_append, not_or] at hn
    obtain ⟨⟨-, hbfs⟩, -, hnfs, hdisj⟩ := hn
    have hsub := hfirst.numbers_sublist.subset
    have hi : i ∉ bs.numbers := fun hi => hdisj i hi i hfirst.mem_numbers rfl
    rw [numbers_node] at hc
    obtain ⟨hcontent, hlist⟩ := hc b.1 List.mem_cons_self fun hmem => hbfs (hsub hmem)
    refine ⟨⟨hcontent.trans h.1.1, ?_⟩, Shows.outside h.2.1 new.roots hi fun j hj => ?_,
      ih h.2.2 hnfs fun j hj => ?_⟩
    · rw [hlist, h.1.2, splice_of_not_mem fun hmem => hi (mem_numbers_of_mem_roots hmem)]
    · exact hc j (List.mem_cons_of_mem _ (List.mem_append_left _ hj)) fun hmem =>
        hdisj j hj j (hsub hmem) rfl
    · exact hc j (List.mem_cons_of_mem _ (List.mem_append_right _ hj))

theorem Draws.first (h : m.Draws o f) (hn : f.numbers.Nodup)
    (hf : First (·.1 == i) a cs new f f') (ho : m'.children o = splice i new.roots (m.children o))
    (hc : ∀ j ∈ f.numbers, j ∉ (tree a cs).numbers → m'.content j = m.content j ∧
      m'.children (some j) = splice i new.roots (m.children (some j))) (hnew : m'.Shows new) :
    m'.Draws o f' :=
  ⟨by rw [ho, h.roots, hf.roots_eq hn], h.shows.first hn hf hc hnew⟩

/-! ## Reading out -/

theorem Shows.forest_eq (h : m.Shows f) (hn : f.labels.length ≤ n) : m.forest n f.roots = f := by
  induction f generalizing n with
  | nil => cases n <;> rfl
  | node a cs fs ihc ihf =>
    simp only [labels, List.length_cons, List.length_append] at hn
    obtain ⟨k, rfl⟩ : ∃ k, n = k + 1 := ⟨n - 1, by omega⟩
    rw [roots, Memory.forest, h.1.1, h.1.2, ihc h.2.1 (by omega), ihf h.2.2 (by omega)]

theorem length_labels_le (h : f.numbers.Nodup) (hb : ∀ i ∈ f.numbers, i < n) :
    f.labels.length ≤ n := by
  have hle := (List.subperm_of_subset h fun i hi => List.mem_range.2 (hb i hi)).length_le
  rwa [List.length_range, numbers, List.length_map] at hle

/-- Reading what lies below an owner gives the forest that is there. -/
theorem Draws.below_eq (h : m.Draws o f) {lo : Nat} (hf : f.Within lo m.fresh) :
    m.below o = f := by
  rw [below, h.roots]
  exact h.shows.forest_eq (length_labels_le hf.once fun i hi => (hf.bounds i hi).2)

/-- What is reached from nodes stays among those that only lead to each other. -/
theorem forest_mem {T : Nat → Prop} (hT : ∀ i, T i → ∀ j ∈ m.children (some i), T j) :
    ∀ n ids, (∀ i ∈ ids, T i) → ∀ i ∈ (m.forest n ids).numbers, T i := by
  intro n
  induction n with
  | zero => exact fun _ _ i hi => absurd hi List.not_mem_nil
  | succ n ih =>
    intro ids hids i hi
    cases ids with
    | nil => exact absurd hi List.not_mem_nil
    | cons k ks =>
      rw [List.forall_mem_cons] at hids
      rw [Memory.forest, numbers_node, List.mem_cons, List.mem_append] at hi
      rcases hi with rfl | hi | hi
      · exact hids.1
      · exact ih _ (hT k hids.1) i hi
      · exact ih _ hids.2 i hi

/-- Nodes keep what they list if they cannot be reached from the nodes that are let go. -/
theorem letGo_children {T : Nat → Prop} (hT : ∀ i, T i → ∀ j ∈ m.children (some i), T j)
    (hids : ∀ i ∈ ids, T i) (held : Nat → Bool) (hj : ¬T j) :
    (m.letGo held ids).children (some j) = m.children (some j) :=
  if_neg fun hmem => hj (forest_mem hT _ _ (fun i hi => hids i (List.mem_filter.1 hi).1) j hmem)

end

/-! ## New nodes -/

section

variable {m : Memory} {p : Option Owner} {f : Forest Node} {i : Nat}

theorem write_top (p : Option Owner) (f : Forest Node) (m : Memory) :
    (write p f m).children none = m.children none ∧ (write p f m).fresh = m.fresh := by
  induction f generalizing p m with
  | nil => exact ⟨rfl, rfl⟩
  | node a cs fs ihc ihf =>
    unfold write
    exact ⟨(ihf _ _).1.trans (ihc _ _).1, (ihf _ _).2.trans (ihc _ _).2⟩

theorem write_frame (hi : i ∉ f.numbers) (p : Option Owner) (m : Memory) :
    (write p f m).content i = m.content i ∧ (write p f m).parent i = m.parent i ∧
      (write p f m).children (some i) = m.children (some i) := by
  induction f generalizing p m with
  | nil => exact ⟨rfl, rfl, rfl⟩
  | node a cs fs ihc ihf =>
    rw [numbers_node, List.mem_cons, List.mem_append, not_or, not_or] at hi
    obtain ⟨ha, hcs, hfs⟩ := hi
    unfold write
    obtain ⟨hc, hp, hl⟩ := ihf hfs p (write (some (some a.1)) cs _)
    rw [hc, hp, hl]
    obtain ⟨hc, hp, hl⟩ := ihc hcs (some (some a.1)) _
    rw [hc, hp, hl]
    exact ⟨if_neg ha, if_neg ha, if_neg fun e => ha (Option.some.inj e)⟩

/-- What is written is there, with its links: what has been written for a node and below it is left
alone by what is written behind it. -/
theorem write_spec (hn : f.numbers.Nodup) (p : Option Owner) (m : Memory) :
    (f.All fun a cs => ((write p f m).content a.1 = a.2 ∧
      (write p f m).children (some a.1) = cs.roots) ∧
      ∀ i ∈ cs.roots, (write p f m).parent i = some (some a.1)) ∧
    ∀ i ∈ f.roots, (write p f m).parent i = p := by
  induction f generalizing p m with
  | nil => exact ⟨trivial, fun i hi => absurd hi List.not_mem_nil⟩
  | node a cs fs ihc ihf =>
    rw [numbers_node, List.nodup_cons, List.nodup_append, List.mem_append, not_or] at hn
    obtain ⟨⟨hacs, hafs⟩, hncs, hnfs, hdisj⟩ := hn
    unfold write
    generalize hm₀ : ({ m with
      content := fun i => if i = a.1 then a.2 else m.content i
      parent := fun i => if i = a.1 then p else m.parent i
      children := fun o => if o = some a.1 then cs.roots else m.children o } : Memory) = m₀
    obtain ⟨hcs, hcstop⟩ := ihc hncs (some (some a.1)) m₀
    obtain ⟨hfs, hfstop⟩ := ihf hnfs p (write (some (some a.1)) cs m₀)
    have hframe (i : Nat) (hi : i ∉ fs.numbers) := write_frame hi p (write (some (some a.1)) cs m₀)
    have hcsfs (i : Nat) (hi : i ∈ cs.numbers) : i ∉ fs.numbers := fun h => hdisj i hi i h rfl
    obtain ⟨hac, hap, hal⟩ := hframe a.1 hafs
    obtain ⟨hac', hap', hal'⟩ := write_frame hacs (some (some a.1)) m₀
    refine ⟨⟨⟨⟨?_, ?_⟩, fun i hi => ?_⟩, hcs.imp fun b hb bs hbs hb' => ?_, hfs⟩, fun i hi => ?_⟩
    · rw [hac, hac', ← hm₀]
      exact if_pos rfl
    · rw [hal, hal', ← hm₀]
      exact if_pos rfl
    · rw [(hframe i (hcsfs i (mem_numbers_of_mem_roots hi))).2.1]
      exact hcstop i hi
    · have hbfs := hframe b.1 (hcsfs b.1 (List.mem_map_of_mem hb))
      refine ⟨⟨hbfs.1.trans hb'.1.1, hbfs.2.2.trans hb'.1.2⟩, fun i hi => ?_⟩
      obtain ⟨c, hc, rfl⟩ := List.mem_map.1 (mem_numbers_of_mem_roots hi)
      rw [(hframe c.1 (hcsfs c.1 (List.mem_map_of_mem (hbs c hc)))).2.1]
      exact hb'.2 c.1 hi
    · rcases List.mem_cons.1 hi with rfl | hi
      · rw [hap, hap', ← hm₀]
        exact if_pos rfl
      · exact hfstop i hi

/-- An owner is a node that has been written, with a list of such nodes, or lists what it did. -/
theorem write_children (hf : f.numbers.Pairwise (· < ·)) (p : Option Owner) (m : Memory)
    (o : Owner) :
    (∃ q ∈ f.numbers, o = some q ∧ ((write p f m).children o).Nodup ∧
      ∀ i ∈ (write p f m).children o,
        i ∈ f.numbers ∧ (write p f m).parent i = some o ∧ q < i) ∨
    (write p f m).children o = m.children o := by
  have hn : f.numbers.Nodup := hf.imp Nat.ne_of_lt
  by_cases ho : ∃ q ∈ f.numbers, o = some q
  · left
    obtain ⟨q, hq, rfl⟩ := ho
    obtain ⟨b, hb, rfl⟩ := List.mem_map.1 hq
    obtain ⟨bs, hbs, ⟨⟨-, hlist⟩, hlink⟩, hlow, hup⟩ :=
      All.exists_of_mem ((write_spec hn p m).1.and (all_of_increasing hf)) hb
    rw [hlist]
    refine ⟨b.1, hq, rfl, (hup.imp Nat.ne_of_lt).sublist (roots_sublist bs), fun i hi =>
      ⟨?_, hlink i hi, hlow i (mem_numbers_of_mem_roots hi)⟩⟩
    obtain ⟨c, hc, rfl⟩ := List.mem_map.1 (mem_numbers_of_mem_roots hi)
    exact List.mem_map_of_mem (hbs c hc)
  · right
    cases o with
    | none => exact (write_top p f m).1
    | some i => exact (write_frame (fun hi => ho ⟨i, hi, rfl⟩) p m).2.2

end

/-- New nodes have come into memory, and nothing lists those at their top. -/
structure Entered (m m' : Memory) (f : Forest Node) : Prop where
  sound : m'.Sound
  shows : m'.Shows f
  loose : m'.Loose f.roots
  within : f.Within m.fresh m'.fresh
  le : m.fresh ≤ m'.fresh
  content : ∀ i < m.fresh, m'.content i = m.content i
  children : ∀ o, (∀ i, o = some i → i < m.fresh) → m'.children o = m.children o

section

variable {m m' : Memory} {f : Forest Node} {j : Nat}

theorem Entered.top (h : m.Entered m' f) : m'.children none = m.children none :=
  h.children none nofun

theorem Entered.old (h : m.Entered m' f) (hj : j < m.fresh) :
    m'.children (some j) = m.children (some j) :=
  h.children (some j) fun _ e => Option.some.inj e ▸ hj

/-- What a node lists that it has not listed before is new. -/
theorem Entered.listed (h : m.Entered m' f) {k : Nat} (hk : k ∈ m'.children (some j)) :
    k ∈ m.children (some j) ∨ m.fresh ≤ k := by
  by_cases hj : j < m.fresh
  · exact .inl (h.old hj ▸ hk)
  · exact .inr (Nat.le_of_lt (Nat.lt_of_le_of_lt (Nat.le_of_not_lt hj) (h.sound.ordered j k hk)))

theorem Entered.le_root (h : m.Entered m' f) (hj : j ∈ f.roots) : m.fresh ≤ j :=
  (h.within.bounds j (mem_numbers_of_mem_roots hj)).1

end

theorem Sound.enter {m : Memory} (h : m.Sound) (markup : Markup) :
    (m.enter markup).1 = (markup.number m.fresh).1.roots ∧
      (m.enter markup).2.fresh = (markup.number m.fresh).2 ∧
      m.Entered (m.enter markup).2 (markup.number m.fresh).1 := by
  refine ⟨rfl, rfl, ?_⟩
  obtain ⟨f, hf⟩ : ∃ f, f = (markup.number m.fresh).1 := ⟨_, rfl⟩
  obtain ⟨w, hw⟩ : ∃ w, w = write none f m := ⟨_, rfl⟩
  have hincreasing : f.numbers.Pairwise (· < ·) := hf ▸ increasing_number markup m.fresh
  have hwithin : f.Within m.fresh (markup.number m.fresh).2 := hf ▸ within_number markup m.fresh
  have hle := le_number markup m.fresh
  have henter : (m.enter markup).2 = { w with fresh := (markup.number m.fresh).2 } := by
    rw [hw, hf]
    rfl
  have hold (i : Nat) (hi : i < m.fresh) := write_frame (i := i)
    (fun h => Nat.not_lt_of_le (hwithin.bounds i h).1 hi) none m
  rw [← hw] at hold
  have hchildren (o : Owner) (ho : ∀ i, o = some i → i < m.fresh) :
      w.children o = m.children o := by
    cases o with
    | none => exact hw ▸ (write_top none f m).1
    | some i => exact (hold i (ho i rfl)).2.2
  have hcases := write_children hincreasing none m
  rw [← hw] at hcases
  have hunlisted (i : Nat) (hi : i ∈ f.roots) (o : Owner) : i ∉ w.children o := by
    intro hmem
    rcases hcases o with ⟨q, -, rfl, -, ho⟩ | ho
    · have hp := (write_spec hwithin.once none m).2 i hi
      rw [← hw, (ho i hmem).2.1] at hp
      cases hp
    · rw [ho] at hmem
      have := h.bound o i hmem
      have := (hwithin.bounds i (mem_numbers_of_mem_roots hi)).1
      omega
  rw [henter, ← hf]
  refine ⟨⟨fun o i hi => ?_, fun o => ?_, fun o i hi => ?_, fun p i hi => ?_⟩, ?_,
    ⟨?_, hunlisted, ?_⟩, hwithin, hle, fun i hi => (hold i hi).1, hchildren⟩
  · rcases hcases o with ⟨q, -, rfl, -, ho⟩ | ho
    · exact (ho i hi).2.1
    · have hi' : i ∈ m.children o := ho ▸ hi
      exact (hold i (h.bound o i hi')).2.1.trans (h.linked o i hi')
  · rcases hcases o with ⟨q, -, -, hnodup, -⟩ | ho
    · exact hnodup
    · exact ho ▸ h.once o
  · rcases hcases o with ⟨q, -, -, -, ho⟩ | ho
    · exact (hwithin.bounds i (ho i hi).1).2
    · exact Nat.lt_of_lt_of_le (h.bound o i (ho ▸ hi)) hle
  · rcases hcases (some p) with ⟨q, -, hq, -, ho⟩ | ho
    · cases hq
      exact (ho i hi).2.2
    · exact h.ordered p i (ho ▸ hi)
  · exact hw ▸ (write_spec hwithin.once none m).1.imp fun b _ bs _ hb => hb.1
  · exact hwithin.once.sublist (roots_sublist f)
  · exact fun i hi => (hwithin.bounds i (mem_numbers_of_mem_roots hi)).2

/-! ## The tree -/

/-- The nodes that are reached from the top. -/
inductive InTree (m : Memory) : Nat → Prop
  | top {i : Nat} : i ∈ m.children none → InTree m i
  | inside {p i : Nat} : InTree m p → i ∈ m.children (some p) → InTree m i

/-- Every node of the tree is listed once, by the owner that its parent link names, which lies in
the tree itself or is the holder. -/
def WellLinked (m : Memory) : Prop :=
  ∀ i, m.InTree i → ∃ o, m.parent i = some o ∧ (m.children o).count i = 1 ∧
    (∀ q, i ∈ m.children q → q = o) ∧ ∀ p, o = some p → m.InTree p

theorem Sound.wellLinked {m : Memory} (h : m.Sound) : m.WellLinked := by
  have hlisted (o : Owner) (i : Nat) (hi : i ∈ m.children o) :
      (m.children o).count i = 1 ∧ ∀ q, i ∈ m.children q → q = o :=
    ⟨List.count_eq_one_of_mem (h.once o) hi, fun q hq => h.owner_eq hi hq⟩
  intro i hi
  cases hi with
  | top hi =>
    obtain ⟨hcount, howner⟩ := hlisted none i hi
    exact ⟨none, h.linked none i hi, hcount, howner, fun p hp => by cases hp⟩
  | @inside p _ hp hi =>
    obtain ⟨hcount, howner⟩ := hlisted (some p) i hi
    exact ⟨some p, h.linked _ i hi, hcount, howner, fun q hq => Option.some.inj hq ▸ hp⟩

theorem Draws.inTree_iff {m : Memory} {f : Forest Node} (h : m.Draws none f) {i : Nat} :
    m.InTree i ↔ i ∈ f.numbers := by
  constructor
  · intro hi
    induction hi with
    | top hi => exact mem_numbers_of_mem_roots (h.roots ▸ hi)
    | inside _ hi ih => exact h.shows.mem_of_listed ih hi
  · have hreach : ∀ g : Forest Node, m.Shows g → (∀ j ∈ g.roots, m.InTree j) →
        ∀ j ∈ g.numbers, m.InTree j := by
      intro g
      induction g with
      | nil => exact fun _ _ j hj => absurd hj List.not_mem_nil
      | node a cs fs ihc ihf =>
        intro hg htop j hj
        rw [Forest.roots, List.forall_mem_cons] at htop
        rw [numbers_node, List.mem_cons, List.mem_append] at hj
        rcases hj with rfl | hj | hj
        · exact htop.1
        · exact ihc hg.2.1 (fun k hk => .inside htop.1 (hg.1.2 ▸ hk)) j hj
        · exact ihf hg.2.2 htop.2 j hj
    exact hreach f h.shows (fun j hj => .top (h.roots ▸ hj)) i

/-! ## What a change does not reach -/

section

variable {m m₁ : Memory} {o : Owner} {i j : Nat} {ids : List Nat} {T : Nat → Prop}
  {a : Node} {cs f f' g new : Forest Node}

theorem Shows.exists_owner (h : m.Shows f) (hi : i ∈ f.numbers) :
    i ∈ f.roots ∨ ∃ p ∈ f.numbers, i ∈ m.children (some p) := by
  induction f with
  | nil => exact absurd hi List.not_mem_nil
  | node a cs fs ihc ihf =>
    simp only [numbers_node, Forest.roots, List.mem_cons, List.mem_append] at hi ⊢
    rcases hi with rfl | hi | hi
    · exact .inl (.inl rfl)
    · rcases ihc h.2.1 hi with hroot | ⟨p, hp, hip⟩
      · exact .inr ⟨a.1, .inl rfl, h.1.2 ▸ hroot⟩
      · exact .inr ⟨p, .inr (.inl hp), hip⟩
    · rcases ihf h.2.2 hi with hroot | ⟨p, hp, hip⟩
      · exact .inl (.inr hroot)
      · exact .inr ⟨p, .inr (.inr hp), hip⟩

/-- What lies below an owner is listed by it, or by what lies below it. -/
theorem Draws.exists_owner (h : m.Draws o f) (hi : i ∈ f.numbers) :
    ∃ q, i ∈ m.children q ∧ (q = o ∨ ∃ p ∈ f.numbers, q = some p) := by
  rcases h.shows.exists_owner hi with hroot | ⟨p, hp, hip⟩
  · exact ⟨o, h.roots ▸ hroot, .inl rfl⟩
  · exact ⟨some p, hip, .inr ⟨p, hp, rfl⟩⟩

/-- Nodes that a given node is not among, and that no other node leads to. -/
structure Apart (m : Memory) (i : Nat) (T : Nat → Prop) : Prop where
  not_mem : ¬T i
  bound : ∀ j, T j → j < m.fresh
  closed : ∀ j, ¬T j → ∀ k ∈ m.children (some j), ¬T k

/-- The tree is apart from a node that has left it. -/
theorem Draws.apart (h : m.Draws none f) (hs : m.Sound) (hi : i ∉ f.numbers) :
    m.Apart i (· ∈ f.numbers) := by
  refine ⟨hi, fun j hj => ?_, fun j hj k hk hmem => ?_⟩
  · obtain ⟨q, hq, -⟩ := h.exists_owner hj
    exact hs.bound q j hq
  · obtain ⟨q, hq, rfl | ⟨p, hp, rfl⟩⟩ := h.exists_owner hmem
    · cases hs.owner_eq hk hq
    · cases hs.owner_eq hk hq
      exact hj hp

/-- What lies around a node is apart from it. -/
theorem Draws.apart_first (h : m.Draws none f) (hs : m.Sound)
    (hf : First (·.1 == i) a cs new f f') :
    m.Apart i fun j => j ∈ f.numbers ∧ j ∉ (tree a cs).numbers := by
  have htree : m.Shows (tree a cs) := ⟨(hf.all h.shows).1, (hf.all h.shows).2, trivial⟩
  refine ⟨fun hi => hi.2 ?_, fun j hj => ?_, fun j hj k hk hmem => ?_⟩
  · rw [numbers_tree, hf.key_eq]
    exact List.mem_cons_self
  · obtain ⟨q, hq, -⟩ := h.exists_owner hj.1
    exact hs.bound q j hq
  · obtain ⟨q, hq, rfl | ⟨p, hp, rfl⟩⟩ := h.exists_owner hmem.1
    · cases hs.owner_eq hk hq
    · cases hs.owner_eq hk hq
      by_cases hjt : j ∈ (tree a cs).numbers
      · exact hmem.2 (htree.mem_of_listed hjt hk)
      · exact hj ⟨hp, hjt⟩

/-- Nodes stay apart if only new nodes are listed anew. -/
theorem Apart.of_listed (h : m.Apart i T) (hle : m.fresh ≤ m₁.fresh)
    (hl : ∀ j, ∀ k ∈ m₁.children (some j), k ∈ m.children (some j) ∨ m.fresh ≤ k) :
    m₁.Apart i T := by
  refine ⟨h.not_mem, fun j hj => Nat.lt_of_lt_of_le (h.bound j hj) hle, fun j hj k hk => ?_⟩
  rcases hl j k hk with hk | hk
  · exact h.closed j hj k hk
  · exact fun hTk => Nat.not_lt_of_le hk (h.bound k hTk)

theorem Apart.letGo_children (h : m.Apart i T) (hids : ∀ k ∈ ids, ¬T k) (held : Nat → Bool)
    (hj : T j) : (m.letGo held ids).children (some j) = m.children (some j) :=
  Memory.letGo_children h.closed hids held (not_not_intro hj)

/-- In memory nodes have taken the place of a node. What is apart from it lists them where it has
listed that node, and is left alone else. -/
structure Replaced (m m' : Memory) (i : Nat) (new : Forest Node) : Prop where
  sound : m'.Sound
  shows : m'.Shows new
  top : m'.children none = splice i new.roots (m.children none)
  apart : ∀ T, m.Apart i T → ∀ j, T j → m'.content j = m.content j ∧
    m'.children (some j) = splice i new.roots (m.children (some j))

/-- **In place.** Where a node of the tree gives way to others, the tree has them in its place. -/
theorem Replaced.draws_first {m' : Memory} (hr : m.Replaced m' i new) (h : m.Draws none f)
    (hs : m.Sound) (hn : f.numbers.Nodup) (hf : First (·.1 == i) a cs new f f') :
    m'.Draws none f' :=
  h.first hn hf hr.top (fun j hj hout => hr.apart _ (h.apart_first hs hf) j ⟨hj, hout⟩) hr.shows

/-- **Out of the tree.** Where a node gives way that is not in the tree, the tree stays. -/
theorem Replaced.draws_congr {m' : Memory} (hr : m.Replaced m' i new) (h : m.Draws none f)
    (hs : m.Sound) (hi : i ∉ f.numbers) : m'.Draws none f := by
  refine ⟨?_, h.shows.outside _ hi (hr.apart _ (h.apart hs hi))⟩
  rw [hr.top, h.roots, splice_of_not_mem fun hmem => hi (mem_numbers_of_mem_roots hmem)]

/-- What a node loses may be let go: nodes that are not new, and none that leads to the node. As
nodes come before what they list, only old nodes from `i` on are let go. -/
theorem Replaced.letGo (hr : m.Replaced m₁ i new) (h : m.Sound) (hi : i < m.fresh)
    (hle : m.fresh ≤ m₁.fresh) (hnew : ∀ j ∈ new.numbers, j = i ∨ m.fresh ≤ j)
    (hkeep : ∀ j, i ≤ j → j < m.fresh → j ∉ new.numbers →
      m₁.children (some j) = m.children (some j))
    (hl : ∀ j, ∀ k ∈ m₁.children (some j), k ∈ m.children (some j) ∨ m.fresh ≤ k)
    (held : Nat → Bool) (hids : ∀ k ∈ ids, (k = i ∨ k ∈ m.children (some i)) ∧ k ∉ new.numbers) :
    m.Replaced (m₁.letGo held ids) i new := by
  have hback (j : Nat) (hj : i ≤ j ∧ j < m.fresh ∧ j ∉ new.numbers) (k : Nat)
      (hk : k ∈ m₁.children (some j)) : i ≤ k ∧ k < m.fresh ∧ k ∉ new.numbers := by
    rw [hkeep j hj.1 hj.2.1 hj.2.2] at hk
    have hlow := h.ordered j k hk
    have hhigh := h.bound _ k hk
    refine ⟨by omega, hhigh, fun hmem => ?_⟩
    have := hnew k hmem
    omega
  have hidsOld (k : Nat) (hk : k ∈ ids) : i ≤ k ∧ k < m.fresh ∧ k ∉ new.numbers := by
    obtain ⟨rfl | hki, hnot⟩ := hids k hk
    · exact ⟨Nat.le_refl k, hi, hnot⟩
    · exact ⟨Nat.le_of_lt (h.ordered i k hki), h.bound _ k hki, hnot⟩
  refine ⟨hr.sound.letGo held ids, hr.shows.congr fun j hj => ⟨rfl, ?_⟩, hr.top,
    fun T hT j hj => ⟨(hr.apart T hT j hj).1, ?_⟩⟩
  · exact Memory.letGo_children hback hidsOld held fun hjold => hjold.2.2 hj
  · have hidsT (k : Nat) (hk : k ∈ ids) : ¬T k := by
      obtain ⟨rfl | hki, -⟩ := hids k hk
      · exact hT.not_mem
      · exact hT.closed i hT.not_mem k hki
    rw [(hT.of_listed hle hl).letGo_children hidsT held hj]
    exact (hr.apart T hT j hj).2

/-! ## The changes -/

variable (he : m.Entered m₁ g) (hi : i < m.fresh)

include he hi

/-- New nodes in the place of a node. -/
theorem Entered.exchanged : m.Replaced (m₁.exchange i g.roots).2 i g := by
  have hlists := he.sound.exchange_children i g.roots
  have hcontent := (he.sound.exchange_frame i g.roots).1
  have hg : i ∉ g.numbers := fun hmem => Nat.not_lt_of_le (he.within.bounds i hmem).1 hi
  refine ⟨he.sound.exchange he.loose fun p hp k hk => ?_,
    he.shows.outside _ hg fun j _ => ⟨congrFun hcontent j, hlists (some j)⟩, ?_,
    fun T hT j hj => ⟨?_, ?_⟩⟩
  · have := he.sound.ordered p i hp
    have := he.le_root hk
    omega
  · rw [hlists, he.top]
  · rw [hcontent, he.content j (hT.bound j hj)]
  · rw [hlists, he.old (hT.bound j hj)]

/-- New nodes in the place of a node, which is let go. -/
theorem Entered.exchanged_letGo (h : m.Sound) (held : Nat → Bool) :
    m.Replaced ((m₁.exchange i g.roots).2.letGo held [i]) i g := by
  have hlists := he.sound.exchange_children i g.roots
  have hg : i ∉ g.numbers := fun hmem => Nat.not_lt_of_le (he.within.bounds i hmem).1 hi
  refine (he.exchanged hi).letGo h hi ?_ (fun j hj => .inr (he.within.bounds j hj).1)
    (fun j hij hj _ => ?_) (fun j k hk => ?_) held fun k hk => ?_
  · rw [(he.sound.exchange_frame i g.roots).2]
    exact he.le
  · rw [hlists, he.old hj, splice_of_not_mem]
    exact fun hmem => Nat.not_le_of_lt (h.ordered j i hmem) hij
  · rw [hlists] at hk
    rcases mem_of_mem_splice (he.sound.once _) hk with hk | ⟨hk, -⟩
    · exact .inr (he.le_root hk)
    · exact he.listed hk
  · rw [List.mem_singleton.1 hk]
    exact ⟨.inl rfl, hg⟩

/-- A node with another list is a node with other content. -/
theorem Entered.refilled {m₂ : Memory} (hsound : m₂.Sound) (hcontent : m₂.content = m₁.content)
    (hthere : m₂.children (some i) = new.roots)
    (helse : ∀ q, q ≠ some i → m₂.children q = m₁.children q) (hshows : m₂.Shows new) :
    m.Replaced m₂ i (tree (i, m.content i) new) := by
  refine ⟨hsound, ⟨⟨?_, hthere⟩, hshows, trivial⟩, ?_, fun T hT j hj => ⟨?_, ?_⟩⟩
  · rw [hcontent, he.content i hi]
  · show _ = splice i [i] (m.children none)
    rw [splice_self, helse none nofun, he.top]
  · rw [hcontent, he.content j (hT.bound j hj)]
  · show _ = splice i [i] (m.children (some j))
    rw [splice_self, helse _ fun e => hT.not_mem (Option.some.inj e ▸ hj), he.old (hT.bound j hj)]

/-- New nodes as the content of a node; what it has listed is let go. -/
theorem Entered.assigned (h : m.Sound) (held : Nat → Bool) :
    m.Replaced ((m₁.assign (some i) g.roots).letGo held (m₁.children (some i))) i
      (tree (i, m.content i) g) := by
  have hthere := m₁.children_assign (some i) g.roots
  have helse (q : Owner) (hq : q ≠ some i) := m₁.children_assign_of_ne hq g.roots
  have hsound : (m₁.assign (some i) g.roots).Sound := he.sound.assign he.loose fun p hp k hk => by
    cases hp
    exact Nat.lt_of_lt_of_le hi (he.le_root hk)
  have hshows : (m₁.assign (some i) g.roots).Shows g := he.shows.congr fun j hj => by
    refine ⟨rfl, helse _ fun e => ?_⟩
    have := (he.within.bounds j hj).1
    cases e
    omega
  refine (he.refilled hi hsound rfl hthere helse hshows).letGo h hi he.le (fun j hj => ?_)
    (fun j _ hj hnot => ?_) (fun j k hk => ?_) held fun k hk => ?_
  · rw [numbers_tree, List.mem_cons] at hj
    exact hj.imp_right fun hj => (he.within.bounds j hj).1
  · rw [helse _ fun e => hnot ?_, he.old hj]
    rw [Option.some.inj e, numbers_tree]
    exact List.mem_cons_self
  · by_cases hj : j = i
    · rw [hj, hthere] at hk
      exact .inr (he.le_root hk)
    · rw [helse _ fun e => hj (Option.some.inj e)] at hk
      exact he.listed hk
  · rw [he.old hi] at hk
    refine ⟨.inr hk, fun hmem => ?_⟩
    have hlow := h.ordered i k hk
    have hhigh := h.bound _ k hk
    rw [numbers_tree, List.mem_cons] at hmem
    rcases hmem with rfl | hmem
    · exact Nat.lt_irrefl k hlow
    · exact Nat.not_lt_of_le (he.within.bounds k hmem).1 hhigh

/-- New nodes behind those that a node lists. -/
theorem Entered.appended (hd : m.Draws (some i) cs)
    (hcs : ∀ j ∈ cs.numbers, j < m.fresh ∧ j ≠ i) :
    m.Replaced (m₁.append (some i) g.roots) i (tree (i, m.content i) (cs ++ g)) := by
  have helse (q : Owner) (hq : q ≠ some i) := m₁.children_append_of_ne hq g.roots
  refine he.refilled hi (he.sound.append he.loose fun p hp k hk => ?_) rfl ?_ helse
    (all_append.2 ⟨hd.shows.congr fun j hj => ⟨he.content j (hcs j hj).1, ?_⟩,
      he.shows.congr fun j hj => ⟨rfl, helse _ fun e => ?_⟩⟩)
  · cases hp
    exact Nat.lt_of_lt_of_le hi (he.le_root hk)
  · rw [children_append, he.old hi, hd.roots, roots_append]
  · rw [helse _ fun e => (hcs j hj).2 (Option.some.inj e), he.old (hcs j hj).1]
  · have := (he.within.bounds j hj).1
    cases e
    omega

end

section

variable {m m₁ m₂ : Memory} {i : Nat} {p : Node → Bool} {a k : Node} {f f' g ms : Forest Node}

/-- **A marker in new content.** New nodes and what the marker has listed take its place. The
content and the nodes are there before the marker gives way, and old nodes do not list it. -/
theorem Replaced.marked (h : m.Sound) (hr : m.Replaced m₁ i (tree a f)) (ha : a.1 = i)
    (hi : i < m.fresh) (hf : f.Within m.fresh m₁.fresh) (hle : m.fresh ≤ m₁.fresh)
    (he : m₁.Entered m₂ g) (hfirst : First p k ms (g ++ ms) f f') {r : Bool × Memory}
    (hrdef : r = (m₂.take k.1).2.exchange k.1 (g.roots ++ (m₂.take k.1).1)) :
    r.1 = true ∧ r.2.fresh = m₂.fresh ∧ m.Replaced r.2 i (tree a f') := by
  subst ha
  replace hfirst := hfirst.key Prod.fst hf.once
  obtain ⟨hklow, hkhigh⟩ := hf.bounds k.1 hfirst.mem_numbers
  obtain ⟨⟨hacontent, hachildren⟩, hshows, -⟩ := hr.shows
  have hdraws : m₂.Draws (some a.1) f := by
    refine Draws.congr ⟨hachildren, hshows⟩ (he.old (by omega)) fun j hj => ?_
    have hj' := (hf.bounds j hj).2
    exact ⟨he.content j hj', he.old hj'⟩
  obtain ⟨⟨-, hkchildren⟩, hms⟩ := hfirst.all hdraws.shows
  obtain ⟨q, hq, -⟩ := hdraws.exists_owner hfirst.mem_numbers
  obtain ⟨hplaced, hsound, hcontent, hfresh, hlists⟩ := he.sound.exchange_taken hq he.loose
    (fun j hj => Nat.lt_of_lt_of_le hkhigh (he.le_root hj)) hrdef
  rw [hkchildren, ← roots_append] at hlists
  have haround (j : Nat) (hj : j ≠ k.1) :
      r.2.content j = m₂.content j ∧
        r.2.children (some j) = splice k.1 (g ++ ms).roots (m₂.children (some j)) :=
    ⟨congrFun hcontent j, hlists (some j) fun e => hj (Option.some.inj e)⟩
  have hkg : k.1 ∉ g.numbers := fun hmem =>
    Nat.not_lt_of_le (he.within.bounds k.1 hmem).1 hkhigh
  have hkms : k.1 ∉ ms.numbers := by
    have hnodup := hf.once.sublist hfirst.numbers_sublist
    rw [numbers_tree, List.nodup_cons] at hnodup
    exact hnodup.1
  have hcontents : r.2.Draws (some a.1) f' := by
    refine hdraws.first hf.once hfirst ?_ (fun j _ hout => haround j fun e => hout ?_)
      (all_append.2 ⟨he.shows.outside _ hkg fun j hj => haround j fun e => hkg (e ▸ hj),
        Shows.outside hms _ hkms fun j hj => haround j fun e => hkms (e ▸ hj)⟩)
    · exact (haround a.1 (by omega)).2
    · rw [numbers_tree, e]
      exact List.mem_cons_self
  have hout (l : List Nat) (hl : ∀ j ∈ l, j < m.fresh) :
      splice k.1 (g ++ ms).roots (splice a.1 [a.1] l) = splice a.1 [a.1] l := by
    rw [splice_self]
    exact splice_of_not_mem fun hmem => Nat.not_lt_of_le hklow (hl k.1 hmem)
  refine ⟨hplaced, hfresh, hsound, ⟨⟨?_, hcontents.roots⟩, hcontents.shows, trivial⟩, ?_,
    fun T hT j hj => ?_⟩
  · rw [hcontent, he.content a.1 (by omega), hacontent]
  · rw [hlists none nofun, he.top, hr.top]
    exact hout _ (h.bound none)
  · obtain ⟨hTcontent, hTchildren⟩ := hr.apart T hT j hj
    have hjlow := hT.bound j hj
    obtain ⟨hjcontent, hjchildren⟩ := haround j (by omega)
    refine ⟨by rw [hjcontent, he.content j (by omega), hTcontent], ?_⟩
    rw [hjchildren, he.old (by omega), hTchildren]
    exact hout _ (h.bound (some j))

end

end Memory

end StaticSite
