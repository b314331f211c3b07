import StaticSite.Proofs.Numbering

/-!
Nodes with parent links.

In memory a tree is not one value. Each node lists the nodes below it and, apart from that, names
the owner that lists it; both are set by hand, and nothing ties a link to a list. What is kept so is
said here, for every node, in the tree or out of it.

* `Memory`: contents, parent links and lists, with the operations that change them;
* `Memory.Sound`: a node that is listed is listed once, by the owner that it names;
* `Sound.relist`: the one change that all others come down to, and what it has to respect;
* `Sound.exchange_children`: what becomes of the lists when nodes take the place of another.
-/

namespace StaticSite

open Forest

/-! ## Lists and forests -/

/-- A list with others in the place of the first occurrence of an entry. -/
def splice (i : Nat) (ids : List Nat) : List Nat → List Nat
  | [] => []
  | j :: js => if j = i then ids ++ js else j :: splice i ids js

section

variable {i j : Nat} {ids l : List Nat}

theorem splice_of_not_mem (h : i ∉ l) : splice i ids l = l := by
  induction l with
  | nil => rfl
  | cons k l ih =>
    simp only [List.mem_cons, not_or] at h
    rw [splice, if_neg (Ne.symm h.1), ih h.2]

theorem splice_self (i : Nat) (l : List Nat) : splice i [i] l = l := by
  induction l with
  | nil => rfl
  | cons k l ih =>
    unfold splice
    split
    · next hk => rw [hk, List.singleton_append]
    · rw [ih]

theorem mem_of_mem_splice (hl : l.Nodup) (h : j ∈ splice i ids l) :
    j ∈ ids ∨ j ∈ l ∧ j ≠ i := by
  induction l with
  | nil => exact absurd h List.not_mem_nil
  | cons k l ih =>
    rw [List.nodup_cons] at hl
    unfold splice at h
    split at h
    · next hk =>
      rcases List.mem_append.1 h with h | h
      · exact .inl h
      · exact .inr ⟨List.mem_cons_of_mem k h, fun hj => hl.1 (hk ▸ hj ▸ h)⟩
    · next hk =>
      rcases List.mem_cons.1 h with rfl | h
      · exact .inr ⟨List.mem_cons_self, hk⟩
      · exact (ih hl.2 h).imp_right fun ⟨hmem, hne⟩ => ⟨List.mem_cons_of_mem k hmem, hne⟩

theorem nodup_splice (hl : l.Nodup) (hids : ids.Nodup) (hd : ∀ j ∈ ids, j ∉ l) :
    (splice i ids l).Nodup := by
  induction l with
  | nil => exact List.nodup_nil
  | cons k l ih =>
    rw [List.nodup_cons] at hl
    have hd' (j : Nat) (hj : j ∈ ids) : j ∉ l := fun h => hd j hj (List.mem_cons_of_mem k h)
    unfold splice
    split
    · exact List.nodup_append.2 ⟨hids, hl.2, fun j hj k hk e => hd' j hj (e ▸ hk)⟩
    · refine List.nodup_cons.2 ⟨fun h => ?_, ih hl.2 hd'⟩
      rcases mem_of_mem_splice hl.2 h with h | h
      · exact hd k h List.mem_cons_self
      · exact hl.1 h.1

end

namespace Forest

universe u

variable {α : Type u}

/-- The numbers of the nodes at the top. -/
def roots : Forest (Nat × α) → List Nat
  | nil => []
  | node a _ fs => a.1 :: roots fs

theorem numbers_node (a : Nat × α) (cs fs : Forest (Nat × α)) :
    (node a cs fs).numbers = a.1 :: (cs.numbers ++ fs.numbers) := by
  simp [numbers, labels]

theorem roots_append (f g : Forest (Nat × α)) : (f ++ g).roots = f.roots ++ g.roots := by
  induction f with
  | nil => rfl
  | node a cs fs _ ih => rw [node_append, roots, roots, ih, List.cons_append]

theorem roots_sublist (f : Forest (Nat × α)) : f.roots.Sublist f.numbers := by
  induction f with
  | nil => exact .slnil
  | node a cs fs _ ih =>
    rw [numbers_node, roots]
    exact (ih.trans (List.sublist_append_right _ _)).cons_cons a.1

theorem mem_numbers_of_mem_roots {f : Forest (Nat × α)} {i : Nat} (h : i ∈ f.roots) :
    i ∈ f.numbers :=
  (roots_sublist f).subset h

/-- What holds of all nodes may be replaced by what follows from it. -/
theorem All.imp {P Q : α → Forest α → Prop} {f : Forest α} (hf : f.All P)
    (h : ∀ a ∈ f.labels, ∀ cs : Forest α, (∀ b ∈ cs.labels, b ∈ f.labels) → P a cs → Q a cs) :
    f.All Q := by
  induction f with
  | nil => trivial
  | node a cs fs ihc ihf =>
    obtain ⟨ha, hcs, hfs⟩ := hf
    simp only [labels, List.mem_cons, List.mem_append] at h
    exact ⟨h a (.inl rfl) cs (fun b hb => .inr (.inl hb)) ha,
      ihc hcs fun b hb ds hds => h b (.inr (.inl hb)) ds fun c hc => .inr (.inl (hds c hc)),
      ihf hfs fun b hb ds hds => h b (.inr (.inr hb)) ds fun c hc => .inr (.inr (hds c hc))⟩

theorem All.and {P Q : α → Forest α → Prop} {f : Forest α} (hp : f.All P) (hq : f.All Q) :
    f.All fun a cs => P a cs ∧ Q a cs := by
  induction f with
  | nil => trivial
  | node a cs fs ihc ihf => exact ⟨⟨hp.1, hq.1⟩, ihc hp.2.1 hq.2.1, ihf hp.2.2 hq.2.2⟩

/-- A property of all nodes holds of the one with a given label. -/
theorem All.exists_of_mem {P : α → Forest α → Prop} {f : Forest α} (hf : f.All P) {a : α}
    (ha : a ∈ f.labels) : ∃ cs : Forest α, (∀ b ∈ cs.labels, b ∈ f.labels) ∧ P a cs := by
  induction f with
  | nil => cases ha
  | node b cs fs ihc ihf =>
    simp only [labels, List.mem_cons, List.mem_append] at ha ⊢
    rcases ha with rfl | ha | ha
    · exact ⟨cs, fun b hb => .inr (.inl hb), hf.1⟩
    · obtain ⟨ds, hds, h⟩ := ihc hf.2.1 ha
      exact ⟨ds, fun b hb => .inr (.inl (hds b hb)), h⟩
    · obtain ⟨ds, hds, h⟩ := ihf hf.2.2 ha
      exact ⟨ds, fun b hb => .inr (.inr (hds b hb)), h⟩

/-- Where numbers go up in document order, a node has a lower one than what is below it. -/
theorem all_of_increasing {f : Forest (Nat × α)} (h : f.numbers.Pairwise (· < ·)) :
    f.All fun a cs => (∀ i ∈ cs.numbers, a.1 < i) ∧ cs.numbers.Pairwise (· < ·) := by
  induction f with
  | nil => trivial
  | node a cs fs ihc ihf =>
    rw [numbers_node, List.pairwise_cons, List.pairwise_append, List.forall_mem_append] at h
    exact ⟨⟨h.1.1, h.2.1⟩, ihc h.2.1, ihf h.2.2.1⟩

theorem increasing_number (f : Forest α) (n : Nat) :
    (f.number n).1.numbers.Pairwise (· < ·) := by
  rw [numbers, labels_number]
  exact List.pairwise_lt_range'

namespace First

variable {p : Nat × α → Bool} {a : Nat × α} {cs new f f' : Forest (Nat × α)} {i : Nat}

theorem numbers_sublist (h : First p a cs new f f') :
    (tree a cs).numbers.Sublist f.numbers :=
  h.labels_sublist.map Prod.fst

theorem key_eq (h : First (·.1 == i) a cs new f f') : a.1 = i := eq_of_beq h.mem.1

theorem mem_numbers (h : First (·.1 == i) a cs new f f') : i ∈ f.numbers :=
  h.key_eq ▸ List.mem_map_of_mem h.mem.2

theorem roots_eq (h : First (·.1 == i) a cs new f f') (hn : f.numbers.Nodup) :
    f'.roots = splice i new.roots f.roots := by
  induction h with
  | here fs ha =>
    rw [roots_append, roots, splice, if_pos (eq_of_beq ha)]
  | inside b fs hb h _ =>
    have hmem := h.mem_numbers
    rw [numbers_node, List.nodup_cons, List.nodup_append] at hn
    rw [roots, roots, splice, if_neg (ne_of_beq_false hb), splice_of_not_mem]
    exact fun hi => hn.2.2.2 i hmem i (mem_numbers_of_mem_roots hi) rfl
  | behind b hb _ _ ih =>
    rw [numbers_node, List.nodup_cons, List.nodup_append] at hn
    rw [roots, roots, splice, if_neg (ne_of_beq_false hb), ih hn.2.2.1]

end First

end Forest

/-! ## Memory -/

/-- What lists a node: another node, or else the holder of the nodes at the top. -/
abbrev Owner := Option Nat

structure Memory where
  content : Nat → Content
  /-- The owner that a node names as its own. -/
  parent : Nat → Option Owner
  /-- The nodes that an owner lists. -/
  children : Owner → List Nat
  /-- The next free number. -/
  fresh : Nat

namespace Memory

def empty : Memory := ⟨fun _ => .text "", fun _ => none, fun _ => [], 0⟩

/-- Sets the parent links of nodes. -/
def link (m : Memory) (p : Option Owner) (ids : List Nat) : Memory :=
  { m with parent := fun i => if i ∈ ids then p else m.parent i }

/-- Sets the nodes that an owner lists. -/
def list (m : Memory) (o : Owner) (ids : List Nat) : Memory :=
  { m with children := fun q => if q = o then ids else m.children q }

/-- Puts nodes behind those that an owner lists. -/
def append (m : Memory) (o : Owner) (ids : List Nat) : Memory :=
  (m.link (some o) ids).list o (m.children o ++ ids)

/-- Puts nodes in the place of all that an owner lists. -/
def assign (m : Memory) (o : Owner) (ids : List Nat) : Memory :=
  ((m.link none (m.children o)).link (some o) ids).list o ids

/-- Takes away all nodes that a node lists. -/
def take (m : Memory) (i : Nat) : List Nat × Memory :=
  (m.children (some i), (m.list (some i) []).link none (m.children (some i)))

/-- Puts nodes in the place of a node, and answers whether it had one. Its parent link is gone
afterwards, even if the owner that it names does not list it, as one that has been let go lists
nothing. -/
def exchange (m : Memory) (i : Nat) (ids : List Nat) : Bool × Memory :=
  match m.parent i with
  | none => (false, m)
  | some o =>
    let m := m.link none [i]
    if i ∈ m.children o then
      (true, (m.link (some o) ids).list o (splice i ids (m.children o)))
    else (false, m)

/-- Writes nodes as a parser leaves them: each names what lists it. -/
def write (p : Option Owner) : Forest Node → Memory → Memory
  | .nil, m => m
  | .node a cs fs, m =>
    write p fs <| write (some (some a.1)) cs
      { m with
        content := fun i => if i = a.1 then a.2 else m.content i
        parent := fun i => if i = a.1 then p else m.parent i
        children := fun o => if o = some a.1 then cs.roots else m.children o }

/-- Puts markup into memory, as nodes with new numbers. Those at its top have no parent link. -/
def enter (m : Memory) (markup : Markup) : List Nat × Memory :=
  let (nodes, fresh) := markup.number m.fresh
  (nodes.roots, { write none nodes m with fresh })

/-- Nodes with all that is below them, as far as so many steps lead. -/
def forest (m : Memory) : Nat → List Nat → Forest Node
  | 0, _ => .nil
  | _ + 1, [] => .nil
  | n + 1, i :: is =>
    .node (i, m.content i) (m.forest n (m.children (some i))) (m.forest n is)

/-- What lies below an owner. There are no more nodes than numbers that have been given out. -/
def below (m : Memory) (o : Owner) : Forest Node := m.forest m.fresh (m.children o)

/-- Lets go of nodes that nothing lists any more. A node that is held stays with all below it; with
the others goes everything below them, down to nodes that are held, which list nothing then. -/
def letGo (m : Memory) (held : Nat → Bool) (ids : List Nat) : Memory :=
  let gone := (m.forest m.fresh (ids.filter fun i => !held i)).numbers
  { m with children := fun
      | none => m.children none
      | some i => if i ∈ gone then [] else m.children (some i) }

/-! ## Links and lists -/

/-- Lists and links agree. -/
structure Sound (m : Memory) : Prop where
  /-- A node that is listed names the owner that lists it. -/
  linked : ∀ o, ∀ i ∈ m.children o, m.parent i = some o
  once : ∀ o, (m.children o).Nodup
  bound : ∀ o, ∀ i ∈ m.children o, i < m.fresh
  /-- A node is older than those below it. -/
  ordered : ∀ p, ∀ i ∈ m.children (some p), p < i

/-- Nodes that nothing lists, each once. -/
structure Loose (m : Memory) (ids : List Nat) : Prop where
  once : ids.Nodup
  unlisted : ∀ i ∈ ids, ∀ o, i ∉ m.children o
  bound : ∀ i ∈ ids, i < m.fresh

section

variable {m m' : Memory} {o q : Owner} {i j : Nat} {ids l : List Nat}

theorem children_append (m : Memory) (o : Owner) (ids : List Nat) :
    (m.append o ids).children o = m.children o ++ ids :=
  if_pos rfl

theorem children_append_of_ne (m : Memory) (h : q ≠ o) (ids : List Nat) :
    (m.append o ids).children q = m.children q :=
  if_neg h

theorem children_assign (m : Memory) (o : Owner) (ids : List Nat) :
    (m.assign o ids).children o = ids :=
  if_pos rfl

theorem children_assign_of_ne (m : Memory) (h : q ≠ o) (ids : List Nat) :
    (m.assign o ids).children q = m.children q :=
  if_neg h

theorem children_take (m : Memory) (i : Nat) : (m.take i).2.children (some i) = [] :=
  if_pos rfl

theorem children_take_of_ne (m : Memory) (h : q ≠ some i) :
    (m.take i).2.children q = m.children q :=
  if_neg h

theorem Sound.empty : empty.Sound where
  linked _ _ h := absurd h List.not_mem_nil
  once _ := List.nodup_nil
  bound _ _ h := absurd h List.not_mem_nil
  ordered _ _ h := absurd h List.not_mem_nil

theorem loose_nil (m : Memory) : m.Loose [] where
  once := List.nodup_nil
  unlisted _ h := absurd h List.not_mem_nil
  bound _ h := absurd h List.not_mem_nil

/-- No two owners list the same node. -/
theorem Sound.owner_eq (h : m.Sound) (ho : i ∈ m.children o) (hq : i ∈ m.children q) : q = o :=
  Option.some.inj ((h.linked q i hq).symm.trans (h.linked o i ho))

/-- **One change of a list.** An owner gives up some nodes, whose links go, and lists nodes that it
keeps and nodes that nothing has listed. -/
theorem Sound.relist (h : m.Sound) {gone : List Nat} (hgone : ∀ i ∈ gone, i ∈ m.children o)
    (hids : m.Loose ids)
    (hyoung : ∀ p, o = some p → ∀ i ∈ ids, p < i) (hl : l.Nodup)
    (hmem : ∀ i ∈ l, i ∈ ids ∨ i ∈ m.children o ∧ i ∉ gone) :
    (((m.link none gone).link (some o) ids).list o l).Sound := by
  have hcases (q : Owner) (i : Nat)
      (hi : i ∈ (((m.link none gone).link (some o) ids).list o l).children q) :
      (q = o ∧ i ∈ ids) ∨ (i ∈ m.children q ∧ i ∉ gone ∧ i ∉ ids) := by
    unfold list at hi
    dsimp only at hi
    split at hi
    · next hq =>
      subst hq
      exact (hmem i hi).imp (fun hi => ⟨rfl, hi⟩) fun ⟨hc, hg⟩ =>
        ⟨hc, hg, fun hids' => hids.unlisted i hids' q hc⟩
    · next hq =>
      exact .inr ⟨hi, fun hg => hq (h.owner_eq (hgone i hg) hi),
        fun hids' => hids.unlisted i hids' q hi⟩
  refine ⟨fun q i hi => ?_, fun q => ?_, fun q i hi => ?_, fun p i hi => ?_⟩
  · show (if i ∈ ids then some o else if i ∈ gone then none else m.parent i) = some q
    rcases hcases q i hi with ⟨rfl, hnew⟩ | ⟨hc, hg, hold⟩
    · rw [if_pos hnew]
    · rw [if_neg hold, if_neg hg, h.linked q i hc]
  · show (if q = o then l else m.children q).Nodup
    split
    · exact hl
    · exact h.once q
  · rcases hcases q i hi with ⟨-, hi⟩ | ⟨hc, -⟩
    · exact hids.bound i hi
    · exact h.bound q i hc
  · rcases hcases (some p) i hi with ⟨hq, hi⟩ | ⟨hc, -⟩
    · exact hyoung p hq.symm i hi
    · exact h.ordered p i hc

theorem link_nil (m : Memory) (p : Option Owner) : m.link p [] = m := by
  simp [link]

theorem Sound.append (h : m.Sound) (hids : m.Loose ids)
    (hyoung : ∀ p, o = some p → ∀ i ∈ ids, p < i) : (m.append o ids).Sound := by
  have hnone : ∀ i ∈ ([] : List Nat), i ∈ m.children o := fun i hi => absurd hi List.not_mem_nil
  have hrelist := h.relist hnone hids hyoung
    (List.nodup_append.2 ⟨h.once o, hids.once, fun i hi j hj e => hids.unlisted j hj o (e ▸ hi)⟩)
    fun i hi => (List.mem_append.1 hi).symm.imp_right fun hi => ⟨hi, List.not_mem_nil⟩
  rwa [link_nil] at hrelist

theorem Sound.assign (h : m.Sound) (hids : m.Loose ids)
    (hyoung : ∀ p, o = some p → ∀ i ∈ ids, p < i) : (m.assign o ids).Sound :=
  h.relist (fun _ hi => hi) hids hyoung hids.once fun _ hi => .inl hi

theorem Sound.take (h : m.Sound) (i : Nat) : (m.take i).2.Sound := by
  have hall : ∀ j ∈ m.children (some i), j ∈ m.children (some i) := fun _ hj => hj
  have hrelist := h.relist hall (loose_nil m) (fun _ _ _ hj => absurd hj List.not_mem_nil)
    List.nodup_nil fun _ hj => absurd hj List.not_mem_nil
  rwa [link_nil] at hrelist

/-- The nodes that have been taken away are listed by nothing. -/
theorem Sound.loose_take (h : m.Sound) (i : Nat) : (m.take i).2.Loose (m.take i).1 := by
  refine ⟨h.once (some i), fun j hj o => ?_, h.bound (some i)⟩
  by_cases ho : o = some i
  · rw [ho, children_take]
    exact List.not_mem_nil
  · rw [children_take_of_ne m ho]
    exact fun hjo => ho (h.owner_eq hj hjo)

/-- Links of nodes that nothing lists are free. -/
theorem Sound.link (h : m.Sound) (p : Option Owner) (hids : ∀ i ∈ ids, ∀ o, i ∉ m.children o) :
    (m.link p ids).Sound := by
  refine ⟨fun o i hi => ?_, h.once, h.bound, h.ordered⟩
  show (if i ∈ ids then p else m.parent i) = some o
  rw [if_neg fun hmem => hids i hmem o hi]
  exact h.linked o i hi

/-- A node has a place if something lists it. -/
theorem Sound.exchange_cases (h : m.Sound) (i : Nat) (ids : List Nat) :
    (∃ o, i ∈ m.children o ∧ m.exchange i ids = (true,
      ((m.link none [i]).link (some o) ids).list o (splice i ids (m.children o)))) ∨
    ((∀ o, i ∉ m.children o) ∧
      ∃ gone, (∀ j ∈ gone, j = i) ∧ m.exchange i ids = (false, m.link none gone)) := by
  unfold exchange
  cases hp : m.parent i with
  | none =>
    refine .inr ⟨fun o ho => ?_, [], fun j hj => absurd hj List.not_mem_nil, ?_⟩
    · simp [h.linked o i ho] at hp
    · rw [link_nil]
  | some o =>
    by_cases hi : i ∈ m.children o
    · exact .inl ⟨o, hi, if_pos hi⟩
    · refine .inr ⟨fun q hq => hi ?_, [i], fun j hj => List.mem_singleton.1 hj, if_neg hi⟩
      rw [h.linked q i hq] at hp
      exact Option.some.inj hp ▸ hq

/-- Whether a node had a place or not, the lists are those with the new nodes in its place. -/
theorem Sound.exchange_children (h : m.Sound) (i : Nat) (ids : List Nat) (q : Owner) :
    (m.exchange i ids).2.children q = splice i ids (m.children q) := by
  rcases h.exchange_cases i ids with ⟨o, hi, he⟩ | ⟨hi, gone, -, he⟩
  · rw [he]
    show (if q = o then splice i ids (m.children o) else m.children q) = _
    split
    · next hq => rw [hq]
    · next hq => rw [splice_of_not_mem fun hiq => hq (h.owner_eq hi hiq)]
  · rw [he]
    exact (splice_of_not_mem (hi q)).symm

theorem Sound.exchange_frame (h : m.Sound) (i : Nat) (ids : List Nat) :
    (m.exchange i ids).2.content = m.content ∧ (m.exchange i ids).2.fresh = m.fresh := by
  rcases h.exchange_cases i ids with ⟨o, -, he⟩ | ⟨-, gone, -, he⟩ <;> rw [he] <;> exact ⟨rfl, rfl⟩

theorem Sound.exchange (h : m.Sound) (hids : m.Loose ids)
    (hyoung : ∀ p, i ∈ m.children (some p) → ∀ j ∈ ids, p < j) : (m.exchange i ids).2.Sound := by
  rcases h.exchange_cases i ids with ⟨o, hi, he⟩ | ⟨hi, gone, hgone, he⟩
  · rw [he]
    refine h.relist (fun j hj => List.mem_singleton.1 hj ▸ hi) hids
      (fun p hp => hyoung p (hp ▸ hi))
      (nodup_splice (h.once o) hids.once fun j hj => hids.unlisted j hj o) fun j hj => ?_
    exact (mem_of_mem_splice (h.once o) hj).imp_right fun ⟨hj, hne⟩ =>
      ⟨hj, fun hji => hne (List.mem_singleton.1 hji)⟩
  · rw [he]
    exact h.link none fun j hj => hgone j hj ▸ hi

/-- New nodes, with those that a node lists, in the place of that node. -/
theorem Sound.exchange_taken (h : m.Sound) (hi : i ∈ m.children o) (hids : m.Loose ids)
    (hyoung : ∀ j ∈ ids, i < j) {r : Bool × Memory}
    (hr : r = (m.take i).2.exchange i (ids ++ (m.take i).1)) :
    r.1 = true ∧ r.2.Sound ∧ r.2.content = m.content ∧ r.2.fresh = m.fresh ∧
      ∀ q, q ≠ some i → r.2.children q = splice i (ids ++ m.children (some i)) (m.children q) := by
  have hsound := h.take i
  have hloose := h.loose_take i
  have hlisted (q : Owner) (j : Nat) (hj : j ∈ (m.take i).2.children q) : j ∈ m.children q := by
    by_cases hq : q = some i
    · rw [hq, children_take] at hj
      cases hj
    · exact children_take_of_ne m hq ▸ hj
  have hboth : (m.take i).2.Loose (ids ++ (m.take i).1) := by
    refine ⟨List.nodup_append.2 ⟨hids.once, hloose.once, fun j hj j' hj' e => ?_⟩,
      List.forall_mem_append.2 ⟨fun j hj q hjq => hids.unlisted j hj q (hlisted q j hjq),
        hloose.unlisted⟩, List.forall_mem_append.2 ⟨hids.bound, hloose.bound⟩⟩
    exact hids.unlisted j hj (some i) (e ▸ hj')
  have hplace : i ∈ (m.take i).2.children o := by
    rwa [children_take_of_ne m fun e => Nat.lt_irrefl i (h.ordered i i (e ▸ hi))]
  obtain ⟨hcontent, hfresh⟩ := hsound.exchange_frame i (ids ++ (m.take i).1)
  rw [← hr] at hcontent hfresh
  refine ⟨?_, ?_, hcontent, hfresh, fun q hq => ?_⟩
  · rcases hsound.exchange_cases i (ids ++ (m.take i).1) with ⟨q, -, e⟩ | ⟨hno, -⟩
    · rw [hr, e]
    · exact absurd hplace (hno o)
  · rw [hr]
    refine hsound.exchange hboth fun p hp j hj => ?_
    have hpi := hsound.ordered p i hp
    rcases List.mem_append.1 hj with hj | hj
    · exact Nat.lt_trans hpi (hyoung j hj)
    · exact Nat.lt_trans hpi (h.ordered i j hj)
  · rw [hr, hsound.exchange_children, children_take_of_ne m hq]
    rfl

/-- Lists that are gone break nothing. -/
theorem Sound.letGo (h : m.Sound) (held : Nat → Bool) (ids : List Nat) :
    (m.letGo held ids).Sound := by
  have hsub (o : Owner) : (m.letGo held ids).children o = m.children o ∨
      (m.letGo held ids).children o = [] := by
    cases o with
    | none => exact .inl rfl
    | some i =>
      show (if _ then [] else m.children (some i)) = _ ∨ (if _ then [] else m.children (some i)) = _
      split
      · exact .inr rfl
      · exact .inl rfl
  have hmem (o : Owner) (i : Nat) (hi : i ∈ (m.letGo held ids).children o) : i ∈ m.children o := by
    rcases hsub o with ho | ho
    · exact ho ▸ hi
    · rw [ho] at hi
      cases hi
  refine ⟨fun o i hi => h.linked o i (hmem o i hi), fun o => ?_,
    fun o i hi => h.bound o i (hmem o i hi), fun p i hi => h.ordered p i (hmem _ i hi)⟩
  rcases hsub o with ho | ho
  · exact ho ▸ h.once o
  · exact ho ▸ List.nodup_nil

end

end Memory

end StaticSite
