import StaticSite.Forest

/-!
Searching and changing the nodes of a forest.

* `First`: the place of the first node with a property, as a relation between a forest and what it
  is with other trees in that place, so that proofs may go along the way to the node;
* `exists_first`, `first_of_replaceFirst?`: what a search and a change say about it;
* `First.key`: where keys are used once, the first node with a property is the one with its key;
* `First.countP`, `First.all`: the labels after a change;
* `All`: a property of all nodes with their children;
* `labels_number`, `map_number`: numbers are used once, in document order.
-/

namespace StaticSite.Forest

universe u v w

variable {α : Type u} {β : Type v} {κ : Type w}

/-! ## The first node -/

/-- The first node with a property is `a` with the children `cs`; with `new` in its place the first
forest becomes the second one. -/
inductive First (p : α → Bool) (a : α) (cs new : Forest α) : Forest α → Forest α → Prop
  | here (fs : Forest α) : p a = true → First p a cs new (node a cs fs) (new ++ fs)
  | inside (b : α) (fs : Forest α) {bs bs' : Forest α} :
      p b = false → First p a cs new bs bs' → First p a cs new (node b bs fs) (node b bs' fs)
  | behind (b : α) {bs fs fs' : Forest α} :
      p b = false → bs.find? p = none → First p a cs new fs fs' →
        First p a cs new (node b bs fs) (node b bs fs')

theorem find?_eq_none_iff {p : α → Bool} {f : Forest α} :
    f.find? p = none ↔ ∀ a ∈ f.labels, p a = false := by
  induction f with
  | nil => simp [find?, labels]
  | node b bs fs ihb ihf =>
    simp only [find?, labels, List.forall_mem_cons, List.forall_mem_append, ← ihb, ← ihf]
    cases p b with
    | true => simp
    | false => cases bs.find? p <;> simp

theorem replaceFirst?_eq_none {p : α → Bool} {f : Forest α} (h : f.find? p = none)
    (g : Forest α → Forest α) : f.replaceFirst? p g = none := by
  induction f with
  | nil => rfl
  | node b bs fs ihb ihf =>
    simp only [find?_eq_none_iff, labels, List.forall_mem_cons, List.forall_mem_append] at h ihb ihf
    simp [replaceFirst?, h.1, ihb h.2.1, ihf h.2.2]

theorem changeFirst?_eq_none {p : α → Bool} {f : Forest α} (h : f.find? p = none)
    (g : Forest α → Forest α) : f.changeFirst? p g = none := by
  induction f with
  | nil => rfl
  | node b bs fs ihb ihf =>
    simp only [find?_eq_none_iff, labels, List.forall_mem_cons, List.forall_mem_append] at h ihb ihf
    simp [changeFirst?, h.1, ihb h.2.1, ihf h.2.2]

/-- A search finds the place. -/
theorem exists_first {p : α → Bool} {f : Forest α} {a : α} {cs : Forest α}
    (h : f.find? p = some (a, cs)) (new : Forest α) : ∃ f', First p a cs new f f' := by
  induction f with
  | nil => cases h
  | node b bs fs ihb ihf =>
    unfold find? at h
    cases hb : p b with
    | true =>
      rw [if_pos hb] at h
      cases h
      exact ⟨_, .here fs hb⟩
    | false =>
      rw [if_neg (by simp [hb])] at h
      cases hc : find? p bs with
      | some r =>
        rw [hc] at h
        cases h
        obtain ⟨bs', hbs⟩ := ihb hc
        exact ⟨_, .inside b fs hb hbs⟩
      | none =>
        rw [hc] at h
        obtain ⟨fs', hfs⟩ := ihf h
        exact ⟨_, .behind b hb hc hfs⟩

namespace First

variable {p : α → Bool} {g : Forest α → Forest α} {f f' new : Forest α} {a : α} {cs : Forest α}

theorem mem (h : First p a cs new f f') : p a = true ∧ a ∈ f.labels := by
  induction h with
  | here fs ha => exact ⟨ha, List.mem_cons_self⟩
  | inside b fs _ _ ih =>
    exact ⟨ih.1, List.mem_cons_of_mem _ (List.mem_append_left _ ih.2)⟩
  | behind b _ _ _ ih =>
    exact ⟨ih.1, List.mem_cons_of_mem _ (List.mem_append_right _ ih.2)⟩

theorem find?_eq (h : First p a cs new f f') : f.find? p = some (a, cs) := by
  induction h with
  | here fs ha => simp [find?, ha]
  | inside b fs hb _ ih => simp [find?, hb, ih]
  | behind b hb hbs _ ih => simp [find?, hb, hbs, ih]

theorem replaceFirst?_eq (h : First p a cs (g cs) f f') : f.replaceFirst? p g = some f' := by
  induction h with
  | here fs ha => simp [replaceFirst?, ha]
  | inside b fs hb _ ih => simp [replaceFirst?, hb, ih]
  | behind b hb hbs _ ih => simp [replaceFirst?, hb, replaceFirst?_eq_none hbs, ih]

/-- To change the children of a node is to put a node with other children in its place. -/
theorem changeFirst?_eq (h : First p a cs (tree a (g cs)) f f') : f.changeFirst? p g = some f' := by
  induction h with
  | here fs ha => simp [changeFirst?, ha, tree]
  | inside b fs hb _ ih => simp [changeFirst?, hb, ih]
  | behind b hb hbs _ ih => simp [changeFirst?, hb, changeFirst?_eq_none hbs, ih]

/-- How many labels of some kind there are after a change. -/
theorem countP (h : First p a cs new f f') (q : α → Bool) :
    f'.labels.countP q + (tree a cs).labels.countP q =
      f.labels.countP q + new.labels.countP q := by
  induction h with
  | here fs ha =>
    simp only [tree, labels, labels_append, List.countP_append, List.countP_cons, List.countP_nil]
    omega
  | inside b fs _ _ ih =>
    simp only [tree, labels, List.countP_append, List.countP_cons] at ih ⊢
    omega
  | behind b _ _ _ ih =>
    simp only [tree, labels, List.countP_append, List.countP_cons] at ih ⊢
    omega

theorem append (h : First p a cs new f f') (r : Forest α) : First p a cs new (f ++ r) (f' ++ r) := by
  induction h with
  | here fs ha =>
    rw [append_assoc]
    exact .here (fs ++ r) ha
  | inside b fs hb h _ => exact .inside b (fs ++ r) hb h
  | behind b hb hbs _ ih => exact .behind b hb hbs ih

/-- What gives way is part of the forest. -/
theorem labels_sublist (h : First p a cs new f f') : (tree a cs).labels.Sublist f.labels := by
  induction h with
  | here fs _ =>
    simp only [tree, labels, List.append_nil]
    exact (List.sublist_append_left _ _).cons_cons _
  | inside b fs _ _ ih => exact (ih.trans (List.sublist_append_left _ _)).cons _
  | behind b _ _ _ ih => exact (ih.trans (List.sublist_append_right _ _)).cons _

/-- A label after a change is one from before or a new one. -/
theorem mem_labels_or {b : α} (h : First p a cs new f f') (hb : b ∈ f'.labels) :
    b ∈ f.labels ∨ b ∈ new.labels := by
  induction h with
  | here fs _ =>
    simp only [labels_append, labels, List.mem_cons, List.mem_append] at hb ⊢
    exact hb.symm.imp_left fun hb => .inr (.inr hb)
  | inside c fs _ _ ih =>
    simp only [labels, List.mem_cons, List.mem_append] at hb ⊢
    rcases hb with rfl | hb | hb
    · exact .inl (.inl rfl)
    · exact (ih hb).imp_left fun hb => .inr (.inl hb)
    · exact .inl (.inr (.inr hb))
  | behind c _ _ _ ih =>
    simp only [labels, List.mem_cons, List.mem_append] at hb ⊢
    rcases hb with rfl | hb | hb
    · exact .inl (.inl rfl)
    · exact .inl (.inr (.inl hb))
    · exact (ih hb).imp_left fun hb => .inr (.inr hb)

/-- Where no node but the new ones has a property, and those that a node held stay in its place,
the new nodes are the only ones that have it. -/
theorem filter_labels {q : α → Bool} (h : First p a cs (new ++ cs) f f')
    (hq : ∀ b ∈ f.labels, q b = false) : f'.labels.filter q = new.labels.filter q := by
  have hnone (g : Forest α) (hg : ∀ b ∈ g.labels, q b = false) : g.labels.filter q = [] := by
    simpa only [List.filter_eq_nil_iff, Bool.not_eq_true] using hg
  induction h with
  | here fs _ =>
    simp only [labels, List.forall_mem_cons, List.forall_mem_append] at hq
    simp only [labels_append, List.filter_append, hnone cs hq.2.1, hnone fs hq.2.2,
      List.append_nil]
  | inside b fs _ _ ih =>
    simp only [labels, List.forall_mem_cons, List.forall_mem_append] at hq
    simp only [labels, List.filter_cons, hq.1, Bool.false_eq_true, if_false, List.filter_append,
      ih hq.2.1, hnone fs hq.2.2, List.append_nil]
  | @behind b bs fs fs' _ _ _ ih =>
    simp only [labels, List.forall_mem_cons, List.forall_mem_append] at hq
    simp only [labels, List.filter_cons, hq.1, Bool.false_eq_true, if_false, List.filter_append,
      hnone bs hq.2.1, ih hq.2.2, List.nil_append]

end First

theorem find?_append (p : α → Bool) (f g : Forest α) :
    (f ++ g).find? p = (f.find? p).or (g.find? p) := by
  induction f with
  | nil => rfl
  | node b bs fs _ ih =>
    simp only [node_append, find?, ih]
    split
    · rfl
    · cases bs.find? p <;> rfl

theorem mem_labels_of_find? {p : α → Bool} {f : Forest α} {a : α} {cs : Forest α}
    (h : f.find? p = some (a, cs)) : p a = true ∧ a ∈ f.labels := by
  obtain ⟨f', hfirst⟩ := exists_first h .nil
  exact hfirst.mem

/-- A change is one at the place. -/
theorem first_of_replaceFirst? {p : α → Bool} {g : Forest α → Forest α} {f f' : Forest α}
    (h : f.replaceFirst? p g = some f') : ∃ a cs, First p a cs (g cs) f f' := by
  cases hf : f.find? p with
  | none => simp [replaceFirst?_eq_none hf] at h
  | some r =>
    obtain ⟨f'', hfirst⟩ := exists_first hf (g r.2)
    rw [hfirst.replaceFirst?_eq] at h
    exact ⟨r.1, r.2, Option.some.inj h ▸ hfirst⟩

theorem first_of_changeFirst? {p : α → Bool} {g : Forest α → Forest α} {f f' : Forest α}
    (h : f.changeFirst? p g = some f') : ∃ a cs, First p a cs (tree a (g cs)) f f' := by
  cases hf : f.find? p with
  | none => simp [changeFirst?_eq_none hf] at h
  | some r =>
    obtain ⟨f'', hfirst⟩ := exists_first hf (tree r.1 (g r.2))
    rw [hfirst.changeFirst?_eq] at h
    exact ⟨r.1, r.2, Option.some.inj h ▸ hfirst⟩

/-- A label after a change below another node is one from before or a new one. -/
theorem mem_labels_of_replaceBelow? {p : α → Bool} {new f f' : Forest α} {b : α}
    (h : f.replaceBelow? p (fun _ => new) = some f') (hb : b ∈ f'.labels) :
    b ∈ f.labels ∨ b ∈ new.labels := by
  induction f generalizing f' with
  | nil => cases h
  | node c cs fs _ ih =>
    unfold replaceBelow? at h
    cases hcs : cs.replaceFirst? p fun _ => new with
    | some cs' =>
      rw [hcs] at h
      cases h
      obtain ⟨a, as, hfirst⟩ := first_of_replaceFirst? hcs
      simp only [labels, List.mem_cons, List.mem_append] at hb ⊢
      rcases hb with rfl | hb | hb
      · exact .inl (.inl rfl)
      · exact (hfirst.mem_labels_or hb).imp_left fun hb => .inr (.inl hb)
      · exact .inl (.inr (.inr hb))
    | none =>
      rw [hcs] at h
      obtain ⟨fs', hfs, rfl⟩ := Option.map_eq_some_iff.1 h
      simp only [labels, List.mem_cons, List.mem_append] at hb ⊢
      rcases hb with rfl | hb | hb
      · exact .inl (.inl rfl)
      · exact .inl (.inr (.inl hb))
      · exact (ih hfs hb).imp_left fun hb => .inr (.inr hb)

/-- There is something to change where there is something to find. -/
theorem replaceFirst?_eq_none_iff {p : α → Bool} {g : Forest α → Forest α} {f : Forest α} :
    f.replaceFirst? p g = none ↔ f.find? p = none := by
  refine ⟨fun h => ?_, fun h => replaceFirst?_eq_none h g⟩
  cases hf : f.find? p with
  | none => rfl
  | some r =>
    obtain ⟨f', hfirst⟩ := exists_first hf (g r.2)
    simp [hfirst.replaceFirst?_eq] at h

/-! ## Labels written in another way -/

theorem map_append (h : α → β) (f g : Forest α) : (f ++ g).map h = f.map h ++ g.map h := by
  induction f with
  | nil => rfl
  | node a cs fs _ ih => simp only [node_append, map, ih]

theorem map_map {γ : Type w} (h : α → β) (k : β → γ) (f : Forest α) :
    (f.map h).map k = f.map fun a => k (h a) := by
  induction f with
  | nil => rfl
  | node a cs fs ihc ihf => simp only [map, ihc, ihf]

theorem map_id (f : Forest α) : (f.map fun a => a) = f := by
  induction f with
  | nil => rfl
  | node a cs fs ihc ihf => simp only [map, ihc, ihf]

theorem labels_map (h : α → β) (f : Forest α) : (f.map h).labels = f.labels.map h := by
  induction f with
  | nil => rfl
  | node a cs fs ihc ihf => simp [map, labels, ihc, ihf]

theorem find?_map (h : α → β) (p : β → Bool) (f : Forest α) :
    (f.map h).find? p = (f.find? fun a => p (h a)).map fun r => (h r.1, r.2.map h) := by
  induction f with
  | nil => rfl
  | node b bs fs ihb ihf =>
    simp only [map, find?, ihb, ihf]
    split
    · rfl
    · cases find? (fun a => p (h a)) bs <;> rfl

theorem First.map {h : α → β} {p : β → Bool} {a : α} {cs new f f' : Forest α}
    (hf : First (fun x => p (h x)) a cs new f f') :
    First p (h a) (cs.map h) (new.map h) (f.map h) (f'.map h) := by
  induction hf with
  | here fs ha =>
    rw [map_append]
    exact .here (fs.map h) ha
  | inside b fs hb _ ih => exact .inside (h b) (fs.map h) hb ih
  | behind b hb hbs _ ih =>
    refine .behind (h b) hb ?_ ih
    rw [find?_map, hbs]
    rfl

/-! ## Keys -/

/-- Where keys are used once, the first node with a property is the first one with its key. -/
theorem First.key [BEq κ] [LawfulBEq κ] (key : α → κ) {p : α → Bool} {a : α}
    {cs new f f' : Forest α} (hn : (f.labels.map key).Nodup) (h : First p a cs new f f') :
    First (fun x => key x == key a) a cs new f f' := by
  induction h with
  | here fs ha => exact .here fs BEq.rfl
  | inside b fs hb h ih =>
    simp only [labels, List.map_cons, List.map_append, List.nodup_cons, List.nodup_append,
      List.mem_append, not_or] at hn
    have hmem := List.mem_map_of_mem (f := key) h.mem.2
    exact .inside b fs (beq_eq_false_iff_ne.2 fun e => hn.1.1 (e ▸ hmem)) (ih hn.2.1)
  | behind b hb hbs h ih =>
    simp only [labels, List.map_cons, List.map_append, List.nodup_cons, List.nodup_append,
      List.mem_append, not_or] at hn
    have hmem := List.mem_map_of_mem (f := key) h.mem.2
    refine .behind b (beq_eq_false_iff_ne.2 fun e => hn.1.2 (e ▸ hmem)) ?_ (ih hn.2.2.1)
    rw [find?_eq_none_iff]
    intro x hx
    exact beq_eq_false_iff_ne.2 fun e => hn.2.2.2 _ (List.mem_map_of_mem hx) _ hmem e

/-! ## All nodes -/

/-- A property of every node with its children. -/
def All (P : α → Forest α → Prop) : Forest α → Prop
  | nil => True
  | node a cs fs => P a cs ∧ All P cs ∧ All P fs

instance All.decide (P : α → Forest α → Prop) [∀ a cs, Decidable (P a cs)] :
    (f : Forest α) → Decidable (f.All P)
  | nil => .isTrue trivial
  | node a cs fs =>
    have := All.decide P cs
    have := All.decide P fs
    inferInstanceAs (Decidable (P a cs ∧ All P cs ∧ All P fs))

section

variable {P : α → Forest α → Prop}

theorem all_append {f g : Forest α} : (f ++ g).All P ↔ f.All P ∧ g.All P := by
  induction f with
  | nil => simp [All]
  | node a cs fs _ ih => simp [All, ih, and_assoc]

theorem all_map {P : β → Forest β → Prop} (h : α → β) (f : Forest α) :
    (f.map h).All P ↔ f.All fun a cs => P (h a) (cs.map h) := by
  induction f with
  | nil => simp [All, map]
  | node a cs fs ihc ihf => simp [All, map, ihc, ihf]

theorem All.of_labels {f : Forest α} (h : ∀ a ∈ f.labels, ∀ cs, P a cs) : f.All P := by
  induction f with
  | nil => trivial
  | node a cs fs ihc ihf =>
    simp only [labels, List.mem_cons, List.mem_append] at h
    exact ⟨h a (.inl rfl) cs, ihc fun a ha => h a (.inr (.inl ha)),
      ihf fun a ha => h a (.inr (.inr ha))⟩

theorem First.all {p : α → Bool} {a : α} {cs new f f' : Forest α} (h : First p a cs new f f')
    (hf : f.All P) : P a cs ∧ cs.All P := by
  induction h with
  | here fs ha => exact ⟨hf.1, hf.2.1⟩
  | inside b fs _ _ ih => exact ih hf.2.1
  | behind b _ _ _ ih => exact ih hf.2.2

/-- A change keeps what holds of all nodes, if it holds of those above whatever they hold. -/
theorem First.all_right {p : α → Bool} {a : α} {cs new f f' : Forest α}
    (h : First p a cs new f f') (hf : f.All P) (hp : ∀ b ∈ f.labels, p b = false → ∀ cs, P b cs)
    (hnew : new.All P) : f'.All P := by
  induction h with
  | here fs ha => exact all_append.2 ⟨hnew, hf.2.2⟩
  | inside b fs hb _ ih =>
    simp only [labels, List.forall_mem_cons, List.forall_mem_append] at hp
    exact ⟨hp.1 hb _, ih hf.2.1 hp.2.1, hf.2.2⟩
  | behind b hb _ _ ih =>
    simp only [labels, List.forall_mem_cons, List.forall_mem_append] at hp
    exact ⟨hf.1, hf.2.1, ih hf.2.2 hp.2.2⟩

end

/-! ## Copies -/

/-- A forest several times over. -/
def replicate (f : Forest α) : Nat → Forest α
  | 0 => nil
  | n + 1 => f ++ replicate f n

theorem all_replicate {P : α → Forest α → Prop} {f : Forest α} (h : f.All P) (n : Nat) :
    (f.replicate n).All P := by
  induction n with
  | zero => trivial
  | succ n ih => exact all_append.2 ⟨h, ih⟩

/-! ## Numbers -/

theorem number_spec (f : Forest α) (n : Nat) :
    (f.number n).2 = n + f.labels.length ∧
      (f.number n).1.labels.map Prod.fst = List.range' n f.labels.length ∧
      (f.number n).1.map Prod.snd = f := by
  induction f generalizing n with
  | nil => exact ⟨rfl, rfl, rfl⟩
  | node a cs fs ihc ihf =>
    obtain ⟨hc, hcl, hcm⟩ := ihc (n + 1)
    obtain ⟨hf, hfl, hfm⟩ := ihf (n + 1 + cs.labels.length)
    refine ⟨?_, ?_, ?_⟩
    · simp only [number, labels, List.length_cons, List.length_append, hc, hf]
      omega
    · simp only [number, labels, List.map_cons, List.map_append, hcl, hfl, hc, List.length_cons,
        List.length_append, List.range'_succ, List.range'_append_1]
    · simp only [number, map, hc, hcm, hfm]

/-- Numbers are taken off again. -/
theorem map_number (f : Forest α) (n : Nat) : (f.number n).1.map Prod.snd = f := (number_spec f n).2.2

/-- Every number from `n` on is used once. -/
theorem labels_number (f : Forest α) (n : Nat) :
    (f.number n).1.labels.map Prod.fst = List.range' n f.labels.length := (number_spec f n).2.1

theorem nodup_number (f : Forest α) (n : Nat) : ((f.number n).1.labels.map Prod.fst).Nodup := by
  rw [labels_number]
  exact List.nodup_range'

theorem bounds_of_mem_number {f : Forest α} {n : Nat} {a : Nat × α}
    (h : a ∈ (f.number n).1.labels) : n ≤ a.1 ∧ a.1 < (f.number n).2 := by
  have hmem : a.1 ∈ (f.number n).1.labels.map Prod.fst := List.mem_map_of_mem h
  rw [labels_number, List.mem_range'_1] at hmem
  rw [(number_spec f n).1]
  exact hmem

theorem le_number (f : Forest α) (n : Nat) : n ≤ (f.number n).2 := by
  rw [(number_spec f n).1]
  omega

end StaticSite.Forest
