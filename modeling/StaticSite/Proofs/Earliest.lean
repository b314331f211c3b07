import Mathlib.Data.List.Nodup
import StaticSite.Proofs.Consumed
import StaticSite.Proofs.Reading

/-!
The earliest records that fields can be read of.

A field that is read of a list does not say of which record. But the records follow each other, and
none of them gives one field twice. Proved here, for every list of fields:

* `Allows.next`, `Allows.cons`: what one read of a field leaves of the reads that a cursor allows;
* `allows_readFields`, `readFields_le`: so fields are read as the cursor allows, and of no later
  record than in any other way that it allows, by induction on the fields;
* `filter_callAll`: calls on other lists do not come into this, by induction on the calls;
* `round_readFields`, `forall_round_iff`: in rounds through some fields each round reads the record
  of its number exactly if the fields differ, by induction on the rounds;
* `fields_read_earliest`: so the records of a list that has been started are the earliest there can
  be, and rounds keep to their records exactly if they read no field twice.
-/

namespace StaticSite.Cursors

/-! ## Fields and records -/

/-- Fields in the order in which they are read, each with the index of its record. -/
abbrev Reads := List (String × Nat)

/-- The records follow each other, and none gives a field twice. -/
structure Reads.Orderly (reads : Reads) : Prop where
  follow : reads.Pairwise fun r s => r.2 ≤ s.2
  once : reads.Nodup

/-- What is read in round `i`, where so many fields are read in each round. -/
def Reads.round (reads : Reads) (width i : Nat) : Reads := (reads.drop (i * width)).take width

variable {reads rest : Reads} {c : Cursor} {t : Cursors} {f xs : String} {fs gs : List String}
  {i n : Nat}

theorem Reads.orderly_cons :
    Orderly ((f, i) :: rest) ↔ (∀ r ∈ rest, i ≤ r.2) ∧ (f, i) ∉ rest ∧ rest.Orderly := by
  constructor
  · rintro ⟨hfollow, honce⟩
    obtain ⟨hle, hfollow⟩ := List.pairwise_cons.1 hfollow
    obtain ⟨hnot, honce⟩ := List.nodup_cons.1 honce
    exact ⟨hle, hnot, hfollow, honce⟩
  · rintro ⟨hle, hnot, hfollow, honce⟩
    exact ⟨List.pairwise_cons.2 ⟨hle, hfollow⟩, List.nodup_cons.2 ⟨hnot, honce⟩⟩

/-- Fields that are read first, and all of one record, differ. -/
theorem Reads.Orderly.nodup_take (h : reads.Orderly) (hround : ∀ r ∈ reads.take n, r.2 = i) :
    ((reads.map Prod.fst).take n).Nodup := by
  rw [← List.map_take]
  refine List.Nodup.map_on (fun r hr s hs hfield => ?_) (h.once.sublist (List.take_sublist n reads))
  exact Prod.ext hfield ((hround r hr).trans (hround s hs).symm)

/-! ## The reads that a cursor allows -/

/-- No read goes back behind the record of a cursor, or asks this record for a field once more. -/
structure Allows (c : Cursor) (reads : Reads) : Prop where
  orderly : reads.Orderly
  le : ∀ r ∈ reads, c.index ≤ r.2
  fresh : ∀ f ∈ c.consumed, (f, c.index) ∉ reads

theorem allows_start_iff : Allows ⟨0, []⟩ reads ↔ reads.Orderly :=
  ⟨Allows.orderly, fun h => ⟨h, fun _ _ => Nat.zero_le _, nofun⟩⟩

theorem mem_consumed_readField (c : Cursor) (f : String) : f ∈ (readField c f).consumed := by
  unfold readField
  split
  · exact List.mem_singleton_self f
  · exact List.mem_cons_self

theorem index_readField_le (c : Cursor) (f : String) : (readField c f).index ≤ c.index + 1 := by
  unfold readField
  split
  · exact Nat.le_refl _
  · exact Nat.le_succ _

/-- **The rule is lazy.** Wherever a field can be read, the cursor gets no further, and what can be
read after it there can still be read: a second read of the field at the record that the cursor gets
to would be one of the record at `i`. -/
theorem Allows.next (h : Allows c ((f, i) :: rest)) :
    (readField c f).index ≤ i ∧ Allows (readField c f) rest := by
  obtain ⟨hle, hnot, horderly⟩ := Reads.orderly_cons.1 h.orderly
  have hi : c.index ≤ i := h.le _ List.mem_cons_self
  have hagain {j : Nat} (hj : j ≤ i) : (f, j) ∉ rest := fun hmem =>
    hnot (Nat.le_antisymm hj (hle _ hmem) ▸ hmem)
  unfold readField
  split
  · next hf =>
    have hne : i ≠ c.index := by
      rintro rfl
      exact h.fresh f hf List.mem_cons_self
    have hlt : c.index + 1 ≤ i := by omega
    refine ⟨hlt, horderly, fun r hr => Nat.le_trans hlt (hle r hr), fun g hg => ?_⟩
    obtain rfl := List.mem_singleton.1 hg
    exact hagain hlt
  · refine ⟨hi, horderly, fun r hr => Nat.le_trans hi (hle r hr), fun g hg => ?_⟩
    rcases List.mem_cons.1 hg with rfl | hg
    · exact hagain hi
    · exact fun hmem => h.fresh g hg (List.mem_cons_of_mem _ hmem)

/-- **The rule is right.** A field can be read where the cursor gets to, before all that can be read
from there on. If the cursor has been moved, this is all read of a later record. -/
theorem Allows.cons (h : Allows (readField c f) rest) :
    Allows c ((f, (readField c f).index) :: rest) := by
  have hindex := Scope.le_index_readField c f
  refine ⟨?_, ?_, fun g hg hmem => ?_⟩
  · exact Reads.orderly_cons.2 ⟨h.le, h.fresh f (mem_consumed_readField c f), h.orderly⟩
  · rintro r (_ | ⟨_, hr⟩)
    · exact hindex
    · exact Nat.le_trans hindex (h.le r hr)
  · by_cases hf : f ∈ c.consumed
    · have hlater : (readField c f).index = c.index + 1 := by rw [readField, if_pos hf]
      rcases List.mem_cons.1 hmem with heq | hmem
      · have hback : c.index = (readField c f).index := congrArg Prod.snd heq
        omega
      · have hback := h.le _ hmem
        dsimp only at hback
        omega
    · rw [readField, if_neg hf] at hmem h
      rcases List.mem_cons.1 hmem with heq | hmem
      · obtain rfl : g = f := congrArg Prod.fst heq
        exact hf hg
      · exact h.fresh g (List.mem_cons_of_mem f hg) hmem

/-! ## Fields read one after another -/

/-- Reads fields one after another, from a cursor on. -/
def readFields (c : Cursor) : List String → Reads
  | [] => []
  | f :: rest => (f, (readField c f).index) :: readFields (readField c f) rest

theorem map_fst_readFields (c : Cursor) (fs : List String) :
    (readFields c fs).map Prod.fst = fs := by
  induction fs generalizing c with
  | nil => rfl
  | cons f fs ih => rw [readFields, List.map_cons, ih]

theorem length_readFields (c : Cursor) (fs : List String) :
    (readFields c fs).length = fs.length := by
  rw [← List.length_map Prod.fst, map_fst_readFields]

theorem readFields_append (c : Cursor) (fs gs : List String) :
    readFields c (fs ++ gs) = readFields c fs ++ readFields (fs.foldl readField c) gs := by
  induction fs generalizing c with
  | nil => rfl
  | cons f fs ih =>
    rw [List.cons_append, readFields, readFields, ih, List.cons_append, List.foldl_cons]

theorem allows_readFields (c : Cursor) (fs : List String) : Allows c (readFields c fs) := by
  induction fs generalizing c with
  | nil => exact ⟨⟨.nil, .nil⟩, nofun, fun _ _ => List.not_mem_nil⟩
  | cons f fs ih => exact (ih (readField c f)).cons

theorem readFields_le (h : Allows c reads) :
    List.Forall₂ (fun r s => r.2 ≤ s.2) (readFields c (reads.map Prod.fst)) reads := by
  induction reads generalizing c with
  | nil => exact .nil
  | cons r rest ih =>
    obtain ⟨hle, hrest⟩ := h.next
    exact .cons hle (ih hrest)

/-- The next record is never passed over. -/
theorem isChain_readFields (c : Cursor) (fs : List String) :
    (readFields c fs).IsChain fun r s => s.2 ≤ r.2 + 1 := by
  induction fs generalizing c with
  | nil => exact .nil
  | cons f fs ih =>
    cases fs with
    | nil => exact .singleton _
    | cons g fs =>
      have hstep := index_readField_le (readField c f) g
      exact .cons_cons hstep (ih (readField c f))

/-! ## Calls on other lists -/

theorem nextField_eq (hc : t.get? xs = some c) (f : String) :
    t.nextField xs f = (some (readField c f).index, t.set xs (readField c f)) := by
  rw [nextField, hc]

/-- **Calls.** Where the calls on a list read fields of it, they are answered as if no other calls
were made. -/
theorem filter_callAll (hc : t.get? xs = some c) {calls : List Call}
    (hcalls : calls.filter (·.list == xs) = fs.map (.field xs)) :
    (t.callAll calls).1.filter (·.1.list == xs) =
      (readFields c fs).map fun r => (.field xs r.1, some r.2) := by
  induction calls generalizing t c fs with
  | nil =>
    obtain rfl := List.map_eq_nil_iff.1 hcalls.symm
    rfl
  | cons k calls ih =>
    by_cases hk : k.list = xs
    · rw [List.filter_cons_of_pos (by simpa using hk)] at hcalls
      obtain ⟨f, fs, rfl, rfl, hrest⟩ := List.map_eq_cons_iff.1 hcalls.symm
      have hcall : t.call (.field xs f) = _ := nextField_eq hc f
      have hmoved : (t.set xs (readField c f)).get? xs = some (readField c f) := by
        rw [get?_set, if_pos rfl]
      rw [callAll, hcall]
      dsimp only
      rw [List.filter_cons_of_pos (by simp [Call.list]), ih hmoved hrest.symm]
      rfl
    · rw [List.filter_cons_of_neg (by simpa using hk)] at hcalls
      rw [callAll]
      dsimp only
      rw [List.filter_cons_of_neg (by simpa using hk)]
      exact ih ((get?_call_of_ne hk).trans hc) hcalls

/-! ## Rounds -/

/-- Fields that a record has not given yet are read of it. -/
theorem readFields_fresh {done : List String} (hnodup : gs.Nodup) (hdone : ∀ g ∈ gs, g ∉ done) :
    readFields ⟨i, done⟩ gs = gs.map (·, i) ∧
      gs.foldl readField ⟨i, done⟩ = ⟨i, gs.reverse ++ done⟩ := by
  induction gs generalizing done with
  | nil => exact ⟨rfl, rfl⟩
  | cons g gs ih =>
    obtain ⟨hg, hnodup⟩ := List.nodup_cons.1 hnodup
    have hread : readField ⟨i, done⟩ g = ⟨i, g :: done⟩ := if_neg (hdone g List.mem_cons_self)
    have hdone' : ∀ g' ∈ gs, g' ∉ g :: done := by
      intro g' hg' hmem
      rcases List.mem_cons.1 hmem with rfl | hmem
      · exact hg hg'
      · exact hdone g' (List.mem_cons_of_mem g hg') hmem
    obtain ⟨hreads, hcursor⟩ := ih hnodup hdone'
    rw [readFields, List.foldl_cons, hread, hreads, hcursor]
    exact ⟨rfl, by simp⟩

theorem readFields_afterRounds (hne : fs ≠ []) (hnodup : fs.Nodup) (i : Nat) :
    readFields (Scope.afterRounds fs i) fs = fs.map (·, i) ∧
      fs.foldl readField (Scope.afterRounds fs i) = Scope.afterRounds fs (i + 1) := by
  obtain ⟨f, gs, rfl⟩ := List.exists_cons_of_ne_nil hne
  obtain ⟨hf, hgs⟩ := List.nodup_cons.1 hnodup
  have hdone : ∀ g ∈ gs, g ∉ [f] := fun g hg hmem => hf (List.mem_singleton.1 hmem ▸ hg)
  obtain ⟨hreads, hcursor⟩ := readFields_fresh (i := i) hgs hdone
  rw [readFields, List.foldl_cons, Scope.readField_afterRounds List.mem_cons_self, hreads, hcursor]
  exact ⟨rfl, by rw [Scope.afterRounds, List.reverse_cons]⟩

theorem foldl_rounds (hne : fs ≠ []) (hnodup : fs.Nodup) (n : Nat) :
    (List.replicate n fs).flatten.foldl readField ⟨0, []⟩ = Scope.afterRounds fs n := by
  induction n with
  | zero => rfl
  | succ n ih =>
    rw [List.replicate_succ', List.flatten_append, List.flatten_singleton, List.foldl_append, ih]
    exact (readFields_afterRounds hne hnodup n).2

/-- **Rounds.** A round through different fields reads the record of its own number. -/
theorem round_readFields (hne : fs ≠ []) (hnodup : fs.Nodup) (hi : i < n) :
    (readFields ⟨0, []⟩ (List.replicate n fs).flatten).round fs.length i = fs.map (·, i) := by
  obtain ⟨k, rfl⟩ := Nat.exists_eq_add_of_lt hi
  have hbefore : (readFields ⟨0, []⟩ (List.replicate i fs).flatten).length = i * fs.length := by
    rw [length_readFields]
    simp
  have hround : (readFields (Scope.afterRounds fs i) fs).length = fs.length := length_readFields _ _
  rw [Nat.add_assoc, List.replicate_add, List.flatten_append, List.replicate_succ,
    List.flatten_cons, readFields_append, readFields_append, foldl_rounds hne hnodup,
    Reads.round, List.drop_left' hbefore, List.take_left' hround]
  exact (readFields_afterRounds hne hnodup i).1

/-- Rounds keep to the records of their numbers if their fields differ, and only then, since the
first round reads all its fields of one record. A body that reads a field twice gets ahead of its
rounds. -/
theorem forall_round_iff (hne : fs ≠ []) (hn : 1 ≤ n) :
    (∀ i < n, ∀ r ∈ (readFields ⟨0, []⟩ (List.replicate n fs).flatten).round fs.length i,
      r.2 = i) ↔ fs.Nodup := by
  constructor
  · intro hrounds
    have hfirst := hrounds 0 hn
    rw [Reads.round, Nat.zero_mul, List.drop_zero] at hfirst
    have hnodup := (allows_readFields _ _).orderly.nodup_take hfirst
    obtain ⟨n, rfl⟩ := Nat.exists_eq_add_of_le' hn
    rwa [map_fst_readFields, List.replicate_succ, List.flatten_cons, List.take_left] at hnodup
  · intro hnodup i hi r hr
    rw [round_readFields hne hnodup hi] at hr
    obtain ⟨f, -, rfl⟩ := List.mem_map.1 hr
    rfl

example : readFields ⟨0, []⟩ (List.replicate 2 ["name", "city", "name"]).flatten =
    [("name", 0), ("city", 0), ("name", 1), ("name", 2), ("city", 2), ("name", 3)] := by decide

/-! ## A list that has been started -/

/-- **The earliest records.** The fields that are read of a list after it has been started, with any
calls on other lists between them, are all answered.

* The first is read of the first record. From one read to the next the record stays or is the next
  one, and no record gives a field twice.
* These are the earliest records there can be: where the same fields are read in any other way, of
  records that follow each other and give no field twice, none is read of an earlier one.
* So where a body of fields is read in rounds, each round keeps to the record of its number exactly
  if the body reads no field twice. -/
theorem fields_read_earliest (t : Cursors) (xs : String) (fields : List String) (calls : List Call)
    (hcalls : calls.filter (·.list == xs) = fields.map (.field xs)) :
    ∃ reads : Reads, reads.map Prod.fst = fields ∧
      ((t.start xs).callAll calls).1.filter (·.1.list == xs) =
        reads.map (fun r => (.field xs r.1, some r.2)) ∧
      (∀ r ∈ reads.head?, r.2 = 0) ∧
      reads.Orderly ∧
      reads.IsChain (fun r s => s.2 ≤ r.2 + 1) ∧
      (∀ others : Reads, others.map Prod.fst = fields → others.Orderly →
        List.Forall₂ (fun r s => r.2 ≤ s.2) reads others) ∧
      ∀ (body : List String) (n : Nat), body ≠ [] → 1 ≤ n →
        fields = (List.replicate n body).flatten →
        ((∀ i < n, ∀ r ∈ reads.round body.length i, r.2 = i) ↔ body.Nodup) := by
  have hallows := allows_readFields ⟨0, []⟩ fields
  refine ⟨readFields ⟨0, []⟩ fields, map_fst_readFields _ _,
    filter_callAll (Scope.get?_start t xs) hcalls, ?_, hallows.orderly, isChain_readFields _ _,
    ?_, ?_⟩
  · cases fields with
    | nil => exact nofun
    | cons f fields =>
      rintro r ⟨rfl⟩
      rfl
  · rintro others rfl horderly
    exact readFields_le (allows_start_iff.2 horderly)
  · rintro body n hne hn rfl
    exact forall_round_iff hne hn

/-- Two rounds through the people, which had been left at another place, with a list of tags that is
read and started again between their fields. -/
theorem people_read_earliest :
    let calls : List Call := [.field "people" "name", .item "tags", .field "people" "city",
      .start "tags", .field "people" "name", .field "tags" "name", .field "people" "city"]
    let t : Cursors := [("people", ⟨3, ["city"]⟩), ("tags", ⟨1, []⟩)]
    let fields := ["name", "city", "name", "city"]
    calls.filter (·.list == "people") = fields.map (.field "people") ∧
      ∃ reads : Reads, reads.map Prod.fst = fields ∧
        ((t.start "people").callAll calls).1.filter (·.1.list == "people") =
          reads.map (fun r => (.field "people" r.1, some r.2)) ∧
        (∀ others : Reads, others.map Prod.fst = fields → others.Orderly →
          List.Forall₂ (fun r s => r.2 ≤ s.2) reads others) ∧
        ∀ i < 2, ∀ r ∈ reads.round 2 i, r.2 = i := by
  intro calls t fields
  have hcalls : calls.filter (·.list == "people") = fields.map (.field "people") := by decide
  obtain ⟨reads, hfields, hanswers, -, -, -, hleast, hrounds⟩ :=
    fields_read_earliest t "people" fields calls hcalls
  exact ⟨hcalls, reads, hfields, hanswers, hleast,
    (hrounds ["name", "city"] 2 (by decide) (by decide) rfl).2 (by decide)⟩

end StaticSite.Cursors
