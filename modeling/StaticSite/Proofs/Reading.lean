import StaticSite.Proofs.OnePass
import StaticSite.Proofs.Repeats

/-!
Reading a repeated list.

A reference does not say which item it reads: this hangs on all that has been read of its list. Proved
here, for every scope and every sequence of references:

* `read_other`, `read_own`: a reference to another list leaves the cursor of a list where it is, and
  one to the list itself sees no other cursor;
* `readAll_own`: so what is read of a list is what would be read if nothing else were;
* `readAll_round`, `readAll_rounds`: fields read in rounds go through the records one by one, by
  induction on the records;
* `readAll_items`: items are read one by one, by induction on the items;
* `count_le_of_readAll`: no more items are read than there are;
* `reads_in_order`: so every field and every item is read once and in order, wherever the references
  stand among others, and reading on fails at the end of the list.
-/

namespace StaticSite

/-! ## Sequences of references -/

/-- The reference reads the repeated list. -/
def Reference.reads (xs : String) (r : Reference) : Bool := r.list? == some xs

/-- Of the values of some references, those that have been read of a list. -/
def Reference.valuesOf (xs : String) (refs : List Reference) (values : List (List Char)) :
    List (List Char) :=
  ((refs.zip values).filter (·.1.reads xs)).map Prod.snd

/-- Reads references one after another, up to the first that fails. -/
def Scope.readAll (s : Scope) (t : Cursors) :
    List Reference → Except Unresolved (List (List Char) × Cursors)
  | [] => pure ([], t)
  | r :: rest => do
    let (v, t) ← s.read t r
    let (vs, t) ← s.readAll t rest
    return (v :: vs, t)

namespace Scope

variable {s : Scope} {t t' : Cursors} {xs : String} {items : List Value} {r : Reference}
  {refs rest : List Reference}

theorem readAll_append (before after : List Reference) :
    s.readAll t (before ++ after) = do
      let (vs, t) ← s.readAll t before
      let (ws, t) ← s.readAll t after
      return (vs ++ ws, t) := by
  induction before generalizing t with
  | nil => simp [readAll]
  | cons r before ih => simp [readAll, ih]

theorem readAll_cons_ok {v : List Char} (h : s.read t r = .ok (v, t')) :
    s.readAll t (r :: rest) = (s.readAll t' rest).map fun p => (v :: p.1, p.2) := by
  rw [readAll, h]
  cases hrest : s.readAll t' rest with
  | error e => simp [hrest, Except.map, bind, Except.bind]
  | ok p => simp [hrest, Except.map, bind, Except.bind, pure, Except.pure]

/-- References that can all be read have a first that can be. -/
theorem of_readAll_cons {values : List (List Char)} (h : s.readAll t (r :: rest) = .ok (values, t')) :
    ∃ v t₁ vs, s.read t r = .ok (v, t₁) ∧ s.readAll t₁ rest = .ok (vs, t') ∧ values = v :: vs := by
  rw [readAll] at h
  obtain ⟨⟨v, t₁⟩, hread, h⟩ := Logged.except_bind_eq_ok h
  obtain ⟨⟨vs, t₂⟩, hall, h⟩ := Logged.except_bind_eq_ok h
  obtain ⟨rfl, rfl⟩ := Prod.mk.inj (Except.ok.inj h)
  exact ⟨v, t₁, vs, hread, hall, rfl⟩

theorem readAll_cons_error {e : Unresolved} (h : s.read t r = .error e) :
    s.readAll t (r :: rest) = .error e := by
  rw [readAll, h]
  rfl

/-! ## One reference -/

theorem read_item {c : Cursor} (hlist : s.list xs = .ok items) (hc : t.get? xs = some c) :
    s.read t (.item xs) =
      match items[c.index]? with
      | some v =>
        if v.isScalar then .ok (v.placeholder, t.set xs { c with index := c.index + 1 })
        else .error (.notAScalar xs c.index v.typeName)
      | none => .error (.outOfRange xs c.index items.length) := by
  unfold read
  dsimp only
  unfold Cursors.nextItem
  rw [hc]
  dsimp only
  rw [hlist]
  dsimp only [bind, Except.bind]
  unfold itemAt
  cases items[c.index]? with
  | none => rfl
  | some v => rfl

/-- The text of a field of a record. -/
def fieldText (v : Value) (f : String) : List Char :=
  match v with
  | .record fields => ((Fields.get? fields f).map Value.placeholder).getD []
  | _ => []

/-- The value is a record that has all of some fields. -/
def HasFields (fs : List String) (v : Value) : Prop :=
  ∃ fields, v = .record fields ∧ ∀ f ∈ fs, (Fields.get? fields f).isSome = true

theorem read_field {c : Cursor} {f : String} (hlist : s.list xs = .ok items)
    (hc : t.get? xs = some c) {fs : List String} (hf : f ∈ fs)
    (hitems : ∀ v ∈ items, HasFields fs v) :
    s.read t (.field f xs) =
      match items[(Cursors.readField c f).index]? with
      | some v => .ok (fieldText v f, t.set xs (Cursors.readField c f))
      | none => .error (.outOfRange xs (Cursors.readField c f).index items.length) := by
  unfold read
  dsimp only
  unfold Cursors.nextField
  rw [hc]
  dsimp only
  rw [hlist]
  dsimp only [bind, Except.bind]
  unfold itemAt
  cases hv : items[(Cursors.readField c f).index]? with
  | none => rfl
  | some v =>
    obtain ⟨fields, rfl, hfields⟩ := hitems v (List.mem_of_getElem? hv)
    obtain ⟨w, hw⟩ := Option.isSome_iff_exists.1 (hfields f hf)
    unfold fieldText
    dsimp only
    rw [hw]
    rfl

theorem le_index_readField (c : Cursor) (f : String) :
    c.index ≤ (Cursors.readField c f).index := by
  unfold Cursors.readField
  split
  · exact Nat.le_succ _
  · exact Nat.le_refl _

/-- A reference moves no cursor but that of its list, and never moves it back. -/
theorem read_set {v : List Char} (h : s.read t r = .ok (v, t')) :
    t' = t ∨ ∃ l c c', r.list? = some l ∧ t.get? l = some c ∧ t' = t.set l c' ∧
      c.index ≤ c'.index := by
  cases r with
  | name n =>
    unfold read at h
    dsimp only at h
    split at h
    · exact .inl (Prod.mk.inj (Except.ok.inj h)).2.symm
    · cases h
  | item l =>
    unfold read at h
    dsimp only at h
    unfold Cursors.nextItem at h
    cases hc : t.get? l with
    | none =>
      rw [hc] at h
      cases h
    | some c =>
      rw [hc] at h
      obtain ⟨items, -, h⟩ := Logged.except_bind_eq_ok h
      obtain ⟨item, -, h⟩ := Logged.except_bind_eq_ok h
      split at h
      · exact .inr ⟨l, c, _, rfl, hc, (Prod.mk.inj (Except.ok.inj h)).2.symm, Nat.le_succ _⟩
      · cases h
  | field f l =>
    unfold read at h
    dsimp only at h
    unfold Cursors.nextField at h
    cases hc : t.get? l with
    | none =>
      rw [hc] at h
      cases h
    | some c =>
      rw [hc] at h
      obtain ⟨items, -, h⟩ := Logged.except_bind_eq_ok h
      obtain ⟨item, -, h⟩ := Logged.except_bind_eq_ok h
      split at h
      · split at h
        · exact .inr ⟨l, c, _, rfl, hc, (Prod.mk.inj (Except.ok.inj h)).2.symm,
            le_index_readField c f⟩
        · cases h
      · cases h

theorem read_other {v : List Char} (h : s.read t r = .ok (v, t')) (hr : r.reads xs = false) :
    t'.get? xs = t.get? xs := by
  rcases read_set h with rfl | ⟨l, -, c, hl, -, rfl, -⟩
  · rfl
  · have hne : xs ≠ l := by
      rintro rfl
      simp [Reference.reads, hl] at hr
    rw [Cursors.get?_set, if_neg hne]

theorem read_index {v : List Char} {c : Cursor} (h : s.read t r = .ok (v, t'))
    (hc : t.get? xs = some c) : ∃ c', t'.get? xs = some c' ∧ c.index ≤ c'.index := by
  rcases read_set h with rfl | ⟨l, d, d', -, hd, rfl, hle⟩
  · exact ⟨c, hc, Nat.le_refl _⟩
  · rw [Cursors.get?_set]
    split
    · next hl =>
      subst hl
      obtain rfl := Option.some.inj (hc.symm.trans hd)
      exact ⟨d', rfl, hle⟩
    · exact ⟨c, hc, Nat.le_refl _⟩

/-- A reference to a list sees no other cursor. -/
theorem read_own {t₂ : Cursors} (ht : t₂.get? xs = t.get? xs) (hr : r.reads xs = true) :
    (s.read t₂ r).map (fun p => (p.1, p.2.get? xs)) =
      (s.read t r).map fun p => (p.1, p.2.get? xs) := by
  have hr : r.list? = some xs := by simpa [Reference.reads] using hr
  cases r with
  | name n => cases hr
  | item l =>
    obtain rfl := Option.some.inj hr
    unfold read
    dsimp only
    unfold Cursors.nextItem
    rw [ht]
    cases t.get? l with
    | none => rfl
    | some c =>
      dsimp only
      cases s.list l with
      | error e => rfl
      | ok items =>
        dsimp only [bind, Except.bind]
        cases itemAt items l c.index with
        | error e => rfl
        | ok v =>
          dsimp only
          split
          · simp [Except.map, pure, Except.pure, Cursors.get?_set]
          · rfl
  | field f l =>
    obtain rfl := Option.some.inj hr
    unfold read
    dsimp only
    unfold Cursors.nextField
    rw [ht]
    cases t.get? l with
    | none => rfl
    | some c =>
      dsimp only
      cases s.list l with
      | error e => rfl
      | ok items =>
        dsimp only [bind, Except.bind]
        cases itemAt items l (Cursors.readField c f).index with
        | error e => rfl
        | ok v =>
          cases v with
          | record fields =>
            dsimp only
            cases Fields.get? fields f with
            | none => rfl
            | some w => simp [Except.map, pure, Except.pure, Cursors.get?_set]
          | _ => rfl

/-! ## References to one list among others -/

theorem except_map_eq_map {ε α β γ : Type} {x : Except ε α} {y : Except ε β} {f : α → γ} {g : β → γ}
    (h : x.map f = y.map g) :
    (∃ e, x = .error e ∧ y = .error e) ∨ ∃ a b, x = .ok a ∧ y = .ok b ∧ f a = g b := by
  cases x with
  | error e =>
    cases y with
    | error e' => exact .inl ⟨e, rfl, by rw [Except.error.inj h]⟩
    | ok b => cases h
  | ok a =>
    cases y with
    | error e' => cases h
    | ok b => exact .inr ⟨a, b, rfl, rfl, Except.ok.inj h⟩

/-- Each reference that does not read the list can be read when it comes up. -/
def OthersSucceed (s : Scope) (xs : String) (t : Cursors) (refs : List Reference) : Prop :=
  ∀ before r after, refs = before ++ r :: after → r.reads xs = false →
    ∀ values t', s.readAll t before = .ok (values, t') → ∃ p, s.read t' r = .ok p

theorem OthersSucceed.next {v : List Char} (h : s.OthersSucceed xs t (r :: rest))
    (hr : s.read t r = .ok (v, t')) : s.OthersSucceed xs t' rest := by
  intro before r' after heq hother values t'' hbefore
  refine h (r :: before) r' after (by rw [heq, List.cons_append]) hother (v :: values) t'' ?_
  rw [readAll_cons_ok hr, hbefore]
  rfl

theorem OthersSucceed.of_append {before after : List Reference}
    (h : s.OthersSucceed xs t (before ++ after)) : s.OthersSucceed xs t before := by
  rintro front r back rfl
  exact h front r (back ++ after) (by simp)

theorem othersSucceed_of_readAll {values : List (List Char)}
    (h : s.readAll t refs = .ok (values, t')) : s.OthersSucceed xs t refs := by
  rintro before r after rfl - vs t₁ hbefore
  rw [readAll_append, hbefore] at h
  dsimp only [bind, Except.bind] at h
  obtain ⟨⟨ws, t₂⟩, hafter, -⟩ := Logged.except_bind_eq_ok h
  obtain ⟨v, t₃, -, hread, -, -⟩ := of_readAll_cons hafter
  exact ⟨(v, t₃), hread⟩

/-- **One list.** What is read of a list among other references is what would be read of it alone. -/
theorem readAll_own {t₂ : Cursors} (hothers : s.OthersSucceed xs t refs)
    (ht : t₂.get? xs = t.get? xs) :
    (s.readAll t refs).map (fun p => (Reference.valuesOf xs refs p.1, p.2.get? xs)) =
      (s.readAll t₂ (refs.filter (·.reads xs))).map fun p => (p.1, p.2.get? xs) := by
  induction refs generalizing t t₂ with
  | nil => simp [readAll, Reference.valuesOf, Except.map, pure, Except.pure, ht]
  | cons r rest ih =>
    cases hr : r.reads xs with
    | false =>
      obtain ⟨⟨v, t'⟩, hread⟩ := hothers [] r rest rfl hr [] t rfl
      have hrest := ih (hothers.next hread) (ht.trans (read_other hread hr).symm)
      rw [List.filter_cons_of_neg (by simp [hr]), ← hrest, readAll_cons_ok hread]
      cases s.readAll t' rest with
      | error e => rfl
      | ok p => simp [Except.map, Reference.valuesOf, hr]
    | true =>
      rw [List.filter_cons_of_pos (by simp [hr])]
      rcases except_map_eq_map (read_own (s := s) ht hr) with
        ⟨e, hread₂, hread⟩ | ⟨⟨v, t₂'⟩, ⟨v', t'⟩, hread₂, hread, heq⟩
      · rw [readAll_cons_error hread, readAll_cons_error hread₂]
        rfl
      · obtain ⟨rfl, hget⟩ := Prod.mk.inj heq
        rw [readAll_cons_ok hread, readAll_cons_ok hread₂]
        rcases except_map_eq_map (ih (hothers.next hread) hget) with
          ⟨e, hall, hall₂⟩ | ⟨p, p₂, hall, hall₂, heq⟩
        · rw [hall, hall₂]
          rfl
        · obtain ⟨hvalues, hcursor⟩ := Prod.mk.inj heq
          rw [hall, hall₂]
          simp [Except.map, ← hvalues, hcursor, Reference.valuesOf, hr]

/-! ## Records -/

/-- The references to some fields of a list. -/
def fieldsOf (xs : String) (fs : List String) : List Reference := fs.map (Reference.field · xs)

/-- The cursor of a list after so many rounds through some fields. -/
def afterRounds (fs : List String) : Nat → Cursor
  | 0 => ⟨0, []⟩
  | i + 1 => ⟨i, fs.reverse⟩

/-- After a round every field is one of the next record. -/
theorem readField_afterRounds {fs : List String} {f : String} (hf : f ∈ fs) (i : Nat) :
    Cursors.readField (afterRounds fs i) f = ⟨i, [f]⟩ := by
  cases i with
  | zero => simp [afterRounds, Cursors.readField]
  | succ i => simp [afterRounds, Cursors.readField, hf]

section

variable {fs : List String} (hlist : s.list xs = .ok items) (hitems : ∀ v ∈ items, HasFields fs v)
include hlist hitems

/-- Fields that have not been read of a record are read of it. -/
theorem readAll_fields {i : Nat} {v : Value} (hv : items[i]? = some v) {gs done : List String}
    (hgs : ∀ g ∈ gs, g ∈ fs) (hnodup : gs.Nodup) (hdone : ∀ g ∈ gs, g ∉ done)
    (hc : t.get? xs = some ⟨i, done⟩) :
    ∃ t', s.readAll t (fieldsOf xs gs) = .ok (gs.map (fieldText v), t') ∧
      t'.get? xs = some ⟨i, gs.reverse ++ done⟩ := by
  induction gs generalizing t done with
  | nil => exact ⟨t, rfl, by simpa using hc⟩
  | cons g gs ih =>
    have hfield : Cursors.readField ⟨i, done⟩ g = ⟨i, g :: done⟩ := by
      simp [Cursors.readField, hdone g List.mem_cons_self]
    have hread := read_field hlist hc (hgs g List.mem_cons_self) hitems
    rw [hfield] at hread
    dsimp only at hread
    rw [hv] at hread
    obtain ⟨hfresh, hnodup⟩ := List.nodup_cons.1 hnodup
    have hdone' : ∀ g' ∈ gs, g' ∉ g :: done := by
      intro g' hg' hmem
      rcases List.mem_cons.1 hmem with rfl | hmem
      · exact hfresh hg'
      · exact hdone g' (List.mem_cons_of_mem g hg') hmem
    have hmoved : (t.set xs ⟨i, g :: done⟩).get? xs = some ⟨i, g :: done⟩ := by
      rw [Cursors.get?_set, if_pos rfl]
    obtain ⟨t', hall, hcursor⟩ :=
      ih (fun g' hg' => hgs g' (List.mem_cons_of_mem g hg')) hnodup hdone' hmoved
    refine ⟨t', ?_, by simpa using hcursor⟩
    have hcons : s.readAll t (fieldsOf xs (g :: gs)) = _ := readAll_cons_ok hread
    rw [hcons]
    show (s.readAll _ (fieldsOf xs gs)).map _ = _
    rw [hall]
    rfl

/-- **Rounds.** A round through the fields reads those of the next record. -/
theorem readAll_round (hne : fs ≠ []) (hnodup : fs.Nodup) {i : Nat} {v : Value}
    (hv : items[i]? = some v) (hc : t.get? xs = some (afterRounds fs i)) :
    ∃ t', s.readAll t (fieldsOf xs fs) = .ok (fs.map (fieldText v), t') ∧
      t'.get? xs = some (afterRounds fs (i + 1)) := by
  obtain ⟨f, gs, hfs⟩ := List.exists_cons_of_ne_nil hne
  have hf : f ∈ fs := hfs ▸ List.mem_cons_self
  have hread := read_field hlist hc hf hitems
  rw [readField_afterRounds hf] at hread
  dsimp only at hread
  rw [hv] at hread
  rw [hfs] at hnodup
  obtain ⟨hfresh, hnodup⟩ := List.nodup_cons.1 hnodup
  have hgs : ∀ g ∈ gs, g ∈ fs := fun g hg => hfs ▸ List.mem_cons_of_mem f hg
  have hdone : ∀ g ∈ gs, g ∉ [f] := fun g hg hmem => hfresh (List.mem_singleton.1 hmem ▸ hg)
  have hmoved : (t.set xs ⟨i, [f]⟩).get? xs = some ⟨i, [f]⟩ := by
    rw [Cursors.get?_set, if_pos rfl]
  obtain ⟨t', hall, hcursor⟩ := readAll_fields hlist hitems hv hgs hnodup hdone hmoved
  refine ⟨t', ?_, ?_⟩
  · rw [hfs]
    have hcons : s.readAll t (fieldsOf xs (f :: gs)) = _ := readAll_cons_ok hread
    rw [hcons]
    show (s.readAll _ (fieldsOf xs gs)).map _ = _
    rw [hall]
    rfl
  · rw [hcursor, afterRounds, hfs, List.reverse_cons]

theorem readAll_rounds (hne : fs ≠ []) (hnodup : fs.Nodup) {before after : List Value}
    (heq : items = before ++ after) (hc : t.get? xs = some (afterRounds fs before.length)) :
    ∃ t', s.readAll t (List.replicate after.length (fieldsOf xs fs)).flatten =
        .ok (after.flatMap fun v => fs.map (fieldText v), t') ∧
      t'.get? xs = some (afterRounds fs items.length) := by
  induction after generalizing t before with
  | nil =>
    rw [List.append_nil] at heq
    exact ⟨t, rfl, heq ▸ hc⟩
  | cons v after ih =>
    have hv : items[before.length]? = some v := by simp [heq]
    obtain ⟨t₁, hround, hc₁⟩ := readAll_round hlist hitems hne hnodup hv hc
    have hnext : items = (before ++ [v]) ++ after := by simp [heq]
    have hc₁ : t₁.get? xs = some (afterRounds fs (before ++ [v]).length) := by
      rw [hc₁, List.length_append, List.length_singleton]
    obtain ⟨t', hrounds, hcursor⟩ := ih hnext hc₁
    refine ⟨t', ?_, hcursor⟩
    rw [List.length_cons, List.replicate_succ, List.flatten_cons, readAll_append, hround]
    dsimp only [bind, Except.bind]
    rw [hrounds]
    rfl

end

/-! ## Items -/

/-- **Items** that are scalars are read one by one. -/
theorem readAll_items (hlist : s.list xs = .ok items) (hitems : ∀ v ∈ items, v.isScalar = true)
    {before after : List Value} (heq : items = before ++ after) {done : List String}
    (hc : t.get? xs = some ⟨before.length, done⟩) {n : Nat} (hn : n ≤ after.length) :
    ∃ t', s.readAll t (List.replicate n (.item xs)) =
        .ok ((after.take n).map Value.placeholder, t') ∧
      t'.get? xs = some ⟨before.length + n, done⟩ := by
  induction n generalizing t before after with
  | zero => exact ⟨t, rfl, hc⟩
  | succ n ih =>
    cases after with
    | nil => simp at hn
    | cons v after =>
      have hv : items[before.length]? = some v := by simp [heq]
      have hread := read_item hlist hc
      dsimp only at hread
      rw [hv] at hread
      dsimp only at hread
      rw [if_pos (hitems v (List.mem_of_getElem? hv))] at hread
      have hmoved : (t.set xs ⟨before.length + 1, done⟩).get? xs =
          some ⟨(before ++ [v]).length, done⟩ := by
        rw [Cursors.get?_set, if_pos rfl, List.length_append]
        rfl
      have hn : n ≤ after.length := by simpa using hn
      have hnext : items = (before ++ [v]) ++ after := by simp [heq]
      obtain ⟨t', hall, hcursor⟩ := ih hnext hmoved hn
      refine ⟨t', ?_, ?_⟩
      · rw [List.replicate_succ, readAll_cons_ok hread, hall]
        rfl
      · rw [hcursor, List.length_append, List.length_singleton, Nat.add_right_comm, Nat.add_assoc]

/-- No more items are read of a list than there are from its cursor on. -/
theorem count_le_of_readAll (hlist : s.list xs = .ok items) {c : Cursor} (hc : t.get? xs = some c)
    {values : List (List Char)} (h : s.readAll t refs = .ok (values, t')) :
    refs.count (.item xs) ≤ items.length - c.index := by
  induction refs generalizing t c values with
  | nil => exact Nat.zero_le _
  | cons r rest ih =>
    obtain ⟨v, t₁, vs, hread, hrest, -⟩ := of_readAll_cons h
    by_cases hr : r = .item xs
    · subst hr
      rw [read_item hlist hc] at hread
      cases hitem : items[c.index]? with
      | none =>
        rw [hitem] at hread
        cases hread
      | some item =>
        rw [hitem] at hread
        dsimp only at hread
        split at hread
        · obtain ⟨-, rfl⟩ := Prod.mk.inj (Except.ok.inj hread)
          have hlt : c.index < items.length := (List.getElem?_eq_some_iff.1 hitem).1
          have hcount := ih (by rw [Cursors.get?_set, if_pos rfl]) hrest
          dsimp only at hcount
          rw [List.count_cons_self]
          omega
        · cases hread
    · obtain ⟨c₁, hc₁, hle⟩ := read_index hread hc
      have hcount := ih hc₁ hrest
      rw [List.count_cons_of_ne hr]
      omega

end Scope

/-! ## References in a text -/

/-- The reference that a piece of a text is, if it is one. -/
def Piece.reference? : Piece → Option Reference
  | .tag _ _ (.reference r) => some r
  | _ => none

namespace Frame

/-- A pass over the pieces of a text reads the references among them. -/
theorem readAll_of_onePass (fr : Frame) {ps : List Piece} {t t' : Cursors} {out : List Char}
    (h : (fr.onePass ps t).result = .ok (out, t')) :
    ∃ values, fr.scope.readAll t (ps.filterMap Piece.reference?) = .ok (values, t') := by
  induction ps generalizing t out with
  | nil =>
    obtain ⟨-, rfl⟩ := Prod.mk.inj (Except.ok.inj h)
    exact ⟨[], rfl⟩
  | cons p ps ih =>
    cases p with
    | plain text =>
      obtain ⟨⟨rest, t₁⟩, hrest, h⟩ := Logged.bind_eq_ok h
      obtain ⟨-, rfl⟩ := Prod.mk.inj (Except.ok.inj h)
      exact ih hrest
    | fault line e => cases h
    | tag line text tag =>
      obtain ⟨⟨v, t₁⟩, hvalue, h⟩ := Logged.bind_eq_ok h
      obtain ⟨⟨rest, t₂⟩, hrest, h⟩ := Logged.bind_eq_ok h
      obtain ⟨-, rfl⟩ := Prod.mk.inj (Except.ok.inj h)
      obtain ⟨values, hall⟩ := ih hrest
      cases tag with
      | file kind path =>
        obtain rfl : t₁ = t := fr.cursors_of_file hvalue
        exact ⟨values, hall⟩
      | reference r =>
        cases hread : fr.scope.read t r with
        | error e =>
          rw [value] at hvalue
          dsimp only at hvalue
          rw [hread] at hvalue
          cases hvalue
        | ok p =>
          rw [value] at hvalue
          dsimp only at hvalue
          rw [hread] at hvalue
          obtain rfl := Except.ok.inj hvalue
          have hpiece : (Piece.tag line text (.reference r)).reference? = some r := rfl
          refine ⟨v :: values, ?_⟩
          rw [List.filterMap_cons_some hpiece, Scope.readAll_cons_ok hread, hall]
          rfl

/-- A text that can be resolved holds no more items of a list than there are. -/
theorem count_le_of_resolve (fr : Frame) {xs : String} {items : List Value} {t : Cursors}
    {markup out : String} (hlist : fr.scope.list xs = .ok items)
    (h : (fr.resolve (t.start xs) markup).result = .ok out) :
    ((Piece.ofText markup.toList).filterMap Piece.reference?).count (.item xs) ≤ items.length := by
  rw [fr.resolve_eq] at h
  obtain ⟨⟨text, t'⟩, hpass, -⟩ := Logged.bind_eq_ok h
  obtain ⟨values, hall⟩ := fr.readAll_of_onePass hpass
  refine Scope.count_le_of_readAll (c := ⟨0, []⟩) hlist ?_ hall
  rw [Cursors.start, Cursors.get?_set, if_pos rfl]

end Frame

/-! ## A list read from its start -/

namespace Scope

variable {s : Scope} {xs : String} {items : List Value} {refs : List Reference}

theorem get?_start (t : Cursors) (xs : String) : (t.start xs).get? xs = some ⟨0, []⟩ := by
  rw [Cursors.start, Cursors.get?_set, if_pos rfl]

/-- What references to a list among others give where they give it alone, from its start. -/
theorem readAll_of_own {t t' : Cursors} {values : List (List Char)}
    (hothers : s.OthersSucceed xs (t.start xs) refs)
    (h : s.readAll (t.start xs) (refs.filter (·.reads xs)) = .ok (values, t')) :
    ∃ all t₁, s.readAll (t.start xs) refs = .ok (all, t₁) ∧
      Reference.valuesOf xs refs all = values ∧ t₁.get? xs = t'.get? xs := by
  have heq := readAll_own hothers (Eq.refl ((t.start xs).get? xs))
  rw [h] at heq
  rcases except_map_eq_map heq with ⟨e, -, he⟩ | ⟨p, q, hp, hq, hpq⟩
  · cases he
  · obtain rfl := Except.ok.inj hq
    obtain ⟨hvalues, hcursor⟩ := Prod.mk.inj hpq
    exact ⟨p.1, p.2, hp, hvalues, hcursor⟩

theorem exists_split_of_lt_count {α : Type} [BEq α] [LawfulBEq α] {a : α} {l : List α} {n : Nat}
    (h : n < l.count a) : ∃ before after, l = before ++ a :: after ∧ before.count a = n := by
  induction l generalizing n with
  | nil => simp at h
  | cons b l ih =>
    by_cases hb : b = a
    · subst hb
      cases n with
      | zero => exact ⟨[], l, rfl, rfl⟩
      | succ n =>
        rw [List.count_cons_self] at h
        obtain ⟨before, after, rfl, hcount⟩ := ih (Nat.lt_of_succ_lt_succ h)
        exact ⟨b :: before, after, rfl, by rw [List.count_cons_self, hcount]⟩
    · rw [List.count_cons_of_ne hb] at h
      obtain ⟨before, after, rfl, hcount⟩ := ih h
      exact ⟨b :: before, after, rfl, by rw [List.count_cons_of_ne hb, hcount]⟩

/-- References to a list that are all items are so many reads of its items. -/
theorem filter_reads_eq_replicate (hown : ∀ r ∈ refs, r.reads xs = true → r = .item xs) :
    refs.filter (·.reads xs) = List.replicate (refs.count (.item xs)) (.item xs) := by
  have hreads : (Reference.item xs).reads xs = true := by simp [Reference.reads, Reference.list?]
  have hall : ∀ r ∈ refs.filter (·.reads xs), r = .item xs := fun r hr =>
    hown r (List.mem_filter.1 hr).1 (List.mem_filter.1 hr).2
  rw [List.eq_replicate_of_mem hall, ← List.countP_eq_length_filter, List.count]
  congr 1
  refine List.countP_congr fun r hr => ?_
  constructor
  · intro h
    simpa using hown r hr h
  · intro h
    rw [beq_iff_eq.1 h]
    exact hreads

section Items

variable (hlist : s.list xs = .ok items) (hitems : ∀ v ∈ items, v.isScalar = true)
  (hown : ∀ r ∈ refs, r.reads xs = true → r = .item xs)
include hlist hitems hown

/-- No more items than there are can be read among references that can be. -/
theorem readAll_of_count_le {t : Cursors} (hothers : s.OthersSucceed xs (t.start xs) refs)
    (hle : refs.count (.item xs) ≤ items.length) :
    ∃ values t', s.readAll (t.start xs) refs = .ok (values, t') ∧
      Reference.valuesOf xs refs values =
        (items.take (refs.count (.item xs))).map Value.placeholder ∧
      t'.get? xs = some ⟨refs.count (.item xs), []⟩ := by
  have hnil : items = [] ++ items := rfl
  obtain ⟨t₁, hall, hcursor⟩ := readAll_items hlist hitems hnil (get?_start t xs) hle
  rw [← filter_reads_eq_replicate hown] at hall
  obtain ⟨values, t', hok, hvalues, ht'⟩ := readAll_of_own hothers hall
  refine ⟨values, t', hok, hvalues, ?_⟩
  rw [ht', hcursor, List.length_nil, Nat.zero_add]

/-- References that can be read leave the list at the number of items read. -/
theorem of_readAll_start {t t' : Cursors} {values : List (List Char)}
    (h : s.readAll (t.start xs) refs = .ok (values, t')) :
    refs.count (.item xs) ≤ items.length ∧
      Reference.valuesOf xs refs values =
        (items.take (refs.count (.item xs))).map Value.placeholder ∧
      t'.get? xs = some ⟨refs.count (.item xs), []⟩ := by
  have hle : refs.count (.item xs) ≤ items.length :=
    count_le_of_readAll hlist (get?_start t xs) h
  obtain ⟨values₁, t₁, hok, hvalues, hcursor⟩ :=
    readAll_of_count_le hlist hitems hown (othersSucceed_of_readAll h) hle
  obtain ⟨rfl, rfl⟩ := Prod.mk.inj (Except.ok.inj (h.symm.trans hok))
  exact ⟨hle, hvalues, hcursor⟩

/-- One item too many fails at the end of the list, wherever it stands. -/
theorem readAll_of_lt_count {t : Cursors} (hothers : s.OthersSucceed xs (t.start xs) refs)
    (hlt : items.length < refs.count (.item xs)) :
    s.readAll (t.start xs) refs = .error (.outOfRange xs items.length items.length) := by
  obtain ⟨before, after, rfl, hcount⟩ := exists_split_of_lt_count hlt
  have hbefore : ∀ r ∈ before, r.reads xs = true → r = .item xs := fun r hr =>
    hown r (List.mem_append_left _ hr)
  obtain ⟨values, t', hok, -, hcursor⟩ :=
    readAll_of_count_le hlist hitems hbefore hothers.of_append (Nat.le_of_eq hcount)
  have hread := read_item hlist hcursor
  rw [hcount] at hread
  dsimp only at hread
  rw [List.getElem?_eq_none (Nat.le_refl _)] at hread
  rw [readAll_append, hok]
  dsimp only [bind, Except.bind]
  rw [readAll_cons_error hread]

end Items

/-- **Reading in order.** A list that is started once is read from its first item to its last,
wherever the references to it stand among others that can be read.

* Rounds through all fields of its records, as many as there are records, give the fields of each
  record in turn; one field more is out of range.
* References to items give the items in turn, as long as there are any; one more is out of range.
* So a text that can be resolved holds no more references to items than there are items. -/
theorem reads_in_order (s : Scope) (xs : String) (items : List Value)
    (hlist : s.list xs = .ok items) (t : Cursors) :
    (∀ (fs : List String) (refs : List Reference), fs ≠ [] → fs.Nodup →
      (∀ v ∈ items, HasFields fs v) → s.OthersSucceed xs (t.start xs) refs →
      refs.filter (·.reads xs) = (List.replicate items.length (fieldsOf xs fs)).flatten →
      ∃ values t', s.readAll (t.start xs) refs = .ok (values, t') ∧
        Reference.valuesOf xs refs values = items.flatMap (fun v => fs.map (fieldText v)) ∧
        ∀ f ∈ fs, s.read t' (.field f xs) =
          .error (.outOfRange xs items.length items.length)) ∧
    (∀ refs : List Reference, (∀ v ∈ items, v.isScalar = true) →
      (∀ r ∈ refs, r.reads xs = true → r = .item xs) →
      (∀ values t', s.readAll (t.start xs) refs = .ok (values, t') →
        refs.count (.item xs) ≤ items.length ∧
        Reference.valuesOf xs refs values =
          (items.take (refs.count (.item xs))).map Value.placeholder ∧
        (∀ v, items[refs.count (.item xs)]? = some v →
          ∃ t'', s.read t' (.item xs) = .ok (v.placeholder, t'')) ∧
        (refs.count (.item xs) = items.length → s.read t' (.item xs) =
          .error (.outOfRange xs items.length items.length))) ∧
      (s.OthersSucceed xs (t.start xs) refs →
        (refs.count (.item xs) ≤ items.length →
          ∃ p, s.readAll (t.start xs) refs = .ok p) ∧
        (items.length < refs.count (.item xs) → s.readAll (t.start xs) refs =
          .error (.outOfRange xs items.length items.length)))) ∧
    ∀ (fr : Frame) (markup out : String), fr.scope = s →
      (fr.resolve (t.start xs) markup).result = .ok out →
      ((Piece.ofText markup.toList).filterMap Piece.reference?).count (.item xs) ≤
        items.length := by
  refine ⟨fun fs refs hne hnodup hitems hothers hrounds => ?_,
    fun refs hitems hown => ⟨fun values t' h => ?_, fun hothers => ⟨fun hle => ?_, fun hlt => ?_⟩⟩,
    ?_⟩
  · have hnil : items = [] ++ items := rfl
    obtain ⟨t₁, hall, hcursor⟩ :=
      readAll_rounds hlist hitems hne hnodup hnil (get?_start t xs)
    rw [← hrounds] at hall
    obtain ⟨values, t', hok, hvalues, ht'⟩ := readAll_of_own hothers hall
    refine ⟨values, t', hok, hvalues, fun f hf => ?_⟩
    rw [read_field hlist (ht'.trans hcursor) hf hitems, readField_afterRounds hf,
      List.getElem?_eq_none (Nat.le_refl _)]
  · obtain ⟨hle, hvalues, hcursor⟩ := of_readAll_start hlist hitems hown h
    have hread := read_item hlist hcursor
    refine ⟨hle, hvalues, fun v hv => ?_, fun hcount => ?_⟩
    · rw [hv] at hread
      dsimp only at hread
      rw [if_pos (hitems v (List.mem_of_getElem? hv))] at hread
      exact ⟨_, hread⟩
    · rw [hcount] at hread
      dsimp only at hread
      rw [List.getElem?_eq_none (Nat.le_refl _)] at hread
      exact hread
  · obtain ⟨values, t', hok, -, -⟩ := readAll_of_count_le hlist hitems hown hothers hle
    exact ⟨(values, t'), hok⟩
  · exact readAll_of_lt_count hlist hitems hown hothers hlt
  · rintro fr markup out rfl hresolve
    exact fr.count_le_of_resolve hlist hresolve

/-- Two people, read in rounds with a scalar and the items of another list between the fields. -/
theorem people_read_in_rounds :
    let person (name city : String) : Value := .record [("city", .string city), ("name", .string name)]
    let people := [person "Ada" "London", person "Alan" "Wilmslow"]
    let s : Scope := ⟨[("people", .list people), ("tags", .list [.string "x", .string "y"]),
      ("title", .string "Home")]⟩
    let t : Cursors := [("tags", ⟨1, []⟩)]
    s.list "people" = .ok people ∧
      ∃ values t', s.readAll (t.start "people") [.field "name" "people", .name "title",
          .field "city" "people", .item "tags", .field "name" "people", .field "city" "people"] =
            .ok (values, t') ∧
        Reference.valuesOf "people" [.field "name" "people", .name "title",
          .field "city" "people", .item "tags", .field "name" "people", .field "city" "people"]
            values = ["Ada".toList, "London".toList, "Alan".toList, "Wilmslow".toList] ∧
        s.read t' (.field "name" "people") = .error (.outOfRange "people" 2 2) := by
  intro person people s t
  have hlist : s.list "people" = .ok people := rfl
  have hitems : ∀ v ∈ people, HasFields ["name", "city"] v := by
    intro v hv
    rcases (by simpa [people] using hv : v = _ ∨ v = _) with rfl | rfl
    · exact ⟨_, rfl, by decide⟩
    · exact ⟨_, rfl, by decide⟩
  obtain ⟨values, t', hok, hvalues, hnext⟩ := (reads_in_order s "people" people hlist t).1
    ["name", "city"] [.field "name" "people", .name "title", .field "city" "people",
      .item "tags", .field "name" "people", .field "city" "people"]
    (by decide) (by decide) hitems (othersSucceed_of_readAll rfl) (by decide)
  exact ⟨hlist, values, t', hok, hvalues, hnext "name" (by decide)⟩

end Scope

end StaticSite
