import StaticSite.Proofs.Repeats

/-!
What the cursor of a list takes for read.

A cursor holds the fields that have been read of the current record. A read of an item moves it to
the next record, but leaves the fields as they are. Proved here, for every sequence of calls:

* `readSince_concat`: what one more call does to the reads of a list;
* `Tells.item`, `Tells.field`, `tells_call`: what one call does to the fields and the index of a
  cursor, and `tells_callAll`: so what they say of all calls so far, by induction on these;
* `mem_consumed_iff`: a field counts as read if it was read at the current index less the items
  that have been read since, so that a second read moves on;
* `consumed_after_item`: a field of the record before counts as read of the next one.
-/

namespace StaticSite.Cursors

/-! ## Calls -/

/-- A call that starts or moves a cursor. -/
inductive Call where
  | start (list : String)
  | item (list : String)
  | field (list field : String)
  deriving DecidableEq, Repr

/-- The list whose cursor a call starts or moves. -/
def Call.list : Call → String
  | start l | item l | field l _ => l

/-- Makes a call; the answer of a read is the index to read at. -/
def call (t : Cursors) : Call → Option Nat × Cursors
  | .start l => (none, t.start l)
  | .item l => t.nextItem l
  | .field l f => t.nextField l f

/-- Calls with their answers, in the order in which they were made. -/
abbrev History := List (Call × Option Nat)

/-- Makes calls one after another. -/
def callAll (t : Cursors) : List Call → History × Cursors
  | [] => ([], t)
  | k :: rest =>
    let (index, t) := t.call k
    let (history, t) := t.callAll rest
    ((k, index) :: history, t)

/-- A field was read of a list at an index. Since then the list has not been started again, and so
many of its items have been read. -/
def History.ReadSince (h : History) (xs f : String) (index items : Nat) : Prop :=
  ∃ before after, h = before ++ (.field xs f, some index) :: after ∧
    (∀ e ∈ after, e.1 ≠ .start xs) ∧ items = after.countP (·.1 == .item xs)

variable {t : Cursors} {h : History} {xs f : String} {c : Cursor} {k : Call} {i n : Nat}
  {answer : Option Nat}

/-- A cursor is moved by calls on its own list only. -/
theorem get?_call_of_ne (hk : k.list ≠ xs) : (t.call k).2.get? xs = t.get? xs := by
  cases k with
  | start l => exact (get?_set t l xs _).trans (if_neg (Ne.symm hk))
  | item l =>
    unfold call nextItem
    dsimp only
    cases t.get? l with
    | none => rfl
    | some c => exact (get?_set t l xs _).trans (if_neg (Ne.symm hk))
  | field l g =>
    unfold call nextField
    dsimp only
    cases t.get? l with
    | none => rfl
    | some c => exact (get?_set t l xs _).trans (if_neg (Ne.symm hk))

/-! ## Reads since the last start -/

/-- The last call is the read itself, or it comes after the read. -/
theorem readSince_concat :
    History.ReadSince (h ++ [(k, answer)]) xs f i n ↔
      (k = .field xs f ∧ answer = some i ∧ n = 0) ∨
      (k ≠ .start xs ∧ ∃ m, h.ReadSince xs f i m ∧ n = m + if k = .item xs then 1 else 0) := by
  constructor
  · rintro ⟨before, after, heq, hstart, rfl⟩
    rcases List.eq_nil_or_concat after with rfl | ⟨init, last, rfl⟩
    · obtain ⟨-, heq⟩ := List.append_inj' heq rfl
      obtain ⟨rfl, rfl⟩ := Prod.mk.inj (List.singleton_inj.1 heq)
      exact .inl ⟨rfl, rfl, rfl⟩
    · rw [List.concat_eq_append] at heq hstart ⊢
      rw [← List.cons_append, ← List.append_assoc] at heq
      obtain ⟨rfl, hlast⟩ := List.append_inj' heq rfl
      obtain rfl := List.singleton_inj.1 hlast
      refine .inr ⟨hstart (k, answer) (by simp), _, ⟨before, init, rfl, fun e he => ?_, rfl⟩, ?_⟩
      · exact hstart e (List.mem_append_left _ he)
      · simp [List.countP_append, List.countP_cons]
  · rintro (⟨rfl, rfl, rfl⟩ | ⟨hstart, m, ⟨before, after, rfl, hafter, rfl⟩, rfl⟩)
    · exact ⟨h, [], rfl, nofun, rfl⟩
    · refine ⟨before, after ++ [(k, answer)], by simp, ?_, ?_⟩
      · exact List.forall_mem_append.2 ⟨hafter, List.forall_mem_singleton.2 hstart⟩
      · simp [List.countP_append, List.countP_cons]

theorem not_readSince_start :
    ¬ History.ReadSince (h ++ [(.start xs, answer)]) xs f i n := by
  rw [readSince_concat]
  rintro (⟨hk, -⟩ | ⟨hk, -⟩)
  · cases hk
  · exact hk rfl

theorem readSince_other (hk : k.list ≠ xs) :
    History.ReadSince (h ++ [(k, answer)]) xs f i n ↔ h.ReadSince xs f i n := by
  have hstart : k ≠ .start xs := by
    rintro rfl
    exact hk rfl
  have hitem : k ≠ .item xs := by
    rintro rfl
    exact hk rfl
  rw [readSince_concat, if_neg hitem]
  constructor
  · rintro (⟨rfl, -⟩ | ⟨-, m, hread, rfl⟩)
    · exact absurd rfl hk
    · exact hread
  · exact fun hread => .inr ⟨hstart, n, hread, rfl⟩

theorem readSince_item :
    History.ReadSince (h ++ [(.item xs, answer)]) xs f i n ↔
      ∃ m, h.ReadSince xs f i m ∧ n = m + 1 := by
  rw [readSince_concat, if_pos rfl]
  constructor
  · rintro (⟨hk, -⟩ | ⟨-, hread⟩)
    · cases hk
    · exact hread
  · exact fun hread => .inr ⟨nofun, hread⟩

theorem readSince_field {g : String} {j : Nat} :
    History.ReadSince (h ++ [(.field xs g, some j)]) xs f i n ↔
      (f = g ∧ i = j ∧ n = 0) ∨ h.ReadSince xs f i n := by
  rw [readSince_concat, if_neg nofun]
  constructor
  · rintro (⟨hk, hi, rfl⟩ | ⟨-, m, hm, rfl⟩)
    · obtain ⟨-, rfl⟩ := Call.field.inj hk
      exact .inl ⟨rfl, (Option.some.inj hi).symm, rfl⟩
    · exact .inr hm
  · rintro (⟨rfl, rfl, rfl⟩ | hm)
    · exact .inl ⟨rfl, rfl, rfl⟩
    · exact .inr ⟨nofun, n, hm, rfl⟩

/-! ## What a cursor says of the reads of its list -/

structure Tells (h : History) (xs : String) (c : Cursor) : Prop where
  consumed : ∀ f, f ∈ c.consumed ↔ ∃ i n, h.ReadSince xs f i n ∧ i + n = c.index
  /-- No field was read of a later record. -/
  le : ∀ f i n, h.ReadSince xs f i n → i + n ≤ c.index
  /-- A field that counts as read has been read so once. -/
  once : ∀ f i n m, h.ReadSince xs f i n → i + n = c.index → h.ReadSince xs f c.index m → n = 0

theorem Tells.start (h : History) (xs : String) (answer : Option Nat) :
    Tells (h ++ [(.start xs, answer)]) xs ⟨0, []⟩ where
  consumed f := by
    refine ⟨fun hf => absurd hf List.not_mem_nil, ?_⟩
    rintro ⟨i, n, hread, -⟩
    exact absurd hread not_readSince_start
  le f i n hread := absurd hread not_readSince_start
  once f i n m hread := absurd hread not_readSince_start

/-- A call on another list says nothing of the reads of this one. -/
theorem Tells.other (ht : Tells h xs c) (hk : k.list ≠ xs) : Tells (h ++ [(k, answer)]) xs c := by
  refine ⟨fun f => ?_, fun f i n => ?_, fun f i n m => ?_⟩
  · simp only [readSince_other hk]
    exact ht.consumed f
  · rw [readSince_other hk]
    exact ht.le f i n
  · rw [readSince_other hk, readSince_other hk]
    exact ht.once f i n m

/-- A read of an item takes the index and the number of items on by one, and no field away. Nothing
has been read of the record that the cursor comes to. -/
theorem Tells.item (ht : Tells h xs c) (answer : Option Nat) :
    Tells (h ++ [(.item xs, answer)]) xs { c with index := c.index + 1 } := by
  refine ⟨fun f => (ht.consumed f).trans ⟨?_, ?_⟩, fun f i n hread => ?_,
    fun f i n m hread hindex hread' => ?_⟩
  · rintro ⟨i, m, hread, hindex⟩
    exact ⟨i, m + 1, readSince_item.2 ⟨m, hread, rfl⟩, congrArg (· + 1) hindex⟩
  · rintro ⟨i, n, hread, hindex⟩
    obtain ⟨m, hold, rfl⟩ := readSince_item.1 hread
    exact ⟨i, m, hold, Nat.succ_inj.1 hindex⟩
  · obtain ⟨m, hold, rfl⟩ := readSince_item.1 hread
    exact Nat.succ_le_succ (ht.le f i m hold)
  · obtain ⟨m, hold, -⟩ := readSince_item.1 hread'
    have hle := ht.le f (c.index + 1) m hold
    omega

/-- A read of a field that does not count as read stays at the record. -/
theorem Tells.stay {g : String} (ht : Tells h xs c) (hg : g ∉ c.consumed) :
    Tells (h ++ [(.field xs g, some c.index)]) xs ⟨c.index, g :: c.consumed⟩ := by
  refine ⟨fun f => ?_, fun f i n hread => ?_, fun f i n m hread hindex hread' => ?_⟩
  · rw [List.mem_cons, ht.consumed f]
    constructor
    · rintro (rfl | ⟨i, n, hread, hindex⟩)
      · exact ⟨c.index, 0, readSince_field.2 (.inl ⟨rfl, rfl, rfl⟩), rfl⟩
      · exact ⟨i, n, readSince_field.2 (.inr hread), hindex⟩
    · rintro ⟨i, n, hread, hindex⟩
      rcases readSince_field.1 hread with ⟨hf, -, -⟩ | hold
      · exact .inl hf
      · exact .inr ⟨i, n, hold, hindex⟩
  · rcases readSince_field.1 hread with ⟨-, rfl, rfl⟩ | hold
    · exact Nat.le_refl _
    · exact ht.le f i n hold
  · rcases readSince_field.1 hread with ⟨-, -, hn⟩ | hold
    · exact hn
    · rcases readSince_field.1 hread' with ⟨rfl, -, -⟩ | hold'
      · exact absurd ((ht.consumed f).2 ⟨i, n, hold, hindex⟩) hg
      · exact ht.once f i n m hold hindex hold'

/-- A read of a field that moves on leaves all reads before behind. -/
theorem Tells.advance (ht : Tells h xs c) (g : String) :
    Tells (h ++ [(.field xs g, some (c.index + 1))]) xs ⟨c.index + 1, [g]⟩ := by
  have hlast {f : String} {i n : Nat}
      (hread : History.ReadSince (h ++ [(.field xs g, some (c.index + 1))]) xs f i n)
      (hindex : i + n = c.index + 1) : f = g ∧ n = 0 := by
    rcases readSince_field.1 hread with ⟨hf, -, hn⟩ | hold
    · exact ⟨hf, hn⟩
    · have hle := ht.le f i n hold
      omega
  refine ⟨fun f => ?_, fun f i n hread => ?_, fun f i n m hread hindex _ => (hlast hread hindex).2⟩
  · rw [List.mem_singleton]
    constructor
    · rintro rfl
      exact ⟨c.index + 1, 0, readSince_field.2 (.inl ⟨rfl, rfl, rfl⟩), rfl⟩
    · rintro ⟨i, n, hread, hindex⟩
      exact (hlast hread hindex).1
  · rcases readSince_field.1 hread with ⟨-, rfl, rfl⟩ | hold
    · exact Nat.le_refl _
    · exact Nat.le_succ_of_le (ht.le f i n hold)

theorem Tells.field (ht : Tells h xs c) (g : String) :
    Tells (h ++ [(.field xs g, some (readField c g).index)]) xs (readField c g) := by
  unfold readField
  split
  · exact ht.advance g
  · next hg => exact ht.stay hg

/-- **One call.** -/
theorem tells_call (ht : ∀ c, t.get? xs = some c → Tells h xs c) (k : Call)
    (hc : (t.call k).2.get? xs = some c) : Tells (h ++ [(k, (t.call k).1)]) xs c := by
  by_cases hk : k.list = xs
  · subst hk
    cases k with
    | start l =>
      obtain rfl := Option.some.inj (((get?_set t l l _).trans (if_pos rfl)).symm.trans hc)
      exact .start h l _
    | item l =>
      unfold call nextItem at hc ⊢
      dsimp only [Call.list] at ht hc ⊢
      cases hold : t.get? l with
      | none =>
        rw [hold] at hc
        exact absurd (hold.symm.trans hc) nofun
      | some old =>
        rw [hold] at hc
        obtain rfl := Option.some.inj (((get?_set t l l _).trans (if_pos rfl)).symm.trans hc)
        exact (ht old hold).item _
    | field l g =>
      unfold call nextField at hc ⊢
      dsimp only [Call.list] at ht hc ⊢
      cases hold : t.get? l with
      | none =>
        rw [hold] at hc
        exact absurd (hold.symm.trans hc) nofun
      | some old =>
        rw [hold] at hc
        obtain rfl := Option.some.inj (((get?_set t l l _).trans (if_pos rfl)).symm.trans hc)
        exact (ht old hold).field g
  · rw [get?_call_of_ne hk] at hc
    exact (ht c hc).other hk

/-- **All calls.** -/
theorem tells_callAll (ht : ∀ c, t.get? xs = some c → Tells h xs c) (calls : List Call)
    (hc : (t.callAll calls).2.get? xs = some c) : Tells (h ++ (t.callAll calls).1) xs c := by
  induction calls generalizing t h with
  | nil =>
    rw [callAll, List.append_nil]
    exact ht c hc
  | cons k rest ih =>
    have hrest := ih (fun _ hc' => tells_call ht k hc') hc
    rwa [List.append_assoc] at hrest

/-- **Fields that count as read.** A field counts as read of the current record, so that reading it
moves on, exactly if it was read since the start of its list, at the current index less the items
that have been read since. Among these are all fields read at the current index; there are no others
exactly if no item has been read since any of these reads. -/
theorem mem_consumed_iff (calls : List Call) (xs : String) (c : Cursor)
    (hc : (callAll [] calls).2.get? xs = some c) :
    let history := (callAll [] calls).1
    (∀ f, f ∈ c.consumed ↔ ∃ i n, history.ReadSince xs f i n ∧ i + n = c.index) ∧
    (∀ f, ((callAll [] calls).2.nextField xs f).1 =
      some (if f ∈ c.consumed then c.index + 1 else c.index)) ∧
    (∀ f n, history.ReadSince xs f c.index n → f ∈ c.consumed) ∧
    ((∀ f, f ∈ c.consumed ↔ ∃ n, history.ReadSince xs f c.index n) ↔
      ∀ f i n, history.ReadSince xs f i n → i + n = c.index → n = 0) := by
  have hnone (c : Cursor) (h : Cursors.get? [] xs = some c) : Tells [] xs c := by cases h
  have ht : Tells (callAll [] calls).1 xs c := tells_callAll hnone calls hc
  have hcurrent (f : String) (n : Nat) (hread : (callAll [] calls).1.ReadSince xs f c.index n) :
      f ∈ c.consumed := by
    have hle := ht.le f c.index n hread
    exact (ht.consumed f).2 ⟨c.index, n, hread, by omega⟩
  refine ⟨ht.consumed, fun f => ?_, hcurrent, fun hsame f i n hread hindex => ?_,
    fun hnone f => ⟨fun hf => ?_, ?_⟩⟩
  · unfold nextField
    rw [hc]
    dsimp only
    unfold readField
    split <;> rfl
  · obtain ⟨m, hread'⟩ := (hsame f).1 ((ht.consumed f).2 ⟨i, n, hread, hindex⟩)
    exact ht.once f i n m hread hindex hread'
  · obtain ⟨i, n, hread, hindex⟩ := (ht.consumed f).1 hf
    obtain rfl := hnone f i n hread hindex
    exact ⟨0, hindex ▸ hread⟩
  · rintro ⟨n, hread⟩
    exact hcurrent f n hread

/-- Two fields of one record, with a read of another list between them. -/
theorem consumed_beside_other_list :
    (callAll [] [.start "xs", .start "ys", .field "xs" "a", .item "ys", .field "xs" "b"]).2.get? "xs"
        = some ⟨0, ["b", "a"]⟩ ∧
      ∃ i n, (callAll []
        [.start "xs", .start "ys", .field "xs" "a", .item "ys", .field "xs" "b"]).1.ReadSince
          "xs" "a" i n ∧ i + n = 0 := by
  have hc : (callAll []
      [.start "xs", .start "ys", .field "xs" "a", .item "ys", .field "xs" "b"]).2.get? "xs" =
        some ⟨0, ["b", "a"]⟩ := by decide
  obtain ⟨hconsumed, -⟩ := mem_consumed_iff _ "xs" _ hc
  exact ⟨hc, (hconsumed "a").1 (by decide)⟩

/-- A field of one record counts as read of the next, if the cursor has been moved by a read of an
item: it has been read once, at the first record. -/
theorem consumed_after_item :
    ¬ ∀ (calls : List Call) (xs : String) (c : Cursor), (callAll [] calls).2.get? xs = some c →
      ∀ f, f ∈ c.consumed ↔ ∃ n, (callAll [] calls).1.ReadSince xs f c.index n := by
  intro h
  have hc : (callAll [] [.start "xs", .field "xs" "f", .item "xs"]).2.get? "xs" =
      some ⟨1, ["f"]⟩ := by decide
  obtain ⟨n, before, after, heq, -⟩ := (h _ "xs" _ hc "f").1 (by decide)
  have hmem : (Call.field "xs" "f", some 1) ∈
      (callAll [] [.start "xs", .field "xs" "f", .item "xs"]).1 := by
    rw [heq]
    exact List.mem_append_right _ List.mem_cons_self
  exact absurd hmem (by decide)

end StaticSite.Cursors
