import Mathlib.Data.List.TakeWhile
import StaticSite.Proofs.FirstTag

/-!
The expression between the braces of a variable tag.

An expression is cut at its colons, and the blanks around each part do not count. Proved here:

* `exists_trim`: trimming takes blanks off both ends and nothing else;
* `map_trim_splitOn_trim`: trimming the whole expression first makes no difference to its parts;
* `readReference_eq_ok_iff`: an expression is read to the reference with just its parts;
* `exists_readReference_iff`: it is read where it has one or two parts and none of them is empty;
* `findFrom_write_iff`: a tag is read as a whole where its braces close at its end only.
-/

namespace StaticSite

/-! ## Trimming -/

namespace Text

/-- Trimming takes blanks off both ends. -/
theorem exists_trim (s : List Char) :
    ∃ l r, s = l ++ trim s ++ r ∧ (∀ c ∈ l, isBlank c = true) ∧ ∀ c ∈ r, isBlank c = true := by
  refine ⟨s.takeWhile isBlank, ((trimStart s).reverse.takeWhile isBlank).reverse, ?_,
    fun c => List.mem_takeWhile_imp, fun c hc => List.mem_takeWhile_imp (List.mem_reverse.1 hc)⟩
  have hend : trim s ++ ((trimStart s).reverse.takeWhile isBlank).reverse = trimStart s := by
    rw [trim, trimEnd, ← List.reverse_append, List.takeWhile_append_dropWhile,
      List.reverse_reverse]
  rw [List.append_assoc, hend, trimStart, List.takeWhile_append_dropWhile]

theorem trimEnd_append_blank (s : List Char) {r : List Char} (hr : ∀ c ∈ r, isBlank c = true) :
    trimEnd (s ++ r) = trimEnd s := by
  unfold trimEnd
  rw [List.reverse_append, List.dropWhile_append_of_pos fun c hc => hr c (List.mem_reverse.1 hc)]

theorem trim_of_blank {s : List Char} (hs : ∀ c ∈ s, isBlank c = true) : trim s = [] := by
  have : trimStart s = [] := List.dropWhile_eq_nil_iff.2 hs
  rw [trim, this]
  rfl

theorem trim_blank_append {l : List Char} (s : List Char) (hl : ∀ c ∈ l, isBlank c = true) :
    trim (l ++ s) = trim s := by
  unfold trim trimStart
  rw [List.dropWhile_append_of_pos hl]

theorem trim_append_blank (s : List Char) {r : List Char} (hr : ∀ c ∈ r, isBlank c = true) :
    trim (s ++ r) = trim s := by
  by_cases hs : ∀ c ∈ s, isBlank c = true
  · rw [trim_of_blank hs, trim_of_blank]
    intro c hc
    exact (List.mem_append.1 hc).elim (hs c) (hr c)
  · have hne : trimStart s ≠ [] := fun h => hs (List.dropWhile_eq_nil_iff.1 h)
    have hstart : trimStart (s ++ r) = trimStart s ++ r := by
      unfold trimStart at hne ⊢
      rw [List.dropWhile_append, if_neg (by simpa using hne)]
    rw [trim, hstart, trimEnd_append_blank _ hr, ← trim]

/-! ## Parts -/

theorem splitOn_of_not_mem {c : Char} {s : List Char} (h : c ∉ s) : splitOn c s = [s] := by
  induction s with
  | nil => rfl
  | cons d s ih =>
    rw [List.mem_cons, not_or] at h
    rw [splitOn, if_neg (Ne.symm h.1), ih h.2]

/-- Text without the separator belongs to the last part. -/
theorem splitOn_append_right {c : Char} {r : List Char} (h : c ∉ r) (s : List Char) :
    ∃ ps p, splitOn c s = ps ++ [p] ∧ splitOn c (s ++ r) = ps ++ [p ++ r] := by
  induction s with
  | nil => exact ⟨[], [], rfl, splitOn_of_not_mem h⟩
  | cons d s ih =>
    obtain ⟨ps, p, hs, hsr⟩ := ih
    rw [List.cons_append, splitOn, splitOn, hs, hsr]
    by_cases hd : d = c
    · rw [if_pos hd, if_pos hd]
      exact ⟨[] :: ps, p, rfl, rfl⟩
    · rw [if_neg hd, if_neg hd]
      cases ps with
      | nil => exact ⟨[], d :: p, rfl, rfl⟩
      | cons q ps => exact ⟨(d :: q) :: ps, p, rfl, rfl⟩

/-- Text without the separator belongs to the first part. -/
theorem splitOn_append_left {c : Char} {l : List Char} (h : c ∉ l) (s : List Char) :
    ∃ p ps, splitOn c s = p :: ps ∧ splitOn c (l ++ s) = (l ++ p) :: ps := by
  induction l with
  | nil =>
    obtain ⟨ps, p, hs, -⟩ := splitOn_append_right (r := []) List.not_mem_nil s
    rw [List.nil_append, hs]
    cases ps with
    | nil => exact ⟨p, [], rfl, rfl⟩
    | cons q ps => exact ⟨q, ps ++ [p], rfl, rfl⟩
  | cons d l ih =>
    rw [List.mem_cons, not_or] at h
    obtain ⟨p, ps, hs, hls⟩ := ih h.2
    refine ⟨p, ps, hs, ?_⟩
    rw [List.cons_append, splitOn, if_neg (Ne.symm h.1), hls]
    rfl

theorem exists_mem_splitOn {c d : Char} {s : List Char} (h : c ∈ s) (hne : c ≠ d) :
    ∃ p ∈ splitOn d s, c ∈ p := by
  induction s with
  | nil => simp at h
  | cons x s ih =>
    by_cases hx : x = d
    · obtain ⟨p, hp, hc⟩ := ih ((List.mem_cons.1 h).resolve_left fun e => hne (e.trans hx))
      exact ⟨p, by rw [splitOn, if_pos hx]; exact List.mem_cons_of_mem _ hp, hc⟩
    · have hl : d ∉ [x] := by simpa using Ne.symm hx
      obtain ⟨q, qs, hs, hxs⟩ := splitOn_append_left hl s
      rw [List.singleton_append] at hxs
      rw [hxs]
      rcases List.mem_cons.1 h with rfl | h
      · exact ⟨[c] ++ q, List.mem_cons_self, by simp⟩
      · obtain ⟨p, hp, hc⟩ := ih h
        rw [hs] at hp
        rcases List.mem_cons.1 hp with rfl | hp
        · exact ⟨[x] ++ p, List.mem_cons_self, by simp [hc]⟩
        · exact ⟨p, List.mem_cons_of_mem _ hp, hc⟩

theorem map_trim_splitOn_trim {c : Char} (hc : isBlank c = false) (s : List Char) :
    (splitOn c (trim s)).map trim = (splitOn c s).map trim := by
  obtain ⟨l, r, hs, hl, hr⟩ := exists_trim s
  have hcl : c ∉ l := fun h => by simp [hl c h] at hc
  have hcr : c ∉ r := fun h => by simp [hr c h] at hc
  obtain ⟨p, ps, hp, hlp⟩ := splitOn_append_left hcl (trim s)
  obtain ⟨qs, q, hq, hqr⟩ := splitOn_append_right hcr (l ++ trim s)
  have hleft : (splitOn c (l ++ trim s)).map trim = (splitOn c (trim s)).map trim := by
    rw [hp, hlp, List.map_cons, List.map_cons, trim_blank_append p hl]
  have hright : (splitOn c (l ++ trim s ++ r)).map trim = (splitOn c (l ++ trim s)).map trim := by
    rw [hq, hqr, List.map_append, List.map_append, List.map_singleton, List.map_singleton,
      trim_append_blank q hr]
  rw [← hleft, ← hright, ← hs]

end Text

open Text

/-! ## References and their parts -/

namespace Reference

/-- The parts that an expression of this reference has. -/
def parts : Reference → List (List Char)
  | name n => [n.toList]
  | item l => [['#'], l.toList]
  | field f l => [f.toList, l.toList]

/-- No part is empty, and no field is named as the items of a list are. -/
def WellFormed : Reference → Prop
  | name n => n ≠ ""
  | item l => l ≠ ""
  | field f l => f ≠ "" ∧ f ≠ "#" ∧ l ≠ ""

end Reference

namespace Tag

/-- The parts of an expression. -/
def parts (e : List Char) : List (List Char) := (splitOn ':' e).map trim

theorem parts_trim (e : List Char) : parts (trim e) = parts e := map_trim_splitOn_trim rfl e

/-- **Reading.** An expression is read to the reference with just its parts. -/
theorem readReference_eq_ok_iff {e : List Char} {v : Reference} :
    readReference e = .ok v ↔ v.WellFormed ∧ parts e = v.parts := by
  unfold readReference
  rw [← parts, parts_trim]
  constructor
  · intro h
    split at h
    · next name hparts =>
      split at h
      · simp at h
      · next hname =>
        obtain rfl := Except.ok.inj h
        simp_all [Reference.WellFormed, Reference.parts]
    · next field list hparts =>
      split at h
      · simp at h
      · next hlist =>
        split at h
        · simp at h
        · next hfield =>
          split at h
          · next hitem =>
            obtain rfl := Except.ok.inj h
            simp_all [Reference.WellFormed, Reference.parts]
          · next hitem =>
            obtain rfl := Except.ok.inj h
            have hne : String.ofList field ≠ "#" := fun e => hitem (String.ofList_injective e)
            simp_all [Reference.WellFormed, Reference.parts]
    · simp at h
  · rintro ⟨hv, hparts⟩
    cases v with
    | name n => simp_all [Reference.WellFormed, Reference.parts]
    | item l => simp_all [Reference.WellFormed, Reference.parts]
    | field f l =>
      obtain ⟨hf, hitem, hl⟩ := hv
      have hne : f.toList ≠ ['#'] := fun e => hitem (String.toList_inj.1 e)
      simp_all [Reference.parts]

theorem parts_ne_nil (e : List Char) : parts e ≠ [] := by
  obtain ⟨p, ps, h, -⟩ := splitOn_append_left (c := ':') (l := []) List.not_mem_nil e
  simp [parts, h]

/-- An expression is read where it has at most two parts, of which none is empty. -/
theorem exists_readReference_iff {e : List Char} :
    (∃ v, readReference e = .ok v) ↔ (parts e).length ≤ 2 ∧ ∀ p ∈ parts e, p ≠ [] := by
  simp only [readReference_eq_ok_iff]
  constructor
  · rintro ⟨v, hv, he⟩
    rw [he]
    cases v <;> simp_all [Reference.parts, Reference.WellFormed]
  · rintro ⟨hlen, hne⟩
    have hnil := parts_ne_nil e
    rcases h : parts e with _ | ⟨a, _ | ⟨b, _ | ⟨c, ps⟩⟩⟩
    · exact absurd h hnil
    · refine ⟨.name (String.ofList a), ?_, by simp [Reference.parts]⟩
      simpa [Reference.WellFormed] using hne a (by simp [h])
    · have ha : a ≠ [] := hne a (by simp [h])
      have hb : b ≠ [] := hne b (by simp [h])
      by_cases hitem : a = ['#']
      · exact ⟨.item (String.ofList b), by simpa [Reference.WellFormed],
          by simp [Reference.parts, hitem]⟩
      · have hfield : String.ofList a ≠ "#" := fun e => hitem (String.ofList_injective e)
        exact ⟨.field (String.ofList a) (String.ofList b),
          by simp [Reference.WellFormed, ha, hb, hfield], by simp [Reference.parts]⟩
    · simp [h] at hlen

/-! ## Variable tags -/

/-- A tag by itself that counts is read as a whole where its closer stands at its end only. -/
theorem findFrom_write {f : Form} {b : List Char} (hcounts : f.Counts b)
    (hcut : cut? f.closer (b ++ f.closer) = some (b, [])) :
    findFrom (f.write b) 0 = match f.read b with
      | .error fault => .error ⟨String.ofList (f.write b), fault⟩
      | .ok tag => .ok (tag.map fun tag => ⟨0, byteLength (f.write b), tag⟩) := by
  have hstarts : Starts (f.write b) f b [] :=
    starts_iff.2 ⟨_, Form.at?_eq_some_iff.2 (by rw [Form.write, List.append_assoc]), hcut, hcounts⟩
  have hlocal : findFrom (f.write b) 0 = (find (f.write b)).map (·.map (Found.toMatch 0)) :=
    find_of_findFrom [] _
  rw [hlocal, find_of_starts hstarts]
  cases f.read b with
  | error fault => rfl
  | ok o => cases o <;> simp [Except.map, Found.toMatch]

/-- The braces of a variable tag close at its end only. -/
def Closes (e : List Char) : Prop :=
  cut? Form.reference.closer (e ++ Form.reference.closer) = some (e, [])

/-- A variable tag is read as a whole where its braces close at its end only and its expression is
read. -/
theorem findFrom_write_iff {e : List Char} {v : Reference} :
    findFrom (Form.reference.write e) 0 =
        .ok (some ⟨0, byteLength (Form.reference.write e), .reference v⟩) ↔
      Closes e ∧ readReference e = .ok v := by
  have hlocal : findFrom (Form.reference.write e) 0 =
      (find (Form.reference.write e)).map (·.map (Found.toMatch 0)) := find_of_findFrom [] _
  have hcloser : ∃ body rest, cut? Form.reference.closer (e ++ Form.reference.closer) =
      some (body, rest) := by
    cases h : cut? Form.reference.closer (e ++ Form.reference.closer) with
    | none => exact absurd (by simp) (cut?_eq_none_iff.1 h e [])
    | some br => exact ⟨br.1, br.2, rfl⟩
  obtain ⟨body, rest, hcut⟩ := hcloser
  have hstarts : Starts (Form.reference.write e) .reference body rest :=
    starts_iff.2 ⟨_, Form.at?_eq_some_iff.2 (by simp [Form.write]), hcut, .inl rfl⟩
  rw [hlocal, find_of_starts hstarts, Closes, hcut]
  have hwrite := hstarts.write
  constructor
  · intro h
    cases hr : readReference body with
    | error fault => simp [Form.read, hr, Except.map] at h
    | ok w =>
      simp only [Form.read, hr, Except.map, Found.toMatch, Option.map_some, byteLength_nil,
        Nat.add_zero, Nat.zero_add, Except.ok.injEq, Option.some.injEq, Match.mk.injEq,
        Tag.reference.injEq, true_and] at h
      obtain ⟨hlen, rfl⟩ := h
      obtain ⟨hbody, hrest⟩ := append_inj_of_byteLength
        ((List.append_nil (Form.reference.write e)).trans hwrite) hlen.symm
      obtain rfl : e = body := by simpa [Form.write] using hbody
      exact ⟨by rw [hrest], hr⟩
  · rintro ⟨h, hr⟩
    obtain ⟨rfl, rfl⟩ := Prod.mk.inj (Option.some.inj h)
    simp [Form.read, hr, Except.map, Found.toMatch]

end Tag

end StaticSite
