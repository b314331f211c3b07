import StaticSite.Expansion.Placeholders
import StaticSite.Proofs.Logged

/-!
Replacing the tags of a text, seen as one pass over the original text.

The rewriting loop changes the line that it searches, and goes on at a place that depends on the
length of the last value. Proved here, for every frame, every text and all cursors:

* `calls_scan`: the tags of a line are those found by searching the original line, from its start
  and then from the end of each tag;
* `find_of_findFrom`: what is found depends on the text from the starting point on alone;
* `resolveFrom_eq_onePass`: what the loop makes of a line that is half rewritten is what one pass
  makes of the rest of the original line;
* `value_eq_error_iff`, `resolve_fails`: a failure names the line of a tag and its text, unless it is
  that of a file which the tag includes;
* `resolve_eq_onePass`: the same for a whole text, with failures and the numbers of lines.
-/

namespace StaticSite

open Text

/-! ## Slices by byte -/

namespace Text

/-- The text from a byte offset on. -/
def dropBytes (n : Nat) (s : List Char) : List Char := ((splitAtByte? n s).map Prod.snd).getD []

/-- The text between two byte offsets. -/
def slice (i j : Nat) (s : List Char) : List Char :=
  ((splitAtByte? (j - i) (dropBytes i s)).map Prod.fst).getD []

theorem dropBytes_append (a b : List Char) : dropBytes (byteLength a) (a ++ b) = b := by
  simp [dropBytes, splitAtByte?_byteLength]

theorem slice_append (a b c : List Char) :
    slice (byteLength a) (byteLength a + byteLength b) (a ++ (b ++ c)) = b := by
  simp [slice, dropBytes_append, splitAtByte?_byteLength]

/-- A line holds no line feed before its end. -/
theorem no_newline_in_line {s line : List Char} (h : line ∈ lines s) : '\n' ∉ line.dropLast := by
  induction s generalizing line with
  | nil => simp [lines] at h
  | cons c s ih =>
    unfold lines at h
    split at h
    · rcases List.mem_cons.1 h with rfl | h
      · simp
      · exact ih h
    · next hc =>
      split at h
      · rcases List.mem_singleton.1 h with rfl
        simp
      · next l ls hl =>
        rcases List.mem_cons.1 h with rfl | h
        · cases l with
          | nil => simp
          | cons d l =>
            have hd : '\n' ∉ (d :: l).dropLast := ih (by rw [hl]; exact List.mem_cons_self)
            rw [List.dropLast_cons_cons, List.mem_cons, not_or]
            exact ⟨fun e => hc e.symm, hd⟩
        · exact ih (by rw [hl]; exact List.mem_cons_of_mem _ h)

/-- The first line of a text, and the text of the others. A line with another after it ends in
the one line feed that it holds. -/
theorem lines_eq_cons {s line : List Char} {rest : List (List Char)} (h : lines s = line :: rest) :
    ∃ r, s = line ++ r ∧ rest = lines r ∧ (rest ≠ [] → line.count '\n' = 1) := by
  induction s generalizing line rest with
  | nil => simp [lines] at h
  | cons c s ih =>
    unfold lines at h
    split at h
    · next hc =>
      obtain ⟨rfl, rfl⟩ := List.cons.inj h
      exact ⟨s, by simp [hc], rfl, fun _ => by simp⟩
    · next hc =>
      split at h
      · next hl =>
        obtain ⟨rfl, rfl⟩ := List.cons.inj h
        have hs : s = [] := by
          have := flatten_lines s
          rw [hl] at this
          simpa using this.symm
        exact ⟨[], by simp [hs], by simp [lines], fun h => absurd rfl h⟩
      · next l ls hl =>
        obtain ⟨rfl, rfl⟩ := List.cons.inj h
        obtain ⟨r, hs, hr, hn⟩ := ih hl
        refine ⟨r, by simp [hs], hr, fun h => ?_⟩
        rw [List.count_cons_of_ne hc]
        exact hn h

end Text

/-! ## The tags of a line -/

namespace Tag

/-- The tags of a line from a byte offset on, and the failure that ends them: each search starts
where the tag before it ends, and all of them are made in the same line. -/
inductive Calls (line : List Char) : Nat → List Match → Option TagError → Prop
  | stop {offset : Nat} : findFrom line offset = .ok none → Calls line offset [] none
  | fail {offset : Nat} {e : TagError} :
      findFrom line offset = .error e → Calls line offset [] (some e)
  | next {offset : Nat} {m : Match} {ms : List Match} {e : Option TagError} :
      findFrom line offset = .ok (some m) → Calls line m.stop ms e → Calls line offset (m :: ms) e

/-- **Locality.** A search in a line sees only the text from its starting point on. -/
theorem find_of_findFrom (a b : List Char) :
    findFrom (a ++ b) (byteLength a) = (find b).map (·.map (Found.toMatch (byteLength a))) := by
  simp [findFrom, splitAtByte?_byteLength]

theorem scanFrom_error {s : List Char} {e : TagError} (offset : Nat) (h : find s = .error e) :
    scanFrom offset s = ([], some e) := by
  rw [scanFrom]
  split <;> simp_all

theorem scanFrom_none {s : List Char} (offset : Nat) (h : find s = .ok none) :
    scanFrom offset s = ([], none) := by
  rw [scanFrom]
  split <;> simp_all

theorem scanFrom_some {s : List Char} {f : Found} (offset : Nat) (h : find s = .ok (some f)) :
    scanFrom offset s =
      (f.toMatch offset :: (scanFrom (f.toMatch offset).stop f.after).1,
        (scanFrom (f.toMatch offset).stop f.after).2) := by
  rw [scanFrom]
  split
  · simp_all
  · simp_all
  · next g hg =>
    obtain rfl : g = f := by simpa [hg] using h
    rfl

/-- Where a tag that was found after the text `a` ends, the text `a`, what stands before the tag
and the tag itself have been passed. -/
theorem toMatch_stop (a : List Char) (f : Found) :
    (f.toMatch (byteLength a)).stop = byteLength (a ++ f.before ++ f.text) := by
  simp [Found.toMatch, Nat.add_assoc]

/-- Searching goes on behind each tag, in the same line: the induction is on the length of what is
left of it. -/
theorem calls_scanFrom (a b : List Char) :
    Calls (a ++ b) (byteLength a) (scanFrom (byteLength a) b).1 (scanFrom (byteLength a) b).2 := by
  induction h : b.length using Nat.strongRecOn generalizing a b with
  | _ n ih =>
    subst h
    have hl := find_of_findFrom a b
    cases hf : find b with
    | error e =>
      rw [scanFrom_error _ hf]
      exact .fail (by rw [hl, hf]; rfl)
    | ok o =>
      cases o with
      | none =>
        rw [scanFrom_none _ hf]
        exact .stop (by rw [hl, hf]; rfl)
      | some f =>
        rw [scanFrom_some _ hf]
        refine .next (by rw [hl, hf]; rfl) ?_
        have hb : a ++ b = a ++ f.before ++ f.text ++ f.after := by
          rw [(find_eq_append hf).1]
          simp
        have := ih f.after.length (length_after_lt hf) (a ++ f.before ++ f.text) f.after rfl
        rw [toMatch_stop, hb]
        exact this

/-- The tags of a line are those found in the original line, from 0 and then from the end of each
tag. -/
theorem calls_scan (line : List Char) : Calls line 0 (scan line).1 (scan line).2 :=
  calls_scanFrom [] line

/-- The text of a malformed tag is a part of the text searched. -/
theorem find_error_eq_append {s : List Char} {e : TagError} (h : find s = .error e) :
    ∃ a b, s = a ++ e.text.toList ++ b ∧ e.text.toList ≠ [] := by
  induction s with
  | nil => simp [find] at h
  | cons c cs ih =>
    have skip : (find cs).map (Option.map fun f => { f with before := c :: f.before }) = .error e →
        ∃ a b, c :: cs = a ++ e.text.toList ++ b ∧ e.text.toList ≠ [] := by
      intro hs
      cases hc : find cs with
      | ok o => simp [hc, Except.map] at hs
      | error e' =>
        obtain rfl : e' = e := by simpa [hc, Except.map] using hs
        obtain ⟨a, b, hab, hne⟩ := ih hc
        exact ⟨c :: a, b, by simp [hab], hne⟩
    unfold find at h
    simp only at h
    split at h
    · exact skip h
    · next form rest hform =>
      split at h
      · exact skip h
      · next body rest' hcut =>
        split at h
        · obtain rfl := Except.error.inj h
          have hopen : form.opener ≠ [] := by cases form <;> decide
          refine ⟨[], rest', ?_, by simp [hopen]⟩
          rw [Form.eq_of_at? hform, eq_of_cut? hcut]
          simp
        · exact skip h
        · simp at h

end Tag

/-! ## One pass over the original text -/

/-- A part of a text: what is kept as it is, a tag, or a malformed tag. Tags carry the number of
their line. -/
inductive Piece where
  | plain (s : List Char)
  | tag (line : Nat) (text : List Char) (tag : Tag)
  | fault (line : Nat) (cause : TagError)

namespace Piece

/-- The pieces of a line from a byte offset on, for the tags that are found there. -/
def ofLine (number : Nat) (line : List Char) : Nat → List Tag.Match → Option TagError → List Piece
  | offset, [], none => [plain (dropBytes offset line)]
  | _, [], some e => [fault number e]
  | offset, m :: ms, e =>
    plain (slice offset m.start line) :: tag number (slice m.start m.stop line) m.tag ::
      ofLine number line m.stop ms e

/-- The pieces of lines that follow the text `before`. -/
def ofLines (before : List Char) : List (List Char) → List Piece
  | [] => []
  | line :: rest =>
    ofLine (1 + before.count '\n') line 0 (Tag.scan line).1 (Tag.scan line).2 ++
      ofLines (before ++ line) rest

/-- The pieces of a text in document order. -/
def ofText (s : List Char) : List Piece := ofLines [] (lines s)

/-- What a piece is made from. -/
def text : Piece → List Char
  | plain s => s
  | tag _ s _ => s
  | fault _ e => e.text.toList

/-- The number of the line that a tag stands in. -/
def line? : Piece → Option Nat
  | plain _ => none
  | tag n _ _ | fault n _ => some n

/-- The pieces of a line `a ++ b` from the end of `a` on. -/
def ofRest (number : Nat) (a b : List Char) : List Piece :=
  ofLine number (a ++ b) (byteLength a) (Tag.scanFrom (byteLength a) b).1
    (Tag.scanFrom (byteLength a) b).2

theorem ofRest_error {b : List Char} {e : TagError} (number : Nat) (a : List Char)
    (h : Tag.find b = .error e) : ofRest number a b = [fault number e] := by
  simp [ofRest, Tag.scanFrom_error _ h, ofLine]

theorem ofRest_none {b : List Char} (number : Nat) (a : List Char)
    (h : Tag.find b = .ok none) : ofRest number a b = [plain b] := by
  simp [ofRest, Tag.scanFrom_none _ h, ofLine, dropBytes_append]

theorem ofRest_some {b : List Char} {f : Tag.Found} (number : Nat) (a : List Char)
    (h : Tag.find b = .ok (some f)) :
    ofRest number a b =
      plain f.before :: tag number f.text f.tag ::
        ofRest number (a ++ f.before ++ f.text) f.after := by
  have hb := (Tag.find_eq_append h).1
  have hline : a ++ f.before ++ f.text ++ f.after = a ++ b := by
    rw [hb]
    simp
  have hbefore : slice (byteLength a) (f.toMatch (byteLength a)).start (a ++ b) = f.before := by
    rw [hb, List.append_assoc f.before]
    exact slice_append a f.before (f.text ++ f.after)
  have htext : slice (f.toMatch (byteLength a)).start (f.toMatch (byteLength a)).stop (a ++ b) =
      f.text := by
    have := slice_append (a ++ f.before) f.text f.after
    rw [byteLength_append, List.append_assoc, ← List.append_assoc f.before, ← hb] at this
    exact this
  unfold ofRest
  rw [Tag.scanFrom_some _ h, ofLine, hbefore, htext, Tag.toMatch_stop, hline]
  rfl

/-- The tags among the pieces stand in the line itself, under its number. -/
theorem exists_of_mem_ofRest {p : Piece} {number n : Nat} {a b : List Char}
    (hp : p ∈ ofRest number a b) (hn : p.line? = some n) :
    n = number ∧ p.text ≠ [] ∧ ∃ x y, a ++ b = x ++ p.text ++ y := by
  induction h : b.length using Nat.strongRecOn generalizing a b with
  | _ k ih =>
    subst h
    cases hf : Tag.find b with
    | error e =>
      rw [ofRest_error _ _ hf] at hp
      obtain rfl := List.mem_singleton.1 hp
      obtain ⟨x, y, hb, hne⟩ := Tag.find_error_eq_append hf
      exact ⟨by simpa [line?] using hn.symm, hne, a ++ x, y, by simp [hb, text]⟩
    | ok o =>
      cases o with
      | none =>
        rw [ofRest_none _ _ hf] at hp
        obtain rfl := List.mem_singleton.1 hp
        simp [line?] at hn
      | some f =>
        obtain ⟨hb, hne⟩ := Tag.find_eq_append hf
        rw [ofRest_some _ _ hf, List.mem_cons, List.mem_cons] at hp
        rcases hp with rfl | rfl | hp
        · simp [line?] at hn
        · exact ⟨by simpa [line?] using hn.symm, hne, a ++ f.before, f.after, by simp [text, hb]⟩
        · obtain ⟨hnum, hpne, x, y, hxy⟩ := ih f.after.length (Tag.length_after_lt hf) hp rfl
          exact ⟨hnum, hpne, x, y, by rw [← hxy, hb]; simp⟩

/-- Where no tag is malformed, nothing is lost between the pieces. -/
theorem flatten_text_ofRest {number : Nat} {a b : List Char}
    (h : ∀ n e, fault n e ∉ ofRest number a b) : ((ofRest number a b).map text).flatten = b := by
  induction hk : b.length using Nat.strongRecOn generalizing a b with
  | _ k ih =>
    subst hk
    cases hf : Tag.find b with
    | error e =>
      rw [ofRest_error _ _ hf] at h
      exact absurd List.mem_cons_self (h number e)
    | ok o =>
      cases o with
      | none => simp [ofRest_none _ _ hf, text]
      | some f =>
        rw [ofRest_some _ _ hf] at h ⊢
        have := ih f.after.length (Tag.length_after_lt hf)
          (fun n e he => h n e (List.mem_cons_of_mem _ (List.mem_cons_of_mem _ he))) rfl
        simp only [List.map_cons, List.flatten_cons, text, this]
        rw [(Tag.find_eq_append hf).1]
        simp

theorem ofLines_cons (before line : List Char) (rest : List (List Char)) :
    ofLines before (line :: rest) =
      ofRest (1 + before.count '\n') [] line ++ ofLines (before ++ line) rest := rfl

/-- **Places.** A tag of a text stands in the original text, in the line of its number. -/
theorem exists_of_mem_ofLines {p : Piece} {n : Nat} {before s : List Char}
    (hp : p ∈ ofLines before (lines s)) (hn : p.line? = some n) :
    ∃ x y, before ++ s = x ++ p.text ++ y ∧ n = 1 + x.count '\n' := by
  induction h : lines s generalizing s before with
  | nil => simp [h, ofLines] at hp
  | cons line rest ih =>
    obtain ⟨r, hs, hr, -⟩ := lines_eq_cons h
    rw [h, ofLines_cons, List.mem_append] at hp
    rcases hp with hp | hp
    · obtain ⟨hnum, hne, x, y, hxy⟩ := exists_of_mem_ofRest hp hn
      have hs' : before ++ s = before ++ x ++ p.text ++ (y ++ r) := by
        rw [hs, ← List.nil_append line, hxy]
        simp
      refine ⟨before ++ x, y ++ r, hs', ?_⟩
      have hnl : '\n' ∉ line.dropLast := no_newline_in_line (by rw [h]; exact List.mem_cons_self)
      have hx : '\n' ∉ x := by
        intro hmem
        apply hnl
        rw [← List.nil_append line, hxy, List.append_assoc,
          List.dropLast_append_of_ne_nil (by simp [hne])]
        exact List.mem_append_left _ hmem
      rw [hnum, List.count_append, List.count_eq_zero_of_not_mem hx]
      rfl
    · rw [hr] at hp
      obtain ⟨x, y, hxy, hx⟩ := ih hp hr.symm
      exact ⟨x, y, by rw [← hxy, hs]; simp, hx⟩

theorem flatten_text_ofLines {before s : List Char}
    (h : ∀ n e, fault n e ∉ ofLines before (lines s)) :
    ((ofLines before (lines s)).map text).flatten = s := by
  induction hl : lines s generalizing s before with
  | nil =>
    have := flatten_lines s
    rw [hl] at this
    simpa [ofLines] using this
  | cons line rest ih =>
    obtain ⟨r, hs, hr, -⟩ := lines_eq_cons hl
    rw [hl, ofLines_cons] at h
    have hline := flatten_text_ofRest fun n e he => h n e (List.mem_append_left _ he)
    have hrest : ((ofLines (before ++ line) rest).map text).flatten = r :=
      ih (fun n e he => h n e (List.mem_append_right _ (hr ▸ he))) hr.symm
    rw [ofLines_cons, List.map_append, List.flatten_append, hline, hrest, hs]

end Piece

namespace Frame

/-- Replaces the tags among the pieces of a text by their values, up to the first failure. The
cursors go from one tag to the next. -/
def onePass (fr : Frame) : List Piece → Cursors → Logged SiteError (List Char × Cursors)
  | [], t => .ok ([], t)
  | .plain s :: rest, t => do
    let (out, t) ← fr.onePass rest t
    return (s ++ out, t)
  | .tag line text tag :: rest, t => do
    let (v, t) ← fr.value line ⟨[], text, [], tag⟩ t
    let (out, t) ← fr.onePass rest t
    return (v ++ out, t)
  | .fault line e :: _, _ => .fail (.malformedTag fr.origin.text line e)

variable (fr : Frame)

theorem onePass_append (ps qs : List Piece) (t : Cursors) :
    fr.onePass (ps ++ qs) t = (do
      let (a, t) ← fr.onePass ps t
      let (b, t) ← fr.onePass qs t
      return (a ++ b, t)) := by
  induction ps generalizing t with
  | nil => simp [onePass]
  | cons p ps ih =>
    cases p with
    | plain s => simp [onePass, ih]
    | tag line text tag => simp [onePass, ih]
    | fault line e => simp [onePass]

/-- The value of a tag does not depend on what stands around it. -/
theorem value_congr (line : Nat) (f : Tag.Found) (t : Cursors) :
    fr.value line f t = fr.value line ⟨[], f.text, [], f.tag⟩ t := rfl

theorem resolveFrom_error {line : List Char} {start : Nat} {e : TagError} (number : Nat)
    (t : Cursors) (h : Tag.find (line.drop start) = .error e) :
    fr.resolveFrom number line start t = .fail (.malformedTag fr.origin.text number e) := by
  rw [resolveFrom]
  split <;> simp_all

theorem resolveFrom_none {line : List Char} {start : Nat} (number : Nat)
    (t : Cursors) (h : Tag.find (line.drop start) = .ok none) :
    fr.resolveFrom number line start t = .ok (line, t) := by
  rw [resolveFrom]
  split <;> simp_all

theorem resolveFrom_some {line : List Char} {start : Nat} {f : Tag.Found} (number : Nat)
    (t : Cursors) (h : Tag.find (line.drop start) = .ok (some f)) :
    fr.resolveFrom number line start t = (do
      let (v, t) ← fr.value number f t
      let stop := start + f.before.length
      fr.resolveFrom number (line.take stop ++ v ++ f.after) (stop + v.length) t) := by
  rw [resolveFrom]
  split
  · simp_all
  · simp_all
  · next g hg =>
    obtain rfl : g = f := by simpa [hg] using h
    rfl

/-- **Loop invariant.** The line under way is `done ++ rest` where the original line is
`passed ++ rest`, whatever the values in `done` are: the loop goes on as one pass over the original
line would, from the end of `passed`. -/
theorem resolveFrom_eq_onePass (number : Nat) (passed rest done : List Char) (t : Cursors) :
    fr.resolveFrom number (done ++ rest) done.length t = (do
      let (out, t) ← fr.onePass (Piece.ofRest number passed rest) t
      return (done ++ out, t)) := by
  induction h : rest.length using Nat.strongRecOn generalizing passed rest done t with
  | _ n ih =>
    subst h
    have hfind : Tag.find ((done ++ rest).drop done.length) = Tag.find rest := by
      rw [List.drop_left]
    cases hf : Tag.find rest with
    | error e =>
      rw [fr.resolveFrom_error number t (hfind.trans hf), Piece.ofRest_error _ _ hf]
      simp [onePass]
    | ok o =>
      cases o with
      | none =>
        rw [fr.resolveFrom_none number t (hfind.trans hf), Piece.ofRest_none _ _ hf]
        simp [onePass]
      | some f =>
        have htake : (done ++ rest).take (done.length + f.before.length) = done ++ f.before := by
          rw [(Tag.find_eq_append hf).1, List.append_assoc f.before, ← List.append_assoc,
            ← List.length_append, List.take_left]
        rw [fr.resolveFrom_some number t (hfind.trans hf), Piece.ofRest_some _ _ hf]
        simp only [onePass, htake, fr.value_congr number f, bind_assoc, pure_bind]
        refine congrArg _ (funext fun (v, t) => ?_)
        have hpassed := ih f.after.length (Tag.length_after_lt hf) (passed ++ f.before ++ f.text)
          f.after (done ++ f.before ++ v) t rfl
        rw [List.length_append, List.length_append] at hpassed
        rw [hpassed]
        simp

/-- Only a line with a line feed has another after it, so the numbers of the lines agree. -/
theorem resolveLines_eq_onePass (s before : List Char) (t : Cursors) :
    fr.resolveLines (1 + before.count '\n') t (lines s) = (do
      let (out, _) ← fr.onePass (Piece.ofLines before (lines s)) t
      return out) := by
  induction h : lines s generalizing s before t with
  | nil => simp [resolveLines, Piece.ofLines, onePass]
  | cons line rest ih =>
    obtain ⟨r, -, hr, hn⟩ := lines_eq_cons h
    have hline := fr.resolveFrom_eq_onePass (1 + before.count '\n') [] line [] t
    rw [List.nil_append, List.length_nil] at hline
    simp only [resolveLines, Piece.ofLines_cons, onePass_append, hline, bind_assoc, pure_bind,
      List.nil_append]
    refine congrArg _ (funext fun (out, t) => ?_)
    cases rest with
    | nil => simp [resolveLines, Piece.ofLines, onePass]
    | cons next rest =>
      have hcount : 1 + before.count '\n' + 1 = 1 + (before ++ line).count '\n' := by
        rw [List.count_append, hn (by simp)]
        omega
      rw [hcount, ih r (before ++ line) t hr.symm]
      simp

theorem resolve_eq (t : Cursors) (markup : String) :
    fr.resolve t markup = do
      let (out, _) ← fr.onePass (Piece.ofText markup.toList) t
      return String.ofList out := by
  have := fr.resolveLines_eq_onePass markup.toList [] t
  rw [List.count_nil] at this
  rw [resolve, this]
  simp [Piece.ofText]

/-- What can be said of a piece that fails. A tag is named by its line and its text as it stands
there; a file that it includes has failures of its own. -/
inductive Fails (fr : Frame) : Piece → SiteError → Prop
  | malformed (line : Nat) (cause : TagError) :
    fr.Fails (.fault line cause) (.malformedTag fr.origin.text line cause)
  | unresolved {line : Nat} {text : List Char} {r : Reference} {t : Cursors} {why : Unresolved}
      (h : fr.scope.read t r = .error why) :
    fr.Fails (.tag line text (.reference r))
      (.unresolvedPlaceholder fr.origin.text line (String.ofList text) why)
  | unsupported {line : Nat} {text : List Char} {kind path : String}
      (h : SourceKind.ofTag? kind = none) :
    fr.Fails (.tag line text (.file kind path))
      (.unsupportedInclude fr.origin.text line (String.ofList text) kind)
  | file {line : Nat} {text : List Char} {kind path : String} {k : SourceKind} {e : SiteError}
      (hkind : SourceKind.ofTag? kind = some k) (h : (fr.fileText k path line).result = .error e) :
    fr.Fails (.tag line text (.file kind path)) e

/-- **Failures.** A tag fails with its own line and text. -/
theorem value_eq_error_iff {line : Nat} {text : List Char} {tag : Tag} {e : SiteError} :
    (∃ t, (fr.value line ⟨[], text, [], tag⟩ t).result = .error e) ↔
      fr.Fails (.tag line text tag) e := by
  constructor
  · rintro ⟨t, h⟩
    unfold value at h
    cases tag with
    | reference r =>
      dsimp only at h
      cases hread : fr.scope.read t r with
      | ok vt =>
        rw [hread] at h
        cases h
      | error why =>
        rw [hread] at h
        obtain rfl := Except.error.inj h
        exact .unresolved hread
    | file kind path =>
      dsimp only at h
      cases hkind : SourceKind.ofTag? kind with
      | none =>
        rw [hkind] at h
        obtain rfl := Except.error.inj h
        exact .unsupported hkind
      | some k =>
        rw [hkind] at h
        rcases Logged.bind_eq_error h with hfile | ⟨_, -, hfails⟩
        · exact .file hkind hfile
        · cases hfails
  · intro h
    unfold value
    cases h with
    | @unresolved _ _ _ t _ hread =>
      refine ⟨t, ?_⟩
      dsimp only
      rw [hread]
      rfl
    | unsupported hkind =>
      refine ⟨[], ?_⟩
      dsimp only
      rw [hkind]
      rfl
    | file hkind hfile =>
      refine ⟨[], ?_⟩
      dsimp only
      rw [hkind, Logged.result_bind, hfile]
      rfl

/-- One pass fails as one of the pieces does. -/
theorem onePass_fails {ps : List Piece} {t : Cursors} {e : SiteError}
    (h : (fr.onePass ps t).result = .error e) : ∃ p ∈ ps, fr.Fails p e := by
  induction ps generalizing t with
  | nil => cases h
  | cons p rest ih =>
    have hlater {v : List Char} {t : Cursors}
        (hrest : (do let (out, t) ← fr.onePass rest t; return (v ++ out, t) :
          Logged SiteError (List Char × Cursors)).result = .error e) :
        ∃ q ∈ p :: rest, fr.Fails q e := by
      rcases Logged.bind_eq_error hrest with hfails | ⟨_, -, hfails⟩
      · obtain ⟨q, hq, hqfails⟩ := ih hfails
        exact ⟨q, List.mem_cons_of_mem p hq, hqfails⟩
      · cases hfails
    cases p with
    | plain s => exact hlater h
    | tag line text tag =>
      rcases Logged.bind_eq_error h with hvalue | ⟨_, -, hrest⟩
      · exact ⟨_, List.mem_cons_self, fr.value_eq_error_iff.1 ⟨t, hvalue⟩⟩
      · exact hlater hrest
    | fault line cause =>
      obtain rfl := Except.error.inj h
      exact ⟨_, List.mem_cons_self, .malformed line cause⟩

/-- A text that fails fails at one of its tags. -/
theorem resolve_fails {t : Cursors} {markup : String} {e : SiteError}
    (h : (fr.resolve t markup).result = .error e) :
    ∃ p ∈ Piece.ofText markup.toList, fr.Fails p e := by
  rw [fr.resolve_eq] at h
  rcases Logged.bind_eq_error h with hfails | ⟨_, -, hfails⟩
  · exact fr.onePass_fails hfails
  · cases hfails

/-- Reading a file leaves the cursors where they are. -/
theorem cursors_of_file {line : Nat} {kind path : String} {text : List Char} {t : Cursors}
    {r : List Char × Cursors} (h : (fr.value line ⟨[], text, [], .file kind path⟩ t).result = .ok r) :
    r.2 = t := by
  simp only [value] at h
  split at h
  · simp [Logged.fail] at h
  · next k _ =>
    rw [Logged.result_bind] at h
    cases hf : (fr.fileText k path line).result with
    | error e => simp [hf, bind, Except.bind] at h
    | ok s =>
      obtain rfl : (s.toList, t) = r := by simpa [hf, bind, Except.bind] using h
      rfl

/-- **One pass.** The rewriting loop replaces the tags of the original text by their values, in
document order and up to the first failure. The tags of a line are those found in the original
line; each stands in the text under the number of its line; the text between the tags is kept; and
only references move the cursors. -/
theorem resolve_eq_onePass (t : Cursors) (markup : String) :
    (fr.resolve t markup = do
      let (out, _) ← fr.onePass (Piece.ofText markup.toList) t
      return String.ofList out) ∧
    (∀ line ∈ lines markup.toList, Tag.Calls line 0 (Tag.scan line).1 (Tag.scan line).2) ∧
    (∀ p ∈ Piece.ofText markup.toList, ∀ n, p.line? = some n →
      ∃ before after, markup.toList = before ++ p.text ++ after ∧ n = 1 + before.count '\n') ∧
    ((∀ n e, .fault n e ∉ Piece.ofText markup.toList) →
      ((Piece.ofText markup.toList).map Piece.text).flatten = markup.toList) ∧
    ∀ line kind path text r t, (fr.value line ⟨[], text, [], .file kind path⟩ t).result = .ok r →
      r.2 = t := by
  refine ⟨fr.resolve_eq t markup, fun line _ => Tag.calls_scan line, fun p hp n hn => ?_,
    fun h => Piece.flatten_text_ofLines h, fun line kind path text r t h => fr.cursors_of_file h⟩
  exact Piece.exists_of_mem_ofLines hp hn

end Frame

end StaticSite
