import StaticSite.Proofs.Components

/-!
How the spelling of a path counts.

The system reads a path piece by piece, and two spellings with the same components differ in pieces
that stand for nothing. Proved here, for every path:

* `moves_steps`: the steps that go somewhere are those of the components;
* `isAbsolute_eq`: and the components say where they begin;
* `parent?_cases`, `parent?_fits`: the path above is spelled like the path before its last name;
* `trimSlashes_of_tidy`, `trimSlashes_of_parent?`: there are no slashes at the end of such a path.
-/

namespace StaticSite

open Text

/-! ## Pieces -/

namespace Path

variable {p q : Path} {n : String} {first : List Char} {rest : List (List Char)}

/-- The path ends with a component, not with a slash or a point. -/
def Tidy (p : Path) : Prop :=
  ∀ piece, p.pieces.getLast? = some piece → Component.ofPiece? piece ≠ none

/-- No slash is cut off where the last piece is not empty. -/
theorem trimSlashes_of_getLast? (h : p.pieces.getLast? ≠ some []) : Disk.trimSlashes p = p := by
  obtain ⟨k, hpieces, htext, -⟩ := p.pieces_trimSlashes
  cases k with
  | zero =>
    rw [List.replicate_zero, List.append_nil] at htext
    obtain ⟨text⟩ := p
    exact congrArg Path.mk (String.toList_inj.1 htext.symm)
  | succ k =>
    rw [List.replicate_succ', ← List.append_assoc] at hpieces
    exact absurd (by rw [hpieces, List.getLast?_concat]) h

theorem trimSlashes_of_tidy (h : p.Tidy) : Disk.trimSlashes p = p :=
  trimSlashes_of_getLast? fun hlast => h [] hlast rfl

/-- The path above another is empty, or the top, or spelled like the path before its last name. -/
theorem parent?_cases (h : p.parent? = some q) :
    q = ⟨""⟩ ∨ q = ⟨"/"⟩ ∧ p.isAbsolute = true ∨
      ∃ first init, q.pieces = first :: trimPieces init ∧ first :: init <+: p.pieces ∧
        (first = [] → trimPieces init ≠ []) := by
  obtain ⟨first, rest, hp⟩ := p.exists_pieces
  have hbody := body_of_pieces hp
  rcases List.eq_nil_or_concat (trimPieces rest) with hnil | ⟨init, last, hlast⟩
  · rw [hnil] at hbody
    exact .inl (parent?_of_single hbody h)
  · rw [List.concat_eq_append] at hlast
    have hpre : first :: init <+: p.pieces := by
      rw [hp, List.cons_prefix_cons]
      exact ⟨rfl, (List.prefix_append init [last]).trans (hlast ▸ trimPieces_isPrefix rest)⟩
    have hslash : ∀ piece ∈ first :: init, '/' ∉ piece :=
      fun piece hpiece => slash_not_mem_of_mem_pieces (hpre.subset hpiece)
    have habove : (ofPieces (first :: init)).body = first :: trimPieces init :=
      body_of_pieces (pieces_ofPieces (List.cons_ne_nil _ _) hslash)
    rw [hlast, ← List.cons_append] at hbody
    have hq := parent?_of_append hbody (List.cons_ne_nil _ _) h
    rw [habove] at hq
    rcases hq with ⟨htop, rfl⟩ | ⟨htop, rfl⟩
    · obtain ⟨rfl, -⟩ := List.cons.inj htop
      refine .inr (.inl ⟨rfl, (isAbsolute_iff hp).2 ⟨rfl, ?_⟩⟩)
      rintro rfl
      simp [trimPieces] at hlast
    · refine .inr (.inr ⟨first, init, ?_, hpre, fun hnil hinit => htop (by rw [hnil, hinit])⟩)
      refine pieces_ofPieces (List.cons_ne_nil _ _) fun piece hpiece => hslash piece ?_
      exact List.cons_subset_cons first (trimPieces_isPrefix init).subset hpiece

theorem trimSlashes_of_parent? (h : p.parent? = some q) : Disk.trimSlashes q = q := by
  rcases parent?_cases h with rfl | ⟨rfl, -⟩ | ⟨first, init, hpieces, -, hne⟩
  · rfl
  · rfl
  · refine trimSlashes_of_getLast? fun hlast => ?_
    rw [hpieces] at hlast
    rcases List.eq_nil_or_concat (trimPieces init) with hnil | ⟨above, last, hinit⟩
    · rw [hnil, List.getLast?_singleton] at hlast
      exact hne (Option.some.inj hlast) hnil
    · rw [List.concat_eq_append] at hinit
      rw [hinit, ← List.cons_append, List.getLast?_concat] at hlast
      obtain ⟨c, hc⟩ := exists_of_trimPieces hinit
      rw [Option.some.inj hlast] at hc
      cases hc

theorem tidy_of_parent? (h : p.parent? = some q) (hlast : q.components.getLast? = some (.name n)) :
    q.Tidy := by
  rcases parent?_cases h with rfl | ⟨rfl, -⟩ | ⟨first, init, hpieces, -, -⟩
  · cases hlast
  · cases hlast
  · intro piece hpiece
    rw [hpieces] at hpiece
    rcases List.eq_nil_or_concat (trimPieces init) with hnil | ⟨above, last, hinit⟩
    · rw [hnil, List.getLast?_singleton] at hpiece
      obtain rfl := Option.some.inj hpiece
      rw [components_of_pieces (hnil ▸ hpieces), List.filterMap_nil, List.append_nil] at hlast
      unfold leading at hlast
      simp only [ne_eq, not_true_eq_false, and_false, if_false] at hlast
      split at hlast
      · cases hlast
      · intro hnone
        rw [hnone] at hlast
        cases hlast
    · rw [List.concat_eq_append] at hinit
      rw [hinit, ← List.cons_append, List.getLast?_concat] at hpiece
      obtain ⟨c, hc⟩ := exists_of_trimPieces hinit
      rw [← Option.some.inj hpiece, hc]
      exact Option.some_ne_none c

/-- What is joined to a path ends as what it is joined with. -/
theorem tidy_join (hq : q.isAbsolute = false) (h : q.Tidy) : (p.join q).Tidy := by
  intro piece hpiece
  refine h piece ?_
  by_cases hp : p.text.toList = []
  · have hjoin : p.join q = q := by
      unfold join
      rw [hq, String.toList_eq_nil_iff.1 hp]
      simp
    rwa [hjoin] at hpiece
  · obtain ⟨a, hjoin, -⟩ := Disk.exists_join hp hq
    have hpieces : (p.join q).pieces = splitOn '/' a ++ q.pieces := by
      unfold pieces
      rw [hjoin, splitOn_append]
    rw [hpieces, List.getLast?_append] at hpiece
    cases hlast : q.pieces.getLast? with
    | none => exact absurd (List.getLast?_eq_none_iff.1 hlast) (splitOn_ne_nil _ _)
    | some last =>
      rw [hlast] at hpiece
      exact hpiece

theorem tidy_ofNames {names : List String} (h : ∀ n ∈ names, IsName n) (hne : names ≠ []) :
    (Path.mk ("/".intercalate names)).Tidy := by
  have hpieces : (Path.mk ("/".intercalate names)).pieces = names.map String.toList :=
    pieces_ofNames hne h
  intro piece hpiece
  rw [hpieces] at hpiece
  obtain ⟨n, hn, rfl⟩ := List.mem_map.1 (List.mem_of_getLast? hpiece)
  rw [(h n hn).2]
  exact Option.some_ne_none _

theorem tidy_name (h : IsName n) : (Path.mk n).Tidy := by
  have hn : ∀ m ∈ [n], IsName m := by simpa using h
  exact tidy_ofNames hn (List.cons_ne_nil n [])

theorem tidy_ofComponents {names : List String} (h : ∀ n ∈ names, IsName n) (hne : names ≠ []) :
    (ofComponents (names.map .name)).Tidy := by
  obtain ⟨init, n, rfl⟩ := List.eq_nil_or_concat names |>.resolve_left hne
  have hn : IsName n := h n (by simp)
  have hlast : Path.mk (String.ofList (Component.name n).text) = ⟨n⟩ := by
    unfold Component.text
    rw [String.ofList_toList]
  unfold ofComponents
  rw [List.concat_eq_append, List.map_append, List.foldl_append, List.map_singleton,
    List.foldl_cons, List.foldl_nil, hlast]
  exact tidy_join (isAbsolute_name hn) (tidy_name hn)

theorem tidy_withExtension {name ext : String} (h : p.fileName? = some name)
    (hext : ext.isEmpty = false)
    (hnew : IsName (String.ofList ((splitName name.toList).1 ++ '.' :: ext.toList))) :
    (p.withExtension ext).Tidy := by
  generalize hpiece : (splitName name.toList).1 ++ '.' :: ext.toList = new at hnew
  obtain ⟨hslash, hofPiece⟩ := hnew
  rw [String.toList_ofList] at hslash hofPiece
  obtain ⟨first, rest, hp⟩ := p.exists_pieces
  have hbody := body_of_pieces hp
  have hclean : ∀ piece ∈ p.body, '/' ∉ piece := by
    intro piece hmem
    refine slash_not_mem_of_mem_pieces (p := p) ?_
    rw [hbody] at hmem
    rw [hp]
    rcases List.mem_cons.1 hmem with rfl | hmem
    · exact List.mem_cons_self
    · exact List.mem_cons_of_mem _ ((trimPieces_isPrefix rest).subset hmem)
  obtain ⟨last, above, hreverse⟩ : ∃ last above, p.body.reverse = last :: above := by
    refine List.exists_cons_of_ne_nil (List.reverse_ne_nil_iff.2 ?_)
    rw [hbody]
    exact List.cons_ne_nil _ _
  have hwith : p.withExtension ext = ofPieces (above.reverse ++ [new]) := by
    unfold withExtension
    rw [h, hreverse]
    simp only [hext, Bool.false_eq_true, if_false, hpiece]
  have hpieces : (p.withExtension ext).pieces = above.reverse ++ [new] := by
    rw [hwith]
    refine pieces_ofPieces (by simp) fun piece hmem => ?_
    rcases List.mem_append.1 hmem with hmem | hmem
    · refine hclean piece (List.mem_reverse.1 ?_)
      rw [hreverse]
      exact List.mem_cons_of_mem _ (List.mem_reverse.1 hmem)
    · obtain rfl := List.mem_singleton.1 hmem
      exact hslash
  intro piece hlast
  rw [hpieces, List.getLast?_concat] at hlast
  obtain rfl := Option.some.inj hlast
  rw [hofPiece]
  exact Option.some_ne_none _

theorem text_ne_of_tidy (h : p.Tidy) : p.text.toList ≠ [] := by
  intro hnil
  refine h [] ?_ rfl
  unfold pieces
  rw [hnil]
  rfl

/-- Between a tidy path and what it is joined with comes one slash. -/
theorem text_join_of_tidy (hp : p.Tidy) (hq : q.isAbsolute = false) :
    (p.join q).text = p.text ++ "/" ++ q.text := by
  obtain ⟨a, hjoin, ha⟩ := Disk.exists_join (text_ne_of_tidy hp) hq
  rw [← String.toList_inj, hjoin, String.toList_append, String.toList_append]
  rcases ha with ha | ha
  · rw [ha]
    simp
  · refine absurd rfl (hp [] ?_)
    unfold pieces
    rw [ha, splitOn_append, List.getLast?_append]
    rfl

/-! ## Lengths -/

/-- Going down by a name makes a tidy path longer by two bytes or more. -/
theorem utf8ByteSize_join (hp : p.Tidy) (hn : IsName n) :
    p.text.utf8ByteSize + 2 ≤ (p.join ⟨n⟩).text.utf8ByteSize := by
  have hrelative : (Path.mk n).isAbsolute = false := isAbsolute_name hn
  have hnonempty : n.utf8ByteSize ≠ 0 := by
    intro hzero
    obtain rfl := String.utf8ByteSize_eq_zero_iff.1 hzero
    cases hn.2
  have hslash : "/".utf8ByteSize = 1 := rfl
  rw [text_join_of_tidy hp hrelative, String.utf8ByteSize_append, String.utf8ByteSize_append,
    hslash]
  dsimp only
  omega

/-- The system takes the path: it is no longer than paths may be, and without a NUL. -/
structure Fits (p : Path) : Prop where
  noNull : p.text.toList.contains '\x00' = false
  short : p.text.utf8ByteSize ≤ Disk.maxPathBytes

theorem text_ne_of_not_fits (h : ¬ p.Fits) : p.text ≠ "" := by
  intro hempty
  refine h ⟨?_, ?_⟩
  · rw [hempty]
    rfl
  · rw [hempty]
    exact Nat.zero_le _

theorem intercalate_prefix {xs ys : List (List Char)} (h : xs <+: ys) (hne : xs ≠ []) :
    ['/'].intercalate xs <+: ['/'].intercalate ys := by
  obtain ⟨zs, rfl⟩ := h
  induction xs with
  | nil => exact absurd rfl hne
  | cons x xs ih =>
    cases xs with
    | nil =>
      cases zs with
      | nil => exact List.prefix_rfl
      | cons z zs =>
        rw [List.intercalate_singleton, List.cons_append, List.nil_append, List.intercalate_cons_cons,
          List.append_assoc]
        exact List.prefix_append _ _
    | cons y xs =>
      rw [List.intercalate_cons_cons, List.cons_append, List.cons_append, List.intercalate_cons_cons,
        List.append_assoc, List.append_assoc, List.prefix_append_right_inj,
        List.prefix_append_right_inj]
      exact ih (List.cons_ne_nil _ _)

theorem parent?_text_prefix (h : p.parent? = some q) : q.text.toList <+: p.text.toList := by
  rcases parent?_cases h with rfl | ⟨rfl, habs⟩ | ⟨first, init, hpieces, hpre, -⟩
  · exact List.nil_prefix
  · unfold isAbsolute at habs
    obtain ⟨cs, hcs⟩ := List.head?_eq_some_iff.1 (eq_of_beq habs)
    rw [hcs]
    exact ⟨cs, rfl⟩
  · rw [← intercalate_pieces q, ← intercalate_pieces p, hpieces]
    refine intercalate_prefix (List.IsPrefix.trans ?_ hpre) (List.cons_ne_nil _ _)
    rw [List.cons_prefix_cons]
    exact ⟨rfl, trimPieces_isPrefix init⟩

theorem Fits.of_isPrefix (h : p.Fits) (hq : q.text.toList <+: p.text.toList) : q.Fits := by
  obtain ⟨cs, hcs⟩ := hq
  have htext : p.text = q.text ++ String.ofList cs := by
    rw [← String.toList_inj, String.toList_append, String.toList_ofList, hcs]
  refine ⟨?_, ?_⟩
  · have hp := h.noNull
    rw [← hcs, List.contains_append, Bool.or_eq_false_iff] at hp
    exact hp.1
  · have hp := h.short
    rw [htext, String.utf8ByteSize_append] at hp
    omega

end Path

/-! ## Steps -/

namespace Disk

/-- The steps that go somewhere. -/
def moves : List Step → List Step
  | [] => []
  | .stay :: rest => moves rest
  | .up :: rest => .up :: moves rest
  | .into n :: rest => .into n :: moves rest

@[simp] theorem moves_append (xs ys : List Step) : moves (xs ++ ys) = moves xs ++ moves ys := by
  induction xs with
  | nil => rfl
  | cons x xs ih =>
    cases x with
    | stay => exact ih
    | up => exact congrArg (Step.up :: ·) ih
    | into n => exact congrArg (Step.into n :: ·) ih

/-- Going down by a name is one more step. -/
theorem steps_join {p : Path} {n : String} (hp : p.Tidy) (hn : Path.IsName n) :
    steps (p.join ⟨n⟩).text = steps p.text ++ [.into n] := by
  have hrelative : (Path.mk n).isAbsolute = false := Path.isAbsolute_name hn
  have hnames : ∀ m ∈ [n], Path.IsName m := by simpa using hn
  have hpieces : splitOn '/' n.toList = [n.toList] :=
    Path.pieces_ofNames (List.cons_ne_nil n []) hnames
  have htext : (p.join ⟨n⟩).text = String.ofList (p.text.toList ++ '/' :: n.toList) := by
    rw [Path.text_join_of_tidy hp hrelative, ← String.toList_inj]
    simp
  rw [htext, steps_append, String.ofList_toList, hpieces]
  rcases ofPiece_cases n.toList with ⟨hnone, -⟩ | ⟨hup, -⟩ | ⟨m, hname, hstep⟩
  · rw [hn.2] at hnone
    cases hnone
  · rw [hn.2] at hup
    cases hup
  · rw [hn.2] at hname
    obtain rfl := Path.Component.name.inj (Option.some.inj hname)
    rw [List.map_singleton, hstep]

/-- Where a component goes. -/
def move? : Path.Component → Option Step
  | .root | .current => none
  | .parent => some .up
  | .name n => some (.into n)

theorem moves_pieces (ps : List (List Char)) :
    moves (ps.map Step.ofPiece) = (ps.filterMap Path.Component.ofPiece?).filterMap move? := by
  induction ps with
  | nil => rfl
  | cons piece ps ih =>
    rw [List.map_cons, List.filterMap_cons]
    rcases ofPiece_cases piece with ⟨hp, hstep⟩ | ⟨hp, hstep⟩ | ⟨n, hp, hstep⟩
    · rw [hp, hstep]
      exact ih
    · rw [hp, hstep]
      exact congrArg (Step.up :: ·) ih
    · rw [hp, hstep]
      exact congrArg (Step.into n :: ·) ih

/-- **Steps.** The steps that go somewhere are those of the components. -/
theorem moves_steps (p : Path) : moves (steps p.text) = p.components.filterMap move? := by
  obtain ⟨first, rest, hp⟩ := p.exists_pieces
  have hsteps : moves (steps p.text) = moves ((first :: rest).map Step.ofPiece) := by
    unfold Path.pieces at hp
    unfold steps
    rw [hp]
    split
    · next heq =>
      obtain ⟨rfl, rfl⟩ := List.cons.inj heq
      rfl
    · rfl
  have hleading : (Path.leading first rest).filterMap move? =
      (Path.Component.ofPiece? first).toList.filterMap move? := by
    unfold Path.leading
    split
    · next hroot =>
      rw [hroot.1]
      rfl
    · split
      · next hdot =>
        rw [hdot]
        rfl
      · rfl
  rw [hsteps, moves_pieces, Path.components_of_pieces hp, List.filterMap_append, hleading,
    ← List.filterMap_append]
  cases hfirst : Path.Component.ofPiece? first with
  | none => rw [List.filterMap_cons_none hfirst, Option.toList_none, List.nil_append]
  | some c => rw [List.filterMap_cons_some hfirst, Option.toList_some, List.singleton_append]

/-- The components say where a path begins. -/
theorem isAbsolute_eq (p : Path) : p.isAbsolute = (p.components.head? == some .root) := by
  obtain ⟨first, rest, hp⟩ := p.exists_pieces
  have hroot (piece : List Char) : Path.Component.ofPiece? piece ≠ some .root := by
    rcases ofPiece_cases piece with ⟨hpiece, -⟩ | ⟨hpiece, -⟩ | ⟨n, hpiece, -⟩ <;>
      · rw [hpiece]
        exact nofun
  cases habs : p.isAbsolute with
  | true =>
    rw [Path.components_of_pieces hp, Path.leading, if_pos ((Path.isAbsolute_iff hp).1 habs)]
    rfl
  | false =>
    symm
    rw [Bool.eq_false_iff, ne_eq, beq_iff_eq]
    intro hhead
    have hmem := List.mem_of_mem_head? hhead
    rw [Path.components_of_pieces hp, List.mem_append] at hmem
    rcases hmem with hmem | hmem
    · unfold Path.leading at hmem
      rw [if_neg fun h => Bool.eq_false_iff.1 habs ((Path.isAbsolute_iff hp).2 h)] at hmem
      split at hmem
      · simp at hmem
      · exact hroot first (Option.mem_toList.1 hmem)
    · obtain ⟨piece, -, hpiece⟩ := List.mem_filterMap.1 hmem
      exact hroot piece hpiece

end Disk

end StaticSite
