import Mathlib.Data.List.Basic
import StaticSite.Proofs.Walks

/-!
The components of paths that are joined, cut and renamed.

A path is read piece by piece; its components are what the pieces stand for. Proved here, for every
path:

* `components_join`: joining puts the components of a relative path behind those of the other;
* `components_parent?`: the path above has all components but the last, and `ancestors_prefix`: so the
  paths above a path start with the first of its components;
* `components_withExtension`: another extension changes the last component only;
* `relativeTo?_of_append`: what is left of a path that starts with another;
* `withinSite_eq_ok_iff`: the paths that a build takes, and what they come to.
-/

namespace StaticSite

open Text

/-! ## Pieces -/

theorem Text.splitOn_eq (c : Char) (s : List Char) : splitOn c s = s.splitOn c := by
  induction s with
  | nil => rfl
  | cons d s ih =>
    unfold splitOn
    rw [List.splitOn_eq_splitOnP, List.splitOnP_cons_eq_if_modifyHead, ih,
      List.splitOn_eq_splitOnP]
    by_cases h : d = c
    · simp [h]
    · simp only [h, if_false, beq_iff_eq]
      cases hs : s.splitOnP (· == c) with
      | nil => exact absurd hs (List.splitOnP_ne_nil _ _)
      | cons p ps => rfl

theorem Text.not_mem_of_mem_splitOn {c : Char} {s piece : List Char} (h : piece ∈ splitOn c s) :
    c ∉ piece := by
  induction s generalizing piece with
  | nil =>
    obtain rfl := List.mem_singleton.1 h
    exact List.not_mem_nil
  | cons d s ih =>
    unfold splitOn at h
    split at h
    · rcases List.mem_cons.1 h with rfl | h
      · exact List.not_mem_nil
      · exact ih h
    · next hne =>
      split at h
      · obtain rfl := List.mem_singleton.1 h
        simpa using Ne.symm hne
      · next p ps hs =>
        rcases List.mem_cons.1 h with rfl | h
        · have hp : c ∉ p := ih (by simp [hs])
          simpa [hp] using Ne.symm hne
        · exact ih (by simp [hs, h])

theorem Text.eq_of_cutAt? {c : Char} {s b r : List Char} (h : cutAt? c s = some (b, r)) :
    s = b ++ c :: r := by
  induction s generalizing b with
  | nil => cases h
  | cons d s ih =>
    unfold cutAt? at h
    split at h
    · next heq =>
      obtain ⟨rfl, rfl⟩ := Prod.mk.inj (Option.some.inj h)
      rw [heq]
      rfl
    · obtain ⟨⟨b', r'⟩, hcut, heq⟩ := Option.map_eq_some_iff.1 h
      obtain ⟨rfl, rfl⟩ := Prod.mk.inj heq
      rw [ih hcut]
      rfl

namespace Path

variable {p q : Path} {n : String} {names : List String} {first : List Char}
  {rest : List (List Char)}

theorem intercalate_pieces (p : Path) : ['/'].intercalate p.pieces = p.text.toList := by
  unfold pieces
  rw [splitOn_eq, List.intercalate_splitOn]

theorem slash_not_mem_of_mem_pieces {piece : List Char} (h : piece ∈ p.pieces) : '/' ∉ piece :=
  not_mem_of_mem_splitOn h

theorem pieces_ofPieces {ps : List (List Char)} (hne : ps ≠ []) (h : ∀ piece ∈ ps, '/' ∉ piece) :
    (ofPieces ps).pieces = ps := by
  unfold pieces ofPieces
  rw [String.toList_ofList, splitOn_eq, List.splitOn_intercalate '/' h hne]

theorem exists_pieces (p : Path) : ∃ first rest, p.pieces = first :: rest := by
  cases h : p.pieces with
  | nil => exact absurd h (splitOn_ne_nil _ _)
  | cons first rest => exact ⟨first, rest, rfl⟩

theorem isAbsolute_iff (h : p.pieces = first :: rest) :
    p.isAbsolute = true ↔ first = [] ∧ rest ≠ [] := by
  have htext := p.intercalate_pieces
  rw [h] at htext
  unfold isAbsolute
  rw [← htext]
  cases first with
  | nil =>
    cases rest with
    | nil => simp
    | cons next rest => simp [List.intercalate_cons_cons]
  | cons c cs =>
    have hslash : '/' ≠ c :=
      List.ne_of_not_mem_cons (slash_not_mem_of_mem_pieces (h ▸ List.mem_cons_self))
    cases rest with
    | nil => simp [hslash.symm]
    | cons next rest => simp [List.intercalate_cons_cons, hslash.symm]

/-- What the first piece of a path stands for, where others follow it or do not. -/
def leading (first : List Char) (rest : List (List Char)) : List Component :=
  if first = [] ∧ rest ≠ [] then [.root]
  else if first = ['.'] then [.current]
  else (Component.ofPiece? first).toList

theorem components_of_pieces (h : p.pieces = first :: rest) :
    p.components = leading first rest ++ rest.filterMap Component.ofPiece? := by
  unfold components leading
  rw [h]
  dsimp only
  by_cases habs : p.isAbsolute
  · rw [if_pos habs, if_pos ((isAbsolute_iff h).1 habs)]
  · rw [if_neg habs, if_neg fun hroot => habs ((isAbsolute_iff h).2 hroot)]

theorem leading_congr {rest' : List (List Char)} (h : first = [] → (rest = [] ↔ rest' = [])) :
    leading first rest = leading first rest' := by
  unfold leading
  by_cases hfirst : first = []
  · simp [hfirst, h hfirst]
  · simp [hfirst]

theorem leading_dropLast (first : List Char) (rest : List (List Char)) :
    (leading first rest).dropLast = [] := by
  unfold leading
  split
  · rfl
  · split
    · rfl
    · cases Component.ofPiece? first with
      | none => rfl
      | some c => rfl

theorem ofPiece?_eq_none_iff {piece : List Char} :
    Component.ofPiece? piece = none ↔ piece = [] ∨ piece = ['.'] := by
  unfold Component.ofPiece?
  split <;> simp_all

/-! ## Names -/

/-- A text that is one component of a path, and no other than itself. -/
def IsName (n : String) : Prop :=
  '/' ∉ n.toList ∧ Component.ofPiece? n.toList = some (.name n)

instance (n : String) : Decidable (IsName n) := inferInstanceAs (Decidable (_ ∧ _))

theorem isName_of_ofPiece? {piece : List Char} (hslash : '/' ∉ piece)
    (h : Component.ofPiece? piece = some (.name n)) : IsName n := by
  have hn : n = String.ofList piece := by
    unfold Component.ofPiece? at h
    split at h
    · cases h
    · cases h
    · cases h
    · exact (Component.name.inj (Option.some.inj h)).symm
  subst hn
  unfold IsName
  rw [String.toList_ofList]
  exact ⟨hslash, h⟩

theorem isName_ofList {cs : List Char} (hslash : '/' ∉ cs) (h : 2 < cs.length) :
    IsName (String.ofList cs) := by
  refine isName_of_ofPiece? hslash ?_
  unfold Component.ofPiece?
  split <;> simp_all

/-- A temporary name is one component of a path. -/
theorem isName_temporaryName (n : Nat) : IsName (Disk.temporaryName n) := by
  have htext : Disk.temporaryName n = String.ofList (".tmp".toList ++ Nat.toDigits 10 (100000 + n)) := by
    unfold Disk.temporaryName
    rw [Nat.toString_eq_repr, ← Nat.toList_repr, ← String.toList_append, String.ofList_toList]
  rw [htext]
  refine isName_ofList ?_ (by simp)
  rw [List.mem_append]
  rintro (hmem | hmem)
  · exact absurd hmem (by decide)
  · have hdigit := Nat.isDigit_of_mem_toDigits (by decide) (by decide) hmem
    exact absurd hdigit (by decide)

theorem isName_of_mem_components (h : .name n ∈ p.components) : IsName n := by
  obtain ⟨first, rest, hp⟩ := p.exists_pieces
  have hslash : ∀ piece ∈ first :: rest, '/' ∉ piece :=
    fun piece hpiece => slash_not_mem_of_mem_pieces (hp ▸ hpiece)
  rw [components_of_pieces hp] at h
  rcases List.mem_append.1 h with h | h
  · unfold leading at h
    split at h
    · simp at h
    · split at h
      · simp at h
      · exact isName_of_ofPiece? (hslash first List.mem_cons_self) (Option.mem_toList.1 h)
  · obtain ⟨piece, hpiece, hn⟩ := List.mem_filterMap.1 h
    exact isName_of_ofPiece? (hslash piece (List.mem_cons_of_mem _ hpiece)) hn

theorem pieces_ofNames (hne : names ≠ []) (h : ∀ n ∈ names, IsName n) :
    (Path.mk ("/".intercalate names)).pieces = names.map String.toList := by
  unfold pieces
  rw [String.toList_intercalate, splitOn_eq]
  refine List.splitOn_intercalate '/' ?_ (by simpa using hne)
  intro piece hpiece
  obtain ⟨n, hn, rfl⟩ := List.mem_map.1 hpiece
  exact (h n hn).1

/-- Names between slashes are the components of a path. -/
theorem components_ofNames (hne : names ≠ []) (h : ∀ n ∈ names, IsName n) :
    (Path.mk ("/".intercalate names)).components = names.map .name := by
  have hpieces := pieces_ofNames hne h
  have hofPiece (ns : List String) (hns : ∀ n ∈ ns, IsName n) :
      (ns.map String.toList).filterMap Component.ofPiece? = ns.map .name := by
    induction ns with
    | nil => rfl
    | cons n ns ih =>
      have hn := (hns n List.mem_cons_self).2
      simp [hn, ih fun m hm => hns m (List.mem_cons_of_mem _ hm)]
  obtain ⟨n, ns, rfl⟩ := List.exists_cons_of_ne_nil hne
  have hn := (h n List.mem_cons_self).2
  have hempty : n.toList ≠ [] := fun hnil => by simp [hnil, Component.ofPiece?] at hn
  have hdot : n.toList ≠ ['.'] := fun hdot => by simp [hdot, Component.ofPiece?] at hn
  rw [components_of_pieces hpieces, hofPiece ns fun m hm => h m (List.mem_cons_of_mem _ hm)]
  simp [leading, hempty, hdot, hn]

theorem components_name (h : IsName n) : (Path.mk n).components = [.name n] := by
  have hn : ∀ m ∈ [n], IsName m := by simpa using h
  exact components_ofNames (List.cons_ne_nil n []) hn

/-! ## Joining -/

/-- Joining puts the components of a relative path behind those of the other, but for a `.` at its
start. -/
theorem components_join (hq : q.isAbsolute = false) (hcurrent : q.components.head? ≠ some .current) :
    (p.join q).components = p.components ++ q.components := by
  by_cases hp : p.text.toList = []
  · have htext : p.text = "" := String.toList_eq_nil_iff.1 hp
    have hjoin : p.join q = q := by
      unfold join
      rw [hq, htext]
      simp
    have hnone : p.components = [] := by
      obtain ⟨text⟩ := p
      obtain rfl : text = "" := htext
      rfl
    rw [hjoin, hnone]
    rfl
  · obtain ⟨a, hjoin, ha⟩ := Disk.exists_join hp hq
    obtain ⟨first, rest, hfirst⟩ := exists_pieces (Path.mk (String.ofList a))
    obtain ⟨qfirst, qrest, hqfirst⟩ := q.exists_pieces
    have hsplit : splitOn '/' a = first :: rest := by
      unfold pieces at hfirst
      rwa [String.toList_ofList] at hfirst
    have hpieces : (p.join q).pieces = first :: (rest ++ q.pieces) := by
      unfold pieces
      rw [hjoin, splitOn_append, hsplit]
      rfl
    have hqcomponents : q.pieces.filterMap Component.ofPiece? = q.components := by
      have hroot : ¬ (qfirst = [] ∧ qrest ≠ []) := by
        rw [← isAbsolute_iff hqfirst, hq]
        exact Bool.false_ne_true
      have hdot : qfirst ≠ ['.'] := by
        rintro rfl
        rw [components_of_pieces hqfirst] at hcurrent
        exact hcurrent rfl
      rw [components_of_pieces hqfirst, hqfirst, leading, if_neg hroot, if_neg hdot,
        List.filterMap_cons]
      cases Component.ofPiece? qfirst with
      | none => rfl
      | some c => rfl
    rw [components_of_pieces hpieces, List.filterMap_append, hqcomponents, ← List.append_assoc]
    refine congrArg (· ++ q.components) ?_
    rcases ha with ha | ha
    · have hp' : p.pieces = first :: rest := by
        unfold pieces
        rw [ha, hsplit]
      rw [components_of_pieces hp']
      refine congrArg (· ++ _) (leading_congr fun hnil => ?_)
      have hrest : rest ≠ [] := by
        rintro rfl
        have hempty := p.intercalate_pieces
        rw [hp', hnil, List.intercalate_singleton] at hempty
        exact hp hempty.symm
      simp [hrest]
    · have hp' : p.pieces = first :: (rest ++ [[]]) := by
        unfold pieces
        rw [ha, splitOn_append, hsplit]
        rfl
      rw [components_of_pieces hp', List.filterMap_append]
      have hqne : q.pieces ≠ [] := by simp [hqfirst]
      have hleading : leading first (rest ++ q.pieces) = leading first (rest ++ [[]]) :=
        leading_congr (by simp [hqne])
      rw [hleading]
      simp [Component.ofPiece?]

theorem head?_names_ne_current (names : List String) :
    (names.map Component.name).head? ≠ some .current := by
  cases names with
  | nil => exact nofun
  | cons n names => exact nofun

theorem isAbsolute_of_names (h : p.components = names.map .name) : p.isAbsolute = false := by
  obtain ⟨first, rest, hp⟩ := p.exists_pieces
  refine Bool.eq_false_iff.2 fun habs => ?_
  rw [components_of_pieces hp, leading, if_pos ((isAbsolute_iff hp).1 habs)] at h
  cases names with
  | nil => cases h
  | cons n names => cases (List.cons.inj h).1

theorem isAbsolute_name (h : IsName n) : (Path.mk n).isAbsolute = false := by
  have hn : (Path.mk n).components = [n].map .name := components_name h
  exact isAbsolute_of_names hn

theorem components_join_names (h : q.components = names.map .name) :
    (p.join q).components = p.components ++ names.map .name := by
  rw [components_join (isAbsolute_of_names h), h]
  rw [h]
  exact head?_names_ne_current names

theorem components_join_name (p : Path) (h : IsName n) :
    (p.join ⟨n⟩).components = p.components ++ [.name n] := by
  have hn : (Path.mk n).components = [n].map .name := components_name h
  exact components_join_names hn

theorem components_joinAll (p : Path) (h : ∀ n ∈ names, IsName n) :
    (names.foldl (fun p n => p.join ⟨n⟩) p).components = p.components ++ names.map .name := by
  induction names generalizing p with
  | nil => simp
  | cons n names ih =>
    rw [List.foldl_cons, ih _ fun m hm => h m (List.mem_cons_of_mem _ hm),
      components_join_name p (h n List.mem_cons_self), List.append_assoc]
    rfl

theorem components_ofComponents (h : ∀ n ∈ names, IsName n) :
    (ofComponents (names.map .name)).components = names.map .name := by
  have hfold := components_joinAll ⟨""⟩ h
  unfold ofComponents
  rw [List.foldl_map]
  simp only [Component.text, String.ofList_toList]
  exact hfold

/-! ## Cutting -/

theorem componentsAfter?_of_append {cs : List Component} (h : p.components = q.components ++ cs) :
    p.componentsAfter? q = some cs := by
  unfold componentsAfter?
  simp [h]

theorem relativeTo?_of_append {cs : List Component} (h : p.components = q.components ++ cs) :
    p.relativeTo? q = some (ofComponents cs) := by
  unfold relativeTo?
  rw [componentsAfter?_of_append h]
  rfl

theorem startsWith_iff : p.startsWith q = true ↔ q.components <+: p.components := by
  constructor
  · intro h
    unfold startsWith componentsAfter? at h
    dsimp only at h
    split at h
    · next htake =>
      rw [List.prefix_iff_eq_take]
      exact htake.symm
    · cases h
  · rintro ⟨cs, hcs⟩
    unfold startsWith
    rw [componentsAfter?_of_append hcs.symm]
    rfl

theorem filterMap_trimPieces (ps : List (List Char)) :
    (trimPieces ps).filterMap Component.ofPiece? = ps.filterMap Component.ofPiece? := by
  have hcut := congrArg List.reverse
    (List.takeWhile_append_dropWhile (p := fun p => p.isEmpty || p == ['.']) (l := ps.reverse))
  rw [List.reverse_append, List.reverse_reverse] at hcut
  conv_rhs => rw [← hcut, List.filterMap_append]
  have hnone : ((ps.reverse.takeWhile fun p => p.isEmpty || p == ['.']).reverse).filterMap
      Component.ofPiece? = [] := by
    refine List.filterMap_eq_nil_iff.2 fun piece hpiece => ?_
    have hdropped := List.mem_takeWhile_imp (List.mem_reverse.1 hpiece)
    rw [ofPiece?_eq_none_iff]
    simpa using hdropped
  rw [hnone, List.append_nil]
  rfl

theorem trimPieces_isPrefix (ps : List (List Char)) : trimPieces ps <+: ps := by
  unfold trimPieces
  conv_rhs => rw [← List.reverse_reverse ps]
  exact List.reverse_prefix.2 (List.dropWhile_suffix _)

/-- The last piece that is not trimmed stands for something. -/
theorem exists_of_trimPieces {ps init : List (List Char)} {last : List Char}
    (h : trimPieces ps = init ++ [last]) : ∃ c, Component.ofPiece? last = some c := by
  unfold trimPieces at h
  have hhead := congrArg List.reverse h
  rw [List.reverse_reverse, List.reverse_append] at hhead
  have hkept := List.head?_dropWhile_not (fun p : List Char => p.isEmpty || p == ['.']) ps.reverse
  rw [hhead] at hkept
  cases hc : Component.ofPiece? last with
  | some c => exact ⟨c, rfl⟩
  | none =>
    rw [ofPiece?_eq_none_iff] at hc
    simp at hkept
    rcases hc with rfl | rfl
    · simp at hkept
    · simp at hkept

theorem body_of_pieces (h : p.pieces = first :: rest) : p.body = first :: trimPieces rest := by
  unfold body
  rw [h]

/-- How the pieces of a path end: with the first, or with one that stands for the last component. -/
theorem body_cases (h : p.pieces = first :: rest) :
    trimPieces rest = [] ∧ p.components = leading first rest ∨
    ∃ init last c, trimPieces rest = init ++ [last] ∧ Component.ofPiece? last = some c ∧
      rest ≠ [] ∧ p.components = leading first rest ++ init.filterMap Component.ofPiece? ++ [c] := by
  have hcomponents := components_of_pieces h
  rw [← filterMap_trimPieces rest] at hcomponents
  rcases List.eq_nil_or_concat (trimPieces rest) with hnil | ⟨init, last, hlast⟩
  · rw [hnil] at hcomponents
    exact .inl ⟨hnil, by simpa using hcomponents⟩
  · rw [List.concat_eq_append] at hlast
    obtain ⟨c, hc⟩ := exists_of_trimPieces hlast
    refine .inr ⟨init, last, c, hlast, hc, ?_, ?_⟩
    · rintro rfl
      simp [trimPieces] at hlast
    · rw [hlast, List.filterMap_append] at hcomponents
      simpa [hc] using hcomponents

theorem parent?_of_single {piece : List Char} (hbody : p.body = [piece])
    (h : p.parent? = some q) : q = ⟨""⟩ := by
  unfold parent? at h
  rw [hbody] at h
  cases hlast : p.components.getLast? with
  | none =>
    rw [hlast] at h
    cases h
  | some c =>
    rw [hlast] at h
    cases c with
    | root => cases h
    | current | parent | name s => exact (Option.some.inj h).symm

theorem parent?_of_append {ps : List (List Char)} {last : List Char}
    (hbody : p.body = ps ++ [last]) (hps : ps ≠ []) (h : p.parent? = some q) :
    (ofPieces ps).body = [[]] ∧ q = ⟨"/"⟩ ∨
      (ofPieces ps).body ≠ [[]] ∧ q = ofPieces (ofPieces ps).body := by
  obtain ⟨piece, above, habove⟩ := List.exists_cons_of_ne_nil (List.reverse_ne_nil_iff.2 hps)
  have hreverse : p.body.reverse = last :: piece :: above := by
    rw [hbody, List.reverse_append, habove]
    rfl
  have hps' : ps = (piece :: above).reverse := by rw [← habove, List.reverse_reverse]
  rw [hps']
  unfold parent? at h
  rw [hreverse] at h
  cases hlast : p.components.getLast? with
  | none =>
    rw [hlast] at h
    cases h
  | some c =>
    rw [hlast] at h
    cases c with
    | root => cases h
    | current | parent | name s =>
      dsimp only at h
      split at h
      · next htop => exact .inl ⟨htop, (Option.some.inj h).symm⟩
      · next htop => exact .inr ⟨htop, (Option.some.inj h).symm⟩

/-- **The path above** has all components but the last. -/
theorem components_parent? (h : p.parent? = some q) : q.components = p.components.dropLast := by
  obtain ⟨first, rest, hp⟩ := p.exists_pieces
  have hbody := body_of_pieces hp
  rcases body_cases hp with ⟨hnil, hcomponents⟩ | ⟨init, last, c, hlast, hc, hrest, hcomponents⟩
  · rw [hnil] at hbody
    rw [parent?_of_single hbody h, hcomponents, leading_dropLast]
    rfl
  · have hslash : ∀ piece ∈ first :: init, '/' ∉ piece := by
      intro piece hpiece
      refine slash_not_mem_of_mem_pieces (p := p) ?_
      rw [hp]
      rcases List.mem_cons.1 hpiece with rfl | hpiece
      · exact List.mem_cons_self
      · refine List.mem_cons_of_mem _ ((trimPieces_isPrefix rest).subset ?_)
        rw [hlast]
        exact List.mem_append_left _ hpiece
    have habove : (ofPieces (first :: init)).body = first :: trimPieces init :=
      body_of_pieces (pieces_ofPieces (List.cons_ne_nil _ _) hslash)
    rw [hlast, ← List.cons_append] at hbody
    have hq := parent?_of_append hbody (List.cons_ne_nil _ _) h
    rw [habove] at hq
    rw [hcomponents, List.dropLast_concat, ← filterMap_trimPieces init]
    rcases hq with ⟨htop, rfl⟩ | ⟨htop, rfl⟩
    · obtain ⟨rfl, hinit⟩ := List.cons.inj htop
      rw [hinit, leading, if_pos ⟨rfl, hrest⟩]
      rfl
    · have hpieces : (ofPieces (first :: trimPieces init)).pieces = first :: trimPieces init := by
        refine pieces_ofPieces (List.cons_ne_nil _ _) fun piece hpiece => hslash piece ?_
        exact (List.cons_subset_cons first (trimPieces_isPrefix init).subset) hpiece
      rw [components_of_pieces hpieces]
      refine congrArg (· ++ _) (leading_congr fun hnil => ?_)
      have hinit : trimPieces init ≠ [] := fun hinit => htop (by rw [hnil, hinit])
      simp [hinit, hrest]

/-- A path that ends with a component other than the top has one above it. -/
theorem exists_parent? {c : Component} (h : p.components.getLast? = some c) (hc : c ≠ .root) :
    ∃ q, p.parent? = some q := by
  obtain ⟨first, rest, hp⟩ := p.exists_pieces
  have hbody : ∃ last above, p.body.reverse = last :: above := by
    refine List.exists_cons_of_ne_nil (List.reverse_ne_nil_iff.2 ?_)
    rw [body_of_pieces hp]
    exact List.cons_ne_nil _ _
  obtain ⟨last, above, hreverse⟩ := hbody
  unfold parent?
  rw [h, hreverse]
  cases c with
  | root => exact absurd rfl hc
  | current | parent | name s =>
    cases above with
    | nil => exact ⟨_, rfl⟩
    | cons piece above =>
      dsimp only
      split
      · exact ⟨_, rfl⟩
      · exact ⟨_, rfl⟩

theorem components_directory {cs : List Component} (h : p.components = cs ++ [.name n]) :
    p.directory.components = cs := by
  have hlast : p.components.getLast? = some (.name n) := by simp [h]
  obtain ⟨q, hq⟩ := exists_parent? hlast nofun
  unfold directory
  rw [hq, Option.getD_some, components_parent? hq, h, List.dropLast_concat]

/-- The paths above a path start with the first of its components. -/
theorem ancestors_prefix {fuel : Nat} (h : q ∈ Disk.ancestors p fuel) :
    q.components <+: p.components := by
  induction fuel generalizing p with
  | zero => cases h
  | succ fuel ih =>
    rcases List.mem_cons.1 h with rfl | h
    · exact List.prefix_rfl
    · cases hparent : p.parent? with
      | none =>
        rw [hparent] at h
        cases h
      | some above =>
        rw [hparent] at h
        refine (ih h).trans ?_
        rw [components_parent? hparent]
        exact List.dropLast_prefix _

theorem pieces_trimSlashes (p : Path) :
    ∃ k, p.pieces = (Disk.trimSlashes p).pieces ++ List.replicate k [] ∧
      p.text.toList = (Disk.trimSlashes p).text.toList ++ List.replicate k '/' ∧
      (Disk.trimSlashes p).isAbsolute = p.isAbsolute := by
  obtain ⟨k, htext, habs⟩ := Disk.exists_slashes p
  have hsplit (a : List Char) (k : Nat) :
      splitOn '/' (a ++ List.replicate k '/') = splitOn '/' a ++ List.replicate k [] := by
    induction k with
    | zero => simp
    | succ k ih =>
      rw [List.replicate_succ', ← List.append_assoc, splitOn_append, ih, List.append_assoc,
        List.replicate_succ']
      rfl
  refine ⟨k, ?_, htext, habs⟩
  unfold pieces
  rw [htext, hsplit]

theorem components_trimSlashes (p : Path) : (Disk.trimSlashes p).components = p.components := by
  obtain ⟨k, hpieces, -, habs⟩ := p.pieces_trimSlashes
  obtain ⟨first, rest, hfirst⟩ := (Disk.trimSlashes p).exists_pieces
  rw [hfirst, List.cons_append] at hpieces
  rw [components_of_pieces hfirst, components_of_pieces hpieces, List.filterMap_append]
  have hnone : (List.replicate k ([] : List Char)).filterMap Component.ofPiece? = [] := by
    simp [List.filterMap_replicate, Component.ofPiece?]
  rw [hnone, List.append_nil]
  refine congrArg (· ++ _) (leading_congr fun hnil => ?_)
  have habs' := (isAbsolute_iff hfirst).symm.trans ((Bool.eq_iff_iff.1 habs).trans
    (isAbsolute_iff hpieces))
  simp only [hnil, true_and] at habs'
  exact not_iff_not.1 habs'

/-! ## Other extensions -/

theorem splitName_subset {name : List Char} {c : Char} (h : c ∈ (splitName name).1) : c ∈ name := by
  unfold splitName at h
  split at h
  · exact h
  · next ext stem hcut =>
    split at h
    · exact h
    · have hreverse := eq_of_cutAt? hcut
      rw [← List.mem_reverse, hreverse]
      simpa using .inr (.inr (by simpa using h))

theorem fileName?_of_hasExtension {ext : String} (h : p.hasExtension ext = true) :
    ∃ name, p.fileName? = some name := by
  unfold hasExtension extension? at h
  cases hname : p.fileName? with
  | none =>
    rw [hname] at h
    cases h
  | some name => exact ⟨name, rfl⟩

theorem getLast?_of_fileName? {name : String} (h : p.fileName? = some name) :
    p.components.getLast? = some (.name name) := by
  unfold fileName? at h
  split at h
  · next s hs =>
    obtain rfl := Option.some.inj h
    exact hs
  · cases h

theorem components_withExtension {name ext : String} (h : p.fileName? = some name)
    (hext : ext.isEmpty = false)
    (hnew : IsName (String.ofList ((splitName name.toList).1 ++ '.' :: ext.toList))) :
    (p.withExtension ext).components = p.components.dropLast ++
      [.name (String.ofList ((splitName name.toList).1 ++ '.' :: ext.toList))] := by
  obtain ⟨first, rest, hp⟩ := p.exists_pieces
  have hbody := body_of_pieces hp
  generalize hpiece : (splitName name.toList).1 ++ '.' :: ext.toList = piece at hnew ⊢
  obtain ⟨hslash, hofPiece⟩ := hnew
  rw [String.toList_ofList] at hslash hofPiece
  have hwith {last : List Char} {above : List (List Char)} (hreverse : p.body.reverse = last :: above) :
      p.withExtension ext = ofPieces (above.reverse ++ [piece]) := by
    unfold withExtension
    rw [h, hreverse]
    simp only [hext, Bool.false_eq_true, if_false, hpiece]
  rcases body_cases hp with ⟨hnil, hcomponents⟩ | ⟨init, last, c, hlast, hc, hrest, hcomponents⟩
  · rw [hnil] at hbody
    have hreverse : p.body.reverse = [first] := by rw [hbody]; rfl
    rw [hwith hreverse, hcomponents, leading_dropLast]
    have hpieces : (ofPieces [piece]).pieces = [piece] :=
      pieces_ofPieces (List.cons_ne_nil _ _) (by simpa using hslash)
    have hne : piece ≠ [] ∧ piece ≠ ['.'] := by
      rw [← not_or, ← ofPiece?_eq_none_iff, hofPiece]
      exact nofun
    rw [List.reverse_nil, List.nil_append, components_of_pieces hpieces]
    simp [leading, hne, hofPiece]
  · rw [hlast] at hbody
    have hreverse : p.body.reverse = last :: (first :: init).reverse := by
      rw [hbody]
      simp
    have hpieces : (ofPieces (first :: (init ++ [piece]))).pieces = first :: (init ++ [piece]) := by
      refine pieces_ofPieces (List.cons_ne_nil _ _) fun q hq => ?_
      rcases List.mem_cons.1 hq with rfl | hq
      · exact slash_not_mem_of_mem_pieces (hp ▸ List.mem_cons_self)
      · rcases List.mem_append.1 hq with hq | hq
        · refine slash_not_mem_of_mem_pieces (p := p) (hp ▸ List.mem_cons_of_mem _ ?_)
          refine (trimPieces_isPrefix rest).subset ?_
          rw [hlast]
          exact List.mem_append_left _ hq
        · obtain rfl := List.mem_singleton.1 hq
          exact hslash
    have hleading : leading first (init ++ [piece]) = leading first rest :=
      leading_congr (by simp [hrest])
    rw [hwith hreverse, List.reverse_reverse, List.cons_append, components_of_pieces hpieces,
      hcomponents, List.dropLast_concat, List.filterMap_append, hleading]
    simp [hofPiece]

/-! ## Paths of a site -/

/-- The name that a component is, if it is one. -/
def Component.name? : Component → Option String
  | name s => some s
  | _ => none

theorem siteNames_eq_ok_iff {cs : List Component} :
    siteNames cs = .ok names ↔
      (Component.root ∉ cs ∧ Component.parent ∉ cs) ∧ names = cs.filterMap Component.name? := by
  induction cs generalizing names with
  | nil => simp [siteNames, eq_comm]
  | cons c cs ih =>
    cases c with
    | root => simp [siteNames]
    | parent => simp [siteNames]
    | current => simpa [siteNames, List.filterMap_cons, Component.name?] using ih
    | name n =>
      cases hcs : siteNames cs with
      | error fault =>
        have hnot : ¬ ((Component.root ∉ cs ∧ Component.parent ∉ cs) ∧
            cs.filterMap Component.name? = cs.filterMap Component.name?) :=
          mt ih.2 (by simp [hcs])
        simp [siteNames, hcs, Except.map, Component.name?]
        intro hroot hparent
        exact absurd ⟨⟨hroot, hparent⟩, rfl⟩ hnot
      | ok ns =>
        obtain ⟨hcs', rfl⟩ := ih.1 hcs
        simp [siteNames, hcs, Except.map, Component.name?, hcs', eq_comm]

/-- **Paths of a site.** A build takes the paths that neither start at the top nor go up, if there is
a name in them. -/
theorem withinSite_eq_ok_iff :
    p.withinSite = .ok q ↔ (Component.root ∉ p.components ∧ Component.parent ∉ p.components) ∧
      p.components.filterMap Component.name? ≠ [] ∧
      q = ⟨"/".intercalate (p.components.filterMap Component.name?)⟩ := by
  unfold withinSite
  cases h : siteNames p.components with
  | error fault =>
    have hnot : ¬ ((Component.root ∉ p.components ∧ Component.parent ∉ p.components) ∧
        p.components.filterMap Component.name? = p.components.filterMap Component.name?) :=
      mt siteNames_eq_ok_iff.2 (by simp [h])
    simp only [reduceCtorEq, false_iff]
    rintro ⟨hcs, -, -⟩
    exact hnot ⟨hcs, rfl⟩
  | ok names =>
    obtain ⟨hcs, rfl⟩ := siteNames_eq_ok_iff.1 h
    cases hnames : p.components.filterMap Component.name? with
    | nil => simp
    | cons n ns => simp [hcs, eq_comm]

theorem isName_of_mem_filterMap (h : n ∈ p.components.filterMap Component.name?) : IsName n := by
  obtain ⟨c, hc, hn⟩ := List.mem_filterMap.1 h
  cases c with
  | name s =>
    obtain rfl := Option.some.inj hn
    exact isName_of_mem_components hc
  | root | current | parent => cases hn

/-- What a build makes of a path is the names in it. -/
theorem components_withinSite (h : p.withinSite = .ok q) :
    q.components = (p.components.filterMap Component.name?).map .name := by
  obtain ⟨-, hne, rfl⟩ := withinSite_eq_ok_iff.1 h
  exact components_ofNames hne fun n hn => isName_of_mem_filterMap hn

theorem withinSite_idem (h : p.withinSite = .ok q) : q.withinSite = .ok q := by
  have hq := components_withinSite h
  obtain ⟨-, hne, hp⟩ := withinSite_eq_ok_iff.1 h
  have hnames : q.components.filterMap Component.name? = p.components.filterMap Component.name? := by
    rw [hq, List.filterMap_map]
    exact List.filterMap_some
  rw [withinSite_eq_ok_iff, hnames]
  refine ⟨?_, hne, hp⟩
  rw [hq]
  simp

end Path

end StaticSite
