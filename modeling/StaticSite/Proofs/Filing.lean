import Mathlib.Data.List.Nodup
import Mathlib.Data.List.Perm.Subperm
import StaticSite.Proofs.Making

/-!
Files below a directory.

Proved here, for every disk, where a path leads to a directory without links below:

* `copyFile_agree`: a file is copied below without changing anything elsewhere;
* `freeName_free`: one of the names for temporary files is free, as there are more of them than entries;
* `locateDirectory_below`, `replaceFile_below`: what comes of putting a file in its place, which hangs
  on the place alone and not on the temporary name;
* `replaceFile_agree`: and nothing changes elsewhere.
-/

namespace StaticSite

namespace Disk

variable {t t' : FileTree} {d d' : Disk} {p q : Path} {out : Location} {names : List String}

theorem isBelow_append {rest : Location} (hne : rest ≠ []) :
    FileTree.isBelow out (out ++ rest) = true := by
  rw [FileTree.isBelow_iff]
  exact ⟨List.prefix_append _ _, fun h => hne (by simpa using h)⟩

theorem insert_file_agree (hlinks : NoLinkBelow d.tree out) {loc : Location} {bytes : ByteArray}
    (hbelow : FileTree.isBelow out loc = true) (hnot : d.tree.isDirectory loc = false) :
    Agree out d (d.insert loc (.file bytes)) where
  cwd := rfl
  outside l hl := by
    unfold insert
    rw [FileTree.get?_insert, if_neg]
    rintro ⟨rfl, -⟩
    cases hl.symm.trans hbelow
  names dir hdir := by
    obtain ⟨hpre, hne⟩ := FileTree.isBelow_iff.1 hbelow
    obtain ⟨rest, rfl⟩ := hpre
    obtain ⟨init, n, rfl⟩ := List.eq_nil_or_concat rest |>.resolve_left fun h => hne (by simp [h])
    rw [List.concat_eq_append, ← List.append_assoc]
    exact names_insert_below hdir (List.prefix_append out init)
  directories l hd := by
    rw [FileTree.isDirectory_iff] at hd ⊢
    unfold insert
    rw [FileTree.get?_insert, if_neg]
    · exact hd
    · rintro ⟨rfl, -⟩
      rw [FileTree.isDirectory_iff.2 hd] at hnot
      cases hnot
  noLink := hlinks
  noLink' l target hl hget := by
    unfold insert at hget
    rw [FileTree.get?_insert] at hget
    split at hget
    · cases hget
    · exact hlinks l target hl hget

section

variable (hout : d.LeadsTo q out) (hlinks : NoLinkBelow d.tree out)
include hout hlinks

/-- A path below leads down by its names. -/
theorem place_below (h : Below q names p) (hne : names ≠ []) {follow : Bool} {loc : Location}
    (hloc : d.locate ⟨follow, true⟩ p = .ok loc) : loc = out ++ names := by
  obtain ⟨haccepts, -⟩ := locate_eq_ok_iff.1 hloc
  rw [locate_down hout hlinks h.components hne (h.tidy hne)
    ⟨haccepts.noNull, haccepts.short⟩] at hloc
  exact (makeDown_of_descend hne hout.directory hloc).1

/-- A file is copied below a directory without changing anything elsewhere. -/
theorem copyFile_agree (h : Below q names p) (hne : names ≠ []) (source : Path) :
    Agree out d (d.copyFile source p).1 := by
  rcases copyFile_disk d source p with hd | ⟨loc, bytes, hlocate, hnot, hd⟩
  · rw [hd]
    exact .refl hlinks
  · rw [hd]
    obtain rfl := place_below hout hlinks h hne hlocate
    exact insert_file_agree hlinks (isBelow_append hne) (Bool.eq_false_iff.2 hnot)

end

/-! ## Temporary files -/

theorem temporaryName_injective : Function.Injective temporaryName := by
  intro m n h
  unfold temporaryName at h
  rw [String.append_right_inj, Nat.toString_eq_ofList_toDigits, Nat.toString_eq_ofList_toDigits,
    String.ofList_inj] at h
  have hsum : Nat.ofDigitChars 10 (Nat.toDigits 10 (100000 + m)) 0 =
      Nat.ofDigitChars 10 (Nat.toDigits 10 (100000 + n)) 0 := by
    rw [h]
  rw [Nat.ofDigitChars_ten_toDigits, Nat.ofDigitChars_ten_toDigits] at hsum
  omega

/-- A name that is not free comes after names that are not free. -/
theorem taken_of_freeName {dir : Location} {tries n : Nat}
    (h : (t.get? (dir ++ [freeName t dir tries n])).isSome = true) {k : Nat} (hk : k ≤ tries) :
    (t.get? (dir ++ [temporaryName (n + k)])).isSome = true := by
  induction tries generalizing n k with
  | zero =>
    obtain rfl := Nat.le_zero.1 hk
    exact h
  | succ tries ih =>
    unfold freeName at h
    split at h
    · next hfree =>
      rw [Option.isNone_iff_eq_none] at hfree
      rw [hfree] at h
      cases h
    · next htaken =>
      cases k with
      | zero => simpa [Option.isSome_iff_ne_none] using htaken
      | succ k =>
        have hnext := ih h (Nat.le_of_succ_le_succ hk)
        rwa [Nat.add_right_comm] at hnext

/-- The name for a temporary file is free: there are fewer entries than names. -/
theorem freeName_free (t : FileTree) (dir : Location) :
    t.get? (dir ++ [freeName t dir t.entries.length 0]) = none := by
  by_contra hsome
  have htaken {k : Nat} (hk : k ≤ t.entries.length) :
      (t.get? (dir ++ [temporaryName k])).isSome = true := by
    have h := taken_of_freeName (Option.isSome_iff_ne_none.2 hsome) hk
    rwa [Nat.zero_add] at h
  have hnodup : ((List.range (t.entries.length + 1)).map fun k => dir ++ [temporaryName k]).Nodup := by
    refine List.Nodup.map (fun m n h => temporaryName_injective ?_) List.nodup_range
    exact List.singleton_inj.1 (List.append_cancel_left h)
  have hsubset : (List.range (t.entries.length + 1)).map (fun k => dir ++ [temporaryName k]) ⊆
      t.entries.map Prod.fst := by
    intro place hplace
    obtain ⟨k, hk, rfl⟩ := List.mem_map.1 hplace
    obtain ⟨e, he⟩ := Option.isSome_iff_exists.1 (htaken (Nat.le_of_lt_succ (List.mem_range.1 hk)))
    exact List.mem_map_of_mem (FileTree.mem_entries (by simp) he)
  have hlength := (List.subperm_of_subset hnodup hsubset).length_le
  rw [List.length_map, List.length_map, List.length_range] at hlength
  omega

namespace Below

/-- The path of a name in the directory. -/
theorem into {n : String} (h : Below q names p) (hn : Path.IsName n) :
    Below q (names ++ [n]) (p.join ⟨n⟩) := by
  have htidy : (p.join ⟨n⟩).Tidy :=
    Path.tidy_join (Path.isAbsolute_name hn) (Path.tidy_name hn)
  refine ⟨?_, fun _ => htidy, Path.trimSlashes_of_tidy htidy⟩
  rw [Path.components_join_name p hn, h.components, List.append_assoc, List.map_append]
  rfl

end Below

theorem locateDirectory_of_not_fits (htemporary : ¬ (p.join ⟨temporaryName 0⟩).Fits) :
    ∃ e, ∀ d : Disk, d.locateDirectory p = .error e := by
  obtain ⟨e, -, he⟩ := locate_of_not_fits htemporary
  refine ⟨e, fun d => ?_⟩
  unfold locateDirectory
  rw [he]
  rfl

section

variable (hout : d.LeadsTo q out) (hlinks : NoLinkBelow d.tree out)
include hout hlinks

/-- The directory at the end of names is found by the place of a temporary file in it. -/
theorem locateDirectory_below (h : Below q names p) (hclear : Clear d.tree out names)
    (hfits : (p.join ⟨temporaryName 0⟩).Fits) : d.locateDirectory p = .ok (out ++ names) := by
  have htemporary := h.into (Path.isName_temporaryName 0)
  have hshort : ¬ maxNameBytes < (temporaryName 0).utf8ByteSize := by decide
  unfold locateDirectory
  rw [locate_down hout hlinks htemporary.components (by simp) (htemporary.tidy (by simp)) hfits,
    descend_append true hclear, descend_last (hclear.directory names List.prefix_rfl),
    if_neg hshort]
  exact congrArg Except.ok List.dropLast_concat

end

/-! ## Putting a file in its place -/

theorem writeThrough_result (d : Disk) (place : Location) (p : Path) (bytes : ByteArray) :
    (d.writeThrough place p bytes).2 =
      ((d.insert place (.file bytes)).rename place p).map fun _ => () := by
  unfold writeThrough
  dsimp only
  cases (d.insert place (.file bytes)).rename place p with
  | error e => rfl
  | ok d' => rfl

section

variable {n temporary : String} {bytes : ByteArray}

theorem replaceFile_eq {place : Location} (hplace : d.locateDirectory p.directory = .ok place)
    (hfree : d.tree.get? (place ++ [temporary]) = none) :
    d.replaceFile temporary p bytes = d.writeThrough (place ++ [temporary]) p bytes := by
  unfold replaceFile
  rw [hplace]
  dsimp only
  rw [if_neg (by simp [hfree])]

/-- What is named elsewhere is still named. -/
theorem names_writeThrough {place dir : Location} (hplace : place.dropLast ≠ dir)
    (htarget : ∀ loc, (d.insert place (.file bytes)).locate ⟨false, true⟩ p = .ok loc →
      loc.dropLast ≠ dir) :
    (d.writeThrough place p bytes).1.tree.names dir = d.tree.names dir := by
  have hwritten : (d.tree.insert place (.file bytes)).names dir = d.tree.names dir :=
    FileTree.names_insert hplace
  have herased : ((d.tree.insert place (.file bytes)).eraseAll (· == place)).names dir =
      d.tree.names dir := by
    rw [FileTree.names_eraseAll, hwritten]
    intro loc hloc
    exact beq_iff_eq.1 hloc ▸ hplace
  cases hmoved : (d.insert place (.file bytes)).rename place p with
  | error e =>
    rw [writeThrough_of_error hmoved]
    exact herased
  | ok d' =>
    obtain ⟨loc, e, hloc, -, -, rfl⟩ := rename_eq_ok hmoved
    rw [writeThrough_of_ok hmoved]
    exact (FileTree.names_insert (htarget loc hloc)).trans herased

variable (hout : d.LeadsTo q out) (hlinks : NoLinkBelow d.tree out)
include hout hlinks

/-- What comes of moving a file to its place hangs on the place alone. -/
theorem rename_below (h : Below q (names ++ [n]) p) (hclear : Clear d.tree out names)
    (hfree : d.tree.get? (out ++ names ++ [temporary]) = none) (hfits : p.Fits) :
    ((d.insert (out ++ names ++ [temporary]) (.file bytes)).rename (out ++ names ++ [temporary])
      p).map (fun _ => ()) =
      if maxNameBytes < n.utf8ByteSize then .error .nameTooLong
      else if d.tree.isDirectory (out ++ names ++ [n]) then .error .isADirectory else .ok () := by
  have hbelow : FileTree.isBelow out (out ++ names ++ [temporary]) = true :=
    isBelow_concat (List.prefix_append _ _) temporary
  have hnot : d.tree.isDirectory (out ++ names ++ [temporary]) = false := by
    rw [FileTree.isDirectory, hfree]
    rfl
  have hagree : Agree out d (d.insert (out ++ names ++ [temporary]) (.file bytes)) :=
    insert_file_agree hlinks hbelow hnot
  have hself : (d.insert (out ++ names ++ [temporary]) (.file bytes)).tree.get?
      (out ++ names ++ [temporary]) = some (.file bytes) := FileTree.get?_insert_self hfree
  have hdirectory (loc : Location) :
      (d.insert (out ++ names ++ [temporary]) (.file bytes)).tree.isDirectory loc =
        d.tree.isDirectory loc := FileTree.isDirectory_insert_file hfree loc
  generalize d.insert (out ++ names ++ [temporary]) (.file bytes) = written at *
  have hstill : Clear written.tree out names :=
    ⟨fun pre hpre => hagree.directories _ (hclear.directory pre hpre), hclear.short⟩
  unfold rename
  rw [locate_down (hout.agree hagree) hagree.noLink' h.components (by simp) (h.tidy (by simp)) hfits,
    descend_append true hstill, descend_last (hstill.directory names List.prefix_rfl)]
  split
  · rfl
  · dsimp only [bind, Except.bind]
    rw [hdirectory]
    split
    · rfl
    · rw [hself]
      rfl

/-- A file is put in its place without changing anything elsewhere. -/
theorem replaceFile_agree (h : Below q (names ++ [n]) p)
    (hplace : d.locateDirectory p.directory = .ok (out ++ names))
    (hfree : d.tree.get? (out ++ names ++ [temporary]) = none) :
    Agree out d (d.replaceFile temporary p bytes).1 := by
  have hinside {dir : Location} (hdir : ¬ out <+: dir) : out ++ names ≠ dir :=
    fun heq => hdir (heq ▸ List.prefix_append out names)
  have hnames {dir : Location} (hdir : ¬ out <+: dir) :
      (d.replaceFile temporary p bytes).1.tree.names dir = d.tree.names dir := by
    rw [replaceFile_eq hplace hfree]
    refine names_writeThrough ?_ fun loc hloc => ?_
    · rw [List.dropLast_concat]
      exact hinside hdir
    · rw [place_below hout hlinks h (by simp) ((locate_insert_file hfree).1 hloc),
        ← List.append_assoc, List.dropLast_concat]
      exact hinside hdir
  have hdirectories (loc : Location) (hd : d.tree.isDirectory loc = true) :
      (d.replaceFile temporary p bytes).1.tree.isDirectory loc = true := by
    have hkind := replaceFile_keeps d temporary p bytes loc true (by
      unfold FileTree.kind?
      rw [FileTree.isDirectory_iff.1 hd]
      rfl)
    obtain ⟨e, he, hdir⟩ := Option.map_eq_some_iff.1 hkind
    unfold FileTree.isDirectory
    rw [he]
    exact hdir
  cases hresult : (d.replaceFile temporary p bytes).2 with
  | error e =>
    obtain ⟨hcwd, hsame⟩ := replaceFile_error hresult
    exact ⟨hcwd, fun loc _ => hsame loc, fun _ => hnames, hdirectories, hlinks,
      fun loc target hbelow hget => hlinks loc target hbelow (hsame loc ▸ hget)⟩
  | ok _ =>
    obtain ⟨place, hlocate, -, hcwd, hget⟩ := replaceFile_replaced hresult
    obtain rfl := place_below hout hlinks h (by simp) hlocate
    refine ⟨hcwd, fun loc hloc => ?_, fun _ => hnames, hdirectories, hlinks,
      fun loc target hbelow hlink => ?_⟩
    · rw [hget, if_neg]
      rintro rfl
      have hbelow : FileTree.isBelow out (out ++ (names ++ [n])) = true := isBelow_append (by simp)
      cases hloc.symm.trans hbelow
    · rw [hget] at hlink
      split at hlink
      · cases hlink
      · exact hlinks loc target hbelow hlink

end

end Disk

end StaticSite
