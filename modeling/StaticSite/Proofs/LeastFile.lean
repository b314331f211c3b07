import StaticSite.Proofs.ByteOrder
import StaticSite.Proofs.Indexing
import StaticSite.Proofs.Sameness

/-!
Which file an article comes from.

Several files below a directory may have the id of an article. Proved here, for every disk:

* `walkFor_pairwise`: a walk meets locations in the order of their names, the first names first, by
  induction on its levels;
* `mem_walkFor_iff`: it meets all that there is below where it starts;
* `lookup_filterMap_iff`: of what is taken from a list in order, the first with a key comes from the
  least of those that have it;
* `get?_collect`: this one counts;
* `least_file_indexed`: so an index has the least file of each id, and nothing else.
-/

namespace StaticSite

open StaticSite.Path (IsName)

/-! ## Locations in order -/

namespace Location

/-- The names of a location as bytes. -/
def bytes (l : Location) : List (List UInt8) := List.map Text.bytes l

/-- Whether a location comes before another. They are compared name by name. -/
def Before (l l' : Location) : Prop := bytes l < bytes l'

variable {l l' : Location} {n n' : String}

theorem Before.asymm (h : Before l l') : ¬ Before l' l := List.lt_asymm h

theorem before_nil_cons (n : String) (l : Location) : Before [] (n :: l) := List.nil_lt_cons _ _

theorem before_of_lt (h : n < n') (l l' : Location) : Before (n :: l) (n' :: l') :=
  List.cons_lt_cons_iff.2 (.inl (Text.bytes_lt_iff.2 h))

theorem Before.cons (n : String) (h : Before l l') : Before (n :: l) (n :: l') :=
  List.cons_lt_cons_iff.2 (.inr ⟨rfl, h⟩)

theorem eq_or_before_of_le (h : bytes l ≤ bytes l') : l = l' ∨ Before l l' := by
  rcases List.le_iff_lt_or_eq.1 h with hlt | heq
  · exact .inr hlt
  · exact .inl (List.map_injective_iff.2 Text.bytes_injective heq)

end Location

open Location

/-! ## Walks in order -/

namespace FileTree

variable {t : FileTree}

theorem names_pairwise (h : t.Distinct) (dir : Location) : (t.names dir).Pairwise (· < ·) := by
  refine ((names_sorted t dir).and (names_nodup h dir)).imp fun ⟨hle, hne⟩ => ?_
  exact String.not_le.1 fun hge => hne (String.le_antisymm hle hge)

/-- **Order.** A walk meets what is below a directory in order: a directory before what is in it,
and all that is below a name together, since it starts with this name. -/
theorem walkFor_pairwise (h : t.Distinct) (levels : Nat) (dir : Location) :
    (t.walkFor levels dir).Pairwise Before := by
  induction levels generalizing dir with
  | zero => exact .nil
  | succ levels ih =>
    unfold walkFor
    refine List.pairwise_flatMap.2 ⟨fun n _ => ?_, (names_pairwise h dir).imp fun hlt l hl l' hl' => ?_⟩
    · refine List.pairwise_cons.2 ⟨fun l hl => ?_, ?_⟩
      · split at hl
        · obtain ⟨rest, hrest, rfl⟩ := List.mem_map.1 hl
          obtain ⟨m, rest, rfl⟩ := List.exists_cons_of_ne_nil (ne_nil_of_mem_walkFor hrest)
          exact (before_nil_cons m rest).cons n
        · cases hl
      · split
        · exact List.pairwise_map.2 ((ih _).imp (Before.cons n))
        · exact .nil
    · have hstarts {n : String} {l : Location} (hl : l ∈ [n] :: (if t.isDirectory (dir ++ [n]) then
          (t.walkFor levels (dir ++ [n])).map (n :: ·) else [])) : ∃ rest, l = n :: rest := by
        rcases List.mem_cons.1 hl with rfl | hl
        · exact ⟨[], rfl⟩
        · split at hl
          · obtain ⟨rest, -, rfl⟩ := List.mem_map.1 hl
            exact ⟨rest, rfl⟩
          · cases hl
      obtain ⟨rest, rfl⟩ := hstarts hl
      obtain ⟨rest', rfl⟩ := hstarts hl'
      exact before_of_lt hlt rest rest'

theorem mem_walkFor_succ {levels : Nat} {dir l : Location} :
    l ∈ t.walkFor (levels + 1) dir ↔ ∃ n rest, l = n :: rest ∧ n ∈ t.names dir ∧
      (rest = [] ∨ t.isDirectory (dir ++ [n]) = true ∧ rest ∈ t.walkFor levels (dir ++ [n])) := by
  rw [walkFor, List.mem_flatMap]
  constructor
  · rintro ⟨n, hn, hl⟩
    rcases List.mem_cons.1 hl with rfl | hl
    · exact ⟨n, [], rfl, hn, .inl rfl⟩
    · split at hl
      · next hdir =>
        obtain ⟨rest, hrest, rfl⟩ := List.mem_map.1 hl
        exact ⟨n, rest, rfl, hn, .inr ⟨hdir, hrest⟩⟩
      · cases hl
  · rintro ⟨n, rest, rfl, hn, rfl | ⟨hdir, hrest⟩⟩
    · exact ⟨n, hn, List.mem_cons_self⟩
    · refine ⟨n, hn, List.mem_cons_of_mem _ ?_⟩
      rw [if_pos hdir]
      exact List.mem_map_of_mem hrest

/-- **Completeness.** A walk meets all that lies below its directory. -/
theorem mem_walkFor_iff (ht : Disk.Housed t) {levels : Nat} {dir l : Location}
    (h : t.depth ≤ dir.length + levels) :
    l ∈ t.walkFor levels dir ↔ l ≠ [] ∧ (t.get? (dir ++ l)).isSome = true := by
  induction levels generalizing dir l with
  | zero =>
    refine ⟨fun hl => absurd hl List.not_mem_nil, fun ⟨hne, hget⟩ => absurd hne ?_⟩
    have hlength := length_le_depth hget
    rw [List.length_append] at hlength
    rw [ne_eq, not_not, ← List.length_eq_zero_iff]
    omega
  | succ levels ih =>
    have hlevels (n : String) : t.depth ≤ (dir ++ [n]).length + levels := by
      rw [List.length_append, List.length_singleton]
      omega
    rw [mem_walkFor_succ]
    constructor
    · rintro ⟨n, rest, rfl, hn, hrest⟩
      refine ⟨List.cons_ne_nil n rest, ?_⟩
      rcases hrest with rfl | ⟨-, hrest⟩
      · exact mem_names_iff.1 hn
      · rw [List.append_cons]
        exact ((ih (hlevels n)).1 hrest).2
    · rintro ⟨hne, hget⟩
      obtain ⟨n, rest, rfl⟩ := List.exists_cons_of_ne_nil hne
      rw [List.append_cons] at hget
      cases rest with
      | nil =>
        rw [List.append_nil] at hget
        exact ⟨n, [], rfl, mem_names_iff.2 hget, .inl rfl⟩
      | cons m rest =>
        have hdir := ht.isDirectory_of_below rest hget
        refine ⟨n, m :: rest, rfl, mem_names_iff.2 ?_, .inr ⟨hdir, ?_⟩⟩
        · rw [isDirectory_iff.1 hdir]
          rfl
        · exact (ih (hlevels n)).2 ⟨List.cons_ne_nil m rest, hget⟩

end FileTree

/-! ## Names with an extension -/

namespace Path

open Text

theorem cutAt?_eq_some_iff {c : Char} {s b r : List Char} :
    cutAt? c s = some (b, r) ↔ s = b ++ c :: r ∧ c ∉ b := by
  refine ⟨fun h => ⟨eq_of_cutAt? h, ?_⟩, ?_⟩
  · induction s generalizing b with
    | nil => cases h
    | cons d s ih =>
      unfold cutAt? at h
      split at h
      · obtain ⟨rfl, rfl⟩ := Prod.mk.inj (Option.some.inj h)
        exact List.not_mem_nil
      · next hne =>
        obtain ⟨⟨b', r'⟩, hcut, heq⟩ := Option.map_eq_some_iff.1 h
        obtain ⟨rfl, rfl⟩ := Prod.mk.inj heq
        exact List.not_mem_cons_of_ne_of_not_mem (Ne.symm hne) (ih hcut)
  · rintro ⟨rfl, hb⟩
    induction b with
    | nil => exact if_pos rfl
    | cons d b ih =>
      rw [List.cons_append, cutAt?, if_neg (List.ne_of_not_mem_cons hb).symm,
        ih (List.not_mem_of_not_mem_cons hb)]
      rfl

/-- A name is cut at its last point. -/
theorem splitName_eq_iff {name stem ext : List Char} :
    splitName name = (stem, some ext) ↔ name = stem ++ '.' :: ext ∧ stem ≠ [] ∧ '.' ∉ ext := by
  have hreverse {b r : List Char} : cutAt? '.' name.reverse = some (b, r) ↔
      name = r.reverse ++ '.' :: b.reverse ∧ '.' ∉ b := by
    rw [cutAt?_eq_some_iff, List.reverse_eq_iff, List.reverse_append, List.reverse_cons,
      List.append_assoc, List.singleton_append]
  unfold splitName
  constructor
  · intro h
    split at h
    · cases h
    · next ext' stem' hcut =>
      split at h
      · cases h
      · next hne =>
        obtain ⟨rfl, rfl⟩ : stem'.reverse = stem ∧ ext'.reverse = ext := by simpa using h
        obtain ⟨hname, hext⟩ := hreverse.1 hcut
        exact ⟨hname, by simpa using hne, by simpa using hext⟩
  · rintro ⟨hname, hne, hext⟩
    have hcut : cutAt? '.' name.reverse = some (ext.reverse, stem.reverse) :=
      hreverse.2 ⟨by simpa using hname, by simpa using hext⟩
    rw [hcut]
    simp [hne]

end Path

namespace ContentIndex

variable {dir : Path} {t : FileTree}

/-- Whether a name is an id with the extension of Markdown, in any letter case. -/
def Titles (name id : String) : Prop :=
  ∃ ext : String, name = id ++ "." ++ ext ∧ id ≠ "" ∧ ext.toList.map Char.toLower = ['m', 'd']

theorem titles_iff {name id : String} : Titles name id ↔
    ∃ ext, Path.splitName name.toList = (id.toList, some ext) ∧
      ext.map Char.toLower = ['m', 'd'] := by
  constructor
  · rintro ⟨ext, rfl, hid, hext⟩
    have hpoint : '.' ∉ ext.toList := by
      intro hmem
      have hlower := List.mem_map_of_mem (f := Char.toLower) hmem
      rw [hext] at hlower
      exact absurd hlower (by decide)
    exact ⟨ext.toList, Path.splitName_eq_iff.2 ⟨by simp, by simpa using hid, hpoint⟩, hext⟩
  · rintro ⟨ext, hsplit, hext⟩
    obtain ⟨hname, hid, -⟩ := Path.splitName_eq_iff.1 hsplit
    refine ⟨String.ofList ext, ?_, by simpa using hid, by rwa [String.toList_ofList]⟩
    rw [← String.toList_inj, hname]
    simp

theorem fileName?_pathBelow (dir : Path) {names : List String} {n : String} (h : ∀ m ∈ names ++ [n], IsName m) :
    (pathBelow dir (names ++ [n])).fileName? = some n := by
  unfold Path.fileName? pathBelow
  rw [Path.components_joinAll dir h, List.map_append, List.map_singleton, ← List.append_assoc,
    List.getLast?_concat]

/-- What a walk finds at a place is a file with the name of an article. -/
theorem findAt?_eq_ok_iff {d : Disk} {place names : Location} {n id : String} {p : Path}
    (h : ∀ m ∈ names ++ [n], IsName m) :
    findAt? d place (pathBelow dir (names ++ [n])) = some (.ok (id, p)) ↔
      (∃ bytes, d.tree.get? place = some (.file bytes)) ∧ Titles n id ∧
        p = pathBelow dir (names ++ [n]) := by
  have hname := fileName?_pathBelow dir h
  generalize pathBelow dir (names ++ [n]) = path at hname
  have hfile : (if path.hasExtension "md" then path.stem?.map fun id => Except.ok (id, path) else none) =
      some (Except.ok (id, p) : Except SiteError (String × Path)) ↔ Titles n id ∧ p = path := by
    unfold Path.hasExtension Path.extension? Path.stem?
    rw [titles_iff, hname]
    obtain ⟨⟨stem, ext⟩, hsplit⟩ : ∃ parts, Path.splitName n.toList = parts := ⟨_, rfl⟩
    have hid : String.ofList stem = id ↔ stem = id.toList := by
      rw [← String.toList_inj, String.toList_ofList]
    cases ext with
    | none => simp [hsplit]
    | some ext => simp [hsplit, hid, eq_comm (a := path), and_assoc, and_left_comm]
  unfold findAt?
  rw [← hfile]
  cases d.tree.get? place with
  | none => exact ⟨nofun, fun ⟨⟨_, hget⟩, _⟩ => nomatch hget⟩
  | some e =>
    cases e with
    | file bytes => exact (and_iff_right ⟨bytes, rfl⟩).symm
    | link target => exact ⟨nofun, fun ⟨⟨_, hget⟩, _⟩ => nomatch hget⟩
    | directory =>
      refine ⟨fun hfound => ?_, fun ⟨⟨_, hget⟩, _⟩ => nomatch hget⟩
      dsimp only at hfound
      split at hfound
      · cases hfound
      · cases hfound

/-- What a walk fails at is a directory that cannot be opened. -/
theorem findAt?_eq_error_iff {d : Disk} {place : Location} {path : Path} {e : SiteError} :
    findAt? d place path = some (.error e) ↔ d.tree.get? place = some .directory ∧
      ∃ cause, d.openDirectory path = .error cause ∧ e = .io path cause := by
  unfold findAt?
  cases d.tree.get? place with
  | none => exact ⟨nofun, fun ⟨hget, _⟩ => nomatch hget⟩
  | some entry =>
    cases entry with
    | file bytes =>
      refine ⟨fun hfound => ?_, fun ⟨hget, _⟩ => nomatch hget⟩
      dsimp only at hfound
      split at hfound
      · obtain ⟨_, -, hok⟩ := Option.map_eq_some_iff.1 hfound
        cases hok
      · cases hfound
    | link target => exact ⟨nofun, fun ⟨hget, _⟩ => nomatch hget⟩
    | directory =>
      dsimp only
      cases d.openDirectory path with
      | ok loc => exact ⟨nofun, fun ⟨_, _, hopen, _⟩ => nomatch hopen⟩
      | error cause =>
        constructor
        · intro hfound
          exact ⟨rfl, cause, rfl, (Except.error.inj (Option.some.inj hfound)).symm⟩
        · rintro ⟨-, cause', hcause, rfl⟩
          rw [Except.error.inj hcause]

/-! ## The first file counts -/

theorem get?_add (index : ContentIndex) (id key : String) (path : Path) :
    (index.add id path).get? key = (index.get? key).or (if key = id then some path else none) := by
  unfold add
  cases hid : index.get? id with
  | some first =>
    dsimp only
    by_cases hkey : key = id
    · rw [hkey, hid]
      rfl
    · rw [if_neg hkey, Option.or_none]
  | none =>
    dsimp only
    unfold get?
    rw [List.lookup_append, List.lookup_cons]
    by_cases hkey : key = id
    · rw [hkey, BEq.rfl, if_pos rfl]
    · rw [beq_false_of_ne hkey, if_neg hkey]
      rfl

/-- Adds files in order. -/
def addAll (index : ContentIndex) (files : List (String × Path)) : ContentIndex :=
  files.foldl (fun index file => index.add file.1 file.2) index

/-- Files alone are all added. -/
theorem collect_files (index : ContentIndex) (files : List (String × Path)) :
    (collect index (files.map .ok)).result = .ok (index.addAll files) := by
  induction files generalizing index with
  | nil => rfl
  | cons file rest ih => exact ih (index.add file.1 file.2)

/-- The first failure ends it. -/
theorem collect_failure (index : ContentIndex) (files : List (String × Path)) (e : SiteError)
    (rest : List (Except SiteError (String × Path))) :
    (collect index (files.map .ok ++ .error e :: rest)).result = .error e := by
  induction files generalizing index with
  | nil => rfl
  | cons file files ih => exact ih (index.add file.1 file.2)

/-- There are files alone, or there is a first failure. -/
theorem files_or_failure {α ε : Type} (found : List (Except ε α)) :
    (∃ files, found = List.map .ok files) ∨
      ∃ files e rest, found = List.map .ok files ++ .error e :: rest := by
  induction found with
  | nil => exact .inl ⟨[], rfl⟩
  | cons x found ih =>
    cases x with
    | error e => exact .inr ⟨[], e, found, rfl⟩
    | ok file =>
      rcases ih with ⟨files, rfl⟩ | ⟨files, e, rest, rfl⟩
      · exact .inl ⟨file :: files, rfl⟩
      · exact .inr ⟨file :: files, e, rest, rfl⟩

/-- Of the files with an id the first counts. -/
theorem get?_addAll (index : ContentIndex) (files : List (String × Path)) (key : String) :
    (index.addAll files).get? key = (index.get? key).or (files.lookup key) := by
  induction files generalizing index with
  | nil => exact (Option.or_none).symm
  | cons file rest ih =>
    obtain ⟨id, path⟩ := file
    show ((index.add id path).addAll rest).get? key = _
    rw [ih, get?_add, Option.or_assoc, List.lookup_cons]
    by_cases hkey : key = id
    · rw [hkey, BEq.rfl, if_pos rfl]
      rfl
    · rw [beq_false_of_ne hkey, if_neg hkey]
      rfl

theorem mem_ids_iff {index : ContentIndex} {id : String} :
    id ∈ index.entries.map Prod.fst ↔ (index.get? id).isSome = true := by
  unfold get?
  rw [List.lookup_isSome_iff, List.mem_map]
  exact exists_congr fun e => and_congr_right fun _ => by rw [beq_iff_eq, eq_comm]

theorem nodup_add {index : ContentIndex} (h : (index.entries.map Prod.fst).Nodup) (id : String)
    (path : Path) : ((index.add id path).entries.map Prod.fst).Nodup := by
  unfold add
  cases hid : index.get? id with
  | some first => exact h
  | none =>
    rw [List.map_append]
    refine h.append (List.nodup_singleton id) (List.disjoint_singleton.2 fun hmem => ?_)
    rw [mem_ids_iff, hid] at hmem
    cases hmem

theorem nodup_addAll (index : ContentIndex) (h : (index.entries.map Prod.fst).Nodup)
    (files : List (String × Path)) : ((index.addAll files).entries.map Prod.fst).Nodup := by
  induction files generalizing index with
  | nil => exact h
  | cons file rest ih => exact ih _ (nodup_add h file.1 file.2)

end ContentIndex

/-- What is taken from a list in order, under keys: what the first with a key comes from is before
all others that have it, by induction on the list. -/
theorem lookup_filterMap_iff {α β : Type} {R : α → α → Prop} (hasymm : ∀ x y, R x y → ¬ R y x)
    {l : List α} (h : l.Pairwise R) (f : α → Option (String × β)) (key : String) (b : β) :
    (l.filterMap f).lookup key = some b ↔
      ∃ x ∈ l, f x = some (key, b) ∧ ∀ y ∈ l, ∀ b', f y = some (key, b') → x = y ∨ R x y := by
  induction l with
  | nil => simp
  | cons x l ih =>
    obtain ⟨hx, hl⟩ := List.pairwise_cons.1 h
    by_cases hkey : ∃ b', f x = some (key, b')
    · obtain ⟨b', hfx⟩ := hkey
      rw [List.filterMap_cons_some hfx, List.lookup_cons_self]
      constructor
      · intro heq
        obtain rfl := Option.some.inj heq
        exact ⟨x, List.mem_cons_self, hfx, fun y hy _ _ => (List.mem_cons.1 hy).imp Eq.symm (hx y)⟩
      · rintro ⟨z, hz, hfz, hleast⟩
        have hzx : z = x := by
          refine (hleast x List.mem_cons_self b' hfx).resolve_right fun hback => ?_
          rcases List.mem_cons.1 hz with rfl | hz
          · exact hasymm z z hback hback
          · exact hasymm x z (hx z hz) hback
        rw [hzx, hfx] at hfz
        exact congrArg (Option.map Prod.snd) hfz
    · have hskip : ((x :: l).filterMap f).lookup key = (l.filterMap f).lookup key := by
        cases hfx : f x with
        | none => rw [List.filterMap_cons_none hfx]
        | some entry =>
          have hne : key ≠ entry.1 := fun heq => hkey ⟨entry.2, by rw [hfx, heq]⟩
          rw [List.filterMap_cons_some hfx, List.lookup_cons, beq_false_of_ne hne]
      rw [hskip, ih hl]
      constructor
      · rintro ⟨z, hz, hfz, hleast⟩
        refine ⟨z, List.mem_cons_of_mem x hz, hfz, fun y hy b' hfy => ?_⟩
        rcases List.mem_cons.1 hy with rfl | hy
        · exact absurd ⟨b', hfy⟩ hkey
        · exact hleast y hy b' hfy
      · rintro ⟨z, hz, hfz, hleast⟩
        rcases List.mem_cons.1 hz with rfl | hz
        · exact absurd ⟨b, hfz⟩ hkey
        · exact ⟨z, hz, hfz, fun y hy => hleast y (List.mem_cons_of_mem x hy)⟩

/-! ## The index -/

section

variable {d : Disk} {dir : Path}

/-- Whether a file, not a link, lies below a directory and has the name of an article. -/
def Disk.IsArticle (d : Disk) (dir : Path) (id : String) (l : Location) : Prop :=
  ∃ top bytes names n, d.locate ⟨true, false⟩ dir = .ok top ∧
    d.tree.get? (top ++ l) = some (.file bytes) ∧ l = names ++ [n] ∧ ContentIndex.Titles n id

/-- Whether a directory lies below another. -/
def Disk.IsSubdirectory (d : Disk) (dir : Path) (l : Location) : Prop :=
  ∃ top, d.locate ⟨true, false⟩ dir = .ok top ∧ l ≠ [] ∧ d.tree.get? (top ++ l) = some .directory

/-- Whether a walk fails at a location: a directory lies there that cannot be opened by its path. -/
def Disk.FailsAt (d : Disk) (dir : Path) (l : Location) (e : SiteError) : Prop :=
  d.IsSubdirectory dir l ∧ ∃ cause, d.openDirectory (ContentIndex.pathBelow dir l) = .error cause ∧
    e = .io (ContentIndex.pathBelow dir l) cause

/-- A walk fails at a directory just if its path does not fit. -/
theorem Disk.IsSubdirectory.failsAt_iff (hnamed : d.tree.Named) (hhoused : Disk.Housed d.tree)
    {l : Location} (h : d.IsSubdirectory dir l) :
    (∃ e, d.FailsAt dir l e) ↔ ¬ ContentIndex.FitsBelow dir l := by
  have hsub := h
  obtain ⟨top, hlocate, hne, hget⟩ := h
  have hfound : (d.tree.get? (top ++ l)).isSome = true := by
    rw [hget]
    rfl
  have htop : d.tree.isDirectory top = true := by
    obtain ⟨n, rest, rfl⟩ := List.exists_cons_of_ne_nil hne
    exact hhoused.isDirectory_of_below rest hfound
  have hbelow : ContentIndex.DirectoryBelow d dir top l :=
    ⟨.of_locate hlocate htop, hhoused,
      fun n hn => hnamed _ hfound n (List.mem_append_right top hn), hne,
      FileTree.isDirectory_iff.2 hget⟩
  rw [← hbelow.openDirectory_eq_ok_iff]
  constructor
  · rintro ⟨e, -, cause, hcause, -⟩ ⟨loc, hloc⟩
    cases hcause.symm.trans hloc
  · intro hnot
    cases hopen : d.openDirectory (ContentIndex.pathBelow dir l) with
    | ok loc => exact absurd ⟨loc, hopen⟩ hnot
    | error cause => exact ⟨_, hsub, cause, hopen, rfl⟩

/-- Locations in order, among them those of all articles and directories below a directory, and what
a walk finds at them. -/
structure Disk.Listing (d : Disk) (dir : Path) (ls : List Location)
    (f : Location → Option (Except SiteError (String × Path))) : Prop where
  sorted : ls.Pairwise Before
  article : ∀ l ∈ ls, ∀ id p, f l = some (.ok (id, p)) ↔
    d.IsArticle dir id l ∧ p = ContentIndex.pathBelow dir l
  failure : ∀ l ∈ ls, ∀ e, f l = some (.error e) ↔ d.FailsAt dir l e
  articles : ∀ id l, d.IsArticle dir id l → l ∈ ls
  directories : ∀ l, d.IsSubdirectory dir l → l ∈ ls

theorem Disk.Listing.none (h : ∀ top, d.locate ⟨true, false⟩ dir = .ok top →
    ∀ l, l ≠ [] → d.tree.get? (top ++ l) = Option.none) : d.Listing dir [] fun _ => Option.none where
  sorted := .nil
  article := nofun
  failure := nofun
  articles := by
    rintro id l ⟨top, bytes, names, n, hlocate, hfile, rfl, -⟩
    rw [h top hlocate _ (by simp)] at hfile
    cases hfile
  directories := by
    rintro l ⟨top, hlocate, hne, hget⟩
    rw [h top hlocate l hne] at hget
    cases hget

theorem Disk.Listing.walk (hnamed : d.tree.Named) (hhoused : Disk.Housed d.tree)
    (hdistinct : d.tree.Distinct) {top : Location} (hlocate : d.locate ⟨true, false⟩ dir = .ok top) :
    d.Listing dir (d.tree.walk top) fun l =>
      ContentIndex.findAt? d (top ++ l) (ContentIndex.pathBelow dir l) where
  sorted := FileTree.walkFor_pairwise hdistinct _ top
  article l hl id p := by
    obtain ⟨hne, hget⟩ := (FileTree.mem_walkFor_iff hhoused (Nat.le_add_left _ _)).1 hl
    have hnames : ∀ m ∈ l, IsName m := fun m hm => hnamed _ hget m (List.mem_append_right top hm)
    obtain ⟨names, n, rfl⟩ : ∃ names n, l = names ++ [n] :=
      ⟨l.dropLast, l.getLast hne, (List.dropLast_concat_getLast hne).symm⟩
    rw [ContentIndex.findAt?_eq_ok_iff hnames, ← and_assoc]
    refine and_congr_left fun _ => ?_
    constructor
    · rintro ⟨⟨bytes, hfile⟩, htitles⟩
      exact ⟨top, bytes, names, n, hlocate, hfile, rfl, htitles⟩
    · rintro ⟨top', bytes, names', n', hlocate', hfile, heq, htitles⟩
      obtain rfl := Except.ok.inj (hlocate.symm.trans hlocate')
      obtain ⟨-, rfl⟩ := List.append_singleton_inj.1 heq
      exact ⟨⟨bytes, hfile⟩, htitles⟩
  failure l hl e := by
    rw [ContentIndex.findAt?_eq_error_iff]
    refine and_congr_left fun _ => ?_
    constructor
    · intro hget
      exact ⟨top, hlocate, FileTree.ne_nil_of_mem_walkFor hl, hget⟩
    · rintro ⟨top', hlocate', -, hget⟩
      obtain rfl := Except.ok.inj (hlocate.symm.trans hlocate')
      exact hget
  articles := by
    rintro id l ⟨top', bytes, names, n, htop, hfile, rfl, -⟩
    obtain rfl := Except.ok.inj (hlocate.symm.trans htop)
    exact (FileTree.mem_walkFor_iff hhoused (Nat.le_add_left _ _)).2 ⟨by simp, by rw [hfile]; rfl⟩
  directories := by
    rintro l ⟨top', htop, hne, hget⟩
    obtain rfl := Except.ok.inj (hlocate.symm.trans htop)
    exact (FileTree.mem_walkFor_iff hhoused (Nat.le_add_left _ _)).2 ⟨hne, by rw [hget]; rfl⟩

/-- An index is made of a listing. -/
theorem exists_listing (hnamed : d.tree.Named) (hhoused : Disk.Housed d.tree)
    (hdistinct : d.tree.Distinct) (dir : Path) : ∃ ls f, d.Listing dir ls f ∧
      (ContentIndex.scan d dir).result =
        (ContentIndex.collect .empty (ls.filterMap f)).result := by
  unfold ContentIndex.scan
  cases hlocate : d.locate ⟨true, false⟩ dir with
  | error e =>
    refine ⟨[], _, .none fun top htop => ?_, rfl⟩
    cases hlocate.symm.trans htop
  | ok top =>
    dsimp only
    split
    · exact ⟨_, _, .walk hnamed hhoused hdistinct hlocate, rfl⟩
    · next hdir =>
      refine ⟨[], _, .none fun top' htop l hne => ?_, rfl⟩
      obtain rfl := Except.ok.inj (hlocate.symm.trans htop)
      obtain ⟨n, rest, rfl⟩ := List.exists_cons_of_ne_nil hne
      rw [← Option.not_isSome_iff_eq_none]
      exact fun hfound => hdir (hhoused.isDirectory_of_below rest hfound)

namespace Disk.Listing

variable {ls : List Location} {f : Location → Option (Except SiteError (String × Path))}
  {files : List (String × Path)}

theorem files_eq (hfiles : ls.filterMap f = files.map .ok) :
    files = ls.filterMap fun l => (f l).bind Except.toOption := by
  have hall : (files.map Except.ok).filterMap (Except.toOption (ε := SiteError)) = files := by
    rw [List.filterMap_map]
    exact List.filterMap_some
  rw [← List.filterMap_filterMap, hfiles, hall]

theorem bind_toOption_eq_some_iff {x : Option (Except SiteError (String × Path))} {file : String × Path} :
    x.bind Except.toOption = some file ↔ x = some (.ok file) := by
  rcases x with _ | e | file' <;> simp [Except.toOption]

/-- The first file with an id is the least. -/
theorem lookup_iff (h : d.Listing dir ls f) (hfiles : ls.filterMap f = files.map .ok) (id : String)
    (path : Path) :
    files.lookup id = some path ↔ ∃ l, d.IsArticle dir id l ∧
      path = ContentIndex.pathBelow dir l ∧ ∀ l', d.IsArticle dir id l' → l.bytes ≤ l'.bytes := by
  rw [files_eq hfiles, lookup_filterMap_iff (fun _ _ => Before.asymm) h.sorted]
  simp only [bind_toOption_eq_some_iff]
  constructor
  · rintro ⟨l, hl, hfl, hleast⟩
    obtain ⟨harticle, hpath⟩ := (h.article l hl id path).1 hfl
    refine ⟨l, harticle, hpath, fun l' hl' => ?_⟩
    have hmem := h.articles id l' hl'
    rcases hleast l' hmem _ ((h.article l' hmem id _).2 ⟨hl', rfl⟩) with rfl | hbefore
    · exact List.le_refl _
    · exact hbefore.asymm
  · rintro ⟨l, harticle, hpath, hleast⟩
    have hl := h.articles id l harticle
    refine ⟨l, hl, (h.article l hl id path).2 ⟨harticle, hpath⟩, fun l' hl' path' hfl' => ?_⟩
    exact eq_or_before_of_le (hleast l' ((h.article l' hl' id path').1 hfl').1)

theorem isSome_iff (h : d.Listing dir ls f) (hfiles : ls.filterMap f = files.map .ok) (id : String) :
    (files.lookup id).isSome = true ↔ ∃ l, d.IsArticle dir id l := by
  rw [List.lookup_isSome_iff]
  constructor
  · rintro ⟨⟨id', p⟩, hmem, heq⟩
    obtain rfl := eq_of_beq heq
    have hfound : .ok (id, p) ∈ ls.filterMap f := hfiles ▸ List.mem_map_of_mem hmem
    obtain ⟨l, hl, hfl⟩ := List.mem_filterMap.1 hfound
    exact ⟨l, ((h.article l hl _ p).1 hfl).1⟩
  · rintro ⟨l, hl⟩
    have hmem := h.articles id l hl
    have hfound : .ok (id, ContentIndex.pathBelow dir l) ∈ ls.filterMap f :=
      List.mem_filterMap.2 ⟨l, hmem, (h.article l hmem id _).2 ⟨hl, rfl⟩⟩
    rw [hfiles] at hfound
    obtain ⟨file, hfile, heq⟩ := List.mem_map.1 hfound
    obtain rfl := Except.ok.inj heq
    exact ⟨_, hfile, BEq.rfl⟩

/-- Where files alone are found, a walk fails nowhere. -/
theorem not_failsAt (h : d.Listing dir ls f) (hfiles : ls.filterMap f = files.map .ok) (l : Location)
    (e : SiteError) : ¬ d.FailsAt dir l e := by
  intro hfails
  have hmem := h.directories l hfails.1
  have hfound : .error e ∈ ls.filterMap f :=
    List.mem_filterMap.2 ⟨l, hmem, (h.failure l hmem e).2 hfails⟩
  rw [hfiles] at hfound
  obtain ⟨_, -, heq⟩ := List.mem_map.1 hfound
  cases heq

/-- The first failure is at the least of the directories that a walk fails at. -/
theorem exists_least_failure (h : d.Listing dir ls f) {e : SiteError}
    {rest : List (Except SiteError (String × Path))}
    (hfound : ls.filterMap f = files.map .ok ++ .error e :: rest) :
    ∃ l, d.FailsAt dir l e ∧ ∀ l' e', d.FailsAt dir l' e' → l.bytes ≤ l'.bytes := by
  obtain ⟨front, back, rfl, hfront, hback⟩ := List.filterMap_eq_append_iff.1 hfound
  obtain ⟨skipped, l, after, rfl, hskipped, hl, -⟩ := List.filterMap_eq_cons_iff.1 hback
  have hmem : l ∈ front ++ (skipped ++ l :: after) := by simp
  refine ⟨l, (h.failure l hmem e).1 hl, fun l' e' hfails => ?_⟩
  have hmem' := h.directories l' hfails.1
  have hl' := (h.failure l' hmem' e').2 hfails
  rcases List.mem_append.1 hmem' with hin | hin
  · have hfile : .error e' ∈ front.filterMap f := List.mem_filterMap.2 ⟨l', hin, hl'⟩
    rw [hfront] at hfile
    obtain ⟨_, -, heq⟩ := List.mem_map.1 hfile
    cases heq
  rcases List.mem_append.1 hin with hin | hin
  · rw [hskipped l' hin] at hl'
    cases hl'
  rcases List.mem_cons.1 hin with rfl | hin
  · exact List.le_refl _
  · have hsorted := (List.pairwise_append.1 (List.pairwise_append.1 h.sorted).2.1).2.1
    exact ((List.pairwise_cons.1 hsorted).1 l' hin).asymm

end Disk.Listing

end

/-- **Articles.** An index has a file for an id just if there is one below its directory that has the
id as its name, but for the extension of Markdown in any letter case. Of all these it has the first,
where names are compared one after the other by their bytes, and a file for each id once. The order in
which a disk has its entries changes nothing of this.

A walk opens each directory below by its path. There is an index just if all these paths fit;
otherwise the first directory that cannot be opened is what the walk fails at. -/
theorem least_file_indexed (d : Disk) (dir : Path) (hnamed : d.tree.Named)
    (hhoused : Disk.Housed d.tree) (hdistinct : d.tree.Distinct) :
    (∀ index, (ContentIndex.scan d dir).result = .ok index →
      (∀ id, (index.get? id).isSome = true ↔ ∃ l, d.IsArticle dir id l) ∧
      (∀ id path, index.get? id = some path ↔ ∃ l, d.IsArticle dir id l ∧
        path = ContentIndex.pathBelow dir l ∧ ∀ l', d.IsArticle dir id l' → l.bytes ≤ l'.bytes) ∧
      ∃ ids : List String, ids.Nodup ∧ (∀ id, id ∈ ids ↔ ∃ l, d.IsArticle dir id l) ∧
        index.size = ids.length) ∧
      ((∃ index, (ContentIndex.scan d dir).result = .ok index) ↔
        ∀ l, d.IsSubdirectory dir l → ContentIndex.FitsBelow dir l) ∧
      (∀ e, (ContentIndex.scan d dir).result = .error e → ∃ l, d.FailsAt dir l e ∧
        ∀ l', d.IsSubdirectory dir l' → ¬ ContentIndex.FitsBelow dir l' → l.bytes ≤ l'.bytes) ∧
      ∀ d', d.Same d' → ContentIndex.scan d' dir = ContentIndex.scan d dir := by
  obtain ⟨ls, f, hlisting, hscan⟩ := exists_listing hnamed hhoused hdistinct dir
  have hfails {l : Location} (h : d.IsSubdirectory dir l) := h.failsAt_iff hnamed hhoused
  rw [hscan]
  rcases ContentIndex.files_or_failure (ls.filterMap f) with ⟨files, hfiles⟩ | ⟨files, e, rest, hfound⟩
  · rw [hfiles, ContentIndex.collect_files]
    have hget (id : String) : (ContentIndex.empty.addAll files).get? id = files.lookup id :=
      ContentIndex.get?_addAll .empty files id
    have hnodup := ContentIndex.nodup_addAll .empty List.nodup_nil files
    refine ⟨fun index hindex => ?_, ⟨fun _ l hl => ?_, fun _ => ⟨_, rfl⟩⟩, nofun,
      fun d' hsame => hsame.scan dir⟩
    · obtain rfl := Except.ok.inj hindex
      refine ⟨fun id => ?_, fun id path => ?_, ⟨_, hnodup, fun id => ?_,
        (List.length_map Prod.fst).symm⟩⟩
      · rw [hget, hlisting.isSome_iff hfiles]
      · rw [hget, hlisting.lookup_iff hfiles]
      · rw [← hlisting.isSome_iff hfiles, ← hget, ContentIndex.mem_ids_iff]
    · by_contra hnot
      obtain ⟨e, he⟩ := (hfails hl).2 hnot
      exact hlisting.not_failsAt hfiles l e he
  · rw [hfound, ContentIndex.collect_failure]
    obtain ⟨l, hl, hleast⟩ := hlisting.exists_least_failure hfound
    refine ⟨nofun, ⟨nofun, fun hall => ?_⟩, fun e' he' => ?_, fun d' hsame => hsame.scan dir⟩
    · exact absurd (hall l hl.1) ((hfails hl.1).1 ⟨e, hl⟩)
    · obtain rfl := Except.error.inj he'
      refine ⟨l, hl, fun l' hl' hnot => ?_⟩
      obtain ⟨e', he'⟩ := (hfails hl').2 hnot
      exact hleast l' e' he'

/-- Two files with one id, of which the text of one path comes first, but the names of the other. -/
def dashedDisk : Disk :=
  ⟨⟨[(["c"], .directory), (["c", "a-b"], .directory), (["c", "a-b", "x.md"], .file ByteArray.empty),
    (["c", "a"], .directory), (["c", "a", "x.MD"], .file ByteArray.empty)]⟩, []⟩

theorem dashed_file_indexed :
    dashedDisk.tree.Named ∧ Disk.Housed dashedDisk.tree ∧ dashedDisk.tree.Distinct ∧
      ∃ index, (ContentIndex.scan dashedDisk ⟨"c"⟩).result = .ok index ∧
        index.get? "x" = some ⟨"c/a/x.MD"⟩ := by
  have hnamed : dashedDisk.tree.Named := .of_entries (by decide)
  have hhoused : Disk.Housed dashedDisk.tree := .of_entries (by decide)
  have hdistinct : dashedDisk.tree.Distinct := ⟨by decide, by decide⟩
  have hlocate : dashedDisk.locate ⟨true, false⟩ ⟨"c"⟩ = .ok ["c"] := by decide +kernel
  obtain ⟨hindex, hexists, -⟩ := least_file_indexed dashedDisk ⟨"c"⟩ hnamed hhoused hdistinct
  obtain ⟨index, hscan⟩ := hexists.2 (by
    rintro l ⟨top, htop, hne, hget⟩
    obtain rfl := Except.ok.inj (hlocate.symm.trans htop)
    have hentry := FileTree.mem_entries (by simp) hget
    obtain rfl | rfl : l = ["a-b"] ∨ l = ["a"] := by simpa [dashedDisk, hne] using hentry
    · exact ⟨⟨by decide +kernel, by decide +kernel⟩, by decide +kernel⟩
    · exact ⟨⟨by decide +kernel, by decide +kernel⟩, by decide +kernel⟩)
  obtain ⟨-, hget, -⟩ := hindex index hscan
  refine ⟨hnamed, hhoused, hdistinct, index, hscan, (hget "x" _).2 ⟨["a", "x.MD"], ?_, rfl, ?_⟩⟩
  · exact ⟨["c"], ByteArray.empty, ["a"], "x.MD", hlocate, by decide, rfl, "MD", rfl, by decide, by decide⟩
  · rintro l ⟨top, bytes, names, n, htop, hfile, -⟩
    obtain rfl := Except.ok.inj (hlocate.symm.trans htop)
    have hentry := FileTree.mem_entries (by simp) hfile
    obtain ⟨rfl, -⟩ | ⟨rfl, -⟩ : (l = ["a-b", "x.md"] ∧ bytes = ByteArray.empty) ∨
        (l = ["a", "x.MD"] ∧ bytes = ByteArray.empty) := by simpa [dashedDisk] using hentry
    · decide +kernel
    · decide +kernel

end StaticSite
