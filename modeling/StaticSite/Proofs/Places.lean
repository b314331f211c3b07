import StaticSite.Proofs.Components
import StaticSite.Proofs.Survival

/-!
Places that paths lead to, where there is nothing yet.

A path whose last name is free leads to the place for it. Proved here, for every disk:

* `locate_eq_ok_iff`: where a path leads is where its steps lead;
* `locate_mono`: a path that leads to an entry leads there on every disk with more entries;
* `walked_insert_of_free`: a path to a free place leads to what is put there;
* `locate_insert_file`: a file at a free place changes the way of no path;
* `createDirectories_grown`: so all that making directories does is to make some on the way;
* `replaceFile_replaced`: and a file that is moved to its place comes to lie where its path led.
-/

namespace StaticSite

/-! ## Disks that agree -/

namespace FileTree

variable {t t' : FileTree}

theorem isDirectory_iff {loc : Location} :
    t.isDirectory loc = true ↔ t.get? loc = some .directory := by
  unfold isDirectory
  cases t.get? loc with
  | none => simp
  | some e => cases e <;> simp [Entry.isDirectory]

theorem isDirectory_of_kind? {loc : Location} {kind : Bool} (h : t.kind? loc = some kind) :
    t.isDirectory loc = kind := by
  obtain ⟨e, he, hdir⟩ := Option.map_eq_some_iff.1 h
  unfold isDirectory
  rw [he]
  exact hdir

theorem directory_of_kind? {loc : Location} (h : t.kind? loc = some true) :
    t.get? loc = some .directory := by
  rw [← isDirectory_iff]
  exact isDirectory_of_kind? h

theorem kind?_of_get? {loc : Location} {e : Entry} (h : t.get? loc = some e) :
    t.kind? loc = some e.isDirectory := by
  unfold kind?
  rw [h]
  rfl

theorem within_insert {place : Location} {e : Entry} (hfree : t.get? place = none) :
    t.Within (t.insert place e) := by
  intro loc e' h
  rw [get?_insert, if_neg]
  · exact h
  · rintro ⟨rfl, -⟩
    cases hfree.symm.trans h

theorem get?_insert_self {place : Location} {e : Entry} (hfree : t.get? place = none) :
    (t.insert place e).get? place = some e := by
  rw [get?_insert, if_pos]
  refine ⟨rfl, ?_⟩
  rintro rfl
  cases hfree

theorem mem_entries {loc : Location} {e : Entry} (hne : loc ≠ []) (h : t.get? loc = some e) :
    (loc, e) ∈ t.entries := by
  cases loc with
  | nil => exact absurd rfl hne
  | cons n rest =>
    rw [get?_cons, List.lookup_eq_some_iff] at h
    obtain ⟨before, after, hentries, -⟩ := h
    rw [hentries]
    exact List.mem_append_cons_self

theorem eq_of_name {dir : Location} {e : Location × Entry} {n : String}
    (h : (match e.1.getLast? with
      | some n => if e.1.dropLast = dir then some n else none
      | none => none) = some n) : e.1 = dir ++ [n] := by
  split at h
  · next m hlast =>
    split at h
    · next hdrop =>
      obtain rfl := Option.some.inj h
      exact hdrop ▸ (List.dropLast_append_getLast? m hlast).symm
    · cases h
  · cases h

theorem mem_names_iff {dir : Location} {n : String} :
    n ∈ t.names dir ↔ (t.get? (dir ++ [n])).isSome = true := by
  have hget : t.get? (dir ++ [n]) = t.entries.lookup (dir ++ [n]) := by
    cases dir with
    | nil => rfl
    | cons m dir => rfl
  rw [hget, List.lookup_isSome_iff]
  unfold names
  rw [List.mem_mergeSort, List.mem_filterMap]
  constructor
  · rintro ⟨e, hmem, hlast⟩
    exact ⟨e, hmem, beq_iff_eq.2 (eq_of_name hlast).symm⟩
  · rintro ⟨⟨loc, e⟩, hmem, hloc⟩
    obtain rfl := beq_iff_eq.1 hloc
    exact ⟨(dir ++ [n], e), hmem, by simp⟩

theorem name_eq_none {dir : Location} {e : Location × Entry} (h : e.1.dropLast ≠ dir) :
    (match e.1.getLast? with
      | some n => if e.1.dropLast = dir then some n else none
      | none => none) = none := by
  split
  · exact if_neg h
  · rfl

/-- What is taken away elsewhere is not named. -/
theorem names_eraseAll {q : Location → Bool} {dir : Location}
    (h : ∀ loc, q loc = true → loc.dropLast ≠ dir) : (t.eraseAll q).names dir = t.names dir := by
  unfold names eraseAll
  rw [List.filterMap_filter]
  congr 1
  refine List.filterMap_congr fun e _ => ?_
  cases hq : q e.1 with
  | true => exact (name_eq_none (h e.1 hq)).symm
  | false => rfl

/-- What is put elsewhere is not named. -/
theorem names_insert {loc dir : Location} {e : Entry} (h : loc.dropLast ≠ dir) :
    (t.insert loc e).names dir = t.names dir := by
  unfold names insert
  rw [List.filterMap_cons_none, List.filterMap_filter]
  · congr 1
    refine List.filterMap_congr fun e' _ => ?_
    by_cases hl : e'.1 = loc
    · rw [if_neg (by simp [hl])]
      exact (name_eq_none (hl ▸ h)).symm
    · rw [if_pos (by simpa using hl)]
  · exact name_eq_none (e := (loc, e)) h

theorem isDirectory_insert_file {place : Location} {bytes : ByteArray}
    (hfree : t.get? place = none) (loc : Location) :
    (t.insert place (.file bytes)).isDirectory loc = t.isDirectory loc := by
  unfold isDirectory
  rw [get?_insert]
  split
  · next h =>
    rw [h.1, hfree]
    rfl
  · rfl

end FileTree

namespace Disk

variable {t : FileTree} {d d' : Disk} {p : Path}

/-! ## Where paths lead -/

/-- The system follows a path: it is neither empty nor too long, and it has a place to start from. -/
structure Accepts (d : Disk) (p : Path) : Prop where
  nonempty : p.text.isEmpty = false
  noNull : p.text.toList.contains '\x00' = false
  short : p.text.utf8ByteSize ≤ maxPathBytes
  origin : p.isAbsolute = true ∨ d.tree.isDirectory d.cwd = true

theorem Accepts.locate_eq (h : d.Accepts p) (r : Reach) :
    d.locate r p = walk d.tree r maxLinks (d.start p) (steps p.text) := by
  unfold locate start
  rw [if_neg (Bool.eq_false_iff.1 h.nonempty), if_neg (Bool.eq_false_iff.1 h.noNull), if_neg (Nat.not_lt_of_le h.short)]
  split
  · rfl
  · next habs => rw [if_pos (h.origin.resolve_left habs)]

/-- A path that is not followed fails in one way, whatever it is asked for. -/
theorem locate_of_not_accepts (h : ¬ d.Accepts p) : ∃ e, ∀ r, d.locate r p = .error e := by
  unfold locate
  by_cases hempty : p.text.isEmpty = true
  · exact ⟨_, fun r => if_pos hempty⟩
  by_cases hnull : p.text.toList.contains '\x00' = true
  · exact ⟨_, fun r => (if_neg hempty).trans (if_pos hnull)⟩
  by_cases hlong : maxPathBytes < p.text.utf8ByteSize
  · exact ⟨_, fun r => (if_neg hempty).trans ((if_neg hnull).trans (if_pos hlong))⟩
  refine ⟨.notFound, fun r => ?_⟩
  rw [if_neg hempty, if_neg hnull, if_neg hlong, if_neg, if_neg]
  · exact fun hcwd => h ⟨by simpa using hempty, by simpa using hnull, Nat.le_of_not_lt hlong, .inr hcwd⟩
  · exact fun habs => h ⟨by simpa using hempty, by simpa using hnull, Nat.le_of_not_lt hlong, .inl habs⟩

theorem locate_eq_ok_iff {r : Reach} {l : Location} :
    d.locate r p = .ok l ↔
      d.Accepts p ∧ walk d.tree r maxLinks (d.start p) (steps p.text) = .ok l := by
  by_cases h : d.Accepts p
  · simp [h, h.locate_eq r]
  · obtain ⟨e, he⟩ := locate_of_not_accepts h
    simp [h, he r]

theorem Accepts.mono (h : d.Accepts p) (ht : ∀ loc, d.tree.isDirectory loc = true →
    d'.tree.isDirectory loc = true) (hcwd : d'.cwd = d.cwd) : d'.Accepts p :=
  ⟨h.nonempty, h.noNull, h.short, h.origin.imp_right fun hd => hcwd ▸ ht _ hd⟩

theorem start_eq (hcwd : d'.cwd = d.cwd) (p : Path) : d'.start p = d.start p := by
  unfold start
  rw [hcwd]

theorem locate_mono {follow : Bool} {l : Location} (h : d.locate ⟨follow, false⟩ p = .ok l)
    (ht : d.tree.Within d'.tree) (hcwd : d'.cwd = d.cwd) : d'.locate ⟨follow, false⟩ p = .ok l := by
  obtain ⟨haccepts, hwalk⟩ := locate_eq_ok_iff.1 h
  refine locate_eq_ok_iff.2 ⟨haccepts.mono (fun _ => ht.isDirectory) hcwd, ?_⟩
  rw [start_eq hcwd]
  exact walk_eq_ok_iff.2 ((walk_eq_ok_iff.1 hwalk).mono ht)

/-! ## Free places -/

/-- A path to a free place leads to what is put there, which is no link. -/
theorem walked_insert_of_free {follow : Bool} {links : Nat} {e : Entry}
    (he : ∀ target, e ≠ .link target) {loc l : Location} {xs : List Step}
    (h : walk t ⟨follow, true⟩ links loc xs = .ok l) (hfree : t.get? l = none) :
    Walked (t.insert l e) true links loc xs l := by
  have hwithin : t.Within (t.insert l e) := FileTree.within_insert hfree
  refine walk_ok_induction (P := fun links loc xs => Walked (t.insert l e) true links loc xs l)
    .done ?_ ?_ ?_ ?_ ?_ ?_ h
  · intro links loc rest hd ih
    exact .stay (hwithin.isDirectory hd) ih
  · intro links loc rest hd ih
    exact .up (hwithin.isDirectory hd) ih
  · intro links loc n entry rest hd hn hget hlink ih
    exact .into (hwithin.isDirectory hd) hn (hwithin _ _ hget) hlink ih
  · intro links loc n hd hn _ _ hl
    subst hl
    exact .into (hwithin.isDirectory hd) hn (FileTree.get?_insert_self hfree) he .done
  · intro links loc n target _ _ hget _ hl
    subst hl
    cases hfree.symm.trans hget
  · intro links loc n target rest hd hn hget _ ih
    exact .jump (hwithin.isDirectory hd) hn (hwithin _ _ hget) (.inr rfl) ih

/-- A path to a free place leads to what is put there, which is no link. -/
theorem locate_insert_of_free {follow : Bool} {e : Entry} (he : ∀ target, e ≠ .link target)
    {l : Location} (h : d.locate ⟨follow, true⟩ p = .ok l) (hfree : d.tree.get? l = none) :
    (d.insert l e).locate ⟨true, false⟩ p = .ok l := by
  obtain ⟨haccepts, hwalk⟩ := locate_eq_ok_iff.1 h
  have hwithin : d.tree.Within (d.insert l e).tree := FileTree.within_insert hfree
  refine locate_eq_ok_iff.2 ⟨haccepts.mono (fun _ => hwithin.isDirectory) rfl, ?_⟩
  exact walk_eq_ok_iff.2 (walked_insert_of_free he hwalk hfree)

/-- A file at a free place changes the way of no path: nothing is found behind the place, whether it
is free or there is a file. -/
theorem walk_insert_file {follow : Bool} {place : Location} {bytes : ByteArray}
    (hfree : t.get? place = none) (links : Nat) (loc l : Location) (xs : List Step) :
    walk (t.insert place (.file bytes)) ⟨follow, true⟩ links loc xs = .ok l ↔
      walk t ⟨follow, true⟩ links loc xs = .ok l := by
  refine walk_induction (P := fun links loc xs =>
    walk (t.insert place (.file bytes)) ⟨follow, true⟩ links loc xs = .ok l ↔
      walk t ⟨follow, true⟩ links loc xs = .ok l) ?_ ?_ ?_ ?_ links loc xs
  · intro links loc
    rw [walk_nil, walk_nil]
  · intro links loc rest ih
    rw [walk_stay, walk_stay, FileTree.isDirectory_insert_file hfree]
    split
    · exact ih
    · exact Iff.rfl
  · intro links loc rest ih
    rw [walk_up, walk_up, FileTree.isDirectory_insert_file hfree]
    split
    · exact ih
    · exact Iff.rfl
  · intro links loc n rest ih ihlink
    rw [walk_into, walk_into, FileTree.isDirectory_insert_file hfree]
    split
    · exact Iff.rfl
    · split
      · exact Iff.rfl
      · by_cases hplace : loc ++ [n] = place
        · subst hplace
          have hnot : (t.insert (loc ++ [n]) (.file bytes)).isDirectory (loc ++ [n]) = false := by
            rw [FileTree.isDirectory_insert_file hfree, FileTree.isDirectory, hfree]
            rfl
          rw [FileTree.get?_insert_self hfree, hfree]
          dsimp only
          cases rest with
          | nil => simp [walk_nil]
          | cons y rest => cases y <;> simp [walk_stay, walk_up, walk_into, hnot]
        · rw [FileTree.get?_insert, if_neg fun h => hplace h.1]
          cases t.get? (loc ++ [n]) with
          | none => exact Iff.rfl
          | some entry =>
            cases entry with
            | file bytes => exact ih
            | directory => exact ih
            | link target =>
              dsimp only
              split
              · exact Iff.rfl
              · cases links with
                | zero => exact Iff.rfl
                | succ links => exact ihlink links rfl _ _

theorem locate_insert_file {follow : Bool} {place l : Location} {bytes : ByteArray}
    (hfree : d.tree.get? place = none) :
    (d.insert place (.file bytes)).locate ⟨follow, true⟩ p = .ok l ↔
      d.locate ⟨follow, true⟩ p = .ok l := by
  rw [locate_eq_ok_iff, locate_eq_ok_iff]
  refine and_congr ?_ (walk_insert_file hfree _ _ _ _)
  have hcwd : (d.insert place (.file bytes)).tree.isDirectory d.cwd = d.tree.isDirectory d.cwd :=
    FileTree.isDirectory_insert_file hfree _
  refine ⟨fun h => ⟨h.nonempty, h.noNull, h.short, h.origin.imp_right fun hd => ?_⟩,
    fun h => ⟨h.nonempty, h.noNull, h.short, h.origin.imp_right fun hd => ?_⟩⟩
  · exact hcwd ▸ hd
  · exact hcwd.trans hd

/-! ## Making directories -/

/-- A disk with some more directories, which lie on the way along a path. -/
structure Grown (p : Path) (d d' : Disk) : Prop where
  cwd : d'.cwd = d.cwd
  entry : ∀ loc, d'.tree.get? loc = d.tree.get? loc ∨
    d.tree.get? loc = none ∧ d'.tree.get? loc = some .directory ∧
      ∃ q : Path, q.components <+: p.components ∧ d'.locate ⟨true, false⟩ q = .ok loc

namespace Grown

theorem of_same (hcwd : d'.cwd = d.cwd) (h : ∀ loc, d'.tree.get? loc = d.tree.get? loc) :
    Grown p d d' := ⟨hcwd, fun loc => .inl (h loc)⟩

theorem refl (p : Path) (d : Disk) : Grown p d d := of_same rfl fun _ => rfl

theorem within (h : Grown p d d') : d.tree.Within d'.tree := by
  intro loc e he
  rcases h.entry loc with hsame | ⟨hnone, -, -⟩
  · exact hsame.trans he
  · cases hnone.symm.trans he

theorem trans {d'' : Disk} (h : Grown p d d') (h' : Grown p d' d'') : Grown p d d'' := by
  refine ⟨h'.cwd.trans h.cwd, fun loc => ?_⟩
  rcases h.entry loc with hsame | ⟨hnone, hnew, q, hq, hlocate⟩
  · rw [← hsame]
    exact h'.entry loc
  · exact .inr ⟨hnone, h'.within _ _ hnew, q, hq, locate_mono hlocate h'.within h'.cwd⟩

end Grown

theorem createDirectory_grown (h : d.createDirectory p = .ok d') : Grown p d d' := by
  obtain ⟨l, hlocate, hfree, rfl⟩ := createDirectory_eq_ok h
  refine ⟨rfl, fun loc => ?_⟩
  by_cases hloc : loc = l
  · subst hloc
    refine .inr ⟨hfree, FileTree.get?_insert_self hfree, trimSlashes p, ?_, ?_⟩
    · simp [Path.components_trimSlashes]
    · exact locate_insert_of_free (fun _ h => by cases h) hlocate hfree
  · refine .inl ?_
    unfold insert
    rw [FileTree.get?_insert, if_neg fun h => hloc h.1]

theorem Grown.of_isPrefix {q : Path} (h : Grown q d d') (hq : q.components <+: p.components) :
    Grown p d d' := by
  refine ⟨h.cwd, fun loc => (h.entry loc).imp_right ?_⟩
  rintro ⟨hnone, hnew, q', hq', hlocate⟩
  exact ⟨hnone, hnew, q', hq'.trans hq, hlocate⟩

/-- **Making directories** does no more than to make some on the way. -/
theorem createDirectories_grown (d : Disk) (p : Path) : Grown p d (d.createDirectories p).1 :=
  createFirst_invariant (I := Grown p d) (fun _ hq _ _ hgrown hmade =>
    hgrown.trans ((createDirectory_grown hmade).of_isPrefix (Path.ancestors_prefix hq))) (.refl _ _)

/-! ## Moving a file to its place -/

/-- A disk with a file in place of what a path led to, and nothing else changed. -/
def Replaced (p : Path) (bytes : ByteArray) (d d' : Disk) : Prop :=
  ∃ loc, d.locate ⟨false, true⟩ p = .ok loc ∧ d.tree.isDirectory loc = false ∧ d'.cwd = d.cwd ∧
    ∀ l, d'.tree.get? l = if l = loc then some (.file bytes) else d.tree.get? l

/-- A file that is moved to its place comes to lie where its path led before there was a temporary
one. -/
theorem replaceFile_replaced {temporary : String} {bytes : ByteArray}
    (h : (d.replaceFile temporary p bytes).2 = .ok ()) :
    Replaced p bytes d (d.replaceFile temporary p bytes).1 := by
  obtain ⟨place, loc, hfree, hlocate, hnot, hcwd, hget⟩ := replaceFile_ok h
  refine ⟨loc, (locate_insert_file hfree).1 hlocate, ?_, hcwd, hget⟩
  have hsame : (d.insert place (.file bytes)).tree.isDirectory loc = d.tree.isDirectory loc :=
    FileTree.isDirectory_insert_file hfree loc
  rw [← hsame]
  exact Bool.eq_false_iff.2 hnot

end Disk

end StaticSite
