import StaticSite.Proofs.Preparing

/-!
The index of articles, and what is below the output.

Articles are indexed by a walk through their directory. The output may lie in this. Proved here, for
every disk:

* `walkFor_of_depth_le`: a walk with as many levels as a tree is deep meets all;
* `filterMap_walkFor_agree`: what a walk finds hangs on nothing below a directory in which it finds
  nothing, by induction on its levels;
* `articles_agree`: so the articles of a build are the same, whatever lies below the output, if no
  article does.
-/

namespace StaticSite

/-! ## Walks -/

namespace FileTree

variable {t : FileTree} {β : Type}

theorem length_le_depth {l : Location} (h : (t.get? l).isSome = true) : l.length ≤ t.depth := by
  have hmax : ∀ (entries : List (Location × Entry)) (k : Nat),
      k ≤ entries.foldl (fun k e => max k e.1.length) k ∧
        ∀ e ∈ entries, e.1.length ≤ entries.foldl (fun k e => max k e.1.length) k := by
    intro entries
    induction entries with
    | nil => exact fun k => ⟨Nat.le_refl k, fun e he => absurd he List.not_mem_nil⟩
    | cons first rest ih =>
      intro k
      obtain ⟨hstart, hrest⟩ := ih (max k first.1.length)
      refine ⟨(Nat.le_max_left _ _).trans hstart, List.forall_mem_cons.2 ⟨?_, hrest⟩⟩
      exact (Nat.le_max_right _ _).trans hstart
  cases l with
  | nil => exact Nat.zero_le _
  | cons n l =>
    rw [get?_cons, List.lookup_isSome_iff] at h
    obtain ⟨e, hmem, heq⟩ := h
    rw [eq_of_beq heq]
    exact (hmax t.entries 0).2 e hmem

/-- **Levels.** A walk does not need more levels than the tree has below where it starts. -/
theorem walkFor_of_depth_le (levels more : Nat) {dir : Location}
    (h : t.depth ≤ dir.length + levels) : t.walkFor (levels + more) dir = t.walkFor levels dir := by
  induction levels generalizing dir with
  | zero =>
    have hnone : t.names dir = [] := by
      refine List.eq_nil_iff_forall_not_mem.2 fun n hn => ?_
      have hlength := length_le_depth (mem_names_iff.1 hn)
      rw [List.length_append, List.length_singleton] at hlength
      omega
    cases more with
    | zero => rfl
    | succ more =>
      rw [Nat.zero_add, walkFor_zero]
      unfold walkFor
      rw [hnone]
      rfl
  | succ levels ih =>
    rw [Nat.add_right_comm]
    unfold walkFor
    refine List.flatMap_congr fun n _ => ?_
    rw [ih (by rw [List.length_append, List.length_singleton]; omega)]

theorem ne_nil_of_mem_walkFor {levels : Nat} {dir l : Location} (h : l ∈ t.walkFor levels dir) :
    l ≠ [] := by
  cases levels with
  | zero => exact absurd h List.not_mem_nil
  | succ levels =>
    unfold walkFor at h
    obtain ⟨n, -, h⟩ := List.mem_flatMap.1 h
    rcases List.mem_cons.1 h with rfl | h
    · exact List.cons_ne_nil _ _
    · split at h
      · obtain ⟨rest, -, rfl⟩ := List.mem_map.1 h
        exact List.cons_ne_nil _ _
      · exact absurd h List.not_mem_nil

theorem filterMap_walkFor_succ (t : FileTree) (levels : Nat) (dir : Location)
    (g : Location → Option β) :
    (t.walkFor (levels + 1) dir).filterMap g = (t.names dir).flatMap fun n =>
      (g [n]).toList ++
        if t.isDirectory (dir ++ [n]) then
          (t.walkFor levels (dir ++ [n])).filterMap fun l => g (n :: l)
        else [] := by
  rw [walkFor, List.filterMap_flatMap]
  refine List.flatMap_congr fun n _ => ?_
  have hfirst : [[n]].filterMap g = (g [n]).toList := by
    cases hg : g [n] with
    | none => exact List.filterMap_cons_none hg
    | some b => exact List.filterMap_cons_some hg
  rw [← List.singleton_append, List.filterMap_append, hfirst]
  split
  · rw [List.filterMap_map]
    rfl
  · rfl

end FileTree

namespace Disk

variable {d d' : Disk} {out dir : Location} {β : Type}

theorem isDirectory_agree (h : Agree out d d') {l : Location} (hl : FileTree.isBelow out l = false) :
    d'.tree.isDirectory l = d.tree.isDirectory l := by
  unfold FileTree.isDirectory
  rw [h.outside l hl]

/-- What a walk finds is the same on disks that agree outside a directory, if it finds nothing below
this. A walk that starts in the directory itself finds nothing at all. -/
theorem filterMap_walkFor_agree (h : Agree out d d') (levels : Nat) {g g' : Location → Option β}
    (hdir : FileTree.isBelow out dir = false)
    (hsame : ∀ l, l ≠ [] → FileTree.isBelow out (dir ++ l) = false → g' l = g l)
    (hnone : ∀ l, FileTree.isBelow out (dir ++ l) = true → g l = none ∧ g' l = none) :
    (d'.tree.walkFor levels dir).filterMap g' = (d.tree.walkFor levels dir).filterMap g := by
  induction levels generalizing dir g g' with
  | zero => rfl
  | succ levels ih =>
    by_cases hout : out <+: dir
    · obtain rfl : dir = out := by
        by_contra hne
        rw [FileTree.isBelow_iff.2 ⟨hout, hne⟩] at hdir
        cases hdir
      have hbelow {t : FileTree} {l : Location} (hl : l ∈ t.walkFor (levels + 1) dir) :
          FileTree.isBelow dir (dir ++ l) = true :=
        isBelow_append (FileTree.ne_nil_of_mem_walkFor hl)
      rw [List.filterMap_eq_nil_iff.2 fun l hl => (hnone l (hbelow hl)).2,
        List.filterMap_eq_nil_iff.2 fun l hl => (hnone l (hbelow hl)).1]
    · rw [FileTree.filterMap_walkFor_succ, FileTree.filterMap_walkFor_succ, h.names dir hout]
      refine List.flatMap_congr fun n _ => ?_
      have hnext : FileTree.isBelow out (dir ++ [n]) = false := by
        refine Bool.eq_false_iff.2 fun hbelow => ?_
        obtain ⟨hpre, hne⟩ := FileTree.isBelow_iff.1 hbelow
        rcases List.prefix_concat_iff.1 hpre with heq | hpre
        · exact hne heq.symm
        · exact hout hpre
      have hsameNext : ∀ l, l ≠ [] → FileTree.isBelow out (dir ++ [n] ++ l) = false →
          g' (n :: l) = g (n :: l) :=
        fun l _ hl => hsame (n :: l) (List.cons_ne_nil n l) (by rwa [List.append_cons])
      have hnoneNext : ∀ l, FileTree.isBelow out (dir ++ [n] ++ l) = true →
          g (n :: l) = none ∧ g' (n :: l) = none :=
        fun l hl => hnone (n :: l) (by rwa [List.append_cons])
      rw [hsame [n] (List.cons_ne_nil n []) hnext, isDirectory_agree h hnext, ih hnext hsameNext hnoneNext]

end Disk

/-! ## Directories by path -/

namespace Disk

variable {t : FileTree} {d : Disk} {p q : Path} {out : Location} {names : List String}

/-- Names lead down through directories, unless one of them is too long. -/
theorem walk_directories (ht : Housed t) {loc : Location}
    (h : t.isDirectory (loc ++ names) = true) (r : Reach) (links : Nat) :
    walk t r links loc (names.map Step.into) =
      if ∀ n ∈ names, n.utf8ByteSize ≤ maxNameBytes then .ok (loc ++ names)
      else .error .nameTooLong := by
  induction names generalizing loc with
  | nil => rw [List.map_nil, walk_nil, if_pos nofun, List.append_nil]
  | cons n rest ih =>
    have hfound : (t.get? (loc ++ n :: rest)).isSome = true := by
      rw [FileTree.isDirectory_iff.1 h]
      rfl
    have hd : t.isDirectory loc = true := ht.isDirectory_of_below rest hfound
    rw [List.append_cons] at h
    have hnext : t.get? (loc ++ [n]) = some .directory := by
      rw [← FileTree.isDirectory_iff]
      cases rest with
      | nil => rwa [List.append_nil] at h
      | cons m rest => exact ht.isDirectory_of_below rest (by rw [FileTree.isDirectory_iff.1 h]; rfl)
    rw [List.map_cons]
    by_cases hn : n.utf8ByteSize ≤ maxNameBytes
    · rw [walk_into_entry hd hn hnext nofun, ih h, ← List.append_cons]
      simp only [List.forall_mem_cons, hn, true_and]
    · rw [walk_into, if_neg (by simp [hd]), if_pos (Nat.lt_of_not_le hn), if_neg]
      exact fun hshort => hn (hshort n List.mem_cons_self)

/-- A directory below another is found by its path, unless a name in it is too long. -/
theorem locate_directory (hout : d.LeadsTo q out) (ht : Housed d.tree)
    (hdir : d.tree.isDirectory (out ++ names) = true)
    (hp : p.components = q.components ++ names.map .name) (hne : names ≠ []) (htidy : p.Tidy)
    (hfits : p.Fits) (r : Reach) :
    d.locate r p = if ∀ n ∈ names, n.utf8ByteSize ≤ maxNameBytes then .ok (out ++ names)
      else .error .nameTooLong := by
  obtain ⟨left, hleft⟩ := exists_walk_down hout hp hne htidy hfits
  rw [hleft, walk_directories ht hdir]

theorem openDirectory_of_not_fits (hfits : ¬ p.Fits) :
    ∃ e, ∀ d : Disk, d.openDirectory p = .error e := by
  obtain ⟨e, -, he⟩ := locate_of_not_fits hfits
  refine ⟨.during p.text e, fun d => ?_⟩
  unfold openDirectory
  rw [he]

end Disk

/-! ## Articles -/

namespace ContentIndex

open StaticSite.Path (IsName)

variable {d d' f : Disk} {out top l place : Location} {dir path : Path}

/-- The system takes the path of a location below a directory, and the names in it. -/
structure FitsBelow (dir : Path) (l : Location) : Prop where
  path : (pathBelow dir l).Fits
  names : ∀ n ∈ l, n.utf8ByteSize ≤ Disk.maxNameBytes

theorem tidy_pathBelow (dir : Path) (hnames : ∀ n ∈ l, IsName n) (hne : l ≠ []) :
    (pathBelow dir l).Tidy := by
  obtain ⟨init, n, rfl⟩ : ∃ init n, l = init ++ [n] :=
    ⟨l.dropLast, l.getLast hne, (List.dropLast_concat_getLast hne).symm⟩
  have hn : IsName n := hnames n (by simp)
  unfold pathBelow
  rw [List.foldl_append]
  exact Path.tidy_join (Path.isAbsolute_name hn) (Path.tidy_name hn)

/-- A directory lies below the one that a path leads to. -/
structure DirectoryBelow (d : Disk) (dir : Path) (top l : Location) : Prop where
  leads : d.LeadsTo dir top
  housed : Disk.Housed d.tree
  names : ∀ n ∈ l, IsName n
  proper : l ≠ []
  directory : d.tree.isDirectory (top ++ l) = true

namespace DirectoryBelow

theorem openDirectory_of_fits (h : DirectoryBelow d dir top l) (hfits : (pathBelow dir l).Fits) :
    d.openDirectory (pathBelow dir l) =
      if ∀ n ∈ l, n.utf8ByteSize ≤ Disk.maxNameBytes then .ok (top ++ l)
      else .error (.during (pathBelow dir l).text .nameTooLong) := by
  have hlocate : d.locate ⟨true, false⟩ (pathBelow dir l) = _ :=
    Disk.locate_directory h.leads h.housed h.directory (Path.components_joinAll dir h.names) h.proper
      (tidy_pathBelow dir h.names h.proper) hfits ⟨true, false⟩
  unfold Disk.openDirectory
  rw [hlocate]
  by_cases hshort : ∀ n ∈ l, n.utf8ByteSize ≤ Disk.maxNameBytes
  · rw [if_pos hshort, if_pos hshort]
    exact if_pos h.directory
  · rw [if_neg hshort, if_neg hshort]

/-- Whether a directory can be opened hangs on its path alone. -/
theorem openDirectory_congr (h : DirectoryBelow d dir top l) (h' : DirectoryBelow d' dir top l) :
    d'.openDirectory (pathBelow dir l) = d.openDirectory (pathBelow dir l) := by
  by_cases hfits : (pathBelow dir l).Fits
  · rw [h.openDirectory_of_fits hfits, h'.openDirectory_of_fits hfits]
  · obtain ⟨e, he⟩ := Disk.openDirectory_of_not_fits hfits
    rw [he, he]

theorem openDirectory_eq_ok_iff (h : DirectoryBelow d dir top l) :
    (∃ loc, d.openDirectory (pathBelow dir l) = .ok loc) ↔ FitsBelow dir l := by
  constructor
  · rintro ⟨loc, hopen⟩
    have hfits : (pathBelow dir l).Fits := by
      by_contra hfits
      obtain ⟨e, he⟩ := Disk.openDirectory_of_not_fits hfits
      cases hopen.symm.trans (he d)
    rw [h.openDirectory_of_fits hfits] at hopen
    split at hopen
    · next hshort => exact ⟨hfits, hshort⟩
    · cases hopen
  · rintro ⟨hfits, hshort⟩
    exact ⟨_, (h.openDirectory_of_fits hfits).trans (if_pos hshort)⟩

end DirectoryBelow

/-- What a walk finds at a place hangs on the entry there, and on whether it can be opened. -/
theorem findAt?_congr (hget : d'.tree.get? place = d.tree.get? place)
    (hopen : d.tree.isDirectory place = true → d'.openDirectory path = d.openDirectory path) :
    findAt? d' place path = findAt? d place path := by
  unfold findAt?
  rw [hget]
  cases he : d.tree.get? place with
  | none => rfl
  | some e =>
    cases e with
    | file bytes => rfl
    | link target => rfl
    | directory => rw [hopen (FileTree.isDirectory_iff.2 he)]

/-- Where later nothing is found, there was nothing to be found, if what is there has stayed. -/
theorem findAt?_eq_none_of_keeps (hkept : d.tree.Keeps f.tree)
    (hlink : ∀ target, f.tree.get? place ≠ some (.link target))
    (hopen : d.tree.isDirectory place = true → f.openDirectory path = d.openDirectory path)
    (hnone : findAt? f place path = none) : findAt? d place path = none := by
  cases he : d.tree.get? place with
  | none =>
    unfold findAt?
    rw [he]
  | some e =>
    obtain ⟨e', he', hkind⟩ :=
      Option.map_eq_some_iff.1 (hkept _ _ (FileTree.kind?_of_get? he))
    unfold findAt? at hnone ⊢
    rw [he'] at hnone
    rw [he]
    cases e with
    | link target => rfl
    | file bytes =>
      cases e' with
      | file bytes' => exact hnone
      | link target => exact absurd he' (hlink target)
      | directory => cases hkind
    | directory =>
      obtain rfl : e' = .directory := by
        cases e' with
        | directory => rfl
        | file bytes' => cases hkind
        | link target => cases hkind
      dsimp only at hnone ⊢
      rwa [hopen (FileTree.isDirectory_iff.2 he)] at hnone

theorem findings_agree (h : Disk.Agree out d d') (htop : FileTree.isBelow out top = false)
    (hsame : ∀ l, l ≠ [] → FileTree.isBelow out (top ++ l) = false →
      findAt? d' (top ++ l) (pathBelow dir l) = findAt? d (top ++ l) (pathBelow dir l))
    (hnone : ∀ l, FileTree.isBelow out (top ++ l) = true →
      findAt? d (top ++ l) (pathBelow dir l) = none ∧
        findAt? d' (top ++ l) (pathBelow dir l) = none) :
    findings d' top dir = findings d top dir := by
  unfold findings FileTree.walk
  rw [← FileTree.walkFor_of_depth_le d'.tree.depth d.tree.depth (Nat.le_add_left _ _),
    ← FileTree.walkFor_of_depth_le d.tree.depth d'.tree.depth (Nat.le_add_left _ _),
    Nat.add_comm d.tree.depth]
  exact Disk.filterMap_walkFor_agree h _ htop hsame hnone

/-- **Indexing** comes to the same, whatever lies below a directory in which nothing is found. -/
theorem scan_agree (h : Disk.Agree out d d') (hnamed : d.tree.Named) (hd : Disk.Housed d.tree)
    (hd' : Disk.Housed d'.tree) (hdir : FileTree.isBelow out (d.lastPlace dir) = false)
    (hnone : ∀ l, d.LeadsTo dir (d.lastPlace dir) →
      FileTree.isBelow out (d.lastPlace dir ++ l) = true →
      findAt? d (d.lastPlace dir ++ l) (pathBelow dir l) = none ∧
        findAt? d' (d.lastPlace dir ++ l) (pathBelow dir l) = none) :
    scan d' dir = scan d dir := by
  unfold scan
  rw [Disk.locate_agree h hdir]
  cases hlocate : d.locate ⟨true, false⟩ dir with
  | error e => rfl
  | ok top =>
    obtain rfl := (Disk.lastPlace_of_locate hlocate).resolve_right nofun
    dsimp only
    rw [Disk.isDirectory_agree h hdir]
    by_cases htop : d.tree.isDirectory (d.lastPlace dir) = true
    · have hleads : d.LeadsTo dir (d.lastPlace dir) := .of_locate hlocate htop
      rw [if_pos htop, if_pos htop, findings_agree h hdir (fun l hne hl => ?_)
        fun l => hnone l hleads]
      refine findAt?_congr (h.outside _ hl) fun hdirectory => ?_
      have hnames : ∀ n ∈ l, IsName n := fun n hn =>
        hnamed _ (by rw [FileTree.isDirectory_iff.1 hdirectory]; rfl) n (List.mem_append_right _ hn)
      exact DirectoryBelow.openDirectory_congr ⟨hleads, hd, hnames, hne, hdirectory⟩
        ⟨hleads.agree_outside h hdir, hd', hnames, hne, (Disk.isDirectory_agree h hl).trans hdirectory⟩
    · rw [if_neg htop, if_neg htop]

end ContentIndex

/-- Where a build looks for articles does not lie below the output, and what a walk from there comes
to below the output when the build is over is neither an article nor a directory that cannot be
opened. -/
def BuildOptions.IndexesBeside (o : BuildOptions) (m f : Disk) (out : Location) : Prop :=
  ∀ relative, o.content.withinSite = .ok relative →
    FileTree.isBelow out (m.lastPlace (o.root.join relative)) = false ∧
      ∀ l, FileTree.isBelow out (m.lastPlace (o.root.join relative) ++ l) = true →
        ContentIndex.findAt? f (m.lastPlace (o.root.join relative) ++ l)
          (ContentIndex.pathBelow (o.root.join relative) l) = none

/-- A directory that neither lies in the output nor holds it has nothing below the output. -/
theorem indexesBeside_of_apart {o : BuildOptions} {m : Disk} {out : Location} (f : Disk)
    (h : ∀ relative, o.content.withinSite = .ok relative →
      ¬ out <+: m.lastPlace (o.root.join relative) ∧ ¬ m.lastPlace (o.root.join relative) <+: out) :
    o.IndexesBeside m f out := by
  intro relative hrelative
  obtain ⟨hnot, hnot'⟩ := h relative hrelative
  refine ⟨FileTree.isBelow_of_not_prefix hnot, ?_⟩
  intro l hbelow
  rcases List.prefix_or_prefix_of_prefix (FileTree.isBelow_iff.1 hbelow).1 (List.prefix_append _ l) with
    hpre | hpre
  · exact absurd hpre hnot
  · exact absurd hpre hnot'

section

variable {o : BuildOptions} {m x f : Disk} {out l : Location} {dir : Path}

/-- What a walk does not come to when a build is over, it does not come to before. -/
theorem findAt?_eq_none_before (hleads : m.LeadsTo dir (m.lastPlace dir))
    (hdir : FileTree.isBelow out (m.lastPlace dir) = false) (hx : Disk.Agree out m x)
    (hhoused : Disk.Housed x.tree) (hf : Disk.Agree out m f) (hfnamed : f.tree.Named)
    (hfhoused : Disk.Housed f.tree) (hkept : x.tree.Keeps f.tree)
    (hl : FileTree.isBelow out (m.lastPlace dir ++ l) = true)
    (hnone : ContentIndex.findAt? f (m.lastPlace dir ++ l) (ContentIndex.pathBelow dir l) = none) :
    ContentIndex.findAt? x (m.lastPlace dir ++ l) (ContentIndex.pathBelow dir l) = none := by
  refine ContentIndex.findAt?_eq_none_of_keeps hkept (fun target => hf.noLink' _ target hl)
    (fun hdirectory => ?_) hnone
  have hkind := hkept _ _ (FileTree.kind?_of_get? (FileTree.isDirectory_iff.1 hdirectory))
  have hdirectory' : f.tree.isDirectory (m.lastPlace dir ++ l) = true :=
    FileTree.isDirectory_of_kind? hkind
  have hne : l ≠ [] := by
    rintro rfl
    rw [List.append_nil, hdir] at hl
    cases hl
  have hnames : ∀ n ∈ l, Path.IsName n := fun n hn =>
    hfnamed _ (by rw [FileTree.isDirectory_iff.1 hdirectory']; rfl) n (List.mem_append_right _ hn)
  have hbelow : ContentIndex.DirectoryBelow x dir (m.lastPlace dir) l :=
    ⟨hleads.agree_outside hx hdir, hhoused, hnames, hne, hdirectory⟩
  have hbelow' : ContentIndex.DirectoryBelow f dir (m.lastPlace dir) l :=
    ⟨hleads.agree_outside hf hdir, hfhoused, hnames, hne, hdirectory'⟩
  exact hbelow.openDirectory_congr hbelow'

/-- The articles of a build are the same until its end, if a walk comes to none of them below the
output. -/
theorem articles_agree (h : o.IndexesBeside m f out) (hnamed : m.tree.Named)
    (hhoused : Disk.Housed m.tree) (hx : Disk.Agree out m x) (hxhoused : Disk.Housed x.tree)
    (hf : Disk.Agree out m f) (hfnamed : f.tree.Named) (hfhoused : Disk.Housed f.tree)
    (hm : m.tree.Keeps f.tree) (hkept : x.tree.Keeps f.tree) : o.articles x = o.articles m := by
  unfold BuildOptions.articles
  cases hwithin : o.content.withinSite with
  | error e => rfl
  | ok relative =>
    obtain ⟨hbeside, hnone⟩ := h relative hwithin
    dsimp only
    rw [ContentIndex.scan_agree hx hnamed hhoused hxhoused hbeside fun l hleads hl => ⟨?_, ?_⟩]
    · exact findAt?_eq_none_before hleads hbeside (.refl hx.noLink) hhoused hf hfnamed hfhoused hm hl
        (hnone l hl)
    · exact findAt?_eq_none_before hleads hbeside hx hxhoused hf hfnamed hfhoused hkept hl (hnone l hl)

end

end StaticSite
