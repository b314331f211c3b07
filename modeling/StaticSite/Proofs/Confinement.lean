import StaticSite.Proofs.Cleaning
import StaticSite.Proofs.Places

/-!
Where a build writes.

The paths that a build writes to are spelled from the path of its output and from the names of pages
and of what a walk meets. The names on a disk are single components, and no change makes others.
Proved here, for every build and every disk:

* `walk_named`, `apply_named`: paths lead to names, so a change leaves no others;
* `components_fileOf`: the file of a page is below the output;
* `relativeTo?_met`: what a walk meets lies below the root, and its target below the output;
* `build_confined`: so all that a build makes or writes is on the way to the output or below it.
-/

namespace StaticSite

open StaticSite.Path (IsName)

/-! ## Names on a disk -/

/-- The names of what is there are single components of paths. -/
def FileTree.Named (t : FileTree) : Prop :=
  ∀ loc, (t.get? loc).isSome = true → ∀ n ∈ loc, IsName n

namespace FileTree

variable {t t' : FileTree}

theorem Named.of_get? (h : t.Named) (ht : ∀ loc, (t'.get? loc).isSome = true →
    (t.get? loc).isSome = true ∨ ∀ n ∈ loc, IsName n) : t'.Named := by
  intro loc hloc
  rcases ht loc hloc with hold | hnew
  · exact h loc hold
  · exact hnew

theorem Named.insert (h : t.Named) {place : Location} {e : Entry} (hplace : ∀ n ∈ place, IsName n) :
    (t.insert place e).Named := by
  refine h.of_get? fun loc hloc => ?_
  rw [get?_insert] at hloc
  split at hloc
  · next heq =>
    rw [heq.1]
    exact .inr hplace
  · exact .inl hloc

theorem Named.eraseAll (h : t.Named) (q : Location → Bool) : (t.eraseAll q).Named := by
  refine h.of_get? fun loc hloc => .inl ?_
  rw [get?_eraseAll] at hloc
  split at hloc
  · cases hloc
  · exact hloc

theorem Named.of_entries (h : ∀ e ∈ t.entries, ∀ n ∈ e.1, IsName n) : t.Named := by
  intro loc hloc
  cases loc with
  | nil => exact nofun
  | cons n rest =>
    obtain ⟨e, hmem, heq⟩ := List.lookup_isSome_iff.1 hloc
    rw [beq_iff_eq.1 heq]
    exact h e hmem

theorem Named.isName_of_mem_names (h : t.Named) {dir : Location} {n : String}
    (hn : n ∈ t.names dir) : IsName n :=
  h (dir ++ [n]) (mem_names_iff.1 hn) n (by simp)

end FileTree

namespace Disk

variable {t : FileTree} {d d' : Disk} {p : Path}

theorem isName_of_mem_steps {text n : String} (h : .into n ∈ steps text) : IsName n := by
  have hpieces : ∃ piece ∈ Text.splitOn '/' text.toList, Step.ofPiece piece = .into n := by
    unfold steps at h
    split at h
    · next rest hrest =>
      obtain ⟨piece, hpiece, hn⟩ := List.mem_map.1 h
      exact ⟨piece, hrest ▸ List.mem_cons_of_mem _ hpiece, hn⟩
    · exact List.mem_map.1 h
  obtain ⟨piece, hpiece, hn⟩ := hpieces
  rcases ofPiece_cases piece with ⟨-, hstep⟩ | ⟨-, hstep⟩ | ⟨m, hname, hstep⟩
  · cases hstep.symm.trans hn
  · cases hstep.symm.trans hn
  · obtain rfl := Step.into.inj (hstep.symm.trans hn)
    exact Path.isName_of_ofPiece? (Text.not_mem_of_mem_splitOn hpiece) hname

/-- A walk leads from names to names. -/
theorem walk_named {r : Reach} {links : Nat} {loc l : Location} {xs : List Step}
    (h : walk t r links loc xs = .ok l) (hloc : ∀ n ∈ loc, IsName n)
    (hxs : ∀ n, .into n ∈ xs → IsName n) : ∀ n ∈ l, IsName n := by
  have hinto {loc : Location} {n : String} {rest : List Step} (hloc : ∀ n ∈ loc, IsName n)
      (hxs : ∀ m, .into m ∈ Step.into n :: rest → IsName m) : ∀ m ∈ loc ++ [n], IsName m := by
    intro m hm
    rcases List.mem_append.1 hm with hm | hm
    · exact hloc m hm
    · obtain rfl := List.mem_singleton.1 hm
      exact hxs m List.mem_cons_self
  have hrest {x : Step} {rest : List Step} (hxs : ∀ n, .into n ∈ x :: rest → IsName n) :
      ∀ n, .into n ∈ rest → IsName n := fun n hn => hxs n (List.mem_cons_of_mem _ hn)
  refine walk_ok_induction (P := fun _ loc xs => (∀ n ∈ loc, IsName n) →
    (∀ n, .into n ∈ xs → IsName n) → ∀ n ∈ l, IsName n) ?_ ?_ ?_ ?_ ?_ ?_ ?_ h hloc hxs
  · intro _ hloc _
    exact hloc
  · intro _ loc rest _ ih hloc hxs
    exact ih hloc (hrest hxs)
  · intro _ loc rest _ ih hloc hxs
    exact ih (fun n hn => hloc n (List.dropLast_subset _ hn)) (hrest hxs)
  · intro _ loc n e rest _ _ _ _ ih hloc hxs
    exact ih (hinto hloc hxs) (hrest hxs)
  · intro _ loc n _ _ _ _ hl hloc hxs
    exact hl ▸ hinto hloc hxs
  · intro _ loc n target _ _ _ _ hl hloc hxs
    exact hl ▸ hinto hloc hxs
  · intro _ loc n target rest _ _ _ _ ih hloc hxs
    refine ih ?_ fun m hm => ?_
    · unfold linkStart
      split
      · exact nofun
      · exact hloc
    · rcases List.mem_append.1 hm with hm | hm
      · exact isName_of_mem_steps hm
      · exact hrest hxs m hm

theorem locate_named {r : Reach} {l : Location} (ht : d.tree.Named) (h : d.locate r p = .ok l) :
    ∀ n ∈ l, IsName n := by
  obtain ⟨haccepts, hwalk⟩ := locate_eq_ok_iff.1 h
  refine walk_named hwalk ?_ fun n hn => isName_of_mem_steps hn
  unfold start
  split
  · exact nofun
  · next hrelative =>
    refine ht d.cwd ?_
    rw [FileTree.isDirectory_iff.1 (haccepts.origin.resolve_left hrelative)]
    rfl

theorem createDirectory_named (ht : d.tree.Named) (h : d.createDirectory p = .ok d') :
    d'.tree.Named := by
  obtain ⟨loc, hlocate, -, rfl⟩ := createDirectory_eq_ok h
  exact FileTree.Named.insert ht (locate_named ht hlocate)

theorem createDirectories_named (ht : d.tree.Named) (p : Path) :
    (d.createDirectories p).1.tree.Named :=
  createFirst_invariant (I := fun d => d.tree.Named)
    (fun _ _ _ _ hd hmade => createDirectory_named hd hmade) ht

theorem replaceFile_named (ht : d.tree.Named) (temporary : String) (p : Path) (bytes : ByteArray) :
    (d.replaceFile temporary p bytes).1.tree.Named := by
  cases hresult : (d.replaceFile temporary p bytes).2 with
  | error e =>
    obtain ⟨-, hsame⟩ := replaceFile_error hresult
    exact ht.of_get? fun loc hloc => .inl (hsame loc ▸ hloc)
  | ok _ =>
    obtain ⟨place, hplace, -, -, hget⟩ := replaceFile_replaced hresult
    refine ht.of_get? fun loc hloc => ?_
    rw [hget] at hloc
    split at hloc
    · next heq =>
      rw [heq]
      exact .inr (locate_named ht hplace)
    · exact .inl hloc

theorem copyFile_named (ht : d.tree.Named) (source target : Path) :
    (d.copyFile source target).1.tree.Named := by
  rcases copyFile_disk d source target with h | ⟨loc, bytes, hlocate, -, h⟩
  · rwa [h]
  · rw [h]
    exact FileTree.Named.insert ht (locate_named ht hlocate)

theorem removeTree_named (ht : d.tree.Named) (p : Path) : (d.removeTree p).1.tree.Named := by
  rcases removeTree_cases d p with h | ⟨top, target, -, -, h⟩ | ⟨top, hp, htop⟩
  · rwa [h]
  · rw [h]
    exact ht.eraseAll _
  · have hbelow := FileTree.Named.eraseAll ht (FileTree.isBelow top)
    rcases removeTree_of_directory hp htop with h | h
    · rwa [h]
    · rw [h]
      exact FileTree.Named.eraseAll hbelow _

end Disk

theorem apply_named {d : Disk} (ht : d.tree.Named) (c : DiskChange) :
    (c.apply d).1.tree.Named := by
  cases c with
  | createDirectories p => exact Disk.createDirectories_named ht p
  | copyFile source target => exact Disk.copyFile_named ht source target
  | writeFile temporary p bytes => exact Disk.replaceFile_named ht temporary p bytes
  | removeTree p => exact Disk.removeTree_named ht p

/-! ## Paths to write to -/

namespace Path

variable {output p q : Path}

/-- The path is on the way to the output, or it leads on from there by names. -/
def Confined (output p : Path) : Prop :=
  p.components <+: output.components ∨
    ∃ names : List String, p.components = output.components ++ names.map .name

/-- Whatever is on the way to such a path is such a path. -/
theorem Confined.of_isPrefix (h : Confined output p) (hq : q.components <+: p.components) :
    Confined output q := by
  rcases h with hp | ⟨names, hp⟩
  · exact .inl (hq.trans hp)
  · rw [hp] at hq
    rcases List.prefix_or_prefix_of_prefix hq (List.prefix_append _ _) with hbefore | ⟨rest, hrest⟩
    · exact .inl hbefore
    · rw [← hrest, List.prefix_append_right_inj, List.prefix_map_iff] at hq
      obtain ⟨names', -, hnames'⟩ := hq
      exact .inr ⟨names', by rw [← hrest, hnames']⟩

theorem components_directory_of_names {names : List String} (hne : names ≠ [])
    (h : p.components = output.components ++ names.map .name) :
    p.directory.components = output.components ++ names.dropLast.map .name := by
  have hp : p.components =
      output.components ++ names.dropLast.map .name ++ [.name (names.getLast hne)] := ?_
  · exact components_directory hp
  rw [h, List.append_assoc]
  congr 1
  have hlast := congrArg (List.map Component.name) (List.dropLast_append_getLast hne)
  rw [List.map_append] at hlast
  exact hlast.symm

end Path

/-- The paths that a change makes or writes. -/
def DiskChange.writes : DiskChange → List Path
  | createDirectories p => Disk.ancestors p (p.components.length + 1)
  | copyFile _ target => [target]
  | writeFile temporary p _ => [p.directory.join ⟨temporary⟩, p]
  | removeTree _ => []

/-- All that a change makes or writes is on the way to the output or below it. -/
def DiskChange.Confined (output : Path) (c : DiskChange) : Prop :=
  ∀ p ∈ c.writes, Path.Confined output p

theorem confined_createDirectories {output p : Path} (h : Path.Confined output p) :
    (DiskChange.createDirectories p).Confined output :=
  fun _ hq => h.of_isPrefix (Path.ancestors_prefix hq)

/-! ## Pages -/

theorem Disk.exists_freeName (t : FileTree) (dir : Location) (tries n : Nat) :
    ∃ m, freeName t dir tries n = temporaryName m := by
  induction tries generalizing n with
  | zero => exact ⟨n, rfl⟩
  | succ tries ih =>
    unfold freeName
    split
    · exact ⟨n, rfl⟩
    · exact ih (n + 1)

theorem Disk.isName_of_temporaryIn {d : Disk} {dir : Path} {temporary : String}
    (h : d.temporaryIn dir = .ok temporary) : IsName temporary := by
  obtain ⟨loc, -, h⟩ := Logged.except_map_eq_ok h
  obtain ⟨m, hm⟩ := exists_freeName d.tree loc d.tree.entries.length 0
  rw [← h, hm]
  exact Path.isName_temporaryName m

/-- The name of a page that a descriptor stands for. -/
theorem isName_html {p : Path} {name : String} (h : p.fileName? = some name) :
    IsName (String.ofList ((Path.splitName name.toList).1 ++ '.' :: "html".toList)) := by
  refine Path.isName_ofList ?_ (by simp)
  rw [List.mem_append]
  rintro (hmem | hmem)
  · exact (Path.isName_of_mem_components
      (List.mem_of_getLast? (Path.getLast?_of_fileName? h))).1 (Path.splitName_subset hmem)
  · exact absurd hmem (by decide)

/-- The file of a page of the site lies below the output. -/
theorem components_fileOf (b : PageBuilder) {page relative : Path}
    (h : page.withinSite = .ok relative) :
    ∃ names : List String, names ≠ [] ∧
      (b.fileOf relative).components = b.output.components ++ names.map .name := by
  obtain ⟨-, hne, -⟩ := Path.withinSite_eq_ok_iff.1 h
  have hrelative := Path.components_withinSite h
  generalize page.components.filterMap Path.Component.name? = names at hne hrelative
  unfold PageBuilder.fileOf
  split
  · next hjson =>
    obtain ⟨name, hname⟩ := Path.fileName?_of_hasExtension hjson
    let new := String.ofList ((Path.splitName name.toList).1 ++ '.' :: "html".toList)
    refine ⟨names.dropLast ++ [new], by simp, Path.components_join_names ?_⟩
    rw [Path.components_withExtension hname (by decide) (isName_html hname), hrelative,
      ← List.map_dropLast, List.map_append]
    rfl
  · exact ⟨names, hne, Path.components_join_names hrelative⟩

theorem pageChanges_confined (b : PageBuilder) :
    BuildStep.PageChanges b (DiskChange.Confined b.output) where
  directory page relative hrelative := by
    obtain ⟨names, hne, hnames⟩ := components_fileOf b hrelative
    refine confined_createDirectories (.inr ⟨names.dropLast, ?_⟩)
    exact Path.components_directory_of_names hne hnames
  file page relative hrelative d temporary bytes htemporary := by
    obtain ⟨names, hne, hnames⟩ := components_fileOf b hrelative
    have hdirectory := Path.components_directory_of_names hne hnames
    intro p hp
    rcases List.mem_cons.1 hp with rfl | hp
    · refine .inr ⟨names.dropLast ++ [temporary], ?_⟩
      rw [Path.components_join_name _ (Disk.isName_of_temporaryIn htemporary), hdirectory]
      simp
    · obtain rfl := List.mem_singleton.1 hp
      exact .inr ⟨names, hnames⟩

/-! ## Dependencies -/

/-- The paths that a walk can meet: those of dependencies, and from there by names. -/
def BuildOptions.Meets (o : BuildOptions) (p : Path) : Prop :=
  ∃ dependency ∈ o.dependencies, ∃ relative names, dependency.withinSite = .ok relative ∧
    (∀ n ∈ names, IsName n) ∧ p = ContentIndex.pathBelow (o.root.join relative) names

/-- Whatever a walk can meet lies below the root by names. -/
theorem components_met {o : BuildOptions} {p : Path} (h : o.Meets p) :
    ∃ names : List String, names ≠ [] ∧ (∀ n ∈ names, IsName n) ∧
      p.components = o.root.components ++ names.map .name := by
  obtain ⟨dependency, -, relative, below, hrelative, hbelow, rfl⟩ := h
  have hnames := Path.components_withinSite hrelative
  obtain ⟨-, hne, -⟩ := Path.withinSite_eq_ok_iff.1 hrelative
  generalize dependency.components.filterMap Path.Component.name? = names at hnames hne
  refine ⟨names ++ below, by simp [hne], fun n hn => ?_, ?_⟩
  · rcases List.mem_append.1 hn with hn | hn
    · exact Path.isName_of_mem_components (p := relative) (by simpa [hnames] using hn)
    · exact hbelow n hn
  · unfold ContentIndex.pathBelow
    rw [Path.components_joinAll _ hbelow, Path.components_join_names hnames, List.map_append,
      List.append_assoc]

/-- Its path from the root is made of names. -/
theorem relativeTo?_met {o : BuildOptions} {p : Path} (h : o.Meets p) :
    ∃ (relative : Path) (names : List String), p.relativeTo? o.root = some relative ∧
      relative.components = names.map .name := by
  obtain ⟨names, -, hall, hmet⟩ := components_met h
  exact ⟨_, names, Path.relativeTo?_of_append hmet, Path.components_ofComponents hall⟩

theorem BuildOptions.Meets.into {o : BuildOptions} {p : Path} {n : String} (h : o.Meets p)
    (hn : IsName n) : o.Meets (p.join ⟨n⟩) := by
  obtain ⟨dependency, hmem, relative, names, hrelative, hnames, rfl⟩ := h
  refine ⟨dependency, hmem, relative, names ++ [n], hrelative, ?_, ?_⟩
  · intro m hm
    rcases List.mem_append.1 hm with hm | hm
    · exact hnames m hm
    · obtain rfl := List.mem_singleton.1 hm
      exact hn
  · unfold ContentIndex.pathBelow
    rw [List.foldl_append]
    rfl

/-- The changes that copy what a walk can meet and does not pass over, to the path that it has from
the root. -/
inductive BuildOptions.Copies (o : BuildOptions) : DiskChange → Prop
  | directory {p relative : Path} (hp : o.Meets p) (hstarts : p.startsWith o.target = false)
      (hr : p.relativeTo? o.root = some relative) :
    Copies o (.createDirectories (o.target.join relative))
  | parent {p relative dir : Path} (hp : o.Meets p) (hstarts : p.startsWith o.target = false)
      (hr : p.relativeTo? o.root = some relative)
      (hdir : (o.target.join relative).parent? = some dir) : Copies o (.createDirectories dir)
  | file {p relative : Path} (hp : o.Meets p) (hstarts : p.startsWith o.target = false)
      (hr : p.relativeTo? o.root = some relative) : Copies o (.copyFile p (o.target.join relative))

theorem target_met {o : BuildOptions} {p : Path} (h : o.Meets p) :
    ∃ relative, p.relativeTo? o.root = some relative ∧
      (CopyPlan.mk o.root o.target).target p = o.target.join relative := by
  obtain ⟨relative, -, hr, -⟩ := relativeTo?_met h
  refine ⟨relative, hr, ?_⟩
  unfold CopyPlan.target CopyPlan.relative
  rw [hr]
  rfl

theorem copyChanges_copies (o : BuildOptions) :
    BuildStep.CopyChanges ⟨o.root, o.target⟩ (fun d => d.tree.Named) o.Meets o.Copies where
  into d loc p n hd hp hn := hp.into (hd.isName_of_mem_names hn)
  directory p hp hstarts := by
    obtain ⟨relative, hr, htarget⟩ := target_met hp
    rw [htarget]
    exact .directory hp hstarts hr
  parent p dir hp hstarts hdir := by
    obtain ⟨relative, hr, htarget⟩ := target_met hp
    exact .parent hp hstarts hr (htarget ▸ hdir)
  file p hp hstarts := by
    obtain ⟨relative, hr, htarget⟩ := target_met hp
    rw [htarget]
    exact .file hp hstarts hr

theorem BuildOptions.Copies.confined {o : BuildOptions} {c : DiskChange} (h : o.Copies c) :
    c.Confined o.target := by
  have htarget {p relative : Path} (hp : o.Meets p) (hr : p.relativeTo? o.root = some relative) :
      Path.Confined o.target (o.target.join relative) := by
    obtain ⟨relative', names, hr', hnames⟩ := relativeTo?_met hp
    obtain rfl := Option.some.inj (hr.symm.trans hr')
    exact .inr ⟨names, Path.components_join_names hnames⟩
  cases h with
  | directory hp _ hr => exact confined_createDirectories (htarget hp hr)
  | parent hp _ hr hdir =>
    refine confined_createDirectories ((htarget hp hr).of_isPrefix ?_)
    rw [Path.components_parent? hdir]
    exact List.dropLast_prefix _
  | file hp _ hr =>
    intro q hq
    obtain rfl := List.mem_singleton.1 hq
    exact htarget hp hr

/-! ## A build -/

theorem outputChanges_confined (o : BuildOptions) :
    OutputChanges o (fun d => d.tree.Named) o.Meets (DiskChange.Confined o.target) where
  kept _ c _ hd := apply_named hd c
  directory := confined_createDirectories (.inl List.prefix_rfl)
  start dependency hmem relative hrelative := ⟨dependency, hmem, relative, [], hrelative, nofun, rfl⟩
  dependencies :=
    { into := (copyChanges_copies o).into
      directory := fun p hp hstarts => ((copyChanges_copies o).directory p hp hstarts).confined
      parent := fun p dir hp hstarts hdir =>
        ((copyChanges_copies o).parent p dir hp hstarts hdir).confined
      file := fun p hp hstarts => ((copyChanges_copies o).file p hp hstarts).confined }
  pages b hb := hb ▸ pageChanges_confined b

theorem cleaning_leads {Q : DiskChange → Prop} {o : BuildOptions} (h : Q (.removeTree o.target))
    (s : BuildState) : s.Leads Q (o.cleaning s).1 := by
  unfold BuildOptions.cleaning
  split
  · rcases cleanOutput_state o.root o.target s with hstate | ⟨-, -, hstate⟩
    · rw [hstate]
      exact .refl
    · rw [hstate]
      exact .change .refl h
  · exact .refl

/-- Removing the output and the changes after it are all that a build makes. -/
theorem steps_leads {o : BuildOptions} {Met : Path → Prop} {Q : DiskChange → Prop}
    (h : OutputChanges o (fun d => d.tree.Named) Met Q) (hclean : Q (.removeTree o.target))
    (formats : Formats) {d : Disk} (hd : d.tree.Named) :
    (⟨d, []⟩ : BuildState).Leads Q (o.steps formats ⟨d, []⟩).1 := by
  have hcleaning := cleaning_leads hclean ⟨d, []⟩
  have hnamed : (o.cleaning ⟨d, []⟩).1.disk.tree.Named :=
    hcleaning.invariant (I := fun s => s.disk.tree.Named) hd fun _ c _ hs => apply_named hs c
  rw [steps_eq]
  rcases BuildStep.bind_cases o.cleaning (fun _ => o.afterCleaning formats) ⟨d, []⟩ with
    ⟨_, -, hstate, -⟩ | ⟨_, -, hstate, -⟩
  · rw [hstate]
    exact hcleaning
  · rw [hstate]
    exact hcleaning.trans (afterCleaning_makes h formats _ hnamed)

/-- What holds of every change of a kind holds of all that have been made. -/
theorem BuildState.Leads.changes {Q : DiskChange → Prop} {s t : BuildState} (h : s.Leads Q t)
    (hs : ∀ c ∈ s.changes, Q c) : ∀ c ∈ t.changes, Q c := by
  refine h.invariant (I := fun s => ∀ c ∈ s.changes, Q c) hs fun s c hc hs c' hc' => ?_
  rcases List.mem_cons.1 hc' with rfl | hc'
  · exact hc
  · exact hs c' hc'

/-- **Confinement.** Whether a build succeeds or not, all that it makes or writes is on the way to the
output or below it by names. Dependencies are copied to the paths that they have from the root, which
every path that a walk can meet has one of. And of the paths it is given, a build takes those that
neither start at the top nor go up and have a name, as the names in them. -/
theorem build_confined (o : BuildOptions) (formats : Formats) (d : Disk) (hd : d.tree.Named) :
    (∀ c ∈ (o.steps formats ⟨d, []⟩).1.changes, ∀ p ∈ c.writes, Path.Confined o.target p) ∧
    (∀ s : BuildState, s.disk.tree.Named →
      s.Leads o.Copies (copyDependencies o.root o.target o.dependencies s).1) ∧
    (∀ p, o.Meets p → ∃ relative, p.relativeTo? o.root = some relative) ∧
    (∀ p q : Path, p.withinSite = .ok q ↔
      (Path.Component.root ∉ p.components ∧ Path.Component.parent ∉ p.components) ∧
      p.components.filterMap Path.Component.name? ≠ [] ∧
      q = ⟨"/".intercalate (p.components.filterMap Path.Component.name?)⟩) ∧
    (∀ p q : Path, p.withinSite = .ok q →
      q.components = (p.components.filterMap Path.Component.name?).map .name ∧
      q.withinSite = .ok q) := by
  refine ⟨?_, ?_, ?_, fun p q => Path.withinSite_eq_ok_iff, ?_⟩
  · exact (steps_leads (outputChanges_confined o) nofun formats hd).changes nofun
  · intro s hs
    exact BuildStep.copyDependencies_makes (fun _ c _ hd => apply_named hd c) (copyChanges_copies o)
      (outputChanges_confined o).start s hs
  · intro p hp
    obtain ⟨relative, -, hr, -⟩ := relativeTo?_met hp
    exact ⟨relative, hr⟩
  · exact fun p q h => ⟨Path.components_withinSite h, Path.withinSite_idem h⟩

/-- A site of a page and a style sheet. -/
def styledDisk : Disk :=
  ⟨⟨[(["index.html"], .file "p".toUTF8), (["css"], .directory),
    (["css", "a.css"], .file "q".toUTF8)]⟩, []⟩

theorem styled_build_confined :
    let o : BuildOptions := { dependencies := [⟨"css/."⟩] }
    (o.steps .standard ⟨styledDisk, []⟩).1.changes.map (·.target.text) =
      ["./out/index.html", "./out", "./out/css/a.css", "./out/css", "./out/css", "./out"] ∧
    ∀ c ∈ (o.steps .standard ⟨styledDisk, []⟩).1.changes, ∀ p ∈ c.writes,
      Path.Confined ⟨"./out"⟩ p := by
  refine ⟨by decide +kernel, ?_⟩
  exact (build_confined { dependencies := [⟨"css/."⟩] } .standard styledDisk
    (FileTree.Named.of_entries (by decide))).1

end StaticSite
