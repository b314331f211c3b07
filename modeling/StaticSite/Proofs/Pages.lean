import StaticSite.Proofs.Attempts
import StaticSite.Proofs.Copying
import StaticSite.Proofs.Looks
import StaticSite.Proofs.Placing

/-!
Building pages on a disk.

A page is rendered, and its file is put in its place below the output. Proved here, for every disk
where the output path leads to a directory without links below:

* `fileOf_below`: the file of a page is spelled by names after the output;
* `build_eq_buildOn`: what building a page does, as a function of the disk alone;
* `buildOn_agree`: nothing changes but below the output, which stays as it was found;
* `get?_buildOn_self`, `get?_buildOn_other`: a page that is built lies in its place, and what is
  elsewhere stays;
* `render_agree`: a page that is not stopped below the output is rendered alike, whatever changes
  there.
-/

namespace StaticSite

open StaticSite.Path (IsName)

/-! ## The file of a page -/

namespace Path

variable {page relative : Path}

/-- The names in a path. -/
def names (p : Path) : List String := p.components.filterMap Component.name?

/-- The file of a page as it is seen from the output: a descriptor stands for a page of its name. -/
def pageFile (page : Path) : Path :=
  if page.hasExtension "json" then page.withExtension "html" else page

/-- The file of a page in a list, if it is a page of the site. -/
def pageFile? (page : Path) : Option Path := page.withinSite.toOption.map pageFile

theorem pageFile?_of_withinSite (h : page.withinSite = .ok relative) :
    page.pageFile? = some relative.pageFile := by
  unfold pageFile?
  rw [h]
  rfl

theorem names_map_name {p : Path} {ns : List String} (h : p.components = ns.map .name) :
    p.names = ns := by
  unfold names
  rw [h, List.filterMap_map]
  exact List.filterMap_some

/-- The file of a page of the site is spelled by names. -/
theorem components_pageFile (h : page.withinSite = .ok relative) :
    relative.pageFile.components = relative.pageFile.names.map .name ∧
      relative.pageFile.names ≠ [] ∧ relative.pageFile.Tidy := by
  obtain ⟨-, hne, hrelative⟩ := withinSite_eq_ok_iff.1 h
  have hcomponents := components_withinSite h
  have htidy : relative.Tidy := by
    rw [hrelative]
    exact tidy_ofNames (fun n hn => isName_of_mem_filterMap hn) hne
  generalize page.components.filterMap Component.name? = ns at hne hcomponents
  unfold pageFile
  split
  · next hjson =>
    obtain ⟨name, hname⟩ := fileName?_of_hasExtension hjson
    have hnew := isName_html hname
    have hwith := components_withExtension hname (by decide) hnew
    rw [hcomponents, ← List.map_dropLast] at hwith
    let last := String.ofList ((splitName name.toList).1 ++ '.' :: "html".toList)
    have hnames : (relative.withExtension "html").components = (ns.dropLast ++ [last]).map .name := by
      rw [List.map_append]
      exact hwith
    rw [names_map_name hnames]
    exact ⟨hnames, by simp, tidy_withExtension hname (by decide) hnew⟩
  · rw [names_map_name hcomponents]
    exact ⟨hcomponents, hne, htidy⟩

end Path

theorem fileOf_below (b : PageBuilder) {page relative : Path}
    (h : page.withinSite = .ok relative) :
    Disk.Below b.output relative.pageFile.names (b.fileOf relative) := by
  obtain ⟨hcomponents, -, htidy⟩ := Path.components_pageFile h
  have hjoined : (b.output.join relative.pageFile).Tidy :=
    Path.tidy_join (Path.isAbsolute_of_names hcomponents) htidy
  exact ⟨Path.components_join_names hcomponents, fun _ => hjoined, Path.trimSlashes_of_tidy hjoined⟩

/-! ## Building as a function of the disk -/

namespace PageBuilder

variable {b : PageBuilder} {d d' : Disk} {page relative target : Path} {markup : String}
  {out : Location}

/-- What building a page makes of a disk, and what comes of it. -/
def buildOn (b : PageBuilder) (d : Disk) (page : Path) : Disk × Except SiteError Path :=
  match page.withinSite with
  | .error e => (d, .error e)
  | .ok relative =>
    match (b.render d relative).result with
    | .error e => (d, .error e)
    | .ok (markup, target) =>
      ((d.put target markup.toUTF8).1, (d.put target markup.toUTF8).2.map fun _ => target)

theorem write_eq_put (target : Path) (markup : String) (s : BuildState) :
    (write target markup s).1.disk = (s.disk.put target markup.toUTF8).1 ∧
      (write target markup s).2.result = (s.disk.put target markup.toUTF8).2 := by
  let temporary (d : Disk) : Except SiteError String :=
    (d.temporaryIn target.directory).mapError (.io target.directory)
  have hwrite : write target markup =
      BuildStep.change (.createDirectories target.directory) >>= fun _ =>
        (BuildStep.look fun d => Logged.lift (temporary d)) >>= fun name =>
          .change (.writeFile name target markup.toUTF8) := rfl
  rw [hwrite]
  unfold Disk.put Disk.putIn
  cases hmade : (s.disk.createDirectories target.directory).2 with
  | error e =>
    have hfails : (BuildStep.change (.createDirectories target.directory) s).2.result =
      .error (.io target.directory e) := BuildStep.result_change_of_error hmade
    obtain ⟨hstate, hresult⟩ := BuildStep.bind_of_error hfails fun _ =>
      (BuildStep.look fun d => Logged.lift (temporary d)) >>= fun name =>
        BuildStep.change (.writeFile name target markup.toUTF8)
    rw [hstate, hresult]
    exact ⟨rfl, rfl⟩
  | ok _ =>
    have hdone : (BuildStep.change (.createDirectories target.directory) s).2.result = .ok () :=
      BuildStep.result_change_of_ok hmade
    obtain ⟨hstate, hresult⟩ := BuildStep.bind_of_ok hdone fun _ =>
      (BuildStep.look fun d => Logged.lift (temporary d)) >>= fun name =>
        BuildStep.change (.writeFile name target markup.toUTF8)
    rw [hstate, hresult, BuildStep.state_change, BuildStep.look_bind_run]
    dsimp only [temporary]
    have hdisk : (s.after (.createDirectories target.directory)).disk =
      (s.disk.createDirectories target.directory).1 := rfl
    rw [hdisk]
    cases (s.disk.createDirectories target.directory).1.temporaryIn target.directory with
    | error e => exact ⟨rfl, rfl⟩
    | ok name =>
      dsimp only [Except.mapError]
      rw [BuildStep.state_change, BuildStep.result_change]
      dsimp only [BuildState.after, DiskChange.apply, DiskChange.subject, DiskChange.target]
      exact ⟨rfl, rfl⟩

theorem buildOn_of_site_error {e : SiteError} (h : page.withinSite = .error e) (d : Disk) :
    b.buildOn d page = (d, .error e) := by
  unfold buildOn
  rw [h]

theorem buildOn_of_render_error {e : SiteError} (h : page.withinSite = .ok relative)
    (hr : (b.render d relative).result = .error e) : b.buildOn d page = (d, .error e) := by
  unfold buildOn
  rw [h]
  dsimp only
  rw [hr]

theorem buildOn_of_render (h : page.withinSite = .ok relative)
    (hr : (b.render d relative).result = .ok (markup, target)) :
    b.buildOn d page =
      ((d.put target markup.toUTF8).1, (d.put target markup.toUTF8).2.map fun _ => target) := by
  unfold buildOn
  rw [h]
  dsimp only
  rw [hr]

/-- **Building a page.** What it does and what comes of it hangs on the disk alone, not on what has
been tried before. -/
theorem build_eq_buildOn (b : PageBuilder) (page : Path) (s : BuildState) :
    (b.build page s).1.disk = (b.buildOn s.disk page).1 ∧
      (b.build page s).2.result = (b.buildOn s.disk page).2 := by
  cases hp : page.withinSite with
  | error e =>
    obtain ⟨hstate, hresult⟩ := BuildStep.build_of_site_error (b := b) (s := s) hp
    rw [buildOn_of_site_error hp, hstate, hresult]
    exact ⟨rfl, rfl⟩
  | ok relative =>
    cases hr : (b.render s.disk relative).result with
    | error e =>
      obtain ⟨hstate, hresult⟩ := BuildStep.build_of_render_error hp hr
      rw [buildOn_of_render_error hp hr, hstate, hresult]
      exact ⟨rfl, rfl⟩
    | ok r =>
      obtain ⟨markup, target⟩ := r
      obtain ⟨hstate, hresult⟩ := BuildStep.build_of_render hp hr
      obtain ⟨hdisk, hput⟩ := write_eq_put target markup s
      rw [buildOn_of_render hp hr, hstate, hresult]
      cases hwritten : (write target markup s).2.result with
      | error e =>
        obtain ⟨hstate', hresult'⟩ := BuildStep.bind_of_error hwritten fun _ => pure target
        rw [hstate', hresult', ← hput, hwritten]
        exact ⟨hdisk, rfl⟩
      | ok _ =>
        obtain ⟨hstate', hresult'⟩ := BuildStep.bind_of_ok hwritten fun _ => pure target
        rw [hstate', hresult', ← hput, hwritten]
        exact ⟨hdisk, rfl⟩

end PageBuilder

/-! ## Below the output -/

namespace Disk

variable {d d' : Disk} {p q : Path} {out : Location} {names : List String} {n : String}
  {bytes : ByteArray}

/-- A path leads to a directory without links below, and there is nothing but in directories. -/
structure Ready (d : Disk) (q : Path) (out : Location) : Prop where
  leads : d.LeadsTo q out
  noLink : NoLinkBelow d.tree out
  housed : Housed d.tree

theorem Ready.agree (h : d.Ready q out) (hagree : Agree out d d') (ht : Housed d'.tree) :
    d'.Ready q out := ⟨h.leads.agree hagree, hagree.noLink', ht⟩

/-- Disks that agree outside a directory give the same answers at a path that is not stopped below. -/
theorem alike_of_agree (h : Agree out d d') (hp : FileTree.isBelow out (d.lastPlace p) = false) :
    d.Alike d' p := ⟨isFile_agree h hp, readText_agree h hp, canonicalize_agree h hp⟩

theorem short_of_descend {t : FileTree} {free : Bool} {loc l : Location}
    (h : descend t free loc names = .ok l) : ∀ m ∈ names, m.utf8ByteSize ≤ maxNameBytes := by
  induction names generalizing loc with
  | nil => exact nofun
  | cons m rest ih =>
    unfold descend at h
    split at h
    · cases h
    · split at h
      · cases h
      · next hm =>
        rw [List.forall_mem_cons]
        refine ⟨Nat.le_of_not_lt hm, ?_⟩
        split at h
        · split at h
          · next hlast =>
            rw [Bool.and_eq_true, List.isEmpty_iff] at hlast
            rw [hlast.1]
            exact nofun
          · cases h
        · exact ih h

/-- Names lead down to what is there. -/
theorem descend_of_get? {t : FileTree} (ht : Housed t) (free : Bool) {loc : Location}
    (hshort : ∀ m ∈ names, m.utf8ByteSize ≤ maxNameBytes)
    (hget : (t.get? (loc ++ names)).isSome = true) :
    descend t free loc names = .ok (loc ++ names) := by
  induction names generalizing loc with
  | nil => rw [List.append_nil]; rfl
  | cons m rest ih =>
    have hnext : t.get? (loc ++ [m]) ≠ none := by
      intro hnone
      rw [List.append_cons, ht.get?_append hnone rest] at hget
      cases hget
    obtain ⟨e, he⟩ := Option.ne_none_iff_exists'.1 hnext
    obtain ⟨hm, hrest⟩ := List.forall_mem_cons.1 hshort
    have hdir : t.isDirectory loc = true := ht loc m (by rw [he]; rfl)
    unfold descend
    rw [if_neg (by simp [hdir]), if_neg (Nat.not_lt_of_le hm), he]
    rw [List.append_cons] at hget
    exact (ih hrest hget).trans (congrArg Except.ok (List.append_cons loc m rest).symm)

theorem readBytes_below (h : d.Ready q out) (hp : Below q names p) (hne : names ≠ [])
    (hfits : p.Fits) (hshort : ∀ m ∈ names, m.utf8ByteSize ≤ maxNameBytes)
    (hget : d.tree.get? (out ++ names) = some (.file bytes)) : d.readBytes p = .ok bytes := by
  unfold readBytes
  rw [locate_down h.leads h.noLink hp.components hne (hp.tidy hne) hfits,
    descend_of_get? h.housed _ hshort (by rw [hget]; rfl)]
  dsimp only [bind, Except.bind]
  rw [hget]

/-- A path that a file can be put at can be followed. -/
theorem followed_of_put (h : d.Ready q out) (hp : Below q (names ++ [n]) p)
    (hok : (d.put p bytes).2 = .ok ()) :
    p.Fits ∧ ∀ m ∈ names ++ [n], m.utf8ByteSize ≤ maxNameBytes := by
  have hfits : p.directory.Fits := by
    by_contra hnot
    obtain ⟨e, he⟩ := put_of_not_fits hnot
    rw [he] at hok
    cases hok
  have hagree := makeDown_agree (d := d) h.noLink names
  rw [put_of_fits h.leads h.noLink h.housed hp hfits] at hok
  cases hmade : (makeDown d.tree out names).2 with
  | error e =>
    rw [hmade] at hok
    cases hok
  | ok _ =>
    rw [hmade] at hok
    dsimp only at hok
    generalize ({ d with tree := (makeDown d.tree out names).1 } : Disk) = made at hok hagree
    cases hplace : made.locateDirectory p.directory with
    | error e =>
      rw [putIn_of_error hplace] at hok
      cases hok
    | ok place =>
      obtain ⟨temporary, -, hput⟩ := putIn_of_place hplace bytes
      rw [hput] at hok
      dsimp only at hok
      rw [Logged.except_mapError_eq_ok_iff] at hok
      obtain ⟨loc, hlocate, -⟩ := replaceFile_replaced hok
      obtain ⟨haccepts, -⟩ := locate_eq_ok_iff.1 hlocate
      have hfits : p.Fits := ⟨haccepts.noNull, haccepts.short⟩
      rw [locate_down (h.leads.agree hagree) hagree.noLink' hp.components (by simp)
        (hp.tidy (by simp)) hfits] at hlocate
      exact ⟨hfits, short_of_descend hlocate⟩

end Disk

namespace PageBuilder

variable {b : PageBuilder} {d d' : Disk} {page relative target : Path} {markup : String}
  {out l : Location}

theorem target_of_render (hr : (b.render d relative).result = .ok (markup, target)) :
    target = b.fileOf relative := (render_eq_ok_iff.1 hr).2.1

theorem exists_below (b : PageBuilder) (hp : page.withinSite = .ok relative) :
    ∃ names n, relative.pageFile.names = names ++ [n] ∧
      Disk.Below b.output (names ++ [n]) (b.fileOf relative) := by
  obtain ⟨-, hne, -⟩ := Path.components_pageFile hp
  have hbelow := fileOf_below b hp
  obtain ⟨names, n, hnames⟩ : ∃ names n, relative.pageFile.names = names ++ [n] :=
    ⟨_, _, (List.dropLast_append_getLast hne).symm⟩
  exact ⟨names, n, hnames, hnames ▸ hbelow⟩

/-- A page leaves the disk as it is, or it is put in its place. -/
theorem buildOn_cases (b : PageBuilder) (d : Disk) (page : Path) :
    (∃ e, b.buildOn d page = (d, .error e)) ∨
      ∃ relative names n markup, page.withinSite = .ok relative ∧
        relative.pageFile.names = names ++ [n] ∧
        Disk.Below b.output (names ++ [n]) (b.fileOf relative) ∧
        (b.render d relative).result = .ok (markup, b.fileOf relative) ∧
        b.buildOn d page = ((d.put (b.fileOf relative) markup.toUTF8).1,
          (d.put (b.fileOf relative) markup.toUTF8).2.map fun _ => b.fileOf relative) := by
  cases hp : page.withinSite with
  | error e => exact .inl ⟨e, buildOn_of_site_error hp d⟩
  | ok relative =>
    cases hr : (b.render d relative).result with
    | error e => exact .inl ⟨e, buildOn_of_render_error hp hr⟩
    | ok r =>
      obtain ⟨markup, target⟩ := r
      obtain rfl := target_of_render hr
      obtain ⟨names, n, hnames, hbelow⟩ := b.exists_below hp
      exact .inr ⟨relative, names, n, markup, rfl, hnames, hbelow, hr, buildOn_of_render hp hr⟩

/-- Whatever comes of a page, nothing changes but below the output. -/
theorem buildOn_agree (h : d.Ready b.output out) (page : Path) :
    Disk.Agree out d (b.buildOn d page).1 ∧ (b.buildOn d page).1.Ready b.output out := by
  rcases b.buildOn_cases d page with ⟨e, hd⟩ | ⟨relative, names, n, markup, -, -, hbelow, -, hd⟩
  · rw [hd]
    exact ⟨.refl h.noLink, h⟩
  · have hagree := Disk.put_agree h.leads h.noLink h.housed hbelow markup.toUTF8
    rw [hd]
    dsimp only
    exact ⟨hagree, h.agree hagree (Disk.put_housed h.housed _ _)⟩

/-- A page that is built lies in its place. -/
theorem get?_buildOn_self (h : d.Ready b.output out) (hp : page.withinSite = .ok relative)
    (hok : (b.buildOn d page).2 = .ok target) :
    ∃ markup, (b.render d relative).result = .ok (markup, target) ∧ target.Fits ∧
      (∀ m ∈ relative.pageFile.names, m.utf8ByteSize ≤ Disk.maxNameBytes) ∧
      (b.buildOn d page).1.tree.get? (out ++ relative.pageFile.names) =
        some (.file markup.toUTF8) := by
  rcases b.buildOn_cases d page with ⟨e, hd⟩ | ⟨relative', names, n, markup, hp', hnames, hbelow, hr, hd⟩
  · rw [hd] at hok
    cases hok
  · obtain rfl := Except.ok.inj (hp'.symm.trans hp)
    rw [hd] at hok ⊢
    dsimp only at hok ⊢
    obtain ⟨_, hput, rfl⟩ := Logged.except_map_eq_ok hok
    obtain ⟨hfits, hshort⟩ := Disk.followed_of_put h hbelow hput
    refine ⟨markup, hr, hfits, hnames ▸ hshort, ?_⟩
    rw [hnames]
    rcases Disk.get?_put h.leads h.noLink h.housed hbelow markup.toUTF8 (out ++ (names ++ [n])) with
      ⟨-, -, hfile⟩ | ⟨hother, -⟩
    · exact hfile
    · exact absurd rfl (hother hput)

/-- What is there stays as it is, but in the place of the page. -/
theorem get?_buildOn_other (h : d.Ready b.output out) {e : Entry} (hl : d.tree.get? l = some e)
    (hother : ∀ relative, page.withinSite = .ok relative → l ≠ out ++ relative.pageFile.names) :
    (b.buildOn d page).1.tree.get? l = some e := by
  rcases b.buildOn_cases d page with ⟨e, hd⟩ | ⟨relative, names, n, markup, hp, hnames, hbelow, -, hd⟩
  · rwa [hd]
  · rw [hd]
    dsimp only
    rcases Disk.get?_put h.leads h.noLink h.housed hbelow markup.toUTF8 l with
      ⟨-, hplace, -⟩ | ⟨-, hsame | ⟨hnone, -⟩⟩
    · exact absurd (hnames ▸ hplace) (hother relative hp)
    · exact hsame.trans hl
    · cases hnone.symm.trans hl

/-- **Rendering** a page that is not stopped below the output comes to the same, whatever changes
there. -/
theorem render_agree (h : Disk.Agree out d d')
    (hlooks : b.LooksOnlyAt d relative fun p => !FileTree.isBelow out (d.lastPlace p)) :
    (b.render d' relative).result = (b.render d relative).result :=
  render_eq_of_looksOnlyAt hlooks fun p hp => Disk.alike_of_agree h (by simpa using hp)

end PageBuilder

/-! ## Pages one after another -/

section

variable {b : PageBuilder} {s : BuildState} {out : Location}

theorem last_attempts_cons (b : PageBuilder) (s : BuildState) (page : Path) (rest : List Path) :
    PageAttempt.last s (b.attempts s (page :: rest)) =
      PageAttempt.last (b.build page s).1 (b.attempts (b.build page s).1 rest) := rfl

theorem PageBuilder.build_agree (b : PageBuilder) (h : s.disk.Ready b.output out) (page : Path) :
    Disk.Agree out s.disk (b.build page s).1.disk ∧ (b.build page s).1.disk.Ready b.output out := by
  rw [(b.build_eq_buildOn page s).1]
  exact buildOn_agree h page

/-- Whatever comes of pages, nothing changes but below the output. -/
theorem last_attempts_agree (h : s.disk.Ready b.output out) (pages : List Path) :
    Disk.Agree out s.disk (PageAttempt.last s (b.attempts s pages)).disk ∧
      (PageAttempt.last s (b.attempts s pages)).disk.Ready b.output out := by
  induction pages generalizing s with
  | nil => exact ⟨.refl h.noLink, h⟩
  | cons page rest ih =>
    obtain ⟨hagree, hready⟩ := b.build_agree h page
    obtain ⟨hrest, hlast⟩ := ih hready
    rw [last_attempts_cons]
    exact ⟨hagree.trans hrest, hlast⟩

end

end StaticSite
