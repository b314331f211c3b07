import StaticSite.Proofs.Preparing

/-!
The order of the pages.

A page that looks at nothing in the output cannot see what other pages have written. So it makes the
changes that it would make alone. Proved here, for every build and every disk:

* `buildOn_changes`: what one page changes is its file, and directories that are missing on the way;
* `Merged.buildOn`: after other pages a page has the outcome that it has alone, and changes the same;
* `attempts_merged`: so do pages one after another, by induction on them;
* `pages_commute`: their order changes neither what comes of each nor the disk at the end;
* `detour_through_output`: it does where a path leads through the output and out of it again.
-/

namespace StaticSite

theorem Disk.eq_of_entries {d d' : Disk} (h : d.tree.entries = d'.tree.entries)
    (hcwd : d.cwd = d'.cwd) : d = d' := by
  obtain ⟨⟨entries⟩, cwd⟩ := d
  obtain ⟨⟨entries'⟩, cwd'⟩ := d'
  obtain rfl : entries = entries' := h
  obtain rfl : cwd = cwd' := hcwd
  rfl

/-! ## Files that are apart -/

/-- Neither of two pages has a file that is the other's, or lies on the way to it. -/
def Path.FilesApart (p q : Path) : Prop :=
  ∀ f g, p.pageFile? = some f → q.pageFile? = some g →
    ¬ f.components <+: g.components ∧ ¬ g.components <+: f.components

instance (p q : Path) : Decidable (p.FilesApart q) :=
  match hp : p.pageFile?, hq : q.pageFile? with
  | none, _ => isTrue fun f g hf _ => by rw [hp] at hf; cases hf
  | some _, none => isTrue fun f g _ hg => by rw [hq] at hg; cases hg
  | some f, some g =>
    decidable_of_iff (¬ f.components <+: g.components ∧ ¬ g.components <+: f.components)
      ⟨fun h f' g' hf hg => by
        rw [hp] at hf
        rw [hq] at hg
        cases hf
        cases hg
        exact h, fun h => h f g hp hq⟩

theorem Path.FilesApart.symm {p q : Path} (h : p.FilesApart q) : q.FilesApart p :=
  fun f g hf hg => (h g f hg hf).symm

theorem Path.FilesApart.names_apart {p q relative relative' : Path} (h : p.FilesApart q)
    (hp : p.withinSite = .ok relative) (hq : q.withinSite = .ok relative') :
    ¬ relative.pageFile.names <+: relative'.pageFile.names ∧
      ¬ relative'.pageFile.names <+: relative.pageFile.names := by
  obtain ⟨hfirst, hsecond⟩ := h _ _ (pageFile?_of_withinSite hp) (pageFile?_of_withinSite hq)
  rw [(components_pageFile hp).1, (components_pageFile hq).1] at hfirst hsecond
  exact ⟨fun hpre => hfirst (hpre.map _), fun hpre => hsecond (hpre.map _)⟩

/-! ## Changes side by side -/

section

variable {b : PageBuilder} {c d : Disk} {out l : Location} {page p : Path} {pages done rest : List Path}

/-- What a page changes: its file, and directories that are missing on the way to it. -/
theorem buildOn_changes (hc : c.Ready b.output out) (page : Path) (l : Location) :
    (b.buildOn c page).1.tree.get? l = c.tree.get? l ∨
      ∃ relative pre, page.withinSite = .ok relative ∧ pre <+: relative.pageFile.names ∧
        l = out ++ pre ∧ (pre = relative.pageFile.names ∨
          c.tree.get? l = none ∧ (b.buildOn c page).1.tree.get? l = some .directory) := by
  rcases b.buildOn_cases c page with ⟨e, hd⟩ | ⟨relative, names, n, markup, hp, hnames, hbelow, -, hd⟩
  · rw [hd]
    exact .inl rfl
  · rw [hd]
    dsimp only
    rcases Disk.get?_put hc.leads hc.noLink hc.housed hbelow markup.toUTF8 l with
      ⟨-, hplace, -⟩ | ⟨-, hsame | ⟨hnone, hmade, pre, -, hpre, hl⟩⟩
    · exact .inr ⟨relative, _, hp, List.prefix_rfl, hnames ▸ hplace, .inl rfl⟩
    · exact .inl hsame
    · exact .inr ⟨relative, pre, hp, hnames ▸ hpre.trans (List.prefix_append _ _), hl,
        .inr ⟨hnone, hmade⟩⟩

/-- A disk holds the changes that some pages make alone, and no others. -/
structure PageBuilder.Merged (b : PageBuilder) (c : Disk) (done : List Path) (d : Disk) : Prop where
  kept : ∀ l, (∀ p ∈ done, (b.buildOn c p).1.tree.get? l = c.tree.get? l) →
    d.tree.get? l = c.tree.get? l
  changed : ∀ p ∈ done, ∀ l, (b.buildOn c p).1.tree.get? l ≠ c.tree.get? l →
    d.tree.get? l = (b.buildOn c p).1.tree.get? l

namespace PageBuilder.Merged

theorem start (b : PageBuilder) (c : Disk) : b.Merged c [] c :=
  ⟨fun _ _ => rfl, fun _ hp => absurd hp List.not_mem_nil⟩

theorem cases (h : b.Merged c done d) (l : Location) :
    d.tree.get? l = c.tree.get? l ∨
      ∃ p ∈ done, (b.buildOn c p).1.tree.get? l ≠ c.tree.get? l ∧
        d.tree.get? l = (b.buildOn c p).1.tree.get? l := by
  by_cases hall : ∀ p ∈ done, (b.buildOn c p).1.tree.get? l = c.tree.get? l
  · exact .inl (h.kept l hall)
  · push Not at hall
    obtain ⟨p, hp, hne⟩ := hall
    exact .inr ⟨p, hp, hne, h.changed p hp l hne⟩

/-- Disks with the changes of the same pages are the same. -/
theorem unique (h : b.Merged c done d) {done' : List Path} {d' : Disk} (h' : b.Merged c done' d')
    (hpages : ∀ p, p ∈ done ↔ p ∈ done') (l : Location) : d'.tree.get? l = d.tree.get? l := by
  rcases h.cases l with hsame | ⟨p, hp, hne, hd⟩
  · rcases h'.cases l with hsame' | ⟨p, hp, hne, hd'⟩
    · rw [hsame, hsame']
    · rw [hd', h.changed p ((hpages p).2 hp) l hne]
  · rw [hd, h'.changed p ((hpages p).1 hp) l hne]

section

variable (hc : c.Ready b.output out) (h : b.Merged c done d)
  (hapart : ∀ p ∈ done, p.FilesApart page) {relative : Path} (hp : page.withinSite = .ok relative)

include hc h hapart hp

/-- On the way to its file, a page finds what it would find alone, or directories in addition. -/
theorem nearby {names : List String} {n : String} (hnames : relative.pageFile.names = names ++ [n]) :
    Disk.Nearby c.tree d.tree out names := by
  intro pre hpre hne
  rcases h.cases (out ++ pre) with hsame | ⟨p, hdone, hchanged, hd⟩
  · exact .inl hsame
  rcases buildOn_changes hc p (out ++ pre) with hsame | ⟨relative', pre', hp', -, hplace, hfile⟩
  · exact absurd hsame hchanged
  obtain rfl := List.append_cancel_left hplace
  rcases hfile with rfl | ⟨hnone, hmade⟩
  · have hway : relative'.pageFile.names <+: relative.pageFile.names :=
      hnames ▸ hpre.trans (List.prefix_append names [n])
    exact absurd hway ((hapart p hdone).names_apart hp' hp).1
  · exact .inr ⟨hnone, hd.trans hmade⟩

/-- In the place of its file, a page finds what it would find alone. -/
theorem place : d.tree.get? (out ++ relative.pageFile.names) =
    c.tree.get? (out ++ relative.pageFile.names) := by
  rcases h.cases (out ++ relative.pageFile.names) with hsame | ⟨p, hdone, hchanged, -⟩
  · exact hsame
  rcases buildOn_changes hc p (out ++ relative.pageFile.names) with
    hsame | ⟨relative', pre, hp', hpre, hplace, -⟩
  · exact absurd hsame hchanged
  obtain rfl := List.append_cancel_left hplace
  exact absurd hpre ((hapart p hdone).names_apart hp' hp).2

end

/-- After other pages, a page has the outcome that it has alone, and changes what it changes alone. -/
theorem carried (hc : c.Ready b.output out) (hd : d.Ready b.output out) (hagree : Disk.Agree out c d)
    (h : b.Merged c done d) (hapart : ∀ p ∈ done, p.FilesApart page)
    (hlooks : ∀ relative, page.withinSite = .ok relative →
      b.LooksOnlyAt c relative fun p => !FileTree.isBelow out (c.lastPlace p)) :
    (b.buildOn d page).2 = (b.buildOn c page).2 ∧
      Disk.Carried c.tree (b.buildOn c page).1.tree d.tree (b.buildOn d page).1.tree := by
  cases hp : page.withinSite with
  | error e =>
    rw [buildOn_of_site_error hp, buildOn_of_site_error hp]
    exact ⟨rfl, .refl _ _⟩
  | ok relative =>
    have hsame := render_agree hagree (hlooks relative hp)
    cases hr : (b.render c relative).result with
    | error e =>
      rw [buildOn_of_render_error hp hr, buildOn_of_render_error hp (hsame.trans hr)]
      exact ⟨rfl, .refl _ _⟩
    | ok r =>
      obtain ⟨markup, target⟩ := r
      obtain rfl := target_of_render hr
      obtain ⟨names, n, hnames, hbelow⟩ := b.exists_below hp
      rw [buildOn_of_render hp hr, buildOn_of_render hp (hsame.trans hr)]
      dsimp only
      obtain ⟨hresult, hcarried⟩ := Disk.put_carried hc.leads hc.noLink hc.housed hd.leads hd.noLink
        hd.housed hbelow (h.nearby hc hapart hp hnames) (hnames ▸ h.place hc hapart hp) markup.toUTF8
      rw [hresult]
      exact ⟨rfl, hcarried⟩

/-- Pages that are apart change the same place only where both make a directory. -/
theorem both (hc : c.Ready b.output out) (hapart : p.FilesApart page)
    (hp : (b.buildOn c p).1.tree.get? l ≠ c.tree.get? l)
    (hpage : (b.buildOn c page).1.tree.get? l ≠ c.tree.get? l) :
    (b.buildOn c page).1.tree.get? l = (b.buildOn c p).1.tree.get? l := by
  rcases buildOn_changes hc p l with hsame | ⟨relative, pre, hsite, hpre, hplace, hfile⟩
  · exact absurd hsame hp
  rcases buildOn_changes hc page l with hsame | ⟨relative', pre', hsite', hpre', hplace', hfile'⟩
  · exact absurd hsame hpage
  obtain ⟨hnot, hnot'⟩ := hapart.names_apart hsite hsite'
  obtain rfl : pre = pre' := List.append_cancel_left (hplace.symm.trans hplace')
  rcases hfile with rfl | ⟨-, hmade⟩
  · exact absurd hpre' hnot
  rcases hfile' with rfl | ⟨-, hmade'⟩
  · exact absurd hpre hnot'
  · rw [hmade, hmade']

theorem buildOn (hc : c.Ready b.output out) (hd : d.Ready b.output out)
    (hagree : Disk.Agree out c d) (h : b.Merged c done d) (hapart : ∀ p ∈ done, p.FilesApart page)
    (hlooks : ∀ relative, page.withinSite = .ok relative →
      b.LooksOnlyAt c relative fun p => !FileTree.isBelow out (c.lastPlace p)) :
    b.Merged c (done ++ [page]) (b.buildOn d page).1 := by
  obtain ⟨-, hcarried⟩ := h.carried hc hd hagree hapart hlooks
  constructor
  · intro l hall
    rw [(hcarried l).1 (hall page (by simp))]
    exact h.kept l fun p hp => hall p (List.mem_append_left _ hp)
  · intro p hp l hne
    by_cases hpage : (b.buildOn c page).1.tree.get? l = c.tree.get? l
    · rcases List.mem_append.1 hp with hdone | hlast
      · rw [(hcarried l).1 hpage]
        exact h.changed p hdone l hne
      · obtain rfl := List.mem_singleton.1 hlast
        exact absurd hpage hne
    · rw [(hcarried l).2 hpage]
      rcases List.mem_append.1 hp with hdone | hlast
      · exact both hc (hapart p hdone) hne hpage
      · rw [List.mem_singleton.1 hlast]

end PageBuilder.Merged

/-! ## Pages one after another -/

/-- What pages make of a disk one after another. -/
structure PageBuilder.Reached (b : PageBuilder) (c : Disk) (out : Location) (done : List Path)
    (d : Disk) : Prop where
  merged : b.Merged c done d
  agree : Disk.Agree out c d
  ready : d.Ready b.output out

theorem PageBuilder.Reached.start (hc : c.Ready b.output out) : b.Reached c out [] c :=
  ⟨.start b c, .refl hc.noLink, hc⟩

theorem PageBuilder.Reached.buildOn (hc : c.Ready b.output out) (h : b.Reached c out done d)
    (hapart : ∀ p ∈ done, p.FilesApart page)
    (hlooks : ∀ relative, page.withinSite = .ok relative →
      b.LooksOnlyAt c relative fun p => !FileTree.isBelow out (c.lastPlace p)) :
    b.Reached c out (done ++ [page]) (b.buildOn d page).1 := by
  obtain ⟨hagree, hready⟩ := buildOn_agree h.ready page
  exact ⟨h.merged.buildOn hc h.ready h.agree hapart hlooks, h.agree.trans hagree, hready⟩

/-- Pages that are apart and look at nothing in the output have the outcomes that they have alone, and
change what they change alone. -/
theorem attempts_merged {s : BuildState} (hc : c.Ready b.output out)
    (h : b.Reached c out done s.disk) (hapart : ∀ p ∈ done, ∀ q ∈ rest, p.FilesApart q)
    (hpages : rest.Pairwise Path.FilesApart)
    (hlooks : ∀ page ∈ rest, ∀ relative, page.withinSite = .ok relative →
      b.LooksOnlyAt c relative fun p => !FileTree.isBelow out (c.lastPlace p)) :
    (b.attempts s rest).map PageAttempt.outcome = rest.map (fun p => (b.buildOn c p).2) ∧
      b.Reached c out (done ++ rest) (PageAttempt.last s (b.attempts s rest)).disk := by
  induction rest generalizing done s with
  | nil =>
    rw [List.append_nil]
    exact ⟨rfl, h⟩
  | cons page rest ih =>
    obtain ⟨hpage, hrest⟩ := List.pairwise_cons.1 hpages
    obtain ⟨hlooksPage, hlooksRest⟩ := List.forall_mem_cons.1 hlooks
    have hdone : ∀ p ∈ done, p.FilesApart page := fun p hp => hapart p hp page List.mem_cons_self
    obtain ⟨hdisk, hresult⟩ := b.build_eq_buildOn page s
    have hnext := h.buildOn hc hdone hlooksPage
    rw [← hdisk] at hnext
    have hapartRest : ∀ p ∈ done ++ [page], ∀ q ∈ rest, p.FilesApart q := by
      intro p hp q hq
      rcases List.mem_append.1 hp with hdone | hlast
      · exact hapart p hdone q (List.mem_cons_of_mem _ hq)
      · rw [List.mem_singleton.1 hlast]
        exact hpage q hq
    obtain ⟨houtcomes, hreached⟩ := ih hnext hapartRest hrest hlooksRest
    rw [List.append_assoc] at hreached
    refine ⟨?_, hreached⟩
    rw [attempts_cons, List.map_cons, List.map_cons, houtcomes, hresult,
      (h.merged.carried hc h.ready h.agree hdone hlooksPage).1]

end

/-! ## Reports -/

/-- The report on pages, each with its outcome, in their order. -/
def BuildReport.on (outcome : Path → Except SiteError Path) (copied : Nat) (pages : List Path) :
    BuildReport where
  written := pages.filterMap fun p => (outcome p).toOption
  copied := copied
  failures := pages.filterMap fun p =>
    match outcome p with
    | .ok _ => none
    | .error e => some ⟨p, e⟩

theorem tally_eq_on {outcome : Path → Except SiteError Path} (copied : Nat)
    {attempts : List PageAttempt}
    (h : attempts.map PageAttempt.outcome = (attempts.map PageAttempt.page).map outcome) :
    PageAttempt.tally copied attempts = .on outcome copied (attempts.map PageAttempt.page) := by
  have houtcome : ∀ a ∈ attempts, a.outcome = outcome a.page := by
    rwa [List.map_map, List.map_inj_left] at h
  unfold PageAttempt.tally BuildReport.on
  rw [List.filterMap_map, List.filterMap_map]
  congr 1
  · refine List.filterMap_congr fun a ha => ?_
    exact congrArg Except.toOption (houtcome a ha)
  · refine List.filterMap_congr fun a ha => ?_
    unfold PageAttempt.failure?
    rw [houtcome a ha]
    rfl

theorem build_of_apart {o : BuildOptions} {formats : Formats} {d : Disk} {b : PageBuilder}
    {copied : Nat} {out : Location} (h : (o.prepare formats ⟨d, []⟩).2.result = .ok (b, copied))
    (hready : (o.prepare formats ⟨d, []⟩).1.disk.Ready b.output out) {pages : List Path}
    (hapart : pages.Pairwise Path.FilesApart)
    (hlooks : ∀ page ∈ pages, ∀ relative, page.withinSite = .ok relative →
      b.LooksOnlyAt (o.prepare formats ⟨d, []⟩).1.disk relative
        fun p => !FileTree.isBelow out ((o.prepare formats ⟨d, []⟩).1.disk.lastPlace p)) :
    let r := { o with keepGoing := true, pages := pages }.build formats d
    r.2.result =
        .ok (.on (fun page => (b.buildOn (o.prepare formats ⟨d, []⟩).1.disk page).2) copied pages) ∧
      b.Reached (o.prepare formats ⟨d, []⟩).1.disk out pages r.1 := by
  obtain ⟨hstate, hresult⟩ := steps_going o formats ⟨d, []⟩ h pages
  generalize (o.prepare formats ⟨d, []⟩).1 = s at hready hlooks hstate hresult ⊢
  obtain ⟨houtcomes, hreached⟩ := attempts_merged (s := s) hready (.start hready)
    (fun p hp => absurd hp List.not_mem_nil) hapart hlooks
  have hnames := map_page_attempts b s pages
  intro r
  constructor
  · have htally : PageAttempt.tally copied (b.attempts s pages) =
        .on (fun page => (b.buildOn s.disk page).2) copied
          ((b.attempts s pages).map PageAttempt.page) :=
      tally_eq_on copied (by rw [hnames, houtcomes])
    rw [hnames] at htally
    exact hresult.trans (congrArg Except.ok htally)
  · have hdisk : r.1 = _ := congrArg BuildState.disk hstate
    rw [hdisk]
    exact hreached

/-- **Order.** Pages are independent of their order, in a build that goes on, where none looks at
anything in the output, no links lie below it, and no page has a file that is another's or lies on
the way to it. Where the build comes to its pages, each page has the outcome that it has alone, in
whatever order the pages come, and the disk is the same at the end. Where it does not, it ends alike
for any pages. -/
theorem pages_commute (o : BuildOptions) (formats : Formats) (d : Disk) (hd : d.Sound)
    (hgoing : o.keepGoing = true) (pages : List Path) (hperm : o.pages.Perm pages) :
    let other := { o with pages := pages }
    (∀ e, (o.prepare formats ⟨d, []⟩).2.result = .error e →
      other.steps formats ⟨d, []⟩ = o.steps formats ⟨d, []⟩) ∧
    ∀ b copied, (o.prepare formats ⟨d, []⟩).2.result = .ok (b, copied) →
      let c := (o.prepare formats ⟨d, []⟩).1.disk
      ∃ out, (o.makeReady ⟨d, []⟩).1.disk.LeadsTo o.target out ∧
        (Disk.NoLinkBelow (o.makeReady ⟨d, []⟩).1.disk.tree out →
          (∀ page ∈ o.pages, ∀ relative, page.withinSite = .ok relative →
            b.LooksOnlyAt c relative fun p => !FileTree.isBelow out (c.lastPlace p)) →
          o.pages.Pairwise Path.FilesApart →
            let outcome := fun page => (b.buildOn c page).2
            (o.build formats d).2.result = .ok (.on outcome copied o.pages) ∧
            (other.build formats d).2.result = .ok (.on outcome copied pages) ∧
            (other.build formats d).1.cwd = (o.build formats d).1.cwd ∧
            ∀ l, (other.build formats d).1.tree.get? l = (o.build formats d).1.tree.get? l) := by
  intro other
  have hmode : ∀ pages', { o with pages := pages' } =
      { o with keepGoing := true, pages := pages' } := by
    intro pages'
    rw [← hgoing]
  refine ⟨fun e he => ?_, fun b copied hprepare => ?_⟩
  · have hends := steps_of_prepare_error o formats ⟨d, []⟩ he true
    have hother : other.steps formats ⟨d, []⟩ = _ := (congrArg (·.steps formats ⟨d, []⟩)
      (hmode pages)).trans (hends pages)
    have hself : o.steps formats ⟨d, []⟩ = _ := (congrArg (·.steps formats ⟨d, []⟩)
      (hmode o.pages)).trans (hends o.pages)
    rw [hother, hself]
  · obtain ⟨out, hleads, hprepared⟩ := prepared_ready hd hprepare
    refine ⟨out, hleads, fun hlinks hlooks hapart => ?_⟩
    obtain ⟨houtput, -, hready, -⟩ := hprepared hlinks
    rw [← houtput] at hready
    have hlooks' : ∀ page ∈ pages, ∀ relative, page.withinSite = .ok relative → _ :=
      fun page hpage => hlooks page (hperm.mem_iff.2 hpage)
    have hapart' : pages.Pairwise Path.FilesApart :=
      hperm.pairwise hapart fun h => Path.FilesApart.symm h
    obtain ⟨hresult, hreached⟩ := build_of_apart hprepare hready hapart hlooks
    obtain ⟨hresult', hreached'⟩ := build_of_apart hprepare hready hapart' hlooks'
    rw [← hmode] at hresult hreached hresult' hreached'
    refine ⟨hresult, hresult', ?_, fun l => ?_⟩
    · exact hreached'.agree.cwd.trans hreached.agree.cwd.symm
    · exact hreached.merged.unique hreached'.merged (fun p => hperm.mem_iff) l


/-- Two pages, of which one lies in a directory. -/
def sectionDisk : Disk :=
  ⟨⟨[(["a.html"], .file "a".toUTF8), (["sub"], .directory), (["sub", "b.html"], .file "b".toUTF8)]⟩, []⟩

@[irreducible] def sectionSite : BuildOptions :=
  { pages := [⟨"a.html"⟩, ⟨"sub/b.html"⟩], keepGoing := true }

/-- The disk when the first page is built. -/
def readySection : Disk := ⟨⟨(["out"], .directory) :: sectionDisk.tree.entries⟩, []⟩

theorem sectionDisk_sound : sectionDisk.Sound where
  named := FileTree.Named.of_entries (by decide)
  housed := Disk.Housed.of_entries (by decide)
  cwd := rfl

theorem section_pages_commute :
    ∃ outcome, (sectionSite.build .standard sectionDisk).2.result =
        .ok (.on outcome 0 [⟨"a.html"⟩, ⟨"sub/b.html"⟩]) ∧
      ({ sectionSite with pages := [⟨"sub/b.html"⟩, ⟨"a.html"⟩] }.build .standard
        sectionDisk).2.result = .ok (.on outcome 0 [⟨"sub/b.html"⟩, ⟨"a.html"⟩]) ∧
      ∀ l, ({ sectionSite with pages := [⟨"sub/b.html"⟩, ⟨"a.html"⟩] }.build .standard
          sectionDisk).1.tree.get? l =
        (sectionSite.build .standard sectionDisk).1.tree.get? l := by
  have hpages : sectionSite.pages = [⟨"a.html"⟩, ⟨"sub/b.html"⟩] := by decide +kernel
  have hreport : (sectionSite.steps .standard ⟨sectionDisk, []⟩).2.result =
    .ok ⟨[⟨"./out/a.html"⟩, ⟨"./out/sub/b.html"⟩], 0, []⟩ := by decide +kernel
  obtain ⟨b, copied, hprepare, htally, -⟩ :=
    exists_attempts_of_report sectionSite .standard ⟨sectionDisk, []⟩ hreport
  have hcopied : 0 = copied := congrArg BuildReport.copied htally
  subst hcopied
  obtain ⟨articles, rfl, harticles⟩ := builder_of_prepare hprepare
  obtain ⟨out, hleads, hrest⟩ := (pages_commute sectionSite .standard sectionDisk sectionDisk_sound
    (by decide +kernel) [⟨"sub/b.html"⟩, ⟨"a.html"⟩] (hpages ▸ .swap ..)).2 _ 0 hprepare
  have hready : (sectionSite.makeReady ⟨sectionDisk, []⟩).1.disk = readySection :=
    Disk.eq_of_entries (by decide +kernel) (by decide +kernel)
  have hprepared : (sectionSite.prepare .standard ⟨sectionDisk, []⟩).1.disk = readySection :=
    Disk.eq_of_entries (by decide +kernel) (by decide +kernel)
  rw [hready] at hleads hrest
  rw [hprepared] at harticles hrest
  obtain rfl : out = ["out"] := hleads.unique (.of_locate (by decide +kernel) (by decide))
  have hnone : sectionSite.articles readySection = .ok .empty := by decide +kernel
  obtain rfl : .empty = articles := Except.ok.inj (hnone.symm.trans harticles)
  have hlinks : Disk.NoLinkBelow readySection.tree ["out"] :=
    Disk.NoLinkBelow.of_entries (by simp [readySection, sectionDisk])
  rw [hpages] at hrest
  refine ⟨_, hrest hlinks (fun page hpage relative hrelative => ?_) (by decide +kernel) |>.imp_right
    fun h => ⟨h.1, h.2.2⟩⟩
  rcases List.mem_pair.1 hpage with rfl | rfl
  · obtain rfl : ⟨"a.html"⟩ = relative := Except.ok.inj (Eq.trans (by decide +kernel) hrelative)
    exact .of_render (by decide +kernel)
  · obtain rfl : ⟨"sub/b.html"⟩ = relative := Except.ok.inj (Eq.trans (by decide +kernel) hrelative)
    exact .of_render (by decide +kernel)

/-- A descriptor whose template is named by way of the output. -/
def detourDisk : Disk :=
  ⟨⟨[(["a.json"], .file "[\"out/b/../../x.html\"]".toUTF8), (["b"], .directory),
    (["b", "b.html"], .file "".toUTF8), (["x.html"], .file "".toUTF8)]⟩, []⟩

@[irreducible] def detourSite : BuildOptions :=
  { pages := [⟨"a.json"⟩, ⟨"b/b.html"⟩], keepGoing := true }

@[irreducible] def detourOther : BuildOptions :=
  { pages := [⟨"b/b.html"⟩, ⟨"a.json"⟩], keepGoing := true }

/-- The disk when the first page is built. -/
def detourReady : Disk := ⟨⟨(["out"], .directory) :: detourDisk.tree.entries⟩, []⟩

/-- What its pages share. -/
def detourBuilder : PageBuilder :=
  ⟨.standard, detourSite.root, detourSite.maxDepth, detourSite.target, .empty⟩

theorem detourDisk_sound : detourDisk.Sound where
  named := FileTree.Named.of_entries (by decide)
  housed := Disk.Housed.of_entries (by decide)
  cwd := rfl

theorem detourSite_pages : detourSite.pages = [⟨"a.json"⟩, ⟨"b/b.html"⟩] := by decide +kernel

/-- The page with the template comes first, when the path to it leads nowhere. -/
theorem detourSite_report : (detourSite.steps .standard ⟨detourDisk, []⟩).2.result =
    .ok ⟨[⟨"./out/b/b.html"⟩], 0,
      [⟨⟨"a.json"⟩, .missingFile ⟨"./out/b/../../x.html"⟩ "a.json"⟩]⟩ := by
  decide +kernel

theorem detourSite_makeReady : (detourSite.makeReady ⟨detourDisk, []⟩).1.disk = detourReady :=
  Disk.eq_of_entries (by decide +kernel) (by decide +kernel)

theorem detourSite_prepare :
    (detourSite.prepare .standard ⟨detourDisk, []⟩).1.disk = detourReady ∧
      ∃ copied, (detourSite.prepare .standard ⟨detourDisk, []⟩).2.result =
        .ok (detourBuilder, copied) := by
  have hprepared : (detourSite.prepare .standard ⟨detourDisk, []⟩).1.disk = detourReady :=
    Disk.eq_of_entries (by decide +kernel) (by decide +kernel)
  obtain ⟨b, copied, hprepare, -, -⟩ :=
    exists_attempts_of_report detourSite .standard ⟨detourDisk, []⟩ detourSite_report
  obtain ⟨articles, rfl, harticles⟩ := builder_of_prepare hprepare
  rw [hprepared] at harticles
  have hnone : detourSite.articles detourReady = .ok .empty := by decide +kernel
  obtain rfl : .empty = articles := Except.ok.inj (hnone.symm.trans harticles)
  exact ⟨hprepared, copied, hprepare⟩

theorem detourReady_leads : detourReady.LeadsTo detourSite.target ["out"] :=
  .of_locate (by decide +kernel) (by decide)

theorem detourReady_noLink : Disk.NoLinkBelow detourReady.tree ["out"] :=
  Disk.NoLinkBelow.of_entries (by simp [detourReady, detourDisk])

/-- Nothing that is looked at lies in the output, neither before the pages nor after them in either
order. -/
theorem detour_looks {seen : Disk} (hseen : seen ∈ [detourReady,
    (detourSite.build .standard detourDisk).1, (detourOther.build .standard detourDisk).1])
    {page relative : Path} (hpage : page ∈ detourSite.pages)
    (hrelative : page.withinSite = .ok relative) :
    detourBuilder.LooksOnlyAt seen relative
      fun p => !(seen.locate ⟨true, false⟩ p).toOption.any ["out"].isPrefixOf := by
  rw [detourSite_pages] at hpage
  rcases List.mem_pair.1 hpage with rfl | rfl
  · obtain rfl : ⟨"a.json"⟩ = relative := Except.ok.inj (Eq.trans (by decide +kernel) hrelative)
    simp only [List.mem_cons, List.not_mem_nil, or_false] at hseen
    rcases hseen with rfl | rfl | rfl <;> exact .of_render (by decide +kernel)
  · obtain rfl : ⟨"b/b.html"⟩ = relative := Except.ok.inj (Eq.trans (by decide +kernel) hrelative)
    simp only [List.mem_cons, List.not_mem_nil, or_false] at hseen
    rcases hseen with rfl | rfl | rfl <;> exact .of_render (by decide +kernel)

/-- It is not enough that no page looks at anything that lies in the output. Where a path leads through
the output and out of it again, the order of the pages decides whether it leads anywhere. -/
theorem detour_through_output :
    ¬ ∀ (o other : BuildOptions) (d : Disk) (b : PageBuilder) (copied : Nat) (out : Location),
      d.Sound → o.keepGoing = true → other = { o with pages := other.pages } →
      o.pages.Perm other.pages → o.pages.Pairwise Path.FilesApart →
      (o.prepare .standard ⟨d, []⟩).2.result = .ok (b, copied) →
      (o.makeReady ⟨d, []⟩).1.disk.LeadsTo o.target out →
      Disk.NoLinkBelow (o.makeReady ⟨d, []⟩).1.disk.tree out →
      (∀ seen ∈ [(o.prepare .standard ⟨d, []⟩).1.disk, (other.build .standard d).1],
        ∀ page ∈ o.pages, ∀ relative, page.withinSite = .ok relative →
          b.LooksOnlyAt seen relative
            fun p => !(seen.locate ⟨true, false⟩ p).toOption.any out.isPrefixOf) →
      ∀ report report', (o.build .standard d).2.result = .ok report →
        (other.build .standard d).2.result = .ok report' →
          ∀ f ∈ report.failures, f ∈ report'.failures := by
  intro h
  have hpages' : detourOther.pages = [⟨"b/b.html"⟩, ⟨"a.json"⟩] := by decide +kernel
  have hreport' : (detourOther.steps .standard ⟨detourDisk, []⟩).2.result =
    .ok ⟨[⟨"./out/b/b.html"⟩, ⟨"./out/a.html"⟩], 0, []⟩ := by decide +kernel
  obtain ⟨hprepared, copied, hprepare⟩ := detourSite_prepare
  have hother : detourOther = { detourSite with pages := detourOther.pages } := by decide +kernel
  have hsame := h detourSite detourOther detourDisk _ copied ["out"] detourDisk_sound
    (by decide +kernel) hother (by rw [detourSite_pages, hpages']; exact .swap ..) (by decide +kernel)
    hprepare (detourSite_makeReady ▸ detourReady_leads) (detourSite_makeReady ▸ detourReady_noLink)
    (fun seen hseen page hpage relative hrelative => ?_) _ _ detourSite_report hreport' _
    List.mem_cons_self
  · cases hsame
  · rw [hprepared] at hseen
    refine detour_looks ?_ hpage hrelative
    rcases List.mem_pair.1 hseen with rfl | rfl
    · exact List.mem_cons_self
    · exact List.mem_cons_of_mem _ (List.mem_cons_of_mem _ List.mem_cons_self)

end StaticSite
