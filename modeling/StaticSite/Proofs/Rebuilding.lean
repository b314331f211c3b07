import StaticSite.Proofs.Indexing
import StaticSite.Proofs.PageOrder
import StaticSite.Proofs.Redoing
import StaticSite.Proofs.Renewing

/-!
Builds that are repeated.

Proved here, for every build and every disk:

* `gather_redone`: what a build copies and indexes is the same when it is built again over what it has
  made;
* `attempts_redone`: so is what comes of its pages, by induction on them;
* `build_redone`: so a build that does not clean comes to the same again;
* `build_repeatable`: a build that gives a report gives it again, and leaves the disk as it is.
-/

namespace StaticSite

open Disk (Agree Redone Housed NoLinkBelow)

/-! ## Pages that are built again -/

section

variable {b : PageBuilder} {c f x y : Disk} {out : Location} {page : Path} {s u : BuildState}
  {q : Path} {m : Disk}

/-- Once there is all that is there at the end, nothing but that changes any more. -/
theorem Disk.Redone.rebase (h : Redone m q out f x y) (hkept : x.tree.Keeps f.tree) :
    Redone x q out f x y where
  first := .refl h.first.noLink'
  second :=
    { cwd := h.second.cwd.trans h.first.cwd.symm
      outside := fun l hl => (h.second.outside l hl).trans (h.first.outside l hl).symm
      names := fun l hl => (h.second.names l hl).trans (h.first.names l hl).symm
      directories := fun l hl =>
        FileTree.isDirectory_of_kind? (h.keeps hkept l true
          (FileTree.kind?_of_get? (FileTree.isDirectory_iff.1 hl)))
      noLink := h.first.noLink'
      noLink' := h.second.noLink' }
  ready := h.ready
  ready' := h.ready'
  kinds := h.kinds
  values := h.values

theorem PageBuilder.buildOn_keeps (b : PageBuilder) (d : Disk) (page : Path) :
    d.tree.Keeps (b.buildOn d page).1.tree := by
  rcases b.buildOn_cases d page with ⟨e, hd⟩ | ⟨relative, names, n, markup, -, -, -, -, hd⟩
  · rw [hd]
    exact .refl _
  · rw [hd]
    dsimp only
    exact Disk.put_keeps _ _ _

theorem last_attempts_keeps (b : PageBuilder) (s : BuildState) (pages : List Path) :
    s.disk.tree.Keeps (PageAttempt.last s (b.attempts s pages)).disk.tree := by
  induction pages generalizing s with
  | nil => exact .refl _
  | cons page rest ih =>
    rw [last_attempts_cons]
    refine FileTree.Keeps.trans ?_ (ih (b.build page s).1)
    rw [(b.build_eq_buildOn page s).1]
    exact b.buildOn_keeps _ _

/-- A page has the same outcome when it is built again. -/
theorem PageBuilder.buildOn_redone (h : Redone c b.output out f x y)
    (hlooks : ∀ relative, page.withinSite = .ok relative →
      b.LooksOnlyAt c relative fun p => !FileTree.isBelow out (c.lastPlace p))
    (hkept : (b.buildOn x page).1.tree.Keeps f.tree) :
    (b.buildOn y page).2 = (b.buildOn x page).2 ∧
      Redone c b.output out f (b.buildOn x page).1 (b.buildOn y page).1 := by
  cases hp : page.withinSite with
  | error e =>
    rw [buildOn_of_site_error hp, buildOn_of_site_error hp]
    exact ⟨rfl, h⟩
  | ok relative =>
    have hfirst := render_agree h.first (hlooks relative hp)
    have hsecond := render_agree h.second (hlooks relative hp)
    cases hr : (b.render c relative).result with
    | error e =>
      rw [buildOn_of_render_error hp (hfirst.trans hr), buildOn_of_render_error hp (hsecond.trans hr)]
      exact ⟨rfl, h⟩
    | ok r =>
      obtain ⟨markup, target⟩ := r
      obtain rfl := target_of_render hr
      obtain ⟨names, n, -, hbelow⟩ := b.exists_below hp
      rw [buildOn_of_render hp (hfirst.trans hr)] at hkept ⊢
      rw [buildOn_of_render hp (hsecond.trans hr)]
      dsimp only at hkept ⊢
      obtain ⟨hresult, hdone⟩ := Disk.put_redone h hbelow markup.toUTF8 hkept
      rw [hresult]
      exact ⟨rfl, hdone⟩

/-- **Pages** that are built again have the outcomes that they have had. -/
theorem attempts_redone {pages : List Path} (h : Redone c b.output out f s.disk u.disk)
    (hlooks : ∀ page ∈ pages, ∀ relative, page.withinSite = .ok relative →
      b.LooksOnlyAt c relative fun p => !FileTree.isBelow out (c.lastPlace p))
    (hkept : (PageAttempt.last s (b.attempts s pages)).disk.tree.Keeps f.tree) :
    (b.attempts u pages).map PageAttempt.outcome = (b.attempts s pages).map PageAttempt.outcome ∧
      Redone c b.output out f (PageAttempt.last s (b.attempts s pages)).disk
        (PageAttempt.last u (b.attempts u pages)).disk := by
  induction pages generalizing s u with
  | nil => exact ⟨rfl, h⟩
  | cons page rest ih =>
    obtain ⟨hpage, hrest⟩ := List.forall_mem_cons.1 hlooks
    rw [last_attempts_cons] at hkept ⊢
    rw [last_attempts_cons, attempts_cons, attempts_cons, List.map_cons, List.map_cons]
    obtain ⟨hdisk, hresult⟩ := b.build_eq_buildOn page s
    obtain ⟨hdisk', hresult'⟩ := b.build_eq_buildOn page u
    have hthere := (last_attempts_keeps b (b.build page s).1 rest).trans hkept
    rw [hdisk] at hthere
    obtain ⟨houtcome, hnext⟩ := PageBuilder.buildOn_redone h hpage hthere
    rw [← hdisk, ← hdisk'] at hnext
    obtain ⟨houtcomes, hlast⟩ := ih hnext hrest hkept
    refine ⟨?_, hlast⟩
    rw [houtcomes, hresult, hresult', houtcome]

end

/-! ## Reports -/

/-- A report hangs on the pages and their outcomes alone. -/
theorem tally_congr (copied : Nat) {attempts attempts' : List PageAttempt}
    (hpages : attempts'.map PageAttempt.page = attempts.map PageAttempt.page)
    (houtcomes : attempts'.map PageAttempt.outcome = attempts.map PageAttempt.outcome) :
    PageAttempt.tally copied attempts' = PageAttempt.tally copied attempts := by
  have hlists : attempts'.filterMap PageAttempt.written? = attempts.filterMap PageAttempt.written? ∧
      attempts'.filterMap PageAttempt.failure? = attempts.filterMap PageAttempt.failure? := by
    induction attempts generalizing attempts' with
    | nil =>
      obtain rfl := List.map_eq_nil_iff.1 hpages
      exact ⟨rfl, rfl⟩
    | cons a rest ih =>
      obtain ⟨a', rest', rfl⟩ : ∃ a' rest', attempts' = a' :: rest' := by
        cases attempts' with
        | nil => cases hpages
        | cons a' rest' => exact ⟨a', rest', rfl⟩
      obtain ⟨hpage, hpages⟩ := List.cons.inj hpages
      obtain ⟨houtcome, houtcomes⟩ := List.cons.inj houtcomes
      obtain ⟨hwritten, hfailures⟩ := ih hpages houtcomes
      have hsame : a'.written? = a.written? ∧ a'.failure? = a.failure? := by
        unfold PageAttempt.written? PageAttempt.failure?
        rw [houtcome, hpage]
        exact ⟨rfl, rfl⟩
      rw [List.filterMap_cons, List.filterMap_cons, List.filterMap_cons, List.filterMap_cons, hwritten,
        hfailures, hsame.1, hsame.2]
      exact ⟨rfl, rfl⟩
  unfold PageAttempt.tally
  rw [hlists.1, hlists.2]

theorem PageBuilder.Succeeds.of_outcomes {b : PageBuilder} {s u : BuildState} {pages : List Path}
    (h : b.Succeeds s pages)
    (houtcomes : (b.attempts u pages).map PageAttempt.outcome =
      (b.attempts s pages).map PageAttempt.outcome) : b.Succeeds u pages := by
  intro a ha
  have hmem : a.outcome ∈ (b.attempts s pages).map PageAttempt.outcome :=
    houtcomes ▸ List.mem_map_of_mem ha
  obtain ⟨a', ha', heq⟩ := List.mem_map.1 hmem
  obtain ⟨target, htarget⟩ := PageAttempt.failure?_eq_none_iff.1 (h a' ha')
  exact PageAttempt.failure?_eq_none_iff.2 ⟨target, heq.symm.trans htarget⟩

/-! ## Builds that do not clean -/

/-- A build finds no dependencies and no articles below its output. -/
structure BuildOptions.Aside (o : BuildOptions) (m f : Disk) (out : Location) : Prop where
  apart : o.Apart m out
  dependencies : o.DependsBeside m out o.dependencies
  articles : o.IndexesBeside m f out

section

variable {o : BuildOptions} {formats : Formats} {b : PageBuilder} {copied : Nat} {d m f : Disk}
  {out : Location} {s u : BuildState}

theorem gather_keeps (h : (o.gather formats s).2.result = .ok (b, copied)) :
    s.disk.tree.Keeps (o.gather formats s).1.disk.tree := by
  obtain ⟨-, hstate, -⟩ := gather_of_ok h
  have hchanges : BuildStep.CopyChanges ⟨o.root, o.target⟩ (fun _ => True) (fun _ => True)
      (·.isRemoval = false) :=
    ⟨fun _ _ _ _ _ _ _ => trivial, fun _ _ _ => rfl, fun _ _ _ _ _ => rfl, fun _ _ _ => rfl⟩
  have hleads : s.Leads (·.isRemoval = false)
      (copyDependencies o.root o.target o.dependencies s).1 :=
    BuildStep.copyDependencies_makes (fun _ _ _ _ => trivial) hchanges (fun _ _ _ _ => trivial) s
      trivial
  rw [hstate]
  exact hleads.invariant (I := fun t => s.disk.tree.Keeps t.disk.tree) (.refl _)
    fun t c hc hkept => hkept.trans (apply_keeps hc t.disk)

/-- **Gathering** again comes to the same. -/
theorem gather_redone (h : o.Aside m f out) (hm : m.tree.Keeps f.tree) (hagree : Agree out m f)
    (hnamed : f.tree.Named) (hhoused : Housed f.tree) (hdone : Redone m o.target out f s.disk u.disk)
    (hs : s.disk.tree.Named) (hu : u.disk.tree.Named)
    (hok : (o.gather formats s).2.result = .ok (b, copied))
    (hkept : (o.gather formats s).1.disk.tree.Keeps f.tree) :
    (o.gather formats u).2.result = .ok (b, copied) ∧
      Redone m o.target out f (o.gather formats s).1.disk (o.gather formats u).1.disk := by
  obtain ⟨hcopied, hstate, articles, rfl, harticles⟩ := gather_of_ok hok
  rw [hstate] at hkept harticles ⊢
  obtain ⟨hcopied', hdone'⟩ :=
    copyDependencies_redone h.apart h.dependencies hdone hs hu hcopied hkept
  have hsame {x : Disk} (hx : Agree out m x) (hxhoused : Housed x.tree) (hxkept : x.tree.Keeps f.tree) :
      o.articles x = o.articles m :=
    articles_agree h.articles h.apart.named h.apart.housed hx hxhoused hagree hnamed hhoused hm hxkept
  have hfirst := hsame hdone'.first hdone'.ready.housed hkept
  have hsecond := hsame hdone'.second hdone'.ready'.housed fun l kind hkind =>
    (hdone'.kinds l).symm.trans hkind
  obtain ⟨hresult, hstate'⟩ := gather_of_copied formats hcopied'
    (hsecond.trans (hfirst.symm.trans harticles))
  rw [hstate']
  exact ⟨hresult, hdone'⟩

theorem build_sound (o : BuildOptions) (formats : Formats) (hd : d.Sound) :
    (o.build formats d).1.tree.Named ∧ Housed (o.build formats d).1.tree := by
  have hleads := steps_leads (outputChanges_confined o) (fun p hp => absurd hp List.not_mem_nil)
    formats hd.named
  exact hleads.invariant (I := fun t => t.disk.tree.Named ∧ Housed t.disk.tree) ⟨hd.named, hd.housed⟩
    fun t c _ h => ⟨apply_named h.1 c, apply_housed h.2 c⟩

/-- An output that is not cleaned is ready once it has been made ready. -/
theorem makeReady_of_leadsTo (hclean : o.clean = false) (h : s.disk.LeadsTo o.target out)
    (hfits : o.target.Fits) :
    (o.makeReady s).2.result = .ok () ∧ (o.makeReady s).1.disk = s.disk := by
  have hmade := Disk.createDirectories_of_leadsTo h hfits
  have hready : o.makeReady = BuildStep.change (.createDirectories o.target) := by
    unfold BuildOptions.makeReady BuildOptions.cleaning
    rw [hclean]
    rfl
  rw [hready, BuildStep.state_change]
  exact ⟨BuildStep.result_change_of_ok (congrArg Prod.snd hmade), congrArg Prod.fst hmade⟩

/-- A build that does not clean comes to its pages again as it has. -/
theorem prepare_redone (hclean : o.clean = false)
    (hout : (o.makeReady ⟨d, []⟩).1.disk.LeadsTo o.target out)
    (h : o.Aside (o.makeReady ⟨d, []⟩).1.disk f out)
    (hagree : Agree out (o.makeReady ⟨d, []⟩).1.disk f) (hnamed : f.tree.Named)
    (hhoused : Housed f.tree) (hprepare : (o.prepare formats ⟨d, []⟩).2.result = .ok (b, copied))
    (hkept : (o.prepare formats ⟨d, []⟩).1.disk.tree.Keeps f.tree) :
    (o.prepare formats ⟨f, []⟩).2.result = .ok (b, copied) ∧
      Redone (o.prepare formats ⟨d, []⟩).1.disk o.target out f (o.prepare formats ⟨d, []⟩).1.disk
        (o.prepare formats ⟨f, []⟩).1.disk := by
  obtain ⟨hmade, hprepared, hgathered⟩ := prepare_of_ok hprepare
  have hfits := Disk.fits_of_createDirectories (makeReady_of_ok hmade).2.1
  have hready : (o.makeReady ⟨d, []⟩).1.disk.Ready o.target out :=
    ⟨hout, h.apart.noLink, h.apart.housed⟩
  rw [hprepared] at hkept ⊢
  have hm := (gather_keeps hgathered).trans hkept
  obtain ⟨hmade', hdisk⟩ := makeReady_of_leadsTo (s := ⟨f, []⟩) hclean (hout.agree hagree) hfits
  have hdone : Redone (o.makeReady ⟨d, []⟩).1.disk o.target out f (o.makeReady ⟨d, []⟩).1.disk
      (o.makeReady ⟨f, []⟩).1.disk := by
    rw [hdisk]
    exact ⟨.refl h.apart.noLink, hagree, hready, hready.agree hagree hhoused, fun _ => rfl,
      fun _ => .inl rfl⟩
  obtain ⟨hgathered', hdone'⟩ := gather_redone h hm hagree hnamed hhoused hdone h.apart.named
    (hdisk ▸ hnamed) hgathered hkept
  obtain ⟨hstate, hresult⟩ := BuildStep.bind_of_ok hmade' fun _ => o.gather formats
  rw [prepare_eq, hstate, hresult]
  exact ⟨hgathered', hdone'.rebase hkept⟩

/-- **A build that does not clean** comes to the same again, over what it has made. -/
theorem build_redone {report : BuildReport} (hd : d.Sound) (hclean : o.clean = false)
    (hreport : (o.build formats d).2.result = .ok report)
    (hout : (o.makeReady ⟨d, []⟩).1.disk.LeadsTo o.target out)
    (h : o.Aside (o.makeReady ⟨d, []⟩).1.disk (o.build formats d).1 out)
    (hlooks : ∀ b copied, (o.prepare formats ⟨d, []⟩).2.result = .ok (b, copied) →
      ∀ page ∈ o.pages, ∀ relative, page.withinSite = .ok relative →
        b.LooksOnlyAt (o.prepare formats ⟨d, []⟩).1.disk relative
          fun p => !FileTree.isBelow out ((o.prepare formats ⟨d, []⟩).1.disk.lastPlace p)) :
    (o.build formats (o.build formats d).1).2.result = .ok report ∧
      (o.build formats (o.build formats d).1).1.cwd = (o.build formats d).1.cwd ∧
      ∀ l, (o.build formats (o.build formats d).1).1.tree.get? l =
        (o.build formats d).1.tree.get? l := by
  obtain ⟨b, copied, hprepare, rfl, hlast⟩ := exists_attempts_of_report o formats ⟨d, []⟩ hreport
  have hlooks := hlooks b copied hprepare
  have hagree := build_agree hd hreport hout h.apart.noLink
  obtain ⟨hnamed, hhoused⟩ := build_sound o formats hd
  have hfinal : (o.build formats d).1 = _ := congrArg BuildState.disk hlast
  have hkept := last_attempts_keeps b (o.prepare formats ⟨d, []⟩).1 o.pages
  rw [← hfinal] at hkept
  generalize (o.build formats d).1 = f at *
  obtain ⟨hprepare', hdone⟩ := prepare_redone hclean hout h hagree hnamed hhoused hprepare hkept
  obtain ⟨articles, hb, -⟩ := builder_of_prepare hprepare
  have houtput : b.output = o.target := by rw [hb]
  rw [← houtput] at hdone
  obtain ⟨houtcomes, hend⟩ := attempts_redone hdone hlooks (by rw [← hfinal]; exact .refl _)
  obtain ⟨hlast', hreport'⟩ := steps_of_attempts o formats ⟨f, []⟩ hprepare' fun hmode =>
    (succeeds_of_report o formats ⟨d, []⟩ hprepare hmode hreport).of_outcomes houtcomes
  have hfinal' : (o.build formats f).1 = _ := congrArg BuildState.disk hlast'
  rw [← hfinal, ← hfinal'] at hend
  refine ⟨hreport'.trans ?_, hend.second.cwd.trans hend.first.cwd.symm, hend.finished⟩
  rw [tally_congr copied ((map_page_attempts b _ _).trans (map_page_attempts b _ _).symm) houtcomes]

end

/-! ## Builds that are repeated -/

/-- **Repetition.** A build that gives a report gives it again, and leaves the disk as it is, with
every location holding what it has held.

* If it cleans, its output is to be empty once it has been made ready, and such that it can be
  removed and made again.
* If it does not, no path that it looks at is to stop below the output: neither those of dependencies
  and articles, on the disk where the output has been made ready, nor those of pages and what they
  refer to, on the disk where the first page is built. There are to be no links below the output.
  A walk for articles may come to the output from above. It is to find none there when the build is
  over, and no directory whose path is too long to be opened, as one made for a page may be.

What was in the output before does not matter, nor whether a build goes on after a page that fails. -/
theorem build_repeatable (o : BuildOptions) (formats : Formats) (d : Disk) (hd : d.Sound)
    (hdistinct : d.tree.Distinct) (report : BuildReport)
    (hreport : (o.build formats d).2.result = .ok report) :
    let m := (o.makeReady ⟨d, []⟩).1.disk
    let c := (o.prepare formats ⟨d, []⟩).1.disk
    let f := (o.build formats d).1
    ∃ b copied out, (o.prepare formats ⟨d, []⟩).2.result = .ok (b, copied) ∧ m.LeadsTo o.target out ∧
      ((o.clean = true → o.Renews m out) →
        (o.clean = false → o.Aside m f out ∧
          ∀ page ∈ o.pages, ∀ relative, page.withinSite = .ok relative →
            b.LooksOnlyAt c relative fun p => !FileTree.isBelow out (c.lastPlace p)) →
        (o.build formats f).2.result = .ok report ∧
          (o.build formats f).1.cwd = f.cwd ∧
          ∀ l, (o.build formats f).1.tree.get? l = f.tree.get? l) := by
  obtain ⟨b, copied, hprepare, -, -⟩ := exists_attempts_of_report o formats ⟨d, []⟩ hreport
  obtain ⟨out, hout⟩ := exists_leadsTo_of_makeReady hd.cwd (prepare_of_ok hprepare).1
  refine ⟨b, copied, out, hprepare, hout, fun hrenews haside => ?_⟩
  cases hclean : o.clean with
  | true =>
    obtain ⟨hagain, hsame⟩ := build_renewed hd hdistinct hclean hreport hout (hrenews hclean)
    exact ⟨hagain, hsame.cwd, hsame.get?⟩
  | false =>
    obtain ⟨hbeside, hlooks⟩ := haside hclean
    refine build_redone hd hclean hreport hout hbeside fun b' copied' hprepare' => ?_
    obtain ⟨rfl, -⟩ := Prod.mk.inj (Except.ok.inj (hprepare.symm.trans hprepare'))
    exact hlooks

@[irreducible] def styledSite : BuildOptions := { dependencies := [⟨"css"⟩] }

@[irreducible] def cleanStyledSite : BuildOptions := { dependencies := [⟨"css"⟩], clean := true }

/-- The disk once the output has been made ready. -/
def readyStyled : Disk := ⟨⟨(["out"], .directory) :: styledDisk.tree.entries⟩, []⟩

theorem styledDisk_sound : styledDisk.Sound where
  named := FileTree.Named.of_entries (by decide)
  housed := Disk.Housed.of_entries (by decide)
  cwd := rfl

theorem relative_of_styled {p relative : Path} (hp : p ∈ styledSite.dependencies)
    (h : p.withinSite = .ok relative) : relative = ⟨"css"⟩ := by
  have hdependencies : styledSite.dependencies = [⟨"css"⟩] := by decide +kernel
  rw [hdependencies, List.mem_singleton] at hp
  rw [hp] at h
  exact Except.ok.inj (h.symm.trans (by decide +kernel))

theorem styledSite_aside (f : Disk) : styledSite.Aside readyStyled f ["out"] where
  apart :=
    { named := FileTree.Named.of_entries (by decide)
      housed := Disk.Housed.of_entries (by decide)
      leads := .of_locate (by decide +kernel) (by decide)
      noLink := Disk.NoLinkBelow.of_entries (by simp [readyStyled, styledDisk])
      spelled := fun p hp hstarts => by
        refine spelled_of_holds (fun dependency hmem relative hrelative => ?_) hp hstarts
        obtain rfl := relative_of_styled hmem hrelative
        refine ⟨["css"], .of_locate (by decide +kernel) (by decide),
          Disk.NoLinkBelow.of_entries (by simp [readyStyled, styledDisk]), by decide,
          fun names hnames => ?_⟩
        exact absurd (List.cons.inj hnames).1 (by decide) }
  dependencies p hp relative hrelative := by
    obtain rfl := relative_of_styled hp hrelative
    decide +kernel
  articles := indexesBeside_of_apart f fun relative hrelative => by
    have hcontent : styledSite.content.withinSite = .ok ⟨"markdown_content"⟩ := by decide +kernel
    obtain rfl := Except.ok.inj (hcontent.symm.trans hrelative)
    decide +kernel

theorem cleanStyledSite_renews : cleanStyledSite.Renews readyStyled ["out"] where
  empty l hbelow := by
    have hnone : ∀ e ∈ readyStyled.tree.entries, FileTree.isBelow ["out"] e.1 = false := by decide
    cases hget : readyStyled.tree.get? l with
    | none => rfl
    | some e =>
      have hne : l ≠ [] := by
        rintro rfl
        cases hbelow
      cases (hnone _ (FileTree.mem_entries hne hget)).symm.trans hbelow
  ends := ⟨⟨"."⟩, [], "out", rfl, by decide +kernel, .of_locate (by decide +kernel) rfl⟩
  tidy piece hpiece := by
    have hlast : (Disk.trimSlashes cleanStyledSite.target).pieces.getLast? = some "out".toList := by
      decide +kernel
    obtain rfl := Option.some.inj (hlast.symm.trans hpiece)
    decide +kernel
  spelled := by decide +kernel

theorem styled_build_repeatable :
    (∃ f, (styledSite.build .standard styledDisk).1 = f ∧
      (styledSite.build .standard styledDisk).2.result = .ok ⟨[⟨"./out/index.html"⟩], 1, []⟩ ∧
      (styledSite.build .standard f).2.result = .ok ⟨[⟨"./out/index.html"⟩], 1, []⟩ ∧
      ∀ l, (styledSite.build .standard f).1.tree.get? l = f.tree.get? l) ∧
    ∃ f, (cleanStyledSite.build .standard styledDisk).1 = f ∧
      (cleanStyledSite.build .standard styledDisk).2.result =
        .ok ⟨[⟨"./out/index.html"⟩], 1, []⟩ ∧
      (cleanStyledSite.build .standard f).2.result = .ok ⟨[⟨"./out/index.html"⟩], 1, []⟩ ∧
      ∀ l, (cleanStyledSite.build .standard f).1.tree.get? l = f.tree.get? l := by
  have hdistinct : styledDisk.tree.Distinct := ⟨by decide, by decide⟩
  constructor
  · have hreport : (styledSite.steps .standard ⟨styledDisk, []⟩).2.result =
      .ok ⟨[⟨"./out/index.html"⟩], 1, []⟩ := by decide +kernel
    obtain ⟨b, copied, out, hprepare, hout, hrest⟩ :=
      build_repeatable styledSite .standard styledDisk styledDisk_sound hdistinct _ hreport
    have hready : (styledSite.makeReady ⟨styledDisk, []⟩).1.disk = readyStyled :=
      Disk.eq_of_entries (by decide +kernel) (by decide +kernel)
    rw [hready] at hout hrest
    obtain rfl : out = ["out"] := hout.unique (styledSite_aside readyStyled).apart.leads
    refine ⟨_, rfl, hreport, (hrest (fun h => ?_) fun _ => ⟨styledSite_aside _, ?_⟩).imp_right And.right⟩
    · cases h.symm.trans (by decide +kernel : styledSite.clean = false)
    · intro page hpage relative hrelative
      have hpages : styledSite.pages = [⟨"index.html"⟩] := by decide +kernel
      rw [hpages, List.mem_singleton] at hpage
      rw [hpage] at hrelative
      obtain rfl : ⟨"index.html"⟩ = relative := Except.ok.inj (Eq.trans (by decide +kernel) hrelative)
      obtain ⟨articles, rfl, harticles⟩ := builder_of_prepare hprepare
      have hnone : styledSite.articles (styledSite.prepare .standard ⟨styledDisk, []⟩).1.disk =
        .ok .empty := by decide +kernel
      obtain rfl : .empty = articles := Except.ok.inj (hnone.symm.trans harticles)
      exact .of_render (by decide +kernel)
  · have hreport : (cleanStyledSite.steps .standard ⟨styledDisk, []⟩).2.result =
      .ok ⟨[⟨"./out/index.html"⟩], 1, []⟩ := by decide +kernel
    obtain ⟨b, copied, out, hprepare, hout, hrest⟩ :=
      build_repeatable cleanStyledSite .standard styledDisk styledDisk_sound hdistinct _ hreport
    have hready : (cleanStyledSite.makeReady ⟨styledDisk, []⟩).1.disk = readyStyled :=
      Disk.eq_of_entries (by decide +kernel) (by decide +kernel)
    rw [hready] at hout hrest
    obtain rfl : out = ["out"] := hout.unique (.of_locate (by decide +kernel) (by decide))
    refine ⟨_, rfl, hreport, (hrest (fun _ => cleanStyledSite_renews) fun h => ?_).imp_right And.right⟩
    cases h.symm.trans (by decide +kernel : cleanStyledSite.clean = true)

theorem detourSite_aside (f : Disk) : detourSite.Aside detourReady f ["out"] where
  apart :=
    { named := FileTree.Named.of_entries (by decide)
      housed := Disk.Housed.of_entries (by decide)
      leads := detourReady_leads
      noLink := detourReady_noLink
      spelled := fun p hp => by
        obtain ⟨dependency, hmem, -⟩ := hp
        have hdependencies : detourSite.dependencies = [] := by decide +kernel
        rw [hdependencies] at hmem
        exact absurd hmem List.not_mem_nil }
  dependencies p hp := by
    have hdependencies : detourSite.dependencies = [] := by decide +kernel
    rw [hdependencies] at hp
    exact absurd hp List.not_mem_nil
  articles := indexesBeside_of_apart f fun relative hrelative => by
    have hcontent : detourSite.content.withinSite = .ok ⟨"markdown_content"⟩ := by decide +kernel
    obtain rfl := Except.ok.inj (hcontent.symm.trans hrelative)
    decide +kernel

/-- An old directory, an empty one, and a link to this. -/
def oldDisk : Disk :=
  ⟨⟨[(["old"], .directory), (["old", "a.txt"], .file "a".toUTF8), (["site"], .directory),
    (["l"], .link "site")]⟩, []⟩

@[irreducible] def bareSite (root output : String) : BuildOptions :=
  { root := ⟨root⟩, output := ⟨output⟩, pages := [], clean := true }

/-- It is not enough that a build looks at nothing that lies in its output. Where a path leads through
the output and out of it again, the second build finds it only because of the first. Nor does a build
that cleans come to the same again where its output is found only once directories have been made on
the way, where the path of the output does not end in a name or leads through the output itself, or
where the root is spelled as lying in it. -/
theorem unrepeatable_builds :
    (¬ ∀ (o : BuildOptions) (d : Disk) (b : PageBuilder) (copied : Nat) (out : Location)
        (report : BuildReport), d.Sound → d.tree.Distinct → o.clean = false →
      (o.prepare .standard ⟨d, []⟩).2.result = .ok (b, copied) →
      (o.makeReady ⟨d, []⟩).1.disk.LeadsTo o.target out →
      o.Aside (o.makeReady ⟨d, []⟩).1.disk (o.build .standard d).1 out →
      (∀ seen ∈ [(o.prepare .standard ⟨d, []⟩).1.disk, (o.build .standard d).1],
        ∀ page ∈ o.pages, ∀ relative, page.withinSite = .ok relative →
          b.LooksOnlyAt seen relative
            fun p => !(seen.locate ⟨true, false⟩ p).toOption.any out.isPrefixOf) →
      (o.build .standard d).2.result = .ok report →
        (o.build .standard (o.build .standard d).1).2.result = .ok report) ∧
    ∀ o ∈ [bareSite "." "new/../old", bareSite "." "out/../out/.", bareSite "." "l/../new/../site",
        bareSite "/out/../site" "/out"],
      o.clean = true ∧ o.pages = [] ∧ o.dependencies = [] ∧ o.articles oldDisk = .ok .empty ∧
      (o.build .standard oldDisk).2.result = .ok ⟨[], 0, []⟩ ∧
      ((o.build .standard (o.build .standard oldDisk).1).2.result ≠ .ok ⟨[], 0, []⟩ ∨
        (o.build .standard (o.build .standard oldDisk).1).1.tree.get? ["old", "a.txt"] ≠
          (o.build .standard oldDisk).1.tree.get? ["old", "a.txt"]) := by
  refine ⟨fun h => ?_, by decide +kernel⟩
  obtain ⟨hprepared, copied, hprepare⟩ := detourSite_prepare
  have hagain := h detourSite detourDisk _ copied ["out"] _ detourDisk_sound ⟨by decide, by decide⟩
    (by decide +kernel) hprepare (detourSite_makeReady ▸ detourReady_leads)
    (detourSite_makeReady ▸ detourSite_aside _) (fun seen hseen page hpage relative hrelative => ?_)
    detourSite_report
  · have hother : (detourSite.build .standard (detourSite.build .standard detourDisk).1).2.result ≠
        .ok ⟨[⟨"./out/b/b.html"⟩], 0,
          [⟨⟨"a.json"⟩, .missingFile ⟨"./out/b/../../x.html"⟩ "a.json"⟩]⟩ := by
      decide +kernel
    exact hother hagain
  · rw [hprepared] at hseen
    refine detour_looks ?_ hpage hrelative
    rcases List.mem_pair.1 hseen with rfl | rfl
    · exact List.mem_cons_self
    · exact List.mem_cons_of_mem _ List.mem_cons_self

end StaticSite
