import StaticSite.Proofs.Preparing

/-!
The files that the pages of one build are written to.

A page is written to a path of its own name, a descriptor to one with its extension replaced. So
pages that differ may have one file. Proved here, for every build and every disk:

* `written_sublist`: what is reported as written are files of the listed pages, in their order;
* `get?_last_attempts`: attempts of other pages leave a file as it is, by induction on them;
* `pages_apart`: where the files of the pages differ, the paths that are reported differ, and each
  holds the markup of its page when the build is over;
* `twin_pages_collide`: neither holds for pages that are only listed apart.
-/

namespace StaticSite

section

variable {b : PageBuilder} {s : BuildState} {pages : List Path} {page relative target : Path}
  {out l : Location}

/-! ## What is written -/

theorem components_fileOf_eq (b : PageBuilder) (h : page.withinSite = .ok relative) :
    (b.fileOf relative).components = b.output.components ++ relative.pageFile.components := by
  rw [(fileOf_below b h).components, (Path.components_pageFile h).1]

/-- A page that is written is a page of the site, and is written to its file. -/
theorem target_of_build (h : (b.build page s).2.result = .ok target) :
    ∃ relative, page.withinSite = .ok relative ∧ target = b.fileOf relative := by
  obtain ⟨relative, ⟨markup, file⟩, hp, hr⟩ := BuildStep.exists_render_of_build h
  rw [(b.build_eq_buildOn page s).2, PageBuilder.buildOn_of_render hp hr] at h
  obtain ⟨_, -, rfl⟩ := Logged.except_map_eq_ok h
  exact ⟨relative, hp, PageBuilder.target_of_render hr⟩

/-- What is reported as written are files of the pages, in their order. -/
theorem written_sublist (b : PageBuilder) (s : BuildState) (pages : List Path) :
    (((b.attempts s pages).filterMap PageAttempt.written?).map Path.components).Sublist
      ((pages.filterMap Path.pageFile?).map fun p => b.output.components ++ p.components) := by
  induction pages generalizing s with
  | nil => exact .slnil
  | cons page rest ih =>
    have hrest := ih (b.build page s).1
    rw [attempts_cons]
    cases h : (b.build page s).2.result with
    | error e =>
      rw [List.filterMap_cons_none PageAttempt.written?_error]
      cases hfile : page.pageFile? with
      | none => rwa [List.filterMap_cons_none hfile]
      | some file =>
        rw [List.filterMap_cons_some hfile]
        exact hrest.cons _
    | ok target =>
      obtain ⟨relative, hp, rfl⟩ := target_of_build h
      rw [List.filterMap_cons_some PageAttempt.written?_ok,
        List.filterMap_cons_some (Path.pageFile?_of_withinSite hp), List.map_cons, List.map_cons,
        components_fileOf_eq b hp]
      exact hrest.cons_cons _

theorem nodup_written (b : PageBuilder) (s : BuildState)
    (h : ((pages.filterMap Path.pageFile?).map Path.components).Nodup) :
    (((b.attempts s pages).filterMap PageAttempt.written?).map Path.components).Nodup := by
  refine (written_sublist b s pages).nodup ?_
  have hmap : (pages.filterMap Path.pageFile?).map (fun p => b.output.components ++ p.components) =
      ((pages.filterMap Path.pageFile?).map Path.components).map (b.output.components ++ ·) := by
    rw [List.map_map]
    exact List.map_congr_left fun _ _ => rfl
  rw [hmap]
  exact h.map fun _ _ => List.append_cancel_left

/-! ## What is left -/

/-- Attempts of other pages leave a file as it is. -/
theorem get?_last_attempts (h : s.disk.Ready b.output out) {e : Entry}
    (hl : s.disk.tree.get? l = some e)
    (hother : ∀ page ∈ pages, ∀ relative, page.withinSite = .ok relative →
      l ≠ out ++ relative.pageFile.names) :
    (PageAttempt.last s (b.attempts s pages)).disk.tree.get? l = some e := by
  induction pages generalizing s with
  | nil => exact hl
  | cons page rest ih =>
    obtain ⟨hpage, hrest⟩ := List.forall_mem_cons.1 hother
    rw [last_attempts_cons]
    refine ih (b.build_agree h page).2 ?_ hrest
    rw [(b.build_eq_buildOn page s).1]
    exact PageBuilder.get?_buildOn_other h hl hpage

/-- Files that differ have different places in the output. -/
theorem place_ne {front back : List Path}
    (h : (((front ++ page :: back).filterMap Path.pageFile?).map Path.components).Nodup)
    (hp : page.withinSite = .ok relative) {other : Path} (hother : other ∈ back)
    {relative' : Path} (hp' : other.withinSite = .ok relative') :
    out ++ relative.pageFile.names ≠ out ++ relative'.pageFile.names := by
  intro hplace
  have hnames := List.append_cancel_left hplace
  have hsame : relative'.pageFile.components = relative.pageFile.components := by
    rw [(Path.components_pageFile hp).1, (Path.components_pageFile hp').1, hnames]
  rw [List.filterMap_append, List.filterMap_cons_some (Path.pageFile?_of_withinSite hp),
    List.map_append, List.map_cons] at h
  have hnot := (List.nodup_cons.1 (List.nodup_append.1 h).2.1).1
  refine hnot (List.mem_map.2 ⟨relative'.pageFile, ?_, hsame⟩)
  exact List.mem_filterMap.2 ⟨other, hother, Path.pageFile?_of_withinSite hp'⟩

end

/-- **Pages apart.** Where the files of the listed pages are pairwise different, so are the paths that
a build reports as written. Where there are moreover no links below the directory that the output
path leads to, once it has been made ready, each of these paths holds the markup of the page that
was written to it when the build is over. -/
theorem pages_apart (o : BuildOptions) (formats : Formats) (d : Disk) (hd : d.Sound)
    (report : BuildReport) (hreport : (o.build formats d).2.result = .ok report)
    (hfiles : ((o.pages.filterMap Path.pageFile?).map Path.components).Nodup) :
    (report.written.map Path.components).Nodup ∧
    ∃ b copied, (o.prepare formats ⟨d, []⟩).2.result = .ok (b, copied) ∧
      let s := (o.prepare formats ⟨d, []⟩).1
      report = PageAttempt.tally copied (b.attempts s o.pages) ∧
      ∃ out, (o.makeReady ⟨d, []⟩).1.disk.LeadsTo o.target out ∧
        (Disk.NoLinkBelow (o.makeReady ⟨d, []⟩).1.disk.tree out →
          ∀ before a after target, b.attempts s o.pages = before ++ a :: after →
            a.outcome = .ok target →
              ∃ markup, b.Renders (PageAttempt.last s before).disk a.page markup target ∧
                (o.build formats d).1.readBytes target = .ok markup.toUTF8) := by
  obtain ⟨b, copied, hprepare, rfl, hstate⟩ := exists_attempts_of_report o formats ⟨d, []⟩ hreport
  refine ⟨nodup_written b _ hfiles, b, copied, hprepare, rfl, ?_⟩
  obtain ⟨out, hleads, hprepared⟩ := prepared_ready hd hprepare
  refine ⟨out, hleads, fun hlinks before a after target hsplit htarget => ?_⟩
  obtain ⟨houtput, -, hready, -⟩ := hprepared hlinks
  rw [← houtput] at hready
  have hdisk : (o.build formats d).1 = _ := congrArg BuildState.disk hstate
  rw [hdisk]
  generalize (o.prepare formats ⟨d, []⟩).1 = s at hready hsplit ⊢
  have hend := (last_attempts_agree hready o.pages).2
  obtain ⟨front, back, hpages, rfl, hbuilt, -⟩ := exists_split_of_attempts hsplit
  have hfront := (last_attempts_agree hready front).2
  obtain ⟨relative, hp, -⟩ := target_of_build (hbuilt.trans htarget)
  generalize hpage : a.page = page at hpages hbuilt hp
  obtain ⟨hbuiltDisk, hbuiltResult⟩ := b.build_eq_buildOn page (PageAttempt.last s (b.attempts s front))
  obtain ⟨markup, hrender, hfits, hshort, hget⟩ := PageBuilder.get?_buildOn_self hfront hp
    (hbuiltResult.symm.trans (hbuilt.trans htarget))
  refine ⟨markup, PageBuilder.renders_iff.2 ⟨relative, hp, hrender⟩, ?_⟩
  obtain rfl := PageBuilder.target_of_render hrender
  have hnext := (PageBuilder.buildOn_agree hfront page).2
  rw [← hbuiltDisk] at hget hnext
  have hothers : ∀ other ∈ back, ∀ relative', other.withinSite = .ok relative' →
      out ++ relative.pageFile.names ≠ out ++ relative'.pageFile.names :=
    fun other hother relative' hp' => place_ne (hpages ▸ hfiles) hp hother hp'
  have hkept := get?_last_attempts hnext hget hothers
  refine Disk.readBytes_below hend (fileOf_below b hp) (Path.components_pageFile hp).2.1 hfits hshort ?_
  rw [hpages, attempts_append, PageAttempt.last, List.foldl_append]
  exact hkept

/-- A site with a page, and a descriptor of another page. -/
def describedDisk : Disk :=
  ⟨⟨[(["a.html"], .file "a".toUTF8), (["t.html"], .file "t".toUTF8), (["sub"], .directory),
    (["sub", "a.json"], .file "\x7b\"template\": \"t.html\", \"data\": \x7b\x7d\x7d".toUTF8)]⟩, []⟩

def describedSite : BuildOptions := { pages := [⟨"a.html"⟩, ⟨"sub/a.json"⟩] }

theorem describedDisk_sound : describedDisk.Sound where
  named := FileTree.Named.of_entries (by decide)
  housed := Disk.Housed.of_entries (by decide)
  cwd := rfl

/-- The descriptor is built after the page, and the page stays. -/
theorem described_page_apart :
    ∃ report markup, (describedSite.build .standard describedDisk).2.result = .ok report ∧
      report.written = [⟨"./out/a.html"⟩, ⟨"./out/sub/a.html"⟩] ∧
      (report.written.map Path.components).Nodup ∧
      (describedSite.build .standard describedDisk).1.readBytes ⟨"./out/a.html"⟩ =
        .ok (String.toUTF8 markup) := by
  have hreport : (describedSite.build .standard describedDisk).2.result =
    .ok ⟨[⟨"./out/a.html"⟩, ⟨"./out/sub/a.html"⟩], 0, []⟩ := by decide +kernel
  obtain ⟨hnodup, b, copied, -, htally, out, hleads, hkept⟩ := pages_apart describedSite .standard
    describedDisk describedDisk_sound _ hreport (by decide +kernel)
  have hready : (describedSite.makeReady ⟨describedDisk, []⟩).1.disk.tree.entries =
    (["out"], .directory) :: describedDisk.tree.entries := by decide +kernel
  have hlinks : Disk.NoLinkBelow (describedSite.makeReady ⟨describedDisk, []⟩).1.disk.tree out :=
    Disk.NoLinkBelow.of_entries (by rw [hready]; simp [describedDisk])
  obtain ⟨first, rest, hattempts⟩ : ∃ first rest, b.attempts
    (describedSite.prepare .standard ⟨describedDisk, []⟩).1 describedSite.pages = first :: rest :=
      ⟨_, _, rfl⟩
  have hfailures := (congrArg BuildReport.failures htally).symm
  have hwritten := (congrArg BuildReport.written htally).symm
  dsimp only [PageAttempt.tally] at hfailures hwritten
  rw [hattempts] at hfailures hwritten
  obtain ⟨target, htarget⟩ := PageAttempt.failure?_eq_none_iff.1
    (List.filterMap_eq_nil_iff.1 hfailures first List.mem_cons_self)
  have hfirst : first.written? = some target := congrArg Except.toOption htarget
  rw [List.filterMap_cons_some hfirst] at hwritten
  obtain ⟨rfl, -⟩ := List.cons.inj hwritten
  obtain ⟨markup, -, hread⟩ := hkept hlinks [] first rest _ hattempts htarget
  exact ⟨_, markup, hreport, rfl, hnodup, hread⟩

/-- A site where one directory of the output is a link to another. -/
def linkedDisk : Disk :=
  ⟨⟨[(["x"], .directory), (["x", "a.html"], .file "x".toUTF8), (["y"], .directory),
    (["y", "a.html"], .file "y".toUTF8), (["out"], .directory), (["out", "x"], .link "y"),
    (["out", "y"], .directory)]⟩, []⟩

/-- Pages that are listed apart may have one file: a page and a descriptor of its name. And where a
directory in the output is a link to another, pages with different files are written to one place. -/
theorem twin_pages_collide :
    (¬ ∀ (o : BuildOptions) (d : Disk) (report : BuildReport), d.Sound →
      (o.build .standard d).2.result = .ok report →
      o.pages.Pairwise (fun p q => p.withinSite ≠ q.withinSite) → report.written.Nodup) ∧
    ¬ ∀ (o : BuildOptions) (d : Disk) (report : BuildReport), d.Sound →
      (o.build .standard d).2.result = .ok report →
      ((o.pages.filterMap Path.pageFile?).map Path.components).Nodup →
      ∀ front page back earlier target, o.pages = front ++ page :: back →
        ({ o with pages := front ++ [page] }.build .standard d).2.result = .ok earlier →
        earlier.written.getLast? = some target →
          (o.build .standard d).1.readText target =
            ({ o with pages := front ++ [page] }.build .standard d).1.readText target := by
  constructor
  · intro h
    let o : BuildOptions := { pages := [⟨"a.html"⟩, ⟨"a.json"⟩] }
    let d : Disk := ⟨⟨[(["a.html"], .file "a".toUTF8), (["t.html"], .file "t".toUTF8),
      (["a.json"], .file "\x7b\"template\": \"t.html\", \"data\": \x7b\x7d\x7d".toUTF8)]⟩, []⟩
    have hsound : d.Sound :=
      ⟨FileTree.Named.of_entries (by decide), Disk.Housed.of_entries (by decide), rfl⟩
    have hreport : (o.build .standard d).2.result =
      .ok ⟨[⟨"./out/a.html"⟩, ⟨"./out/a.html"⟩], 0, []⟩ := by decide +kernel
    exact absurd (h o d _ hsound hreport (by decide +kernel)) (by decide)
  · intro h
    let o : BuildOptions := { pages := [⟨"x/a.html"⟩, ⟨"y/a.html"⟩] }
    have hsound : linkedDisk.Sound :=
      ⟨FileTree.Named.of_entries (by decide), Disk.Housed.of_entries (by decide), rfl⟩
    have hreport : (o.build .standard linkedDisk).2.result =
      .ok ⟨[⟨"./out/x/a.html"⟩, ⟨"./out/y/a.html"⟩], 0, []⟩ := by decide +kernel
    have hearlier : ({ o with pages := [] ++ [Path.mk "x/a.html"] }.build .standard linkedDisk).2.result =
      .ok ⟨[⟨"./out/x/a.html"⟩], 0, []⟩ := by decide +kernel
    have hlater := h o linkedDisk _ hsound hreport (by decide +kernel) [] ⟨"x/a.html"⟩ [⟨"y/a.html"⟩]
      ⟨[⟨"./out/x/a.html"⟩], 0, []⟩ ⟨"./out/x/a.html"⟩ rfl hearlier rfl
    revert hlater
    decide +kernel

end StaticSite
