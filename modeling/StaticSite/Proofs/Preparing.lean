import StaticSite.Proofs.Pages

/-!
What a build finds when it comes to its pages.

The output is made ready, then dependencies are copied into it. Proved here, for every build and every
disk where names are single components and everything lies in a directory:

* `exists_leadsTo_of_createDirectories`: the path of a directory that has been made leads to it;
* `prepare_eq`: what a build does before its pages;
* `prepared_ready`: the output path leads to the same directory when the first page is built, and
  nothing else has changed since it was made ready.
-/

namespace StaticSite

/-! ## Directories that have been made -/

namespace Disk

variable {d : Disk} {p : Path}

/-- A disk as it is found: names are single components, and everything lies in a directory, as does
the process itself. -/
structure Sound (d : Disk) : Prop where
  named : d.tree.Named
  housed : Housed d.tree
  cwd : d.tree.isDirectory d.cwd = true

theorem leadsTo_of_createDirectory {d' : Disk} (h : d.createDirectory p = .ok d') :
    ∃ out, d'.LeadsTo p out := by
  obtain ⟨l, hlocate, hfree, rfl⟩ := createDirectory_eq_ok h
  have hdirectory : (d.insert l .directory).tree.isDirectory l = true :=
    FileTree.isDirectory_iff.2 (FileTree.get?_insert_self hfree)
  have hfound : (d.insert l .directory).locate ⟨true, false⟩ (trimSlashes p) = .ok l :=
    locate_insert_of_free (fun _ h => by cases h) hlocate hfree
  exact ⟨l, (LeadsTo.of_locate hfound hdirectory).congr (Path.components_trimSlashes p).symm⟩

theorem leadsTo_of_isDirectory (h : d.isDirectory p = true) : ∃ out, d.LeadsTo p out := by
  unfold isDirectory entry? at h
  split at h
  · next l hlocate => exact ⟨l, .of_locate hlocate h⟩
  · cases h

theorem leadsTo_of_makeOne (h : (d.makeOne p).2 = .ok ()) :
    ∃ out, (d.makeOne p).1.LeadsTo p out := by
  unfold makeOne at h ⊢
  cases hmade : d.createDirectory p with
  | ok d' => exact leadsTo_of_createDirectory hmade
  | error e =>
    rw [hmade] at h
    dsimp only at h ⊢
    cases hthere : d.isDirectory p with
    | true => exact leadsTo_of_isDirectory hthere
    | false =>
      rw [hthere] at h
      cases h

/-- The path of a directory that has been made, with those on the way, leads to it. -/
theorem exists_leadsTo_of_createDirectories (hne : p.text ≠ "")
    (h : (d.createDirectories p).2 = .ok ()) : ∃ out, (d.createDirectories p).1.LeadsTo p out := by
  obtain ⟨above, habove⟩ := createDirectories_eq p
  rw [habove] at h ⊢
  by_cases hfound : d.createDirectory p = .error .notFound
  · rw [createFirst_of_notFound hne hfound] at h ⊢
    generalize d.createFirst above = r at h ⊢
    obtain ⟨d', result⟩ := r
    cases result with
    | error e => cases h
    | ok _ => exact leadsTo_of_makeOne h
  · rw [createFirst_of_found hne hfound] at h ⊢
    exact leadsTo_of_makeOne h

end Disk

/-! ## Before the first page -/

/-- What a build does first: it cleans the output, if it is asked to, and makes it. -/
def BuildOptions.makeReady (o : BuildOptions) : BuildStep Unit := do
  o.cleaning
  .change (.createDirectories o.target)

/-- What a build does between making ready and its pages. -/
def BuildOptions.gather (o : BuildOptions) (formats : Formats) : BuildStep (PageBuilder × Nat) := do
  let copied ← copyDependencies o.root o.target o.dependencies
  let articles ← indexArticles o.root o.content
  return (⟨formats, o.root, o.maxDepth, o.target, articles⟩, copied)

section

variable {o : BuildOptions} {formats : Formats} {b : PageBuilder} {copied : Nat} {s : BuildState}
  {out : Location}

theorem prepare_eq (o : BuildOptions) (formats : Formats) :
    o.prepare formats = o.makeReady >>= fun _ => o.gather formats := by
  unfold BuildOptions.prepare BuildOptions.makeReady BuildOptions.gather
  simp only [bind_assoc]

theorem prepare_of_ok (h : (o.prepare formats s).2.result = .ok (b, copied)) :
    (o.makeReady s).2.result = .ok () ∧
      (o.prepare formats s).1 = (o.gather formats (o.makeReady s).1).1 ∧
      (o.gather formats (o.makeReady s).1).2.result = .ok (b, copied) := by
  rw [prepare_eq] at h ⊢
  obtain ⟨_, hready, hstate, hgathered⟩ := BuildStep.bind_eq_ok h
  exact ⟨hready, hstate, hgathered⟩

theorem makeReady_leads (o : BuildOptions) (s : BuildState) :
    s.Leads (fun _ => True) (o.makeReady s).1 :=
  (BuildStep.Makes.bind (I := fun _ => True) (fun _ _ _ _ => trivial)
    (fun s _ => cleaning_leads trivial s) fun _ => .change trivial) s trivial

theorem makeReady_named (hs : s.disk.tree.Named) : (o.makeReady s).1.disk.tree.Named :=
  leads_named hs (makeReady_leads o s)

theorem makeReady_housed (hs : Disk.Housed s.disk.tree) :
    Disk.Housed (o.makeReady s).1.disk.tree :=
  (makeReady_leads o s).invariant (I := fun t => Disk.Housed t.disk.tree) hs
    fun _ c _ ht => apply_housed ht c

/-- What makes an output ready: it is made on the disk that cleaning leaves. -/
theorem makeReady_of_ok (h : (o.makeReady s).2.result = .ok ()) :
    (o.cleaning s).2.result = .ok () ∧
      ((o.cleaning s).1.disk.createDirectories o.target).2 = .ok () ∧
      (o.makeReady s).1.disk = ((o.cleaning s).1.disk.createDirectories o.target).1 := by
  unfold BuildOptions.makeReady at h ⊢
  obtain ⟨_, hcleaned, hstate, h⟩ := BuildStep.bind_eq_ok h
  rw [hstate, BuildStep.state_change]
  refine ⟨hcleaned, ?_, rfl⟩
  cases hmade : ((o.cleaning s).1.disk.createDirectories o.target).2 with
  | ok _ => rfl
  | error e =>
    cases h.symm.trans (BuildStep.result_change_of_error (c := .createDirectories o.target) hmade)

theorem cleaning_of_empty (hempty : o.target.text = "") (s : BuildState) : (o.cleaning s).1 = s := by
  have hnot : s.disk.pathExists o.target = false := by
    unfold Disk.pathExists Disk.entry? Disk.locate
    rw [hempty]
    rfl
  unfold BuildOptions.cleaning
  split
  · rcases cleanOutput_state o.root o.target s with hsame | ⟨hfound, -⟩
    · exact hsame
    · cases hfound.symm.trans hnot
  · rfl

/-- An output that has been made ready is a directory. -/
theorem exists_leadsTo_of_makeReady (hcwd : s.disk.tree.isDirectory s.disk.cwd = true)
    (h : (o.makeReady s).2.result = .ok ()) :
    ∃ out, (o.makeReady s).1.disk.LeadsTo o.target out := by
  obtain ⟨-, hmade, hdisk⟩ := makeReady_of_ok h
  rw [hdisk]
  by_cases hempty : o.target.text = ""
  · have hhere : Path.mk "" = o.target := congrArg Path.mk hempty.symm
    rw [cleaning_of_empty hempty, ← hhere]
    exact ⟨s.disk.cwd, .done, hcwd⟩
  · exact Disk.exists_leadsTo_of_createDirectories hempty hmade

/-! ## Between making ready and the pages -/

/-- The articles of a build. -/
def BuildOptions.articles (o : BuildOptions) (d : Disk) : Except SiteError ContentIndex :=
  match o.content.withinSite with
  | .error e => .error e
  | .ok relative => (ContentIndex.scan d (o.root.join relative)).result

/-- Indexing only looks. -/
theorem indexArticles_run (o : BuildOptions) (s : BuildState) :
    (indexArticles o.root o.content s).1 = s ∧
      (indexArticles o.root o.content s).2.result = o.articles s.disk := by
  have hlooks : BuildStep.Makes (fun _ => True) (fun _ => False) (indexArticles o.root o.content) :=
    BuildStep.indexArticles_makes (fun _ _ _ _ => trivial) _ _
  refine ⟨(hlooks s trivial).invariant (I := fun t => t = s) rfl fun _ _ hc => hc.elim, ?_⟩
  unfold indexArticles BuildOptions.articles
  cases hwithin : o.content.withinSite with
  | error e => rfl
  | ok relative =>
    have hrelative : (BuildStep.ofExcept (Except.ok relative : Except SiteError Path) s).2.result =
      .ok relative := rfl
    rw [(BuildStep.bind_of_ok hrelative _).2]
    let scanned : BuildStep ContentIndex :=
      BuildStep.look fun d => ContentIndex.scan d (o.root.join relative)
    have hscanned : (scanned s).2.result =
      (ContentIndex.scan s.disk (o.root.join relative) : Logged SiteError ContentIndex).result := rfl
    cases hscan : (ContentIndex.scan s.disk (o.root.join relative) :
        Logged SiteError ContentIndex).result with
    | error e => exact (BuildStep.bind_of_error (hscanned.trans hscan) _).2.trans hscan.symm
    | ok index =>
      refine (BuildStep.bind_of_ok (hscanned.trans hscan) _).2.trans (Eq.trans ?_ hscan.symm)
      dsimp only
      split <;> rfl

theorem gather_of_ok (h : (o.gather formats s).2.result = .ok (b, copied)) :
    (copyDependencies o.root o.target o.dependencies s).2.result = .ok copied ∧
      (o.gather formats s).1 = (copyDependencies o.root o.target o.dependencies s).1 ∧
      ∃ articles, b = ⟨formats, o.root, o.maxDepth, o.target, articles⟩ ∧
        o.articles (o.gather formats s).1.disk = .ok articles := by
  unfold BuildOptions.gather at h ⊢
  obtain ⟨n, hcopied, hstate, h⟩ := BuildStep.bind_eq_ok h
  rw [hstate]
  obtain ⟨articles, harticles, hstate', h⟩ := BuildStep.bind_eq_ok h
  obtain ⟨hsame, hindexed⟩ :=
    indexArticles_run o (copyDependencies o.root o.target o.dependencies s).1
  obtain ⟨rfl, rfl⟩ := Prod.mk.inj (Except.ok.inj h)
  rw [hstate', BuildStep.run_pure, hsame]
  exact ⟨hcopied, rfl, articles, rfl, hindexed.symm.trans harticles⟩

theorem gather_of_copied (formats : Formats) {articles : ContentIndex}
    (hcopied : (copyDependencies o.root o.target o.dependencies s).2.result = .ok copied)
    (harticles : o.articles (copyDependencies o.root o.target o.dependencies s).1.disk =
      .ok articles) :
    (o.gather formats s).2.result = .ok (⟨formats, o.root, o.maxDepth, o.target, articles⟩, copied) ∧
      (o.gather formats s).1 = (copyDependencies o.root o.target o.dependencies s).1 := by
  obtain ⟨hsame, hindexed⟩ :=
    indexArticles_run o (copyDependencies o.root o.target o.dependencies s).1
  unfold BuildOptions.gather
  obtain ⟨hstate, hresult⟩ := BuildStep.bind_of_ok hcopied fun copied =>
    indexArticles o.root o.content >>= fun articles =>
      pure ((⟨formats, o.root, o.maxDepth, o.target, articles⟩ : PageBuilder), copied)
  obtain ⟨hstate', hresult'⟩ := BuildStep.bind_of_ok (hindexed.trans harticles) fun articles =>
    pure ((⟨formats, o.root, o.maxDepth, o.target, articles⟩ : PageBuilder), copied)
  exact ⟨hresult.trans hresult', hstate.trans (hstate'.trans hsame)⟩

/-- What the pages of a build share. -/
theorem builder_of_prepare (h : (o.prepare formats s).2.result = .ok (b, copied)) :
    ∃ articles, b = ⟨formats, o.root, o.maxDepth, o.target, articles⟩ ∧
      o.articles (o.prepare formats s).1.disk = .ok articles := by
  obtain ⟨-, hstate, hgathered⟩ := prepare_of_ok h
  obtain ⟨-, -, articles, hb, harticles⟩ := gather_of_ok hgathered
  rw [hstate]
  exact ⟨articles, hb, harticles⟩

/-- **Gathering.** Where there are no links below the output, nothing changes but what lies there. -/
theorem gather_agree (hd : s.disk.tree.Named) (hready : s.disk.Ready o.target out)
    (h : (o.gather formats s).2.result = .ok (b, copied)) :
    b.output = o.target ∧ Disk.Agree out s.disk (o.gather formats s).1.disk ∧
      (o.gather formats s).1.disk.Ready o.target out ∧ (o.gather formats s).1.disk.tree.Named := by
  obtain ⟨-, hstate, articles, rfl, -⟩ := gather_of_ok h
  have hleads : s.Leads o.Copies (o.gather formats s).1 := by
    rw [hstate]
    exact BuildStep.copyDependencies_makes (fun _ c _ hd => apply_named hd c) (copyChanges_copies o)
      (outputChanges_confined o).start s hd
  obtain ⟨hagree, hhoused⟩ := copying_agree hready.leads hready.noLink hready.housed hleads
  exact ⟨rfl, hagree, hready.agree hagree hhoused, leads_named hd hleads⟩

/-- **Preparing.** The output path of a build that comes to its pages leads to a directory once it
has been made ready. Where there are no links below this, nothing else changes before the first page,
and the first page finds the output so. -/
theorem prepared_ready {d : Disk} (hd : d.Sound)
    (h : (o.prepare formats ⟨d, []⟩).2.result = .ok (b, copied)) :
    ∃ out, (o.makeReady ⟨d, []⟩).1.disk.LeadsTo o.target out ∧
      (Disk.NoLinkBelow (o.makeReady ⟨d, []⟩).1.disk.tree out →
        b.output = o.target ∧
        Disk.Agree out (o.makeReady ⟨d, []⟩).1.disk (o.prepare formats ⟨d, []⟩).1.disk ∧
        (o.prepare formats ⟨d, []⟩).1.disk.Ready o.target out ∧
        (o.prepare formats ⟨d, []⟩).1.disk.tree.Named) := by
  obtain ⟨hmade, hstate, hgathered⟩ := prepare_of_ok h
  obtain ⟨out, hleads⟩ := exists_leadsTo_of_makeReady hd.cwd hmade
  refine ⟨out, hleads, fun hlinks => ?_⟩
  have hready : (o.makeReady ⟨d, []⟩).1.disk.Ready o.target out :=
    ⟨hleads, hlinks, makeReady_housed hd.housed⟩
  rw [hstate]
  exact gather_agree (makeReady_named hd.named) hready hgathered

end

end StaticSite
