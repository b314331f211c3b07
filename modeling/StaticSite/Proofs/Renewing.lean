import StaticSite.Proofs.Sameness

/-!
Builds that clean their output.

Cleaning takes away what an earlier build left, and the output is made again. Proved here, for every
disk:

* `removeTree_of_endsIn`, `createDirectories_of_endsIn`: a directory that is named in another one is
  removed with all below it, and made again there;
* `makeReady_again`: an output that has been made ready and was empty is the same once it is made
  ready again, whatever has been put there;
* `build_renewed`: so a build that cleans comes to the same again.
-/

namespace StaticSite

namespace Disk

variable {d d' : Disk} {p : Path} {out place l : Location} {n : String}

/-! ## A name in a directory -/

/-- The disk without what is at a place and below it. -/
def without (d : Disk) (top : Location) : Disk :=
  { d with tree := d.tree.eraseAll fun l => top.isPrefixOf l }

/-- A path leads to a directory, and then to a name in it. Slashes may follow. -/
structure EndsIn (d : Disk) (p : Path) (place : Location) (n : String) : Prop where
  leads : ∃ above : Path, p.components = above.components ++ [.name n] ∧ d.LeadsTo above place
  tidy : (trimSlashes p).Tidy
  fits : p.Fits
  short : n.utf8ByteSize ≤ maxNameBytes

theorem get?_without (d : Disk) {top : Location} (hne : top ≠ []) (l : Location) :
    (d.without top).tree.get? l = if top <+: l then none else d.tree.get? l := by
  unfold without
  rw [FileTree.get?_eraseAll]
  by_cases hpre : top <+: l
  · have hl : l ≠ [] := by
      rintro rfl
      exact hne (List.prefix_nil.1 hpre)
    rw [if_pos ⟨List.isPrefixOf_iff_prefix.2 hpre, hl⟩, if_pos hpre]
  · rw [if_neg hpre, if_neg fun h => hpre (List.isPrefixOf_iff_prefix.1 h.1)]

namespace EndsIn

theorem mono (h : d.EndsIn p place n) (ht : d.tree.Within d'.tree) (hcwd : d'.cwd = d.cwd) :
    d'.EndsIn p place n := by
  obtain ⟨above, hcomponents, hleads⟩ := h.leads
  have hwalked := hleads.walked.mono ht
  rw [← start_eq hcwd above] at hwalked
  exact ⟨⟨above, hcomponents, hwalked, ht.isDirectory hleads.directory⟩, h.tidy, h.fits, h.short⟩

theorem text_ne (h : d.EndsIn p place n) : p.text ≠ "" := by
  obtain ⟨above, hcomponents, -⟩ := h.leads
  intro hempty
  have hnone : p.components = [] := by
    obtain ⟨text⟩ := p
    obtain rfl : text = "" := hempty
    rfl
  rw [hnone] at hcomponents
  simp at hcomponents

theorem exists_walk (h : d.EndsIn p place n) :
    d.tree.isDirectory place = true ∧
      ∃ left, ∀ r, d.locate r (trimSlashes p) = walk d.tree r left place [.into n] := by
  obtain ⟨above, hcomponents, hleads⟩ := h.leads
  have hnames : (trimSlashes p).components = above.components ++ [n].map .name :=
    (Path.components_trimSlashes p).trans hcomponents
  exact ⟨hleads.directory, exists_walk_down hleads hnames (List.cons_ne_nil _ _) h.tidy
    (fits_trimSlashes.2 h.fits)⟩

/-- A directory of the name is found. -/
theorem locate_trimmed (h : d.EndsIn p place n)
    (hget : d.tree.get? (place ++ [n]) = some .directory) (r : Reach) :
    d.locate r (trimSlashes p) = .ok (place ++ [n]) := by
  obtain ⟨hplace, left, hleft⟩ := h.exists_walk
  rw [hleft, walk_into, hplace, hget, if_neg (by decide), if_neg (Nat.not_lt_of_le h.short)]
  exact walk_nil _ _ _ _

theorem locate_of_directory (h : d.EndsIn p place n)
    (hget : d.tree.get? (place ++ [n]) = some .directory) (follow : Bool) :
    d.locate ⟨follow, false⟩ p = .ok (place ++ [n]) := by
  obtain ⟨k, hsteps, habs⟩ := exists_stays p
  obtain ⟨haccepts, hwalk⟩ := locate_eq_ok_iff.1 (h.locate_trimmed hget ⟨follow, false⟩)
  have hstart : d.start (trimSlashes p) = d.start p := by
    unfold start
    rw [habs]
  have hwalked := (walk_eq_ok_iff.1 hwalk).append_stays (FileTree.isDirectory_iff.2 hget) k
  rw [← hsteps, hstart] at hwalked
  exact locate_eq_ok_iff.2 ⟨⟨by simpa using h.text_ne, h.fits.noNull, h.fits.short,
    habs ▸ haccepts.origin⟩, walk_eq_ok_iff.2 hwalked⟩

/-- A free name is found by what accepts one. -/
theorem locate_of_free (h : d.EndsIn p place n) (hget : d.tree.get? (place ++ [n]) = none)
    (follow : Bool) : d.locate ⟨follow, true⟩ (trimSlashes p) = .ok (place ++ [n]) := by
  obtain ⟨hplace, left, hleft⟩ := h.exists_walk
  rw [hleft, walk_into, hplace, hget, if_neg (by decide), if_neg (Nat.not_lt_of_le h.short)]
  rfl

theorem getLast?_steps (h : d.EndsIn p place n) :
    (steps (trimSlashes p).text).getLast? = some (.into n) := by
  obtain ⟨above, hcomponents, -⟩ := h.leads
  have hmoves := moves_steps (trimSlashes p)
  rw [Path.components_trimSlashes, hcomponents, List.filterMap_append] at hmoves
  have hlast := Disk.getLast?_steps h.tidy
  rcases List.eq_nil_or_concat (steps (trimSlashes p).text) with hnil | ⟨init, x, hconcat⟩
  · rw [hnil] at hmoves
    exact absurd hmoves.symm (by simp [moves, move?])
  · rw [hconcat, List.concat_eq_append, moves_append] at hmoves
    rw [hconcat, List.concat_eq_append, List.getLast?_concat] at hlast ⊢
    cases x with
    | stay => exact absurd rfl hlast
    | up | into m => simpa [moves, move?] using congrArg List.getLast? hmoves

end EndsIn

/-! ## Removed and made again -/

/-- A directory that is named in another one is removed, with all below it. -/
theorem removeTree_of_endsIn (h : (d.without (place ++ [n])).EndsIn p place n)
    (hget : d.tree.get? (place ++ [n]) = some .directory) :
    (d.removeTree p).2 = .ok () ∧ (d.removeTree p).1.cwd = d.cwd ∧
      ∀ l, (d.removeTree p).1.tree.get? l = (d.without (place ++ [n])).tree.get? l := by
  have hne : place ++ [n] ≠ [] := by simp
  have hhere : d.EndsIn p place n := h.mono (FileTree.eraseAll_within _ _) rfl
  let emptied : Disk := { d with tree := d.tree.eraseAll (FileTree.isBelow (place ++ [n])) }
  have hget' : ∀ l, emptied.tree.get? l =
      if FileTree.isBelow (place ++ [n]) l = true ∧ l ≠ [] then none else d.tree.get? l :=
    FileTree.get?_eraseAll _ _
  have htop : emptied.tree.get? (place ++ [n]) = some .directory := by
    rw [hget', if_neg, hget]
    rintro ⟨hbelow, -⟩
    exact (FileTree.isBelow_iff.1 hbelow).2 rfl
  have hwithin : (d.without (place ++ [n])).tree.Within emptied.tree := by
    intro l e hl
    rw [get?_without d hne] at hl
    split at hl
    · cases hl
    · next hnot =>
      rw [hget', if_neg, hl]
      rintro ⟨hbelow, -⟩
      exact hnot (FileTree.isBelow_iff.1 hbelow).1
  have hremoved : emptied.removeEmpty p =
      .ok { emptied with tree := emptied.tree.eraseAll (· == place ++ [n]) } := by
    unfold removeEmpty
    dsimp only
    rw [(h.mono hwithin rfl).locate_trimmed htop]
    dsimp only [bind, Except.bind]
    rw [h.getLast?_steps]
    dsimp only
    rw [htop]
    simp
  have htree : d.removeTree p =
      ({ emptied with tree := emptied.tree.eraseAll (· == place ++ [n]) }, .ok ()) := by
    unfold removeTree
    rw [hhere.locate_of_directory hget]
    dsimp only
    rw [hget]
    dsimp only
    rw [hremoved]
  rw [htree]
  refine ⟨rfl, rfl, fun l => ?_⟩
  rw [get?_without d hne]
  show (emptied.tree.eraseAll (· == place ++ [n])).get? l = _
  rw [FileTree.get?_eraseAll, hget']
  by_cases hpre : place ++ [n] <+: l
  · have hl : l ≠ [] := by
      rintro rfl
      exact hne (List.prefix_nil.1 hpre)
    rw [if_pos hpre]
    by_cases heq : l = place ++ [n]
    · rw [if_pos ⟨by simpa using heq, hl⟩]
    · rw [if_neg (by simpa using fun h => absurd h heq), if_pos]
      exact ⟨FileTree.isBelow_iff.2 ⟨hpre, heq⟩, hl⟩
  · rw [if_neg hpre, if_neg, if_neg]
    · exact fun h => hpre (FileTree.isBelow_iff.1 h.1).1
    · exact fun h => hpre (eq_of_beq h.1 ▸ List.prefix_rfl)

/-- A directory with a free name is made. -/
theorem createDirectories_of_endsIn (h : d.EndsIn p place n)
    (hget : d.tree.get? (place ++ [n]) = none) :
    d.createDirectories p = (d.insert (place ++ [n]) .directory, .ok ()) := by
  have hmade : d.createDirectory p = .ok (d.insert (place ++ [n]) .directory) := by
    unfold createDirectory
    rw [h.locate_of_free hget]
    dsimp only [bind, Except.bind]
    rw [hget]
  obtain ⟨above, habove⟩ := createDirectories_eq p
  rw [habove, createFirst_of_found h.text_ne (by rw [hmade]; simp)]
  unfold makeOne
  rw [hmade]

end Disk

/-! ## Builds that clean -/

/-- An output that has been made ready can be removed and made again. It is empty, its path leads to a
directory that is reached without it, and then to its name, and the root is not spelled as lying in
it. -/
structure BuildOptions.Renews (o : BuildOptions) (d : Disk) (out : Location) : Prop where
  empty : ∀ l, FileTree.isBelow out l = true → d.tree.get? l = none
  ends : ∃ (above : Path) (place : Location) (n : String), out = place ++ [n] ∧
    o.target.components = above.components ++ [.name n] ∧ (d.without out).LeadsTo above place
  tidy : (Disk.trimSlashes o.target).Tidy
  spelled : o.root.startsWith o.target = false

section

variable {o : BuildOptions} {formats : Formats} {d d' : Disk} {out : Location} {s : BuildState}

theorem BuildOptions.Renews.noLink (h : o.Renews d out) : Disk.NoLinkBelow d.tree out := by
  intro l target hbelow hget
  cases (h.empty l hbelow).symm.trans hget

/-- The output of the next build ends in the same name. -/
theorem BuildOptions.Renews.endsIn (h : o.Renews d out) (hagree : Disk.Agree out d d')
    (hout : d.LeadsTo o.target out) (hfits : o.target.Fits) :
    ∃ place n, out = place ++ [n] ∧ (d'.without out).EndsIn o.target place n := by
  obtain ⟨above, place, n, rfl, hcomponents, hleads⟩ := h.ends
  have hne : place ++ [n] ≠ [] := by simp
  have hwithin : (d.without (place ++ [n])).tree.Within (d'.without (place ++ [n])).tree := by
    intro l e hl
    rw [Disk.get?_without d hne] at hl
    split at hl
    · cases hl
    · next hnot =>
      rw [Disk.get?_without d' hne, if_neg hnot, hagree.apart hnot]
      exact hl
  have hleads' : d.LeadsTo above place :=
    ⟨hleads.walked.mono (FileTree.eraseAll_within _ _),
      (FileTree.eraseAll_within _ _).isDirectory hleads.directory⟩
  have hnames : (Disk.trimSlashes o.target).components = above.components ++ [n].map .name :=
    (Path.components_trimSlashes _).trans hcomponents
  obtain ⟨left, hleft⟩ := Disk.exists_walk_down hleads' hnames (List.cons_ne_nil _ _) h.tidy
    (Disk.fits_trimSlashes.2 hfits)
  have htext : (Disk.trimSlashes o.target).text ≠ "" := fun hempty =>
    Path.text_ne_of_tidy h.tidy (by rw [hempty]; rfl)
  have hfound : d.locate ⟨true, false⟩ (Disk.trimSlashes o.target) = .ok (place ++ [n]) := by
    have htrimmed := hout.congr (Path.components_trimSlashes o.target)
    exact Disk.locate_eq_ok_iff.2 ⟨htrimmed.accepts htext (Disk.fits_trimSlashes.2 hfits),
      Disk.walk_eq_ok_iff.2 htrimmed.walked⟩
  have hshort : n.utf8ByteSize ≤ Disk.maxNameBytes := by
    rw [hleft, List.map_cons, Disk.walk_into, hleads'.directory, if_neg (by decide)] at hfound
    by_contra hlong
    rw [if_pos (Nat.lt_of_not_le hlong)] at hfound
    cases hfound
  exact ⟨place, n, rfl, Disk.EndsIn.mono ⟨⟨above, hcomponents, hleads⟩, h.tidy, hfits, hshort⟩
    hwithin hagree.cwd⟩

theorem cleanOutput_result {root output : Path} (hfound : s.disk.pathExists output = true)
    (hspelled : root.startsWith output = false) (hremoved : (s.disk.removeTree output).2 = .ok ()) :
    (cleanOutput root output s).2.result = .ok () := by
  unfold cleanOutput
  rw [(BuildStep.bind_of_ok (result_look_exists hfound) _).2, if_pos rfl, if_neg (by simp [hspelled])]
  exact BuildStep.result_change_of_ok (c := .removeTree output) hremoved

/-- **Renewing.** An output that was made ready is made ready again as it was, whatever has been put
there since. -/
theorem makeReady_again (h : o.Renews d out) (hclean : o.clean = true)
    (hout : d.LeadsTo o.target out) (hfits : o.target.Fits) (hagree : Disk.Agree out d s.disk) (hd : d.tree.Distinct) (hs : s.disk.tree.Distinct) :
    (o.makeReady s).2.result = .ok () ∧ d.Same (o.makeReady s).1.disk := by
  obtain ⟨place, n, rfl, hends⟩ := h.endsIn hagree hout hfits
  have hne : place ++ [n] ≠ [] := by simp
  have htop : s.disk.tree.get? (place ++ [n]) = some .directory :=
    FileTree.isDirectory_iff.1 (hagree.directories _ hout.directory)
  have hfound : s.disk.pathExists o.target = true := by
    unfold Disk.pathExists Disk.entry?
    rw [(hends.mono (FileTree.eraseAll_within _ _) rfl).locate_of_directory htop]
    dsimp only
    rw [htop]
    rfl
  obtain ⟨hremoved, hcwd, hget⟩ := Disk.removeTree_of_endsIn hends htop
  have hcleaning : o.cleaning = cleanOutput o.root o.target := if_pos hclean
  have hcleaned : (o.cleaning s).2.result = .ok () := by
    rw [hcleaning]
    exact cleanOutput_result hfound h.spelled hremoved
  have hstate : (o.cleaning s).1 = s.after (.removeTree o.target) := by
    rw [hcleaning]
    exact cleanOutput_removed hfound h.spelled
  have hgone : (s.disk.removeTree o.target).1.EndsIn o.target place n := by
    refine hends.mono (fun l e hl => ?_) hcwd
    rw [hget]
    exact hl
  have hfree : (s.disk.removeTree o.target).1.tree.get? (place ++ [n]) = none := by
    rw [hget, Disk.get?_without _ hne, if_pos List.prefix_rfl]
  have hmade := Disk.createDirectories_of_endsIn hgone hfree
  obtain ⟨hready, hresult⟩ := BuildStep.bind_of_ok hcleaned fun _ =>
    BuildStep.change (.createDirectories o.target)
  have hdisk : (s.after (.removeTree o.target)).disk = (s.disk.removeTree o.target).1 := rfl
  have hmadeReady : o.makeReady = o.cleaning >>= fun _ => .change (.createDirectories o.target) := rfl
  rw [hmadeReady, hready, hresult, hstate]
  refine ⟨BuildStep.result_change_of_ok (congrArg Prod.snd (hdisk ▸ hmade)), ?_⟩
  have hafter : ((s.after (.removeTree o.target)).after (.createDirectories o.target)).disk =
    (s.disk.removeTree o.target).1.insert (place ++ [n]) .directory := congrArg Prod.fst hmade
  rw [BuildStep.state_change, hafter]
  refine ⟨hcwd.trans hagree.cwd, fun l => ?_, hd, ?_⟩
  · show ((s.disk.removeTree o.target).1.tree.insert (place ++ [n]) .directory).get? l = _
    rw [FileTree.get?_insert, hget, Disk.get?_without _ hne]
    by_cases heq : l = place ++ [n]
    · rw [if_pos ⟨heq, heq ▸ hne⟩, heq, FileTree.isDirectory_iff.1 hout.directory]
    rw [if_neg fun h => heq h.1]
    by_cases hpre : place ++ [n] <+: l
    · rw [if_pos hpre, h.empty l (FileTree.isBelow_iff.2 ⟨hpre, heq⟩)]
    · rw [if_neg hpre]
      exact hagree.apart hpre
  · exact ((Disk.Same.refl hs).removeTree o.target).2.right.insert hne .directory

/-- What a build does once its output is ready. -/
def BuildOptions.afterReady (o : BuildOptions) (formats : Formats) : BuildStep BuildReport :=
  o.gather formats >>= fun p => buildPages p.1 o.keepGoing o.pages ⟨[], p.2, []⟩

theorem steps_eq_afterReady (o : BuildOptions) (formats : Formats) :
    o.steps formats = o.makeReady >>= fun _ => o.afterReady formats := by
  rw [steps_eq_prepare, prepare_eq, bind_assoc]
  rfl

theorem makeReady_extensional (o : BuildOptions) : o.makeReady.Extensional :=
  (cleaning_extensional o).bind fun _ => .change _

theorem afterReady_extensional (o : BuildOptions) (formats : Formats) :
    (o.afterReady formats).Extensional :=
  .bind (.bind (copyDependencies_extensional _ _ _) fun _ =>
    .bind (indexArticles_extensional _ _) fun _ => .pure _) fun _ => buildPages_extensional _ _ _ _

theorem steps_extensional (o : BuildOptions) (formats : Formats) :
    (o.steps formats).Extensional := by
  rw [steps_eq_afterReady]
  exact (makeReady_extensional o).bind fun _ => afterReady_extensional o formats

theorem BuildStep.Extensional.distinct {α : Type} {x : BuildStep α} (hx : x.Extensional)
    (hs : s.disk.tree.Distinct) : (x s).1.disk.tree.Distinct :=
  (hx s s (.refl hs)).2.left

/-- What a build that gives a report has done: nothing changes once the output has been made ready but
what lies below it. -/
theorem build_agree {report : BuildReport} (hd : d.Sound)
    (hreport : (o.build formats d).2.result = .ok report)
    (hout : (o.makeReady ⟨d, []⟩).1.disk.LeadsTo o.target out)
    (hlinks : Disk.NoLinkBelow (o.makeReady ⟨d, []⟩).1.disk.tree out) :
    Disk.Agree out (o.makeReady ⟨d, []⟩).1.disk (o.build formats d).1 := by
  obtain ⟨b, copied, hprepare, -, hstate⟩ := exists_attempts_of_report o formats ⟨d, []⟩ hreport
  obtain ⟨out', hleads, hprepared⟩ := prepared_ready hd hprepare
  obtain rfl := hout.unique hleads
  obtain ⟨houtput, hagree, hready, -⟩ := hprepared hlinks
  rw [← houtput] at hready
  have hdisk : (o.build formats d).1 = _ := congrArg BuildState.disk hstate
  rw [hdisk]
  exact hagree.trans (last_attempts_agree hready o.pages).1

/-- **A build that cleans** comes to the same again. -/
theorem build_renewed {report : BuildReport} (hd : d.Sound) (hdistinct : d.tree.Distinct)
    (hclean : o.clean = true) (hreport : (o.build formats d).2.result = .ok report)
    (hout : (o.makeReady ⟨d, []⟩).1.disk.LeadsTo o.target out)
    (h : o.Renews (o.makeReady ⟨d, []⟩).1.disk out) :
    (o.build formats (o.build formats d).1).2.result = .ok report ∧
      (o.build formats d).1.Same (o.build formats (o.build formats d).1).1 := by
  obtain ⟨b, copied, hprepare, -, -⟩ := exists_attempts_of_report o formats ⟨d, []⟩ hreport
  obtain ⟨hmade, -, -⟩ := prepare_of_ok hprepare
  have hfits := Disk.fits_of_createDirectories (makeReady_of_ok hmade).2.1
  have hagree := build_agree hd hreport hout h.noLink
  have hready := (makeReady_extensional o).distinct (s := ⟨d, []⟩) hdistinct
  have hlast : (o.build formats d).1.tree.Distinct :=
    (steps_extensional o formats).distinct (s := ⟨d, []⟩) hdistinct
  obtain ⟨hagain, hsame⟩ := makeReady_again (s := ⟨(o.build formats d).1, []⟩) h hclean hout
    hfits hagree hready hlast
  obtain ⟨hresult, hdisks⟩ := afterReady_extensional o formats _ _ hsame
  obtain ⟨hstate, hreported⟩ := BuildStep.bind_of_ok hmade fun _ => o.afterReady formats
  obtain ⟨hstate', hreported'⟩ := BuildStep.bind_of_ok hagain fun _ => o.afterReady formats
  rw [← steps_eq_afterReady] at hstate hreported hstate' hreported'
  constructor
  · exact hreported'.trans (hresult.trans (hreported.symm.trans hreport))
  · show (o.steps formats ⟨d, []⟩).1.disk.Same
      (o.steps formats ⟨(o.build formats d).1, []⟩).1.disk
    rw [hstate, hstate']
    exact hdisks

end

end StaticSite
