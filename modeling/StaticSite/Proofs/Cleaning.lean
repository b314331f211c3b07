import StaticSite.Formats
import StaticSite.Proofs.Steps
import StaticSite.Proofs.Survival

/-!
What a build takes away.

Only cleaning removes anything, before all else that a build does. A directory that holds the root as
the two are spelled is not removed; what is removed is where the path of the output leads. Proved
here, for every build and every disk:

* `cleanOutput_refused`, `cleanOutput_removed`, `cleanOutput_state`: what cleaning comes to;
* `build_keeps`: what does not lie in the output that is cleaned is still there after the build;
* `cleaning_empties`: the place that is cleaned is emptied, whatever lies there;
* `build_clean`: so a build spares the site where the output is given by names that are no links,
  and it refuses to clean what holds the root as it is spelled;
* `root_cleaned_by_detour`: but the root is removed where the output leads to it by another spelling.
-/

namespace StaticSite

/-! ## Cleaning -/

/-- A look at whether the output is there. -/
theorem result_look_exists {output : Path} {s : BuildState} {found : Bool}
    (h : s.disk.pathExists output = found) :
    (BuildStep.look (fun d => .ok (d.pathExists output)) s).2.result = .ok found :=
  congrArg Except.ok h

theorem cleanOutput_refused {root output : Path} {s : BuildState}
    (hfound : s.disk.pathExists output = true) (hspelled : root.startsWith output = true) :
    (cleanOutput root output s).1 = s ∧
      (cleanOutput root output s).2.result = .error (.invalidPath output .holdsRoot) := by
  unfold cleanOutput
  rw [(BuildStep.bind_of_ok (result_look_exists hfound) _).1,
    (BuildStep.bind_of_ok (result_look_exists hfound) _).2, if_pos rfl, if_pos hspelled]
  exact ⟨rfl, rfl⟩

theorem cleanOutput_removed {root output : Path} {s : BuildState}
    (hfound : s.disk.pathExists output = true) (hspelled : root.startsWith output = false) :
    (cleanOutput root output s).1 = s.after (.removeTree output) := by
  unfold cleanOutput
  rw [(BuildStep.bind_of_ok (result_look_exists hfound) _).1, if_pos rfl, if_neg (by simp [hspelled])]
  rfl

theorem cleanOutput_state (root output : Path) (s : BuildState) :
    (cleanOutput root output s).1 = s ∨
      s.disk.pathExists output = true ∧ root.startsWith output = false ∧
        (cleanOutput root output s).1 = s.after (.removeTree output) := by
  cases hfound : s.disk.pathExists output with
  | false =>
    refine .inl ?_
    unfold cleanOutput
    rw [(BuildStep.bind_of_ok (result_look_exists hfound) _).1, if_neg Bool.false_ne_true]
    rfl
  | true =>
    cases hspelled : root.startsWith output with
    | true => exact .inl (cleanOutput_refused hfound hspelled).1
    | false => exact .inr ⟨rfl, rfl, cleanOutput_removed hfound hspelled⟩

/-! ## What a build keeps -/

/-- A build removes the tree at a place: the output is there and leads to it, and it does not hold
the root as the two are spelled. -/
structure BuildOptions.Cleans (o : BuildOptions) (d : Disk) (top : Location) : Prop where
  clean : o.clean = true
  found : d.pathExists o.target = true
  spelled : o.root.startsWith o.target = false
  place : d.locate ⟨false, false⟩ o.target = .ok top

theorem afterCleaning_keeps (o : BuildOptions) (formats : Formats) (s : BuildState) :
    s.disk.tree.Keeps (o.afterCleaning formats s).1.disk.tree := by
  have hchanges : OutputChanges o (fun _ => True) (fun _ => True) (·.isRemoval = false) :=
    { kept := fun _ _ _ _ => trivial
      directory := rfl
      start := fun _ _ _ _ => trivial
      dependencies :=
        ⟨fun _ _ _ _ _ _ _ => trivial, fun _ _ _ => rfl, fun _ _ _ _ _ => rfl, fun _ _ _ => rfl⟩
      pages := fun _ _ => ⟨fun _ _ _ => rfl, fun _ _ _ _ _ _ _ => rfl⟩ }
  have hleads := afterCleaning_makes hchanges formats s trivial
  refine hleads.invariant (I := fun t => s.disk.tree.Keeps t.disk.tree) (.refl _) ?_
  intro t c hc hkept
  exact hkept.trans (apply_keeps hc t.disk)

/-- What is there once the output has been cleaned is there at the end. -/
theorem cleaning_keeps (o : BuildOptions) (formats : Formats) (d : Disk) :
    (o.cleaning ⟨d, []⟩).1.disk.tree.Keeps (o.build formats d).1.tree := by
  show FileTree.Keeps _ (o.steps formats ⟨d, []⟩).1.disk.tree
  rw [steps_eq]
  cases hresult : (o.cleaning ⟨d, []⟩).2.result with
  | error e =>
    rw [(BuildStep.bind_of_error hresult _).1]
    exact .refl _
  | ok _ =>
    rw [(BuildStep.bind_of_ok hresult _).1]
    exact afterCleaning_keeps o formats _

/-- Cleaning leaves the disk as it is, or it removes one tree. -/
theorem cleaning_disk (o : BuildOptions) (d : Disk) :
    (o.cleaning ⟨d, []⟩).1.disk = d ∨ ∃ top, o.Cleans d top ∧
      (o.cleaning ⟨d, []⟩).1.disk = (d.removeTree o.target).1 := by
  unfold BuildOptions.cleaning
  cases hclean : o.clean with
  | false => exact .inl rfl
  | true =>
    rw [if_pos rfl]
    rcases cleanOutput_state o.root o.target ⟨d, []⟩ with h | ⟨hfound, hspelled, h⟩
    · exact .inl (congrArg BuildState.disk h)
    · rw [h]
      show (d.removeTree o.target).1 = d ∨ _
      cases hplace : d.locate ⟨false, false⟩ o.target with
      | error e =>
        refine .inl ?_
        unfold Disk.removeTree
        rw [hplace]
      | ok top => exact .inr ⟨top, ⟨hclean, hfound, hspelled, hplace⟩, rfl⟩

theorem build_keeps (o : BuildOptions) (formats : Formats) (d : Disk) {loc : Location} {kind : Bool}
    (h : d.tree.kind? loc = some kind) :
    (o.build formats d).1.tree.kind? loc = some kind ∨ ∃ top, o.Cleans d top ∧ top <+: loc := by
  rcases cleaning_disk o d with hd | ⟨top, hcleans, hd⟩
  · refine .inl (cleaning_keeps o formats d loc kind ?_)
    rwa [hd]
  · by_cases hloc : top <+: loc
    · exact .inr ⟨top, hcleans, hloc⟩
    · refine .inl (cleaning_keeps o formats d loc kind ?_)
      unfold FileTree.kind? at h ⊢
      rw [hd, Disk.get?_removeTree hcleans.place hloc]
      exact h

/-- The one place that a build removes a tree at is emptied, whatever lies there. -/
theorem cleaning_empties {o : BuildOptions} {d : Disk} {top loc : Location} (h : o.Cleans d top)
    (htop : d.tree.get? top = some .directory) (hloc : top <+: loc) (hne : loc ≠ top) :
    (o.cleaning ⟨d, []⟩).1.disk.tree.get? loc = none := by
  have hremoved : (cleanOutput o.root o.target ⟨d, []⟩).1 = _ :=
    cleanOutput_removed h.found h.spelled
  unfold BuildOptions.cleaning
  rw [h.clean, if_pos rfl, hremoved]
  exact Disk.get?_removeTree_below h.place htop hloc hne

/-- **Cleaning.** A build that is to clean a directory which holds the root, as the two are spelled,
refuses to and leaves the disk as it is. Else what it takes away lies where the path of the output
leads, and that place is emptied whatever it holds. So where the output is given by names that are no
links, nothing but the output is taken away: not the root, nor anything else in it. -/
theorem build_clean (o : BuildOptions) (formats : Formats) (d : Disk) :
    (o.clean = true → d.pathExists o.target = true → o.root.startsWith o.target = true →
      (o.build formats d).1 = d ∧
      (o.build formats d).2.result = .error (.invalidPath o.target .holdsRoot)) ∧
    (∀ loc kind, d.tree.kind? loc = some kind →
      (o.build formats d).1.tree.kind? loc = some kind ∨ ∃ top, o.Cleans d top ∧ top <+: loc) ∧
    (∀ top, o.Cleans d top → d.tree.get? top = some .directory → ∀ loc, top <+: loc → loc ≠ top →
      (o.cleaning ⟨d, []⟩).1.disk.tree.get? loc = none) ∧
    (∀ site names, d.locate ⟨true, false⟩ o.root = .ok site →
      Path.siteNames o.output.components = .ok names → d.tree.NoLink site names →
      ∀ loc kind, d.tree.kind? loc = some kind → ¬ site ++ names <+: loc →
        (o.build formats d).1.tree.kind? loc = some kind) := by
  refine ⟨fun hclean hfound hspelled => ?_, fun loc kind h => build_keeps o formats d h,
    fun top h htop loc hloc hne => cleaning_empties h htop hloc hne, ?_⟩
  · have hcleaning : o.cleaning = cleanOutput o.root o.target := by
      unfold BuildOptions.cleaning
      rw [hclean, if_pos rfl]
    have hrefused : (cleanOutput o.root o.target ⟨d, []⟩).1 = ⟨d, []⟩ ∧
        (cleanOutput o.root o.target ⟨d, []⟩).2.result = .error (.invalidPath o.target .holdsRoot) :=
      cleanOutput_refused hfound hspelled
    show (o.steps formats ⟨d, []⟩).1.disk = d ∧ (o.steps formats ⟨d, []⟩).2.result = _
    rw [steps_eq, hcleaning, (BuildStep.bind_of_error hrefused.2 _).1,
      (BuildStep.bind_of_error hrefused.2 _).2, hrefused.1]
    exact ⟨rfl, rfl⟩
  · intro site names hroot hnames hlinks loc kind h hloc
    refine (build_keeps o formats d h).resolve_right ?_
    rintro ⟨top, hcleans, htop⟩
    rw [Disk.locate_join hroot hnames hlinks hcleans.place] at htop
    exact hloc htop

/-- A site of one page, with what an earlier build left. -/
def staleDisk : Disk :=
  ⟨⟨[(["site"], .directory), (["site", "index.html"], .file "p".toUTF8),
    (["site", "out"], .directory), (["site", "out", "old.html"], .file "q".toUTF8)]⟩, []⟩

/-- A build that is to clean its output. -/
def cleanInto (output : String) : BuildOptions :=
  { root := ⟨"site"⟩, output := ⟨output⟩, clean := true }

/-- An output spelled as the root itself is refused, and one below it is cleaned. -/
theorem clean_build_of_stale :
    ((cleanInto ".").build .standard staleDisk).1 = staleDisk ∧
    ((cleanInto "out").cleaning ⟨staleDisk, []⟩).1.disk.tree.get? ["site", "out", "old.html"] =
      none ∧
    ((cleanInto "out").build .standard staleDisk).1.tree.kind? ["site", "index.html"] =
      some false := by
  obtain ⟨hrefused, -, -, -⟩ := build_clean (cleanInto ".") .standard staleDisk
  obtain ⟨-, -, hempties, hspares⟩ := build_clean (cleanInto "out") .standard staleDisk
  have hout : staleDisk.tree.get? ["site", "out"] = some .directory := by decide +kernel
  have hnolink : staleDisk.tree.NoLink ["site"] ["out"] :=
    ⟨fun _ h => (nomatch hout.symm.trans h), trivial⟩
  refine ⟨(hrefused rfl (by decide +kernel) (by decide +kernel)).1, ?_, ?_⟩
  · exact hempties ["site", "out"] ⟨rfl, by decide +kernel, by decide +kernel, by decide +kernel⟩
      hout _ (by decide) (by decide)
  · exact hspares ["site"] ["out"] (by decide +kernel) (by decide +kernel) hnolink _ _
      (by decide +kernel) (by decide)

/-- **The guard.** It compares spellings. A build whose output leads to the root by way of the
directory above removes the site. -/
theorem root_cleaned_by_detour :
    ¬ ∀ (o : BuildOptions) (formats : Formats) (d : Disk) (site top : Location), o.clean = true →
      d.locate ⟨true, false⟩ o.root = .ok site → d.locate ⟨true, false⟩ o.target = .ok top →
      top <+: site →
        (o.build formats d).1 = d ∧
        (o.build formats d).2.result = .error (.invalidPath o.target .holdsRoot) := by
  intro h
  have hsame := (h (cleanInto "../site") .standard staleDisk ["site"] ["site"] rfl
    (by decide +kernel) (by decide +kernel) List.prefix_rfl).1
  have hgone : ((cleanInto "../site").build .standard staleDisk).1.tree.get?
      ["site", "index.html"] = none := by
    decide +kernel
  rw [hsame] at hgone
  cases hgone

end StaticSite
