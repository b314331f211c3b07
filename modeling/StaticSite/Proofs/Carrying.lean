import StaticSite.Proofs.Reaching
import StaticSite.Proofs.Redoing

/-!
Copies that succeed.

A dependency is copied while the walk through it goes on, so what is read may hang on what has been
copied. Proved here, for every build and every disk:

* `copyFile_copies`: what is read of a file does not hang on the file that it is copied to;
* `accepts_of_copied`: the path of what has been copied can be followed;
* `copyInto_eq_carry_end`: a directory outside the output keeps its names while what is in it is copied;
* `copy_eq_carry_end`: so a copy that succeeds does as if all that is reached on the disk it leaves had
  been listed before, by induction on its levels.
-/

namespace StaticSite

open StaticSite.Path (IsName)
open Disk (Agree Housed Below)

/-! ## Files that have been copied -/

namespace Disk

variable {d : Disk} {p q source : Path} {out loc : Location} {names : List String} {bytes : ByteArray}

theorem readBytes_eq_ok (h : d.readBytes p = .ok bytes) :
    ∃ loc, d.locate ⟨true, false⟩ p = .ok loc ∧ d.tree.get? loc = some (.file bytes) := by
  obtain ⟨loc, hlocate, h⟩ := Logged.except_bind_eq_ok h
  split at h
  · next found hget =>
    obtain rfl := Except.ok.inj h
    exact ⟨loc, hlocate, hget⟩
  · cases h
  · cases h

theorem copyFile_reads (h : (d.copyFile source p).2 = .ok ()) :
    ∃ bytes, d.readBytes source = .ok bytes := by
  rcases copyFile_cases d source p with ⟨e, hd⟩ | ⟨first, -, hread, -, -⟩
  · rw [hd] at h
    cases h
  · exact ⟨first, hread⟩

theorem createDirectories_made (hd : d.Ready q out) (hp : Below q names p)
    (hok : (d.createDirectories p).2 = .ok ()) :
    p.Fits ∧ (∀ n ∈ names, n.utf8ByteSize ≤ maxNameBytes) ∧
      (d.createDirectories p).1.tree.get? (out ++ names) = some .directory := by
  have hfits := fits_of_createDirectories hok
  rw [createDirectories_below hd.leads hd.noLink hd.housed hp hfits] at hok ⊢
  have hclear := makeDown_clear hd.leads.directory hok
  exact ⟨hfits, hclear.short, FileTree.isDirectory_iff.1 (hclear.directory names List.prefix_rfl)⟩

/-- What is read does not hang on the file that it is copied to. -/
theorem copyFile_copies (hd : d.Ready q out) (hp : Below q names p) (hne : names ≠ [])
    (hsource : FileTree.isBelow out (d.lastPlace source) = false)
    (hread : d.readBytes source = .ok bytes) (hok : (d.copyFile source p).2 = .ok ()) :
    p.Fits ∧ (∀ n ∈ names, n.utf8ByteSize ≤ maxNameBytes) ∧
      ∀ l, (d.copyFile source p).1.tree.get? l =
        if l = out ++ names then some (.file bytes) else d.tree.get? l := by
  obtain ⟨bytes', hread', hfits, hshort, hget⟩ := copyFile_eq_ok hd hp hne hok
  rw [readBytes_agree (copyFile_emptied hd hp hne hok) hsource, hread] at hread'
  rw [Except.ok.inj hread']
  exact ⟨hfits, hshort, hget⟩

/-- What is there below a directory is found by its path. -/
theorem locate_below (hd : d.Ready q out) (hp : Below q names p) (hne : names ≠ []) (hfits : p.Fits)
    (hshort : ∀ n ∈ names, n.utf8ByteSize ≤ maxNameBytes)
    (hget : (d.tree.get? (out ++ names)).isSome = true) (r : Reach) :
    d.locate r p = .ok (out ++ names) := by
  rw [locate_down hd.leads hd.noLink hp.components hne (hp.tidy hne) hfits]
  exact descend_of_get? hd.housed r.free hshort hget

end Disk

/-! ## Copies that succeed -/

theorem BuildStep.change_bind_eq_ok {β : Type} {c : DiskChange} {f : Unit → BuildStep β}
    {t : BuildState} {b : β} (h : ((change c >>= f) t).2.result = .ok b) :
    (c.apply t.disk).2 = .ok () ∧ ((change c >>= f) t).1 = (f () (t.after c)).1 ∧
      (f () (t.after c)).2.result = .ok b := by
  obtain ⟨a, ha, hstate, hresult⟩ := bind_eq_ok h
  refine ⟨?_, hstate, hresult⟩
  cases happly : (c.apply t.disk).2 with
  | ok _ => rfl
  | error e => cases (result_change_of_error happly).symm.trans ha

namespace CopyPlan

variable {plan : CopyPlan} {p : Path} {entry : Entry} {t : BuildState}

theorem place_directory_eq_ok {n : Nat} (hok : (plan.place p .directory t).2.result = .ok n) :
    n = 0 ∧ (t.disk.createDirectories (plan.target p)).2 = .ok () ∧
      (plan.place p .directory t).1 = t.after (.createDirectories (plan.target p)) := by
  rw [place_directory] at hok ⊢
  obtain ⟨happly, hstate, hresult⟩ := BuildStep.change_bind_eq_ok hok
  exact ⟨(Except.ok.inj hresult).symm, happly, hstate⟩

theorem place_other {above : Path} (hentry : entry ≠ .directory)
    (habove : (plan.target p).parent? = some above) :
    plan.place p entry = BuildStep.change (.createDirectories above) >>= fun _ =>
      BuildStep.change (.copyFile p (plan.target p)) >>= fun _ =>
        BuildStep.record .debug ("copied " ++ (plan.relative p).text) >>= fun _ => pure 1 := by
  cases entry with
  | directory => exact absurd rfl hentry
  | file bytes | link target =>
    unfold place
    rw [habove]

theorem place_other_eq_ok {n : Nat} {above : Path} (hentry : entry ≠ .directory)
    (habove : (plan.target p).parent? = some above)
    (hok : (plan.place p entry t).2.result = .ok n) :
    n = 1 ∧
      ((t.after (.createDirectories above)).disk.copyFile p (plan.target p)).2 = .ok () ∧
      (plan.place p entry t).1 =
        (t.after (.createDirectories above)).after (.copyFile p (plan.target p)) := by
  rw [place_other hentry habove] at hok ⊢
  obtain ⟨-, hstate, hok⟩ := BuildStep.change_bind_eq_ok hok
  rw [hstate]
  obtain ⟨hcopied, hstate, hok⟩ := BuildStep.change_bind_eq_ok hok
  rw [hstate]
  exact ⟨(Except.ok.inj hok).symm, hcopied, rfl⟩

end CopyPlan

section

variable {o : BuildOptions} {s t w : BuildState} {out : Location} {p : Path} {n : Nat}

theorem copies_keep (ht : s.Leads o.Copies t) : s.disk.tree.Keeps t.disk.tree :=
  ht.invariant (I := fun t => s.disk.tree.Keeps t.disk.tree) (.refl _) fun _ c hc hkept =>
    hkept.trans (apply_keeps (by cases hc <;> rfl) _)

theorem ready_of_leads (hs : s.disk.Ready o.target out) (ht : s.Leads o.Copies t) :
    Agree out s.disk t.disk ∧ t.disk.Ready o.target out := by
  obtain ⟨hagree, hhoused⟩ := copying_agree hs.leads hs.noLink hs.housed ht
  exact ⟨hagree, hs.agree hagree hhoused⟩

/-- Copying makes changes of its kind where names are single components. -/
abbrev BuildOptions.Copying (o : BuildOptions) (x : BuildStep Nat) : Prop :=
  BuildStep.Makes (fun d => d.tree.Named) o.Copies x

theorem copying_copy (levels : Nat) (chain : WalkChain) (hp : o.Meets p) :
    o.Copying (o.copyPlan.copy levels chain p) :=
  BuildStep.copy_makes (fun _ c _ hd => apply_named hd c) (copyChanges_copies o) levels chain hp

theorem copyEach_eq_carry_end {copy : Path → BuildStep Nat} {found : Path → Findings} {ps : List Path}
    (hcopying : ∀ q ∈ ps, o.Copying (copy q))
    (hcopy : ∀ q ∈ ps, ∀ t n, s.Leads o.Copies t → (copy q t).2.result = .ok n →
      (copy q t).1.Leads o.Copies w → copy q t = o.copyPlan.carry (found q) t)
    (hs : s.disk.tree.Named) (ht : s.Leads o.Copies t)
    (hok : (copyEach copy ps t).2.result = .ok n) (hw : (copyEach copy ps t).1.Leads o.Copies w) :
    copyEach copy ps t = o.copyPlan.carry (ps.flatMap found) t := by
  induction ps generalizing t n with
  | nil => rfl
  | cons q ps ih =>
    have hrest := fun q hq => hcopying q (List.mem_cons_of_mem _ hq)
    rw [copyEach] at hok hw
    obtain ⟨a, ha, hstate, hok⟩ := BuildStep.bind_eq_ok hok
    obtain ⟨b, hb, hstate', -⟩ := BuildStep.bind_eq_ok hok
    have hq := hcopying q List.mem_cons_self t (leads_named hs ht)
    have hnamed := leads_named hs (ht.trans hq)
    have hw' : (copyEach copy ps (copy q t).1).1.Leads o.Copies w := by
      rw [hstate, hstate'] at hw
      exact hw
    have hps := BuildStep.copyEach_makes (fun _ c _ hd => apply_named hd c) hrest (copy q t).1 hnamed
    rw [copyEach, List.flatMap_cons, CopyPlan.carry_append]
    refine BuildStep.bind_congr_at (hcopy q List.mem_cons_self t a ht ha (hps.trans hw')) ?_
    intro a' ha'
    refine BuildStep.bind_congr_at (ih hrest ?_ (ht.trans hq) hb hw') fun _ _ => rfl
    exact fun q hq => hcopy q (List.mem_cons_of_mem _ hq)

/-- What is in a directory outside the output has its names when its turn comes, and keeps them. -/
theorem copyInto_eq_carry_end {levels : Nat} {chain : WalkChain} {loc : Location}
    (hs : s.disk.Ready o.target out) (hnamed : s.disk.tree.Named) (hp : o.Meets p)
    (ht : s.Leads o.Copies t) (hloc : ¬ out <+: loc)
    (hok : (o.copyPlan.copyInto levels chain p loc t).2.result = .ok n)
    (hw : (o.copyPlan.copyInto levels chain p loc t).1.Leads o.Copies w)
    (hcopy : ∀ m ∈ w.disk.tree.names loc, IsName m → ∀ u k, s.Leads o.Copies u →
      (o.copyPlan.copy levels ((loc, p) :: chain) (p.join ⟨m⟩) u).2.result = .ok k →
      (o.copyPlan.copy levels ((loc, p) :: chain) (p.join ⟨m⟩) u).1.Leads o.Copies w →
        o.copyPlan.copy levels ((loc, p) :: chain) (p.join ⟨m⟩) u =
          o.copyPlan.carry (o.copyPlan.survey w.disk levels ((loc, p) :: chain) (p.join ⟨m⟩)) u) :
    o.copyPlan.copyInto levels chain p loc t =
      o.copyPlan.carry ((w.disk.tree.names loc).flatMap fun m =>
        o.copyPlan.survey w.disk levels ((loc, p) :: chain) (p.join ⟨m⟩)) t := by
  unfold CopyPlan.copyInto at hok hw ⊢
  have hname {m : String} (hm : m ∈ t.disk.tree.names loc) : IsName m :=
    (leads_named hnamed ht).isName_of_mem_names hm
  have hcopying : ∀ q ∈ (t.disk.tree.names loc).map fun m => p.join ⟨m⟩,
      o.Copying (o.copyPlan.copy levels ((loc, p) :: chain) q) := by
    intro q hq
    obtain ⟨m, hm, rfl⟩ := List.mem_map.1 hq
    exact copying_copy levels _ (hp.into (hname hm))
  have htw : t.Leads o.Copies w := (BuildStep.copyEach_makes (fun _ c _ hd => apply_named hd c)
    hcopying t (leads_named hnamed ht)).trans hw
  have hnames := (ready_of_leads (ready_of_leads hs ht).2 htw).1.names loc hloc
  rw [hnames] at hcopy ⊢
  rw [← List.flatMap_map]
  refine copyEach_eq_carry_end hcopying (fun q hq u k hu hcopied hleads => ?_) hnamed ht hok hw
  obtain ⟨m, hm, rfl⟩ := List.mem_map.1 hq
  exact hcopy m hm (hname hm) u k hu hcopied hleads

theorem exists_above_target (hp : o.Meets p) : ∃ above, (o.copyPlan.target p).parent? = some above := by
  obtain ⟨relative, hr, htarget⟩ := target_met hp
  obtain ⟨names, hne, hbelow⟩ := target_below hp hr
  obtain ⟨above, habove, -⟩ := hbelow.exists_above hne
  exact ⟨above, htarget ▸ habove⟩

/-- A directory that has been copied was opened. -/
theorem opened_of_copied {levels : Nat} {chain : WalkChain} {loc : Location}
    (hvisit : t.disk.visit chain p = .ok (loc, .directory))
    (hstarts : p.startsWith o.copyPlan.output = false)
    (hok : (o.copyPlan.copy (levels + 1) chain p t).2.result = .ok n) :
    ∃ dir, t.disk.openDirectory p = .ok dir := by
  rw [CopyPlan.copy_directory hvisit hstarts] at hok
  obtain ⟨-, -, hok⟩ := BuildStep.change_bind_eq_ok hok
  cases hopen : t.disk.openDirectory p with
  | error e =>
    rw [hopen] at hok
    cases hok
  | ok dir => exact ⟨dir, rfl⟩

/-- The path of what has been copied is one that the system follows. -/
theorem accepts_of_copied {levels : Nat} {chain : WalkChain} {loc : Location} {e : Entry}
    (hs : s.disk.Ready o.target out) (hnamed : s.disk.tree.Named) (hp : o.Meets p)
    (ht : s.Leads o.Copies t) (hvisit : t.disk.visit chain p = .ok (loc, e))
    (hstarts : p.startsWith o.copyPlan.output = false)
    (hok : (o.copyPlan.copy (levels + 1) chain p t).2.result = .ok n)
    (hw : (o.copyPlan.copy (levels + 1) chain p t).1.Leads o.Copies w) : w.disk.Accepts p := by
  have hlater {u : BuildState} {loc : Location} (hu : s.Leads o.Copies u) (huw : u.Leads o.Copies w)
      (hlocate : u.disk.locate ⟨true, false⟩ p = .ok loc) : w.disk.Accepts p := by
    obtain ⟨hagree, -⟩ := ready_of_leads (ready_of_leads hs hu).2 huw
    exact (Disk.locate_eq_ok_iff.1 hlocate).1.mono hagree.directories hagree.cwd
  by_cases hentry : e = .directory
  · obtain rfl := hentry
    obtain ⟨dir, hopen⟩ := opened_of_copied hvisit hstarts hok
    have hcopy := copying_copy (levels + 1) chain hp t (leads_named hnamed ht)
    exact hlater ht (hcopy.trans hw) (Disk.openDirectory_eq_ok_iff.1 hopen).1
  · rw [CopyPlan.copy_other hvisit hstarts hentry] at hok hw
    obtain ⟨above, habove⟩ := exists_above_target hp
    obtain ⟨-, hcopied, hstate⟩ := CopyPlan.place_other_eq_ok hentry habove hok
    have hparent := (copyChanges_copies o).parent p above hp hstarts habove
    have hfile := (copyChanges_copies o).file p hp hstarts
    obtain ⟨bytes, hread⟩ := Disk.copyFile_reads hcopied
    obtain ⟨found, hlocate, -⟩ := Disk.readBytes_eq_ok hread
    rw [hstate] at hw
    exact hlater (ht.change hparent) (.trans (.change .refl hfile) hw) hlocate

/-- **Copying** that succeeds does as if all that is reached on a disk that it leads to had been listed
before. -/
theorem copy_eq_carry_end (hs : s.disk.Ready o.target out) (hnamed : s.disk.tree.Named)
    (levels : Nat) (chain : WalkChain) (hp : o.Meets p) (ht : s.Leads o.Copies t)
    (hok : (o.copyPlan.copy levels chain p t).2.result = .ok n)
    (hw : (o.copyPlan.copy levels chain p t).1.Leads o.Copies w)
    (houtside : ∀ q loc e, (q, .ok (loc, e)) ∈ o.copyPlan.survey w.disk levels chain p →
      w.disk.Accepts q → ¬ out <+: loc) :
    o.copyPlan.copy levels chain p t =
      o.copyPlan.carry (o.copyPlan.survey w.disk levels chain p) t := by
  induction levels generalizing chain p t n with
  | zero => rfl
  | succ levels ih =>
    have htw : t.Leads o.Copies w :=
      (copying_copy (levels + 1) chain hp t (leads_named hnamed ht)).trans hw
    obtain ⟨hagree, -⟩ := ready_of_leads (ready_of_leads hs ht).2 htw
    cases hvisit : t.disk.visit chain p with
    | error e =>
      rw [CopyPlan.copy_lost hvisit] at hok
      cases hok
    | ok found =>
      obtain ⟨loc, entry⟩ := found
      obtain ⟨e', hvisit', hget'⟩ := Disk.visit_kept hagree (copies_keep htw) hvisit
      cases hstarts : p.startsWith o.copyPlan.output with
      | true =>
        rw [CopyPlan.copy_passed hvisit hstarts, CopyPlan.survey_passed hvisit' hstarts]
        rfl
      | false =>
        rw [CopyPlan.survey_found hvisit' hstarts] at houtside ⊢
        have haccepts := accepts_of_copied hs hnamed hp ht hvisit hstarts hok hw
        have hloc : ¬ out <+: loc := houtside p loc e' List.mem_cons_self haccepts
        obtain rfl : e' = entry := by
          rw [hagree.apart hloc, (Disk.visit_eq_ok hvisit).2] at hget'
          exact (Option.some.inj hget').symm
        cases e' with
        | file bytes | link target =>
          rw [CopyPlan.copy_other hvisit hstarts (by rintro ⟨⟩)]
          exact (congrFun (CopyPlan.carry_single _ _ _ _) t).symm
        | directory =>
          obtain ⟨dir, hopen⟩ := opened_of_copied hvisit hstarts hok
          obtain rfl := Disk.openDirectory_of_visit hvisit hopen
          have hopen' := Disk.openDirectory_kept hagree (copies_keep htw) hopen
          rw [CopyPlan.copy_directory hvisit hstarts, hopen] at hok hw ⊢
          rw [CopyPlan.carry_directory]
          rw [hopen'] at houtside ⊢
          obtain ⟨-, hstate, hok⟩ := BuildStep.change_bind_eq_ok hok
          rw [hstate] at hw
          have hmade := (copyChanges_copies o).directory p hp hstarts
          refine BuildStep.bind_congr_at rfl fun _ _ => ?_
          rw [BuildStep.state_change]
          refine copyInto_eq_carry_end hs hnamed hp (ht.change hmade) hloc hok hw ?_
          intro m hm hname u k hu hcopied hleads
          refine ih _ (hp.into hname) hu hcopied hleads fun q' loc' e' hq' => ?_
          exact houtside q' loc' e' (List.mem_cons_of_mem _ (List.mem_flatMap.2 ⟨m, hm, hq'⟩))

end

end StaticSite
