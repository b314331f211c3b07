import StaticSite.Proofs.Carrying
import StaticSite.Proofs.Renewing

/-!
Dependencies as they lie in the output.

Each path that a walk reaches has one place in the output, at its names after the root. Proved here, for
every build and every disk:

* `place_placed`: what is copied is in its place, and nothing else has changed;
* `carry_placed`: so it is with all that is listed, by induction on the list, since no two paths of it
  have one place;
* `inside_of_startsWith`: what a walk passes over lies in the output;
* `dependency_mirrored`: so the output holds a copy of each directory and each file that is reached, and
  nothing else has changed.
-/

namespace StaticSite

open Disk (Agree Below)

section

variable {o : BuildOptions} {s t w : BuildState} {out : Location} {p : Path} {n : Nat}

/-! ## What is in its place -/

/-- Where the copy of a path lies: at its names after the root. -/
def BuildOptions.Lands (o : BuildOptions) (out : Location) (q : Path) (l : Location) : Prop :=
  ∃ names : List String, q.components = o.root.components ++ names.map .name ∧ l = out ++ names

theorem names_of_components {names names' : List String} {cs : List Path.Component}
    (h : cs ++ names.map .name = cs ++ names'.map .name) : names = names' :=
  List.map_injective_iff.2 (fun _ _ => Path.Component.name.inj) (List.append_cancel_left h)

theorem BuildOptions.Lands.apart {q : Path} {l l' : Location} (h : o.Lands out p l)
    (h' : o.Lands out q l') (hne : p.components ≠ q.components) : l ≠ l' := by
  obtain ⟨names, hp, rfl⟩ := h
  obtain ⟨names', hq, rfl⟩ := h'
  intro heq
  rw [List.append_cancel_left heq] at hp
  exact hne (hp.trans hq.symm)

theorem target_of_met (hp : o.Meets p) : ∃ names, names ≠ [] ∧
    p.components = o.root.components ++ names.map .name ∧
      o.copyPlan.target p = o.target.join (Path.ofComponents (names.map .name)) ∧
        Below o.target names (o.copyPlan.target p) := by
  obtain ⟨relative, hr, htarget⟩ := target_met hp
  obtain ⟨names, hne, hbelow⟩ := target_below hp hr
  obtain ⟨names', -, hall, hmet⟩ := components_met hp
  obtain rfl := Option.some.inj (hr.symm.trans (Path.relativeTo?_of_append hmet))
  have hsame := hbelow.components
  rw [Path.components_join_names (Path.components_ofComponents hall)] at hsame
  obtain rfl := names_of_components hsame
  exact ⟨names', hne, hmet, htarget, htarget ▸ hbelow⟩

/-- What a change leaves at a place: what there was, or a directory where there was nothing. -/
def Disk.MadeAt (d d' : Disk) (l : Location) : Prop :=
  d'.tree.get? l = d.tree.get? l ∨ d.tree.get? l = none ∧ d'.tree.get? l = some .directory

theorem Disk.MadeAt.trans {d d' d'' : Disk} {l : Location} (h : d.MadeAt d' l) (h' : d'.MadeAt d'' l) :
    d.MadeAt d'' l := by
  rcases h with hsame | ⟨hnone, hmade⟩
  · unfold MadeAt
    rw [← hsame]
    exact h'
  · rcases h' with hsame | ⟨hnone', -⟩
    · exact .inr ⟨hnone, hsame.trans hmade⟩
    · cases hmade.symm.trans hnone'

theorem Disk.MadeAt.kept {d d' : Disk} {l : Location} {e : Entry} (h : d.MadeAt d' l)
    (he : d.tree.get? l = some e) : d'.tree.get? l = some e := by
  rcases h with hsame | ⟨hnone, -⟩
  · exact hsame.trans he
  · cases hnone.symm.trans he

theorem Disk.MadeAt.file_iff {d d' : Disk} {l : Location} (h : d.MadeAt d' l) (bytes : ByteArray) :
    d'.tree.get? l = some (.file bytes) ↔ d.tree.get? l = some (.file bytes) := by
  rcases h with hsame | ⟨hnone, hmade⟩
  · rw [hsame]
  · simp [hnone, hmade]

theorem madeAt_createDirectories (d : Disk) (p : Path) (l : Location) :
    d.MadeAt (d.createDirectories p).1 l :=
  ((Disk.createDirectories_grown d p).entry l).imp_right fun ⟨hnone, hmade, _⟩ => ⟨hnone, hmade⟩

theorem disk_after_createDirectories (t : BuildState) (p : Path) :
    (t.after (.createDirectories p)).disk = (t.disk.createDirectories p).1 := rfl

theorem disk_after_copyFile (t : BuildState) (p q : Path) :
    (t.after (.copyFile p q)).disk = (t.disk.copyFile p q).1 := rfl

/-- What a path leads to is in its place in the output, where the path of its copy leads. -/
structure BuildOptions.Placed (o : BuildOptions) (out : Location) (d : Disk) (p : Path) (e : Entry)
    (names : List String) : Prop where
  spelled : p.components = o.root.components ++ names.map .name
  located : d.locate ⟨true, false⟩ (o.target.join (Path.ofComponents (names.map .name))) =
    .ok (out ++ names)
  entry : d.tree.get? (out ++ names) = some e

theorem BuildOptions.Placed.lands {d : Disk} {e : Entry} {names : List String}
    (h : o.Placed out d p e names) : o.Lands out p (out ++ names) := ⟨names, h.spelled, rfl⟩

/-- What a walk has found, as it is on a disk. It lies outside the output, if the system follows its
path. -/
structure BuildOptions.Found (o : BuildOptions) (out : Location) (d : Disk) (p : Path) (loc : Location)
    (e : Entry) : Prop where
  met : o.Meets p
  starts : p.startsWith o.target = false
  ends : d.lastPlace p = loc
  entry : d.tree.get? loc = some e
  outside : d.Accepts p → ¬ out <+: loc

/-- A file that has been copied is in its place: its path led there when it was read. -/
theorem copied_placed (ht : t.disk.Ready o.target out) {names : List String} (hne : names ≠ [])
    (hbelow : Below o.target names (o.copyPlan.target p)) {loc : Location} {e : Entry}
    (hc : o.Copies (.copyFile p (o.copyPlan.target p)))
    (hok : (t.disk.copyFile p (o.copyPlan.target p)).2 = .ok ())
    (hw : (t.after (.copyFile p (o.copyPlan.target p))).Leads o.Copies w)
    (hfound : o.Found out w.disk p loc e) : w.disk.Accepts p ∧
    ∃ bytes, e = .file bytes ∧ (o.copyPlan.target p).Fits ∧
      (∀ n ∈ names, n.utf8ByteSize ≤ Disk.maxNameBytes) ∧
      ∀ l, (t.disk.copyFile p (o.copyPlan.target p)).1.tree.get? l =
        if l = out ++ names then some (.file bytes) else t.disk.tree.get? l := by
  have htw : t.Leads o.Copies w := .trans (.change .refl hc) hw
  obtain ⟨hagree, -⟩ := ready_of_leads ht htw
  obtain ⟨bytes, hread⟩ := Disk.copyFile_reads hok
  obtain ⟨loc', hlocate, hfile⟩ := Disk.readBytes_eq_ok hread
  have hlocate' := Disk.locate_kept hagree (copies_keep htw) hlocate
  have haccepts := (Disk.locate_eq_ok_iff.1 hlocate').1
  have hout := hfound.outside haccepts
  obtain rfl : loc' = loc :=
    ((Disk.lastPlace_of_locate hlocate').resolve_right nofun).symm.trans hfound.ends
  have hget := hfound.entry
  rw [hagree.apart hout, hfile] at hget
  refine ⟨haccepts, bytes, (Option.some.inj hget).symm,
    Disk.copyFile_copies ht hbelow hne ?_ hread hok⟩
  rw [(Disk.lastPlace_of_locate hlocate).resolve_right nofun]
  exact FileTree.isBelow_of_not_prefix hout

/-- One thing that has been copied is in its place, and nothing else has changed. A file was read by its
path. -/
theorem place_placed (ht : t.disk.Ready o.target out) {loc : Location} {e : Entry}
    (hok : (o.copyPlan.place p e t).2.result = .ok n)
    (hw : (o.copyPlan.place p e t).1.Leads o.Copies w) (hfound : o.Found out w.disk p loc e) :
    n = (if e.isDirectory then 0 else 1) ∧ (∀ target, e ≠ .link target) ∧
      (e.isDirectory = false → w.disk.Accepts p) ∧ ∃ names, o.Placed out (o.copyPlan.place p e t).1.disk p e names ∧
        ∀ l, l ≠ out ++ names → t.disk.MadeAt (o.copyPlan.place p e t).1.disk l := by
  obtain ⟨names, hne, hspelled, hpath, hbelow⟩ := target_of_met hfound.met
  by_cases hentry : e = .directory
  · obtain rfl := hentry
    obtain ⟨hzero, hmade, hstate⟩ := CopyPlan.place_directory_eq_ok hok
    have hdirectory := (copyChanges_copies o).directory p hfound.met hfound.starts
    obtain ⟨-, hready⟩ := ready_of_leads ht (.change .refl hdirectory)
    rw [hstate]
    obtain ⟨hfits, hshort, hget⟩ := Disk.createDirectories_made ht hbelow hmade
    rw [← disk_after_createDirectories] at hget
    have hlocate := Disk.locate_below hready hbelow hne hfits hshort (by rw [hget]; rfl) ⟨true, false⟩
    refine ⟨hzero, nofun, nofun, names, ⟨hspelled, hpath ▸ hlocate, hget⟩, fun l _ => ?_⟩
    rw [disk_after_createDirectories]
    exact madeAt_createDirectories t.disk (o.copyPlan.target p) l
  · obtain ⟨above, habove⟩ := exists_above_target hfound.met
    obtain ⟨hone, hcopied, hstate⟩ := CopyPlan.place_other_eq_ok hentry habove hok
    have hparent := (copyChanges_copies o).parent p above hfound.met hfound.starts habove
    have hfile := (copyChanges_copies o).file p hfound.met hfound.starts
    rw [hstate] at hw ⊢
    obtain ⟨-, hu⟩ := ready_of_leads ht (.change .refl hparent)
    obtain ⟨-, hready⟩ := ready_of_leads hu (.change .refl hfile)
    obtain ⟨haccepts, bytes, rfl, hfits, hshort, hplaced⟩ :=
      copied_placed hu hne hbelow hfile hcopied hw hfound
    rw [← disk_after_copyFile] at hplaced
    have hget := (hplaced (out ++ names)).trans (if_pos rfl)
    have hlocate := Disk.locate_below hready hbelow hne hfits hshort (by rw [hget]; rfl) ⟨true, false⟩
    refine ⟨hone, nofun, fun _ => haccepts, names, ⟨hspelled, hpath ▸ hlocate, hget⟩, fun l hl => ?_⟩
    have hmade := madeAt_createDirectories t.disk above l
    unfold Disk.MadeAt
    rwa [hplaced l, if_neg hl, disk_after_createDirectories]

theorem place_makes (hp : o.Meets p) (hstarts : p.startsWith o.target = false) (e : Entry) :
    BuildStep.Makes (fun _ => True) o.Copies (o.copyPlan.place p e) := by
  have hchanges := copyChanges_copies o
  have hkept (d : Disk) (c : DiskChange) (_ : o.Copies c) (_ : True) : True := trivial
  by_cases hentry : e = .directory
  · obtain rfl := hentry
    rw [CopyPlan.place_directory]
    exact .bind hkept (.change (hchanges.directory p hp hstarts)) fun _ => .pure _
  · obtain ⟨above, habove⟩ := exists_above_target hp
    rw [CopyPlan.place_other hentry habove]
    exact .bind hkept (.change (hchanges.parent p above hp hstarts habove)) fun _ =>
      .bind hkept (.change (hchanges.file p hp hstarts)) fun _ =>
        .bind hkept (.record _ _) fun _ => .pure _

theorem carry_makes {found : Findings} (hfound : ∀ q loc e, (q, .ok (loc, e)) ∈ found →
      o.Meets q ∧ q.startsWith o.target = false) :
    BuildStep.Makes (fun _ => True) o.Copies (o.copyPlan.carry found) := by
  have hkept (d : Disk) (c : DiskChange) (_ : o.Copies c) (_ : True) : True := trivial
  induction found with
  | nil => exact .pure 0
  | cons first rest ih =>
    obtain ⟨p, result⟩ := first
    cases result with
    | error e => exact .fail _
    | ok found =>
      obtain ⟨loc, e⟩ := found
      obtain ⟨hp, hstarts⟩ := hfound p loc e List.mem_cons_self
      rw [CopyPlan.carry_ok]
      refine .bind hkept (place_makes hp hstarts e) fun _ => .bind hkept (ih ?_) fun _ => .pure _
      exact fun q loc e hq => hfound q loc e (List.mem_cons_of_mem _ hq)

/-- The paths of a list at which there is something else than a directory. -/
def Findings.files (found : Findings) : List Path :=
  (found.filter fun x => x.2.toOption.any fun r => !r.2.isDirectory).map Prod.fst

theorem Findings.files_cons (p : Path) (loc : Location) (e : Entry) (rest : Findings) :
    Findings.files ((p, .ok (loc, e)) :: rest) =
      if e.isDirectory then rest.files else p :: rest.files := by
  unfold files
  rw [List.filter_cons]
  cases e <;> rfl

theorem Findings.mem_files {found : Findings} {q : Path} :
    q ∈ found.files ↔ ∃ loc e, (q, .ok (loc, e)) ∈ found ∧ e.isDirectory = false := by
  unfold files
  constructor
  · intro h
    obtain ⟨⟨p, r⟩, hx, rfl⟩ := List.mem_map.1 h
    obtain ⟨hx, hnot⟩ := List.mem_filter.1 hx
    cases r with
    | error _ => cases hnot
    | ok found => exact ⟨found.1, found.2, hx, by simpa [Except.toOption] using hnot⟩
  · rintro ⟨loc, e, hx, hnot⟩
    exact List.mem_map.2 ⟨_, List.mem_filter.2 ⟨hx, by simpa [Except.toOption] using hnot⟩, rfl⟩

theorem Findings.nodup_files {found : Findings}
    (h : found.Pairwise fun x y => x.1.components ≠ y.1.components) : found.files.Nodup :=
  List.pairwise_map.2 ((h.filter _).imp fun hne heq => hne (congrArg Path.components heq))

/-- All that is listed has been copied, and nothing else has changed. -/
structure BuildOptions.Carried (o : BuildOptions) (out : Location) (found : Findings) (d d' : Disk)
    (n : Nat) : Prop where
  count : n = found.files.length
  placed : ∀ q loc e, (q, .ok (loc, e)) ∈ found →
    (∀ target, e ≠ .link target) ∧ ∃ names, o.Placed out d' q e names
  rest : ∀ l, (∀ q loc e, (q, .ok (loc, e)) ∈ found → ¬ o.Lands out q l) → d.MadeAt d' l

/-- Where carrying succeeds, all that is listed could be followed. -/
theorem carry_followed {plan : CopyPlan} {found : Findings}
    (hok : (plan.carry found t).2.result = .ok n) : ∀ x ∈ found, ∃ r, x.2 = .ok r := by
  induction found generalizing t n with
  | nil => exact nofun
  | cons first rest ih =>
    obtain ⟨p, result⟩ := first
    cases result with
    | error e => cases hok
    | ok found =>
      obtain ⟨loc, e⟩ := found
      rw [CopyPlan.carry_ok] at hok
      obtain ⟨a, -, -, hok⟩ := BuildStep.bind_eq_ok hok
      obtain ⟨b, hb, -, -⟩ := BuildStep.bind_eq_ok hok
      exact List.forall_mem_cons.2 ⟨⟨_, rfl⟩, ih hb⟩

/-- **Carrying** that succeeds puts all that is listed in its place, as what comes later is copied
to other places. The files that are listed were read by their paths. -/
theorem carry_placed {found : Findings} (ht : t.disk.Ready o.target out)
    (hfound : ∀ q loc e, (q, .ok (loc, e)) ∈ found → o.Found out w.disk q loc e)
    (hapart : found.Pairwise fun x y => x.1.components ≠ y.1.components)
    (hok : (o.copyPlan.carry found t).2.result = .ok n)
    (hw : (o.copyPlan.carry found t).1.Leads o.Copies w) :
    o.Carried out found t.disk (o.copyPlan.carry found t).1.disk n ∧
      ∀ q loc e, (q, .ok (loc, e)) ∈ found → e.isDirectory = false → w.disk.Accepts q := by
  induction found generalizing t n with
  | nil => exact ⟨⟨(Except.ok.inj hok).symm, nofun, fun _ _ => .inl rfl⟩, nofun⟩
  | cons first rest ih =>
    obtain ⟨p, result⟩ := first
    cases result with
    | error e => cases hok
    | ok found =>
      obtain ⟨loc, e⟩ := found
      obtain ⟨hlater, hapart⟩ := List.pairwise_cons.1 hapart
      have hp := hfound p loc e List.mem_cons_self
      have hrest := fun q loc e hq => hfound q loc e (List.mem_cons_of_mem _ hq)
      rw [CopyPlan.carry_ok] at hok hw ⊢
      obtain ⟨a, ha, hstate, hok⟩ := BuildStep.bind_eq_ok hok
      obtain ⟨b, hb, hstate', hsum⟩ := BuildStep.bind_eq_ok hok
      rw [hstate, hstate'] at hw ⊢
      have hu : t.Leads o.Copies (o.copyPlan.place p e t).1 := place_makes hp.met hp.starts e t trivial
      have hlast : (o.copyPlan.place p e t).1.Leads o.Copies
          (o.copyPlan.carry rest (o.copyPlan.place p e t).1).1 :=
        carry_makes (fun q loc e hq => ⟨(hrest q loc e hq).met, (hrest q loc e hq).starts⟩) _ trivial
      obtain ⟨hone, hlink, hread, names, hplaced, hothers⟩ := place_placed ht ha (hlast.trans hw) hp
      obtain ⟨-, hready⟩ := ready_of_leads ht hu
      obtain ⟨hagree, -⟩ := ready_of_leads hready hlast
      obtain ⟨⟨hcount, hcarried, hsame⟩, hreads⟩ := ih hready hrest hapart hb hw
      refine ⟨⟨?_, ?_, ?_⟩, ?_⟩
      · obtain rfl := Except.ok.inj hsum
        rw [Findings.files_cons, hone, hcount]
        cases e.isDirectory with
        | true => exact Nat.zero_add _
        | false => exact Nat.add_comm _ _
      · intro q loc' e' hq
        rcases List.mem_cons.1 hq with heq | hq
        · obtain ⟨rfl, hresult⟩ := Prod.mk.inj heq
          obtain ⟨rfl, rfl⟩ := Prod.mk.inj (Except.ok.inj hresult)
          refine ⟨hlink, names, hplaced.spelled,
            Disk.locate_kept hagree (copies_keep hlast) hplaced.located,
            (hsame _ fun q loc e hq hlands => ?_).kept hplaced.entry⟩
          exact hplaced.lands.apart hlands (hlater (q, .ok (loc, e)) hq) rfl
        · exact hcarried q loc' e' hq
      · intro l' hl'
        refine (hothers l' ?_).trans
          (hsame l' fun q loc e hq => hl' q loc e (List.mem_cons_of_mem _ hq))
        rintro rfl
        exact hl' p loc e List.mem_cons_self hplaced.lands
      · intro q loc' e' hq hnot
        rcases List.mem_cons.1 hq with heq | hq
        · obtain ⟨rfl, hresult⟩ := Prod.mk.inj heq
          obtain ⟨rfl, rfl⟩ := Prod.mk.inj (Except.ok.inj hresult)
          exact hread hnot
        · exact hreads q loc' e' hq hnot

/-! ## What is passed over -/

theorem tidy_met (hp : o.Meets p) : p.Tidy := by
  obtain ⟨dependency, -, relative, names, hrelative, hnames, rfl⟩ := hp
  have hstart := tidy_source o.root hrelative
  generalize o.root.join relative = source at hstart
  induction names generalizing source with
  | nil => exact hstart
  | cons m rest ih =>
    obtain ⟨hm, hrest⟩ := List.forall_mem_cons.1 hnames
    exact ih hrest _ (Path.tidy_join (Path.isAbsolute_name hm) (Path.tidy_name hm))

theorem place_of_descend {t : FileTree} {free : Bool} {loc l : Location} {names : List String}
    (h : Disk.descend t free loc names = .ok l) : l = loc ++ names := by
  induction names generalizing loc with
  | nil =>
    rw [List.append_nil]
    exact (Except.ok.inj h).symm
  | cons m rest ih =>
    unfold Disk.descend at h
    split at h
    · cases h
    · split at h
      · cases h
      · split at h
        · split at h
          · next hlast =>
            obtain rfl : rest = [] := List.isEmpty_iff.1 (Bool.and_eq_true_iff.1 hlast).1
            exact (Except.ok.inj h).symm
          · cases h
        · rw [ih h, List.append_assoc, List.singleton_append]

/-- What a walk passes over leads into the output, unless the root is spelled below the output. -/
theorem inside_of_startsWith {d : Disk} (hd : d.Ready o.target out)
    (hroot : o.root.startsWith o.target = false) (hp : o.Meets p)
    (hstarts : p.startsWith o.target = true) {loc : Location}
    (hloc : d.locate ⟨true, false⟩ p = .ok loc) : out <+: loc := by
  obtain ⟨haccepts, hwalk⟩ := Disk.locate_eq_ok_iff.1 hloc
  obtain ⟨names, -, -, hmet⟩ := components_met hp
  have hpre := Path.startsWith_iff.1 hstarts
  rw [hmet] at hpre
  rcases List.prefix_or_prefix_of_prefix hpre (List.prefix_append _ _) with habove | ⟨more, hmore⟩
  · rw [Path.startsWith_iff.2 habove] at hroot
    cases hroot
  · rw [← hmore, List.prefix_append_right_inj] at hpre
    obtain ⟨names', hnames'⟩ := hpre
    obtain ⟨pre, rest, rfl, rfl, rfl⟩ := List.append_eq_map_iff.1 hnames'
    have hdown : p.components = o.target.components ++ rest.map .name := by
      rw [hmet, ← hmore, List.map_append, List.append_assoc]
    by_cases hne : rest = []
    · have hsame : p.components = o.target.components := by
        rw [hdown, hne, List.map_nil, List.append_nil]
      obtain rfl := Except.ok.inj
        (hwalk.symm.trans (Disk.walk_eq_ok_iff.2 (hd.leads.congr hsame).walked))
      exact List.prefix_rfl
    · rw [Disk.locate_down hd.leads hd.noLink hdown hne (tidy_met hp)
        ⟨haccepts.noNull, haccepts.short⟩] at hloc
      exact ⟨rest, (place_of_descend hloc).symm⟩

/-! ## Dependencies -/

theorem copyDependency_eq_ok {root relative output : Path}
    (hok : (copyDependency root relative output t).2.result = .ok n) :
    ((CopyPlan.mk root output).copy Disk.maxPathBytes [] (root.join relative) t).2.result = .ok n ∧
      (copyDependency root relative output t).1 =
        ((CopyPlan.mk root output).copy Disk.maxPathBytes [] (root.join relative) t).1 := by
  unfold copyDependency at hok ⊢
  rw [BuildStep.look_ok_bind_run] at hok ⊢
  cases hfound : t.disk.pathExists (root.join relative) with
  | false =>
    rw [hfound] at hok
    cases hok
  | true =>
    rw [hfound] at hok
    obtain ⟨copied, hcopied, hstate, hok⟩ := BuildStep.bind_eq_ok hok
    obtain rfl : copied = n := Except.ok.inj hok
    exact ⟨hcopied, hstate⟩

/-- A dependency lies in the output as it does below the root, and nothing else has changed: what a
walk reaches has been copied, and so many files. -/
structure BuildOptions.Mirrored (o : BuildOptions) (out : Location) (source : Path) (d d' : Disk)
    (n : Nat) : Prop where
  /-- What there was at the start has been reached. -/
  reached : ∀ q loc e, d.Reaches o.target source q loc e → d'.Reaches o.target source q loc e
  /-- It is as it was at the start. -/
  same : ∀ q loc e, d'.Reaches o.target source q loc e → d.tree.get? loc = some e
  /-- It is a directory or a file, and it is in its place in the output. -/
  placed : ∀ q loc e, d'.Reaches o.target source q loc e →
    (∀ target, e ≠ .link target) ∧ ∃ names, o.Placed out d' q e names
  /-- Each file that is reached counts once. -/
  counted : ∃ files : List Path, files.Nodup ∧ files.length = n ∧
    ∀ q, q ∈ files ↔ ∃ loc bytes, d'.Reaches o.target source q loc (.file bytes)
  /-- What is passed over lies in the output. -/
  passed : o.root.startsWith o.target = false → ∀ p, o.Meets p → p.startsWith o.target = true →
    ∀ loc, d'.locate ⟨true, false⟩ p = .ok loc → out <+: loc
  /-- A file at another place of the output is what it was. -/
  others : ∀ l, (∀ q loc e, d'.Reaches o.target source q loc e → ¬ o.Lands out q l) →
    ∀ bytes, d'.tree.get? l = some (.file bytes) ↔ d.tree.get? l = some (.file bytes)
  outside : ∀ l, FileTree.isBelow out l = false → d'.tree.get? l = d.tree.get? l
  cwd : d'.cwd = d.cwd

theorem BuildOptions.Carried.mirrored {source : Path} {levels : Nat}
    (h : o.Carried out (o.copyPlan.survey w.disk levels [] source) s.disk w.disk n)
    (hs : s.disk.Ready o.target out) (hleads : s.Leads o.Copies w)
    (hall : ∀ x ∈ o.copyPlan.survey w.disk levels [] source, ∃ r, x.2 = .ok r)
    (haccepts : ∀ q loc e, (q, .ok (loc, e)) ∈ o.copyPlan.survey w.disk levels [] source →
      w.disk.Accepts q)
    (hapart : (o.copyPlan.survey w.disk levels [] source).Pairwise
      fun x y => x.1.components ≠ y.1.components)
    (hwalk : ∀ q loc e, w.disk.Reaches o.target source q loc e → ¬ out <+: loc) :
    o.Mirrored out source s.disk w.disk n := by
  obtain ⟨hagree, hready⟩ := ready_of_leads hs hleads
  have hlisted {q : Path} {loc : Location} {e : Entry} (hq : w.disk.Reaches o.target source q loc e) :
      (q, .ok (loc, e)) ∈ o.copyPlan.survey w.disk levels [] source :=
    mem_survey_of_reaches hall hq
  refine
    { reached := fun q loc e hq => hq.kept hagree (copies_keep hleads) hwalk
      same := fun q loc e hq => ?_
      placed := fun q loc e hq => h.placed q loc e (hlisted hq)
      counted := ⟨_, Findings.nodup_files hapart, h.count.symm, fun q => Findings.mem_files.trans ?_⟩
      passed := fun hroot p hp hstarts loc => inside_of_startsWith hready hroot hp hstarts
      others := fun l hl bytes => (h.rest l ?_).file_iff bytes
      outside := hagree.outside
      cwd := hagree.cwd }
  · rw [← hagree.apart (hwalk q loc e hq)]
    exact hq.found.2.2
  · constructor
    · rintro ⟨loc, e, hq, hnot⟩
      cases e with
      | directory => cases hnot
      | file bytes => exact ⟨loc, bytes, reaches_of_mem_survey hq (haccepts q loc _ hq)⟩
      | link target => exact absurd rfl ((h.placed q loc _ hq).1 target)
    · rintro ⟨loc, bytes, hq⟩
      exact ⟨loc, _, hlisted hq, rfl⟩
  · exact fun q loc e hq => hl q loc e (reaches_of_mem_survey hq (haccepts q loc e hq))

/-- **Mirroring.** If a dependency is copied, and nothing that the walk through it reaches lies in the
output, then each directory and each file that is reached has its copy in the output, at its path from
the root; so many files have been copied; and nothing else has changed. A path that is met while
copying goes on leads to the same place at the end, so what is reached is seen on the disk that is
left. -/
theorem dependency_mirrored (o : BuildOptions) {dependency relative : Path}
    (hmem : dependency ∈ o.dependencies) (hrelative : dependency.withinSite = .ok relative)
    (s : BuildState) {out : Location} {n : Nat} (hnamed : s.disk.tree.Named)
    (hdistinct : s.disk.tree.Distinct) (hs : s.disk.Ready o.target out)
    (hok : (copyDependency o.root relative o.target s).2.result = .ok n)
    (hwalk : ∀ q loc e, (copyDependency o.root relative o.target s).1.disk.Reaches o.target
      (o.root.join relative) q loc e → ¬ out <+: loc) :
    o.Mirrored out (o.root.join relative) s.disk
      (copyDependency o.root relative o.target s).1.disk n := by
  have hmet := met_of_mem hmem hrelative
  obtain ⟨hcopied, hstate⟩ := copyDependency_eq_ok hok
  have hleads := copying_copy Disk.maxPathBytes [] hmet s hnamed
  rw [← hstate] at hleads
  have hdistinct' := (copyDependency_extensional o.root relative o.target).distinct hdistinct
  have hcarry := copy_eq_carry_end hs hnamed Disk.maxPathBytes [] hmet .refl hcopied
    (hstate ▸ .refl) fun q loc e hq haccepts => hwalk q loc e (reaches_of_mem_survey hq haccepts)
  rw [hcarry] at hcopied hstate
  generalize (copyDependency o.root relative o.target s).1 = w at *
  obtain ⟨hagree, hready⟩ := ready_of_leads hs hleads
  have hfound (q : Path) (loc : Location) (e : Entry)
      (hq : (q, .ok (loc, e)) ∈ o.copyPlan.survey w.disk Disk.maxPathBytes [] (o.root.join relative)) :
      o.Found out w.disk q loc e := by
    obtain ⟨hmeets, hstarts, hend, he⟩ := survey_met (leads_named hnamed hleads) _ _ hmet hq
    exact ⟨hmeets, hstarts, hend, he, fun haccepts =>
      hwalk q loc e (reaches_of_mem_survey hq haccepts)⟩
  have hall := carry_followed hcopied
  have hapart := survey_apart o.copyPlan (leads_named hnamed hleads) hdistinct'
    Disk.maxPathBytes [] (o.root.join relative) hall
  obtain ⟨hcarried, hfiles⟩ := carry_placed hs hfound hapart hcopied (hstate ▸ .refl)
  rw [← hstate] at hcarried
  refine hcarried.mirrored hs hleads hall (fun q loc e hq => ?_) hapart hwalk
  cases e with
  | file bytes | link target => exact hfiles q loc _ hq rfl
  | directory => exact accepts_of_followed hall hq

end

/-- A site with a directory that holds a link to a file beside it, and an output from before. -/
def sharedDisk : Disk :=
  ⟨⟨[(["site"], .directory), (["site", "a.txt"], .link "../shared.txt"),
    (["shared.txt"], .file "s".toUTF8), (["out"], .directory),
    (["out", "old.txt"], .file "o".toUTF8)]⟩, []⟩

def sharedSite : BuildOptions := { dependencies := [⟨"site"⟩], pages := [] }

theorem sharedDisk_ready : sharedDisk.Ready sharedSite.target ["out"] where
  leads := .of_locate (by decide +kernel) (by decide)
  noLink loc target hbelow hget := by
    have hne : loc ≠ [] := by
      rintro rfl
      cases hget
    have hlink := FileTree.mem_entries hne hget
    simp only [sharedDisk, List.mem_cons, Prod.mk.injEq, reduceCtorEq, and_false, false_or,
      List.not_mem_nil, or_false] at hlink
    obtain ⟨rfl, -⟩ := hlink
    cases hbelow
  housed := Disk.Housed.of_entries (by decide)

theorem sharedSite_meets : sharedSite.Meets ⟨"./site"⟩ :=
  (outputChanges_confined sharedSite).start ⟨"site"⟩ List.mem_cons_self ⟨"site"⟩ (by decide +kernel)

theorem names_sharedDisk : sharedDisk.tree.names ["site"] = ["a.txt"] ∧
    sharedDisk.tree.names ["shared.txt"] = [] :=
  ⟨List.mergeSort_of_pairwise (by decide), List.mergeSort_of_pairwise (by decide)⟩

theorem copy_sharedDisk :
    sharedSite.copyPlan.copy Disk.maxPathBytes [] ⟨"./site"⟩ ⟨sharedDisk, []⟩ =
      (BuildStep.change (.createDirectories (sharedSite.copyPlan.target ⟨"./site"⟩)) >>= fun _ =>
        copyEach (sharedSite.copyPlan.copy 4094 [(["site"], ⟨"./site"⟩)]) [⟨"./site/a.txt"⟩])
        ⟨sharedDisk, []⟩ := by
  have hvisit : sharedDisk.visit [] ⟨"./site"⟩ = .ok (["site"], .directory) := by decide +kernel
  have hopen : sharedDisk.openDirectory ⟨"./site"⟩ = .ok ["site"] := by decide +kernel
  have hstarts : Path.startsWith ⟨"./site"⟩ sharedSite.target = false := by decide +kernel
  have hjoin : Path.join ⟨"./site"⟩ ⟨"a.txt"⟩ = ⟨"./site/a.txt"⟩ := by decide +kernel
  obtain ⟨relative, hr, htarget⟩ := target_met sharedSite_meets
  obtain ⟨hagree, -⟩ := ready_of_leads (s := ⟨sharedDisk, []⟩) sharedDisk_ready
    (.change .refl (.directory sharedSite_meets hstarts hr))
  have hstep : sharedSite.copyPlan.copy (4094 + 1) [] ⟨"./site"⟩ ⟨sharedDisk, []⟩ = _ :=
    CopyPlan.copy_directory hvisit hstarts
  refine hstep.trans ?_
  rw [hopen]
  refine BuildStep.bind_congr_at rfl fun _ _ => ?_
  dsimp only
  unfold CopyPlan.copyInto
  rw [BuildStep.state_change, htarget, hagree.names ["site"] (by decide), names_sharedDisk.1,
    List.map_cons, List.map_nil, hjoin]

theorem reached_sharedDisk {d : Disk} (hagree : Agree ["out"] sharedDisk d)
    (hkept : sharedDisk.tree.Keeps d.tree) {q : Path} {loc : Location} {e : Entry}
    (h : d.Reaches sharedSite.target ⟨"./site"⟩ q loc e) :
    q = ⟨"./site"⟩ ∧ loc = ["site"] ∨ q = ⟨"./site/a.txt"⟩ ∧ loc = ["shared.txt"] := by
  have hsite : d.locate ⟨true, false⟩ ⟨"./site"⟩ = .ok ["site"] :=
    Disk.locate_kept hagree hkept (by decide +kernel)
  have hshared : d.locate ⟨true, false⟩ ⟨"./site/a.txt"⟩ = .ok ["shared.txt"] :=
    Disk.locate_kept hagree hkept (by decide +kernel)
  induction h with
  | start _ hp _ => exact .inl ⟨rfl, Except.ok.inj (hp.symm.trans hsite)⟩
  | into _ hn _ hnext _ ih =>
    rcases ih with ⟨rfl, rfl⟩ | ⟨rfl, rfl⟩
    · rw [hagree.names ["site"] (by decide), names_sharedDisk.1, List.mem_singleton] at hn
      obtain rfl := hn
      have hjoin : Path.join ⟨"./site"⟩ ⟨"a.txt"⟩ = ⟨"./site/a.txt"⟩ := by decide +kernel
      rw [hjoin] at hnext ⊢
      exact .inr ⟨rfl, Except.ok.inj (hnext.symm.trans hshared)⟩
    · rw [hagree.names ["shared.txt"] (by decide), names_sharedDisk.2] at hn
      cases hn

/-- The file that the link leads to is copied, beside what was there. -/
theorem shared_file_mirrored :
    (⟨"site"⟩ : Path) ∈ sharedSite.dependencies ∧ Path.withinSite ⟨"site"⟩ = .ok ⟨"site"⟩ ∧
      sharedDisk.tree.Named ∧ sharedDisk.tree.Distinct ∧
      sharedDisk.Ready sharedSite.target ["out"] ∧
      (copyDependency sharedSite.root ⟨"site"⟩ sharedSite.target ⟨sharedDisk, []⟩).2.result = .ok 1 ∧
      sharedSite.Mirrored ["out"] ⟨"./site"⟩ sharedDisk
        (copyDependency sharedSite.root ⟨"site"⟩ sharedSite.target ⟨sharedDisk, []⟩).1.disk 1 := by
  have hnamed : sharedDisk.tree.Named := FileTree.Named.of_entries (by decide)
  have hdistinct : sharedDisk.tree.Distinct := ⟨by decide, by decide⟩
  have hwithin : Path.withinSite ⟨"site"⟩ = .ok ⟨"site"⟩ := by decide +kernel
  have hfound : sharedDisk.pathExists (sharedSite.root.join ⟨"site"⟩) = true := by decide +kernel
  have hcopied : (sharedSite.copyPlan.copy Disk.maxPathBytes [] ⟨"./site"⟩ ⟨sharedDisk, []⟩).2.result =
      .ok 1 := by
    rw [copy_sharedDisk]
    decide +kernel
  have hok : (copyDependency sharedSite.root ⟨"site"⟩ sharedSite.target ⟨sharedDisk, []⟩).2.result =
      .ok 1 := by
    unfold copyDependency
    rw [BuildStep.look_ok_bind_run, hfound]
    exact (BuildStep.bind_of_ok hcopied _).2
  have hmet : sharedSite.Meets (sharedSite.root.join ⟨"site"⟩) := sharedSite_meets
  have hleads : BuildState.Leads sharedSite.Copies ⟨sharedDisk, []⟩
      (copyDependency sharedSite.root ⟨"site"⟩ sharedSite.target ⟨sharedDisk, []⟩).1 :=
    BuildStep.copyDependency_makes (fun _ c _ hd => apply_named hd c) (copyChanges_copies sharedSite)
      hmet ⟨sharedDisk, []⟩ hnamed
  obtain ⟨hagree, -⟩ := ready_of_leads (s := ⟨sharedDisk, []⟩) sharedDisk_ready hleads
  refine ⟨List.mem_cons_self, hwithin, hnamed, hdistinct, sharedDisk_ready, hok,
    dependency_mirrored sharedSite List.mem_cons_self hwithin ⟨sharedDisk, []⟩ hnamed hdistinct
      sharedDisk_ready hok fun q loc e hq => ?_⟩
  rcases reached_sharedDisk hagree (copies_keep hleads) hq with ⟨-, rfl⟩ | ⟨-, rfl⟩
  · decide
  · decide

end StaticSite
