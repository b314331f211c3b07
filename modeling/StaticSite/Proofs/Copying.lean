import StaticSite.Proofs.Confinement
import StaticSite.Proofs.Filing

/-!
What copying looks at.

Dependencies are copied while the walk through them goes on, so the walk could come upon what it has
copied. What is spelled below the output is passed over. Proved here, for every build and every disk:

* `visit_agree`, `openDirectory_agree`: what a path leads to is the same, whatever changes below the
  output;
* `copies_agree`: copying changes nothing but what lies below the output;
* `copy_eq_carry`: where the output is met under its own name only, a walk copies what was there
  before, as if it had been listed at the start, by induction on its levels;
* `copy_levels`: the levels of a walk never run out;
* `copying_outside`: so it looks at nothing that lies in the output.
-/

namespace StaticSite

open StaticSite.Path (IsName)
open ContentIndex (pathBelow)

/-! ## What a walk finds -/

namespace Disk

variable {d d' : Disk} {p : Path} {out loc : Location} {e : Entry} {chain : WalkChain}

theorem lastPlace_of_locate {r : Reach} (h : d.locate r p = .ok loc) :
    d.lastPlace p = loc ∨ r.follow = false ∧ ∃ target, d.tree.get? loc = some (.link target) :=
  walkEnd_or_link_of_walk (locate_eq_ok_iff.1 h).2

theorem lastPlace_of_listed (h : d.listed p = .ok loc) :
    d.lastPlace p = loc ∨ ∃ target, d.tree.get? loc = some (.link target) :=
  (walkEnd_or_link_of_walk h).imp_right And.right

theorem openDirectory_eq_ok_iff : d.openDirectory p = .ok loc ↔
    d.locate ⟨true, false⟩ p = .ok loc ∧ d.tree.isDirectory loc = true := by
  unfold openDirectory
  cases d.locate ⟨true, false⟩ p with
  | error e => simp
  | ok found =>
    dsimp only
    rw [Except.ok.injEq]
    split
    · next hdirectory =>
      rw [Except.ok.injEq]
      exact ⟨fun heq => ⟨heq, heq ▸ hdirectory⟩, And.left⟩
    · next hnot => exact ⟨nofun, fun ⟨heq, hdirectory⟩ => absurd (heq ▸ hdirectory) hnot⟩

theorem visit_eq_ok (h : d.visit chain p = .ok (loc, e)) :
    d.lastPlace p = loc ∧ d.tree.get? loc = some e := by
  obtain ⟨place, hplace, h⟩ := Logged.except_bind_eq_ok h
  rw [Logged.except_mapError_eq_ok_iff] at hplace
  have hhere {entry : Entry} (hget : d.tree.get? place = some entry)
      (hlink : ∀ target, entry ≠ .link target) (h : (place, entry) = (loc, e)) :
      d.lastPlace p = loc ∧ d.tree.get? loc = some e := by
    obtain ⟨rfl, rfl⟩ := Prod.mk.inj h
    rcases lastPlace_of_listed hplace with hend | ⟨target, htarget⟩
    · exact ⟨hend, hget⟩
    · exact absurd (Option.some.inj (hget.symm.trans htarget)) (hlink target)
  cases hget : d.tree.get? place with
  | none =>
    rw [hget] at h
    cases h
  | some entry =>
    rw [hget] at h
    cases entry with
    | directory => exact hhere hget nofun (Except.ok.inj h)
    | file bytes => exact hhere hget nofun (Except.ok.inj h)
    | link target =>
      obtain ⟨found, hfound, h⟩ := Logged.except_bind_eq_ok h
      rw [Logged.except_mapError_eq_ok_iff] at hfound
      have hend := (lastPlace_of_locate hfound).resolve_right nofun
      split at h
      · cases h
      · next hget' _ =>
        obtain ⟨rfl, rfl⟩ := Prod.mk.inj (Except.ok.inj h)
        exact ⟨hend, hget'⟩
      · cases h

theorem listed_agree (h : Agree out d d') (hp : FileTree.isBelow out (d.lastPlace p) = false) :
    d'.listed p = d.listed p := by
  show walk d'.tree _ maxLinks (d'.start p) _ = _
  rw [start_eq h.cwd]
  exact (walk_agree h _ hp).1

/-- What a path leads to is the same, if the path is not stopped where the disks differ. -/
theorem visit_agree (h : Agree out d d') (hp : FileTree.isBelow out (d.lastPlace p) = false)
    (chain : WalkChain) : d'.visit chain p = d.visit chain p := by
  unfold visit
  rw [listed_agree h hp, locate_agree h hp]
  cases hplace : d.listed p with
  | error e => rfl
  | ok place =>
    have hsame : d'.tree.get? place = d.tree.get? place := by
      refine h.outside place ?_
      rcases lastPlace_of_listed hplace with hend | ⟨target, hlink⟩
      · rwa [hend] at hp
      · exact Bool.eq_false_iff.2 fun hbelow => h.noLink place target hbelow hlink
    dsimp only [Except.mapError, bind, Except.bind]
    rw [hsame]
    split
    · cases hfound : d.locate ⟨true, false⟩ p with
      | error e => rfl
      | ok found =>
        dsimp only
        rw [get?_agree h hp hfound]
    · rfl
    · rfl

theorem openDirectory_agree (h : Agree out d d')
    (hp : FileTree.isBelow out (d.lastPlace p) = false) :
    d'.openDirectory p = d.openDirectory p := by
  unfold openDirectory FileTree.isDirectory
  rw [locate_agree h hp]
  cases hlocate : d.locate ⟨true, false⟩ p with
  | error e => rfl
  | ok loc =>
    dsimp only
    rw [get?_agree h hp hlocate]

/-- A directory is opened where a walk finds it. -/
theorem openDirectory_of_visit {dir : Location} (h : d.visit chain p = .ok (loc, e))
    (hopen : d.openDirectory p = .ok dir) : dir = loc :=
  ((lastPlace_of_locate (openDirectory_eq_ok_iff.1 hopen).1).resolve_right nofun).symm.trans
    (visit_eq_ok h).1

end Disk

/-! ## A walk on a disk that stays as it is -/

/-- What a walk has met: paths, each with what it leads to. A directory that could not be opened comes
with the reason after that. -/
abbrev Findings := List (Path × Except OsError (Location × Entry))

namespace CopyPlan

/-- All that a walk meets, in its order, on a disk that stays as it is. -/
def survey (plan : CopyPlan) (d : Disk) : Nat → WalkChain → Path → Findings
  | 0, _, p => [(p, .error .nameTooLong)]
  | levels + 1, chain, p =>
    match d.visit chain p with
    | .error e => [(p, .error e)]
    | .ok (loc, entry) =>
      if p.startsWith plan.output then []
      else (p, .ok (loc, entry)) ::
        match entry with
        | .directory =>
          match d.openDirectory p with
          | .error e => [(p, .error e)]
          | .ok dir =>
            (d.tree.names dir).flatMap fun n => plan.survey d levels ((dir, p) :: chain) (p.join ⟨n⟩)
        | _ => []

/-- Copies one thing to its path in the output; counts the files. -/
def place (plan : CopyPlan) (p : Path) : Entry → BuildStep Nat
  | .directory => do
    .change (.createDirectories (plan.target p))
    return 0
  | _ => do
    if let some parent := (plan.target p).parent? then
      .change (.createDirectories parent)
    .change (.copyFile p (plan.target p))
    .record .debug ("copied " ++ (plan.relative p).text)
    return 1

/-- Copies what has been met, up to what could not be followed; counts the files. -/
def carry (plan : CopyPlan) : Findings → BuildStep Nat
  | [] => pure 0
  | (p, .error e) :: _ => .fail (.io p e)
  | (p, .ok (_, entry)) :: rest => do
    let n ← plan.place p entry
    let m ← plan.carry rest
    return n + m

section

variable {plan : CopyPlan} {d : Disk} {levels : Nat} {chain : WalkChain} {p : Path} {loc : Location}
  {entry : Entry} {x : Path × Except OsError (Location × Entry)}

theorem survey_lost {e : OsError} (h : d.visit chain p = .error e) :
    plan.survey d (levels + 1) chain p = [(p, .error e)] := by
  rw [survey, h]

theorem survey_passed (h : d.visit chain p = .ok (loc, entry))
    (hstarts : p.startsWith plan.output = true) : plan.survey d (levels + 1) chain p = [] := by
  rw [survey, h]
  exact if_pos hstarts

theorem survey_found (h : d.visit chain p = .ok (loc, entry))
    (hstarts : p.startsWith plan.output = false) :
    plan.survey d (levels + 1) chain p = (p, .ok (loc, entry)) ::
      match entry with
      | .directory =>
        match d.openDirectory p with
        | .error e => [(p, .error e)]
        | .ok dir =>
          (d.tree.names dir).flatMap fun n => plan.survey d levels ((dir, p) :: chain) (p.join ⟨n⟩)
      | _ => [] := by
  have hnot : ¬ p.startsWith plan.output = true := Bool.eq_false_iff.1 hstarts
  rw [survey, h]
  refine (if_neg hnot).trans ?_
  cases entry <;> rfl

theorem mem_survey_zero : x ∈ plan.survey d 0 chain p ↔ x = (p, .error .nameTooLong) :=
  List.mem_singleton

/-- A walk lists what it cannot follow, or what is there, and then what it meets by the names in it, if
it can be opened. -/
theorem mem_survey_succ : x ∈ plan.survey d (levels + 1) chain p ↔
    (∃ e, d.visit chain p = .error e ∧ x = (p, .error e)) ∨
    ∃ loc entry, d.visit chain p = .ok (loc, entry) ∧ p.startsWith plan.output = false ∧
      (x = (p, .ok (loc, entry)) ∨ entry = .directory ∧
        ((∃ e, d.openDirectory p = .error e ∧ x = (p, .error e)) ∨
        ∃ dir, d.openDirectory p = .ok dir ∧ ∃ n ∈ d.tree.names dir,
          x ∈ plan.survey d levels ((dir, p) :: chain) (p.join ⟨n⟩))) := by
  cases hvisit : d.visit chain p with
  | error e =>
    rw [survey_lost hvisit]
    simp
  | ok found =>
    obtain ⟨loc, entry⟩ := found
    cases hstarts : p.startsWith plan.output with
    | true =>
      rw [survey_passed hvisit hstarts]
      simp
    | false =>
      rw [survey_found hvisit hstarts]
      cases entry with
      | file bytes | link target => simp
      | directory => cases hopen : d.openDirectory p <;> simp

end

theorem place_directory (plan : CopyPlan) (p : Path) :
    plan.place p .directory =
      BuildStep.change (.createDirectories (plan.target p)) >>= fun _ => pure 0 := rfl

theorem carry_ok (plan : CopyPlan) (p : Path) (loc : Location) (entry : Entry) (rest : Findings) :
    plan.carry ((p, .ok (loc, entry)) :: rest) = do
      let n ← plan.place p entry
      let m ← plan.carry rest
      return n + m := rfl

theorem carry_single (plan : CopyPlan) (p : Path) (loc : Location) (entry : Entry) :
    plan.carry [(p, .ok (loc, entry))] = plan.place p entry := by
  rw [carry_ok, carry]
  simp only [pure_bind, Nat.add_zero, bind_pure]

theorem carry_append (plan : CopyPlan) (xs ys : Findings) :
    plan.carry (xs ++ ys) = do
      let n ← plan.carry xs
      let m ← plan.carry ys
      return n + m := by
  induction xs with
  | nil =>
    rw [List.nil_append, carry, pure_bind]
    simp only [Nat.zero_add, bind_pure]
  | cons x xs ih =>
    obtain ⟨p, result⟩ := x
    cases result with
    | error e => rfl
    | ok found =>
      rw [List.cons_append, carry, carry, ih]
      simp only [bind_assoc, pure_bind, Nat.add_assoc]

theorem carry_directory (plan : CopyPlan) (p : Path) (loc : Location) (found : Findings) :
    plan.carry ((p, .ok (loc, .directory)) :: found) =
      BuildStep.change (.createDirectories (plan.target p)) >>= fun _ => plan.carry found := by
  rw [carry_ok, place_directory]
  simp only [bind_assoc, pure_bind, Nat.zero_add, bind_pure]

/-! ### One level of a walk -/

/-- Copies what is in a directory when its turn comes. -/
def copyInto (plan : CopyPlan) (levels : Nat) (chain : WalkChain) (p : Path) (dir : Location) :
    BuildStep Nat := fun t =>
  copyEach (plan.copy levels ((dir, p) :: chain)) ((t.disk.tree.names dir).map fun n => p.join ⟨n⟩) t

section

variable {plan : CopyPlan} {levels : Nat} {chain : WalkChain} {p : Path} {loc : Location}
  {entry : Entry} {t : BuildState}

theorem copy_lost {e : OsError} (h : t.disk.visit chain p = .error e) :
    plan.copy (levels + 1) chain p t = BuildStep.fail (.io p e) t := by
  unfold copy
  rw [BuildStep.look_bind_run, h]
  rfl

/-- What is spelled below the output is passed over. -/
theorem copy_passed (h : t.disk.visit chain p = .ok (loc, entry))
    (hstarts : p.startsWith plan.output = true) :
    plan.copy (levels + 1) chain p t = (pure 0 : BuildStep Nat) t := by
  unfold copy
  rw [BuildStep.look_bind_run, h]
  dsimp only [Except.mapError]
  rw [if_pos hstarts]

theorem copy_directory (h : t.disk.visit chain p = .ok (loc, .directory))
    (hstarts : p.startsWith plan.output = false) :
    plan.copy (levels + 1) chain p t =
      (BuildStep.change (.createDirectories (plan.target p)) >>= fun _ =>
        match t.disk.openDirectory p with
        | .error e => .fail (.io p e)
        | .ok dir => plan.copyInto levels chain p dir) t := by
  unfold copy
  rw [BuildStep.look_bind_run, h]
  dsimp only [Except.mapError]
  rw [hstarts, if_neg Bool.false_ne_true, BuildStep.look_ok_bind_run]
  cases t.disk.openDirectory p with
  | error e => rfl
  | ok dir => rfl

theorem copy_other (h : t.disk.visit chain p = .ok (loc, entry))
    (hstarts : p.startsWith plan.output = false) (hentry : entry ≠ .directory) :
    plan.copy (levels + 1) chain p t = plan.place p entry t := by
  unfold copy place
  rw [BuildStep.look_bind_run, h]
  dsimp only [Except.mapError]
  rw [hstarts, if_neg Bool.false_ne_true]
  cases entry with
  | directory => exact absurd rfl hentry
  | file bytes | link target =>
    cases (plan.target p).parent? with
    | none => rfl
    | some parent => rfl

end

end CopyPlan

/-! ## Copying below the output -/

/-- How a build copies. -/
abbrev BuildOptions.copyPlan (o : BuildOptions) : CopyPlan := ⟨o.root, o.target⟩

/-- What a walk can meet in the output is spelled as the output. -/
structure BuildOptions.Apart (o : BuildOptions) (d : Disk) (out : Location) : Prop where
  named : d.tree.Named
  housed : Disk.Housed d.tree
  leads : d.LeadsTo o.target out
  noLink : Disk.NoLinkBelow d.tree out
  spelled : ∀ p, o.Meets p → p.startsWith o.target = false → ¬ out <+: d.lastPlace p

section

variable {o : BuildOptions} {d d' : Disk} {out : Location} {p : Path}

/-- What a walk can meet is copied below the output. -/
theorem target_below {relative : Path} (hp : o.Meets p) (hr : p.relativeTo? o.root = some relative) :
    ∃ names, names ≠ [] ∧ Disk.Below o.target names (o.target.join relative) := by
  obtain ⟨names, hne, hall, hmet⟩ := components_met hp
  obtain rfl := Option.some.inj ((Path.relativeTo?_of_append hmet).symm.trans hr)
  have hrelative := Path.components_ofComponents hall
  have htidy : (o.target.join (Path.ofComponents (names.map .name))).Tidy :=
    Path.tidy_join (Path.isAbsolute_of_names hrelative) (Path.tidy_ofComponents hall hne)
  exact ⟨names, hne, Path.components_join_names hrelative, fun _ => htidy,
    Path.trimSlashes_of_tidy htidy⟩

/-- Copying keeps all that does not lie below the output. -/
theorem copies_agree (h : d.LeadsTo o.target out) {c : DiskChange} (hc : o.Copies c)
    (hagree : Disk.Agree out d d') (hhoused : Disk.Housed d'.tree) :
    Disk.Agree out d (c.apply d').1 := by
  have hleads := h.agree hagree
  have hmade {q : Path} {names : List String} (hq : Disk.Below o.target names q) :
      Disk.Agree out d (d'.createDirectories q).1 :=
    hagree.trans (Disk.createDirectories_agree hleads hagree.noLink' hhoused hq)
  cases hc with
  | directory hp _ hr =>
    obtain ⟨names, -, hbelow⟩ := target_below hp hr
    exact hmade hbelow
  | parent hp _ hr hdir =>
    obtain ⟨names, hne, hbelow⟩ := target_below hp hr
    obtain ⟨above, habove, hinit⟩ := hbelow.exists_above hne
    obtain rfl := Option.some.inj (hdir.symm.trans habove)
    exact hmade hinit
  | file hp _ hr =>
    obtain ⟨names, hne, hbelow⟩ := target_below hp hr
    exact hagree.trans (Disk.copyFile_agree hleads hagree.noLink' hbelow hne _)

theorem copying_agree {s t : BuildState} (hleads : s.disk.LeadsTo o.target out)
    (hlinks : Disk.NoLinkBelow s.disk.tree out) (hhoused : Disk.Housed s.disk.tree)
    (ht : s.Leads o.Copies t) :
    Disk.Agree out s.disk t.disk ∧ Disk.Housed t.disk.tree :=
  ht.invariant (I := fun t => Disk.Agree out s.disk t.disk ∧ Disk.Housed t.disk.tree)
    ⟨.refl hlinks, hhoused⟩ fun _ c hc hd =>
      ⟨copies_agree hleads hc hd.1 hd.2, apply_housed hd.2 c⟩

theorem leads_agree {s t : BuildState} (h : o.Apart s.disk out) (ht : s.Leads o.Copies t) :
    Disk.Agree out s.disk t.disk :=
  (copying_agree h.leads h.noLink h.housed ht).1

theorem after_named {s : BuildState} (hs : s.disk.tree.Named) (c : DiskChange) :
    (s.after c).disk.tree.Named := apply_named hs c

theorem leads_named {s t : BuildState} (hs : s.disk.tree.Named) {Q : DiskChange → Prop}
    (ht : s.Leads Q t) : t.disk.tree.Named :=
  ht.invariant (I := fun t => t.disk.tree.Named) hs fun _ c _ hd => after_named hd c

/-! ## What a walk copies -/

/-- On the way to the output and beside it, a path is not stopped below it. -/
theorem not_below_of_met (h : o.Apart d out) (hp : o.Meets p)
    (hspelled : p.startsWith o.target = false ∨ p.components = o.target.components) :
    FileTree.isBelow out (d.lastPlace p) = false := by
  refine Bool.eq_false_iff.2 fun hbelow => ?_
  obtain ⟨hpre, hne⟩ := FileTree.isBelow_iff.1 hbelow
  rcases hspelled with hstarts | houtput
  · exact h.spelled p hp hstarts hpre
  · exact hne (Disk.walkEnd_of_walk (Disk.walk_eq_ok_iff.2 (h.leads.congr houtput).walked))

/-- From a path that is not spelled below the output, one name leads to the output at most. -/
theorem spelled_into {n : String} (hstarts : p.startsWith o.target = false) (hn : IsName n) :
    (p.join ⟨n⟩).startsWith o.target = false ∨
      (p.join ⟨n⟩).components = o.target.components := by
  cases hinto : (p.join ⟨n⟩).startsWith o.target with
  | false => exact .inl rfl
  | true =>
    rw [Path.startsWith_iff, Path.components_join_name p hn, List.prefix_concat_iff] at hinto
    rcases hinto with heq | hpre
    · rw [Path.components_join_name p hn]
      exact .inr heq.symm
    · rw [Path.startsWith_iff.2 hpre] at hstarts
      cases hstarts

theorem copyEach_eq_carry {plan : CopyPlan} {copy : Path → BuildStep Nat} {found : Path → Findings}
    {s t : BuildState} {ps : List Path}
    (hleads : ∀ q ∈ ps, ∀ t, s.Leads o.Copies t → s.Leads o.Copies (copy q t).1)
    (hcopy : ∀ q ∈ ps, ∀ t, s.Leads o.Copies t → copy q t = plan.carry (found q) t)
    (ht : s.Leads o.Copies t) : copyEach copy ps t = plan.carry (ps.flatMap found) t := by
  induction ps generalizing t with
  | nil => rfl
  | cons q ps ih =>
    rw [copyEach, List.flatMap_cons, CopyPlan.carry_append]
    refine BuildStep.bind_congr_at (hcopy q List.mem_cons_self t ht) fun n _ => ?_
    refine BuildStep.bind_congr_at (ih ?_ ?_ (hleads q List.mem_cons_self t ht)) fun _ _ => rfl
    · exact fun q hq => hleads q (List.mem_cons_of_mem _ hq)
    · exact fun q hq => hcopy q (List.mem_cons_of_mem _ hq)

/-- All that copying does is changes of its kind. -/
theorem copy_leads {t : BuildState} (levels : Nat) (chain : WalkChain) (hp : o.Meets p)
    (ht : t.disk.tree.Named) :
    t.Leads o.Copies (o.copyPlan.copy levels chain p t).1 :=
  BuildStep.copy_makes (fun _ c _ hd => apply_named hd c) (copyChanges_copies o) levels chain hp t ht

/-- **Copying** does as if all that a walk meets had been listed before anything was copied. -/
theorem copy_eq_carry {s t : BuildState} (h : o.Apart s.disk out) (levels : Nat) (chain : WalkChain)
    (hp : o.Meets p) (hspelled : p.startsWith o.target = false ∨ p.components = o.target.components)
    (ht : s.Leads o.Copies t) :
    o.copyPlan.copy levels chain p t =
      o.copyPlan.carry (o.copyPlan.survey s.disk levels chain p) t := by
  induction levels generalizing chain p t with
  | zero => rfl
  | succ levels ih =>
    have hvisit := Disk.visit_agree (leads_agree h ht) (not_below_of_met h hp hspelled) chain
    have hopen := Disk.openDirectory_agree (leads_agree h ht) (not_below_of_met h hp hspelled)
    cases hfound : s.disk.visit chain p with
    | error e =>
      rw [CopyPlan.copy_lost (hvisit.trans hfound), CopyPlan.survey_lost hfound]
      rfl
    | ok found =>
      obtain ⟨loc, entry⟩ := found
      cases hstarts : p.startsWith o.copyPlan.output with
      | true =>
        rw [CopyPlan.copy_passed (hvisit.trans hfound) hstarts, CopyPlan.survey_passed hfound hstarts]
        rfl
      | false =>
        rw [CopyPlan.survey_found hfound hstarts]
        cases entry with
        | file bytes | link target =>
          rw [CopyPlan.copy_other (hvisit.trans hfound) hstarts (by rintro ⟨⟩)]
          exact (congrFun (CopyPlan.carry_single _ _ _ _) t).symm
        | directory =>
          rw [CopyPlan.copy_directory (hvisit.trans hfound) hstarts, CopyPlan.carry_directory, hopen]
          refine BuildStep.bind_congr_at rfl fun _ _ => ?_
          cases hopened : s.disk.openDirectory p with
          | error e => rfl
          | ok dir =>
            obtain rfl := Disk.openDirectory_of_visit hfound hopened
            obtain ⟨hend, -⟩ := Disk.visit_eq_ok hfound
            have hnext := ht.change ((copyChanges_copies o).directory p hp hstarts)
            have hnames := (leads_agree h hnext).names dir (hend ▸ h.spelled p hp hstarts)
            have hname {n : String} (hn : n ∈ s.disk.tree.names dir) : IsName n :=
              h.named.isName_of_mem_names hn
            dsimp only
            unfold CopyPlan.copyInto
            rw [BuildStep.state_change, hnames, ← List.flatMap_map]
            refine copyEach_eq_carry (o := o) (s := s) ?_ ?_ hnext
            · intro q hq u hu
              obtain ⟨n, hn, rfl⟩ := List.mem_map.1 hq
              exact hu.trans (copy_leads levels _ (hp.into (hname hn)) (leads_named h.named hu))
            · intro q hq u hu
              obtain ⟨n, hn, rfl⟩ := List.mem_map.1 hq
              exact ih _ (hp.into (hname hn)) (spelled_into hstarts (hname hn)) hu

/-- All that a walk lists is met outside what is spelled below the output, where it is. -/
theorem survey_met (hd : d.tree.Named) (levels : Nat) (chain : WalkChain) (hp : o.Meets p)
    {q : Path} {loc : Location} {e : Entry}
    (hq : (q, .ok (loc, e)) ∈ o.copyPlan.survey d levels chain p) :
    o.Meets q ∧ q.startsWith o.target = false ∧ d.lastPlace q = loc ∧ d.tree.get? loc = some e := by
  induction levels generalizing chain p with
  | zero =>
    cases CopyPlan.mem_survey_zero.1 hq
  | succ levels ih =>
    rcases CopyPlan.mem_survey_succ.1 hq with ⟨error, -, heq⟩ |
      ⟨place, entry, hfound, hstarts, heq | ⟨rfl, ⟨error, -, heq⟩ | ⟨dir, -, n, hn, hq⟩⟩⟩
    · cases heq
    · cases heq
      exact ⟨hp, hstarts, Disk.visit_eq_ok hfound⟩
    · cases heq
    · exact ih _ (hp.into (hd.isName_of_mem_names hn)) hq

/-- What is spelled below the output stays as it is. -/
theorem copy_passed_over (plan : CopyPlan) (levels : Nat) (chain : WalkChain) (t : BuildState)
    (hstarts : p.startsWith plan.output = true) : (plan.copy levels chain p t).1 = t := by
  cases levels with
  | zero => rfl
  | succ levels =>
    cases hvisit : t.disk.visit chain p with
    | error e =>
      rw [CopyPlan.copy_lost hvisit]
      rfl
    | ok found =>
      obtain ⟨loc, entry⟩ := found
      rw [CopyPlan.copy_passed hvisit hstarts]
      rfl

/-! ## The levels of a walk -/

/-- A dependency is named by its last name. -/
theorem tidy_source (root : Path) {relative : Path} (h : p.withinSite = .ok relative) :
    (root.join relative).Tidy := by
  obtain ⟨-, hne, hrelative⟩ := Path.withinSite_eq_ok_iff.1 h
  have hnames := Path.components_withinSite h
  refine Path.tidy_join (Path.isAbsolute_of_names hnames) ?_
  rw [hrelative]
  exact Path.tidy_ofNames (fun n hn => Path.isName_of_mem_filterMap hn) hne

theorem copyEach_congr {copy copy' : Path → BuildStep Nat} {ps : List Path} {t : BuildState}
    (hnamed : ∀ q ∈ ps, ∀ t : BuildState, t.disk.tree.Named → (copy q t).1.disk.tree.Named)
    (hcopy : ∀ q ∈ ps, ∀ t : BuildState, t.disk.tree.Named → copy q t = copy' q t)
    (ht : t.disk.tree.Named) : copyEach copy ps t = copyEach copy' ps t := by
  induction ps generalizing t with
  | nil => rfl
  | cons q ps ih =>
    refine BuildStep.bind_congr_at (hcopy q List.mem_cons_self t ht) fun n _ => ?_
    refine BuildStep.bind_congr_at (ih ?_ ?_ (hnamed q List.mem_cons_self t ht)) fun _ _ => rfl
    · exact fun q hq => hnamed q (List.mem_cons_of_mem _ hq)
    · exact fun q hq => hcopy q (List.mem_cons_of_mem _ hq)

theorem copy_named (plan : CopyPlan) (levels : Nat) (chain : WalkChain) (p : Path) {t : BuildState}
    (ht : t.disk.tree.Named) : (plan.copy levels chain p t).1.disk.tree.Named := by
  have hchanges : BuildStep.CopyChanges plan (fun d => d.tree.Named) (fun _ => True) fun _ => True :=
    ⟨fun _ _ _ _ _ _ _ => trivial, fun _ _ _ => trivial, fun _ _ _ _ _ => trivial,
      fun _ _ _ => trivial⟩
  exact leads_named ht (BuildStep.copy_makes (fun _ c _ hd => apply_named hd c) hchanges levels chain
    trivial t ht)

/-- Only what is copied out of a directory hangs on the levels below. -/
theorem copy_levels_succ {plan : CopyPlan} {levels levels' : Nat} {chain : WalkChain} {t : BuildState}
    (h : ∀ loc dir, t.disk.visit chain p = .ok (loc, .directory) → t.disk.openDirectory p = .ok dir →
      plan.copyInto levels chain p dir (t.after (.createDirectories (plan.target p))) =
        plan.copyInto levels' chain p dir (t.after (.createDirectories (plan.target p)))) :
    plan.copy (levels + 1) chain p t = plan.copy (levels' + 1) chain p t := by
  cases hfound : t.disk.visit chain p with
  | error e => rw [CopyPlan.copy_lost hfound, CopyPlan.copy_lost hfound]
  | ok found =>
    obtain ⟨loc, entry⟩ := found
    cases hstarts : p.startsWith plan.output with
    | true => rw [CopyPlan.copy_passed hfound hstarts, CopyPlan.copy_passed hfound hstarts]
    | false =>
      by_cases hentry : entry = .directory
      · obtain rfl := hentry
        rw [CopyPlan.copy_directory hfound hstarts, CopyPlan.copy_directory hfound hstarts]
        refine BuildStep.bind_congr_at rfl fun _ _ => ?_
        rw [BuildStep.state_change]
        cases hopen : t.disk.openDirectory p with
        | error e => rfl
        | ok dir => exact h loc dir hfound hopen
      · rw [CopyPlan.copy_other hfound hstarts hentry, CopyPlan.copy_other hfound hstarts hentry]

/-- **Levels.** The path of a directory that is opened is no longer than paths may be, and each level
makes it longer. So a walk that starts with as many levels as a path has bytes does not run out of them. -/
theorem copy_levels (plan : CopyPlan) {levels : Nat} (more : Nat) (chain : WalkChain) (hp : p.Tidy)
    (hlong : Disk.maxPathBytes < p.text.utf8ByteSize + 2 * levels) {t : BuildState}
    (ht : t.disk.tree.Named) :
    plan.copy (levels + more + 1) chain p t = plan.copy (levels + 1) chain p t := by
  induction levels generalizing chain p t with
  | zero =>
    refine copy_levels_succ fun loc dir hvisit hopen => ?_
    have hshort := (Disk.locate_eq_ok_iff.1 (Disk.openDirectory_eq_ok_iff.1 hopen).1).1.short
    omega
  | succ levels ih =>
    have hsum : levels + 1 + more = levels + more + 1 := by omega
    rw [hsum]
    refine copy_levels_succ fun loc dir hvisit hopen => ?_
    unfold CopyPlan.copyInto
    have hnamed := after_named ht (.createDirectories (plan.target p))
    refine copyEach_congr (fun q _ u hu => copy_named plan _ _ q hu) (fun q hq u hu => ?_) hnamed
    obtain ⟨n, hn, rfl⟩ := List.mem_map.1 hq
    have hname := hnamed.isName_of_mem_names hn
    have hlonger := Path.utf8ByteSize_join hp hname
    refine ih _ (Path.tidy_join ?_ (Path.tidy_name hname)) (by omega) hu
    exact Path.isAbsolute_name hname

end

/-! ## Dependencies that hold the output -/

section

variable {o : BuildOptions} {d : Disk} {out loc : Location} {p : Path} {names : List String}

theorem steps_pathBelow (hp : p.Tidy) (hnames : ∀ n ∈ names, IsName n) :
    Disk.steps (pathBelow p names).text = Disk.steps p.text ++ names.map Disk.Step.into := by
  induction names generalizing p with
  | nil => exact (List.append_nil _).symm
  | cons n rest ih =>
    have hn := hnames n List.mem_cons_self
    have htidy : (p.join ⟨n⟩).Tidy :=
      Path.tidy_join (Path.isAbsolute_name hn) (Path.tidy_name hn)
    have hrest := ih htidy fun m hm => hnames m (List.mem_cons_of_mem _ hm)
    rw [List.map_cons, List.append_cons, ← Disk.steps_join hp hn]
    exact hrest

/-- From a directory without links below, names end on the way down. -/
theorem lastPlace_pathBelow (hp : d.LeadsTo p loc) (hlinks : Disk.NoLinkBelow d.tree loc)
    (htidy : p.Tidy) (hnames : ∀ n ∈ names, IsName n) :
    ∃ pre, pre <+: names ∧ d.lastPlace (pathBelow p names) = loc ++ pre := by
  obtain ⟨left, hleft⟩ := Disk.walkEnd_append hp.walked (names.map Disk.Step.into)
  obtain ⟨pre, hpre, hend⟩ := Disk.walkEnd_names hlinks List.prefix_rfl left names
  refine ⟨pre, hpre, ?_⟩
  have hstart : d.start (pathBelow p names) = d.start p :=
    Disk.start_down d (Path.components_joinAll p hnames)
  unfold Disk.lastPlace
  rw [hstart, steps_pathBelow htidy hnames, hleft, hend]

/-- A dependency is a directory without links. It does not lie in the output, and if the output lies
in it, then the output is spelled by names after it. -/
structure BuildOptions.Holds (o : BuildOptions) (d : Disk) (out : Location) (source : Path)
    (loc : Location) : Prop where
  leads : d.LeadsTo source loc
  noLink : Disk.NoLinkBelow d.tree loc
  outside : ¬ out <+: loc
  spelled : ∀ names, out = loc ++ names →
    o.target.components = source.components ++ names.map .name

/-- Dependencies like this meet the output under its own name only. -/
theorem spelled_of_holds
    (h : ∀ dependency ∈ o.dependencies, ∀ relative, dependency.withinSite = .ok relative →
      ∃ loc, o.Holds d out (o.root.join relative) loc)
    (hp : o.Meets p) (hstarts : p.startsWith o.target = false) : ¬ out <+: d.lastPlace p := by
  obtain ⟨dependency, hmem, relative, below, hrelative, hbelow, rfl⟩ := hp
  obtain ⟨loc, hholds⟩ := h dependency hmem relative hrelative
  intro hout
  obtain ⟨pre, hpre, hend⟩ :=
    lastPlace_pathBelow hholds.leads hholds.noLink (tidy_source o.root hrelative) hbelow
  rw [hend] at hout
  rcases List.prefix_or_prefix_of_prefix hout (List.prefix_append loc pre) with hin | ⟨names, rfl⟩
  · exact hholds.outside hin
  · rw [List.prefix_append_right_inj] at hout
    have hspelled : o.target.components <+:
        (pathBelow (o.root.join relative) below).components := by
      unfold pathBelow
      rw [Path.components_joinAll _ hbelow, hholds.spelled names rfl, List.prefix_append_right_inj]
      exact (hout.trans hpre).map _
    rw [Path.startsWith_iff.2 hspelled] at hstarts
    cases hstarts

end

/-! ## The output and its dependencies -/

/-- The paths that a change reads. -/
def DiskChange.reads : DiskChange → List Path
  | copyFile source _ => [source]
  | _ => []

/-- The change reads nothing that is spelled below the output. -/
def DiskChange.PassesOver (output : Path) (c : DiskChange) : Prop :=
  ∀ p ∈ c.reads, p.startsWith output = false

theorem outputChanges_passOver (o : BuildOptions) :
    OutputChanges o (fun d => d.tree.Named) o.Meets (DiskChange.PassesOver o.target) where
  kept _ c _ hd := apply_named hd c
  directory := nofun
  start := (outputChanges_confined o).start
  dependencies :=
    { into := (copyChanges_copies o).into
      directory := fun _ _ _ => nofun
      parent := fun _ _ _ _ _ => nofun
      file := fun p _ hstarts q hq => by
        obtain rfl := List.mem_singleton.1 hq
        exact hstarts }
  pages _ _ := ⟨fun _ _ _ => nofun, fun _ _ _ _ _ _ _ => nofun⟩

/-- **Copying.** Nothing is copied that is spelled below the output, and no walk runs out of levels.
Where the output is met under its own name only, copying changes nothing outside of it, and looks at
nothing in it: each dependency is copied as if all that is met had been listed before, and all of that
lies outside. -/
theorem copying_outside (o : BuildOptions) (formats : Formats) (d : Disk) (hd : d.tree.Named) :
    (∀ c ∈ (o.steps formats ⟨d, []⟩).1.changes, ∀ source ∈ c.reads,
      source.startsWith o.target = false) ∧
    (∀ s : BuildState, s.disk.tree.Named → ∀ p relative : Path, p.withinSite = .ok relative →
      ∀ more, o.copyPlan.copy (Disk.maxPathBytes + more) [] (o.root.join relative) s =
        o.copyPlan.copy Disk.maxPathBytes [] (o.root.join relative) s) ∧
    ∀ (s : BuildState) (out : Location), o.Apart s.disk out →
      s.Leads o.Copies (copyDependencies o.root o.target o.dependencies s).1 ∧
      ∀ t, s.Leads o.Copies t → Disk.Agree out s.disk t.disk ∧
        ∀ p ∈ o.dependencies, ∀ relative, p.withinSite = .ok relative →
          let source := o.root.join relative
          let found := o.copyPlan.survey s.disk Disk.maxPathBytes [] source
          (source.startsWith o.target = true →
            (o.copyPlan.copy Disk.maxPathBytes [] source t).1 = t) ∧
          (source.startsWith o.target = false →
            t.disk.pathExists source = s.disk.pathExists source ∧
            o.copyPlan.copy Disk.maxPathBytes [] source t = o.copyPlan.carry found t ∧
            ∀ q loc e, (q, .ok (loc, e)) ∈ found → s.disk.tree.get? loc = some e ∧
              ¬ out <+: loc ∧ t.disk.readBytes q = s.disk.readBytes q) := by
  refine ⟨?_, ?_, ?_⟩
  · exact (steps_leads (outputChanges_passOver o) nofun formats hd).changes nofun
  · intro s hs p relative hrelative more
    have hlong : Disk.maxPathBytes < (o.root.join relative).text.utf8ByteSize + 2 * 4094 :=
      Nat.lt_add_left _ (by decide)
    have hlevels := copy_levels o.copyPlan more [] (tidy_source o.root hrelative) hlong hs
    have hsum : Disk.maxPathBytes + more = 4094 + more + 1 := by
      show 4095 + more = _
      omega
    rw [hsum]
    exact hlevels
  · intro s out h
    refine ⟨?_, fun t ht => ⟨leads_agree h ht, fun p hmem relative hrelative => ⟨?_, ?_⟩⟩⟩
    · exact BuildStep.copyDependencies_makes (fun _ c _ hd => apply_named hd c) (copyChanges_copies o)
        (outputChanges_confined o).start s h.named
    · exact copy_passed_over o.copyPlan _ _ t
    · intro hstarts
      have hmeets := (outputChanges_confined o).start p hmem relative hrelative
      have hnot := not_below_of_met h hmeets (.inl hstarts)
      refine ⟨?_, copy_eq_carry h _ _ hmeets (.inl hstarts) ht, fun q loc e hq => ?_⟩
      · unfold Disk.pathExists
        rw [Disk.entry?_agree (leads_agree h ht) hnot]
      · obtain ⟨hq, hqstarts, hend, hget⟩ := survey_met h.named _ _ hmeets hq
        refine ⟨hget, hend ▸ h.spelled q hq hqstarts, ?_⟩
        exact Disk.readBytes_agree (leads_agree h ht) (not_below_of_met h hq (.inl hqstarts))

/-- A site whose one directory holds the output. -/
def heldDisk : Disk :=
  ⟨⟨[(["site"], .directory), (["site", "a.txt"], .file "a".toUTF8), (["site", "out"], .directory),
    (["site", "out", "old.txt"], .file "o".toUTF8)]⟩, []⟩

def heldSite : BuildOptions := { output := ⟨"site/out"⟩, dependencies := [⟨"site"⟩], pages := [] }

theorem heldSite_apart : heldSite.Apart heldDisk ["site", "out"] where
  named := FileTree.Named.of_entries (by decide)
  housed := Disk.Housed.of_entries (by decide)
  leads := .of_locate (by decide +kernel) (by decide)
  noLink := Disk.NoLinkBelow.of_entries (by simp [heldDisk])
  spelled p hp hstarts := by
    have hwithin : Path.withinSite ⟨"site"⟩ = .ok ⟨"site"⟩ := by decide +kernel
    refine spelled_of_holds (fun dependency hmem relative hrelative => ?_) hp hstarts
    obtain rfl := List.mem_singleton.1 hmem
    obtain rfl := Except.ok.inj (hwithin.symm.trans hrelative)
    refine ⟨["site"], .of_locate (by decide +kernel) (by decide),
      Disk.NoLinkBelow.of_entries (by simp [heldDisk]), by decide, fun names hnames => ?_⟩
    obtain rfl : ["out"] = names := (List.cons.inj hnames).2
    decide +kernel

/-- The walk of the directory comes upon the output, and passes it over. -/
theorem survey_heldDisk :
    heldSite.copyPlan.survey heldDisk Disk.maxPathBytes [] ⟨"./site"⟩ =
      [(⟨"./site"⟩, .ok (["site"], .directory)),
        (⟨"./site/a.txt"⟩, .ok (["site", "a.txt"], .file "a".toUTF8))] := by
  have hsite : heldDisk.visit [] ⟨"./site"⟩ = .ok (["site"], .directory) := by decide +kernel
  have hnames : heldDisk.tree.names ["site"] = ["a.txt", "out"] :=
    List.mergeSort_of_pairwise (by decide)
  have hpassed : Path.startsWith ⟨"./site"⟩ heldSite.copyPlan.output = false := by decide +kernel
  have hopen : heldDisk.openDirectory ⟨"./site"⟩ = .ok ["site"] := by decide +kernel
  show heldSite.copyPlan.survey heldDisk (4093 + 1 + 1) [] _ = _
  rw [CopyPlan.survey_found hsite hpassed]
  dsimp only
  rw [hopen]
  dsimp only
  rw [hnames]
  decide +kernel

theorem held_copying_outside :
    heldDisk.tree.Named ∧ heldSite.Apart heldDisk ["site", "out"] ∧
      heldSite.copyPlan.copy Disk.maxPathBytes [] ⟨"./site"⟩ ⟨heldDisk, []⟩ =
        heldSite.copyPlan.carry [(⟨"./site"⟩, .ok (["site"], .directory)),
          (⟨"./site/a.txt"⟩, .ok (["site", "a.txt"], .file "a".toUTF8))] ⟨heldDisk, []⟩ := by
  refine ⟨heldSite_apart.named, heldSite_apart, ?_⟩
  obtain ⟨-, -, hcopying⟩ := copying_outside heldSite .standard heldDisk heldSite_apart.named
  obtain ⟨-, hsteps⟩ := hcopying ⟨heldDisk, []⟩ ["site", "out"] heldSite_apart
  obtain ⟨-, hdependencies⟩ := hsteps ⟨heldDisk, []⟩ .refl
  obtain ⟨-, hcopy⟩ := hdependencies ⟨"site"⟩ List.mem_cons_self ⟨"site"⟩ (by decide +kernel)
  rw [← survey_heldDisk]
  exact (hcopy (by decide +kernel)).2.1

/-- Which paths lie below the output is seen by their spelling. A build whose output is spelled from
the top copies a file from there into it. -/
theorem output_copied_by_detour :
    ¬ ∀ (o : BuildOptions) (d : Disk) (out : Location), d.tree.Named →
      d.locate ⟨true, false⟩ o.target = .ok out →
      ∀ c ∈ (o.steps .standard ⟨d, []⟩).1.changes, ∀ source ∈ c.reads, ∀ loc,
        d.locate ⟨true, false⟩ source = .ok loc → ¬ out <+: loc := by
  let o : BuildOptions := { output := ⟨"/w/out"⟩, dependencies := [⟨"out/old.txt"⟩], pages := [] }
  let d : Disk := ⟨⟨[(["w"], .directory), (["w", "out"], .directory),
    (["w", "out", "old.txt"], .file "o".toUTF8)]⟩, ["w"]⟩
  intro h
  have hnamed : d.tree.Named := FileTree.Named.of_entries (by decide)
  have hread : ∃ c ∈ (o.steps .standard ⟨d, []⟩).1.changes, ⟨"./out/old.txt"⟩ ∈ c.reads := by
    decide +kernel
  obtain ⟨c, hc, hsource⟩ := hread
  have hsource' := h o d ["w", "out"] hnamed (by decide +kernel) c hc _ hsource ["w", "out", "old.txt"]
    (by decide +kernel)
  exact hsource' (by decide)

end StaticSite
