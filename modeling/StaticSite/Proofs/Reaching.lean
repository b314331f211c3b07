import StaticSite.Proofs.Copying
import StaticSite.Proofs.Sameness

/-!
What a walk of a directory reaches, links followed.

A walk goes on from each directory by the names in it. Copying adds to the disk while it goes on.
Proved here, for every disk:

* `Walked.kept`, `visit_kept`: paths lead where they led, if what changes lies below a directory
  without links and nothing is taken away;
* `reaches_of_mem_survey`, `mem_survey_of_reaches`: what is listed of a disk that stays as it is are
  the paths that are reached on it, by induction on the levels and on how they are reached. A path that
  is too long to be followed may be listed, but what stands there cannot be copied;
* `survey_apart`: each of them once, if all can be followed.
-/

namespace StaticSite

open StaticSite.Path (IsName)

theorem Entry.eq_directory {e : Entry} (h : e.isDirectory = true) : e = .directory := by
  cases e with
  | directory => rfl
  | file bytes | link target => cases h

/-! ## Paths that lead where they led -/

namespace Disk

variable {t : FileTree} {d d' : Disk} {p : Path} {out loc : Location} {e : Entry}
  {chain : WalkChain}

theorem link_kept (h : Agree out d d') {target : String}
    (hlink : d.tree.get? loc = some (.link target)) : d'.tree.get? loc = some (.link target) := by
  rw [h.outside loc (Bool.eq_false_iff.2 fun hbelow => h.noLink loc target hbelow hlink), hlink]

/-- What is there stays, as a directory or as something else; only a link stays a link. -/
theorem entry_kept (h : Agree out d d') (hkept : d.tree.Keeps d'.tree)
    (he : d.tree.get? loc = some e) (hlink : ∀ target, e ≠ .link target) :
    ∃ e', d'.tree.get? loc = some e' ∧ e'.isDirectory = e.isDirectory ∧
      ∀ target, e' ≠ .link target := by
  obtain ⟨e', he', hkind⟩ := Option.map_eq_some_iff.1 (hkept loc _ (FileTree.kind?_of_get? he))
  refine ⟨e', he', hkind, ?_⟩
  rintro target rfl
  cases hbelow : FileTree.isBelow out loc with
  | true => exact h.noLink' loc target hbelow he'
  | false =>
    rw [h.outside loc hbelow, he] at he'
    exact hlink target (Option.some.inj he')

/-- **Following** goes on as it did. -/
theorem Walked.kept (h : Agree out d d') (hkept : d.tree.Keeps d'.tree) {follow : Bool} {links : Nat}
    {l : Location} {xs : List Step} (hw : Walked d.tree follow links loc xs l) :
    Walked d'.tree follow links loc xs l := by
  induction hw with
  | done => exact .done
  | stay hd _ ih => exact .stay (h.directories _ hd) ih
  | up hd _ ih => exact .up (h.directories _ hd) ih
  | into hd hn he hlink _ ih =>
    obtain ⟨e', he', -, hlink'⟩ := entry_kept h hkept he hlink
    exact .into (h.directories _ hd) hn he' hlink' ih
  | last hd hn he hfollow => exact .last (h.directories _ hd) hn (link_kept h he) hfollow
  | jump hd hn he hfollow _ ih =>
    exact .jump (h.directories _ hd) hn (link_kept h he) hfollow ih

theorem walk_kept (h : Agree out d d') (hkept : d.tree.Keeps d'.tree) {follow : Bool}
    (hp : walk d.tree ⟨follow, false⟩ maxLinks (d.start p) (steps p.text) = .ok loc) :
    walk d'.tree ⟨follow, false⟩ maxLinks (d'.start p) (steps p.text) = .ok loc := by
  rw [start_eq h.cwd]
  exact walk_eq_ok_iff.2 ((walk_eq_ok_iff.1 hp).kept h hkept)

theorem listed_kept (h : Agree out d d') (hkept : d.tree.Keeps d'.tree)
    (hp : d.listed p = .ok loc) : d'.listed p = .ok loc := walk_kept h hkept hp

theorem locate_kept (h : Agree out d d') (hkept : d.tree.Keeps d'.tree) {follow : Bool}
    (hp : d.locate ⟨follow, false⟩ p = .ok loc) : d'.locate ⟨follow, false⟩ p = .ok loc := by
  obtain ⟨haccepts, hwalk⟩ := locate_eq_ok_iff.1 hp
  exact locate_eq_ok_iff.2 ⟨haccepts.mono h.directories h.cwd, walk_kept h hkept hwalk⟩

theorem openDirectory_kept (h : Agree out d d') (hkept : d.tree.Keeps d'.tree)
    (hp : d.openDirectory p = .ok loc) : d'.openDirectory p = .ok loc := by
  obtain ⟨hlocate, hdirectory⟩ := openDirectory_eq_ok_iff.1 hp
  exact openDirectory_eq_ok_iff.2 ⟨locate_kept h hkept hlocate, h.directories loc hdirectory⟩

/-- Where a path does not lead to a link, it does not matter whether one would be followed. -/
theorem Walked.followed {links : Nat} {l : Location} {xs : List Step}
    (hw : Walked t false links loc xs l) (hl : ∀ target, t.get? l ≠ some (.link target)) :
    Walked t true links loc xs l := by
  induction hw with
  | done => exact .done
  | stay hd _ ih => exact .stay hd (ih hl)
  | up hd _ ih => exact .up hd (ih hl)
  | into hd hn he hlink _ ih => exact .into hd hn he hlink (ih hl)
  | last hd hn he hfollow => exact absurd he (hl _)
  | jump hd hn he hfollow _ ih => exact .jump hd hn he (.inr rfl) (ih hl)

/-- A walk visits what is there, or what a link that is there leads to. -/
theorem visit_eq_ok_iff : d.visit chain p = .ok (loc, e) ↔
    (d.listed p = .ok loc ∧ d.tree.get? loc = some e ∧ ∀ target, e ≠ .link target) ∨
    ∃ place target, d.listed p = .ok place ∧
      d.tree.get? place = some (.link target) ∧ d.locate ⟨true, false⟩ p = .ok loc ∧
      d.tree.get? loc = some e ∧ (e.isDirectory = true → chain.lookup loc = none) := by
  constructor
  · intro h
    obtain ⟨place, hplace, h⟩ := Logged.except_bind_eq_ok h
    rw [Logged.except_mapError_eq_ok_iff] at hplace
    split at h
    · next target hlink =>
      obtain ⟨found, hfound, h⟩ := Logged.except_bind_eq_ok h
      rw [Logged.except_mapError_eq_ok_iff] at hfound
      split at h
      · cases h
      · next hget hloop =>
        obtain ⟨rfl, rfl⟩ := Prod.mk.inj (Except.ok.inj h)
        refine .inr ⟨place, target, hplace, hlink, hfound, hget, fun hdir => ?_⟩
        refine Option.eq_none_iff_forall_ne_some.2 fun ancestor hancestor => ?_
        exact hloop ancestor hancestor (Entry.eq_directory hdir)
      · cases h
    · next hlink hget =>
      obtain ⟨rfl, rfl⟩ := Prod.mk.inj (Except.ok.inj h)
      exact .inl ⟨hplace, hget, hlink⟩
    · cases h
  · unfold visit
    rintro (⟨hplace, hget, hlink⟩ | ⟨place, target, hplace, hlink, hfound, hget, hloop⟩)
    · rw [hplace]
      dsimp only [Except.mapError, bind, Except.bind]
      rw [hget]
      cases e with
      | link target => exact absurd rfl (hlink target)
      | directory => rfl
      | file bytes => rfl
    · rw [hplace, hfound]
      dsimp only [Except.mapError, bind, Except.bind]
      rw [hlink]
      dsimp only
      rw [hget]
      cases e with
      | directory => rw [hloop rfl]
      | file bytes => rfl
      | link target => rfl

/-- What a walk visits is there to be visited, whatever has come below the directory. -/
theorem visit_kept (h : Agree out d d') (hkept : d.tree.Keeps d'.tree)
    (hp : d.visit chain p = .ok (loc, e)) :
    ∃ e', d'.visit chain p = .ok (loc, e') ∧ d'.tree.get? loc = some e' := by
  rcases visit_eq_ok_iff.1 hp with ⟨hplace, hget, hlink⟩ |
    ⟨place, target, hplace, hlink, hfound, hget, hloop⟩
  · obtain ⟨e', hget', -, hlink'⟩ := entry_kept h hkept hget hlink
    exact ⟨e', visit_eq_ok_iff.2 (.inl ⟨listed_kept h hkept hplace, hget', hlink'⟩), hget'⟩
  · obtain ⟨e', hget', hkind⟩ := Option.map_eq_some_iff.1 (hkept loc _ (FileTree.kind?_of_get? hget))
    exact ⟨e', visit_eq_ok_iff.2 (.inr ⟨place, target, listed_kept h hkept hplace,
      link_kept h hlink, locate_kept h hkept hfound, hget', fun hdir => hloop (hkind ▸ hdir)⟩), hget'⟩

/-- What a walk finds is where its path leads, if the system follows the path. -/
theorem locate_of_visit (haccepts : d.Accepts p) (h : d.visit chain p = .ok (loc, e)) :
    d.locate ⟨true, false⟩ p = .ok loc := by
  rcases visit_eq_ok_iff.1 h with ⟨hplace, hget, hlink⟩ | ⟨place, target, -, -, hfound, -⟩
  · refine locate_eq_ok_iff.2 ⟨haccepts, walk_eq_ok_iff.2 ((walk_eq_ok_iff.1 hplace).followed ?_)⟩
    rw [hget]
    exact fun target heq => hlink target (Option.some.inj heq)
  · exact hfound

end Disk

/-! ## What is reached -/

/-- What a walk from a path reaches: paths, each with the location and the entry that it leads to, links
followed. What is spelled below the output is passed over. -/
inductive Disk.Reaches (d : Disk) (output p : Path) : Path → Location → Entry → Prop
  | start {loc : Location} {e : Entry} (hstarts : p.startsWith output = false)
      (hp : d.locate ⟨true, false⟩ p = .ok loc) (he : d.tree.get? loc = some e) :
      Reaches d output p p loc e
  | into {q : Path} {dir loc : Location} {n : String} {e : Entry}
      (hq : Reaches d output p q dir .directory) (hn : n ∈ d.tree.names dir)
      (hstarts : (q.join ⟨n⟩).startsWith output = false)
      (hnext : d.locate ⟨true, false⟩ (q.join ⟨n⟩) = .ok loc) (he : d.tree.get? loc = some e) :
      Reaches d output p (q.join ⟨n⟩) loc e

section

variable {d : Disk} {plan : CopyPlan} {output p q : Path} {loc dir : Location} {e : Entry} {n : String}
  {chain : WalkChain}

namespace Disk.Reaches

theorem found (h : d.Reaches output p q loc e) : q.startsWith output = false ∧
    d.locate ⟨true, false⟩ q = .ok loc ∧ d.tree.get? loc = some e := by
  cases h with
  | start hstarts hp he => exact ⟨hstarts, hp, he⟩
  | into _ _ hstarts hnext he => exact ⟨hstarts, hnext, he⟩

/-- What is reached from a path in a directory is reached from the directory. -/
theorem down (hp : d.Reaches output p p dir .directory) (hn : n ∈ d.tree.names dir)
    (h : d.Reaches output (p.join ⟨n⟩) q loc e) : d.Reaches output p q loc e := by
  induction h with
  | start hstarts hnext he => exact .into hp hn hstarts hnext he
  | into _ hm hstarts hnext he ih => exact .into ih hm hstarts hnext he

/-- **Stability.** What is reached is still reached when something has come below a directory, if
nothing that is reached then lies in it: so what a path leads to has not changed. -/
theorem kept {d' : Disk} {out : Location} (hagree : Agree out d d') (hkept : d.tree.Keeps d'.tree)
    (hwalk : ∀ q loc e, d'.Reaches output p q loc e → ¬ out <+: loc)
    (h : d.Reaches output p q loc e) : d'.Reaches output p q loc e := by
  have hthere {q : Path} {loc : Location} {e : Entry} (he : d.tree.get? loc = some e)
      (hreach : ∀ e', d'.tree.get? loc = some e' → d'.Reaches output p q loc e') :
      d'.Reaches output p q loc e := by
    obtain ⟨e', he', -⟩ := Option.map_eq_some_iff.1 (hkept loc _ (FileTree.kind?_of_get? he))
    have hout := hwalk q loc e' (hreach e' he')
    obtain rfl := Option.some.inj (he'.symm.trans ((hagree.apart hout).trans he))
    exact hreach e' he'
  induction h with
  | start hstarts hp he =>
    exact hthere he fun e' he' => .start hstarts (Disk.locate_kept hagree hkept hp) he'
  | into _ hn hstarts hnext he ih =>
    refine hthere he fun e' he' => .into ih ?_ hstarts (Disk.locate_kept hagree hkept hnext) he'
    rwa [hagree.names _ (hwalk _ _ _ ih)]

end Disk.Reaches

/-- What is listed is reached, if the system follows its path. -/
theorem reaches_of_mem_survey {levels : Nat}
    (h : (q, .ok (loc, e)) ∈ plan.survey d levels chain p) (hq : d.Accepts q) :
    d.Reaches plan.output p q loc e := by
  induction levels generalizing chain p with
  | zero => cases CopyPlan.mem_survey_zero.1 h
  | succ levels ih =>
    rcases CopyPlan.mem_survey_succ.1 h with ⟨error, -, heq⟩ |
      ⟨place, entry, hvisit, hstarts, heq | ⟨rfl, ⟨error, -, heq⟩ | ⟨dir, hopen, n, hn, h⟩⟩⟩
    · cases heq
    · cases heq
      exact .start hstarts (Disk.locate_of_visit hq hvisit) (Disk.visit_eq_ok hvisit).2
    · cases heq
    · obtain rfl := Disk.openDirectory_of_visit hvisit hopen
      have hlocate := (Disk.openDirectory_eq_ok_iff.1 hopen).1
      exact (Disk.Reaches.start hstarts hlocate (Disk.visit_eq_ok hvisit).2).down hn (ih h)

theorem mem_survey_start {levels : Nat} (hstarts : p.startsWith plan.output = false) :
    ∃ r, (p, r) ∈ plan.survey d levels chain p := by
  cases levels with
  | zero => exact ⟨_, CopyPlan.mem_survey_zero.2 rfl⟩
  | succ levels =>
    cases hvisit : d.visit chain p with
    | error e => exact ⟨_, CopyPlan.mem_survey_succ.2 (.inl ⟨e, hvisit, rfl⟩)⟩
    | ok found =>
      exact ⟨_, CopyPlan.mem_survey_succ.2 (.inr ⟨found.1, found.2, hvisit, hstarts, .inl rfl⟩)⟩

/-- What is listed was visited on the way, and all that was listed from there on is listed. -/
theorem survey_from {levels : Nat} {found : Location × Entry}
    (h : (q, .ok found) ∈ plan.survey d levels chain p) :
    ∃ levels' chain', d.visit chain' q = .ok found ∧ q.startsWith plan.output = false ∧
      plan.survey d (levels' + 1) chain' q ⊆ plan.survey d levels chain p := by
  induction levels generalizing chain p with
  | zero => cases CopyPlan.mem_survey_zero.1 h
  | succ levels ih =>
    rcases CopyPlan.mem_survey_succ.1 h with ⟨error, -, heq⟩ |
      ⟨place, entry, hvisit, hnot, heq | ⟨rfl, ⟨error, -, heq⟩ | ⟨top, hopen, m, hm, h⟩⟩⟩
    · cases heq
    · cases heq
      exact ⟨levels, chain, hvisit, hnot, List.Subset.refl _⟩
    · cases heq
    · obtain ⟨levels', chain', hq, hstarts, hsub⟩ := ih h
      refine ⟨levels', chain', hq, hstarts, fun x hx => CopyPlan.mem_survey_succ.2 (.inr ?_)⟩
      exact ⟨place, _, hvisit, hnot, .inr ⟨rfl, .inr ⟨top, hopen, m, hm, hsub hx⟩⟩⟩

/-- Where a directory is listed, it has been opened and what is in it is met, or it is listed as well
that it could not be opened. -/
theorem mem_survey_directory {levels : Nat}
    (h : (q, .ok (dir, .directory)) ∈ plan.survey d levels chain p) :
    (∃ e, (q, .error e) ∈ plan.survey d levels chain p) ∨
      d.openDirectory q = .ok dir ∧ ∀ n ∈ d.tree.names dir,
        (q.join ⟨n⟩).startsWith plan.output = false →
          ∃ r, (q.join ⟨n⟩, r) ∈ plan.survey d levels chain p := by
  obtain ⟨levels', chain', hvisit, hnot, hsub⟩ := survey_from h
  rw [CopyPlan.survey_found hvisit hnot] at hsub
  cases hopen : d.openDirectory q with
  | error e =>
    rw [hopen] at hsub
    exact .inl ⟨e, hsub (List.mem_cons_of_mem _ List.mem_cons_self)⟩
  | ok found =>
    obtain rfl := Disk.openDirectory_of_visit hvisit hopen
    rw [hopen] at hsub
    refine .inr ⟨rfl, fun n hn hstarts => ?_⟩
    obtain ⟨r, hr⟩ := mem_survey_start hstarts
    exact ⟨r, hsub (List.mem_cons_of_mem _ (List.mem_flatMap.2 ⟨n, hn, hr⟩))⟩

/-- **Completeness.** What is reached is listed, if all that is met can be followed: what is met at
a path is what the path leads to. -/
theorem mem_survey_of_reaches {levels : Nat}
    (hall : ∀ x ∈ plan.survey d levels chain p, ∃ found, x.2 = .ok found)
    (h : d.Reaches plan.output p q loc e) : (q, .ok (loc, e)) ∈ plan.survey d levels chain p := by
  have hmet {q : Path} {loc : Location} {e : Entry} {r : Except OsError (Location × Entry)}
      (hlocate : d.locate ⟨true, false⟩ q = .ok loc) (he : d.tree.get? loc = some e)
      (hr : (q, r) ∈ plan.survey d levels chain p) :
      (q, .ok (loc, e)) ∈ plan.survey d levels chain p := by
    obtain ⟨⟨loc', e'⟩, hfound⟩ := hall _ hr
    obtain rfl : r = .ok (loc', e') := hfound
    have haccepts := (Disk.locate_eq_ok_iff.1 hlocate).1
    obtain ⟨-, hlocate', he'⟩ := (reaches_of_mem_survey hr haccepts).found
    obtain rfl := Except.ok.inj (hlocate.symm.trans hlocate')
    obtain rfl := Option.some.inj (he.symm.trans he')
    exact hr
  induction h with
  | start hstarts hp he =>
    obtain ⟨r, hr⟩ : ∃ r, (p, r) ∈ plan.survey d levels chain p := mem_survey_start hstarts
    exact hmet hp he hr
  | into _ hn hstarts hnext he ih =>
    rcases mem_survey_directory ih with ⟨error, herror⟩ | ⟨-, hinto⟩
    · obtain ⟨found, hfound⟩ := hall _ herror
      cases hfound
    · obtain ⟨r, hr⟩ := hinto _ hn hstarts
      exact hmet hnext he hr

/-- Where all that is met can be followed, the directories that are listed were opened. -/
theorem accepts_of_followed {levels : Nat}
    (hall : ∀ x ∈ plan.survey d levels chain p, ∃ found, x.2 = .ok found)
    (h : (q, .ok (dir, .directory)) ∈ plan.survey d levels chain p) : d.Accepts q := by
  rcases mem_survey_directory h with ⟨error, herror⟩ | ⟨hopen, -⟩
  · obtain ⟨found, hfound⟩ := hall _ herror
    cases hfound
  · exact (Disk.locate_eq_ok_iff.1 (Disk.openDirectory_eq_ok_iff.1 hopen).1).1

/-- All that is listed of a directory lies below it by names. -/
theorem mem_survey_below (hnamed : d.tree.Named) {levels : Nat} {r : Except OsError (Location × Entry)}
    (h : (q, r) ∈ plan.survey d levels chain p) : p.components <+: q.components := by
  induction levels generalizing chain p with
  | zero =>
    cases CopyPlan.mem_survey_zero.1 h
    exact List.prefix_rfl
  | succ levels ih =>
    rcases CopyPlan.mem_survey_succ.1 h with ⟨error, -, heq⟩ |
      ⟨place, entry, hvisit, -, heq | ⟨rfl, ⟨error, -, heq⟩ | ⟨dir, -, n, hn, h⟩⟩⟩
    · cases heq
      exact List.prefix_rfl
    · cases heq
      exact List.prefix_rfl
    · cases heq
      exact List.prefix_rfl
    · have hnext := ih h
      rw [Path.components_join_name p (hnamed.isName_of_mem_names hn)] at hnext
      exact (List.prefix_append _ _).trans hnext

/-- **Once.** Nothing is listed twice, if all that is met can be followed. -/
theorem survey_apart (plan : CopyPlan) (hnamed : d.tree.Named) (hdistinct : d.tree.Distinct) (levels : Nat)
    (chain : WalkChain) (p : Path) (hall : ∀ x ∈ plan.survey d levels chain p, ∃ found, x.2 = .ok found) :
    (plan.survey d levels chain p).Pairwise fun x y => x.1.components ≠ y.1.components := by
  induction levels generalizing chain p with
  | zero => exact List.pairwise_singleton _ _
  | succ levels ih =>
    cases hvisit : d.visit chain p with
    | error error =>
      rw [CopyPlan.survey_lost hvisit]
      exact List.pairwise_singleton _ _
    | ok found =>
      obtain ⟨place, entry⟩ := found
      cases hstarts : p.startsWith plan.output with
      | true =>
        rw [CopyPlan.survey_passed hvisit hstarts]
        exact .nil
      | false =>
        rw [CopyPlan.survey_found hvisit hstarts] at hall ⊢
        cases entry with
        | file bytes | link target => exact List.pairwise_singleton _ _
        | directory =>
          cases hopen : d.openDirectory p with
          | error error =>
            rw [hopen] at hall
            obtain ⟨found, hfound⟩ := hall _ (List.mem_cons_of_mem _ List.mem_cons_self)
            cases hfound
          | ok dir =>
            rw [hopen] at hall
            have hbelow {n : String} (hn : n ∈ d.tree.names dir)
                {x : Path × Except OsError (Location × Entry)}
                (hx : x ∈ plan.survey d levels ((dir, p) :: chain) (p.join ⟨n⟩)) :
                p.components ++ [.name n] <+: x.1.components := by
              rw [← Path.components_join_name p (hnamed.isName_of_mem_names hn)]
              exact mem_survey_below hnamed hx
            have hinto (n : String) (hn : n ∈ d.tree.names dir) := ih ((dir, p) :: chain) (p.join ⟨n⟩)
              fun x hx => hall x (List.mem_cons_of_mem _ (List.mem_flatMap.2 ⟨n, hn, hx⟩))
            refine List.pairwise_cons.2 ⟨fun x hx heq => ?_, List.pairwise_flatMap.2
              ⟨hinto, (FileTree.names_nodup hdistinct dir).imp_of_mem ?_⟩⟩
            · obtain ⟨n, hn, hx⟩ := List.mem_flatMap.1 hx
              have hlength := (heq ▸ hbelow hn hx).length_le
              rw [List.length_append, List.length_singleton] at hlength
              omega
            · intro n m hn hm hne x hx y hy heq
              have hx := hbelow hn hx
              rw [heq] at hx
              have hsame := List.prefix_of_prefix_length_le hx (hbelow hm hy) (by simp)
              rw [List.prefix_append_right_inj] at hsame
              simp [hne] at hsame

end

end StaticSite
