import StaticSite.Build.Run
import StaticSite.Proofs.Logged

/-!
What the steps of a build come to, and the changes that they make.

A step may make several changes before it fails, and what it did stays. Proved here:

* `bind_of_ok`, `bind_of_error`: what steps in sequence come to;
* `Leads.invariant`: what single changes of a kind keep, any number of them keeps;
* `copy_makes`: copying makes directories and files in the output, by induction on the levels of the
  walk;
* `buildPages_makes`: building pages makes them in the output, by induction on the pages;
* `afterCleaning_makes`: so a build makes no other changes once the output has been cleaned.
-/

namespace StaticSite

/-! ## Changes -/

namespace BuildState

/-- The state after a change. -/
def after (s : BuildState) (c : DiskChange) : BuildState := ⟨(c.apply s.disk).1, c :: s.changes⟩

/-- Changes of one kind lead from a state to another. -/
inductive Leads (Q : DiskChange → Prop) (s : BuildState) : BuildState → Prop
  | refl : Leads Q s s
  | change {t : BuildState} {c : DiskChange} (h : Leads Q s t) (hc : Q c) : Leads Q s (t.after c)

namespace Leads

variable {Q : DiskChange → Prop} {s t u : BuildState}

theorem trans (h : Leads Q s t) (h' : Leads Q t u) : Leads Q s u := by
  induction h' with
  | refl => exact h
  | change _ hc ih => exact ih.change hc

/-- **Invariants.** What every change of a kind keeps, any number of them keeps. -/
theorem invariant {I : BuildState → Prop} (h : Leads Q s t) (hs : I s)
    (hstep : ∀ s c, Q c → I s → I (s.after c)) : I t := by
  induction h with
  | refl => exact hs
  | change _ hc ih => exact hstep _ _ hc ih

end Leads

end BuildState

namespace BuildStep

variable {α β : Type} {Q : DiskChange → Prop}

theorem bind_of_ok {x : BuildStep α} {s : BuildState} {a : α} (h : (x s).2.result = .ok a)
    (f : α → BuildStep β) :
    ((x >>= f) s).1 = (f a (x s).1).1 ∧ ((x >>= f) s).2.result = (f a (x s).1).2.result := by
  rw [run_bind]
  unfold andThen
  generalize x s = r at h ⊢
  obtain ⟨t, log, result⟩ := r
  obtain rfl : result = .ok a := h
  exact ⟨rfl, rfl⟩

theorem bind_of_error {x : BuildStep α} {s : BuildState} {e : SiteError}
    (h : (x s).2.result = .error e) (f : α → BuildStep β) :
    ((x >>= f) s).1 = (x s).1 ∧ ((x >>= f) s).2.result = .error e := by
  rw [run_bind]
  unfold andThen
  generalize x s = r at h ⊢
  obtain ⟨t, log, result⟩ := r
  obtain rfl : result = .error e := h
  exact ⟨rfl, rfl⟩

/-- Steps in sequence end with the first one that fails. -/
theorem bind_cases (x : BuildStep α) (f : α → BuildStep β) (s : BuildState) :
    (∃ e, (x s).2.result = .error e ∧
      ((x >>= f) s).1 = (x s).1 ∧ ((x >>= f) s).2.result = .error e) ∨
    ∃ a, (x s).2.result = .ok a ∧
      ((x >>= f) s).1 = (f a (x s).1).1 ∧ ((x >>= f) s).2.result = (f a (x s).1).2.result := by
  cases h : (x s).2.result with
  | error e => exact .inl ⟨e, rfl, bind_of_error h f⟩
  | ok a => exact .inr ⟨a, rfl, bind_of_ok h f⟩

theorem bind_eq_ok {x : BuildStep α} {f : α → BuildStep β} {s : BuildState} {r : β}
    (h : ((x >>= f) s).2.result = .ok r) :
    ∃ a, (x s).2.result = .ok a ∧ ((x >>= f) s).1 = (f a (x s).1).1 ∧
      (f a (x s).1).2.result = .ok r := by
  rcases bind_cases x f s with ⟨e, -, -, he⟩ | ⟨a, ha, hstate, hresult⟩
  · cases h.symm.trans he
  · exact ⟨a, ha, hstate, hresult.symm.trans h⟩

/-- Steps in sequence that come to the same one after another come to the same. -/
theorem bind_congr_at {x x' : BuildStep α} {f f' : α → BuildStep β} {s : BuildState}
    (hx : x s = x' s) (hf : ∀ a, (x s).2.result = .ok a → f a (x s).1 = f' a (x s).1) :
    (x >>= f) s = (x' >>= f') s := by
  rw [run_bind, run_bind]
  unfold andThen
  rw [← hx]
  generalize x s = r at hf ⊢
  obtain ⟨t, log, result⟩ := r
  cases result with
  | error e => rfl
  | ok a =>
    dsimp only at hf ⊢
    rw [hf a rfl]

theorem look_bind_run {r : Disk → Except SiteError α} {f : α → BuildStep β} {s : BuildState} :
    (look (fun d => Logged.lift (r d)) >>= f) s =
      match r s.disk with
      | .ok a => f a s
      | .error e => BuildStep.fail e s := by
  rw [run_bind]
  unfold andThen look
  dsimp only
  cases r s.disk with
  | error e => rfl
  | ok a => rfl

theorem look_ok_bind_run (g : Disk → α) (f : α → BuildStep β) (s : BuildState) :
    (look (fun d => .ok (g d)) >>= f) s = f (g s.disk) s := rfl

@[simp] theorem fail_bind (e : SiteError) (f : α → BuildStep β) : fail e >>= f = fail e := rfl

theorem bind_assoc_eq {γ : Type} (x : BuildStep α) (f : α → BuildStep β) (g : β → BuildStep γ) :
    x >>= f >>= g = x >>= fun a => f a >>= g := by
  funext s
  rcases h : x s with ⟨t, log, result⟩
  cases result with
  | error e =>
    rw [run_bind, run_bind]
    unfold andThen
    rw [run_bind]
    unfold andThen
    rw [h]
  | ok a =>
    rw [run_bind, run_bind]
    unfold andThen
    rw [run_bind]
    unfold andThen
    rw [h]
    dsimp only
    rcases hf : f a t with ⟨u, log', result'⟩
    cases result' with
    | error e =>
      rw [run_bind]
      unfold andThen
      rw [hf]
    | ok b =>
      rw [run_bind]
      unfold andThen
      rw [hf]
      dsimp only
      rw [List.append_assoc]

instance : LawfulMonad BuildStep := by
  refine LawfulMonad.mk' _ ?_ (fun _ _ => rfl) bind_assoc_eq
  intro α x
  funext s
  show ((x >>= fun a => pure a) s) = x s
  rw [run_bind]
  unfold andThen
  rcases x s with ⟨t, log, result⟩
  cases result with
  | error e => rfl
  | ok a => simp [Logged.ok]

theorem result_ofExcept (r : Except SiteError α) (s : BuildState) :
    (ofExcept r s).2.result = r := by
  cases r with
  | error e => rfl
  | ok a => rfl

theorem state_change (c : DiskChange) (s : BuildState) : (change c s).1 = s.after c := rfl

theorem result_change (c : DiskChange) (s : BuildState) :
    (change c s).2.result = (c.apply s.disk).2.mapError (SiteError.io c.subject) := rfl

theorem result_change_of_ok {c : DiskChange} {s : BuildState} (h : (c.apply s.disk).2 = .ok ()) :
    (change c s).2.result = .ok () := by
  rw [result_change, h]
  rfl

theorem result_change_of_error {c : DiskChange} {s : BuildState} {e : OsError}
    (h : (c.apply s.disk).2 = .error e) :
    (change c s).2.result = .error (.io c.subject e) := by
  rw [result_change, h]
  rfl

/-- On disks with a property, all that a step does is changes of one kind. -/
def Makes (I : Disk → Prop) (Q : DiskChange → Prop) (x : BuildStep α) : Prop :=
  ∀ s : BuildState, I s.disk → s.Leads Q (x s).1

namespace Makes

variable {I : Disk → Prop}

theorem pure (a : α) : Makes I Q (Pure.pure a : BuildStep α) := fun _ _ => .refl

theorem look (f : Disk → Logged SiteError α) : Makes I Q (BuildStep.look f) := fun _ _ => .refl

theorem fail (e : SiteError) : Makes I Q (BuildStep.fail e : BuildStep α) := .look _

theorem record (level : LogLevel) (text : String) : Makes I Q (BuildStep.record level text) :=
  .look _

theorem ofExcept (r : Except SiteError α) : Makes I Q (BuildStep.ofExcept r) := .look _

theorem change {c : DiskChange} (hc : Q c) : Makes I Q (BuildStep.change c) :=
  fun _ _ => .change .refl hc

/-- After a first step the disk still has a property that the changes keep. -/
theorem bind {x : BuildStep α} {f : α → BuildStep β} (hkept : ∀ d c, Q c → I d → I (c.apply d).1)
    (hx : Makes I Q x) (hf : ∀ a, Makes I Q (f a)) : Makes I Q (x >>= f) := by
  intro s hs
  have hleads := hx s hs
  cases h : (x s).2.result with
  | error e =>
    rw [(bind_of_error h f).1]
    exact hleads
  | ok a =>
    rw [(bind_of_ok h f).1]
    exact hleads.trans (hf a _ (hleads.invariant (I := fun s => I s.disk) hs fun s c hc =>
      hkept s.disk c hc))

/-- After a step that changes nothing, only what it can give counts. -/
theorem of_unchanged {x : BuildStep α} {f : α → BuildStep β} (hx : ∀ s, (x s).1 = s)
    (hf : ∀ s a, I s.disk → (x s).2.result = .ok a → Makes I Q (f a)) : Makes I Q (x >>= f) := by
  intro s hs
  cases h : (x s).2.result with
  | error e =>
    rw [(bind_of_error h f).1, hx]
    exact .refl
  | ok a =>
    rw [(bind_of_ok h f).1, hx]
    exact hf s a hs h s hs

theorem look_bind {f : Disk → Logged SiteError α} {g : α → BuildStep β}
    (h : ∀ d a, I d → (f d).result = .ok a → Makes I Q (g a)) :
    Makes I Q (BuildStep.look f >>= g) :=
  of_unchanged (fun _ => rfl) fun s a => h s.disk a

theorem ofExcept_bind {r : Except SiteError α} {f : α → BuildStep β}
    (h : ∀ a, r = .ok a → Makes I Q (f a)) : Makes I Q (BuildStep.ofExcept r >>= f) :=
  of_unchanged (fun _ => rfl) fun s a _ ha => h a ((result_ofExcept r s).symm.trans ha)

theorem attempt {x : BuildStep α} (hx : Makes I Q x) : Makes I Q x.attempt := hx

theorem ite {c : Prop} [Decidable c] {x y : BuildStep α} (hx : Makes I Q x) (hy : Makes I Q y) :
    Makes I Q (if c then x else y) := by
  split
  · exact hx
  · exact hy

end Makes

section

variable {I : Disk → Prop} (hkept : ∀ d c, Q c → I d → I (c.apply d).1)
include hkept

/-! ## Copying -/

theorem copyEach_makes {copy : Path → BuildStep Nat} {ps : List Path}
    (h : ∀ p ∈ ps, Makes I Q (copy p)) : Makes I Q (copyEach copy ps) := by
  induction ps with
  | nil => exact .pure 0
  | cons p ps ih =>
    have hrest := ih fun q hq => h q (List.mem_cons_of_mem _ hq)
    exact .bind hkept (h p List.mem_cons_self) fun n => .bind hkept hrest fun m => .pure (n + m)

/-- The changes that copying to an output makes for the paths that a walk can meet. Those that are
spelled below the output are passed over. -/
structure CopyChanges (plan : CopyPlan) (I : Disk → Prop) (Met : Path → Prop)
    (Q : DiskChange → Prop) : Prop where
  into : ∀ d loc p n, I d → Met p → n ∈ d.tree.names loc → Met (p.join ⟨n⟩)
  directory : ∀ p, Met p → p.startsWith plan.output = false →
    Q (.createDirectories (plan.target p))
  parent : ∀ p parent, Met p → p.startsWith plan.output = false →
    (plan.target p).parent? = some parent → Q (.createDirectories parent)
  file : ∀ p, Met p → p.startsWith plan.output = false → Q (.copyFile p (plan.target p))

theorem copy_makes {plan : CopyPlan} {Met : Path → Prop} (h : CopyChanges plan I Met Q)
    (levels : Nat) (chain : WalkChain) {p : Path} (hp : Met p) :
    Makes I Q (plan.copy levels chain p) := by
  induction levels generalizing chain p with
  | zero => exact .fail _
  | succ levels ih =>
    unfold CopyPlan.copy
    refine .bind hkept (.look _) fun ⟨loc, entry⟩ => ?_
    dsimp only
    split
    · exact .pure 0
    · next hstarts =>
    have hstarts := Bool.eq_false_iff.2 hstarts
    cases entry with
    | directory =>
      refine .bind hkept (.look _) fun opened => .bind hkept (.change (h.directory p hp hstarts))
        fun _ => .bind hkept (.ofExcept _) fun dir => .look_bind fun d names hd hnames => ?_
      obtain rfl := Except.ok.inj hnames
      refine copyEach_makes hkept fun q hq => ?_
      obtain ⟨n, hn, rfl⟩ := List.mem_map.1 hq
      exact ih _ (h.into d dir p n hd hp hn)
    | file _ | link _ =>
      have hfile : Makes I Q (do
          .change (.copyFile p (plan.target p))
          .record .debug ("copied " ++ (plan.relative p).text)
          return 1) :=
        .bind hkept (.change (h.file p hp hstarts)) fun _ =>
          .bind hkept (.record _ _) fun _ => .pure 1
      dsimp only
      split
      · exact .bind hkept (.change (h.parent p _ hp hstarts ‹_›)) fun _ => hfile
      · exact hfile

theorem copyDependency_makes {root output relative : Path} {Met : Path → Prop}
    (h : CopyChanges ⟨root, output⟩ I Met Q) (hmet : Met (root.join relative)) :
    Makes I Q (copyDependency root relative output) := by
  have hcopy : Makes I Q (do
      let copied ← (CopyPlan.mk root output).copy Disk.maxPathBytes [] (root.join relative)
      .record .info ("Copied " ++ relative.text ++ " (" ++ toString copied ++ " file(s))")
      return copied) :=
    .bind hkept (copy_makes hkept h _ _ hmet) fun copied =>
      .bind hkept (.record _ _) fun _ => .pure copied
  exact .bind hkept (.look _) fun _ => .ite (.bind hkept (.fail _) fun _ => hcopy) hcopy

theorem copyDependencies_makes {root output : Path} {Met : Path → Prop}
    (h : CopyChanges ⟨root, output⟩ I Met Q) {ps : List Path}
    (hmet : ∀ p ∈ ps, ∀ relative, p.withinSite = .ok relative → Met (root.join relative)) :
    Makes I Q (copyDependencies root output ps) := by
  induction ps with
  | nil => exact .pure 0
  | cons p ps ih =>
    have hrest := ih fun q hq => hmet q (List.mem_cons_of_mem _ hq)
    exact .ofExcept_bind fun relative hrelative =>
      .bind hkept (copyDependency_makes hkept h (hmet p List.mem_cons_self relative hrelative))
        fun n => .bind hkept hrest fun m => .pure (n + m)

theorem indexArticles_makes (root content : Path) : Makes I Q (indexArticles root content) :=
  .bind hkept (.ofExcept _) fun _ => .bind hkept (.look _) fun index =>
    .ite (.bind hkept (.record _ _) fun _ => .pure index) (.pure index)

end

/-! ## Pages -/

end BuildStep

namespace PageBuilder

variable {b : PageBuilder} {d : Disk} {page target : Path} {markup : String}

/-- The markup of a page before it gets its articles. -/
def expansion (b : PageBuilder) (d : Disk) (page : Path) : Logged SiteError String :=
  if page.hasExtension "json" then b.describedMarkup d page
  else (b.site d).parse page.text Scope.empty true

/-- The file that a page belongs in. -/
def fileOf (b : PageBuilder) (page : Path) : Path :=
  b.output.join (if page.hasExtension "json" then page.withExtension "html" else page)

theorem render_eq (b : PageBuilder) (d : Disk) (page : Path) :
    b.render d page =
      if d.isFile (b.root.join page) then
        b.expansion d page >>= fun markup =>
          b.articles.embed b.formats d markup (.file page) >>= fun markup =>
            pure (markup, b.fileOf page)
      else .fail (.missingFile (b.root.join page) "the page list") := by
  unfold render expansion fileOf
  dsimp only
  cases hfile : d.isFile (b.root.join page) with
  | false => rfl
  | true =>
    cases hjson : page.hasExtension "json" with
    | false => rfl
    | true => rfl

theorem render_eq_ok_iff :
    (b.render d page).result = .ok (markup, target) ↔
      d.isFile (b.root.join page) = true ∧ target = b.fileOf page ∧
        ∃ expanded, (b.expansion d page).result = .ok expanded ∧
          (b.articles.embed b.formats d expanded (.file page)).result = .ok markup := by
  rw [render_eq]
  constructor
  · intro h
    split at h
    · next hfile =>
      obtain ⟨expanded, hexpanded, h⟩ := Logged.bind_eq_ok h
      obtain ⟨embedded, hembedded, h⟩ := Logged.bind_eq_ok h
      obtain ⟨rfl, rfl⟩ := Prod.mk.inj (Except.ok.inj h)
      exact ⟨hfile, rfl, expanded, hexpanded, hembedded⟩
    · cases h
  · rintro ⟨hfile, rfl, expanded, hexpanded, hembedded⟩
    rw [if_pos hfile, Logged.result_bind_of_ok hexpanded, Logged.result_bind_of_ok hembedded]
    rfl

/-- A page of the site is expanded and gets its articles: this is its markup, and this the file it
belongs in. -/
def Renders (b : PageBuilder) (d : Disk) (page : Path) (markup : String) (target : Path) : Prop :=
  ∃ relative expanded, page.withinSite = .ok relative ∧ d.isFile (b.root.join relative) = true ∧
    (b.expansion d relative).result = .ok expanded ∧
    (b.articles.embed b.formats d expanded (.file relative)).result = .ok markup ∧
    target = b.fileOf relative

theorem renders_iff :
    b.Renders d page markup target ↔
      ∃ relative, page.withinSite = .ok relative ∧
        (b.render d relative).result = .ok (markup, target) := by
  constructor
  · rintro ⟨relative, expanded, hrelative, hfile, hexpanded, hembedded, htarget⟩
    exact ⟨relative, hrelative, render_eq_ok_iff.2 ⟨hfile, htarget, expanded, hexpanded, hembedded⟩⟩
  · rintro ⟨relative, hrelative, hrender⟩
    obtain ⟨hfile, htarget, expanded, hexpanded, hembedded⟩ := render_eq_ok_iff.1 hrender
    exact ⟨relative, expanded, hrelative, hfile, hexpanded, hembedded, htarget⟩

end PageBuilder

namespace BuildStep

variable {α β : Type} {I : Disk → Prop} {Q : DiskChange → Prop}

theorem build_of_site_error {b : PageBuilder} {page : Path} {s : BuildState} {e : SiteError}
    (hp : page.withinSite = .error e) :
    (b.build page s).1 = s ∧ (b.build page s).2.result = .error e :=
  bind_of_error ((result_ofExcept page.withinSite s).trans hp) _

theorem build_of_render_error {b : PageBuilder} {page relative : Path} {s : BuildState}
    {e : SiteError} (hp : page.withinSite = .ok relative)
    (hr : (b.render s.disk relative).result = .error e) :
    (b.build page s).1 = s ∧ (b.build page s).2.result = .error e := by
  have hwithin := (result_ofExcept page.withinSite s).trans hp
  obtain ⟨hstate, hresult⟩ := bind_of_ok hwithin fun relative =>
    BuildStep.look (fun d => b.render d relative) >>= fun r =>
      PageBuilder.write r.2 r.1 >>= fun _ => pure r.2
  obtain ⟨hstate', hresult'⟩ := bind_of_error (x := BuildStep.look fun d => b.render d relative) hr
    fun r => PageBuilder.write r.2 r.1 >>= fun _ => pure r.2
  exact ⟨hstate.trans hstate', hresult.trans hresult'⟩

/-- A page is built by rendering it and writing what comes of it. -/
theorem build_of_render {b : PageBuilder} {page relative : Path} {s : BuildState}
    {r : String × Path} (hp : page.withinSite = .ok relative)
    (hr : (b.render s.disk relative).result = .ok r) :
    let write : BuildStep Path := PageBuilder.write r.2 r.1 >>= fun _ => pure r.2
    (b.build page s).1 = (write s).1 ∧ (b.build page s).2.result = (write s).2.result := by
  have hwithin := (result_ofExcept page.withinSite s).trans hp
  obtain ⟨hstate, hresult⟩ := bind_of_ok hwithin fun relative =>
    BuildStep.look (fun d => b.render d relative) >>= fun r =>
      PageBuilder.write r.2 r.1 >>= fun _ => pure r.2
  obtain ⟨hstate', hresult'⟩ := bind_of_ok (x := BuildStep.look fun d => b.render d relative) hr
    fun r => PageBuilder.write r.2 r.1 >>= fun _ => pure r.2
  exact ⟨hstate.trans hstate', hresult.trans hresult'⟩

/-- A page that is built has been rendered. -/
theorem exists_render_of_build {b : PageBuilder} {page target : Path} {s : BuildState}
    (h : (b.build page s).2.result = .ok target) :
    ∃ relative r, page.withinSite = .ok relative ∧ (b.render s.disk relative).result = .ok r := by
  cases hp : page.withinSite with
  | error e => cases (build_of_site_error hp).2.symm.trans h
  | ok relative =>
    cases hr : (b.render s.disk relative).result with
    | ok r => exact ⟨relative, r, rfl, hr⟩
    | error e => cases (build_of_render_error hp hr).2.symm.trans h

/-- The changes that writing the pages of a site makes. -/
structure PageChanges (b : PageBuilder) (Q : DiskChange → Prop) : Prop where
  directory : ∀ page relative : Path, page.withinSite = .ok relative →
    Q (.createDirectories (b.fileOf relative).directory)
  file : ∀ page relative : Path, page.withinSite = .ok relative → ∀ d temporary bytes,
    Disk.temporaryIn d (b.fileOf relative).directory = .ok temporary →
    Q (.writeFile temporary (b.fileOf relative) bytes)

section

variable (hkept : ∀ d c, Q c → I d → I (c.apply d).1)
include hkept

theorem build_makes {b : PageBuilder} (h : PageChanges b Q) (page : Path) :
    Makes I Q (b.build page) := by
  refine .ofExcept_bind fun relative hrelative => .look_bind fun d r _ hr => ?_
  obtain ⟨markup, target⟩ := r
  obtain ⟨-, rfl, -⟩ := PageBuilder.render_eq_ok_iff.1 hr
  refine .bind hkept ?_ fun _ => .pure _
  refine .bind hkept (.change (h.directory page relative hrelative)) fun _ => ?_
  refine .look_bind fun d temporary _ htemporary => .change ?_
  dsimp only [Logged.lift] at htemporary
  rw [Logged.except_mapError_eq_ok_iff] at htemporary
  exact h.file page relative hrelative d temporary _ htemporary

theorem buildPages_makes {b : PageBuilder} (h : PageChanges b Q) (keepGoing : Bool)
    (pages : List Path) (report : BuildReport) :
    Makes I Q (buildPages b keepGoing pages report) := by
  induction pages generalizing report with
  | nil => exact .pure report
  | cons page rest ih =>
    refine .bind hkept (build_makes hkept h page).attempt fun r => ?_
    cases r with
    | ok target => exact .bind hkept (.record _ _) fun _ => ih _
    | error e => exact .ite (.bind hkept (.record _ _) fun _ => ih _) (.fail e)

end

end BuildStep

/-! ## A build -/

/-- What a build does first: it cleans the output, if it is asked to. -/
def BuildOptions.cleaning (o : BuildOptions) : BuildStep Unit :=
  if o.clean then cleanOutput o.root o.target else pure ()

/-- All that a build does after the output has been cleaned. -/
def BuildOptions.afterCleaning (o : BuildOptions) (formats : Formats) : BuildStep BuildReport := do
  .change (.createDirectories o.target)
  let copied ← copyDependencies o.root o.target o.dependencies
  let articles ← indexArticles o.root o.content
  buildPages ⟨formats, o.root, o.maxDepth, o.target, articles⟩ o.keepGoing o.pages ⟨[], copied, []⟩

theorem steps_eq (o : BuildOptions) (formats : Formats) :
    o.steps formats = o.cleaning >>= fun _ => o.afterCleaning formats := by
  unfold BuildOptions.steps BuildOptions.cleaning
  cases o.clean with
  | true => rfl
  | false => rfl

/-- The changes that a build makes after the output has been cleaned. -/
structure OutputChanges (o : BuildOptions) (I : Disk → Prop) (Met : Path → Prop)
    (Q : DiskChange → Prop) : Prop where
  kept : ∀ d c, Q c → I d → I (c.apply d).1
  directory : Q (.createDirectories o.target)
  start : ∀ p ∈ o.dependencies, ∀ relative, p.withinSite = .ok relative → Met (o.root.join relative)
  dependencies : BuildStep.CopyChanges ⟨o.root, o.target⟩ I Met Q
  pages : ∀ b : PageBuilder, b.output = o.target → BuildStep.PageChanges b Q

theorem afterCleaning_makes {o : BuildOptions} {I : Disk → Prop} {Met : Path → Prop}
    {Q : DiskChange → Prop} (h : OutputChanges o I Met Q) (formats : Formats) :
    BuildStep.Makes I Q (o.afterCleaning formats) :=
  .bind h.kept (.change h.directory) fun _ =>
    .bind h.kept (BuildStep.copyDependencies_makes h.kept h.dependencies h.start) fun _ =>
      .bind h.kept (BuildStep.indexArticles_makes h.kept _ _) fun _ =>
        BuildStep.buildPages_makes h.kept (h.pages _ rfl) _ _ _

end StaticSite
