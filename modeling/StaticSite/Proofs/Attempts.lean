import StaticSite.Proofs.Steps

/-!
Builds that stop at the first failure, and builds that go on.

Both make ready in the same way, and attempt pages in their order. Proved here, for all options and
every disk:

* `steps_eq_prepare`: a build makes ready, and then builds its pages;
* `buildPages_going`: a build that goes on attempts every page once, and its report holds one entry
  for each attempt, by induction on the pages;
* `buildPages_of_succeeds`, `buildPages_congr`: while pages succeed, both kinds of build are in the
  same state;
* `buildPages_stops`: a build that stops is left as the first failure leaves it, whatever pages
  come after;
* `exists_attempts_of_report`: the report of either kind of build is on the attempts of all its pages;
* `failure_modes_agree`: so the two kinds of build differ only in what follows the first failure.
-/

namespace StaticSite

/-! ## Attempts -/

/-- An attempt to build a page: what came of it, and the state that it left. -/
structure PageAttempt where
  page : Path
  outcome : Except SiteError Path
  after : BuildState

namespace PageAttempt

/-- The file that was written. -/
def written? (a : PageAttempt) : Option Path := a.outcome.toOption

/-- The failure, with its page. -/
def failure? (a : PageAttempt) : Option PageFailure :=
  match a.outcome with
  | .ok _ => none
  | .error e => some ⟨a.page, e⟩

/-- The state after some attempts that start in a state. -/
def last (s : BuildState) (attempts : List PageAttempt) : BuildState :=
  attempts.foldl (fun _ a => a.after) s

/-- The report on some attempts: an entry for each, in their order. -/
def tally (copied : Nat) (attempts : List PageAttempt) : BuildReport :=
  ⟨attempts.filterMap written?, copied, attempts.filterMap failure?⟩

section

variable {page target : Path} {e : SiteError} {after : BuildState}

@[simp] theorem written?_ok : written? ⟨page, .ok target, after⟩ = some target := rfl

@[simp] theorem written?_error : written? ⟨page, .error e, after⟩ = none := rfl

@[simp] theorem failure?_ok : failure? ⟨page, .ok target, after⟩ = none := rfl

@[simp] theorem failure?_error : failure? ⟨page, .error e, after⟩ = some ⟨page, e⟩ := rfl

end

theorem failure?_of_error {a : PageAttempt} {e : SiteError} (h : a.outcome = .error e) :
    a.failure? = some ⟨a.page, e⟩ := by
  unfold failure?
  rw [h]

theorem failure?_eq_none_iff {a : PageAttempt} :
    a.failure? = none ↔ ∃ target, a.outcome = .ok target := by
  unfold failure?
  cases a.outcome with
  | ok target => simp
  | error e => simp

/-- Every attempt has one entry in the report. -/
theorem length_tally (copied : Nat) (attempts : List PageAttempt) :
    (tally copied attempts).written.length + (tally copied attempts).failures.length =
      attempts.length := by
  induction attempts with
  | nil => rfl
  | cons a attempts ih =>
    obtain ⟨page, outcome, after⟩ := a
    dsimp only [tally] at ih ⊢
    cases outcome with
    | ok target =>
      simp only [List.filterMap_cons, written?_ok, failure?_ok, List.length_cons]
      omega
    | error e =>
      simp only [List.filterMap_cons, written?_error, failure?_error, List.length_cons]
      omega

/-- The first failure in the report is the one of the first attempt that failed. -/
theorem head?_failures_tally (copied : Nat) {before after : List PageAttempt} {a : PageAttempt}
    {e : SiteError} (hbefore : ∀ x ∈ before, x.failure? = none) (he : a.outcome = .error e) :
    (tally copied (before ++ a :: after)).failures.head? = some ⟨a.page, e⟩ := by
  dsimp only [tally]
  rw [List.filterMap_append, List.filterMap_eq_nil_iff.2 hbefore,
    List.filterMap_cons_some (failure?_of_error he)]
  rfl

end PageAttempt

/-- The attempts of a build that goes on. Each starts in the state that the one before it left. -/
def PageBuilder.attempts (b : PageBuilder) (s : BuildState) : List Path → List PageAttempt
  | [] => []
  | page :: rest =>
    let (s', r) := b.build page s
    ⟨page, r.result, s'⟩ :: b.attempts s' rest

/-- Builds one page after another while they succeed. -/
def PageBuilder.Succeeds (b : PageBuilder) (s : BuildState) (pages : List Path) : Prop :=
  ∀ a ∈ b.attempts s pages, a.failure? = none

section

variable {b : PageBuilder} {s : BuildState} {page : Path} {rest pages : List Path}

theorem attempts_cons (b : PageBuilder) (s : BuildState) (page : Path) (rest : List Path) :
    b.attempts s (page :: rest) =
      ⟨page, (b.build page s).2.result, (b.build page s).1⟩ ::
        b.attempts (b.build page s).1 rest := rfl

theorem map_page_attempts (b : PageBuilder) (s : BuildState) (pages : List Path) :
    (b.attempts s pages).map PageAttempt.page = pages := by
  induction pages generalizing s with
  | nil => rfl
  | cons page rest ih => rw [attempts_cons, List.map_cons, ih]

theorem attempts_append (b : PageBuilder) (s : BuildState) (before after : List Path) :
    b.attempts s (before ++ after) =
      b.attempts s before ++ b.attempts (PageAttempt.last s (b.attempts s before)) after := by
  induction before generalizing s with
  | nil => rfl
  | cons page before ih =>
    rw [List.cons_append, attempts_cons, attempts_cons, ih, List.cons_append]
    rfl

theorem PageBuilder.Succeeds.cons (h : b.Succeeds s (page :: rest)) :
    (∃ target, (b.build page s).2.result = .ok target) ∧ b.Succeeds (b.build page s).1 rest := by
  unfold PageBuilder.Succeeds at h
  rw [attempts_cons, List.forall_mem_cons] at h
  exact ⟨PageAttempt.failure?_eq_none_iff.1 h.1, h.2⟩

/-- A page that is attempted where it stands in the list. -/
theorem exists_split_of_attempts {before after : List PageAttempt} {a : PageAttempt}
    (h : b.attempts s pages = before ++ a :: after) :
    ∃ front back, pages = front ++ a.page :: back ∧ b.attempts s front = before ∧
      (b.build a.page (PageAttempt.last s before)).2.result = a.outcome ∧
      (b.build a.page (PageAttempt.last s before)).1 = a.after := by
  induction pages generalizing s before with
  | nil => simp [PageBuilder.attempts] at h
  | cons page rest ih =>
    rw [attempts_cons] at h
    cases before with
    | nil =>
      obtain ⟨rfl, -⟩ := List.cons.inj h
      exact ⟨[], rest, rfl, rfl, rfl, rfl⟩
    | cons first before =>
      rw [List.cons_append] at h
      obtain ⟨rfl, hrest⟩ := List.cons.inj h
      obtain ⟨front, back, rfl, hfront, hresult, hstate⟩ := ih hrest
      refine ⟨page :: front, back, rfl, ?_, hresult, hstate⟩
      rw [attempts_cons, hfront]

end

/-! ## Pages one after another -/

section

variable {b : PageBuilder} {s : BuildState} {keepGoing keepGoing' : Bool} {page : Path}
  {rest rest' before : List Path} {report : BuildReport}

theorem result_attempt {α : Type} (x : BuildStep α) (s : BuildState) :
    (x.attempt s).2.result = .ok (x s).2.result := rfl

/-- A page that succeeds is added to the report, and the build goes on. -/
theorem buildPages_cons_of_ok (keepGoing : Bool) (rest : List Path) (report : BuildReport)
    {target : Path} (h : (b.build page s).2.result = .ok target) :
    (buildPages b keepGoing (page :: rest) report s).1 =
        (buildPages b keepGoing rest { report with written := report.written ++ [target] }
          (b.build page s).1).1 ∧
      (buildPages b keepGoing (page :: rest) report s).2.result =
        (buildPages b keepGoing rest { report with written := report.written ++ [target] }
          (b.build page s).1).2.result := by
  have hattempt : ((b.build page).attempt s).2.result = .ok (.ok target) := by
    rw [result_attempt, h]
  exact BuildStep.bind_of_ok hattempt _

theorem buildPages_cons_congr {target : Path} (h : (b.build page s).2.result = .ok target)
    (hrest : buildPages b keepGoing rest { report with written := report.written ++ [target] }
        (b.build page s).1 =
      buildPages b keepGoing' rest' { report with written := report.written ++ [target] }
        (b.build page s).1) :
    buildPages b keepGoing (page :: rest) report s =
      buildPages b keepGoing' (page :: rest') report s := by
  unfold buildPages
  refine BuildStep.bind_congr_at rfl fun outcome houtcome => ?_
  rw [result_attempt, h] at houtcome
  obtain rfl := Except.ok.inj houtcome
  exact BuildStep.bind_congr_at rfl fun _ _ => hrest

/-- A build that goes on notes a failure. -/
theorem buildPages_cons_of_error (rest : List Path) (report : BuildReport) {e : SiteError}
    (h : (b.build page s).2.result = .error e) :
    (buildPages b true (page :: rest) report s).1 =
        (buildPages b true rest { report with failures := report.failures ++ [⟨page, e⟩] }
          (b.build page s).1).1 ∧
      (buildPages b true (page :: rest) report s).2.result =
        (buildPages b true rest { report with failures := report.failures ++ [⟨page, e⟩] }
          (b.build page s).1).2.result := by
  have hattempt : ((b.build page).attempt s).2.result = .ok (.error e) := by
    rw [result_attempt, h]
  exact BuildStep.bind_of_ok hattempt _

/-- A build that stops ends with a failure. -/
theorem buildPages_cons_stops (rest : List Path) (report : BuildReport) {e : SiteError}
    (h : (b.build page s).2.result = .error e) :
    (buildPages b false (page :: rest) report s).1 = (b.build page s).1 ∧
      (buildPages b false (page :: rest) report s).2.result = .error e := by
  have hattempt : ((b.build page).attempt s).2.result = .ok (.error e) := by
    rw [result_attempt, h]
  exact BuildStep.bind_of_ok hattempt _

theorem buildPages_cons_stops_congr {e : SiteError} (h : (b.build page s).2.result = .error e) :
    buildPages b false (page :: rest) report s = buildPages b false (page :: rest') report s := by
  unfold buildPages
  refine BuildStep.bind_congr_at rfl fun outcome houtcome => ?_
  rw [result_attempt, h] at houtcome
  obtain rfl := Except.ok.inj houtcome
  rfl

/-- **Going on.** A build that goes on attempts every page, and reports on every attempt. -/
theorem buildPages_going (b : PageBuilder) (pages : List Path) (report : BuildReport)
    (s : BuildState) :
    (buildPages b true pages report s).1 = PageAttempt.last s (b.attempts s pages) ∧
      (buildPages b true pages report s).2.result =
        .ok ⟨report.written ++ (b.attempts s pages).filterMap PageAttempt.written?, report.copied,
          report.failures ++ (b.attempts s pages).filterMap PageAttempt.failure?⟩ := by
  induction pages generalizing report s with
  | nil => exact ⟨rfl, by simp [buildPages, PageBuilder.attempts, Logged.ok]⟩
  | cons page rest ih =>
    cases h : (b.build page s).2.result with
    | ok target =>
      obtain ⟨hstate, hresult⟩ := buildPages_cons_of_ok true rest report h
      obtain ⟨hstate', hresult'⟩ := ih { report with written := report.written ++ [target] }
        (b.build page s).1
      refine ⟨hstate.trans hstate', hresult.trans (hresult'.trans ?_)⟩
      simp [attempts_cons, h, List.filterMap_cons]
    | error e =>
      obtain ⟨hstate, hresult⟩ := buildPages_cons_of_error rest report h
      obtain ⟨hstate', hresult'⟩ := ih { report with failures := report.failures ++ [⟨page, e⟩] }
        (b.build page s).1
      refine ⟨hstate.trans hstate', hresult.trans (hresult'.trans ?_)⟩
      simp [attempts_cons, h, List.filterMap_cons]

/-- Pages that succeed leave both kinds of build in the same state. -/
theorem buildPages_of_succeeds (report : BuildReport) (h : b.Succeeds s before) :
    ∃ report' : BuildReport, ∀ keepGoing rest,
      (buildPages b keepGoing (before ++ rest) report s).1 =
          (buildPages b keepGoing rest report' (PageAttempt.last s (b.attempts s before))).1 ∧
        (buildPages b keepGoing (before ++ rest) report s).2.result =
          (buildPages b keepGoing rest report'
            (PageAttempt.last s (b.attempts s before))).2.result := by
  induction before generalizing report s with
  | nil => exact ⟨report, fun _ _ => ⟨rfl, rfl⟩⟩
  | cons page before ih =>
    obtain ⟨⟨target, htarget⟩, hbefore⟩ := h.cons
    obtain ⟨report', hrest⟩ := ih { report with written := report.written ++ [target] } hbefore
    refine ⟨report', fun keepGoing rest => ?_⟩
    obtain ⟨hstate, hresult⟩ := buildPages_cons_of_ok keepGoing (before ++ rest) report htarget
    obtain ⟨hstate', hresult'⟩ := hrest keepGoing rest
    exact ⟨hstate.trans hstate', hresult.trans hresult'⟩

/-- After pages that succeed, builds that go on alike have been alike. -/
theorem buildPages_congr (h : b.Succeeds s before)
    (hrest : ∀ report, buildPages b keepGoing rest report (PageAttempt.last s (b.attempts s before)) =
      buildPages b keepGoing' rest' report (PageAttempt.last s (b.attempts s before))) :
    buildPages b keepGoing (before ++ rest) report s =
      buildPages b keepGoing' (before ++ rest') report s := by
  induction before generalizing report s with
  | nil => exact hrest report
  | cons page before ih =>
    obtain ⟨⟨target, htarget⟩, hbefore⟩ := h.cons
    exact buildPages_cons_congr htarget (ih hbefore hrest)

/-- **Stopping.** A build that stops ends with its first failure, in the state that this leaves, and
comes to the same whatever pages follow. -/
theorem buildPages_stops (rest rest' : List Path) (report : BuildReport) {e : SiteError}
    (h : b.Succeeds s before)
    (he : (b.build page (PageAttempt.last s (b.attempts s before))).2.result = .error e) :
    (buildPages b false (before ++ page :: rest) report s).1 =
        (b.build page (PageAttempt.last s (b.attempts s before))).1 ∧
      (buildPages b false (before ++ page :: rest) report s).2.result = .error e ∧
      buildPages b false (before ++ page :: rest) report s =
        buildPages b false (before ++ page :: rest') report s := by
  obtain ⟨report', hrun⟩ := buildPages_of_succeeds report h
  obtain ⟨hstate, hresult⟩ := hrun false (page :: rest)
  obtain ⟨hstate', hresult'⟩ := buildPages_cons_stops rest report' he
  exact ⟨hstate.trans hstate', hresult.trans hresult',
    buildPages_congr h fun _ => buildPages_cons_stops_congr he⟩

end

/-! ## Whole builds -/

/-- What a build does before its pages: it cleans and makes the output, copies dependencies and
indexes articles. Gives what the pages share, and the number of files copied. -/
def BuildOptions.prepare (o : BuildOptions) (formats : Formats) :
    BuildStep (PageBuilder × Nat) := do
  o.cleaning
  .change (.createDirectories o.target)
  let copied ← copyDependencies o.root o.target o.dependencies
  let articles ← indexArticles o.root o.content
  return (⟨formats, o.root, o.maxDepth, o.target, articles⟩, copied)

theorem steps_eq_prepare (o : BuildOptions) (formats : Formats) :
    o.steps formats = o.prepare formats >>= fun p =>
      buildPages p.1 o.keepGoing o.pages ⟨[], p.2, []⟩ := by
  rw [steps_eq]
  unfold BuildOptions.prepare BuildOptions.afterCleaning
  simp only [bind_assoc, pure_bind]

section

variable (o : BuildOptions) (formats : Formats) (s : BuildState)

/-- A build that cannot make ready does nothing else, whatever its pages are. -/
theorem steps_of_prepare_error {e : SiteError} (h : (o.prepare formats s).2.result = .error e)
    (keepGoing : Bool) (pages : List Path) :
    { o with keepGoing := keepGoing, pages := pages }.steps formats s =
      ((o.prepare formats s).1, ⟨(o.prepare formats s).2.log, .error e⟩) := by
  rw [steps_eq_prepare, BuildStep.run_bind]
  unfold BuildStep.andThen
  have hrun : { o with keepGoing := keepGoing, pages := pages }.prepare formats s =
    o.prepare formats s := rfl
  rw [hrun]
  generalize o.prepare formats s = r at h ⊢
  obtain ⟨t, log, result⟩ := r
  obtain rfl : result = .error e := h
  rfl

/-- A build that goes on reports on the attempts of all its pages. -/
theorem steps_going {b : PageBuilder} {copied : Nat}
    (h : (o.prepare formats s).2.result = .ok (b, copied)) (pages : List Path) :
    ({ o with keepGoing := true, pages := pages }.steps formats s).1 =
        PageAttempt.last (o.prepare formats s).1 (b.attempts (o.prepare formats s).1 pages) ∧
      ({ o with keepGoing := true, pages := pages }.steps formats s).2.result =
        .ok (PageAttempt.tally copied (b.attempts (o.prepare formats s).1 pages)) := by
  obtain ⟨hstate, hresult⟩ := BuildStep.bind_of_ok h fun p => buildPages p.1 true pages ⟨[], p.2, []⟩
  obtain ⟨hstate', hresult'⟩ :=
    buildPages_going b pages ⟨[], copied, []⟩ (o.prepare formats s).1
  rw [steps_eq_prepare]
  exact ⟨hstate.trans hstate', hresult.trans hresult'⟩

/-- A build that stops comes as far as its first failing page. -/
theorem steps_stopping {b : PageBuilder} {copied : Nat} {before : List Path} {page : Path}
    {e : SiteError} (h : (o.prepare formats s).2.result = .ok (b, copied))
    (hbefore : b.Succeeds (o.prepare formats s).1 before)
    (he : (b.build page (PageAttempt.last (o.prepare formats s).1
      (b.attempts (o.prepare formats s).1 before))).2.result = .error e) (rest rest' : List Path) :
    ({ o with keepGoing := false, pages := before ++ page :: rest }.steps formats s).1 =
        (b.build page (PageAttempt.last (o.prepare formats s).1
          (b.attempts (o.prepare formats s).1 before))).1 ∧
      ({ o with keepGoing := false, pages := before ++ page :: rest }.steps formats s).2.result =
        .error e ∧
      { o with keepGoing := false, pages := before ++ page :: rest }.steps formats s =
        { o with keepGoing := false, pages := before ++ page :: rest' }.steps formats s := by
  obtain ⟨hstate, hresult⟩ := BuildStep.bind_of_ok h fun p =>
    buildPages p.1 false (before ++ page :: rest) ⟨[], p.2, []⟩
  obtain ⟨hstate', hresult', hrest⟩ := buildPages_stops rest rest' ⟨[], copied, []⟩ hbefore he
  rw [steps_eq_prepare, steps_eq_prepare]
  refine ⟨hstate.trans hstate', hresult.trans hresult', ?_⟩
  refine BuildStep.bind_congr_at rfl fun p hp => ?_
  obtain rfl : (b, copied) = p := Except.ok.inj (h.symm.trans hp)
  exact hrest

/-- Without failures both kinds of build come to the same. -/
theorem steps_of_succeeds {b : PageBuilder} {copied : Nat}
    (h : (o.prepare formats s).2.result = .ok (b, copied))
    (hpages : b.Succeeds (o.prepare formats s).1 o.pages) :
    { o with keepGoing := false }.steps formats s =
      { o with keepGoing := true }.steps formats s := by
  rw [steps_eq_prepare, steps_eq_prepare]
  refine BuildStep.bind_congr_at rfl fun p hp => ?_
  obtain rfl : (b, copied) = p := Except.ok.inj (h.symm.trans hp)
  rw [← List.append_nil o.pages]
  exact buildPages_congr hpages fun _ => rfl

/-- Pages that do not all succeed come to a first that fails. -/
theorem exists_first_failure {b : PageBuilder} {s : BuildState} {pages : List Path}
    (h : ¬ b.Succeeds s pages) :
    ∃ before page rest e, pages = before ++ page :: rest ∧ b.Succeeds s before ∧
      (b.build page (PageAttempt.last s (b.attempts s before))).2.result = .error e := by
  induction pages generalizing s with
  | nil => exact absurd (fun a ha => absurd ha List.not_mem_nil) h
  | cons page rest ih =>
    cases hbuild : (b.build page s).2.result with
    | error e => exact ⟨[], page, rest, e, rfl, fun a ha => absurd ha List.not_mem_nil, hbuild⟩
    | ok target =>
      have hfirst : (⟨page, (b.build page s).2.result, (b.build page s).1⟩ : PageAttempt).failure? =
        none := PageAttempt.failure?_eq_none_iff.2 ⟨target, hbuild⟩
      have hrest : ¬ b.Succeeds (b.build page s).1 rest := by
        intro hrest
        refine h ?_
        unfold PageBuilder.Succeeds
        rw [attempts_cons, List.forall_mem_cons]
        exact ⟨hfirst, hrest⟩
      obtain ⟨before, failing, later, e, rfl, hbefore, hfails⟩ := ih hrest
      refine ⟨page :: before, failing, later, e, rfl, ?_, hfails⟩
      unfold PageBuilder.Succeeds
      rw [attempts_cons, List.forall_mem_cons]
      exact ⟨hfirst, hbefore⟩

/-- A build whose pages succeed, or that goes on, reports on the attempts of all its pages. -/
theorem steps_of_attempts {b : PageBuilder} {copied : Nat}
    (h : (o.prepare formats s).2.result = .ok (b, copied))
    (hpages : o.keepGoing = false → b.Succeeds (o.prepare formats s).1 o.pages) :
    (o.steps formats s).1 =
        PageAttempt.last (o.prepare formats s).1 (b.attempts (o.prepare formats s).1 o.pages) ∧
      (o.steps formats s).2.result =
        .ok (PageAttempt.tally copied (b.attempts (o.prepare formats s).1 o.pages)) := by
  have hgoing : o.steps formats s = { o with keepGoing := true }.steps formats s := by
    cases hmode : o.keepGoing with
    | true => rw [← hmode]
    | false =>
      have hsame : { o with keepGoing := false }.steps formats s = o.steps formats s := by
        rw [← hmode]
      exact hsame.symm.trans (steps_of_succeeds o formats s h (hpages hmode))
  rw [hgoing]
  exact steps_going o formats s h o.pages

/-- The pages of a build that stops have succeeded if it gives a report. -/
theorem succeeds_of_report {b : PageBuilder} {copied : Nat} {report : BuildReport}
    (h : (o.prepare formats s).2.result = .ok (b, copied)) (hmode : o.keepGoing = false)
    (hreport : (o.steps formats s).2.result = .ok report) :
    b.Succeeds (o.prepare formats s).1 o.pages := by
  refine Classical.byContradiction fun hpages => ?_
  have hsame : { o with keepGoing := false }.steps formats s = o.steps formats s := by
    rw [← hmode]
  obtain ⟨before, page, rest, e, hsplit, hbefore, hfails⟩ := exists_first_failure hpages
  obtain ⟨-, hstops, -⟩ := steps_stopping o formats s h hbefore hfails rest rest
  rw [← hsplit, hsame] at hstops
  cases hreport.symm.trans hstops

/-- **Reports.** A build that gives a report has attempted all its pages, one after another, and
the report is on these attempts. -/
theorem exists_attempts_of_report {report : BuildReport}
    (h : (o.steps formats s).2.result = .ok report) :
    ∃ b copied, (o.prepare formats s).2.result = .ok (b, copied) ∧
      report = PageAttempt.tally copied (b.attempts (o.prepare formats s).1 o.pages) ∧
      (o.steps formats s).1 =
        PageAttempt.last (o.prepare formats s).1 (b.attempts (o.prepare formats s).1 o.pages) := by
  cases hprepare : (o.prepare formats s).2.result with
  | error e =>
    have hfails := congrArg (fun r => r.2.result)
      (steps_of_prepare_error o formats s hprepare o.keepGoing o.pages)
    cases h.symm.trans hfails
  | ok p =>
    obtain ⟨b, copied⟩ := p
    obtain ⟨hstate, hresult⟩ := steps_of_attempts o formats s hprepare fun hmode =>
      succeeds_of_report o formats s hprepare hmode h
    exact ⟨b, copied, rfl, Except.ok.inj (h.symm.trans hresult), hstate⟩

end

/-- **Failure modes.** A build that stops at a failure does what one that goes on does, up to its
first failing page.

* Where the build that goes on fails, the other fails in the same way, whatever its pages are: none
  has been attempted.
* Where it reports no failure, the other gives the same report, and leaves the same disk.
* Where its first failure is of a page, the other fails with the error of that page. It leaves the
  disk as it was after that attempt, and comes to the same with any other pages after that one.

The report of a build that goes on has one entry for each page in the list, in the order of the
list: a file that was written, or a failure with the page. -/
theorem failure_modes_agree (o : BuildOptions) (formats : Formats) (d : Disk) :
    let going := { o with keepGoing := true }
    let stopping := { o with keepGoing := false }
    (∀ e, (going.build formats d).2.result = .error e →
      stopping.build formats d = going.build formats d ∧
        ∀ pages, { stopping with pages := pages }.steps formats ⟨d, []⟩ =
          stopping.steps formats ⟨d, []⟩) ∧
    ∀ report, (going.build formats d).2.result = .ok report →
      ∃ s b copied, (o.prepare formats ⟨d, []⟩).1 = s ∧
        (o.prepare formats ⟨d, []⟩).2.result = .ok (b, copied) ∧
        (b.attempts s o.pages).map PageAttempt.page = o.pages ∧
        report = PageAttempt.tally copied (b.attempts s o.pages) ∧
        report.written.length + report.failures.length = o.pages.length ∧
        (going.build formats d).1 = (PageAttempt.last s (b.attempts s o.pages)).disk ∧
        (report.failures = [] → stopping.build formats d = going.build formats d) ∧
        ∀ before a after e, b.attempts s o.pages = before ++ a :: after →
          (∀ x ∈ before, x.failure? = none) → a.outcome = .error e →
            report.failures.head? = some ⟨a.page, e⟩ ∧
            (stopping.build formats d).2.result = .error e ∧
            (stopping.build formats d).1 = a.after.disk ∧
            ({ going with pages := o.pages.take (before.length + 1) }.build formats d).1 =
              a.after.disk ∧
            ∀ later, { stopping with
                pages := o.pages.take (before.length + 1) ++ later }.steps formats ⟨d, []⟩ =
              stopping.steps formats ⟨d, []⟩ := by
  intro going stopping
  cases hprepare : (o.prepare formats ⟨d, []⟩).2.result with
  | error e =>
    have hsteps := steps_of_prepare_error o formats ⟨d, []⟩ hprepare
    have hgoing : (going.build formats d).2.result = .error e :=
      congrArg (fun r => r.2.result) (hsteps true o.pages)
    have hstopping : stopping.steps formats ⟨d, []⟩ = going.steps formats ⟨d, []⟩ :=
      (hsteps false o.pages).trans (hsteps true o.pages).symm
    refine ⟨fun _ _ => ⟨?_, fun pages => (hsteps false pages).trans (hsteps false o.pages).symm⟩, ?_⟩
    · unfold BuildOptions.build
      rw [hstopping]
    · intro report hreport
      cases hgoing.symm.trans hreport
  | ok p =>
    obtain ⟨b, copied⟩ := p
    obtain ⟨hstate, hresult⟩ := steps_going o formats ⟨d, []⟩ hprepare o.pages
    have hresult : (going.build formats d).2.result = _ := hresult
    refine ⟨fun e he => (by cases hresult.symm.trans he), fun report hreport => ?_⟩
    obtain rfl := Except.ok.inj (hresult.symm.trans hreport)
    refine ⟨_, b, copied, rfl, rfl, map_page_attempts b _ _, rfl, ?_, congrArg BuildState.disk hstate,
      fun hnone => ?_, fun before a after e hsplit hbefore he => ?_⟩
    · rw [PageAttempt.length_tally, ← List.length_map PageAttempt.page, map_page_attempts]
    · have hpages : b.Succeeds (o.prepare formats ⟨d, []⟩).1 o.pages :=
        List.filterMap_eq_nil_iff.1 hnone
      unfold BuildOptions.build
      rw [steps_of_succeeds o formats ⟨d, []⟩ hprepare hpages]
    · obtain ⟨front, back, hpages, rfl, hfails, hafter⟩ := exists_split_of_attempts hsplit
      have hlength : (b.attempts (o.prepare formats ⟨d, []⟩).1 front).length = front.length := by
        rw [← List.length_map PageAttempt.page, map_page_attempts]
      have htake : o.pages.take
          ((b.attempts (o.prepare formats ⟨d, []⟩).1 front).length + 1) = front ++ [a.page] := by
        rw [hlength, hpages, List.take_length_add_append]
        rfl
      have hstop := steps_stopping o formats ⟨d, []⟩ hprepare hbefore (hfails.trans he)
      have hrun : stopping.steps formats ⟨d, []⟩ =
          { o with keepGoing := false, pages := front ++ a.page :: back }.steps formats ⟨d, []⟩ := by
        rw [← hpages]
      refine ⟨?_, ?_, ?_, ?_, fun later => ?_⟩
      · rw [hsplit]
        exact PageAttempt.head?_failures_tally copied hbefore he
      · unfold BuildOptions.build
        rw [hrun]
        exact (hstop back back).2.1
      · unfold BuildOptions.build
        rw [hrun]
        exact congrArg BuildState.disk ((hstop back back).1.trans hafter)
      · have hgoing := (steps_going o formats ⟨d, []⟩ hprepare (front ++ [a.page])).1
        rw [attempts_append, attempts_cons] at hgoing
        rw [htake]
        refine congrArg BuildState.disk (hgoing.trans ?_)
        rw [PageAttempt.last, List.foldl_append]
        exact hafter
      · rw [htake, List.append_assoc, hrun]
        exact (hstop later back).2.2

end StaticSite
