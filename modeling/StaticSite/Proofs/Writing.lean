import StaticSite.Formats
import StaticSite.Proofs.Places
import StaticSite.Proofs.Steps

/-!
What building a page leaves on a disk.

A page is expanded and gets its articles before anything is written. Then the directories on the way
to its file are made, and the file is moved to its place. Proved here, for every page and every disk:

* `write_cases`: writing a page makes directories, and its file if nothing fails;
* `build_page`: so a page that fails leaves no more than directories, and those only where it was
  rendered; a page that is built leaves these and its file.
-/

namespace StaticSite

namespace PageBuilder

variable {b : PageBuilder} {d : Disk} {page target : Path} {markup : String} {s : BuildState}

/-! ## Writing -/

theorem result_move (s : BuildState) (temporary : String) (target : Path) (bytes : ByteArray) :
    (∃ e, (BuildStep.change (.writeFile temporary target bytes) s).2.result = .error e ∧
      Disk.Grown target.directory s.disk (s.after (.writeFile temporary target bytes)).disk) ∨
    (BuildStep.change (.writeFile temporary target bytes) s).2.result = .ok () ∧
      Disk.Replaced target bytes s.disk (s.after (.writeFile temporary target bytes)).disk := by
  have hdisk : (s.after (.writeFile temporary target bytes)).disk =
    (s.disk.replaceFile temporary target bytes).1 := rfl
  rw [hdisk]
  cases hmoved : (s.disk.replaceFile temporary target bytes).2 with
  | error e =>
    obtain ⟨hcwd, hsame⟩ := Disk.replaceFile_error hmoved
    exact .inl ⟨_, BuildStep.result_change_of_error hmoved, .of_same hcwd hsame⟩
  | ok _ => exact .inr ⟨BuildStep.result_change_of_ok hmoved, Disk.replaceFile_replaced hmoved⟩

/-- Writing a page makes directories on the way to its file, and then the file itself if nothing
fails. -/
theorem write_cases (target : Path) (markup : String) (s : BuildState) :
    (∃ e, (write target markup s).2.result = .error e ∧
      Disk.Grown target.directory s.disk (write target markup s).1.disk) ∨
    (write target markup s).2.result = .ok () ∧
      ∃ d, Disk.Grown target.directory s.disk d ∧
        Disk.Replaced target markup.toUTF8 d (write target markup s).1.disk := by
  have hgrown : Disk.Grown target.directory s.disk
      (s.after (.createDirectories target.directory)).disk := s.disk.createDirectories_grown _
  generalize hmade : s.after (.createDirectories target.directory) = made at hgrown
  obtain ⟨name, hname⟩ : ∃ name : BuildStep String, name = .look fun d =>
    Logged.lift ((d.temporaryIn target.directory).mapError (.io target.directory)) := ⟨_, rfl⟩
  have hwrite : write target markup =
      BuildStep.change (.createDirectories target.directory) >>= fun _ =>
        name >>= fun temporary => .change (.writeFile temporary target markup.toUTF8) := by
    rw [hname]
    rfl
  rw [hwrite]
  rcases BuildStep.bind_cases (.change (.createDirectories target.directory))
      (fun _ => name >>= fun temporary => .change (.writeFile temporary target markup.toUTF8)) s with
    ⟨e, -, hstate, hresult⟩ | ⟨_, -, hstate, hresult⟩
  · rw [hstate, hresult, BuildStep.state_change, hmade]
    exact .inl ⟨e, rfl, hgrown⟩
  rw [hstate, hresult, BuildStep.state_change, hmade]
  rcases BuildStep.bind_cases name
      (fun temporary => .change (.writeFile temporary target markup.toUTF8)) made with
    ⟨e, -, hstate, hresult⟩ | ⟨temporary, -, hstate, hresult⟩
  · have hlook : (name made).1 = made := by rw [hname]; rfl
    rw [hstate, hresult, hlook]
    exact .inl ⟨e, rfl, hgrown⟩
  · have hlook : (name made).1 = made := by rw [hname]; rfl
    rw [hstate, hresult, hlook, BuildStep.state_change]
    rcases result_move made temporary target markup.toUTF8 with ⟨e, he, hsame⟩ | ⟨hok, hreplaced⟩
    · exact .inl ⟨e, he, hgrown.trans hsame⟩
    · exact .inr ⟨hok, made.disk, hgrown, hreplaced⟩

/-! ## Building -/

/-- **Building a page.** A page that fails leaves the disk as it is, or no more than directories on
the way to its file, and those only where it was expanded and got its articles. A page that is built
leaves these directories and its file, which holds just its markup. -/
theorem build_page (b : PageBuilder) (page : Path) (s : BuildState) :
    (∀ e, (b.build page s).2.result = .error e →
      (b.build page s).1.disk = s.disk ∨
      ∃ markup target, b.Renders s.disk page markup target ∧
        Disk.Grown target.directory s.disk (b.build page s).1.disk) ∧
    (∀ target, (b.build page s).2.result = .ok target →
      ∃ markup d, b.Renders s.disk page markup target ∧
        Disk.Grown target.directory s.disk d ∧
        Disk.Replaced target markup.toUTF8 d (b.build page s).1.disk) := by
  cases hrelative : page.withinSite with
  | error e =>
    obtain ⟨hstate, hresult⟩ := BuildStep.build_of_site_error (b := b) (s := s) hrelative
    refine ⟨fun _ _ => .inl (congrArg BuildState.disk hstate), fun target h => ?_⟩
    cases hresult.symm.trans h
  | ok relative =>
    cases hrender : (b.render s.disk relative).result with
    | error e =>
      obtain ⟨hstate, hresult⟩ := BuildStep.build_of_render_error hrelative hrender
      refine ⟨fun _ _ => .inl (congrArg BuildState.disk hstate), fun target h => ?_⟩
      cases hresult.symm.trans h
    | ok r =>
      obtain ⟨markup, target⟩ := r
      have hrenders := renders_iff.2 ⟨relative, hrelative, hrender⟩
      obtain ⟨hstate, hresult⟩ := BuildStep.build_of_render hrelative hrender
      rw [hstate, hresult]
      rcases write_cases target markup s with ⟨e, he, hgrown⟩ | ⟨hok, d, hgrown, hreplaced⟩
      · obtain ⟨hstate', hresult'⟩ := BuildStep.bind_of_error he fun _ => pure target
        rw [hstate', hresult']
        exact ⟨fun _ _ => .inr ⟨markup, target, hrenders, hgrown⟩, nofun⟩
      · obtain ⟨hstate', hresult'⟩ := BuildStep.bind_of_ok hok fun _ => pure target
        rw [hstate', hresult']
        refine ⟨nofun, fun target' h => ?_⟩
        obtain rfl := Except.ok.inj h
        exact ⟨markup, d, hrenders, hgrown, hreplaced⟩

end PageBuilder

end StaticSite
