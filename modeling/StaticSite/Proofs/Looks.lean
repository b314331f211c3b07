import StaticSite.Proofs.Asking
import StaticSite.Proofs.Following
import StaticSite.Proofs.Steps

/-!
The paths that a page looks at.

A page is rendered once more, with a guard that lets only some paths be looked at. Up to a refusal this
is the rendering itself, so a page that is not refused anything looks only at paths that the guard lets
pass. Proved here, for every guard, and so for all formats:

* `expand_watched`, `parseFile_watched`: what is expanded under the guard is expanded alike on every
  disk with the same answers at the paths that the guard lets pass, unless it is refused;
* `render_watched`: and so is a page;
* `render_eq_of_looksOnlyAt`: so a page that looks only at paths with the same answers comes to the
  same.
-/

namespace StaticSite

variable {α β : Type}

/-- How a look at a path fails that is refused. Nothing else fails so while a page is rendered. -/
def refusal (p : Path) : SiteError := .invalidPath p .leavesRoot

/-! ## Rendering under a guard -/

namespace Watched

variable (ok : Path → Bool)

/-- Lets a look at a path pass, or refuses it. -/
def pass (p : Path) : Except SiteError Unit := if ok p then .ok () else .error (refusal p)

/-- The canonical path of a file. Where files refer to each other in a cycle, the root is looked at to
show them. -/
def enter (s : Site) (chain : List Path) (file : Path) : Except SiteError Path :=
  match s.enter chain file with
  | .error (.cyclicReference cycle) => do
    pass ok s.root
    .error (.cyclicReference cycle)
  | r => r

def templates (s : Site) (reader : Site.Reader) : TemplateSource where
  scope input origin := do
    pass ok (s.path input)
    (s.templates reader).scope input origin
  markup path scope origin := do
    Logged.lift (pass ok (s.path path))
    (s.templates reader).markup path scope origin

def frame (s : Site) (reader : Site.Reader) (origin : Origin) (scope : Scope) : Frame :=
  { s.frame reader origin scope with
    fileText := fun kind path line => do
      Logged.lift (pass ok (s.path path))
      (s.frame reader origin scope).fileText kind path line }

def filled (s : Site) (reader : Site.Reader) (origin : Origin) (markup : String) (isRoot : Bool) :
    Document × Logged SiteError Nat :=
  (Document.load s.formats markup origin isRoot).expandTemplates s.formats (templates ok s reader)

def finish (s : Site) (reader : Site.Reader) (origin : Origin) (d : Document) (scope : Scope) :
    Logged SiteError String := do
  let _ ← (d.expandRepeats s.formats scope []).2.2
  (frame ok s reader origin scope).resolve (d.expandRepeats s.formats scope []).2.1
    ((d.expandRepeats s.formats scope []).1.serialize s.formats)

def expand (s : Site) (reader : Site.Reader) (origin : Origin) (markup : String) (scope : Scope)
    (isRoot : Bool) : Logged SiteError String := do
  let _ ← (filled ok s reader origin markup isRoot).2
  finish ok s reader origin (filled ok s reader origin markup isRoot).1 scope

def parseFile (s : Site) : Nat → List Path → Bool → Site.Reader
  | 0, chain, _, input, _ => do
    Logged.lift (pass ok (s.path input))
    let _ ← Logged.lift (enter ok s chain (s.path input))
    Logged.fail (.recursionLimit s.maxDepth (s.path input))
  | levels + 1, chain, isRoot, input, scope => do
    Logged.lift (pass ok (s.path input))
    let canonical ← Logged.lift (enter ok s chain (s.path input))
    let markup ← Source.load s.formats s.disk (s.path input)
    expand ok s (parseFile s levels (chain ++ [canonical]) false) (.file ⟨input⟩) markup scope isRoot

def parse (s : Site) (input : String) (scope : Scope) (isRoot : Bool) :
    Logged SiteError String := do
  Logged.lift (pass ok (s.path input))
  if s.isFile input then parseFile ok s s.maxDepth [] isRoot input scope
  else expand ok s (parseFile ok s s.maxDepth [] false) .inline input scope isRoot

def describedMarkup (b : PageBuilder) (d : Disk) (page : Path) : Logged SiteError String := do
  let source := b.root.join page
  let text ← Logged.lift ((d.readText source).mapError (.io source))
  let descriptor ← Logged.lift (PageDescriptor.decode text source)
  let template := trimmed descriptor.template
  let file := b.root.join ⟨template⟩
  Logged.lift (pass ok file)
  if d.isFile file then parse ok (b.site d) template ⟨descriptor.data⟩ true
  else .fail (.missingFile file page.text)

def content (index : ContentIndex) (formats : Formats) (d : Disk) (id : String) :
    Logged SiteError (Option String) := do
  if let some path := index.get? id then
    Logged.lift (pass ok path)
  index.content formats d id

def embed (index : ContentIndex) (formats : Formats) (d : Disk) (markup : String)
    (origin : Origin) : Logged SiteError String := do
  if index.isEmpty then return markup
  let embedded := (Document.load formats markup origin true).embedArticles formats
    (content ok index formats d)
  let count ← embedded.2
  if count = 0 then return markup
  return embedded.1.serialize formats

def expansion (b : PageBuilder) (d : Disk) (page : Path) : Logged SiteError String :=
  if page.hasExtension "json" then describedMarkup ok b d page
  else parse ok (b.site d) page.text Scope.empty true

def render (b : PageBuilder) (d : Disk) (page : Path) : Logged SiteError (String × Path) := do
  Logged.lift (pass ok (b.root.join page))
  if d.isFile (b.root.join page) then
    let markup ← expansion ok b d page
    let markup ← embed ok b.articles b.formats d markup (.file page)
    return (markup, b.fileOf page)
  else .fail (.missingFile (b.root.join page) "the page list")

end Watched

/-- While a page is checked, expanded and given its articles, only such paths are looked at. -/
def PageBuilder.LooksOnlyAt (b : PageBuilder) (d : Disk) (page : Path) (ok : Path → Bool) : Prop :=
  ∀ p, ok p = false → (Watched.render ok b d page).result ≠ .error (refusal p)

def isRefusal : Except SiteError α → Bool
  | .error (.invalidPath _ .leavesRoot) => true
  | _ => false

/-- Whether a page looks only at some paths is seen by rendering it. -/
theorem PageBuilder.LooksOnlyAt.of_render {b : PageBuilder} {d : Disk} {page : Path}
    {ok : Path → Bool} (h : isRefusal (Watched.render ok b d page).result = false) :
    b.LooksOnlyAt d page ok := by
  intro p _ hrefused
  rw [hrefused] at h
  cases h

/-! ## Disks with the same answers -/

/-- Two disks give the same answers at a path. -/
structure Disk.Alike (d d' : Disk) (p : Path) : Prop where
  isFile : d'.isFile p = d.isFile p
  readText : d'.readText p = d.readText p
  canonicalize : d'.canonicalize p = d.canonicalize p

/-- The site on another disk. -/
def Site.onDisk (s : Site) (d : Disk) : Site := { s with disk := d }

namespace Watched

variable {ok : Path → Bool} {s : Site} {d d' : Disk} {reader reader' : Site.Reader} {scope : Scope}
  {origin : Origin}

/-- The failures of a guard. -/
def Refused (ok : Path → Bool) (e : SiteError) : Prop := ∃ p, ok p = false ∧ e = refusal p

theorem pass_follows {R : α → β → Prop} {p : Path} {x : Logged SiteError α} {y : Logged SiteError β}
    (h : ok p = true → Follows (Refused ok) R x y) :
    Follows (Refused ok) R (Logged.lift (pass ok p) >>= fun _ => x) y := by
  unfold pass
  cases hp : ok p with
  | true =>
    rw [if_pos rfl, Logged.lift_ok, pure_bind]
    exact h hp
  | false => exact .fail ⟨p, hp, rfl⟩

section

variable (h : ∀ p, ok p = true → s.disk.Alike d' p)
include h

theorem enter_watched {file : Path} (hfile : ok file = true) (chain : List Path) :
    Follows (Refused ok) Eq (Logged.lift (enter ok s chain file))
      (Logged.lift ((s.onDisk d').enter chain file)) := by
  unfold enter Site.enter Site.onDisk
  dsimp only
  rw [(h file hfile).canonicalize]
  cases s.disk.canonicalize file with
  | error e => exact .refl _
  | ok canonical =>
    dsimp only
    by_cases hmem : canonical ∈ chain
    · rw [if_pos hmem, if_pos hmem]
      dsimp only
      rw [Logged.lift_bind]
      refine pass_follows fun hroot => ?_
      have hdisplay : Site.display { s with disk := d' } = s.display := by
        funext p
        unfold Site.display
        rw [(h s.root hroot).canonicalize]
      rw [hdisplay]
      exact .refl _
    · rw [if_neg hmem, if_neg hmem]
      exact .refl _

theorem scope_watched {p : Path} (hp : ok p = true) (referencedBy : String) :
    Scope.ofFile d' p referencedBy = Scope.ofFile s.disk p referencedBy := by
  unfold Scope.ofFile
  rw [(h p hp).isFile, (h p hp).readText]

theorem read_watched {p : Path} (hp : ok p = true) : Source.read d' p = Source.read s.disk p := by
  unfold Source.read
  rw [(h p hp).readText]

theorem load_watched {p : Path} (hp : ok p = true) (formats : Formats) :
    Source.load formats d' p = Source.load formats s.disk p := by
  unfold Source.load
  rw [read_watched h hp]

theorem refer_watched {path : String} (hp : ok (s.path path) = true) (sc : Scope)
    (hr : Follows (Refused ok) Eq (reader path sc) (reader' path sc)) (referencedBy : String) :
    Follows (Refused ok) Eq (s.refer reader path sc referencedBy)
      ((s.onDisk d').refer reader' path sc referencedBy) := by
  have hfile : (s.onDisk d').isFile path = s.isFile path := (h _ hp).isFile
  unfold Site.refer
  rw [hfile]
  exact .ite hr (.refl _)

variable (hr : ∀ path sc, Follows (Refused ok) Eq (reader path sc) (reader' path sc))
include hr

theorem templates_watched (origin : Origin) :
    (templates ok s reader).Follows (Refused ok) origin origin
      ((s.onDisk d').templates reader') where
  scope input := by
    unfold templates
    dsimp only
    rw [Logged.lift_bind]
    refine pass_follows fun hp => ?_
    show Follows _ _ (Logged.lift (Scope.ofFile s.disk _ _)) (Logged.lift (Scope.ofFile d' _ _))
    have hscope : Scope.ofFile d' ((s.onDisk d').path input) origin.text = _ :=
      scope_watched h hp origin.text
    rw [hscope]
    exact .refl _
  markup path sc := pass_follows fun hp => refer_watched h hp sc (hr path sc) origin.text

theorem frame_watched (origin : Origin) (scope : Scope) :
    (frame ok s reader origin scope).Following (Refused ok)
      ((s.onDisk d').frame reader' origin scope) where
  origin := .inl rfl
  reference := .inl ⟨rfl, rfl⟩
  file kind path line := by
    refine pass_follows fun hp => ?_
    cases kind with
    | html => exact refer_watched h hp scope (hr path scope) origin.text
    | markdown =>
      have hfile : (s.onDisk d').isFile path = s.isFile path := (h _ hp).isFile
      have hread : Source.read (s.onDisk d').disk ((s.onDisk d').path path) =
        Source.read s.disk (s.path path) := read_watched h hp
      unfold Site.frame
      dsimp only
      rw [hfile, hread]
      exact .refl _

theorem filled_watched (origin : Origin) (markup : String) (isRoot : Bool) :
    Follows (Refused ok)
      (fun _ _ => ((s.onDisk d').filled reader' origin markup isRoot).1 =
        (filled ok s reader origin markup isRoot).1)
      (filled ok s reader origin markup isRoot).2
      ((s.onDisk d').filled reader' origin markup isRoot).2 := by
  unfold filled Site.filled
  refine (expandTemplates_follows (templates_watched h hr origin) (.inl rfl) rfl).mono
    (fun _ h => h) fun _ _ hn => ?_
  obtain ⟨-, horigin, hdoc⟩ := hn
  exact hdoc.trans (Document.withOrigin_of_origin horigin)

theorem finish_watched (origin : Origin) (d : Document) (scope : Scope) :
    Follows (Refused ok) Eq (finish ok s reader origin d scope)
      ((s.onDisk d').finish reader' origin d scope) :=
  .bind_left _ fun _ => Frame.resolve_follows (frame_watched h hr origin scope) _ _

/-- **Texts.** What is expanded under the guard is expanded alike, if what it refers to is. The
loops are hidden behind names here, as looking for one in the other would run them. -/
theorem expand_watched (depth : Nat) (origin : Origin) (markup : String) (scope : Scope)
    (isRoot : Bool) :
    Follows (Refused ok) Eq (expand ok s reader origin markup scope isRoot)
      ((s.onDisk d').expand reader' depth origin markup scope isRoot) := by
  obtain ⟨record, heq⟩ := expand_eq (s.onDisk d') reader' depth origin markup isRoot
  rw [heq]
  have hfilled := filled_watched h hr origin markup isRoot
  unfold expand
  generalize filled ok s reader origin markup isRoot = x at hfilled ⊢
  generalize (s.onDisk d').filled reader' origin markup isRoot = y at hfilled ⊢
  refine Follows.of_results ?_ rfl (Logged.result_bind_of_ok rfl _)
  refine hfilled.bind fun _ _ hdoc => ?_
  rw [hdoc]
  exact finish_watched h hr origin _ scope

end

section

variable (h : ∀ p, ok p = true → s.disk.Alike d' p)
include h

/-- **Files.** A file is expanded alike under the guard, by induction on the levels. -/
theorem parseFile_watched (levels : Nat) (chain : List Path) (isRoot : Bool) (input : String)
    (scope : Scope) :
    Follows (Refused ok) Eq (parseFile ok s levels chain isRoot input scope)
      ((s.onDisk d').parseFile levels chain isRoot input scope) := by
  induction levels generalizing chain isRoot input scope with
  | zero =>
    refine pass_follows fun hp => (enter_watched h hp chain).bind fun _ _ _ => ?_
    exact .error rfl (.inr rfl)
  | succ levels ih =>
    refine pass_follows fun hp => (enter_watched h hp chain).bind fun canonical _ heq => ?_
    subst heq
    have hload : Source.load (s.onDisk d').formats (s.onDisk d').disk ((s.onDisk d').path input) =
      Source.load s.formats s.disk (s.path input) := load_watched h hp s.formats
    rw [hload]
    refine .bind_left _ fun markup => ?_
    exact expand_watched h (ih (chain ++ [canonical]) false) _ _ markup scope isRoot

theorem parse_watched (input : String) (scope : Scope) (isRoot : Bool) :
    Follows (Refused ok) Eq (parse ok s input scope isRoot)
      ((s.onDisk d').parse input scope isRoot) := by
  refine pass_follows fun hp => ?_
  have hfile : (s.onDisk d').isFile input = s.isFile input := (h _ hp).isFile
  unfold Site.parse
  rw [hfile]
  exact .ite (parseFile_watched h _ [] isRoot input scope)
    (expand_watched h (parseFile_watched h _ [] false) 0 .inline input scope isRoot)

end

end Watched

/-! ## Pages -/

namespace Document

theorem mapM_follows {E : SiteError → Prop}
    {content content' : String → Logged SiteError (Option String)}
    (h : ∀ id, Follows E Eq (content id) (content' id)) (ids : List String) :
    Follows E Eq (Logged.lift (ids.mapM fun id => (content id).result))
      (Logged.lift (ids.mapM fun id => (content' id).result)) := by
  induction ids with
  | nil => exact .refl _
  | cons id rest ih =>
    have hall : Follows E Eq
        (content id >>= fun answer =>
          Logged.lift (rest.mapM fun id => (content id).result) >>= fun all => pure (answer :: all))
        (content' id >>= fun answer =>
          Logged.lift (rest.mapM fun id => (content' id).result) >>= fun all =>
            pure (answer :: all)) := by
      refine (h id).bind fun answer _ heq => ih.bind fun all _ hrest => ?_
      rw [heq, hrest]
      exact .refl _
    refine hall.of_results ?_ ?_
    · simp only [List.mapM_cons, Logged.result_bind, Logged.result_pure]
      rfl
    · simp only [List.mapM_cons, Logged.result_bind, Logged.result_pure]
      rfl

/-- Articles get the same content, if the content of each id is the same. -/
theorem embedArticles_follows {E : SiteError → Prop} (formats : Formats)
    {content content' : String → Logged SiteError (Option String)}
    (h : ∀ id, Follows E Eq (content id) (content' id)) (d : Document) :
    Follows E (fun n n' => n = n' ∧ (d.embedArticles formats content').1 =
        (d.embedArticles formats content).1)
      (d.embedArticles formats content).2 (d.embedArticles formats content').2 := by
  have hanswers := mapM_follows h (d.articles.map Prod.snd)
  unfold embedArticles embedAsking
  rw [embedEach_eq, embedEach_eq]
  rw [← Caller.ask_logged content [], ← Caller.ask_logged content' []] at hanswers
  generalize (Caller.logged content).ask [] (d.articles.map Prod.snd) = asked at hanswers ⊢
  generalize (Caller.logged content').ask [] (d.articles.map Prod.snd) = asked' at hanswers ⊢
  cases houtcome : asked.outcome with
  | error e =>
    refine .error (e := e) ?_ ((hanswers.result_error houtcome).imp_right fun houtcome' => ?_)
    · exact (Asked.count_eq asked).trans (congrArg _ houtcome)
    · exact (Asked.count_eq asked').trans (congrArg _ houtcome')
  | ok answers =>
    have houtcome' : asked'.outcome = .ok answers := hanswers.result_eq_ok houtcome
    refine .ok (a := answers.countP Option.isSome) (b := answers.countP Option.isSome) ?_ ?_ ⟨rfl, ?_⟩
    · exact (Asked.count_eq asked).trans (congrArg _ houtcome)
    · exact (Asked.count_eq asked').trans (congrArg _ houtcome')
    · rw [Asked.answers_of_outcome houtcome, Asked.answers_of_outcome houtcome']

end Document

section

variable {b : PageBuilder} {ok : Path → Bool} {d d' : Disk}
  (h : ∀ p, ok p = true → d.Alike d' p)
include h

namespace Watched

theorem content_watched (index : ContentIndex) (formats : Formats) (id : String) :
    Follows (Refused ok) Eq (content ok index formats d id) (index.content formats d' id) := by
  unfold content ContentIndex.content
  cases index.get? id with
  | none => exact .refl _
  | some path =>
    refine pass_follows fun hp => ?_
    have hread : Source.read d' path = Source.read d path := by
      unfold Source.read
      rw [(h path hp).readText]
    dsimp only
    rw [hread]
    exact .refl _

theorem embed_watched (index : ContentIndex) (formats : Formats) (markup : String)
    (origin : Origin) :
    Follows (Refused ok) Eq (embed ok index formats d markup origin)
      (index.embed formats d' markup origin) := by
  unfold embed ContentIndex.embed
  cases index.isEmpty with
  | true => exact .refl _
  | false =>
    let page := Document.load formats markup origin true
    have hembedded := page.embedArticles_follows formats (content_watched h index formats)
    generalize page.embedArticles formats (content ok index formats d) = r at hembedded ⊢
    generalize page.embedArticles formats (index.content formats d') = r' at hembedded ⊢
    obtain ⟨document, counted⟩ := r
    obtain ⟨document', counted'⟩ := r'
    refine hembedded.bind fun count _ hcount => ?_
    obtain ⟨rfl, rfl⟩ := hcount
    refine .ite (.refl _) ?_
    exact .ok rfl rfl rfl

theorem describedMarkup_watched {page : Path} (hp : ok (b.root.join page) = true) :
    Follows (Refused ok) Eq (describedMarkup ok b d page) (b.describedMarkup d' page) := by
  unfold describedMarkup PageBuilder.describedMarkup
  dsimp only
  rw [(h _ hp).readText]
  refine .bind_left _ fun text => .bind_left _ fun descriptor => ?_
  refine Follows.of_results ?_ rfl (Logged.result_bind_of_ok rfl _)
  refine pass_follows fun hfile => ?_
  rw [(h _ hfile).isFile]
  exact .ite (parse_watched (s := b.site d) h _ _ true) (.refl _)

theorem expansion_watched {page : Path} (hp : ok (b.root.join page) = true) :
    Follows (Refused ok) Eq (expansion ok b d page) (b.expansion d' page) := by
  unfold expansion PageBuilder.expansion
  exact .ite (describedMarkup_watched h hp)
    (parse_watched (s := b.site d) h page.text Scope.empty true)

/-- **Pages.** A page is rendered alike under the guard. -/
theorem render_watched (page : Path) :
    Follows (Refused ok) Eq (render ok b d page) (b.render d' page) := by
  rw [PageBuilder.render_eq]
  refine pass_follows fun hp => ?_
  rw [(h _ hp).isFile]
  refine .ite ?_ (.refl _)
  refine (expansion_watched h hp).bind fun expanded _ heq => ?_
  subst heq
  refine (embed_watched h b.articles b.formats expanded (.file page)).bind fun markup _ heq => ?_
  subst heq
  exact .refl _

end Watched

end

/-- **Looks.** A page that looks only at paths with the same answers comes to the same. -/
theorem render_eq_of_looksOnlyAt {b : PageBuilder} {d d' : Disk} {page : Path} {ok : Path → Bool}
    (hlooks : b.LooksOnlyAt d page ok) (h : ∀ p, ok p = true → d.Alike d' p) :
    (b.render d' page).result = (b.render d page).result := by
  have hsame : Follows (Watched.Refused ok) Eq (Watched.render ok b d page) (b.render d page) :=
    Watched.render_watched (fun _ _ => ⟨rfl, rfl, rfl⟩) page
  have hother : Follows (Watched.Refused ok) Eq (Watched.render ok b d page) (b.render d' page) :=
    Watched.render_watched h page
  have hpassed {e : SiteError} (he : (Watched.render ok b d page).result = .error e) :
      ¬ Watched.Refused ok e := by
    rintro ⟨p, hp, rfl⟩
    exact hlooks p hp he
  cases hresult : (Watched.render ok b d page).result with
  | ok r => rw [hsame.result_eq_ok hresult, hother.result_eq_ok hresult]
  | error e =>
    rw [(hsame.result_error hresult).resolve_left (hpassed hresult),
      (hother.result_error hresult).resolve_left (hpassed hresult)]

end StaticSite
