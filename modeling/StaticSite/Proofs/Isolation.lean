import StaticSite.Formats
import StaticSite.Proofs.Lookups
import StaticSite.Proofs.OnePass

/-!
What the expansion of a text reads of its scope.

A template block is expanded in a scope of its own. Its markup is then read back into the tree of
the text around it, so that tags and repeat blocks which the block's values or its Markdown files
have brought along are taken for those of the text, and are looked up in the text's scope.

Proved here, for every site, every input and all scopes:

* `reports_onePass`: one pass over a text asks for a name as `asks` says;
* `reports_finish`: the same for a document, with its first repeat block;
* `reports_parseFile`: the same for a file and all the HTML files that it includes, by induction on
  the levels that are left;
* `parse_eq_iff_asks`: an expansion is the same in all scopes exactly if nothing that is left after
  the template blocks have been filled asks the scope for a name;
* `template_value_read_again`: a value out of the data of a template block is resolved once more,
  in the scope of the text around the block.
-/

namespace StaticSite

open Text

/-! ## Whether the scope is read -/

namespace Frame

/-- Whether a tag asks the scope for a name, while no list is being repeated: references to the
items of lists fail before the scope is looked at. `asksFile` says it of the HTML files that are
included. -/
def asksTag (asksFile : String → Bool) : Tag → Bool
  | .reference (.name _) => true
  | .reference (.item _) => false
  | .reference (.field _ _) => false
  | .file kind path =>
    match SourceKind.ofTag? kind with
    | some .html => asksFile path
    | _ => false

/-- Whether one pass over the pieces of a text asks the scope for a name, up to where it stops. -/
def asks (fr : Frame) (asksFile : String → Bool) : List Piece → Bool
  | [] => false
  | .plain _ :: rest => fr.asks asksFile rest
  | .tag line text tag :: rest =>
    asksTag asksFile tag ||
      okAnd (fr.value line ⟨[], text, [], tag⟩ []).result fun _ => fr.asks asksFile rest
  | .fault _ _ :: _ => false

end Frame

namespace Site

/-- The document of a source with its template blocks filled. -/
def filled (s : Site) (reader : Reader) (origin : Origin) (markup : String) (isRoot : Bool) :
    Document × Logged SiteError Nat :=
  (Document.load s.formats markup origin isRoot).expandTemplates s.formats (s.templates reader)

/-- Whether expanding a document without template blocks asks the scope for a name: its first
repeat block asks for a list, and where there is none the tags of its markup are read. -/
def asksFilled (s : Site) (reader : Reader) (asksFile : String → Bool) (origin : Origin)
    (d : Document) : Bool :=
  match d.nextRepeat? with
  | some b => (d.required b "input").isOk
  | none =>
    (s.frame reader origin Scope.empty).asks (fun p => s.isFile p && asksFile p)
      (Piece.ofText (d.serialize s.formats).toList)

/-- Whether expanding a text asks its scope for a name. What counts is the document after its
template blocks have been filled. -/
def asksText (s : Site) (reader : Reader) (asksFile : String → Bool) (origin : Origin)
    (markup : String) (isRoot : Bool) : Bool :=
  okAnd (s.filled reader origin markup isRoot).2.result fun _ =>
    s.asksFilled reader asksFile origin (s.filled reader origin markup isRoot).1

/-- Whether expanding a file, with so many levels left, asks its scope for a name. -/
def asksFile (s : Site) : Nat → List Path → Bool → String → Bool
  | 0, _, _, _ => false
  | levels + 1, chain, isRoot, input =>
    okAnd (s.enter chain (s.path input)) fun canonical =>
      okAnd (Source.load s.formats s.disk (s.path input)).result fun markup =>
        s.asksText (s.parseFile levels (chain ++ [canonical]) false)
          (s.asksFile levels (chain ++ [canonical]) false) (.file ⟨input⟩) markup isRoot

/-- Whether expanding an input asks its scope for a name. -/
def asks (s : Site) (input : String) (isRoot : Bool) : Bool :=
  if s.isFile input then s.asksFile s.maxDepth [] isRoot input
  else s.asksText s.reader (s.asksFile s.maxDepth [] false) .inline input isRoot

end Site

/-! ## One pass over a text -/

section

variable (fr : Frame) (line : Nat) (text : List Char)

theorem value_name (x : String) (t : Cursors) :
    fr.value line ⟨[], text, [], .reference (.name x)⟩ t =
      match fr.scope.get? x with
      | some v => pure (v.placeholder, t)
      | none =>
        .fail (.unresolvedPlaceholder fr.origin.text line (String.ofList text) (.unbound x)) := by
  simp only [Frame.value, Scope.read]
  cases fr.scope.get? x <;> rfl

theorem value_item (l : String) :
    fr.value line ⟨[], text, [], .reference (.item l)⟩ [] =
      .fail (.unresolvedPlaceholder fr.origin.text line (String.ofList text) (.noCursor l)) := rfl

theorem value_field (f l : String) :
    fr.value line ⟨[], text, [], .reference (.field f l)⟩ [] =
      .fail (.unresolvedPlaceholder fr.origin.text line (String.ofList text) (.noCursor l)) := rfl

theorem value_file {kind path : String} (t : Cursors) :
    fr.value line ⟨[], text, [], .file kind path⟩ t =
      match SourceKind.ofTag? kind with
      | none => .fail (.unsupportedInclude fr.origin.text line (String.ofList text) kind)
      | some k => fr.fileText k path line >>= fun v => pure (v.toList, t) := rfl

/-- Where no list is repeated before a tag, none is after it. -/
theorem cursors_of_value {tag : Tag} {r : List Char × Cursors}
    (h : (fr.value line ⟨[], text, [], tag⟩ []).result = .ok r) : r.2 = [] := by
  cases tag with
  | file kind path => exact fr.cursors_of_file h
  | reference ref =>
    cases ref with
    | name x =>
      rw [value_name] at h
      cases hx : fr.scope.get? x with
      | none =>
        rw [hx] at h
        cases h
      | some v =>
        rw [hx] at h
        rw [← Except.ok.inj h]
    | item l => cases h
    | field f l => cases h

end

section

variable {s : Site} {reader : Site.Reader} {asksFile : String → Bool}

theorem frame_origin (reader : Site.Reader) (origin : Origin) (sc : Scope) :
    (s.frame reader origin sc).origin = origin := rfl

theorem late_read (x : String) (disk : Disk) (path : Path) :
    Late x (Logged.lift (Source.read disk path)) := by
  refine .lift fun e h => ?_
  unfold Source.read at h
  split at h
  · cases h
  · obtain rfl := Except.error.inj h
    simp [SiteError.missing?]

theorem late_markdown (reader : Site.Reader) (origin : Origin) (x : String) (sc : Scope)
    (path : String) (line : Nat) :
    Late x ((s.frame reader origin sc).fileText .markdown path line) := by
  simp only [Site.frame]
  split
  · exact (late_read x s.disk (s.path path)).bind fun v => .pure x _
  · exact .fail (by simp [SiteError.missing?])

variable (hr : ∀ path, Reports (asksFile path) (reader path)) (origin : Origin)

include hr

/-- A file that is missing is missing in all scopes. -/
theorem reports_refer (path referencedBy : String) :
    Reports (s.isFile path && asksFile path) fun sc => s.refer reader path sc referencedBy := by
  unfold Site.refer
  cases s.isFile path with
  | true => exact hr path
  | false => exact .fail rfl

theorem late_value (x : String) (line : Nat) (text : List Char) (tag : Tag) (t : Cursors) :
    Late x ((s.frame reader origin (Scope.only x)).value line ⟨[], text, [], tag⟩ t) := by
  cases tag with
  | reference r =>
    simp only [Frame.value, Site.frame]
    cases h : (Scope.only x).read t r with
    | ok vt => exact .pure x vt
    | error why =>
      refine .fail fun hm => Scope.read_only_ne_unbound x t r ?_
      cases why with
      | unbound y => rw [h, Option.some.inj hm]
      | _ => cases hm
  | file kind path =>
    rw [value_file]
    cases SourceKind.ofTag? kind with
    | none => exact .fail (by simp [SiteError.missing?])
    | some k =>
      cases k with
      | html => exact ((reports_refer hr path origin.text).late x).bind fun v => .pure x _
      | markdown => exact (late_markdown reader origin x _ path line).bind fun v => .pure x _

/-- While no list is repeated, a tag asks for a name as `asksTag` says. -/
theorem reports_value (line : Nat) (text : List Char) (tag : Tag) :
    Reports (Frame.asksTag (fun p => s.isFile p && asksFile p) tag)
      fun sc => (s.frame reader origin sc).value line ⟨[], text, [], tag⟩ [] := by
  cases tag with
  | reference r =>
    cases r with
    | name x =>
      refine .of_fail (e := .unresolvedPlaceholder origin.text line (String.ofList text) (.unbound x))
        rfl ?_ fun y => late_value hr origin y line text _ []
      rw [value_name]
      rfl
    | item l =>
      simp only [value_item, frame_origin]
      exact .fail rfl
    | field f l =>
      simp only [value_field, frame_origin]
      exact .fail rfl
  | file kind path =>
    simp only [value_file, frame_origin, Frame.asksTag]
    cases SourceKind.ofTag? kind with
    | none => exact .fail rfl
    | some k =>
      cases k with
      | html => exact (reports_refer hr path origin.text).map _
      | markdown =>
        exact (Reports.const fun x => late_markdown reader origin x Scope.empty path line).map _

theorem late_onePass (x : String) (ps : List Piece) (t : Cursors) :
    Late x ((s.frame reader origin (Scope.only x)).onePass ps t) := by
  induction ps generalizing t with
  | nil => exact .pure x _
  | cons p rest ih =>
    cases p with
    | plain a => exact (ih t).bind fun r => .pure x _
    | fault line e => exact .fail (by simp [SiteError.missing?])
    | tag line text tag =>
      exact (late_value hr origin x line text tag t).bind fun r =>
        (ih r.2).bind fun r => .pure x _

/-- **Texts.** While no list is repeated, a pass asks for a name as `asks` says. -/
theorem reports_onePass (ps : List Piece) :
    Reports ((s.frame reader origin Scope.empty).asks (fun p => s.isFile p && asksFile p) ps)
      fun sc => (s.frame reader origin sc).onePass ps [] := by
  induction ps with
  | nil => exact .const fun x => .pure x _
  | cons p rest ih =>
    cases p with
    | plain a => exact ih.map _
    | fault line e =>
      simp only [Frame.onePass, frame_origin]
      exact .fail rfl
    | tag line text tag =>
      refine (reports_value hr origin line text tag).bind (fun r h => ?_) fun x r =>
        (late_onePass hr origin x rest r.2).bind fun r => .pure x _
      obtain ⟨v, t⟩ := r
      obtain rfl : t = [] := cursors_of_value _ line text h
      exact ih.map _

end

/-! ## A document -/

namespace Document

variable (formats : Formats) (scope : Scope) {d : Document} {t : Cursors} {b : Block}

theorem exists_rounds (n : Nat) : ∃ rounds, n + spareRounds = rounds + 1 := by
  have hspare : 0 < spareRounds := Nat.pow_pos Nat.two_pos
  exact Nat.exists_eq_succ_of_ne_zero (by omega)

theorem expandRepeats_none (h : d.nextRepeat? = none) :
    d.expandRepeats formats scope t = (d, t, .ok 0) := by
  unfold expandRepeats
  obtain ⟨rounds, hr⟩ := exists_rounds (repeatCount scope d.tree)
  simp only [hr, expandRepeatsFor, h, Option.isSome_none, ended_false]

/-- A template block leaves a record before its template is looked at. -/
theorem late_expandTemplatesFor (x : String) (source : TemplateSource) (rounds done : Nat)
    (d : Document) : Late x (d.expandTemplatesFor formats source rounds done).2 := by
  cases rounds with
  | zero => exact .pure x done
  | succ rounds =>
    unfold expandTemplatesFor nextTemplate
    cases d.nextTemplate? with
    | none => exact .pure x done
    | some r =>
      obtain ⟨b, d⟩ := r
      dsimp only [Logged.ok]
      split
      · exact .of_log_ne_nil (List.cons_ne_nil _ _)
      · exact .of_log_ne_nil (List.cons_ne_nil _ _)

theorem late_ended (x : String) {r : Logged SiteError Nat} (d : Document) (left : Bool)
    (h : Late x r) : Late x (d.ended left r) := by
  refine h.bind fun n => ?_
  cases left with
  | false => exact .pure x n
  | true => exact .fail (by simp [SiteError.missing?])

theorem late_expandTemplates (x : String) (source : TemplateSource) (d : Document) :
    Late x (d.expandTemplates formats source).2 :=
  late_ended x _ _ (late_expandTemplatesFor formats x source _ 0 d)

theorem log_ended_ne_nil (left : Bool) {r : Logged SiteError Nat} (h : r.log ≠ []) :
    (d.ended left r).log ≠ [] := by
  obtain ⟨log, result⟩ := r
  cases result with
  | error e => exact h
  | ok n => exact fun hnil => h (List.append_eq_nil_iff.1 hnil).1

/-- A failure at the first block ends the loop. -/
theorem expandRepeats_error (h : d.nextRepeat? = some b) {e : SiteError}
    (he : d.expandRepeat formats scope t b = .fail e) :
    d.expandRepeats formats scope t = (d, t, .fail e) := by
  unfold expandRepeats
  obtain ⟨rounds, hr⟩ := exists_rounds (repeatCount scope d.tree)
  simp only [hr, expandRepeatsFor, h, he, Logged.fail, ended_error]

/-- What the first block leaves is left by the loop. -/
theorem expandRepeats_log_ne_nil (h : d.nextRepeat? = some b)
    (he : (d.expandRepeat formats scope t b).log ≠ []) :
    (d.expandRepeats formats scope t).2.2.log ≠ [] := by
  refine log_ended_ne_nil _ ?_
  obtain ⟨rounds, hr⟩ := exists_rounds (repeatCount scope d.tree)
  simp only [hr, expandRepeatsFor, h]
  generalize d.expandRepeat formats scope t b = y at he
  obtain ⟨log, r⟩ := y
  cases r with
  | error e => exact he
  | ok r => exact fun h => he (List.append_eq_nil_iff.1 h).1

theorem missing?_of_required {name : String} {e : SiteError} (h : d.required b name = .error e) :
    e.missing? = none := by
  unfold required at h
  split at h
  · cases h
  · obtain rfl := Except.error.inj h
    rfl

theorem expandRepeat_of_required_error {e : SiteError} (h : d.required b "input" = .error e) :
    d.expandRepeat formats scope t b = .fail e := by
  simp only [expandRepeat, h, Logged.lift_error, Logged.fail_bind]

theorem expandRepeat_of_list_error {v : String} {why : Unresolved}
    (hv : d.required b "input" = .ok v) (hw : scope.list (trimmed v) = .error why) :
    d.expandRepeat formats scope t b = .fail (.unresolvedList d.origin.text (d.describe b) why) := by
  simp only [expandRepeat, hv, hw, Logged.lift_ok, pure_bind, Logged.lift_error, Logged.fail_bind]

/-- A block that is expanded leaves a record. -/
theorem expandRepeat_log_ne_nil {v : String} {items : List Value}
    (hv : d.required b "input" = .ok v) (hl : scope.list (trimmed v) = .ok items) :
    (d.expandRepeat formats scope t b).log ≠ [] := by
  simp only [expandRepeat, hv, hl, Logged.lift_ok, pure_bind, Logged.debug, Logged.record,
    Logged.mk_ok_bind]
  simp

end Document

section

variable {s : Site} {reader : Site.Reader} {asksFile : String → Bool}

/-- What follows once the template blocks of a text have been filled. -/
def Site.finish (s : Site) (reader : Site.Reader) (origin : Origin) (d : Document) (scope : Scope) :
    Logged SiteError String := do
  let _ ← (d.expandRepeats s.formats scope []).2.2
  (s.frame reader origin scope).resolve (d.expandRepeats s.formats scope []).2.1
    ((d.expandRepeats s.formats scope []).1.serialize s.formats)

/-- What is expanded is filled first, without the scope. The loops are hidden behind names here, as
the kernel would run them to compare their results. -/
theorem expand_eq (s : Site) (reader : Site.Reader) (depth : Nat) (origin : Origin)
    (markup : String) (isRoot : Bool) :
    ∃ record : LogRecord, ∀ scope, s.expand reader depth origin markup scope isRoot =
      (⟨[record], .ok ()⟩ : Logged SiteError Unit) >>= fun _ =>
        (s.filled reader origin markup isRoot).2 >>= fun _ =>
          s.finish reader origin (s.filled reader origin markup isRoot).1 scope := by
  refine ⟨⟨.debug, .parser, "parsing " ++ origin.text ++ " (root: " ++ toString isRoot ++
    ", depth: " ++ toString depth ++ ")"⟩, fun scope => ?_⟩
  unfold Site.expand Site.filled Site.finish
  obtain ⟨filled, hf⟩ : ∃ r, r = (Document.load s.formats markup origin isRoot).expandTemplates
    s.formats (s.templates reader) := ⟨_, rfl⟩
  obtain ⟨repeats, hr⟩ : ∃ f, f = Document.expandRepeats s.formats scope := ⟨_, rfl⟩
  rw [← hf, ← hr]
  rfl

/-- Where a list is bound, a document that begins with a block for a list fails later. -/
theorem late_finish {d : Document} {b : Block} {v : String} (hb : d.nextRepeat? = some b)
    (hv : d.required b "input" = .ok v) (origin : Origin) (x : String) :
    Late x (s.finish reader origin d (Scope.only x)) := by
  unfold Site.finish
  cases hl : (Scope.only x).list (trimmed v) with
  | error why =>
    have := Document.expandRepeats_error (t := []) s.formats (Scope.only x) hb
      (Document.expandRepeat_of_list_error s.formats _ hv hl)
    simp only [this, Logged.fail_bind]
    refine .fail fun hm => Scope.list_only_ne_unbound x (trimmed v) ?_
    cases why with
    | unbound y => rw [hl, Option.some.inj hm]
    | _ => cases hm
  | ok items =>
    have := Document.expandRepeats_log_ne_nil (t := []) s.formats (Scope.only x) hb
      (Document.expandRepeat_log_ne_nil s.formats _ hv hl)
    generalize d.expandRepeats s.formats (Scope.only x) [] = r at this
    obtain ⟨d', t, log, res⟩ := r
    cases res with
    | error e => exact .of_log_ne_nil this
    | ok n => exact .of_log_ne_nil fun h => this (List.append_eq_nil_iff.1 h).1

/-- **Documents.** A document without template blocks asks for a name as `asksFilled` says. The
empty scope has no list for a block. -/
theorem reports_finish (hr : ∀ path, Reports (asksFile path) (reader path)) (origin : Origin)
    (d : Document) : Reports (s.asksFilled reader asksFile origin d) (s.finish reader origin d) := by
  unfold Site.asksFilled
  cases hb : d.nextRepeat? with
  | none =>
    have heq : s.finish reader origin d = fun sc =>
        (s.frame reader origin sc).onePass (Piece.ofText (d.serialize s.formats).toList) [] >>=
          fun r => pure (String.ofList r.1) := by
      funext sc
      simp only [Site.finish, Document.expandRepeats_none s.formats _ hb, Frame.resolve_eq,
        Logged.ok_bind]
    rw [heq]
    exact (reports_onePass hr origin _).map _
  | some b =>
    show Reports (d.required b "input").isOk _
    cases hv : d.required b "input" with
    | error e =>
      have heq : s.finish reader origin d = fun _ => Logged.fail e := by
        funext sc
        have := Document.expandRepeats_error (t := []) s.formats sc hb
          (Document.expandRepeat_of_required_error s.formats sc hv)
        simp only [Site.finish, this, Logged.fail_bind]
      rw [heq]
      exact .fail (Document.missing?_of_required hv)
    | ok v =>
      have hempty := Document.expandRepeats_error (t := []) s.formats Scope.empty hb
        (Document.expandRepeat_of_list_error s.formats Scope.empty hv (Scope.list_empty _))
      refine .of_fail
        (e := .unresolvedList d.origin.text (d.describe b) (.unbound (trimmed v))) rfl ?_
        fun x => late_finish hb hv origin x
      simp only [Site.finish, hempty, Logged.fail_bind]

/-- A text asks for a name as `asksText` says, at every depth. -/
theorem reports_expand (hr : ∀ path, Reports (asksFile path) (reader path)) (depth : Nat)
    (origin : Origin) (markup : String) (isRoot : Bool) :
    Reports (s.asksText reader asksFile origin markup isRoot)
      fun scope => s.expand reader depth origin markup scope isRoot := by
  obtain ⟨record, heq⟩ := expand_eq s reader depth origin markup isRoot
  simp only [heq]
  unfold Site.asksText
  refine .after_record record (.after (fun x => ?_) fun _ => reports_finish hr origin _)
  exact Document.late_expandTemplates s.formats x _ _

end

/-! ## Files and inputs -/

theorem late_enter (s : Site) (x : String) (chain : List Path) (file : Path) :
    Late x (Logged.lift (s.enter chain file)) := by
  unfold Site.enter
  refine .lift fun e h => ?_
  split at h
  · obtain rfl := Except.error.inj h
    simp [SiteError.missing?]
  · split at h
    · obtain rfl := Except.error.inj h
      simp [SiteError.missing?]
    · cases h

theorem late_load (x : String) (formats : Formats) (disk : Disk) (path : Path) :
    Late x (Source.load formats disk path) := by
  unfold Source.load
  refine Late.bind (.lift fun e h => ?_) fun kind =>
    (late_read x disk path).bind fun text => .of_record x _ _
  unfold SourceKind.ofPath at h
  split at h
  · cases h
  · split at h
    · cases h
    · obtain rfl := Except.error.inj h
      simp [SiteError.missing?]

/-- **Files.** A file asks for a name as `asksFile` says, with any number of levels left. -/
theorem reports_parseFile (s : Site) (levels : Nat) (chain : List Path) (isRoot : Bool)
    (input : String) :
    Reports (s.asksFile levels chain isRoot input) (s.parseFile levels chain isRoot input) := by
  induction levels generalizing chain isRoot input with
  | zero =>
    refine .const fun x => (late_enter s x chain (s.path input)).bind fun _ => .fail ?_
    simp [SiteError.missing?]
  | succ levels ih =>
    exact .after (fun x => late_enter s x chain (s.path input)) fun canonical =>
      .after (fun x => late_load x s.formats s.disk (s.path input)) fun markup =>
        reports_expand (ih (chain ++ [canonical]) false) _ _ markup isRoot

/-- **Isolation.** An input is expanded alike in all scopes, with the same records and the same
result, exactly if nothing asks the scope for a name once the template blocks have been filled. -/
theorem parse_eq_iff_asks (s : Site) (input : String) (isRoot : Bool) :
    (∀ s₁ s₂, s.parse input s₁ isRoot = s.parse input s₂ isRoot) ↔ s.asks input isRoot = false := by
  have hreports : Reports (s.asks input isRoot) fun scope => s.parse input scope isRoot := by
    unfold Site.asks Site.parse
    by_cases h : s.isFile input = true
    · simp only [if_pos h]
      exact reports_parseFile s s.maxDepth [] isRoot input
    · simp only [if_neg h]
      exact reports_expand (reports_parseFile s s.maxDepth [] false) 0 .inline input isRoot
  constructor
  · intro hall
    cases hasks : s.asks input isRoot with
    | false => rfl
    | true =>
      obtain ⟨x, hx⟩ := hreports.stops hasks
      exact absurd (hall _ _) hx.ne
  · exact hreports.same

/-! ## A value that is read again -/

/-- A document that has neither a repeat block nor a tag of its own. -/
def Document.isPlain (formats : Formats) (d : Document) : Bool :=
  d.nextRepeat?.isNone &&
    (Piece.ofText (d.serialize formats).toList).all fun p => p.line?.isNone

/-- A site with a template that shows one value, and data in which the value is spelled like a
placeholder. -/
def quotingSite : Site where
  formats := .standard
  disk := ⟨⟨[(["t.html"], .file "{{{v}}}".toUTF8),
    (["d.json"], .file "\x7b\"v\": \"\x7b\x7b\x7bx\x7d\x7d\x7d\"\x7d".toUTF8)]⟩, []⟩
  root := ⟨"."⟩
  maxDepth := Site.defaultMaxDepth

/-- A text that holds nothing but a template block. -/
def quotingText : String := "<section type=\"template\" template=\"t.html\" input=\"d.json\"></section>"

/-- A value that a template has taken from its own data is read again in the scope of the text
around the block, although that text has no repeat block and no tag of its own. -/
theorem template_value_read_again :
    ¬ ∀ (s : Site) (input : String) (isRoot : Bool) (s₁ s₂ : Scope),
      s.isFile input = false →
      (Document.load s.formats input .inline isRoot).isPlain s.formats = true →
      (s.parse input s₁ isRoot).result = (s.parse input s₂ isRoot).result := by
  intro h
  have heq := h quotingSite quotingText false ⟨[("x", .string "1")]⟩ Scope.empty
    (by decide +kernel) (by decide +kernel)
  have hbound : (quotingSite.parse quotingText ⟨[("x", .string "1")]⟩ false).result.toOption =
      some "<section type=\"template\" template=\"t.html\" input=\"d.json\">1</section>" := by
    decide +kernel
  have hempty : (quotingSite.parse quotingText Scope.empty false).result.toOption = none := by
    decide +kernel
  rw [heq, hempty] at hbound
  cases hbound

end StaticSite
