import StaticSite.Proofs.CallChain
import StaticSite.Proofs.Following
import StaticSite.Proofs.Steps

/-!
What may grow without changing a page that is there.

Proved here, for every site, and so for all formats:

* `parseFile_mono`: a file that is expanded in a scope is expanded alike in every larger scope, by
  induction on the levels that are left;
* `parse_mono`: success is monotone in the scope;
* `parseFile_follows`: with a shorter chain and more levels a file is expanded alike, but for the
  failures that the chain and the depth bring about, by induction on the levels;
* `limits_only_fail`: the chain and the depth only ever turn a success into a failure; so a deeper
  site builds the same pages, and a file is expanded like its text.
-/

namespace StaticSite

/-! ## Larger scopes -/

section

variable {s : Site} {scope scope' : Scope}

/-- A template has a scope of its own, so only the includes of a file see the larger one. -/
theorem parseFile_mono (h : scope.Below scope') (levels : Nat) (chain : List Path) (isRoot : Bool)
    (input : String) :
    Follows (fun _ => True) Eq (s.parseFile levels chain isRoot input scope)
      (s.parseFile levels chain isRoot input scope') := by
  induction levels generalizing chain isRoot input with
  | zero => exact .refl _
  | succ levels ih =>
    refine .bind_left _ fun canonical => .bind_left _ fun markup => ?_
    exact expand_follows (fun _ _ => .refl _) (ih (chain ++ [canonical]) false)
      (.inr ⟨fun _ => trivial, h⟩) _ _ markup isRoot

/-- **Scopes.** What is expanded in a scope is expanded alike in every scope that binds the same
names to the same values. -/
theorem parse_mono (s : Site) (input : String) (isRoot : Bool) {scope scope' : Scope} {m : String}
    (hbelow : ∀ x v, scope.get? x = some v → scope'.get? x = some v)
    (hm : (s.parse input scope isRoot).result = .ok m) :
    (s.parse input scope' isRoot).result = .ok m := by
  have hfile := parseFile_mono (s := s) hbelow s.maxDepth []
  unfold Site.parse at hm ⊢
  split at hm
  · rw [if_pos ‹_›]
    exact (hfile isRoot input).result_eq_ok hm
  · rw [if_neg ‹_›]
    exact (expand_follows (fun _ _ => .refl _) (hfile false) (.inr ⟨fun _ => trivial, hbelow⟩) 0 0
      input isRoot).result_eq_ok hm

end

/-- A template takes a value out of its data in which a name is spelled, and that name is bound. -/
theorem parse_with_more_names :
    (quotingSite.parse quotingText ⟨[("y", .string "2"), ("x", .string "1")]⟩ false).result =
      .ok "<section type=\"template\" template=\"t.html\" input=\"d.json\">1</section>" := by
  have hone : (quotingSite.parse quotingText ⟨[("x", .string "1")]⟩ false).result =
      .ok "<section type=\"template\" template=\"t.html\" input=\"d.json\">1</section>" := by
    decide +kernel
  refine parse_mono quotingSite quotingText false (fun x v h => ?_) hone
  have hx : x = "x" := by
    by_contra hne
    rw [Scope.get?, Fields.get?, List.lookup_cons, beq_false_of_ne hne] at h
    cases h
  subst hx
  exact h

/-! ## Shorter chains and deeper sites -/

/-- The failures that the files being read bring about. -/
def SiteError.isCallLimit : SiteError → Bool
  | cyclicReference _ | recursionLimit _ _ => true
  | _ => false

/-- The site with another depth. -/
def Site.withDepth (s : Site) (depth : Nat) : Site := { s with maxDepth := depth }

section

variable {s : Site} {depth : Nat} {chain chain' : List Path}

theorem expand_withDepth (reader : Site.Reader) (n : Nat) (origin : Origin) (markup : String)
    (scope : Scope) (isRoot : Bool) :
    (s.withDepth depth).expand reader n origin markup scope isRoot =
      s.expand reader n origin markup scope isRoot := rfl

theorem enter_withDepth (chain : List Path) (file : Path) :
    (s.withDepth depth).enter chain file = s.enter chain file := rfl

theorem enter_follows (hchain : ∀ p ∈ chain', p ∈ chain) (file : Path) :
    Follows (·.isCallLimit) Eq (Logged.lift (s.enter chain file))
      (Logged.lift ((s.withDepth depth).enter chain' file)) := by
  rw [enter_withDepth]
  unfold Site.enter
  cases s.disk.canonicalize file with
  | error e => exact .refl _
  | ok canonical =>
    dsimp only
    by_cases hmem : canonical ∈ chain
    · rw [if_pos hmem]
      exact .fail rfl
    · rw [if_neg hmem, if_neg fun h => hmem (hchain canonical h)]
      exact .refl _

/-- **Files.** With a chain that holds no other files, and no fewer levels, a file is expanded
alike. -/
theorem parseFile_follows (s : Site) (depth : Nat) {levels levels' : Nat} (hlevels : levels ≤ levels')
    (hchain : ∀ p ∈ chain', p ∈ chain) (isRoot : Bool) (input : String) (scope : Scope) :
    Follows (·.isCallLimit) Eq (s.parseFile levels chain isRoot input scope)
      ((s.withDepth depth).parseFile levels' chain' isRoot input scope) := by
  induction levels generalizing levels' chain chain' isRoot input scope with
  | zero =>
    cases levels' with
    | zero => exact (enter_follows hchain _).bind fun _ _ _ => .fail rfl
    | succ levels' => exact (enter_follows hchain _).bind fun _ _ _ => .fail rfl
  | succ levels ih =>
    obtain ⟨levels', rfl⟩ := Nat.exists_eq_add_of_le' hlevels
    refine (enter_follows hchain _).bind fun canonical _ hcanonical => ?_
    subst hcanonical
    refine .bind_left _ fun markup => ?_
    rw [expand_withDepth]
    have hnext : ∀ p ∈ chain' ++ [canonical], p ∈ chain ++ [canonical] := by
      intro p hp
      exact List.mem_append.2 ((List.mem_append.1 hp).imp_left (hchain p))
    exact expand_follows (ih (Nat.le_of_succ_le_succ hlevels) hnext false)
      (fun path => ih (Nat.le_of_succ_le_succ hlevels) hnext false path scope) (.inl ⟨rfl, rfl⟩) _ _
      markup isRoot

theorem parseBelow_follows (hdepth : s.maxDepth ≤ depth) (hchain : ∀ p ∈ chain', p ∈ chain)
    (hlength : chain'.length ≤ chain.length) (input : String) (scope : Scope) (isRoot : Bool) :
    Follows (·.isCallLimit) Eq (s.parseBelow chain input scope isRoot)
      ((s.withDepth depth).parseBelow chain' input scope isRoot) := by
  have hlevels : s.maxDepth - chain.length ≤ depth - chain'.length := by omega
  have hfile := parseFile_follows s depth hlevels hchain
  show Follows _ _ (if s.isFile input then _ else _) (if s.isFile input then _ else _)
  split
  · exact hfile isRoot input scope
  · rw [expand_withDepth]
    exact expand_follows (hfile false) (fun path => hfile false path scope) (.inl ⟨rfl, rfl⟩) _ _
      input isRoot

/-- A text is expanded like the file that holds it. -/
theorem parse_text_of_file {input text m : String} {scope : Scope} {isRoot : Bool}
    (hfile : s.isFile input = true) (hkind : SourceKind.ofPath (s.path input) = .ok .html)
    (htext : s.disk.readText (s.path input) = .ok text) (hinline : s.isFile text = false)
    (hm : (s.parse input scope isRoot).result = .ok m) :
    (s.parse text scope isRoot).result = .ok m := by
  unfold Site.parse at hm ⊢
  rw [if_pos hfile] at hm
  rw [if_neg (by simp [hinline])]
  unfold Site.reader
  generalize s.maxDepth = levels at hm ⊢
  cases levels with
  | zero =>
    obtain ⟨_, -, hm⟩ := Logged.bind_eq_ok hm
    cases hm
  | succ levels =>
    obtain ⟨canonical, -, hm⟩ := Logged.bind_eq_ok hm
    obtain ⟨markup, hmarkup, hm⟩ := Logged.bind_eq_ok hm
    have hload : (Source.load s.formats s.disk (s.path input)).result = .ok text := by
      unfold Source.load Source.read
      rw [hkind, htext]
      rfl
    obtain rfl : text = markup := Except.ok.inj (hload.symm.trans hmarkup)
    have hreader (path : String) (sc : Scope) :
        Follows (fun _ => True) Eq (s.parseFile levels ([] ++ [canonical]) false path sc)
          (s.parseFile (levels + 1) [] false path sc) :=
      (parseFile_follows s s.maxDepth (Nat.le_succ levels) (List.nil_subset _) false path sc).mono
        (fun _ _ => trivial) fun _ _ h => h
    exact (expand_follows hreader (fun path => hreader path scope)
      (.inr ⟨fun _ => trivial, .refl scope⟩) _ _ text isRoot).result_eq_ok hm

end

/-! ## Pages -/

namespace PageBuilder

def withDepth (b : PageBuilder) (depth : Nat) : PageBuilder := { b with maxDepth := depth }

variable {b : PageBuilder} {depth : Nat}

theorem root_withDepth : (b.withDepth depth).root = b.root := rfl

theorem parse_follows (hdepth : b.maxDepth ≤ depth) (d : Disk) (input : String) (scope : Scope)
    (isRoot : Bool) :
    Follows (·.isCallLimit) Eq ((b.site d).parse input scope isRoot)
      (((b.withDepth depth).site d).parse input scope isRoot) := by
  show Follows _ _ ((b.site d).parseBelow [] input scope isRoot)
    (((b.site d).withDepth depth).parseBelow [] input scope isRoot)
  exact parseBelow_follows hdepth (fun _ h => h) (Nat.le_refl _) input scope isRoot

theorem describedMarkup_follows (hdepth : b.maxDepth ≤ depth) (d : Disk) (page : Path) :
    Follows (·.isCallLimit) Eq (b.describedMarkup d page)
      ((b.withDepth depth).describedMarkup d page) := by
  unfold describedMarkup
  rw [root_withDepth]
  refine .bind_left _ fun text => .bind_left _ fun descriptor => .bind_left _ ?_
  intro _
  exact .ite (parse_follows hdepth d _ _ true) (.refl _)

theorem render_follows (hdepth : b.maxDepth ≤ depth) (d : Disk) (page : Path) :
    Follows (·.isCallLimit) Eq (b.render d page) ((b.withDepth depth).render d page) := by
  have hembed {x y : Logged SiteError String} (isDescriptor : Bool)
      (h : Follows (·.isCallLimit) Eq x y) :
      Follows (·.isCallLimit) Eq
        (x >>= fun markup => b.articles.embed b.formats d markup (.file page) >>= fun markup => pure
          (markup, b.output.join (if isDescriptor then page.withExtension "html" else page)))
        (y >>= fun markup => b.articles.embed b.formats d markup (.file page) >>= fun markup => pure
          (markup, b.output.join (if isDescriptor then page.withExtension "html" else page))) := by
    refine h.bind fun markup _ hmarkup => ?_
    subst hmarkup
    exact .refl _
  unfold render
  refine .ite (.error rfl (.inr rfl)) ?_
  exact .ite (hembed _ (describedMarkup_follows hdepth d page))
    (hembed _ (parse_follows hdepth d page.text Scope.empty true))

/-- A page that is built stays as it is where the site may be deeper. -/
theorem build_withDepth (hdepth : b.maxDepth ≤ depth) {page target : Path} {st : BuildState}
    (h : (b.build page st).2.result = .ok target) :
    ((b.withDepth depth).build page st).1 = (b.build page st).1 ∧
      ((b.withDepth depth).build page st).2.result = .ok target := by
  obtain ⟨relative, r, hp, hr⟩ := BuildStep.exists_render_of_build h
  have hr' := (render_follows hdepth st.disk relative).result_eq_ok hr
  obtain ⟨hstate, hresult⟩ := BuildStep.build_of_render hp hr
  obtain ⟨hstate', hresult'⟩ := BuildStep.build_of_render hp hr'
  exact ⟨hstate'.trans hstate.symm, hresult'.trans (hresult.symm.trans h)⟩

end PageBuilder

/-- **Limits.** The chain and the depth only ever turn a success into a failure. What is expanded
below a chain is expanded alike below every chain that is no longer and holds no other files, in
every site that is no less deep; and it fails alike, if it fails for another reason. So a page that
is built stays as it is where the site may be deeper, and an HTML file that is expanded is expanded
like its text. -/
theorem limits_only_fail (s : Site) :
    (∀ (depth : Nat) (chain chain' : List Path), s.maxDepth ≤ depth → (∀ p ∈ chain', p ∈ chain) →
      chain'.length ≤ chain.length → ∀ (input : String) (scope : Scope) (isRoot : Bool),
        (∀ m, (s.parseBelow chain input scope isRoot).result = .ok m →
          ((s.withDepth depth).parseBelow chain' input scope isRoot).result = .ok m) ∧
        (∀ e, (s.parseBelow chain input scope isRoot).result = .error e → e.isCallLimit = false →
          ((s.withDepth depth).parseBelow chain' input scope isRoot).result = .error e)) ∧
    (∀ (b : PageBuilder) (depth : Nat), b.maxDepth ≤ depth →
      ∀ (page target : Path) (st : BuildState), (b.build page st).2.result = .ok target →
        ((b.withDepth depth).build page st).1 = (b.build page st).1 ∧
        ((b.withDepth depth).build page st).2.result = .ok target) ∧
    (∀ (input text m : String) (scope : Scope) (isRoot : Bool), s.isFile input = true →
      SourceKind.ofPath (s.path input) = .ok .html → s.disk.readText (s.path input) = .ok text →
      s.isFile text = false → (s.parse input scope isRoot).result = .ok m →
        (s.parse text scope isRoot).result = .ok m) := by
  refine ⟨fun depth chain chain' hdepth hchain hlength input scope isRoot => ?_, ?_, ?_⟩
  · have h := parseBelow_follows hdepth hchain hlength input scope isRoot
    refine ⟨fun m hm => h.result_eq_ok hm, fun e he hlimit => ?_⟩
    refine (h.result_error he).resolve_left fun hcall => ?_
    rw [hcall] at hlimit
    cases hlimit
  · exact fun b depth hdepth page target st h => PageBuilder.build_withDepth hdepth h
  · exact fun input text m scope isRoot hfile hkind htext hinline hm =>
      parse_text_of_file hfile hkind htext hinline hm

def linkedPages : PageBuilder := ⟨.standard, linkedSite.root, linkedSite.maxDepth, ⟨"out"⟩, .empty⟩

/-- A text with a template block that names no file. -/
def strayText : String := "<section type=\"template\" template=\"m.html\"></section>"

/-- A site of depth two is made deeper, and what was expanded below a file is expanded below none. -/
theorem deeper_linked_site :
    ((linkedSite.withDepth 3).parseBelow [] "l.html" .empty false).result = .ok "b" ∧
    ((linkedSite.withDepth 3).parseBelow [] strayText .empty false).result =
      .error (.missingFile ⟨"./m.html"⟩ "inline text") ∧
    ((linkedPages.withDepth 3).build ⟨"a.html"⟩ ⟨linkedSite.disk, []⟩).2.result =
      .ok ⟨"out/a.html"⟩ ∧
    (linkedSite.parse linkingText .empty false).result =
      .ok "<section type=\"template\" template=\"l.html\">b</section>" := by
  obtain ⟨hbelow, hpages, htext⟩ := limits_only_fail linkedSite
  have hshorter := hbelow 3 [⟨"/z.html"⟩] [] (by decide) (by decide) (by decide)
  refine ⟨(hshorter "l.html" .empty false).1 "b" (by decide +kernel),
    (hshorter strayText .empty false).2 _ (by decide +kernel) rfl, ?_, ?_⟩
  · exact (hpages linkedPages 3 (by decide) ⟨"a.html"⟩ _ ⟨linkedSite.disk, []⟩
      (by decide +kernel)).2
  · exact htext "a.html" linkingText _ .empty false (by decide +kernel) (by decide +kernel)
      (by decide +kernel) (by decide +kernel) (by decide +kernel)

end StaticSite
