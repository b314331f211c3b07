import Mathlib.Data.List.Dedup
import Mathlib.Data.List.Perm.Subperm
import StaticSite.Expansion.Page
import StaticSite.Formats
import StaticSite.Proofs.Logged

/-!
The files that are being read while a text of a site is expanded.

A template block or an HTML include asks for another file while the text that holds it is still being
expanded. The files on the way to a text make up its chain. Proved here, for every site:

* `parseFile_eq`: a file is expanded by accepting it into the chain, reading it, and expanding its
  text below the longer chain, so the number of levels left is what the chain leaves of the depth;
* `accept_of_mem`, `accept_of_not_mem`: when a file is accepted, and with which failure it is not;
* `Site.Reaches`: the texts that come to be expanded in one run, with the files being read;
* `opened_kept`: opening a file keeps what holds of every chain, and `reaches_kept`: so it holds of
  every text that a run comes to;
* `chain_of_reaches`: a chain names the files being read, each once, and no more than the depth
  allows or the disk has.
-/

namespace StaticSite

/-! ## Files of a tree -/

namespace FileTree

def isFile (t : FileTree) (loc : Location) : Bool :=
  match t.get? loc with
  | some (.file _) => true
  | _ => false

/-- The locations of the files of a tree, each once. -/
def files (t : FileTree) : List Location := ((t.entries.map Prod.fst).filter t.isFile).dedup

theorem mem_of_lookup {entries : List (Location × Entry)} {loc : Location} {e : Entry}
    (h : entries.lookup loc = some e) : loc ∈ entries.map Prod.fst := by
  induction entries with
  | nil => cases h
  | cons x rest ih =>
    rw [List.lookup_cons] at h
    rw [List.map_cons, List.mem_cons]
    cases hx : loc == x.1 with
    | true => exact Or.inl (by simpa using hx)
    | false =>
      rw [hx] at h
      exact Or.inr (ih h)

theorem mem_files_of_get? {t : FileTree} {loc : Location} {bytes : ByteArray}
    (h : t.get? loc = some (.file bytes)) : loc ∈ t.files := by
  have hfile : t.isFile loc = true := by
    unfold isFile
    rw [h]
  have hentry : loc ∈ t.entries.map Prod.fst := by
    cases loc with
    | nil => cases h
    | cons n rest => exact mem_of_lookup h
  exact List.mem_dedup.2 (List.mem_filter.2 ⟨hentry, hfile⟩)

end FileTree

/-- What is read as the source of a text is a file. -/
theorem exists_file_of_load {formats : Formats} {d : Disk} {p : Path} {markup : String}
    (h : (Source.load formats d p).result = .ok markup) :
    ∃ loc ∈ d.tree.files, d.locate ⟨true, false⟩ p = .ok loc := by
  obtain ⟨kind, -, h⟩ := Logged.bind_eq_ok h
  obtain ⟨text, htext, -⟩ := Logged.bind_eq_ok h
  replace htext : Source.read d p = .ok text := htext
  have hread : d.readText p = .ok text := by
    unfold Source.read at htext
    split at htext
    · next text' hread => rw [hread, Except.ok.inj htext]
    · cases htext
  obtain ⟨bytes, hbytes, -⟩ := Logged.except_bind_eq_ok hread
  obtain ⟨loc, hloc, hfile⟩ := Logged.except_bind_eq_ok hbytes
  refine ⟨loc, ?_, hloc⟩
  split at hfile
  · next hget => exact FileTree.mem_files_of_get? hget
  · cases hfile
  · cases hfile

theorem exists_locate_of_isFile {d : Disk} {p : Path} (h : d.isFile p = true) :
    ∃ loc, d.locate ⟨true, false⟩ p = .ok loc := by
  unfold Disk.isFile Disk.entry? at h
  cases hloc : d.locate ⟨true, false⟩ p with
  | error e =>
    rw [hloc] at h
    cases h
  | ok loc => exact ⟨loc, rfl⟩

theorem canonicalize_of_locate {d : Disk} {p : Path} {loc : Location}
    (h : d.locate ⟨true, false⟩ p = .ok loc) :
    d.canonicalize p =
      if Disk.maxPathBytes < (Disk.absolutePath loc).text.utf8ByteSize then .error .nameTooLong
      else .ok (Disk.absolutePath loc) := by
  unfold Disk.canonicalize
  rw [h]
  rfl

theorem canonicalize_eq_ok {d : Disk} {p canonical : Path} {loc : Location}
    (hlocate : d.locate ⟨true, false⟩ p = .ok loc) (h : d.canonicalize p = .ok canonical) :
    canonical = Disk.absolutePath loc := by
  rw [canonicalize_of_locate hlocate] at h
  split at h
  · cases h
  · exact (Except.ok.inj h).symm

/-! ## Accepting a file -/

namespace Site

/-- The canonical path of a file that may be read below a chain: it is not in the chain, and the
chain is not yet as long as the site allows. -/
def accept (s : Site) (chain : List Path) (file : Path) : Except SiteError Path := do
  let canonical ← s.enter chain file
  if s.maxDepth ≤ chain.length then .error (.recursionLimit s.maxDepth file) else .ok canonical

/-- The files that a text below a chain refers to. -/
def readerBelow (s : Site) (chain : List Path) : Reader :=
  s.parseFile (s.maxDepth - chain.length) chain false

/-- Expands an input for a text below a chain: a file of the site, if the input is its path, and the
input itself otherwise. -/
def parseBelow (s : Site) (chain : List Path) (input : String) (scope : Scope) (isRoot : Bool) :
    Logged SiteError String :=
  if s.isFile input then s.parseFile (s.maxDepth - chain.length) chain isRoot input scope
  else s.expand (s.readerBelow chain) chain.length .inline input scope isRoot

variable {s : Site} {chain : List Path} {file canonical : Path}

theorem parse_eq_parseBelow (s : Site) (input : String) (scope : Scope) (isRoot : Bool) :
    s.parse input scope isRoot = s.parseBelow [] input scope isRoot := rfl

theorem dropWhile_append_cons {before after : List Path} (h : canonical ∉ before) :
    (before ++ canonical :: after).dropWhile (· != canonical) = canonical :: after := by
  rw [List.dropWhile_append_of_pos]
  · rw [List.dropWhile_cons_of_neg (by simp)]
  · intro p hp
    have hne : p ≠ canonical := fun e => h (e ▸ hp)
    simpa using hne

/-- A file in the chain is not accepted, however long the chain is. What is reported is the chain
from the file on, and the file once more. -/
theorem accept_of_mem {before after : List Path} (hc : s.disk.canonicalize file = .ok canonical)
    (h : canonical ∉ before) :
    s.accept (before ++ canonical :: after) file =
      .error (.cyclicReference ((canonical :: after ++ [canonical]).map s.display)) := by
  have hmem : canonical ∈ before ++ canonical :: after := by simp
  unfold accept enter
  rw [hc]
  dsimp only
  rw [if_pos hmem, dropWhile_append_cons h]
  rfl

/-- A file without a canonical path is not accepted, however long the chain is. -/
theorem accept_of_error {e : OsError} (hc : s.disk.canonicalize file = .error e) :
    s.accept chain file = .error (.io file e) := by
  unfold accept enter
  rw [hc]
  rfl

theorem enter_of_not_mem (hc : s.disk.canonicalize file = .ok canonical) (h : canonical ∉ chain) :
    s.enter chain file = .ok canonical := by
  unfold enter
  rw [hc]
  exact if_neg h

/-- While the chain may grow, it alone decides. -/
theorem accept_eq_enter (h : chain.length < s.maxDepth) :
    s.accept chain file = s.enter chain file := by
  unfold accept
  cases s.enter chain file with
  | error e => rfl
  | ok canonical => exact if_neg (Nat.not_le_of_lt h)

theorem accept_of_not_mem (hc : s.disk.canonicalize file = .ok canonical) (h : canonical ∉ chain) :
    s.accept chain file =
      if s.maxDepth ≤ chain.length then .error (.recursionLimit s.maxDepth file)
      else .ok canonical := by
  unfold accept
  rw [enter_of_not_mem hc h]
  rfl

theorem accept_eq_ok (h : s.accept chain file = .ok canonical) :
    s.disk.canonicalize file = .ok canonical ∧ canonical ∉ chain ∧ chain.length < s.maxDepth := by
  obtain ⟨c, henter, h⟩ := Logged.except_bind_eq_ok h
  split at h
  · cases h
  · next hlength =>
    obtain rfl := Except.ok.inj h
    unfold enter at henter
    split at henter
    · cases henter
    · next hc =>
      split at henter
      · cases henter
      · next hmem =>
        obtain rfl := Except.ok.inj henter
        exact ⟨hc, hmem, Nat.lt_of_not_le hlength⟩

end Site

/-! ## Texts being expanded -/

/-- A text that is being expanded. -/
structure Expansion where
  /-- The files being read, the outermost first, as they are spelled. -/
  files : List String
  chain : List Path
  origin : Origin
  markup : String
  scope : Scope
  isRoot : Bool

namespace Expansion

def run (s : Site) (x : Expansion) : Logged SiteError String :=
  s.expand (s.readerBelow x.chain) x.chain.length x.origin x.markup x.scope x.isRoot

/-- The text of a file that is read for `x`. -/
def below (x : Expansion) (path : String) (canonical : Path) (markup : String) (scope : Scope)
    (isRoot : Bool) : Expansion :=
  ⟨x.files ++ [path], x.chain ++ [canonical], .file ⟨path⟩, markup, scope, isRoot⟩

/-- Expanding a text asks for a file in a scope: the outcome hangs on what the answer is. -/
def Asks (s : Site) (x : Expansion) (path : String) (scope : Scope) : Prop :=
  ∃ reader : Site.Reader,
    (∀ p sc, (p, sc) ≠ (path, scope) → reader p sc = s.readerBelow x.chain p sc) ∧
      s.expand reader x.chain.length x.origin x.markup x.scope x.isRoot ≠ x.run s

/-- Opening a file for `x` comes to expanding the text `y`. -/
def Opens (s : Site) (x : Expansion) (path : String) (scope : Scope) (isRoot : Bool)
    (y : Expansion) : Prop :=
  ∃ canonical markup, s.accept x.chain (s.path path) = .ok canonical ∧
    (Source.load s.formats s.disk (s.path path)).result = .ok markup ∧
    y = x.below path canonical markup scope isRoot

/-- Expanding `x` comes to expanding `y`, for a template block or an HTML include of `x`. -/
def Nests (s : Site) (x y : Expansion) : Prop :=
  ∃ path scope, x.Asks s path scope ∧ x.Opens s path scope false y

/-- An input that is a text of its own, outside of all files. -/
def inline (input : String) (scope : Scope) (isRoot : Bool) : Expansion :=
  ⟨[], [], .inline, input, scope, isRoot⟩

end Expansion

/-- The texts that come to be expanded when an input is. -/
inductive Site.Reaches (s : Site) (input : String) (scope : Scope) (isRoot : Bool) :
    Expansion → Prop
  | text (h : s.isFile input = false) : Reaches s input scope isRoot (.inline input scope isRoot)
  | file {x : Expansion} (h : s.isFile input = true)
      (hx : (Expansion.inline input scope isRoot).Opens s input scope isRoot x) :
      Reaches s input scope isRoot x
  | nested {x y : Expansion} (hx : Reaches s input scope isRoot x) (hy : x.Nests s y) :
      Reaches s input scope isRoot y

variable {s : Site}

/-- **The recursion.** A file below a chain is accepted, read, and its text expanded below the
longer chain. -/
theorem parseFile_eq (x : Expansion) (path : String) (scope : Scope) (isRoot : Bool) :
    s.parseFile (s.maxDepth - x.chain.length) x.chain isRoot path scope =
      Logged.lift (s.accept x.chain (s.path path)) >>= fun canonical =>
        Source.load s.formats s.disk (s.path path) >>= fun markup =>
          (x.below path canonical markup scope isRoot).run s := by
  cases hl : s.maxDepth - x.chain.length with
  | zero =>
    have hle : s.maxDepth ≤ x.chain.length := by omega
    simp only [Site.parseFile, Site.accept, if_pos hle, Logged.lift_bind, bind_assoc,
      Logged.lift_error, Logged.fail_bind]
  | succ levels =>
    have hlt : x.chain.length < s.maxDepth := by omega
    have hlevels (canonical : Path) : s.maxDepth - (x.chain ++ [canonical]).length = levels := by
      rw [List.length_append, List.length_singleton]
      omega
    rw [Site.accept_eq_enter hlt]
    simp only [Site.parseFile, Expansion.run, Expansion.below, Site.readerBelow, hlevels]

/-! ## What holds of every chain -/

namespace Expansion

/-- The chain names the files being read by their canonical paths, each once, and all of them are
files of the disk. -/
structure Kept (s : Site) (x : Expansion) : Prop where
  named : x.files.map (fun p => s.disk.canonicalize (s.path p)) = x.chain.map .ok
  nodup : x.chain.Nodup
  length_le : x.chain.length ≤ s.maxDepth
  onDisk : ∀ p ∈ x.chain, ∃ loc ∈ s.disk.tree.files, p = Disk.absolutePath loc

theorem Kept.inline (s : Site) (input : String) (scope : Scope) (isRoot : Bool) :
    (inline input scope isRoot).Kept s :=
  ⟨rfl, List.nodup_nil, Nat.zero_le _, nofun⟩

/-- Opening a file makes the chain longer by its canonical path. -/
theorem opened_kept {x y : Expansion} {path : String} {scope : Scope} {isRoot : Bool}
    (hx : x.Kept s) (h : x.Opens s path scope isRoot y) : y.Kept s := by
  obtain ⟨canonical, markup, haccept, hload, rfl⟩ := h
  obtain ⟨hc, hmem, hlt⟩ := Site.accept_eq_ok haccept
  obtain ⟨loc, hloc, hlocate⟩ := exists_file_of_load hload
  obtain rfl := canonicalize_eq_ok hlocate hc
  refine ⟨?_, ?_, ?_, ?_⟩
  · simp only [below, List.map_append, hx.named, List.map_cons, List.map_nil, hc]
  · show (x.chain ++ [Disk.absolutePath loc]).Nodup
    rw [List.nodup_append]
    refine ⟨hx.nodup, List.nodup_singleton _, fun p hp q hq e => hmem ?_⟩
    rw [← List.mem_singleton.1 hq, ← e]
    exact hp
  · show (x.chain ++ [Disk.absolutePath loc]).length ≤ s.maxDepth
    rw [List.length_append, List.length_singleton]
    exact hlt
  · intro p hp
    rcases List.mem_append.1 hp with hp | hp
    · exact hx.onDisk p hp
    · exact ⟨loc, hloc, List.mem_singleton.1 hp⟩

theorem length_opened {x y : Expansion} {path : String} {scope : Scope} {isRoot : Bool}
    (h : x.Opens s path scope isRoot y) :
    y.chain.length = x.chain.length + 1 ∧ x.chain.length < s.maxDepth := by
  obtain ⟨canonical, markup, haccept, -, rfl⟩ := h
  exact ⟨List.length_append, (Site.accept_eq_ok haccept).2.2⟩

/-- Texts nest in each other only so deep, because every one has a longer chain than the last. -/
theorem wellFounded_nests (s : Site) : WellFounded fun y x => Nests s x y := by
  refine Subrelation.wf (fun {y x} h => ?_) (measure fun x => s.maxDepth - x.chain.length).wf
  obtain ⟨path, scope, -, hopens⟩ := h
  obtain ⟨hlen, hlt⟩ := length_opened hopens
  show s.maxDepth - y.chain.length < s.maxDepth - x.chain.length
  omega

/-- No more files are open than the disk has. -/
theorem Kept.length_le_files {x : Expansion} (h : x.Kept s) :
    x.chain.length ≤ s.disk.tree.files.length := by
  have hsub : x.chain ⊆ s.disk.tree.files.map Disk.absolutePath := by
    intro p hp
    obtain ⟨loc, hloc, rfl⟩ := h.onDisk p hp
    exact List.mem_map_of_mem hloc
  have hle := (h.nodup.subperm hsub).length_le
  rwa [List.length_map] at hle

end Expansion

theorem reaches_kept {input : String} {scope : Scope} {isRoot : Bool} {x : Expansion}
    (h : s.Reaches input scope isRoot x) : x.Kept s := by
  induction h with
  | text => exact Expansion.Kept.inline s input scope isRoot
  | file _ hx => exact Expansion.opened_kept (Expansion.Kept.inline s input scope isRoot) hx
  | nested _ hy ih =>
    obtain ⟨path, scope, -, hopens⟩ := hy
    exact Expansion.opened_kept ih hopens

/-- **The chain.** The texts of a run nest in each other only so deep. The chain of each names the
files being read by their canonical paths, the outermost first and none of them twice; they are no
more than the depth allows, and no more than the disk has. A further file is expanded below the chain
if it is accepted: one that is in the chain is refused as a cycle, however long the chain is, and one
that is not is refused exactly where the chain has reached the depth. A file has a canonical path
unless this is longer than a path may be; then it is refused for that. -/
theorem chain_of_reaches (s : Site) (input : String) (scope : Scope) (isRoot : Bool) :
    s.parse input scope isRoot = s.parseBelow [] input scope isRoot ∧
    WellFounded (fun y x => Expansion.Nests s x y) ∧
    ∀ x, s.Reaches input scope isRoot x →
      x.files.map (fun p => s.disk.canonicalize (s.path p)) = x.chain.map .ok ∧
      x.chain.Nodup ∧
      x.files.length ≤ s.maxDepth ∧
      x.files.length ≤ s.disk.tree.files.length ∧
      ∀ path, s.isFile path = true →
        (∀ sc root, s.parseBelow x.chain path sc root =
          Logged.lift (s.accept x.chain (s.path path)) >>= fun c =>
            Source.load s.formats s.disk (s.path path) >>= fun markup =>
              (x.below path c markup sc root).run s) ∧
        (∃ loc, s.disk.locate ⟨true, false⟩ (s.path path) = .ok loc ∧
          s.disk.canonicalize (s.path path) =
            if Disk.maxPathBytes < (Disk.absolutePath loc).text.utf8ByteSize then .error .nameTooLong
            else .ok (Disk.absolutePath loc)) ∧
        (∀ e, s.disk.canonicalize (s.path path) = .error e →
          s.accept x.chain (s.path path) = .error (.io (s.path path) e)) ∧
        ∀ canonical, s.disk.canonicalize (s.path path) = .ok canonical →
          (∀ before after, x.chain = before ++ canonical :: after →
            s.accept x.chain (s.path path) =
              .error (.cyclicReference ((canonical :: after ++ [canonical]).map s.display))) ∧
          (canonical ∉ x.chain →
            (s.accept x.chain (s.path path) = .error (.recursionLimit s.maxDepth (s.path path)) ↔
              x.chain.length = s.maxDepth) ∧
            (s.accept x.chain (s.path path) = .ok canonical ↔ x.chain.length < s.maxDepth)) := by
  refine ⟨s.parse_eq_parseBelow input scope isRoot, Expansion.wellFounded_nests s, fun x hx => ?_⟩
  have hk := reaches_kept hx
  have hlen : x.files.length = x.chain.length := by
    have := congrArg List.length hk.named
    rwa [List.length_map, List.length_map] at this
  refine ⟨hk.named, hk.nodup, hlen ▸ hk.length_le, hlen ▸ hk.length_le_files, fun path hpath => ?_⟩
  obtain ⟨loc, hlocate⟩ := exists_locate_of_isFile hpath
  refine ⟨fun sc root => ?_, ⟨loc, hlocate, canonicalize_of_locate hlocate⟩,
    fun e hc => Site.accept_of_error hc, fun canonical hc => ⟨fun before after h => ?_, fun h => ?_⟩⟩
  · unfold Site.parseBelow
    rw [if_pos hpath, parseFile_eq]
  · have hnodup := hk.nodup
    rw [h, List.nodup_append] at hnodup
    rw [h]
    exact Site.accept_of_mem hc fun hb => hnodup.2.2 _ hb _ List.mem_cons_self rfl
  · rw [Site.accept_of_not_mem hc h]
    have hle := hk.length_le
    by_cases hfull : s.maxDepth ≤ x.chain.length
    · simp [Nat.le_antisymm hle hfull]
    · have hne : x.chain.length ≠ s.maxDepth := by omega
      simp [hfull, hne, Nat.lt_of_not_le hfull]

/-- A text with a template block that names a link. -/
def linkingText : String := "<section type=\"template\" template=\"l.html\"></section>"

/-- A site of depth two, with a file that refers to another one by the name of a link. -/
def linkedSite : Site where
  formats := .standard
  disk := ⟨⟨[(["a.html"], .file linkingText.toUTF8), (["b.html"], .file "b".toUTF8),
    (["l.html"], .link "b.html")]⟩, []⟩
  root := ⟨"."⟩
  maxDepth := 2

def outerText : Expansion :=
  (Expansion.inline "a.html" .empty false).below "a.html" ⟨"/a.html"⟩ linkingText .empty false

def innerText : Expansion := outerText.below "l.html" ⟨"/b.html"⟩ "b" .empty false

/-- Does not answer where it is asked for the template. -/
def silentReader : Site.Reader := fun p sc =>
  if p = "l.html" ∧ sc.fields.isEmpty then .fail (.missingFile ⟨p⟩ "")
  else linkedSite.readerBelow outerText.chain p sc

theorem asks_outerText : outerText.Asks linkedSite "l.html" .empty := by
  refine ⟨silentReader, fun p sc h => ?_, fun h => ?_⟩
  · refine if_neg fun ⟨hp, hsc⟩ => h ?_
    obtain ⟨fields⟩ := sc
    obtain rfl : fields = [] := List.isEmpty_iff.1 hsc
    rw [hp]
    rfl
  · have hsilent : (linkedSite.expand silentReader outerText.chain.length outerText.origin
        outerText.markup outerText.scope outerText.isRoot).result.toOption = none := by
      decide +kernel
    have hrun : (outerText.run linkedSite).result.toOption =
        some "<section type=\"template\" template=\"l.html\">b</section>" := by
      decide +kernel
    rw [h, hrun] at hsilent
    cases hsilent

theorem reaches_innerText : linkedSite.Reaches "a.html" .empty false innerText := by
  have houter : linkedSite.Reaches "a.html" .empty false outerText :=
    .file (by decide +kernel) ⟨⟨"/a.html"⟩, linkingText, by decide +kernel, by decide +kernel, rfl⟩
  exact .nested houter
    ⟨"l.html", .empty, asks_outerText, ⟨"/b.html"⟩, "b", by decide +kernel, by decide +kernel, rfl⟩

/-- The chain of the second text is as long as the site is deep. Still the first file is refused as a
cycle. -/
theorem chain_of_linked_file :
    linkedSite.Reaches "a.html" .empty false innerText ∧
    innerText.files.length ≤ linkedSite.maxDepth ∧
    linkedSite.accept innerText.chain (linkedSite.path "a.html") =
      .error (.cyclicReference [⟨"a.html"⟩, ⟨"b.html"⟩, ⟨"a.html"⟩]) := by
  obtain ⟨-, -, h⟩ := chain_of_reaches linkedSite "a.html" .empty false
  obtain ⟨-, -, hdepth, -, hfile⟩ := h innerText reaches_innerText
  obtain ⟨-, -, -, hcanonical⟩ := hfile "a.html" (by decide +kernel)
  obtain ⟨hcycle, -⟩ := hcanonical ⟨"/a.html"⟩ (by decide +kernel)
  have hshown : ([⟨"/a.html"⟩, ⟨"/b.html"⟩, ⟨"/a.html"⟩] : List Path).map linkedSite.display =
      [⟨"a.html"⟩, ⟨"b.html"⟩, ⟨"a.html"⟩] := by
    decide +kernel
  refine ⟨reaches_innerText, hdepth, ?_⟩
  rw [← hshown]
  exact hcycle [] [⟨"/b.html"⟩] rfl

end StaticSite
