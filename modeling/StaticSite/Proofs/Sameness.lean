import StaticSite.Proofs.Preparing

/-!
Builds on disks that hold the same.

The entries of a tree stand in some order. Nothing that a build does hangs on it. Proved here, for all
options, on every two disks with the same entries:

* `Same.perm`: they have the same entries, in whatever order;
* `apply_same`: each change comes to the same on both, and leaves them the same;
* `copyDependencies_extensional`, `indexArticles_extensional`, `buildPages_extensional`: so does each
  part of a build.
-/

namespace StaticSite

/-! ## Trees with the same entries -/

/-- Every location has one entry, and the top, which is always a directory, has none. -/
structure FileTree.Distinct (t : FileTree) : Prop where
  nodup : (t.entries.map Prod.fst).Nodup
  top : [] ∉ t.entries.map Prod.fst

namespace FileTree

variable {t t' : FileTree}

theorem mem_entries_iff (h : t.Distinct) {loc : Location} {e : Entry} :
    (loc, e) ∈ t.entries ↔ loc ≠ [] ∧ t.get? loc = some e := by
  constructor
  · intro hmem
    have hkey : loc ∈ t.entries.map Prod.fst := List.mem_map_of_mem hmem
    have hne : loc ≠ [] := by
      rintro rfl
      exact h.top hkey
    refine ⟨hne, ?_⟩
    obtain ⟨n, rest, rfl⟩ := List.exists_cons_of_ne_nil hne
    rw [get?_cons, List.lookup_eq_some_iff]
    obtain ⟨front, back, hsplit⟩ := List.append_of_mem hmem
    refine ⟨front, back, hsplit, fun p hp => ?_⟩
    have hnodup := h.nodup
    rw [hsplit, List.map_append, List.map_cons, List.nodup_append] at hnodup
    have hother := hnodup.2.2 p.1 (List.mem_map_of_mem hp) (n :: rest) List.mem_cons_self
    simpa using hother.symm
  · rintro ⟨hne, hget⟩
    exact mem_entries hne hget

theorem Distinct.insert (h : t.Distinct) {place : Location} (hplace : place ≠ []) (e : Entry) :
    (t.insert place e).Distinct := by
  have hkeys : ((t.insert place e).entries.map Prod.fst) =
      place :: (t.entries.map Prod.fst).filter (· != place) := by
    unfold FileTree.insert
    rw [List.map_cons, List.filter_map]
    rfl
  constructor
  · rw [hkeys, List.nodup_cons]
    exact ⟨by simp, h.nodup.filter _⟩
  · rw [hkeys, List.mem_cons, not_or]
    exact ⟨hplace.symm, fun hmem => h.top (List.mem_of_mem_filter hmem)⟩

theorem Distinct.eraseAll (h : t.Distinct) (q : Location → Bool) : (t.eraseAll q).Distinct := by
  have hkeys : (t.eraseAll q).entries.map Prod.fst = (t.entries.map Prod.fst).filter fun l => !q l := by
    unfold FileTree.eraseAll
    rw [List.filter_map]
    rfl
  constructor
  · rw [hkeys]
    exact h.nodup.filter _
  · rw [hkeys]
    exact fun hmem => h.top (List.mem_of_mem_filter hmem)

theorem perm_of_get? (h : t.Distinct) (h' : t'.Distinct) (hget : ∀ l, t'.get? l = t.get? l) :
    t.entries.Perm t'.entries := by
  refine (List.perm_ext_iff_of_nodup h.nodup.of_map h'.nodup.of_map).2 fun ⟨loc, e⟩ => ?_
  rw [mem_entries_iff h, mem_entries_iff h', hget]

theorem names_nodup (h : t.Distinct) (dir : Location) : (t.names dir).Nodup := by
  have hkeys : t.entries.Pairwise fun e e' => e.1 ≠ e'.1 := List.pairwise_map.1 h.nodup
  refine (List.mergeSort_perm _ _).nodup_iff.2 (hkeys.filterMap _ fun e e' hne n hn n' hn' heq => ?_)
  exact hne ((eq_of_name hn).trans (heq ▸ (eq_of_name hn').symm))

theorem names_sorted (t : FileTree) (dir : Location) : (t.names dir).Pairwise (· ≤ ·) := by
  have hsorted : (t.names dir).Pairwise fun n n' => decide (n ≤ n') = true := by
    refine List.pairwise_mergeSort (fun a b c hab hbc => ?_) (fun a b => ?_) _
    · exact decide_eq_true (String.le_trans (of_decide_eq_true hab) (of_decide_eq_true hbc))
    · simpa using String.le_total a b
  exact hsorted.imp of_decide_eq_true

theorem names_of_perm (h : t.entries.Perm t'.entries) (dir : Location) :
    t'.names dir = t.names dir := by
  refine List.Perm.eq_of_pairwise (fun a b _ _ => String.le_antisymm) (names_sorted t' dir)
    (names_sorted t dir) ?_
  exact (List.mergeSort_perm _ _).trans ((h.symm.filterMap _).trans (List.mergeSort_perm _ _).symm)

theorem depth_of_perm (h : t.entries.Perm t'.entries) : t'.depth = t.depth := by
  have hcomm : RightCommutative fun (n : Nat) (e : Location × Entry) => max n e.1.length :=
    ⟨fun n a b => by rw [Nat.max_assoc, Nat.max_comm a.1.length, ← Nat.max_assoc]⟩
  exact h.symm.foldl_eq 0

theorem isDirectory_of_get? (h : ∀ l, t'.get? l = t.get? l) (l : Location) :
    t'.isDirectory l = t.isDirectory l := by
  unfold isDirectory
  rw [h]

theorem walkFor_congr (hget : ∀ l, t'.get? l = t.get? l) (hnames : ∀ l, t'.names l = t.names l)
    (levels : Nat) (dir : Location) : t'.walkFor levels dir = t.walkFor levels dir := by
  induction levels generalizing dir with
  | zero => rfl
  | succ levels ih =>
    unfold walkFor
    simp only [hnames, isDirectory_of_get? hget, ih]

end FileTree

/-! ## Disks that hold the same -/

namespace Disk

/-- Two disks hold the same, whatever order their entries have. -/
structure Same (d d' : Disk) : Prop where
  cwd : d'.cwd = d.cwd
  get? : ∀ l, d'.tree.get? l = d.tree.get? l
  left : d.tree.Distinct
  right : d'.tree.Distinct

/-- What comes of an operation on two disks: the same answer, and disks that hold the same. -/
def SameResult {α : Type} (x x' : Disk × α) : Prop := x'.2 = x.2 ∧ Same x.1 x'.1

/-- Operations that give a disk or fail come to the same. -/
inductive SameMade : Except OsError Disk → Except OsError Disk → Prop
  | ok {d d' : Disk} (h : Same d d') : SameMade (.ok d) (.ok d')
  | error (e : OsError) : SameMade (.error e) (.error e)

namespace Same

variable {d d' : Disk} {p : Path} {l : Location}

theorem refl (h : d.tree.Distinct) : Same d d := ⟨rfl, fun _ => rfl, h, h⟩

theorem perm (h : Same d d') : d.tree.entries.Perm d'.tree.entries :=
  FileTree.perm_of_get? h.left h.right h.get?

theorem isDirectory (h : Same d d') (l : Location) : d'.tree.isDirectory l = d.tree.isDirectory l :=
  FileTree.isDirectory_of_get? h.get? l

theorem names (h : Same d d') (l : Location) : d'.tree.names l = d.tree.names l :=
  FileTree.names_of_perm h.perm l

theorem follow (h : Same d d') (r : Reach)
    (onLink : Location → List Step → Except OsError Location) (loc : Location) (xs : List Step) :
    Disk.follow d'.tree r onLink loc xs = Disk.follow d.tree r onLink loc xs := by
  induction xs generalizing loc with
  | nil => rfl
  | cons x xs ih =>
    cases x with
    | stay | up =>
      unfold Disk.follow
      rw [h.isDirectory, ih]
    | into n =>
      unfold Disk.follow
      rw [h.isDirectory, h.get?, ih]

theorem walk (h : Same d d') (r : Reach) (links : Nat) :
    Disk.walk d'.tree r links = Disk.walk d.tree r links := by
  induction links with
  | zero => exact funext fun loc => funext fun xs => h.follow r _ loc xs
  | succ links ih =>
    unfold Disk.walk
    rw [ih]
    exact funext fun loc => funext fun xs => h.follow r _ loc xs

theorem locate (h : Same d d') (r : Reach) (p : Path) : d'.locate r p = d.locate r p := by
  unfold Disk.locate
  rw [h.walk, h.isDirectory, h.cwd]

theorem entry? (h : Same d d') (p : Path) : d'.entry? p = d.entry? p := by
  unfold Disk.entry?
  rw [h.locate]
  cases d.locate ⟨true, false⟩ p with
  | error e => rfl
  | ok l => exact h.get? l

theorem readBytes (h : Same d d') (p : Path) : d'.readBytes p = d.readBytes p := by
  unfold Disk.readBytes
  rw [h.locate]
  cases d.locate ⟨true, false⟩ p with
  | error e => rfl
  | ok l =>
    dsimp only [bind, Except.bind]
    rw [h.get?]

theorem alike (h : Same d d') (p : Path) : d.Alike d' p where
  isFile := by
    unfold Disk.isFile
    rw [h.entry?]
  readText := by
    unfold Disk.readText
    rw [h.readBytes]
  canonicalize := by
    unfold Disk.canonicalize
    rw [h.locate]

/-! ## Operations -/

theorem insert (h : Same d d') (hl : l ≠ []) (e : Entry) : Same (d.insert l e) (d'.insert l e) where
  cwd := h.cwd
  get? loc := by
    show (d'.tree.insert l e).get? loc = (d.tree.insert l e).get? loc
    rw [FileTree.get?_insert, FileTree.get?_insert, h.get?]
  left := h.left.insert hl e
  right := h.right.insert hl e

theorem eraseAll (h : Same d d') (q : Location → Bool) :
    Same { d with tree := d.tree.eraseAll q } { d' with tree := d'.tree.eraseAll q } where
  cwd := h.cwd
  get? loc := by
    show (d'.tree.eraseAll q).get? loc = (d.tree.eraseAll q).get? loc
    rw [FileTree.get?_eraseAll, FileTree.get?_eraseAll, h.get?]
  left := h.left.eraseAll q
  right := h.right.eraseAll q

theorem ne_top_of_free {t : FileTree} (h : t.get? l = none) : l ≠ [] := by
  rintro rfl
  cases h

theorem ne_top_of_not_directory {t : FileTree} (h : ¬ t.isDirectory l = true) : l ≠ [] := by
  rintro rfl
  exact h rfl

theorem createDirectory (h : Same d d') (p : Path) :
    SameMade (d.createDirectory p) (d'.createDirectory p) := by
  unfold Disk.createDirectory
  rw [h.locate]
  cases d.locate ⟨false, true⟩ (trimSlashes p) with
  | error e => exact .error e
  | ok l =>
    dsimp only [bind, Except.bind]
    rw [h.get?]
    cases hget : d.tree.get? l with
    | some e => exact .error .fileExists
    | none => exact .ok (h.insert (ne_top_of_free hget) .directory)

theorem made (h : Same d d') (p : Path) : d'.isDirectory p = d.isDirectory p := by
  unfold Disk.isDirectory
  rw [h.entry?]

theorem makeOne (h : Same d d') (p : Path) : SameResult (d.makeOne p) (d'.makeOne p) := by
  have hmade := h.createDirectory p
  unfold Disk.makeOne
  rw [h.made]
  revert hmade
  generalize d.createDirectory p = r
  generalize d'.createDirectory p = r'
  intro hmade
  cases hmade with
  | ok hnext => exact ⟨rfl, hnext⟩
  | error e =>
    dsimp only
    split
    · exact ⟨rfl, h⟩
    · exact ⟨rfl, h⟩

theorem createFirst (h : Same d d') (ps : List Path) :
    SameResult (d.createFirst ps) (d'.createFirst ps) := by
  induction ps generalizing d d' with
  | nil => exact ⟨rfl, h⟩
  | cons p above ih =>
    by_cases hempty : p.text = ""
    · unfold Disk.createFirst
      rw [hempty]
      exact ⟨rfl, h⟩
    have hmade := h.createDirectory p
    by_cases hfound : d.createDirectory p = .error .notFound
    · have hfound' : d'.createDirectory p = .error .notFound := by
        rw [hfound] at hmade
        generalize d'.createDirectory p = r' at hmade
        cases hmade
        rfl
      rw [createFirst_of_notFound hempty hfound, createFirst_of_notFound hempty hfound']
      obtain ⟨hresult, hnext⟩ := ih h
      rw [hresult]
      cases (d.createFirst above).2 with
      | error e => exact ⟨rfl, hnext⟩
      | ok _ => exact hnext.makeOne p
    · have hfound' : d'.createDirectory p ≠ .error .notFound := by
        intro hfound'
        rw [hfound'] at hmade
        generalize d.createDirectory p = r at hmade hfound
        cases hmade
        exact hfound rfl
      rw [createFirst_of_found hempty hfound, createFirst_of_found hempty hfound']
      exact h.makeOne p

theorem createDirectories (h : Same d d') (p : Path) :
    SameResult (d.createDirectories p) (d'.createDirectories p) := h.createFirst _

theorem locateDirectory (h : Same d d') (p : Path) : d'.locateDirectory p = d.locateDirectory p := by
  unfold Disk.locateDirectory
  rw [h.locate]

theorem freeName (h : Same d d') (dir : Location) (tries n : Nat) :
    Disk.freeName d'.tree dir tries n = Disk.freeName d.tree dir tries n := by
  induction tries generalizing n with
  | zero => rfl
  | succ tries ih =>
    unfold Disk.freeName
    rw [h.get?, ih]

theorem temporaryIn (h : Same d d') (p : Path) : d'.temporaryIn p = d.temporaryIn p := by
  unfold Disk.temporaryIn
  rw [h.locateDirectory, h.perm.length_eq]
  simp only [h.freeName]

theorem rename (h : Same d d') (source : Location) (p : Path) :
    SameMade (d.rename source p) (d'.rename source p) := by
  unfold Disk.rename
  rw [h.locate]
  cases d.locate ⟨false, true⟩ p with
  | error e => exact .error e
  | ok l =>
    dsimp only [bind, Except.bind]
    rw [h.isDirectory, h.get?]
    split
    · exact .error .isADirectory
    · next hnot =>
      cases d.tree.get? source with
      | none => exact .error .notFound
      | some e => exact .ok ((h.eraseAll (· == source)).insert (ne_top_of_not_directory hnot) e)

theorem writeThrough (h : Same d d') {place : Location} (hplace : place ≠ []) (p : Path)
    (bytes : ByteArray) :
    SameResult (d.writeThrough place p bytes) (d'.writeThrough place p bytes) := by
  have hwritten := h.insert hplace (.file bytes)
  have hmoved := hwritten.rename place p
  unfold Disk.writeThrough
  dsimp only
  revert hmoved
  generalize (d.insert place (.file bytes)).rename place p = r
  generalize (d'.insert place (.file bytes)).rename place p = r'
  intro hmoved
  cases hmoved with
  | ok hnext => exact ⟨rfl, hnext⟩
  | error e => exact ⟨rfl, hwritten.eraseAll (· == place)⟩

theorem replaceFile (h : Same d d') (temporary : String) (p : Path) (bytes : ByteArray) :
    SameResult (d.replaceFile temporary p bytes) (d'.replaceFile temporary p bytes) := by
  unfold Disk.replaceFile
  rw [h.locateDirectory]
  cases d.locateDirectory p.directory with
  | error e => exact ⟨rfl, h⟩
  | ok dir =>
    dsimp only
    rw [h.get?]
    split
    · exact ⟨rfl, h⟩
    · exact h.writeThrough (by simp) p bytes

theorem copyFile (h : Same d d') (source target : Path) :
    SameResult (d.copyFile source target) (d'.copyFile source target) := by
  unfold Disk.copyFile Disk.truncate
  rw [h.readBytes, h.locate]
  cases d.readBytes source with
  | error e => exact ⟨rfl, h⟩
  | ok _ =>
    cases d.locate ⟨true, true⟩ target with
    | error e => exact ⟨rfl, h⟩
    | ok l =>
      dsimp only [bind, Except.bind]
      rw [h.isDirectory]
      by_cases hdir : d.tree.isDirectory l = true
      · rw [if_pos hdir, if_pos hdir]
        exact ⟨rfl, h⟩
      · rw [if_neg hdir, if_neg hdir]
        have hl := ne_top_of_not_directory hdir
        have hemptied := h.insert hl (.file ByteArray.empty)
        dsimp only
        rw [hemptied.readBytes]
        cases (d.insert l (.file ByteArray.empty)).readBytes source with
        | error e => exact ⟨rfl, hemptied⟩
        | ok bytes => exact ⟨rfl, hemptied.insert hl (.file bytes)⟩

theorem removeEmpty (h : Same d d') (p : Path) : SameMade (d.removeEmpty p) (d'.removeEmpty p) := by
  unfold Disk.removeEmpty
  dsimp only
  rw [h.locate]
  cases d.locate ⟨false, false⟩ (trimSlashes p) with
  | error e => exact .error e
  | ok l =>
    dsimp only [bind, Except.bind]
    rw [h.get?]
    split
    · exact .error .invalidArgument
    · exact .error .directoryNotEmpty
    · split
      · split
        · exact .error .busy
        · exact .ok (h.eraseAll (· == l))
      · exact .error .notADirectory

theorem removeTree (h : Same d d') (p : Path) : SameResult (d.removeTree p) (d'.removeTree p) := by
  unfold Disk.removeTree
  rw [h.locate]
  cases d.locate ⟨false, false⟩ p with
  | error e => exact ⟨rfl, h⟩
  | ok l =>
    dsimp only
    rw [h.get?]
    split
    · exact ⟨rfl, h.eraseAll (· == l)⟩
    · have hbelow := h.eraseAll (FileTree.isBelow l)
      have hremoved := hbelow.removeEmpty p
      revert hremoved
      generalize ({ d with tree := d.tree.eraseAll (FileTree.isBelow l) } : Disk) = e at hbelow ⊢
      generalize ({ d' with tree := d'.tree.eraseAll (FileTree.isBelow l) } : Disk) = e' at hbelow ⊢
      generalize e.removeEmpty p = r
      generalize e'.removeEmpty p = r'
      intro hremoved
      cases hremoved with
      | ok hnext => exact ⟨rfl, hnext⟩
      | error _ => exact ⟨rfl, hbelow⟩
    · exact ⟨rfl, h⟩

end Same

end Disk

/-- **Changes.** Each comes to the same on disks that hold the same. -/
theorem apply_same {d d' : Disk} (h : d.Same d') (c : DiskChange) :
    Disk.SameResult (c.apply d) (c.apply d') := by
  cases c with
  | createDirectories p => exact h.createDirectories p
  | copyFile source target => exact h.copyFile source target
  | writeFile temporary p bytes => exact h.replaceFile temporary p bytes
  | removeTree p => exact h.removeTree p

/-! ## Steps -/

namespace BuildStep

variable {α β : Type}

/-- A step comes to the same on disks that hold the same. -/
def Extensional (x : BuildStep α) : Prop :=
  ∀ s s' : BuildState, s.disk.Same s'.disk →
    (x s').2.result = (x s).2.result ∧ (x s).1.disk.Same (x s').1.disk

namespace Extensional

theorem pure (a : α) : Extensional (Pure.pure a : BuildStep α) := fun _ _ h => ⟨rfl, h⟩

theorem look {f : Disk → Logged SiteError α} (hf : ∀ d d' : Disk, d.Same d' →
    (f d').result = (f d).result) : Extensional (BuildStep.look f) :=
  fun _ _ h => ⟨hf _ _ h, h⟩

theorem fail (e : SiteError) : Extensional (BuildStep.fail e : BuildStep α) := look fun _ _ _ => rfl

theorem record (level : LogLevel) (text : String) : Extensional (BuildStep.record level text) :=
  look fun _ _ _ => rfl

theorem ofExcept (r : Except SiteError α) : Extensional (BuildStep.ofExcept r) := look fun _ _ _ => rfl

theorem change (c : DiskChange) : Extensional (BuildStep.change c) := by
  intro s s' h
  obtain ⟨hresult, hsame⟩ := apply_same h c
  refine ⟨?_, hsame⟩
  show (Logged.lift ((c.apply s'.disk).2.mapError _)).result =
    (Logged.lift ((c.apply s.disk).2.mapError _)).result
  rw [hresult]

theorem bind {x : BuildStep α} {f : α → BuildStep β} (hx : Extensional x)
    (hf : ∀ a, Extensional (f a)) : Extensional (x >>= f) := by
  intro s s' h
  obtain ⟨hresult, hsame⟩ := hx s s' h
  cases hr : (x s).2.result with
  | error e =>
    obtain ⟨hstate, hfails⟩ := bind_of_error hr f
    obtain ⟨hstate', hfails'⟩ := bind_of_error (hresult.trans hr) f
    rw [hstate, hstate', hfails, hfails']
    exact ⟨rfl, hsame⟩
  | ok a =>
    obtain ⟨hstate, hnext⟩ := bind_of_ok hr f
    obtain ⟨hstate', hnext'⟩ := bind_of_ok (hresult.trans hr) f
    rw [hstate, hstate', hnext, hnext']
    exact hf a _ _ hsame

theorem attempt {x : BuildStep α} (hx : Extensional x) : Extensional x.attempt := by
  intro s s' h
  obtain ⟨hresult, hsame⟩ := hx s s' h
  exact ⟨congrArg Except.ok hresult, hsame⟩

theorem ite {c : Prop} [Decidable c] {x y : BuildStep α} (hx : Extensional x)
    (hy : Extensional y) : Extensional (if c then x else y) := by
  split
  · exact hx
  · exact hy

end Extensional

end BuildStep

/-! ## What a build looks at -/

namespace Disk.Same

variable {d d' : Disk}

theorem listed (h : Same d d') (p : Path) : d'.listed p = d.listed p := by
  unfold Disk.listed
  rw [h.walk, h.cwd]

theorem visit (h : Same d d') (chain : WalkChain) (p : Path) : d'.visit chain p = d.visit chain p := by
  unfold Disk.visit
  simp only [h.listed, h.locate, h.get?]

theorem pathExists (h : Same d d') (p : Path) : d'.pathExists p = d.pathExists p := by
  unfold Disk.pathExists
  rw [h.entry?]

theorem openDirectory (h : Same d d') (p : Path) : d'.openDirectory p = d.openDirectory p := by
  unfold Disk.openDirectory
  simp only [h.locate, h.isDirectory]

theorem findings (h : Same d d') (top : Location) (dir : Path) :
    ContentIndex.findings d' top dir = ContentIndex.findings d top dir := by
  unfold ContentIndex.findings FileTree.walk ContentIndex.findAt?
  rw [FileTree.depth_of_perm h.perm, FileTree.walkFor_congr h.get? h.names]
  simp only [h.get?, h.openDirectory]

theorem scan (h : Same d d') (dir : Path) : ContentIndex.scan d' dir = ContentIndex.scan d dir := by
  unfold ContentIndex.scan
  simp only [h.locate, h.isDirectory, h.findings]

theorem render (h : Same d d') (b : PageBuilder) (page : Path) :
    (b.render d' page).result = (b.render d page).result := by
  have hall : b.LooksOnlyAt d page fun _ => true := by
    intro p hp
    cases hp
  exact render_eq_of_looksOnlyAt hall fun p _ => h.alike p

end Disk.Same

/-! ## Builds -/

section

open BuildStep

theorem copyEach_extensional {copy : Path → BuildStep Nat} (h : ∀ p, Extensional (copy p))
    (ps : List Path) : Extensional (copyEach copy ps) := by
  induction ps with
  | nil => exact .pure 0
  | cons p ps ih => exact .bind (h p) fun n => .bind ih fun m => .pure (n + m)

theorem copy_extensional (plan : CopyPlan) (levels : Nat) (chain : WalkChain) (p : Path) :
    Extensional (plan.copy levels chain p) := by
  induction levels generalizing chain p with
  | zero => exact .fail _
  | succ levels ih =>
    unfold CopyPlan.copy
    refine .bind (.look fun d d' h => by rw [h.visit]) fun x => ?_
    obtain ⟨loc, entry⟩ := x
    dsimp only
    split
    · exact .pure 0
    · cases entry with
      | directory =>
        refine .bind (.look fun d d' h => by rw [h.openDirectory]) fun opened =>
          .bind (.change _) fun _ => .bind (.ofExcept _) fun dir =>
            .bind (.look fun d d' h => by rw [h.names]) fun names => ?_
        exact copyEach_extensional (fun q => ih _ q) _
      | file bytes | link target =>
        have hfile : Extensional (do
            .change (.copyFile p (plan.target p))
            .record .debug ("copied " ++ (plan.relative p).text)
            return 1) :=
          .bind (.change _) fun _ => .bind (.record _ _) fun _ => .pure 1
        dsimp only
        split
        · exact .bind (.change _) fun _ => hfile
        · exact hfile

theorem copyDependency_extensional (root relative output : Path) :
    Extensional (copyDependency root relative output) := by
  have hcopy : Extensional (do
      let copied ← (CopyPlan.mk root output).copy Disk.maxPathBytes [] (root.join relative)
      .record .info ("Copied " ++ relative.text ++ " (" ++ toString copied ++ " file(s))")
      return copied) :=
    .bind (copy_extensional _ _ _ _) fun copied => .bind (.record _ _) fun _ => .pure copied
  exact .bind (.look fun d d' h => by rw [h.pathExists]) fun _ =>
    .ite (.bind (.fail _) fun _ => hcopy) hcopy

theorem copyDependencies_extensional (root output : Path) (ps : List Path) :
    Extensional (copyDependencies root output ps) := by
  induction ps with
  | nil => exact .pure 0
  | cons p ps ih =>
    exact .bind (.ofExcept _) fun relative =>
      .bind (copyDependency_extensional root relative output) fun n =>
        .bind ih fun m => .pure (n + m)

theorem indexArticles_extensional (root content : Path) :
    Extensional (indexArticles root content) :=
  .bind (.ofExcept _) fun _ => .bind (.look fun d d' h => by rw [h.scan]) fun index =>
    .ite (.bind (.record _ _) fun _ => .pure index) (.pure index)

theorem write_extensional (target : Path) (markup : String) :
    Extensional (PageBuilder.write target markup) :=
  .bind (.change _) fun _ => .bind (.look fun d d' h => by rw [h.temporaryIn]) fun _ => .change _

theorem build_extensional (b : PageBuilder) (page : Path) : Extensional (b.build page) :=
  .bind (.ofExcept _) fun relative => .bind (.look fun _ _ h => h.render b relative)
    fun (markup, target) => .bind (write_extensional target markup) fun _ => .pure target

theorem buildPages_extensional (b : PageBuilder) (keepGoing : Bool) (pages : List Path)
    (report : BuildReport) : Extensional (buildPages b keepGoing pages report) := by
  induction pages generalizing report with
  | nil => exact .pure report
  | cons page rest ih =>
    refine .bind (build_extensional b page).attempt fun outcome => ?_
    cases outcome with
    | ok target => exact .bind (.record _ _) fun _ => ih _
    | error e => exact .ite (.bind (.record _ _) fun _ => ih _) (.fail e)

theorem cleaning_extensional (o : BuildOptions) : Extensional o.cleaning :=
  .ite (.bind (.look fun d d' h => by rw [h.pathExists]) fun _ =>
    .ite (.ite (.bind (.fail _) fun _ => .bind (.record _ _) fun _ => .change _)
      (.bind (.record _ _) fun _ => .change _)) (.pure ())) (.pure ())

end

end StaticSite
