import StaticSite.Build.Change
import StaticSite.Proofs.Logged
import StaticSite.Proofs.Walks

/-!
What file operations leave on a disk.

Proved here, for every disk:

* `apply_keeps`: making directories, copying and writing files takes nothing away: where there was a
  directory there still is one, and where there was something else there still is something else;
* `replaceFile_ok`, `replaceFile_error`: a file that is moved to its place is the only entry that
  changes, and one that cannot be moved leaves nothing behind;
* `copyFile_disk`: a copy leaves the disk as it is, or a file where its target leads;
* `removeTree_of_directory`, `get?_removeTree`: removing a tree takes away only what lies at or below
  the place it leads to.
-/

namespace StaticSite

/-! ## Trees -/

theorem lookup_filter {α β : Type} [BEq α] [LawfulBEq α] (q : α → Bool) (entries : List (α × β))
    (a : α) :
    (entries.filter fun e => q e.1).lookup a = if q a then entries.lookup a else none := by
  induction entries with
  | nil => simp
  | cons e rest ih =>
    obtain ⟨b, v⟩ := e
    cases hab : a == b with
    | true =>
      obtain rfl := eq_of_beq hab
      cases hq : q a with
      | true => simp [hq]
      | false => simp [hq, ih]
    | false =>
      rw [List.lookup_cons, hab]
      cases hq : q b with
      | true => simpa [hq, List.lookup_cons, hab] using ih
      | false => simpa [hq] using ih

namespace FileTree

variable {t t' t'' : FileTree}

theorem get?_insert (t : FileTree) (loc : Location) (e : Entry) (loc' : Location) :
    (t.insert loc e).get? loc' = if loc' = loc ∧ loc' ≠ [] then some e else t.get? loc' := by
  cases loc' with
  | nil => simp
  | cons n rest =>
    rw [get?_cons, get?_cons]
    unfold insert
    rw [List.lookup_cons]
    cases heq : (n :: rest) == loc with
    | true =>
      obtain rfl := eq_of_beq heq
      simp
    | false =>
      have hne : n :: rest ≠ loc := ne_of_beq_false heq
      rw [lookup_filter (· != loc)]
      simp [hne]

theorem get?_eraseAll (t : FileTree) (p : Location → Bool) (loc : Location) :
    (t.eraseAll p).get? loc = if p loc = true ∧ loc ≠ [] then none else t.get? loc := by
  cases loc with
  | nil => simp
  | cons n rest =>
    rw [get?_cons, get?_cons]
    unfold eraseAll
    rw [lookup_filter fun loc => !p loc]
    cases p (n :: rest) with
    | true => simp
    | false => simp

theorem eraseAll_within (t : FileTree) (q : Location → Bool) : (t.eraseAll q).Within t := by
  intro loc e h
  rw [get?_eraseAll] at h
  split at h
  · cases h
  · exact h

theorem isBelow_iff {top loc : Location} :
    isBelow top loc = true ↔ top <+: loc ∧ loc ≠ top := by
  unfold isBelow
  rw [Bool.and_eq_true_iff, decide_eq_true_iff, beq_iff_eq, List.prefix_iff_eq_take]
  constructor
  · rintro ⟨hlength, htake⟩
    refine ⟨htake.symm, fun heq => ?_⟩
    rw [heq] at hlength
    exact Nat.lt_irrefl _ hlength
  · rintro ⟨htake, hne⟩
    refine ⟨Nat.lt_of_not_le fun hle => hne ?_, htake.symm⟩
    rw [List.take_of_length_le hle] at htake
    exact htake.symm

theorem isBelow_of_not_prefix {top loc : Location} (h : ¬ top <+: loc) : isBelow top loc = false :=
  Bool.eq_false_iff.2 fun hbelow => h (isBelow_iff.1 hbelow).1

/-- Whether there is a directory at a location or something else, if there is anything. -/
def kind? (t : FileTree) (loc : Location) : Option Bool := (t.get? loc).map Entry.isDirectory

/-- Where the one has a directory the other has one, and where it has something else so does the
other. -/
def Keeps (t t' : FileTree) : Prop := ∀ loc kind, t.kind? loc = some kind → t'.kind? loc = some kind

namespace Keeps

theorem refl (t : FileTree) : t.Keeps t := fun _ _ h => h

theorem trans (h : t.Keeps t') (h' : t'.Keeps t'') : t.Keeps t'' :=
  fun loc kind hk => h' loc kind (h loc kind hk)

/-- Only the kind of the entry that gives way counts. -/
theorem insert {loc : Location} {e : Entry}
    (h : ∀ kind, t.kind? loc = some kind → kind = e.isDirectory) : t.Keeps (t.insert loc e) := by
  intro loc' kind hk
  unfold kind?
  rw [get?_insert]
  split
  · next heq =>
    rw [heq.1] at hk
    rw [h kind hk]
    rfl
  · exact hk

end Keeps

theorem kind?_of_not_isDirectory {loc : Location} (h : ¬ t.isDirectory loc = true) {kind : Bool}
    (hk : t.kind? loc = some kind) : kind = false := by
  unfold isDirectory at h
  unfold kind? at hk
  cases hget : t.get? loc with
  | none =>
    rw [hget] at hk
    cases hk
  | some e =>
    rw [hget] at h hk
    obtain rfl := Option.some.inj hk
    exact Bool.eq_false_iff.2 h

end FileTree

/-! ## Operations that take nothing away -/

namespace Disk

variable {d d' : Disk}

theorem createDirectory_eq_ok {p : Path} (h : d.createDirectory p = .ok d') :
    ∃ loc, d.locate ⟨false, true⟩ (trimSlashes p) = .ok loc ∧ d.tree.get? loc = none ∧
      d' = d.insert loc .directory := by
  obtain ⟨loc, hloc, h⟩ := Logged.except_bind_eq_ok h
  split at h
  · cases h
  · next hfree => exact ⟨loc, hloc, hfree, (Except.ok.inj h).symm⟩

theorem createDirectory_keeps {p : Path} (h : d.createDirectory p = .ok d') :
    d.tree.Keeps d'.tree := by
  obtain ⟨loc, -, hfree, rfl⟩ := createDirectory_eq_ok h
  refine .insert fun kind hk => ?_
  unfold FileTree.kind? at hk
  rw [hfree] at hk
  cases hk

/-- **Invariants.** What making one of the directories keeps, making all that are missing keeps. -/
theorem createFirst_invariant {I : Disk → Prop} {ps : List Path}
    (hstep : ∀ p ∈ ps, ∀ d d', I d → d.createDirectory p = .ok d' → I d') (hd : I d) :
    I (d.createFirst ps).1 := by
  induction ps with
  | nil => exact hd
  | cons p above ih =>
    have habove := ih fun q hq => hstep q (List.mem_cons_of_mem _ hq)
    have hmake : ∀ d d', I d → d.createDirectory p = .ok d' → I d' := hstep p List.mem_cons_self
    unfold createFirst
    split
    · exact hd
    · split
      · exact hmake _ _ hd ‹_›
      · generalize d.createFirst above = r at habove
        obtain ⟨d', result⟩ := r
        cases result with
        | error e => exact habove
        | ok _ =>
          dsimp only
          split
          · exact hmake _ _ habove ‹_›
          · split
            · exact habove
            · exact habove
      · split
        · exact hd
        · exact hd

theorem createFirst_keeps (d : Disk) (ps : List Path) : d.tree.Keeps (d.createFirst ps).1.tree :=
  createFirst_invariant (I := fun d' => d.tree.Keeps d'.tree)
    (fun _ _ _ _ hkept hmade => hkept.trans (createDirectory_keeps hmade)) (.refl _)

theorem createDirectories_keeps (d : Disk) (p : Path) :
    d.tree.Keeps (d.createDirectories p).1.tree := createFirst_keeps d _

theorem insert_file_keeps {loc : Location} (h : ¬ d.tree.isDirectory loc = true)
    (bytes : ByteArray) : d.tree.Keeps (d.insert loc (.file bytes)).tree :=
  .insert fun _ hk => FileTree.kind?_of_not_isDirectory h hk

theorem rename_eq_ok {source : Location} {p : Path} (h : d.rename source p = .ok d') :
    ∃ loc e, d.locate ⟨false, true⟩ p = .ok loc ∧ ¬ d.tree.isDirectory loc = true ∧
      d.tree.get? source = some e ∧
      d' = { d with tree := (d.tree.eraseAll (· == source)).insert loc e } := by
  obtain ⟨loc, hloc, h⟩ := Logged.except_bind_eq_ok h
  split at h
  · cases h
  · next hdir =>
    split at h
    · next e he => exact ⟨loc, e, hloc, hdir, he, (Except.ok.inj h).symm⟩
    · cases h

theorem replaceFile_cases (d : Disk) (temporary : String) (p : Path) (bytes : ByteArray) :
    (∃ e, d.replaceFile temporary p bytes = (d, .error e)) ∨
      ∃ place, d.tree.get? place = none ∧
        d.replaceFile temporary p bytes = d.writeThrough place p bytes := by
  unfold replaceFile
  split
  · next e _ => exact .inl ⟨e, rfl⟩
  · next dir _ =>
    split
    · exact .inl ⟨_, rfl⟩
    · next hfree => exact .inr ⟨dir ++ [temporary], by simpa using hfree, rfl⟩

theorem writeThrough_of_ok {place : Location} {p : Path} {bytes : ByteArray}
    (h : (d.insert place (.file bytes)).rename place p = .ok d') :
    d.writeThrough place p bytes = (d', .ok ()) := by
  simp only [writeThrough, h]

theorem writeThrough_of_error {place : Location} {p : Path} {bytes : ByteArray} {e : OsError}
    (h : (d.insert place (.file bytes)).rename place p = .error e) :
    d.writeThrough place p bytes =
      ({ d with tree := (d.tree.insert place (.file bytes)).eraseAll (· == place) }, .error e) := by
  simp only [writeThrough, h]
  rfl

/-- A file that cannot be moved to its place leaves every entry as it is. -/
theorem replaceFile_error {temporary : String} {p : Path} {bytes : ByteArray} {e : OsError}
    (h : (d.replaceFile temporary p bytes).2 = .error e) :
    (d.replaceFile temporary p bytes).1.cwd = d.cwd ∧
      ∀ loc, (d.replaceFile temporary p bytes).1.tree.get? loc = d.tree.get? loc := by
  rcases replaceFile_cases d temporary p bytes with ⟨e', he⟩ | ⟨place, hfree, heq⟩
  · rw [he]
    exact ⟨rfl, fun _ => rfl⟩
  · rw [heq] at h ⊢
    cases hmoved : (d.insert place (.file bytes)).rename place p with
    | ok d' =>
      rw [writeThrough_of_ok hmoved] at h
      cases h
    | error e' =>
      rw [writeThrough_of_error hmoved]
      refine ⟨rfl, fun loc => ?_⟩
      simp only [FileTree.get?_eraseAll, FileTree.get?_insert, beq_iff_eq]
      by_cases hloc : loc = place
      · subst hloc
        simp [hfree]
      · simp [hloc]

/-- A file that is moved to its place is the only entry that changes. The place is found while the
file has its temporary one. -/
theorem replaceFile_ok {temporary : String} {p : Path} {bytes : ByteArray}
    (h : (d.replaceFile temporary p bytes).2 = .ok ()) :
    ∃ place loc, d.tree.get? place = none ∧
      (d.insert place (.file bytes)).locate ⟨false, true⟩ p = .ok loc ∧
      ¬ (d.insert place (.file bytes)).tree.isDirectory loc = true ∧
      (d.replaceFile temporary p bytes).1.cwd = d.cwd ∧
      ∀ l, (d.replaceFile temporary p bytes).1.tree.get? l =
        if l = loc then some (.file bytes) else d.tree.get? l := by
  rcases replaceFile_cases d temporary p bytes with ⟨e, he⟩ | ⟨place, hfree, heq⟩
  · rw [he] at h
    cases h
  · rw [heq] at h ⊢
    cases hmoved : (d.insert place (.file bytes)).rename place p with
    | error e =>
      rw [writeThrough_of_error hmoved] at h
      cases h
    | ok d' =>
      rw [writeThrough_of_ok hmoved]
      obtain ⟨loc, e, hloc, hnot, hentry, rfl⟩ := rename_eq_ok hmoved
      have hne : loc ≠ [] := by
        rintro rfl
        exact hnot rfl
      have hplace : place ≠ [] := by
        rintro rfl
        cases hfree
      have he : e = .file bytes := by
        simpa [insert, FileTree.get?_insert, hplace] using hentry.symm
      refine ⟨place, loc, hfree, hloc, hnot, rfl, fun l => ?_⟩
      simp only [insert, FileTree.get?_eraseAll, FileTree.get?_insert, beq_iff_eq]
      by_cases hl : l = loc
      · subst hl
        simp [hne, he]
      · by_cases hplace : l = place
        · subst hplace
          simp [hl, hfree]
        · simp [hl, hplace]

theorem replaceFile_keeps (d : Disk) (temporary : String) (p : Path) (bytes : ByteArray) :
    d.tree.Keeps (d.replaceFile temporary p bytes).1.tree := by
  intro loc kind hk
  unfold FileTree.kind? at hk ⊢
  cases hr : (d.replaceFile temporary p bytes).2 with
  | error e =>
    rw [(replaceFile_error hr).2]
    exact hk
  | ok _ =>
    obtain ⟨place, target, hfree, -, hnot, -, hget⟩ := replaceFile_ok hr
    rw [hget]
    split
    · next heq =>
      subst heq
      have hne : loc ≠ place := by
        rintro rfl
        rw [hfree] at hk
        cases hk
      refine congrArg some (FileTree.kind?_of_not_isDirectory hnot ?_).symm
      simpa [FileTree.kind?, insert, FileTree.get?_insert, hne] using hk
    · exact hk

theorem truncate_eq_ok {p : Path} {loc : Location} (h : d.truncate p = .ok (d', loc)) :
    d.locate ⟨true, true⟩ p = .ok loc ∧ ¬ d.tree.isDirectory loc = true ∧
      d' = d.insert loc (.file ByteArray.empty) := by
  obtain ⟨loc', hloc, h⟩ := Logged.except_bind_eq_ok h
  split at h
  · cases h
  · obtain ⟨rfl, rfl⟩ := Prod.mk.inj (Except.ok.inj h)
    exact ⟨hloc, ‹_›, rfl⟩

theorem truncate_of_locate {p : Path} {loc : Location} (hloc : d.locate ⟨true, true⟩ p = .ok loc)
    (hnot : ¬ d.tree.isDirectory loc = true) :
    d.truncate p = .ok (d.insert loc (.file ByteArray.empty), loc) := by
  unfold truncate
  rw [hloc]
  exact if_neg hnot

theorem get?_insert_of_ne {e : Entry} {place : Location} (hne : place ≠ []) (loc : Location) :
    (d.insert place e).tree.get? loc = if loc = place then some e else d.tree.get? loc := by
  unfold insert
  rw [FileTree.get?_insert]
  by_cases hloc : loc = place
  · rw [if_pos ⟨hloc, hloc ▸ hne⟩, if_pos hloc]
  · rw [if_neg fun h => hloc h.1, if_neg hloc]

theorem insert_insert (d : Disk) (loc : Location) (e e' : Entry) :
    (d.insert loc e).insert loc e' = d.insert loc e' := by
  simp [insert, FileTree.insert]

/-- A copy that finds its target empties it before it reads its source again. -/
theorem copyFile_of_locate {source target : Path} {loc : Location} {first : ByteArray}
    (hread : d.readBytes source = .ok first) (hloc : d.locate ⟨true, true⟩ target = .ok loc)
    (hnot : ¬ d.tree.isDirectory loc = true) :
    d.copyFile source target =
      match (d.insert loc (.file ByteArray.empty)).readBytes source with
      | .error e => (d.insert loc (.file ByteArray.empty), .error e)
      | .ok bytes => (d.insert loc (.file bytes), .ok ()) := by
  unfold copyFile
  rw [hread, truncate_of_locate hloc hnot]
  dsimp only
  cases (d.insert loc (.file ByteArray.empty)).readBytes source with
  | error e => rfl
  | ok bytes => simp only [insert_insert]

theorem copyFile_cases (d : Disk) (source target : Path) :
    (∃ e, d.copyFile source target = (d, .error e)) ∨
      ∃ first loc, d.readBytes source = .ok first ∧ d.locate ⟨true, true⟩ target = .ok loc ∧
        ¬ d.tree.isDirectory loc = true := by
  unfold copyFile
  split
  · exact .inl ⟨_, rfl⟩
  · exact .inl ⟨_, rfl⟩
  · next first d' loc hread htruncate =>
    obtain ⟨hloc, hnot, -⟩ := truncate_eq_ok htruncate
    exact .inr ⟨first, loc, hread, hloc, hnot⟩

/-- What a copy leaves, whether it succeeds or not. -/
theorem copyFile_disk (d : Disk) (source target : Path) :
    (d.copyFile source target).1 = d ∨
      ∃ loc bytes, d.locate ⟨true, true⟩ target = .ok loc ∧ ¬ d.tree.isDirectory loc = true ∧
        (d.copyFile source target).1 = d.insert loc (.file bytes) := by
  rcases copyFile_cases d source target with ⟨e, h⟩ | ⟨first, loc, hread, hloc, hnot⟩
  · exact .inl (congrArg Prod.fst h)
  · refine .inr ?_
    rw [copyFile_of_locate hread hloc hnot]
    split
    · exact ⟨loc, _, hloc, hnot, rfl⟩
    · exact ⟨loc, _, hloc, hnot, rfl⟩

theorem copyFile_keeps (d : Disk) (source target : Path) :
    d.tree.Keeps (d.copyFile source target).1.tree := by
  rcases copyFile_disk d source target with h | ⟨loc, bytes, -, hnot, h⟩
  · rw [h]
    exact .refl _
  · rw [h]
    exact insert_file_keeps hnot bytes

end Disk

/-- Whether a change removes a tree. -/
def DiskChange.isRemoval : DiskChange → Bool
  | removeTree _ => true
  | _ => false

theorem apply_keeps {c : DiskChange} (h : c.isRemoval = false) (d : Disk) :
    d.tree.Keeps (c.apply d).1.tree := by
  cases c with
  | createDirectories p => exact d.createDirectories_keeps p
  | copyFile source target => exact d.copyFile_keeps source target
  | writeFile temporary p bytes => exact d.replaceFile_keeps temporary p bytes
  | removeTree p => cases h

/-! ## Removing a tree -/

namespace Disk

variable {d d' : Disk} {p : Path} {top : Location}

theorem removeEmpty_eq_ok (h : d.removeEmpty p = .ok d') :
    ∃ loc, d.locate ⟨false, false⟩ (trimSlashes p) = .ok loc ∧
      d.tree.get? loc = some .directory ∧ d' = { d with tree := d.tree.eraseAll (· == loc) } := by
  obtain ⟨loc, hloc, h⟩ := Logged.except_bind_eq_ok h
  split at h
  · cases h
  · cases h
  · split at h
    · next hdir =>
      split at h
      · cases h
      · exact ⟨loc, hloc, hdir, (Except.ok.inj h).symm⟩
    · cases h

/-- The slashes at the end of a path are cut off before a directory is removed by it. It is the same
directory, whatever has been removed from the tree in between. -/
theorem locate_trimSlashes {loc : Location} (hp : d.locate ⟨false, false⟩ p = .ok top)
    (hloc : d'.locate ⟨false, false⟩ (trimSlashes p) = .ok loc)
    (hdir : d'.tree.get? loc = some .directory) (ht : d'.tree.Within d.tree)
    (hcwd : d'.cwd = d.cwd) : loc = top := by
  obtain ⟨k, hsteps, habs⟩ := exists_stays p
  have hstart : d'.start (trimSlashes p) = d.start p := by
    unfold start
    rw [habs, hcwd]
  have hwalk := (walked_of_locate hloc).mono ht
  have hisdir : d.tree.isDirectory loc = true := by
    unfold FileTree.isDirectory
    rw [ht loc _ hdir]
    rfl
  refine (hwalk.append_stays hisdir k).unique ?_
  rw [← hsteps, hstart]
  exact walked_of_locate hp

/-- Of a directory what lies below it goes, and then the directory itself, if it can. -/
theorem removeTree_of_directory (hp : d.locate ⟨false, false⟩ p = .ok top)
    (htop : d.tree.get? top = some .directory) :
    (d.removeTree p).1 = { d with tree := d.tree.eraseAll (FileTree.isBelow top) } ∨
      (d.removeTree p).1 =
        { d with tree := (d.tree.eraseAll (FileTree.isBelow top)).eraseAll (· == top) } := by
  unfold removeTree
  rw [hp]
  dsimp only
  rw [htop]
  dsimp only
  split
  · next d' hempty =>
    obtain ⟨loc, hloc, hdir, rfl⟩ := removeEmpty_eq_ok hempty
    obtain rfl := locate_trimSlashes hp hloc hdir (FileTree.eraseAll_within _ _) rfl
    exact .inr rfl
  · exact .inl rfl

theorem removeTree_cases (d : Disk) (p : Path) :
    (d.removeTree p).1 = d ∨
      (∃ top target, d.locate ⟨false, false⟩ p = .ok top ∧ d.tree.get? top = some (.link target) ∧
        (d.removeTree p).1 = { d with tree := d.tree.eraseAll (· == top) }) ∨
      ∃ top, d.locate ⟨false, false⟩ p = .ok top ∧ d.tree.get? top = some .directory := by
  unfold removeTree
  cases hp : d.locate ⟨false, false⟩ p with
  | error e => exact .inl rfl
  | ok top =>
    dsimp only
    split
    · next target hlink => exact .inr (.inl ⟨top, target, rfl, hlink, rfl⟩)
    · next hdirectory => exact .inr (.inr ⟨top, rfl, hdirectory⟩)
    · exact .inl rfl

/-- **Removing a tree.** What lies neither at the place a path leads to nor below it stays. -/
theorem get?_removeTree (hp : d.locate ⟨false, false⟩ p = .ok top) {loc : Location}
    (h : ¬ top <+: loc) : (d.removeTree p).1.tree.get? loc = d.tree.get? loc := by
  have hne : loc ≠ top := by
    rintro rfl
    exact h List.prefix_rfl
  have hbelow : FileTree.isBelow top loc = false := FileTree.isBelow_of_not_prefix h
  rcases removeTree_cases d p with hd | ⟨top', target, hp', -, hd⟩ | ⟨top', hp', htop⟩
  · rw [hd]
  · obtain rfl := Except.ok.inj (hp.symm.trans hp')
    simp [hd, FileTree.get?_eraseAll, hne]
  · obtain rfl := Except.ok.inj (hp.symm.trans hp')
    rcases removeTree_of_directory hp htop with hd | hd
    · simp [hd, FileTree.get?_eraseAll, hbelow]
    · simp [hd, FileTree.get?_eraseAll, hne, hbelow]

/-- Nothing is left below a directory that is removed, even where the directory itself stays. -/
theorem get?_removeTree_below (hp : d.locate ⟨false, false⟩ p = .ok top)
    (htop : d.tree.get? top = some .directory) {loc : Location} (h : top <+: loc)
    (hne : loc ≠ top) : (d.removeTree p).1.tree.get? loc = none := by
  have hnil : loc ≠ [] := by
    rintro rfl
    exact hne (List.prefix_nil.1 h).symm
  have hbelow : FileTree.isBelow top loc = true := FileTree.isBelow_iff.2 ⟨h, hne⟩
  rcases removeTree_of_directory hp htop with hd | hd
  · simp [hd, FileTree.get?_eraseAll, hbelow, hnil]
  · simp [hd, FileTree.get?_eraseAll, hbelow, hnil]

end Disk

end StaticSite
