import StaticSite.Proofs.Filing

/-!
Putting a file below a directory, with the directories on the way.

What comes of a file below a directory, and what is done for it, hangs on what lies on its way alone.
Proved here, for all pairs of disks where a path leads to a directory without links below:

* `makeDown_carried`: directories are made in the same way where some of them are there already;
* `exists_verdict`: what comes of a file in a directory that is there;
* `get?_put`, `put_agree`: nothing changes but on the way to the file;
* `put_carried`: what is put on one disk is put on another in the same way, if that has more
  directories on the way at most;
* `put_again`: and once more where it has been put before, whatever has come after it.
-/

namespace StaticSite

namespace Disk

variable {t t' f f' g g' : FileTree} {d d' : Disk} {p q : Path} {out : Location}
  {names : List String} {n : String} {bytes : ByteArray}

/-! ## The same changes -/

/-- What changes from the first tree to the second is changed from the third to the fourth as well,
and nothing else. -/
def Carried (t f t' f' : FileTree) : Prop :=
  ∀ l, (f.get? l = t.get? l → f'.get? l = t'.get? l) ∧
    (f.get? l ≠ t.get? l → f'.get? l = f.get? l)

namespace Carried

theorem refl (t t' : FileTree) : Carried t t t' t' := fun _ => ⟨fun _ => rfl, fun h => absurd rfl h⟩

/-- No place may be changed twice. -/
theorem trans (h : Carried t f t' f') (h' : Carried f g f' g')
    (honce : ∀ l, f.get? l ≠ t.get? l → g.get? l = f.get? l) : Carried t g t' g' := by
  intro l
  obtain ⟨hsame, hnew⟩ := h l
  obtain ⟨hsame', hnew'⟩ := h' l
  by_cases hf : f.get? l = t.get? l
  · rw [← hf, ← hsame hf]
    exact ⟨hsame', hnew'⟩
  · have hg := honce l hf
    refine ⟨fun heq => absurd (hg.symm.trans heq) hf, fun _ => ?_⟩
    rw [hsame' hg, hnew hf, hg]

/-- The same is put in a free place, or it is there already. -/
theorem insert {place : Location} {e : Entry} (hne : place ≠ []) (hfree : t.get? place = none)
    (h : f'.get? place = some e) (hother : ∀ l, l ≠ place → f'.get? l = t'.get? l) :
    Carried t (t.insert place e) t' f' := by
  intro l
  rw [FileTree.get?_insert]
  by_cases hl : l = place
  · rw [if_pos ⟨hl, hl ▸ hne⟩, hl, hfree]
    exact ⟨nofun, fun _ => h⟩
  · rw [if_neg fun h => hl h.1]
    exact ⟨fun _ => hother l hl, fun hne => absurd rfl hne⟩

end Carried

/-! ## Directories on the way -/

/-- On the way down by names the second tree is like the first, but for some directories where
there was nothing. -/
def Nearby (t t' : FileTree) (loc : Location) (names : List String) : Prop :=
  ∀ pre, pre <+: names → pre ≠ [] → t'.get? (loc ++ pre) = t.get? (loc ++ pre) ∨
    t.get? (loc ++ pre) = none ∧ t'.get? (loc ++ pre) = some .directory

theorem Nearby.next {loc : Location} {rest : List String} (h : Nearby t t' loc (n :: rest))
    (hf : ∀ pre, pre ≠ [] → f.get? (loc ++ [n] ++ pre) = t.get? (loc ++ [n] ++ pre))
    (hf' : ∀ pre, pre ≠ [] → f'.get? (loc ++ [n] ++ pre) = t'.get? (loc ++ [n] ++ pre)) :
    Nearby f f' (loc ++ [n]) rest := by
  intro pre hpre hne
  rw [hf pre hne, hf' pre hne, ← List.append_cons]
  exact h (n :: pre) (List.cons_prefix_cons.2 ⟨rfl, hpre⟩) (List.cons_ne_nil _ _)

/-- Directories are made in the same way where some of those that are missing are there. -/
theorem makeDown_carried {loc : Location} (h : Nearby t t' loc names) :
    (makeDown t' loc names).2 = (makeDown t loc names).2 ∧
      Carried t (makeDown t loc names).1 t' (makeDown t' loc names).1 := by
  induction names generalizing t t' loc with
  | nil => exact ⟨rfl, .refl _ _⟩
  | cons n rest ih =>
    have hbehind {pre : List String} (hne : pre ≠ []) : loc ++ [n] ++ pre ≠ loc ++ [n] :=
      fun heq => hne (by simpa using heq)
    have hmade (t : FileTree) {l : Location} (hl : l ≠ loc ++ [n]) :
        (t.insert (loc ++ [n]) .directory).get? l = t.get? l := by
      rw [FileTree.get?_insert, if_neg fun heq => hl heq.1]
    have honce (hfree : t.get? (loc ++ [n]) = none) (l : Location)
        (hl : (t.insert (loc ++ [n]) .directory).get? l ≠ t.get? l) :
        (makeDown (t.insert (loc ++ [n]) .directory) (loc ++ [n]) rest).1.get? l =
          (t.insert (loc ++ [n]) .directory).get? l := by
      refine (get?_makeDown _ _ _ _).resolve_right fun hnew => ?_
      obtain ⟨hnone, -⟩ := hnew
      by_cases hplace : l = loc ++ [n]
      · rw [hplace, FileTree.get?_insert_self hfree] at hnone
        cases hnone
      · exact hl (hmade t hplace)
    unfold makeDown
    split
    · exact ⟨rfl, .refl _ _⟩
    · rcases h [n] (by simp) (List.cons_ne_nil _ _) with hsame | ⟨hfree, hdir⟩
      · rw [hsame]
        cases hget : t.get? (loc ++ [n]) with
        | none =>
          dsimp only
          rw [hget] at hsame
          obtain ⟨hresult, hcarried⟩ := ih (h.next (fun pre hne => hmade t (hbehind hne))
            fun pre hne => hmade t' (hbehind hne))
          exact ⟨hresult, (Carried.insert (by simp) hget (FileTree.get?_insert_self hsame)
            fun l hl => hmade t' hl).trans hcarried (honce hget)⟩
        | some e =>
          cases e with
          | directory => exact ih (h.next (fun _ _ => rfl) fun _ _ => rfl)
          | file bytes => exact ⟨rfl, .refl _ _⟩
          | link target => exact ⟨rfl, .refl _ _⟩
      · rw [hfree, hdir]
        dsimp only
        have hnext : Nearby (t.insert (loc ++ [n]) .directory) t' (loc ++ [n]) rest :=
          h.next (fun pre hne => hmade t (hbehind hne)) fun _ _ => rfl
        obtain ⟨hresult, hcarried⟩ := ih hnext
        exact ⟨hresult, (Carried.insert (by simp) hfree hdir fun _ _ => rfl).trans hcarried
          (honce hfree)⟩

/-- Directories that have been made need not be made once more, whatever has come after them. -/
theorem makeDown_again {loc : Location} (h : (makeDown t loc names).1.Keeps t') :
    makeDown t' loc names = (t', (makeDown t loc names).2) := by
  induction names generalizing t loc with
  | nil => rfl
  | cons n rest ih =>
    have hdirectory {t : FileTree} (hget : t.get? (loc ++ [n]) = some .directory)
        (h : (makeDown t (loc ++ [n]) rest).1.Keeps t') :
        t'.get? (loc ++ [n]) = some .directory := by
      refine FileTree.directory_of_kind? (h _ _ (FileTree.kind?_of_get? (e := .directory) ?_))
      rcases get?_makeDown t (loc ++ [n]) rest (loc ++ [n]) with hsame | ⟨hnone, -⟩
      · exact hsame.trans hget
      · cases hget.symm.trans hnone
    unfold makeDown at h ⊢
    split
    · rfl
    · next hn =>
      rw [if_neg hn] at h
      cases hget : t.get? (loc ++ [n]) with
      | none =>
        rw [hget] at h
        rw [hdirectory (FileTree.get?_insert_self hget) h]
        exact ih h
      | some e =>
        rw [hget] at h
        cases e with
        | directory =>
          rw [hdirectory hget h]
          exact ih h
        | file bytes | link target =>
          obtain ⟨e, he, hnot⟩ := Option.map_eq_some_iff.1 (h _ _ (FileTree.kind?_of_get? hget))
          rw [he]
          cases e with
          | directory => cases hnot
          | file bytes => rfl
          | link target => rfl

/-! ## Putting a file in its place -/

/-- Puts a file in a directory that is there, through a temporary one. -/
def putIn (d : Disk) (p : Path) (bytes : ByteArray) : Disk × Except SiteError Unit :=
  match d.temporaryIn p.directory with
  | .error e => (d, .error (.io p.directory e))
  | .ok temporary =>
    ((d.replaceFile temporary p bytes).1, (d.replaceFile temporary p bytes).2.mapError (.io p))

/-- Makes the directories on the way to a file, and puts the file there. -/
def put (d : Disk) (p : Path) (bytes : ByteArray) : Disk × Except SiteError Unit :=
  match (d.createDirectories p.directory).2 with
  | .error e => ((d.createDirectories p.directory).1, .error (.io p.directory e))
  | .ok _ => (d.createDirectories p.directory).1.putIn p bytes

theorem Below.directory (h : Below q (names ++ [n]) p) :
    Below q names p.directory ∧ (p.Fits → p.directory.Fits) := by
  obtain ⟨above, habove, hbelow, hfits⟩ := h.parent
  have hdirectory : p.directory = above := by
    unfold Path.directory
    rw [habove]
    rfl
  exact hdirectory ▸ ⟨hbelow, hfits⟩

theorem putIn_of_error {e : OsError} (h : d.locateDirectory p.directory = .error e) :
    d.putIn p bytes = (d, .error (.io p.directory e)) := by
  unfold putIn temporaryIn
  rw [h]
  rfl

theorem putIn_of_place {place : Location} (h : d.locateDirectory p.directory = .ok place)
    (bytes : ByteArray) :
    ∃ temporary, d.tree.get? (place ++ [temporary]) = none ∧
      d.putIn p bytes = ((d.replaceFile temporary p bytes).1,
        (d.replaceFile temporary p bytes).2.mapError (.io p)) := by
  refine ⟨_, freeName_free d.tree place, ?_⟩
  unfold putIn temporaryIn
  rw [h]
  rfl

/-- What comes of a file in a directory that is there: this hangs on whether there is a directory in
its place, and on its path. A directory in its place only makes it worse. -/
theorem exists_verdict (h : Below q (names ++ [n]) p) :
    ∃ verdict : Bool → Except SiteError Unit,
      (∀ e, verdict false = .error e → verdict true = .error e) ∧
      ∀ (d : Disk) (out : Location) (bytes : ByteArray),
        d.LeadsTo q out → NoLinkBelow d.tree out → Clear d.tree out names →
        (d.putIn p bytes).2 = verdict (d.tree.isDirectory (out ++ names ++ [n])) := by
  obtain ⟨hdirectory, -⟩ := h.directory
  by_cases htemporary : (p.directory.join ⟨temporaryName 0⟩).Fits
  · have hmoved (d : Disk) (out : Location) (bytes : ByteArray) (hout : d.LeadsTo q out)
        (hlinks : NoLinkBelow d.tree out) (hclear : Clear d.tree out names) :
        ∃ temporary, d.tree.get? (out ++ names ++ [temporary]) = none ∧
          (d.putIn p bytes).2 = (((d.insert (out ++ names ++ [temporary]) (.file bytes)).rename
            (out ++ names ++ [temporary]) p).map fun _ => ()).mapError (.io p) := by
      have hplace := locateDirectory_below hout hlinks hdirectory hclear htemporary
      obtain ⟨temporary, hfree, hput⟩ := putIn_of_place hplace bytes
      refine ⟨temporary, hfree, ?_⟩
      rw [hput, replaceFile_eq hplace hfree, writeThrough_result]
    by_cases hfits : p.Fits
    · let moved (isDirectory : Bool) : Except OsError Unit :=
        if maxNameBytes < n.utf8ByteSize then .error .nameTooLong
        else if isDirectory then .error .isADirectory else .ok ()
      refine ⟨fun isDirectory => (moved isDirectory).mapError (.io p), fun e he => ?_,
        fun d out bytes hout hlinks hclear => ?_⟩
      · by_cases hlong : maxNameBytes < n.utf8ByteSize
        · simpa [moved, hlong] using he
        · simp [moved, hlong, Except.mapError] at he
      obtain ⟨temporary, hfree, hput⟩ := hmoved d out bytes hout hlinks hclear
      rw [hput, rename_below hout hlinks h hclear hfree hfits]
    · obtain ⟨e, -, he⟩ := locate_of_not_fits hfits
      refine ⟨fun _ => .error (.io p e), fun _ he => he, fun d out bytes hout hlinks hclear => ?_⟩
      obtain ⟨temporary, -, hput⟩ := hmoved d out bytes hout hlinks hclear
      rw [hput]
      unfold rename
      rw [he]
      rfl
  · obtain ⟨e, he⟩ := locateDirectory_of_not_fits htemporary
    refine ⟨fun _ => .error (.io p.directory e), fun _ he => he, fun d out bytes _ _ _ => ?_⟩
    rw [putIn_of_error (he d)]

section

variable (hout : d.LeadsTo q out) (hlinks : NoLinkBelow d.tree out)
include hout hlinks

theorem get?_replaceFile (h : Below q names p) (hne : names ≠ []) (temporary : String)
    (bytes : ByteArray) (l : Location) :
    (d.replaceFile temporary p bytes).1.tree.get? l =
      if (d.replaceFile temporary p bytes).2 = .ok () ∧ l = out ++ names then some (.file bytes)
      else d.tree.get? l := by
  cases hresult : (d.replaceFile temporary p bytes).2 with
  | error e => rw [(replaceFile_error hresult).2, if_neg fun hok => nomatch hok.1]
  | ok _ =>
    obtain ⟨place, hlocate, -, -, hget⟩ := replaceFile_replaced hresult
    obtain rfl := place_below hout hlinks h hne hlocate
    rw [hget]
    simp only [true_and]

theorem get?_putIn (h : Below q (names ++ [n]) p) (bytes : ByteArray) (l : Location) :
    (d.putIn p bytes).1.tree.get? l =
      if (d.putIn p bytes).2 = .ok () ∧ l = out ++ (names ++ [n]) then some (.file bytes)
      else d.tree.get? l := by
  cases hplace : d.locateDirectory p.directory with
  | error e => rw [putIn_of_error hplace, if_neg fun hok => nomatch hok.1]
  | ok place =>
    obtain ⟨temporary, -, hput⟩ := putIn_of_place hplace bytes
    rw [hput]
    dsimp only
    rw [get?_replaceFile hout hlinks h (by simp)]
    simp only [Logged.except_mapError_eq_ok_iff]

/-- Nothing changes elsewhere. -/
theorem putIn_agree (h : Below q (names ++ [n]) p) (hclear : Clear d.tree out names)
    (bytes : ByteArray) : Agree out d (d.putIn p bytes).1 := by
  obtain ⟨hdirectory, -⟩ := h.directory
  by_cases htemporary : (p.directory.join ⟨temporaryName 0⟩).Fits
  · have hplace := locateDirectory_below hout hlinks hdirectory hclear htemporary
    obtain ⟨temporary, hfree, hput⟩ := putIn_of_place hplace bytes
    rw [hput]
    exact replaceFile_agree hout hlinks h hplace hfree
  · obtain ⟨e, he⟩ := locateDirectory_of_not_fits htemporary
    rw [putIn_of_error (he d)]
    exact .refl hlinks

end

/-! ## With the directories on the way -/

/-- A path that does not fit is not even tried. -/
theorem put_of_not_fits (hfits : ¬ p.directory.Fits) :
    ∃ e, ∀ (d : Disk) (bytes : ByteArray), d.put p bytes = (d, .error e) := by
  obtain ⟨e, he⟩ := createDirectories_of_not_fits hfits
  refine ⟨.io p.directory e, fun d bytes => ?_⟩
  unfold put
  rw [he]

section

variable (hout : d.LeadsTo q out) (hlinks : NoLinkBelow d.tree out) (ht : Housed d.tree)
include hout hlinks ht

theorem put_of_fits (h : Below q (names ++ [n]) p) (hfits : p.directory.Fits) (bytes : ByteArray) :
    d.put p bytes =
      match (makeDown d.tree out names).2 with
      | .error e => ({ d with tree := (makeDown d.tree out names).1 }, .error (.io p.directory e))
      | .ok _ => ({ d with tree := (makeDown d.tree out names).1 } : Disk).putIn p bytes := by
  obtain ⟨hdirectory, -⟩ := h.directory
  unfold put
  rw [createDirectories_below hout hlinks ht hdirectory hfits]

/-- Directories are made on the way, and a file is put in its place, if nothing fails. -/
theorem get?_put (h : Below q (names ++ [n]) p) (bytes : ByteArray) (l : Location) :
    (d.put p bytes).2 = .ok () ∧ l = out ++ (names ++ [n]) ∧
        (d.put p bytes).1.tree.get? l = some (.file bytes) ∨
      ((d.put p bytes).2 = .ok () → l ≠ out ++ (names ++ [n])) ∧
        ((d.put p bytes).1.tree.get? l = d.tree.get? l ∨
          d.tree.get? l = none ∧ (d.put p bytes).1.tree.get? l = some .directory ∧
            ∃ pre, pre ≠ [] ∧ pre <+: names ∧ l = out ++ pre) := by
  by_cases hfits : p.directory.Fits
  · have hmade := get?_makeDown d.tree out names l
    have hagree := makeDown_agree (d := d) hlinks names
    rw [put_of_fits hout hlinks ht h hfits]
    cases (makeDown d.tree out names).2 with
    | error e => exact .inr ⟨nofun, hmade⟩
    | ok _ =>
      dsimp only
      rw [get?_putIn (hout.agree hagree) hagree.noLink' h]
      split
      · next hplace => exact .inl ⟨hplace.1, hplace.2, rfl⟩
      · next hplace => exact .inr ⟨fun hok hl => hplace ⟨hok, hl⟩, hmade⟩
  · obtain ⟨e, he⟩ := put_of_not_fits hfits
    rw [he]
    exact .inr ⟨nofun, .inl rfl⟩

/-- Whatever comes of it, nothing changes elsewhere. -/
theorem put_agree (h : Below q (names ++ [n]) p) (bytes : ByteArray) :
    Agree out d (d.put p bytes).1 := by
  by_cases hfits : p.directory.Fits
  · have hagree := makeDown_agree (d := d) hlinks names
    rw [put_of_fits hout hlinks ht h hfits]
    cases hmade : (makeDown d.tree out names).2 with
    | error e => exact hagree
    | ok _ =>
      have hclear := makeDown_clear hout.directory hmade
      exact hagree.trans (putIn_agree (hout.agree hagree) hagree.noLink' h hclear bytes)
  · obtain ⟨e, he⟩ := put_of_not_fits hfits
    rw [he]
    exact .refl hlinks

end

theorem put_housed (ht : Housed d.tree) (p : Path) (bytes : ByteArray) :
    Housed (d.put p bytes).1.tree := by
  have hmade := createDirectories_housed ht p.directory
  unfold put putIn
  split
  · exact hmade
  · split
    · exact hmade
    · exact replaceFile_housed hmade _ _ _

theorem put_keeps (d : Disk) (p : Path) (bytes : ByteArray) :
    d.tree.Keeps (d.put p bytes).1.tree := by
  have hmade := createDirectories_keeps d p.directory
  unfold put putIn
  split
  · exact hmade
  · split
    · exact hmade
    · exact hmade.trans (replaceFile_keeps _ _ _ _)

theorem putIn_keeps (d : Disk) (p : Path) (bytes : ByteArray) :
    d.tree.Keeps (d.putIn p bytes).1.tree := by
  unfold putIn
  split
  · exact .refl _
  · exact replaceFile_keeps _ _ _ _

theorem get?_makeDown_last (t : FileTree) (out : Location) (names : List String) (n : String) :
    (makeDown t out names).1.get? (out ++ (names ++ [n])) = t.get? (out ++ (names ++ [n])) := by
  refine (get?_makeDown _ _ _ _).resolve_right ?_
  rintro ⟨-, -, pre, -, hpre, heq⟩
  have hlength := hpre.length_le
  rw [← List.append_cancel_left heq, List.length_append, List.length_singleton] at hlength
  omega

section

variable (hout : d.LeadsTo q out) (hlinks : NoLinkBelow d.tree out) (ht : Housed d.tree)
  (hout' : d'.LeadsTo q out) (hlinks' : NoLinkBelow d'.tree out) (ht' : Housed d'.tree)
include hout hlinks ht hout' hlinks' ht'

/-- **The same file on another disk.** A file is put in its place in the same way where there are more
directories on the way at most. -/
theorem put_carried (h : Below q (names ++ [n]) p) (hnearby : Nearby d.tree d'.tree out names)
    (hplace : d'.tree.get? (out ++ (names ++ [n])) = d.tree.get? (out ++ (names ++ [n])))
    (bytes : ByteArray) :
    (d'.put p bytes).2 = (d.put p bytes).2 ∧
      Carried d.tree (d.put p bytes).1.tree d'.tree (d'.put p bytes).1.tree := by
  by_cases hfits : p.directory.Fits
  · obtain ⟨hresult, hcarried⟩ := makeDown_carried hnearby
    have hagree := makeDown_agree (d := d) hlinks names
    have hagree' := makeDown_agree (d := d') hlinks' names
    rw [put_of_fits hout hlinks ht h hfits, put_of_fits hout' hlinks' ht' h hfits, hresult]
    cases hmade : (makeDown d.tree out names).2 with
    | error e => exact ⟨rfl, hcarried⟩
    | ok _ =>
      rw [hmade] at hresult
      have hclear := makeDown_clear hout.directory hmade
      have hclear' := makeDown_clear hout'.directory hresult
      obtain ⟨verdict, -, hverdict⟩ := exists_verdict h
      have hput := hverdict _ out bytes (hout.agree hagree) hagree.noLink' hclear
      have hput' := hverdict _ out bytes (hout'.agree hagree') hagree'.noLink' hclear'
      have hsame : (makeDown d'.tree out names).1.isDirectory (out ++ names ++ [n]) =
          (makeDown d.tree out names).1.isDirectory (out ++ names ++ [n]) := by
        unfold FileTree.isDirectory
        rw [List.append_assoc, get?_makeDown_last, get?_makeDown_last, hplace]
      dsimp only at hput hput' ⊢
      rw [hsame, ← hput] at hput'
      refine ⟨hput', fun l => ?_⟩
      rw [get?_putIn (hout.agree hagree) hagree.noLink' h,
        get?_putIn (hout'.agree hagree') hagree'.noLink' h, hput']
      split
      · next hl =>
        refine ⟨fun hsame => ?_, fun _ => rfl⟩
        rw [hl.2, hplace, ← hl.2]
        exact hsame
      · exact hcarried l
  · obtain ⟨e, he⟩ := put_of_not_fits hfits
    rw [he, he]
    exact ⟨rfl, .refl _ _⟩

/-- **The same file once more.** A file that has been put in its place, or could not be, comes to the
same when it is put there again, whatever has come after it. -/
theorem put_again (h : Below q (names ++ [n]) p) (bytes : ByteArray)
    (hkept : (d.put p bytes).1.tree.Keeps d'.tree) :
    (d'.put p bytes).2 = (d.put p bytes).2 ∧
      ∀ l, (d'.put p bytes).1.tree.get? l =
        if (d.put p bytes).2 = .ok () ∧ l = out ++ (names ++ [n]) then some (.file bytes)
        else d'.tree.get? l := by
  by_cases hfits : p.directory.Fits
  · rw [put_of_fits hout hlinks ht h hfits] at hkept ⊢
    rw [put_of_fits hout' hlinks' ht' h hfits]
    have hagree := makeDown_agree (d := d) hlinks names
    cases hmade : (makeDown d.tree out names).2 with
    | error e =>
      rw [hmade] at hkept
      rw [makeDown_again hkept, hmade]
      exact ⟨rfl, fun l => by rw [if_neg fun hok => nomatch hok.1]⟩
    | ok _ =>
      rw [hmade] at hkept
      dsimp only at hkept
      have hagain := makeDown_again ((putIn_keeps _ p bytes).trans hkept)
      rw [hmade] at hagain
      have hclear := makeDown_clear hout.directory hmade
      have hclear' : Clear d'.tree out names := by
        have hcleared := makeDown_clear hout'.directory (congrArg Prod.snd hagain)
        rwa [hagain] at hcleared
      obtain ⟨verdict, hworse, hverdict⟩ := exists_verdict h
      have hput := hverdict _ out bytes (hout.agree hagree) hagree.noLink' hclear
      have hput' := hverdict d' out bytes hout' hlinks' hclear'
      rw [hagain]
      dsimp only at hput ⊢
      have hresult : (d'.putIn p bytes).2 =
          (({ d with tree := (makeDown d.tree out names).1 } : Disk).putIn p bytes).2 := by
        rw [hput, hput']
        have hkind {kind : Bool} (hk : (({ d with tree := (makeDown d.tree out names).1 } :
            Disk).putIn p bytes).1.tree.kind? (out ++ names ++ [n]) = some kind) :
            d'.tree.isDirectory (out ++ names ++ [n]) = kind := FileTree.isDirectory_of_kind? (hkept _ _ hk)
        cases hdir : (makeDown d.tree out names).1.isDirectory (out ++ names ++ [n]) with
        | true =>
          rw [hkind (putIn_keeps _ p bytes _ true (FileTree.kind?_of_get? (e := .directory)
            (FileTree.isDirectory_iff.1 hdir)))]
        | false =>
          rw [hdir] at hput
          cases hfalse : verdict false with
          | error e =>
            cases d'.tree.isDirectory (out ++ names ++ [n]) with
            | false => exact hfalse
            | true => exact hworse e hfalse
          | ok _ =>
            have hfile := get?_putIn (hout.agree hagree) hagree.noLink' h bytes (out ++ names ++ [n])
            rw [if_pos ⟨hput.trans hfalse, List.append_assoc _ _ _⟩] at hfile
            rw [hkind (FileTree.kind?_of_get? hfile)]
            exact hfalse
      refine ⟨hresult, fun l => ?_⟩
      rw [get?_putIn hout' hlinks' h, hresult]
  · obtain ⟨e, he⟩ := put_of_not_fits hfits
    rw [he, he]
    exact ⟨rfl, fun l => by rw [if_neg fun hok => nomatch hok.1]⟩

end

end Disk

end StaticSite
